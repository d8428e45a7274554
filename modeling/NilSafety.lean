import NilSafety.Eval.Picture
import NilSafety.Eval.Session
import NilSafety.Eval.StockNative
import NilSafety.Presence.Combinators
import NilSafety.Rewrite.Build
import NilSafety.Scope.Builder
import NilSafety.Scope.Installation
import NilSafety.Tree.Assembly
import NilSafety.Tree.Source
import NilSafety.Proofs.Arrays.Meaning
import NilSafety.Proofs.Arrays.Sequences
import NilSafety.Proofs.Guards.Entry
import NilSafety.Proofs.Guards.Owners
import NilSafety.Proofs.Guards.Transparency
import NilSafety.Proofs.Navigation.Meaning
import NilSafety.Proofs.Navigation.NullLinks
import NilSafety.Proofs.Rewriting.Collapse
import NilSafety.Proofs.Rewriting.Hygiene
import NilSafety.Proofs.Rewriting.MoreActivations
import NilSafety.Proofs.Rewriting.Repetition
import NilSafety.Proofs.Rewriting.Staging
import NilSafety.Proofs.Rewriting.Targets
import NilSafety.Proofs.Scope.WrittenForm
import NilSafety.Proofs.Source.Indentation
import NilSafety.Proofs.Source.TypeNotes
import NilSafety.Proofs.Evaluation.HostEquality
import NilSafety.Proofs.Evaluation.Places
import NilSafety.Proofs.Evaluation.Restoration
import NilSafety.Proofs.Scope.BarePaths
import NilSafety.Proofs.Evaluation.BlockStructure
import NilSafety.Proofs.Log.Configuration
import NilSafety.Proofs.Symbols.HandingOut
import NilSafety.Proofs.Symbols.Interning
