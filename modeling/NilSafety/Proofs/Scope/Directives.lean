import NilSafety.Proofs.Paths.Notation
import NilSafety.Proofs.Scope.Coverage
import NilSafety.Scope.Directive

/-!
Contract: the grammar of directives.

Owns:
- the parts of a directive: the name in front of the first equals sign, the target
  behind it, and the stem of a target without its recursive ending;
- what names stand for, and what targets point at;
- the outcome that each text has by this grammar, faults included, and that reading
  comes to it.

Does not own: the written form of activations.

Several faults may meet in one text. The grammar says which one counts: a missing
equals sign before a malformed path, this before an unknown feature, and that before
an empty path.
-/

namespace NilSafety

namespace Directive

/-! ### Parts -/

/-- The text is a name and a target with an equals sign between them, the first one of
the text. Blanks around either do not count. -/
def Splits (directive : String) (name target : List Char) : Prop :=
  ∃ before after, directive.toList = before ++ '=' :: after ∧ '=' ∉ before ∧
    name = Text.trimChars before ∧ target = Text.trimChars after

/-- What a target names without its recursive ending, and whether it has one. -/
def Stem (target stem : List Char) (recursive : Bool) : Prop :=
  if recursive then target = stem ++ Activation.recursiveEnding.toList
  else target = stem ∧ ¬ Activation.recursiveEnding.toList <:+ target

/-- The names of features, each with the features that it stands for. -/
def names : List (String × List Feature) := [
  ("navigation", [.navigation]), ("nav", [.navigation]),
  ("api", [.guards]), ("api_guard", [.guards]), ("guard", [.guards]),
  ("array", [.arrays]), ("sequence", [.arrays]),
  ("all", Feature.all)]

/-- The name stands for the features. The case of ASCII letters does not count. -/
def Names (name : List Char) (features : List Feature) : Prop :=
  ((String.ofList name).toLower, features) ∈ names

/-- The target names a path other than the root, blanks around it not counted, and
reaches beneath it if it has the recursive ending. -/
def PointsAt (target : List Char) (path : Path) (recursive : Bool) : Prop :=
  ∃ stem, Stem target stem recursive ∧ path ≠ .root ∧ path.IsWellFormed ∧
    Text.trimChars stem = path.text.toList

/-- The target names the root. -/
def PointsAtRoot (target : List Char) : Prop :=
  target = [] ∨ target = ['.', '*'] ∨ target = ['*']

/-- What a text says as a directive, or why it is none. -/
inductive Reads (directive : String) : Except Problem (List Activation) → Prop where
  | activations {name target : List Char} {features : List Feature} {path : Path}
      {recursive : Bool} :
      Splits directive name target → Names name features → PointsAt target path recursive →
      Reads directive (.ok (features.map (Activation.mk path recursive)))
  | noEquals : '=' ∉ directive.toList →
      Reads directive (.error (.invalidDirective directive .noEquals))
  | badPath {name target stem : List Char} {recursive : Bool} :
      Splits directive name target → Stem target stem recursive → ¬ PointsAtRoot target →
      (∀ path recursive, ¬ PointsAt target path recursive) →
      Reads directive (.error (.invalidDirective directive (.badPath ⟨String.ofList stem⟩)))
  | unknownFeature {name target : List Char} :
      Splits directive name target →
      (PointsAtRoot target ∨ ∃ path recursive, PointsAt target path recursive) →
      (∀ features, ¬ Names name features) →
      Reads directive
        (.error (.invalidDirective directive (.unknownFeature ⟨String.ofList name⟩)))
  | emptyPath {name target : List Char} {feature : Feature} {others : List Feature} :
      Splits directive name target → Names name (feature :: others) → PointsAtRoot target →
      Reads directive (.error (.emptyPath feature))

/-! ### Names -/

section

variable {name : List Char} (trimmed : Text.IsTrimmed name)

include trimmed

theorem trim_name : Text.trim (String.ofList name) = String.ofList name := by
  rw [Text.trim, String.toList_ofList, Text.trimChars_of_isTrimmed trimmed]

theorem readFeatures_of_names {features : List Feature} (named : Names name features) :
    Activation.readFeatures (String.ofList name) = .ok features := by
  unfold Activation.readFeatures Feature.parse
  rw [trim_name trimmed]
  unfold Names names at named
  generalize (String.ofList name).toLower = lower at named ⊢
  simp only [List.mem_cons, Prod.mk.injEq, List.not_mem_nil, or_false] at named
  rcases named with ⟨rfl, rfl⟩ | ⟨rfl, rfl⟩ | ⟨rfl, rfl⟩ | ⟨rfl, rfl⟩ | ⟨rfl, rfl⟩ | ⟨rfl, rfl⟩ |
    ⟨rfl, rfl⟩ | ⟨rfl, rfl⟩ <;> rfl

theorem readFeatures_of_unknown (unknown : ∀ features, ¬ Names name features) :
    Activation.readFeatures (String.ofList name) = .error ⟨String.ofList name⟩ := by
  have other : ∀ entry ∈ names, (String.ofList name).toLower ≠ entry.1 := by
    rintro ⟨word, features⟩ isEntry isWord
    apply unknown features
    rw [Names, isWord]
    exact isEntry
  unfold Activation.readFeatures Feature.parse
  rw [trim_name trimmed]
  generalize (String.ofList name).toLower = lower at other ⊢
  have notAll : lower ≠ "all" := other ("all", Feature.all) (by decide)
  rw [if_neg notAll]
  -- Every word that reading knows is the name of some entry.
  split
  next => exact absurd rfl (other ("navigation", [.navigation]) (by decide))
  next => exact absurd rfl (other ("nav", [.navigation]) (by decide))
  next => exact absurd rfl (other ("api", [.guards]) (by decide))
  next => exact absurd rfl (other ("api_guard", [.guards]) (by decide))
  next => exact absurd rfl (other ("guard", [.guards]) (by decide))
  next => exact absurd rfl (other ("array", [.arrays]) (by decide))
  next => exact absurd rfl (other ("sequence", [.arrays]) (by decide))
  next => rfl

end

/-! ### Targets -/

theorem exists_stem (target : List Char) : ∃ stem recursive, Stem target stem recursive := by
  by_cases ends : Activation.recursiveEnding.toList <:+ target
  · obtain ⟨stem, same⟩ := ends
    exact ⟨stem, true, same.symm⟩
  · exact ⟨target, false, rfl, ends⟩

theorem readTarget_of_stem
    {target stem : List Char}
    {recursive : Bool}
    (isStem : Stem target stem recursive)
    (notRoot : target ≠ ['*']) :
    Activation.readTarget target = (stem, recursive) := by
  unfold Activation.readTarget
  cases recursive with
  | true =>
      have same : target = stem ++ Activation.recursiveEnding.toList := isStem
      rw [same, Text.withoutEnding_append]
  | false =>
      obtain ⟨rfl, other⟩ : target = stem ∧ ¬ Activation.recursiveEnding.toList <:+ target := isStem
      rw [Text.withoutEnding_of_not_suffix other]
      exact if_neg notRoot

/-- An asterisk belongs to no notation of a path. -/
theorem asterisk_notMem_text {path : Path} (wellFormed : path.IsWellFormed) :
    '*' ∉ path.text.toList := by
  intro inText
  rcases Path.isSegmentChar_of_mem_text wellFormed inText with inSegment | isDot
  · exact absurd inSegment (by decide)
  · exact absurd isDot (by decide)

/-- The root is named by an empty stem or by an asterisk alone. -/
theorem readTarget_of_pointsAtRoot {target : List Char} (atRoot : PointsAtRoot target) :
    ∃ recursive, Activation.readTarget target = ([], recursive) := by
  rcases atRoot with rfl | rfl | rfl <;> exact ⟨_, rfl⟩

/-- The stem of a target that names a path is read as this path. -/
theorem read_of_pointsAt
    {target : List Char}
    {path : Path}
    {recursive : Bool}
    (points : PointsAt target path recursive) :
    ∃ stem, Activation.readTarget target = (stem, recursive) ∧
      Path.parse (String.ofList stem) = .ok path := by
  obtain ⟨stem, isStem, notRoot, wellFormed, isText⟩ := points
  refine ⟨stem, readTarget_of_stem isStem ?_, Path.parse_eq_ok_iff.mpr ⟨wellFormed, ?_⟩⟩
  · rintro rfl
    cases recursive with
    | true =>
        have same : ['*'] = stem ++ ['.', '*'] := isStem
        have length := congrArg List.length same
        simp at length
    | false =>
        obtain ⟨rfl, -⟩ : ['*'] = stem ∧ _ := isStem
        apply asterisk_notMem_text wellFormed
        rw [← isText]
        decide
  · rw [String.toList_ofList, isText]

/-- A target whose stem is the notation of a path names this path or is one of the three
texts for the root. -/
theorem pointsAt_or_root
    {target stem : List Char}
    {recursive : Bool}
    {path : Path}
    (trimmed : Text.IsTrimmed target)
    (isStem : Stem target stem recursive)
    (wellFormed : path.IsWellFormed)
    (isText : Text.trimChars stem = path.text.toList) :
    PointsAtRoot target ∨ PointsAt target path recursive := by
  by_cases isRoot : path = .root
  · left
    rw [isRoot] at isText
    cases recursive with
    | true =>
        have same : target = stem ++ Activation.recursiveEnding.toList := isStem
        rw [same] at trimmed ⊢
        rw [Text.eq_nil_of_trimChars_eq_nil trimmed isText]
        exact .inr (.inl rfl)
    | false =>
        obtain ⟨rfl, -⟩ : target = stem ∧ _ := isStem
        rw [Text.trimChars_of_isTrimmed trimmed] at isText
        exact .inl isText
  · exact .inr ⟨stem, isStem, isRoot, wellFormed, isText⟩

/-! ### Reading -/

theorem Splits.isTrimmed
    {directive : String}
    {name target : List Char}
    (splits : Splits directive name target) :
    Text.IsTrimmed name ∧ Text.IsTrimmed target := by
  obtain ⟨before, after, -, -, rfl, rfl⟩ := splits
  exact ⟨Text.isTrimmed_trimChars before, Text.isTrimmed_trimChars after⟩

/-- What reading does with the parts of a directive. -/
theorem parseDirective_of_splits
    {directive : String}
    {name target stem : List Char}
    {recursive : Bool}
    (splits : Splits directive name target)
    (isTarget : Activation.readTarget target = (stem, recursive)) :
    Activation.parseDirective directive =
      match Path.parse (String.ofList stem) with
      | .error problem => .error (.invalidDirective directive (.badPath problem))
      | .ok path =>
          match Activation.readFeatures (String.ofList name) with
          | .error problem => .error (.invalidDirective directive (.unknownFeature problem))
          | .ok features =>
              match path.isRoot, features with
              | true, feature :: _ => .error (.emptyPath feature)
              | _, _ => .ok (features.map (Activation.mk path recursive)) := by
  obtain ⟨before, after, isText, isFirst, rfl, rfl⟩ := splits
  unfold Activation.parseDirective
  rewrite [isText, Text.cutAtFirst_append isFirst]
  dsimp only
  rewrite [isTarget]
  rfl

/-- The outcome that the grammar gives to a text is the one that reading comes to. -/
theorem parse_of_reads
    {directive : String}
    {outcome : Except Problem (List Activation)}
    (reads : Reads directive outcome) :
    Activation.parseDirective directive = outcome := by
  cases reads with
  | noEquals absent =>
      unfold Activation.parseDirective
      rw [Text.cutAtFirst_of_notMem absent]
  | activations splits named points =>
      obtain ⟨stem, isTarget, isPath⟩ := read_of_pointsAt points
      obtain ⟨-, -, notRoot, -⟩ := points
      rw [parseDirective_of_splits splits isTarget, isPath,
        readFeatures_of_names splits.isTrimmed.1 named]
      dsimp only
      rw [eq_false_of_ne_true (Path.isRoot_iff.not.mpr notRoot)]
  | @badPath name target stem recursive splits isStem notRoot nowhere =>
      have notAsterisk : target ≠ ['*'] := fun isAsterisk => notRoot (.inr (.inr isAsterisk))
      have refused : Path.parse (String.ofList stem) = .error ⟨String.ofList stem⟩ := by
        refine Path.parse_eq_error_iff.mpr ⟨rfl, fun path wellFormed isText => ?_⟩
        rw [String.toList_ofList] at isText
        rcases pointsAt_or_root splits.isTrimmed.2 isStem wellFormed isText with atRoot | points
        · exact notRoot atRoot
        · exact nowhere path recursive points
      rw [parseDirective_of_splits splits (readTarget_of_stem isStem notAsterisk), refused]
  | @unknownFeature name target splits somewhere unknown =>
      have isPath : ∃ stem recursive path, Activation.readTarget target = (stem, recursive) ∧
          Path.parse (String.ofList stem) = .ok path := by
        rcases somewhere with atRoot | ⟨path, recursive, points⟩
        · obtain ⟨recursive, isTarget⟩ := readTarget_of_pointsAtRoot atRoot
          exact ⟨[], recursive, .root, isTarget, rfl⟩
        · obtain ⟨stem, isTarget, isPath⟩ := read_of_pointsAt points
          exact ⟨stem, recursive, path, isTarget, isPath⟩
      obtain ⟨stem, recursive, path, isTarget, isPath⟩ := isPath
      rw [parseDirective_of_splits splits isTarget, isPath,
        readFeatures_of_unknown splits.isTrimmed.1 unknown]
  | @emptyPath name target feature others splits named atRoot =>
      obtain ⟨recursive, isTarget⟩ := readTarget_of_pointsAtRoot atRoot
      have isPath : Path.parse (String.ofList []) = .ok .root := rfl
      rewrite [parseDirective_of_splits splits isTarget, isPath,
        readFeatures_of_names splits.isTrimmed.1 named]
      rfl

theorem Names.exists_cons {name : List Char} {features : List Feature} (named : Names name features) :
    ∃ feature others, features = feature :: others := by
  have nonempty : ∀ entry ∈ names, ∃ feature others, entry.2 = feature :: others := by
    simp [names, Feature.all]
  exact nonempty _ named

/-- Every text has an outcome. -/
theorem exists_reads (directive : String) : ∃ outcome, Reads directive outcome := by
  by_cases hasEquals : '=' ∈ directive.toList
  · obtain ⟨before, after, isText, isFirst⟩ := List.eq_append_cons_of_mem hasEquals
    have splits : Splits directive (Text.trimChars before) (Text.trimChars after) :=
      ⟨before, after, isText, isFirst, rfl, rfl⟩
    by_cases atRoot : PointsAtRoot (Text.trimChars after)
    · by_cases named : ∃ features, Names (Text.trimChars before) features
      · obtain ⟨features, named⟩ := named
        obtain ⟨feature, others, rfl⟩ := named.exists_cons
        exact ⟨_, .emptyPath splits named atRoot⟩
      · exact ⟨_, .unknownFeature splits (.inl atRoot) (not_exists.mp named)⟩
    · by_cases points : ∃ path recursive, PointsAt (Text.trimChars after) path recursive
      · by_cases named : ∃ features, Names (Text.trimChars before) features
        · obtain ⟨features, named⟩ := named
          obtain ⟨path, recursive, points⟩ := points
          exact ⟨_, .activations splits named points⟩
        · exact ⟨_, .unknownFeature splits (.inr points) (not_exists.mp named)⟩
      · obtain ⟨stem, recursive, isStem⟩ := exists_stem (Text.trimChars after)
        refine ⟨_, .badPath splits isStem atRoot fun path recursive isPath => ?_⟩
        exact points ⟨path, recursive, isPath⟩
  · exact ⟨_, .noEquals hasEquals⟩

end Directive

/-- **The grammar of directives.** Reading comes to the outcome that the grammar gives to a
text, for every text and every outcome: to the activations of the features that its name
stands for if it is a directive, and to the fault that counts if it is none. -/
theorem directive_grammar_exact
    (directive : String)
    (outcome : Except Problem (List Activation)) :
    Activation.parseDirective directive = outcome ↔ Directive.Reads directive outcome := by
  refine ⟨fun read => ?_, Directive.parse_of_reads⟩
  obtain ⟨other, reads⟩ := Directive.exists_reads directive
  rwa [← read, Directive.parse_of_reads reads]

/-- Blanks, the case of letters and a nested recursive ending. -/
example :
    Activation.parseDirective " NAV = app . " =
        .error (.invalidDirective " NAV = app . " (.badPath ⟨"app ."⟩)) ∧
      Activation.parseDirective " All = app .* " =
        .ok (Activation.forAllFeatures ⟨["app"]⟩ true) ∧
      Activation.parseDirective "api=.*.*" =
        .error (.invalidDirective "api=.*.*" (.badPath ⟨".*"⟩)) := by
  decide +kernel

end NilSafety
