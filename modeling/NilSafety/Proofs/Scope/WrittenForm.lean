import NilSafety.Proofs.Scope.Directives
import NilSafety.Proofs.Scope.Registrations

/-!
Contract: the written form of activations, read back.

Owns:
- the activations that directives can stand for, and that reading gives no others;
- that the written form of such an activation is read back as this activation;
- that a set of them, written rule by rule, is built again with the same rules.

Does not own: the grammar that the written form is read by.
-/

namespace NilSafety

namespace Activation

/-- The activation is for a path that the dotted notation can write, other than the
root. -/
structure IsWritable (activation : Activation) : Prop where
  notRoot : activation.path ≠ .root
  wellFormed : activation.path.IsWellFormed

/-! ### Parts of the written form -/

/-- The ending of the written form. -/
def ending (activation : Activation) : List Char :=
  if activation.recursive then recursiveEnding.toList else []

theorem toList_text (activation : Activation) :
    activation.text.toList =
      activation.feature.name.toList ++ '=' :: (activation.path.text.toList ++ activation.ending) := by
  unfold text ending
  cases activation.recursive <;> simp [toString]

theorem names_name (feature : Feature) : Directive.Names feature.name.toList [feature] := by
  unfold Directive.Names
  cases feature <;> decide +kernel

theorem isTrimmed_name (feature : Feature) : Text.IsTrimmed feature.name.toList := by
  have noBlank : (feature.name.toList.all fun c => !Text.isBlank c) = true := by
    cases feature <;> decide +kernel
  apply Text.isTrimmed_of_forall
  simpa using noBlank

theorem isBlank_of_mem_ending {activation : Activation} {c : Char} (inEnding : c ∈ activation.ending) :
    Text.isBlank c = false := by
  unfold ending at inEnding
  split at inEnding
  next =>
    have oneOf : c = '.' ∨ c = '*' := by simpa [recursiveEnding] using inEnding
    rcases oneOf with rfl | rfl <;> decide
  next => cases inEnding

theorem splits_text {activation : Activation} (wellFormed : activation.path.IsWellFormed) :
    Directive.Splits activation.text activation.feature.name.toList
      (activation.path.text.toList ++ activation.ending) := by
  refine ⟨_, _, activation.toList_text, ?_, ?_, ?_⟩
  · cases activation.feature <;> decide
  · exact (Text.trimChars_of_isTrimmed (isTrimmed_name activation.feature)).symm
  · refine (Text.trimChars_of_isTrimmed (Text.isTrimmed_of_forall ?_)).symm
    intro c inTarget
    rcases List.mem_append.mp inTarget with inPath | inEnding
    · exact Path.isBlank_of_mem_text wellFormed inPath
    · exact isBlank_of_mem_ending inEnding

/-- No path ends like a recursive target, so the ending tells the two kinds apart. -/
theorem stem_text {activation : Activation} (wellFormed : activation.path.IsWellFormed) :
    Directive.Stem (activation.path.text.toList ++ activation.ending)
      activation.path.text.toList activation.recursive := by
  unfold Directive.Stem ending
  cases activation.recursive with
  | true => rfl
  | false =>
      refine ⟨List.append_nil _, fun ends => Directive.asterisk_notMem_text wellFormed ?_⟩
      have asterisk : '*' ∈ recursiveEnding.toList := by decide
      simpa using ends.subset asterisk

theorem pointsAt_text {activation : Activation} (writable : activation.IsWritable) :
    Directive.PointsAt (activation.path.text.toList ++ activation.ending)
      activation.path activation.recursive := by
  refine ⟨_, stem_text writable.wellFormed, writable.notRoot, writable.wellFormed, ?_⟩
  apply Text.trimChars_of_isTrimmed
  exact Text.isTrimmed_of_forall fun c inText => Path.isBlank_of_mem_text writable.wellFormed inText

/-! ### Reading -/

/-- The written form of an activation is a directive for it alone. -/
theorem parseDirective_text {activation : Activation} (writable : activation.IsWritable) :
    parseDirective activation.text = .ok [activation] :=
  Directive.parse_of_reads
    (.activations (splits_text writable.wellFormed) (names_name activation.feature)
      (pointsAt_text writable))

/-- A text is read as an activation if it is a directive for it alone. -/
theorem parse_eq_ok_iff {directive : String} {activation : Activation} :
    parse directive = .ok activation ↔ parseDirective directive = .ok [activation] := by
  unfold parse
  split
  next problem fails => simp [fails]
  next read => simp [read]
  next several read =>
    rw [read]
    refine ⟨nofun, fun same => ?_⟩
    exact absurd (Except.ok.inj same) (several activation)

/-- Directives stand for writable activations only. -/
theorem isWritable_of_parseDirective
    {directive : String}
    {activations : List Activation}
    (read : parseDirective directive = .ok activations) :
    ∀ activation ∈ activations, activation.IsWritable := by
  obtain ⟨outcome, reads⟩ := Directive.exists_reads directive
  rw [Directive.parse_of_reads reads] at read
  cases read
  cases reads with
  | activations _ _ points =>
      obtain ⟨_, -, notRoot, wellFormed, -⟩ := points
      intro activation isRead
      obtain ⟨feature, -, rfl⟩ := List.mem_map.mp isRead
      exact ⟨notRoot, wellFormed⟩

end Activation

/-! ### Sets -/

namespace ActivationSet

/-- The activations of one feature, picked from those of another. -/
theorem filter_filter_feature (activations : List Activation) (feature other : Feature) :
    (activations.filter (·.feature = other)).filter (·.feature = feature) =
      if other = feature then activations.filter (·.feature = feature) else [] := by
  rw [List.filter_filter]
  split
  next same =>
    subst same
    simp
  next differ =>
    simp only [List.filter_eq_nil_iff, Bool.and_eq_true, decide_eq_true_eq]
    rintro activation - ⟨isFeature, isOther⟩
    exact differ (isOther.symm.trans isFeature)

theorem filter_rules (set : ActivationSet) (feature : Feature) :
    set.rules.filter (·.feature = feature) = set.activations.filter (·.feature = feature) := by
  rw [rules, List.filter_flatMap]
  simp only [filter_filter_feature]
  cases feature <;> simp [Feature.all]

end ActivationSet

namespace Builder

/-- The written forms of activations register these activations. -/
theorem directives_text
    {activations : List Activation}
    (writable : ∀ activation ∈ activations, activation.IsWritable)
    (builder : Builder) :
    builder.directives (activations.map Activation.text) = .ok (builder.extend activations) := by
  induction activations generalizing builder with
  | nil => exact congrArg Except.ok builder.extend_nil.symm
  | cons activation others inductionHypothesis =>
      rw [List.forall_mem_cons] at writable
      unfold directives at inductionHypothesis ⊢
      rw [List.map_cons, List.foldlM_cons, directive, Activation.parseDirective_text writable.1]
      refine (inductionHypothesis writable.2 _).trans ?_
      rw [extend_extend, List.singleton_append]

/-- The rules of a set build a set with these rules. -/
theorem exists_build_rules (set : ActivationSet) :
    ∃ set', (empty.extend set.rules).build = .ok set' ∧ set'.rules = set.rules ∧
      ∀ place, set'.featuresAt place = set.featuresAt place := by
  have collected : (empty.extend set.rules).activations = set.rules := List.nil_append _
  have notRoot : ∀ activation ∈ (empty.extend set.rules).activations, activation.path ≠ .root := by
    intro activation isRule isRoot
    rw [collected, ActivationSet.mem_rules] at isRule
    exact absurd (Path.isRoot_iff.mpr isRoot) (by simp [set.not_root activation isRule])
  obtain ⟨set', built⟩ := exists_build_iff.mpr notRoot
  have holds : set'.activations = set.rules := by
    rw [activations_of_build built, collected, eraseDups_of_nodup set.rules_nodup]
  refine ⟨set', built, ?_, fun place => FeatureSet.ext_contains fun feature => ?_⟩
  · rw [ActivationSet.rules, holds]
    exact congrArg (Feature.all.flatMap ·) (funext set.filter_rules)
  · simp only [ActivationSet.contains_featuresAt, holds, ActivationSet.mem_rules]

end Builder

/-- **Directives round-trip.** The written form of an activation is read back as it, for
every path that the notation can write, whatever letters it holds. Reading gives no other
activations, so what was read can be written and read again. A set of such activations is
built again from the written forms of its rules: with the same rules in the same order,
and with the same features in effect everywhere. -/
theorem directives_round_trip :
    (∀ activation : Activation,
      activation.path ≠ .root → activation.path.IsWellFormed →
        Activation.parse activation.text = .ok activation) ∧
    (∀ directive activation, Activation.parse directive = .ok activation →
      activation.path ≠ .root ∧ activation.path.IsWellFormed ∧
        Activation.parse activation.text = .ok activation) ∧
    ∀ set : ActivationSet,
      (∀ activation ∈ set.rules, activation.path.IsWellFormed) →
        ∃ builder set',
          Builder.empty.directives (set.rules.map Activation.text) = .ok builder ∧
          builder.build = .ok set' ∧
          set'.rules = set.rules ∧
          ∀ place, set'.featuresAt place = set.featuresAt place := by
  have readBack : ∀ activation : Activation, activation.IsWritable →
      Activation.parse activation.text = .ok activation := fun activation writable =>
    Activation.parse_eq_ok_iff.mpr (Activation.parseDirective_text writable)
  refine ⟨fun activation notRoot wellFormed => readBack activation ⟨notRoot, wellFormed⟩, ?_, ?_⟩
  · intro directive activation read
    have writable : activation.IsWritable :=
      Activation.isWritable_of_parseDirective (Activation.parse_eq_ok_iff.mp read) activation
        List.mem_cons_self
    exact ⟨writable.notRoot, writable.wellFormed, readBack activation writable⟩
  · intro set wellFormed
    have writable : ∀ activation ∈ set.rules, activation.IsWritable := by
      intro activation isRule
      refine ⟨fun isRoot => ?_, wellFormed activation isRule⟩
      have notRoot := set.not_root activation (ActivationSet.mem_rules.mp isRule)
      rw [Path.isRoot_iff.mpr isRoot] at notRoot
      cases notRoot
    obtain ⟨set', built, sameRules, sameFeatures⟩ := Builder.exists_build_rules set
    exact ⟨_, set', Builder.directives_text writable Builder.empty, built, sameRules, sameFeatures⟩

/-- Segments of letters beyond ASCII, in a set whose order the rules change. -/
theorem directives_round_trip_of_letters :
    let guarded : Activation := ⟨⟨["données", "État_1"]⟩, true, .guards⟩
    let navigated : Activation := ⟨⟨["шаг"]⟩, false, .navigation⟩
    let set : ActivationSet := ⟨[guarded, navigated], by decide, by decide⟩
    Activation.parse " Guard = données.État_1 .* " = .ok guarded ∧
      Activation.parse guarded.text = .ok guarded ∧
      ∃ builder set',
        Builder.empty.directives (set.rules.map Activation.text) = .ok builder ∧
        builder.build = .ok set' ∧
        set'.rules = [navigated, guarded] := by
  intro guarded navigated set
  obtain ⟨written, readBack, rebuilt⟩ := directives_round_trip
  have read : Activation.parse " Guard = données.État_1 .* " = .ok guarded := by decide +kernel
  obtain ⟨notRoot, wellFormed, -⟩ := readBack _ _ read
  obtain ⟨builder, set', registered, built, sameRules, -⟩ := rebuilt set (by decide +kernel)
  exact ⟨read, written guarded notRoot wellFormed, builder, set', registered, built, sameRules⟩

end NilSafety
