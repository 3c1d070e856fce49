import PeerExpansion.Configuration.Review
import PeerExpansion.Proofs.CachedProperty.Generation
import PeerExpansion.Proofs.Outcome

/-! # Settings of the wrong sort

A setting holds a value of whatever sort. A review of the configuration looks at some settings. The
target and the indentation are looked at only where a declaration that is found right needs them.
-/

namespace PeerExpansion

namespace Configuration

variable {configuration : Configuration}

/-! ## Reviews -/

/-- The settings that a review looks at are of sorts that it can deal with. -/
structure IsReviewable (configuration : Configuration) : Prop where
  suffix : ∃ text, configuration.suffix = .text text
  marker : configuration.emitPersistenceMarker.isTruthy = true →
    ∃ text, configuration.persistenceMarker = .text text
  indent : (∃ value, configuration.indentSize = .int value) ∨
    (∃ value, configuration.indentSize = .bool value) ∨
      ∃ spelling, configuration.indentSize = .decimal spelling

theorem exists_suffixWarnings_iff : (∃ warnings, configuration.suffixWarnings = .ok warnings) ↔
    ∃ text, configuration.suffix = .text text := by
  unfold suffixWarnings
  cases configuration.suffix with
  | text suffix =>
    refine iff_of_true ?_ ⟨suffix, rfl⟩
    dsimp only
    split <;> exact ⟨_, rfl⟩
  | _ => simp

theorem exists_markerWarnings_iff : (∃ warnings, configuration.markerWarnings = .ok warnings) ↔
    (configuration.emitPersistenceMarker.isTruthy = true →
      ∃ text, configuration.persistenceMarker = .text text) := by
  unfold markerWarnings
  split
  next emits =>
    simp only [emits, forall_const]
    cases configuration.persistenceMarker with
    | text marker =>
      refine iff_of_true ?_ ⟨marker, rfl⟩
      dsimp only
      split <;> exact ⟨_, rfl⟩
    | _ => simp
  next silent => exact iff_of_true ⟨_, rfl⟩ fun emits => absurd emits silent

theorem exists_indentWarnings_iff : (∃ warnings, configuration.indentWarnings = .ok warnings) ↔
    (∃ value, configuration.indentSize = .int value) ∨
      (∃ value, configuration.indentSize = .bool value) ∨
        ∃ spelling, configuration.indentSize = .decimal spelling := by
  have answers : (∃ warnings, configuration.indentWarnings = .ok warnings) ↔
      ∃ small, isBelowOne configuration.indentSize = .ok small := by
    unfold indentWarnings
    cases isBelowOne configuration.indentSize with
    | error misuse => simp [bind, Except.bind]
    | ok small =>
      refine iff_of_true ?_ ⟨small, rfl⟩
      dsimp only [bind, Except.bind]
      split <;> exact ⟨_, rfl⟩
  rw [answers]
  cases configuration.indentSize <;> simp [isBelowOne]

/-- A review comes to its warnings just if all that it looks at can be dealt with. -/
theorem exists_warnings_iff :
    (∃ warnings, configuration.warnings = .ok warnings) ↔ configuration.IsReviewable := by
  constructor
  · rintro ⟨warnings, ran⟩
    obtain ⟨suffix, suffixRan, ran⟩ := exists_of_bind_eq_ok ran
    obtain ⟨marker, markerRan, ran⟩ := exists_of_bind_eq_ok ran
    obtain ⟨indent, indentRan, -⟩ := exists_of_bind_eq_ok ran
    exact ⟨exists_suffixWarnings_iff.mp ⟨suffix, suffixRan⟩,
      exists_markerWarnings_iff.mp ⟨marker, markerRan⟩,
      exists_indentWarnings_iff.mp ⟨indent, indentRan⟩⟩
  · rintro ⟨suffix, marker, indent⟩
    obtain ⟨suffixWarnings, suffixRan⟩ := exists_suffixWarnings_iff.mpr suffix
    obtain ⟨markerWarnings, markerRan⟩ := exists_markerWarnings_iff.mpr marker
    obtain ⟨indentWarnings, indentRan⟩ := exists_indentWarnings_iff.mpr indent
    rw [warnings, suffixRan, markerRan, indentRan]
    exact ⟨_, rfl⟩

end Configuration

namespace CachedProperty

variable {configuration : Configuration} {machine suffix : String} {attr : Attribute}
  {declaration : Declaration}

/-! ## Generation -/

/-- Nothing is wrong with the attribute and its declaration, whatever the target is. -/
def IsAcceptable (configuration : Configuration) (attr : Attribute) (declaration : Declaration) :
    Prop :=
  ∃ reviewed, review configuration attr declaration = .ok reviewed

/-- No declaration can be served: the target is set, but to no text, or there is a decode step for
it and nothing to indent with. -/
def IsUnservable (machine : String) (configuration : Configuration) : Prop :=
  (configuration.targetPlatform.isTruthy = true ∧
    ∀ platform, configuration.targetPlatform ≠ .text platform) ∨
  (∃ step, DecodeStep.select machine configuration.targetPlatform configuration.resourceType
      "ImageCache" = .ok step) ∧
    ∃ misuse, configuration.indentUnit = .error misuse

theorem select_of_unnamed (truthy : configuration.targetPlatform.isTruthy = true)
    (unnamed : ∀ platform, configuration.targetPlatform ≠ .text platform) (attributeName : String) :
    DecodeStep.select machine configuration.targetPlatform configuration.resourceType
      attributeName = .error (.misused .notText) := by
  unfold DecodeStep.select
  dsimp only
  rw [if_pos truthy]
  split
  next platform same => exact absurd same (unnamed platform)
  next => rfl

/-- A generator that cannot serve stops over the declarations that are found right. -/
theorem exists_misuse_of_isUnservable (unservable : IsUnservable machine configuration)
    (acceptable : IsAcceptable configuration attr declaration) :
    ∃ misuse, (generate machine "ImageCache" configuration attr declaration).outcome =
      .error (.misused misuse) := by
  obtain ⟨reviewed, reviewed_eq⟩ := acceptable
  rw [outcome_generate, reviewed_eq]
  dsimp only [bind, Except.bind]
  obtain ⟨truthy, unnamed⟩ | ⟨⟨step, selected⟩, misuse, indent⟩ := unservable
  · rw [select_of_unnamed truthy unnamed]
    exact ⟨_, rfl⟩
  · rw [selected]
    dsimp only
    rw [peers, indent]
    exact ⟨misuse, rfl⟩

/-- Otherwise it answers its peers or complains about the declaration. -/
theorem generate_outcome_of_servable (suffix_eq : configuration.suffix = .text suffix)
    (servable : IsAcceptable configuration attr declaration →
      ¬IsUnservable machine configuration) :
    (∃ texts, (generate machine "ImageCache" configuration attr declaration).outcome = .ok texts) ∨
      ∃ complaint, (generate machine "ImageCache" configuration attr declaration).outcome =
        .error (.refused complaint) := by
  rw [outcome_generate]
  cases reviewed_eq : review configuration attr declaration with
  | error fault =>
    obtain ⟨refusal, rfl⟩ := onlyRefuses_review suffix_eq attr declaration _ reviewed_eq
    exact .inr ⟨refusal.complaint, rfl⟩
  | ok reviewed =>
    -- The declaration is right, so what goes wrong from here on is the target or the indentation.
    have servable := servable ⟨reviewed, reviewed_eq⟩
    dsimp only [bind, Except.bind]
    cases selected : DecodeStep.select machine configuration.targetPlatform
        configuration.resourceType "ImageCache" with
    | error fault =>
      have named (truthy : configuration.targetPlatform.isTruthy = true) :
          ∃ platform, configuration.targetPlatform = .text platform := by
        by_contra unnamed
        exact servable (.inl ⟨truthy, fun platform same => unnamed ⟨platform, same⟩⟩)
      obtain ⟨refusal, rfl⟩ := onlyRefuses_select machine "ImageCache" named _ selected
      exact .inr ⟨refusal.complaint, rfl⟩
    | ok step =>
      dsimp only
      cases indent : configuration.indentUnit with
      | error misuse => exact absurd (.inr ⟨⟨step, selected⟩, misuse, indent⟩) servable
      | ok unit =>
        obtain ⟨texts, made⟩ := exists_peers indent reviewed.1 reviewed.2 step
        rw [made]
        exact .inl ⟨texts, rfl⟩

end CachedProperty

end PeerExpansion
