import PeerExpansion.Expansion
import PeerExpansion.Proofs.CachedProperty.PeerText

/-! # Generation with settings of the right sorts

When every setting is of the sort that it is meant to be, a generator for cached properties either
answers its peers or refuses the declaration. No value is misused, and no template goes wrong.
-/

namespace PeerExpansion

/-- Every setting with a field of its own is of the sort it is meant to be. -/
structure Configuration.WellTyped (configuration : Configuration) : Prop where
  suffix : ∃ text, configuration.suffix = .text text ∧ text ≠ ""
  rawBufferType : ∃ text, configuration.rawBufferType = .text text
  resourceType : ∃ text, configuration.resourceType = .text text
  persistenceMarker : ∃ text, configuration.persistenceMarker = .text text
  emitPersistenceMarker : ∃ flag, configuration.emitPersistenceMarker = .bool flag
  argumentLabel : ∃ text, configuration.argumentLabel = .text text
  targetPlatform : configuration.targetPlatform = .null ∨
    ∃ text, configuration.targetPlatform = .text text
  indentSize : ∃ size, configuration.indentSize = .int size ∧
    -Text.wordBound ≤ size ∧ size < Text.wordBound
  useTabs : ∃ flag, configuration.useTabs = .bool flag

theorem Configuration.WellTyped.exists_indentUnit {configuration : Configuration}
    (typed : configuration.WellTyped) : ∃ unit, configuration.indentUnit = .ok unit := by
  obtain ⟨size, size_eq, low, high⟩ := typed.indentSize
  unfold indentUnit
  split
  · exact ⟨_, rfl⟩
  · have counted : Text.repeat? [' '] size = some (List.replicate size.toNat [' ']).flatten := by
      rw [Text.repeat?, if_pos (by simp [low, high])]
    refine ⟨String.ofList (List.replicate size.toNat [' ']).flatten, ?_⟩
    rw [spaces, size_eq]
    simp only [Json.count?, counted]

namespace CachedProperty

theorem wellTyped_standard : ({} : Configuration).WellTyped where
  suffix := ⟨"Data", rfl, by decide⟩
  rawBufferType := ⟨"Data", rfl⟩
  resourceType := ⟨"Image", rfl⟩
  persistenceMarker := ⟨"@Transient", rfl⟩
  emitPersistenceMarker := ⟨false, rfl⟩
  argumentLabel := ⟨"useSwiftData", rfl⟩
  targetPlatform := .inl rfl
  indentSize := ⟨4, rfl, by decide, by decide⟩
  useTabs := ⟨false, rfl⟩

theorem wellTyped_targeting (platform : String) : (targeting platform).WellTyped :=
  { wellTyped_standard with targetPlatform := .inr ⟨platform, rfl⟩ }

variable {α β : Type}

/-- First comes the review, the decode step is asked for behind it, and the peers come last. -/
theorem outcome_generate (machine macroName : String) (configuration : Configuration)
    (attr : Attribute) (declaration : Declaration) :
    (generate machine macroName configuration attr declaration).outcome =
      (review configuration attr declaration >>= fun reviewed =>
        DecodeStep.select machine configuration.targetPlatform configuration.resourceType
          macroName >>= fun step =>
          peers configuration reviewed.1 reviewed.2 step).mapError PropertyFault.toGeneration := by
  rw [generate, prepare]
  cases review configuration attr declaration with
  | error fault => rfl
  | ok reviewed =>
    dsimp only [bind, Except.bind]
    cases DecodeStep.select machine configuration.targetPlatform configuration.resourceType
      macroName <;> rfl

/-- If there is no answer, something is refused. -/
def OnlyRefuses (result : Except PropertyFault α) : Prop :=
  ∀ fault, result = .error fault → ∃ refusal, fault = .refused refusal

theorem onlyRefuses_ok (value : α) : OnlyRefuses (.ok value) := by
  rintro fault ⟨⟩

theorem onlyRefuses_refused (refusal : Refusal) :
    OnlyRefuses (.error (.refused refusal) : Except PropertyFault α) := by
  rintro _ ⟨⟩
  exact ⟨refusal, rfl⟩

theorem onlyRefuses_mapError {ε : Type} (result : Except ε α) (refuse : ε → Refusal) :
    OnlyRefuses (result.mapError fun fault => .refused (refuse fault)) := by
  cases result with
  | ok value => exact onlyRefuses_ok value
  | error fault => exact onlyRefuses_refused _

theorem onlyRefuses_bind {result : Except PropertyFault α} {next : α → Except PropertyFault β}
    (front : OnlyRefuses result) (back : ∀ value, OnlyRefuses (next value)) :
    OnlyRefuses (result >>= next) := by
  cases result with
  | ok value => exact back value
  | error fault =>
    rintro _ ⟨⟩
    exact front fault rfl

variable {configuration : Configuration}

section Suffix

variable {suffix : String} (suffix_eq : configuration.suffix = .text suffix)
include suffix_eq

theorem onlyRefuses_derive (attributeName : String) (declaration : Declaration) :
    OnlyRefuses (Names.derive configuration attributeName declaration) := by
  refine onlyRefuses_bind (onlyRefuses_mapError _ _) fun binding => ?_
  refine onlyRefuses_bind (onlyRefuses_mapError _ _) fun identifier => ?_
  refine onlyRefuses_bind (onlyRefuses_mapError _ _) fun _ => ?_
  rw [suffix_eq]
  exact onlyRefuses_mapError _ _

theorem onlyRefuses_review (attr : Attribute) (declaration : Declaration) :
    OnlyRefuses (review configuration attr declaration) := by
  refine onlyRefuses_bind (onlyRefuses_derive suffix_eq _ _) fun names => ?_
  exact onlyRefuses_bind (onlyRefuses_mapError _ id) fun flag => onlyRefuses_ok _

end Suffix

/-- A decode step is selected, the target is refused, or it is set to something that is no text. -/
theorem DecodeStep.select_cases (machine attributeName : String) (target resource : Json) :
    (∃ framework : Framework,
        DecodeStep.select machine target resource attributeName = .ok ⟨framework, resource⟩) ∨
      (∃ platform, DecodeStep.select machine target resource attributeName =
        .error (.refused ⟨attributeName, .unsupportedTarget platform⟩)) ∨
      target.isTruthy = true ∧ (∀ platform, target ≠ .text platform) ∧
        DecodeStep.select machine target resource attributeName = .error (.misused .notText) := by
  unfold DecodeStep.select
  dsimp only
  split
  next truthy =>
    split
    next platform =>
      split
      next framework _ => exact .inl ⟨framework, rfl⟩
      next => exact .inr (.inl ⟨platform, rfl⟩)
    next unnamed => exact .inr (.inr ⟨truthy, unnamed, rfl⟩)
  next =>
    split
    next platform _ =>
      split
      next framework _ => exact .inl ⟨framework, rfl⟩
      next => exact .inr (.inl ⟨platform, rfl⟩)
    next => exact .inr (.inl ⟨machine, rfl⟩)

theorem onlyRefuses_select (machine attributeName : String)
    (named : configuration.targetPlatform.isTruthy = true →
      ∃ platform, configuration.targetPlatform = .text platform) :
    OnlyRefuses (DecodeStep.select machine configuration.targetPlatform
      configuration.resourceType attributeName) := by
  obtain ⟨_, selected⟩ | ⟨_, refused⟩ | ⟨truthy, unnamed, _⟩ := DecodeStep.select_cases machine
    attributeName configuration.targetPlatform configuration.resourceType
  · rw [selected]
    exact onlyRefuses_ok _
  · rw [refused]
    exact onlyRefuses_refused _
  · -- Whatever names the target, it is a text, and no text is misused.
    obtain ⟨platform, set⟩ := named truthy
    exact absurd set (unnamed platform)

variable (typed : configuration.WellTyped)
include typed

theorem onlyRefuses_prepare (machine macroName : String) (attr : Attribute)
    (declaration : Declaration) :
    OnlyRefuses (prepare machine macroName configuration attr declaration) := by
  obtain ⟨suffix, suffix_eq, -⟩ := typed.suffix
  refine onlyRefuses_bind (onlyRefuses_review suffix_eq attr declaration) fun reviewed => ?_
  refine onlyRefuses_bind (onlyRefuses_select _ _ fun truthy => ?_) fun step => onlyRefuses_ok _
  obtain unset | set := typed.targetPlatform
  · rw [unset] at truthy
    cases truthy
  · exact set

/-- A generator answers its peers or complains about the declaration. -/
theorem generate_outcome (machine macroName : String) (attr : Attribute)
    (declaration : Declaration) :
    (∃ texts, (generate machine macroName configuration attr declaration).outcome = .ok texts) ∨
      ∃ complaint, (generate machine macroName configuration attr declaration).outcome =
        .error (.refused complaint) := by
  unfold generate
  cases prepared : prepare machine macroName configuration attr declaration with
  | error fault =>
    obtain ⟨refusal, rfl⟩ := onlyRefuses_prepare typed machine macroName attr declaration _ prepared
    exact .inr ⟨refusal.complaint, rfl⟩
  | ok result =>
    -- Templates only name what is in their context, so with a unit of indentation none can fail.
    obtain ⟨names, flag, step⟩ := result
    obtain ⟨unit, unit_eq⟩ := typed.exists_indentUnit
    obtain ⟨texts, made⟩ := exists_peers unit_eq names flag step
    refine .inl ⟨texts, ?_⟩
    simp only [finish, made]
    rfl

end CachedProperty

end PeerExpansion
