import PeerExpansion.Configuration.Load
import PeerExpansion.Proofs.Json.RoundTrip
import PeerExpansion.Proofs.Outcome

/-! # What a configuration is built from

The fields are read from the settings with their names, and all other settings go to the custom
ones. Built from plain settings, a configuration is plain again, with an object of custom settings.
-/

namespace PeerExpansion

open Json (Plain)

namespace Settings

variable {given pair value : Json} {entries : Settings} {setting : String × Json}

theorem exists_of_ofPair {index : Nat} {key : String}
    (read : ofPair index pair = .ok (key, value)) :
    ∃ first, elements? pair = some [first, value] := by
  unfold ofPair at read
  split at read
  next => cases read
  next first second parts_eq =>
    split at read
    next =>
      obtain ⟨-, rfl⟩ := Prod.mk.inj (Except.ok.inj read)
      exact ⟨first, parts_eq⟩
    next => cases read
  next => cases read

theorem exists_of_mem_ofJson (notObject : ∀ entries, given ≠ .object entries)
    (read : ofJson given = .ok entries) (member : setting ∈ entries) :
    ∃ pairs pair first, elements? given = some pairs ∧ pair ∈ pairs ∧
      elements? pair = some [first, setting.2] := by
  unfold ofJson at read
  split at read
  next same => exact absurd rfl (notObject _)
  next =>
    split at read
    next => cases read
    next pairs pairs_eq =>
      obtain ⟨read, ran, merged⟩ := exists_of_bind_eq_ok read
      obtain rfl := Except.ok.inj merged
      have listed := (mem_putAll member).resolve_left (List.not_mem_nil)
      obtain ⟨⟨pair, index⟩, found, answered⟩ := exists_of_mem_of_mapM_eq_ok ran listed
      obtain ⟨first, parts_eq⟩ := exists_of_ofPair answered
      exact ⟨pairs, pair, first, pairs_eq, List.fst_mem_of_mem_zipIdx found, parts_eq⟩

/-- The elements of a text and of an object are texts. -/
theorem eq_list_or_text {parts : List Json} (read : elements? pair = some parts)
    (member : value ∈ parts) : pair = .list parts ∨ ∃ spelled, value = .text spelled := by
  cases pair with
  | list items => exact Or.inl (congrArg Json.list (Option.some.inj read))
  | text spelled =>
    obtain rfl := Option.some.inj read
    obtain ⟨character, -, rfl⟩ := List.mem_map.mp member
    exact Or.inr ⟨_, rfl⟩
  | object entries =>
    obtain rfl := Option.some.inj read
    obtain ⟨entry, -, rfl⟩ := List.mem_map.mp member
    exact Or.inr ⟨_, rfl⟩
  | null => cases read
  | bool => cases read
  | int => cases read
  | decimal => cases read

theorem sizeOf_lt_object (member : setting ∈ entries) :
    sizeOf setting.2 < sizeOf (Json.object entries) := by
  have small := List.sizeOf_lt_of_mem member
  obtain ⟨key, value⟩ := setting
  simp only [Prod.mk.sizeOf_spec, Json.object.sizeOf_spec] at small ⊢
  omega

/-- No value is one of the settings that are read from it. -/
theorem ne_of_mem_ofJson (read : ofJson given = .ok entries) (member : setting ∈ entries) :
    setting.2 ≠ given := by
  by_cases isObject : ∃ entries, given = .object entries
  · obtain ⟨entries, rfl⟩ := isObject
    obtain rfl := Except.ok.inj read
    intro same
    exact absurd (sizeOf_lt_object member) (by rw [same]; exact Nat.lt_irrefl _)
  · obtain ⟨pairs, pair, first, pairs_eq, found, parts_eq⟩ :=
      exists_of_mem_ofJson (fun entries same => isObject ⟨entries, same⟩) read member
    cases given with
    | list items =>
      obtain rfl := Option.some.inj pairs_eq
      have inside : setting.2 ∈ [first, setting.2] := by simp
      obtain rfl | ⟨spelled, text_eq⟩ := eq_list_or_text parts_eq inside
      · have outer := List.sizeOf_lt_of_mem found
        intro same
        rw [same] at outer
        simp at outer
        omega
      · rw [text_eq]
        rintro ⟨⟩
    | text spelled =>
      -- Every element of a text is a single character, which is no pair.
      obtain rfl := Option.some.inj pairs_eq
      obtain ⟨character, -, rfl⟩ := List.mem_map.mp found
      simp [elements?] at parts_eq
    | object entries => exact absurd ⟨entries, rfl⟩ isObject
    | null => cases pairs_eq
    | bool => cases pairs_eq
    | int => cases pairs_eq
    | decimal => cases pairs_eq

end Settings

namespace Configuration

variable {settings : Settings} {configuration : Configuration} {custom : Json}

/-- The configuration with the fields that settings give, and with the custom settings. -/
def assemble (settings : Settings) (custom : Json) : Configuration :=
  let value (key : String) (otherwise : Json) := (settings.get? key).getD otherwise
  let standard : Configuration := {}
  { suffix := value "suffix" standard.suffix
    rawBufferType := value "raw_buffer_type" standard.rawBufferType
    resourceType := value "resource_type" standard.resourceType
    persistenceMarker := value "persistence_marker" standard.persistenceMarker
    emitPersistenceMarker := value "emit_persistence_marker" standard.emitPersistenceMarker
    argumentLabel := value "argument_label" standard.argumentLabel
    targetPlatform := value "target_platform" standard.targetPlatform
    indentSize := value "indent_size" standard.indentSize
    useTabs := value "use_tabs" standard.useTabs
    custom }

theorem ofSettings_eq_ok_iff :
    ofSettings settings = .ok configuration ↔
      ∃ custom, customOf settings = .ok custom ∧ assemble settings custom = configuration ∧
        configuration.suffix.isTruthy = true := by
  rw [ofSettings]
  cases customOf settings with
  | error fault => simp
  | ok custom =>
    -- What the definition builds in place is what `assemble` gives.
    change (if (assemble settings custom).suffix.isTruthy then
      Except.ok (assemble settings custom) else .error BuildFault.emptySuffix) = _ ↔ _
    constructor
    · intro built
      split at built
      next truthy =>
        obtain rfl := Except.ok.inj built
        exact ⟨custom, rfl, rfl, truthy⟩
      next => cases built
    · rintro ⟨_, ⟨⟩, rfl, truthy⟩
      exact if_pos truthy

/-- The settings that no field is named for. -/
def unnamed (settings : Settings) : Settings :=
  settings.filter fun setting => !fieldNames.contains setting.1

theorem unnamed_putAll (settings layer : Settings) :
    unnamed (settings.putAll layer) = Settings.putAll (unnamed settings) (unnamed layer) :=
  Settings.filter_putAll (fun key => !fieldNames.contains key) settings layer

theorem mem_unnamed_iff {setting : String × Json} :
    setting ∈ unnamed settings ↔ setting ∈ settings ∧ setting.1 ∉ fieldNames := by
  simp [unnamed]

theorem get?_unnamed (settings : Settings) (key : String) :
    (unnamed settings).get? key = if key ∈ fieldNames then none else settings.get? key := by
  have kept := Association.lookup_filter (fun key => !fieldNames.contains key) settings key
  rw [Settings.get?, unnamed, kept]
  by_cases field : key ∈ fieldNames <;> simp [field, Settings.get?]

theorem distinct_unnamed (distinct : Association.Distinct settings) :
    Association.Distinct (unnamed settings) :=
  distinct.filter _

theorem get?_eq_none (apart : ∀ setting ∈ settings, setting.1 ∉ fieldNames) {key : String}
    (named : key ∈ fieldNames) : settings.get? key = none := by
  cases found : settings.get? key with
  | none => rfl
  | some value => exact absurd named (apart _ (Association.mem_of_lookup found))

theorem customOf_eq (settings : Settings) :
    customOf settings =
      if (unnamed settings).isEmpty then .ok ((settings.get? "custom").getD (.object []))
      else (Settings.ofJson ((settings.get? "custom").getD (.object []))).map fun given =>
        .object (given.putAll (unnamed settings)) := by
  unfold customOf unnamed
  dsimp only
  split
  next => rfl
  next => cases Settings.ofJson _ <;> rfl

/-- Given an object of custom settings, the others are put over it. -/
theorem customOf_object {given : Settings}
    (object : (settings.get? "custom").getD (.object []) = .object given) :
    customOf settings = .ok (.object (given.putAll (unnamed settings))) := by
  rw [customOf_eq, object]
  split
  next none_left =>
    rw [List.isEmpty_iff.mp none_left]
    rfl
  next => rfl

/-- Every field and every custom setting holds a plain value, and the custom settings are named. -/
structure IsPlain (configuration : Configuration) (entries : Settings) : Prop where
  custom : configuration.custom = .object entries
  distinct : Association.Distinct entries
  entries : ∀ setting ∈ entries, setting.2.Plain
  fields : ∀ setting ∈ configuration.fields, setting.2.Plain

theorem distinct_fields (configuration : Configuration) :
    Association.Distinct configuration.fields := by
  have keys : configuration.fields.map Prod.fst = fieldNames.dropLast := rfl
  rw [Association.Distinct, keys]
  decide

theorem plain_fields_assemble (plain : ∀ setting ∈ settings, setting.2.Plain) (custom : Json) :
    ∀ setting ∈ (assemble settings custom).fields, setting.2.Plain := by
  have value (key : String) {standard : Json} (usual : standard.Plain) :
      ((settings.get? key).getD standard).Plain := by
    cases found : settings.get? key with
    | none => exact usual
    | some value => exact plain _ (Association.mem_of_lookup found)
  simp only [fields, List.forall_mem_cons]
  exact ⟨value _ (.text _), value _ (.text _), value _ (.text _), value _ (.text _),
    value _ (.bool _), value _ (.text _), value _ .null, value _ (.int _), value _ (.bool _),
    fun _ member => absurd member List.not_mem_nil⟩

/-- Built from plain settings with an object of custom ones, a configuration is plain. -/
theorem exists_isPlain (plain : ∀ setting ∈ settings, setting.2.Plain)
    (grouped : ∀ value, settings.get? "custom" = some value → ∃ entries, value = .object entries)
    (built : ofSettings settings = .ok configuration) :
    ∃ entries, configuration.IsPlain entries := by
  obtain ⟨custom, custom_eq, rfl, -⟩ := ofSettings_eq_ok_iff.mp built
  obtain ⟨given, given_eq, apart, values⟩ : ∃ given,
      (settings.get? "custom").getD (.object []) = .object given ∧
        Association.Distinct given ∧ ∀ setting ∈ given, setting.2.Plain := by
    cases found : settings.get? "custom" with
    | none => exact ⟨[], rfl, .nil, fun _ member => absurd member List.not_mem_nil⟩
    | some value =>
      obtain ⟨given, rfl⟩ := grouped value found
      cases plain _ (Association.mem_of_lookup found) with
      | object apart values => exact ⟨given, rfl, apart, values⟩
  rw [customOf_object given_eq] at custom_eq
  obtain rfl := Except.ok.inj custom_eq
  refine ⟨Settings.putAll given (unnamed settings), rfl, Settings.distinct_putAll apart _, ?_,
    plain_fields_assemble plain _⟩
  intro setting member
  obtain known | other := Settings.mem_putAll member
  · exact values setting known
  · exact plain setting (List.mem_of_mem_filter other)

end Configuration

end PeerExpansion
