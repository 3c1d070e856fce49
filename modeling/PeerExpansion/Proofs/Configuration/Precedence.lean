import PeerExpansion.Proofs.Configuration.Saving
import PeerExpansion.Proofs.Json.Keys

/-! # Which layer counts

A configuration is built of what is known about the attribute, of a file and of overrides. For a
field the last layer that sets it counts. A custom setting can stand in a layer in two places,
beside the fields or in the object of custom settings, and the places are merged after the layers
are: what stands beside the fields of the file hides what the overrides set in their object.
-/

namespace PeerExpansion.Configuration

variable {files : FileStore} {name key : String} {path : Option String}
  {settings file overrides given entries : Settings} {configuration : Configuration} {value : Json}

/-! ## The layers -/

theorem exists_parse_of_readSettings {place : FilePath}
    (read : readSettings files place = .ok file) :
    ∃ text, files.readText place = .ok text ∧ Json.parse text = .ok (.object file) := by
  unfold readSettings at read
  split at read
  next => cases read
  split at read
  next => cases read
  split at read
  next => cases read
  next => cases read
  next text text_eq =>
  split at read
  next => cases read
  next parsed =>
    obtain rfl := Except.ok.inj read
    exact ⟨text, text_eq, parsed⟩
  next => cases read

/-- No key comes twice in the layer of a file. -/
theorem distinct_of_fileLayer (read : fileLayer files path = .ok file) :
    Association.Distinct file := by
  unfold fileLayer at read
  split at read
  next =>
    obtain rfl := Except.ok.inj read
    exact .nil
  next =>
    obtain rfl := Except.ok.inj read
    exact .nil
  next =>
    obtain ⟨text, -, parsed⟩ := exists_parse_of_readSettings read
    exact Json.keyed_of_parse parsed file rfl

/-- The custom settings that a layer gives as such, if any, are an object. -/
def Groups (layer : Settings) : Prop :=
  ∀ value, layer.get? "custom" = some value → ∃ entries, value = .object entries

/-- The object of custom settings of a layer. -/
def grouped (layer : Settings) : Settings :=
  match layer.get? "custom" with
  | some (.object entries) => entries
  | _ => []

/-- The object of custom settings of the last layer that has one. -/
def lastGrouped (file overrides : Settings) : Settings :=
  grouped (if (overrides.get? "custom").isSome then overrides else file)

/-- What a layer sets for a key that no field has: beside the fields, or else in its object of
custom settings. -/
def customSetting? (layer : Settings) (key : String) : Option Json :=
  (layer.get? key).or ((grouped layer).get? key)

/-- What is known about an attribute is what a configuration has of itself. -/
theorem get?_fields_of_settingsFor (known : (settingsFor name).get? key = some value) :
    ({} : Configuration).fields.get? key = some value := by
  have among : ∀ setting ∈ settingsFor name, setting ∈ ({} : Configuration).fields := by
    obtain same | same := settingsFor_eq name <;> rw [same] <;> decide
  exact (distinct_fields {}).lookup_eq_some_iff.mpr (among _ (Association.mem_of_lookup known))

theorem get?_fields_assemble (custom : Json) (field : key ∈ fieldNames) (other : key ≠ "custom") :
    (assemble settings custom).fields.get? key =
      (settings.get? key).or (({} : Configuration).fields.get? key) := by
  simp only [fieldNames, List.mem_cons, List.not_mem_nil, or_false] at field
  obtain rfl | rfl | rfl | rfl | rfl | rfl | rfl | rfl | rfl | rfl := field
  all_goals first
    | exact Option.or_some.symm
    | exact absurd rfl other

/-- The settings of all layers, the last one on top. -/
def layered (name : String) (file overrides : Settings) : Settings :=
  ((settingsFor name).putAll file).putAll overrides

theorem distinct_layered (name : String) : Association.Distinct (layered name file overrides) := by
  refine Settings.distinct_putAll (Settings.distinct_putAll ?_ file) overrides
  obtain same | same := settingsFor_eq name <;> rw [same] <;> decide

section Layered

variable (fileDistinct : Association.Distinct file) (distinct : Association.Distinct overrides)
include fileDistinct distinct

theorem get?_layered (name key : String) :
    (layered name file overrides).get? key =
      (overrides.get? key).or ((file.get? key).or ((settingsFor name).get? key)) := by
  rw [layered, Settings.get?_putAll distinct, Settings.get?_putAll fileDistinct]

theorem get?_custom_layered (fileGroups : Groups file) (groups : Groups overrides) (name : String) :
    ((layered name file overrides).get? "custom").getD (.object []) =
      .object (lastGrouped file overrides) := by
  rw [get?_layered fileDistinct distinct, get?_custom_settingsFor, Option.or_none]
  cases last : overrides.get? "custom" with
  | some value =>
    obtain ⟨entries, rfl⟩ := groups value last
    simp [lastGrouped, grouped, last]
  | none =>
    cases earlier : file.get? "custom" with
    | some value =>
      obtain ⟨entries, rfl⟩ := fileGroups value earlier
      simp [lastGrouped, grouped, last, earlier]
    | none => simp [lastGrouped, grouped, last, earlier]

/-- Where no layer sets a field, it is as a configuration has it of itself. -/
theorem get?_layered_or (name key : String) :
    ((layered name file overrides).get? key).or (({} : Configuration).fields.get? key) =
      (overrides.get? key).or ((file.get? key).or (({} : Configuration).fields.get? key)) := by
  rw [get?_layered fileDistinct distinct, Option.or_assoc, Option.or_assoc]
  cases known : (settingsFor name).get? key with
  | none => rfl
  | some value => rw [get?_fields_of_settingsFor known, Option.some_or]

/-- What stands beside the fields is put over an object of custom settings. -/
theorem get?_putAll_unnamed_layered (given : Settings) (name key : String) :
    (given.putAll (unnamed (layered name file overrides))).get? key =
      (if key ∈ fieldNames then none else (overrides.get? key).or (file.get? key)).or
        (given.get? key) := by
  rw [Settings.get?_putAll (distinct_unnamed (distinct_layered name)), get?_unnamed]
  split
  next => rfl
  next other =>
    have unknown := get?_unnamed (settingsFor name) key
    rw [unnamed_settingsFor, if_neg other] at unknown
    rw [get?_layered fileDistinct distinct, ← unknown]
    exact congrArg (Option.or · _) (congrArg _ Option.or_none)

end Layered

/-! ## Precedence -/

/-- The custom settings of a configuration. -/
def customSettings (configuration : Configuration) : Settings :=
  match configuration.custom with
  | .object entries => entries
  | _ => []

/-- What the overrides set for a key that no field has is hidden by the file alone, where that sets
the key beside the fields. -/
theorem overridden_iff (set : customSetting? overrides key = some value) :
    ((overrides.get? key).or (file.get? key)).or
        ((lastGrouped file overrides).get? key) = some value ↔
      overrides.get? key = some value ∨ file.get? key = none ∨ file.get? key = some value := by
  rw [customSetting?, Option.or_eq_some_iff] at set
  obtain direct | ⟨absent, inside⟩ := set
  · simp [direct]
  · -- The overrides have an object, so theirs counts, but behind what the file sets.
    have last : (overrides.get? "custom").isSome = true := by
      cases given : overrides.get? "custom" with
      | some => rfl
      | none =>
        rw [grouped, given] at inside
        cases inside
    rw [absent, lastGrouped, last, if_pos rfl, inside]
    cases file.get? key <;> simp

/-- How a configuration comes from the settings of a file and of overrides. -/
structure PrecedenceLaw (file overrides : Settings) (configuration : Configuration) : Prop where
  /-- For a field, the overrides count before the file and the file before the standard. -/
  field : ∀ key ∈ fieldNames, key ≠ "custom" → configuration.fields.get? key =
    (overrides.get? key).or ((file.get? key).or (({} : Configuration).fields.get? key))
  object : configuration.custom = .object configuration.customSettings
  /-- What stands beside the fields counts before the objects of custom settings, and of these only
  the last one counts. -/
  custom : ∀ key, configuration.customSettings.get? key =
    (if key ∈ fieldNames then none else (overrides.get? key).or (file.get? key)).or
      ((lastGrouped file overrides).get? key)
  /-- What the overrides set counts, unless they set it in their object of custom settings and
  something else stands beside the fields of the file. -/
  overridden : ∀ key ∉ fieldNames, ∀ value, customSetting? overrides key = some value →
    (configuration.customSettings.get? key = some value ↔
      overrides.get? key = some value ∨ file.get? key = none ∨ file.get? key = some value)

/-- What is loaded is put together of all layers and the object of custom settings that counts. -/
theorem eq_assemble_of_load (read : fileLayer files path = .ok file) (fileGroups : Groups file)
    (distinct : Association.Distinct overrides) (groups : Groups overrides)
    (loaded : load files name path overrides = .ok configuration) :
    configuration = assemble (layered name file overrides)
      (.object ((lastGrouped file overrides).putAll (unnamed (layered name file overrides)))) := by
  have fileDistinct := distinct_of_fileLayer read
  have built := (load_eq_ok_iff read).mp loaded
  obtain ⟨custom, custom_eq, rfl, -⟩ := ofSettings_eq_ok_iff.mp built
  change customOf (layered name file overrides) = _ at custom_eq
  rw [customOf_object (get?_custom_layered fileDistinct distinct fileGroups groups name)]
    at custom_eq
  obtain rfl := Except.ok.inj custom_eq
  rfl

/-- The precedence of the layers of a configuration that is loaded. -/
theorem precedenceLaw_of_load (read : fileLayer files path = .ok file) (fileGroups : Groups file)
    (distinct : Association.Distinct overrides) (groups : Groups overrides)
    (loaded : load files name path overrides = .ok configuration) :
    PrecedenceLaw file overrides configuration := by
  have fileDistinct := distinct_of_fileLayer read
  have assembled := eq_assemble_of_load read fileGroups distinct groups loaded
  have settings_eq : configuration.customSettings =
      (lastGrouped file overrides).putAll (unnamed (layered name file overrides)) := by
    rw [assembled]
    rfl
  have custom_eq := get?_putAll_unnamed_layered fileDistinct distinct (lastGrouped file overrides)
    name
  rw [← settings_eq] at custom_eq
  refine ⟨?_, ?_, custom_eq, ?_⟩
  · intro key field other
    rw [assembled, get?_fields_assemble _ field other]
    exact get?_layered_or fileDistinct distinct name key
  · rw [assembled]
    rfl
  · intro key other value set
    rw [custom_eq, if_neg other]
    exact overridden_iff set

/-- A machine with one configuration file of the given text. -/
def settingsFile (text : String) : FileStore :=
  FileStore.empty.add (.ofText "settings.json") (.file (Utf8.encode text.toList))

def mixedText : String :=
  "\x7b\"suffix\": \"Raw\", \"indent_size\": 2, \"owner\": \"one\", \"owner\": \"two\", " ++
    "\"region\": \"north\", \"custom\": \x7b\"team\": \"media\"\x7d\x7d"

def mixedFile : Settings :=
  [("suffix", .text "Raw"), ("indent_size", .int 2), ("owner", .text "two"),
    ("region", .text "north"), ("custom", .object [("team", .text "media")])]

/-- Fields and custom settings in all places. -/
def mixedOverrides : Settings :=
  [("suffix", .text "Blob"), ("owner", .text "three"),
    ("custom", .object [("owner", .text "four"), ("reviewer", .text "five"), ("suffix", .null)])]

/-- The overrides win the suffix and the owner, and their object takes the place of that of the
file, in which the team is named. -/
theorem precedenceLaw_of_load_mixedSample : ∃ configuration,
    fileLayer (settingsFile mixedText) (some "settings.json") = .ok mixedFile ∧
      Groups mixedFile ∧ Association.Distinct mixedOverrides ∧ Groups mixedOverrides ∧
      load (settingsFile mixedText) "ImageCache" (some "settings.json") mixedOverrides =
        .ok configuration ∧
      PrecedenceLaw mixedFile mixedOverrides configuration ∧
      configuration.fields.get? "suffix" = some (.text "Blob") ∧
      configuration.fields.get? "indent_size" = some (.int 2) ∧
      configuration.fields.get? "resource_type" = some (.text "Image") ∧
      configuration.custom = .object [("owner", .text "three"), ("reviewer", .text "five"),
        ("suffix", .null), ("region", .text "north")] := by
  have fileRead : (fileLayer (settingsFile mixedText) (some "settings.json")).toOption.any
      (· = mixedFile) = true := by decide +kernel
  obtain ⟨_, read, same⟩ := exists_of_any fileRead
  obtain rfl := of_decide_eq_true same
  have allLoaded : (load (settingsFile mixedText) "ImageCache" (some "settings.json")
      mixedOverrides).toOption.any (fun configuration =>
        configuration.custom = .object [("owner", .text "three"), ("reviewer", .text "five"),
          ("suffix", .null), ("region", .text "north")]) = true := by decide +kernel
  obtain ⟨configuration, loaded, custom⟩ := exists_of_any allLoaded
  have fileGroups : Groups mixedFile := by
    rintro _ ⟨⟩
    exact ⟨_, rfl⟩
  have groups : Groups mixedOverrides := by
    rintro _ ⟨⟩
    exact ⟨_, rfl⟩
  have distinct : Association.Distinct mixedOverrides := by decide
  have law := precedenceLaw_of_load read fileGroups distinct groups loaded
  exact ⟨configuration, read, fileGroups, distinct, groups, loaded, law,
    law.field "suffix" (by decide) (by decide), law.field "indent_size" (by decide) (by decide),
    law.field "resource_type" (by decide) (by decide), of_decide_eq_true custom⟩

/-- What stands beside the fields of the file hides what the overrides set in their object. -/
theorem load_teamSample_hides : ∃ configuration,
    load (settingsFile "\x7b\"team\": \"media\"\x7d") "ImageCache" (some "settings.json")
        [("custom", .object [("team", .text "print")])] = .ok configuration ∧
      customSetting? [("custom", .object [("team", .text "print")])] "team" =
        some (.text "print") ∧
      configuration.customSettings.get? "team" = some (.text "media") := by
  have found : (load (settingsFile "\x7b\"team\": \"media\"\x7d") "ImageCache"
      (some "settings.json") [("custom", .object [("team", .text "print")])]).toOption.any
        (fun configuration => configuration.customSettings.get? "team" = some (.text "media")) =
      true := by decide +kernel
  obtain ⟨configuration, loaded, hidden⟩ := exists_of_any found
  exact ⟨configuration, loaded, rfl, of_decide_eq_true hidden⟩

end PeerExpansion.Configuration
