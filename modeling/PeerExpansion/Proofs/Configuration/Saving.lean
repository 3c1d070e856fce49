import PeerExpansion.Proofs.Configuration.Layers
import PeerExpansion.Proofs.FileStore

/-! # Saving a configuration and loading it again

A saved file holds the custom settings beside the fields. Loading tells the two apart by their names
alone, so just the configurations are restored in which no custom setting bears the name of a field.
-/

namespace PeerExpansion.Configuration

variable {configuration : Configuration} {entries settings : Settings} {files saved : FileStore}
  {path name other key : String}

/-- The names of the custom settings. -/
def customNames (configuration : Configuration) : List String :=
  match configuration.custom with
  | .object entries => entries.map Prod.fst
  | _ => []

/-- No custom setting bears the name of a field. -/
def KeepsApart (configuration : Configuration) : Prop :=
  ∀ name ∈ configuration.customNames, name ∉ fieldNames

instance (configuration : Configuration) : Decidable configuration.KeepsApart :=
  inferInstanceAs (Decidable (∀ name ∈ configuration.customNames, name ∉ fieldNames))

theorem keepsApart_iff (isPlain : configuration.IsPlain entries) :
    configuration.KeepsApart ↔ ∀ setting ∈ entries, setting.1 ∉ fieldNames := by
  rw [KeepsApart, customNames, isPlain.custom]
  exact List.forall_mem_map

/-! ## The file -/

theorem toSettings_eq (isPlain : configuration.IsPlain entries) :
    configuration.toSettings = .ok (configuration.fields.putAll entries) := by
  rw [toSettings, isPlain.custom]
  rfl

theorem plain_toSettings (isPlain : configuration.IsPlain entries) :
    (Json.object (configuration.fields.putAll entries)).Plain := by
  refine .object (Settings.distinct_putAll (distinct_fields configuration) entries) ?_
  intro setting member
  obtain field | custom := Settings.mem_putAll member
  · exact isPlain.fields setting field
  · exact isPlain.entries setting custom

/-- A plain configuration is saved, and the file is read again as the settings that were saved. -/
theorem exists_save (isPlain : configuration.IsPlain entries)
    (named : (FilePath.ofText path).hasExtension ".json" = true)
    (free : files.IsFree (.ofText path)) :
    ∃ saved, save files configuration path = .ok saved ∧
      fileLayer saved (some path) = .ok (configuration.fields.putAll entries) := by
  have plain := plain_toSettings isPlain
  obtain ⟨saved, wrote⟩ := FileStore.exists_write free
    (Utf8.encode (Json.print (.object (configuration.fields.putAll entries))).toList)
  have filled : path ≠ "" := by
    rintro rfl
    exact absurd named (by decide)
  -- The text has no carriage return, so it comes back as it was written.
  have read : saved.readText (.ofText path) = .ok (Json.print (.object
      (configuration.fields.putAll entries))).toList :=
    FileStore.readText_of_writeText wrote (plain.not_mem_printAt 0)
  have parsed := Json.parse_print plain
  refine ⟨saved, ?_, ?_⟩
  · rw [save, toSettings_eq isPlain]
    change (FileStore.writeText _ _ _).mapError _ = _
    rw [FileStore.writeText, wrote]
    rfl
  · have layer : fileLayer saved (some path) = readSettings saved (.ofText path) := by
      unfold fileLayer
      split
      next same => cases same
      next same => exact absurd (Option.some.inj same) filled
      next same => rw [Option.some.inj same]
    rw [layer, readSettings, FileStore.exists?_of_write wrote, named]
    simp only [Bool.not_true, Bool.false_eq_true, if_false]
    rw [read]
    dsimp only
    rw [parsed]

/-! ## What is loaded again -/

/-- What is known about attributes are fields. -/
theorem settingsFor_eq (name : String) :
    settingsFor name = [] ∨ settingsFor name = [("suffix", .text "Data"),
      ("raw_buffer_type", .text "Data"), ("resource_type", .text "Image"),
      ("persistence_marker", .text "@Transient"), ("emit_persistence_marker", .bool false),
      ("argument_label", .text "useSwiftData")] := by
  unfold settingsFor knownSettings
  rw [List.lookup_cons]
  split
  · exact Or.inr rfl
  · exact Or.inl rfl

theorem unnamed_settingsFor (name : String) : unnamed (settingsFor name) = [] := by
  obtain same | same := settingsFor_eq name <;> rw [same] <;> decide

theorem get?_custom_settingsFor (name : String) : (settingsFor name).get? "custom" = none := by
  obtain same | same := settingsFor_eq name <;> rw [same] <;> decide

theorem plain_settingsFor (name : String) : ∀ setting ∈ settingsFor name, setting.2.Plain := by
  obtain same | same := settingsFor_eq name <;> rw [same]
  · exact fun _ member => absurd member List.not_mem_nil
  · simp only [List.forall_mem_cons]
    exact ⟨.text _, .text _, .text _, .text _, .bool _, .text _,
      fun _ member => absurd member List.not_mem_nil⟩

/-- The settings from which a saved configuration is built again. -/
def reloaded (configuration : Configuration) (entries : Settings) (name : String) : Settings :=
  (settingsFor name).putAll (configuration.fields.putAll entries)

theorem get?_reloaded (distinct : Association.Distinct entries) (key : String) :
    (reloaded configuration entries name).get? key =
      ((entries.get? key).or (configuration.fields.get? key)).or ((settingsFor name).get? key) := by
  have saved := Settings.distinct_putAll (distinct_fields configuration) entries
  rw [reloaded, Settings.get?_putAll saved, Settings.get?_putAll distinct]

theorem unnamed_reloaded (distinct : Association.Distinct entries) :
    unnamed (reloaded configuration entries name) = unnamed entries := by
  have fields_eq : unnamed configuration.fields = [] := rfl
  have distinct := distinct_unnamed distinct
  rw [reloaded, unnamed_putAll, unnamed_putAll, fields_eq, unnamed_settingsFor,
    Settings.putAll_nil_left distinct, Settings.putAll_nil_left distinct]

/-- No field takes the name under which all custom settings are given. -/
theorem get?_custom_reloaded (distinct : Association.Distinct entries) :
    (reloaded configuration entries name).get? "custom" = entries.get? "custom" := by
  have field : configuration.fields.get? "custom" = none := rfl
  rw [get?_reloaded distinct, field, get?_custom_settingsFor, Option.or_none, Option.or_none]

section Reloaded

variable (isPlain : configuration.IsPlain entries)
include isPlain

/-- Where no custom setting bears the name of a field, the fields are read as they were. -/
theorem assemble_reloaded (apart : ∀ setting ∈ entries, setting.1 ∉ fieldNames) (name : String) :
    assemble (reloaded configuration entries name) configuration.custom = configuration := by
  have field {key : String} {value otherwise : Json} (named : key ∈ fieldNames)
      (known : configuration.fields.get? key = some value) :
      ((reloaded configuration entries name).get? key).getD otherwise = value := by
    rw [get?_reloaded isPlain.distinct, get?_eq_none apart named, known]
    rfl
  unfold assemble
  dsimp only
  rw [field (by decide) rfl, field (by decide) rfl, field (by decide) rfl, field (by decide) rfl,
    field (by decide) rfl, field (by decide) rfl, field (by decide) rfl, field (by decide) rfl,
    field (by decide) rfl]

/-- Where no custom setting bears the name that stands for all of them, they are those beside the
fields. -/
theorem customOf_reloaded_of_absent (absent : entries.get? "custom" = none) (name : String) :
    customOf (reloaded configuration entries name) = .ok (.object (unnamed entries)) := by
  have object : ((reloaded configuration entries name).get? "custom").getD (.object []) =
      .object [] := by
    rw [get?_custom_reloaded isPlain.distinct, absent]
    rfl
  rw [customOf_object object, unnamed_reloaded isPlain.distinct,
    Settings.putAll_nil_left (distinct_unnamed isPlain.distinct)]

theorem customOf_reloaded (apart : ∀ setting ∈ entries, setting.1 ∉ fieldNames) (name : String) :
    customOf (reloaded configuration entries name) = .ok configuration.custom := by
  have unnamed_eq : unnamed entries = entries := by
    refine List.filter_eq_self.mpr fun setting member => ?_
    simpa using apart setting member
  rw [customOf_reloaded_of_absent isPlain (get?_eq_none apart (by decide)), unnamed_eq,
    isPlain.custom]

/-- A value that stands for all custom settings would have to be one of those it stands for. -/
theorem get?_custom_of_customOf_reloaded
    (same : customOf (reloaded configuration entries name) = .ok configuration.custom) :
    entries.get? "custom" = none := by
  have distinct := isPlain.distinct
  rw [customOf_eq, unnamed_reloaded distinct, get?_custom_reloaded distinct,
    isPlain.custom] at same
  cases given : entries.get? "custom" with
  | none => rfl
  | some value =>
    rw [given, Option.getD_some] at same
    have member := Association.mem_of_lookup given
    split at same
    next =>
      -- The value would be the object of all entries, of which it is one itself.
      obtain rfl := Except.ok.inj same
      exact absurd (Settings.sizeOf_lt_object member) (Nat.lt_irrefl _)
    next =>
      cases read : Settings.ofJson value with
      | error =>
        rw [read] at same
        cases same
      | ok base =>
        rw [read] at same
        have merged : base.putAll (unnamed entries) = entries :=
          Json.object.inj (Except.ok.inj same)
        -- What is read from the value would have the value among its own settings.
        have kept : (unnamed entries).get? "custom" = none :=
          get?_eq_none (fun setting found => (mem_unnamed_iff.mp found).2) (by decide)
        have inside := Settings.get?_putAll (distinct_unnamed distinct) base "custom"
        rw [merged, given, kept, Option.none_or] at inside
        exact absurd rfl (Settings.ne_of_mem_ofJson read (Association.mem_of_lookup inside.symm))

/-- A custom setting that bears the name of a field is no custom setting when it is read again. -/
theorem apart_of_customOf_reloaded
    (same : customOf (reloaded configuration entries name) = .ok configuration.custom) :
    ∀ setting ∈ entries, setting.1 ∉ fieldNames := by
  have absent := get?_custom_of_customOf_reloaded isPlain same
  rw [customOf_reloaded_of_absent isPlain absent, isPlain.custom] at same
  have entries_eq : unnamed entries = entries := Json.object.inj (Except.ok.inj same)
  intro setting member
  rw [← entries_eq] at member
  exact (mem_unnamed_iff.mp member).2

theorem ofSettings_reloaded_iff (truthy : configuration.suffix.isTruthy = true) (name : String) :
    ofSettings (reloaded configuration entries name) = .ok configuration ↔
      configuration.KeepsApart := by
  rw [keepsApart_iff isPlain, ofSettings_eq_ok_iff]
  constructor
  · rintro ⟨custom, same, built, -⟩
    have custom_eq : custom = configuration.custom := congrArg Configuration.custom built
    rw [custom_eq] at same
    exact apart_of_customOf_reloaded isPlain same
  · intro apart
    exact ⟨configuration.custom, customOf_reloaded isPlain apart name,
      assemble_reloaded isPlain apart name, truthy⟩

end Reloaded

/-! ## Saving and loading -/

theorem load_eq_ok_iff {layer overrides : Settings} {source : Option String}
    (read : fileLayer files source = .ok layer) :
    load files name source overrides = .ok configuration ↔
      ofSettings (((settingsFor name).putAll layer).putAll overrides) = .ok configuration := by
  rw [load, read]
  change (ofSettings _).mapError _ = _ ↔ _
  cases ofSettings (((settingsFor name).putAll layer).putAll overrides) with
  | error fault => simp [Except.mapError]
  | ok built => simp [Except.mapError]

/-- Settings with custom ones given both ways, and lists and objects in them. -/
def nestedSample : Settings :=
  [("target_platform", .text "macos"), ("team", .text "media"),
    ("custom", .object [("tags", .list [.int (-1), .null, .object []])])]

end PeerExpansion.Configuration
