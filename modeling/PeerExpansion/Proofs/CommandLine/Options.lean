import PeerExpansion.CommandLine.Run
import PeerExpansion.Proofs.Configuration.Precedence

/-! # Options over the configuration file

The options of the command line are one more layer over the file. An option takes the place of the
setting of its field, except that an empty platform and an indentation of zero are dropped before
the layers are put together.
-/

namespace PeerExpansion.CommandLine

variable {files : FileStore} {options : GenerationOptions} {configuration plain : Configuration}

namespace GenerationOptions

/-- The configuration with the options that are given in the place of its settings. -/
def applyTo (options : GenerationOptions) (configuration : Configuration) : Configuration :=
  { configuration with
    targetPlatform := (options.platform.map Json.text).getD configuration.targetPlatform
    emitPersistenceMarker :=
      (options.emitPersistenceMarker.map Json.bool).getD configuration.emitPersistenceMarker
    indentSize := (options.indent.map Json.int).getD configuration.indentSize
    useTabs := if options.useTabs then .bool true else configuration.useTabs }

/-- The options without an empty platform and without an indentation of zero. -/
def counted (options : GenerationOptions) : GenerationOptions :=
  { options with
    platform := options.platform.filter (!·.isEmpty)
    indent := options.indent.filter (· != 0) }

/-! ## The layer of the options -/

theorem keys_overrides (options : GenerationOptions) :
    (options.overrides.map Prod.fst).Sublist
      ["target_platform", "emit_persistence_marker", "indent_size", "use_tabs"] := by
  have named {α : Type} (given : Option α) (key : String) (value : α → Json) :
      ((given.map fun given => (key, value given)).toList.map Prod.fst).Sublist [key] := by
    cases given with
    | none => exact List.nil_sublist _
    | some => exact List.Sublist.refl _
  have tabs : ((if options.useTabs then [("use_tabs", Json.bool true)] else []).map
      Prod.fst).Sublist ["use_tabs"] := by
    split
    · exact List.Sublist.refl _
    · exact List.nil_sublist _
  simp only [overrides, List.map_append]
  exact (((named _ _ _).append (named _ _ _)).append (named _ _ _)).append tabs

theorem distinct_overrides (options : GenerationOptions) :
    Association.Distinct options.overrides :=
  options.keys_overrides.nodup (by decide)

theorem get?_overrides_eq_none {key : String}
    (other : key ∉ ["target_platform", "emit_persistence_marker", "indent_size", "use_tabs"]) :
    options.overrides.get? key = none := by
  rw [Settings.get?, ← Option.not_isSome_iff_eq_none, Association.isSome_lookup_iff]
  exact fun member => other (options.keys_overrides.subset member)

theorem unnamed_overrides (options : GenerationOptions) :
    Configuration.unnamed options.overrides = [] := by
  rw [Configuration.unnamed, List.filter_eq_nil_iff]
  intro setting member
  have named := options.keys_overrides.subset (List.mem_map_of_mem member)
  have fields : ["target_platform", "emit_persistence_marker", "indent_size", "use_tabs"] ⊆
      Configuration.fieldNames := by decide
  simpa using fields named

theorem get?_overrides (options : GenerationOptions) :
    options.overrides.get? "target_platform" = options.counted.platform.map Json.text ∧
      options.overrides.get? "emit_persistence_marker" =
        options.counted.emitPersistenceMarker.map Json.bool ∧
      options.overrides.get? "indent_size" = options.counted.indent.map Json.int ∧
      options.overrides.get? "use_tabs" =
        if options.counted.useTabs then some (.bool true) else none := by
  unfold overrides counted
  cases options.platform.filter (!·.isEmpty) <;> cases options.emitPersistenceMarker <;>
    cases options.indent.filter (· != 0) <;> cases options.useTabs <;>
    exact ⟨rfl, rfl, rfl, rfl⟩

end GenerationOptions

/-! ## What is built -/

/-- The layer of the options changes no custom settings. -/
theorem customOf_putAll_overrides (settings : Settings) (options : GenerationOptions) :
    Configuration.customOf (settings.putAll options.overrides) =
      Configuration.customOf settings := by
  have custom : (settings.putAll options.overrides).get? "custom" = settings.get? "custom" := by
    rw [Settings.get?_putAll options.distinct_overrides,
      GenerationOptions.get?_overrides_eq_none (by decide), Option.none_or]
  rw [Configuration.customOf_eq, Configuration.customOf_eq, custom, Configuration.unnamed_putAll,
    options.unnamed_overrides, Settings.putAll_nil]

theorem assemble_putAll_overrides (settings : Settings) (options : GenerationOptions)
    (custom : Json) :
    Configuration.assemble (settings.putAll options.overrides) custom =
      options.counted.applyTo (Configuration.assemble settings custom) := by
  obtain ⟨platform, marker, indent, tabs⟩ := options.get?_overrides
  have other (key : String)
      (apart : key ∉ ["target_platform", "emit_persistence_marker", "indent_size", "use_tabs"]) :
      options.overrides.get? key = none :=
    GenerationOptions.get?_overrides_eq_none apart
  have value (key : String) := Settings.get?_putAll options.distinct_overrides settings key
  simp only [Configuration.assemble, GenerationOptions.applyTo, value, platform, marker, indent,
    tabs, other "suffix" (by decide), other "raw_buffer_type" (by decide),
    other "resource_type" (by decide), other "persistence_marker" (by decide),
    other "argument_label" (by decide), Option.none_or, Option.getD_or]
  cases options.counted.useTabs <;> rfl

/-- Over a file that loads, the options that count are put in. -/
theorem load_overrides {name : String} (options : GenerationOptions)
    (loaded : Configuration.load files name options.configFile [] = .ok plain) :
    Configuration.load files name options.configFile options.overrides =
      .ok (options.counted.applyTo plain) := by
  obtain ⟨file, read, -⟩ := exists_of_bind_eq_ok loaded
  have built := (Configuration.load_eq_ok_iff read).mp loaded
  rw [Settings.putAll_nil] at built
  obtain ⟨custom, custom_eq, rfl, suffix⟩ := Configuration.ofSettings_eq_ok_iff.mp built
  refine (Configuration.load_eq_ok_iff read).mpr
    (Configuration.ofSettings_eq_ok_iff.mpr ⟨custom, ?_, ?_, suffix⟩)
  · rw [customOf_putAll_overrides, custom_eq]
  · rw [assemble_putAll_overrides]

/-- An option takes its place even if it is empty or zero, just where it says what was there. -/
theorem counted_applyTo_eq_iff :
    options.counted.applyTo plain = options.applyTo plain ↔
      (options.platform = some "" → plain.targetPlatform = .text "") ∧
        (options.indent = some 0 → plain.indentSize = .int 0) := by
  have platform : (options.counted.platform.map Json.text).getD plain.targetPlatform =
      (options.platform.map Json.text).getD plain.targetPlatform ↔
        (options.platform = some "" → plain.targetPlatform = .text "") := by
    unfold GenerationOptions.counted
    cases options.platform with
    | none => simp
    | some platform => by_cases empty : platform = "" <;> simp [empty, Option.filter]
  have indent : (options.counted.indent.map Json.int).getD plain.indentSize =
      (options.indent.map Json.int).getD plain.indentSize ↔
        (options.indent = some 0 → plain.indentSize = .int 0) := by
    unfold GenerationOptions.counted
    cases options.indent with
    | none => simp
    | some size => by_cases zero : size = 0 <;> simp [zero, Option.filter]
  -- The two layers only differ in these fields.
  rw [← platform, ← indent]
  constructor
  · intro same
    exact ⟨congrArg Configuration.targetPlatform same, congrArg Configuration.indentSize same⟩
  · rintro ⟨platform, indent⟩
    rw [GenerationOptions.applyTo, platform, indent]
    rfl

/-- What comes of the options over the configuration that the file alone gives. -/
structure OptionsLaw (files : FileStore) (options : GenerationOptions)
    (plain : Configuration) : Prop where
  /-- The options that count are put in, and nothing is printed or changed. -/
  built : ∀ desk, outcome (buildConfiguration files options) desk =
    (.ok (.ok (options.counted.applyTo plain)), desk)
  /-- An empty platform and an indentation of zero are not put in. -/
  given : options.counted.applyTo plain = options.applyTo plain ↔
    (options.platform = some "" → plain.targetPlatform = .text "") ∧
      (options.indent = some 0 → plain.indentSize = .int 0)

theorem optionsLaw_of_load
    (loaded : Configuration.load files configuredMacro options.configFile [] = .ok plain) :
    OptionsLaw files options plain := by
  refine ⟨fun desk => ?_, counted_applyTo_eq_iff⟩
  rw [buildConfiguration, load_overrides options loaded]
  rfl

def chosenText : String :=
  "\x7b\"target_platform\": \"macos\", \"suffix\": \"Raw\", \"indent_size\": 2\x7d"

/-- Options with and without a value of their own. -/
def chosenOptions : GenerationOptions :=
  ⟨some "settings.json", some "ios", some false, some (-3), true⟩

/-- All options count, and the suffix stays that of the file. -/
theorem optionsLaw_chosenSample : ∃ plain,
    Configuration.load (Configuration.settingsFile chosenText) configuredMacro
        chosenOptions.configFile [] = .ok plain ∧
      OptionsLaw (Configuration.settingsFile chosenText) chosenOptions plain ∧
      chosenOptions.counted.applyTo plain = chosenOptions.applyTo plain ∧
      (chosenOptions.applyTo plain).suffix = .text "Raw" ∧
      (chosenOptions.applyTo plain).indentSize = .int (-3) := by
  have found : (Configuration.load (Configuration.settingsFile chosenText) configuredMacro
      chosenOptions.configFile []).toOption.any (·.suffix = .text "Raw") = true := by
    decide +kernel
  obtain ⟨plain, loaded, suffix⟩ := exists_of_any found
  have law := optionsLaw_of_load loaded
  exact ⟨plain, loaded, law, law.given.mpr ⟨nofun, nofun⟩, of_decide_eq_true suffix, rfl⟩

/-- The words that ask for no platform and no indentation. -/
def emptyWords : List String :=
  ["check", "a.swift", "--config", "settings.json", "--platform", "", "--indent", "0"]

def emptyOptions : GenerationOptions :=
  ⟨some "settings.json", some "", none, some 0, false⟩

/-- Both options are given, and the configuration is that of the file. -/
theorem emptySample_keeps_file : ∃ plain,
    Invocation.read emptyWords =
        .ok ⟨standardLevel, "", some (.check ⟨"a.swift", "", false⟩ emptyOptions)⟩ ∧
      Configuration.load (Configuration.settingsFile chosenText) configuredMacro
        emptyOptions.configFile [] = .ok plain ∧
      (∀ desk, outcome (buildConfiguration (Configuration.settingsFile chosenText) emptyOptions)
        desk = (.ok (.ok plain), desk)) ∧
      plain.indentSize = .int 2 ∧ (emptyOptions.applyTo plain).indentSize = .int 0 ∧
      plain.targetPlatform = .text "macos" ∧
      (emptyOptions.applyTo plain).targetPlatform = .text "" := by
  have found : (Configuration.load (Configuration.settingsFile chosenText) configuredMacro
      emptyOptions.configFile []).toOption.any (fun plain =>
        plain.indentSize = .int 2 ∧ plain.targetPlatform = .text "macos") = true := by
    decide +kernel
  obtain ⟨plain, loaded, settings⟩ := exists_of_any found
  obtain ⟨indent, platform⟩ := of_decide_eq_true settings
  have built (desk : Desk) : outcome (buildConfiguration
      (Configuration.settingsFile chosenText) emptyOptions) desk = (.ok (.ok plain), desk) := by
    rw [buildConfiguration, load_overrides emptyOptions loaded]
    rfl
  exact ⟨plain, rfl, loaded, built, indent, rfl, platform, rfl⟩

end PeerExpansion.CommandLine
