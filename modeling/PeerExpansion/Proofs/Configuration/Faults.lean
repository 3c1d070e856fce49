import PeerExpansion.Proofs.Configuration.Precedence

/-! # Which faults of a configuration file are reported

What is wrong with a configuration file is reported as an error of the configuration, with two
exceptions: bytes that are not UTF-8, and a value under `custom` that other settings cannot be put
over. These come out as the faults that they are.
-/

namespace PeerExpansion

namespace Settings

variable {pair value : Json}

/-- A sequence of two, of which the first is a value of a simple sort. -/
def IsPair (pair : Json) : Prop :=
  ∃ key value, elements? pair = some [key, value] ∧ (key? key).isSome = true

/-- An object, or a sequence of pairs. -/
def IsCollection (value : Json) : Prop :=
  (∃ entries, value = .object entries) ∨
    ∃ pairs, elements? value = some pairs ∧ ∀ pair ∈ pairs, IsPair pair

theorem exists_ofPair_iff {index : Nat} :
    (∃ setting, ofPair index pair = .ok setting) ↔ IsPair pair := by
  rw [ofPair]
  constructor
  · rintro ⟨setting, read⟩
    split at read
    next => cases read
    next key value parts =>
      split at read
      next known => exact ⟨key, value, parts, by rw [known]; rfl⟩
      next => cases read
    next => cases read
  · rintro ⟨key, value, parts, simple⟩
    obtain ⟨spelled, known⟩ := Option.isSome_iff_exists.mp simple
    exact ⟨(spelled, value), by simp only [parts, known]⟩

/-- Just from collections named settings are read. -/
theorem exists_ofJson_iff : (∃ entries, ofJson value = .ok entries) ↔ IsCollection value := by
  unfold ofJson
  split
  next entries => exact iff_of_true ⟨entries, rfl⟩ (.inl ⟨entries, rfl⟩)
  next unlike =>
  have noObject : ¬∃ entries, value = .object entries := by
    rintro ⟨entries, same⟩
    exact unlike entries same
  rw [IsCollection, or_iff_right noObject]
  cases elements? value with
  | none => simp
  | some pairs =>
    simp only [Option.some.injEq, exists_eq_left']
    constructor
    · -- Each pair is read at its own place, and the place does not matter.
      rintro ⟨merged, ran⟩ pair member
      obtain ⟨entries, read, -⟩ := exists_of_bind_eq_ok ran
      have all := exists_mapM_iff.mp ⟨entries, read⟩
      obtain ⟨index, bound, rfl⟩ := List.getElem_of_mem member
      exact exists_ofPair_iff.mp (all (pairs[index], index)
        (List.mk_mem_zipIdx_iff_getElem?.mpr (List.getElem?_eq_getElem bound)))
    · intro all
      have each : ∀ item ∈ pairs.zipIdx, ∃ setting, ofPair item.2 item.1 = .ok setting := by
        rintro ⟨pair, index⟩ member
        exact exists_ofPair_iff.mpr (all pair (List.fst_mem_of_mem_zipIdx member))
      obtain ⟨entries, read⟩ := exists_mapM_iff.mpr each
      exact ⟨putAll [] entries, congrArg (· >>= fun entries => pure (putAll [] entries)) read⟩

end Settings

/-- Whether an error says that something is wrong with the configuration. -/
def ConfigurationError.IsReported : ConfigurationError → Prop
  | undecodable _ | custom _ => False
  | _ => True

namespace Configuration

variable {files : FileStore} {name path : String} {source : Option String} {place : FilePath}
  {settings file : Settings} {fault : CollectionFault} {error : Utf8.DecodeError}
  {bytes : List UInt8}

/-! ## Custom settings -/

theorem customOf_eq_error_iff :
    customOf settings = .error fault ↔
      unnamed settings ≠ [] ∧ ∃ given, settings.get? "custom" = some given ∧
        Settings.ofJson given = .error fault := by
  rw [customOf_eq]
  by_cases others : unnamed settings = []
  · simp [others]
  rw [if_neg (by simpa using others), and_iff_right others]
  cases settings.get? "custom" with
  | none => simp [Settings.ofJson, Except.map]
  | some given => cases read : Settings.ofJson given <;> simp [read, Except.map]

/-- Over what a file gives, the known settings and no overrides change nothing about the custom
settings. -/
theorem customOf_layered_eq_error_iff (distinct : Association.Distinct file) :
    customOf (layered name file []) = .error fault ↔
      unnamed file ≠ [] ∧ ∃ given, file.get? "custom" = some given ∧
        Settings.ofJson given = .error fault := by
  have others : unnamed (layered name file []) = unnamed file := by
    rw [layered, Settings.putAll_nil, unnamed_putAll, unnamed_settingsFor,
      Settings.putAll_nil_left (distinct_unnamed distinct)]
  have given : (layered name file []).get? "custom" = file.get? "custom" := by
    rw [get?_layered distinct .nil, get?_custom_settingsFor, Option.or_none]
    rfl
  rw [customOf_eq_error_iff, others, given]

/-- The value under `custom` is a collection, if there is one and something is put over it. -/
def IsMergeable (file : Settings) : Prop :=
  unnamed file = [] ∨ ∀ given, file.get? "custom" = some given → Settings.IsCollection given

theorem isMergeable_iff :
    IsMergeable file ↔ ¬∃ fault, unnamed file ≠ [] ∧ ∃ given, file.get? "custom" = some given ∧
      Settings.ofJson given = .error fault := by
  have failing (given : Json) :
      Settings.IsCollection given ↔ ¬∃ fault, Settings.ofJson given = .error fault := by
    rw [← Settings.exists_ofJson_iff]
    cases Settings.ofJson given <;> simp
  simp only [IsMergeable, failing]
  grind

/-! ## What comes of a file -/

theorem readSettings_of_find (found : files.find place = .ok (.file bytes)) :
    readSettings files place =
      if place.hasExtension ".json" then
        match Utf8.decode bytes with
        | .error error => .error (.undecodable error)
        | .ok text =>
          match Json.parse (Text.plainLineEnds text) with
          | .error error =>
            .error (.invalidJson place (Json.errorMessage (Text.plainLineEnds text) error))
          | .ok (.object entries) => .ok entries
          | .ok _ => .error (.notObject place)
      else .error (.notJsonFile place) := by
  have present : files.exists? place = true := by
    rw [FileStore.exists?, found]
    rfl
  have read : files.read place = .ok bytes := by
    rw [FileStore.read, found]
    rfl
  rw [readSettings, present, FileStore.readText, read]
  dsimp only
  cases place.hasExtension ".json" with
  | false => rfl
  | true => cases Utf8.decode bytes <;> rfl

/-- The empty path leads to the current directory, so a file is not found there. -/
theorem fileLayer_of_find (found : files.find (.ofText path) = .ok (.file bytes)) :
    fileLayer files (some path) = readSettings files (.ofText path) := by
  unfold fileLayer
  split
  next absent => cases absent
  next empty =>
    obtain rfl := Option.some.inj empty
    have directory : files.find (.ofText "") = .ok .directory := rfl
    rw [directory] at found
    cases found
  next given =>
    obtain rfl := Option.some.inj given
    rfl

section Found

variable (found : files.find place = .ok (.file bytes))
include found

theorem readSettings_eq_ok_iff :
    readSettings files place = .ok file ↔
      place.hasExtension ".json" = true ∧ ∃ text, Utf8.decode bytes = .ok text ∧
        Json.parse (Text.plainLineEnds text) = .ok (.object file) := by
  rw [readSettings_of_find found]
  split
  next json =>
    rw [and_iff_right json]
    cases Utf8.decode bytes with
    | error => simp
    | ok text =>
      simp only [Except.ok.injEq, exists_eq_left']
      split <;> simp_all
  next other => simp [other]

theorem readSettings_eq_undecodable_iff :
    readSettings files place = .error (.undecodable error) ↔
      place.hasExtension ".json" = true ∧ Utf8.decode bytes = .error error := by
  rw [readSettings_of_find found]
  split
  next json =>
    rw [and_iff_right json]
    cases Utf8.decode bytes with
    | error => simp
    | ok text =>
      dsimp only
      split <;> simp
  next other => simp [other]

theorem readSettings_ne_custom : readSettings files place ≠ .error (.custom fault) := by
  rw [readSettings_of_find found]
  split
  next =>
    split
    next => simp
    next => split <;> simp
  next => simp

end Found

theorem ofSettings_eq_custom_iff :
    (ofSettings settings).mapError ConfigurationError.ofBuildFault = .error (.custom fault) ↔
      customOf settings = .error fault := by
  rw [ofSettings]
  cases customOf settings with
  | error other => simp [Except.mapError, ConfigurationError.ofBuildFault]
  | ok custom =>
    dsimp only
    split <;> simp [Except.mapError, ConfigurationError.ofBuildFault]

theorem ofSettings_ne_undecodable :
    (ofSettings settings).mapError ConfigurationError.ofBuildFault ≠
      .error (.undecodable error) := by
  rw [ofSettings]
  cases customOf settings with
  | error => simp [Except.mapError, ConfigurationError.ofBuildFault]
  | ok custom =>
    dsimp only
    split <;> simp [Except.mapError, ConfigurationError.ofBuildFault]

section Loaded

variable (found : files.find (.ofText path) = .ok (.file bytes)) (name : String)
include found

theorem load_of_find : load files name (some path) [] =
    readSettings files (.ofText path) >>= fun file =>
      (ofSettings (layered name file [])).mapError .ofBuildFault := by
  rw [load, fileLayer_of_find found]
  rfl

theorem load_eq_undecodable_iff :
    load files name (some path) [] = .error (.undecodable error) ↔
      (FilePath.ofText path).hasExtension ".json" = true ∧ Utf8.decode bytes = .error error := by
  rw [← readSettings_eq_undecodable_iff found, load_of_find found]
  cases readSettings files (.ofText path) with
  | error fault => simp [bind, Except.bind]
  | ok file => exact iff_of_false ofSettings_ne_undecodable nofun

theorem load_eq_custom_iff :
    load files name (some path) [] = .error (.custom fault) ↔
      (FilePath.ofText path).hasExtension ".json" = true ∧
        ∃ (text : List Char) (entries : Settings) (given : Json), Utf8.decode bytes = .ok text ∧
          Json.parse (Text.plainLineEnds text) = .ok (.object entries) ∧ unnamed entries ≠ [] ∧
          entries.get? "custom" = some given ∧ Settings.ofJson given = .error fault := by
  rw [load_of_find found]
  constructor
  · intro failed
    obtain early | ⟨file, read, late⟩ := error_of_bind_eq_error failed
    · exact absurd early (readSettings_ne_custom found)
    · obtain ⟨json, text, decoded, parsed⟩ := (readSettings_eq_ok_iff found).mp read
      obtain ⟨others, given, known, failing⟩ := (customOf_layered_eq_error_iff
        (Json.keyed_of_parse parsed file rfl)).mp (ofSettings_eq_custom_iff.mp late)
      exact ⟨json, text, file, given, decoded, parsed, others, known, failing⟩
  · rintro ⟨json, text, file, given, decoded, parsed, others, known, failing⟩
    rw [(readSettings_eq_ok_iff found).mpr ⟨json, text, decoded, parsed⟩]
    exact ofSettings_eq_custom_iff.mpr ((customOf_layered_eq_error_iff
      (Json.keyed_of_parse parsed file rfl)).mpr ⟨others, given, known, failing⟩)

end Loaded

/-- How the faults of a file of `bytes` come out. -/
structure FaultLaw (files : FileStore) (name path : String) (bytes : List UInt8) : Prop where
  undecodable : ∀ error, load files name (some path) [] = .error (.undecodable error) ↔
    (FilePath.ofText path).hasExtension ".json" = true ∧ Utf8.decode bytes = .error error
  custom : ∀ fault, load files name (some path) [] = .error (.custom fault) ↔
    (FilePath.ofText path).hasExtension ".json" = true ∧
      ∃ (text : List Char) (entries : Settings) (given : Json), Utf8.decode bytes = .ok text ∧
        Json.parse (Text.plainLineEnds text) = .ok (.object entries) ∧ unnamed entries ≠ [] ∧
        entries.get? "custom" = some given ∧ Settings.ofJson given = .error fault
  /-- Every fault is reported just where the bytes are a text, and the custom settings of the
  object that it spells, if it spells one, can be put together. -/
  reported : (∀ error, load files name (some path) [] = .error error → error.IsReported) ↔
    ((FilePath.ofText path).hasExtension ".json" = true → ∃ text, Utf8.decode bytes = .ok text ∧
      ∀ entries, Json.parse (Text.plainLineEnds text) = .ok (.object entries) →
        IsMergeable entries)

theorem find_settingsFile (text : String) : (settingsFile text).find (.ofText "settings.json") =
    .ok (.file (Utf8.encode text.toList)) := rfl

/-- The configuration file of a machine has a fault that is not reported. -/
def Escapes (files : FileStore) (error : ConfigurationError) : Prop :=
  load files "ImageCache" (some "settings.json") [] = .error error ∧ ¬error.IsReported

/-- The fault of the custom settings that an error comes from. -/
def customFault? : ConfigurationError → Option CollectionFault
  | .custom fault => some fault
  | _ => none

theorem escapes_of_customFault? (evaluated : (fault? (load files "ImageCache"
    (some "settings.json") [])).any (fun error => customFault? error == some fault) = true) :
    Escapes files (.custom fault) := by
  obtain ⟨error, failed, same⟩ := exists_error_of_any evaluated
  have same := eq_of_beq same
  cases error with
  | custom other =>
    cases same
    exact ⟨failed, id⟩
  | _ => cases same

end Configuration

end PeerExpansion
