import PeerExpansion.Json
import PeerExpansion.Misuse
import PeerExpansion.Text.Repeat

/-! # Configuration

The settings that shape what is generated. A setting holds the value it was given, of whatever sort;
only an unset suffix is refused. Settings without a field of their own are kept in `custom`.
-/

namespace PeerExpansion

structure Configuration where
  suffix : Json := .text "Data"
  rawBufferType : Json := .text "Data"
  resourceType : Json := .text "Image"
  persistenceMarker : Json := .text "@Transient"
  emitPersistenceMarker : Json := .bool false
  argumentLabel : Json := .text "useSwiftData"
  /-- Unset when the target is the machine that generates. -/
  targetPlatform : Json := .null
  indentSize : Json := .int 4
  useTabs : Json := .bool false
  custom : Json := .object []
deriving DecidableEq

/-- Why a value cannot be read as a collection of named settings. -/
inductive CollectionFault
  | notIterable (sort : String)
  | notPair (index : Nat)
  | wrongLength (index length : Nat)
  | unusableKey (sort : String)
deriving DecidableEq

def CollectionFault.message : CollectionFault → String
  | notIterable sort => "'" ++ sort ++ "' object is not iterable"
  | notPair index =>
    "cannot convert dictionary update sequence element #" ++ toString index ++ " to a sequence"
  | wrongLength index length =>
    "dictionary update sequence element #" ++ toString index ++ " has length " ++
      toString length ++ "; 2 is required"
  | unusableKey sort => "unhashable type: '" ++ sort ++ "'"

/-- A sequence of the wrong length is of the right sort; all else is not. -/
def CollectionFault.misuse : CollectionFault → Misuse
  | wrongLength .. => .malformed
  | _ => .wrongSort

namespace Settings

/-- The elements of a value that is a sequence. The elements of an object are its keys. -/
def elements? : Json → Option (List Json)
  | .list items => some items
  | .text value => some (value.toList.map fun character => .text (String.singleton character))
  | .object entries => some (entries.map fun (key, _) => .text key)
  | _ => none

/-- The text under which a value of any simple sort serves as a key. -/
def key? : Json → Option String
  | .text value => some value
  | .null => some "null"
  | .bool value => some (if value then "true" else "false")
  | .int value => some (toString value)
  | .decimal spelling => some spelling
  | .list _ | .object _ => none

def ofPair (index : Nat) (pair : Json) : Except CollectionFault (String × Json) :=
  match elements? pair with
  | none => .error (.notPair index)
  | some [key, value] =>
    match key? key with
    | some key => .ok (key, value)
    | none => .error (.unusableKey key.sortName)
  | some parts => .error (.wrongLength index parts.length)

/-- Reads a value as named settings: an object, or a sequence of pairs. -/
def ofJson (value : Json) : Except CollectionFault Settings :=
  match value with
  | .object entries => .ok entries
  | value =>
    match elements? value with
    | none => .error (.notIterable value.sortName)
    | some pairs => do
      let entries ← pairs.zipIdx.mapM fun (pair, index) => ofPair index pair
      return putAll [] entries

end Settings

namespace Configuration

/-- The names of the settings with a field of their own, `custom` included. -/
def fieldNames : List String :=
  ["suffix", "raw_buffer_type", "resource_type", "persistence_marker",
    "emit_persistence_marker", "argument_label", "target_platform", "indent_size", "use_tabs",
    "custom"]

inductive BuildFault
  | emptySuffix
  | custom (fault : CollectionFault)
deriving DecidableEq

/-- The custom settings: those given as such, and behind them those that no field is named for. -/
def customOf (settings : Settings) : Except CollectionFault Json := do
  let given := (settings.get? "custom").getD (.object [])
  let others := settings.filter fun (key, _) => !fieldNames.contains key
  if others.isEmpty then return given
  else return .object (Settings.putAll (← Settings.ofJson given) others)

def ofSettings (settings : Settings) : Except BuildFault Configuration :=
  match customOf settings with
  | .error fault => .error (.custom fault)
  | .ok custom =>
    let value (key : String) (otherwise : Json) := (settings.get? key).getD otherwise
    let standard : Configuration := {}
    let configuration : Configuration := {
      suffix := value "suffix" standard.suffix
      rawBufferType := value "raw_buffer_type" standard.rawBufferType
      resourceType := value "resource_type" standard.resourceType
      persistenceMarker := value "persistence_marker" standard.persistenceMarker
      emitPersistenceMarker := value "emit_persistence_marker" standard.emitPersistenceMarker
      argumentLabel := value "argument_label" standard.argumentLabel
      targetPlatform := value "target_platform" standard.targetPlatform
      indentSize := value "indent_size" standard.indentSize
      useTabs := value "use_tabs" standard.useTabs
      custom }
    if configuration.suffix.isTruthy then .ok configuration else .error .emptySuffix

/-- The settings with a field of their own, in their fixed order, without the custom ones. -/
def fields (configuration : Configuration) : Settings :=
  [("suffix", configuration.suffix), ("raw_buffer_type", configuration.rawBufferType),
    ("resource_type", configuration.resourceType),
    ("persistence_marker", configuration.persistenceMarker),
    ("emit_persistence_marker", configuration.emitPersistenceMarker),
    ("argument_label", configuration.argumentLabel),
    ("target_platform", configuration.targetPlatform),
    ("indent_size", configuration.indentSize), ("use_tabs", configuration.useTabs)]

/-- The settings from which the configuration can be built again. A custom setting that bears the
name of a field takes its place. -/
def toSettings (configuration : Configuration) : Except CollectionFault Settings := do
  return configuration.fields.putAll (← Settings.ofJson configuration.custom)

/-- The type a source field has to be declared with, as it is written. -/
def expectedType (configuration : Configuration) : String :=
  configuration.rawBufferType.display ++ "?"

/-- As many spaces as a value counts. -/
def spaces (size : Json) : Except Misuse String :=
  match size.count? with
  | none => .error .wrongSort
  | some count =>
    match Text.repeat? [' '] count with
    | some spaces => .ok (String.ofList spaces)
    | none => .error .tooLarge

/-- What one level of indentation is written as. -/
def indentUnit (configuration : Configuration) : Except Misuse String :=
  if configuration.useTabs.isTruthy then .ok "\t" else spaces configuration.indentSize

end Configuration

end PeerExpansion
