import PeerExpansion.Configuration
import PeerExpansion.FileStore
import PeerExpansion.Json.Print
import PeerExpansion.Json.Read

/-! # Loading and saving configurations

A configuration is built in layers: what is known about the attribute, then a JSON file, then
overrides. A setting of a later layer replaces that of an earlier one.
-/

namespace PeerExpansion

inductive ConfigurationError
  | emptySuffix
  | missingFile (path : FilePath)
  | notJsonFile (path : FilePath)
  | unreadable (path : FilePath) (fault : FileFault)
  | undecodable (error : Utf8.DecodeError)
  | invalidJson (path : FilePath) (reason : String)
  | notObject (path : FilePath)
  | unwritable (path : FilePath) (fault : FileFault)
  | custom (fault : CollectionFault)

namespace ConfigurationError

def message : ConfigurationError → String
  | emptySuffix => "suffix must not be empty"
  | missingFile path => "Configuration file not found: " ++ path.display
  | notJsonFile path => "Configuration file must be JSON: " ++ path.display
  | unreadable path fault =>
    "Failed to load configuration file " ++ path.display ++ ": " ++ fault.message path
  | undecodable error => error.message
  | invalidJson path reason =>
    "Invalid JSON in configuration file " ++ path.display ++ ": " ++ reason
  | notObject path => "Configuration file must contain a JSON object: " ++ path.display
  | unwritable path fault =>
    "Failed to save configuration to " ++ path.display ++ ": " ++ fault.message path
  | custom fault => fault.message

def ofBuildFault : Configuration.BuildFault → ConfigurationError
  | .emptySuffix => emptySuffix
  | .custom fault => custom fault

end ConfigurationError

namespace Configuration

/-- The settings known for attributes, by the name of the attribute in small letters. -/
def knownSettings : List (String × Settings) :=
  [("imagecache",
    [("suffix", .text "Data"), ("raw_buffer_type", .text "Data"),
      ("resource_type", .text "Image"), ("persistence_marker", .text "@Transient"),
      ("emit_persistence_marker", .bool false), ("argument_label", .text "useSwiftData")])]

def settingsFor (name : String) : Settings :=
  (knownSettings.lookup (String.ofList (name.toList.map Text.lowercase))).getD []

def readSettings (files : FileStore) (path : FilePath) :
    Except ConfigurationError Settings :=
  if !files.exists? path then .error (.missingFile path)
  else if !path.hasExtension ".json" then .error (.notJsonFile path)
  else
    match files.readText path with
    | .error (.file fault) => .error (.unreadable path fault)
    | .error (.encoding error) => .error (.undecodable error)
    | .ok text =>
      match Json.parse text with
      | .error error => .error (.invalidJson path (Json.errorMessage text error))
      | .ok (.object entries) => .ok entries
      | .ok _ => .error (.notObject path)

/-- The layer that a configuration file adds, if one is named. -/
def fileLayer (files : FileStore) (path : Option String) :
    Except ConfigurationError Settings :=
  match path with
  | none | some "" => .ok []
  | some path => readSettings files (.ofText path)

/-- The configuration for the attribute `name`. -/
def load (files : FileStore) (name : String) (path : Option String) (overrides : Settings) :
    Except ConfigurationError Configuration := do
  let file ← fileLayer files path
  let settings := ((settingsFor name).putAll file).putAll overrides
  (ofSettings settings).mapError .ofBuildFault

def save (files : FileStore) (configuration : Configuration) (path : String) :
    Except ConfigurationError FileStore := do
  let settings ← configuration.toSettings.mapError .custom
  let path := FilePath.ofText path
  (files.writeText path (Json.print (.object settings))).mapError (.unwritable path)

end Configuration

end PeerExpansion
