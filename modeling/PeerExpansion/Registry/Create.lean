import PeerExpansion.Configuration.Load
import PeerExpansion.Generator
import PeerExpansion.Registry

/-! # Generators from a registry

A registry of generator classes makes the generator for a name from a configuration, which can be
given in several ways, and tells about the macros it knows.
-/

namespace PeerExpansion

inductive ConfigurationSource
  | standard
  | settings (overrides : Settings)
  | file (path : String)
  | ready (configuration : Configuration)
  /-- A value that cannot be a configuration. -/
  | unusable (sort : String)

structure MacroInfo where
  name : String
  className : String
  role : String
  aliases : List String
  module : String

/-- Why a registry cannot tell about a macro. -/
inductive InfoFault
  | registry (error : RegistryError)
  | misused (misuse : Misuse)
  | configuration (error : ConfigurationError)

namespace ConfigurationSource

/-- The configuration for the macro `primary`, or the reason why there is none. -/
def resolve (files : FileStore) (primary : String) :
    ConfigurationSource → Except ConfigurationError Configuration
  | standard | unusable _ => Configuration.load files primary none []
  | settings overrides => Configuration.load files primary none overrides
  | file path => Configuration.load files primary (some path) []
  | ready configuration => .ok configuration

end ConfigurationSource

namespace Registry

abbrev Macros := Registry GeneratorClass

/-- The registry of the macros this library brings along. -/
def standard (machine : String) : Macros :=
  (empty.register "ImageCache" (some (CachedProperty.generatorClass machine)) [] false).1

/-- Makes the generator for a name. Whatever goes wrong on the way is an error of the registry. -/
def create (registry : Macros) (files : FileStore) (name : String)
    (source : ConfigurationSource) : Except RegistryError Generator := do
  let found ← registry.findClass name
  let primary ← registry.resolve name
  match source with
  | .unusable sort => throw (.invalidConfiguration sort)
  | source =>
    match source.resolve files primary with
    | .error error => throw (.creationFailed name error.message)
    | .ok configuration =>
      match found.create configuration with
      | .error reason => throw (.creationFailed name reason)
      | .ok generator => return generator

def info (registry : Macros) (files : FileStore) (name : String) :
    Except InfoFault MacroInfo := do
  let found ← (registry.findClass name).mapError .registry
  let primary ← (registry.resolve name).mapError .registry
  let configuration ← (Configuration.load files primary none []).mapError .configuration
  match found.create configuration with
  | .error _ => throw (.misused .wrongSort)
  | .ok generator =>
    return ⟨generator.macroName, found.name, generator.role, registry.aliasesOf primary,
      found.module⟩

/-- What there is to tell about every macro. -/
def allInfo (registry : Macros) (files : FileStore) :
    Except InfoFault (List (String × MacroInfo)) :=
  registry.primaries.mapM fun name => do
    return (name, ← registry.info files name)

end Registry

end PeerExpansion
