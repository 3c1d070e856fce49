import PeerExpansion.Association
import PeerExpansion.Text.Quoted

/-! # Registries

A registry says which attribute names are macros: each primary name has a class of generators, and
each alias stands for a primary name. Registering stops at the first alias it cannot take, and keeps
what it did until then.
-/

namespace PeerExpansion

inductive RegistryError
  | notGeneratorClass
  | nameIsAlias (name : String)
  | aliasIsPrimary (name : String)
  | aliasTaken (name primary : String)
  | unknown (name : String) (available : List String)
  /-- A primary name that has no class. -/
  | noClass (primary : String)
  | invalidConfiguration (sort : String)
  | creationFailed (name reason : String)
deriving DecidableEq

def RegistryError.message : RegistryError → String
  | notGeneratorClass => "Generator class must inherit from MacroGenerator"
  | nameIsAlias name => "'" ++ name ++ "' is already registered as an alias"
  | aliasIsPrimary name => "Alias '" ++ name ++ "' conflicts with existing primary macro"
  | aliasTaken name primary => "Alias '" ++ name ++ "' already points to '" ++ primary ++ "'"
  | unknown name available =>
    "No generator registered for macro: " ++ name ++ ". Available: " ++
      if available.isEmpty then "none" else String.intercalate ", " available
  | noClass primary => Text.quoted primary
  | invalidConfiguration sort => "Invalid config type: <class '" ++ sort ++ "'>"
  | creationFailed name reason => "Failed to create " ++ name ++ " generator: " ++ reason

structure Registry (Class : Type) where
  classes : List (String × Class)
  /-- The primary name that each alias stands for. -/
  aliases : List (String × String)

namespace Registry

variable {Class : Type}

def empty : Registry Class := ⟨[], []⟩

/-- Names in order of their characters. -/
def sorted (names : List String) : List String :=
  names.mergeSort fun first second => !decide (second < first)

def isPrimary (registry : Registry Class) (name : String) : Bool :=
  (registry.classes.lookup name).isSome

def isAlias (registry : Registry Class) (name : String) : Bool :=
  (registry.aliases.lookup name).isSome

def isSupported (registry : Registry Class) (name : String) : Bool :=
  registry.isPrimary name || registry.isAlias name

/-- The primary names. -/
def primaries (registry : Registry Class) : List String :=
  sorted (registry.classes.map (·.1))

def aliasesOf (registry : Registry Class) (primary : String) : List String :=
  sorted ((registry.aliases.filter fun (_, target) => target == primary).map (·.1))

/-- Every primary name with all the names it answers to. -/
def allNames (registry : Registry Class) : List (String × List String) :=
  registry.primaries.map fun name => (name, name :: registry.aliasesOf name)

/-- The primary name for a name or alias. A name that is both is primary. -/
def resolve (registry : Registry Class) (name : String) : Except RegistryError String :=
  if registry.isPrimary name then .ok name
  else
    match registry.aliases.lookup name with
    | some primary => .ok primary
    | none => .error (.unknown name registry.primaries)

def findClass (registry : Registry Class) (name : String) : Except RegistryError Class := do
  let primary ← registry.resolve name
  match registry.classes.lookup primary with
  | some found => return found
  | none => throw (.noClass primary)

/-- Why `second` cannot stand for `name` unless it may replace what it stood for before. -/
def conflict? (registry : Registry Class) (name second : String) : Option RegistryError :=
  if registry.isPrimary second then some (.aliasIsPrimary second)
  else
    match registry.aliases.lookup second with
    | some primary => if primary = name then none else some (.aliasTaken second primary)
    | none => none

def putAlias (registry : Registry Class) (name second : String) : Registry Class :=
  { registry with aliases := Association.put registry.aliases second name }

/-- Adds aliases up to the first that is refused. A name is no alias of itself. -/
def addAliases (registry : Registry Class) (name : String) (replace : Bool) :
    List String → Registry Class × Except RegistryError Unit
  | [] => (registry, .ok ())
  | second :: others =>
    if second = name then registry.addAliases name replace others
    else if replace then (registry.putAlias name second).addAliases name replace others
    else
      match registry.conflict? name second with
      | some error => (registry, .error error)
      | none => (registry.putAlias name second).addAliases name replace others

/-- Registers a class for a name; `none` stands for anything that is no class of generators. A name
that has a class already keeps it unless it is to be replaced. -/
def register (registry : Registry Class) (name : String) (candidate : Option Class)
    (aliases : List String) (replace : Bool) : Registry Class × Except RegistryError Unit :=
  match candidate with
  | none => (registry, .error .notGeneratorClass)
  | some found =>
    if registry.isAlias name then (registry, .error (.nameIsAlias name))
    else if registry.isPrimary name && !replace then (registry, .ok ())
    else
      addAliases { registry with classes := Association.put registry.classes name found }
        name replace aliases

/-- Takes a primary name and its aliases out. -/
def unregister (registry : Registry Class) (name : String) : Registry Class where
  classes := Association.erase registry.classes name
  aliases := registry.aliases.filter fun (_, target) => target != name

end Registry

end PeerExpansion
