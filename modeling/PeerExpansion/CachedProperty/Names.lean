import PeerExpansion.CachedProperty.Refusal
import PeerExpansion.Configuration
import PeerExpansion.Declaration

/-! # Names of a cached property

A stored field whose name ends in the configured suffix gives rise to three names: those of the hash
field, the cache field and the accessor. `Names.derive` checks the declaration rule by rule, and the
first rule it breaks is the one reported.
-/

namespace PeerExpansion.CachedProperty

structure Names where
  source : String
  /-- The name of the source field without the suffix. -/
  stem : String
deriving DecidableEq

namespace Names

def hashField (names : Names) : String :=
  names.stem ++ "Hash"

def cacheField (names : Names) : String :=
  names.stem ++ "Cache"

def accessor (names : Names) : String :=
  names.stem

/-- The binding of a variable that has only one. -/
def onlyBinding (declaration : Declaration) : Except RefusalReason Binding :=
  if declaration.isProperty then
    match declaration.bindings with
    | [] => .error .notVariable
    | [binding] => .ok binding
    | _ => .error .severalBindings
  else .error .notVariable

def identifierOf (binding : Binding) : Except RefusalReason String :=
  match binding.pattern with
  | .name text _ => .ok text
  | _ => .error .internal

/-- Whether a binding is annotated with an optional type that is written like `expected`. -/
def hasType (binding : Binding) (expected : String) : Bool :=
  match binding.type with
  | some (.optional wrapped) => (TypeExpr.optional wrapped).description == expected
  | _ => false

/-- What is left of a name in front of its suffix. -/
def stem? (name suffix : String) : Option String :=
  if suffix.toList.isSuffixOf name.toList then
    some (String.ofList (name.toList.take (name.length - suffix.length)))
  else none

def ofIdentifier (identifier suffix : String) : Except RefusalReason Names :=
  match stem? identifier suffix with
  | none => .error (.missingSuffix identifier suffix)
  | some "" => .error (.nothingBeforeSuffix identifier suffix)
  | some stem => .ok ⟨identifier, stem⟩

def checkType (configuration : Configuration) (binding : Binding) (identifier : String) :
    Except RefusalReason Unit :=
  if hasType binding configuration.expectedType then .ok ()
  else .error (.wrongType identifier configuration.expectedType)

/-- The names for a declaration, on behalf of the attribute `attributeName`. A suffix that is no
text comes to light only once everything in front of it has been found right. -/
def derive (configuration : Configuration) (attributeName : String)
    (declaration : Declaration) : Except PropertyFault Names := do
  let refuse (reason : RefusalReason) : PropertyFault := .refused ⟨attributeName, reason⟩
  let binding ← (onlyBinding declaration).mapError refuse
  let identifier ← (identifierOf binding).mapError refuse
  (checkType configuration binding identifier).mapError refuse
  match configuration.suffix with
  | .text suffix => (ofIdentifier identifier suffix).mapError refuse
  | _ => throw (.misused .wrongSort)

end Names

end PeerExpansion.CachedProperty
