import PeerExpansion.Configuration
import PeerExpansion.Text.Identifier

/-! # Warnings about a configuration

Settings that will generate something the compiler refuses are worth a warning, though not an
error. Each check can itself fail on a value of the wrong sort.
-/

namespace PeerExpansion.Configuration

def suffixWarnings (configuration : Configuration) : Except Misuse (List String) :=
  match configuration.suffix with
  | .text suffix =>
    if Text.isIdentifier suffix.toList then .ok []
    else .ok ["Suffix is not a valid identifier part: " ++ Text.quoted suffix]
  | _ => .error .notText

def emptinessWarnings (name : String) (value : Json) : List String :=
  if value.isTruthy then [] else [name ++ " must not be empty"]

def markerWarnings (configuration : Configuration) : Except Misuse (List String) :=
  if configuration.emitPersistenceMarker.isTruthy then
    match configuration.persistenceMarker with
    | .text marker =>
      if marker.toList.head? == some '@' then .ok []
      else .ok ["Persistence marker should be an attribute: " ++ Text.quoted marker]
    | _ => .error .notText
  else .ok []

/-- Whether a number is less than one. A number with a fraction that is not negative is so when
nothing but a zero stands in front of its point. -/
def isBelowOne : Json → Except Misuse Bool
  | .int value => .ok (value < 1)
  | .bool value => .ok (!value)
  | .decimal spelling =>
    .ok (spelling.toList.head? == some '-' || spelling.toList.take 2 == ['0', '.'])
  | _ => .error .wrongSort

def indentWarnings (configuration : Configuration) : Except Misuse (List String) := do
  let small ← isBelowOne configuration.indentSize
  if small && !configuration.useTabs.isTruthy then
    return ["Invalid indent_size: " ++ configuration.indentSize.display]
  else return []

def warnings (configuration : Configuration) : Except Misuse (List String) := do
  let suffix ← configuration.suffixWarnings
  let marker ← configuration.markerWarnings
  let indent ← configuration.indentWarnings
  return suffix ++ emptinessWarnings "raw_buffer_type" configuration.rawBufferType ++
    emptinessWarnings "resource_type" configuration.resourceType ++ marker ++ indent

end PeerExpansion.Configuration
