import PeerExpansion.Attribute
import PeerExpansion.TypeExpr

/-! # Reading types

Types nest, so the readers of this module take the reader for the types inside as a parameter;
`suffixedWithin` ties the knot. Every level of nesting costs a token, so the number of tokens left
bounds the depth, and at depth zero there is nothing left to read a type from.
-/

namespace PeerExpansion.TypeExpr

open Reading

/-- One or more types joined by `&`. -/
def readComposition (suffixed : Reading TypeExpr) : Reading TypeExpr := do
  match ← separated "&" suffixed with
  | [type] => return type
  | members => return composition members

def readGenericArguments (type : Reading TypeExpr) : Reading (List TypeExpr) := do
  if ← check "<" then
    skip 1
    let arguments ← separated "," type
    let _ ← expect ">"
    return arguments
  else return []

/-- Words that name a metatype when they follow a point. -/
def metatypes : List String :=
  ["Type", "Protocol"]

/-- A part of a dotted name as it is written, and its generic arguments. -/
def readPart (type : Reading TypeExpr) : Reading (String × List TypeExpr) := do
  let name ← expectIdentifier "type name"
  let arguments ← readGenericArguments type
  return (genericName name.text arguments, arguments)

/-- The parts of a dotted name, and the generic arguments of the last one. -/
def readNameWithin (type : Reading TypeExpr) : Nat → Reading (List String × List TypeExpr)
  | 0 => do
    let (part, arguments) ← readPart type
    return ([part], arguments)
  | limit + 1 => do
    let (part, arguments) ← readPart type
    let next ← ahead 1
    if (← check ".") && next.isIdentifier && !next.isOneOf metatypes then
      skip 1
      let (others, lastArguments) ← readNameWithin type limit
      return (part :: others, lastArguments)
    else return ([part], arguments)

def readSimple (type : Reading TypeExpr) : Reading TypeExpr := do
  let (parts, arguments) ← readNameWithin type (← get).remaining
  return simple (String.intercalate "." parts) arguments

/-- An array or dictionary type, between square brackets. -/
def readBracketed (type : Reading TypeExpr) : Reading TypeExpr := do
  let _ ← expect "["
  let element ← type
  if ← check ":" then
    skip 1
    let value ← type
    let _ ← expect "]"
    return dictionary element value
  else
    let _ ← expect "]"
    return array element

/-- The label of an element: the last of at most two names in front of a colon. -/
def readLabel : Reading (Option String) := do
  let first ← current
  let second ← ahead 1
  let third ← ahead 2
  if first.isIdentifier && second.text == ":" then
    skip 2
    return some first.text
  else if first.isIdentifier && second.isIdentifier && third.text == ":" then
    skip 3
    return some second.text
  else return none

def readElement (type : Reading TypeExpr) : Reading (Option String × TypeExpr) := do
  let label ← readLabel
  let element ← type
  return (label, element)

def effectWords : List String :=
  ["async", "throws", "rethrows"]

def readEffects : Reading (List String) := do
  let effects := (← get).behind.takeWhile (·.isOneOf effectWords)
  skip effects.length
  return effects.map Token.text

/-- A function or tuple type, or a type between parentheses, which stands for itself. -/
def readParenthesised (type : Reading TypeExpr) : Reading TypeExpr := do
  let _ ← expect "("
  let elements ← listed ")" (readElement type)
  let _ ← expect ")"
  let effects ← readEffects
  if ← check "->" then
    skip 1
    let result ← type
    return function elements effects result
  if !effects.isEmpty then
    fail .missingArrow (← current)
  match elements with
  | [(none, element)] => return element
  | _ => return tuple elements

def ownershipWords : List String :=
  ["inout", "borrowing", "consuming", "sending"]

def skipOwnershipWithin : Nat → Reading Unit
  | 0 => return
  | limit + 1 => do
    if ← check "@" then
      let _ ← Attribute.read
      skipOwnershipWithin limit
    else if (← current).isOneOf ownershipWords then
      skip 1
      skipOwnershipWithin limit

/-- Passes the attributes and ownership words in front of a type, which are no part of it. -/
def skipOwnership : Reading Unit := do
  skipOwnershipWithin (← get).remaining

def constraintWords : List String :=
  ["some", "any"]

/-- A type up to, but without, the marks behind it. -/
def readPrimary (suffixed : Reading TypeExpr) : Reading TypeExpr := do
  skipOwnership
  let first ← current
  let type := readComposition suffixed
  if first.isOneOf constraintWords && (← ahead 1).isIdentifier then
    skip 1
    let constraint ← suffixed
    return constrained first.text constraint
  else if first.reads "(" then readParenthesised type
  else if first.reads "[" then readBracketed type
  else if first.isIdentifier then readSimple type
  else missing "a type"

def readSuffixesWithin (type : TypeExpr) : Nat → Reading TypeExpr
  | 0 => return type
  | limit + 1 => do
    let member ← ahead 1
    if ← check "?" then
      skip 1
      readSuffixesWithin (optional type) limit
    else if ← check "!" then
      skip 1
      readSuffixesWithin (implicitlyUnwrapped type) limit
    else if (← check ".") && member.isOneOf metatypes then
      skip 2
      readSuffixesWithin (simple (type.description ++ "." ++ member.text) []) limit
    else return type

def suffixedWithin : Nat → Reading TypeExpr
  | 0 => missing "a type"
  | depth + 1 => do
    let type ← readPrimary (suffixedWithin depth)
    readSuffixesWithin type (← get).remaining

/-- Reads the type at the cursor. -/
def read : Reading TypeExpr := do
  readComposition (suffixedWithin (← get).remaining)

end PeerExpansion.TypeExpr
