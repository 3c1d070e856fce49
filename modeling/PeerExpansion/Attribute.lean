import PeerExpansion.Cursor

/-! # Attributes

An attribute is `@Name` or `@Name(arguments)` in front of a declaration. Its argument clause opens
directly behind the name and is split at the commas outside brackets.
-/

namespace PeerExpansion

structure Argument where
  label : Option String
  /-- The source text of the argument without its label. -/
  expression : String
  tokens : List Token
  position : Position

namespace Argument

/-- The value of an argument that is the word `true` or `false` and nothing else. -/
def literal? (argument : Argument) : Option Bool :=
  match argument.tokens with
  | [token] =>
    if token.text == "true" then some true
    else if token.text == "false" then some false
    else none
  | _ => none

end Argument

structure Attribute where
  name : String
  /-- `none` without an argument clause. -/
  arguments : Option (List Argument)
  position : Position
  stop : Nat

namespace Attribute

def start (attr : Attribute) : Nat :=
  attr.position.offset

def argumentCount (attr : Attribute) : Nat :=
  (attr.arguments.getD []).length

open Reading

/-- How a token changes the number of open brackets. -/
def nesting (token : Token) : Int :=
  if token.isOpening then 1 else if token.isClosing then -1 else 0

/-- The number of tokens up to the comma or parenthesis that ends an argument, where `depth`
brackets are open; `none` when the source ends first. -/
def argumentLength? (depth : Int) : List Token → Option Nat
  | [] => none
  | token :: others =>
    if depth = 0 && (token.isPunctuation "," || token.isPunctuation ")") then some 0
    else (argumentLength? (depth + nesting token) others).map (· + 1)

def readLabel : Reading (Option String) := do
  let first ← current
  if first.isIdentifier && (← ahead 1).isPunctuation ":" then
    skip 2
    return some first.text
  else return none

def readArgument (clause : Token) : Reading Argument := do
  let first ← current
  let label ← readLabel
  let cursor ← get
  match argumentLength? 0 cursor.behind with
  | none => fail .unterminatedArguments clause
  | some length =>
    skip length
    let expression ← if length = 0 then pure "" else textSince cursor.current
    return ⟨label, expression, cursor.behind.take length, first.position⟩

def readArguments : Reading (List Argument) := do
  let clause ← expect "("
  if ← check ")" then
    skip 1
    return []
  let arguments ← separated "," (readArgument clause)
  let _ ← expect ")"
  return arguments

def readMembersWithin : Nat → Reading (List Token)
  | 0 => return []
  | limit + 1 => do
    if (← check ".") && (← ahead 1).isIdentifier then
      let member ← ahead 1
      skip 2
      let members ← readMembersWithin limit
      return member :: members
    else return []

/-- The names after the first one of a dotted name. -/
def readMembers : Reading (List Token) := do
  readMembersWithin (← get).remaining

def read : Reading Attribute := do
  let mark ← expect "@"
  let first ← expectIdentifier "attribute name"
  let members ← readMembers
  let name := String.intercalate "." ((first :: members).map Token.text)
  let last := members.getLastD first
  let next ← current
  if next.reads "(" && next.start == last.stop then
    let arguments ← readArguments
    let stop := ((← get).previous?.map Token.stop).getD last.stop
    return ⟨name, some arguments, mark.position, stop⟩
  else return ⟨name, none, mark.position, last.stop⟩

def readAllWithin : Nat → Reading (List Attribute)
  | 0 => return []
  | limit + 1 => do
    if ← check "@" then
      let attr ← read
      let others ← readAllWithin limit
      return attr :: others
    else return []

/-- The attributes in a row at the cursor. -/
def readAll : Reading (List Attribute) := do
  readAllWithin (← get).remaining

end Attribute

end PeerExpansion
