import PeerExpansion.Cursor

/-! # Binding patterns

What a variable declaration binds: a name, nothing, or a tuple of patterns.
-/

namespace PeerExpansion

inductive Pattern
  | name (text : String) (position : Position)
  | wildcard (position : Position)
  /-- `text` is the source text from parenthesis to parenthesis. -/
  | tuple (elements : List Pattern) (text : String) (position : Position)

namespace Pattern

def position : Pattern → Position
  | name _ position | wildcard position | tuple _ _ position => position

def text : Pattern → String
  | name text _ => text
  | wildcard _ => "_"
  | tuple _ text _ => text

open Reading

/-- A pattern with at most `depth` tuples inside one another. Each costs a token. -/
def readWithin : Nat → Reading Pattern
  | 0 => missing "pattern"
  | depth + 1 => do
    let first ← current
    if first.reads "(" then
      skip 1
      let elements ← listed ")" (readWithin depth)
      let _ ← expect ")"
      return tuple elements (← textSince first) first.position
    else if first.isIdentifier && first.text == "_" then
      skip 1
      return wildcard first.position
    else
      let _ ← expectIdentifier "pattern"
      return name first.text first.position

def read : Reading Pattern := do
  readWithin (← get).remaining

end Pattern

end PeerExpansion
