import PeerExpansion.Declaration
import PeerExpansion.Declaration.Extent
import PeerExpansion.Token.Scan
import PeerExpansion.TypeExpr.Read

/-! # Reading declarations

`Declaration.read` reads the declaration at a cursor, `Declaration.parse` a text that holds one
declaration and nothing else.
-/

namespace PeerExpansion.Declaration

open Reading

def modifierWords : List String :=
  ["private", "fileprivate", "internal", "public", "open", "package", "static", "class", "final",
    "lazy", "weak", "unowned", "override", "mutating", "nonmutating", "dynamic", "required",
    "convenience", "optional", "indirect", "nonisolated", "distributed", "prefix", "postfix",
    "infix", "consuming", "borrowing"]

/-- Whether `token` is a modifier in front of `next`. The word `class` is one only in front of
another modifier or of a keyword. -/
def isModifier (token next : Token) : Bool :=
  token.isIdentifier && token.isOneOf modifierWords &&
    (token.text != "class" || next.isOneOf modifierWords ||
      (DeclarationKind.ofKeyword? next.text).isSome)

/-- A modifier, with its detail when one stands in parentheses directly behind it. -/
def readModifier : Reading String := do
  let word ← advance
  let next ← current
  if next.reads "(" && next.start == word.stop then
    skip 1
    let detail ← expectIdentifier "modifier detail"
    let _ ← expect ")"
    return word.text ++ "(" ++ detail.text ++ ")"
  else return word.text

def readModifiersWithin : Nat → Reading (List String)
  | 0 => return []
  | limit + 1 => do
    if isModifier (← current) (← ahead 1) then
      let modifier ← readModifier
      let others ← readModifiersWithin limit
      return modifier :: others
    else return []

def readModifiers : Reading (List String) := do
  readModifiersWithin (← get).remaining

/-- Reads a block between braces and answers its source text. -/
def readBlock : Reading String := do
  let brace ← expect Token.openBrace
  match Extent.blockLength? 0 (← get).behind with
  | none => fail .unterminatedBlock brace
  | some length =>
    skip length
    textSince brace

/-- Reads an initializer and answers its source text. -/
def readInitializer : Reading String := do
  let first ← current
  if first.kind == .ending || Extent.endsExpression first then
    fail .missingInitializer first
  skip 1
  skip (Extent.expressionLength first (Extent.depthBehind 0 first) (← get).behind)
  textSince first

def readType? : Reading (Option TypeExpr) := do
  if ← check ":" then
    skip 1
    return some (← TypeExpr.read)
  else return none

def readInitializer? : Reading (Option String) := do
  if ← check "=" then
    skip 1
    return some (← readInitializer)
  else return none

def readAccessors? : Reading (Option String) := do
  if ← check Token.openBrace then return some (← readBlock) else return none

def readBinding : Reading Binding := do
  let pattern ← Pattern.read
  let type ← readType?
  let initializer ← readInitializer?
  let accessors ← readAccessors?
  return ⟨pattern, type, initializer, accessors⟩

/-- Passes what follows the keyword of anything but a variable, and answers the name. -/
def readBody (keyword : Token) : Reading (Option String) := do
  let first ← current
  skip (Extent.headerLength keyword 0 0 (← get).behind)
  if (← current).isPunctuation Token.openBrace then
    let _ ← readBlock
  return if first.isIdentifier then some first.text else none

def readKeyword : Reading (Token × DeclarationKind) := do
  let keyword ← current
  match DeclarationKind.ofKeyword? keyword.text with
  | some kind =>
    if keyword.isIdentifier then
      skip 1
      return (keyword, kind)
    else missing "a declaration"
  | none => missing "a declaration"

/-- Reads the declaration at the cursor, its attributes and modifiers included. -/
def read : Reading Declaration := do
  let first ← current
  let attributes ← Attribute.readAll
  let modifiers ← readModifiers
  let (keyword, kind) ← readKeyword
  let bindings ← if kind = .property then separated "," readBinding else pure []
  let name ← if kind = .property then pure none else readBody keyword
  let stop := ((← get).previous?.map Token.stop).getD first.start
  return {
    kind, keyword := keyword.text, position := first.position, stop
    text := ← textSince first
    attributes, modifiers, bindings, name }

/-- Reads a declaration with nothing behind it but at most one semicolon. -/
def readOnly : Reading Declaration := do
  let declaration ← read
  if (← current).isPunctuation ";" then
    skip 1
  let next ← current
  if next.kind != .ending then
    fail (.trailing next.text) next
  return declaration

/-- Reads a source that holds a single declaration. -/
def parse (source : List Char) : Except SyntaxError Declaration := do
  let stream ← TokenStream.scan source
  let (declaration, _) ← readOnly.run (.ofStream stream 0)
  return declaration

end PeerExpansion.Declaration
