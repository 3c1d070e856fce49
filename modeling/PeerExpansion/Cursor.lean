import PeerExpansion.SyntaxError
import PeerExpansion.Text.Slice
import PeerExpansion.Token

/-! # Reading tokens one after another

A `Cursor` stands between two tokens of a stream: it knows those before it, the nearest first, and
those after it. Looking or moving beyond the last token finds the ending token. A `Reading` moves a
cursor forward and answers what it read, or says what is wrong and where.
-/

namespace PeerExpansion

structure Cursor where
  source : List Char
  before : List Token
  behind : List Token
  ending : Token

namespace Cursor

/-- The cursor in front of the token that has `index` others before it. -/
def ofStream (stream : TokenStream) (index : Nat) : Cursor :=
  ⟨stream.source, (stream.words.take index).reverse, stream.words.drop index, stream.ending⟩

/-- The number of tokens before the cursor. -/
def index (cursor : Cursor) : Nat :=
  cursor.before.length

/-- The number of tokens left to read, the ending token not counted. -/
def remaining (cursor : Cursor) : Nat :=
  cursor.behind.length

/-- The token `count` places after the one the cursor stands in front of. -/
def ahead (cursor : Cursor) (count : Nat) : Token :=
  cursor.behind[count]?.getD cursor.ending

def current (cursor : Cursor) : Token :=
  cursor.ahead 0

def previous? (cursor : Cursor) : Option Token :=
  cursor.before.head?

/-- The cursor `count` tokens further on. -/
def skip (cursor : Cursor) (count : Nat) : Cursor :=
  { cursor with
    before := (cursor.behind.take count).reverse ++ cursor.before
    behind := cursor.behind.drop count }

/-- The source text from `first` to the token the cursor has just passed. -/
def textSince (cursor : Cursor) (first : Token) : String :=
  match cursor.previous? with
  | some last => String.ofList (Text.slice cursor.source first.start last.stop)
  | none => ""

theorem remaining_skip (cursor : Cursor) (count : Nat) :
    (cursor.skip count).remaining = cursor.remaining - count := by
  simp [skip, remaining]

/-- Moving on neither adds tokens nor drops any. -/
theorem before_append_behind_skip (cursor : Cursor) (count : Nat) :
    (cursor.skip count).before.reverse ++ (cursor.skip count).behind =
      cursor.before.reverse ++ cursor.behind := by
  simp [skip, List.append_assoc]

end Cursor

abbrev Reading := StateT Cursor (Except SyntaxError)

namespace Reading

variable {α : Type}

def ahead (count : Nat) : Reading Token := do
  return (← get).ahead count

def current : Reading Token :=
  ahead 0

def check (text : String) : Reading Bool := do
  return (← current).reads text

def skip (count : Nat) : Reading Unit :=
  modify (·.skip count)

/-- Passes the current token and answers it. -/
def advance : Reading Token := do
  let token ← current
  skip 1
  return token

def fail (fault : SyntaxFault) (token : Token) : Reading α :=
  throw ⟨fault, token.position⟩

/-- Complains that something else stands where `wanted` should. -/
def missing (wanted : String) : Reading α := do
  let token ← current
  fail (.expected wanted token.shown) token

def expect (text : String) : Reading Token := do
  if ← check text then advance else missing ("'" ++ text ++ "'")

def expectIdentifier (wanted : String) : Reading Token := do
  if (← current).isIdentifier then advance else missing wanted

/-- The source text from `first` to the token just passed. -/
def textSince (first : Token) : Reading String := do
  return (← get).textSince first

/-- At most `limit` separators, with `item` before, between and after them. -/
def separatedWithin (separator : String) (item : Reading α) : Nat → Reading (List α)
  | 0 => do return [← item]
  | limit + 1 => do
    let first ← item
    if ← check separator then
      let _ ← advance
      let others ← separatedWithin separator item limit
      return first :: others
    else return [first]

/-- Reads `item`, and again after every separator that follows. Each separator is a token, so
there are no more of them than tokens left. -/
def separated (separator : String) (item : Reading α) : Reading (List α) := do
  separatedWithin separator item (← get).remaining

def listedWithin (close : String) (item : Reading α) : Nat → Reading (List α)
  | 0 => do if ← check close then return [] else return [← item]
  | limit + 1 => do
    if ← check close then return []
    let first ← item
    if ← check "," then
      let _ ← advance
      let others ← listedWithin close item limit
      return first :: others
    else return [first]

/-- Reads a list that may be empty up to its closing mark, which is not read. A comma stands
between two items and may stand after the last. -/
def listed (close : String) (item : Reading α) : Reading (List α) := do
  listedWithin close item (← get).remaining

end Reading

end PeerExpansion
