import PeerExpansion.Text.DecimalDigit
import PeerExpansion.Token

/-! # Lexemes

How many characters the identifier, number or punctuation mark at the start of a text takes. Each
measure answers `none` when no such word starts there.
-/

namespace PeerExpansion.Lexeme

def isWordStart (character : Char) : Bool :=
  character.isAlpha || character == '_'

def isWordPart (character : Char) : Bool :=
  character.isAlphanum || character == '_'

def runLength (accepts : Char → Bool) (text : List Char) : Nat :=
  (text.takeWhile accepts).length

/-- A plain name, a name between grave accents, or a dollar sign with at least one more
character. -/
def identifierLength? : List Char → Option Nat
  | [] => none
  | first :: rest =>
    if isWordStart first then some (1 + runLength isWordPart rest)
    else if first = '$' then
      match runLength isWordPart rest with
      | 0 => none
      | length => some (1 + length)
    else if first = '\x60' then
      match rest with
      | [] => none
      | second :: more =>
        let length := runLength isWordPart more
        if isWordStart second && more[length]? == some '\x60' then some (3 + length) else none
    else none

/-- The digits that may follow a radix mark. -/
def radixDigit? (mark : Char) : Option (Char → Bool) :=
  match mark.toLower with
  | 'x' => some fun digit => digit.isDigit || ('a' ≤ digit.toLower && digit.toLower ≤ 'f')
  | 'b' => some fun digit => digit == '0' || digit == '1'
  | 'o' => some fun digit => '0' ≤ digit && digit ≤ '7'
  | _ => none

/-- A number that states its radix. It needs at least one character after the mark, if only a
separating low line. -/
def radixLength? : List Char → Option Nat
  | '0' :: mark :: rest =>
    match radixDigit? mark with
    | none => none
    | some isDigit =>
      match runLength (fun digit => isDigit digit || digit == '_') rest with
      | 0 => none
      | length => some (2 + length)
  | _ => none

def isDigitPart (character : Char) : Bool :=
  Text.isDecimalDigit character || character == '_'

/-- A point counts only when a digit follows it. -/
def fractionLength : List Char → Nat
  | '.' :: digit :: rest =>
    if Text.isDecimalDigit digit then 2 + runLength isDigitPart rest else 0
  | _ => 0

def exponentLength : List Char → Nat
  | mark :: rest =>
    if mark.toLower = 'e' then
      let signLength :=
        match rest with
        | sign :: _ => if sign = '+' || sign = '-' then 1 else 0
        | [] => 0
      match runLength Text.isDecimalDigit (rest.drop signLength) with
      | 0 => 0
      | length => 1 + signLength + length
    else 0
  | [] => 0

def decimalLength? : List Char → Option Nat
  | [] => none
  | first :: rest =>
    if Text.isDecimalDigit first then
      let whole := runLength isDigitPart rest
      let fraction := fractionLength (rest.drop whole)
      let exponent := exponentLength (rest.drop (whole + fraction))
      some (1 + whole + fraction + exponent)
    else none

def numberLength? (text : List Char) : Option Nat :=
  (radixLength? text).or (decimalLength? text)

def punctuationMarks : List Char :=
  "-+*/%=<>!&|^~?.,:;()[]\x7b\x7d@#\\".toList

def punctuationLength? : List Char → Option Nat
  | '-' :: '>' :: _ => some 2
  | '.' :: '.' :: '.' :: _ => some 3
  | '.' :: '.' :: '<' :: _ => some 3
  | mark :: _ => if punctuationMarks.contains mark then some 1 else none
  | [] => none

/-- The word at the start of a text: its kind and its length. -/
def word? (text : List Char) : Option (TokenKind × Nat) :=
  match identifierLength? text with
  | some length => some (.identifier, length)
  | none =>
    match numberLength? text with
    | some length => some (.number, length)
    | none => (punctuationLength? text).map fun length => (.punctuation, length)

end PeerExpansion.Lexeme
