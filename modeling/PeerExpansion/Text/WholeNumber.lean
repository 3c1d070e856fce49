import PeerExpansion.Text.Blank
import PeerExpansion.Text.DecimalDigit

/-! # Whole numbers as they are written

A whole number is written in decimal digits of any script, with a sign or without; single
underscores may stand between digits, and white space around the whole.
-/

namespace PeerExpansion.Text

/-- White space that may stand around a number: the separators U+001C to U+001F are not. -/
def isNumberGap (character : Char) : Bool :=
  isBlank character && !(0x1c ≤ character.toNat && character.toNat ≤ 0x1f)

def trimNumber (text : List Char) : List Char :=
  ((text.dropWhile isNumberGap).reverse.dropWhile isNumberGap).reverse

/-- The digits of a number without the underscores between them. -/
def digitsOf : List Char → Option (List Nat)
  | [] => none
  | [digit] => (decimalDigit? digit).map ([·])
  | digit :: '_' :: rest => do return (← decimalDigit? digit) :: (← digitsOf rest)
  | digit :: rest => do return (← decimalDigit? digit) :: (← digitsOf rest)

/-- Numbers of more digits are refused. -/
def longestNumber : Nat := 4300

def natural? (text : List Char) : Option Nat := do
  let digits ← digitsOf text
  if longestNumber < digits.length then none
  else return digits.foldl (fun value digit => value * 10 + digit) 0

def wholeNumber? (text : List Char) : Option Int :=
  match trimNumber text with
  | '-' :: digits => (natural? digits).map fun value => -(value : Int)
  | '+' :: digits => (natural? digits).map fun value => (value : Int)
  | digits => (natural? digits).map fun value => (value : Int)

end PeerExpansion.Text
