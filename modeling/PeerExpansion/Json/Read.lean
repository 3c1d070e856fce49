import PeerExpansion.Json
import PeerExpansion.Position

/-! # Reading JSON

A `JsonReading` consumes a text from its front. An error carries the text that was left when it
arose, from which its position in the whole follows. Values nest, and each level costs a character,
so the length of the text bounds the depth.
-/

namespace PeerExpansion

inductive JsonFault
  | byteOrderMark
  | expectingValue
  | expectingKey
  | expectingColon
  | expectingComma
  | extraData
  | unterminatedText
  | controlCharacter
  | badEscape
  | badCodePoint
deriving DecidableEq

def JsonFault.message : JsonFault → String
  | byteOrderMark => "Unexpected UTF-8 BOM (decode using utf-8-sig)"
  | expectingValue => "Expecting value"
  | expectingKey => "Expecting property name enclosed in double quotes"
  | expectingColon => "Expecting ':' delimiter"
  | expectingComma => "Expecting ',' delimiter"
  | extraData => "Extra data"
  | unterminatedText => "Unterminated string starting at"
  | controlCharacter => "Invalid control character at"
  | badEscape => "Invalid \\escape"
  | badCodePoint => "Invalid \\uXXXX escape"

structure JsonError where
  fault : JsonFault
  /-- What was left of the text at the place of the fault. -/
  rest : List Char

abbrev JsonReading := StateT (List Char) (Except JsonError)

namespace Json

def isGap (character : Char) : Bool :=
  character == ' ' || character == '\t' || character == '\n' || character == '\r'

namespace Read

variable {α : Type}

def skipGap : JsonReading Unit :=
  modify (·.dropWhile isGap)

def failAt (fault : JsonFault) (rest : List Char) : JsonReading α :=
  throw ⟨fault, rest⟩

def failHere (fault : JsonFault) : JsonReading α := do
  failAt fault (← get)

/-- Reads one given character. -/
def expect (character : Char) (fault : JsonFault) : JsonReading Unit := do
  match ← get with
  | first :: rest => if first = character then set rest else failHere fault
  | [] => failHere fault

def hexValue? (character : Char) : Option Nat :=
  if character.isDigit then some (character.toNat - '0'.toNat)
  else if 'a' ≤ character && character ≤ 'f' then some (character.toNat - 'a'.toNat + 10)
  else if 'A' ≤ character && character ≤ 'F' then some (character.toNat - 'A'.toNat + 10)
  else none

/-- The number that four hexadecimal digits spell. -/
def codeUnit? (digits : List Char) : Option Nat :=
  if digits.length = 4 then
    digits.foldlM (fun value digit => (hexValue? digit).map (16 * value + ·)) 0
  else none

def isHighSurrogate (unit : Nat) : Bool :=
  0xd800 ≤ unit && unit < 0xdc00

def isLowSurrogate (unit : Nat) : Bool :=
  0xdc00 ≤ unit && unit < 0xe000

/-- The second half of a surrogate pair, when `rest` goes on behind its escape. -/
def lowSurrogate? : List Char → Except Unit (Option Nat)
  | '\\' :: 'u' :: rest =>
    if rest.length ≤ 4 then .ok none
    else
      match codeUnit? (rest.take 4) with
      | some unit => .ok (if isLowSurrogate unit then some unit else none)
      | none => .error ()
  | _ => .ok none

/-- The character that a short escape stands for. -/
def shortEscape? : Char → Option Char
  | '"' => some '"'
  | '\\' => some '\\'
  | '/' => some '/'
  | 'b' => some '\x08'
  | 'f' => some '\x0c'
  | 'n' => some '\n'
  | 'r' => some '\r'
  | 't' => some '\t'
  | _ => none

/-- The characters of a text up to its closing quote. `whole` is the text with its opening quote,
where it counts as unterminated. -/
def textWithin (whole : List Char) : Nat → JsonReading (List Char)
  | 0 => failAt .unterminatedText whole
  | limit + 1 => do
    let here ← get
    match here with
    | [] => failAt .unterminatedText whole
    | '"' :: rest =>
      set rest
      return []
    | '\\' :: [] => failAt .unterminatedText whole
    | '\\' :: 'u' :: rest =>
      let fault := failAt .badCodePoint ('u' :: rest)
      if rest.length ≤ 4 then fault
      else
        match codeUnit? (rest.take 4) with
        | none => fault
        | some unit =>
          let behind := rest.drop 4
          if isHighSurrogate unit then
            match lowSurrogate? behind with
            | .error () => failAt .badCodePoint (behind.drop 1)
            | .ok (some low) =>
              set (behind.drop 6)
              let others ← textWithin whole limit
              return Char.ofNat (0x10000 + 0x400 * (unit - 0xd800) + (low - 0xdc00)) :: others
            | .ok none =>
              set behind
              let others ← textWithin whole limit
              return Char.ofNat unit :: others
          else
            set behind
            let others ← textWithin whole limit
            return Char.ofNat unit :: others
    | '\\' :: mark :: rest =>
      match shortEscape? mark with
      | none => failAt .badEscape here
      | some character =>
        set rest
        let others ← textWithin whole limit
        return character :: others
    | character :: rest =>
      if character.toNat < 0x20 then failAt .controlCharacter here
      else
        set rest
        let others ← textWithin whole limit
        return character :: others

/-- Reads a text at its opening quote. -/
def text : JsonReading String := do
  let whole ← get
  set (whole.drop 1)
  return String.ofList (← textWithin whole whole.length)

/-- Splits the digits off the front of a text. -/
def digits (text : List Char) : List Char × List Char :=
  text.span Char.isDigit

/-- A fraction and what is behind it; a point counts only with a digit behind it. -/
def fraction (text : List Char) : List Char × List Char :=
  match text with
  | '.' :: rest =>
    match digits rest with
    | ([], _) => ([], text)
    | (places, behind) => ('.' :: places, behind)
  | _ => ([], text)

def exponent (text : List Char) : List Char × List Char :=
  match text with
  | mark :: rest =>
    if mark = 'e' || mark = 'E' then
      let (sign, unsigned) :=
        match rest with
        | '+' :: more => (['+'], more)
        | '-' :: more => (['-'], more)
        | more => ([], more)
      match digits unsigned with
      | ([], _) => ([], text)
      | (places, behind) => (mark :: sign ++ places, behind)
    else ([], text)
  | [] => ([], text)

/-- The digits in front of the point: a zero stands alone. -/
def wholePart : List Char → List Char × List Char
  | '0' :: rest => (['0'], rest)
  | text => digits text

def natOfDigits (digits : List Char) : Nat :=
  digits.foldl (fun value digit => 10 * value + (digit.toNat - '0'.toNat)) 0

def number : JsonReading Json := do
  let here ← get
  let (sign, unsigned) :=
    match here with
    | '-' :: rest => (['-'], rest)
    | rest => ([], rest)
  match wholePart unsigned with
  | ([], _) => failAt .expectingValue here
  | (whole, behind) =>
    let (places, behind) := fraction behind
    let (power, behind) := exponent behind
    set behind
    if places.isEmpty && power.isEmpty then
      let value : Int := natOfDigits whole
      return int (if sign.isEmpty then value else -value)
    else return decimal (String.ofList (sign ++ whole ++ places ++ power))

/-- Words that stand for a value. -/
def words : List (String × Json) :=
  [("null", null), ("true", bool true), ("false", bool false), ("NaN", decimal "nan"),
    ("Infinity", decimal "inf"), ("-Infinity", decimal "-inf")]

def word? (text : List Char) : Option (Json × List Char) :=
  (words.find? fun (word, _) => word.toList.isPrefixOf text).map fun (word, value) =>
    (value, text.drop word.length)

def itemsWithin (value : JsonReading Json) : Nat → JsonReading (List Json)
  | 0 => failHere .expectingValue
  | limit + 1 => do
    let first ← value
    skipGap
    match ← get with
    | ']' :: rest =>
      set rest
      return [first]
    | _ =>
      expect ',' .expectingComma
      skipGap
      let others ← itemsWithin value limit
      return first :: others

/-- The items of a list, behind its opening bracket. -/
def items (value : JsonReading Json) : JsonReading (List Json) := do
  skipGap
  match ← get with
  | ']' :: rest =>
    set rest
    return []
  | here => itemsWithin value (here.length + 1)

def entry (value : JsonReading Json) : JsonReading (String × Json) := do
  match ← get with
  | '"' :: _ =>
    let key ← text
    skipGap
    expect ':' .expectingColon
    skipGap
    return (key, ← value)
  | _ => failHere .expectingKey

def entriesWithin (value : JsonReading Json) : Nat → JsonReading (List (String × Json))
  | 0 => failHere .expectingKey
  | limit + 1 => do
    let first ← entry value
    skipGap
    match ← get with
    | '\x7d' :: rest =>
      set rest
      return [first]
    | _ =>
      expect ',' .expectingComma
      skipGap
      let others ← entriesWithin value limit
      return first :: others

/-- The entries of an object, behind its opening brace. -/
def entries (value : JsonReading Json) : JsonReading (List (String × Json)) := do
  skipGap
  match ← get with
  | '\x7d' :: rest =>
    set rest
    return []
  | here => entriesWithin value (here.length + 1)

/-- A value with at most `depth` lists and objects inside one another. When a key comes twice, the
later value counts. -/
def valueWithin : Nat → JsonReading Json
  | 0 => failHere .expectingValue
  | depth + 1 => do
    let here ← get
    match here with
    | '"' :: _ => return Json.text (← text)
    | '[' :: rest =>
      set rest
      return list (← items (valueWithin depth))
    | '\x7b' :: rest =>
      set rest
      return object (Settings.putAll [] (← entries (valueWithin depth)))
    | _ =>
      match word? here with
      | some (value, rest) =>
        set rest
        return value
      | none => number

/-- Reads a text that holds one value and nothing else. -/
def document : JsonReading Json := do
  let whole ← get
  if whole.head? == some '\ufeff' then
    failHere .byteOrderMark
  skipGap
  let value ← valueWithin (whole.length + 1)
  skipGap
  if (← get).isEmpty then return value else failHere .extraData

end Read

/-- Where in `source` an error arose, and what was wrong there. -/
def errorMessage (source : List Char) (error : JsonError) : String :=
  let place := Position.ofOffset source (source.length - error.rest.length)
  error.fault.message ++ ": line " ++ toString place.line ++ " column " ++
    toString place.column ++ " (char " ++ toString place.offset ++ ")"

def parse (source : List Char) : Except JsonError Json := do
  let (value, _) ← Read.document.run source
  return value

end Json

end PeerExpansion
