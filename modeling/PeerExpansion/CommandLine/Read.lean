import PeerExpansion.CommandLine.Grammar
import PeerExpansion.Text.Uppercase
import PeerExpansion.Text.WholeNumber

/-! # Reading command lines

Every word is first classified on its own: it names an option, or is an operand, or is the mark
behind which all words are operands. A long option may be shortened as long as it stays the only
one. Then the words are taken from the front, and the first thing that is wrong ends the reading.
-/

namespace PeerExpansion.CommandLine

/-! ## Words -/

/-- A value that is written in the same word as its option. -/
structure Attached where
  value : String
  /-- Whether an equals sign stands between the two. -/
  isMarked : Bool
deriving DecidableEq

inductive WordSort
  | operand
  /-- The mark behind which all words are operands. -/
  | mark
  | option (name : String) (option : OptionSpec) (attached : Option Attached)
  | unknownOption
deriving DecidableEq

structure Word where
  text : String
  sort : WordSort
deriving DecidableEq

def operandMark : String := "--"

def isNumeral (digits : List Char) : Bool :=
  !digits.isEmpty && digits.all Text.isDecimalDigit

/-- Whether a word is a number with a minus sign, which makes it an operand. -/
def isNegativeNumber (word : String) : Bool :=
  match word.toList with
  | '-' :: rest =>
    let rest := if rest.getLast? == some '\n' then rest.dropLast else rest
    match rest.span (· != '.') with
    | (digits, []) => isNumeral digits
    | (digits, _ :: places) => digits.all Text.isDecimalDigit && isNumeral places
  | _ => false

/-- The word in front of the first equals sign, and the value behind it. -/
def splitValue (word : String) : String × Option Attached :=
  match word.toList.span (· != '=') with
  | (name, _ :: value) => (String.ofList name, some ⟨String.ofList value, true⟩)
  | (_, []) => (word, none)

def isLong (word : String) : Bool :=
  word.toList.take 2 == ['-', '-']

def startsWith (name start : String) : Bool :=
  start.toList.isPrefixOf name.toList

/-- The options that a word can be short for. An option of one letter can have its value directly
behind it. -/
def candidates (grammar : Grammar) (word : String) :
    List (String × OptionSpec × Option Attached) :=
  if isLong word then
    let (start, attached) := splitValue word
    (grammar.names.filter fun (name, _) => startsWith name start).map fun (name, option) =>
      (name, option, attached)
  else
    let letter := String.ofList (word.toList.take 2)
    grammar.names.filterMap fun (name, option) =>
      if name = letter then
        some (name, option, some ⟨String.ofList (word.toList.drop 2), false⟩)
      else if startsWith name word then some (name, option, none)
      else none

/-- What a word is that begins with a dash and is more than that. -/
def classifyDashed (grammar : Grammar) (word : String) : Except UsageError WordSort :=
  let (start, attached) := splitValue word
  match grammar.names.lookup word, attached.bind fun _ => grammar.names.lookup start with
  | some option, _ => .ok (.option word option none)
  | none, some option => .ok (.option start option attached)
  | none, none =>
    match candidates grammar word with
    | [(name, option, attached)] => .ok (.option name option attached)
    | [] =>
      if isNegativeNumber word || word.toList.contains ' ' then .ok .operand
      else .ok .unknownOption
    | several => .error (.ambiguous word (several.map (·.1)))

def classify (grammar : Grammar) (word : String) : Except UsageError WordSort :=
  match word.toList with
  | '-' :: _ :: _ => classifyDashed grammar word
  | _ => .ok .operand

def classifyAll (grammar : Grammar) : List String → Except UsageError (List Word)
  | [] => .ok []
  | word :: others =>
    if word = operandMark then
      .ok (⟨word, .mark⟩ :: others.map fun other => ⟨other, .operand⟩)
    else do
      let sort ← classify grammar word
      return ⟨word, sort⟩ :: (← classifyAll grammar others)

/-! ## Arguments -/

inductive Given
  | flag
  | text (text : String)
  | number (value : Int)
  | words (words : List String)
deriving DecidableEq

structure Reading where
  /-- The arguments by their titles, in the order in which they came. -/
  given : List (String × Given)
  /-- Words that nothing could be made of. -/
  extras : List String
  /-- The operand that is still to come. -/
  pending : Option Operand

abbrev Progress := Except Stop

namespace Reading

def fail {α : Type} (grammar : Grammar) (error : UsageError) : Progress α :=
  .error (.usage grammar.program error)

def addExtra (reading : Reading) (word : String) : Reading :=
  { reading with extras := reading.extras ++ [word] }

/-- Adds an argument, unless one that excludes it is there. -/
def add (reading : Reading) (grammar : Grammar) (title : String) (group : Option Nat)
    (given : Given) : Progress Reading :=
  let rivals := ((group.map grammar.titlesOf).getD []).filter (· != title)
  match rivals.find? fun rival => (reading.given.lookup rival).isSome with
  | some rival => fail grammar (.excluded title rival)
  | none => .ok { reading with given := reading.given ++ [(title, given)] }

/-! ### Options -/

def valueOf (grammar : Grammar) (option : OptionSpec) (value : String) : Progress Given :=
  match option.kind with
  | .help | .version | .flag => .ok .flag
  | .text => .ok (.text value)
  | .number =>
    match Text.wholeNumber? value.toList with
    | some number => .ok (.number number)
    | none => fail grammar (.notNumber option.title value)
  | .choice words =>
    let word := String.ofList (value.toList.flatMap Text.uppercase)
    if words.contains word then .ok (.text word)
    else fail grammar (.invalidChoice option.title word words)

def addOption (reading : Reading) (grammar : Grammar) (option : OptionSpec) (value : String) :
    Progress Reading :=
  match option.kind with
  | .help => .error .help
  | .version => .error .version
  | _ => do reading.add grammar option.title option.group (← valueOf grammar option value)

/-- An option with its value, which is empty where it takes none. -/
abbrev Use := OptionSpec × String

/-- What the word of an option says: the options used, the word that is left over, and whether a
value was taken from the word behind. -/
structure OptionWord where
  uses : List Use
  extra : Option String
  takesNext : Bool

/-- Reads the word of an option. Options of one letter that take no value can share a word. -/
def optionWord (grammar : Grammar) (next : Option Word) (name : String) (option : OptionSpec) :
    Nat → Option Attached → Progress OptionWord
  | 0, _ => .ok ⟨[], none, false⟩
  | _ + 1, none =>
    if !option.takesValue then .ok ⟨[(option, "")], none, false⟩
    else
      match next with
      | some ⟨value, .operand⟩ => .ok ⟨[(option, value)], none, true⟩
      | _ => fail grammar (.valueExpected option.title)
  | limit + 1, some attached =>
    if option.takesValue then .ok ⟨[(option, attached.value)], none, false⟩
    else
      match attached.value.toList with
      | [] => fail grammar (.valueIgnored option.title attached.value)
      | letter :: rest =>
        if isLong name || attached.isMarked || letter = '-' then
          fail grammar (.valueIgnored option.title attached.value)
        else
          let name := String.ofList ['-', letter]
          match grammar.names.lookup name with
          | none => .ok ⟨[(option, "")], some (String.ofList ('-' :: letter :: rest)), false⟩
          | some other => do
            let behind ← optionWord grammar next name other limit (attachedOf rest)
            return { behind with uses := (option, "") :: behind.uses }
where
  attachedOf : List Char → Option Attached
    | [] => none
    | '=' :: value => some ⟨String.ofList value, true⟩
    | value => some ⟨String.ofList value, false⟩

/-- Takes the word of an option and, where it needs one, the value in the word behind it. -/
def takeOption (reading : Reading) (grammar : Grammar) (word : Word) (others : List Word) :
    Progress (Reading × List Word) := do
  match word.sort with
  | .option name option attached =>
    let found ← optionWord grammar others.head? name option (word.text.length + 1) attached
    let reading := found.extra.elim reading reading.addExtra
    let reading ← found.uses.foldlM
      (fun reading (option, value) => reading.addOption grammar option value) reading
    return (reading, if found.takesNext then others.drop 1 else others)
  | _ => return (reading.addExtra word.text, others)

/-! ### Operands -/

def isMark (word : Word) : Bool :=
  word.sort == .mark

/-- The words that an operand takes from the front: marks, the operand, and marks behind it. -/
def operandWords (arity : Arity) (words : List Word) : Option (List Word) :=
  let marks := words.takeWhile isMark
  let without := if arity = .optional then some marks else none
  match words.drop marks.length, arity with
  | [], _ => without
  | first :: others, .command _ =>
    if first.sort = .operand then some (marks ++ first :: others) else without
  | first :: others, _ =>
    if first.sort = .operand then some (marks ++ first :: others.takeWhile isMark) else without

/-- The words without the first mark. -/
def withoutMark (words : List Word) : List String :=
  (words.map Word.text).erase operandMark

def addOperand (reading : Reading) (grammar : Grammar) (operand : Operand) (words : List Word) :
    Progress Reading :=
  let reading := { reading with pending := none }
  match operand.arity with
  | .command choices =>
    let words := words.map Word.text
    let name := words.headD ""
    if choices.contains name then reading.add grammar operand.title operand.group (.words words)
    else fail grammar (.invalidChoice operand.title name choices)
  | _ =>
    match withoutMark words with
    | [] => .ok reading
    | word :: _ => reading.add grammar operand.title operand.group (.text word)

/-- Takes the operand that is still to come, if it can be taken here. -/
def takeOperand (reading : Reading) (grammar : Grammar) (words : List Word) :
    Progress (Reading × List Word) := do
  match reading.pending with
  | none => return (reading, words)
  | some operand =>
    match operandWords operand.arity words with
    | none => return (reading, words)
    | some taken =>
      return (← reading.addOperand grammar operand taken, words.drop taken.length)

def isOption (word : Word) : Bool :=
  match word.sort with
  | .option .. | .unknownOption => true
  | _ => false

/-! ### Whole lines -/

/-- Takes words as long as there are any. Each step takes a word or more. -/
def takeWithin (grammar : Grammar) : Nat → Reading → List Word → Progress Reading
  | 0, reading, _ => .ok reading
  | limit + 1, reading, words =>
    match words with
    | [] => return (← reading.takeOperand grammar []).1
    | word :: others =>
      if isOption word then do
        let (reading, others) ← reading.takeOption grammar word others
        takeWithin grammar limit reading others
      else if words.any isOption then do
        let (after, rest) ← reading.takeOperand grammar words
        if rest.length < words.length then takeWithin grammar limit after rest
        else takeWithin grammar limit (after.addExtra word.text) others
      else do
        let (reading, rest) ← reading.takeOperand grammar words
        return { reading with extras := reading.extras ++ rest.map Word.text }

def checkRequired (grammar : Grammar) (reading : Reading) : Progress Reading :=
  match reading.pending with
  | some ⟨title, .single, _⟩ => fail grammar (.required title)
  | _ => .ok reading

end Reading

/-- Reads a command line. -/
def Grammar.read (grammar : Grammar) (words : List String) : Progress Reading := do
  match classifyAll grammar words with
  | .error error => Reading.fail grammar error
  | .ok words =>
    let reading ←
      Reading.takeWithin grammar (words.length + 1) ⟨[], [], grammar.operand⟩ words
    Reading.checkRequired grammar reading

end PeerExpansion.CommandLine
