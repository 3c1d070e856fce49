import PeerExpansion.Template

/-! # Reading templates

Double braces enclose an expression, and a brace with a percent sign a tag. A tag alone on its line
takes the line with it: white space in front of it, and the line feed behind it, are dropped. So is
one line feed at the end of the template.
-/

namespace PeerExpansion.Template

/-! ## Words of tags and expressions -/

inductive Word
  | name (name : String)
  | text (text : String)
  | number (value : Nat)
  | mark (mark : Char)
deriving DecidableEq

def isNameStart (character : Char) : Bool :=
  character.isAlpha || character == '_'

def isNamePart (character : Char) : Bool :=
  character.isAlphanum || character == '_'

/-- The character that a letter behind a backslash stands for. -/
def escape : Char → Char
  | 'n' => '\n'
  | 't' => '\t'
  | 'r' => '\r'
  | character => character

/-- The characters up to the closing quote, and the text behind it. -/
def quotedText (quote : Char) : List Char → Option (List Char × List Char)
  | [] => none
  | '\\' :: character :: rest =>
    (quotedText quote rest).map fun (text, behind) => (escape character :: text, behind)
  | character :: rest =>
    if character = quote then some ([], rest)
    else (quotedText quote rest).map fun (text, behind) => (character :: text, behind)

/-- The words up to the closing marks, and the text behind these. -/
def wordsWithin (closing : List Char) : Nat → List Char → Option (List Word × List Char)
  | 0, _ => none
  | limit + 1, text =>
    if closing.isPrefixOf text then some ([], text.drop closing.length)
    else
      match text with
      | [] => none
      | first :: rest =>
        if Text.isBlank first then wordsWithin closing limit rest
        else if first = '\'' || first = '"' then
          match quotedText first rest with
          | none => none
          | some (quoted, behind) =>
            (wordsWithin closing limit behind).map fun (words, behind) =>
              (.text (String.ofList quoted) :: words, behind)
        else if isNameStart first then
          (wordsWithin closing limit (rest.dropWhile isNamePart)).map fun (words, behind) =>
            (.name (String.ofList (first :: rest.takeWhile isNamePart)) :: words, behind)
        else if first.isDigit then
          let digits := first :: rest.takeWhile Char.isDigit
          let value := digits.foldl (fun value digit => 10 * value + (digit.toNat - 48)) 0
          (wordsWithin closing limit (rest.dropWhile Char.isDigit)).map fun (words, behind) =>
            (.number value :: words, behind)
        else
          (wordsWithin closing limit rest).map fun (words, behind) =>
            (.mark first :: words, behind)

def wordsUntil (closing : List Char) (text : List Char) : Option (List Word × List Char) :=
  wordsWithin closing (text.length + 1) text

/-! ## Expressions -/

/-- Reads from the front of a list of words; `none` where the words make no sense. -/
abbrev WordReading := StateT (List Word) Option

def passMark (mark : Char) : WordReading Bool := do
  match ← get with
  | .mark found :: rest =>
    if found = mark then
      set rest
      return true
    else return false
  | _ => return false

def readName : WordReading String := do
  match ← get with
  | .name name :: rest =>
    set rest
    return name
  | _ => failure

def readArgumentsWithin (expression : WordReading TemplateExpr) :
    Nat → WordReading (List TemplateExpr)
  | 0 => failure
  | limit + 1 => do
    if ← passMark ')' then return []
    let first ← expression
    if ← passMark ',' then
      let others ← readArgumentsWithin expression limit
      return first :: others
    else if ← passMark ')' then return [first]
    else failure

/-- The arguments up to the closing parenthesis. -/
def readArguments (expression : WordReading TemplateExpr) : WordReading (List TemplateExpr) := do
  readArgumentsWithin expression ((← get).length + 1)

def readArguments? (expression : WordReading TemplateExpr) : WordReading (List TemplateExpr) := do
  if ← passMark '(' then readArguments expression else return []

/-- The one filter there is. -/
def filterName : String := "indent_lines"

/-- Members, calls and filters behind an expression. -/
def readEndingsWithin (expression : WordReading TemplateExpr) (value : TemplateExpr) :
    Nat → WordReading TemplateExpr
  | 0 => return value
  | limit + 1 => do
    if ← passMark '.' then
      let name ← readName
      if ← passMark '(' then
        let arguments ← readArguments expression
        readEndingsWithin expression (.call value name arguments) limit
      else readEndingsWithin expression (.member value name) limit
    else if ← passMark '|' then
      let name ← readName
      if name = filterName then
        let arguments ← readArguments? expression
        readEndingsWithin expression (.indented value arguments) limit
      else failure
    else return value

def readPrimary : WordReading TemplateExpr := do
  match ← get with
  | .name name :: rest =>
    set rest
    return .name name
  | .text text :: rest =>
    set rest
    return .literal (.text text)
  | .number value :: rest =>
    set rest
    return .literal (.int value)
  | _ => failure

/-- An expression with at most `depth` argument lists inside one another. -/
def readExpressionWithin : Nat → WordReading TemplateExpr
  | 0 => failure
  | depth + 1 => do
    let value ← readPrimary
    readEndingsWithin (readExpressionWithin depth) value (← get).length

def readExpression : WordReading TemplateExpr := do
  readExpressionWithin ((← get).length + 1)

def readEnd : WordReading Unit := do
  if !(← get).isEmpty then failure

/-! ## Pieces -/

inductive Piece
  | text (text : List Char)
  | hole (expression : TemplateExpr)
  | ifTag (condition : TemplateExpr)
  | endIfTag
  | filterTag (arguments : List TemplateExpr)
  | endFilterTag

def readTag : WordReading Piece := do
  match ← readName with
  | "if" =>
    let condition ← readExpression
    readEnd
    return .ifTag condition
  | "endif" =>
    readEnd
    return .endIfTag
  | "filter" =>
    let name ← readName
    let arguments ← readArguments? readExpression
    readEnd
    if name = filterName then return .filterTag arguments else failure
  | "endfilter" =>
    readEnd
    return .endFilterTag
  | _ => failure

def readHole : WordReading Piece := do
  let expression ← readExpression
  readEnd
  return .hole expression

/-- Drops the white space in front of a tag when it begins its line. `atLineStart` says whether
`text` itself begins one. -/
def dropLead (atLineStart : Bool) (text : List Char) : List Char :=
  let lead := text.reverse.takeWhile (· != '\n')
  if lead.all Text.isBlank && (atLineStart || lead.length < text.length) then
    text.take (text.length - lead.length)
  else text

/-- The text in front of the first opening mark, and the rest from that mark on. -/
def splitAtBrace : List Char → List Char × List Char
  | [] => ([], [])
  | '\x7b' :: second :: rest =>
    if second = '\x7b' || second = '%' then ([], '\x7b' :: second :: rest)
    else
      let (text, behind) := splitAtBrace (second :: rest)
      ('\x7b' :: text, behind)
  | character :: rest =>
    let (text, behind) := splitAtBrace rest
    (character :: text, behind)

def piecesWithin (atLineStart : Bool) : Nat → List Char → Option (List Piece)
  | 0, _ => none
  | limit + 1, source =>
    match splitAtBrace source with
    | (text, []) => some [.text text]
    | (text, behind) =>
      if behind.drop 1 |>.head? |>.any (· == '%') then do
        let (words, rest) ← wordsUntil ['%', '\x7d'] (behind.drop 2)
        let (tag, _) ← readTag.run words
        let feed := rest.head? == some '\n'
        let pieces ← piecesWithin feed limit (if feed then rest.drop 1 else rest)
        return .text (dropLead atLineStart text) :: tag :: pieces
      else do
        let (words, rest) ← wordsUntil ['\x7d', '\x7d'] (behind.drop 2)
        let (hole, _) ← readHole.run words
        let pieces ← piecesWithin false limit rest
        return .text text :: hole :: pieces

/-! ## Templates -/

/-- A part of the template that is still open, with the nodes read before it, the last first. -/
inductive Opening
  | condition (expression : TemplateExpr) (before : List TemplateNode)
  | filter (arguments : List TemplateExpr) (before : List TemplateNode)

/-- Nests the pieces. `nodes` are those of the innermost open part, the last first. -/
def nest (openings : List Opening) (nodes : List TemplateNode) :
    List Piece → Option Template
  | [] => if openings.isEmpty then some nodes.reverse else none
  | .text text :: pieces => nest openings (.text (String.ofList text) :: nodes) pieces
  | .hole expression :: pieces => nest openings (.hole expression :: nodes) pieces
  | .ifTag condition :: pieces => nest (.condition condition nodes :: openings) [] pieces
  | .filterTag arguments :: pieces => nest (.filter arguments nodes :: openings) [] pieces
  | .endIfTag :: pieces =>
    match openings with
    | .condition condition before :: others =>
      nest others (.when condition nodes.reverse :: before) pieces
    | _ => none
  | .endFilterTag :: pieces =>
    match openings with
    | .filter arguments before :: others =>
      nest others (.indented arguments nodes.reverse :: before) pieces
    | _ => none

def dropLastFeed (text : List Char) : List Char :=
  if text.getLast? == some '\n' then text.dropLast else text

def parse (source : String) : Except TemplateFault Template :=
  let text := dropLastFeed (Text.plainLineEnds source.toList)
  let template := do
    let pieces ← piecesWithin true (text.length + 1) text
    nest [] [] pieces
  match template with
  | some template => .ok template
  | none => .error (.malformed "unexpected template text")

end PeerExpansion.Template
