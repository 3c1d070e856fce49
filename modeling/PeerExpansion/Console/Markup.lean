import PeerExpansion.Text.Blank

/-! # Markup of console messages

Messages carry style tags in square brackets. On a console without colours a tag vanishes, so only
the text between the tags is left. A backslash in front of a tag makes it text. A closing tag has to
close a tag of its own name; an open tag need not be closed.
-/

namespace PeerExpansion.Markup

inductive Piece
  | text (text : List Char)
  | opening (name : List Char)
  /-- An empty name closes whatever was opened last. -/
  | closing (name : List Char)
deriving DecidableEq

/-- A closing tag without a tag to close. -/
structure UnmatchedTag where
  name : List Char
deriving DecidableEq

/-! ## Pieces -/

def isTagStart (character : Char) : Bool :=
  ('a' ≤ character && character ≤ 'z') || character == '#' || character == '/' || character == '@'

/-- What stands between the brackets of the tag that a text begins with, and the text behind it. -/
def tagAt : List Char → Option (List Char × List Char)
  | '[' :: first :: rest =>
    match rest.span fun character => character != '[' && character != ']' with
    | (content, ']' :: behind) =>
      if isTagStart first then some (first :: content, behind) else none
    | _ => none
  | _ => none

/-- What is in front of an equals sign names a tag; what is behind it is for the style alone. -/
def ofTag (content : List Char) : Piece :=
  match content.takeWhile (· != '=') with
  | '/' :: name => .closing (Text.trim name)
  | name => .opening name

/-- The pieces of a text behind `slashes` backslashes. Two backslashes in front of a tag are one,
and a single one is used up by making the tag, or any bracket, text. -/
def piecesWithin : Nat → Nat → List Char → List Piece
  | 0, _, _ => []
  | limit + 1, slashes, text =>
    let kept (count : Nat) : Piece := .text (List.replicate count '\\')
    match tagAt text with
    | some (content, behind) =>
      let piece := if slashes % 2 = 1 then .text ('[' :: content ++ [']']) else ofTag content
      kept (slashes / 2) :: piece :: piecesWithin limit 0 behind
    | none =>
      match text with
      | [] => [kept slashes]
      | '\\' :: rest => piecesWithin limit (slashes + 1) rest
      | '[' :: rest => kept (slashes - 1) :: .text ['['] :: piecesWithin limit 0 rest
      | character :: rest => kept slashes :: .text [character] :: piecesWithin limit 0 rest

def pieces (text : List Char) : List Piece :=
  piecesWithin (text.length + 1) 0 text

/-! ## Styles -/

/-- Styles with a short name, which is as good as the long one. -/
def shortNames : List (String × String) :=
  [("b", "bold"), ("d", "dim"), ("i", "italic"), ("u", "underline"), ("r", "reverse"),
    ("c", "conceal"), ("s", "strike"), ("uu", "underline2"), ("o", "overline")]

def styleName (name : List Char) : String :=
  let plain := String.ofList ((Text.trim name).map Char.toLower)
  (shortNames.lookup plain).getD plain

/-- The open tags after one has been closed. The tag opened last comes first. -/
def close (name : List Char) (opened : List String) : Except UnmatchedTag (List String) :=
  if name.isEmpty then
    match opened with
    | [] => .error ⟨name⟩
    | _ :: others => .ok others
  else if opened.contains (styleName name) then .ok (opened.erase (styleName name))
  else .error ⟨name⟩

/-- The text of the pieces, when the tags in `opened` are open. -/
def textOf (opened : List String) : List Piece → Except UnmatchedTag (List Char)
  | [] => .ok []
  | .text text :: others => do return text ++ (← textOf opened others)
  | .opening name :: others => textOf (styleName name :: opened) others
  | .closing name :: others => do textOf (← close name opened) others

/-- The text that a message shows. -/
def shown (text : List Char) : Except UnmatchedTag (List Char) :=
  textOf [] (pieces text)

end PeerExpansion.Markup
