import PeerExpansion.Text.CodePoints
import PeerExpansion.Text.Lines

/-! # Lines of a console

Text on a console is laid out in columns: tabs reach to the next column that is a multiple of eight,
and lines are broken in front of the first word that does not fit. The white space behind a word
stays with it. A word longer than a line is cut.
-/

namespace PeerExpansion.Console

/-! ## Columns -/

/-- Characters that are two columns wide. -/
def wideCharacters : CodePoints :=
  [(0x1100, 0x115f), (0x231a, 0x231b), (0x2329, 0x232a), (0x23e9, 0x23ec), (0x23f0, 0x23f0),
    (0x23f3, 0x23f3), (0x25fd, 0x25fe), (0x2614, 0x2615), (0x2648, 0x2653), (0x267f, 0x267f),
    (0x2693, 0x2693), (0x26a1, 0x26a1), (0x26aa, 0x26ab), (0x26bd, 0x26be), (0x26c4, 0x26c5),
    (0x26ce, 0x26ce), (0x26d4, 0x26d4), (0x26ea, 0x26ea), (0x26f2, 0x26f3), (0x26f5, 0x26f5),
    (0x26fa, 0x26fa), (0x26fd, 0x26fd), (0x2705, 0x2705), (0x270a, 0x270b), (0x2728, 0x2728),
    (0x274c, 0x274c), (0x274e, 0x274e), (0x2753, 0x2755), (0x2757, 0x2757), (0x2795, 0x2797),
    (0x27b0, 0x27b0), (0x27bf, 0x27bf), (0x2b1b, 0x2b1c), (0x2b50, 0x2b50), (0x2b55, 0x2b55),
    (0x2e80, 0x303e), (0x3041, 0x33ff), (0x3400, 0x4dbf), (0x4e00, 0xa4cf), (0xa960, 0xa97f),
    (0xac00, 0xd7a3), (0xf900, 0xfaff), (0xfe10, 0xfe19), (0xfe30, 0xfe6f), (0xff01, 0xff60),
    (0xffe0, 0xffe6), (0x16fe0, 0x18aff), (0x1b000, 0x1b2ff), (0x1f004, 0x1f004),
    (0x1f0cf, 0x1f0cf), (0x1f18e, 0x1f18e), (0x1f191, 0x1f19a), (0x1f200, 0x1f320),
    (0x1f32d, 0x1f335), (0x1f337, 0x1f37c), (0x1f37e, 0x1f393), (0x1f3a0, 0x1f3ca),
    (0x1f3cf, 0x1f3d3), (0x1f3e0, 0x1f3f0), (0x1f3f4, 0x1f3f4), (0x1f3f8, 0x1f43e),
    (0x1f440, 0x1f440), (0x1f442, 0x1f4fc), (0x1f4ff, 0x1f53d), (0x1f54b, 0x1f54e),
    (0x1f550, 0x1f567), (0x1f57a, 0x1f57a), (0x1f595, 0x1f596), (0x1f5a4, 0x1f5a4),
    (0x1f5fb, 0x1f64f), (0x1f680, 0x1f6c5), (0x1f6cc, 0x1f6cc), (0x1f6d0, 0x1f6d2),
    (0x1f6d5, 0x1f6d7), (0x1f6dc, 0x1f6df), (0x1f6eb, 0x1f6ec), (0x1f6f4, 0x1f6fc),
    (0x1f7e0, 0x1f7eb), (0x1f90c, 0x1f93a), (0x1f93c, 0x1f945), (0x1f947, 0x1f9ff),
    (0x1fa70, 0x1faff), (0x20000, 0x2fffd), (0x30000, 0x3fffd)]

/-- Marks that are set on the character before them. -/
def combiningCharacters : CodePoints :=
  [(0x300, 0x36f), (0x483, 0x489), (0x591, 0x5bd), (0x610, 0x61a), (0x64b, 0x65f),
    (0x1ab0, 0x1aff), (0x1dc0, 0x1dff), (0x200b, 0x200f), (0x20d0, 0x20ff), (0x302a, 0x302d),
    (0x3099, 0x309a), (0xfe00, 0xfe0f), (0xfe20, 0xfe2f), (0xe0100, 0xe01ef)]

def columnsOf (character : Char) : Nat :=
  if combiningCharacters.contains character then 0
  else if wideCharacters.contains character then 2
  else 1

def columns (text : List Char) : Nat :=
  text.foldl (fun total character => total + columnsOf character) 0

/-! ## Tabs and controls -/

/-- Control characters that a console does not show. -/
def isHidden (character : Char) : Bool :=
  [0x7, 0x8, 0xb, 0xc, 0xd].contains character.toNat

/-- The line from column `column` on, with spaces for tabs. -/
def withoutTabs (column : Nat) : List Char → List Char
  | [] => []
  | '\t' :: rest =>
    let gap := 8 - column % 8
    List.replicate gap ' ' ++ withoutTabs (column + gap) rest
  | character :: rest => character :: withoutTabs (column + columnsOf character) rest

/-- The lines of a text as a console shows them when they may be as long as they are. -/
def unbroken (text : List Char) : List (List Char) :=
  (Text.lines (text.filter fun character => !isHidden character)).map (withoutTabs 0)

/-! ## Breaking -/

/-- The words of a line, each with the white space behind it. White space in front of the first word
goes with it; a line of white space has no words. -/
def wordsWithin : Nat → List Char → List (List Char)
  | 0, _ => []
  | limit + 1, line =>
    let lead := line.takeWhile Text.isBlank
    let word := (line.drop lead.length).takeWhile (!Text.isBlank ·)
    let rest := line.drop (lead.length + word.length)
    let gap := rest.takeWhile Text.isBlank
    if word.isEmpty then []
    else (lead ++ word ++ gap) :: wordsWithin limit (rest.drop gap.length)

def words (line : List Char) : List (List Char) :=
  wordsWithin (line.length + 1) line

/-- Cuts a word into pieces of at most `width` columns, when `used` columns of the first piece are
taken already. -/
def cut (width : Nat) (used : Nat) (piece : List Char) : List Char → List (List Char)
  | [] => [piece]
  | character :: rest =>
    let wide := columnsOf character
    if width < used + wide then piece :: cut width wide [character] rest
    else cut width (used + wide) (piece ++ [character]) rest

/-- Puts words into lines of `width` columns; `line` is the line that is being filled. -/
def fill (width : Nat) (line : List Char) : List (List Char) → List (List Char)
  | [] => [line]
  | word :: others =>
    let needed := columns (Text.trimEnd word)
    if needed ≤ width - columns line then fill width (line ++ word) others
    else if width < needed then
      let pieces := cut width 0 [] word
      (if line.isEmpty then [] else [line]) ++ pieces.dropLast ++
        fill width (pieces.getLast?.getD []) others
    else if line.isEmpty then fill width word others
    else line :: fill width word others

/-- Drops white space at the end of a line as far as it goes beyond the width. -/
def cropEnd (width : Nat) (line : List Char) : List Char :=
  let blanks := line.length - (Text.trimEnd line).length
  line.take (line.length - min blanks (line.length - width))

/-- A line without a word in it is not broken. -/
def brokenLine (width : Nat) (line : List Char) : List (List Char) :=
  if Text.isBlankLine line then [line] else fill width [] (words line)

/-- The lines of a text as a console of `width` columns shows them. -/
def broken (width : Nat) (text : List Char) : List (List Char) :=
  (unbroken text).flatMap fun line => (brokenLine width line).map (cropEnd width)

end PeerExpansion.Console
