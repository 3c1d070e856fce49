import PeerExpansion.Text.Blank
import PeerExpansion.Text.Split

/-! # Lines

A text is the list of its lines: `lines` cuts it at every line feed and `unlines` puts the line
feeds back, so a text that ends in a line feed has an empty last line.
-/

namespace PeerExpansion.Text

def lines (text : List Char) : List (List Char) :=
  splitAt '\n' text

def unlines (parts : List (List Char)) : List Char :=
  List.intercalate ['\n'] parts

/-- Nothing is lost when a text is cut into lines. -/
theorem unlines_lines (text : List Char) : unlines (lines text) = text :=
  intercalate_splitAt '\n' text

/-- Reads a carriage return, alone or in front of a line feed, as a line feed. -/
def plainLineEnds : List Char → List Char
  | [] => []
  | '\r' :: '\n' :: rest => '\n' :: plainLineEnds rest
  | '\r' :: rest => '\n' :: plainLineEnds rest
  | character :: rest => character :: plainLineEnds rest

/-- Puts `indent` before every line that is not blank. -/
def indentLines (indent : List Char) (text : List Char) : List Char :=
  unlines ((lines text).map fun line => if isBlankLine line then line else indent ++ line)

end PeerExpansion.Text
