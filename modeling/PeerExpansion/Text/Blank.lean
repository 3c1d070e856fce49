import PeerExpansion.Text.CodePoints

/-! # White space at the ends of a text

`isBlank` is the white space of the character database, the separators U+001C to U+001F included.
It decides which lines are blank and what trimming removes; only the line feed ends a line.
-/

namespace PeerExpansion.Text

def blanks : CodePoints :=
  [(0x9, 0xd), (0x1c, 0x20), (0x85, 0x85), (0xa0, 0xa0), (0x1680, 0x1680), (0x2000, 0x200a),
    (0x2028, 0x2029), (0x202f, 0x202f), (0x205f, 0x205f), (0x3000, 0x3000)]

def isBlank (character : Char) : Bool :=
  blanks.contains character

def trimStart (text : List Char) : List Char :=
  text.dropWhile isBlank

def trimEnd (text : List Char) : List Char :=
  (text.reverse.dropWhile isBlank).reverse

def trim (text : List Char) : List Char :=
  trimEnd (trimStart text)

/-- A line is blank when nothing but white space stands on it. -/
def isBlankLine (line : List Char) : Bool :=
  line.all isBlank

end PeerExpansion.Text
