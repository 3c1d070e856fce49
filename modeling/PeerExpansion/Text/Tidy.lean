import PeerExpansion.Text.Lines

/-! # Tidy text

A tidy text has no white space at the end of a line, no two blank lines in a row, and no blank line
at either end.
-/

namespace PeerExpansion.Text

/-- Keeps one empty line of several in a row. -/
def singleGaps : List (List Char) → List (List Char)
  | [] => []
  | line :: others =>
    if line.isEmpty && (others.head?.map List.isEmpty).getD false then singleGaps others
    else line :: singleGaps others

def dropOuterGaps (parts : List (List Char)) : List (List Char) :=
  ((parts.dropWhile List.isEmpty).reverse.dropWhile List.isEmpty).reverse

def tidyChars (text : List Char) : List Char :=
  unlines (dropOuterGaps (singleGaps ((lines text).map trimEnd)))

def tidy (text : String) : String :=
  String.ofList (tidyChars text.toList)

end PeerExpansion.Text
