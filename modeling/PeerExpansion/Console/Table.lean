import PeerExpansion.Console.Wrap

/-! # Tables on a console

A table has a title, a heading and rows of cells. Every column is as wide as its widest cell, and a
cell of several lines makes a row of several lines.
-/

namespace PeerExpansion.Console

structure Table where
  title : List Char
  heading : List (List Char)
  /-- Each cell is a list of lines. -/
  rows : List (List (List (List Char)))

namespace Table

def padded (width : Nat) (line : List Char) : List Char :=
  line ++ List.replicate (width - columns line) ' '

def widthAt (table : Table) (place : Nat) : Nat :=
  let lines := [table.heading.getD place []] :: table.rows.map (·.getD place [])
  (lines.flatten.map columns).foldl max 0

def line (widths : List Nat) (cells : List (List Char)) : List Char :=
  (List.zipWith padded widths cells).flatMap fun cell => ' ' :: cell ++ [' ']

/-- The lines of a row; cells that have fewer lines are filled up with blanks. -/
def rowLines (widths : List Nat) (row : List (List (List Char))) : List (List Char) :=
  let height := (row.map List.length).foldl max 0
  (List.range height).map fun place => line widths (row.map (·.getD place []))

def lines (table : Table) : List (List Char) :=
  let widths := (List.range table.heading.length).map table.widthAt
  table.title :: line widths table.heading :: table.rows.flatMap (rowLines widths)

end Table

end PeerExpansion.Console
