import PeerExpansion.Json

/-! # Printing JSON

Every entry stands on its own line, two spaces deeper than the brackets around it. Characters
outside ASCII are printed as they are.
-/

namespace PeerExpansion.Json

def escapeChar (character : Char) : List Char :=
  if character = '"' then ['\\', '"']
  else if character = '\\' then ['\\', '\\']
  else if character = '\n' then ['\\', 'n']
  else if character = '\r' then ['\\', 'r']
  else if character = '\t' then ['\\', 't']
  else if character = '\x0c' then ['\\', 'f']
  else if character = '\x08' then ['\\', 'b']
  else if character.toNat < 0x20 then '\\' :: 'u' :: Text.hexDigits 4 character.toNat
  else [character]

def printText (text : String) : String :=
  "\"" ++ String.ofList (text.toList.flatMap escapeChar) ++ "\""

def newLine (depth : Nat) : String :=
  "\n" ++ String.ofList (List.replicate (2 * depth) ' ')

/-- Puts `parts` between two brackets, each on a line of its own. -/
def bracketed (opening closing : String) (depth : Nat) (parts : List String) : String :=
  if parts.isEmpty then opening ++ closing
  else
    opening ++ newLine (depth + 1) ++ String.intercalate ("," ++ newLine (depth + 1)) parts ++
      newLine depth ++ closing

mutual

/-- The text of a value that stands inside `depth` others. -/
def printAt (depth : Nat) : Json → String
  | null => "null"
  | bool value => if value then "true" else "false"
  | int value => toString value
  | decimal spelling => spelling
  | text value => printText value
  | list items => bracketed "[" "]" depth (printItems (depth + 1) items)
  | object entries => bracketed "\x7b" "\x7d" depth (printEntries (depth + 1) entries)

def printItems (depth : Nat) : List Json → List String
  | [] => []
  | item :: others => item.printAt depth :: printItems depth others

def printEntries (depth : Nat) : List (String × Json) → List String
  | [] => []
  | (key, value) :: others =>
    (printText key ++ ": " ++ value.printAt depth) :: printEntries depth others

end

def print (value : Json) : String :=
  value.printAt 0

end PeerExpansion.Json
