import PeerExpansion.Text.Split
import PeerExpansion.Text.Uppercase

/-! # File paths

A path is written with slashes. Empty steps and steps to the same place count for nothing, so a
path has one way to be shown.
-/

namespace PeerExpansion

structure FilePath where
  /-- Empty for a path that is relative to the current directory. -/
  root : String
  steps : List String
deriving DecidableEq

namespace FilePath

def isStep (step : String) : Bool :=
  step != "" && step != "."

/-- Exactly two slashes in front make a root of their own; any other number is one slash. -/
def rootOf : List Char → String
  | '/' :: '/' :: '/' :: _ => "/"
  | '/' :: '/' :: _ => "//"
  | '/' :: _ => "/"
  | _ => ""

def ofText (text : String) : FilePath :=
  ⟨rootOf text.toList, ((Text.splitAt '/' text.toList).map String.ofList).filter isStep⟩

def display (path : FilePath) : String :=
  let shown := path.root ++ String.intercalate "/" path.steps
  if shown.isEmpty then "." else shown

/-- The part of a file name from its last point on, unless the point is its first or last
character. -/
def extensionOf (name : List Char) : List Char :=
  match name.reverse.span (· != '.') with
  | (ending, '.' :: stem) =>
    if stem.isEmpty || ending.isEmpty then [] else '.' :: ending.reverse
  | _ => []

/-- Whether the file name ends in `ending`, in capital or small letters. -/
def hasExtension (path : FilePath) (ending : String) : Bool :=
  match path.steps.getLast? with
  | some name => (extensionOf name.toList).map Text.lowercase == ending.toList
  | none => ending.isEmpty

end FilePath

end PeerExpansion
