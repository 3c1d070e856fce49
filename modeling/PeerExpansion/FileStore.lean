import PeerExpansion.Association
import PeerExpansion.FilePath
import PeerExpansion.Text.Lines
import PeerExpansion.Text.Quoted
import PeerExpansion.Text.Utf8

/-! # Files

What is known of the files of a machine. A place is the list of names that leads to a file or a
directory from the current directory, or from the root when the name of the root comes first. A step
up from a directory above the current one leads to a place of its own.
-/

namespace PeerExpansion

inductive FileNode
  | file (bytes : List UInt8)
  | directory
deriving DecidableEq

inductive FileFault
  | missing
  | notDirectory
  | isDirectory
deriving DecidableEq

def FileFault.message (fault : FileFault) (path : FilePath) : String :=
  let reason :=
    match fault with
    | missing => "[Errno 2] No such file or directory"
    | notDirectory => "[Errno 20] Not a directory"
    | isDirectory => "[Errno 21] Is a directory"
  reason ++ ": " ++ Text.quoted path.display

/-- Why the text of a file could not be read. -/
inductive TextFault
  | file (fault : FileFault)
  | encoding (error : Utf8.DecodeError)

def TextFault.message (fault : TextFault) (path : FilePath) : String :=
  match fault with
  | file fault => fault.message path
  | encoding error => error.message

structure FileStore where
  nodes : List (List String × FileNode)

namespace FileStore

def empty : FileStore := ⟨[]⟩

def rootPlace : List String := ["/"]

def parent : String := ".."

/-- The root, the current directory, and the directories it lies in. -/
def isAnchor (place : List String) : Bool :=
  place == rootPlace || place.all (· == parent)

def node? (store : FileStore) (place : List String) : Option FileNode :=
  if isAnchor place then some .directory else store.nodes.lookup place

def put (store : FileStore) (place : List String) (node : FileNode) : FileStore :=
  ⟨Association.put store.nodes place node⟩

theorem node?_put (store : FileStore) (place other : List String) (node : FileNode) :
    (store.put place node).node? other =
      if isAnchor other then some .directory
      else if other = place then some node
      else store.node? other := by
  simp only [node?, put, Association.lookup_put]
  split <;> rfl

/-- The place one step away from a directory. Nothing lies above the root. -/
def stepFrom (place : List String) (step : String) : List String :=
  if step != parent then place ++ [step]
  else if place == rootPlace then place
  else if isAnchor place then place ++ [parent]
  else place.dropLast

/-- The place where a path starts. -/
def startOf (path : FilePath) : List String :=
  if path.root.isEmpty then [] else rootPlace

/-- The places that steps lead through from `place`. -/
def placesFrom (place : List String) : List String → List (List String)
  | [] => [place]
  | step :: steps => place :: placesFrom (stepFrom place step) steps

def placesAlong (path : FilePath) : List (List String) :=
  placesFrom (startOf path) path.steps

/-- The plainest path to a place. -/
def pathTo (place : List String) : FilePath :=
  if rootPlace.isPrefixOf place then ⟨"/", place.drop rootPlace.length⟩ else ⟨"", place⟩

/-- The place that the steps lead to from `place`. Every step but the last has to end in a
directory. -/
def placeFrom (store : FileStore) (place : List String) :
    List String → Except FileFault (List String)
  | [] => .ok place
  | step :: steps =>
    match store.node? place with
    | none => .error .missing
    | some (.file _) => .error .notDirectory
    | some .directory => store.placeFrom (stepFrom place step) steps

def place (store : FileStore) (path : FilePath) : Except FileFault (List String) :=
  store.placeFrom (startOf path) path.steps

def find (store : FileStore) (path : FilePath) : Except FileFault FileNode := do
  match store.node? (← store.place path) with
  | some node => return node
  | none => throw .missing

def exists? (store : FileStore) (path : FilePath) : Bool :=
  (store.find path).toBool

def read (store : FileStore) (path : FilePath) : Except FileFault (List UInt8) := do
  match ← store.find path with
  | .file bytes => return bytes
  | .directory => throw .isDirectory

/-- The text of a file, with every line end read as a line feed. -/
def readText (store : FileStore) (path : FilePath) : Except TextFault (List Char) :=
  match store.read path with
  | .error fault => .error (.file fault)
  | .ok bytes =>
    match Utf8.decode bytes with
    | .error error => .error (.encoding error)
    | .ok text => .ok (Text.plainLineEnds text)

def write (store : FileStore) (path : FilePath) (bytes : List UInt8) :
    Except FileFault FileStore := do
  let place ← store.place path
  match store.node? place with
  | some .directory => throw .isDirectory
  | _ => return store.put place (.file bytes)

def writeText (store : FileStore) (path : FilePath) (text : String) :
    Except FileFault FileStore :=
  store.write path (Utf8.encode text.toList)

/-- Adds a file or directory together with the directories it lies in. -/
def add (store : FileStore) (path : FilePath) (node : FileNode) : FileStore :=
  let parents := (List.range path.steps.length).drop 1 |>.map path.steps.take
  (parents.foldl (fun store parent => store.put parent .directory) store).put path.steps node

end FileStore

end PeerExpansion
