import PeerExpansion.CommandLine.Run
import PeerExpansion.CommandLine.Usage

/-! # The program

Reads what an invocation needs from the disk, runs it, and writes back what it left. Nothing is
decided here: `Invocation.read` says what to do and `Invocation.run` does it.
-/

namespace PeerExpansion.Program

open CommandLine

/-! ## Reading -/

/-- What lies on the disk at a path, as far as it can be read. A directory shows by the way in which
reading it as a file fails. -/
def nodeAt (path : String) : IO (Option FileNode) := do
  match ← (IO.FS.readBinFile path).toBaseIO with
  | .ok bytes => return some (.file bytes.toList)
  | .error (.inappropriateType ..) => return some .directory
  | .error _ => return none

def addPlace (store : FileStore) (place : List String) : IO FileStore := do
  if FileStore.isAnchor place then return store
  match ← nodeAt (FileStore.pathTo place).display with
  | some node => return store.put place node
  | none => return store

def readFiles (invocation : Invocation) : IO FileStore :=
  (invocation.paths.flatMap FileStore.placesAlong).foldlM addPlace .empty

partial def readToEnd (stream : IO.FS.Stream) (start : ByteArray) : IO ByteArray := do
  let chunk ← stream.read 65536
  if chunk.isEmpty then return start
  readToEnd stream (start ++ chunk)

def readStdin (invocation : Invocation) : IO (Except Utf8.DecodeError (List Char)) := do
  if (invocation.command.map Command.readsStdin).getD false then
    let bytes ← readToEnd (← IO.getStdin) .empty
    return (Utf8.decode bytes.toList).map Text.plainLineEnds
  else return .ok []

/-! ## Writing -/

def writeFiles (before after : FileStore) : IO Unit :=
  after.nodes.forM fun (place, node) => do
    match node with
    | .directory => return
    | .file bytes =>
      if before.node? place ≠ some node then
        IO.FS.writeBinFile (FileStore.pathTo place).display ⟨bytes.toArray⟩

def writeLog (setup : LogSetup) (notes : List LogRecord) : IO Unit := do
  (setup.shown notes).forM fun record => IO.eprintln record.line
  match setup.file with
  | none => return
  | some path =>
    let file ← IO.FS.Handle.mk path.display .append
    notes.forM fun record => file.putStrLn record.line

/-! ## Running -/

/-- The machine to generate for when no target is chosen. -/
def machine : String := "linux"

/-- Nothing can be fetched from here. -/
def noWeb : Web := fun _ => .error (.connection "no connection")

def conclude (before : FileStore) (conclusion : Conclusion) : IO UInt32 := do
  let desk := conclusion.desk
  writeFiles before desk.files
  if let some setup := conclusion.log then writeLog setup desk.notes
  IO.print (String.ofList desk.output)
  IO.eprint (String.ofList desk.errors)
  match conclusion.status with
  | .ok (some status) => return .ofNat status
  | .ok none =>
    IO.print help
    return 1
  | .error crash =>
    IO.eprintln (program ++ ": " ++ crash.message)
    return 1

def runInvocation (invocation : Invocation) : IO UInt32 := do
  let files ← readFiles invocation
  match ← readStdin invocation with
  | .error error =>
    IO.eprintln (program ++ ": " ++ error.message)
    return 1
  | .ok stdin => conclude files (invocation.run ⟨⟨files, noWeb⟩, stdin, machine⟩)

def stop : Stop → IO UInt32
  | .help => do
    IO.print help
    return 0
  | .version => do
    IO.println version
    return 0
  | .usage name error => do
    IO.eprintln (name ++ ": error: " ++ error.message)
    return 2

/-- Runs the program with the words of its command line. -/
def run (words : List String) : IO UInt32 :=
  match Invocation.read words with
  | .error reason => stop reason
  | .ok invocation => runInvocation invocation

end PeerExpansion.Program

def main (words : List String) : IO UInt32 :=
  PeerExpansion.Program.run words
