import PeerExpansion.FileStore
import PeerExpansion.Log
import PeerExpansion.Text.Uppercase

/-! # Setting up the log

Records go to the console from a chosen rank on, and all of them to a file where one is named. A
rank is chosen by the name of a level, in whatever letters, or as a number.
-/

namespace PeerExpansion

/-- The logger that all others of this library are below. -/
def rootLogger : String := "imagecache"

/-- The name of a logger below the root. The root and what is below it keep their names. -/
def loggerName (name : String) : String :=
  if name = rootLogger || (rootLogger ++ ".").toList.isPrefixOf name.toList then name
  else rootLogger ++ "." ++ name

namespace LogLevel

/-- The names that levels are chosen by. Some levels have two. -/
def rankNames : List (String × Int) :=
  [("CRITICAL", 50), ("FATAL", 50), ("ERROR", 40), ("WARNING", 30), ("WARN", 30), ("INFO", 20),
    ("DEBUG", 10), ("NOTSET", 0)]

def rankNamed? (name : String) : Option Int :=
  rankNames.lookup (String.ofList (name.toList.flatMap Text.uppercase))

end LogLevel

inductive LogHandler
  | console (rank : Int)
  | file (path : FilePath) (rank : Int)

def LogHandler.rank : LogHandler → Int
  | console rank => rank
  | file _ rank => rank

structure LogSetup where
  consoleRank : Int
  file : Option FilePath

inductive LogSetupError
  | unknownLevel
  | file (path : FilePath) (fault : FileFault)

def LogSetupError.message : LogSetupError → String
  | unknownLevel => "Unknown log level"
  | file path fault => fault.message path

namespace LogSetup

/-- Opens the file of a log, which is made when it is not there. -/
def openFile (files : FileStore) (path : FilePath) : Except FileFault FileStore :=
  match files.read path with
  | .ok _ => .ok files
  | .error .missing => files.write path []
  | .error fault => .error fault

/-- The file of the log, when one is named. -/
def logPath? (file : String) : Option FilePath :=
  if file.isEmpty then none else some (.ofText file)

def make (files : FileStore) (consoleRank : Option Int) (file : String) :
    Except LogSetupError (LogSetup × FileStore) :=
  match consoleRank, logPath? file with
  | none, _ => .error .unknownLevel
  | some rank, none => .ok (⟨rank, none⟩, files)
  | some rank, some path =>
    match openFile files path with
    | .ok files => .ok (⟨rank, some path⟩, files)
    | .error fault => .error (.file path fault)

def handlers (setup : LogSetup) : List LogHandler :=
  .console setup.consoleRank ::
    (setup.file.map fun path => LogHandler.file path LogLevel.debug.rank).toList

/-- Those of the records that come to the console. -/
def shown (setup : LogSetup) (records : List LogRecord) : List LogRecord :=
  records.filter fun record => setup.consoleRank ≤ record.level.rank

end LogSetup

/-- The line of a record in a file, without the time: the level is as wide as eight characters. -/
def LogRecord.line (record : LogRecord) : String :=
  let level := record.level.name
  level ++ String.ofList (List.replicate (8 - level.length) ' ') ++ " " ++ record.logger ++ ": " ++
    record.message

end PeerExpansion
