import PeerExpansion.CommandLine.Read
import PeerExpansion.FilePath

/-! # Invocations of the program

What the program can be asked to do, and the grammars that say how to ask for it.
-/

namespace PeerExpansion.CommandLine

/-- Where the source comes from. The first that is given counts; an empty text is the same as
none. -/
structure InputOptions where
  file : String
  url : String
  stdin : Bool

/-- What the command line says about the configuration. -/
structure GenerationOptions where
  configFile : Option String
  platform : Option String
  emitPersistenceMarker : Option Bool
  indent : Option Int
  useTabs : Bool

inductive Command
  | expand (input : InputOptions) (generation : GenerationOptions) (output : String)
    (isVerbose : Bool)
  | check (input : InputOptions) (generation : GenerationOptions)
  | listMacros
  | macroInfo (name : String) (generation : GenerationOptions)

structure Invocation where
  logLevel : String
  logFile : String
  command : Option Command

/-- The paths among texts that are empty where none is given. -/
def givenPaths (texts : List String) : List FilePath :=
  (texts.filter (!·.isEmpty)).map FilePath.ofText

def Command.paths : Command → List FilePath
  | .expand input generation output _ =>
    givenPaths (input.file :: output :: generation.configFile.toList)
  | .check input generation => givenPaths (input.file :: generation.configFile.toList)
  | .listMacros => []
  | .macroInfo _ generation => givenPaths generation.configFile.toList

/-- Whether the source comes from the input that stands open. -/
def InputOptions.readsStdin (input : InputOptions) : Bool :=
  input.stdin && input.file.isEmpty && input.url.isEmpty

def Command.readsStdin : Command → Bool
  | .expand input _ _ _ | .check input _ => input.readsStdin
  | .listMacros | .macroInfo _ _ => false

/-- The paths of all files that an invocation can read or write. -/
def Invocation.paths (invocation : Invocation) : List FilePath :=
  givenPaths [invocation.logFile] ++ (invocation.command.map Command.paths).getD []

/-! ## Grammars -/

def program : String := "imagecache"

def version : String := program ++ " 0.1.0"

def helpOption : OptionSpec := ⟨["-h", "--help"], .help, none⟩

def option (name : String) (kind : OptionKind) : OptionSpec :=
  ⟨[name], kind, none⟩

/-- Sources exclude each other, and so do the two options about the marker. -/
def sourceGroup : Nat := 0

def markerGroup : Nat := 1

def fileOperand : Operand := ⟨"file", .optional, some sourceGroup⟩

def inputOptions : List OptionSpec :=
  [⟨["--url"], .text, some sourceGroup⟩, ⟨["--stdin"], .flag, some sourceGroup⟩]

def generationOptions : List OptionSpec :=
  [option "--config" .text, option "--platform" .text,
    ⟨["--persistence-marker"], .flag, some markerGroup⟩,
    ⟨["--no-persistence-marker"], .flag, some markerGroup⟩,
    option "--indent" .number, option "--tabs" .flag]

def commandNames : List String :=
  ["expand", "check", "list-macros", "macro-info"]

def levelNames : List String :=
  ["DEBUG", "INFO", "WARNING", "ERROR", "CRITICAL"]

def mainGrammar : Grammar where
  program := program
  options :=
    [helpOption, option "--version" .version, option "--log-level" (.choice levelNames),
      option "--log-file" .text]
  operand := some ⟨"COMMAND", .command commandNames, none⟩

def outputOption : OptionSpec := ⟨["--output", "-o"], .text, none⟩

/-- The options and the operand of a command. -/
def commandParts (name : String) : List OptionSpec × Option Operand :=
  match name with
  | "expand" =>
    (inputOptions ++ [outputOption] ++ generationOptions ++ [option "--verbose" .flag],
      some fileOperand)
  | "check" => (inputOptions ++ generationOptions, some fileOperand)
  | "macro-info" => (generationOptions, some ⟨"name", .single, none⟩)
  | _ => ([], none)

def commandGrammar (name : String) : Grammar :=
  let (options, operand) := commandParts name
  ⟨program ++ " " ++ name, helpOption :: options, operand⟩

/-! ## From readings to invocations -/

namespace Reading

/-- What was given last for an argument. -/
def last? (reading : Reading) (title : String) : Option Given :=
  reading.given.reverse.lookup title

def has (reading : Reading) (title : String) : Bool :=
  (reading.last? title).isSome

def text? (reading : Reading) (title : String) : Option String :=
  match reading.last? title with
  | some (.text text) => some text
  | _ => none

def number? (reading : Reading) (title : String) : Option Int :=
  match reading.last? title with
  | some (.number value) => some value
  | _ => none

def input (reading : Reading) : InputOptions where
  file := (reading.text? fileOperand.title).getD ""
  url := (reading.text? "--url").getD ""
  stdin := reading.has "--stdin"

def generation (reading : Reading) : GenerationOptions where
  configFile := reading.text? "--config"
  platform := reading.text? "--platform"
  emitPersistenceMarker :=
    if reading.has "--persistence-marker" then some true
    else if reading.has "--no-persistence-marker" then some false
    else none
  indent := reading.number? "--indent"
  useTabs := reading.has "--tabs"

def command (reading : Reading) (name : String) : Command :=
  match name with
  | "expand" =>
    .expand reading.input reading.generation ((reading.text? outputOption.title).getD "")
      (reading.has "--verbose")
  | "check" => .check reading.input reading.generation
  | "macro-info" => .macroInfo ((reading.text? "name").getD "") reading.generation
  | _ => .listMacros

end Reading

/-- The command of a main reading, and the words that nothing could be made of. -/
def readCommand (reading : Reading) : Progress (Option Command × List String) := do
  match reading.last? "COMMAND" with
  | some (.words (name :: words)) =>
    let commandReading ← (commandGrammar name).read words
    return (some (commandReading.command name), reading.extras ++ commandReading.extras)
  | _ => return (none, reading.extras)

/-- Records are shown on the console from this level on unless another one is chosen. -/
def standardLevel : String := "WARNING"

def Invocation.read (words : List String) : Progress Invocation := do
  let reading ← mainGrammar.read words
  let (command, extras) ← readCommand reading
  if !extras.isEmpty then Reading.fail mainGrammar (.unrecognized extras)
  return {
    logLevel := (reading.text? "--log-level").getD standardLevel
    logFile := (reading.text? "--log-file").getD ""
    command }

end PeerExpansion.CommandLine
