import PeerExpansion.CommandLine.Invocation
import PeerExpansion.Configuration.Review
import PeerExpansion.Console.Markup
import PeerExpansion.Console.Table
import PeerExpansion.Expansion.Source
import PeerExpansion.Log.Setup
import PeerExpansion.SourceText

/-! # Running the program

`Invocation.run` does what an invocation asks for. What it reads is given in an `Environment`, and
what it leaves is a `Desk`: files, the text on the two output streams, log records and requests. A
crash is a fault that no command answers for.
-/

namespace PeerExpansion.CommandLine

structure Environment where
  origin : Origin
  stdin : List Char
  /-- The name of the machine that generates. -/
  machine : String

structure Desk where
  files : FileStore
  output : List Char
  errors : List Char
  notes : List LogRecord
  requests : List WebRequest

inductive Crash
  | misused (misuse : Misuse)
  | undecodable (error : Utf8.DecodeError)
  | markup (tag : Markup.UnmatchedTag)
  | log (error : LogSetupError)
  | registry (error : RegistryError)
  | template (fault : TemplateFault)

def Crash.message : Crash → String
  | misused _ => "A setting holds a value of the wrong sort"
  | undecodable error => error.message
  | markup tag => "Nothing is open that '[/" ++ String.ofList tag.name ++ "]' could close"
  | log error => error.message
  | registry error => error.message
  | template fault => fault.message

abbrev Running := ExceptT Crash (StateM Desk)

/-- An error that a command answers for with a message. -/
abbrev Attempt := Except String

/-! ## Printing -/

inductive Stream
  | output
  | errors
deriving DecidableEq

def write (stream : Stream) (text : List Char) : Running Unit :=
  modify fun desk =>
    match stream with
    | .output => { desk with output := desk.output ++ text }
    | .errors => { desk with errors := desk.errors ++ text }

def writeLines (stream : Stream) (lines : List (List Char)) : Running Unit :=
  write stream (lines.flatMap (· ++ ['\n']))

def marked (text : String) : Running (List Char) := do
  match Markup.shown text.toList with
  | .ok shown => return shown
  | .error tag => throw (.markup tag)

/-- Prints a message with markup on lines that are as long as they are. -/
def print (stream : Stream) (message : String) : Running Unit := do
  writeLines stream (Console.unbroken (← marked message))

def consoleWidth : Nat := 80

/-- Prints a message with markup on lines of the width of the console. -/
def printBroken (stream : Stream) (message : String) : Running Unit := do
  writeLines stream (Console.broken consoleWidth (← marked message))

/-- Prints a table between blank lines. -/
def printTable (stream : Stream) (table : Console.Table) : Running Unit :=
  writeLines stream ([] :: table.lines)

/-! ## Configurations -/

/-- The settings that the command line gives. Empty values count as not given. -/
def GenerationOptions.overrides (options : GenerationOptions) : Settings :=
  let platform := (options.platform.filter (!·.isEmpty)).map fun platform =>
    ("target_platform", Json.text platform)
  let marker := options.emitPersistenceMarker.map fun emit =>
    ("emit_persistence_marker", Json.bool emit)
  let indent := (options.indent.filter (· != 0)).map fun size => ("indent_size", Json.int size)
  let tabs := if options.useTabs then [("use_tabs", Json.bool true)] else []
  platform.toList ++ marker.toList ++ indent.toList ++ tabs

/-- The attribute that the command line configures. -/
def configuredMacro : String := "ImageCache"

def buildConfiguration (files : FileStore) (options : GenerationOptions) :
    Running (Attempt Configuration) := do
  match Configuration.load files configuredMacro options.configFile options.overrides with
  | .ok configuration => return .ok configuration
  | .error (.undecodable error) => throw (.undecodable error)
  | .error (.custom fault) =>
    match fault.misuse with
    | .malformed => throw (.misused .malformed)
    | _ => return .error ("Configuration error: " ++ fault.message)
  | .error error => return .error ("Configuration error: " ++ error.message)

def printWarnings (configuration : Configuration) : Running Unit := do
  match configuration.warnings with
  | .error misuse => throw (.misused misuse)
  | .ok warnings =>
    warnings.forM fun warning => print .errors ("[yellow]⚠️  " ++ warning ++ "[/yellow]")

/-! ## Sources -/

def addTrace (trace : LoadTrace) : Running Unit :=
  modify fun desk => { desk with
    notes := desk.notes ++ trace.notes
    requests := desk.requests ++ trace.requests }

def loadInput (environment : Environment) (path url : String) :
    Running (Attempt SourceText) := do
  let origin := { environment.origin with files := (← get).files }
  let (outcome, trace) :=
    SourceText.run (SourceText.load origin path url SourceText.standardTimeout)
  addTrace trace
  match outcome with
  | .ok source => return .ok source
  | .error (.misused misuse) => throw (.misused misuse)
  | .error error => return .error ("Failed to load input: " ++ error.message)

def readInput (environment : Environment) (input : InputOptions) :
    Running (Attempt SourceText) :=
  if !input.file.isEmpty then loadInput environment input.file ""
  else if !input.url.isEmpty then loadInput environment "" input.url
  else if input.stdin then return .ok ⟨"<stdin>", environment.stdin⟩
  else return .error "Input source required (file, --url, or --stdin)"

/-! ## Expansions -/

def expandSource (environment : Environment) (source : SourceText)
    (configuration : Configuration) : Running SourceExpansion := do
  let expander := Expander.ofSource (← get).files (.ready configuration)
  let (outcome, _, notes) := expander.run
    (Expander.expand (Registry.standard environment.machine) source.text source.name)
  modify fun desk => { desk with notes := desk.notes ++ notes }
  match outcome with
  | .ok expansion => return expansion
  | .error (.registry error) => throw (.registry error)
  | .error (.interrupted (.misused misuse)) => throw (.misused misuse)
  | .error (.interrupted (.template fault)) => throw (.template fault)

def expandInput (environment : Environment) (input : InputOptions)
    (generation : GenerationOptions) : Running (Attempt SourceExpansion) := do
  match ← readInput environment input with
  | .error reason => return .error reason
  | .ok source =>
    match ← buildConfiguration (← get).files generation with
    | .error reason => return .error reason
    | .ok configuration =>
      printWarnings configuration
      return .ok (← expandSource environment source configuration)

/-- The line that reports a diagnostic, with markup. -/
def diagnosticLine (diagnostic : Diagnostic) : String :=
  "[bold]" ++ diagnostic.sourceName ++ ":" ++ toString diagnostic.line ++ ":" ++
    toString diagnostic.column ++ ":[/bold] [red]error:[/red] " ++ diagnostic.message

def printDiagnostics (expansion : SourceExpansion) : Running Unit := do
  expansion.diagnostics.forM fun diagnostic => print .errors (diagnosticLine diagnostic)
  print .errors ("[red]✗[/red] " ++ toString expansion.diagnostics.length ++
    " diagnostic(s), no output written")

/-- Goes on with an expansion that succeeded; otherwise says what went wrong. -/
def withExpansion (environment : Environment) (input : InputOptions)
    (generation : GenerationOptions) (next : SourceExpansion → Running Nat) : Running Nat := do
  match ← expandInput environment input generation with
  | .error reason =>
    print .errors ("[red]✗ Error:[/red] " ++ reason)
    return 1
  | .ok expansion =>
    if expansion.isSuccess then next expansion
    else
      printDiagnostics expansion
      return 1

def metadataTable (expansion : SourceExpansion) : Console.Table where
  title := "📊 Expansion Metadata".toList
  heading := ["Line", "Macro", "Peers"].map String.toList
  rows := (expansion.expansions.filterMap ExpansionResult.expansion?).map fun made =>
    [toString made.line, "@" ++ made.attributeName, toString made.peers.length].map fun cell =>
      [cell.toList]

def closedLine (text : List Char) : List Char :=
  if text.getLast? == some '\n' then text else text ++ ['\n']

/-- Writes the expanded source to a file, or says why it cannot. -/
def writeFile (expansion : SourceExpansion) (path : FilePath) : Running Bool := do
  match (← get).files.writeText path (String.ofList expansion.source) with
  | .error fault =>
    printBroken .errors ("[red]✗ Failed to write to " ++ path.display ++ ":[/red] " ++
      fault.message path)
    return false
  | .ok files =>
    modify fun desk => { desk with files }
    print .errors ("[green]✓[/green] Expanded " ++ toString expansion.expandedCount ++
      " declaration(s) into [cyan]" ++ path.display ++ "[/cyan]")
    return true

def deliver (expansion : SourceExpansion) (output : String) : Running Bool := do
  if output.isEmpty then
    write .output (closedLine expansion.source)
    return true
  else writeFile expansion (.ofText output)

def finishExpand (output : String) (isVerbose : Bool) (expansion : SourceExpansion) :
    Running Nat := do
  if ← deliver expansion output then
    if isVerbose then printTable .errors (metadataTable expansion)
    return 0
  else return 1

def finishCheck (expansion : SourceExpansion) : Running Nat := do
  print .output ("[green]✓[/green] " ++ expansion.sourceName ++ ": " ++
    toString expansion.expandedCount ++ " macro use(s), no diagnostics")
  return 0

/-! ## Macros -/

def aliasesShown (aliases : List String) : String :=
  if aliases.isEmpty then "none" else String.intercalate ", " aliases

def macroTable (infos : List MacroInfo) : Console.Table where
  title := "📋 Registered Macros".toList
  heading := ["Macro", "Role", "Generator Class", "Aliases"].map String.toList
  rows := infos.map fun info =>
    ["@" ++ info.name, info.role, info.className, aliasesShown info.aliases].map fun cell =>
      [cell.toList]

def infoFault : InfoFault → Crash
  | .registry error => .registry error
  | .misused misuse => .misused misuse
  | .configuration _ => .misused .malformed

def showMacros (environment : Environment) : Running Nat := do
  let registry := Registry.standard environment.machine
  match registry.primaries.mapM (registry.info (← get).files) with
  | .error fault => throw (infoFault fault)
  | .ok infos =>
    printTable .output (macroTable infos)
    writeLines .output [[]]
    return 0

def infoLines (info : MacroInfo) : List String :=
  ["🔧 @" ++ info.name, "[bold]Macro:[/bold] @" ++ info.name, "[bold]Role:[/bold] " ++ info.role,
    "[bold]Generator Class:[/bold] " ++ info.className,
    "[bold]Module:[/bold] " ++ info.module] ++
    if info.aliases.isEmpty then []
    else ["[bold]Aliases:[/bold] " ++ String.intercalate ", " info.aliases]

/-- The values of settings are as wide as the console allows beside their names. -/
def settingWidth : Nat := 55

def settingsTable (settings : Settings) : Running Console.Table := do
  let rows ← settings.mapM fun (name, value) => do
    return [[name.toList], Console.broken settingWidth (← marked value.display)]
  return ⟨"⚙️  Configuration".toList, ["Setting", "Value"].map String.toList, rows⟩

/-- Why nothing can be told about a macro. -/
def refuseInfo (reason : String) : Running Nat := do
  print .errors ("[red]✗ " ++ reason ++ "[/red]")
  print .errors "[dim]Use list-macros to see available options[/dim]"
  return 1

def printInfo (info : MacroInfo) (generator : Generator) : Running Nat := do
  writeLines .output [[]]
  (infoLines info).forM (print .output)
  printTable .output (← settingsTable generator.settings)
  return 0

def showMacroInfo (environment : Environment) (name : String) (generation : GenerationOptions) :
    Running Nat := do
  let registry := Registry.standard environment.machine
  let files := (← get).files
  match registry.info files name with
  | .error (.registry error) => refuseInfo error.message
  | .error fault => throw (infoFault fault)
  | .ok info =>
    match ← buildConfiguration files generation with
    | .error reason => refuseInfo reason
    | .ok configuration =>
      match registry.create files name (.ready configuration) with
      | .error error => refuseInfo error.message
      | .ok generator => printInfo info generator

/-! ## Invocations -/

def Command.run (environment : Environment) : Command → Running Nat
  | .expand input generation output isVerbose =>
    withExpansion environment input generation (finishExpand output isVerbose)
  | .check input generation => withExpansion environment input generation finishCheck
  | .listMacros => showMacros environment
  | .macroInfo name generation => showMacroInfo environment name generation

/-- Sets up the log, in whose file a line is written for each record when all is done. -/
def openLog (invocation : Invocation) : Running LogSetup := do
  match LogSetup.make (← get).files (LogLevel.rankNamed? invocation.logLevel)
      invocation.logFile with
  | .error error => throw (.log error)
  | .ok (setup, files) =>
    modify fun desk => { desk with files }
    return setup

/-- What came of an invocation: the exit status, or the crash, or `none` where only help was asked
for, and the log as it was set up. -/
structure Conclusion where
  status : Except Crash (Option Nat)
  log : Option LogSetup
  desk : Desk

/-- Runs an invocation. One without a command has nothing to do but to show help. -/
def Invocation.run (environment : Environment) (invocation : Invocation) : Conclusion :=
  let desk : Desk := ⟨environment.origin.files, [], [], [], []⟩
  match (ExceptT.run (openLog invocation)).run desk with
  | (.error crash, desk) => ⟨.error crash, none, desk⟩
  | (.ok setup, desk) =>
    match invocation.command with
    | none => ⟨.ok none, some setup, desk⟩
    | some command =>
      let (status, desk) := (ExceptT.run (command.run environment)).run desk
      ⟨status.map some, some setup, desk⟩

end PeerExpansion.CommandLine
