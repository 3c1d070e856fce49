import PeerExpansion.CommandLine.Run
import PeerExpansion.Proofs.Console.Markup
import PeerExpansion.Proofs.Expansion.Delivery
import PeerExpansion.Proofs.FileStore

/-! # What the steps of a command come to

A step gives an answer and leaves a desk behind, or crashes. Printing crashes only over markup and
leaves the files alone, and so does everything else but the writing of the output.
-/

namespace PeerExpansion.CommandLine

/-! ## Messages that can be shown

Most messages carry a text from elsewhere between tags of their own. Each is shown, whatever the
text, unless the text has what begins a closing tag.
-/

section Messages

open Markup

/-- The markup of a message can be shown. -/
def IsShown (message : String) : Prop :=
  ∃ shown, Markup.shown message.toList = .ok shown

/-- The line of a warning. -/
def warningLine (warning : String) : String :=
  "[yellow]⚠️  " ++ warning ++ "[/yellow]"

/-- The line that says what was written where. -/
def writtenLine (count : Nat) (display : String) : String :=
  "[green]✓[/green] Expanded " ++ toString count ++ " declaration(s) into [cyan]" ++ display ++
    "[/cyan]"

theorem isShown_writtenLine {display : String} (noClosing : ¬HasClosing display.toList)
    (count : Nat) : IsShown (writtenLine count display) := by
  have begins : "[green]✓[/green] Expanded ".toList =
      "[green]".toList ++ ("✓".toList ++ ("[/green]".toList ++ " Expanded ".toList)) := rfl
  have goesOn : " declaration(s) into [cyan]".toList =
      " declaration(s) into ".toList ++ "[cyan]".toList := rfl
  change Shows [] 0 (writtenLine count display).toList
  unfold writtenLine
  simp only [String.toList_append, begins, goesOn, List.append_assoc]
  refine shows_openingTag "green".toList (fun _ => rfl) rfl ?_
  refine shows_append_plain (by simp) ?_
  refine shows_closingTag "green".toList (fun _ => rfl) rfl (by decide) (by simp) fun opened => ?_
  refine shows_append_plain (by simp) ?_
  refine shows_append_plain (plain_toString count) ?_
  refine shows_append_plain (by simp) ?_
  refine shows_openingTag "cyan".toList (fun _ => rfl) rfl ?_
  refine shows_append (mt ClosesTag.hasClosing noClosing) shut_bracket fun more slashes => ?_
  exact shows_lastTag "cyan".toList rfl rfl (by decide) (by simp)

end Messages

variable {α β : Type} {first middle last : Desk} {crash : Crash} {message : String}
  {stream : Stream}

/-- The step answers `value` at the desk `first` and leaves it as `last`. -/
def Gives (work : Running α) (first : Desk) (value : α) (last : Desk) : Prop :=
  outcome work first = (.ok value, last)

def Crashes (work : Running α) (first : Desk) (crash : Crash) : Prop :=
  (outcome work first).1 = .error crash

theorem gives_bind {work : Running α} {next : α → Running β} {given : α} {value : β}
    (front : Gives work first given middle) (back : Gives (next given) middle value last) :
    Gives (work >>= next) first value last :=
  (outcome_bind_ok front).trans back

theorem crashes_bind {work : Running α} {next : α → Running β}
    (front : Crashes work first crash) : Crashes (work >>= next) first crash := by
  rw [Crashes, outcome_bind_error (Prod.ext front rfl)]

theorem crashes_bind_behind {work : Running α} {next : α → Running β} {given : α}
    (front : Gives work first given middle) (back : Crashes (next given) middle crash) :
    Crashes (work >>= next) first crash := by
  rw [Crashes, outcome_bind_ok front]
  exact back

/-- Whatever becomes of the step, it leaves the files as they are. -/
def KeepsFiles (work : Running α) : Prop :=
  ∀ desk, (outcome work desk).2.files = desk.files

theorem keepsFiles_pure (value : α) : KeepsFiles (pure value) := fun _ => rfl

theorem keepsFiles_bind {work : Running α} {next : α → Running β} (front : KeepsFiles work)
    (back : ∀ given, KeepsFiles (next given)) : KeepsFiles (work >>= next) := by
  intro desk
  have kept := front desk
  cases ran : outcome work desk with
  | mk result middle =>
    rw [ran] at kept
    cases result with
    | error crash =>
      rw [outcome_bind_error ran]
      exact kept
    | ok given =>
      rw [outcome_bind_ok ran]
      exact (back given middle).trans kept

/-! ## Printing -/

theorem exists_gives_print (shown : IsShown message) (stream : Stream) (desk : Desk) :
    ∃ later, Gives (print stream message) desk () later ∧ later.files = desk.files := by
  obtain ⟨text, shown⟩ := shown
  have printed : outcome (print stream message) desk =
      outcome (writeLines stream (Console.unbroken text)) desk := by
    rw [print, marked, shown]
    rfl
  cases stream with
  | output => exact ⟨_, printed, rfl⟩
  | errors => exact ⟨_, printed, rfl⟩

theorem exists_outcome_print (hidden : ¬IsShown message) (stream : Stream) (desk : Desk) :
    ∃ tag, outcome (print stream message) desk = (.error (.markup tag), desk) := by
  cases shown : Markup.shown message.toList with
  | ok text => exact absurd ⟨text, shown⟩ hidden
  | error tag =>
    refine ⟨tag, ?_⟩
    rw [print, marked, shown]
    rfl

theorem exists_crashes_print (hidden : ¬IsShown message) (stream : Stream) (desk : Desk) :
    ∃ tag, Crashes (print stream message) desk (.markup tag) := by
  obtain ⟨tag, printed⟩ := exists_outcome_print hidden stream desk
  exact ⟨tag, congrArg Prod.fst printed⟩

theorem keepsFiles_print (stream : Stream) (message : String) :
    KeepsFiles (print stream message) := by
  intro desk
  by_cases shown : IsShown message
  · obtain ⟨later, printed, kept⟩ := exists_gives_print shown stream desk
    rw [printed]
    exact kept
  · obtain ⟨tag, printed⟩ := exists_outcome_print shown stream desk
    rw [printed]

theorem exists_gives_forM_print {messages : List String} (stream : Stream)
    (shown : ∀ message ∈ messages, IsShown message) (desk : Desk) :
    ∃ later, Gives (messages.forM (print stream)) desk () later ∧ later.files = desk.files := by
  induction messages generalizing desk with
  | nil => exact ⟨desk, rfl, rfl⟩
  | cons message others inductionHypothesis =>
    obtain ⟨here, there⟩ := List.forall_mem_cons.mp shown
    obtain ⟨middle, front, kept⟩ := exists_gives_print here stream desk
    obtain ⟨later, back, keptToo⟩ := inductionHypothesis there middle
    exact ⟨later, gives_bind front back, keptToo.trans kept⟩

theorem exists_crashes_forM_print {messages : List String} (member : message ∈ messages)
    (hidden : ¬IsShown message) (desk : Desk) :
    ∃ tag, Crashes (messages.forM (print stream)) desk (.markup tag) := by
  induction messages generalizing desk with
  | nil => cases member
  | cons other others inductionHypothesis =>
    by_cases here : IsShown other
    · obtain ⟨middle, front, -⟩ := exists_gives_print here stream desk
      have behind : message ∈ others := by
        obtain rfl | behind := List.mem_cons.mp member
        · exact absurd here hidden
        · exact behind
      obtain ⟨tag, back⟩ := inductionHypothesis behind middle
      exact ⟨tag, crashes_bind_behind front back⟩
    · obtain ⟨tag, front⟩ := exists_crashes_print here stream desk
      exact ⟨tag, crashes_bind front⟩

theorem printWarnings_eq {configuration : Configuration} {warnings : List String}
    (warned : configuration.warnings = .ok warnings) :
    printWarnings configuration = (warnings.map warningLine).forM (print .errors) := by
  rw [printWarnings, warned]
  exact List.forM_map.symm

theorem exists_gives_printWarnings {configuration : Configuration} {warnings : List String}
    (warned : configuration.warnings = .ok warnings)
    (shown : ∀ warning ∈ warnings, IsShown (warningLine warning)) (desk : Desk) :
    ∃ later, Gives (printWarnings configuration) desk () later ∧ later.files = desk.files := by
  rw [printWarnings_eq warned]
  exact exists_gives_forM_print .errors (by simpa using shown) desk

/-! ## Sources -/

/-- A file is there if its text can be read, and its name is not empty. -/
theorem exists?_of_readText {files : FileStore} {path : FilePath} {text : List Char}
    (readable : files.readText path = .ok text) : files.exists? path = true := by
  unfold FileStore.readText FileStore.read at readable
  rw [FileStore.exists?]
  cases found : files.find path with
  | ok node => rfl
  | error fault =>
    rw [found] at readable
    cases readable

theorem isEmpty_eq_false_of_readText {files : FileStore} {file : String} {text : List Char}
    (readable : files.readText (.ofText file) = .ok text) : file.isEmpty = false := by
  rw [Bool.eq_false_iff]
  intro empty
  obtain rfl := String.isEmpty_iff.mp empty
  have directory : files.readText (.ofText "") = .error (.file .isDirectory) := rfl
  rw [directory] at readable
  cases readable

theorem exists_run_load {origin : Origin} {file : String} {text : List Char}
    (readable : origin.files.readText (.ofText file) = .ok text) (timeout : Int) :
    ∃ trace, SourceText.run (SourceText.load origin file "" timeout) =
      (.ok ⟨(FilePath.ofText file).display, text⟩, trace) := by
  rw [SourceText.load, isEmpty_eq_false_of_readText readable]
  change ∃ trace, SourceText.run (SourceText.ofFile origin.files (.ofText file)) = _
  rw [SourceText.ofFile, exists?_of_readText readable, readable]
  cases (FilePath.ofText file).hasExtension ".swift" <;> exact ⟨_, rfl⟩

theorem exists_gives_readInput (environment : Environment) {file : String} {text : List Char}
    {desk : Desk} (readable : desk.files.readText (.ofText file) = .ok text) :
    ∃ later, Gives (readInput environment ⟨file, "", false⟩) desk
      (.ok ⟨(FilePath.ofText file).display, text⟩) later ∧ later.files = desk.files := by
  let origin := { environment.origin with files := desk.files }
  have readableThere : origin.files.readText (.ofText file) = .ok text := readable
  obtain ⟨trace, loaded⟩ := exists_run_load readableThere SourceText.standardTimeout
  have read : readInput environment ⟨file, "", false⟩ = loadInput environment file "" := by
    simp [readInput, isEmpty_eq_false_of_readText readable]
  rw [read]
  refine ⟨{ desk with
    notes := desk.notes ++ trace.notes
    requests := desk.requests ++ trace.requests }, ?_, rfl⟩
  refine gives_bind (show Gives get desk desk desk from rfl) ?_
  dsimp only
  rw [loaded]
  rfl

/-! ## Expansions -/

section Expansions

variable {environment : Environment} {source : SourceText} {configuration : Configuration}
  {desk : Desk}

/-- The expansion of a source from a workshop with nothing made yet. -/
def expansionWork (environment : Environment) (source : SourceText) : Work SourceExpansion :=
  Expander.expand (Registry.standard environment.machine) source.text source.name

/-- The workshop in which an expansion begins. -/
def workshopOf (desk : Desk) (configuration : Configuration) : Workshop :=
  ⟨Expander.ofSource desk.files (.ready configuration), []⟩

theorem supplied_workshopOf (desk : Desk) (machine : String) (configuration : Configuration) :
    (workshopOf desk configuration).Supplied machine configuration :=
  ⟨rfl, nofun⟩

/-- The crash that a fault of an expansion is. -/
def Crash.ofFault : ExpansionFault → Crash
  | .registry error => .registry error
  | .interrupted (.misused misuse) => .misused misuse
  | .interrupted (.template fault) => .template fault

theorem outcome_expandSource {result : Except ExpansionFault SourceExpansion} {shop : Workshop}
    (ran : Work.outcome (expansionWork environment source) (workshopOf desk configuration) =
      (result, shop)) :
    outcome (expandSource environment source configuration) desk =
      (result.mapError Crash.ofFault, { desk with notes := desk.notes ++ shop.notes }) := by
  have run_eq := Work.run_eq_of_outcome ran
  rw [expansionWork] at run_eq
  rw [expandSource, outcome_get_bind]
  dsimp only
  rw [run_eq]
  obtain error | expansion := result
  · obtain error | misuse | fault := error
    · rfl
    · rfl
    · rfl
  · rfl

theorem exists_gives_expandSource {expansion : SourceExpansion} {shop : Workshop}
    (runs : Work.Runs (expansionWork environment source) (workshopOf desk configuration) expansion
      shop) :
    ∃ later, Gives (expandSource environment source configuration) desk expansion later ∧
      later.files = desk.files :=
  ⟨_, outcome_expandSource runs, rfl⟩

/-- What is done with a source once a configuration is built, or is not. -/
def expandBuilt (environment : Environment) (source : SourceText) :
    Attempt Configuration → Running (Attempt SourceExpansion)
  | .error reason => return .error reason
  | .ok configuration => do
    printWarnings configuration
    return .ok (← expandSource environment source configuration)

theorem exists_outcome_expandInput {file : String} {text : List Char}
    (readable : desk.files.readText (.ofText file) = .ok text) (generation : GenerationOptions) :
    ∃ read, read.files = desk.files ∧
      outcome (expandInput environment ⟨file, "", false⟩ generation) desk =
        outcome (buildConfiguration desk.files generation >>=
          expandBuilt environment ⟨(FilePath.ofText file).display, text⟩) read := by
  obtain ⟨read, front, kept⟩ := exists_gives_readInput environment readable
  refine ⟨read, kept, ?_⟩
  rw [expandInput, outcome_bind_ok front]
  dsimp only
  rw [outcome_get_bind, kept]
  rfl

/-- A configuration whose warnings can be shown is warned about, and the source is expanded. -/
theorem exists_gives_expandBuilt {warnings : List String} {expansion : SourceExpansion}
    {shop : Workshop} (warned : configuration.warnings = .ok warnings)
    (shown : ∀ warning ∈ warnings, IsShown (warningLine warning))
    (runs : Work.Runs (expansionWork environment source) (workshopOf desk configuration) expansion
      shop) :
    ∃ later, Gives (expandBuilt environment source (.ok configuration)) desk (.ok expansion) later ∧
      later.files = desk.files := by
  obtain ⟨told, printed, toldKept⟩ := exists_gives_printWarnings warned shown desk
  rw [workshopOf, ← toldKept] at runs
  obtain ⟨later, expanded, kept⟩ := exists_gives_expandSource runs
  exact ⟨later, gives_bind printed (gives_bind expanded rfl), kept.trans toldKept⟩

theorem outcome_withExpansion {input : InputOptions} {generation : GenerationOptions}
    {expansion : SourceExpansion} (next : SourceExpansion → Running Nat)
    (given : Gives (expandInput environment input generation) first (.ok expansion) middle) :
    outcome (withExpansion environment input generation next) first =
      outcome (if expansion.isSuccess then next expansion
        else printDiagnostics expansion >>= fun _ => pure 1) middle :=
  outcome_bind_ok given

end Expansions

/-! ## Commands -/

/-- The desk at which a command begins. -/
def startDesk (environment : Environment) : Desk :=
  ⟨environment.origin.files, [], [], [], []⟩

/-- A command that is given without options about the log. -/
theorem run_command (environment : Environment) (command : Command) :
    Invocation.run environment ⟨standardLevel, "", some command⟩ =
      ⟨(outcome (command.run environment) (startDesk environment)).1.map some,
        some ⟨LogLevel.warning.rank, none⟩,
        (outcome (command.run environment) (startDesk environment)).2⟩ := by
  have rank : LogLevel.rankNamed? standardLevel = some LogLevel.warning.rank := by decide +kernel
  have opened : (ExceptT.run (openLog ⟨standardLevel, "", some command⟩)).run
      ⟨environment.origin.files, [], [], [], []⟩ =
        (.ok ⟨LogLevel.warning.rank, none⟩, startDesk environment) := by
    change outcome (openLog ⟨standardLevel, "", some command⟩) (startDesk environment) = _
    rw [openLog, outcome_get_bind]
    dsimp only
    rw [rank]
    rfl
  rw [Invocation.run]
  dsimp only
  rw [opened]
  rfl

end PeerExpansion.CommandLine
