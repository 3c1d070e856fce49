import PeerExpansion.Proofs.CommandLine.Running
import PeerExpansion.Proofs.CommandLine.Words
import PeerExpansion.Proofs.Expansion.Interrupted

/-! # Crashes over a configuration

A command answers for most that can be wrong with a configuration. It does not for settings of the
wrong sort: those of the custom settings when the configuration is built, those that a review looks
at, and those that the expansion looks at when it comes to a declaration that it finds right.
-/

namespace PeerExpansion.CommandLine

/-! ## Steps that end -/

/-- At this desk, nothing but the markup of a message keeps the step from an answer of this kind. -/
def EndsAt {α : Type} (Fits : α → Prop) (work : Running α) (desk : Desk) : Prop :=
  (∃ value, (outcome work desk).1 = .ok value ∧ Fits value) ∨
    ∃ tag, (outcome work desk).1 = .error (.markup tag)

def EndsIn {α : Type} (Fits : α → Prop) (work : Running α) : Prop :=
  ∀ desk, EndsAt Fits work desk

section Ends

variable {α β : Type} {Fits : β → Prop}

theorem endsIn_pure {value : β} (fits : Fits value) : EndsIn Fits (pure value) :=
  fun _ => .inl ⟨value, rfl, fits⟩

theorem endsAt_bind {work : Running α} {next : α → Running β} {desk : Desk}
    (front : EndsAt (fun _ => True) work desk) (back : ∀ given, EndsIn Fits (next given)) :
    EndsAt Fits (work >>= next) desk := by
  obtain ⟨value, answered, -⟩ | ⟨tag, crashed⟩ := front
  · rw [EndsAt, outcome_bind_ok (Prod.ext answered rfl)]
    exact back value _
  · rw [EndsAt, outcome_bind_error (Prod.ext crashed rfl)]
    exact .inr ⟨tag, rfl⟩

theorem endsIn_bind {work : Running α} {next : α → Running β}
    (front : EndsIn (fun _ => True) work) (back : ∀ given, EndsIn Fits (next given)) :
    EndsIn Fits (work >>= next) :=
  fun desk => endsAt_bind (front desk) back

theorem endsIn_print (stream : Stream) (message : String) :
    EndsIn (fun _ => True) (print stream message) := by
  intro desk
  by_cases shown : IsShown message
  · obtain ⟨later, printed, -⟩ := exists_gives_print shown stream desk
    exact .inl ⟨(), congrArg Prod.fst printed, trivial⟩
  · exact .inr (exists_crashes_print shown stream desk)

theorem endsIn_forM_print (stream : Stream) (messages : List String) :
    EndsIn (fun _ => True) (messages.forM (print stream)) := by
  induction messages with
  | nil => exact endsIn_pure trivial
  | cons message others inductionHypothesis =>
    exact endsIn_bind (endsIn_print stream message) fun _ => inductionHypothesis

theorem endsIn_write (stream : Stream) (text : List Char) :
    EndsIn (fun _ => True) (write stream text) :=
  fun _ => .inl ⟨(), rfl, trivial⟩

end Ends

/-- The exit statuses of a command. -/
def IsStatus (status : Nat) : Prop :=
  status = 0 ∨ status = 1

theorem endsIn_finishExpand (expansion : SourceExpansion) :
    EndsIn IsStatus (finishExpand "" false expansion) := by
  refine endsIn_bind ?_ fun delivered => ?_
  · exact endsIn_bind (endsIn_write .output _) fun _ => endsIn_pure trivial
  · cases delivered with
    | true => exact endsIn_pure (.inl rfl)
    | false => exact endsIn_pure (.inr rfl)

theorem endsIn_finishCheck (expansion : SourceExpansion) :
    EndsIn IsStatus (finishCheck expansion) :=
  endsIn_bind (endsIn_print .output _) fun _ => endsIn_pure (.inl rfl)

theorem endsIn_printDiagnostics (expansion : SourceExpansion) :
    EndsIn (fun _ => True) (printDiagnostics expansion) := by
  have lines : (expansion.diagnostics.forM fun diagnostic =>
      print .errors (diagnosticLine diagnostic)) =
        (expansion.diagnostics.map diagnosticLine).forM (print .errors) := List.forM_map.symm
  rw [printDiagnostics, lines]
  exact endsIn_bind (endsIn_forM_print .errors _) fun _ => endsIn_print .errors _

/-- What keeps a command from its exit status, in view of what came of the configuration. -/
inductive IsMisled (machine : String) (text : List Char) :
    Except ConfigurationError Configuration → Prop
  /-- The custom settings hold a sequence of the wrong length. -/
  | unmerged {fault : CollectionFault} :
      fault.misuse = .malformed → IsMisled machine text (.error (.custom fault))
  | unreviewable {configuration : Configuration} :
      ¬configuration.IsReviewable → IsMisled machine text (.ok configuration)
  /-- The warnings have been told, and then the search comes to a declaration that needs a setting
  of the wrong sort. -/
  | interrupted {configuration : Configuration} {warnings : List String}
      {declaration : Declaration} : configuration.warnings = .ok warnings →
        (∀ warning ∈ warnings, IsShown (warningLine warning)) →
          Meets (Registry.standard machine) text declaration →
            Misuses machine configuration declaration → IsMisled machine text (.ok configuration)

/-! ## Expansions -/

section Expansions

variable {environment : Environment} {source : SourceText} {configuration : Configuration}
  {suffix : String} {desk : Desk}

theorem exists_crashes_expandSource {declaration : Declaration}
    (suffix_eq : configuration.suffix = .text suffix)
    (meets : Meets (Registry.standard environment.machine) source.text declaration)
    (misuses : Misuses environment.machine configuration declaration) (desk : Desk) :
    ∃ misuse, Crashes (expandSource environment source configuration) desk (.misused misuse) := by
  obtain ⟨stops, -⟩ := settles_expand suffix_eq source.text _
    (supplied_workshopOf desk environment.machine configuration)
  obtain ⟨misuse, later, ran⟩ := stops ⟨declaration, meets, misuses⟩
  refine ⟨misuse, ?_⟩
  rw [Crashes, outcome_expandSource ran]
  rfl

theorem endsIn_expandSource (suffix_eq : configuration.suffix = .text suffix)
    (servable : ¬∃ declaration,
      Meets (Registry.standard environment.machine) source.text declaration ∧
        Misuses environment.machine configuration declaration) :
    EndsIn (fun _ => True) (expandSource environment source configuration) := by
  intro desk
  obtain ⟨-, goesOn⟩ := settles_expand suffix_eq source.text _
    (supplied_workshopOf desk environment.machine configuration)
  obtain ⟨expansion, shop, runs, -⟩ := goesOn servable
  obtain ⟨later, expanded, -⟩ := exists_gives_expandSource runs
  exact .inl ⟨expansion, congrArg Prod.fst expanded, trivial⟩

end Expansions

/-! ## Configurations -/

section Loaded

variable {environment : Environment} {source : SourceText} {files : FileStore}
  {generation : GenerationOptions} {configuration : Configuration}

theorem gives_buildConfiguration
    (loaded : Configuration.load files configuredMacro generation.configFile generation.overrides =
      .ok configuration) (desk : Desk) :
    Gives (buildConfiguration files generation) desk (.ok configuration) desk := by
  rw [Gives, buildConfiguration, loaded]
  rfl

theorem crashes_buildConfiguration_of_undecodable {error : Utf8.DecodeError}
    (loaded : Configuration.load files configuredMacro generation.configFile generation.overrides =
      .error (.undecodable error)) (desk : Desk) :
    Crashes (buildConfiguration files generation) desk (.undecodable error) := by
  rw [Crashes, buildConfiguration, loaded]
  rfl

theorem crashes_buildConfiguration_of_malformed {fault : CollectionFault}
    (loaded : Configuration.load files configuredMacro generation.configFile generation.overrides =
      .error (.custom fault)) (malformed : fault.misuse = .malformed) (desk : Desk) :
    Crashes (buildConfiguration files generation) desk (.misused .malformed) := by
  rw [Crashes, buildConfiguration, loaded]
  dsimp only
  rw [malformed]
  rfl

/-- All other errors are answered for. -/
theorem exists_gives_buildConfiguration {error : ConfigurationError}
    (loaded : Configuration.load files configuredMacro generation.configFile generation.overrides =
      .error error) (decodable : ∀ reason, error ≠ .undecodable reason)
    (merged : ∀ fault, error = .custom fault → fault.misuse ≠ .malformed) :
    ∃ reason, ∀ desk, Gives (buildConfiguration files generation) desk (.error reason) desk := by
  refine ⟨"Configuration error: " ++ error.message, fun desk => ?_⟩
  rw [Gives, buildConfiguration, loaded]
  cases error with
  | undecodable reason => exact absurd rfl (decodable reason)
  | custom fault =>
    dsimp only
    split
    next malformed => exact absurd malformed (merged fault rfl)
    next => rfl
  | _ => rfl

variable {loaded : Except ConfigurationError Configuration}
  (loaded_eq : Configuration.load files configuredMacro generation.configFile
    generation.overrides = loaded)
include loaded_eq

theorem exists_crashes_of_isMisled (misled : IsMisled environment.machine source.text loaded)
    (desk : Desk) :
    ∃ misuse, Crashes (buildConfiguration files generation >>= expandBuilt environment source) desk
      (.misused misuse) := by
  -- What comes before the step that stops goes through.
  cases misled with
  | unmerged malformed =>
    exact ⟨_, crashes_bind (crashes_buildConfiguration_of_malformed loaded_eq malformed desk)⟩
  | @unreviewable configuration unreviewable =>
    cases warned : configuration.warnings with
    | ok warnings =>
      exact absurd (Configuration.exists_warnings_iff.mp ⟨warnings, warned⟩) unreviewable
    | error misuse =>
      have stopped : Crashes (printWarnings configuration) desk (.misused misuse) := by
        rw [Crashes, printWarnings, warned]
        rfl
      exact ⟨misuse, crashes_bind_behind (gives_buildConfiguration loaded_eq desk)
        (crashes_bind stopped)⟩
  | interrupted warned shown meets misuses =>
    obtain ⟨⟨suffix, suffix_eq⟩, -, -⟩ := Configuration.exists_warnings_iff.mp ⟨_, warned⟩
    obtain ⟨told, printed, -⟩ := exists_gives_printWarnings warned shown desk
    obtain ⟨misuse, stopped⟩ := exists_crashes_expandSource suffix_eq meets misuses told
    exact ⟨misuse, crashes_bind_behind (gives_buildConfiguration loaded_eq desk)
      (crashes_bind_behind printed (crashes_bind stopped))⟩

theorem endsIn_of_not_isMisled (led : ¬IsMisled environment.machine source.text loaded)
    (decodable : ∀ error, loaded ≠ .error (.undecodable error)) :
    EndsIn (fun _ => True)
      (buildConfiguration files generation >>= expandBuilt environment source) := by
  cases loaded with
  | error error =>
    obtain ⟨reason, built⟩ := exists_gives_buildConfiguration loaded_eq
      (fun reason same => decodable reason (congrArg Except.error same))
      fun fault same malformed => led (same ▸ .unmerged malformed)
    intro desk
    have given : Gives (buildConfiguration files generation >>= expandBuilt environment source) desk
        (.error reason) desk := gives_bind (built desk) rfl
    exact .inl ⟨.error reason, congrArg Prod.fst given, trivial⟩
  | ok configuration =>
    have reviewable : configuration.IsReviewable := by
      by_contra unreviewable
      exact led (.unreviewable unreviewable)
    obtain ⟨warnings, warned⟩ := Configuration.exists_warnings_iff.mpr reviewable
    obtain ⟨⟨suffix, suffix_eq⟩, -, -⟩ := reviewable
    intro desk
    rw [EndsAt, outcome_bind_ok (gives_buildConfiguration loaded_eq desk)]
    -- The warnings come first: one that cannot be shown ends the command before the expansion.
    by_cases shown : ∀ warning ∈ warnings, IsShown (warningLine warning)
    · have servable : ¬∃ declaration,
          Meets (Registry.standard environment.machine) source.text declaration ∧
            Misuses environment.machine configuration declaration :=
        fun ⟨_, meets, misuses⟩ => led (.interrupted warned shown meets misuses)
      have told : EndsIn (fun _ => True) (printWarnings configuration) := by
        rw [printWarnings_eq warned]
        exact endsIn_forM_print .errors _
      refine endsIn_bind told (fun _ => ?_) desk
      exact endsIn_bind (endsIn_expandSource suffix_eq servable) fun _ => endsIn_pure trivial
    · simp only [not_forall] at shown
      obtain ⟨warning, member, hidden⟩ := shown
      obtain ⟨tag, stopped⟩ : ∃ tag, Crashes (printWarnings configuration) desk (.markup tag) := by
        rw [printWarnings_eq warned]
        exact exists_crashes_forM_print (List.mem_map_of_mem member) hidden desk
      exact .inr ⟨tag, crashes_bind stopped⟩

end Loaded

/-! ## Commands -/

/-- A configuration file is named, and no other option is given. -/
def configured (config : String) : GenerationOptions :=
  ⟨some config, none, none, none, false⟩

/-- What an invocation with a configuration file ends in, where the source is `text`. -/
structure CrashLaw (environment : Environment) (text : List Char) (config : String)
    (status : Except Crash (Option Nat)) : Prop where
  misled : IsMisled environment.machine text
      (Configuration.load environment.origin.files configuredMacro (some config) []) →
    ∃ misuse, status = .error (.misused misuse)
  undecodable : ∀ error,
    Configuration.load environment.origin.files configuredMacro (some config) [] =
        .error (.undecodable error) →
      status = .error (.undecodable error)
  /-- Otherwise there is an exit status, if all that is told can be shown. -/
  ends : ¬IsMisled environment.machine text
      (Configuration.load environment.origin.files configuredMacro (some config) []) →
    (∀ error, Configuration.load environment.origin.files configuredMacro (some config) [] ≠
      .error (.undecodable error)) →
    status = .ok (some 0) ∨ status = .ok (some 1) ∨ ∃ tag, status = .error (.markup tag)

section Commands

variable {environment : Environment} {file config : String} {text : List Char} {desk : Desk}
  {next : SourceExpansion → Running Nat}

theorem endsAt_withExpansion {input : InputOptions} {generation : GenerationOptions}
    (expanded : EndsAt (fun _ => True) (expandInput environment input generation) desk)
    (ends : ∀ expansion, EndsIn IsStatus (next expansion)) :
    EndsAt IsStatus (withExpansion environment input generation next) desk := by
  refine endsAt_bind expanded fun attempt => ?_
  cases attempt with
  | error reason => exact endsIn_bind (endsIn_print .errors _) fun _ => endsIn_pure (.inr rfl)
  | ok expansion =>
    dsimp only
    split
    · exact ends expansion
    · exact endsIn_bind (endsIn_printDiagnostics expansion) fun _ => endsIn_pure (.inr rfl)

theorem crashLaw_withExpansion
    (readable : environment.origin.files.readText (.ofText file) = .ok text)
    (ends : ∀ expansion, EndsIn IsStatus (next expansion)) :
    CrashLaw environment text config ((outcome (withExpansion environment ⟨file, "", false⟩
      (configured config) next) (startDesk environment)).1.map some) := by
  let source : SourceText := ⟨(FilePath.ofText file).display, text⟩
  have started : (startDesk environment).files.readText (.ofText file) = .ok text := readable
  obtain ⟨read, -, ran⟩ : ∃ read, read.files = (startDesk environment).files ∧
      outcome (expandInput environment ⟨file, "", false⟩ (configured config))
          (startDesk environment) =
        outcome (buildConfiguration environment.origin.files (configured config) >>=
          expandBuilt environment source) read :=
    exists_outcome_expandInput started (configured config)
  -- What stops the steps behind the reading of the file stops the command.
  have stops {crash : Crash} (crashed : Crashes
      (buildConfiguration environment.origin.files (configured config) >>=
        expandBuilt environment source) read crash) :
      (outcome (withExpansion environment ⟨file, "", false⟩ (configured config) next)
        (startDesk environment)).1.map some = .error crash := by
    rw [Crashes, ← ran] at crashed
    rw [withExpansion, crashes_bind crashed]
    rfl
  refine ⟨fun misled => ?_, fun error failed => ?_, fun led decodable => ?_⟩
  · have misled : IsMisled environment.machine source.text (Configuration.load
        environment.origin.files configuredMacro (configured config).configFile
          (configured config).overrides) := misled
    obtain ⟨misuse, crashed⟩ := exists_crashes_of_isMisled rfl misled read
    exact ⟨misuse, stops crashed⟩
  · exact stops (crashes_bind (crashes_buildConfiguration_of_undecodable failed read))
  · have led : ¬IsMisled environment.machine source.text (Configuration.load
        environment.origin.files configuredMacro (configured config).configFile
          (configured config).overrides) := led
    have expanded := endsIn_of_not_isMisled rfl led decodable read
    rw [EndsAt, ← ran] at expanded
    obtain ⟨status, answered, rfl | rfl⟩ | ⟨tag, crashed⟩ := endsAt_withExpansion expanded ends
    · exact .inl (congrArg (Except.map some) answered)
    · exact .inr (.inl (congrArg (Except.map some) answered))
    · exact .inr (.inr ⟨tag, congrArg (Except.map some) crashed⟩)

end Commands

/-! ## Samples -/

/-- Settings of the right sorts keep no command from its exit status. -/
theorem not_isMisled_of_wellTyped {configuration : Configuration} (typed : configuration.WellTyped)
    (machine : String) (text : List Char) : ¬IsMisled machine text (.ok configuration) := by
  intro misled
  cases misled with
  | unreviewable unreviewable =>
    obtain ⟨suffix, suffix_eq, -⟩ := typed.suffix
    obtain ⟨size, size_eq, -, -⟩ := typed.indentSize
    exact unreviewable ⟨⟨suffix, suffix_eq⟩, fun _ => typed.persistenceMarker, .inl ⟨size, size_eq⟩⟩
  | interrupted _ _ _ misuses => exact not_misuses_of_wellTyped machine typed _ misuses

def macroSample : List Char :=
  "@ImageCache var fooData: Data?\n".toList

/-- A source with one macro, and a configuration file. -/
def configuredEnvironment (config : String) : Environment :=
  ⟨⟨(FileStore.empty.put ["settings.json"] (.file (Utf8.encode config.toList))).put ["a.swift"]
      (.file (Utf8.encode macroSample)),
    fun _ => .error (.connection "no connection")⟩, [], "linux"⟩

theorem readText_configuredEnvironment (config : String) :
    (configuredEnvironment config).origin.files.readText (.ofText "a.swift") = .ok macroSample := by
  have read : (configuredEnvironment config).origin.files.read (.ofText "a.swift") =
      .ok (Utf8.encode macroSample) := rfl
  have plain : '\r' ∉ macroSample := by decide +kernel
  rw [FileStore.readText_of_read read (Utf8.decode_encode _), Text.plainLineEnds_eq_self plain]

/-- A configuration for phones. -/
def phoneText : String :=
  "\x7b\"target_platform\": \"ios\"\x7d"

/-- Whether a command stops over a setting of the wrong sort. -/
def stops (config : String) (command : Command) : Bool :=
  match (outcome (command.run (configuredEnvironment config))
    (startDesk (configuredEnvironment config))).1 with
  | .error (.misused _) => true
  | _ => false

theorem exists_misuse_of_stops {config : String} {command : Command}
    (evaluated : stops config command = true) : ∃ misuse,
      (Invocation.run (configuredEnvironment config) ⟨standardLevel, "", some command⟩).status =
        .error (.misused misuse) := by
  rw [run_command]
  unfold stops at evaluated
  split at evaluated
  next misuse crashed => exact ⟨misuse, congrArg (Except.map some) crashed⟩
  next => cases evaluated

/-- A suffix, an indentation and a target of the wrong sort, and custom settings without a value. -/
def wrongSamples : List String :=
  ["\x7b\"suffix\": 5\x7d", "\x7b\"indent_size\": \"4\"\x7d", "\x7b\"target_platform\": 5\x7d",
    "\x7b\"custom\": [[\"a\"]], \"x\": 1\x7d"]

end PeerExpansion.CommandLine
