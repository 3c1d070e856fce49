import PeerExpansion.Proofs.CommandLine.Running
import PeerExpansion.Proofs.CommandLine.Words
import PeerExpansion.Proofs.Expansion.LineEnds

/-! # Files that are copied

A file without macros is written as it was read. Reading makes a line feed of every line end, so the
copy has the bytes of the file just where the file has no carriage return.
-/

namespace PeerExpansion.CommandLine

variable {environment : Environment} {file output : String} {bytes : List UInt8} {raw : List Char}
  {expansion : SourceExpansion} {desk : Desk}

/-! ## Writing -/

/-- The file is written, and then it is said so. -/
theorem outcome_writeFile {path : FilePath} {files : FileStore}
    (wrote : desk.files.writeText path (String.ofList expansion.source) = .ok files) :
    outcome (writeFile expansion path) desk =
      outcome (print .errors (writtenLine expansion.expandedCount path.display) >>=
        fun _ => pure true) { desk with files } := by
  unfold writtenLine
  rw [writeFile, outcome_get_bind]
  simp only [wrote]
  rw [outcome_modify_bind]

theorem outcome_finishExpand (expansion : SourceExpansion) {files : FileStore}
    (wrote : desk.files.writeText (.ofText output) (String.ofList expansion.source) = .ok files)
    (named : output.isEmpty = false) :
    (outcome (finishExpand output false expansion) desk).2.files = files ∧
      ((outcome (finishExpand output false expansion) desk).1 = .ok 0 ∨
        ¬IsShown (writtenLine expansion.expandedCount (FilePath.ofText output).display) ∧
          ∃ tag, (outcome (finishExpand output false expansion) desk).1 =
            .error (.markup tag)) := by
  have delivered : deliver expansion output = writeFile expansion (.ofText output) := by
    rw [deliver, named]
    rfl
  have written := outcome_writeFile wrote
  rw [← delivered] at written
  -- The file is written first, so it is there even where the line about it cannot be shown.
  by_cases shown : IsShown (writtenLine expansion.expandedCount (FilePath.ofText output).display)
  · obtain ⟨later, printed, kept⟩ := exists_gives_print shown .errors { desk with files }
    rw [outcome_bind_ok printed] at written
    rw [finishExpand, outcome_bind_ok written]
    exact ⟨kept, .inl rfl⟩
  · obtain ⟨tag, printed⟩ := exists_outcome_print shown .errors { desk with files }
    rw [outcome_bind_error printed] at written
    rw [finishExpand, outcome_bind_error written]
    exact ⟨rfl, .inr ⟨shown, tag, rfl⟩⟩

/-! ## Expansions without a configuration -/

/-- Nothing is said about the configuration. -/
def plainOptions : GenerationOptions :=
  ⟨none, none, none, none, false⟩

theorem gives_buildConfiguration_plain (files : FileStore) (desk : Desk) :
    Gives (buildConfiguration files plainOptions) desk (.ok {}) desk := by
  have loaded : Configuration.load files configuredMacro none plainOptions.overrides = .ok {} := rfl
  rw [Gives, buildConfiguration, show plainOptions.configFile = none from rfl, loaded]
  rfl

/-- Whatever has been done before, the source expands to something that fits. -/
def ExpandsTo (environment : Environment) (source : SourceText) (Fits : SourceExpansion → Prop) :
    Prop :=
  ∀ desk, ∃ expansion last, Work.Runs (expansionWork environment source) (workshopOf desk {})
    expansion last ∧ Fits expansion

/-- A readable file is expanded as it is read. -/
theorem exists_gives_expandInput_plain {text : List Char} {Fits : SourceExpansion → Prop}
    (readable : desk.files.readText (.ofText file) = .ok text)
    (expands : ExpandsTo environment ⟨(FilePath.ofText file).display, text⟩ Fits) :
    ∃ expansion later, Gives (expandInput environment ⟨file, "", false⟩ plainOptions) desk
      (.ok expansion) later ∧ later.files = desk.files ∧ Fits expansion := by
  obtain ⟨read, kept, ran⟩ := exists_outcome_expandInput readable plainOptions
  obtain ⟨expansion, shop, runs, fits⟩ := expands read
  have warned : ({} : Configuration).warnings = .ok [] := rfl
  obtain ⟨later, expanded, laterKept⟩ := exists_gives_expandBuilt warned nofun runs
  refine ⟨expansion, later, ran.trans ?_, laterKept.trans kept, fits⟩
  exact gives_bind (gives_buildConfiguration_plain desk.files read) expanded

section Sources

variable {source : SourceText}

/-- A text whose tokens cannot be read comes to nothing but a diagnostic. -/
theorem expandsTo_of_error {error : SyntaxError}
    (failed : TokenStream.scan source.text = .error error) :
    ExpandsTo environment source
      (· = ⟨source.text, source.text, source.name, [], [.ofSyntaxError error source.name]⟩) := by
  intro desk
  exact ⟨_, _, runs_expand_of_error failed source.name _, rfl⟩

/-- A text without macros comes to itself. -/
theorem expandsTo_of_hasNoMacro {stream : TokenStream}
    (scanned : TokenStream.scan source.text = .ok stream)
    (clean : stream.HasNoMacro (Registry.standard environment.machine)) :
    ExpandsTo environment source (· = ⟨source.text, source.text, source.name, [], []⟩) := by
  intro desk
  obtain ⟨last, runs⟩ := clean.exists_runs_expand scanned source.name (workshopOf desk {})
  exact ⟨_, last, runs, rfl⟩

/-- Whatever a text without carriage returns comes to has none. -/
theorem expandsTo_of_not_mem (plain : '\r' ∉ source.text) :
    ExpandsTo environment source fun expansion => '\r' ∉ expansion.source := by
  intro desk
  exact exists_runs_expand_plain plain source.name
    (supplied_workshopOf desk environment.machine {})

end Sources

theorem keepsFiles_printDiagnostics (expansion : SourceExpansion) :
    KeepsFiles (printDiagnostics expansion) := by
  unfold printDiagnostics
  refine keepsFiles_bind ?_ fun _ => keepsFiles_print .errors _
  induction expansion.diagnostics with
  | nil => exact keepsFiles_pure _
  | cons diagnostic others inductionHypothesis =>
    exact keepsFiles_bind (keepsFiles_print .errors _) fun _ => inductionHypothesis

/-- A file that can be written has a name. -/
theorem isEmpty_eq_false_of_isFree {files : FileStore} (free : files.IsFree (.ofText output)) :
    output.isEmpty = false := by
  rw [Bool.eq_false_iff]
  intro empty
  obtain rfl := String.isEmpty_iff.mp empty
  obtain ⟨place, found, free⟩ := free
  cases found
  exact free rfl

/-! ## The law -/

/-- The copy has been told about, or cannot be for a closing tag in the name it was written to. -/
def IsTold (output : String) (status : Except Crash (Option Nat)) : Prop :=
  status = .ok (some 0) ∨
    Markup.HasClosing (FilePath.ofText output).display.toList ∧ ∃ tag, status = .error (.markup tag)

/-- What comes of a file without macros that is to be expanded into another one. -/
structure CopyLaw (environment : Environment) (output : String) (bytes : List UInt8)
    (raw : List Char) (conclusion : Conclusion) : Prop where
  /-- A file without carriage returns is copied byte by byte. -/
  copied : '\r' ∉ raw → conclusion.desk.files.read (.ofText output) = .ok bytes ∧
    IsTold output conclusion.status
  /-- What is written is the text as it is read, if it has no macros either. -/
  rewritten : ∀ stream, TokenStream.scan (Text.plainLineEnds raw) = .ok stream →
    stream.HasNoMacro (Registry.standard environment.machine) →
      conclusion.desk.files.read (.ofText output) = .ok (Utf8.encode (Text.plainLineEnds raw)) ∧
        IsTold output conclusion.status
  /-- Nothing is written where a literal does not go on behind a line end. -/
  refused : ∀ error, TokenStream.scan (Text.plainLineEnds raw) = .error error →
    conclusion.desk.files = environment.origin.files ∧ conclusion.status ≠ .ok (some 0)
  /-- With a carriage return there is no exact copy. -/
  changed : '\r' ∈ raw → ¬(conclusion.status = .ok (some 0) ∧
    conclusion.desk.files.read (.ofText output) = .ok bytes)

/-- What comes of an expansion that is to be written: it is told about, or else its diagnostics
are. -/
structure Delivered (environment : Environment) (output : String) (expansion : SourceExpansion)
    (result : Except Crash Nat × Desk) : Prop where
  written : expansion.isSuccess = true →
    result.2.files.read (.ofText output) = .ok (Utf8.encode expansion.source) ∧
      IsTold output (result.1.map some)
  reported : ¬expansion.isSuccess = true →
    result.2.files = environment.origin.files ∧ result.1.map some ≠ .ok (some 0)

/-- The step that delivers an expansion, at a desk with the files as they were. -/
theorem delivered_of_files (free : environment.origin.files.IsFree (.ofText output))
    (expansion : SourceExpansion) (kept : desk.files = environment.origin.files) :
    Delivered environment output expansion (outcome
      (if expansion.isSuccess then finishExpand output false expansion
        else printDiagnostics expansion >>= fun _ => pure 1) desk) := by
  refine ⟨fun success => ?_, fun failure => ?_⟩
  · rw [if_pos success]
    obtain ⟨files, wrote⟩ := FileStore.exists_write free (Utf8.encode expansion.source)
    have written : desk.files.writeText (.ofText output) (String.ofList expansion.source) =
        .ok files := by
      rw [kept, FileStore.writeText, String.toList_ofList, wrote]
    obtain ⟨files_eq, told⟩ :=
      outcome_finishExpand expansion written (isEmpty_eq_false_of_isFree free)
    -- The file is written before it is told about, so it stands even if that cannot be shown.
    rw [← files_eq] at wrote
    refine ⟨FileStore.read_of_write wrote, ?_⟩
    obtain done | ⟨hidden, tag, crashed⟩ := told
    · exact .inl (congrArg (Except.map some) done)
    · refine .inr ⟨?_, tag, congrArg (Except.map some) crashed⟩
      by_contra noClosing
      exact hidden (isShown_writtenLine noClosing _)
  · rw [if_neg failure]
    have keeps : KeepsFiles (printDiagnostics expansion >>= fun _ => pure 1) :=
      keepsFiles_bind (keepsFiles_printDiagnostics expansion) fun _ => keepsFiles_pure 1
    refine ⟨(keeps desk).trans kept, fun done => ?_⟩
    obtain ⟨status, answered, same⟩ := exists_of_map_eq_ok done
    have one := eq_of_outcome_bind_pure answered
    rw [one] at same
    cases same

section Law

/-- What comes of the command that expands a file into another one. -/
def copyOutcome (environment : Environment) (file output : String) : Except Crash Nat × Desk :=
  outcome (Command.run environment (.expand ⟨file, "", false⟩ plainOptions output false))
    (startDesk environment)

variable (readable : environment.origin.files.read (.ofText file) = .ok bytes)
  (decoded : Utf8.decode bytes = .ok raw)
  (free : environment.origin.files.IsFree (.ofText output))
include readable decoded free

theorem exists_delivered {Fits : SourceExpansion → Prop}
    (expands : ExpandsTo environment ⟨(FilePath.ofText file).display, Text.plainLineEnds raw⟩
      Fits) :
    ∃ expansion, Delivered environment output expansion (copyOutcome environment file output) ∧
      Fits expansion := by
  have text : (startDesk environment).files.readText (.ofText file) =
      .ok (Text.plainLineEnds raw) := FileStore.readText_of_read readable decoded
  obtain ⟨expansion, later, given, kept, fits⟩ := exists_gives_expandInput_plain text expands
  have ran : copyOutcome environment file output = _ := outcome_withExpansion _ given
  rw [ran]
  exact ⟨expansion, delivered_of_files free expansion kept, fits⟩

/-- A text that is read without macros is written as it was read. -/
theorem rewritten_of_scan {stream : TokenStream}
    (scanned : TokenStream.scan (Text.plainLineEnds raw) = .ok stream)
    (clean : stream.HasNoMacro (Registry.standard environment.machine)) :
    (copyOutcome environment file output).2.files.read (.ofText output) =
        .ok (Utf8.encode (Text.plainLineEnds raw)) ∧
      IsTold output ((copyOutcome environment file output).1.map some) := by
  obtain ⟨_, delivered, rfl⟩ :=
    exists_delivered readable decoded free (expandsTo_of_hasNoMacro scanned clean)
  exact delivered.written rfl

/-- A text whose tokens cannot be read is reported. -/
theorem refused_of_scan {error : SyntaxError}
    (failed : TokenStream.scan (Text.plainLineEnds raw) = .error error) :
    (copyOutcome environment file output).2.files = environment.origin.files ∧
      (copyOutcome environment file output).1.map some ≠ .ok (some 0) := by
  obtain ⟨_, delivered, rfl⟩ :=
    exists_delivered readable decoded free (expandsTo_of_error failed)
  exact delivered.reported Bool.false_ne_true

/-- What is written has no carriage return, so it is not the text of the file if that has one. -/
theorem changed_of_mem (carriage : '\r' ∈ raw) :
    ¬((copyOutcome environment file output).1.map some = .ok (some 0) ∧
      (copyOutcome environment file output).2.files.read (.ofText output) = .ok bytes) := by
  rintro ⟨done, read⟩
  obtain ⟨expansion, delivered, plain⟩ := exists_delivered readable decoded free
    (expandsTo_of_not_mem (Text.not_mem_plainLineEnds raw))
  by_cases success : expansion.isSuccess = true
  · -- Equal bytes spell equal texts, but what is written has lost its carriage returns.
    have written := (delivered.written success).1
    have same : Utf8.encode expansion.source = Utf8.encode raw := by
      rw [Utf8.encode_of_decode decoded]
      exact Except.ok.inj (written.symm.trans read)
    rw [Utf8.encode_injective same] at plain
    exact plain carriage
  · exact (delivered.reported success).2 done

/-- A copy without macros has the bytes of its file if that has no carriage return, and only
then. -/
theorem copyLaw_of_read {stream : TokenStream} (file_undashed : IsUndashed file)
    (output_undashed : IsUndashed output) (scanned : TokenStream.scan raw = .ok stream)
    (clean : stream.HasNoMacro (Registry.standard environment.machine)) :
    ∃ conclusion, Concludes environment ["expand", file, "-o", output] conclusion ∧
      CopyLaw environment output bytes raw conclusion := by
  refine ⟨_, ⟨_, read_expand_output file_undashed output_undashed, run_command _ _⟩, ?_⟩
  refine ⟨fun plain => ?_, fun stream scanned clean => ?_, fun error failed => ?_,
    fun carriage => ?_⟩
  · have same := Text.plainLineEnds_eq_self plain
    have readScanned : TokenStream.scan (Text.plainLineEnds raw) = .ok stream := by
      rw [same, scanned]
    have copied := rewritten_of_scan readable decoded free readScanned clean
    rw [same, Utf8.encode_of_decode decoded] at copied
    exact copied
  · exact rewritten_of_scan readable decoded free scanned clean
  · exact refused_of_scan readable decoded free failed
  · exact changed_of_mem readable decoded free carriage

end Law

/-! ## Samples -/

/-- The file `a.swift` with a text, and nothing else. -/
def sampleEnvironment (text : String) : Environment :=
  ⟨⟨FileStore.empty.put ["a.swift"] (.file (Utf8.encode text.toList)),
    fun _ => .error (.connection "no connection")⟩, [], "linux"⟩

theorem read_sampleEnvironment (text : String) :
    (sampleEnvironment text).origin.files.read (.ofText "a.swift") =
      .ok (Utf8.encode text.toList) := rfl

theorem isFree_sampleEnvironment (text : String) :
    (sampleEnvironment text).origin.files.IsFree (.ofText "b.swift") :=
  ⟨["b.swift"], rfl, nofun⟩

/-- Whether there are tokens in the text, and no macro among them. -/
def isClean (text : List Char) : Bool :=
  (TokenStream.scan text).toOption.any fun stream =>
    decide (∀ place < stream.words.length,
      ((Attribute.read.run (.ofStream stream place)).toOption.all fun (attr, _) =>
        !(Registry.standard "linux").isSupported attr.name) = true)

theorem exists_scan_of_isClean {text : List Char} (evaluated : isClean text = true) :
    ∃ stream, TokenStream.scan text = .ok stream ∧
      stream.HasNoMacro (Registry.standard "linux") := by
  obtain ⟨stream, scanned, clean⟩ := exists_of_any evaluated
  exact ⟨stream, scanned, TokenStream.hasNoMacro_of_all (TokenStream.ordered_of_scan scanned).2
    (of_decide_eq_true clean)⟩

/-- An attribute that is not registered is left where it is. -/
def plainSample : String :=
  "// Nothing is cached here.\n@State var size: Int\n"

theorem copyLaw_plainSample : ∃ conclusion,
    Concludes (sampleEnvironment plainSample) ["expand", "a.swift", "-o", "b.swift"] conclusion ∧
      CopyLaw (sampleEnvironment plainSample) "b.swift" (Utf8.encode plainSample.toList)
        plainSample.toList conclusion ∧
      conclusion.status = .ok (some 0) ∧
      conclusion.desk.files.read (.ofText "b.swift") = .ok (Utf8.encode plainSample.toList) := by
  obtain ⟨stream, scanned, clean⟩ :=
    exists_scan_of_isClean (show isClean plainSample.toList = true by decide +kernel)
  obtain ⟨conclusion, concludes, law⟩ := copyLaw_of_read (read_sampleEnvironment plainSample)
    (Utf8.decode_encode _) (isFree_sampleEnvironment plainSample) (by decide) (by decide) scanned
    clean
  obtain ⟨copied, told⟩ := law.copied (by decide +kernel)
  have noClosing : ¬Markup.HasClosing (FilePath.ofText "b.swift").display.toList := by
    decide +kernel
  have done : conclusion.status = .ok (some 0) := told.resolve_right fun other => noClosing other.1
  exact ⟨conclusion, concludes, law, done, copied⟩

/-- A line that ends with a carriage return and a line feed. -/
def carriageSample : String :=
  "var a: Int\r\n"

/-- The program succeeds, and the carriage return is gone. -/
theorem carriageSample_is_changed : ∃ stream conclusion,
    (sampleEnvironment carriageSample).origin.files.read (.ofText "a.swift") =
        .ok (Utf8.encode carriageSample.toList) ∧
      Utf8.decode (Utf8.encode carriageSample.toList) = .ok carriageSample.toList ∧
      TokenStream.scan carriageSample.toList = .ok stream ∧
      stream.HasNoMacro (Registry.standard "linux") ∧
      Concludes (sampleEnvironment carriageSample) ["expand", "a.swift", "-o", "b.swift"]
        conclusion ∧
      conclusion.status = .ok (some 0) ∧
      conclusion.desk.files.read (.ofText "b.swift") = .ok (Utf8.encode "var a: Int\n".toList) ∧
      Utf8.encode "var a: Int\n".toList ≠ Utf8.encode carriageSample.toList := by
  obtain ⟨stream, scanned, clean⟩ :=
    exists_scan_of_isClean (show isClean carriageSample.toList = true by decide +kernel)
  have plain : Text.plainLineEnds carriageSample.toList = "var a: Int\n".toList := by decide +kernel
  obtain ⟨readStream, readScanned, readClean⟩ := exists_scan_of_isClean
    (show isClean (Text.plainLineEnds carriageSample.toList) = true by decide +kernel)
  obtain ⟨written, told⟩ := rewritten_of_scan (read_sampleEnvironment carriageSample)
    (Utf8.decode_encode _) (isFree_sampleEnvironment carriageSample) readScanned readClean
  have noClosing : ¬Markup.HasClosing (FilePath.ofText "b.swift").display.toList := by
    decide +kernel
  refine ⟨stream, _, read_sampleEnvironment carriageSample, Utf8.decode_encode _, scanned, clean,
    ⟨_, read_expand_output (by decide) (by decide), run_command _ _⟩,
    told.resolve_right fun other => noClosing other.1, ?_, by decide +kernel⟩
  rw [← plain]
  exact written

end PeerExpansion.CommandLine
