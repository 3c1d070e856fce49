import Mathlib.Data.List.Flatten
import PeerExpansion.Proofs.CommandLine.Copying

/-! # Diagnostics that are printed

The line of a diagnostic is printed with markup, and the name of its source and its message are a
part of that. What is read as markup in them is lost, so the line is printed as it is just where
there is none. A closing tag in one of them can end the program.
-/

namespace PeerExpansion.Console

/-! ## Lines that are as long as they are -/

variable {text line : List Char} {character : Char}

/-- A console writes the character as it is. -/
def IsSteady (character : Char) : Prop :=
  character ≠ '\t' ∧ isHidden character = false

instance (character : Char) : Decidable (IsSteady character) :=
  inferInstanceAs (Decidable (_ ∧ _))

theorem isSteady_of_all (steady : (text.all fun character => decide (IsSteady character)) = true) :
    ∀ character ∈ text, IsSteady character := by
  simpa using steady

theorem isSteady_of_isDigit (digit : character.isDigit = true) : IsSteady character := by
  have low : 48 ≤ character.toNat := by
    simp only [Char.isDigit, Bool.and_eq_true, decide_eq_true_eq] at digit
    exact UInt32.le_iff_toNat_le.mp digit.1
  refine ⟨?_, ?_⟩
  · rintro rfl
    exact absurd digit (by decide)
  · simp only [isHidden, List.contains_eq_mem, List.mem_cons, List.not_mem_nil, or_false,
      decide_eq_false_iff_not]
    omega

/-- What is written for a text. -/
def printed (text : List Char) : List Char :=
  (unbroken text).flatMap (· ++ ['\n'])

theorem withoutTabs_eq_self (clean : '\t' ∉ line) (column : Nat) :
    withoutTabs column line = line := by
  induction line generalizing column with
  | nil => rfl
  | cons character rest inductionHypothesis =>
    rw [List.mem_cons, not_or] at clean
    unfold withoutTabs
    split
    next empty => cases empty
    next same => exact absurd (List.cons.inj same).1.symm clean.1
    next same =>
      obtain ⟨rfl, rfl⟩ := List.cons.inj same
      rw [inductionHypothesis clean.2]

theorem isSteady_of_mem_withoutTabs {column : Nat}
    (showing : ∀ character ∈ line, isHidden character = false)
    (member : character ∈ withoutTabs column line) : IsSteady character := by
  induction line generalizing column with
  | nil => cases member
  | cons other rest inductionHypothesis =>
    obtain ⟨here, there⟩ := List.forall_mem_cons.mp showing
    unfold withoutTabs at member
    split at member
    next empty => cases empty
    next same =>
      obtain ⟨-, rfl⟩ := List.cons.inj same
      obtain space | behind := List.mem_append.mp member
      · obtain rfl := List.eq_of_mem_replicate space
        decide
      · exact inductionHypothesis there behind
    next noTab same =>
      obtain ⟨rfl, rfl⟩ := List.cons.inj same
      obtain rfl | behind := List.mem_cons.mp member
      · exact ⟨noTab, here⟩
      · exact inductionHypothesis there behind

/-- Without tabs only the characters that are hidden are missing. -/
theorem printed_of_not_mem (clean : '\t' ∉ text) :
    printed text = text.filter (!isHidden ·) ++ ['\n'] := by
  have kept : '\t' ∉ text.filter (!isHidden ·) := mt List.mem_of_mem_filter clean
  have lines_eq : unbroken text = Text.lines (text.filter (!isHidden ·)) := by
    unfold unbroken
    refine (List.map_congr_left fun line member => ?_).trans (List.map_id _)
    exact withoutTabs_eq_self (Text.not_mem_of_mem_lines kept line member) 0
  have filled : Text.lines (text.filter (!isHidden ·)) ≠ [] := Text.splitAt_ne_nil _ _
  rw [printed, lines_eq, Text.flatMap_feed filled, Text.unlines_lines]

theorem isSteady_of_mem_printed (member : character ∈ printed text) : IsSteady character := by
  obtain ⟨row, drawn, inside⟩ := List.mem_flatMap.mp member
  obtain ⟨line, cut, rfl⟩ := List.mem_map.mp drawn
  obtain inLine | feed := List.mem_append.mp inside
  · refine isSteady_of_mem_withoutTabs (fun character inside => ?_) inLine
    have kept : character ∈ text.filter (!isHidden ·) := by
      by_contra absent
      exact Text.not_mem_of_mem_lines absent line cut inside
    simpa using (List.mem_filter.mp kept).2
  · obtain rfl := List.mem_singleton.mp feed
    decide

theorem printed_of_isSteady (steady : ∀ character ∈ text, IsSteady character) :
    printed text = text ++ ['\n'] := by
  have kept : text.filter (!isHidden ·) = text :=
    List.filter_eq_self.mpr fun character member => by rw [(steady character member).2]; rfl
  rw [printed_of_not_mem fun tab => (steady _ tab).1 rfl, kept]

end PeerExpansion.Console

namespace PeerExpansion.CommandLine

open Markup Console

variable {diagnostic : Diagnostic} {diagnostics : List Diagnostic} {character : Char} {desk : Desk}
  {message : String}

/-! ## The line of a diagnostic -/

/-- The line and the column between colons, with a colon behind the name of the source. -/
def placeOf (diagnostic : Diagnostic) : List Char :=
  ":".toList ++ ((toString diagnostic.line).toList ++ (":".toList ++
    ((toString diagnostic.column).toList ++ ":".toList)))

theorem eq_colon_or_isDigit_of_mem_placeOf (member : character ∈ placeOf diagnostic) :
    character = ':' ∨ character.isDigit = true := by
  simp only [placeOf, List.mem_append] at member
  obtain colon | digit | colon | digit | colon := member
  · exact .inl (List.mem_singleton.mp colon)
  · exact .inr (isDigit_of_mem_toString digit)
  · exact .inl (List.mem_singleton.mp colon)
  · exact .inr (isDigit_of_mem_toString digit)
  · exact .inl (List.mem_singleton.mp colon)

theorem plain_placeOf : ∀ character ∈ placeOf diagnostic,
    character ≠ '[' ∧ character ≠ '\\' := by
  intro character member
  obtain rfl | digit := eq_colon_or_isDigit_of_mem_placeOf member
  · decide
  · constructor <;> rintro rfl <;> exact absurd digit (by decide)

theorem shut_placeOf {back : List Char} (shut : Shut back) :
    Shut (placeOf diagnostic ++ back) := by
  refine shut_append (fun character member => ?_) shut
  obtain rfl | digit := eq_colon_or_isDigit_of_mem_placeOf member
  · decide
  · rintro rfl
    exact absurd digit (by decide)

/-- What the console shows of the line. -/
def reported (diagnostic : Diagnostic) : List Char :=
  visible diagnostic.sourceName.toList ++ (placeOf diagnostic ++ (" error: ".toList ++
    visible diagnostic.message.toList))

theorem toList_text (diagnostic : Diagnostic) :
    diagnostic.text.toList = diagnostic.sourceName.toList ++ (placeOf diagnostic ++
      (" error: ".toList ++ diagnostic.message.toList)) := by
  have goesOn : ": error: " = ":" ++ " error: " := rfl
  simp only [Diagnostic.text, placeOf, goesOn, String.toList_append, List.append_assoc]

theorem toList_diagnosticLine (diagnostic : Diagnostic) :
    (diagnosticLine diagnostic).toList = "[bold]".toList ++ (diagnostic.sourceName.toList ++
      (placeOf diagnostic ++ ("[/bold]".toList ++ (" ".toList ++ ("[red]".toList ++
        ("error:".toList ++ ("[/red]".toList ++ (" ".toList ++
          diagnostic.message.toList)))))))) := by
  have goesOn : ":[/bold] [red]error:[/red] " =
    ":" ++ ("[/bold]" ++ (" " ++ ("[red]" ++ ("error:" ++ ("[/red]" ++ " "))))) := rfl
  unfold diagnosticLine placeOf
  simp only [goesOn, String.toList_append, List.append_assoc]

theorem visible_diagnosticLine (diagnostic : Diagnostic) :
    visible (diagnosticLine diagnostic).toList = reported diagnostic := by
  have name_apart (back : List Char) (shut : Shut back) :
      visible (diagnostic.sourceName.toList ++ (placeOf diagnostic ++ back)) =
        visible diagnostic.sourceName.toList ++ (placeOf diagnostic ++ visible back) := by
    rw [← visible_append_plain back plain_placeOf]
    exact visibleFrom_append (by decide) (by decide) (shut_placeOf shut)
  have shut {back : List Char} : Shut ("[/bold]".toList ++ back) := shut_bracket
  rw [toList_diagnosticLine, visible_append_tag fun _ => rfl, name_apart _ shut,
    visible_append_tag fun _ => rfl, visible_append_plain _ (by simp),
    visible_append_tag fun _ => rfl, visible_append_plain _ (by simp),
    visible_append_tag fun _ => rfl, visible_append_plain _ (by simp)]
  rfl

theorem isShown_diagnosticLine (noClosing : ¬ClosesTag diagnostic.sourceName.toList)
    (noClosingToo : ¬ClosesTag diagnostic.message.toList) :
    IsShown (diagnosticLine diagnostic) := by
  change Shows [] 0 (diagnosticLine diagnostic).toList
  rw [toList_diagnosticLine]
  refine shows_openingTag "bold".toList (fun _ => rfl) rfl ?_
  refine shows_append noClosing (shut_placeOf shut_bracket) fun more slashes => ?_
  refine shows_plain (by decide) (by decide) (shows_append_plain ?_ ?_)
  · exact fun character member => plain_placeOf character (List.mem_cons_of_mem _ member)
  refine shows_closingTag "bold".toList (fun _ => rfl) rfl (by decide)
    (List.mem_append_right more (List.mem_singleton_self _)) fun opened => ?_
  refine shows_append_plain (by simp) ?_
  refine shows_openingTag "red".toList (fun _ => rfl) rfl ?_
  refine shows_append_plain (by simp) ?_
  refine shows_closingTag "red".toList (fun _ => rfl) rfl (by decide) List.mem_cons_self
    fun opened => ?_
  refine shows_append_plain (by simp) ?_
  rw [← List.append_nil diagnostic.message.toList]
  exact shows_append noClosingToo shut_nil fun _ _ => shows_nil

/-! ## Lines as they are -/

/-- The text is printed as it is. -/
def IsVerbatim (text : List Char) : Prop :=
  IsPlain text ∧ ∀ character ∈ text, IsSteady character

theorem reported_sublist (diagnostic : Diagnostic) :
    (reported diagnostic).Sublist diagnostic.text.toList := by
  rw [toList_text]
  exact (visible_sublist _).append ((List.Sublist.refl _).append
    ((List.Sublist.refl _).append (visible_sublist _)))

theorem reported_eq_iff : reported diagnostic = diagnostic.text.toList ↔
    IsPlain diagnostic.sourceName.toList ∧ IsPlain diagnostic.message.toList := by
  rw [← visible_eq_iff, ← visible_eq_iff, toList_text]
  constructor
  · intro same
    -- Neither part gets longer, so neither gets shorter.
    have lengths := congrArg List.length same
    have name := visible_sublist diagnostic.sourceName.toList
    have message := visible_sublist diagnostic.message.toList
    have name_le := name.length_le
    have message_le := message.length_le
    simp only [reported, List.length_append] at lengths
    exact ⟨name.eq_of_length (by omega), message.eq_of_length (by omega)⟩
  · rintro ⟨name_eq, message_eq⟩
    rw [reported, name_eq, message_eq]

theorem isSteady_text_iff : (∀ character ∈ diagnostic.text.toList, IsSteady character) ↔
    (∀ character ∈ diagnostic.sourceName.toList, IsSteady character) ∧
      ∀ character ∈ diagnostic.message.toList, IsSteady character := by
  have place : ∀ character ∈ placeOf diagnostic, IsSteady character := by
    intro character member
    obtain rfl | digit := eq_colon_or_isDigit_of_mem_placeOf member
    · decide
    · exact isSteady_of_isDigit digit
  have error : ∀ character ∈ " error: ".toList, IsSteady character :=
    isSteady_of_all (by decide)
  rw [toList_text, List.forall_mem_append, List.forall_mem_append, List.forall_mem_append]
  exact ⟨fun ⟨name, _, _, message⟩ => ⟨name, message⟩,
    fun ⟨name, message⟩ => ⟨name, place, error, message⟩⟩

/-- What is printed for diagnostics. -/
def reportOf (diagnostics : List Diagnostic) : List Char :=
  diagnostics.flatMap fun diagnostic => printed (reported diagnostic)

/-- The texts of diagnostics, each on a line. -/
def linesOf (diagnostics : List Diagnostic) : List Char :=
  diagnostics.flatMap fun diagnostic => diagnostic.text.toList ++ ['\n']

/-- Parts that are each taken from a part of a text make up the text only if they are all of it. -/
theorem eq_of_flatMap_eq {α β : Type} {items : List α} {taken given : α → List β}
    (parts : ∀ item ∈ items, (taken item).Sublist (given item))
    (same : items.flatMap taken = items.flatMap given) :
    ∀ item ∈ items, taken item = given item := by
  induction items with
  | nil => exact nofun
  | cons item items inductionHypothesis =>
    obtain ⟨here, there⟩ := List.forall_mem_cons.mp parts
    have lengths := congrArg List.length same
    have first_le := here.length_le
    have others_le := (List.Sublist.flatMap_right items there).length_le
    rw [List.flatMap_cons, List.flatMap_cons] at same
    simp only [List.flatMap_cons, List.length_append] at lengths
    have first_eq := here.eq_of_length (by omega)
    rw [first_eq, List.append_cancel_left_eq] at same
    exact List.forall_mem_cons.mpr ⟨first_eq, inductionHypothesis there same⟩

/-- Diagnostics are printed as they are if their names and messages are, and only then. -/
theorem reportOf_eq_iff : reportOf diagnostics = linesOf diagnostics ↔
    ∀ diagnostic ∈ diagnostics,
      IsVerbatim diagnostic.sourceName.toList ∧ IsVerbatim diagnostic.message.toList := by
  constructor
  · intro same
    -- What is printed has no line breaks of its own, so no text of the lines has one either.
    have steady : ∀ diagnostic ∈ diagnostics, ∀ character ∈ diagnostic.text.toList,
        IsSteady character := by
      intro diagnostic member character inside
      have written : character ∈ reportOf diagnostics := by
        rw [same]
        exact List.mem_flatMap.mpr ⟨diagnostic, member, List.mem_append_left _ inside⟩
      obtain ⟨other, -, inOther⟩ := List.mem_flatMap.mp written
      exact isSteady_of_mem_printed inOther
    have printed_eq : ∀ diagnostic ∈ diagnostics,
        printed (reported diagnostic) = reported diagnostic ++ ['\n'] :=
      fun diagnostic member => printed_of_isSteady fun character inside =>
        steady diagnostic member character ((reported_sublist diagnostic).subset inside)
    have parts := eq_of_flatMap_eq (fun diagnostic member => by
      rw [printed_eq diagnostic member]
      exact (reported_sublist diagnostic).append (.refl _)) same
    intro diagnostic member
    have reported_eq := parts diagnostic member
    rw [printed_eq diagnostic member, List.append_cancel_right_eq, reported_eq_iff] at reported_eq
    obtain ⟨name, message⟩ := isSteady_text_iff.mp (steady diagnostic member)
    exact ⟨⟨reported_eq.1, name⟩, reported_eq.2, message⟩
  · intro verbatim
    refine List.flatMap_congr fun diagnostic member => ?_
    obtain ⟨⟨namePlain, name⟩, messagePlain, message⟩ := verbatim diagnostic member
    rw [reported_eq_iff.mpr ⟨namePlain, messagePlain⟩,
      printed_of_isSteady (isSteady_text_iff.mpr ⟨name, message⟩)]

/-! ## Printing -/

/-- The desk with more on the stream of errors. -/
def Desk.told (desk : Desk) (text : List Char) : Desk :=
  { desk with errors := desk.errors ++ text }

theorem Desk.told_nil (desk : Desk) : desk.told [] = desk := by
  rw [told, List.append_nil]

theorem Desk.told_told (desk : Desk) (front back : List Char) :
    (desk.told front).told back = desk.told (front ++ back) := by
  rw [told, told, told, List.append_assoc]

theorem Desk.told_injective {front back : List Char} (same : desk.told front = desk.told back) :
    front = back :=
  List.append_cancel_left (congrArg Desk.errors same)

theorem gives_print_errors (shown : IsShown message) (desk : Desk) :
    Gives (print .errors message) desk () (desk.told (printed (visible message.toList))) := by
  obtain ⟨text, read⟩ := shown
  rw [← eq_visible_of_shown read, Gives, print, marked, read]
  rfl

theorem gives_print_diagnostic (shown : IsShown (diagnosticLine diagnostic)) (desk : Desk) :
    Gives (print .errors (diagnosticLine diagnostic)) desk ()
      (desk.told (printed (reported diagnostic))) := by
  rw [← visible_diagnosticLine]
  exact gives_print_errors shown desk

/-- What is printed for diagnostics that can all be shown, one after another. -/
theorem gives_forM_print (shown : ∀ diagnostic ∈ diagnostics, IsShown (diagnosticLine diagnostic))
    (desk : Desk) :
    Gives (diagnostics.forM fun diagnostic => print .errors (diagnosticLine diagnostic)) desk ()
      (desk.told (reportOf diagnostics)) := by
  induction diagnostics generalizing desk with
  | nil =>
    rw [reportOf, List.flatMap_nil, Desk.told_nil]
    rfl
  | cons diagnostic others inductionHypothesis =>
    obtain ⟨here, there⟩ := List.forall_mem_cons.mp shown
    have later := inductionHypothesis there (desk.told (printed (reported diagnostic)))
    rw [Desk.told_told] at later
    exact gives_bind (gives_print_diagnostic here desk) later

/-- The first diagnostic that cannot be shown ends the program, with those before it printed. -/
theorem exists_outcome_forM_print {before after : List Diagnostic}
    (shown : ∀ earlier ∈ before, IsShown (diagnosticLine earlier))
    (hidden : ¬IsShown (diagnosticLine diagnostic)) (desk : Desk) :
    ∃ tag, outcome ((before ++ diagnostic :: after).forM fun diagnostic =>
      print .errors (diagnosticLine diagnostic)) desk =
        (.error (.markup tag), desk.told (reportOf before)) := by
  obtain ⟨tag, stopped⟩ := exists_outcome_print hidden .errors (desk.told (reportOf before))
  refine ⟨tag, ?_⟩
  rw [List.forM_eq_forM, List.forM_append, ← List.forM_eq_forM,
    outcome_bind_ok (gives_forM_print shown desk)]
  exact outcome_bind_error stopped

/-! ### The line behind the diagnostics -/

/-- The line behind the diagnostics, with markup. -/
def summaryLine (count : Nat) : String :=
  "[red]✗[/red] " ++ toString count ++ " diagnostic(s), no output written"

def summaryOf (count : Nat) : List Char :=
  "✗ ".toList ++ ((toString count).toList ++ " diagnostic(s), no output written\n".toList)

theorem toList_summaryLine (count : Nat) : (summaryLine count).toList =
    "[red]".toList ++ ("✗".toList ++ ("[/red]".toList ++ (" ".toList ++ ((toString count).toList ++
      (" diagnostic(s), no output written".toList ++ []))))) := by
  have begins : "[red]✗[/red] " = "[red]" ++ ("✗" ++ ("[/red]" ++ " ")) := rfl
  unfold summaryLine
  simp only [begins, String.toList_append, List.append_assoc, List.append_nil]

theorem isShown_summaryLine (count : Nat) : IsShown (summaryLine count) := by
  change Shows [] 0 _
  rw [toList_summaryLine]
  refine shows_openingTag "red".toList (fun _ => rfl) rfl ?_
  refine shows_append_plain (by simp) ?_
  refine shows_closingTag "red".toList (fun _ => rfl) rfl (by decide) List.mem_cons_self
    fun opened => ?_
  refine shows_append_plain (by simp) ?_
  refine shows_append_plain (plain_toString count) ?_
  exact shows_append_plain (by simp) shows_nil

theorem printed_summaryLine (count : Nat) :
    printed (visible (summaryLine count).toList) = summaryOf count := by
  have shown : visible (summaryLine count).toList = "✗ ".toList ++ ((toString count).toList ++
      " diagnostic(s), no output written".toList) := by
    rw [toList_summaryLine, visible_append_tag fun _ => rfl, visible_append_plain _ (by simp),
      visible_append_tag fun _ => rfl, visible_append_plain _ (by simp),
      visible_append_plain _ (plain_toString count), visible_append_plain _ (by simp)]
    rfl
  have steady : ∀ character ∈ "✗ ".toList ++ ((toString count).toList ++
      " diagnostic(s), no output written".toList), IsSteady character := by
    rw [List.forall_mem_append, List.forall_mem_append]
    exact ⟨isSteady_of_all (by decide),
      fun _ member => isSteady_of_isDigit (isDigit_of_mem_toString member),
      isSteady_of_all (by decide)⟩
  rw [shown, printed_of_isSteady steady, List.append_assoc, List.append_assoc]
  rfl

/-! ## The law -/

/-- The command goes on with an expansion of the input. -/
inductive Expands (input : InputOptions) (generation : GenerationOptions) : Command → Prop
  | expand (output : String) (isVerbose : Bool) :
      Expands input generation (.expand input generation output isVerbose)
  | check : Expands input generation (.check input generation)

/-- What comes of diagnostics that a command reports at a desk. -/
structure ReportLaw (diagnostics : List Diagnostic) (desk : Desk)
    (result : Except Crash Nat × Desk) : Prop where
  /-- Each is printed as it is if there is no markup, and nothing that a console leaves out or
  changes, in a name or a message. Otherwise some are not. -/
  verbatim : result = (.ok 1, desk.told (linesOf diagnostics ++ summaryOf diagnostics.length)) ↔
    ∀ diagnostic ∈ diagnostics,
      IsVerbatim diagnostic.sourceName.toList ∧ IsVerbatim diagnostic.message.toList
  /-- What is printed, if no closing tag keeps a line from being shown. -/
  shown : (∀ diagnostic ∈ diagnostics, IsShown (diagnosticLine diagnostic)) →
    result = (.ok 1, desk.told (reportOf diagnostics ++ summaryOf diagnostics.length))
  /-- Otherwise the first such line ends the program. -/
  stopped : ∀ {before diagnostic after}, diagnostics = before ++ diagnostic :: after →
    (∀ earlier ∈ before, IsShown (diagnosticLine earlier)) →
      ¬IsShown (diagnosticLine diagnostic) →
        ∃ tag, result = (.error (.markup tag), desk.told (reportOf before))
  closing : ∀ diagnostic ∈ diagnostics, ¬IsShown (diagnosticLine diagnostic) →
    ClosesTag diagnostic.sourceName.toList ∨ ClosesTag diagnostic.message.toList

theorem closesTag_of_not_isShown (hidden : ¬IsShown (diagnosticLine diagnostic)) :
    ClosesTag diagnostic.sourceName.toList ∨ ClosesTag diagnostic.message.toList := by
  by_contra noClosing
  rw [not_or] at noClosing
  exact hidden (isShown_diagnosticLine noClosing.1 noClosing.2)

variable {expansion : SourceExpansion}

theorem outcome_report_of_shown
    (shown : ∀ diagnostic ∈ expansion.diagnostics, IsShown (diagnosticLine diagnostic))
    (desk : Desk) : outcome (printDiagnostics expansion >>= fun _ => pure 1) desk =
      (.ok 1, desk.told (reportOf expansion.diagnostics ++
        summaryOf expansion.diagnostics.length)) := by
  have summary := gives_print_errors (isShown_summaryLine expansion.diagnostics.length)
    (desk.told (reportOf expansion.diagnostics))
  rw [printed_summaryLine, Desk.told_told] at summary
  exact outcome_bind_ok (gives_bind (gives_forM_print shown desk) summary)

theorem exists_crashes_printDiagnostics (member : diagnostic ∈ expansion.diagnostics)
    (hidden : ¬IsShown (diagnosticLine diagnostic)) (desk : Desk) :
    ∃ tag, Crashes (printDiagnostics expansion >>= fun _ => pure 1) desk (.markup tag) := by
  obtain ⟨tag, crashed⟩ :=
    exists_crashes_forM_print (List.mem_map_of_mem member) hidden desk
  rw [List.forM_eq_forM, List.forM_map] at crashed
  exact ⟨tag, crashes_bind (crashes_bind crashed)⟩

/-- Whatever the diagnostics are, they are reported by the law. -/
theorem reportLaw_printDiagnostics (expansion : SourceExpansion) (desk : Desk) :
    ReportLaw expansion.diagnostics desk
      (outcome (printDiagnostics expansion >>= fun _ => pure 1) desk) := by
  have stops {before after : List Diagnostic} {diagnostic : Diagnostic}
      (split : expansion.diagnostics = before ++ diagnostic :: after)
      (shown : ∀ earlier ∈ before, IsShown (diagnosticLine earlier))
      (hidden : ¬IsShown (diagnosticLine diagnostic)) :
      ∃ tag, outcome (printDiagnostics expansion >>= fun _ => pure 1) desk =
        (.error (.markup tag), desk.told (reportOf before)) := by
    obtain ⟨tag, stopped⟩ := exists_outcome_forM_print shown hidden desk
    rw [← split] at stopped
    exact ⟨tag, outcome_bind_error (outcome_bind_error stopped)⟩
  refine ⟨⟨fun same => ?_, fun verbatim => ?_⟩, (outcome_report_of_shown · desk), stops,
    fun _ _ => closesTag_of_not_isShown⟩
  · by_cases shown : ∀ diagnostic ∈ expansion.diagnostics, IsShown (diagnosticLine diagnostic)
    · rw [outcome_report_of_shown shown] at same
      exact reportOf_eq_iff.mp (List.append_cancel_right (Desk.told_injective (Prod.mk.inj same).2))
    · simp only [not_forall] at shown
      obtain ⟨diagnostic, member, hidden⟩ := shown
      obtain ⟨tag, crashed⟩ := exists_crashes_printDiagnostics member hidden desk
      rw [Crashes, same] at crashed
      cases crashed
  · have shown : ∀ diagnostic ∈ expansion.diagnostics, IsShown (diagnosticLine diagnostic) := by
      intro diagnostic member
      obtain ⟨name, message⟩ := verbatim diagnostic member
      exact isShown_diagnosticLine name.1.not_closesTag message.1.not_closesTag
    rw [outcome_report_of_shown shown, reportOf_eq_iff.mpr verbatim]

variable {environment : Environment} {command : Command} {input : InputOptions}
  {generation : GenerationOptions} {first middle : Desk}

theorem outcome_run_of_failed (expands : Expands input generation command)
    (given : Gives (expandInput environment input generation) first (.ok expansion) middle)
    (failed : ¬expansion.isSuccess = true) : outcome (command.run environment) first =
      outcome (printDiagnostics expansion >>= fun _ => pure 1) middle := by
  cases expands with
  | expand output isVerbose =>
    have ran := outcome_withExpansion (finishExpand output isVerbose) given
    rwa [if_neg failed] at ran
  | check =>
    have ran := outcome_withExpansion finishCheck given
    rwa [if_neg failed] at ran

/-- A file of one quotation mark, and nothing else. -/
def openEnvironment (file : String) : Environment :=
  ⟨⟨FileStore.empty.put [file] (.file (Utf8.encode ['"'])),
    fun _ => .error (.connection "no connection")⟩, [], "linux"⟩

def openDiagnostic (file : String) : Diagnostic :=
  ⟨"SyntaxError", "Unterminated string literal at 1:1", 1, 1, file⟩

/-- The literal in the file is not closed. -/
theorem exists_gives_openEnvironment {file : String}
    (found : (openEnvironment file).origin.files.read (.ofText file) = .ok (Utf8.encode ['"']))
    (display : (FilePath.ofText file).display = file) :
    ∃ expansion middle, Gives (expandInput (openEnvironment file) ⟨file, "", false⟩ plainOptions)
      (startDesk (openEnvironment file)) (.ok expansion) middle ∧
        ¬expansion.isSuccess = true ∧ expansion.diagnostics = [openDiagnostic file] := by
  have readable : (startDesk (openEnvironment file)).files.readText (.ofText file) = .ok ['"'] :=
    FileStore.readText_of_read found (Utf8.decode_encode _)
  have failed : TokenStream.scan ['"'] = .error ⟨.unterminatedLiteral, .start⟩ := by
    rw [TokenStream.scan, tokensFrom]
    rfl
  obtain ⟨_, middle, given, -, rfl⟩ := exists_gives_expandInput_plain readable
    (expandsTo_of_error failed)
  exact ⟨_, middle, given, Bool.false_ne_true, by rw [display]; rfl⟩

end PeerExpansion.CommandLine
