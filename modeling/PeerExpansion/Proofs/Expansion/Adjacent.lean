import PeerExpansion.Proofs.Expansion.Joined

/-! # Adjacent variables

Two texts of one variable each, with a line feed between them, expand to what each expands to on its
own as long as the first variable is settled at its end. Where it is not, its initializer goes on
with the attributes of the second one.
-/

namespace PeerExpansion

open Expander Reading Work

variable {registry : Registry.Macros} {sourceName : String} {stream : TokenStream}
variable {declaration : Declaration} {results : List (Attribute × ExpansionResult)}
variable {first last : Workshop}

/-! ## Findings -/

theorem Finding.succeeded_of_clean
    (clean : (Finding.declared declaration results).diagnostics sourceName = []) :
    ∀ answer ∈ results, answer.2.toBool = true := by
  rintro ⟨_, result⟩ member
  cases result with
  | ok => rfl
  | error =>
    have none := List.filterMap_eq_nil_iff.mp clean _ member
    cases none

theorem Finding.diagnostics_eq_nil (succeeded : ∀ answer ∈ results, answer.2.toBool = true) :
    (Finding.declared declaration results).diagnostics sourceName = [] := by
  refine List.filterMap_eq_nil_iff.mpr ?_
  rintro ⟨_, result⟩ member
  have answered := succeeded _ member
  cases result with
  | ok => rfl
  | error => cases answered

/-- The edit of a declaration that was expanded with some results. -/
def Declaration.editWith (stream : TokenStream) (declaration : Declaration)
    (results : List (Attribute × ExpansionResult)) : Edit :=
  Insertion.edit stream declaration (results.map (·.1))
    (ExpandedDeclaration.peers ⟨declaration, results⟩)

theorem Finding.edit?_eq_some (succeeded : ∀ answer ∈ results, answer.2.toBool = true) :
    (Finding.declared declaration results).edit? stream =
      some (declaration.editWith stream results) :=
  if_pos (List.all_eq_true.mpr succeeded)

/-! ## Moved findings -/

section Moved

variable {base : Position} {moved : List (Attribute × ExpansionResult)}
variable (alike : List.Forall₂ (MovedAnswer base) results moved)
include alike

theorem MovedAnswer.attributes_eq :
    moved.map (·.1) = (results.map (·.1)).map (Attribute.moved base) := by
  rw [List.map_map]
  exact (Likeness.map_eq_of_forall₂ alike fun _ _ answer => answer.1.symm).symm

theorem MovedAnswer.succeeded : ∀ answer ∈ moved, answer.2.toBool = true := by
  induction alike with
  | nil => nofun
  | cons answer _ inductionHypothesis =>
    obtain ⟨_, _, _, _, moved_eq, _⟩ := answer
    refine List.forall_mem_cons.mpr ⟨?_, inductionHypothesis⟩
    rw [moved_eq]
    rfl

theorem MovedAnswer.peers_eq (declaration other : Declaration) :
    ExpandedDeclaration.peers ⟨other, moved⟩ =
      ExpandedDeclaration.peers ⟨declaration, results⟩ := by
  unfold ExpandedDeclaration.peers
  induction alike with
  | nil => rfl
  | @cons answer twin _ _ related _ inductionHypothesis =>
    obtain ⟨_, _⟩ := answer
    obtain ⟨_, _⟩ := twin
    obtain ⟨_, expansion, other, ⟨⟩, ⟨⟩, same⟩ := related
    show other.peers ++ _ = expansion.peers ++ _
    rw [same]
    exact congrArg _ inductionHypothesis

/-- The edit of a variable with moved results is the edit that it has in its own text, moved. -/
theorem Inlay.Stands.editWith_eq {inner source : List Char} {inlay : Inlay inner source}
    {other : TokenStream} (stands : inlay.Stands stream other) (lines : inlay.WholeLines)
    (base_eq : inlay.base = base) (inside : declaration.stop ≤ inner.length)
    (order : declaration.start ≤ declaration.stop) :
    (declaration.moved base).editWith other moved =
      (declaration.editWith stream results).moved base.offset := by
  subst base_eq
  rw [Declaration.editWith, MovedAnswer.attributes_eq alike, MovedAnswer.peers_eq alike declaration]
  exact stands.edit_eq inside lines _ _ order

end Moved

/-- With another text behind a line feed, the edit of a variable stays what it is. -/
theorem Declaration.editWith_join {source other : List Char} {second : TokenStream}
    (scanned : TokenStream.scan source = .ok stream)
    (otherScanned : TokenStream.scan other = .ok second) (inside : declaration.stop ≤ source.length)
    (order : declaration.start ≤ declaration.stop) :
    declaration.editWith (stream.join second) results = declaration.editWith stream results := by
  have stands := Inlay.stands_ofFirst scanned otherScanned
  have moved_eq : Insertion.edit (stream.join second) (declaration.moved .start)
      ((results.map (·.1)).map (Attribute.moved .start))
      (ExpandedDeclaration.peers ⟨declaration, results⟩) =
        (declaration.editWith stream results).moved 0 :=
    stands.edit_eq inside Inlay.wholeLines_ofFirst _ _ order
  rwa [Declaration.moved_by_start, List.map_id'' Attribute.moved_by_start, Edit.moved_zero]
    at moved_eq

/-! ## Texts of one variable -/

/-- A text of one variable with a macro expands to `outcome` without a diagnostic. -/
structure Expands (registry : Registry.Macros) (expander : Expander) (sourceName : String)
    (source : List Char) (declaration : Declaration) (outcome : SourceExpansion) : Prop where
  parsed : Declaration.parse source = .ok declaration
  property : declaration.isProperty = true
  carried : macroAttributes registry declaration.attributes ≠ []
  expanded : (expander.run (expand registry source sourceName)).1 = .ok outcome
  clean : outcome.diagnostics = []

/-- How the expansion of such a text comes about. -/
structure Worked (registry : Registry.Macros) (expander : Expander) (sourceName : String)
    (stream : TokenStream) (declaration : Declaration) (behind next : Nat)
    (results : List (Attribute × ExpansionResult)) (last : Workshop) : Prop where
  spans : declaration.Spans stream 0 behind next
  alone : declaration.Alone stream next
  runs : Runs (expandDeclaration registry declaration sourceName) ⟨expander, []⟩ results last
  succeeded : ∀ answer ∈ results, answer.2.toBool = true

variable {expander : Expander} {source other : List Char} {outcome otherOutcome : SourceExpansion}
variable {otherDeclaration : Declaration}

theorem Expands.exists_worked
    (expands : Expands registry expander sourceName source declaration outcome)
    (scanned : TokenStream.scan source = .ok stream) :
    ∃ behind next results last,
      Worked registry expander sourceName stream declaration behind next results last ∧
        outcome.source = Edit.applyAll [declaration.editWith stream results] source := by
  obtain ⟨_, behind, next, otherScanned, spans, alone⟩ :=
    Declaration.exists_alone_of_parse expands.parsed
  cases scanned.symm.trans otherScanned
  have expanded : Runs (expand registry source sourceName) ⟨expander, []⟩ outcome
      (Work.outcome (expand registry source sourceName) ⟨expander, []⟩).2 :=
    Prod.ext expands.expanded rfl
  obtain ⟨_, unread, -⟩ | ⟨_, findings, middle, arises⟩ := arises_of_expand expanded
  · cases scanned.symm.trans unread
  cases scanned.symm.trans arises.scanned
  -- The search comes to the declaration and to nothing else.
  have search := arises.runs
  rw [alone.find_eq scanned spans expands.property expands.carried] at search
  simp only [runs_bind, runs_pure] at search
  obtain ⟨results, _, runs, rfl, rfl⟩ := search
  have clean := arises.diagnostics_eq.symm.trans expands.clean
  rw [List.flatMap_singleton] at clean
  have succeeded := Finding.succeeded_of_clean clean
  refine ⟨behind, next, results, _, ⟨spans, alone, runs, succeeded⟩, ?_⟩
  rw [arises.output_eq, List.filterMap_cons, Finding.edit?_eq_some succeeded]
  rfl

theorem Worked.extent {behind next : Nat}
    (worked : Worked registry expander sourceName stream declaration behind next results last)
    (scanned : TokenStream.scan source = .ok stream) :
    (declaration.editWith stream results).start < (declaration.editWith stream results).stop ∧
      (declaration.editWith stream results).stop ≤ source.length := by
  obtain ⟨rfl, ordered⟩ := TokenStream.ordered_of_scan scanned
  exact ⟨(worked.spans.start_lt_stop ordered).trans_le (Insertion.stop_le_point stream declaration),
    Insertion.point_le_length ordered worked.spans⟩

/-! ## The law -/

/-- How the expansions of two texts of one variable each relate to that of the texts with a line
feed between them. The first variable is read from the joined text as from its own if and only if it
is settled at its end, and then the output is that of both. -/
structure AdjacencyLaw (registry : Registry.Macros) (expander : Expander) (sourceName : String)
    (source other : List Char) (stream : TokenStream) (declaration : Declaration)
    (outcome otherOutcome : SourceExpansion) : Prop where
  read_iff : declaration.Settled stream ↔ ∃ joined last,
    TokenStream.scan (source ++ '\n' :: other) = .ok joined ∧
      Declaration.read.run (.ofStream joined 0) = .ok (declaration, last)
  output : declaration.Settled stream → ∃ whole,
    (expander.run (expand registry (source ++ '\n' :: other) sourceName)).1 = .ok whole ∧
      whole.isSuccess = true ∧ whole.source = outcome.source ++ '\n' :: otherOutcome.source

theorem adjacencyLaw_of_expands
    (ignores : ∀ name generator, expander.supply registry name = .ok generator →
      generator.IgnoresPlaces)
    (expands : Expands registry expander sourceName source declaration outcome)
    (otherExpands : Expands registry expander sourceName other otherDeclaration otherOutcome)
    (scanned : TokenStream.scan source = .ok stream)
    (nested : Extent.isNested [] stream.words = true) :
    AdjacencyLaw registry expander sourceName source other stream declaration outcome
      otherOutcome := by
  obtain ⟨second, _, _, otherScanned, -⟩ := Declaration.exists_alone_of_parse otherExpands.parsed
  obtain ⟨behind, next, results, middle, worked, output_eq⟩ := expands.exists_worked scanned
  obtain ⟨otherBehind, otherNext, others, _, otherWorked, otherOutput_eq⟩ :=
    otherExpands.exists_worked otherScanned
  have joined := TokenStream.scan_join scanned otherScanned
  have otherMark := otherWorked.spans.isPunctuation_mark otherScanned otherExpands.carried
  have mark : (second.token 0).word = .mark "@" := Token.word_eq_mark otherMark
  have read_of_settled (settled : declaration.Settled stream) :=
    Declaration.reads_join scanned otherScanned mark expands.property nested settled
      worked.alone.reads worked.spans.next_le
  refine ⟨⟨fun settled => ⟨_, _, joined, read_of_settled settled⟩, ?_⟩, fun settled => ?_⟩
  · rintro ⟨_, last, otherJoined, read⟩
    cases joined.symm.trans otherJoined
    exact Declaration.settled_of_reads_join scanned otherScanned mark expands.property worked.spans
      worked.alone read
  -- The search finds both variables, and their macros come to the same peers as in their own texts.
  have found : find registry sourceName (stream.join second) = _ :=
    find_join scanned otherScanned worked.alone expands.property expands.carried worked.spans
      (read_of_settled settled) otherWorked.alone otherExpands.property otherExpands.carried
      otherWorked.spans
  obtain ⟨kept, -⟩ := exists_runs_expandDeclaration_moved .start ignores worked.runs
    worked.succeeded fun _ => rfl
  obtain ⟨-, moved, finish, movedRuns, alike, -⟩ :=
    exists_runs_expandDeclaration_moved (secondBase stream.source) ignores otherWorked.runs
      otherWorked.succeeded kept
  have search : Runs (find registry sourceName (stream.join second)) ⟨expander, []⟩
      [.declared declaration results,
        .declared (otherDeclaration.moved (secondBase stream.source)) moved] finish := by
    rw [found]
    refine runs_bind.mpr ⟨_, _, worked.runs, ?_⟩
    exact runs_bind.mpr ⟨_, _, movedRuns, runs_pure.mpr ⟨rfl, rfl⟩⟩
  obtain ⟨final, whole⟩ := runs_expand joined search
  have movedSucceeded := MovedAnswer.succeeded alike
  refine ⟨_, congrArg Prod.fst whole, ?_, ?_⟩
  · simp [SourceExpansion.isSuccess, Finding.diagnostics_eq_nil worked.succeeded,
      Finding.diagnostics_eq_nil movedSucceeded]
  · obtain ⟨rfl, ordered⟩ := TokenStream.ordered_of_scan scanned
    obtain ⟨rfl, otherOrdered⟩ := TokenStream.ordered_of_scan otherScanned
    have edit_eq : declaration.editWith (stream.join second) results =
        declaration.editWith stream results :=
      Declaration.editWith_join scanned otherScanned (worked.spans.stop_le_length ordered)
        (worked.spans.start_lt_stop ordered).le
    have movedEdit_eq := Inlay.Stands.editWith_eq alike (Inlay.stands_ofSecond scanned otherScanned)
      Inlay.wholeLines_ofSecond rfl (otherWorked.spans.stop_le_length otherOrdered)
      (otherWorked.spans.start_lt_stop otherOrdered).le
    simp only [List.filterMap_cons, List.filterMap_nil, Finding.edit?_eq_some worked.succeeded,
      Finding.edit?_eq_some movedSucceeded]
    rw [edit_eq, movedEdit_eq, secondBase_offset, output_eq, otherOutput_eq,
      Edit.applyAll_join (worked.extent scanned) (otherWorked.extent otherScanned)]

theorem exists_expands_of_any
    (read : (Declaration.parse source).toOption.any (fun declaration => declaration.isProperty &&
      !(macroAttributes registry declaration.attributes).isEmpty) = true)
    (expanded : (expander.run (expand registry source sourceName)).1 = .ok outcome)
    (success : outcome.isSuccess = true) :
    ∃ declaration, Expands registry expander sourceName source declaration outcome := by
  obtain ⟨declaration, parsed, known⟩ := exists_of_any read
  obtain ⟨property, some⟩ := Bool.and_eq_true_iff.mp known
  have carried : macroAttributes registry declaration.attributes ≠ [] := by
    simpa [List.isEmpty_iff] using some
  exact ⟨declaration, parsed, property, carried, expanded, List.isEmpty_iff.mp success⟩

/-- A variable with an initializer that ends with its line. -/
def settledSample : List Char :=
  "@ImageCache var fooData: Data? = load(1) // the first".toList

/-- A variable with an initializer that ends with a question mark, which may also stand between an
expression and the rest of it in the next line. -/
def castSample : List Char :=
  "@ImageCache var fooData: Data? = stored as Data?".toList

def besideSample : List Char :=
  "@ImageCache var barData: Data?".toList

set_option maxRecDepth 20000 in
theorem adjacencyLaw_settledSample :
    ∃ stream declaration otherDeclaration outcome otherOutcome,
      (∀ name generator, phoneExpander.supply (Registry.standard "linux") name = .ok generator →
        generator.IgnoresPlaces) ∧
      Expands (Registry.standard "linux") phoneExpander "<input>" settledSample declaration
        outcome ∧
      Expands (Registry.standard "linux") phoneExpander "<input>" besideSample otherDeclaration
        otherOutcome ∧
      TokenStream.scan settledSample = .ok stream ∧ Extent.isNested [] stream.words = true ∧
      declaration.Settled stream ∧
      AdjacencyLaw (Registry.standard "linux") phoneExpander "<input>" settledSample besideSample
        stream declaration outcome otherOutcome := by
  have expandedFirst : (phoneExpander.run (expand (Registry.standard "linux") settledSample
      "<input>")).1.toOption.any (·.isSuccess) = true := by
    decide +kernel
  have expandedSecond : (phoneExpander.run (expand (Registry.standard "linux") besideSample
      "<input>")).1.toOption.any (·.isSuccess) = true := by
    decide +kernel
  have words : (TokenStream.scan settledSample).toOption.any (fun stream =>
      Extent.isNested [] stream.words &&
        stream.words.getLast?.all fun word => !word.isOneOf Extent.continuations) = true := by
    decide +kernel
  obtain ⟨outcome, expanded, success⟩ := exists_of_any expandedFirst
  obtain ⟨otherOutcome, otherExpanded, otherSuccess⟩ := exists_of_any expandedSecond
  obtain ⟨declaration, expands⟩ := exists_expands_of_any (by decide +kernel) expanded success
  obtain ⟨otherDeclaration, otherExpands⟩ :=
    exists_expands_of_any (by decide +kernel) otherExpanded otherSuccess
  obtain ⟨stream, scanned, known⟩ := exists_of_any words
  obtain ⟨nested, plain⟩ := Bool.and_eq_true_iff.mp known
  have settled : declaration.Settled stream := by
    refine .inr fun word member => ?_
    rw [Option.mem_def] at member
    simpa [member] using plain
  have ignores (name : String) (generator : Generator)
      (supplied : phoneExpander.supply (Registry.standard "linux") name = .ok generator) :
      generator.IgnoresPlaces :=
    ignoresPlaces_of_supply (Registry.standard_keepsExpand "linux")
      (Expander.ofSource_keepsExpand _ _) supplied
  exact ⟨stream, declaration, otherDeclaration, outcome, otherOutcome, ignores, expands,
    otherExpands, scanned, nested, settled, adjacencyLaw_of_expands ignores expands otherExpands scanned nested⟩

set_option maxRecDepth 20000 in
/-- Each text expands on its own, but with the other one behind it the first variable runs on into
the second, which is not expanded. -/
theorem castSample_runs_on :
    ∃ stream declaration otherDeclaration outcome otherOutcome whole,
      Expands (Registry.standard "linux") phoneExpander "<input>" castSample declaration outcome ∧
      Expands (Registry.standard "linux") phoneExpander "<input>" besideSample otherDeclaration
        otherOutcome ∧
      TokenStream.scan castSample = .ok stream ∧ Extent.isNested [] stream.words = true ∧
      (phoneExpander.run (expand (Registry.standard "linux") (castSample ++ '\n' :: besideSample)
        "<input>")).1 = .ok whole ∧
      whole.isSuccess = true ∧ whole.expandedCount = 1 ∧
      whole.source ≠ outcome.source ++ '\n' :: otherOutcome.source := by
  have words : (TokenStream.scan castSample).toOption.any (fun stream =>
      Extent.isNested [] stream.words) = true := by
    decide +kernel
  have expandedAll : (phoneExpander.run (expand (Registry.standard "linux") castSample
      "<input>")).1.toOption.any (fun outcome => outcome.isSuccess &&
        (phoneExpander.run (expand (Registry.standard "linux") besideSample
          "<input>")).1.toOption.any fun otherOutcome => otherOutcome.isSuccess &&
            (phoneExpander.run (expand (Registry.standard "linux")
              (castSample ++ '\n' :: besideSample) "<input>")).1.toOption.any fun whole =>
                whole.isSuccess && whole.expandedCount == 1 &&
                  whole.source != outcome.source ++ '\n' :: otherOutcome.source) = true := by
    decide +kernel
  obtain ⟨outcome, expanded, known⟩ := exists_of_any expandedAll
  obtain ⟨success, known⟩ := Bool.and_eq_true_iff.mp known
  obtain ⟨otherOutcome, otherExpanded, otherKnown⟩ := exists_of_any known
  obtain ⟨otherSuccess, otherKnown⟩ := Bool.and_eq_true_iff.mp otherKnown
  obtain ⟨whole, wholeExpanded, wholeKnown⟩ := exists_of_any otherKnown
  simp only [Bool.and_eq_true, beq_iff_eq, bne_iff_ne] at wholeKnown
  obtain ⟨⟨wholeSuccess, count⟩, unlike⟩ := wholeKnown
  obtain ⟨declaration, expands⟩ := exists_expands_of_any (by decide +kernel) expanded success
  obtain ⟨otherDeclaration, otherExpands⟩ :=
    exists_expands_of_any (by decide +kernel) otherExpanded otherSuccess
  obtain ⟨stream, scanned, nested⟩ := exists_of_any words
  exact ⟨stream, declaration, otherDeclaration, outcome, otherOutcome, whole, expands, otherExpands,
    scanned, nested, wholeExpanded, wholeSuccess, count, unlike⟩

end PeerExpansion
