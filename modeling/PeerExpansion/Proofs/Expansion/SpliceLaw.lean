import PeerExpansion.Proofs.Expansion.Keeping
import PeerExpansion.Proofs.Expansion.Expanded

/-! # The splice law

Where all macros are for cached properties, only variables are expanded, and nothing begins inside a
variable. So the source falls into the expanded declarations and the parts between them, and these
parts stay as they are.
-/

namespace PeerExpansion

open Expander Work

/-- Where a declaration stands one of whose macros failed. A variable lies in a part that is kept;
in any other declaration at most the expanded ones are rewritten that begin inside it. -/
structure Spared (stream : TokenStream) (findings : List Finding) (declaration : Declaration) :
    Prop where
  away : ∀ range ∈ expandedRanges stream findings,
    declaration.stop ≤ range.1 ∨ range.2 ≤ declaration.start ∨
      declaration.isProperty = false ∧ declaration.start < range.1
  kept : declaration.isProperty = true → ∃ part ∈ keptParts stream findings,
    Text.slice stream.source declaration.start declaration.stop <:+: part

/-- What an expansion makes of a source. Without tokens it leaves it alone; otherwise the expanded
declarations are those found in it without a failure. -/
def SpliceLaw (registry : Registry.Macros) (expander : Expander) (source : List Char)
    (sourceName : String) (outcome : SourceExpansion) : Prop :=
  (∃ error, TokenStream.scan source = .error error ∧ outcome.source = source) ∨
    ∃ stream findings shop,
      Arises registry source sourceName ⟨expander, []⟩ stream findings shop outcome ∧
      Spliced stream findings outcome.source ∧
      (∀ declaration results, .declared declaration results ∈ findings →
        results.map (·.1) = macroAttributes registry declaration.attributes ∧
        ((∀ answer ∈ results, answer.2.toBool = true) ∧
            ⟨declaration, results⟩ ∈ expandedDeclarations findings ∨
          (∃ answer ∈ results, answer.2.toBool = false) ∧
            Spared stream findings declaration)) ∧
      (expandedDeclarations findings = [] → outcome.source = source)

variable {registry : Registry.Macros} {sourceName : String} {stream : TokenStream}
variable {visits : List Visit} {findings : List Finding} {first last : Workshop}

namespace Searched

variable (searched : Searched registry sourceName stream visits first findings last)
include searched

theorem isProperty_of_mem (kept : registry.KeepsExpand) (cached : first.KeepsExpand)
    {expanded : ExpandedDeclaration} (member : expanded ∈ expandedDeclarations findings) :
    expanded.declaration.isProperty = true := by
  obtain ⟨found, succeeded⟩ := mem_expandedDeclarations.mp member
  obtain ⟨_, _, _, _, some⟩ := searched.exists_spans found
  obtain ⟨answer, answered⟩ := List.exists_mem_of_ne_nil _ some
  exact searched.reports.isProperty_of_mem kept cached found answer answered
    (succeeded answer answered)

theorem unnested (kept : registry.KeepsExpand) (cached : first.KeepsExpand) :
    Unnested findings := by
  rintro outer member inner _ ⟨other, _⟩
  cases other.symm.trans (searched.isProperty_of_mem kept cached member)

theorem spared (kept : registry.KeepsExpand) (cached : first.KeepsExpand)
    {declaration : Declaration} {results : List (Attribute × ExpansionResult)}
    (member : .declared declaration results ∈ findings)
    (failed : ∃ answer ∈ results, answer.2.toBool = false) :
    Spared stream findings declaration := by
  have away : ∀ range ∈ expandedRanges stream findings,
      declaration.stop ≤ range.1 ∨ range.2 ≤ declaration.start ∨
        declaration.isProperty = false ∧ declaration.start < range.1 := by
    refine List.forall_mem_map.mpr fun expanded expandedMember => ?_
    obtain ⟨found, succeeded⟩ := mem_expandedDeclarations.mp expandedMember
    have distinct : Finding.declared declaration results ≠
        .declared expanded.declaration expanded.results := by
      intro same
      cases same
      obtain ⟨answer, answered, failure⟩ := failed
      cases failure.symm.trans (succeeded answer answered)
    -- It stands in front of the expanded one or behind it, and that one is a variable.
    obtain before | behind := searched.precedes_or_precedes member found distinct
    · cases property : declaration.isProperty with
      | true => exact .inl (before.stop_le property)
      | false => exact .inr (.inr ⟨rfl, before.start_lt⟩)
    · have property := searched.isProperty_of_mem kept cached expandedMember
      exact .inr (.inl (behind.point_le (behind.stop_le property)))
  refine ⟨away, fun property => ?_⟩
  have extent := searched.extent_of_mem member
  refine Edit.exists_gap (Nat.zero_le _) (Nat.le_of_lt extent.1) fun range rangeMember => ?_
  obtain before | behind | ⟨other, _⟩ := away range rangeMember
  · exact .inl before
  · exact .inr behind
  · cases other.symm.trans property

end Searched

theorem Spliced.output_eq_source {output : List Char} (spliced : Spliced stream findings output)
    (none : expandedDeclarations findings = []) : output = stream.source := by
  have source_eq := spliced.source_eq
  have output_eq := spliced.output_eq
  rw [none] at source_eq output_eq
  exact output_eq.trans source_eq.symm

theorem spliceLaw_of_expand {expander later : Expander} {source : List Char}
    {outcome : SourceExpansion} {notes : List LogRecord} (kept : registry.KeepsExpand)
    (cached : expander.KeepsExpand)
    (expanded : expander.run (expand registry source sourceName) = (.ok outcome, later, notes)) :
    SpliceLaw registry expander source sourceName outcome := by
  obtain ⟨error, unread, rfl⟩ | ⟨stream, findings, shop, arises⟩ :=
    arises_of_expand (run_eq_ok.mp expanded)
  · exact .inl ⟨error, unread, rfl⟩
  obtain ⟨visits, searched⟩ := arises.exists_searched
  have spliced := searched.spliced (searched.unnested kept cached)
  rw [arises.source_eq, ← arises.output_eq] at spliced
  refine .inr ⟨stream, findings, shop, arises, spliced, ?_, fun none =>
    (spliced.output_eq_source none).trans arises.source_eq⟩
  intro declaration results member
  refine ⟨searched.reports.attributes_eq member, ?_⟩
  by_cases succeeded : ∀ answer ∈ results, answer.2.toBool = true
  · exact .inl ⟨succeeded, mem_expandedDeclarations.mpr ⟨member, succeeded⟩⟩
  · have failed : ∃ answer ∈ results, answer.2.toBool = false := by simpa using succeeded
    exact .inr ⟨failed, searched.spared kept cached member failed⟩

/-- A type with a macro that it cannot have, and a member with one that it can. -/
def memberSample : List Char :=
  "@ImageCache\nstruct S \x7b\n  @ImageCache var fooData: Data?\n\x7d".toList

set_option maxRecDepth 20000 in
theorem spliceLaw_memberSample : ∃ outcome later notes,
    phoneExpander.run (expand (Registry.standard "linux") memberSample "<input>") =
        (.ok outcome, later, notes) ∧
      outcome.expandedCount = 1 ∧
      SpliceLaw (Registry.standard "linux") phoneExpander memberSample "<input>" outcome := by
  have evaluated : (phoneExpander.run (expand (Registry.standard "linux") memberSample
      "<input>")).1.toOption.any (fun outcome => outcome.expandedCount == 1) = true := by
    decide +kernel
  obtain ⟨outcome, later, notes, expanded, count⟩ := exists_run_of_any evaluated
  exact ⟨outcome, later, notes, expanded, eq_of_beq count,
    spliceLaw_of_expand (Registry.standard_keepsExpand "linux")
      (Expander.ofSource_keepsExpand _ _) expanded⟩

set_option maxRecDepth 20000 in
/-- The sample is a single declaration, and its macro fails, but the sample does not stay as it
is. -/
theorem memberSample_changes : ∃ declaration results middle middleNotes outcome later notes,
    Declaration.parse memberSample = .ok declaration ∧ declaration.start = 0 ∧
      declaration.stop = memberSample.length ∧
      phoneExpander.run (expandDeclaration (Registry.standard "linux") declaration "<input>") =
        (.ok results, middle, middleNotes) ∧
      (∃ answer ∈ results, answer.2.toBool = false) ∧
      phoneExpander.run (expand (Registry.standard "linux") memberSample "<input>") =
        (.ok outcome, later, notes) ∧
      outcome.source ≠ memberSample := by
  have failed : (Declaration.parse memberSample).toOption.any (fun declaration =>
      declaration.start == 0 && declaration.stop == memberSample.length &&
        (phoneExpander.run (expandDeclaration (Registry.standard "linux") declaration
          "<input>")).1.toOption.any fun results => results.any fun answer => !answer.2.toBool) =
      true := by
    decide +kernel
  have changed : (phoneExpander.run (expand (Registry.standard "linux") memberSample
      "<input>")).1.toOption.any (fun outcome => outcome.source != memberSample) = true := by
    decide +kernel
  obtain ⟨declaration, parsed, spans⟩ := exists_of_any failed
  obtain ⟨⟨start_eq, stop_eq⟩, ran⟩ := by simpa only [Bool.and_eq_true, beq_iff_eq] using spans
  obtain ⟨results, middle, middleNotes, ran, failure⟩ := exists_run_of_any ran
  obtain ⟨outcome, later, notes, expanded, differs⟩ := exists_run_of_any changed
  exact ⟨declaration, results, middle, middleNotes, outcome, later, notes, parsed, start_eq, stop_eq,
    ran, by simpa using failure, expanded, bne_iff_ne.mp differs⟩

end PeerExpansion
