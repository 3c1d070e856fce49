import PeerExpansion.Proofs.Expansion.Nesting
import PeerExpansion.Proofs.Expansion.Stripping

/-! # Reported expansions and what came of them

An expansion tells the results of all macros that were found. Those of a declaration that expanded
are in the output, with their peers behind it. Where one macro of a declaration fails, the
declaration stays as it is, and the results of its other macros are told although nothing has come
of them.
-/

namespace PeerExpansion

open Expander Work

/-- What became of the peers of a macro that are in the output: the declaration has lost its
attributes, and behind it there are at most the peers of other macros in front. -/
structure Applied (stream : TokenStream) (findings : List Finding) (output : List Char)
    (expanded : ExpandedDeclaration) (expansion : Expansion) : Prop where
  member : expanded ∈ expandedDeclarations findings
  stands : ∃ front earlier back, output = front ++
    (expanded.bare stream ++ expanded.trailing stream ++
      (earlier ++ expansion.peers).flatMap (Insertion.peerBlock (expanded.indent stream))) ++ back

/-- The successful results of macros of a declaration where another one failed. -/
def Finding.strays : Finding → List Expansion
  | unreadable _ => []
  | declared _ results =>
    if results.all fun (_, result) => result.toBool then []
    else results.filterMap fun (_, result) => result.expansion?

/-- How many macros have expanded at declarations that were rewritten. -/
def appliedCount (findings : List Finding) : Nat :=
  ((expandedDeclarations findings).flatMap ExpandedDeclaration.results).length

/-- How the results that are told come from the findings, and what became of the successful ones. -/
structure Reported (stream : TokenStream) (findings : List Finding) (outcome : SourceExpansion) :
    Prop where
  /-- All that is told of a success was found at a declaration. -/
  found : ∀ expansion, .ok expansion ∈ outcome.expansions → ∃ declaration results attr,
    .declared declaration results ∈ findings ∧ (attr, .ok expansion) ∈ results
  /-- It is in the output just where no other macro of the declaration failed. -/
  settled : ∀ declaration results attr expansion, .declared declaration results ∈ findings →
    (attr, .ok expansion) ∈ results →
      (∀ answer ∈ results, answer.2.toBool = true) ∧
          Applied stream findings outcome.source ⟨declaration, results⟩ expansion ∨
        (∃ answer ∈ results, answer.2.toBool = false) ∧ Spared stream findings declaration
  count : outcome.expandedCount = appliedCount findings + (findings.flatMap Finding.strays).length
  /-- No more is counted than is in the output just where all macros of a declaration fail if one of
  them does. -/
  truthful : outcome.expandedCount = appliedCount findings ↔
    ∀ declaration results, .declared declaration results ∈ findings →
      (∃ answer ∈ results, answer.2.toBool = false) → ∀ answer ∈ results, answer.2.toBool = false

def ReportLaw (registry : Registry.Macros) (expander : Expander) (source : List Char)
    (sourceName : String) (outcome : SourceExpansion) : Prop :=
  (∃ error, TokenStream.scan source = .error error ∧ outcome.source = source ∧
      outcome.expansions = []) ∨
    ∃ stream findings shop,
      Arises registry source sourceName ⟨expander, []⟩ stream findings shop outcome ∧
      Spliced stream findings outcome.source ∧ Reported stream findings outcome

variable {registry : Registry.Macros} {sourceName : String} {stream : TokenStream}
variable {visits : List Visit} {findings : List Finding} {first last : Workshop}

/-! ## Counts -/

theorem length_filterMap_expansion? (results : List (Attribute × ExpansionResult)) :
    (results.filterMap fun (_, result) => result.expansion?).length =
      ((results.map (·.2)).filter fun result => result.toBool).length := by
  induction results with
  | nil => rfl
  | cons answer others inductionHypothesis =>
    obtain ⟨attr, result⟩ := answer
    cases result with
    | error => exact inductionHypothesis
    | ok => exact congrArg Nat.succ inductionHypothesis

/-- The successes of a declaration count for the output, or else they are strays. -/
theorem length_filter_results (finding : Finding) :
    (finding.results.filter fun result => result.toBool).length =
      (finding.expanded?.map fun expanded => expanded.results.length).getD 0 +
        finding.strays.length := by
  cases finding with
  | unreadable => rfl
  | declared declaration results =>
    rw [Finding.results, Finding.expanded?, Finding.strays]
    split
    next succeeded =>
      have all : (results.map (·.2)).filter (fun result => result.toBool) = results.map (·.2) :=
        List.filter_eq_self.mpr (List.forall_mem_map.mpr (List.all_eq_true.mp succeeded))
      rw [all, List.length_map]
      rfl
    next =>
      rw [length_filterMap_expansion?]
      exact (Nat.zero_add _).symm

theorem length_filter_flatMap_results (findings : List Finding) :
    ((findings.flatMap Finding.results).filter fun result => result.toBool).length =
      appliedCount findings + (findings.flatMap Finding.strays).length := by
  induction findings with
  | nil => rfl
  | cons finding others inductionHypothesis =>
    have applied_eq : appliedCount (finding :: others) =
        (finding.expanded?.map fun expanded => expanded.results.length).getD 0 +
          appliedCount others := by
      rw [appliedCount, expandedDeclarations, List.filterMap_cons]
      cases finding.expanded? with
      | none => exact (Nat.zero_add _).symm
      | some expanded => exact List.length_append
    rw [List.flatMap_cons, List.filter_append, List.length_append, inductionHypothesis,
      length_filter_results, applied_eq, List.flatMap_cons, List.length_append]
    omega

theorem strays_eq_nil_iff {declaration : Declaration}
    {results : List (Attribute × ExpansionResult)} :
    (Finding.declared declaration results).strays = [] ↔
      ((∃ answer ∈ results, answer.2.toBool = false) →
        ∀ answer ∈ results, answer.2.toBool = false) := by
  have none_iff (answer : Attribute × ExpansionResult) :
      answer.2.expansion? = none ↔ answer.2.toBool = false := by
    obtain ⟨_, _ | _⟩ := answer <;> simp [ExpansionResult.expansion?, Except.toBool]
  rw [Finding.strays]
  split
  next succeeded =>
    refine iff_of_true rfl ?_
    rintro ⟨answer, member, failed⟩
    cases failed.symm.trans (List.all_eq_true.mp succeeded answer member)
  next failing =>
    have failed : ∃ answer ∈ results, answer.2.toBool = false := by simpa using failing
    rw [List.filterMap_eq_nil_iff, forall_prop_of_true failed]
    exact forall₂_congr fun answer _ => none_iff answer

/-! ## Peers in the output -/

theorem ExpandedDeclaration.exists_peers_eq {expanded : ExpandedDeclaration} {attr : Attribute}
    {expansion : Expansion} (answered : (attr, .ok expansion) ∈ expanded.results) :
    ∃ earlier later, expanded.peers = earlier ++ expansion.peers ++ later := by
  obtain ⟨front, back, results_eq⟩ := List.append_of_mem answered
  rw [peers, results_eq]
  simp only [List.filterMap_append, List.filterMap_cons, ExpansionResult.expansion?,
    List.flatMap_append, List.flatMap_cons, ← List.append_assoc]
  exact ⟨_, _, rfl⟩

theorem Searched.applied
    (searched : Searched registry sourceName stream visits first findings last)
    {source output : List Char} (scanned : TokenStream.scan source = .ok stream)
    (spliced : Spliced stream findings output) {expanded : ExpandedDeclaration}
    (member : expanded ∈ expandedDeclarations findings) {attr : Attribute} {expansion : Expansion}
    (answered : (attr, .ok expansion) ∈ expanded.results) :
    Applied stream findings output expanded expansion := by
  obtain ⟨front, back, output_eq⟩ := spliced.rewritten_infix member
  obtain ⟨earlier, later, peers_eq⟩ := ExpandedDeclaration.exists_peers_eq answered
  rw [(searched.stripped scanned member).rewritten_eq, peers_eq, List.flatMap_append] at output_eq
  refine ⟨member, front, earlier,
    later.flatMap (Insertion.peerBlock (expanded.indent stream)) ++ back, ?_⟩
  rw [← output_eq]
  simp only [List.append_assoc]

/-- What is told of successes is in the output but for the results of declarations of which another
macro failed. -/
theorem reportLaw_of_expand {expander later : Expander} {source : List Char}
    {outcome : SourceExpansion} {notes : List LogRecord} (kept : registry.KeepsExpand)
    (cached : expander.KeepsExpand)
    (expanded : expander.run (expand registry source sourceName) = (.ok outcome, later, notes)) :
    ReportLaw registry expander source sourceName outcome := by
  obtain ⟨error, unread, rfl⟩ | ⟨stream, findings, shop, arises⟩ :=
    arises_of_expand (run_eq_ok.mp expanded)
  · exact .inl ⟨error, unread, rfl, rfl⟩
  obtain ⟨visits, searched⟩ := arises.exists_searched
  have spliced := searched.spliced (searched.unnested kept cached)
  rw [arises.source_eq, ← arises.output_eq] at spliced
  have count : outcome.expandedCount =
      appliedCount findings + (findings.flatMap Finding.strays).length := by
    rw [SourceExpansion.expandedCount, arises.expansions_eq, length_filter_flatMap_results]
  refine .inr ⟨stream, findings, shop, arises, spliced, ?_, ?_, count, ?_⟩
  · intro expansion told
    rw [arises.expansions_eq] at told
    obtain ⟨finding, member, answered⟩ := List.mem_flatMap.mp told
    cases finding with
    | unreadable => cases answered
    | declared declaration results =>
      obtain ⟨⟨attr, _⟩, found, rfl⟩ := List.mem_map.mp answered
      exact ⟨declaration, results, attr, member, found⟩
  · -- One failure keeps the declaration from being edited, whatever the other macros came to.
    intro declaration results attr expansion member answered
    by_cases succeeded : ∀ answer ∈ results, answer.2.toBool = true
    · have among : ⟨declaration, results⟩ ∈ expandedDeclarations findings :=
        mem_expandedDeclarations.mpr ⟨member, succeeded⟩
      exact .inl ⟨succeeded, searched.applied arises.scanned spliced among answered⟩
    · have failed : ∃ answer ∈ results, answer.2.toBool = false := by simpa using succeeded
      exact .inr ⟨failed, searched.spared kept cached member failed⟩
  · rw [count, Nat.add_eq_left, List.length_eq_zero_iff, List.flatMap_eq_nil_iff]
    constructor
    · intro none declaration results member
      exact strays_eq_nil_iff.mp (none _ member)
    · intro settled finding member
      cases finding with
      | unreadable => rfl
      | declared declaration results => exact strays_eq_nil_iff.mpr (settled _ _ member)

/-- A declaration one of whose two macros fails, and one that expands. -/
def halfSample : List Char :=
  "@ImageCache @ImageCache(1) var fooData: Data?\n@ImageCache var barData: Data?".toList

set_option maxRecDepth 20000 in
theorem reportLaw_halfSample : ∃ outcome later notes,
    phoneExpander.run (expand (Registry.standard "linux") halfSample "<input>") =
        (.ok outcome, later, notes) ∧
      outcome.expandedCount = 2 ∧
      ReportLaw (Registry.standard "linux") phoneExpander halfSample "<input>" outcome := by
  have evaluated : (phoneExpander.run (expand (Registry.standard "linux") halfSample
      "<input>")).1.toOption.any (fun outcome => outcome.expandedCount == 2) = true := by
    decide +kernel
  obtain ⟨outcome, later, notes, expanded, count⟩ := exists_run_of_any evaluated
  exact ⟨outcome, later, notes, expanded, eq_of_beq count,
    reportLaw_of_expand (Registry.standard_keepsExpand "linux")
      (Expander.ofSource_keepsExpand _ _) expanded⟩

/-- A declaration one of whose two macros fails. -/
def spoiledSample : List Char :=
  "@ImageCache @ImageCache(1)\nvar fooData: Data?".toList

set_option maxRecDepth 20000 in
/-- The sample stays as it is, but a success is counted and told, with peers that are nowhere in the
output. -/
theorem spoiledSample_is_counted : ∃ outcome later notes,
    phoneExpander.run (expand (Registry.standard "linux") spoiledSample "<input>") =
        (.ok outcome, later, notes) ∧
      outcome.source = spoiledSample ∧ outcome.expandedCount = 1 ∧
      ∃ expansion, .ok expansion ∈ outcome.expansions ∧
        ∃ peer ∈ expansion.peers, ¬ peer.toList <:+: outcome.source := by
  have evaluated : (phoneExpander.run (expand (Registry.standard "linux") spoiledSample
      "<input>")).1.toOption.any (fun outcome => outcome.source == spoiledSample &&
        outcome.expandedCount == 1 && (outcome.expansions.filterMap
          ExpansionResult.expansion?).any fun expansion => expansion.peers.any fun peer =>
            peer.toList.contains '=') = true := by
    decide +kernel
  obtain ⟨outcome, later, notes, expanded, told⟩ := exists_run_of_any evaluated
  simp only [Bool.and_eq_true, beq_iff_eq, List.any_eq_true, List.contains_iff_mem,
    List.mem_filterMap] at told
  obtain ⟨⟨source_eq, count⟩, expansion, ⟨result, reported, known⟩, peer, member, assigns⟩ := told
  refine ⟨outcome, later, notes, expanded, source_eq, count, expansion, ?_, peer, member, ?_⟩
  · cases result with
    | error => cases known
    | ok =>
      cases known
      exact reported
  · -- Nothing is assigned in the sample.
    rw [source_eq]
    exact fun inside => absurd (inside.subset assigns) (by decide)

end PeerExpansion
