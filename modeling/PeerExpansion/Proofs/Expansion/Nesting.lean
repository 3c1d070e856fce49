import PeerExpansion.Proofs.Expansion.Expanded

/-! # Declarations expanded inside others

Behind the attributes of anything but a variable the search goes on, so a type and its members may
all be expanded. Each gets an edit that refers to the source as it was. The edits overlap when, and
only when, one expanded declaration begins inside another; as long as none does, nothing is lost.
-/

namespace PeerExpansion

open Expander Work

/-- What is true of the edits of an expansion, whatever its macros are. -/
def EditsLaw (registry : Registry.Macros) (expander : Expander) (source : List Char)
    (sourceName : String) (outcome : SourceExpansion) : Prop :=
  (∃ error, TokenStream.scan source = .error error ∧ outcome.source = source) ∨
    ∃ stream findings shop,
      Arises registry source sourceName ⟨expander, []⟩ stream findings shop outcome ∧
      ((findings.filterMap (·.edit? stream)).Pairwise Edit.Disjoint ↔ Unnested findings) ∧
      (Unnested findings → Spliced stream findings outcome.source ∧
        ∀ expanded ∈ expandedDeclarations findings, ∀ peer ∈ expanded.peers,
          Insertion.peerBlock (expanded.indent stream) peer <:+: outcome.source)

variable {registry : Registry.Macros} {sourceName : String} {stream : TokenStream}
variable {visits : List Visit} {findings : List Finding} {first last : Workshop}

theorem ExpandedDeclaration.peerBlock_infix_rewritten {expanded : ExpandedDeclaration}
    {peer : String} (member : peer ∈ expanded.peers) :
    Insertion.peerBlock (expanded.indent stream) peer <:+: expanded.rewritten stream := by
  obtain ⟨front, back, peers_eq⟩ := List.append_of_mem member
  rw [rewritten, peers_eq, List.flatMap_append, List.flatMap_cons, ← List.append_assoc,
    ← List.append_assoc]
  exact List.infix_append _ _ _

theorem Spliced.rewritten_infix {output : List Char} (spliced : Spliced stream findings output)
    {expanded : ExpandedDeclaration} (member : expanded ∈ expandedDeclarations findings) :
    expanded.rewritten stream <:+: output := by
  have enough : ((expandedDeclarations findings).map
      (ExpandedDeclaration.rewritten stream)).length < (keptParts stream findings).length := by
    rw [keptParts, Edit.length_gaps, expandedRanges, List.length_map, List.length_map]
    exact Nat.lt_succ_self _
  rw [spliced.output_eq]
  exact Edit.infix_weave enough _ (List.mem_map_of_mem member)

theorem Spliced.peerBlock_infix {output : List Char} (spliced : Spliced stream findings output)
    {expanded : ExpandedDeclaration} (member : expanded ∈ expandedDeclarations findings)
    {peer : String} (peerMember : peer ∈ expanded.peers) :
    Insertion.peerBlock (expanded.indent stream) peer <:+: output :=
  (ExpandedDeclaration.peerBlock_infix_rewritten peerMember).trans (spliced.rewritten_infix member)

namespace Searched

variable (searched : Searched registry sourceName stream visits first findings last)
include searched

/-- Edits of declarations one of which begins inside the other overlap. -/
theorem not_disjoint_of_nested {outer inner : ExpandedDeclaration}
    (member : outer ∈ expandedDeclarations findings)
    (innerMember : inner ∈ expandedDeclarations findings) (nested : Nested outer inner) :
    ¬ (outer.edit stream).Disjoint (inner.edit stream) := by
  have outerExtent := searched.extent_of_mem (mem_expandedDeclarations.mp member).1
  have innerExtent := searched.extent_of_mem (mem_expandedDeclarations.mp innerMember).1
  obtain ⟨_, after, inside⟩ := nested
  simp only [Edit.Disjoint, ExpandedDeclaration.edit, ExpandedDeclaration.range]
  omega

theorem pairwise_disjoint_iff :
    (findings.filterMap (·.edit? stream)).Pairwise Edit.Disjoint ↔ Unnested findings := by
  rw [searched.edits_eq]
  constructor
  · intro disjoint outer member inner innerMember nested
    have overlap := searched.not_disjoint_of_nested member innerMember nested
    obtain same | apart | apart :=
      related_of_pairwise (List.pairwise_map.mp disjoint) member innerMember
    · -- No declaration begins inside itself.
      subst same
      exact Nat.lt_irrefl _ nested.2.1
    · exact overlap apart
    · exact overlap apart.symm
  · intro unnested
    exact (searched.apart unnested).pairwise.imp .inl

end Searched

/-- The edits of an expansion do not overlap unless an expanded declaration begins inside another
one, and then none of them is lost. -/
theorem editsLaw_of_expand {expander later : Expander} {source : List Char}
    {outcome : SourceExpansion} {notes : List LogRecord}
    (expanded : expander.run (expand registry source sourceName) = (.ok outcome, later, notes)) :
    EditsLaw registry expander source sourceName outcome := by
  obtain ⟨error, unread, rfl⟩ | ⟨stream, findings, shop, arises⟩ :=
    arises_of_expand (run_eq_ok.mp expanded)
  · exact .inl ⟨error, unread, rfl⟩
  obtain ⟨visits, searched⟩ := arises.exists_searched
  refine .inr ⟨stream, findings, shop, arises, searched.pairwise_disjoint_iff, fun unnested => ?_⟩
  have spliced := searched.spliced unnested
  rw [arises.source_eq, ← arises.output_eq] at spliced
  exact ⟨spliced, fun expanded member peer peerMember => spliced.peerBlock_infix member peerMember⟩

/-! ## A class that expands everything -/

/-- A generator that makes the same peer for every declaration. -/
def echoGenerator (configuration : Configuration) : Generator where
  className := "EchoGenerator"
  macroName := "Echo"
  role := "peer"
  configuration := configuration
  settings := []
  templateNames := []
  plan _ _ := .settled ⟨[], .ok ["let p = 0"]⟩

def echoRegistry : Registry.Macros where
  classes := [("Echo", ⟨"EchoGenerator", "echo", .ok ∘ echoGenerator⟩)]
  aliases := []

def siblingSample : List Char :=
  "@Echo struct S \x7b\x7d\n@Echo var x: Int".toList

set_option maxRecDepth 20000 in
theorem editsLaw_siblingSample : ∃ outcome later notes,
    phoneExpander.run (expand echoRegistry siblingSample "<input>") = (.ok outcome, later, notes) ∧
      outcome.expandedCount = 2 ∧
      EditsLaw echoRegistry phoneExpander siblingSample "<input>" outcome := by
  have evaluated : (phoneExpander.run (expand echoRegistry siblingSample
      "<input>")).1.toOption.any (fun outcome => outcome.expandedCount == 2) = true := by
    decide +kernel
  obtain ⟨outcome, later, notes, expanded, count⟩ := exists_run_of_any evaluated
  exact ⟨outcome, later, notes, expanded, eq_of_beq count, editsLaw_of_expand expanded⟩

def nestingSample : List Char :=
  "@Echo struct S \x7b\n@Echo var x: Int\n\x7d".toList

def nestingEdits : List Edit :=
  [⟨0, 35, "struct S \x7b\n@Echo var x: Int\n\x7d\nlet p = 0".toList⟩,
    ⟨17, 33, "var x: Int\nlet p = 0".toList⟩]

set_option maxRecDepth 20000 in
/-- A type and its member are both expanded, without a complaint, and their edits overlap: the peer
of the member is lost but for its end, which stands behind the peer of the type. -/
theorem nestingSample_overlaps : ∃ outcome later notes stream findings shop,
    phoneExpander.run (expand echoRegistry nestingSample "<input>") = (.ok outcome, later, notes) ∧
      outcome.diagnostics = [] ∧ outcome.expandedCount = 2 ∧
      Arises echoRegistry nestingSample "<input>" ⟨phoneExpander, []⟩ stream findings shop outcome ∧
      ¬ (findings.filterMap (·.edit? stream)).Pairwise Edit.Disjoint ∧
      outcome.source = "struct S \x7b\n@Echo var x: Int\n\x7d\nlet p = 0 0\n\x7d".toList := by
  have evaluated : (phoneExpander.run (expand echoRegistry nestingSample
      "<input>")).1.toOption.any (fun outcome => outcome.diagnostics.isEmpty &&
        outcome.expandedCount == 2) = true := by
    decide +kernel
  have edits : (TokenStream.scan nestingSample).toOption.any (fun stream =>
      (phoneExpander.run (find echoRegistry "<input>" stream)).1.toOption.any fun findings =>
        findings.filterMap (·.edit? stream) == nestingEdits) = true := by
    decide +kernel
  obtain ⟨outcome, later, notes, expanded, told⟩ := exists_run_of_any evaluated
  obtain ⟨clean, count⟩ := Bool.and_eq_true_iff.mp told
  obtain ⟨stream, scanned, edits⟩ := exists_of_any edits
  obtain ⟨findings, shop, searchNotes, found, edits⟩ := exists_run_of_any edits
  have edits_eq := eq_of_beq edits
  obtain ⟨_, unread, _⟩ | ⟨stream, findings, shop, arises⟩ :=
    arises_of_expand (run_eq_ok.mp expanded)
  · cases unread.symm.trans scanned
  -- There is one way to read the source and one search, so the edits are those evaluated above.
  cases arises.scanned.symm.trans scanned
  cases arises.runs.symm.trans (run_eq_ok.mp found)
  refine ⟨outcome, later, notes, _, _, _, expanded, List.isEmpty_iff.mp clean, eq_of_beq count,
    arises, ?_, ?_⟩
  · rw [edits_eq]
    simp [nestingEdits, Edit.Disjoint]
  · -- Sorting does not evaluate, but what it comes to is settled by the order.
    have sorted : nestingEdits.mergeSort Edit.isNoEarlier = nestingEdits.reverse :=
      Edit.mergeSort_eq (by decide +kernel) (List.reverse_perm _).symm
    rw [arises.output_eq, edits_eq, Edit.applyAll, sorted]
    decide +kernel

end PeerExpansion
