import Mathlib.Data.List.Basic
import PeerExpansion.Proofs.Expansion.Found

/-! # Expanded declarations

A declaration is expanded when none of its macros failed. Its text loses their attributes and gains
their peers, and it gets an edit of its own.
-/

namespace PeerExpansion

open Expander Work

/-- A declaration all of whose macros have expanded. -/
structure ExpandedDeclaration where
  declaration : Declaration
  results : List (Attribute × ExpansionResult)

namespace ExpandedDeclaration

variable (stream : TokenStream) (expanded : ExpandedDeclaration)

/-- The part of the source that is rewritten: the declaration, up to where its peers go. -/
def range : Nat × Nat :=
  (expanded.declaration.start, Insertion.point stream expanded.declaration)

def original : List Char :=
  Text.slice stream.source (expanded.range stream).1 (expanded.range stream).2

/-- The peers of all the macros, in the order of their attributes. -/
def peers : List String :=
  (expanded.results.filterMap fun (_, result) => result.expansion?).flatMap Expansion.peers

/-- The white space that the line of the declaration begins with. -/
def indent : List Char :=
  Insertion.indentation stream.source expanded.declaration.start

/-- The text without the attributes, each taken out up to the token behind it, and then the peers on
lines of their own. -/
def rewritten : List Char :=
  Text.without (expanded.results.map fun (attr, _) => attr.range stream)
      expanded.declaration.start (expanded.original stream) ++
    expanded.peers.flatMap (Insertion.peerBlock (expanded.indent stream))

def edit : Edit :=
  ⟨(expanded.range stream).1, (expanded.range stream).2, expanded.rewritten stream⟩

end ExpandedDeclaration

def Finding.expanded? : Finding → Option ExpandedDeclaration
  | unreadable _ => none
  | declared declaration results =>
    if results.all fun (_, result) => result.toBool then some ⟨declaration, results⟩ else none

/-- The declarations that have been expanded, in the order in which they were found. -/
def expandedDeclarations (findings : List Finding) : List ExpandedDeclaration :=
  findings.filterMap Finding.expanded?

variable {registry : Registry.Macros} {sourceName : String} {stream : TokenStream}
variable {visits : List Visit} {findings : List Finding} {first last : Workshop}

theorem mem_expandedDeclarations {expanded : ExpandedDeclaration} :
    expanded ∈ expandedDeclarations findings ↔
      .declared expanded.declaration expanded.results ∈ findings ∧
        ∀ answer ∈ expanded.results, answer.2.toBool = true := by
  simp only [expandedDeclarations, List.mem_filterMap]
  constructor
  · rintro ⟨finding, member, known⟩
    cases finding with
    | unreadable => cases known
    | declared declaration results =>
      simp only [Finding.expanded?] at known
      split at known
      next succeeded =>
        cases known
        exact ⟨member, List.all_eq_true.mp succeeded⟩
      next => cases known
  · rintro ⟨member, succeeded⟩
    exact ⟨_, member, if_pos (List.all_eq_true.mpr succeeded)⟩

theorem Finding.declaration?_of_expanded? {finding : Finding} {expanded : ExpandedDeclaration}
    (known : finding.expanded? = some expanded) :
    finding.declaration? = some expanded.declaration := by
  cases finding with
  | unreadable => cases known
  | declared declaration results =>
    simp only [Finding.expanded?] at known
    split at known
    next => cases known; rfl
    next => cases known

/-! ## Searches -/

/-- A search through all of a source, with its visits and its findings. -/
structure Searched (registry : Registry.Macros) (sourceName : String) (stream : TokenStream)
    (visits : List Visit) (first : Workshop) (findings : List Finding) (last : Workshop) : Prop where
  ordered : stream.Ordered
  walk : Walk registry stream 0 visits
  reports : Reports registry sourceName visits first findings last

theorem searched_of_find {source : List Char} (scanned : TokenStream.scan source = .ok stream)
    (runs : Runs (find registry sourceName stream) first findings last) :
    ∃ visits, Searched registry sourceName stream visits first findings last := by
  obtain ⟨_, ordered⟩ := TokenStream.ordered_of_scan scanned
  obtain ⟨visits, walk, reports⟩ := walk_of_find ordered runs
  exact ⟨visits, ordered, walk, reports⟩

/-- How an expansion arises from a source that can be read: all that it tells comes from the
findings of a search. -/
structure Arises (registry : Registry.Macros) (source : List Char) (sourceName : String)
    (first : Workshop) (stream : TokenStream) (findings : List Finding) (last : Workshop)
    (outcome : SourceExpansion) : Prop where
  scanned : TokenStream.scan source = .ok stream
  source_eq : stream.source = source
  runs : Runs (find registry sourceName stream) first findings last
  output_eq : outcome.source = Edit.applyAll (findings.filterMap (·.edit? stream)) source
  expansions_eq : outcome.expansions = findings.flatMap Finding.results
  diagnostics_eq : outcome.diagnostics = findings.flatMap (·.diagnostics sourceName)

theorem arises_of_expand {source : List Char} {outcome : SourceExpansion}
    (runs : Runs (expand registry source sourceName) first outcome last) :
    (∃ error, TokenStream.scan source = .error error ∧
      outcome = ⟨source, source, sourceName, [], [.ofSyntaxError error sourceName]⟩) ∨
    ∃ stream findings middle,
      Arises registry source sourceName first stream findings middle outcome := by
  unfold expand at runs
  split at runs
  next error unread => exact .inl ⟨error, unread, (runs_pure.mp runs).1⟩
  next stream scanned =>
    simp only [runs_bind, runs_modify, runs_pure] at runs
    obtain ⟨findings, middle, search, _, _, _, rfl, _⟩ := runs
    have source_eq := (TokenStream.ordered_of_scan scanned).1
    exact .inr ⟨stream, findings, middle, scanned, source_eq, search, rfl, rfl, rfl⟩

/-- Without tokens there is nothing to expand. -/
theorem runs_expand_of_error {source : List Char} {error : SyntaxError}
    (unread : TokenStream.scan source = .error error) (sourceName : String) (shop : Workshop) :
    Runs (expand registry source sourceName) shop
      ⟨source, source, sourceName, [], [.ofSyntaxError error sourceName]⟩ shop := by
  rw [expand, unread]
  exact runs_pure.mpr ⟨rfl, rfl⟩

/-- An expansion is made from what the search finds, and nothing can keep it from that. -/
theorem runs_expand {source : List Char} {findings : List Finding}
    (scanned : TokenStream.scan source = .ok stream)
    (search : Runs (find registry sourceName stream) first findings last) :
    ∃ final, Runs (expand registry source sourceName) first
      ⟨source, Edit.applyAll (findings.filterMap (·.edit? stream)) source, sourceName,
        findings.flatMap Finding.results, findings.flatMap (·.diagnostics sourceName)⟩ final := by
  simp only [expand, scanned, runs_bind, runs_modify, runs_pure]
  exact ⟨_, findings, last, search, ⟨⟩, _, rfl, rfl, rfl⟩

/-- What is seen of the findings of a search by evaluation is so for the expansion of the source. -/
theorem exists_arises_of_any {expander : Expander} {source : List Char}
    {accepts : TokenStream → List Finding → Bool}
    (found : (TokenStream.scan source).toOption.any (fun stream =>
      (expander.run (find registry sourceName stream)).1.toOption.any (accepts stream)) = true) :
    ∃ outcome later notes,
      expander.run (expand registry source sourceName) = (.ok outcome, later, notes) ∧
      ∃ stream findings shop,
        Arises registry source sourceName ⟨expander, []⟩ stream findings shop outcome ∧
          accepts stream findings = true := by
  obtain ⟨stream, scanned, searches⟩ := exists_of_any found
  obtain ⟨findings, later, notes, search, accepted⟩ := exists_run_of_any searches
  have run := run_eq_ok.mp search
  obtain ⟨shop, expanded⟩ := runs_expand scanned run
  have source_eq := (TokenStream.ordered_of_scan scanned).1
  exact ⟨_, shop.expander, shop.notes, run_eq_ok.mpr expanded, stream, findings, _,
    ⟨scanned, source_eq, run, rfl, rfl, rfl⟩, accepted⟩

theorem Arises.exists_searched {source : List Char} {outcome : SourceExpansion}
    (arises : Arises registry source sourceName first stream findings last outcome) :
    ∃ visits, Searched registry sourceName stream visits first findings last :=
  searched_of_find arises.scanned arises.runs

namespace Searched

variable (searched : Searched registry sourceName stream visits first findings last)
include searched

theorem exists_visit {declaration : Declaration} {results : List (Attribute × ExpansionResult)}
    (member : .declared declaration results ∈ findings) :
    ∃ visit ∈ visits, visit.sight = .declared declaration := by
  have seen : declaration ∈ visits.filterMap (·.sight.declaration?) := by
    rw [← searched.reports.declarations_eq]
    exact List.mem_filterMap.mpr ⟨_, member, rfl⟩
  obtain ⟨visit, visited, known⟩ := List.mem_filterMap.mp seen
  exact ⟨visit, visited, Sight.eq_declared known⟩

theorem exists_spans {declaration : Declaration} {results : List (Attribute × ExpansionResult)}
    (member : .declared declaration results ∈ findings) :
    ∃ index behind next, declaration.Spans stream index behind next ∧ results ≠ [] := by
  obtain ⟨⟨index, _, _⟩, visited, rfl⟩ := searched.exists_visit member
  obtain ⟨behind, next, spans, some, _⟩ := (searched.walk.sees _ visited).2.2.spans
  refine ⟨index, behind, next, spans, ?_⟩
  rintro rfl
  exact some (searched.reports.attributes_eq member).symm

/-- The edit of a finding, if it has one, is that of the expanded declaration. -/
theorem edit?_eq {finding : Finding} (member : finding ∈ findings) :
    finding.edit? stream = finding.expanded?.map (ExpandedDeclaration.edit stream) := by
  cases finding with
  | unreadable => rfl
  | declared declaration results =>
    obtain ⟨_, _, _, spans, _⟩ := searched.exists_spans member
    -- The attributes that were expanded are among those of the declaration, in their order.
    have some : (results.map (·.1)).Sublist declaration.attributes := by
      rw [searched.reports.attributes_eq member]
      exact List.filter_sublist
    simp only [Finding.edit?, Finding.expanded?]
    split
    · rw [Insertion.edit, Insertion.stripped_eq_without searched.ordered spans some, List.map_map]
      rfl
    · rfl

theorem edits_eq : findings.filterMap (·.edit? stream) =
    (expandedDeclarations findings).map (ExpandedDeclaration.edit stream) := by
  rw [expandedDeclarations, List.map_filterMap]
  exact List.filterMap_congr fun finding member => searched.edit?_eq member

theorem precedes : (findings.filterMap Finding.declaration?).Pairwise
    (Declaration.Precedes stream) := by
  rw [searched.reports.declarations_eq]
  exact searched.walk.precedes searched.ordered

theorem precedes_expanded : (expandedDeclarations findings).Pairwise
    fun front back => front.declaration.Precedes stream back.declaration := by
  refine List.pairwise_filterMap.mpr ((List.pairwise_filterMap.mp searched.precedes).imp ?_)
  intro finding other before expanded known otherExpanded otherKnown
  exact before _ (Finding.declaration?_of_expanded? known) _
    (Finding.declaration?_of_expanded? otherKnown)

/-- Of two declarations that are found one comes first. -/
theorem precedes_or_precedes {declaration other : Declaration}
    {results otherResults : List (Attribute × ExpansionResult)}
    (member : .declared declaration results ∈ findings)
    (otherMember : .declared other otherResults ∈ findings)
    (distinct : Finding.declared declaration results ≠ .declared other otherResults) :
    declaration.Precedes stream other ∨ other.Precedes stream declaration := by
  have pairwise := List.pairwise_filterMap.mp searched.precedes
  obtain same | before | behind := related_of_pairwise pairwise member otherMember
  · exact absurd same distinct
  · exact .inl (before declaration rfl other rfl)
  · exact .inr (behind other rfl declaration rfl)

/-- A declaration that is found takes a part of the source, and so do the places of its peers. -/
theorem extent_of_mem {declaration : Declaration} {results : List (Attribute × ExpansionResult)}
    (member : .declared declaration results ∈ findings) :
    declaration.start < declaration.stop ∧
      declaration.stop ≤ Insertion.point stream declaration ∧
        Insertion.point stream declaration ≤ stream.source.length := by
  obtain ⟨_, _, _, spans, _⟩ := searched.exists_spans member
  exact ⟨spans.start_lt_stop searched.ordered, Insertion.stop_le_point _ _,
    Insertion.point_le_length searched.ordered spans⟩

end Searched

/-! ## Expansions as splices

The text of an expansion is the source with the expanded declarations rewritten, each in its place,
unless one of them begins inside another. What is in front, between and behind them stays.
-/

/-- `inner` begins inside `outer`, and `outer` is more than a variable. -/
def Nested (outer inner : ExpandedDeclaration) : Prop :=
  outer.declaration.isProperty = false ∧ outer.declaration.start < inner.declaration.start ∧
    inner.declaration.start < outer.declaration.stop

/-- No expanded declaration begins inside another one. -/
def Unnested (findings : List Finding) : Prop :=
  ∀ outer ∈ expandedDeclarations findings, ∀ inner ∈ expandedDeclarations findings,
    ¬ Nested outer inner

def expandedRanges (stream : TokenStream) (findings : List Finding) : List (Nat × Nat) :=
  (expandedDeclarations findings).map (ExpandedDeclaration.range stream)

/-- What the source consists of besides the expanded declarations. -/
def keptParts (stream : TokenStream) (findings : List Finding) : List (List Char) :=
  Edit.gaps stream.source 0 (expandedRanges stream findings)

/-- The text of an expansion comes about by putting other text in the place of the expanded
declarations. -/
structure Spliced (stream : TokenStream) (findings : List Finding) (output : List Char) : Prop where
  filled : ∀ range ∈ expandedRanges stream findings,
    range.1 < range.2 ∧ range.2 ≤ stream.source.length
  pairwise : (expandedRanges stream findings).Pairwise fun front back => front.2 ≤ back.1
  source_eq : stream.source = Edit.weave (keptParts stream findings)
    ((expandedDeclarations findings).map (ExpandedDeclaration.original stream))
  output_eq : output = Edit.weave (keptParts stream findings)
    ((expandedDeclarations findings).map (ExpandedDeclaration.rewritten stream))

namespace Searched

variable (searched : Searched registry sourceName stream visits first findings last)
include searched

theorem apart (unnested : Unnested findings) :
    Edit.Apart stream.source.length
      ((expandedDeclarations findings).map (ExpandedDeclaration.edit stream)) where
  inside := by
    simp only [List.forall_mem_map]
    intro expanded member
    have extent := searched.extent_of_mem (mem_expandedDeclarations.mp member).1
    exact ⟨Nat.lt_of_lt_of_le extent.1 extent.2.1, extent.2.2⟩
  pairwise := by
    rw [List.pairwise_map]
    refine searched.precedes_expanded.imp_of_mem ?_
    intro outer inner member otherMember before
    refine before.point_le ?_
    -- Otherwise the second begins inside the first.
    by_contra inside
    cases property : outer.declaration.isProperty with
    | true => exact inside (before.stop_le property)
    | false =>
      exact unnested outer member inner otherMember ⟨property, before.start_lt, by omega⟩

theorem spliced (unnested : Unnested findings) :
    Spliced stream findings (Edit.applyAll (findings.filterMap (·.edit? stream)) stream.source) := by
  have apart := searched.apart unnested
  have ranges_eq : ((expandedDeclarations findings).map (ExpandedDeclaration.edit stream)).map
      Edit.range = expandedRanges stream findings := List.map_map
  constructor
  · exact List.forall_mem_map.mpr (List.forall_mem_map.mp apart.inside)
  · exact List.pairwise_map.mpr (List.pairwise_map.mp apart.pairwise)
  · have woven := Edit.weave_slices apart (fun _ _ => Nat.zero_le _)
    rw [ranges_eq, List.map_map] at woven
    exact woven.symm
  · rw [searched.edits_eq, Edit.applyAll_eq_splice apart (.refl _), Edit.splice_eq_weave, ranges_eq,
      List.map_map]
    rfl

end Searched

end PeerExpansion
