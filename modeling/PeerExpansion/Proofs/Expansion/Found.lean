import PeerExpansion.Proofs.Expansion.Insertion
import PeerExpansion.Proofs.Expansion.Search

/-! # The declarations that are found

Declarations are found in the order in which they begin, each with what came of its macros. A
declaration may begin inside another one, but never inside a variable.
-/

namespace PeerExpansion

open Expander Reading Work

variable {registry : Registry.Macros} {sourceName : String} {stream : TokenStream}
variable {place : Nat} {visits : List Visit} {findings : List Finding} {first last : Workshop}

/-! ## Results -/

namespace Work

theorem runs_mapM_cons {α β : Type} {task : α → Work β} {given : α} {others : List α}
    {values : List β} :
    Runs ((given :: others).mapM task) first values last ↔
      ∃ value middle rest, Runs (task given) first value middle ∧
        Runs (others.mapM task) middle rest last ∧ values = value :: rest := by
  rw [List.mapM_cons]
  simp only [runs_bind, runs_pure]
  constructor
  · rintro ⟨value, middle, run, rest, _, runs, rfl, rfl⟩
    exact ⟨value, middle, rest, run, runs, rfl⟩
  · rintro ⟨value, middle, rest, run, runs, rfl⟩
    exact ⟨value, middle, run, rest, last, runs, rfl, rfl⟩

end Work

theorem attribute_of_expandAttribute {declaration : Declaration} {attr : Attribute}
    {answer : Attribute × ExpansionResult}
    (runs : Runs (expandAttribute registry declaration sourceName attr) first answer last) :
    answer.1 = attr := by
  simp only [expandAttribute, runs_bind, runs_modify] at runs
  obtain ⟨generator, _, _, _, _, _, tail⟩ := runs
  split at tail
  · exact (runs_throw tail).elim
  · exact congrArg Prod.fst (runs_pure.mp tail).1

/-- Every macro attribute has its result. -/
theorem attributes_of_expandDeclaration {declaration : Declaration}
    {results : List (Attribute × ExpansionResult)}
    (runs : Runs (expandDeclaration registry declaration sourceName) first results last) :
    results.map (·.1) = macroAttributes registry declaration.attributes := by
  rw [expandDeclaration] at runs
  generalize macroAttributes registry declaration.attributes = attributes at runs ⊢
  induction attributes generalizing first results with
  | nil =>
    rw [List.mapM_nil, runs_pure] at runs
    rw [runs.1]
    rfl
  | cons attr others inductionHypothesis =>
    obtain ⟨answer, middle, rest, run, othersRun, rfl⟩ := runs_mapM_cons.mp runs
    rw [List.map_cons, attribute_of_expandAttribute run, inductionHypothesis othersRun]

/-! ## Declarations -/

def Sight.declaration? : Sight → Option Declaration
  | declared declaration => some declaration
  | _ => none

theorem Sight.eq_declared {sight : Sight} {declaration : Declaration}
    (known : sight.declaration? = some declaration) : sight = .declared declaration := by
  cases sight with
  | nothing | plain _ | unreadable _ _ => cases known
  | declared =>
    cases known
    rfl

def Finding.declaration? : Finding → Option Declaration
  | unreadable _ => none
  | declared declaration _ => some declaration

namespace Reports

variable (reports : Reports registry sourceName visits first findings last)
include reports

/-- No declaration that is seen goes unreported, and the order stays. -/
theorem declarations_eq : findings.filterMap Finding.declaration? =
    visits.filterMap (·.sight.declaration?) := by
  induction reports with
  | nil => rfl
  | nothing _ inductionHypothesis => exact inductionHypothesis
  | plain _ inductionHypothesis => exact inductionHypothesis
  | unreadable _ inductionHypothesis => exact inductionHypothesis
  | declared _ _ inductionHypothesis => exact congrArg (_ :: ·) inductionHypothesis

theorem attributes_eq {declaration : Declaration} {results : List (Attribute × ExpansionResult)}
    (member : .declared declaration results ∈ findings) :
    results.map (·.1) = macroAttributes registry declaration.attributes := by
  induction reports with
  | nil => cases member
  | nothing _ inductionHypothesis => exact inductionHypothesis member
  | plain _ inductionHypothesis => exact inductionHypothesis member
  | unreadable _ inductionHypothesis =>
    obtain impossible | member := List.mem_cons.mp member
    · cases impossible
    · exact inductionHypothesis member
  | declared runs _ inductionHypothesis =>
    obtain same | member := List.mem_cons.mp member
    · cases same
      exact attributes_of_expandDeclaration runs
    · exact inductionHypothesis member

end Reports

/-- How two declarations stand that are found one after the other: the peers of the first go in
front of the second unless the second begins inside the first. -/
structure Declaration.Precedes (stream : TokenStream) (first second : Declaration) : Prop where
  start_lt : first.start < second.start
  stop_le : first.isProperty = true → first.stop ≤ second.start
  point_le : first.stop ≤ second.start → Insertion.point stream first ≤ second.start

theorem Sees.spans {place next : Nat} {declaration : Declaration}
    (sees : Sees registry stream place (.declared declaration) next) :
    ∃ behind after, declaration.Spans stream place behind after ∧
      macroAttributes registry declaration.attributes ≠ [] ∧
        next = if declaration.isProperty then after else behind := by
  cases sees with
  | declared _ _ spans some => exact ⟨_, _, spans, some, rfl⟩

theorem Walk.precedes (walk : Walk registry stream place visits) (ordered : stream.Ordered) :
    (visits.filterMap (·.sight.declaration?)).Pairwise (Declaration.Precedes stream) := by
  rw [List.pairwise_filterMap]
  refine walk.pairwise.imp_of_mem ?_
  rintro ⟨place, sight, next⟩ ⟨otherPlace, otherSight, otherNext⟩ member otherMember later
    declaration seen other otherSeen
  obtain ⟨_, within, sees⟩ := walk.sees _ member
  obtain ⟨_, _, otherSees⟩ := walk.sees _ otherMember
  obtain rfl := Sight.eq_declared seen
  obtain rfl := Sight.eq_declared otherSeen
  dsimp only at later within sees otherSees
  have forward := sees.lt_next
  obtain ⟨behind, after, spans, _, next_eq⟩ := sees.spans
  obtain ⟨_, _, otherSpans, _⟩ := otherSees.spans
  constructor
  · rw [spans.start_eq, otherSpans.start_eq]
    exact ordered.start_lt_start (by omega) within
  · intro property
    rw [property, if_pos rfl] at next_eq
    rw [otherSpans.start_eq]
    exact spans.stop_le_start ordered (by omega)
  · intro behindIt
    rw [otherSpans.start_eq] at behindIt ⊢
    -- The second one starts behind the last token of the first, so at the token after that or later.
    have passed := spans.next_le_of_stop_le ordered behindIt
    exact Nat.le_trans (Insertion.point_le_start ordered spans) (ordered.start_le_start passed)

end PeerExpansion
