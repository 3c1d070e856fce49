import PeerExpansion.Expansion.Insertion
import PeerExpansion.Proofs.Declaration.Span
import PeerExpansion.Proofs.Edit.Splice
import PeerExpansion.Proofs.Text.Lines

/-! # Where peers go and what goes with an attribute

The peers go in front of the first token behind the declaration, and the spans that are taken out
of the declaration stand apart, one for every attribute.
-/

namespace PeerExpansion.Insertion

variable {stream : TokenStream} {place behind next : Nat} {declaration : Declaration}

/-! ## The point -/

theorem le_lineEnd (source : List Char) (offset : Nat) : offset ≤ lineEnd source offset :=
  Nat.le_add_right _ _

theorem lineEnd_le {source : List Char} {offset : Nat} (inside : offset ≤ source.length) :
    lineEnd source offset ≤ source.length := by
  have taken := (List.takeWhile_sublist (l := source.drop offset) (· != '\n')).length_le
  rw [List.length_drop] at taken
  rw [lineEnd]
  omega

theorem stop_le_point (stream : TokenStream) (declaration : Declaration) :
    declaration.stop ≤ point stream declaration := by
  have reached := le_lineEnd stream.source declaration.stop
  simp only [point]
  split
  · exact Nat.le_refl _
  · split
    · exact reached
    · exact Nat.le_refl _

/-- No token lies between a declaration and its peers. -/
theorem point_le_start (ordered : stream.Ordered)
    (spans : declaration.Spans stream place behind next) :
    point stream declaration ≤ (stream.token next).start := by
  have stop_le := spans.stop_le_start ordered (Nat.le_refl next)
  simp only [point, spans.firstFrom_stop ordered]
  split
  · exact stop_le
  · split
    next free _ =>
      -- The end of the line is taken only where no token comes before it.
      obtain isEnding | behindLine : (stream.token next).kind = .ending ∨
          lineEnd stream.source declaration.stop ≤ (stream.token next).start := by
        simpa [or_iff_not_imp_left] using free
      · have beyond : stream.words.length ≤ next := by
          by_contra within
          rw [TokenStream.token_eq_getElem (by omega)] at isEnding
          exact (ordered.filled _ (List.getElem_mem _)).1 isEnding
        rw [TokenStream.token_eq_ending beyond, ordered.ending_start]
        exact lineEnd_le (spans.stop_le_length ordered)
      · exact behindLine
    next => exact stop_le

theorem point_le_length (ordered : stream.Ordered)
    (spans : declaration.Spans stream place behind next) :
    point stream declaration ≤ stream.source.length :=
  Nat.le_trans (point_le_start ordered spans) (ordered.start_le_length next)

/-! ## The attributes -/

/-- An attribute and what goes with it lie in the declaration. -/
theorem range_of_mem (ordered : stream.Ordered)
    (spans : declaration.Spans stream place behind next) {attr : Attribute}
    (member : attr ∈ declaration.attributes) :
    declaration.start ≤ (attr.range stream).1 ∧ (attr.range stream).1 < (attr.range stream).2 ∧
      (attr.range stream).2 ≤ declaration.stop := by
  obtain ⟨first, last, _, after, before, attrSpans, _⟩ := spans.row.spans_of_mem attr member
  have inside := attrSpans.index_lt
  have within := spans.behind_lt
  simp only [Attribute.range, attrSpans.firstFrom_stop ordered]
  refine ⟨?_, attrSpans.start_lt ordered (by omega), ?_⟩
  · rw [spans.start_eq, attrSpans.start_eq]
    exact ordered.start_le_start after
  · rw [spans.stop_eq]
    exact Nat.le_trans (ordered.start_le_start (by omega))
      (Nat.le_of_lt (ordered.start_lt_stop spans.last_lt))

/-- The limit at the end of the declaration is never reached. -/
theorem removal_eq (ordered : stream.Ordered)
    (spans : declaration.Spans stream place behind next) {attr : Attribute}
    (member : attr ∈ declaration.attributes) :
    removal stream declaration attr = ⟨(attr.range stream).1 - declaration.start,
      (attr.range stream).2 - declaration.start, []⟩ := by
  have inside : (stream.firstFrom attr.stop).start ≤ declaration.stop :=
    (range_of_mem ordered spans member).2.2
  rw [removal, Nat.min_eq_left inside]
  rfl

theorem apart_removals (ordered : stream.Ordered)
    (spans : declaration.Spans stream place behind next) {expanded : List Attribute}
    (some : expanded.Sublist declaration.attributes) :
    Edit.Apart (point stream declaration - declaration.start)
      (expanded.map (removal stream declaration)) where
  inside := by
    have reached := stop_le_point stream declaration
    simp only [List.forall_mem_map]
    intro attr member
    have inside := range_of_mem ordered spans (some.subset member)
    rw [removal_eq ordered spans (some.subset member)]
    simp only
    omega
  pairwise := by
    rw [List.pairwise_map]
    refine (spans.row.pairwise ordered |>.sublist some).imp_of_mem ?_
    intro first second member otherMember before
    rw [removal_eq ordered spans (some.subset member),
      removal_eq ordered spans (some.subset otherMember)]
    simp only
    omega

/-- What is left of a declaration is its text without the expanded attributes. -/
theorem stripped_eq_without (ordered : stream.Ordered)
    (spans : declaration.Spans stream place behind next) {expanded : List Attribute}
    (some : expanded.Sublist declaration.attributes) :
    stripped stream declaration expanded =
      Text.without (expanded.map (Attribute.range stream)) declaration.start
        (Text.slice stream.source declaration.start (point stream declaration)) := by
  have apart := apart_removals ordered spans some
  have length_eq : (Text.slice stream.source declaration.start (point stream declaration)).length =
      point stream declaration - declaration.start :=
    Text.length_slice stream.source (point_le_length ordered spans)
  rw [← length_eq] at apart
  have ranges : (expanded.map (removal stream declaration)).map (Edit.rangeFrom declaration.start) =
      expanded.map (Attribute.range stream) := by
    rw [List.map_map]
    refine List.map_congr_left fun attr member => ?_
    have inside := range_of_mem ordered spans (some.subset member)
    simp only [Function.comp_apply, removal_eq ordered spans (some.subset member), Edit.rangeFrom]
    rw [Nat.add_sub_cancel' inside.1, Nat.add_sub_cancel' (by omega)]
  have erasing : ∀ edit ∈ expanded.map (removal stream declaration), edit.replacement = [] := by
    simp [removal]
  calc stripped stream declaration expanded
    _ = Edit.splice (Text.slice stream.source declaration.start (point stream declaration)) 0
          (expanded.map (removal stream declaration)) := Edit.applyAll_eq_splice apart (.refl _)
    _ = _ := by
      rw [Edit.splice_eq_without apart erasing declaration.start fun _ _ => Nat.zero_le _, ranges]
      rfl

/-! ## What is put in -/

section Characters

variable {character : Char}

theorem not_mem_indentation {source : List Char} (absent : character ∉ source) (offset : Nat) :
    character ∉ indentation source offset := by
  intro present
  have line := List.takeWhile_subset _ present
  rw [List.mem_reverse] at line
  have front := List.mem_reverse.mp (List.takeWhile_subset _ line)
  exact absent (List.take_subset _ _ front)

theorem not_mem_stripped (absent : character ∉ stream.source) (declaration : Declaration)
    (expanded : List Attribute) : character ∉ stripped stream declaration expanded := by
  refine Edit.not_mem_applyAll ?_ (by simp [removal])
  intro present
  exact absent (List.drop_subset _ _ (List.take_subset _ _ present))

/-- Besides line feeds, an edit puts in what is in the source or in the peers. -/
theorem not_mem_edit (other : character ≠ '\n') (absent : character ∉ stream.source)
    {peers : List String} (each : ∀ peer ∈ peers, character ∉ peer.toList)
    (declaration : Declaration) (expanded : List Attribute) :
    character ∉ (edit stream declaration expanded peers).replacement := by
  rw [edit, List.mem_append, not_or]
  refine ⟨not_mem_stripped absent declaration expanded, fun present => ?_⟩
  obtain ⟨peer, member, present⟩ := List.mem_flatMap.mp present
  rw [peerBlock, List.mem_cons] at present
  obtain feed | inside := present
  · exact other feed
  · exact Text.not_mem_indentLines other (not_mem_indentation absent _) (each peer member) inside

end Characters

end PeerExpansion.Insertion
