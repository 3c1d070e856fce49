import PeerExpansion.Proofs.Edit.Splice
import PeerExpansion.Proofs.Token.Comments

/-! # What is left of a text and of its comments

A text from which some ranges are removed is cut at points between its pieces, and other texts are
put in there. Comments that are not removed stay whole and in their order.
-/

namespace PeerExpansion

open Text

/-! ## Parts in order -/

/-- The parts stand in a text one behind the other, in their order. -/
def InOrder (parts : List (List Char)) (text : List Char) : Prop :=
  ∃ pieces : List (List Char), pieces.flatten = text ∧ parts.Sublist pieces

theorem inOrder_nil (text : List Char) : InOrder [] text :=
  ⟨[text], by simp, List.nil_sublist _⟩

theorem inOrder_singleton (part : List Char) : InOrder [part] part :=
  ⟨[part], by simp, List.Sublist.refl _⟩

theorem InOrder.append {front back : List (List Char)} {text rest : List Char}
    (first : InOrder front text) (second : InOrder back rest) :
    InOrder (front ++ back) (text ++ rest) := by
  obtain ⟨pieces, rfl, some⟩ := first
  obtain ⟨others, rfl, otherSome⟩ := second
  exact ⟨pieces ++ others, List.flatten_append, some.append otherSome⟩

/-- The comments that do not begin in what is removed. -/
def spare (removed comments : List (Nat × Nat)) : List (Nat × Nat) :=
  comments.filter fun comment => !covers removed comment.1

def texts (source : List Char) (spans : List (Nat × Nat)) : List (List Char) :=
  spans.map fun (start, stop) => slice source start stop

/-- The comments are removed as a whole or not at all. -/
def Whole (removed comments : List (Nat × Nat)) : Prop :=
  ∀ comment ∈ comments, covers removed comment.1 = true ∨ Uncovered removed comment.1 comment.2

variable {source : List Char} {removed spans : List (Nat × Nat)} {start stop : Nat}

/-- What is left of a part of a text has in it the comments that are left. -/
theorem inOrder_without (follow : Follow start spans stop) (inside : stop ≤ source.length)
    (whole : Whole removed spans) :
    InOrder (texts source (spare removed spans))
      (without removed start (slice source start stop)) := by
  induction follow with
  | nil => exact inOrder_nil _
  | @cons start stop comment others after filled follow inductionHypothesis =>
    obtain ⟨here, behind⟩ := List.forall_mem_cons.mp whole
    have order := follow.start_le.1
    rw [without_slice_append (show start ≤ comment.2 by omega) order (by omega),
      without_slice_append after (Nat.le_of_lt filled) (by omega)]
    have later := inductionHypothesis inside behind
    obtain covered | uncovered := here
    · rw [spare, List.filter_cons_of_neg (by simp [covered])]
      exact (inOrder_nil _).append later
    · have kept : covers removed comment.1 = false := uncovered _ (Nat.le_refl _) filled
      rw [spare, List.filter_cons_of_pos (by simp [kept]), without_of_uncovered uncovered]
      exact ((inOrder_nil _).append (inOrder_singleton _)).append later

/-! ## What is left of a text -/

/-- What is left of a text from an offset on, cut at points behind it. -/
def leftParts (source : List Char) (removed : List (Nat × Nat)) : Nat → List Nat → List (List Char)
  | offset, [] => [without removed offset (source.drop offset)]
  | offset, point :: points =>
    without removed offset (slice source offset point) :: leftParts source removed point points

/-- Points that follow one another through a source, each between two of its pieces. -/
inductive Cuts (source : List Char) : Nat → List Nat → Prop
  | nil {offset : Nat} : offset ≤ source.length → Boundary source offset → Cuts source offset []
  | cons {offset point : Nat} {points : List Nat} : offset ≤ point → Boundary source offset →
      Cuts source point points → Cuts source offset (point :: points)

namespace Cuts

variable {offset : Nat} {points : List Nat}

theorem boundary (cuts : Cuts source offset points) :
    Boundary source offset ∧ offset ≤ source.length := by
  induction cuts with
  | nil inside boundary => exact ⟨boundary, inside⟩
  | cons order boundary _ inductionHypothesis =>
    exact ⟨boundary, Nat.le_trans order inductionHypothesis.2⟩

/-- Cutting loses nothing. -/
theorem flatten_leftParts (cuts : Cuts source offset points) (removed : List (Nat × Nat)) :
    (leftParts source removed offset points).flatten =
      without removed offset (source.drop offset) := by
  induction cuts with
  | nil => simp [leftParts]
  | @cons offset point points order _ later inductionHypothesis =>
    obtain ⟨_, inside⟩ := later.boundary
    rw [leftParts, List.flatten_cons, inductionHypothesis, ← slice_eq_drop, ← slice_eq_drop,
      ← without_slice_append order inside inside]

/-- Whatever is put in at the points, the comments that are not removed are still there. -/
theorem inOrder_weave (cuts : Cuts source offset points)
    (finish : Boundary source source.length)
    (whole : Whole removed (commentsFrom offset (source.drop offset)))
    {additions : List (List Char)} (enough : additions.length = points.length) :
    InOrder (texts source (spare removed (commentsFrom offset (source.drop offset))))
      (Edit.weave (leftParts source removed offset points) additions) := by
  induction cuts generalizing additions with
  | nil inside boundary =>
    obtain rfl := List.length_eq_zero_iff.mp enough
    obtain ⟨within, follow, split⟩ := boundary.exists_comments finish inside (Nat.le_refl _)
    have none : commentsFrom source.length [] = [] := by rw [commentsFrom]
    rw [List.drop_length, none, List.append_nil] at split
    rw [split] at whole ⊢
    have kept := inOrder_without follow (Nat.le_refl _) whole
    rw [slice_eq_drop] at kept
    simpa [leftParts, Edit.weave] using kept
  | @cons offset point points order boundary later inductionHypothesis =>
    obtain ⟨behind, inside⟩ := later.boundary
    -- The comments up to the next cut lie whole in the text in front of it.
    obtain ⟨within, follow, split⟩ := boundary.exists_comments behind order inside
    rw [split] at whole ⊢
    obtain ⟨here, there⟩ := List.forall_mem_append.mp whole
    cases additions with
    | nil => cases enough
    | cons addition additions =>
      have front := inOrder_without follow inside here
      have back := inductionHypothesis there (Nat.succ.inj enough)
      rw [spare, List.filter_append, texts, List.map_append, leftParts, Edit.weave]
      have part := front.append (inOrder_nil addition)
      rw [List.append_nil] at part
      exact part.append back

end Cuts

end PeerExpansion
