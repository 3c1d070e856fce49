import Mathlib.Data.List.Induction
import PeerExpansion.Position

/-! # Lines and columns

A position that was followed through a text knows how many line feeds the text has and how far the
last of them lies behind.
-/

namespace PeerExpansion

/-- The offset just behind the last line feed before `offset`, or that of the start of the
source. -/
def lineStart (source : List Char) (offset : Nat) : Nat :=
  offset - ((source.take offset).reverse.takeWhile (· != '\n')).length

namespace Position

theorem line_after_start (text : List Char) :
    (start.after text).line = 1 + text.count '\n' := by
  induction text using List.reverseRecOn with
  | nil => rfl
  | append_singleton text character inductionHypothesis =>
    rw [after_append, after_cons, after_nil, next]
    split
    next feed => simp [inductionHypothesis, feed, Nat.add_assoc]
    next other => simp [inductionHypothesis, other]

theorem column_after_start (text : List Char) :
    (start.after text).column = (text.reverse.takeWhile (· != '\n')).length + 1 := by
  induction text using List.reverseRecOn with
  | nil => rfl
  | append_singleton text character inductionHypothesis =>
    rw [after_append, after_cons, after_nil, next]
    split
    next feed => simp [feed]
    next other => simp [inductionHypothesis, other]

theorem offset_ofOffset {source : List Char} {offset : Nat} (inside : offset ≤ source.length) :
    (ofOffset source offset).offset = offset := by
  simp [ofOffset, start, inside]

theorem line_ofOffset (source : List Char) (offset : Nat) :
    (ofOffset source offset).line = 1 + (source.take offset).count '\n' :=
  line_after_start _

theorem column_ofOffset {source : List Char} {offset : Nat} (inside : offset ≤ source.length) :
    (ofOffset source offset).column = offset - lineStart source offset + 1 := by
  have bound := (List.takeWhile_prefix (· != '\n') (l := (source.take offset).reverse)).length_le
  rw [List.length_reverse, List.length_take, Nat.min_eq_left inside] at bound
  rw [ofOffset, column_after_start, lineStart, Nat.sub_sub_self bound]

/-- Following a text from one offset leads to the position of the offset behind it. -/
theorem ofOffset_after (source : List Char) (offset length : Nat) :
    (ofOffset source offset).after ((source.drop offset).take length) =
      ofOffset source (offset + length) := by
  rw [ofOffset, ← after_append, ← List.take_add, ofOffset]

end Position

end PeerExpansion
