/-! # Slices of a text

A slice is given by the offsets of its first character and of the first character after it.
-/

namespace PeerExpansion.Text

/-- The characters from `start` up to `stop`; none when `stop` does not come after `start`. -/
def slice (text : List Char) (start stop : Nat) : List Char :=
  (text.drop start).take (stop - start)

theorem length_slice (text : List Char) {start stop : Nat} (inside : stop ≤ text.length) :
    (slice text start stop).length = stop - start := by
  simp only [slice, List.length_take, List.length_drop]
  omega

/-- Two slices that meet make one. -/
theorem slice_append_slice (text : List Char) {start middle stop : Nat}
    (before : start ≤ middle) (behind : middle ≤ stop) :
    slice text start middle ++ slice text middle stop = slice text start stop := by
  have split : stop - start = (middle - start) + (stop - middle) := by omega
  have meet : middle = start + (middle - start) := by omega
  simp only [slice]
  rw [split, List.take_add, List.drop_drop, ← meet]

theorem take_append_slice (text : List Char) {start stop : Nat} (order : start ≤ stop) :
    text.take start ++ slice text start stop = text.take stop := by
  rw [slice, ← List.take_add, Nat.add_sub_cancel' order]

theorem slice_append_drop (text : List Char) {start stop : Nat} (order : start ≤ stop) :
    slice text start stop ++ text.drop stop = text.drop start := by
  have meet : stop = start + (stop - start) := by omega
  rw [slice, meet, ← List.drop_drop, Nat.add_sub_cancel_left, List.take_append_drop]

theorem slice_eq_drop (text : List Char) (start : Nat) :
    slice text start text.length = text.drop start :=
  List.take_of_length_le (List.length_drop ▸ Nat.le_refl _)

end PeerExpansion.Text
