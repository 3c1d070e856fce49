import PeerExpansion.Proofs.Reading.Limit
import PeerExpansion.Proofs.Token.Order

/-! # Places in a stream of tokens

A cursor of a stream stands in front of the token with some index, and moving it on adds to the
index.
-/

namespace PeerExpansion

namespace Cursor

variable {stream : TokenStream} {index : Nat}

@[simp]
theorem ahead_ofStream (count : Nat) :
    (ofStream stream index).ahead count = stream.token (index + count) := by
  simp [ahead, ofStream, TokenStream.token]

@[simp]
theorem current_ofStream : (ofStream stream index).current = stream.token index :=
  ahead_ofStream 0

@[simp]
theorem skip_ofStream (count : Nat) :
    (ofStream stream index).skip count = ofStream stream (index + count) := by
  simp [skip, ofStream, List.take_add]

@[simp]
theorem remaining_ofStream : (ofStream stream index).remaining = stream.words.length - index := by
  simp [remaining, ofStream]

theorem ofStream_injective {other : Nat} (inside : index ≤ stream.words.length)
    (otherInside : other ≤ stream.words.length)
    (same : ofStream stream index = ofStream stream other) : index = other := by
  have remaining_eq := congrArg remaining same
  simp only [remaining_ofStream] at remaining_eq
  omega

theorem previous?_ofStream (inside : index < stream.words.length) :
    (ofStream stream (index + 1)).previous? = some (stream.token index) := by
  simp only [previous?, ofStream, ← List.take_append_getElem inside, List.reverse_append]
  simp [TokenStream.token, inside]

/-- A cursor that has come further in a stream stands at a later index. -/
theorem Leads.exists_index {last : Cursor} (leads : (ofStream stream index).Leads last)
    (inside : index ≤ stream.words.length) :
    ∃ next, index ≤ next ∧ next ≤ stream.words.length ∧ last = ofStream stream next := by
  obtain ⟨count, rfl⟩ := leads
  rw [skip_ofStream]
  -- Beyond the last word the cursor does not move.
  obtain few | many := Nat.le_total (index + count) stream.words.length
  · exact ⟨index + count, Nat.le_add_right _ _, few, rfl⟩
  · refine ⟨stream.words.length, inside, Nat.le_refl _, ?_⟩
    simp [ofStream, List.take_of_length_le many, List.drop_of_length_le many]

/-- The same, with the token that has just been passed. -/
theorem Leads.exists_previous? {last : Cursor} (leads : (ofStream stream (index + 1)).Leads last)
    (inside : index < stream.words.length) :
    ∃ next, index < next ∧ next ≤ stream.words.length ∧ last = ofStream stream next ∧
      last.previous? = some (stream.token (next - 1)) := by
  obtain ⟨next, behind, bound, rfl⟩ := leads.exists_index inside
  obtain ⟨before, rfl⟩ := Nat.exists_eq_add_of_lt behind
  exact ⟨_, behind, bound, rfl, previous?_ofStream (by omega)⟩

end Cursor

/-- The text of the tokens from `first` up to, but without, `next`. -/
def TokenStream.textOf (stream : TokenStream) (first next : Nat) : List Char :=
  if first < next then
    Text.slice stream.source (stream.token first).start (stream.token (next - 1)).stop
  else []

theorem Cursor.textSince_ofStream {stream : TokenStream} {first next : Nat} (order : first < next)
    (inside : next ≤ stream.words.length) :
    ((ofStream stream next).textSince (stream.token first)).toList = stream.textOf first next := by
  have previous : (ofStream stream next).previous? = some (stream.token (next - 1)) := by
    rw [← previous?_ofStream (show next - 1 < stream.words.length by omega),
      Nat.sub_add_cancel (by omega)]
  rw [textSince, previous, TokenStream.textOf, if_pos order]
  exact String.toList_ofList

theorem TokenStream.Ordered.endsEmpty {stream : TokenStream} (ordered : stream.Ordered)
    (place : Nat) : (Cursor.ofStream stream place).EndsEmpty :=
  ⟨ordered.ending_kind, ordered.ending_text⟩

end PeerExpansion
