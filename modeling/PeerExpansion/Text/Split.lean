/-! # Splitting at a mark

`splitAt` cuts a text at every occurrence of a character. The parts are one more than the
occurrences, and joining them with the character gives the text back.
-/

namespace PeerExpansion.Text

def splitAt (mark : Char) : List Char → List (List Char)
  | [] => [[]]
  | character :: rest =>
    if character = mark then [] :: splitAt mark rest
    else
      match splitAt mark rest with
      | [] => [[character]]
      | part :: more => (character :: part) :: more

theorem splitAt_ne_nil (mark : Char) (text : List Char) : splitAt mark text ≠ [] := by
  cases text with
  | nil => simp [splitAt]
  | cons character rest =>
    simp only [splitAt]
    split
    · simp
    · split <;> simp

theorem intercalate_cons_cons (mark : Char) (part next : List Char) (more : List (List Char)) :
    List.intercalate [mark] (part :: next :: more) =
      part ++ mark :: List.intercalate [mark] (next :: more) := by
  simp [List.intercalate, List.intersperse]

/-- Nothing is lost when a text is split. -/
theorem intercalate_splitAt (mark : Char) (text : List Char) :
    List.intercalate [mark] (splitAt mark text) = text := by
  induction text with
  | nil => rfl
  | cons character rest ih =>
    simp only [splitAt]
    split
    · next isMark =>
      subst isMark
      cases parts : splitAt character rest with
      | nil => exact absurd parts (splitAt_ne_nil character rest)
      | cons part more =>
        rw [intercalate_cons_cons, ← parts, ih]
        rfl
    · cases parts : splitAt mark rest with
      | nil => exact absurd parts (splitAt_ne_nil mark rest)
      | cons part more =>
        cases more with
        | nil => simpa [List.intercalate, parts] using ih
        | cons next more =>
          rw [parts, intercalate_cons_cons] at ih
          rw [intercalate_cons_cons, List.cons_append, ih]

end PeerExpansion.Text
