import PeerExpansion.Cursor

/-! # What a reading answers

`Reads reading first value last` says that a reading answers `value` and has moved the cursor from
`first` to `last`. The lemmas about the readings that others are made of take such a statement
apart, so what is read is found out step by step.
-/

namespace PeerExpansion
namespace Cursor

theorem skip_skip (cursor : Cursor) (first second : Nat) :
    (cursor.skip first).skip second = cursor.skip (first + second) := by
  simp [skip, List.take_add, List.append_assoc]

theorem ahead_skip (cursor : Cursor) (first second : Nat) :
    (cursor.skip first).ahead second = cursor.ahead (first + second) := by
  simp [skip, ahead]

end Cursor

namespace Reading

variable {α β : Type} {first last : Cursor}

/-- `reading` answers `value` from `first` on and leaves the cursor at `last`. -/
def Reads (reading : Reading α) (first : Cursor) (value : α) (last : Cursor) : Prop :=
  reading.run first = .ok (value, last)

theorem Reads.unique {reading : Reading α} {value other : α} {finish : Cursor}
    (read : Reads reading first value last) (otherRead : Reads reading first other finish) :
    value = other ∧ last = finish := by
  rw [Reads, read] at otherRead
  cases otherRead
  exact ⟨rfl, rfl⟩

@[simp]
theorem reads_pure {given value : α} :
    Reads (pure given) first value last ↔ value = given ∧ last = first := by
  show Except.ok (given, first) = Except.ok (value, last) ↔ _
  simp [eq_comm]

@[simp]
theorem reads_bind {reading : Reading α} {next : α → Reading β} {value : β} :
    Reads (reading >>= next) first value last ↔
      ∃ given middle, Reads reading first given middle ∧ Reads (next given) middle value last := by
  simp only [Reads, StateT.run_bind]
  cases reading.run first with
  | error error => simp [bind, Except.bind]
  | ok result =>
    obtain ⟨given, middle⟩ := result
    simp [bind, Except.bind, and_assoc]

/-- Behind a reading whose answer is known the next one goes on. -/
theorem Reads.bind_iff {reading : Reading α} {next : α → Reading β} {given : α} {value : β}
    {middle : Cursor} (known : Reads reading first given middle) :
    Reads (reading >>= next) first value last ↔ Reads (next given) middle value last := by
  rw [reads_bind]
  constructor
  · rintro ⟨_, _, found, later⟩
    obtain ⟨rfl, rfl⟩ := known.unique found
    exact later
  · exact fun later => ⟨given, middle, known, later⟩

@[simp]
theorem reads_map {reading : Reading α} {change : α → β} {value : β} :
    Reads (change <$> reading) first value last ↔
      ∃ given, Reads reading first given last ∧ value = change given := by
  rw [← bind_pure_comp, reads_bind]
  simp

@[simp]
theorem reads_get {cursor : Cursor} :
    Reads get first cursor last ↔ cursor = first ∧ last = first := by
  simp [Reads, pure, Except.pure, eq_comm]

@[simp]
theorem reads_skip {count : Nat} {value : Unit} :
    Reads (skip count) first value last ↔ last = first.skip count := by
  simp [Reads, skip, pure, Except.pure, eq_comm]

@[simp]
theorem reads_fail {fault : SyntaxFault} {token : Token} {value : α} :
    ¬ Reads (fail fault token) first value last := by
  simp [Reads, fail, throw, throwThe, MonadExceptOf.throw, bind, Except.bind]

@[simp]
theorem reads_ahead {count : Nat} {token : Token} :
    Reads (ahead count) first token last ↔ token = first.ahead count ∧ last = first := by
  simp [ahead, and_assoc, and_comm]

@[simp]
theorem reads_current {token : Token} :
    Reads current first token last ↔ token = first.current ∧ last = first :=
  reads_ahead

@[simp]
theorem reads_check {text : String} {found : Bool} :
    Reads (check text) first found last ↔ found = first.current.reads text ∧ last = first := by
  simp [check, and_assoc, and_comm]

@[simp]
theorem reads_advance {token : Token} :
    Reads advance first token last ↔ token = first.current ∧ last = first.skip 1 := by
  simp [advance, and_assoc, and_comm]

@[simp]
theorem reads_missing {wanted : String} {value : α} :
    ¬ Reads (missing wanted) first value last := by
  simp [missing]

@[simp]
theorem reads_expect {text : String} {token : Token} :
    Reads (expect text) first token last ↔
      first.current.reads text = true ∧ token = first.current ∧ last = first.skip 1 := by
  simp only [expect, reads_bind, reads_check]
  cases first.current.reads text <;> simp

@[simp]
theorem reads_expectIdentifier {wanted : String} {token : Token} :
    Reads (expectIdentifier wanted) first token last ↔
      first.current.isIdentifier = true ∧ token = first.current ∧ last = first.skip 1 := by
  simp only [expectIdentifier, reads_bind, reads_current]
  cases known : first.current.isIdentifier <;> simp [known, and_assoc]

@[simp]
theorem reads_textSince {token : Token} {text : String} :
    Reads (textSince token) first text last ↔ text = first.textSince token ∧ last = first := by
  simp [textSince, and_assoc, and_comm]

theorem reads_ite {condition : Prop} [Decidable condition] {yes no : Reading α} {value : α} :
    Reads (if condition then yes else no) first value last ↔
      (condition ∧ Reads yes first value last) ∨ (¬ condition ∧ Reads no first value last) := by
  split <;> simp_all

end Reading
end PeerExpansion
