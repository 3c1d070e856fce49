/-! # Positions in a source text

A position is known by its line and column, both counted from one, and by the number of characters
before it. All three follow from the text before the position, which `Position.after` reads once.
-/

namespace PeerExpansion

structure Position where
  line : Nat
  column : Nat
  offset : Nat
deriving DecidableEq

namespace Position

def start : Position := ⟨1, 1, 0⟩

/-- The position behind one more character. Only the line feed starts a line. -/
def next (position : Position) (character : Char) : Position :=
  if character = '\n' then ⟨position.line + 1, 1, position.offset + 1⟩
  else ⟨position.line, position.column + 1, position.offset + 1⟩

/-- The position behind a stretch of text. -/
def after (position : Position) (text : List Char) : Position :=
  text.foldl next position

/-- The position of the character that stands at `offset` in `source`. -/
def ofOffset (source : List Char) (offset : Nat) : Position :=
  start.after (source.take offset)

/-- How a position is written in a message. -/
def describe (position : Position) : String :=
  toString position.line ++ ":" ++ toString position.column

@[simp]
theorem after_nil (position : Position) : position.after [] = position := rfl

@[simp]
theorem after_cons (position : Position) (character : Char) (text : List Char) :
    position.after (character :: text) = (position.next character).after text := rfl

theorem after_append (position : Position) (first second : List Char) :
    position.after (first ++ second) = (position.after first).after second := by
  simp [after]

@[simp]
theorem offset_next (position : Position) (character : Char) :
    (position.next character).offset = position.offset + 1 := by
  unfold next
  split <;> rfl

@[simp]
theorem offset_after (position : Position) (text : List Char) :
    (position.after text).offset = position.offset + text.length := by
  induction text generalizing position with
  | nil => rfl
  | cons character rest ih =>
    rw [after_cons, ih, offset_next, List.length_cons]
    omega

end Position

end PeerExpansion
