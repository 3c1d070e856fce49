import PeerExpansion.Proofs.Outcome
import PeerExpansion.Proofs.Position
import PeerExpansion.Proofs.Token.Seam

/-! # Texts in another place

A text that stands somewhere in a source is read into the tokens that it has on its own, each in
another place. Only on the first line of the text do the columns differ.
-/

namespace PeerExpansion

/-- The place that a position of a text on its own has when the text begins at `base`. -/
def Position.moved (position base : Position) : Position where
  line := base.line + position.line - 1
  column := if position.line = 1 then base.column + position.column - 1 else position.column
  offset := base.offset + position.offset

def Token.moved (base : Position) (token : Token) : Token :=
  { token with position := token.position.moved base }

namespace Position

/-- Lines and columns are counted from one. -/
structure Counted (position : Position) : Prop where
  line_pos : 1 ≤ position.line
  column_pos : 1 ≤ position.column

theorem counted_start : start.Counted :=
  ⟨Nat.le_refl _, Nat.le_refl _⟩

variable {position : Position}

theorem Counted.next (counted : position.Counted) (character : Char) :
    (position.next character).Counted := by
  unfold Position.next
  split
  · exact ⟨Nat.le_add_left _ _, Nat.le_refl _⟩
  · exact ⟨counted.line_pos, Nat.le_add_left _ _⟩

theorem Counted.after (counted : position.Counted) (text : List Char) :
    (position.after text).Counted := by
  induction text generalizing position with
  | nil => exact counted
  | cons character rest inductionHypothesis => exact inductionHypothesis (counted.next character)

theorem moved_start (base : Position) : start.moved base = base := by
  simp [moved, start]

@[simp]
theorem moved_by_start (position : Position) : position.moved start = position := by
  simp [moved, start]

theorem moved_next (counted : position.Counted) (base : Position) (character : Char) :
    (position.next character).moved base = (position.moved base).next character := by
  obtain ⟨line, column⟩ := counted
  by_cases feed : character = '\n'
  · have later : position.line + 1 ≠ 1 := by omega
    simp only [Position.next, moved, feed, later, if_true, if_false, mk.injEq]
    exact ⟨by omega, trivial, by omega⟩
  · simp only [Position.next, moved, feed, if_false, mk.injEq]
    refine ⟨trivial, ?_, by omega⟩
    split <;> omega

theorem moved_after (counted : position.Counted) (base : Position) (text : List Char) :
    (position.after text).moved base = (position.moved base).after text := by
  induction text generalizing position with
  | nil => rfl
  | cons character rest inductionHypothesis =>
    rw [after_cons, after_cons, inductionHypothesis (counted.next character),
      moved_next counted]

end Position

@[simp]
theorem Token.moved_by_start (token : Token) : token.moved .start = token := by
  simp [moved]

theorem Piece.words_moved (base position : Position) (text : List Char) (piece : Piece) :
    piece.words text (position.moved base) =
      (piece.words text position).map (Token.moved base) := by
  cases piece <;> rfl

namespace Scans

variable {position finish base : Position} {text : List Char} {words : List Token}

theorem moved (scans : Scans position text words finish) (counted : position.Counted)
    (base : Position) :
    Scans (position.moved base) text (words.map (Token.moved base)) (finish.moved base) := by
  induction scans with
  | nil => exact .nil
  | cons measured _ inductionHypothesis =>
    rw [List.map_append, ← Piece.words_moved]
    refine .cons measured ?_
    rw [← Position.moved_after counted]
    exact inductionHypothesis (counted.after _)

/-- A text that can be read in some place can be read in the place that it was moved from. -/
theorem exists_of_moved {place : Position} (scans : Scans place text words finish)
    (counted : position.Counted) (place_eq : place = position.moved base) :
    ∃ own, Scans position text own (position.after text) ∧ words = own.map (Token.moved base) := by
  induction scans generalizing position with
  | nil => exact ⟨[], .nil, rfl⟩
  | @cons place finish first taken rest piece words measured _ inductionHypothesis =>
    obtain ⟨own, scans, rfl⟩ := inductionHypothesis (counted.after (first :: taken))
      (by rw [place_eq, Position.moved_after counted])
    refine ⟨piece.words (first :: taken) position ++ own, ?_, ?_⟩
    · rw [← List.cons_append, Position.after_append]
      exact .cons measured scans
    · rw [List.map_append, ← Piece.words_moved, place_eq]

end Scans

/-! ## Texts one below the other

Two texts that can be read can be read with a line feed between them. No token, comment or literal
of the first one goes on behind the line feed, and the second one begins on a fresh line, so only
the lines and offsets of its tokens change.
-/

/-- Where the second of two texts begins when a line feed stands between them. -/
def secondBase (source : List Char) : Position :=
  Position.start.after (source ++ ['\n'])

/-- The tokens of two texts with a line feed between them. -/
def TokenStream.join (first second : TokenStream) : TokenStream where
  source := first.source ++ '\n' :: second.source
  words := first.words ++ second.words.map (Token.moved (secondBase first.source))
  ending := second.ending.moved (secondBase first.source)

/-- The token as it is when `source` and a line feed stand in front of its text. -/
def Token.below (source : List Char) (token : Token) : Token where
  kind := token.kind
  text := token.text
  position := ⟨token.position.line + (1 + source.count '\n'), token.position.column,
    token.position.offset + (source.length + 1)⟩

@[simp]
theorem Token.start_below (source : List Char) (token : Token) :
    (token.below source).start = token.start + (source.length + 1) := rfl

@[simp]
theorem Token.stop_below (source : List Char) (token : Token) :
    (token.below source).stop = token.stop + (source.length + 1) := by
  rw [stop, start_below, stop, Nat.add_right_comm]
  rfl

theorem secondBase_eq (source : List Char) :
    secondBase source = ⟨1 + (1 + source.count '\n'), 1, source.length + 1⟩ := by
  rw [secondBase, Position.after_append, Position.after_cons, Position.after_nil, Position.next,
    if_pos rfl, Position.line_after_start, Position.offset_after, Position.start, Nat.zero_add,
    Nat.add_assoc, Nat.add_comm (source.count '\n')]

/-- The fresh line makes the columns count as before. -/
theorem Token.moved_secondBase (source : List Char) (token : Token) :
    token.moved (secondBase source) = token.below source := by
  simp only [moved, below, Position.moved, secondBase_eq, mk.injEq, Position.mk.injEq, true_and]
  refine ⟨by omega, ?_, by omega⟩
  split <;> omega

namespace TokenStream

variable {source other : List Char} {first second : TokenStream}
variable (scanned : TokenStream.scan source = .ok first)
variable (otherScanned : TokenStream.scan other = .ok second)
include scanned otherScanned

theorem scan_join : TokenStream.scan (source ++ '\n' :: other) = .ok (first.join second) := by
  obtain ⟨words, finish, read, rfl⟩ := exists_tokensFrom_of_scan scanned
  obtain ⟨otherWords, otherFinish, otherRead, rfl⟩ := exists_tokensFrom_of_scan otherScanned
  have scans := scans_iff.mpr read
  have base_eq : finish.next '\n' = Position.start.moved (secondBase source) := by
    rw [scans.finish_eq, Position.moved_start, secondBase, Position.after_append]
    rfl
  have later := (scans_iff.mpr otherRead).moved Position.counted_start (secondBase source)
  rw [← base_eq] at later
  rw [TokenStream.scan, scans_iff.mp (scans.join later)]
  rfl

/-- Two texts one below the other are read into the words of the first and the tokens of the second,
each as many lines further down as the first text has, the line feed between them counted. -/
theorem exists_scan_below : ∃ joined, TokenStream.scan (source ++ '\n' :: other) = .ok joined ∧
    joined.toList = first.words ++ second.toList.map (Token.below source) := by
  refine ⟨first.join second, scan_join scanned otherScanned, ?_⟩
  obtain ⟨_, _, _, rfl⟩ := exists_tokensFrom_of_scan scanned
  have moved_eq : Token.moved (secondBase source) = Token.below source :=
    funext (Token.moved_secondBase source)
  simp only [toList, join, moved_eq, List.append_assoc, List.map_append, List.map_singleton]

end TokenStream

/-- A text that ends with a line comment, behind a literal and a comment of several lines. -/
def upperSample : List Char :=
  "a /* b\n */ \"\"\"\n\\(c)\"\"\" 1. // d".toList

/-- A text that begins with what could go on with a number or a literal. -/
def lowerSample : List Char :=
  "5e3\n\"\\(\"e\")\" \x60f\x60".toList

set_option maxRecDepth 20000 in
theorem exists_scan_below_sample :
    ∃ first second, TokenStream.scan upperSample = .ok first ∧
      TokenStream.scan lowerSample = .ok second ∧
      ∃ joined, TokenStream.scan (upperSample ++ '\n' :: lowerSample) = .ok joined ∧
        joined.toList = first.words ++ second.toList.map (Token.below upperSample) := by
  have upper : (TokenStream.scan upperSample).toOption.any (fun _ => true) = true := by
    decide +kernel
  have lower : (TokenStream.scan lowerSample).toOption.any (fun _ => true) = true := by
    decide +kernel
  obtain ⟨first, scanned, -⟩ := exists_of_any upper
  obtain ⟨second, otherScanned, -⟩ := exists_of_any lower
  exact ⟨first, second, scanned, otherScanned,
    TokenStream.exists_scan_below scanned otherScanned⟩

end PeerExpansion
