import PeerExpansion.Proofs.Declaration.Moved
import PeerExpansion.Proofs.Expansion.Insertion

/-! # Peers in another place

Where the peers of a declaration go is found out from its line and from the tokens around it. In a
source that has the lines of a text in some place, all of that is as in the text on its own, so the
edit of a declaration is the same there, in its place.
-/

namespace PeerExpansion

/-- The edit of the same text farther on in a source. -/
def Edit.moved (distance : Nat) (edit : Edit) : Edit :=
  ⟨distance + edit.start, distance + edit.stop, edit.replacement⟩

theorem Insertion.point_le {stream : TokenStream} {declaration : Declaration}
    (inside : declaration.stop ≤ stream.source.length) :
    point stream declaration ≤ stream.source.length := by
  simp only [point]
  split
  · exact inside
  · split
    · exact lineEnd_le inside
    · exact inside

namespace Inlay

variable {inner source : List Char} {inlay : Inlay inner source} {stream other : TokenStream}
variable {offset : Nat}

/-- The part has its lines to itself. -/
structure WholeLines (inlay : Inlay inner source) : Prop where
  front : inlay.front.reverse.takeWhile (· != '\n') = []
  tail : inlay.tail.takeWhile (· != '\n') = []

/-- The words of the part stand in their place, some words in front of them and some behind them. -/
structure Stands (inlay : Inlay inner source) (stream other : TokenStream) : Prop where
  scanned : TokenStream.scan inner = .ok stream
  source_eq : other.source = source
  words : ∃ before behind,
    other.words = before ++ (stream.words.map (Token.moved inlay.base) ++ behind) ∧
      (∀ word ∈ before, word.start < inlay.base.offset) ∧
      ∀ word ∈ behind, inlay.base.offset + inner.length ≤ word.start
  ending : inlay.base.offset + inner.length ≤ other.ending.start

theorem takeWhile_append_of_ends {α : Type} {accepts : α → Bool} {front back : List α}
    (ends : back.takeWhile accepts = []) :
    (front ++ back).takeWhile accepts = front.takeWhile accepts := by
  rw [List.takeWhile_append, ends]
  split
  next all => rw [List.append_nil, (List.takeWhile_prefix accepts).eq_of_length all]
  next => rfl

namespace WholeLines

variable (lines : inlay.WholeLines) (inside : offset ≤ inner.length)
include lines inside

theorem lineEnd_eq : Insertion.lineEnd source (inlay.base.offset + offset) =
    inlay.base.offset + Insertion.lineEnd inner offset := by
  rw [Insertion.lineEnd, Insertion.lineEnd, inlay.drop_eq inside,
    takeWhile_append_of_ends lines.tail, Nat.add_assoc]

theorem indentation_eq : Insertion.indentation source (inlay.base.offset + offset) =
    Insertion.indentation inner offset := by
  rw [Insertion.indentation, Insertion.indentation, inlay.take_eq inside, List.reverse_append,
    takeWhile_append_of_ends lines.front]

end WholeLines

namespace Stands

variable (stands : inlay.Stands stream other)
include stands

/-- The first token from some place on is the one of the part, in its place, or one behind the
part. -/
theorem firstFrom_cases (offset : Nat) :
    other.firstFrom (inlay.base.offset + offset) = (stream.firstFrom offset).moved inlay.base ∨
      stream.firstFrom offset = stream.ending ∧ inlay.base.offset + inner.length ≤
        (other.firstFrom (inlay.base.offset + offset)).start := by
  obtain ⟨before, behind, words_eq, early, late⟩ := stands.words
  have skipped : before.find? (fun token => inlay.base.offset + offset ≤ token.start) = none := by
    rw [List.find?_eq_none]
    intro word member
    have := early word member
    simpa using (by omega)
  have moved_eq : (fun token : Token => decide (inlay.base.offset + offset ≤ token.start)) ∘
      Token.moved inlay.base = fun token => decide (offset ≤ token.start) := by
    funext token
    exact decide_eq_decide.mpr Nat.add_le_add_iff_left
  rw [TokenStream.firstFrom, TokenStream.firstFrom, words_eq, List.find?_append, skipped,
    Option.none_or, List.find?_append, List.find?_map, moved_eq]
  cases stream.words.find? fun token => decide (offset ≤ token.start) with
  | some word => exact .inl rfl
  | none =>
    refine .inr ⟨rfl, ?_⟩
    cases found : behind.find? fun token => decide (inlay.base.offset + offset ≤ token.start) with
    | some word => exact late word (List.mem_of_find?_eq_some found)
    | none => exact stands.ending

variable {declaration : Declaration} (inside : declaration.stop ≤ inner.length)
include inside

theorem removal_eq (attr : Attribute) :
    Insertion.removal other (declaration.moved inlay.base) (attr.moved inlay.base) =
      Insertion.removal stream declaration attr := by
  obtain ⟨source_eq, ordered⟩ := TokenStream.ordered_of_scan stands.scanned
  have ending_eq := ordered.ending_start
  rw [source_eq] at ending_eq
  -- What goes with the attribute ends with the declaration at the latest, so inside the part.
  have stop_eq : min (other.firstFrom (inlay.base.offset + attr.stop)).start
      (inlay.base.offset + declaration.stop) =
        inlay.base.offset + min (stream.firstFrom attr.stop).start declaration.stop := by
    obtain same | ⟨none, beyond⟩ := stands.firstFrom_cases attr.stop
    · rw [same, Token.start, Token.moved, Position.moved, Nat.add_min_add_left]
      rfl
    · rw [none, ending_eq]
      omega
  simp only [Insertion.removal, Edit.mk.injEq, and_true]
  refine ⟨Nat.add_sub_add_left _ _ _, ?_⟩
  show min (other.firstFrom (inlay.base.offset + attr.stop)).start
    (inlay.base.offset + declaration.stop) - (inlay.base.offset + declaration.start) = _
  rw [stop_eq, Nat.add_sub_add_left]

variable (lines : inlay.WholeLines)
include lines

theorem point_eq : Insertion.point other (declaration.moved inlay.base) =
    inlay.base.offset + Insertion.point stream declaration := by
  obtain ⟨rfl, ordered⟩ := TokenStream.ordered_of_scan stands.scanned
  have finish_le := Insertion.lineEnd_le inside
  have finish_eq := lines.lineEnd_eq inside
  -- A token behind the part is not on the line, and neither is the ending of the part on its own.
  have follows_iff : ((other.firstFrom (inlay.base.offset + declaration.stop)).kind != .ending &&
        (other.firstFrom (inlay.base.offset + declaration.stop)).start <
          inlay.base.offset + Insertion.lineEnd stream.source declaration.stop) =
      ((stream.firstFrom declaration.stop).kind != .ending &&
        (stream.firstFrom declaration.stop).start <
          Insertion.lineEnd stream.source declaration.stop) := by
    obtain same | ⟨none, beyond⟩ := stands.firstFrom_cases declaration.stop
    · rw [same]
      congr 1
      exact decide_eq_decide.mpr Nat.add_lt_add_iff_left
    · have late : ¬ (other.firstFrom (inlay.base.offset + declaration.stop)).start <
          inlay.base.offset + Insertion.lineEnd stream.source declaration.stop := by omega
      simp [none, ordered.ending_kind, late]
  have rest_eq : Text.slice source (inlay.base.offset + declaration.stop)
      (inlay.base.offset + Insertion.lineEnd stream.source declaration.stop) =
        Text.slice stream.source declaration.stop
          (Insertion.lineEnd stream.source declaration.stop) := inlay.slice_eq finish_le
  have stop_eq : (declaration.moved inlay.base).stop = inlay.base.offset + declaration.stop := rfl
  simp only [Insertion.point, stop_eq, stands.source_eq, finish_eq, follows_iff, rest_eq]
  split
  · rfl
  · split
    · rfl
    · rfl

theorem stripped_eq (expanded : List Attribute) :
    Insertion.stripped other (declaration.moved inlay.base)
        (expanded.map (Attribute.moved inlay.base)) =
      Insertion.stripped stream declaration expanded := by
  obtain ⟨rfl, -⟩ := TokenStream.ordered_of_scan stands.scanned
  have removals_eq : (expanded.map (Attribute.moved inlay.base)).map
      (Insertion.removal other (declaration.moved inlay.base)) =
        expanded.map (Insertion.removal stream declaration) := by
    rw [List.map_map]
    exact List.map_congr_left fun attr _ => stands.removal_eq inside attr
  have start_eq : (declaration.moved inlay.base).start =
      inlay.base.offset + declaration.start := rfl
  rw [Insertion.stripped, Insertion.stripped, removals_eq, stands.point_eq inside lines, start_eq,
    stands.source_eq, inlay.slice_eq (Insertion.point_le inside)]

/-- The edit of a declaration is the same in its place. -/
theorem edit_eq (expanded : List Attribute) (peers : List String)
    (order : declaration.start ≤ declaration.stop) :
    Insertion.edit other (declaration.moved inlay.base) (expanded.map (Attribute.moved inlay.base))
        peers =
      (Insertion.edit stream declaration expanded peers).moved inlay.base.offset := by
  obtain ⟨rfl, -⟩ := TokenStream.ordered_of_scan stands.scanned
  have start_eq : (declaration.moved inlay.base).start =
      inlay.base.offset + declaration.start := rfl
  rw [Insertion.edit, Insertion.edit, stands.point_eq inside lines,
    stands.stripped_eq inside lines, start_eq, stands.source_eq,
    lines.indentation_eq (Nat.le_trans order inside)]
  rfl

end Stands

end Inlay

end PeerExpansion
