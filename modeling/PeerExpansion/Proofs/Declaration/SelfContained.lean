import PeerExpansion.Proofs.Declaration.Span
import PeerExpansion.Proofs.Declaration.Boundary
import PeerExpansion.Proofs.Declaration.Moved
import PeerExpansion.Proofs.Token.Pieces

/-! # Variables read from their own text

The text of a variable is a source of its own. It is read into the variable again, with the places
counted from its start.
-/

namespace PeerExpansion

open Reading

/-- The words from one to another make a source of their own, which is read into them. -/
theorem exists_shows_of_scan {source : List Char} {stream : TokenStream}
    (scanned : TokenStream.scan source = .ok stream) {index last : Nat} (order : index ≤ last)
    (within : last < stream.words.length) :
    ∃ inlay : Inlay (Text.slice source (stream.token index).start (stream.token last).stop) source,
      ∃ alone finish, inlay.base = (stream.token index).position ∧
        inlay.Shows alone ⟨source, stream.words.take (last + 1), .ending finish⟩ index := by
  obtain ⟨words, finish, read, rfl⟩ := exists_tokensFrom_of_scan scanned
  have within : last < words.length := within
  have first : index < words.length := by omega
  rw [TokenStream.token_eq_getElem first, TokenStream.token_eq_getElem within]
  show ∃ inlay : Inlay (Text.slice source words[index].start words[last].stop) source, _
  have length_eq : (words.take last).length = last := List.length_take_of_le (by omega)
  have mid_eq : words.drop index =
      (words.take last).drop index ++ words[last] :: words.drop (last + 1) := by
    rw [← List.drop_eq_getElem_cons, ← List.drop_append_of_le_length (by omega),
      List.take_append_drop]
  have taken_eq : (words.take (last + 1)).drop index =
      (words.take last).drop index ++ [words[last]] := by
    rw [← List.take_append_getElem within, List.drop_append_of_le_length (by omega)]
  -- The words in front of the first one are cut off, and those behind the last one.
  have scans : Scans .start source (words.take index ++ words[index] :: words.drop (index + 1))
      finish := by
    rw [← List.drop_eq_getElem_cons, List.take_append_drop]
    exact scans_iff.mpr read
  obtain ⟨front, rest, rfl, position_eq, -, scans⟩ := scans.exists_lexes
  rw [← List.drop_eq_getElem_cons, mid_eq] at scans
  obtain ⟨inner, tail, rfl, stop_eq, scans⟩ := scans.exists_cut
  have start_eq : words[index].start = front.length :=
    (Token.start_of_after position_eq).symm.trans (Nat.zero_add _)
  have text_eq : Text.slice (front ++ (inner ++ tail)) words[index].start words[last].stop =
      inner := by
    rw [← stop_eq, ← Token.start, start_eq, Text.slice, List.drop_left, Nat.add_sub_cancel_left,
      List.take_left]
  rw [text_eq]
  obtain ⟨own, alone, words_eq⟩ :=
    scans.exists_of_moved Position.counted_start (Position.moved_start _).symm
  refine ⟨⟨front, tail, rfl⟩, ⟨inner, own, .ending (Position.start.after inner)⟩,
    words[index].position.after inner, position_eq, ?_⟩
  refine ⟨?_, rfl, ?_, ?_, ?_⟩
  · rw [TokenStream.scan, scans_iff.mp alone]
    rfl
  · show index ≤ (words.take (last + 1)).length
    rw [List.length_take]
    omega
  · show (words.take (last + 1)).drop index = own.map (Token.moved (Position.start.after front))
    rw [taken_eq, words_eq, position_eq]
  · rw [Inlay.base, position_eq]
    show Token.ending _ = Token.ending ((Position.start.after inner).moved words[index].position)
    rw [Position.moved_after Position.counted_start, Position.moved_start]

variable {source : List Char} {stream : TokenStream} {index : Nat} {declaration : Declaration}
variable {last : Cursor}

/-- The text of a variable is parsed as that variable, from its own start on. -/
theorem Declaration.exists_parse_text (scanned : TokenStream.scan source = .ok stream)
    (inside : index ≤ stream.words.length)
    (read : Declaration.read.run (.ofStream stream index) = .ok (declaration, last))
    (property : declaration.isProperty = true) :
    ∃ alone, Declaration.parse declaration.text.toList = .ok alone ∧
      alone.moved declaration.position = declaration := by
  obtain ⟨rfl, ordered⟩ := TokenStream.ordered_of_scan scanned
  have read : Reads Declaration.read (.ofStream stream index) declaration last := read
  obtain ⟨behind, next, rfl, spans⟩ := Declaration.spans_of_reads ordered inside read
  have before := spans.index_lt
  have bound := spans.next_le
  obtain ⟨inlay, alone, finish, base_eq, shows⟩ :=
    exists_shows_of_scan scanned (Nat.le_sub_one_of_lt before) spans.last_lt
  rw [Nat.sub_add_cancel (by omega)] at shows
  have length_eq : (stream.words.take next).length = next := List.length_take_of_le bound
  -- Nothing stands behind the variable when the words behind it are left out.
  let seam : Seam := {
    stream
    other := ⟨stream.source, stream.words.take next, .ending finish⟩
    place := next
    source_eq := rfl
    within := bound
    otherWithin := Nat.le_of_eq length_eq.symm
    words_eq := by rw [List.take_take, Nat.min_self]
    ending_eq := ordered.ending_word
    otherEnding_eq := rfl
    stop := .inl (by rw [TokenStream.token_eq_ending (Nat.le_of_eq length_eq)]; rfl) }
  have halts : seam.Halts := Seam.halts_of_drop_eq_nil
    (List.drop_of_length_le (Nat.le_of_eq length_eq))
  have cut : Reads Declaration.read (seam.twin index) declaration (seam.twin next) :=
    Declaration.reads_twin_read property (.inl halts) (Nat.le_of_lt before) (Nat.le_refl _) read
  obtain ⟨own, ownRead, moved_eq⟩ := shows.exists_reads cut (Nat.le_of_eq length_eq.symm)
  refine ⟨own, ?_, ?_⟩
  · rw [spans.text_eq read]
    refine Declaration.parse_of_reads shows.scanned ownRead ?_
    have same := shows.length_eq
    rw [length_eq] at same
    omega
  · rw [spans.position_eq, ← base_eq, moved_eq]

/-- A member with two bindings, in front of another one. -/
def memberText : List Char :=
  "enum E \x7b\n  @Echo(a: (1)) static var x: Int = 1,\n    (y, _) = f(2) \x7b $0 \x7d\n  var z: Int\n\x7d".toList

set_option maxRecDepth 20000 in
theorem Declaration.exists_parse_text_memberText : ∃ stream declaration last,
    TokenStream.scan memberText = .ok stream ∧ 3 ≤ stream.words.length ∧
      Declaration.read.run (.ofStream stream 3) = .ok (declaration, last) ∧
      declaration.isProperty = true ∧
      ∃ alone, Declaration.parse declaration.text.toList = .ok alone ∧
        alone.moved declaration.position = declaration := by
  have evaluated : (TokenStream.scan memberText).toOption.any (fun stream =>
      decide (3 ≤ stream.words.length) &&
        (Declaration.read.run (.ofStream stream 3)).toOption.any (·.1.isProperty)) = true := by
    decide +kernel
  obtain ⟨stream, scanned, known⟩ := exists_of_any evaluated
  obtain ⟨inside, known⟩ := Bool.and_eq_true_iff.mp known
  obtain ⟨⟨declaration, last⟩, read, property⟩ := exists_of_any known
  have inside := of_decide_eq_true inside
  exact ⟨stream, declaration, last, scanned, inside, read, property,
    Declaration.exists_parse_text scanned inside read property⟩

end PeerExpansion
