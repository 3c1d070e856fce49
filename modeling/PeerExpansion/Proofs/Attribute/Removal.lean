import Mathlib.Data.List.Chain
import PeerExpansion.Proofs.Attribute.Row
import PeerExpansion.Proofs.Edit.Splice
import PeerExpansion.Proofs.Token.Junction

/-! # What is left of a row of attributes

Some attributes of a row are taken out with all that goes with them, the others stay. What is left
is read into the tokens that stay, unless that brings a name and word characters together.
-/

namespace PeerExpansion.Attribute

/-! ## How attributes end

An attribute ends with a name, and then it consists of its mark, names and points, or it ends with
the parenthesis behind its arguments.
-/

open Reading

variable {stream : TokenStream} {index next : Nat} {last : Cursor}

/-- The tokens from `index` up to, but without, `next` are what a dotted name and its mark are made
of, and the last of them is a name. -/
structure Names (stream : TokenStream) (index next : Nat) : Prop where
  index_lt : index < next
  identifier : (stream.token (next - 1)).isIdentifier = true
  naming : ∀ place, index ≤ place → place < next → (stream.token place).word.IsNaming

theorem Names.single (identifier : (stream.token index).isIdentifier = true) :
    Names stream index (index + 1) where
  index_lt := Nat.lt_succ_self index
  identifier := identifier
  naming place after before := by
    obtain rfl := Nat.le_antisymm after (Nat.le_of_lt_succ before)
    exact .inr (.inr (eq_of_beq identifier))

theorem Names.cons {text : String} (mark : text = "@" ∨ text = ".")
    (reads : (stream.token index).reads text = true) (names : Names stream (index + 1) next) :
    Names stream index next where
  index_lt := Nat.lt_of_succ_lt names.index_lt
  identifier := names.identifier
  naming place after before := by
    obtain rfl | after := Nat.eq_or_lt_of_le after
    · have text_eq := eq_of_beq (Bool.and_eq_true_iff.mp reads).2
      exact mark.imp text_eq.trans fun point => .inl (text_eq.trans point)
    · exact names.naming place after before

theorem Names.append {middle : Nat} (names : Names stream index middle)
    (others : Names stream middle next) : Names stream index next where
  index_lt := Nat.lt_trans names.index_lt others.index_lt
  identifier := others.identifier
  naming place after before := by
    obtain early | late := Nat.lt_or_ge place middle
    · exact names.naming place after early
    · exact others.naming place late before

/-- Behind a name there are only points and names up to the last of the names. -/
theorem names_of_readMembersWithin {limit : Nat} {members : List Token}
    (identifier : (stream.token index).isIdentifier = true)
    (read : Reads (readMembersWithin limit) (.ofStream stream (index + 1)) members last) :
    ∃ next, last = .ofStream stream next ∧ Names stream index next := by
  induction limit generalizing index members with
  | zero =>
    simp only [readMembersWithin, reads_pure] at read
    exact ⟨index + 1, read.2, .single identifier⟩
  | succ limit inductionHypothesis =>
    simp [readMembersWithin, reads_ite] at read
    obtain ⟨⟨point, member⟩, others, later, rfl⟩ | ⟨_, rfl, rfl⟩ := read
    · obtain ⟨next, rfl, names⟩ := inductionHypothesis member later
      exact ⟨next, rfl, (Names.single identifier).append (names.cons (.inr rfl) point)⟩
    · exact ⟨index + 1, rfl, .single identifier⟩

theorem reads_paren_of_readArguments {arguments : List Argument} (ordered : stream.Ordered)
    (read : Reads readArguments (.ofStream stream index) arguments last) :
    ∃ place, last = .ofStream stream (place + 1) ∧ (stream.token place).reads ")" = true := by
  simp only [readArguments, reads_bind, reads_expect, reads_check, reads_ite, reads_skip,
    reads_pure, and_assoc, exists_and_left, exists_eq_left, Cursor.skip_ofStream,
    Cursor.current_ofStream] at read
  obtain ⟨opening, ⟨closing, _, _, rfl, _, rfl⟩ | ⟨_, _, _, items, closing, _, rfl⟩⟩ := read
  · exact ⟨index + 1, rfl, closing⟩
  · have inside := ordered.lt_length_of_reads opening (by decide)
    have forward := forward_separated "," (forward_readArgument (stream.token index))
    obtain ⟨place, _, _, rfl⟩ := (forward _ _ _ items).exists_index inside
    exact ⟨place, Cursor.skip_ofStream 1, by rwa [Cursor.current_ofStream] at closing⟩

/-- How the tokens of an attribute end that stand from `index` up to, but without, `next`. -/
inductive Ending (stream : TokenStream) (index next : Nat) : Prop
  | name : Names stream index next → Ending stream index next
  | clause : (stream.token (next - 1)).reads ")" = true → Ending stream index next

theorem ending_of_reads {attr : Attribute} (ordered : stream.Ordered)
    (read : Reads Attribute.read (.ofStream stream index) attr (.ofStream stream next))
    (within : next ≤ stream.words.length) : Ending stream index next := by
  simp only [Attribute.read, reads_bind, reads_expect, reads_expectIdentifier, reads_current,
    reads_ite, reads_get, reads_pure, and_assoc, exists_and_left, exists_eq_left,
    Cursor.skip_ofStream, Cursor.current_ofStream] at read
  obtain ⟨mark, identifier, members, middle, membersRead, tail⟩ := read
  obtain ⟨place, rfl, names⟩ :=
    names_of_readMembersWithin identifier (reads_readMembers.mp membersRead)
  obtain ⟨_, arguments, later, argumentsRead, _, same⟩ | ⟨_, _, same⟩ := tail
  · obtain ⟨place, rfl, closing⟩ := reads_paren_of_readArguments ordered argumentsRead
    have inside := ordered.lt_length_of_reads closing (by decide)
    obtain rfl := Cursor.ofStream_injective within inside same
    exact .clause closing
  · have inside := ordered.lt_length_of_isIdentifier names.identifier
    obtain rfl := Cursor.ofStream_injective within (by omega) same
    exact .name (names.cons (.inl rfl) mark)

/-! ### What is behind an attribute -/

open Text (slice)

variable {source : List Char}

/-- The gap behind a word of a source is one in front of anything. -/
theorem gap_lexes (scanned : TokenStream.scan source = .ok stream)
    (inside : index + 1 < stream.words.length) (behind : List Char) :
    Lexes behind (slice source (stream.token index).stop (stream.token (index + 1)).start) [] := by
  have lexes := TokenStream.lexes_gap scanned (Nat.lt_of_succ_lt inside)
  obtain ⟨first, taken, -, cut, measured⟩ := TokenStream.exists_piece scanned inside
  rw [cut] at lexes
  refine lexes.gap ?_ behind
  rintro rfl
  exact absurd (not_comment_of_pieceAt_token measured).1 (by decide)

/-- An attribute and the gap behind it, cut in front of its last token. -/
theorem Ending.exists_edge (ending : Ending stream index next)
    (scanned : TokenStream.scan source = .ok stream) (long : index + 2 ≤ next)
    (inside : next < stream.words.length) :
    ∃ first taken, (stream.token (next - 1)).text = .ofList (first :: taken) ∧
      Edge (slice source (stream.token index).start (stream.token (next - 1)).start)
        ((stream.between index (next - 1)).map Token.word) (stream.token (next - 1)).kind first
        taken
        (slice source (stream.token (next - 1)).stop (stream.token next).start) := by
  have lastInside : next - 1 < stream.words.length := by omega
  have lexes := TokenStream.lexes_slice scanned (show index ≤ next - 1 by omega) lastInside
  obtain ⟨first, taken, text_eq, cut, measured⟩ := TokenStream.exists_piece scanned lastInside
  have gap := @gap_lexes _ (next - 1) _ scanned (by omega)
  rw [Nat.sub_add_cancel (by omega)] at gap
  rw [cut] at lexes
  cases ending with
  | clause closing =>
    rw [Token.reads, Bool.and_eq_true, beq_iff_eq, text_eq] at closing
    obtain ⟨rfl, rfl⟩ : first = ')' ∧ taken = [] :=
      List.cons.inj (String.ofList_injective closing.2)
    rw [pieceAt_of_mem_plainMarks (by decide), Except.ok.injEq, Prod.mk.injEq,
      Piece.token.injEq] at measured
    rw [← measured.1]
    -- Nothing in front of a parenthesis goes beyond it, and it never goes on itself.
    refine ⟨')', [], text_eq, lexes.paren, fun behind => ?_, gap⟩
    exact pieceAt_of_mem_plainMarks (by decide) behind
  | name names =>
    have kind_eq : (stream.token (next - 1)).kind = .identifier := eq_of_beq names.identifier
    rw [kind_eq] at measured ⊢
    obtain ⟨shape, -⟩ := shape_of_pieceAt_append measured
    have differs {other : Char} (apart : Lexeme.isWordPart other = false) (dollar : other ≠ '$')
        (accent : other ≠ '\x60') : first ≠ other := by
      rintro rfl
      exact shape.not_mem apart dollar accent List.mem_cons_self
    -- A name is no line feed, and it cannot make a longer mark of a point in front of it.
    refine ⟨first, taken, text_eq, ?_, pieceAt_identifier shape, gap⟩
    refine lexes.naming ?_ (differs (by decide) (by decide) (by decide))
      (differs (by decide) (by decide) (by decide)) (differs (by decide) (by decide) (by decide))
    simp only [List.forall_mem_map]
    intro word member
    obtain ⟨place, after, before, -, rfl⟩ := TokenStream.mem_between member
    exact names.naming place after (by omega)

/-- In the source the last token of an attribute does not go on. -/
theorem Ending.overrun_drop (ending : Ending stream index next)
    (scanned : TokenStream.scan source = .ok stream) (long : index + 2 ≤ next)
    (inside : next < stream.words.length) :
    Lexeme.overrun (stream.token (next - 1)).text.toList
      (source.drop (stream.token (next - 1)).stop) = 0 := by
  obtain ⟨first, taken, text_eq, edge⟩ := ending.exists_edge scanned long inside
  obtain ⟨_, _, same, -, measured⟩ :=
    TokenStream.exists_piece scanned (show next - 1 < stream.words.length by omega)
  obtain ⟨rfl, rfl⟩ := List.cons.inj (String.ofList_injective (text_eq.symm.trans same))
  rw [edge.measured, Except.ok.injEq, Prod.mk.injEq] at measured
  rw [text_eq, String.toList_ofList]
  omega

/-- Without what is behind it, an attribute is read into its own tokens unless its last one goes on
in what comes behind it now. -/
theorem Ending.lexes_append_iff (ending : Ending stream index next)
    (scanned : TokenStream.scan source = .ok stream) (long : index + 2 ≤ next)
    (inside : next < stream.words.length) {behind : List Char} {others : List Word} :
    Lexes [] (slice source (stream.token index).start (stream.token next).start ++ behind)
        ((stream.between index next).map Token.word ++ others) ↔
      Lexeme.overrun (stream.token (next - 1)).text.toList
          (slice source (stream.token (next - 1)).stop (stream.token next).start ++ behind) = 0 ∧
        Lexes [] behind others := by
  obtain ⟨rfl, ordered⟩ := TokenStream.ordered_of_scan scanned
  obtain ⟨first, taken, text_eq, edge⟩ := ending.exists_edge scanned long inside
  have order : next - 1 < next := by omega
  have lastInside : next - 1 < stream.words.length := by omega
  have word_eq : (stream.between index next).map Token.word =
      (stream.between index (next - 1)).map Token.word ++
        [⟨(stream.token (next - 1)).kind, .ofList (first :: taken)⟩] := by
    rw [TokenStream.between_eq_concat (by omega) (by omega), List.map_append, ← text_eq]
    rfl
  have text_slice : slice stream.source (stream.token (next - 1)).start
      (stream.token (next - 1)).stop = first :: taken := by
    rw [← TokenStream.toList_text scanned lastInside, text_eq, String.toList_ofList]
  -- The last token is taken apart from the others, for only it meets what comes behind.
  rw [word_eq, ← Text.slice_append_slice stream.source
    (ordered.start_le_start (show index ≤ next - 1 by omega))
    (ordered.start_le_start (Nat.le_of_lt order)),
    ← Text.slice_append_slice stream.source (Nat.le_of_lt (ordered.start_lt_stop lastInside))
    (ordered.stop_le_start order lastInside), text_slice, text_eq, String.toList_ofList]
  exact edge.lexes_append_iff

end PeerExpansion.Attribute

namespace PeerExpansion

open Text (slice covers without)

theorem TokenStream.isChain_between {stream : TokenStream} {first behind : Nat}
    {related : Token → Token → Prop} (inside : behind ≤ stream.words.length)
    (follows : ∀ index, first ≤ index → index + 1 < behind →
      related (stream.token index) (stream.token (index + 1))) :
    (stream.between first behind).IsChain related := by
  rw [between, List.isChain_iff_getElem]
  intro place bound
  rw [List.length_take, List.length_drop] at bound
  have held := follows (first + place) (Nat.le_add_right _ _) (by omega)
  rw [token_eq_getElem (by omega), token_eq_getElem (by omega)] at held
  simpa only [List.getElem_take, List.getElem_drop, ← Nat.add_assoc] using held

/-- Between two tokens everything is removed, and the first would go on in the second. -/
structure Fused (removed : List (Nat × Nat)) (first second : Token) : Prop where
  apart : first.stop < second.start
  covered : Text.Covered removed first.stop second.start
  ends : Lexeme.endsInPart first.text.toList = true
  begins : ¬ Ends second.text.toList

namespace Attribute

variable {stream : TokenStream} {removed : List (Nat × Nat)} {index next behind last : Nat}

/-- What is left from the token at `index` on of the text up to the end of the one at `last`. -/
def left (stream : TokenStream) (removed : List (Nat × Nat)) (last index : Nat) : List Char :=
  without removed (stream.token index).start
    (slice stream.source (stream.token index).start (stream.token last).stop)

/-- The tokens that are left from the one at `index` on, up to the one at `last`. -/
def kept (stream : TokenStream) (removed : List (Nat × Nat)) (last index : Nat) : List Token :=
  (stream.between index (last + 1)).filter fun word => !covers removed word.start

section Left

/-- The words of a part of a source begin in it. -/
theorem start_of_mem_between (ordered : stream.Ordered) {word : Token}
    (member : word ∈ stream.between index next) :
    (stream.token index).start ≤ word.start ∧ word.start < (stream.token next).start := by
  obtain ⟨place, after, early, bound, rfl⟩ := TokenStream.mem_between member
  exact ⟨ordered.start_le_start after, ordered.start_lt_start early bound⟩

theorem kept_eq_append (before : index ≤ next) (within : next ≤ last) :
    kept stream removed last index =
      (stream.between index next).filter (fun word => !covers removed word.start) ++
        kept stream removed last next := by
  rw [kept, ← TokenStream.between_append before (show next ≤ last + 1 by omega), List.filter_append]
  rfl

variable (ordered : stream.Ordered) (before : index ≤ next) (within : next ≤ last)
variable (inside : last < stream.words.length)
include ordered before within inside

theorem left_eq_append : left stream removed last index =
    without removed (stream.token index).start
      (slice stream.source (stream.token index).start (stream.token next).start) ++
        left stream removed last next :=
  Text.without_slice_append (ordered.start_le_start before)
    (Nat.le_trans (ordered.start_le_start within) (Nat.le_of_lt (ordered.start_lt_stop inside)))
    (ordered.start_le_length next)

theorem left_of_covered
    (covered : Text.Covered removed (stream.token index).start (stream.token next).start) :
    left stream removed last index = left stream removed last next ∧
      kept stream removed last index = kept stream removed last next := by
  constructor
  · rw [left_eq_append ordered before within inside, Text.without_of_covered covered,
      List.nil_append]
  · rw [kept_eq_append before within, List.filter_eq_nil_iff.mpr, List.nil_append]
    intro word member
    obtain ⟨late, early⟩ := start_of_mem_between ordered member
    simp [covered word.start late early]

theorem left_of_uncovered
    (uncovered : Text.Uncovered removed (stream.token index).start (stream.token next).start) :
    left stream removed last index =
        slice stream.source (stream.token index).start (stream.token next).start ++
          left stream removed last next ∧
      kept stream removed last index =
        stream.between index next ++ kept stream removed last next := by
  constructor
  · rw [left_eq_append ordered before within inside, Text.without_of_uncovered uncovered]
  · rw [kept_eq_append before within, List.filter_eq_self.mpr]
    intro word member
    obtain ⟨late, early⟩ := start_of_mem_between ordered member
    simp [uncovered word.start late early]

end Left

/-- Nothing is removed from the token at `behind` on, and of the attributes in front of it each is
removed with the text up to the next token, or not at all. -/
structure Removes (stream : TokenStream) (removed : List (Nat × Nat)) (attributes : List Attribute)
    (behind last : Nat) : Prop where
  attributes : ∀ attr ∈ attributes,
    Text.Covered removed (range stream attr).1 (range stream attr).2 ∨
      Text.Uncovered removed (range stream attr).1 (range stream attr).2
  rest : Text.Uncovered removed (stream.token behind).start (stream.token last).stop

variable {source : List Char}

theorem head?_slice_append (scanned : TokenStream.scan source = .ok stream) {stop : Nat}
    (within : (stream.token index).stop ≤ stop) (inside : index < stream.words.length)
    (rest : List Char) : (slice source (stream.token index).start stop ++ rest).head? =
      (stream.token index).text.toList.head? := by
  obtain ⟨-, ordered⟩ := TokenStream.ordered_of_scan scanned
  obtain ⟨first, taken, text_eq, -⟩ := TokenStream.exists_piece scanned inside
  rw [← Text.slice_append_slice source (Nat.le_of_lt (ordered.start_lt_stop inside)) within,
    ← TokenStream.toList_text scanned inside, text_eq, String.toList_ofList]
  rfl

/-- Where everything up to another token is removed behind an attribute that is kept, its last token
goes on there if the two are fused, and only then. -/
theorem overrun_eq_zero_iff (scanned : TokenStream.scan source = .ok stream)
    (ending : Ending stream index next) (long : index + 2 ≤ next)
    (inside : next < stream.words.length) {place : Nat} (after : next ≤ place)
    (uncovered : Text.Uncovered removed (stream.token index).start (stream.token next).start)
    (covered : Text.Covered removed (stream.token next).start (stream.token place).start)
    {rest : List Char} (begins : rest.head? = (stream.token place).text.toList.head?) :
    Lexeme.overrun (stream.token (next - 1)).text.toList
        (slice source (stream.token (next - 1)).stop (stream.token next).start ++ rest) = 0 ↔
      ¬ Fused removed (stream.token (next - 1)) (stream.token place) := by
  obtain ⟨rfl, ordered⟩ := TokenStream.ordered_of_scan scanned
  have order : next - 1 < next := by omega
  have stop_le := ordered.stop_le_start order (by omega)
  have start_le := ordered.start_le_start after
  have inSource := ending.overrun_drop scanned long inside
  rw [← Text.slice_append_drop stream.source stop_le] at inSource
  have filled := ordered.start_lt_stop (show next - 1 < stream.words.length by omega)
  have first_le := ordered.start_le_start (show index ≤ next - 1 by omega)
  -- A gap behind the attribute ends its last token. Without one, the token at `place` decides.
  obtain gap | adjacent := Nat.lt_or_eq_of_le stop_le
  · -- What follows in the source is still there, and it is not removed.
    refine iff_of_true ?_ fun fused => ?_
    · refine (Lexeme.overrun_congr ?_ _).mp inSource
      have some :
          slice stream.source (stream.token (next - 1)).stop (stream.token next).start ≠ [] :=
        List.ne_nil_of_length_pos (by
          rw [Text.length_slice _ (ordered.start_le_length next)]
          omega)
      rw [List.head?_append_of_ne_nil _ some, List.head?_append_of_ne_nil _ some]
    · have removedThere := fused.covered (stream.token (next - 1)).stop (Nat.le_refl _) (by omega)
      rw [uncovered _ (by omega) gap] at removedThere
      cases removedThere
  · have none :
        slice stream.source (stream.token (next - 1)).stop (stream.token next).start = [] := by
      rw [slice, adjacent, Nat.sub_self, List.take_zero]
    rw [none, List.nil_append] at inSource ⊢
    rw [Lexeme.overrun_eq_zero_iff, Ends.congr begins]
    constructor
    · exact fun stops fused => fused.begins (stops fused.ends)
    · intro apart ends
      by_contra goesOn
      obtain rfl | later := Nat.eq_or_lt_of_le after
      · -- With nothing in between, the two tokens follow one another in the source already.
        refine goesOn ((Ends.congr ?_).mp (Lexeme.overrun_eq_zero_iff.mp inSource ends))
        have here := head?_slice_append scanned (ordered.stop_le_length inside) inside []
        rwa [List.append_nil, Text.slice_eq_drop] at here
      · have placed := ordered.start_lt_start later inside
        exact apart ⟨by omega, adjacent ▸ covered, ends, goesOn⟩

theorem range_eq (ordered : stream.Ordered) {attr : Attribute}
    (spans : attr.Spans stream index next) :
    range stream attr = ((stream.token index).start, (stream.token next).start) := by
  rw [range, spans.start_eq, spans.firstFrom_stop ordered]

theorem Removes.tail {attr : Attribute} {others : List Attribute}
    (removes : Removes stream removed (attr :: others) behind last) :
    Removes stream removed others behind last where
  attributes other member := removes.attributes other (List.mem_cons_of_mem _ member)
  rest := removes.rest

/-- Tokens are not fused where nothing is removed. -/
theorem isChain_of_uncovered (ordered : stream.Ordered) {stop : Nat}
    (inside : next ≤ stream.words.length)
    (uncovered : Text.Uncovered removed (stream.token index).start stop)
    (within : ∀ place, index ≤ place → place < next → (stream.token place).start < stop) :
    (stream.between index next).IsChain fun first second => ¬ Fused removed first second := by
  refine TokenStream.isChain_between inside fun place after before fused => ?_
  have filled := ordered.start_lt_stop (show place < stream.words.length by omega)
  have reached := within (place + 1) (by omega) before
  have apart := fused.apart
  have covered := fused.covered _ (Nat.le_refl _) apart
  have start_le := ordered.start_le_start after
  rw [uncovered _ (by omega) (by omega)] at covered
  cases covered

/-- Without attributes in front, nothing is removed. -/
theorem left_eq_slice (scanned : TokenStream.scan source = .ok stream)
    (inside : last < stream.words.length)
    (uncovered : Text.Uncovered removed (stream.token behind).start (stream.token last).stop) :
    left stream removed last behind =
        slice source (stream.token behind).start (stream.token last).stop ∧
      kept stream removed last behind = stream.between behind (last + 1) := by
  obtain ⟨rfl, ordered⟩ := TokenStream.ordered_of_scan scanned
  refine ⟨Text.without_of_uncovered uncovered _, List.filter_eq_self.mpr fun word member => ?_⟩
  obtain ⟨place, after, before, bound, rfl⟩ := TokenStream.mem_between member
  have filled := ordered.start_lt_stop bound
  have stop_le := ordered.stop_le_stop (Nat.le_of_lt_succ before) inside
  rw [uncovered _ (ordered.start_le_start after) (by omega)]
  rfl

namespace Row

variable {attributes : List Attribute} (scanned : TokenStream.scan source = .ok stream)
variable (within : behind ≤ last) (inside : last < stream.words.length)
include scanned within inside

/-- What is left begins with the first token that is kept. -/
theorem exists_first (row : Row stream index attributes behind)
    (removes : Removes stream removed attributes behind last) :
    ∃ place, index ≤ place ∧
      Text.Covered removed (stream.token index).start (stream.token place).start ∧
      (kept stream removed last index).head? = some (stream.token place) ∧
        (left stream removed last index).head? = (stream.token place).text.toList.head? := by
  obtain ⟨rfl, ordered⟩ := TokenStream.ordered_of_scan scanned
  have nothing (place : Nat) :
      Text.Covered removed (stream.token place).start (stream.token place).start :=
    fun _ after before => absurd before (Nat.not_lt.mpr after)
  induction row with
  | @nil index _ =>
    obtain ⟨left_eq, kept_eq⟩ := left_eq_slice scanned inside removes.rest
    refine ⟨index, Nat.le_refl _, nothing index, ?_, ?_⟩
    · rw [kept_eq, TokenStream.between_cons (by omega) (by omega)]
      rfl
    · rw [left_eq, ← head?_slice_append scanned (ordered.stop_le_stop within inside) (by omega) [],
        List.append_nil]
  | @cons index next behind attr others read spans row inductionHypothesis =>
    obtain ⟨place, after, covered, kept_head, left_head⟩ := inductionHypothesis within removes.tail
    have next_le := row.index_le
    have index_lt := spans.index_lt
    have answer := removes.attributes attr List.mem_cons_self
    rw [range_eq ordered spans] at answer
    obtain coveredHere | uncoveredHere := answer
    · -- The first token that is kept is the one that the rest of the row has.
      obtain ⟨left_eq, kept_eq⟩ := left_of_covered ordered (show index ≤ next by omega) (by omega)
        inside coveredHere
      refine ⟨place, by omega, fun offset late early => ?_, kept_eq ▸ kept_head,
        left_eq ▸ left_head⟩
      obtain within | beyond := Nat.lt_or_ge offset (stream.token next).start
      · exact coveredHere offset late within
      · exact covered offset beyond early
    · obtain ⟨left_eq, kept_eq⟩ := left_of_uncovered ordered (show index ≤ next by omega) (by omega)
        inside uncoveredHere
      refine ⟨index, Nat.le_refl _, nothing index, ?_, ?_⟩
      · rw [kept_eq, TokenStream.between_cons (by omega) (by omega)]
        rfl
      · rw [left_eq]
        exact head?_slice_append scanned (ordered.stop_le_start (by omega) (by omega)) (by omega) _

/-- What is left of a row and the text behind it is read into the tokens that are left, unless two
of these are fused. -/
theorem lexes_left_iff (row : Row stream index attributes behind)
    (removes : Removes stream removed attributes behind last) :
    Lexes [] (left stream removed last index) ((kept stream removed last index).map Token.word) ↔
      (kept stream removed last index).IsChain fun first second => ¬ Fused removed first second := by
  obtain ⟨rfl, ordered⟩ := TokenStream.ordered_of_scan scanned
  induction row with
  | @nil index _ =>
    obtain ⟨left_eq, kept_eq⟩ := left_eq_slice scanned inside removes.rest
    rw [left_eq, kept_eq]
    refine iff_of_true (TokenStream.lexes_alone scanned within inside) ?_
    refine isChain_of_uncovered ordered inside removes.rest fun place _ before => ?_
    exact Nat.lt_of_le_of_lt (ordered.start_le_start (Nat.le_of_lt_succ before))
      (ordered.start_lt_stop inside)
  | @cons index next behind attr others read spans row inductionHypothesis =>
    have next_le := row.index_le
    have index_lt := spans.index_lt
    have answer := removes.attributes attr List.mem_cons_self
    rw [range_eq ordered spans] at answer
    obtain coveredHere | uncoveredHere := answer
    · obtain ⟨left_eq, kept_eq⟩ := left_of_covered ordered (show index ≤ next by omega) (by omega)
        inside coveredHere
      rw [left_eq, kept_eq]
      exact inductionHypothesis within removes.tail
    · obtain ⟨left_eq, kept_eq⟩ := left_of_uncovered ordered (show index ≤ next by omega) (by omega)
        inside uncoveredHere
      -- The attribute stays. Whether its last token stops depends on the first one kept behind it.
      have ending := ending_of_reads ordered read spans.next_le
      obtain ⟨place, after, covered, kept_head, left_head⟩ :=
        exists_first scanned within inside row removes.tail
      rw [left_eq, kept_eq, List.map_append, ending.lexes_append_iff scanned (by omega) (by omega),
        overrun_eq_zero_iff scanned ending (by omega) (by omega) after uncoveredHere covered
          left_head,
        inductionHypothesis within removes.tail, List.isChain_append]
      have chained : (stream.between index next).IsChain
          fun first second => ¬ Fused removed first second :=
        isChain_of_uncovered ordered spans.next_le uncoveredHere fun place _ before =>
          ordered.start_lt_start before (by omega)
      have last_eq : (stream.between index next).getLast? = some (stream.token (next - 1)) := by
        rw [TokenStream.between_eq_concat (by omega) spans.next_le, List.getLast?_concat]
      simp only [chained, last_eq, kept_head, Option.mem_def, Option.some.injEq, forall_eq',
        true_and]
      exact and_comm

end Row

end Attribute

end PeerExpansion
