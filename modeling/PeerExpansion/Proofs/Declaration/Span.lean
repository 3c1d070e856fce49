import PeerExpansion.Proofs.Attribute.Row
import PeerExpansion.Proofs.Outcome

/-! # Where declarations stand

A declaration takes the tokens from its first attribute or modifier to the last one that was passed.
-/

namespace PeerExpansion.Declaration

open Reading

variable {stream : TokenStream} {index : Nat} {first last : Cursor}

theorem reads_readKeyword {keyword : Token} {kind : DeclarationKind}
    (read : Reads readKeyword first (keyword, kind) last) :
    first.current.isIdentifier = true ∧ keyword = first.current ∧
      DeclarationKind.ofKeyword? keyword.text = some kind ∧ last = first.skip 1 := by
  simp only [readKeyword, reads_bind, reads_current, and_assoc, exists_and_left,
    exists_eq_left] at read
  split at read
  next known =>
    simp only [reads_ite, reads_bind, reads_skip, reads_pure, Prod.mk.injEq, reads_missing] at read
    obtain ⟨identifier, _, _, rfl, ⟨rfl, rfl⟩, rfl⟩ | ⟨_, impossible⟩ := read
    · exact ⟨identifier, rfl, known, rfl⟩
    · cases impossible
  next => cases reads_missing read

/-- A declaration that takes the tokens of a source from `index` up to, but without, `next`. Its
attributes end in front of the token at `behind`. -/
structure Spans (stream : TokenStream) (index behind next : Nat) (declaration : Declaration) :
    Prop where
  row : Attribute.Row stream index declaration.attributes behind
  behind_lt : behind < next
  next_le : next ≤ stream.words.length
  position_eq : declaration.position = (stream.token index).position
  stop_eq : declaration.stop = (stream.token (next - 1)).stop

/-- `token` is the keyword that the declaration has its kind from. -/
structure IsKeyword (declaration : Declaration) (token : Token) : Prop where
  identifier : token.isIdentifier = true
  text_eq : token.text = declaration.keyword
  kind_eq : DeclarationKind.ofKeyword? token.text = some declaration.kind

/-- The parts that a declaration is read in: the attributes up to `behind`, the modifiers up to
`middle`, the keyword there, and the bindings or the body up to `last`. -/
structure ReadInParts (declaration : Declaration) (first behind middle last : Cursor) : Prop where
  attributes : Reads Attribute.readAll first declaration.attributes behind
  modifiers : Reads readModifiers behind declaration.modifiers middle
  keyword : declaration.IsKeyword middle.current
  /-- Only a variable has bindings, and only the others have a body. -/
  rest : declaration.isProperty = true ∧
        Reads (separated "," readBinding) (middle.skip 1) declaration.bindings last ∨
      declaration.isProperty = false ∧ declaration.bindings = [] ∧
        Reads (readBody middle.current) (middle.skip 1) declaration.name last
  position_eq : declaration.position = first.current.position
  stop_eq : declaration.stop = (last.previous?.map Token.stop).getD first.current.start
  text_eq : declaration.text = last.textSince first.current

theorem readInParts_of_reads {declaration : Declaration}
    (read : Reads Declaration.read first declaration last) :
    ∃ behind middle, declaration.ReadInParts first behind middle last := by
  simp only [Declaration.read, reads_bind, reads_current, and_assoc, exists_and_left,
    exists_eq_left] at read
  obtain ⟨attributes, behind, attributesRead, modifiers, middle, modifiersRead, ⟨keyword, kind⟩,
    later, keywordRead, tail⟩ := read
  obtain ⟨identifier, rfl, known, rfl⟩ := reads_readKeyword keywordRead
  refine ⟨behind, middle, ?_⟩
  by_cases property : kind = .property
  · simp only [property, reduceIte, reads_bind, reads_pure, reads_get, reads_textSince, and_assoc,
      exists_and_left, exists_eq_left] at tail
    obtain ⟨bindings, _, bindingsRead, rfl, rfl⟩ := tail
    have keyword := known.trans (congrArg some property)
    exact ⟨attributesRead, modifiersRead, ⟨identifier, rfl, keyword⟩, .inl ⟨rfl, bindingsRead⟩,
      rfl, rfl, rfl⟩
  · simp only [property, reduceIte, reads_bind, reads_pure, reads_get, reads_textSince, and_assoc,
      exists_and_left, exists_eq_left] at tail
    obtain ⟨name, _, nameRead, rfl, rfl⟩ := tail
    exact ⟨attributesRead, modifiersRead, ⟨identifier, rfl, known⟩,
      .inr ⟨by simpa [isProperty] using property, rfl, nameRead⟩, rfl, rfl, rfl⟩

/-- The last part of a declaration only moves the cursor on. -/
theorem ReadInParts.leads {declaration : Declaration} {behind middle : Cursor}
    (parts : declaration.ReadInParts first behind middle last) : (middle.skip 1).Leads last := by
  obtain ⟨-, bindingsRead⟩ | ⟨-, -, nameRead⟩ := parts.rest
  · exact forward_separated _ forward_readBinding _ _ _ bindingsRead
  · exact forward_readBody _ _ _ _ nameRead

/-- The keyword stands behind the attributes. -/
theorem exists_keyword_of_reads {declaration : Declaration} (ordered : stream.Ordered)
    (inside : index ≤ stream.words.length)
    (read : Reads Declaration.read (.ofStream stream index) declaration last) :
    ∃ behind place next, last = .ofStream stream next ∧
      declaration.Spans stream index behind next ∧ behind ≤ place ∧ place < next ∧
        declaration.IsKeyword (stream.token place) := by
  obtain ⟨_, middle, parts⟩ := readInParts_of_reads read
  obtain ⟨behind, rfl, row⟩ := (Attribute.reads_readAll_iff ordered).mp parts.attributes
  have modified := forward_readModifiers _ _ _ parts.modifiers
  obtain ⟨place, after, _, rfl⟩ := modified.exists_index (row.stop_le inside)
  have finished := parts.leads
  have keyword := parts.keyword
  have position_eq := parts.position_eq
  have stop_eq := parts.stop_eq
  rw [Cursor.current_ofStream] at keyword position_eq
  rw [Cursor.skip_ofStream] at finished
  obtain ⟨next, later, bound, rfl, previous⟩ :=
    finished.exists_previous? (ordered.lt_length_of_isIdentifier keyword.identifier)
  rw [previous] at stop_eq
  exact ⟨behind, place, next, rfl,
    ⟨row, Nat.lt_of_le_of_lt after later, bound, position_eq, stop_eq⟩, after, later, keyword⟩

theorem spans_of_reads {declaration : Declaration} (ordered : stream.Ordered)
    (inside : index ≤ stream.words.length)
    (read : Reads Declaration.read (.ofStream stream index) declaration last) :
    ∃ behind next, last = .ofStream stream next ∧ declaration.Spans stream index behind next := by
  obtain ⟨behind, place, next, rfl, spans, -⟩ := exists_keyword_of_reads ordered inside read
  exact ⟨behind, next, rfl, spans⟩

theorem exists_spans_of_reads {declaration : Declaration} {next : Nat} (ordered : stream.Ordered)
    (inside : index ≤ stream.words.length) (within : next ≤ stream.words.length)
    (read : Reads Declaration.read (.ofStream stream index) declaration (.ofStream stream next)) :
    ∃ behind, declaration.Spans stream index behind next := by
  obtain ⟨behind, place, same, spans⟩ := spans_of_reads ordered inside read
  obtain rfl := Cursor.ofStream_injective within spans.next_le same
  exact ⟨behind, spans⟩

namespace Spans

variable {behind next : Nat} {declaration : Declaration}
variable (spans : Spans stream index behind next declaration)
include spans

theorem start_eq : declaration.start = (stream.token index).start :=
  congrArg Position.offset spans.position_eq

theorem index_lt : index < next :=
  Nat.lt_of_le_of_lt spans.row.index_le spans.behind_lt

theorem last_lt : next - 1 < stream.words.length := by
  have := spans.index_lt
  have := spans.next_le
  omega

theorem text_eq
    (read : Reads Declaration.read (.ofStream stream index) declaration (.ofStream stream next)) :
    declaration.text.toList =
      Text.slice stream.source (stream.token index).start (stream.token (next - 1)).stop := by
  obtain ⟨_, _, parts⟩ := readInParts_of_reads read
  have text_eq := parts.text_eq
  rw [text_eq, Cursor.current_ofStream, Cursor.textSince_ofStream spans.index_lt spans.next_le,
    TokenStream.textOf, if_pos spans.index_lt]

variable (ordered : stream.Ordered)
include ordered

theorem firstFrom_stop : stream.firstFrom declaration.stop = stream.token next := by
  have := spans.index_lt
  rw [spans.stop_eq, ordered.firstFrom_stop spans.last_lt, Nat.sub_add_cancel (by omega)]

theorem start_lt_stop : declaration.start < declaration.stop := by
  have := spans.index_lt
  rw [spans.start_eq, spans.stop_eq]
  exact Nat.lt_of_le_of_lt (ordered.start_le_start (by omega)) (ordered.start_lt_stop spans.last_lt)

theorem stop_le_length : declaration.stop ≤ stream.source.length := by
  rw [spans.stop_eq]
  exact ordered.stop_le_length spans.last_lt

theorem stop_le_start {place : Nat} (beyond : next ≤ place) :
    declaration.stop ≤ (stream.token place).start := by
  have := spans.index_lt
  rw [spans.stop_eq]
  exact ordered.stop_le_start (by omega) spans.last_lt

/-- A token that starts behind a declaration does not belong to it. -/
theorem next_le_of_stop_le {place : Nat} (beyond : declaration.stop ≤ (stream.token place).start) :
    next ≤ place := by
  by_contra inside
  have := ordered.start_lt_stop spans.last_lt
  have := ordered.start_le_start (show place ≤ next - 1 by omega)
  rw [spans.stop_eq] at beyond
  omega

end Spans

end PeerExpansion.Declaration

namespace PeerExpansion

/-! ## Declarations that are all of a text

A text that holds a single declaration is read into it and has nothing else but a semicolon.
-/

open Reading

variable {stream : TokenStream}

/-- The declaration has all the tokens of a source but for a semicolon at the end. -/
structure Declaration.Alone (stream : TokenStream) (next : Nat) (declaration : Declaration) :
    Prop where
  reads : Reads Declaration.read (.ofStream stream 0) declaration (.ofStream stream next)
  ends : stream.words.length ≤ next ∨
    (stream.token next).isPunctuation ";" = true ∧ stream.words.length ≤ next + 1

theorem Declaration.reads_readOnly {declaration : Declaration} {first last : Cursor}
    (read : Reads Declaration.readOnly first declaration last) :
    ∃ middle, Reads Declaration.read first declaration middle ∧
      (middle.current.kind = .ending ∨
        middle.current.isPunctuation ";" = true ∧ (middle.skip 1).current.kind = .ending) := by
  simp only [Declaration.readOnly, reads_bind, reads_current, reads_ite, reads_skip, reads_pure,
    reads_fail, and_assoc, exists_and_left, exists_eq_left, false_and, exists_false, and_false,
    false_or, exists_const, bne_iff_ne, ne_eq, Decidable.not_not] at read
  obtain ⟨_, _, found, ⟨semicolon, ends, rfl, rfl⟩ | ⟨_, ends, rfl, rfl⟩⟩ := read
  · exact ⟨_, found, .inr ⟨semicolon, ends⟩⟩
  · exact ⟨_, found, .inl ends⟩

theorem TokenStream.Ordered.length_le (ordered : stream.Ordered) {place : Nat}
    (ends : (stream.token place).kind = .ending) : stream.words.length ≤ place := by
  by_contra inside
  have inside : place < stream.words.length := by omega
  rw [token_eq_getElem inside] at ends
  exact (ordered.filled _ (List.getElem_mem inside)).1 ends

theorem Declaration.exists_alone_of_parse {source : List Char} {declaration : Declaration}
    (parsed : Declaration.parse source = .ok declaration) :
    ∃ stream behind next, TokenStream.scan source = .ok stream ∧
      declaration.Spans stream 0 behind next ∧ declaration.Alone stream next := by
  rw [Declaration.parse] at parsed
  obtain ⟨stream, scanned, parsed⟩ := exists_of_bind_eq_ok parsed
  obtain ⟨⟨_, last⟩, read, same⟩ := exists_of_bind_eq_ok parsed
  cases same
  have ordered := (TokenStream.ordered_of_scan scanned).2
  obtain ⟨middle, read, ends⟩ := reads_readOnly read
  obtain ⟨behind, next, rfl, spans⟩ := spans_of_reads ordered (Nat.zero_le _) read
  refine ⟨stream, behind, next, scanned, spans, read, ?_⟩
  simp only [Cursor.current_ofStream, Cursor.skip_ofStream] at ends
  exact ends.imp ordered.length_le (And.imp_right ordered.length_le)

/-- A declaration that has all words of a text is what the text is parsed as. -/
theorem Declaration.parse_of_reads {source : List Char} {declaration : Declaration} {next : Nat}
    (scanned : TokenStream.scan source = .ok stream)
    (read : Reads Declaration.read (.ofStream stream 0) declaration (.ofStream stream next))
    (all : stream.words.length ≤ next) : Declaration.parse source = .ok declaration := by
  have ending := (TokenStream.ordered_of_scan scanned).2.ending_kind
  have current_eq : (Cursor.ofStream stream next).current = stream.ending := by
    rw [Cursor.current_ofStream, TokenStream.token_eq_ending all]
  have only : Reads readOnly (.ofStream stream 0) declaration (.ofStream stream next) := by
    refine reads_bind.mpr ⟨declaration, _, read, ?_⟩
    have plain : ¬ stream.ending.isPunctuation ";" = true := by simp [Token.isPunctuation, ending]
    rw [Reads, run_current_bind, current_eq, if_neg plain, run_current_bind, current_eq,
      if_neg (by simp [ending])]
    rfl
  rw [Declaration.parse, scanned]
  show (readOnly.run (.ofStream stream 0) >>= _) = _
  rw [only]
  rfl

end PeerExpansion
