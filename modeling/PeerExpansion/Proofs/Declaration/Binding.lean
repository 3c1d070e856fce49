import PeerExpansion.Proofs.Declaration.Span
import PeerExpansion.Proofs.Token.Identifier

/-! # Names of variables

The bindings of a declaration are read among the tokens of the source, so a name that one of them
binds is an identifier.
-/

namespace PeerExpansion

namespace Reading

variable {α : Type} {item : Reading α} {first last : Cursor}

theorem exists_reads_of_mem_separatedWithin {separator : String} {limit : Nat} {values : List α}
    (forward : Forward item)
    (read : Reads (separatedWithin separator item limit) first values last) :
    ∀ value ∈ values, ∃ middle after, first.Leads middle ∧ Reads item middle value after := by
  induction limit generalizing first values with
  | zero =>
    simp only [separatedWithin, reads_bind, reads_pure] at read
    obtain ⟨value, after, itemRead, rfl, rfl⟩ := read
    intro other member
    obtain rfl := List.mem_singleton.mp member
    exact ⟨first, last, .refl _, itemRead⟩
  | succ limit inductionHypothesis =>
    simp only [separatedWithin, reads_bind, reads_check, and_assoc, exists_and_left,
      exists_eq_left] at read
    obtain ⟨value, middle, itemRead, more⟩ := read
    -- The later items are read from behind this one, so from further on all the same.
    have passed := forward _ _ _ itemRead
    rw [reads_ite] at more
    obtain ⟨_, more⟩ | ⟨_, more⟩ := more
    · simp only [reads_bind, reads_advance, reads_pure] at more
      obtain ⟨_, _, ⟨_, rfl⟩, others, after, othersRead, rfl, rfl⟩ := more
      intro other member
      obtain rfl | later := List.mem_cons.mp member
      · exact ⟨first, middle, .refl _, itemRead⟩
      · obtain ⟨start, stop, leads, otherRead⟩ := inductionHypothesis othersRead other later
        exact ⟨start, stop, passed.trans ((Cursor.Leads.skip _ _).trans leads), otherRead⟩
    · obtain ⟨rfl, rfl⟩ := reads_pure.mp more
      intro other member
      obtain rfl := List.mem_singleton.mp member
      exact ⟨first, last, .refl _, itemRead⟩

theorem exists_reads_of_mem_separated {separator : String} {values : List α}
    (forward : Forward item) (read : Reads (separated separator item) first values last) :
    ∀ value ∈ values, ∃ middle after, first.Leads middle ∧ Reads item middle value after := by
  simp only [separated, reads_bind, reads_get] at read
  obtain ⟨_, _, ⟨rfl, rfl⟩, listRead⟩ := read
  exact exists_reads_of_mem_separatedWithin forward listRead

/-- The last item was read last. -/
theorem exists_last_of_separatedWithin {separator : String} {limit : Nat} {values : List α}
    (read : Reads (separatedWithin separator item limit) first values last) :
    ∃ value middle, values.getLast? = some value ∧ Reads item middle value last := by
  induction limit generalizing first values with
  | zero =>
    simp only [separatedWithin, reads_bind, reads_pure] at read
    obtain ⟨value, after, itemRead, rfl, rfl⟩ := read
    exact ⟨value, first, rfl, itemRead⟩
  | succ limit inductionHypothesis =>
    simp only [separatedWithin, reads_bind, reads_check, and_assoc, exists_and_left,
      exists_eq_left] at read
    obtain ⟨value, middle, itemRead, more⟩ := read
    rw [reads_ite] at more
    obtain ⟨_, more⟩ | ⟨_, more⟩ := more
    · simp only [reads_bind, reads_advance, reads_pure] at more
      obtain ⟨_, _, ⟨_, rfl⟩, others, after, othersRead, rfl, rfl⟩ := more
      obtain ⟨final, start, found, finalRead⟩ := inductionHypothesis othersRead
      exact ⟨final, start, by rw [List.getLast?_cons, found]; rfl, finalRead⟩
    · obtain ⟨rfl, rfl⟩ := reads_pure.mp more
      exact ⟨value, first, rfl, itemRead⟩

theorem exists_first_of_separated {separator : String} {values : List α}
    (read : Reads (separated separator item) first values last) :
    ∃ value others middle, values = value :: others ∧ Reads item first value middle := by
  simp only [separated, reads_bind, reads_get, and_assoc, exists_and_left, exists_eq_left] at read
  cases limit : first.remaining with
  | zero =>
    simp only [limit, separatedWithin, reads_bind, reads_pure] at read
    obtain ⟨value, middle, itemRead, rfl, -⟩ := read
    exact ⟨value, [], middle, rfl, itemRead⟩
  | succ more =>
    simp only [limit, separatedWithin, reads_bind, reads_check, reads_ite, reads_advance,
      reads_pure, and_assoc, exists_and_left, exists_eq_left] at read
    obtain ⟨value, middle, itemRead, ⟨_, others, _, _, rfl, _⟩ | ⟨_, rfl, _⟩⟩ := read
    · exact ⟨value, others, middle, rfl, itemRead⟩
    · exact ⟨value, [], middle, rfl, itemRead⟩

/-- Where no separator follows there is only the first item. -/
theorem reads_separated_one {separator : String} {value : α} (read : Reads item first value last)
    (ends : last.current.reads separator = false) :
    Reads (separated separator item) first [value] last := by
  simp only [separated, reads_bind, reads_get, and_assoc, exists_and_left, exists_eq_left]
  cases first.remaining with
  | zero =>
    simp only [separatedWithin, reads_bind, reads_pure]
    exact ⟨value, last, read, rfl, rfl⟩
  | succ more =>
    simp only [separatedWithin, reads_bind, reads_check, reads_ite, reads_pure, and_assoc,
      exists_and_left, exists_eq_left]
    exact ⟨value, last, read, .inr ⟨by simp [ends], rfl, rfl⟩⟩

end Reading

open Reading

variable {stream : TokenStream} {index : Nat} {first last : Cursor}

/-- A name is the text of the identifier it was read from. -/
theorem Pattern.isIdentifier_of_reads {text : String} {position : Position}
    (read : Reads Pattern.read first (.name text position) last) :
    first.current.isIdentifier = true ∧ first.current.text = text := by
  simp only [Pattern.read, reads_bind, reads_get, and_assoc, exists_and_left,
    exists_eq_left] at read
  cases remaining : first.remaining with
  | zero =>
    rw [remaining] at read
    exact (reads_missing read).elim
  | succ depth =>
    rw [remaining, Pattern.readWithin] at read
    simp only [reads_bind, reads_current, and_assoc, exists_and_left, exists_eq_left] at read
    -- Of the three kinds of patterns only the last is a name.
    rw [reads_ite] at read
    obtain ⟨_, tupleRead⟩ | ⟨_, read⟩ := read
    · simp only [reads_bind, reads_pure, reduceCtorEq, false_and, and_false, exists_false]
        at tupleRead
    · rw [reads_ite] at read
      obtain ⟨_, wildcardRead⟩ | ⟨_, nameRead⟩ := read
      · simp only [reads_bind, reads_pure, reduceCtorEq, false_and, and_false, exists_false]
          at wildcardRead
      · simp only [reads_bind, reads_expectIdentifier, reads_pure, Pattern.name.injEq] at nameRead
        obtain ⟨_, _, ⟨identifier, _, _⟩, ⟨text_eq, _⟩, _⟩ := nameRead
        exact ⟨identifier, text_eq.symm⟩

namespace Declaration

theorem exists_reads_of_mem_bindings {declaration : Declaration}
    (read : Reads Declaration.read first declaration last) :
    ∀ binding ∈ declaration.bindings,
      ∃ middle after, first.Leads middle ∧ Reads readBinding middle binding after := by
  obtain ⟨behind, middle, parts⟩ := readInParts_of_reads read
  intro binding member
  obtain ⟨-, bindingsRead⟩ | ⟨-, none, -⟩ := parts.rest
  · have leads := ((Attribute.forward_readAll _ _ _ parts.attributes).trans
      (forward_readModifiers _ _ _ parts.modifiers)).trans (.skip middle 1)
    obtain ⟨start, stop, passed, bindingRead⟩ :=
      exists_reads_of_mem_separated forward_readBinding bindingsRead binding member
    exact ⟨start, stop, leads.trans passed, bindingRead⟩
  · rw [none] at member
    cases member

/-- A variable ends with its last binding. -/
theorem exists_last_binding {declaration : Declaration} (property : declaration.isProperty = true)
    (read : Reads Declaration.read first declaration last) :
    ∃ binding middle, declaration.bindings.getLast? = some binding ∧
      Reads readBinding middle binding last := by
  obtain ⟨behind, middle, parts⟩ := readInParts_of_reads read
  obtain ⟨-, bindingsRead⟩ | ⟨other, -⟩ := parts.rest
  · simp only [separated, reads_bind, reads_get] at bindingsRead
    obtain ⟨_, _, ⟨rfl, rfl⟩, listRead⟩ := bindingsRead
    exact exists_last_of_separatedWithin listRead
  · rw [property] at other
    cases other

theorem isIdentifier_of_mem_bindings {source : List Char} {declaration : Declaration}
    (scanned : TokenStream.scan source = .ok stream)
    (read : Reads Declaration.read (.ofStream stream index) declaration last) {binding : Binding}
    (member : binding ∈ declaration.bindings) {text : String} {position : Position}
    (pattern_eq : binding.pattern = .name text position) : IsIdentifier text := by
  obtain ⟨middle, after, leads, bindingRead⟩ := exists_reads_of_mem_bindings read binding member
  have begins : (Cursor.ofStream stream 0).Leads (.ofStream stream index) := ⟨index, by simp⟩
  -- Readings go forward, so the binding was read from a place in the same stream of tokens.
  obtain ⟨place, -, -, rfl⟩ := (begins.trans leads).exists_index (Nat.zero_le _)
  have patternRead : ∃ finish,
      Reads Pattern.read (.ofStream stream place) binding.pattern finish := by
    simp only [readBinding, reads_bind, reads_pure] at bindingRead
    obtain ⟨pattern, finish, patternRead, type, _, _, initializer, _, _, accessors, _, _, rfl, _⟩ :=
      bindingRead
    exact ⟨finish, patternRead⟩
  obtain ⟨finish, patternRead⟩ := patternRead
  rw [pattern_eq] at patternRead
  obtain ⟨identifier, text_eq⟩ := Pattern.isIdentifier_of_reads patternRead
  rw [Cursor.current_ofStream] at identifier text_eq
  obtain ⟨-, ordered⟩ := TokenStream.ordered_of_scan scanned
  have within := ordered.lt_length_of_isIdentifier identifier
  rw [TokenStream.token_eq_getElem within] at identifier text_eq
  rw [← text_eq]
  exact isIdentifier_of_scan scanned _ (List.getElem_mem within) (beq_iff_eq.mp identifier)

theorem exists_reads_of_parse {source : List Char} {declaration : Declaration}
    (parsed : Declaration.parse source = .ok declaration) :
    ∃ stream last, TokenStream.scan source = .ok stream ∧
      Reads Declaration.read (.ofStream stream 0) declaration last := by
  unfold Declaration.parse at parsed
  obtain ⟨stream, scanned, parsed⟩ := exists_of_bind_eq_ok parsed
  obtain ⟨⟨given, finish⟩, ran, parsed⟩ := exists_of_bind_eq_ok parsed
  cases parsed
  have read : Reads readOnly (.ofStream stream 0) declaration finish := ran
  rw [readOnly, reads_bind] at read
  obtain ⟨first, last, firstRead, rest⟩ := read
  simp only [reads_bind, reads_current, reads_ite, reads_skip, reads_fail, reads_pure,
    and_assoc, exists_and_left, exists_eq_left, false_and, and_false, exists_false,
    exists_const, false_or] at rest
  -- What is behind the declaration, a semicolon or the end, does not change it.
  obtain ⟨-, -, rfl, -⟩ | ⟨-, -, rfl, -⟩ := rest
  · exact ⟨stream, last, scanned, firstRead⟩
  · exact ⟨stream, last, scanned, firstRead⟩

end Declaration

end PeerExpansion
