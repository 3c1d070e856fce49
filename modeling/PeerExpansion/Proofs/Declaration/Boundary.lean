import PeerExpansion.Proofs.Declaration.Carry
import PeerExpansion.Proofs.Declaration.Span

/-! # Variables that end at a seam

A variable that ends in front of a seam is read from both streams. One that ends at the seam is,
too, unless its last part is an initializer: that one ends where the words behind it begin something
new, or where there are none. In the middle of a variable an initializer is closed by the words of
the variable that stand behind it.
-/

namespace PeerExpansion

open Reading

namespace Extent

variable {previous : Token} {depth : Nat} {front rest other : List Token}

/-- An expression that ends in front of some word ends there whatever follows behind that word. -/
theorem expressionLength_append_of_lt
    (inside : expressionLength previous depth (front ++ rest) < front.length) :
    expressionLength previous depth (front ++ other) =
      expressionLength previous depth (front ++ rest) := by
  induction front generalizing previous depth with
  | nil => cases inside
  | cons token front inductionHypothesis =>
    simp only [List.cons_append, expressionLength] at inside ⊢
    split
    next => rfl
    next goes =>
      rw [if_neg goes] at inside
      rw [inductionHypothesis (Nat.lt_of_succ_lt_succ inside)]

/-- An expression that takes some words is as long as they are and what it takes behind them. -/
theorem expressionLength_append_of_le
    (beyond : front.length ≤ expressionLength previous depth (front ++ rest)) :
    expressionLength previous depth (front ++ other) =
      front.length +
        expressionLength (front.getLastD previous) (front.foldl depthBehind depth) other := by
  induction front generalizing previous depth with
  | nil => exact (Nat.zero_add _).symm
  | cons token front inductionHypothesis =>
    simp only [List.cons_append, expressionLength] at beyond ⊢
    split at beyond
    next => cases beyond
    next goes =>
      rw [if_neg goes, inductionHypothesis (Nat.le_of_succ_le_succ beyond), List.getLastD_cons,
        List.length_cons, List.foldl_cons]
      omega

end Extent

namespace Seam

variable (seam : Seam)

/-- An expression that takes the words from some place up to the seam ends there in the other
stream. -/
def Halts : Prop :=
  ∀ index < seam.place,
    Extent.expressionLength (seam.stream.token (seam.place - 1))
      ((seam.front index).foldl Extent.depthBehind 0) (seam.other.words.drop seam.place) = 0

variable {seam} {index : Nat}

theorem front_eq_cons (inside : index < seam.place) :
    seam.front index = seam.stream.token index :: seam.front (index + 1) := by
  have within := seam.within
  have some : index < (seam.stream.words.take seam.place).length := by
    rw [List.length_take]
    omega
  rw [front, front, List.drop_eq_getElem_cons some, List.getElem_take,
    TokenStream.token_eq_getElem (by omega)]

theorem getLastD_front (inside : index < seam.place) (token : Token) :
    (seam.front index).getLastD token = seam.stream.token (seam.place - 1) := by
  have within := seam.within
  have shorter : seam.place - 1 < seam.stream.words.length := by omega
  rw [List.getLastD_eq_getLast?, front, List.getLast?_drop, List.getLast?_take,
    if_neg (by rw [List.length_take]; omega), if_neg (by omega), List.getElem?_eq_getElem shorter,
    TokenStream.token_eq_getElem shorter]
  rfl

/-- Behind the seam there is nothing, so an expression does not go on there. -/
theorem halts_of_drop_eq_nil (none : seam.other.words.drop seam.place = []) : seam.Halts := by
  intro index inside
  rw [none]
  rfl

end Seam

/-- The last part of the binding is no initializer. -/
def Binding.IsClosed (binding : Binding) : Prop :=
  binding.initializer = none ∨ binding.accessors.isSome = true

namespace Declaration

variable {seam : Seam} {spare : Nat} {first last : Cursor}

theorem expressionLength_le (previous : Token) (depth : Nat) (tokens : List Token) :
    Extent.expressionLength previous depth tokens ≤ tokens.length := by
  induction tokens generalizing previous depth with
  | nil => exact Nat.le_refl _
  | cons token tokens inductionHypothesis =>
    rw [Extent.expressionLength]
    split
    · exact Nat.zero_le _
    · exact Nat.succ_le_succ (inductionHypothesis _ _)

theorem reads_readInitializer {text : String} :
    Reads readInitializer first text last ↔
      ¬ (first.current.kind == .ending || Extent.endsExpression first.current) = true ∧
        last = first.skip (1 + Extent.expressionLength first.current
          (Extent.depthBehind 0 first.current) (first.skip 1).behind) ∧
        text = last.textSince first.current := by
  simp only [readInitializer, reads_bind, reads_current, reads_ite, reads_fail, reads_skip, reads_get,
    reads_textSince, and_assoc, exists_and_left, exists_eq_left, false_and, exists_false, and_false,
    false_or, exists_const, Cursor.skip_skip]
  constructor
  · rintro ⟨starts, rfl, rfl⟩
    exact ⟨starts, rfl, rfl⟩
  · rintro ⟨starts, rfl, rfl⟩
    exact ⟨starts, rfl, rfl⟩

theorem costs_readInitializer : Costs readInitializer := by
  intro first text last ends read
  obtain ⟨starts, rfl, -⟩ := reads_readInitializer.mp read
  have some : 0 < first.remaining := by
    rw [Cursor.remaining, List.length_pos_iff]
    intro none
    apply starts
    simp [Cursor.current, Cursor.ahead, none, ends.kind_eq]
  rw [Cursor.remaining_skip]
  omega

/-- An initializer that ends in front of the seam, or at a seam where it cannot go on. -/
theorem carries_readInitializer (settled : seam.Halts ∨ 0 < spare) :
    Carries seam 0 spare readInitializer := by
  refine .of_costs costs_readInitializer ⟨forward_readInitializer, ?_⟩
  intro index text next enough left read
  have within := seam.within
  have inside : index < seam.place := by omega
  obtain ⟨starts, last_eq, text_eq⟩ := reads_readInitializer.mp read
  have passed : index + 1 ≤ seam.place := inside
  have front := seam.length_front (index + 1)
  have twin_current : (seam.twin index).current = seam.stream.token index :=
    seam.current_twin.trans (seam.token_eq inside)
  rw [seam.current_cursor] at starts text_eq
  rw [seam.skip_cursor, seam.skip_cursor, seam.current_cursor] at last_eq
  have bound := expressionLength_le (seam.stream.token index)
    (Extent.depthBehind 0 (seam.stream.token index)) (seam.cursor (index + 1)).behind
  rw [show (seam.cursor (index + 1)).behind.length = _ from seam.remaining_cursor] at bound
  have next_eq := Cursor.ofStream_injective (by omega) (by omega) last_eq
  rw [seam.behind_cursor passed] at next_eq
  -- The words up to the seam are the same, and the initializer ends among them or with them.
  have length_eq : Extent.expressionLength (seam.stream.token index)
      (Extent.depthBehind 0 (seam.stream.token index)) (seam.twin (index + 1)).behind =
        next - (index + 1) := by
    rw [seam.behind_twin passed]
    by_cases ended : next < seam.place
    · have before : Extent.expressionLength (seam.stream.token index)
          (Extent.depthBehind 0 (seam.stream.token index))
          (seam.front (index + 1) ++ seam.stream.words.drop seam.place) <
            (seam.front (index + 1)).length := by omega
      rw [Extent.expressionLength_append_of_lt before]
      omega
    · have halts : seam.Halts := settled.resolve_right (by omega)
      have halted := halts index inside
      have ends := Seam.getLastD_front inside seam.stream.ending
      rw [Seam.front_eq_cons inside, List.foldl_cons] at halted
      rw [Seam.front_eq_cons inside, List.getLastD_cons] at ends
      have beyond : (seam.front (index + 1)).length ≤ Extent.expressionLength
          (seam.stream.token index) (Extent.depthBehind 0 (seam.stream.token index))
          (seam.front (index + 1) ++ seam.stream.words.drop seam.place) := by omega
      rw [Extent.expressionLength_append_of_le beyond, ends, halted]
      omega
  refine reads_readInitializer.mpr ⟨by rwa [twin_current], ?_, ?_⟩
  · rw [twin_current, seam.skip_twin, seam.skip_twin, length_eq]
    congr 1
    omega
  · rw [twin_current]
    have carried : Carries seam 0 0 (textSince (seam.stream.token index)) := carries_textSince _
    have read := carried.reads next text next (by omega) (by omega)
      (reads_textSince.mpr ⟨text_eq, rfl⟩)
    exact (reads_textSince.mp read).1

theorem carries_readInitializer? (settled : seam.Halts ∨ 0 < spare) :
    Carries seam 0 spare readInitializer? := by
  refine carries_check (by decide) (by decide) ?_ ?_ (carries_pure _)
  · exact passes_skip_bind (forward_bind forward_readInitializer fun _ => forward_pure _)
  · refine carries_skip_bind (Nat.le_refl _) ?_
    exact carries_bind (carries_readInitializer settled) fun _ => carries_pure _

theorem carries_readBinding (settled : seam.Halts ∨ 0 < spare) :
    Carries seam 0 spare readBinding :=
  carries_bind Pattern.carries_read.relax fun _ => carries_bind carries_readType?.relax fun _ =>
    carries_bind (carries_readInitializer? settled) fun _ =>
      carries_bind carries_readAccessors?.relax fun _ => carries_pure _

section Closed

variable {index next : Nat}

/-- Without an initializer it makes no difference what stands behind. -/
theorem reads_twin_readInitializer?_none (inside : index ≤ seam.place)
    (read : Reads readInitializer? (seam.cursor index) none (seam.cursor next)) :
    Reads readInitializer? (seam.twin index) none (seam.twin index) ∧
      seam.cursor next = seam.cursor index := by
  simp only [readInitializer?, reads_bind, reads_check, reads_ite, reads_skip, reads_pure, and_assoc,
    exists_and_left, exists_eq_left, exists_const, reduceCtorEq, false_and, and_false, exists_false,
    false_or, true_and, Bool.not_eq_true] at read ⊢
  refine ⟨?_, read.2⟩
  have other := read.1
  rw [seam.current_cursor] at other
  rw [seam.current_twin]
  obtain front | rfl := Nat.lt_or_eq_of_le inside
  · rwa [seam.token_eq front]
  · exact Bool.eq_false_iff.mpr (seam.stop.not_reads (by decide) (by decide))

theorem lt_of_reads_readAccessors?_some {block : String}
    (read : Reads readAccessors? (seam.cursor index) (some block) (seam.cursor next)) :
    index < next := by
  simp only [readAccessors?, reads_bind, reads_check, reads_ite, reads_pure, and_assoc,
    exists_and_left, exists_eq_left, Option.some.injEq, reduceCtorEq, false_and, and_false,
    or_false] at read
  obtain ⟨_, _, last, blockRead, rfl, same⟩ := read
  rw [← same] at blockRead
  exact lt_of_costs costs_readBlock blockRead

/-- A binding whose last part is no initializer ends at the seam. -/
theorem reads_twin_of_isClosed {binding : Binding} (closed : binding.IsClosed)
    (inside : index ≤ seam.place) (left : next ≤ seam.place)
    (read : Reads readBinding (seam.cursor index) binding (seam.cursor next)) :
    Reads readBinding (seam.twin index) binding (seam.twin next) := by
  -- The parts are read one after another, each of them in front of the seam.
  obtain ⟨pattern, first, _, patternRead, read⟩ :=
    exists_middle Pattern.forward_read (fun _ => by grind) read inside left
  obtain ⟨type, second, _, typeRead, read⟩ :=
    exists_middle forward_readType? (fun _ => by grind) read (by omega) left
  obtain ⟨initializer, third, _, initializerRead, read⟩ :=
    exists_middle forward_readInitializer? (fun _ => by grind) read (by omega) left
  obtain ⟨accessors, fourth, _, accessorsRead, read⟩ :=
    exists_middle forward_readAccessors? (fun _ => by grind) read (by omega) left
  have within := seam.within
  obtain ⟨rfl, same⟩ := reads_pure.mp read
  obtain rfl := Cursor.ofStream_injective (by omega) (by omega) same
  -- Only the end of an initializer is found by looking at what is behind it.
  have initialized : Reads readInitializer? (seam.twin second) initializer (seam.twin third) := by
    obtain none | some := closed
    · obtain rfl : initializer = Option.none := none
      obtain ⟨twinRead, stays⟩ := reads_twin_readInitializer?_none (by omega) initializerRead
      obtain rfl := Cursor.ofStream_injective (by omega) (by omega) stays
      exact twinRead
    · obtain ⟨block, rfl⟩ := Option.isSome_iff_exists.mp some
      have before := lt_of_reads_readAccessors?_some accessorsRead
      have carries : Carries seam 0 1 readInitializer? := carries_readInitializer? (.inr Nat.one_pos)
      exact carries.reads second _ third (by omega) (by omega) initializerRead
  refine reads_bind.mpr ⟨pattern, _, Pattern.carries_read.reads index _ first inside (by omega)
    patternRead, reads_bind.mpr ⟨type, _, carries_readType?.reads first _ second (by omega) (by omega)
    typeRead, reads_bind.mpr ⟨initializer, _, initialized, ?_⟩⟩⟩
  exact reads_bind.mpr ⟨accessors, _, carries_readAccessors?.reads third _ _ (by omega) (by omega)
    accessorsRead, reads_pure.mpr ⟨rfl, rfl⟩⟩

/-- The variable ends at the seam, but not with an initializer that goes on behind it. -/
theorem reads_twin_readBinding {binding : Binding}
    (settled : seam.Halts ∨ next < seam.place ∨ binding.IsClosed) (inside : index ≤ seam.place)
    (left : next ≤ seam.place)
    (read : Reads readBinding (seam.cursor index) binding (seam.cursor next)) :
    Reads readBinding (seam.twin index) binding (seam.twin next) := by
  obtain halts | before | closed := settled
  · have carries : Carries seam 0 0 readBinding := carries_readBinding (.inl halts)
    exact carries.reads index _ next inside left read
  · have carries : Carries seam 0 1 readBinding := carries_readBinding (.inr Nat.one_pos)
    exact carries.reads index _ next inside before read
  · exact reads_twin_of_isClosed closed inside left read

theorem reads_twin_separatedWithin {bindings : List Binding} {limit : Nat}
    (settled : seam.Halts ∨ next < seam.place ∨ ∀ binding ∈ bindings.getLast?, binding.IsClosed)
    (inside : index ≤ seam.place) (left : next ≤ seam.place)
    (read : Reads (separatedWithin "," readBinding limit) (seam.cursor index) bindings
      (seam.cursor next)) :
    Reads (separatedWithin "," readBinding limit) (seam.twin index) bindings (seam.twin next) := by
  have within := seam.within
  induction limit generalizing index bindings with
  | zero =>
    obtain ⟨binding, middle, _, bindingRead, read⟩ :=
      exists_middle forward_readBinding (fun _ => forward_pure _) read inside left
    obtain ⟨rfl, same⟩ := reads_pure.mp read
    obtain rfl := Cursor.ofStream_injective (by omega) (by omega) same
    have bindingTwin := reads_twin_readBinding (by simpa using settled) inside left bindingRead
    exact reads_bind.mpr ⟨binding, _, bindingTwin, reads_pure.mpr ⟨rfl, rfl⟩⟩
  | succ limit inductionHypothesis =>
    obtain ⟨binding, middle, _, bindingRead, read⟩ :=
      exists_middle forward_readBinding (fun _ => by grind) read inside left
    rw [Reads, run_check_bind, seam.current_cursor] at read
    split at read
    next comma =>
      -- The comma stands in front of the seam, so this binding does, too.
      have some := (seam.ends middle).remaining_pos_of_reads (by decide)
        (seam.current_cursor.symm ▸ comma)
      have passes := (passes_advance_bind fun _ => by grind).lt (seam.ends middle) some read
      rw [seam.remaining_cursor, seam.remaining_cursor] at passes
      have bindingTwin :=
        reads_twin_readBinding (.inr (.inl (by omega))) inside (by omega) bindingRead
      rw [run_advance_bind, seam.skip_cursor] at read
      obtain ⟨others, last, _, othersRead, read⟩ :=
        exists_middle (forward_separatedWithin _ forward_readBinding _) (fun _ => forward_pure _)
          read
          (by omega) left
      obtain ⟨rfl, same⟩ := reads_pure.mp read
      obtain rfl := Cursor.ofStream_injective (by omega) (by omega) same
      have othersTwin := inductionHypothesis
        (settled.imp_right (.imp_right fun closed last found => closed last (by
          rw [List.getLast?_cons, Option.mem_def.mp found]
          rfl))) (by omega) othersRead
      refine reads_bind.mpr ⟨binding, _, bindingTwin, ?_⟩
      rw [Reads, run_check_bind, seam.current_twin, seam.token_eq (by omega), if_pos comma,
        run_advance_bind, seam.skip_twin]
      exact reads_bind.mpr ⟨others, _, othersTwin, reads_pure.mpr ⟨rfl, rfl⟩⟩
    next comma =>
      obtain ⟨rfl, same⟩ := reads_pure.mp read
      obtain rfl := Cursor.ofStream_injective (by omega) (by omega) same
      have bindingTwin := reads_twin_readBinding (by simpa using settled) inside left bindingRead
      refine reads_bind.mpr ⟨binding, _, bindingTwin, ?_⟩
      have ends : ¬ (seam.other.token next).reads "," = true := by
        obtain front | same := Nat.lt_or_eq_of_le left
        · rwa [seam.token_eq front]
        · rw [same]
          exact seam.stop.not_reads (by decide) (by decide)
      rw [Reads, run_check_bind, seam.current_twin, if_neg ends]
      exact reads_pure.mpr ⟨rfl, rfl⟩

theorem reads_twin_separated {bindings : List Binding}
    (settled : seam.Halts ∨ next < seam.place ∨ ∀ binding ∈ bindings.getLast?, binding.IsClosed)
    (inside : index ≤ seam.place) (left : next ≤ seam.place)
    (read : Reads (separated "," readBinding) (seam.cursor index) bindings (seam.cursor next)) :
    Reads (separated "," readBinding) (seam.twin index) bindings (seam.twin next) := by
  have settles : Settles (separatedWithin "," readBinding) :=
    settles_separatedWithin (by decide) forward_readBinding
  have enough_left := Nat.le_max_left (seam.cursor index).remaining (seam.twin index).remaining
  have enough_right := Nat.le_max_right (seam.cursor index).remaining (seam.twin index).remaining
  rw [Reads, separated, run_get_bind, ← settles.run_eq (seam.ends index) enough_left] at read
  rw [Reads, separated, run_get_bind, ← settles.run_eq (seam.otherEnds index) enough_right]
  exact reads_twin_separatedWithin settled inside left read

end Closed

theorem costs_readKeyword : Costs readKeyword := by
  rintro first ⟨keyword, kind⟩ last ends read
  obtain ⟨identifier, -, -, rfl⟩ := reads_readKeyword read
  have some := ends.remaining_pos_of_isIdentifier identifier
  rw [Cursor.remaining_skip]
  omega

theorem carries_readKeyword : Carries seam 0 0 readKeyword := by
  refine .of_costs costs_readKeyword (carries_current_bind Nat.one_pos fun keyword => ?_)
  split
  · split
    · exact carries_skip_bind (Nat.le_refl _) (carries_pure _)
    · exact carries_missing _
  · exact carries_missing _

/-- What is noted down at the end of a declaration. -/
theorem carries_close (first : Token) (make : Nat → String → Declaration) :
    Carries seam 0 0 (do
      let stop := ((← get).previous?.map Token.stop).getD first.start
      return make stop (← textSince first)) :=
  carries_previous_bind (fun previous => do
    return make ((previous.map Token.stop).getD first.start) (← textSince first)) fun _ =>
      carries_bind (carries_textSince first) fun _ => carries_pure _

/-- A variable that ends at the seam is read from the other stream, too, unless its last part is an
initializer that goes on there. -/
theorem reads_twin_read {index next : Nat} {declaration : Declaration}
    (property : declaration.isProperty = true)
    (settled : seam.Halts ∨ next < seam.place ∨
      ∀ binding ∈ declaration.bindings.getLast?, binding.IsClosed)
    (inside : index ≤ seam.place) (left : next ≤ seam.place)
    (read : Reads Declaration.read (seam.cursor index) declaration (seam.cursor next)) :
    Reads Declaration.read (seam.twin index) declaration (seam.twin next) := by
  rw [Reads, Declaration.read, run_current_bind, seam.current_cursor] at read
  obtain ⟨attributes, first, _, attributesRead, read⟩ :=
    exists_middle Attribute.forward_readAll (fun _ => by grind) read inside left
  obtain ⟨modifiers, second, _, modifiersRead, read⟩ :=
    exists_middle forward_readModifiers (fun _ => by grind) read (by omega) left
  obtain ⟨⟨keyword, kind⟩, third, _, keywordRead, read⟩ :=
    exists_middle forward_readKeyword (fun _ => by grind) read (by omega) left
  have before := lt_of_costs costs_readKeyword keywordRead
  have attributesTwin :=
    Attribute.carries_readAll.reads index _ first inside (by omega) attributesRead
  have modifiersTwin :=
    carries_readModifiers.reads first _ second (by omega) (by omega) modifiersRead
  have keywordTwin := carries_readKeyword.reads second _ third (by omega) (by omega) keywordRead
  rw [Reads, Declaration.read, run_current_bind, seam.current_twin, seam.token_eq (by omega)]
  refine reads_bind.mpr ⟨attributes, _, attributesTwin, ?_⟩
  refine reads_bind.mpr ⟨modifiers, _, modifiersTwin, ?_⟩
  refine reads_bind.mpr ⟨(keyword, kind), _, keywordTwin, ?_⟩
  by_cases isProperty : kind = .property
  · simp only [isProperty, reduceIte] at read ⊢
    obtain ⟨bindings, fourth, _, bindingsRead, read⟩ :=
      exists_middle (forward_separated _ forward_readBinding) (fun _ => by grind) read (by omega)
        left
    -- Behind the bindings nothing more is passed.
    have finished := read
    simp only [reads_bind, reads_pure, reads_get, reads_textSince, and_assoc, exists_and_left,
      exists_eq_left] at finished
    obtain ⟨declaration_eq, same⟩ := finished
    have within := seam.within
    obtain rfl := Cursor.ofStream_injective (by omega) (by omega) same
    have bindings_eq : declaration.bindings = bindings := by rw [declaration_eq]
    have bindingsTwin := reads_twin_separated (bindings_eq ▸ settled) (by omega) left bindingsRead
    refine reads_bind.mpr ⟨bindings, _, bindingsTwin, ?_⟩
    exact (carries_close (seam.stream.token index) fun stop text => ⟨.property, keyword.text,
      (seam.stream.token index).position, stop, text, attributes, modifiers, bindings, none⟩).reads
        _ _ _ left left read
  · simp only [isProperty, reduceIte, reads_bind, reads_pure, reads_get, reads_textSince, and_assoc,
      exists_and_left, exists_eq_left] at read
    obtain ⟨name, _, _, rfl, _⟩ := read
    exact absurd (beq_iff_eq.mp property) isProperty

end Declaration

end PeerExpansion
