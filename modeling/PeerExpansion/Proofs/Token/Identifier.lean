import PeerExpansion.Proofs.Token.Scan

/-! # Identifiers

`IdentifierShape` is the grammar of identifiers, apart from how they are measured. Measuring finds
an identifier of this shape wherever one stands that nothing behind it makes longer, and every
identifier that is found has this shape.
-/

namespace PeerExpansion

/-- What follows does not make an identifier or number in front of it longer. -/
def Ends (behind : List Char) : Prop :=
  ∀ character ∈ behind.head?, Lexeme.isWordPart character = false

theorem Ends.nil : Ends [] := by
  intro character member
  cases member

theorem Ends.cons {character : Char} (ends : Lexeme.isWordPart character = false)
    (behind : List Char) : Ends (character :: behind) := by
  intro other member
  obtain rfl : character = other := by simpa using member
  exact ends

inductive IdentifierShape : List Char → Prop
  | plain {first : Char} {rest : List Char} : Lexeme.isWordStart first = true →
      rest.all Lexeme.isWordPart = true → IdentifierShape (first :: rest)
  | dollar {rest : List Char} : rest ≠ [] → rest.all Lexeme.isWordPart = true →
      IdentifierShape ('$' :: rest)
  | quoted {first : Char} {rest : List Char} : Lexeme.isWordStart first = true →
      rest.all Lexeme.isWordPart = true →
      IdentifierShape ('\x60' :: first :: (rest ++ ['\x60']))

/-- The text is an identifier from its first to its last character. -/
def IsIdentifier (name : String) : Prop :=
  Lexeme.identifierLength? name.toList = some name.length

instance (name : String) : Decidable (IsIdentifier name) :=
  inferInstanceAs (Decidable (_ = _))

namespace Lexeme

variable {accepts : Char → Bool} {text behind : List Char}

theorem isWordPart_of_isWordStart {first : Char} (start : isWordStart first = true) :
    isWordPart first = true := by
  simp only [isWordStart, isWordPart, Char.isAlphanum, Bool.or_eq_true] at start ⊢
  exact start.imp_left .inl

theorem runLength_append_all (whole : text.all accepts = true) (behind : List Char) :
    runLength accepts (text ++ behind) = text.length + runLength accepts behind := by
  rw [runLength, List.takeWhile_append_of_pos (List.all_eq_true.mp whole), List.length_append]
  rfl

theorem runLength_append (whole : text.all accepts = true)
    (stops : ∀ character ∈ behind.head?, accepts character = false) :
    runLength accepts (text ++ behind) = text.length := by
  rw [runLength_append_all whole]
  cases behind with
  | nil => rfl
  | cons character rest =>
    rw [runLength, List.takeWhile_cons, stops character rfl]
    rfl

theorem take_runLength (accepts : Char → Bool) (text : List Char) :
    text.take (runLength accepts text) = text.takeWhile accepts :=
  (List.prefix_iff_eq_take.mp (List.takeWhile_prefix accepts)).symm

/-- Whether a word ends with a character of the kind that names are made of. -/
def endsInPart (word : List Char) : Bool :=
  word.getLast?.any isWordPart

/-- How many characters of what stands behind it a name takes in. -/
def overrun (word behind : List Char) : Nat :=
  if endsInPart word then runLength isWordPart behind else 0

theorem overrun_eq_zero_iff {word : List Char} :
    overrun word behind = 0 ↔ (endsInPart word = true → Ends behind) := by
  cases behind with
  | nil => simp [overrun, runLength, Ends.nil]
  | cons character rest =>
    have ends_iff : Ends (character :: rest) ↔ isWordPart character = false := by
      simp [Ends]
    rw [ends_iff, overrun, runLength, List.takeWhile_cons]
    cases endsInPart word <;> cases isWordPart character <;> simp

theorem endsInPart_of_all {first : Char} (part : isWordPart first = true)
    (whole : text.all isWordPart = true) : endsInPart (first :: text) = true := by
  obtain ⟨last, found⟩ := Option.ne_none_iff_exists'.mp
    (mt List.getLast?_eq_none_iff.mp (List.cons_ne_nil first text))
  rw [endsInPart, found, Option.any_some]
  obtain rfl | within := List.mem_cons.mp (List.mem_of_getLast? found)
  · exact part
  · exact List.all_eq_true.mp whole last within

theorem identifierLength?_overrun (shape : IdentifierShape text) (behind : List Char) :
    identifierLength? (text ++ behind) = some (text.length + overrun text behind) := by
  cases shape with
  | @plain first rest start whole =>
    have part := endsInPart_of_all (isWordPart_of_isWordStart start) whole
    simp only [identifierLength?, List.cons_append, start, if_true, runLength_append_all whole,
      overrun, part, List.length_cons]
    congr 1
    omega
  | @dollar rest filled whole =>
    obtain ⟨second, more, rfl⟩ := List.exists_cons_of_ne_nil filled
    have parts := Bool.and_eq_true_iff.mp (List.all_cons ▸ whole)
    have part : endsInPart ('$' :: second :: more) = true := by
      rw [endsInPart, List.getLast?_cons_cons]
      exact endsInPart_of_all parts.1 parts.2
    have notStart : isWordStart '$' = false := by decide
    simp only [identifierLength?, List.cons_append, notStart, Bool.false_eq_true, if_false, if_true]
    rw [← List.cons_append, runLength_append_all whole, overrun, if_pos part]
    simp only [List.length_cons, Nat.succ_add]
    congr 1
    omega
  | @quoted first rest start whole =>
    -- The accent that closes the name is no part of a word, so the run of parts stops there.
    have notStart : isWordStart '\x60' = false := by decide
    have run : runLength isWordPart (rest ++ '\x60' :: behind) = rest.length :=
      runLength_append whole (Ends.cons (by decide) behind)
    have closed : endsInPart ('\x60' :: first :: (rest ++ ['\x60'])) = false := by
      rw [endsInPart, ← List.cons_append, ← List.cons_append, List.getLast?_concat]
      decide
    simp only [identifierLength?, List.cons_append, List.append_assoc, List.nil_append, notStart,
      Bool.false_eq_true, if_false, if_true, run, start, overrun, closed]
    have closing : (rest ++ '\x60' :: behind)[rest.length]? = some '\x60' := by simp
    simp only [closing, beq_self_eq_true, Bool.and_self, if_true, List.length_cons,
      List.length_append, List.length_nil]
    rw [if_neg (by decide), Option.some.injEq]
    omega

theorem identifierLength?_append (shape : IdentifierShape text) (ends : Ends behind) :
    identifierLength? (text ++ behind) = some text.length := by
  rw [identifierLength?_overrun shape, overrun_eq_zero_iff.mpr fun _ => ends, Nat.add_zero]

theorem shape_of_identifierLength? {length : Nat}
    (identifier : identifierLength? text = some length) : IdentifierShape (text.take length) := by
  cases text with
  | nil => cases identifier
  | cons first rest =>
    simp only [identifierLength?] at identifier
    by_cases start : isWordStart first
    · simp only [start, if_true, Option.some.injEq] at identifier
      rw [← identifier, Nat.add_comm, List.take_succ_cons, take_runLength]
      exact .plain start List.all_takeWhile
    simp only [start, Bool.false_eq_true, if_false] at identifier
    by_cases dollar : first = '$'
    · simp only [dollar, if_true] at identifier
      cases run : runLength isWordPart rest with
      | zero => simp [run] at identifier
      | succ more =>
        simp only [run, Option.some.injEq] at identifier
        rw [dollar, ← identifier, Nat.add_comm, List.take_succ_cons, ← run, take_runLength]
        -- A dollar sign with nothing behind it is refused, so something was measured.
        refine .dollar (fun empty => ?_) List.all_takeWhile
        rw [runLength, empty] at run
        cases run
    simp only [dollar, if_false] at identifier
    by_cases accent : first = '\x60'
    · simp only [accent, if_true] at identifier
      cases rest with
      | nil => cases identifier
      | cons second more =>
        simp only [Option.ite_none_right_eq_some, Bool.and_eq_true, beq_iff_eq,
          Option.some.injEq] at identifier
        obtain ⟨⟨secondStart, closing⟩, rfl⟩ := identifier
        rw [accent, Nat.add_comm, List.take_succ_cons, List.take_succ_cons, List.take_add_one,
          take_runLength, closing]
        exact .quoted secondStart List.all_takeWhile
    · simp [accent] at identifier

end Lexeme

theorem isIdentifier_iff {name : String} : IsIdentifier name ↔ IdentifierShape name.toList := by
  constructor
  · intro identifier
    have shape := Lexeme.shape_of_identifierLength? identifier
    rwa [← String.length_toList, List.take_length] at shape
  · intro shape
    have whole := Lexeme.identifierLength?_append shape Ends.nil
    rwa [List.append_nil, String.length_toList] at whole

theorem identifierLength?_of_word? {text : List Char} {length : Nat}
    (word : Lexeme.word? text = some (.identifier, length)) :
    Lexeme.identifierLength? text = some length := by
  unfold Lexeme.word? at word
  split at word
  next measured =>
    cases word
    exact measured
  next =>
    split at word
    next => cases word
    next =>
      obtain ⟨_, _, pair⟩ := Option.map_eq_some_iff.mp word
      cases pair

theorem shape_of_pieceAt {first : Char} {rest : List Char} {length : Nat}
    (found : pieceAt first rest = .ok (.token .identifier, length)) :
    IdentifierShape (first :: rest.take length) := by
  cases pieceForm_of_pieceAt found with
  | @word _ _ _ more _ _ _ word =>
    have shape := Lexeme.shape_of_identifierLength? (identifierLength?_of_word? word)
    cases more with
    | zero => cases shape
    | succ more => exact shape

/-- Every identifier of a source is one from its first to its last character. -/
theorem isIdentifier_of_tokensFrom {text : List Char} {position finish : Position}
    {words : List Token} (scanned : tokensFrom position text = .ok (words, finish)) :
    ∀ word ∈ words, word.kind = .identifier → IsIdentifier word.text := by
  refine forall_of_tokensFrom (fun word => word.kind = .identifier → IsIdentifier word.text) ?_
    scanned
  rintro first rest _ length position measured rfl
  rw [isIdentifier_iff, String.toList_ofList]
  exact shape_of_pieceAt measured

theorem isIdentifier_of_scan {source : List Char} {stream : TokenStream}
    (scanned : TokenStream.scan source = .ok stream) :
    ∀ word ∈ stream.words, word.kind = .identifier → IsIdentifier word.text := by
  obtain ⟨words, finish, read, rfl⟩ := exists_tokensFrom_of_scan scanned
  exact isIdentifier_of_tokensFrom read

/-- Without a grave accent at its end, an identifier is a name or begins with a dollar sign. -/
theorem IdentifierShape.exists_cons {text : List Char} (shape : IdentifierShape text)
    (unquoted : text.getLast? ≠ some '\x60') :
    ∃ first rest, text = first :: rest ∧ rest.all Lexeme.isWordPart = true ∧
      (Lexeme.isWordStart first = true ∨ first = '$' ∧ rest ≠ []) := by
  cases shape with
  | @plain first rest start whole => exact ⟨first, rest, rfl, whole, .inl start⟩
  | @dollar rest filled whole => exact ⟨'$', rest, rfl, whole, .inr ⟨rfl, filled⟩⟩
  | @quoted first rest start whole =>
    rw [← List.cons_append, ← List.cons_append, List.getLast?_concat] at unquoted
    exact absurd rfl unquoted

theorem IdentifierShape.not_mem {text : List Char} (shape : IdentifierShape text) {other : Char}
    (apart : Lexeme.isWordPart other = false) (dollar : other ≠ '$') (accent : other ≠ '\x60') :
    other ∉ text := by
  have differs {first : Char} (start : Lexeme.isWordStart first = true) : other ≠ first := by
    rintro rfl
    rw [Lexeme.isWordPart_of_isWordStart start] at apart
    cases apart
  have parts {rest : List Char} (whole : rest.all Lexeme.isWordPart = true) : other ∉ rest := by
    intro member
    rw [List.all_eq_true.mp whole other member] at apart
    cases apart
  cases shape with
  | plain start whole => simp [differs start, parts whole]
  | dollar _ whole => simp [dollar, parts whole]
  | quoted start whole => simp [accent, differs start, parts whole]

theorem IdentifierShape.head?_ne_point {text : List Char} (shape : IdentifierShape text)
    (behind : List Char) : (text ++ behind).head? ≠ some '.' := by
  cases shape with
  | plain start whole =>
    rintro ⟨⟩
    cases start
  | dollar => simp
  | quoted => simp

theorem IsIdentifier.ne {name other : String} (identifier : IsIdentifier name)
    (refused : ¬ IsIdentifier other) : name ≠ other := by
  rintro rfl
  exact refused identifier

end PeerExpansion
