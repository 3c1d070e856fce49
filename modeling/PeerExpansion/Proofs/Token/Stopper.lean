import PeerExpansion.Proofs.Outcome
import PeerExpansion.Proofs.Token.Identifier
import PeerExpansion.Proofs.Token.Pieces

/-! # Characters that stop a word

A closing parenthesis goes on with no word, and neither does a space. A word in front of such a
character is measured as it is at the end of a text, whatever follows.
-/

namespace PeerExpansion

/-- A mark without some character ends in front of it. -/
theorem prefix_of_not_mem {mark front behind : List Char} {next : Char} (absent : next ∉ mark)
    (begins : mark <+: front ++ next :: behind) : mark <+: front := by
  obtain short | long := Nat.lt_or_ge front.length mark.length
  · have within : front ++ [next] <+: mark :=
      List.prefix_of_prefix_length_le ⟨behind, by simp⟩ begins (by simp; omega)
    exact absurd (within.subset (by simp)) absent
  · exact List.prefix_of_prefix_length_le begins (List.prefix_append _ _) long

/-- The character belongs to no name and to no number, and stands neither in a mark of several
characters nor in the marks of comments and literals. -/
structure Stopper (next : Char) : Prop where
  part : Lexeme.isWordPart next = false
  digit : Text.isDecimalDigit next = false
  lower : next.toLower = next
  apart : next ∉ "$\x60.+-<>/*\"".toList

namespace Lexeme

variable {next : Char}

/-- The measure stops at the character at the latest. -/
def Halts (next : Char) (measure : List Char → Nat) : Prop :=
  ∀ front behind, measure (front ++ next :: behind) ≤ front.length

theorem halts_runLength {accepts : Char → Bool} (rejects : accepts next = false) :
    Halts next (runLength accepts) := by
  intro front behind
  induction front with
  | nil => simp [runLength_cons, rejects]
  | cons first front inductionHypothesis =>
    rw [List.cons_append, runLength_cons, List.length_cons]
    split <;> omega

theorem halts_add {first second : List Char → Nat} (firstHalts : Halts next first)
    (secondHalts : Halts next second) :
    Halts next fun text => first text + second (text.drop (first text)) := by
  intro front behind
  have within := firstHalts front behind
  have later := secondHalts (front.drop (first (front ++ next :: behind))) behind
  rw [List.length_drop] at later
  simp only [List.drop_append_of_le_length within]
  omega

/-- The same of the measure of a word that begins in front of the character. -/
def HaltsWord (next : Char) (measure : List Char → Option Nat) : Prop :=
  ∀ first front behind length,
    measure (first :: (front ++ next :: behind)) = some length → length ≤ front.length + 1

/-- Where something longer is measured, the character is part of it. -/
theorem le_of_not_mem_take {first : Char} {front behind : List Char} {length : Nat}
    (absent : next ∉ (first :: (front ++ next :: behind)).take length) :
    length ≤ front.length + 1 := by
  -- More would take in the character behind the front.
  by_contra beyond
  obtain ⟨more, rfl⟩ := Nat.exists_eq_add_of_lt (Nat.not_le.mp beyond)
  refine absurd (List.mem_take_iff_getElem.mpr ⟨front.length + 1, ?_, ?_⟩) absent
  · simp only [List.length_cons, List.length_append]
    omega
  · simp

theorem isWordPart_of_letter {letter : Char} (low : 'a' ≤ letter) (high : letter ≤ 'z') :
    isWordPart letter = true := by
  have lower : letter.isLower = true :=
    Bool.and_eq_true_iff.mpr ⟨decide_eq_true low, decide_eq_true high⟩
  have alpha : letter.isAlpha = true := Bool.or_eq_true_iff.mpr (.inr lower)
  simp [isWordPart, Char.isAlphanum, alpha]

theorem isWordPart_of_digit {digit : Char} (low : '0' ≤ digit) (high : digit ≤ '9') :
    isWordPart digit = true := by
  have bounds : 48 ≤ digit.val ∧ digit.val ≤ 57 := ⟨low, high⟩
  simp [isWordPart, Char.isAlphanum, Char.isDigit, bounds]

/-- A steady measure that halts at a character finds what it finds at the end of the text. -/
theorem measure_stop {measure : List Char → Option Nat} (steady : SteadyWord measure)
    (halts : HaltsWord next measure) (first : Char) (front behind : List Char) :
    measure (first :: (front ++ next :: behind)) = measure (first :: front) := by
  have same := steady first front (next :: behind) [] .nil (halts first front behind)
  rwa [List.append_nil, eq_comm] at same

end Lexeme

namespace Stopper

open Lexeme

variable {next : Char} (stopper : Stopper next)
include stopper

theorem ne_of_mem {mark : Char} (member : mark ∈ "$\x60.+-<>/*\"".toList) : next ≠ mark := by
  rintro rfl
  exact stopper.apart member

theorem isDigitPart_eq : isDigitPart next = false := by
  have line : next ≠ '_' := by
    rintro rfl
    exact absurd stopper.part (by decide)
  simp [isDigitPart, stopper.digit, line]

theorem toLower_ne {letter : Char} (part : isWordPart letter = true) : next.toLower ≠ letter := by
  rw [stopper.lower]
  rintro rfl
  rw [stopper.part] at part
  cases part

theorem halts_fractionLength : Halts next fractionLength := by
  intro front behind
  match front with
  | [] =>
    have other : next ≠ '.' := stopper.ne_of_mem (by decide)
    unfold fractionLength
    split
    next same => exact absurd (List.cons.inj same).1 other
    next => exact Nat.zero_le _
  | [first] =>
    rw [List.singleton_append, fractionLength_cons_cons,
      if_neg fun held => absurd held.2 (by simp [stopper.digit])]
    exact Nat.zero_le _
  | first :: second :: front =>
    have within := halts_runLength stopper.isDigitPart_eq front behind
    simp only [List.cons_append, fractionLength_cons_cons, List.length_cons]
    split <;> omega

theorem halts_exponentDigits : Halts next exponentDigits := by
  intro front behind
  cases front with
  | nil =>
    have plus : next ≠ '+' := stopper.ne_of_mem (by decide)
    have minus : next ≠ '-' := stopper.ne_of_mem (by decide)
    simp [exponentDigits, signLength, runLength_cons, stopper.digit, plus, minus]
  | cons sign front =>
    have short : signLength (sign :: front ++ next :: behind) ≤ (sign :: front).length := by
      simp only [List.cons_append, signLength, List.length_cons]
      split <;> omega
    have within := halts_runLength stopper.digit
      ((sign :: front).drop (signLength (sign :: front ++ next :: behind))) behind
    rw [List.length_drop] at within
    simp only [exponentDigits, List.drop_append_of_le_length short]
    split <;> omega

theorem halts_exponentLength : Halts next exponentLength := by
  intro front behind
  cases front with
  | nil =>
    rw [List.nil_append, exponentLength_cons,
      if_neg fun held => absurd held.1 (stopper.toLower_ne (by decide))]
    exact Nat.zero_le _
  | cons mark front =>
    have within := stopper.halts_exponentDigits front behind
    rw [List.cons_append, exponentLength_cons, List.length_cons]
    split <;> omega

theorem halts_digitsLength : Halts next digitsLength :=
  halts_add (halts_add (halts_runLength stopper.isDigitPart_eq) stopper.halts_fractionLength)
    stopper.halts_exponentLength

theorem haltsWord_identifierLength? : HaltsWord next identifierLength? := by
  intro first front behind length measured
  have shape := shape_of_identifierLength? measured
  exact le_of_not_mem_take (shape.not_mem stopper.part (stopper.ne_of_mem (by decide))
    (stopper.ne_of_mem (by decide)))

theorem radixDigit?_eq_none : radixDigit? next = none := by
  unfold radixDigit?
  split
  next same => exact absurd same (stopper.toLower_ne (by decide))
  next same => exact absurd same (stopper.toLower_ne (by decide))
  next same => exact absurd same (stopper.toLower_ne (by decide))
  next => rfl

theorem not_radixDigit {mark : Char} {isDigit : Char → Bool}
    (known : radixDigit? mark = some isDigit) : isDigit next = false := by
  rw [Bool.eq_false_iff]
  intro digit
  refine absurd stopper.part (Bool.not_eq_false _ ▸ ?_)
  unfold radixDigit? at known
  split at known <;> cases known
  next =>
    rw [Bool.or_eq_true, stopper.lower, Bool.and_eq_true, decide_eq_true_eq,
      decide_eq_true_eq] at digit
    obtain digit | ⟨low, high⟩ := digit
    · simp [isWordPart, Char.isAlphanum, digit]
    · exact isWordPart_of_letter low (Char.le_trans high (by decide))
  next =>
    rw [Bool.or_eq_true, beq_iff_eq, beq_iff_eq] at digit
    obtain rfl | rfl := digit <;> decide
  next =>
    rw [Bool.and_eq_true, decide_eq_true_eq, decide_eq_true_eq] at digit
    exact isWordPart_of_digit digit.1 (Char.le_trans digit.2 (by decide))

theorem haltsWord_radixLength? : HaltsWord next radixLength? := by
  intro first front behind length measured
  obtain ⟨mark, rest, isDigit, same, known, -, rfl⟩ := exists_of_radixLength? measured
  cases front with
  | nil =>
    -- The character would be the mark of the radix.
    cases same
    rw [stopper.radixDigit?_eq_none] at known
    cases known
  | cons mark front =>
    simp only [List.cons_append, List.cons.injEq] at same
    obtain ⟨rfl, rfl, rfl⟩ := same
    have line : next ≠ '_' := by
      rintro rfl
      exact absurd stopper.part (by decide)
    have within := @halts_runLength next (fun digit => isDigit digit || digit == '_')
      (by simp [stopper.not_radixDigit known, line]) front behind
    rw [List.length_cons]
    omega

theorem haltsWord_numberLength? : HaltsWord next numberLength? := by
  intro first front behind length measured
  rw [numberLength?, Option.or_eq_some_iff] at measured
  obtain radix | ⟨-, decimal⟩ := measured
  · exact stopper.haltsWord_radixLength? first front behind length radix
  · have within := stopper.halts_digitsLength front behind
    rw [decimalLength?_cons] at decimal
    split at decimal <;> cases decimal
    omega

theorem haltsWord_punctuationLength? : HaltsWord next punctuationLength? := by
  intro first front behind length measured
  have point : next ≠ '.' := stopper.ne_of_mem (by decide)
  have less : next ≠ '<' := stopper.ne_of_mem (by decide)
  have minus : next ≠ '-' := stopper.ne_of_mem (by decide)
  have greater : next ≠ '>' := stopper.ne_of_mem (by decide)
  -- A mark without the character ends in front of it.
  have begins {mark : List Char} (absent : next ∉ mark)
      (found : mark <+: first :: (front ++ next :: behind)) : mark.length ≤ front.length + 1 :=
    le_of_not_mem_take ((List.prefix_iff_eq_take.mp found) ▸ absent)
  rw [punctuationLength?_eq] at measured
  split at measured
  next arrow =>
    cases measured
    exact begins (by simp [minus, greater]) arrow
  next =>
    split at measured
    next dots =>
      cases measured
      obtain dots | upTo := dots
      · exact begins (by simp [point]) dots
      · exact begins (by simp [point, less]) upTo
    next =>
      split at measured <;> cases measured
      omega

theorem word?_eq (first : Char) (front behind : List Char) :
    word? (first :: (front ++ next :: behind)) = word? (first :: front) := by
  unfold word?
  rw [measure_stop steadyWord_identifierLength? stopper.haltsWord_identifierLength?,
    measure_stop steadyWord_numberLength? stopper.haltsWord_numberLength?,
    measure_stop steadyWord_punctuationLength? stopper.haltsWord_punctuationLength?]

/-- A token at the end of a text is the same token in front of the character. -/
theorem pieceAt_eq {first : Char} {front : List Char} {kind : TokenKind} {length : Nat}
    (measured : pieceAt first front = .ok (.token kind, length)) (behind : List Char) :
    pieceAt first (front ++ next :: behind) = .ok (.token kind, length) := by
  by_cases quote : first = '"'
  · subst quote
    rw [← List.append_nil front] at measured
    refine pieceAt_quote_append (fun begins => ?_) measured ?_
    · have other : next ≠ '"' := stopper.ne_of_mem (by decide)
      exact (prefix_of_not_mem (by simp [other]) begins).trans (List.prefix_append _ _)
    · simpa using length_le_of_pieceAt measured
  obtain ⟨visible, slash⟩ := not_comment_of_pieceAt_token measured
  have goes {mark : Char} (member : mark ∈ "$\x60.+-<>/*\"".toList)
      (absent : front.head? ≠ some mark) : (front ++ next :: behind).head? ≠ some mark := by
    cases front with
    | nil => simpa using stopper.ne_of_mem member
    | cons => exact absent
  rw [pieceAt_eq_word visible slash quote] at measured
  rw [pieceAt_eq_word visible (fun held => ⟨goes (by decide) (slash held).1,
    goes (by decide) (slash held).2⟩) quote, stopper.word?_eq]
  exact measured

end Stopper

/-! ## What stands in front of a closing parenthesis

No word goes beyond a closing parenthesis, so what is behind it does not matter for the pieces in
front of it.
-/

theorem stopper_paren : Stopper ')' where
  part := by decide
  digit := by decide
  lower := by decide
  apart := by decide

theorem pieceAt_paren {first : Char} {front behind : List Char} {piece : Piece} {length : Nat}
    (measured : pieceAt first (front ++ ')' :: behind) = .ok (piece, length))
    (within : length ≤ front.length) (other : List Char) :
    pieceAt first (front ++ ')' :: other) = .ok (piece, length) := by
  cases piece with
  | gap => exact pieceAt_gap_append (by decide) measured within _
  | token kind =>
    have alone := pieceAt_append .nil measured within
    rw [List.append_nil] at alone
    exact stopper_paren.pieceAt_eq alone other

/-- What stands in front of a closing parenthesis is read in one way, whatever follows. -/
theorem Lexes.paren {behind text : List Char} {words : List Word}
    (lexes : Lexes (')' :: behind) text words) (other : List Char) :
    Lexes (')' :: other) text words := by
  induction lexes with
  | nil => exact .nil
  | @cons first taken rest piece words measured _ inductionHypothesis =>
    refine .cons ?_ inductionHypothesis
    rw [← List.append_assoc] at measured ⊢
    exact pieceAt_paren measured (by simp) other

/-! ## Words with spaces between them

A word is read from its own text as it was in its source, and no word goes on with a space. So the
texts of the words of a source, with single spaces between them, are read into the same words.
-/

theorem stopper_space : Stopper ' ' where
  part := by decide
  digit := by decide
  lower := by decide
  apart := by decide

/-- The text of the word is that one word. -/
def Word.StandsAlone (word : Word) : Prop :=
  ∃ first taken, word.text = String.ofList (first :: taken) ∧
    pieceAt first taken = .ok (.token word.kind, taken.length)

namespace Word.StandsAlone

variable {word : Word}

/-- A word that stands alone is read at the end of a text and in front of a space. -/
theorem lexes (alone : word.StandsAlone) : Lexes [] word.text.toList [word] ∧
    ∀ behind, Lexes (' ' :: behind) word.text.toList [word] := by
  obtain ⟨first, taken, text_eq, measured⟩ := alone
  have word_eq : [word] = (Piece.token word.kind).read (first :: taken) := by
    rw [Piece.read, ← text_eq]
  rw [word_eq, text_eq, String.toList_ofList]
  refine ⟨Lexes.piece ?_, fun behind => Lexes.piece ?_⟩
  · rwa [List.append_nil]
  · exact stopper_space.pieceAt_eq measured behind

end Word.StandsAlone

/-- Words that stand alone are read one after another when there are spaces between them. -/
theorem lexes_spaced {words : List Word} (alone : ∀ word ∈ words, word.StandsAlone) :
    Lexes [] (String.intercalate " " (words.map Word.text)).toList words := by
  induction words with
  | nil => exact .nil
  | cons word words inductionHypothesis =>
    have later := inductionHypothesis fun other member =>
      alone other (List.mem_cons_of_mem word member)
    obtain ⟨last, inner⟩ := (alone word List.mem_cons_self).lexes
    cases words with
    | nil => simpa using last
    | cons next more =>
      rw [List.map_cons, List.map_cons, String.intercalate_cons_cons, String.toList_append,
        String.toList_append, List.append_assoc]
      have spaced := @Lexes.cons [] ' ' [] _ .gap _ rfl later
      exact (inner _).append spaced

namespace TokenStream

variable {source : List Char} {stream : TokenStream}

/-- Every word of a source is one on its own. -/
theorem standsAlone_of_scan (scanned : scan source = .ok stream) {token : Token}
    (member : token ∈ stream.words) : token.word.StandsAlone := by
  obtain ⟨index, inside, rfl⟩ := List.mem_iff_getElem.mp member
  obtain ⟨first, taken, text_eq, -, measured⟩ := exists_piece scanned inside
  rw [token_eq_getElem inside] at text_eq measured
  refine ⟨first, taken, text_eq, ?_⟩
  have alone := pieceAt_append .nil measured (Nat.le_refl _)
  rwa [List.append_nil] at alone

/-- The words of a source can be told from their texts, whatever stood between them. -/
theorem exists_scan_spaced (scanned : scan source = .ok stream) :
    ∃ again, scan (String.intercalate " " (stream.words.map Token.text)).toList = .ok again ∧
      again.toList.map Token.word = stream.toList.map Token.word := by
  have alone : ∀ word ∈ stream.words.map Token.word, word.StandsAlone := by
    intro word member
    obtain ⟨token, tokenMember, rfl⟩ := List.mem_map.mp member
    exact standsAlone_of_scan scanned tokenMember
  have lexes := lexes_spaced alone
  rw [List.map_map] at lexes
  obtain ⟨again, rescanned, words_eq⟩ := lexes.exists_scan
  have ending_eq : again.ending.word = stream.ending.word := by
    rw [(ordered_of_scan rescanned).2.ending_word, (ordered_of_scan scanned).2.ending_word]
  refine ⟨again, rescanned, ?_⟩
  simp only [toList, List.map_append, List.map_singleton, words_eq, ending_eq]

end TokenStream

/-- Words that stand close together, some of them literals in one another. -/
def tightSample : List Char :=
  "a.b/**/..<0x_1.5e+3\x60c\x60\"\"\"d\"\"\"\"e\\(\"f\")\"->-//g".toList

set_option maxRecDepth 20000 in
theorem exists_scan_spaced_tightSample :
    ∃ stream, TokenStream.scan tightSample = .ok stream ∧
      String.intercalate " " (stream.words.map Token.text) =
        "a . b ..< 0x_1 . 5e+3 \x60c\x60 \"\"\"d\"\"\" \"e\\(\"f\")\" -> -" ∧
      ∃ again, TokenStream.scan (String.intercalate " " (stream.words.map Token.text)).toList =
          .ok again ∧
        again.toList.map Token.word = stream.toList.map Token.word := by
  have texts : (TokenStream.scan tightSample).toOption.map
      (fun stream => String.intercalate " " (stream.words.map Token.text)) =
        some "a . b ..< 0x_1 . 5e+3 \x60c\x60 \"\"\"d\"\"\" \"e\\(\"f\")\" -> -" := by
    decide +kernel
  obtain ⟨stream, scanned, texts_eq⟩ := exists_of_map texts
  exact ⟨stream, scanned, texts_eq, TokenStream.exists_scan_spaced scanned⟩

end PeerExpansion
