import PeerExpansion.Proofs.Token.Stopper

/-! # Where a part of a source meets what is behind it

What a part of a source is read into can only depend on what is behind it where the part ends with a
name. A name that is not between grave accents takes in the word characters that follow it.
-/

namespace PeerExpansion

/-! ## Names -/

theorem pieceAt_identifier {first : Char} {taken : List Char}
    (shape : IdentifierShape (first :: taken)) (behind : List Char) :
    pieceAt first (taken ++ behind) =
      .ok (.token .identifier, taken.length + Lexeme.overrun (first :: taken) behind) := by
  have measured := Lexeme.identifierLength?_overrun shape behind
  rw [List.cons_append] at measured
  apply (Lexeme.solid_of_identifierLength? measured).pieceAt_eq
  rw [Lexeme.word?, measured, List.length_cons, Nat.succ_add]

theorem shape_of_pieceAt_append {first : Char} {taken behind : List Char}
    (name : pieceAt first (taken ++ behind) = .ok (.token .identifier, taken.length)) :
    IdentifierShape (first :: taken) ∧ Lexeme.overrun (first :: taken) behind = 0 := by
  have shape := shape_of_pieceAt name
  rw [List.take_left] at shape
  rw [pieceAt_identifier shape, Except.ok.injEq, Prod.mk.injEq] at name
  exact ⟨shape, by omega⟩

/-- A word of a source that is written like an identifier is one. -/
theorem TokenStream.isIdentifier_of_text {source : List Char} {stream : TokenStream} {token : Token}
    (scanned : TokenStream.scan source = .ok stream) (member : token ∈ stream.words)
    (identifier : IsIdentifier token.text) : token.isIdentifier = true := by
  obtain ⟨place, inside, rfl⟩ := List.mem_iff_getElem.mp member
  rw [← token_eq_getElem inside] at identifier ⊢
  obtain ⟨first, taken, text_eq, -, measured⟩ := exists_piece scanned inside
  rw [isIdentifier_iff, text_eq, String.toList_ofList] at identifier
  rw [pieceAt_identifier identifier, Except.ok.injEq, Prod.mk.injEq, Piece.token.injEq] at measured
  exact beq_iff_eq.mpr measured.1.symm

/-- Only the first character behind a name counts. -/
theorem Ends.congr {behind other : List Char} (same : behind.head? = other.head?) :
    Ends behind ↔ Ends other := by
  rw [Ends, Ends, same]

theorem Lexeme.overrun_congr {behind other : List Char} (same : behind.head? = other.head?)
    (name : List Char) : overrun name behind = 0 ↔ overrun name other = 0 := by
  rw [overrun_eq_zero_iff, overrun_eq_zero_iff, Ends.congr same]

/-- A point is a word of its own unless others follow it. -/
theorem pieceAt_point {kind : TokenKind} (behind : List Char) :
    pieceAt '.' behind = .ok (.token kind, 0) ↔ kind = .punctuation ∧
      ¬ (['.', '.', '.'] <+: '.' :: behind ∨ ['.', '.', '<'] <+: '.' :: behind) := by
  have bare : Bare '.' := ⟨⟨by decide, by decide, by decide⟩, by decide, by decide, by decide,
    by decide⟩
  rw [pieceAt_eq_word bare.isSpace_eq (fun slash => absurd slash (by decide)) (by decide),
    bare.word?_eq, Lexeme.punctuationLength?_eq, if_neg (by simp)]
  by_cases dots : ['.', '.', '.'] <+: '.' :: behind ∨ ['.', '.', '<'] <+: '.' :: behind
  · rw [if_pos dots]
    exact iff_of_false (by simp) (fun alone => alone.2 dots)
  · rw [if_neg dots, if_pos (by decide)]
    simp only [Option.map_some, Except.ok.injEq, Prod.mk.injEq, Piece.token.injEq, and_true, dots,
      not_false_eq_true]
    exact eq_comm

/-- A word that an attribute has outside its arguments. -/
def Word.IsNaming (word : Word) : Prop :=
  word.text = "@" ∨ word.text = "." ∨ word.kind = .identifier

namespace Lexes

variable {behind text : List Char} {words : List Word} {next : Char}

/-! ## Gaps and names -/

/-- A gap is one in front of anything. -/
theorem gap (lexes : Lexes (next :: behind) text []) (visible : next ≠ '\n') (other : List Char) :
    Lexes other text [] := by
  generalize none : [] = words at lexes
  induction lexes with
  | nil => exact .nil
  | @cons first taken rest piece words measured _ inductionHypothesis =>
    obtain ⟨nothing, rfl⟩ := List.append_eq_nil_iff.mp none.symm
    cases piece with
    | token => cases nothing
    | gap =>
      refine .cons ?_ (inductionHypothesis rfl)
      rw [← List.append_assoc] at measured ⊢
      exact pieceAt_gap_append visible measured (by simp) other

/-- A dotted name in front of another word is read in the same way in front of all that begin with
the same character. -/
theorem naming (lexes : Lexes (next :: behind) text words)
    (naming : ∀ word ∈ words, word.IsNaming) (visible : next ≠ '\n') (points : next ≠ '.')
    (angle : next ≠ '<') (other : List Char) : Lexes (next :: other) text words := by
  induction lexes with
  | nil => exact .nil
  | @cons first taken rest piece words measured _ inductionHypothesis =>
    refine .cons ?_ (inductionHypothesis fun word member =>
      naming word (List.mem_append_right _ member))
    cases piece with
    | gap =>
      rw [← List.append_assoc] at measured ⊢
      exact pieceAt_gap_append visible measured (by simp) _
    | token kind =>
      have letters {mark : Char} (text_eq : String.ofList (first :: taken) = .ofList [mark]) :
          first = mark ∧ taken = [] :=
        List.cons.inj (String.ofList_injective text_eq)
      obtain mark | point | identifier :=
        naming _ (List.mem_append_left _ (List.mem_singleton_self _))
      · obtain ⟨rfl, rfl⟩ := @letters '@' mark
        cases measured.symm.trans (pieceAt_of_mem_plainMarks (by decide) _)
        exact pieceAt_of_mem_plainMarks (by decide) _
      · -- A longer mark has no room in front of what is neither a point nor an angle bracket.
        obtain ⟨rfl, rfl⟩ := @letters '.' point
        rw [List.nil_append, List.length_nil, pieceAt_point, ← List.cons_append] at measured ⊢
        obtain ⟨rfl, alone⟩ := measured
        refine ⟨rfl, fun dots => alone (dots.imp (fun begins => ?_) fun begins => ?_)⟩
        · exact (prefix_of_not_mem (by simpa) begins).trans (List.prefix_append _ _)
        · exact (prefix_of_not_mem (by simp [points, angle]) begins).trans (List.prefix_append _ _)
      · obtain rfl : kind = .identifier := identifier
        obtain ⟨shape, stops⟩ := shape_of_pieceAt_append measured
        have same : (rest ++ next :: behind).head? = (rest ++ next :: other).head? := by
          cases rest <;> rfl
        rw [pieceAt_identifier shape, (Lexeme.overrun_congr same _).mp stops, Nat.add_zero]

/-! ## Edges -/

theorem exists_of_cons {first : Char} (lexes : Lexes behind (first :: text) words) :
    ∃ taken rest piece others, text = taken ++ rest ∧
      words = piece.read (first :: taken) ++ others ∧
      pieceAt first (text ++ behind) = .ok (piece, taken.length) ∧ Lexes behind rest others := by
  generalize whole : first :: text = given at lexes
  cases lexes with
  | nil => cases whole
  | @cons _ taken rest piece words measured lexes =>
    obtain ⟨rfl, rfl⟩ := List.cons.inj whole
    exact ⟨taken, rest, piece, words, rfl, rfl, by rwa [List.append_assoc], lexes⟩

/-- What a text is read into begins with what its front is read into. -/
theorem exists_of_append {front back : List Char} (lexes : Lexes (back ++ behind) front words)
    {all : List Word} (whole : Lexes behind (front ++ back) all) :
    ∃ others, all = words ++ others ∧ Lexes behind back others := by
  induction lexes generalizing all with
  | nil => exact ⟨all, rfl, whole⟩
  | @cons first taken rest piece words measured _ inductionHypothesis =>
    rw [List.cons_append, List.append_assoc] at whole
    obtain ⟨_, _, _, others, split, rfl, same, later⟩ := whole.exists_of_cons
    rw [List.append_assoc, List.append_assoc, measured, Except.ok.injEq, Prod.mk.injEq] at same
    obtain ⟨rfl, length_eq⟩ := same
    obtain ⟨rfl, rfl⟩ := List.append_inj split length_eq
    obtain ⟨others, rfl, lexes⟩ := inductionHypothesis later
    exact ⟨others, (List.append_assoc _ _ _).symm, lexes⟩

end Lexes

/-- A part of a source that ends with a word and a gap, and that is read in the same way whatever
is behind it unless its last word goes on there. -/
structure Edge (front : List Char) (words : List Word) (kind : TokenKind) (first : Char)
    (taken gap : List Char) : Prop where
  front_lexes : ∀ behind, Lexes (first :: behind) front words
  measured : ∀ behind, pieceAt first (taken ++ behind) =
    .ok (.token kind, taken.length + Lexeme.overrun (first :: taken) behind)
  gap_lexes : ∀ behind, Lexes behind gap []

namespace Edge

variable {front taken gap behind : List Char} {words others : List Word} {kind : TokenKind}
variable {first : Char}

theorem lexes (edge : Edge front words kind first taken gap)
    (stops : Lexeme.overrun (first :: taken) (gap ++ behind) = 0) :
    Lexes behind (front ++ (first :: taken ++ gap))
      (words ++ [⟨kind, .ofList (first :: taken)⟩]) := by
  have measured := edge.measured (gap ++ behind)
  rw [stops, Nat.add_zero] at measured
  have word := (Lexes.piece measured).append (edge.gap_lexes behind)
  rw [List.append_nil] at word
  refine Lexes.append ?_ word
  rw [List.cons_append, List.cons_append]
  exact edge.front_lexes _

theorem lexes_append_iff (edge : Edge front words kind first taken gap) :
    Lexes [] (front ++ (first :: taken ++ gap) ++ behind)
        (words ++ [⟨kind, .ofList (first :: taken)⟩] ++ others) ↔
      Lexeme.overrun (first :: taken) (gap ++ behind) = 0 ∧ Lexes [] behind others := by
  constructor
  · intro whole
    have stops : Lexeme.overrun (first :: taken) (gap ++ behind) = 0 := by
      rw [List.append_assoc, List.append_assoc words] at whole
      obtain ⟨_, split, later⟩ := Lexes.exists_of_append (edge.front_lexes _) whole
      rw [← List.append_cancel_left split, List.append_assoc, List.cons_append] at later
      -- The word behind the front is as long as measured, and no longer than it is said to be.
      obtain ⟨_, _, _, _, -, words_eq, measured, -⟩ := later.exists_of_cons
      rw [List.append_nil, edge.measured, Except.ok.injEq, Prod.mk.injEq] at measured
      obtain ⟨rfl, length_eq⟩ := measured
      have same := (List.cons.inj words_eq).1
      rw [Word.mk.injEq] at same
      have taken_eq := (List.cons.inj (String.ofList_injective same.2)).2
      rw [← taken_eq] at length_eq
      omega
    have lexes := edge.lexes stops
    rw [← List.append_nil behind] at lexes
    obtain ⟨_, split, later⟩ := lexes.exists_of_append whole
    rw [List.append_cancel_left split]
    exact ⟨stops, later⟩
  · rintro ⟨stops, later⟩
    refine Lexes.append ?_ later
    rw [List.append_nil]
    exact edge.lexes stops

end Edge

end PeerExpansion
