import PeerExpansion.Expansion.Source
import PeerExpansion.Proofs.Declaration.Initializer
import PeerExpansion.Proofs.Token.Faithful
import PeerExpansion.Proofs.Token.Pieces

/-! # Line breaks between tokens

Whether a token begins a line is told from the lines on which tokens start. A string literal may go
over several lines, and then the token behind it starts on a later line than the literal does, with
or without a line break between the two.
-/

namespace PeerExpansion

open Reading

/-! ## Words over several lines -/

/-- No word goes on behind a line feed. -/
theorem Lexeme.word?_feed (first : Char) (front behind : List Char) :
    word? (first :: (front ++ '\n' :: behind)) = word? (first :: front) := by
  have same {measure : List Char → Option Nat} (steady : SteadyWord measure)
      (within : ∀ {text length}, measure text = some length → length ≤ text.length) :
      measure (first :: (front ++ '\n' :: behind)) = measure (first :: front) := by
    have cut := steady first front [] _ (.feed behind) (by
      rw [List.append_nil]
      exact fun length measured => within measured)
    rwa [List.append_nil] at cut
  simp only [word?, same steadyWord_identifierLength? identifierLength?_le,
    same steadyWord_numberLength? numberLength?_le,
    same steadyWord_punctuationLength? punctuationLength?_le]

/-- Of the tokens only literals have line feeds in them. -/
theorem kind_eq_string_of_pieceAt {first : Char} {taken rest : List Char} {kind : TokenKind}
    (token : pieceAt first (taken ++ rest) = .ok (.token kind, taken.length))
    (feed : '\n' ∈ first :: taken) : kind = .string := by
  generalize text_eq : taken ++ rest = text at token
  generalize length_eq : taken.length = length at token
  cases pieceForm_of_pieceAt token with
  | blockLiteral | lineLiteral => rfl
  | @word _ _ _ more visible _ _ word =>
    have plain : first ≠ '\n' := by
      rintro rfl
      exact absurd visible (by decide)
    obtain ⟨front, behind, rfl⟩ :=
      List.append_of_mem ((List.mem_cons.mp feed).resolve_left plain.symm)
    rw [← text_eq, List.append_assoc, List.cons_append, Lexeme.word?_feed] at word
    have within := Lexeme.word?_le word
    rw [List.length_append, List.length_cons] at length_eq
    rw [List.length_cons] at within
    omega

namespace TokenStream

/-- The word at `index` goes over several lines. -/
def SpansLines (stream : TokenStream) (index : Nat) : Prop :=
  '\n' ∈ (stream.token index).text.toList

/-- A line feed stands between the word at `index` and the token behind it. -/
def BreaksBehind (stream : TokenStream) (index : Nat) : Prop :=
  '\n' ∈ Text.slice stream.source (stream.token index).stop (stream.token (index + 1)).start

instance (stream : TokenStream) (index : Nat) : Decidable (stream.SpansLines index) :=
  inferInstanceAs (Decidable (_ ∈ _))

instance (stream : TokenStream) (index : Nat) : Decidable (stream.BreaksBehind index) :=
  inferInstanceAs (Decidable (_ ∈ _))

section Lines

variable {source : List Char} {stream : TokenStream} {index : Nat}
variable (scanned : scan source = .ok stream) (inside : index < stream.words.length)
include scanned inside

theorem kind_eq_string_of_spansLines (spans : stream.SpansLines index) :
    (stream.token index).kind = .string := by
  obtain ⟨character, taken, text_eq, -, token⟩ := exists_piece scanned inside
  rw [SpansLines, text_eq, String.toList_ofList] at spans
  exact kind_eq_string_of_pieceAt token spans

theorem line_lt_iff :
    (stream.token index).position.line < (stream.token (index + 1)).position.line ↔
      stream.SpansLines index ∨ stream.BreaksBehind index := by
  have faithful := faithful_of_scan scanned
  have text_eq := toList_text scanned inside
  obtain ⟨rfl, ordered⟩ := ordered_of_scan scanned
  have filled := Nat.le_of_lt (ordered.start_lt_stop inside)
  have apart := ordered.stop_le_start (Nat.lt_add_one index) inside
  -- The lines differ by the line feeds from the start of the word to that of the token behind it.
  rw [faithful.line_eq _ (token_mem_toList _ _), faithful.line_eq _ (token_mem_toList _ _),
    ← Text.take_append_slice _ (Nat.le_trans filled apart),
    ← Text.slice_append_slice _ filled apart, List.count_append, List.count_append, ← text_eq,
    SpansLines, BreaksBehind, ← List.count_pos_iff, ← List.count_pos_iff]
  omega

end Lines

end TokenStream

/-! ## What begins a line -/

namespace Extent

theorem startsNewLine_iff (previous token : Token) : startsNewLine previous token = true ↔
    previous.position.line < token.position.line ∧ previous.isOneOf continuations = false ∧
      token.isOneOf continuations = false := by
  simp [startsNewLine, and_assoc]

theorem not_isOneOf_continuations {token : Token} (feed : '\n' ∈ token.text.toList) :
    token.isOneOf continuations = false := by
  have lines : ∀ text ∈ continuations, '\n' ∉ text.toList := by decide
  rw [Token.isOneOf, ← Bool.not_eq_true, List.contains_iff_mem]
  exact fun member => lines _ member feed

theorem expressionLength_cons_eq_zero_iff (previous token : Token) (others : List Token) :
    expressionLength previous 0 (token :: others) = 0 ↔
      endsExpression token = true ∨ startsNewLine previous token = true := by
  rw [expressionLength, ← Bool.or_eq_true]
  split <;> simp_all

end Extent

/-- An initializer that takes a word with no bracket open behind it ends there if the next word is a
mark that ends expressions or is told to begin a line, and only then. -/
theorem Declaration.initializer_ends_iff {stream : TokenStream} {first index next : Nat}
    {text : String} (ordered : stream.Ordered)
    (read : Reads readInitializer (.ofStream stream first) text (.ofStream stream next))
    (within : next ≤ stream.words.length) (after : first ≤ index) (before : index < next)
    (inside : index + 1 < stream.words.length)
    (closed : (stream.between first (index + 1)).foldl Extent.depthBehind 0 = 0) :
    next = index + 1 ↔ Extent.endsExpression (stream.token (index + 1)) = true ∨
      Extent.startsNewLine (stream.token index) (stream.token (index + 1)) = true := by
  have starts := (reads_readInitializer.mp read).1
  rw [Cursor.current_ofStream, Bool.or_eq_true, not_or] at starts
  have known := reads_readInitializer_ofStream ordered (show first < _ by omega)
    (Bool.eq_false_iff.mpr starts.2) rfl
  have bound := expressionLength_le (stream.token first) 0 (stream.words.drop first)
  rw [List.length_drop] at bound
  have next_eq := Cursor.ofStream_injective within (by omega) (read.unique known).2
  have front_length : (stream.between first (index + 1)).length = index + 1 - first := by
    rw [TokenStream.between, List.length_take, List.length_drop]
    omega
  have last_eq :
      (stream.between first (index + 1)).getLastD (stream.token first) = stream.token index := by
    rw [TokenStream.between_succ after (by omega), List.getLastD_concat]
  rw [TokenStream.drop_eq_between_append (show first ≤ index + 1 by omega) inside] at next_eq
  -- The initializer goes beyond the token, so its end is decided by the one behind it.
  have beyond : (stream.between first (index + 1)).length ≤
      Extent.expressionLength (stream.token first) 0 (stream.between first (index + 1) ++
        stream.token (index + 1) :: stream.words.drop (index + 1 + 1)) := by
    omega
  rw [Extent.expressionLength_append_of_le beyond, closed, last_eq, front_length] at next_eq
  rw [← Extent.expressionLength_cons_eq_zero_iff _ _ (stream.words.drop (index + 1 + 1))]
  omega

/-! ## The law of line breaks -/

/-- What the lines on which the word at `index` and the next token start say about the text between
the two. -/
structure TokenStream.LineLaw (stream : TokenStream) (index : Nat) : Prop where
  literal : stream.SpansLines index → (stream.token index).kind = .string
  newLine_iff : Extent.startsNewLine (stream.token index) (stream.token (index + 1)) = true ↔
    (stream.SpansLines index ∨ stream.BreaksBehind index) ∧
      (stream.token index).isOneOf Extent.continuations = false ∧
        (stream.token (index + 1)).isOneOf Extent.continuations = false
  /-- The next token is told to begin a line for a line feed in front of it, unless the word goes
  over several lines. -/
  real_iff : (Extent.startsNewLine (stream.token index) (stream.token (index + 1)) = true →
      stream.BreaksBehind index) ↔
    (stream.SpansLines index → stream.BreaksBehind index ∨
      (stream.token (index + 1)).isOneOf Extent.continuations = true)
  initializer : ∀ first next text, next ≤ stream.words.length → first ≤ index → index < next →
    Reads Declaration.readInitializer (.ofStream stream first) text (.ofStream stream next) →
      index + 1 < stream.words.length →
        (stream.between first (index + 1)).foldl Extent.depthBehind 0 = 0 →
          (next = index + 1 ↔ Extent.endsExpression (stream.token (index + 1)) = true ∨
            Extent.startsNewLine (stream.token index) (stream.token (index + 1)) = true)
  declaration_iff : Expander.startsDeclaration (.ofStream stream (index + 1)) = true ↔
    (stream.token (index + 1)).isPunctuation "@" = true ∧
      ((∃ mark ∈ [Token.openBrace, Token.closeBrace, ";"],
          (stream.token index).isPunctuation mark = true) ∨
        stream.SpansLines index ∨ stream.BreaksBehind index)

theorem TokenStream.lineLaw_of_scan {source : List Char} {stream : TokenStream}
    (scanned : scan source = .ok stream) {index : Nat} (inside : index < stream.words.length) :
    stream.LineLaw index := by
  have literal := kind_eq_string_of_spansLines scanned inside
  have lines := line_lt_iff scanned inside
  obtain ⟨-, ordered⟩ := ordered_of_scan scanned
  have newLine := Extent.startsNewLine_iff (stream.token index) (stream.token (index + 1))
  rw [lines] at newLine
  refine ⟨literal, newLine, ?_, ?_, ?_⟩
  · rw [newLine]
    constructor
    · intro real spans
      by_contra neither
      rw [not_or, Bool.not_eq_true] at neither
      have plain := Extent.not_isOneOf_continuations spans
      exact neither.1 (real ⟨.inl spans, plain, neither.2⟩)
    · rintro real ⟨spans | breaks, -, plain⟩
      · exact (real spans).resolve_right (by simp [plain])
      · exact breaks
  · intro first next text within after before read more closed
    exact Declaration.initializer_ends_iff ordered read within after before more closed
  · rw [Expander.startsDeclaration, Cursor.previous?_ofStream inside, Cursor.current_ofStream]
    simp [← lines, or_assoc]

/-- A literal of three lines with more of the expression on the last of them. -/
def castLiteralSample : List Char :=
  "let x = \"\"\"\na\n\"\"\" as String".toList

set_option maxRecDepth 20000 in
theorem TokenStream.lineLaw_castLiteralSample : ∃ stream, scan castLiteralSample = .ok stream ∧
    3 < stream.words.length ∧ stream.SpansLines 3 ∧ stream.LineLaw 3 := by
  have evaluated : (scan castLiteralSample).toOption.any (fun stream =>
      decide (3 < stream.words.length ∧ stream.SpansLines 3)) = true := by
    decide +kernel
  obtain ⟨stream, scanned, known⟩ := exists_of_any evaluated
  obtain ⟨inside, spans⟩ := of_decide_eq_true known
  exact ⟨stream, scanned, inside, spans, lineLaw_of_scan scanned inside⟩

set_option maxRecDepth 20000 in
/-- The word behind the literal is told to begin a line, which cuts the initializer. -/
theorem castLiteralSample_is_cut : ∃ stream error,
    TokenStream.scan castLiteralSample = .ok stream ∧
      Extent.startsNewLine (stream.token 3) (stream.token 4) = true ∧ ¬ stream.BreaksBehind 3 ∧
      Declaration.parse castLiteralSample = .error error ∧
      error.message = "Unexpected 'as' after declaration at 3:5" := by
  have evaluated : (TokenStream.scan castLiteralSample).toOption.any (fun stream =>
      decide (Extent.startsNewLine (stream.token 3) (stream.token 4) = true ∧
        ¬ stream.BreaksBehind 3)) = true := by
    decide +kernel
  have parsed : (fault? (Declaration.parse castLiteralSample)).any
      (·.message == "Unexpected 'as' after declaration at 3:5") = true := by
    decide +kernel
  obtain ⟨stream, scanned, known⟩ := exists_of_any evaluated
  obtain ⟨error, failed, message_eq⟩ := exists_error_of_any parsed
  obtain ⟨begins, real⟩ := of_decide_eq_true known
  exact ⟨stream, error, scanned, begins, real, failed, eq_of_beq message_eq⟩

end PeerExpansion
