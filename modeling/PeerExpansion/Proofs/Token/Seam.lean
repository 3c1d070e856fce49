import PeerExpansion.Proofs.Token.Steady

/-! # What stands behind a piece

A comment or a literal ends where its closing mark stands, and a word where what stands behind
cannot belong to it. So a piece that lies in the front of a text is the same piece when the text
breaks off behind the front.
-/

namespace PeerExpansion

/-! ## Comments and literals -/

/-- The end of a comment is found in the comment. -/
theorem exists_body_of_commentEnd {depth : Nat} {text behind : List Char}
    (closed : commentEnd depth text = some behind) :
    ∃ body, text = body ++ behind ∧ ∀ other, commentEnd depth (body ++ other) = some other := by
  fun_induction commentEnd depth text with
  | case1 depth rest inductionHypothesis =>
    obtain ⟨body, rfl, closes⟩ := inductionHypothesis closed
    refine ⟨'/' :: '*' :: body, rfl, fun other => ?_⟩
    simp only [List.cons_append, commentEnd, closes]
  | case2 rest =>
    cases closed
    refine ⟨['*', '/'], rfl, fun other => ?_⟩
    simp only [List.cons_append, List.nil_append, commentEnd]
  | case3 rest below inductionHypothesis =>
    obtain ⟨body, rfl, closes⟩ := inductionHypothesis closed
    refine ⟨'*' :: '/' :: body, rfl, fun other => ?_⟩
    simp only [List.cons_append, commentEnd, closes]
  | case4 depth character rest opens closes inductionHypothesis =>
    obtain ⟨body, rfl, ends⟩ := inductionHypothesis closed
    -- The comment goes on behind the character, so both characters of a mark would be in it.
    cases body with
    | nil => cases ends []
    | cons second body =>
      refine ⟨character :: second :: body, rfl, fun other => ?_⟩
      rw [List.cons_append, commentEnd]
      · exact ends other
      · rintro rest start ⟨⟩
        exact opens (body ++ behind) start rfl
      · rintro rest start ⟨⟩
        exact closes (body ++ behind) start rfl
  | case5 => cases closed

/-- What closes the frame. -/
def LiteralFrame.mark : LiteralFrame → List Char
  | line => ['"']
  | block => ['"', '"', '"']
  | interpolation _ => [')']

/-- The text behind the end of all frames that are open. -/
def framesEnd : List LiteralFrame → List Char → Except SyntaxFault (List Char)
  | [], text => .ok text
  | top :: inside, text => literalEnd top inside text

/-- How many characters close the frames at least. -/
def marksLength : List LiteralFrame → Nat
  | [] => 0
  | top :: inside => top.mark.length + marksLength inside

/-- `LiteralStep opened taken behind left` says that the characters `taken` are read over where the
frames `opened` are open, the innermost first, and `behind` follows, and that the frames `left` are
open behind them. -/
inductive LiteralStep :
    List LiteralFrame → List Char → List Char → List LiteralFrame → Prop
  | escape {outer : List LiteralFrame} {character : Char} {behind : List Char} :
      character ≠ '(' → LiteralStep (.line :: outer) ['\\', character] behind (.line :: outer)
  | interpolation {outer : List LiteralFrame} {behind : List Char} :
      LiteralStep (.line :: outer) ['\\', '('] behind (.interpolation 0 :: .line :: outer)
  | line {outer : List LiteralFrame} {behind : List Char} :
      LiteralStep (.line :: outer) ['"'] behind outer
  | character {outer : List LiteralFrame} {character : Char} {behind : List Char} :
      character ≠ '\\' → character ≠ '"' → character ≠ '\n' →
        LiteralStep (.line :: outer) [character] behind (.line :: outer)
  | block {outer : List LiteralFrame} {behind : List Char} :
      LiteralStep (.block :: outer) ['"', '"', '"'] behind outer
  | blockCharacter {outer : List LiteralFrame} {character : Char} {behind : List Char} :
      ¬ LiteralFrame.block.mark <+: character :: behind →
        LiteralStep (.block :: outer) [character] behind (.block :: outer)
  | opening {outer : List LiteralFrame} {depth : Nat} {behind : List Char} :
      LiteralStep (.interpolation depth :: outer) ['('] behind (.interpolation (depth + 1) :: outer)
  | closing {outer : List LiteralFrame} {depth : Nat} {behind : List Char} :
      LiteralStep (.interpolation (depth + 1) :: outer) [')'] behind (.interpolation depth :: outer)
  | parenthesis {outer : List LiteralFrame} {behind : List Char} :
      LiteralStep (.interpolation 0 :: outer) [')'] behind outer
  | innerLine {outer : List LiteralFrame} {depth : Nat} {behind : List Char} :
      ¬ ['"', '"'] <+: behind →
        LiteralStep (.interpolation depth :: outer) ['"'] behind
          (.line :: .interpolation depth :: outer)
  | innerBlock {outer : List LiteralFrame} {depth : Nat} {behind : List Char} :
      LiteralStep (.interpolation depth :: outer) ['"', '"', '"'] behind
        (.block :: .interpolation depth :: outer)
  | code {outer : List LiteralFrame} {depth : Nat} {character : Char} {behind : List Char} :
      character ∉ ['(', ')', '"'] → character ≠ '\n' →
        LiteralStep (.interpolation depth :: outer) [character] behind
          (.interpolation depth :: outer)

section Literals

variable {opened left : List LiteralFrame} {taken text behind : List Char}

/-- The end is looked for behind what is read over. -/
theorem LiteralStep.framesEnd_eq (step : LiteralStep opened taken behind left) :
    framesEnd opened (taken ++ behind) = framesEnd left behind := by
  cases step with
  | escape | interpolation | opening | closing | innerBlock =>
    rw [framesEnd, List.cons_append, literalEnd.eq_def]
    simp [framesEnd]
  | line | block | parenthesis =>
    rw [framesEnd, List.cons_append, literalEnd.eq_def]
    cases left <;> simp [framesEnd]
  | character slash quote feed =>
    rw [framesEnd, List.cons_append, literalEnd.eq_def]
    simp [framesEnd, slash, quote, feed]
  | blockCharacter plain =>
    rw [framesEnd, List.cons_append, literalEnd.eq_def]
    dsimp only
    split
    next _ more same =>
      obtain rfl : behind = '"' :: '"' :: more := same
      exact absurd ⟨more, rfl⟩ plain
    next => rfl
  | innerLine single =>
    rw [framesEnd, List.cons_append, literalEnd.eq_def]
    dsimp only
    rw [if_pos rfl]
    split
    next more same =>
      obtain rfl : behind = '"' :: '"' :: more := same
      exact absurd ⟨more, rfl⟩ single
    next => rfl
  | code plain feed =>
    simp only [List.mem_cons, List.not_mem_nil, or_false, not_or] at plain
    rw [framesEnd, List.cons_append, literalEnd.eq_def]
    simp [framesEnd, plain, feed]

/-- What holds where no frame is open, and with every step that is taken in front of a text, holds
wherever the frames that are open find their ends. -/
theorem framesEnd_induction {Holds : List LiteralFrame → List Char → Prop}
    (nil : Holds [] behind)
    (step : ∀ opened taken later left, LiteralStep opened taken later left → Holds left later →
      Holds opened (taken ++ later))
    (closed : framesEnd opened text = .ok behind) : Holds opened text := by
  cases opened with
  | nil =>
    cases closed
    exact nil
  | cons top inside =>
    rw [framesEnd] at closed
    fun_induction literalEnd top inside text with
    | case1 | case4 | case7 | case18 => cases closed
    | case2 inside more inductionHypothesis =>
      exact step _ ['\\', '('] _ _ .interpolation (inductionHypothesis closed)
    | case3 inside escaped more plain inductionHypothesis =>
      exact step _ ['\\', escaped] _ _ (.escape plain) (inductionHypothesis closed)
    | case5 rest _ =>
      cases closed
      exact step _ ['"'] _ _ .line nil
    | case6 rest outer further _ inductionHypothesis =>
      exact step _ ['"'] _ _ .line (inductionHypothesis closed)
    | case8 inside character rest slash quote feed inductionHypothesis =>
      exact step _ [character] _ _ (.character slash quote feed) (inductionHypothesis closed)
    | case9 rest =>
      cases closed
      exact step _ ['"', '"', '"'] _ _ .block nil
    | case10 more outer further inductionHypothesis =>
      exact step _ ['"', '"', '"'] _ _ .block (inductionHypothesis closed)
    | case11 inside character later plain inductionHypothesis =>
      refine step _ [character] _ _ (.blockCharacter ?_) (inductionHypothesis closed)
      rintro ⟨more, ⟨⟩⟩
      exact plain more rfl rfl
    | case12 inside depth more inductionHypothesis =>
      exact step _ ['"', '"', '"'] _ _ .innerBlock (inductionHypothesis closed)
    | case13 inside depth later plain inductionHypothesis =>
      refine step _ ['"'] _ _ (.innerLine ?_) (inductionHypothesis closed)
      rintro ⟨more, rfl⟩
      exact plain more rfl
    | case14 inside rest depth _ inductionHypothesis =>
      exact step _ ['('] _ _ .opening (inductionHypothesis closed)
    | case15 inside rest below _ _ inductionHypothesis =>
      exact step _ [')'] _ _ .closing (inductionHypothesis closed)
    | case16 rest outer further _ _ inductionHypothesis =>
      exact step _ [')'] _ _ .parenthesis (inductionHypothesis closed)
    | case17 rest _ _ =>
      cases closed
      exact step _ [')'] _ _ .parenthesis nil
    | case19 inside character rest depth quote opens closing feed inductionHypothesis =>
      refine step _ [character] _ _ (.code ?_ feed) (inductionHypothesis closed)
      simp [quote, opens, closing]

theorem LiteralStep.marksLength_le (step : LiteralStep opened taken behind left) :
    marksLength opened ≤ taken.length + marksLength left := by
  cases step
  all_goals
    simp only [marksLength, LiteralFrame.mark, List.length_cons, List.length_nil]
    omega

/-- A step does not depend on what stands behind the marks of the frames that it leaves open. -/
theorem LiteralStep.of_append {body : List Char}
    (step : LiteralStep opened taken (body ++ behind) left)
    (marked : marksLength left ≤ body.length) (other : List Char) :
    LiteralStep opened taken (body ++ other) left := by
  have within (long : 2 ≤ body.length) (begins : ['"', '"'] <+: body ++ other) :
      ['"', '"'] <+: body ++ behind :=
    (List.prefix_of_prefix_length_le begins (List.prefix_append ..) long).trans
      (List.prefix_append ..)
  cases step with
  | escape plain => exact .escape plain
  | interpolation => exact .interpolation
  | line => exact .line
  | character slash quote feed => exact .character slash quote feed
  | block => exact .block
  | @blockCharacter _ character _ plain =>
    -- A block does not end with one character, so three quotes would be in the literal.
    refine .blockCharacter fun begins => plain ?_
    obtain ⟨rfl, later⟩ := List.cons_prefix_cons.mp begins
    simp only [marksLength, LiteralFrame.mark, List.length_cons, List.length_nil] at marked
    exact List.cons_prefix_cons.mpr ⟨rfl, within (by omega) later⟩
  | opening => exact .opening
  | closing => exact .closing
  | parenthesis => exact .parenthesis
  | innerLine single =>
    -- Neither do the inner literal and the interpolation around it.
    simp only [marksLength, LiteralFrame.mark, List.length_cons, List.length_nil] at marked
    exact .innerLine fun begins => single (within (by omega) begins)
  | innerBlock => exact .innerBlock
  | code plain feed => exact .code plain feed

/-- The ends of frames are found in front of what they are behind. -/
theorem exists_body_of_framesEnd (closed : framesEnd opened text = .ok behind) :
    ∃ body, text = body ++ behind ∧ ∀ other, framesEnd opened (body ++ other) = .ok other := by
  have long : ∃ body, text = body ++ behind ∧
      marksLength opened ≤ body.length ∧
        ∀ other, framesEnd opened (body ++ other) = .ok other := by
    apply framesEnd_induction ?_ ?_ closed
    · exact ⟨[], rfl, Nat.le_refl _, fun other => rfl⟩
    · rintro opened taken _ left step ⟨body, rfl, marked, closes⟩
      refine ⟨taken ++ body, by simp, ?_, fun other => ?_⟩
      · have := step.marksLength_le
        rw [List.length_append]
        omega
      · rw [List.append_assoc, (step.of_append marked other).framesEnd_eq]
        exact closes other
  obtain ⟨body, split, -, closes⟩ := long
  exact ⟨body, split, closes⟩

end Literals

/-! ## Pieces -/

/-- What a word at the start of a text makes of the piece there. -/
theorem pieceAt_eq_word {first : Char} {rest : List Char} (visible : isSpace first = false)
    (slash : first = '/' → rest.head? ≠ some '/' ∧ rest.head? ≠ some '*') (quote : first ≠ '"') :
    pieceAt first rest =
      match Lexeme.word? (first :: rest) with
      | some (kind, length) => .ok (.token kind, length - 1)
      | none => .error (.unexpectedCharacter (Text.quoted (String.singleton first))) := by
  rw [pieceAt.eq_def, visible, if_neg Bool.false_ne_true]
  split
  next => exact absurd rfl (slash rfl).1
  next => exact absurd rfl (slash rfl).2
  next => exact absurd rfl quote
  next => exact absurd rfl quote
  next => rfl

section Pieces

variable {first : Char} {front behind other : List Char} {piece : Piece} {length : Nat}

/-- What begins a text and is no longer than its front begins the front. -/
theorem exists_of_append_eq {body rest : List Char} (split : front ++ behind = body ++ rest)
    (within : body.length ≤ front.length) :
    ∃ more, front = body ++ more ∧ rest = more ++ behind := by
  obtain ⟨more, rfl⟩ := List.prefix_of_prefix_length_le ⟨rest, split.symm⟩
    (List.prefix_append front behind) within
  rw [List.append_assoc, List.append_cancel_left_eq] at split
  exact ⟨more, rfl, split.symm⟩

theorem pieceAt_lineComment (comment : List Char) : pieceAt '/' ('/' :: comment) =
    .ok (.gap, 1 + Lexeme.runLength (· != '\n') comment) := rfl

theorem pieceAt_blockComment (comment : List Char) : pieceAt '/' ('*' :: comment) =
    match commentEnd 0 comment with
    | some left => .ok (.gap, ('*' :: comment).length - left.length)
    | none => .error .unterminatedComment := rfl

/-- A comment has two marks at least. -/
theorem length_pos_of_comment {rest : List Char}
    (measured : pieceAt '/' rest = .ok (piece, length))
    (comment : rest.head? = some '/' ∨ rest.head? = some '*') : 0 < length := by
  cases rest with
  | nil => simp at comment
  | cons mark rest =>
    obtain marked | marked := comment <;> cases marked
    · rw [pieceAt_lineComment] at measured
      cases measured
      omega
    · rw [pieceAt_blockComment] at measured
      split at measured <;> cases measured
      next left closed =>
        obtain ⟨body, rfl, -⟩ := exists_body_of_commentEnd closed
        rw [List.length_cons, List.length_append]
        omega

theorem pieceAt_comment_append
    (steady : ∀ line, Lexeme.runLength (· != '\n') (line ++ behind) ≤ line.length →
      Lexeme.runLength (· != '\n') (line ++ other) = Lexeme.runLength (· != '\n') (line ++ behind))
    (measured : pieceAt '/' (front ++ behind) = .ok (piece, length))
    (within : length ≤ front.length)
    (comment : (front ++ behind).head? = some '/' ∨ (front ++ behind).head? = some '*') :
    pieceAt '/' (front ++ other) = .ok (piece, length) := by
  have filled := length_pos_of_comment measured comment
  cases front with
  | nil => exact absurd within (Nat.not_le_of_lt filled)
  | cons mark front =>
    rw [List.cons_append] at measured ⊢
    rw [List.length_cons] at within
    obtain marked | marked := comment <;> cases marked
    -- A line comment ends with its line, and a block comment has its end inside.
    · rw [pieceAt_lineComment] at measured ⊢
      cases measured
      rw [steady front (by omega)]
    · rw [pieceAt_blockComment] at measured ⊢
      split at measured <;> cases measured
      next left closed =>
        obtain ⟨body, split, closes⟩ := exists_body_of_commentEnd closed
        rw [split, List.length_cons, List.length_append] at within ⊢
        obtain ⟨more, rfl, rfl⟩ := exists_of_append_eq split (by omega)
        simp only [List.append_assoc, closes, List.length_cons, List.length_append]
        congr 2
        omega

/-- The length of a literal with `marks` quotes in front of what it is read from is that of the text
up to its end. -/
theorem exists_body_of_measured {top : LiteralFrame} {marks : Nat} {text : List Char}
    (measured : ((literalEnd top [] text).map fun left =>
      (Piece.token .string, text.length + marks - left.length)) = .ok (piece, length)) :
    ∃ body left, text = body ++ left ∧ piece = .token .string ∧ length = body.length + marks ∧
      ∀ other, literalEnd top [] (body ++ other) = .ok other := by
  cases closed : literalEnd top [] text with
  | error =>
    rw [closed] at measured
    cases measured
  | ok left =>
    obtain ⟨body, rfl, closes⟩ := @exists_body_of_framesEnd (top :: []) _ _ closed
    rw [closed] at measured
    cases measured
    refine ⟨body, left, rfl, rfl, ?_, closes⟩
    rw [List.length_append]
    omega

theorem literal_append {top : LiteralFrame} (marks : Nat)
    (measured : ((literalEnd top [] (front ++ behind)).map fun left =>
      (Piece.token .string, (front ++ behind).length + marks - left.length)) = .ok (piece, length))
    (within : length ≤ front.length + marks) (other : List Char) :
    ((literalEnd top [] (front ++ other)).map fun left =>
      (Piece.token .string, (front ++ other).length + marks - left.length)) =
        .ok (piece, length) := by
  obtain ⟨body, left, split, rfl, rfl, closes⟩ := exists_body_of_measured measured
  obtain ⟨more, rfl, rfl⟩ := exists_of_append_eq split (by omega)
  rw [List.append_assoc, closes]
  simp only [Except.map, List.length_append]
  congr 2
  omega

/-! A quote opens a literal, between triple quotes where two more quotes stand behind it. -/

theorem pieceAt_blockLiteral (literal : List Char) : pieceAt '"' ('"' :: '"' :: literal) =
    (literalEnd .block [] literal).map fun left =>
      (.token .string, literal.length + 2 - left.length) :=
  rfl

theorem pieceAt_lineLiteral {literal : List Char} (single : ¬ ['"', '"'] <+: literal) :
    pieceAt '"' literal = (literalEnd .line [] literal).map fun left =>
      (.token .string, literal.length + 0 - left.length) := by
  rw [pieceAt.eq_def, if_neg (by decide)]
  split
  next same => exact absurd same (by decide)
  next same => exact absurd same (by decide)
  next => exact absurd ⟨_, rfl⟩ single
  next => rfl
  next other _ _ _ => exact (other rfl).elim

theorem pieceAt_quote_append
    (same : ['"', '"'] <+: front ++ other → ['"', '"'] <+: front ++ behind)
    (measured : pieceAt '"' (front ++ behind) = .ok (piece, length))
    (within : length ≤ front.length) : pieceAt '"' (front ++ other) = .ok (piece, length) := by
  by_cases double : ['"', '"'] <+: front ++ behind
  · have long : 2 ≤ length := by
      obtain ⟨literal, split⟩ := double
      rw [← split, List.cons_append, List.singleton_append, pieceAt_blockLiteral] at measured
      obtain ⟨body, left, -, -, length_eq, -⟩ := exists_body_of_measured measured
      omega
    obtain ⟨front, rfl⟩ := List.prefix_of_prefix_length_le double (List.prefix_append _ _)
      (Nat.le_trans long within)
    exact pieceAt_blockLiteral _ ▸ literal_append 2 measured within other
  · rw [pieceAt_lineLiteral double] at measured
    rw [pieceAt_lineLiteral (mt same double)]
    exact literal_append 0 measured within other

theorem length_le_of_pieceAt {rest : List Char}
    (measured : pieceAt first rest = .ok (piece, length)) : length ≤ rest.length := by
  cases pieceForm_of_pieceAt measured with
  | space => exact Nat.zero_le _
  | @lineComment comment =>
    have := Lexeme.runLength_le (· != '\n') comment
    rw [List.length_cons, Nat.add_comm]
    exact Nat.succ_le_succ this
  | blockComment | blockLiteral | lineLiteral => exact Nat.sub_le _ _
  | word _ _ _ word =>
    have := Lexeme.word?_le word
    rw [List.length_cons] at this
    omega

/-- A gap is a space or a comment. -/
theorem comment_of_pieceAt_gap {rest : List Char} (gap : pieceAt first rest = .ok (.gap, length))
    (visible : isSpace first = false) :
    first = '/' ∧ (rest.head? = some '/' ∨ rest.head? = some '*') := by
  cases pieceForm_of_pieceAt gap with
  | space space =>
    rw [visible] at space
    cases space
  | lineComment => exact ⟨rfl, .inl rfl⟩
  | blockComment => exact ⟨rfl, .inr rfl⟩

/-- No token begins a comment. -/
theorem not_comment_of_pieceAt_token {rest : List Char} {kind : TokenKind}
    (token : pieceAt first rest = .ok (.token kind, length)) :
    isSpace first = false ∧ (first = '/' → rest.head? ≠ some '/' ∧ rest.head? ≠ some '*') := by
  cases pieceForm_of_pieceAt token with
  | blockLiteral | lineLiteral => exact ⟨by decide, fun slash => absurd slash (by decide)⟩
  | word visible slash => exact ⟨visible, slash⟩

/-- A gap that lies in the front of a text is the same whatever is behind the front, unless a line
feed stood there. -/
theorem pieceAt_gap_append {next : Char} (visible : next ≠ '\n')
    (gap : pieceAt first (front ++ next :: behind) = .ok (.gap, length))
    (within : length ≤ front.length) (other : List Char) :
    pieceAt first (front ++ other) = .ok (.gap, length) := by
  cases space : isSpace first with
  | true =>
    rw [pieceAt.eq_def, if_pos space] at gap ⊢
    exact gap
  | false =>
    obtain ⟨rfl, comment⟩ := comment_of_pieceAt_gap gap space
    refine pieceAt_comment_append (fun line bound => ?_) gap within comment
    -- A comment that ended right behind the front would have ended at a line feed.
    have passes := @Lexeme.runLength_append_ne (· != '\n') next (by simpa) line behind
    exact Lexeme.runLength_append_of_lt (by omega) other

/-- A piece that lies in the front of a text is the same when the text breaks off behind the
front. -/
theorem pieceAt_append (breaks : BreaksOff other)
    (measured : pieceAt first (front ++ behind) = .ok (piece, length))
    (within : length ≤ front.length) : pieceAt first (front ++ other) = .ok (piece, length) := by
  by_cases space : isSpace first = true
  · rw [pieceAt.eq_def, if_pos space] at measured ⊢
    exact measured
  by_cases quote : first = '"'
  · subst quote
    refine pieceAt_quote_append (fun begins => ?_) measured within
    exact (breaks.prefix_of_prefix_append (by decide) begins).trans (List.prefix_append _ _)
  by_cases comment : first = '/' ∧
      ((front ++ behind).head? = some '/' ∨ (front ++ behind).head? = some '*')
  · obtain ⟨rfl, comment⟩ := comment
    exact pieceAt_comment_append
      (fun line => Lexeme.steady_runLength (by decide) line behind other breaks) measured within
      comment
  have same {mark : Char} (visible : mark ≠ '\n') (absent : (front ++ behind).head? ≠ some mark) :
      (front ++ other).head? ≠ some mark := by
    cases front with
    | nil => exact fun found => visible (breaks mark found)
    | cons => exact absent
  have slash : first = '/' →
      (front ++ behind).head? ≠ some '/' ∧ (front ++ behind).head? ≠ some '*' := by
    intro slash
    exact ⟨fun found => comment ⟨slash, .inl found⟩, fun found => comment ⟨slash, .inr found⟩⟩
  rw [pieceAt_eq_word (Bool.eq_false_iff.mpr space) slash quote] at measured
  rw [pieceAt_eq_word (Bool.eq_false_iff.mpr space) (fun held =>
    ⟨same (by decide) (slash held).1, same (by decide) (slash held).2⟩) quote]
  cases word : Lexeme.word? (first :: (front ++ behind)) with
  | none =>
    rw [word] at measured
    cases measured
  | some found =>
    obtain ⟨kind, found⟩ := found
    rw [word] at measured
    cases measured
    rw [Lexeme.word?_append breaks word (by omega)]

end Pieces

/-! ## Parts of a source read on their own

A source can be cut where a word begins, where a word ends, and at a line feed between two texts
that can be read: its parts are read into the tokens that they have in the whole. `Scans` is the
reading of a text as a relation, one piece after another.
-/

/-- The text from `position` on is read into these words and ends at `finish`. -/
inductive Scans : Position → List Char → List Token → Position → Prop
  | nil {position : Position} : Scans position [] [] position
  | cons {position finish : Position} {first : Char} {taken rest : List Char} {piece : Piece}
      {words : List Token} : pieceAt first (taken ++ rest) = .ok (piece, taken.length) →
        Scans (position.after (first :: taken)) rest words finish →
          Scans position (first :: (taken ++ rest)) (piece.words (first :: taken) position ++ words)
            finish

theorem tokensFrom_cons {first : Char} {taken rest : List Char} {piece : Piece}
    (measured : pieceAt first (taken ++ rest) = .ok (piece, taken.length)) (position : Position) :
    tokensFrom position (first :: (taken ++ rest)) =
      (tokensFrom (position.after (first :: taken)) rest).map fun (words, finish) =>
        (piece.words (first :: taken) position ++ words, finish) := by
  rw [tokensFrom, measured]
  simp only [List.take_left, List.drop_left]
  cases tokensFrom (position.after (first :: taken)) rest with
  | error => rfl
  | ok result => cases piece <;> rfl

theorem scans_iff {position finish : Position} {text : List Char} {words : List Token} :
    Scans position text words finish ↔ tokensFrom position text = .ok (words, finish) := by
  constructor
  · intro scans
    induction scans with
    | nil => rw [tokensFrom]
    | cons measured _ inductionHypothesis =>
      rw [tokensFrom_cons measured, inductionHypothesis]
      rfl
  · apply tokensFrom_induction
    · intro position
      exact .nil
    · intro position finish first rest piece length words measured scans
      have split := List.take_append_drop length rest
      have taken : (rest.take length).length = length :=
        List.length_take_of_le (length_le_of_pieceAt measured)
      have whole := Scans.cons (by rw [split, taken]; exact measured) scans
      rwa [split] at whole

namespace Scans

variable {position finish : Position} {text : List Char} {words others : List Token} {word : Token}

theorem finish_eq (scans : Scans position text words finish) : finish = position.after text := by
  induction scans with
  | nil => rfl
  | cons _ _ inductionHypothesis =>
    rw [inductionHypothesis, ← List.cons_append, Position.after_append]

/-- Two texts that can be read can be read with a line feed between them. -/
theorem join {behind : List Char} {last : Position} (scans : Scans position text words finish)
    (later : Scans (finish.next '\n') behind others last) :
    Scans position (text ++ '\n' :: behind) (words ++ others) last := by
  induction scans with
  | nil =>
    have feed : pieceAt '\n' ([] ++ behind) = .ok (.gap, ([] : List Char).length) := rfl
    exact .cons feed later
  | @cons _ _ first taken rest _ _ measured _ inductionHypothesis =>
    rw [List.cons_append, List.append_assoc, List.append_assoc]
    refine .cons ?_ (inductionHypothesis later)
    rw [← List.append_nil (taken ++ rest)] at measured
    rw [← List.append_assoc]
    exact pieceAt_append (.feed behind) measured (by simp)

/-- What is read up to the end of a word is read from the text that ends with it. -/
theorem exists_cut (scans : Scans position text (words ++ word :: others) finish) :
    ∃ front rest, text = front ++ rest ∧ position.offset + front.length = word.stop ∧
      Scans position front (words ++ [word]) (position.after front) := by
  generalize whole : words ++ word :: others = given at scans
  induction scans generalizing words with
  | nil => simp at whole
  | @cons position finish first taken rest piece given measured scans inductionHypothesis =>
    have short {front later : List Char} (split : rest = front ++ later) :
        pieceAt first (taken ++ front) = .ok (piece, taken.length) := by
      rw [split, ← List.append_assoc] at measured
      rw [← List.append_nil (taken ++ front)]
      exact pieceAt_append .nil measured (by simp)
    have behind {words : List Token} (split : words ++ word :: others = given) :
        ∃ front later, first :: (taken ++ rest) = front ++ later ∧
          position.offset + front.length = word.stop ∧
            Scans position front (piece.words (first :: taken) position ++ (words ++ [word]))
              (position.after front) := by
      obtain ⟨front, later, same, place, scans⟩ := inductionHypothesis split
      refine ⟨first :: (taken ++ front), later, by simp [same], ?_, ?_⟩
      · rw [Position.offset_after] at place
        simp only [List.length_cons, List.length_append] at place ⊢
        omega
      · rw [← List.cons_append, Position.after_append]
        exact .cons (short same) scans
    cases piece with
    | gap => exact behind whole
    | token kind =>
      cases words with
      | nil =>
        obtain ⟨rfl, rfl⟩ := List.cons.inj whole
        refine ⟨first :: taken, rest, rfl, ?_, ?_⟩
        · simp only [Token.stop, Token.start, String.length_ofList]
        · have alone := @Scans.nil (position.after (first :: taken))
          have scans := alone.cons (short (List.nil_append rest).symm)
          rwa [List.append_nil] at scans
      | cons other before =>
        obtain ⟨rfl, later⟩ := List.cons.inj whole
        exact behind later

end Scans

end PeerExpansion
