import PeerExpansion.Proofs.Position
import PeerExpansion.Text.Slice
import PeerExpansion.Token.Scan

/-! # How tokens fill a source

The words that a source is read into follow one another through the source, each at the offset that
its position names, and only gaps are left between them. `Fills` says so for the words from an
offset on, which is what one step of the reading hands to the next.
-/

namespace PeerExpansion

/-! ## Gaps between tokens

A gap is a sequence of white space characters, line comments and block comments. A line comment
goes on to the end of its line. The marks inside a block comment pair up like parentheses, and they
are read from left to right, so no character of a mark belongs to two of them.
-/

/-- Whether a mark that opens or closes a block comment stands at the start of a text. -/
def startsMark (text : List Char) : Bool :=
  ['/', '*'].isPrefixOf text || ['*', '/'].isPrefixOf text

/-- The text of a block comment behind the mark that opens it. -/
inductive CommentBody : List Char → Prop
  | close : CommentBody ['*', '/']
  | plain {character : Char} {body : List Char} :
      startsMark (character :: body) = false → CommentBody body → CommentBody (character :: body)
  | nested {inner body : List Char} :
      CommentBody inner → CommentBody body → CommentBody ('/' :: '*' :: (inner ++ body))

/-- `GapPart part behind` says what a part of a gap is that the text `behind` follows. -/
inductive GapPart : List Char → List Char → Prop
  | space {character : Char} {behind : List Char} :
      isSpace character = true → GapPart [character] behind
  | lineComment {comment behind : List Char} :
      '\n' ∉ comment → (∀ next ∈ behind.head?, next = '\n') →
        GapPart ('/' :: '/' :: comment) behind
  | blockComment {body behind : List Char} :
      CommentBody body → GapPart ('/' :: '*' :: body) behind

/-- `Gap gap behind` says that `gap` separates tokens where the text `behind` follows it. -/
inductive Gap : List Char → List Char → Prop
  | none {behind : List Char} : Gap [] behind
  | part {part gap behind : List Char} :
      GapPart part (gap ++ behind) → Gap gap behind → Gap (part ++ gap) behind

theorem CommentBody.ne_nil {body : List Char} (comment : CommentBody body) : body ≠ [] := by
  cases comment <;> simp

/-- A character that starts no mark of a text starts none of a part of it either, as long as the
part goes beyond the character. -/
theorem startsMark_eq_false {character : Char} {body behind : List Char} (inside : body ≠ [])
    (opens : ∀ rest, character = '/' → body ++ behind = '*' :: rest → False)
    (closes : ∀ rest, character = '*' → body ++ behind = '/' :: rest → False) :
    startsMark (character :: body) = false := by
  cases body with
  | nil => contradiction
  | cons second body =>
    cases mark : startsMark (character :: second :: body) with
    | false => rfl
    | true =>
      simp only [startsMark, List.isPrefixOf, Bool.and_true, Bool.or_eq_true, Bool.and_eq_true,
        beq_iff_eq] at mark
      obtain ⟨rfl, rfl⟩ | ⟨rfl, rfl⟩ := mark
      · exact (opens _ rfl rfl).elim
      · exact (closes _ rfl rfl).elim

/-- What closes `depth + 1` comments is as many comment bodies, the innermost first. -/
theorem bodies_of_commentEnd {depth : Nat} {text behind : List Char}
    (closed : commentEnd depth text = some behind) :
    ∃ bodies : List (List Char), bodies.length = depth + 1 ∧
      (∀ body ∈ bodies, CommentBody body) ∧ text = bodies.flatten ++ behind := by
  fun_induction commentEnd depth text with
  | case1 depth rest inductionHypothesis =>
    obtain ⟨bodies, count, comments, rfl⟩ := inductionHypothesis closed
    match bodies, count with
    | inner :: outer :: others, count =>
      simp only [List.forall_mem_cons] at comments
      obtain ⟨innerComment, outerComment, otherComments⟩ := comments
      -- The opening mark makes one body of the two that close next.
      refine ⟨('/' :: '*' :: (inner ++ outer)) :: others, by simpa using count, ?_, by simp⟩
      exact List.forall_mem_cons.mpr ⟨.nested innerComment outerComment, otherComments⟩
  | case2 rest =>
    cases closed
    exact ⟨[['*', '/']], rfl, by simpa using CommentBody.close, rfl⟩
  | case3 rest below inductionHypothesis =>
    obtain ⟨bodies, count, comments, rfl⟩ := inductionHypothesis closed
    exact ⟨['*', '/'] :: bodies, by simp [count],
      List.forall_mem_cons.mpr ⟨.close, comments⟩, rfl⟩
  | case4 depth character rest opens closes inductionHypothesis =>
    obtain ⟨bodies, count, comments, rfl⟩ := inductionHypothesis closed
    match bodies, count with
    | body :: others, count =>
      simp only [List.forall_mem_cons] at comments
      -- The character goes in front of the body that closes next.
      refine ⟨(character :: body) :: others, by simpa using count, ?_, rfl⟩
      refine List.forall_mem_cons.mpr ⟨.plain ?_ comments.1, comments.2⟩
      apply @startsMark_eq_false _ _ (others.flatten ++ behind) comments.1.ne_nil
      · simpa using opens
      · simpa using closes
  | case5 => cases closed

theorem commentBody_of_commentEnd {text behind : List Char}
    (closed : commentEnd 0 text = some behind) :
    ∃ body, CommentBody body ∧ text = body ++ behind := by
  obtain ⟨bodies, count, comments, rfl⟩ := bodies_of_commentEnd closed
  obtain ⟨body, rfl⟩ := List.length_eq_one_iff.mp count
  exact ⟨body, comments body List.mem_cons_self, by simp⟩

/-! ## Pieces -/

/-- A comment up to the end of its line, with what follows it. -/
theorem gapPart_lineComment (comment : List Char) :
    GapPart ('/' :: '/' :: comment.takeWhile (· != '\n')) (comment.dropWhile (· != '\n')) := by
  apply GapPart.lineComment
  · intro feed
    simpa using List.all_eq_true.mp List.all_takeWhile '\n' feed
  · intro next found
    have stopped := List.head?_dropWhile_not (· != '\n') comment
    rw [Option.mem_def.mp found] at stopped
    simpa using stopped

/-- What a piece is, and how many characters it has after its first one. -/
inductive PieceForm : Char → List Char → Piece → Nat → Prop
  | space {first : Char} {rest : List Char} : isSpace first = true → PieceForm first rest .gap 0
  | lineComment {comment : List Char} :
      PieceForm '/' ('/' :: comment) .gap (1 + (comment.takeWhile (· != '\n')).length)
  | blockComment {comment behind : List Char} : commentEnd 0 comment = some behind →
      PieceForm '/' ('*' :: comment) .gap (('*' :: comment).length - behind.length)
  | blockLiteral {literal behind : List Char} : literalEnd .block [] literal = .ok behind →
      PieceForm '"' ('"' :: '"' :: literal) (.token .string)
        (('"' :: '"' :: literal).length - behind.length)
  | lineLiteral {literal behind : List Char} : ¬ ['"', '"'] <+: literal →
      literalEnd .line [] literal = .ok behind →
        PieceForm '"' literal (.token .string) (literal.length - behind.length)
  | word {first : Char} {rest : List Char} {kind : TokenKind} {length : Nat} :
      isSpace first = false →
      (first = '/' → rest.head? ≠ some '/' ∧ rest.head? ≠ some '*') → first ≠ '"' →
      Lexeme.word? (first :: rest) = some (kind, length) →
        PieceForm first rest (.token kind) (length - 1)

theorem pieceForm_of_pieceAt {first : Char} {rest : List Char} {piece : Piece} {length : Nat}
    (measured : pieceAt first rest = .ok (piece, length)) : PieceForm first rest piece length := by
  -- A literal that finds its end is a string.
  have literal {result : Except SyntaxFault (List Char)} {measure : List Char → Nat}
      (found : (result.map fun behind => (Piece.token .string, measure behind)) =
        .ok (piece, length)) :
      ∃ behind, result = .ok behind ∧ piece = .token .string ∧ length = measure behind := by
    cases result with
    | error fault => cases found
    | ok behind => cases found; exact ⟨behind, rfl, rfl, rfl⟩
  unfold pieceAt at measured
  split at measured
  next space =>
    cases measured
    exact .space space
  next visible =>
    split at measured
    next =>
      cases measured
      exact .lineComment
    next =>
      split at measured
      next behind closed =>
        cases measured
        exact .blockComment closed
      next => cases measured
    next =>
      obtain ⟨behind, closed, rfl, rfl⟩ := literal measured
      exact .blockLiteral closed
    next single =>
      obtain ⟨behind, closed, rfl, rfl⟩ := literal measured
      refine .lineLiteral ?_ closed
      rintro ⟨more, rfl⟩
      exact single more rfl
    next quote line block _ =>
      split at measured
      next word =>
        cases measured
        refine .word (Bool.eq_false_iff.mpr visible) (fun slash => ⟨?_, ?_⟩) quote word
        · intro mark
          obtain ⟨more, rfl⟩ := List.head?_eq_some_iff.mp mark
          exact line _ slash rfl
        · intro mark
          obtain ⟨more, rfl⟩ := List.head?_eq_some_iff.mp mark
          exact block _ slash rfl
      next => cases measured

theorem kind_of_word? {text : List Char} {kind : TokenKind} {length : Nat}
    (word : Lexeme.word? text = some (kind, length)) : kind ≠ .ending ∧ kind ≠ .string := by
  unfold Lexeme.word? at word
  split at word
  next => cases word; decide
  next =>
    split at word
    next => cases word; decide
    next =>
      obtain ⟨_, _, pair⟩ := Option.map_eq_some_iff.mp word
      cases pair
      decide

theorem gapPart_of_pieceAt {first : Char} {rest : List Char} {length : Nat}
    (gap : pieceAt first rest = .ok (.gap, length)) :
    GapPart (first :: rest.take length) (rest.drop length) := by
  cases pieceForm_of_pieceAt gap with
  | space space => exact .space space
  | @lineComment comment =>
    -- The piece is as long as the comment up to the line feed, which is not part of it.
    have parts := List.takeWhile_append_dropWhile (p := (· != '\n')) (l := comment)
    have line := gapPart_lineComment comment
    rw [Nat.add_comm, List.take_succ_cons, List.drop_succ_cons]
    generalize comment.takeWhile (· != '\n') = front at parts line ⊢
    rw [← parts, List.take_left, List.drop_left]
    exact line
  | @blockComment comment behind closed =>
    obtain ⟨body, isComment, rfl⟩ := commentBody_of_commentEnd closed
    -- The length of the piece is counted from what is left behind it.
    have measured : ('*' :: (body ++ behind)).length - behind.length = body.length + 1 := by
      simp only [List.length_cons, List.length_append]
      omega
    rw [measured, List.take_succ_cons, List.drop_succ_cons, List.take_left, List.drop_left]
    exact .blockComment isComment

theorem kind_of_pieceAt {first : Char} {rest : List Char} {length : Nat} {kind : TokenKind}
    (token : pieceAt first rest = .ok (.token kind, length)) : kind ≠ .ending := by
  cases pieceForm_of_pieceAt token with
  | blockLiteral | lineLiteral => decide
  | word _ _ _ word => exact (kind_of_word? word).1

/-! ## Readings

Proofs about the words of a text go from its end to its beginning: what a piece adds is put in front
of the words that are read behind it.
-/

/-- What a piece adds to the words behind it. -/
def Piece.words (text : List Char) (position : Position) : Piece → List Token
  | gap => []
  | token kind => [⟨kind, String.ofList text, position⟩]

/-- What holds of an empty text, and with every piece that is read in front of a text, holds of
every text that can be read. -/
theorem tokensFrom_induction {Holds : Position → List Char → List Token → Position → Prop}
    (nil : ∀ position, Holds position [] [] position)
    (cons : ∀ position finish first rest piece length words,
      pieceAt first rest = .ok (piece, length) →
        Holds (position.after (first :: rest.take length)) (rest.drop length) words finish →
          Holds position (first :: rest)
            (piece.words (first :: rest.take length) position ++ words) finish)
    {position finish : Position} {text : List Char} {words : List Token}
    (scanned : tokensFrom position text = .ok (words, finish)) :
    Holds position text words finish := by
  fun_induction tokensFrom position text generalizing words finish with
  | case1 position =>
    cases scanned
    exact nil position
  | case2 => cases scanned
  | case3 position first rest piece length measured text =>
    rename_i inductionHypothesis
    cases later : tokensFrom (position.after text) (rest.drop length) with
    | error error =>
      rw [later] at scanned
      cases scanned
    | ok others =>
      have whole := cons position _ first rest piece length _ measured (inductionHypothesis later)
      rw [later] at scanned
      cases piece <;> cases scanned <;> exact whole

/-- What holds of every piece that is a token holds of every word of a text. -/
theorem forall_of_tokensFrom (Holds : Token → Prop)
    (each : ∀ first rest kind length position, pieceAt first rest = .ok (.token kind, length) →
      Holds ⟨kind, String.ofList (first :: rest.take length), position⟩)
    {position finish : Position} {text : List Char} {words : List Token}
    (scanned : tokensFrom position text = .ok (words, finish)) : ∀ word ∈ words, Holds word := by
  apply tokensFrom_induction ?_ ?_ scanned
  · simp
  · intro position finish first rest piece length words measured behind
    cases piece with
    | gap => exact behind
    | token kind => exact List.forall_mem_cons.mpr ⟨each _ _ _ _ position measured, behind⟩

/-! ## Layout -/

/-- What holds of a token of a source in itself. -/
structure Stands (source : List Char) (word : Token) : Prop where
  kind_ne : word.kind ≠ .ending
  start_lt : word.start < word.stop
  stop_le : word.stop ≤ source.length
  text_eq : word.text.toList = Text.slice source word.start word.stop
  position_eq : word.position = .ofOffset source word.start

/-- The words fill a source from `offset` on, but for gaps. -/
inductive Fills (source : List Char) : Nat → List Token → Prop
  | nil {offset : Nat} : offset ≤ source.length →
      Gap (Text.slice source offset source.length) [] → Fills source offset []
  | cons {offset : Nat} {word : Token} {words : List Token} : offset ≤ word.start →
      Gap (Text.slice source offset word.start) (source.drop word.start) → Stands source word →
        Fills source word.stop words → Fills source offset (word :: words)

theorem Fills.gapPart {source : List Char} {offset length : Nat} {words : List Token}
    (part : GapPart ((source.drop offset).take length) (source.drop (offset + length)))
    (fills : Fills source (offset + length) words) : Fills source offset words := by
  -- A part in front of a gap makes a longer gap, whatever the gap leads to.
  have grow {stop : Nat} (behind : offset + length ≤ stop)
      (gap : Gap (Text.slice source (offset + length) stop) (source.drop stop)) :
      Gap (Text.slice source offset stop) (source.drop stop) := by
    rw [← Text.slice_append_slice source (Nat.le_add_right offset length) behind]
    refine .part ?_ gap
    have later : Text.slice source (offset + length) stop ++ source.drop stop =
        source.drop (offset + length) :=
      Text.slice_append_drop source behind
    rw [later, Text.slice, Nat.add_sub_cancel_left]
    exact part
  cases fills with
  | nil inside gap =>
    refine .nil (by omega) ?_
    have := grow inside
    rw [List.drop_length] at this
    exact this gap
  | cons behind gap stands fills => exact .cons (by omega) (grow behind gap) stands fills

/-- What stands at an offset of a source, taken apart. -/
structure Begins (source : List Char) (offset : Nat) (text behind : List Char) : Prop where
  inside : offset + text.length ≤ source.length
  taken : (source.drop offset).take text.length = text
  dropped : source.drop (offset + text.length) = behind

theorem Begins.of_drop {source text behind : List Char} {offset : Nat}
    (inside : offset ≤ source.length) (remains : source.drop offset = text ++ behind) :
    Begins source offset text behind where
  inside := by
    have counted := congrArg List.length remains
    rw [List.length_drop, List.length_append] at counted
    omega
  taken := by rw [remains, List.take_left]
  dropped := by rw [← List.drop_drop, remains, List.drop_left]

theorem Begins.stands {source text behind : List Char} {offset : Nat} {kind : TokenKind}
    (begins : Begins source offset text behind) (filled : 0 < text.length)
    (known : kind ≠ .ending) :
    Stands source ⟨kind, String.ofList text, .ofOffset source offset⟩ := by
  have inside := begins.inside
  have start_eq : (Position.ofOffset source offset).offset = offset :=
    Position.offset_ofOffset (by omega)
  constructor
  · exact known
  · simp only [Token.stop, Token.start, String.length_ofList]
    omega
  · simpa only [Token.stop, Token.start, start_eq, String.length_ofList] using inside
  · simp only [Token.stop, Token.start, start_eq, String.length_ofList, String.toList_ofList,
      Text.slice, Nat.add_sub_cancel_left, begins.taken]
  · simp only [Token.start, start_eq]

theorem fills_of_tokensFrom {source text : List Char} {position finish : Position}
    {words : List Token} (scanned : tokensFrom position text = .ok (words, finish)) {offset : Nat}
    (inside : offset ≤ source.length) (remains : source.drop offset = text)
    (place : position = .ofOffset source offset) :
    Fills source offset words ∧ finish = .ofOffset source source.length := by
  -- Along the reading: the text to be read is what is left of the source at `offset`, and the
  -- position is that of `offset`.
  revert offset
  apply tokensFrom_induction ?_ ?_ scanned
  · intro position offset inside remains place
    obtain rfl : offset = source.length :=
      Nat.le_antisymm inside (List.drop_eq_nil_iff.mp remains)
    refine ⟨.nil (Nat.le_refl _) ?_, place⟩
    rw [Text.slice_eq_drop, remains]
    exact .none
  · intro position finish first rest piece length words found inductionHypothesis offset inside
      remains place
    have begins : Begins source offset (first :: rest.take length) (rest.drop length) :=
      .of_drop inside (by rw [remains, List.cons_append, List.take_append_drop])
    have next_place : position.after (first :: rest.take length) =
        .ofOffset source (offset + (first :: rest.take length).length) := by
      rw [place, ← Position.ofOffset_after, begins.taken]
    obtain ⟨fills, finish_eq⟩ := inductionHypothesis begins.inside begins.dropped next_place
    refine ⟨?_, finish_eq⟩
    cases piece with
    | gap =>
      refine fills.gapPart ?_
      rw [begins.taken, begins.dropped]
      exact gapPart_of_pieceAt found
    | token kind =>
      have stands := begins.stands (Nat.succ_pos _) (kind_of_pieceAt found)
      rw [← place] at stands
      have start_eq : position.offset = offset := by
        rw [place, Position.offset_ofOffset inside]
      rw [Piece.words, List.singleton_append]
      refine .cons (Nat.le_of_eq start_eq.symm) ?_ stands ?_
      · simp only [Token.start, start_eq, Text.slice, Nat.sub_self, List.take_zero]
        exact .none
      · simpa only [Token.stop, Token.start, start_eq, String.length_ofList] using fills

theorem exists_tokensFrom_of_scan {source : List Char} {stream : TokenStream}
    (scanned : TokenStream.scan source = .ok stream) :
    ∃ words finish, tokensFrom .start source = .ok (words, finish) ∧
      stream = ⟨source, words, .ending finish⟩ := by
  unfold TokenStream.scan at scanned
  cases read : tokensFrom .start source with
  | error error =>
    rw [read] at scanned
    cases scanned
  | ok result =>
    rw [read] at scanned
    cases scanned
    exact ⟨_, _, rfl, rfl⟩

theorem fills_of_scan {source : List Char} {stream : TokenStream}
    (scanned : TokenStream.scan source = .ok stream) :
    stream.source = source ∧ Fills source 0 stream.words ∧
      stream.ending = .ending (.ofOffset source source.length) := by
  obtain ⟨words, finish, read, rfl⟩ := exists_tokensFrom_of_scan scanned
  obtain ⟨fills, finish_eq⟩ := fills_of_tokensFrom read (Nat.zero_le _) List.drop_zero rfl
  exact ⟨rfl, fills, congrArg Token.ending finish_eq⟩

/-! ## Order -/

theorem Fills.start_le {source : List Char} {offset : Nat} {words : List Token}
    (fills : Fills source offset words) : ∀ word ∈ words, offset ≤ word.start := by
  induction fills with
  | nil => simp
  | @cons offset word words behind gap stands fills inductionHypothesis =>
    have filled := stands.start_lt
    refine List.forall_mem_cons.mpr ⟨behind, fun other member => ?_⟩
    have := inductionHypothesis other member
    omega

theorem Fills.stands {source : List Char} {offset : Nat} {words : List Token}
    (fills : Fills source offset words) : ∀ word ∈ words, Stands source word := by
  induction fills with
  | nil => simp
  | cons behind gap stands fills inductionHypothesis =>
    exact List.forall_mem_cons.mpr ⟨stands, inductionHypothesis⟩

theorem Fills.pairwise {source : List Char} {offset : Nat} {words : List Token}
    (fills : Fills source offset words) :
    words.Pairwise fun first second => first.stop ≤ second.start := by
  induction fills with
  | nil => exact .nil
  | cons behind gap stands fills inductionHypothesis =>
    exact .cons fills.start_le inductionHypothesis

end PeerExpansion
