import PeerExpansion.Proofs.Declaration.Span
import PeerExpansion.Proofs.Declaration.Binding
import PeerExpansion.Proofs.Declaration.Boundary
import PeerExpansion.Proofs.Declaration.Moved
import PeerExpansion.Proofs.Token.Faithful
import PeerExpansion.Proofs.Token.Moved

/-! # A variable with another text behind it

Where a line feed and another text follow a variable, the variable ends where it does on its own,
unless its last part is an initializer that goes on: the last word in front of the line feed may be
one that lets an expression go on in the next line.
-/

namespace PeerExpansion

open Reading

/-! ## Brackets -/

namespace Extent

/-- The mark that closes a bracket. -/
def closing (token : Token) : String :=
  if token.text = "(" then ")" else if token.text = "[" then "]" else Token.closeBrace

/-- Whether the brackets of the tokens are properly nested and close those of `pending`, the
innermost first. -/
def isNested (pending : List String) : List Token → Bool
  | [] => pending.isEmpty
  | token :: others =>
    if token.isOpening then isNested (closing token :: pending) others
    else if token.isClosing then
      pending.head? == some token.text && isNested pending.tail others
    else isNested pending others

/-- The first token opens a bracket, closes the innermost one, or is no bracket. -/
theorem isNested_cons {pending : List String} {token : Token} {others : List Token}
    (nested : isNested pending (token :: others) = true) :
    (token.isOpening = true ∧ isNested (closing token :: pending) others = true) ∨
      (¬ token.isOpening = true ∧ token.isClosing = true ∧
        ∃ expected further, pending = expected :: further ∧ isNested further others = true) ∨
      (¬ token.isOpening = true ∧ ¬ token.isClosing = true ∧ isNested pending others = true) := by
  rw [isNested] at nested
  split at nested
  next opens => exact .inl ⟨opens, nested⟩
  next opens =>
    split at nested
    next closes =>
      cases pending with
      | nil => simp at nested
      | cons expected further =>
        exact .inr (.inl ⟨opens, closes, expected, further, rfl,
          (Bool.and_eq_true_iff.mp nested).2⟩)
    next closes => exact .inr (.inr ⟨opens, closes, nested⟩)

/-- Nested brackets close as many brackets as there are to close. -/
theorem foldl_depthBehind {pending : List String} {tokens : List Token}
    (nested : isNested pending tokens = true) (depth : Nat) :
    tokens.foldl depthBehind depth = depth - pending.length := by
  induction tokens generalizing pending depth with
  | nil =>
    obtain rfl := List.isEmpty_iff.mp nested
    rfl
  | cons token others inductionHypothesis =>
    rw [List.foldl_cons, depthBehind]
    obtain ⟨opens, later⟩ | ⟨opens, closes, expected, further, rfl, later⟩ |
      ⟨opens, closes, later⟩ := isNested_cons nested
    · rw [if_pos opens, inductionHypothesis later, List.length_cons]
      omega
    · rw [if_neg opens, if_pos closes, inductionHypothesis later, List.length_cons]
      omega
    · rw [if_neg opens, if_neg closes, inductionHypothesis later]

theorem exists_isNested_drop {pending : List String} {tokens : List Token}
    (nested : isNested pending tokens = true) (count : Nat) :
    ∃ further, isNested further (tokens.drop count) = true := by
  induction tokens generalizing pending count with
  | nil => exact ⟨pending, by rwa [List.drop_nil]⟩
  | cons token others inductionHypothesis =>
    cases count with
    | zero => exact ⟨pending, nested⟩
    | succ count =>
      obtain ⟨_, later⟩ | ⟨_, _, _, _, _, later⟩ | ⟨_, _, later⟩ := isNested_cons nested
      · exact inductionHypothesis later count
      · exact inductionHypothesis later count
      · exact inductionHypothesis later count

/-- Wherever the count begins, no bracket is open at the end. -/
theorem foldl_depthBehind_drop {tokens : List Token} (nested : isNested [] tokens = true)
    (count : Nat) : (tokens.drop count).foldl depthBehind 0 = 0 := by
  obtain ⟨pending, nested⟩ := exists_isNested_drop nested count
  rw [foldl_depthBehind nested, Nat.zero_sub]

end Extent

/-! ## Where initializers end -/

theorem Token.IsStop.not_endsExpression {token : Token} (stop : token.IsStop) :
    ¬ Extent.endsExpression token = true := by
  have comma : ¬ token.isPunctuation "," = true := stop.not_isPunctuation (by decide) (by decide)
  have semicolon : ¬ token.isPunctuation ";" = true :=
    stop.not_isPunctuation (by decide) (by decide)
  have closing : ¬ token.isClosing = true := by
    rw [Token.isClosing, Bool.and_eq_true]
    exact fun closes => stop.not_isOneOf (by decide) (by decide) closes.2
  simp [Extent.endsExpression, closing, comma, semicolon]

/-- The token behind ends an expression, or a line break in front of it does. -/
def Cursor.EndsExpression (cursor : Cursor) : Prop :=
  ∀ token rest previous, cursor.behind = token :: rest → cursor.previous? = some previous →
    Extent.endsExpression token = true ∨ Extent.startsNewLine previous token = true

theorem Extent.ends_of_expressionLength {previous token : Token} {depth : Nat}
    {tokens rest : List Token}
    (dropped : tokens.drop (expressionLength previous depth tokens) = token :: rest) :
    endsExpression token = true ∨
      startsNewLine ((tokens.take (expressionLength previous depth tokens)).getLastD previous)
        token = true := by
  induction tokens generalizing previous depth with
  | nil => simp at dropped
  | cons head tokens inductionHypothesis =>
    rw [expressionLength] at dropped ⊢
    split at dropped
    next stops =>
      rw [if_pos stops]
      cases dropped
      rw [Bool.and_eq_true, Bool.or_eq_true] at stops
      exact stops.2
    next goes =>
      rw [if_neg goes, List.take_succ_cons, List.getLastD_cons]
      exact inductionHypothesis dropped

namespace Declaration

variable {first last : Cursor}

theorem endsExpression_of_reads_readInitializer {text : String}
    (read : Reads readInitializer first text last) : last.EndsExpression := by
  obtain ⟨_, rfl, -⟩ := reads_readInitializer.mp read
  intro token rest previous behind_eq before_eq
  obtain ⟨source, before, behind, ending⟩ := first
  cases behind with
  | nil => simp [Cursor.skip] at behind_eq
  | cons head tokens =>
    have skipped (length : Nat) :
        Cursor.skip ⟨source, before, head :: tokens, ending⟩ (1 + length) =
        ⟨source, (head :: tokens.take length).reverse ++ before, tokens.drop length, ending⟩ := by
      rw [Nat.add_comm]
      rfl
    rw [skipped] at behind_eq before_eq
    have ends := Extent.ends_of_expressionLength behind_eq
    have previous_eq (length : Nat) :
        ((head :: tokens.take length).reverse ++ before).head? =
          some ((tokens.take length).getLastD head) := by
      rw [List.head?_append, List.head?_reverse, List.getLast?_cons, List.getLastD_eq_getLast?]
      rfl
    rw [Cursor.previous?, previous_eq] at before_eq
    cases before_eq
    exact ends

/-- A binding whose last part is an initializer ends where that does. -/
theorem endsExpression_of_reads_readBinding {binding : Binding} (unclosed : ¬ binding.IsClosed)
    (read : Reads readBinding first binding last) : last.EndsExpression := by
  simp only [readBinding, reads_bind, reads_pure] at read
  obtain ⟨pattern, _, _, type, _, _, initializer, third, initializerRead, accessors, fourth,
    accessorsRead, rfl, rfl⟩ := read
  simp only [Binding.IsClosed, not_or] at unclosed
  obtain ⟨some, none⟩ := unclosed
  obtain ⟨text, rfl⟩ := Option.ne_none_iff_exists'.mp some
  obtain rfl : accessors = Option.none := by simpa using none
  simp only [readInitializer?, reads_bind, reads_check, reads_ite, reads_skip, reads_pure, and_assoc,
    exists_and_left, exists_eq_left, Option.some.injEq, reduceCtorEq, false_and, and_false,
    or_false] at initializerRead
  simp only [readAccessors?, reads_bind, reads_check, reads_ite, reads_pure, and_assoc,
    exists_and_left, exists_eq_left, reduceCtorEq, false_and, and_false, exists_false, false_or,
    true_and] at accessorsRead
  obtain ⟨_, _, _, _, initializerRead, -, rfl⟩ := initializerRead
  obtain ⟨_, rfl⟩ := accessorsRead
  exact endsExpression_of_reads_readInitializer initializerRead

end Declaration

/-! ## Joined texts -/

section Join

variable {source other : List Char} {first second : TokenStream}

/-- The first text in the joined one, and the second. -/
def Inlay.ofFirst (source other : List Char) : Inlay source (source ++ '\n' :: other) :=
  ⟨[], '\n' :: other, rfl⟩

def Inlay.ofSecond (source other : List Char) : Inlay other (source ++ '\n' :: other) :=
  ⟨source ++ ['\n'], [], by simp⟩

variable (scanned : TokenStream.scan source = .ok first)
variable (otherScanned : TokenStream.scan other = .ok second)
include scanned otherScanned

theorem Inlay.shows_ofSecond :
    (Inlay.ofSecond source other).Shows second (first.join second) first.words.length := by
  obtain ⟨rfl, -⟩ := TokenStream.ordered_of_scan scanned
  obtain ⟨rfl, -⟩ := TokenStream.ordered_of_scan otherScanned
  refine ⟨otherScanned, rfl, ?_, List.drop_left, rfl⟩
  simp [TokenStream.join]

omit otherScanned in
theorem Inlay.shows_ofFirst :
    (Inlay.ofFirst source other).Shows first { first with source := source ++ '\n' :: other }
      0 := by
  refine ⟨scanned, rfl, Nat.zero_le _, ?_, (Token.moved_by_start _).symm⟩
  rw [List.drop_zero]
  exact (List.map_id'' Token.moved_by_start _).symm

end Join

namespace TokenStream

variable {first second : TokenStream} {index : Nat}

@[simp]
theorem length_words_join :
    (first.join second).words.length = first.words.length + second.words.length := by
  simp [join]

theorem token_join_of_lt (inside : index < first.words.length) :
    (first.join second).token index = first.token index := by
  rw [token, token, join, List.getElem?_append_left inside, List.getElem?_eq_getElem inside]
  rfl

theorem token_join_add (index : Nat) :
    (first.join second).token (first.words.length + index) =
      (second.token index).moved (secondBase first.source) := by
  rw [token, token, join, List.getElem?_append_right (Nat.le_add_right _ _),
    Nat.add_sub_cancel_left, List.getElem?_map]
  cases second.words[index]? <;> rfl

/-- A token of the first text stands on an earlier line than the second text. -/
theorem line_lt_secondBase {source : List Char} (scanned : scan source = .ok first) (index : Nat) :
    (first.token index).position.line < (secondBase first.source).line := by
  obtain ⟨rfl, ordered⟩ := ordered_of_scan scanned
  obtain ⟨offset, within, position_eq⟩ := within_of_scan scanned _ (first.token_mem_toList index)
  have taken := (List.take_sublist offset first.source).count_le '\n'
  rw [position_eq, Position.line_ofOffset, secondBase, Position.line_after_start, List.count_append,
    List.count_singleton_self]
  omega

theorem line_pos {source : List Char} (scanned : scan source = .ok first) (index : Nat) :
    1 ≤ (first.token index).position.line := by
  obtain ⟨offset, _, position_eq⟩ := within_of_scan scanned _ (first.token_mem_toList index)
  rw [position_eq, Position.line_ofOffset]
  exact Nat.le_add_right _ _

end TokenStream

/-! ## Where the variable ends -/

/-- The variable does not end with an initializer, or the last word of its text is none that lets an
expression go on in the next line. -/
def Declaration.Settled (stream : TokenStream) (declaration : Declaration) : Prop :=
  (∀ binding ∈ declaration.bindings.getLast?, binding.IsClosed) ∨
    ∀ word ∈ stream.words.getLast?, ¬ word.isOneOf Extent.continuations = true

section Seam

variable {source other : List Char} {first second : TokenStream}

/-- The words of the first text on their own and with the second text behind them. -/
def Seam.ofJoin (ending_eq : first.ending.word = .ending)
    (otherEnding_eq : second.ending.word = .ending) (mark : (second.token 0).word = .mark "@") : Seam where
  stream := { first with source := first.source ++ '\n' :: second.source }
  other := first.join second
  place := first.words.length
  source_eq := rfl
  within := Nat.le_refl _
  otherWithin := by simp
  words_eq := by simp [TokenStream.join]
  ending_eq
  otherEnding_eq
  stop := .inr ((congrArg Token.word (TokenStream.token_join_add 0)).trans mark)

/-- The mark at the head of a text is a word of it. -/
theorem TokenStream.exists_words_eq_cons (otherScanned : TokenStream.scan other = .ok second)
    (mark : (second.token 0).word = .mark "@") :
    ∃ words, second.words = second.token 0 :: words := by
  cases words_eq : second.words with
  | nil =>
    obtain ⟨-, ordered⟩ := TokenStream.ordered_of_scan otherScanned
    rw [TokenStream.token_eq_ending (by simp [words_eq]), ordered.ending_word] at mark
    cases mark
  | cons begins words =>
    rw [TokenStream.token, words_eq]
    exact ⟨words, rfl⟩

/-- The second text begins a new line, and with it something new. -/
theorem Extent.startsNewLine_join (scanned : TokenStream.scan source = .ok first)
    (otherScanned : TokenStream.scan other = .ok second)
    (mark : (second.token 0).word = .mark "@") (index : Nat) :
    startsNewLine (first.token index) ((second.token 0).moved (secondBase first.source)) =
      !(first.token index).isOneOf continuations := by
  have text_eq : ((second.token 0).moved (secondBase first.source)).text = "@" :=
    congrArg Word.text mark
  have later : (first.token index).position.line <
      ((second.token 0).moved (secondBase first.source)).position.line := by
    have := TokenStream.line_lt_secondBase scanned index
    have := TokenStream.line_pos otherScanned 0
    show _ < (secondBase first.source).line + (second.token 0).position.line - 1
    omega
  have other : ¬ "@" ∈ continuations := by decide
  simp [startsNewLine, later, Token.isOneOf, text_eq, other]

theorem Seam.halts_ofJoin {ending_eq : first.ending.word = .ending}
    {otherEnding_eq : second.ending.word = .ending} {mark : (second.token 0).word = .mark "@"}
    (scanned : TokenStream.scan source = .ok first)
    (otherScanned : TokenStream.scan other = .ok second)
    (nested : Extent.isNested [] first.words = true)
    (settled : ∀ word ∈ first.words.getLast?, ¬ word.isOneOf Extent.continuations = true) :
    (Seam.ofJoin ending_eq otherEnding_eq mark).Halts := by
  intro index inside
  have front_eq : (Seam.ofJoin ending_eq otherEnding_eq mark).front index =
      first.words.drop index := by
    show (first.words.take first.words.length).drop index = _
    rw [List.take_length]
  have inside : index < first.words.length := inside
  have last_eq : first.words.getLast? = some (first.token (first.words.length - 1)) := by
    rw [List.getLast?_eq_getElem?, List.getElem?_eq_getElem (by omega),
      TokenStream.token_eq_getElem (by omega)]
  rw [front_eq, Extent.foldl_depthBehind_drop nested]
  show Extent.expressionLength (first.token (first.words.length - 1)) 0
    ((first.words ++ _).drop first.words.length) = 0
  rw [List.drop_left]
  -- The second text begins on a line of its own, and the first one asks for no more.
  have starts := Extent.startsNewLine_join scanned otherScanned mark (first.words.length - 1)
  have plain := settled _ last_eq
  obtain ⟨words, words_eq⟩ := TokenStream.exists_words_eq_cons otherScanned mark
  rw [words_eq, List.map_cons, Extent.expressionLength, if_pos (by simp [starts, plain])]

/-- An expression that ends where the texts are joined does not end with a word that it goes on
behind. -/
theorem Cursor.EndsExpression.not_continues (scanned : TokenStream.scan source = .ok first)
    (otherScanned : TokenStream.scan other = .ok second)
    (mark : (second.token 0).word = .mark "@") (filled : 0 < first.words.length)
    (ends : (Cursor.ofStream (first.join second) first.words.length).EndsExpression) :
    (first.token (first.words.length - 1)).isOneOf Extent.continuations = false := by
  obtain ⟨words, words_eq⟩ := TokenStream.exists_words_eq_cons otherScanned mark
  have length_eq : (first.join second).words.length = first.words.length + second.words.length :=
    TokenStream.length_words_join
  have previous := @Cursor.previous?_ofStream (first.join second) (first.words.length - 1)
    (by omega)
  rw [Nat.sub_add_cancel filled, TokenStream.token_join_of_lt (by omega)] at previous
  have behind_eq : (Cursor.ofStream (first.join second) first.words.length).behind =
      (second.token 0).moved (secondBase first.source) ::
        words.map (Token.moved (secondBase first.source)) := by
    rw [Cursor.ofStream, TokenStream.join, List.drop_left, words_eq, List.map_cons]
  have stop : ((second.token 0).moved (secondBase first.source)).IsStop := .inr mark
  obtain marked | newLine := ends _ _ _ behind_eq previous
  · exact absurd marked stop.not_endsExpression
  · rwa [Extent.startsNewLine_join scanned otherScanned mark, Bool.not_eq_true'] at newLine

namespace Declaration

variable {declaration : Declaration} {behind next : Nat}
variable (scanned : TokenStream.scan source = .ok first)
variable (otherScanned : TokenStream.scan other = .ok second)
include scanned otherScanned

/-- What the second text is read into on its own is read from it behind the first, too. -/
theorem reads_join_second
    (read : Reads Declaration.read (.ofStream second 0) declaration (.ofStream second next))
    (within : next ≤ second.words.length) :
    Reads Declaration.read (.ofStream (first.join second) first.words.length)
      (declaration.moved (secondBase first.source))
      (.ofStream (first.join second) (first.words.length + next)) := by
  obtain ⟨rfl, -⟩ := TokenStream.ordered_of_scan scanned
  exact (Inlay.shows_ofSecond scanned otherScanned).reads_moved read within

variable (mark : (second.token 0).word = .mark "@") (property : declaration.isProperty = true)
include mark property

/-- A variable that is settled at its end is read from the joined text as from its own. -/
theorem reads_join (nested : Extent.isNested [] first.words = true)
    (settled : declaration.Settled first)
    (read : Reads Declaration.read (.ofStream first 0) declaration (.ofStream first next))
    (within : next ≤ first.words.length) :
    Reads Declaration.read (.ofStream (first.join second) 0) declaration
      (.ofStream (first.join second) next) := by
  obtain ⟨rfl, ordered⟩ := TokenStream.ordered_of_scan scanned
  obtain ⟨rfl, otherOrdered⟩ := TokenStream.ordered_of_scan otherScanned
  let seam := Seam.ofJoin ordered.ending_word otherOrdered.ending_word mark
  have shows : (Inlay.ofFirst first.source second.source).Shows first seam.stream 0 :=
    Inlay.shows_ofFirst scanned
  have inPlace : Reads Declaration.read (seam.cursor 0) (declaration.moved .start)
      (seam.cursor (0 + next)) := shows.reads_moved read within
  rw [Declaration.moved_by_start, Nat.zero_add] at inPlace
  have ends : seam.Halts ∨ next < seam.place ∨
      ∀ binding ∈ declaration.bindings.getLast?, binding.IsClosed := by
    obtain closed | plain := settled
    · exact .inr (.inr closed)
    · exact .inl (Seam.halts_ofJoin scanned otherScanned nested plain)
  have carried : Reads Declaration.read (seam.twin 0) declaration (seam.twin next) :=
    reads_twin_read property ends (Nat.zero_le _) within inPlace
  exact carried

/-- A variable that is read from the joined text as from its own is settled at its end. -/
theorem settled_of_reads_join {last : Cursor} (spans : declaration.Spans first 0 behind next)
    (alone : declaration.Alone first next)
    (read : Reads Declaration.read (.ofStream (first.join second) 0) declaration last) :
    declaration.Settled first := by
  have joined := TokenStream.scan_join scanned otherScanned
  obtain ⟨-, ordered⟩ := TokenStream.ordered_of_scan joined
  obtain ⟨_, place, rfl, joinedSpans⟩ := spans_of_reads ordered (Nat.zero_le _) read
  obtain ⟨rfl, firstOrdered⟩ := TokenStream.ordered_of_scan scanned
  have within := spans.next_le
  have before := spans.index_lt
  have length_eq : (first.join second).words.length = first.words.length + second.words.length :=
    TokenStream.length_words_join
  -- The variable ends with the same word, so the readings have come to the same place.
  have token_eq : (first.join second).token (next - 1) = first.token (next - 1) :=
    TokenStream.token_join_of_lt (by omega)
  have stop_eq := joinedSpans.stop_eq.symm.trans spans.stop_eq
  rw [← token_eq] at stop_eq
  have same := ordered.eq_of_stop_eq joinedSpans.last_lt (by omega) stop_eq
  have after := joinedSpans.index_lt
  obtain rfl : place = next := by omega
  by_contra unsettled
  simp only [Settled, not_or, not_forall, Decidable.not_not] at unsettled
  obtain ⟨⟨binding, found, unclosed⟩, word, last_eq, continues⟩ := unsettled
  rw [List.getLast?_eq_getElem?, List.getElem?_eq_getElem (by omega),
    ← TokenStream.token_eq_getElem (by omega), Option.mem_some_iff] at last_eq
  obtain short | ⟨semicolon, short⟩ := alone.ends
  · obtain rfl : place = first.words.length := by omega
    obtain ⟨other, middle, otherFound, bindingRead⟩ := exists_last_binding property read
    cases otherFound.symm.trans found
    have ends := endsExpression_of_reads_readBinding unclosed bindingRead
    have plain := ends.not_continues scanned otherScanned mark (by omega)
    rw [last_eq, continues] at plain
    cases plain
  · -- A semicolon is nothing that an expression goes on with.
    rw [Token.isPunctuation, Bool.and_eq_true, beq_iff_eq, beq_iff_eq] at semicolon
    have inside : place < first.words.length := by
      apply firstOrdered.lt_length_of_kind_ne
      rw [semicolon.1]
      decide
    rw [show first.words.length - 1 = place by omega] at last_eq
    rw [← last_eq, Token.isOneOf, semicolon.2] at continues
    exact absurd continues (by decide)

end Declaration

end Seam

end PeerExpansion
