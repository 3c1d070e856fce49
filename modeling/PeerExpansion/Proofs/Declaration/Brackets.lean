import PeerExpansion.Proofs.Declaration.Clauses

/-! # Open brackets

`stillOpen` follows the brackets through tokens and knows what closes those that are open behind
them. Other counts of brackets are told from it: tokens whose brackets close the right ones have as
many open as each of the counts says.
-/

namespace PeerExpansion

namespace Token

variable {token : Token} {text : String}

theorem isPunctuation_iff :
    token.isPunctuation text = true ↔ token.kind = .punctuation ∧ token.text = text := by
  rw [isPunctuation, Bool.and_eq_true, beq_iff_eq, beq_iff_eq]

theorem reads_of_isPunctuation (mark : token.isPunctuation text = true) :
    token.reads text = true := by
  obtain ⟨kind_eq, text_eq⟩ := isPunctuation_iff.mp mark
  simp [reads, kind_eq, text_eq]

theorem isPunctuation_text (closes : token.isClosing = true) :
    token.isPunctuation token.text = true := by
  rw [isClosing, Bool.and_eq_true, beq_iff_eq] at closes
  exact isPunctuation_iff.mpr ⟨closes.1, rfl⟩

end Token

namespace Extent

variable {pending last base : List String} {token : Token} {tokens front back : List Token}

/-! ## Following brackets -/

/-- What closes the brackets that are open behind a token, the innermost first, where `pending`
closes those in front of it. A mark that closes another one than the innermost leads nowhere. -/
def track (pending : List String) (token : Token) : Option (List String) :=
  if token.isOpening then some (closing token :: pending)
  else if token.isClosing then
    if pending.head? = some token.text then some pending.tail else none
  else some pending

/-- What closes the brackets that are open behind the tokens. -/
def stillOpen (pending : List String) (tokens : List Token) : Option (List String) :=
  tokens.foldlM track pending

/-- A token that is no bracket. -/
def isBare (token : Token) : Bool :=
  !token.isOpening && !token.isClosing

theorem isBare_iff :
    isBare token = true ↔ token.isOpening = false ∧ token.isClosing = false := by
  simp [isBare]

/-- The texts of brackets. -/
def marks : List String :=
  ["(", "[", Token.openBrace, ")", "]", Token.closeBrace]

theorem isBare_of_not_mem (other : token.text ∉ marks) : isBare token = true := by
  simp only [marks, List.mem_cons, List.not_mem_nil, or_false, not_or] at other
  simp [isBare, Token.isOpening, Token.isClosing, Token.isOneOf, other]

theorem isBare_of_reads {text : String} (reads : token.reads text = true) (other : text ∉ marks) :
    isBare token = true := by
  rw [Token.reads, Bool.and_eq_true, beq_iff_eq] at reads
  exact isBare_of_not_mem (reads.2 ▸ other)

theorem isBare_of_isIdentifier (identifier : token.isIdentifier = true) : isBare token = true := by
  rw [Token.isIdentifier, beq_iff_eq] at identifier
  simp [isBare, Token.isOpening, Token.isClosing, identifier]

theorem isOpening_of_isPunctuation {text : String} (mark : token.isPunctuation text = true)
    (opens : text ∈ ["(", "[", Token.openBrace]) : token.isOpening = true := by
  obtain ⟨kind_eq, text_eq⟩ := Token.isPunctuation_iff.mp mark
  rw [Token.isOpening, Token.isOneOf, kind_eq, text_eq, List.contains_iff_mem.mpr opens]
  rfl

theorem isClosing_of_isPunctuation {text : String} (mark : token.isPunctuation text = true)
    (closes : text ∈ [")", "]", Token.closeBrace]) : token.isClosing = true := by
  obtain ⟨kind_eq, text_eq⟩ := Token.isPunctuation_iff.mp mark
  rw [Token.isClosing, Token.isOneOf, kind_eq, text_eq, List.contains_iff_mem.mpr closes]
  rfl

theorem track_of_isBare (bare : isBare token = true) : track pending token = some pending := by
  simp [track, isBare_iff.mp bare]

theorem track_of_isOpening (opens : token.isOpening = true) :
    track pending token = some (closing token :: pending) :=
  if_pos opens

theorem track_of_isClosing (closes : token.isClosing = true) :
    track pending token = some last ↔ pending = token.text :: last := by
  rw [track, not_isOpening_of_isClosing closes, if_neg Bool.false_ne_true, if_pos closes]
  cases pending with
  | nil => simp
  | cons expected further => simp

/-- A token opens a bracket, closes the innermost one, or is no bracket. -/
theorem track_cases (tracked : track pending token = some last) :
    (token.isOpening = true ∧ last = closing token :: pending) ∨
      (token.isClosing = true ∧ pending = token.text :: last) ∨
      (isBare token = true ∧ last = pending) := by
  by_cases opens : token.isOpening = true
  · rw [track_of_isOpening opens] at tracked
    exact .inl ⟨opens, (Option.some.inj tracked).symm⟩
  · by_cases closes : token.isClosing = true
    · exact .inr (.inl ⟨closes, (track_of_isClosing closes).mp tracked⟩)
    · have bare := isBare_iff.mpr ⟨Bool.eq_false_iff.mpr opens, Bool.eq_false_iff.mpr closes⟩
      rw [track_of_isBare bare] at tracked
      exact .inr (.inr ⟨bare, (Option.some.inj tracked).symm⟩)

@[simp]
theorem stillOpen_nil (pending : List String) : stillOpen pending [] = some pending := rfl

theorem stillOpen_cons : stillOpen pending (token :: tokens) = some last ↔
    ∃ middle, track pending token = some middle ∧ stillOpen middle tokens = some last := by
  rw [stillOpen, List.foldlM_cons]
  exact Option.bind_eq_some_iff

theorem stillOpen_append : stillOpen pending (front ++ back) = some last ↔
    ∃ middle, stillOpen pending front = some middle ∧ stillOpen middle back = some last := by
  rw [stillOpen, List.foldlM_append]
  exact Option.bind_eq_some_iff

theorem stillOpen_of_bare (bare : ∀ token ∈ tokens, isBare token = true) :
    stillOpen pending tokens = some pending := by
  induction tokens with
  | nil => rfl
  | cons token tokens inductionHypothesis =>
    obtain ⟨first, later⟩ := List.forall_mem_cons.mp bare
    exact stillOpen_cons.mpr ⟨pending, track_of_isBare first, inductionHypothesis later⟩

/-- Brackets further out do not matter for those that are opened and closed inside them. -/
theorem stillOpen_append_right (runs : stillOpen pending tokens = some last) :
    stillOpen (pending ++ base) tokens = some (last ++ base) := by
  induction tokens generalizing pending with
  | nil =>
    cases runs
    rfl
  | cons token tokens inductionHypothesis =>
    obtain ⟨middle, tracked, later⟩ := stillOpen_cons.mp runs
    refine stillOpen_cons.mpr ⟨middle ++ base, ?_, inductionHypothesis later⟩
    obtain ⟨opens, rfl⟩ | ⟨closes, rfl⟩ | ⟨bare, rfl⟩ := track_cases tracked
    · exact track_of_isOpening opens
    · exact (track_of_isClosing closes).mpr rfl
    · exact track_of_isBare bare

theorem isNested_iff : isNested pending tokens = true ↔ stillOpen pending tokens = some [] := by
  induction tokens generalizing pending with
  | nil => simp [isNested]
  | cons token tokens inductionHypothesis =>
    rw [isNested, stillOpen_cons]
    by_cases opens : token.isOpening = true
    · simp [opens, track_of_isOpening opens, inductionHypothesis]
    · rw [if_neg opens]
      by_cases closes : token.isClosing = true
      · cases pending <;> simp [closes, track_of_isClosing closes, inductionHypothesis]
      · have bare := isBare_iff.mpr ⟨Bool.eq_false_iff.mpr opens, Bool.eq_false_iff.mpr closes⟩
        simp [closes, track_of_isBare bare, inductionHypothesis]

/-- Nested brackets leave those around them as they are. -/
theorem stillOpen_of_isNested (nested : isNested [] tokens = true) (pending : List String) :
    stillOpen pending tokens = some pending :=
  stillOpen_append_right (isNested_iff.mp nested)

/-! ## The count of all brackets -/

theorem depthBehind_of_track (tracked : track pending token = some last) :
    depthBehind pending.length token = last.length := by
  obtain ⟨opens, rfl⟩ | ⟨closes, rfl⟩ | ⟨bare, rfl⟩ := track_cases tracked
  · rw [depthBehind, if_pos opens, List.length_cons]
  · rw [depthBehind_of_isClosing closes, List.length_cons, Nat.add_sub_cancel]
  · simp [depthBehind, isBare_iff.mp bare]

/-- A count of the open brackets that follows them past each token follows them past all tokens. -/
theorem foldl_of_stillOpen {Count : Type} {follow : Count → Token → Count}
    {count : List String → Count}
    (follows : ∀ {pending token last}, track pending token = some last →
      follow (count pending) token = count last)
    (runs : stillOpen pending tokens = some last) :
    tokens.foldl follow (count pending) = count last := by
  induction tokens generalizing pending with
  | nil =>
    cases runs
    rfl
  | cons token tokens inductionHypothesis =>
    obtain ⟨middle, tracked, later⟩ := stillOpen_cons.mp runs
    rw [List.foldl_cons, follows tracked, inductionHypothesis later]

theorem foldl_depthBehind_of_stillOpen (runs : stillOpen pending tokens = some last) :
    tokens.foldl depthBehind pending.length = last.length :=
  foldl_of_stillOpen depthBehind_of_track runs

/-! ## Braces -/

/-- Tokens with as many opening braces as closing ones, each of which closes one in front of it. The
other brackets do not count. -/
inductive Braced : List Token → Prop
  | nil : Braced []
  | word {token : Token} {others : List Token} : token.isPunctuation Token.openBrace = false →
      token.isPunctuation Token.closeBrace = false → Braced others → Braced (token :: others)
  | block {opening closer : Token} {inner others : List Token} :
      opening.isPunctuation Token.openBrace = true → Braced inner →
        closer.isPunctuation Token.closeBrace = true → Braced others →
          Braced (opening :: (inner ++ closer :: others))

theorem closing_ne_closeBrace (opens : token.isOpening = true)
    (plain : token.isPunctuation Token.openBrace = false) :
    closing token ≠ Token.closeBrace := by
  rw [Token.isOpening, Bool.and_eq_true] at opens
  rw [Token.isPunctuation, opens.1, Bool.true_and, beq_eq_false_iff_ne] at plain
  have known : token.text = "(" ∨ token.text = "[" := by
    simpa [Token.isOneOf, plain] using opens.2
  obtain same | same := known <;> simp [closing, same, Token.closeBrace]

theorem isClosing_of_closeBrace (closes : token.isPunctuation Token.closeBrace = true) :
    token.isClosing = true ∧ token.text = Token.closeBrace :=
  ⟨isClosing_of_isPunctuation closes (by decide), (Token.isPunctuation_iff.mp closes).2⟩

theorem isOpening_of_openBrace (opens : token.isPunctuation Token.openBrace = true) :
    token.isOpening = true ∧ closing token = Token.closeBrace := by
  refine ⟨isOpening_of_isPunctuation opens (by decide), ?_⟩
  simp [closing, (Token.isPunctuation_iff.mp opens).2, Token.openBrace]

theorem not_openBrace_of_closeBrace (closes : token.isPunctuation Token.closeBrace = true) :
    token.isPunctuation Token.openBrace = false := by
  rw [Token.isPunctuation_iff] at closes
  simp [Token.isPunctuation, closes, Token.openBrace, Token.closeBrace]

theorem blockLength?_of_openBrace (opens : token.isPunctuation Token.openBrace = true)
    (depth : Nat) : blockLength? depth (token :: tokens) =
      (blockLength? (depth + 1) tokens).map (· + 1) :=
  if_pos opens

theorem blockLength?_of_closeBrace (closes : token.isPunctuation Token.closeBrace = true)
    (depth : Nat) : blockLength? (depth + 1) (token :: tokens) =
      (blockLength? depth tokens).map (· + 1) := by
  rw [blockLength?, not_openBrace_of_closeBrace closes, if_neg Bool.false_ne_true, if_pos closes]

theorem blockLength?_of_last (closes : token.isPunctuation Token.closeBrace = true) :
    blockLength? 0 (token :: tokens) = some 1 := by
  rw [blockLength?, not_openBrace_of_closeBrace closes, if_neg Bool.false_ne_true, if_pos closes]

theorem blockLength?_of_other (opens : token.isPunctuation Token.openBrace = false)
    (closes : token.isPunctuation Token.closeBrace = false) (depth : Nat) :
    blockLength? depth (token :: tokens) = (blockLength? depth tokens).map (· + 1) := by
  rw [Declaration.blockLength?_cons, opens, closes, if_neg Bool.false_ne_true,
    if_neg Bool.false_ne_true]

/-- Braced tokens are passed at the depth at which they begin. -/
theorem Braced.blockLength?_append (braced : Braced front) (depth : Nat) (back : List Token) :
    blockLength? depth (front ++ back) = (blockLength? depth back).map (front.length + ·) := by
  induction braced generalizing depth back with
  | nil => simp
  | word opens closes _ inductionHypothesis =>
    rw [List.cons_append, blockLength?_of_other opens closes, inductionHypothesis, Option.map_map]
    congr 1
    funext length
    simp only [Function.comp_apply, List.length_cons]
    omega
  | block opens _ closes _ inner others =>
    rw [List.cons_append, List.append_assoc, List.cons_append, blockLength?_of_openBrace opens,
      inner, blockLength?_of_closeBrace closes, others, Option.map_map, Option.map_map,
      Option.map_map]
    congr 1
    funext length
    simp only [Function.comp_apply, List.length_cons, List.length_append]
    omega

theorem Braced.blockLength?_eq (braced : Braced front)
    (closes : token.isPunctuation Token.closeBrace = true) (back : List Token) :
    blockLength? 0 (front ++ token :: back) = some (front.length + 1) := by
  rw [braced.blockLength?_append, blockLength?_of_last closes, Option.map_some]

/-- Up to the brace that closes the innermost block as many braces are opened as closed. -/
theorem exists_braced_of_isSome {depth : Nat} (found : (blockLength? depth tokens).isSome = true) :
    ∃ content closer others, tokens = content ++ closer :: others ∧ Braced content ∧
      closer.isPunctuation Token.closeBrace = true := by
  induction count : tokens.length using Nat.strong_induction_on generalizing tokens depth with
  | _ count inductionHypothesis =>
    subst count
    cases tokens with
    | nil => cases found
    | cons token tokens =>
      by_cases opens : token.isPunctuation Token.openBrace = true
      · -- The inner block comes to its end first, and then the one around it.
        rw [blockLength?_of_openBrace opens, Option.isSome_map] at found
        obtain ⟨inner, closer, others, rfl, braced, closes⟩ :=
          inductionHypothesis _ (Nat.lt_succ_self _) found rfl
        rw [braced.blockLength?_append, blockLength?_of_closeBrace closes, Option.isSome_map,
          Option.isSome_map] at found
        obtain ⟨content, last, rest, rfl, later, ends⟩ :=
          inductionHypothesis _ (by simp; omega) found rfl
        exact ⟨token :: (inner ++ closer :: content), last, rest, by simp,
          .block opens braced closes later, ends⟩
      · rw [Bool.not_eq_true] at opens
        by_cases closes : token.isPunctuation Token.closeBrace = true
        · exact ⟨[], token, tokens, rfl, .nil, closes⟩
        · rw [Bool.not_eq_true] at closes
          rw [blockLength?_of_other opens closes, Option.isSome_map] at found
          obtain ⟨content, closer, others, rfl, braced, ends⟩ :=
            inductionHypothesis _ (Nat.lt_succ_self _) found rfl
          exact ⟨token :: content, closer, others, rfl, .word opens closes braced, ends⟩

/-- A brace to close a block with. -/
def lastBrace : Token :=
  ⟨.punctuation, Token.closeBrace, .start⟩

theorem braced_iff :
    Braced tokens ↔ blockLength? 0 (tokens ++ [lastBrace]) = some (tokens.length + 1) := by
  constructor
  · exact fun braced => braced.blockLength?_eq (by decide) []
  · intro found
    -- What is closed first takes all of the tokens, so the brace that closes it is the one added.
    obtain ⟨content, closer, others, split, braced, closes⟩ :=
      exists_braced_of_isSome (Option.isSome_of_eq_some found)
    rw [split, braced.blockLength?_eq closes, Option.some.injEq, Nat.add_right_cancel_iff] at found
    rwa [← (List.append_inj split found.symm).1] at braced

instance (tokens : List Token) : Decidable (Braced tokens) :=
  decidable_of_iff _ braced_iff.symm

end Extent

open Reading in
/-- A block is read from its brace to the one that closes it. -/
theorem Declaration.reads_readBlock_ofStream {stream : TokenStream} {place : Nat}
    {last : Cursor} :
    (∃ text, Reads readBlock (.ofStream stream place) text last) ↔
      (stream.token place).reads Token.openBrace = true ∧
        ∃ length, Extent.blockLength? 0 (stream.words.drop (place + 1)) = some length ∧
          last = .ofStream stream (place + 1 + length) := by
  have behind_eq :
      (Cursor.ofStream stream (place + 1)).behind = stream.words.drop (place + 1) := rfl
  simp only [readBlock, reads_bind, reads_expect, reads_get, and_assoc, exists_and_left,
    exists_eq_left, Cursor.skip_ofStream, Cursor.current_ofStream, behind_eq]
  cases Extent.blockLength? 0 (stream.words.drop (place + 1)) with
  | none => simp
  | some length => simp

end PeerExpansion
