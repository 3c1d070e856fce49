import PeerExpansion.Proofs.Declaration.Brackets

/-! # Stretches that are passed over

Arguments of attributes, blocks and initializers are not understood: their ends are found from a
count of brackets, each from one of its own. `Framed` says of tokens that all their other brackets
are nested. Then the brackets of the tokens are nested if those of every such stretch are, and only
then.
-/

namespace PeerExpansion

namespace Extent

variable {pending last middle base : List String} {mark : String} {token closer : Token}
  {tokens front back stretch others : List Token} {stretches further : List (List Token)}

/-! ## Brackets inside others -/

/-- Followed from inside a bracket, tokens stay inside it or come to a mark that closes it. -/
theorem stillOpen_inside (runs : stillOpen (pending ++ mark :: base) tokens = some last) :
    (∃ inner, stillOpen pending tokens = some inner ∧ last = inner ++ mark :: base) ∨
      ∃ front token back, tokens = front ++ token :: back ∧ stillOpen pending front = some [] ∧
        token.isClosing = true ∧ token.text = mark := by
  induction tokens generalizing pending with
  | nil =>
    cases runs
    exact .inl ⟨pending, rfl, rfl⟩
  | cons token tokens inductionHypothesis =>
    obtain ⟨middle, tracked, later⟩ := stillOpen_cons.mp runs
    -- A token that stays inside leaves the two cases as they are for the tokens behind it.
    have goes {inner : List String} (known : track pending token = some inner)
        (same : middle = inner ++ mark :: base) :
        (∃ inner, stillOpen pending (token :: tokens) = some inner ∧
          last = inner ++ mark :: base) ∨
        ∃ front closer back, token :: tokens = front ++ closer :: back ∧
          stillOpen pending front = some [] ∧ closer.isClosing = true ∧ closer.text = mark := by
      obtain ⟨found, inside, rfl⟩ | ⟨front, closer, back, rfl, inside, closes⟩ :=
        inductionHypothesis (same ▸ later)
      · exact .inl ⟨found, stillOpen_cons.mpr ⟨inner, known, inside⟩, rfl⟩
      · exact .inr ⟨token :: front, closer, back, rfl,
          stillOpen_cons.mpr ⟨inner, known, inside⟩, closes⟩
    obtain ⟨opens, rfl⟩ | ⟨closes, same⟩ | ⟨bare, rfl⟩ := track_cases tracked
    · exact goes (track_of_isOpening opens) rfl
    · cases pending with
      | nil =>
        obtain ⟨rfl, rfl⟩ := List.cons.inj same
        exact .inr ⟨[], token, tokens, rfl, rfl, closes, rfl⟩
      | cons expected pending =>
        obtain ⟨rfl, rfl⟩ := List.cons.inj same
        exact goes ((track_of_isClosing closes).mpr rfl) rfl
    · exact goes (track_of_isBare bare) rfl

/-! ## Arguments -/

/-- How many more brackets are open than closed behind a token. -/
def tally (depth : Int) (token : Token) : Int :=
  depth + Attribute.nesting token

/-- Tokens that an argument may have: as many brackets are opened as closed, of whatever kind, and
where that is so there is no mark that ends the argument. -/
structure IsArgument (tokens : List Token) : Prop where
  closed : tokens.foldl tally 0 = 0
  goes : ∀ front token back, tokens = front ++ token :: back → front.foldl tally 0 = 0 →
    token.isPunctuation "," = false ∧ token.isPunctuation ")" = false

theorem argument_of_argumentLength? {depth : Int} {length : Nat}
    (found : Attribute.argumentLength? depth tokens = some length) :
    (tokens.take length).foldl tally depth = 0 ∧
      ∀ front token back, tokens.take length = front ++ token :: back →
        front.foldl tally depth = 0 →
          token.isPunctuation "," = false ∧ token.isPunctuation ")" = false := by
  induction tokens generalizing depth length with
  | nil => cases found
  | cons token tokens inductionHypothesis =>
    rw [Attribute.argumentLength?] at found
    split at found
    next stops =>
      cases found
      rw [Bool.and_eq_true, decide_eq_true_eq] at stops
      exact ⟨stops.1, fun front other back split => by simp at split⟩
    next goes =>
      obtain ⟨shorter, later, rfl⟩ := Option.map_eq_some_iff.mp found
      obtain ⟨closed, rest⟩ := inductionHypothesis later
      rw [List.take_succ_cons, List.foldl_cons]
      refine ⟨closed, fun front other back split none => ?_⟩
      -- At depth zero a mark would have ended the argument, and it goes on behind the first token.
      cases front with
      | nil =>
        obtain ⟨rfl, -⟩ := List.cons.inj split
        rw [List.foldl_nil] at none
        simpa [none] using goes
      | cons first front =>
        obtain ⟨rfl, later_eq⟩ := List.cons.inj split
        exact rest front other back later_eq none

theorem isArgument_of_argumentLength? {length : Nat}
    (found : Attribute.argumentLength? 0 tokens = some length) :
    IsArgument (tokens.take length) := by
  obtain ⟨closed, goes⟩ := argument_of_argumentLength? found
  exact ⟨closed, goes⟩

theorem tally_of_track (tracked : track pending token = some last) :
    tally pending.length token = last.length := by
  obtain ⟨opens, rfl⟩ | ⟨closes, rfl⟩ | ⟨bare, rfl⟩ := track_cases tracked
  · simp [tally, Attribute.nesting, opens]
  · rw [tally, Attribute.nesting, not_isOpening_of_isClosing closes, if_neg Bool.false_ne_true,
      if_pos closes, List.length_cons]
    omega
  · simp [tally, Attribute.nesting, isBare_iff.mp bare]

theorem foldl_tally_of_stillOpen (runs : stillOpen pending tokens = some last) :
    tokens.foldl tally pending.length = last.length :=
  @foldl_of_stillOpen _ _ _ _ _ (fun pending => (pending.length : Int)) tally_of_track runs

theorem IsArgument.stillOpen_iff (argument : IsArgument tokens) :
    stillOpen (")" :: base) tokens = some last ↔
      isNested [] tokens = true ∧ last = ")" :: base := by
  constructor
  · intro runs
    have around : stillOpen ([] ++ ")" :: base) tokens = some last := runs
    obtain ⟨inner, inside, rfl⟩ | ⟨front, token, back, split, inside, closes, text_eq⟩ :=
      stillOpen_inside around
    · have count : tokens.foldl tally 0 = inner.length := foldl_tally_of_stillOpen inside
      rw [argument.closed] at count
      obtain rfl : inner = [] := List.length_eq_zero_iff.mp (by omega)
      exact ⟨isNested_iff.mpr inside, rfl⟩
    · -- The argument would have ended at the parenthesis.
      have count : front.foldl tally 0 = 0 := foldl_tally_of_stillOpen inside
      have plain := (argument.goes front token back split count).2
      rw [← text_eq, Token.isPunctuation_text closes] at plain
      cases plain
  · rintro ⟨nested, rfl⟩
    exact stillOpen_of_isNested nested _

/-! ## Attributes -/

/-- What may stand in front of an argument: a name and a colon, or nothing. -/
inductive IsLabel : List Token → Prop
  | none : IsLabel []
  | name {word colon : Token} : word.isIdentifier = true → colon.isPunctuation ":" = true →
      IsLabel [word, colon]

/-- Arguments with commas between them, each behind its label. -/
inductive Arguments : List Token → List (List Token) → Prop
  | last {label stretch : List Token} : IsLabel label → IsArgument stretch →
      Arguments (label ++ stretch) [stretch]
  | more {label stretch others : List Token} {comma : Token} {stretches : List (List Token)} :
      IsLabel label → IsArgument stretch → comma.isPunctuation "," = true →
        Arguments others stretches →
          Arguments (label ++ (stretch ++ comma :: others)) (stretch :: stretches)

/-- The names behind the first one of a dotted name, each behind its point. -/
inductive Members : List Token → Prop
  | nil : Members []
  | cons {point word : Token} {others : List Token} : point.reads "." = true →
      word.isIdentifier = true → Members others → Members (point :: word :: others)

/-- The tokens of an attribute: its mark, its name and perhaps its arguments in parentheses. -/
inductive IsAttribute : List Token → List (List Token) → Prop
  | plain {mark word : Token} {members : List Token} : mark.reads "@" = true →
      word.isIdentifier = true → Members members → IsAttribute (mark :: word :: members) []
  | clause {mark word opening closer : Token} {members content : List Token}
      {stretches : List (List Token)} : mark.reads "@" = true → word.isIdentifier = true →
        Members members → opening.isPunctuation "(" = true → Arguments content stretches →
          closer.isPunctuation ")" = true →
            IsAttribute (mark :: word :: (members ++ opening :: (content ++ [closer]))) stretches

/-- Without tokens there is one argument that has none. -/
theorem Arguments.empty : Arguments [] [[]] :=
  .last .none ⟨rfl, fun front _ _ split => by simp at split⟩

theorem isBare_of_isPunctuation {text : String} (mark : token.isPunctuation text = true)
    (other : text ∉ marks) : isBare token = true :=
  isBare_of_reads (Token.reads_of_isPunctuation mark) other

theorem IsLabel.isBare (label : IsLabel tokens) : ∀ token ∈ tokens, isBare token = true := by
  cases label with
  | none => exact List.forall_mem_nil _
  | name word colon =>
    refine List.forall_mem_cons.mpr ⟨isBare_of_isIdentifier word, ?_⟩
    exact List.forall_mem_singleton.mpr (isBare_of_isPunctuation colon (by decide))

theorem Members.isBare (members : Members tokens) : ∀ token ∈ tokens, isBare token = true := by
  induction members with
  | nil => exact List.forall_mem_nil _
  | cons point word _ inductionHypothesis =>
    refine List.forall_mem_cons.mpr ⟨isBare_of_reads point (by decide), ?_⟩
    exact List.forall_mem_cons.mpr ⟨isBare_of_isIdentifier word, inductionHypothesis⟩

theorem Arguments.stillOpen_iff (arguments : Arguments tokens stretches) :
    stillOpen (")" :: base) tokens = some last ↔
      (∀ stretch ∈ stretches, isNested [] stretch = true) ∧ last = ")" :: base := by
  induction arguments with
  | last label argument =>
    simp only [stillOpen_append, stillOpen_of_bare label.isBare, Option.some.injEq,
      exists_eq_left', argument.stillOpen_iff, List.forall_mem_singleton]
  | more label argument comma _ inductionHypothesis =>
    have bare := isBare_of_isPunctuation comma (by decide)
    simp only [stillOpen_append, stillOpen_of_bare label.isBare, Option.some.injEq,
      exists_eq_left', argument.stillOpen_iff, stillOpen_cons, track_of_isBare bare, and_assoc,
      exists_and_left, exists_eq_left, inductionHypothesis, List.forall_mem_cons]

theorem IsAttribute.stillOpen_iff (attr : IsAttribute tokens stretches) :
    stillOpen pending tokens = some last ↔
      (∀ stretch ∈ stretches, isNested [] stretch = true) ∧ last = pending := by
  have head {mark word : Token} {others : List Token} (reads : mark.reads "@" = true)
      (identifier : word.isIdentifier = true) :
      stillOpen pending (mark :: word :: others) = some last ↔
        stillOpen pending others = some last := by
    simp only [stillOpen_cons, track_of_isBare (isBare_of_reads reads (by decide)),
      track_of_isBare (isBare_of_isIdentifier identifier), Option.some.injEq, exists_eq_left']
  -- Only the clause of an attribute has brackets.
  cases attr with
  | plain mark word members =>
    rw [head mark word, stillOpen_of_bare members.isBare, Option.some.injEq,
      and_iff_right (List.forall_mem_nil _)]
    exact eq_comm
  | @clause _ _ opening closer _ _ _ mark word members opens arguments closes =>
    have opening_opens := isOpening_of_isPunctuation opens (by decide)
    have closer_closes := isClosing_of_isPunctuation closes (by decide)
    have closing_eq : closing opening = ")" := by
      simp [closing, (Token.isPunctuation_iff.mp opens).2]
    simp only [head mark word, stillOpen_append, stillOpen_of_bare members.isBare,
      Option.some.injEq, exists_eq_left', stillOpen_cons, track_of_isOpening opening_opens,
      closing_eq, arguments.stillOpen_iff, track_of_isClosing closer_closes,
      (Token.isPunctuation_iff.mp closes).2, stillOpen_nil, and_assoc, exists_and_left,
      exists_eq_left, List.cons.injEq, true_and]
    exact and_congr_right fun _ => eq_comm

/-! ## Blocks -/

theorem blockLength?_of_track (tracked : track pending token = some last) :
    blockLength? (pending.count Token.closeBrace) (token :: tokens) =
      (blockLength? (last.count Token.closeBrace) tokens).map (· + 1) := by
  by_cases opens : token.isPunctuation Token.openBrace = true
  · obtain ⟨opening, closing_eq⟩ := isOpening_of_openBrace opens
    rw [track_of_isOpening opening, closing_eq] at tracked
    cases tracked
    rw [blockLength?_of_openBrace opens, List.count_cons_self]
  · rw [Bool.not_eq_true] at opens
    by_cases closes : token.isPunctuation Token.closeBrace = true
    · obtain ⟨closer, text_eq⟩ := isClosing_of_closeBrace closes
      rw [track_of_isClosing closer, text_eq] at tracked
      subst tracked
      rw [List.count_cons_self, blockLength?_of_closeBrace closes]
    · rw [Bool.not_eq_true] at closes
      rw [blockLength?_of_other opens closes]
      -- Another bracket is none of those that are counted.
      have same : last.count Token.closeBrace = pending.count Token.closeBrace := by
        obtain ⟨opening, rfl⟩ | ⟨closer, rfl⟩ | ⟨-, rfl⟩ := track_cases tracked
        · exact List.count_cons_of_ne (closing_ne_closeBrace opening opens)
        · have other : token.text ≠ Token.closeBrace := by
            rintro same
            rw [← same, Token.isPunctuation_text closer] at closes
            cases closes
          exact (List.count_cons_of_ne other).symm
        · rfl
      rw [same]

/-- Where a brace is closed it is the one that is counted. -/
theorem blockLength?_of_stillOpen (runs : stillOpen pending tokens = some last)
    (back : List Token) : blockLength? (pending.count Token.closeBrace) (tokens ++ back) =
      (blockLength? (last.count Token.closeBrace) back).map (tokens.length + ·) := by
  induction tokens generalizing pending with
  | nil =>
    cases runs
    simp
  | cons token tokens inductionHypothesis =>
    obtain ⟨middle, tracked, later⟩ := stillOpen_cons.mp runs
    rw [List.cons_append, blockLength?_of_track tracked, inductionHypothesis later, Option.map_map]
    congr 1
    funext length
    simp only [Function.comp_apply, List.length_cons]
    omega

/-- Up to the brace that closes the block, its brackets are followed as on their own. -/
theorem Braced.stillOpen_iff (braced : Braced tokens)
    (closes : closer.isPunctuation Token.closeBrace = true) :
    stillOpen (Token.closeBrace :: base) (tokens ++ closer :: others) = some last ↔
      isNested [] tokens = true ∧ stillOpen base others = some last := by
  obtain ⟨closer_closes, text_eq⟩ := isClosing_of_closeBrace closes
  have whole := braced.blockLength?_eq closes []
  constructor
  · intro runs
    obtain ⟨middle, around, later⟩ := stillOpen_append.mp runs
    have around : stillOpen ([] ++ Token.closeBrace :: base) tokens = some middle := around
    obtain ⟨rest, tracked, later⟩ := stillOpen_cons.mp later
    rw [track_of_isClosing closer_closes, text_eq] at tracked
    obtain ⟨inner, inside, same⟩ | ⟨front, token, back, rfl, inside, other, other_eq⟩ :=
      stillOpen_inside around
    · -- A brace still open would be the one that is closed.
      have found := blockLength?_of_stillOpen inside [closer]
      rw [List.count_nil, whole] at found
      cases inner with
      | nil =>
        rw [List.nil_append, tracked] at same
        obtain ⟨-, rfl⟩ := List.cons.inj same
        exact ⟨isNested_iff.mpr inside, later⟩
      | cons mark inner =>
        rw [tracked, List.cons_append] at same
        obtain ⟨rfl, -⟩ := List.cons.inj same
        rw [List.count_cons_self, blockLength?_of_closeBrace closes] at found
        cases found
    · -- The block would have ended at the other brace.
      have found := blockLength?_of_stillOpen inside (token :: (back ++ [closer]))
      have braces := Token.isPunctuation_text other
      rw [other_eq] at braces
      rw [List.count_nil, blockLength?_of_last braces, Option.map_some] at found
      rw [List.append_assoc, List.cons_append, found] at whole
      simp at whole
  · rintro ⟨nested, later⟩
    refine stillOpen_append.mpr ⟨_, stillOpen_of_isNested nested _, ?_⟩
    refine stillOpen_cons.mpr ⟨base, ?_, later⟩
    rw [track_of_isClosing closer_closes, text_eq]

/-! ## Initializers -/

/-- Tokens that an initializer may have in front of another token: as many brackets are opened as
closed, of whatever kind, and where that is so there is no mark that ends an expression. -/
structure IsInitializer (tokens : List Token) : Prop where
  closed : tokens.foldl depthBehind 0 = 0
  goes : ∀ token ∈ outside 0 tokens, endsExpression token = false

theorem IsInitializer.stillOpen_iff (initializer : IsInitializer tokens) :
    stillOpen [] tokens = some last ↔ isNested [] tokens = true ∧ last = [] := by
  rw [isNested_iff]
  constructor
  · intro runs
    have depth_eq := foldl_depthBehind_of_stillOpen runs
    obtain rfl : last = [] :=
      List.length_eq_zero_iff.mp (depth_eq.symm.trans initializer.closed)
    exact ⟨runs, rfl⟩
  · rintro ⟨runs, rfl⟩
    exact runs

/-! ## Stretches among nested brackets -/

/-- From in front of the tokens, where `pending` closes the open brackets, to behind them, where
`last` does, every bracket is closed by its own mark. Nothing is said of the brackets in the
stretches: the arguments of attributes, the blocks and the initializers. -/
inductive Framed : List String → List Token → List (List Token) → List String → Prop
  | nil {pending : List String} : Framed pending [] [] pending
  | bare {pending last : List String} {token : Token} {others : List Token}
      {stretches : List (List Token)} : isBare token = true →
        Framed pending others stretches last → Framed pending (token :: others) stretches last
  | opens {pending last : List String} {opening : Token} {others : List Token}
      {stretches : List (List Token)} : opening.isOpening = true →
        Framed (closing opening :: pending) others stretches last →
          Framed pending (opening :: others) stretches last
  | closes {pending last : List String} {closer : Token} {others : List Token}
      {stretches : List (List Token)} : closer.isClosing = true →
        Framed pending others stretches last →
          Framed (closer.text :: pending) (closer :: others) stretches last
  | attr {pending last : List String} {front others : List Token}
      {arguments stretches : List (List Token)} : IsAttribute front arguments →
        Framed pending others stretches last →
          Framed pending (front ++ others) (arguments ++ stretches) last
  | block {pending last : List String} {opening closer : Token} {stretch others : List Token}
      {stretches : List (List Token)} : opening.isPunctuation Token.openBrace = true →
        Braced stretch → closer.isPunctuation Token.closeBrace = true →
          Framed pending others stretches last →
            Framed pending (opening :: (stretch ++ closer :: others)) (stretch :: stretches) last
  | initializer {last : List String} {equals : Token} {stretch others : List Token}
      {stretches : List (List Token)} : equals.reads "=" = true → IsInitializer stretch →
        Framed [] others stretches last →
          Framed [] (equals :: (stretch ++ others)) (stretch :: stretches) last

namespace Framed

theorem append (framed : Framed pending front stretches middle)
    (later : Framed middle back further last) :
    Framed pending (front ++ back) (stretches ++ further) last := by
  induction framed with
  | nil => exact later
  | bare bare _ inductionHypothesis => exact .bare bare (inductionHypothesis later)
  | opens opens _ inductionHypothesis => exact .opens opens (inductionHypothesis later)
  | closes closes _ inductionHypothesis => exact .closes closes (inductionHypothesis later)
  | attr attr _ inductionHypothesis =>
    rw [List.append_assoc, List.append_assoc]
    exact .attr attr (inductionHypothesis later)
  | block opens braced closes _ inductionHypothesis =>
    rw [List.cons_append, List.append_assoc]
    exact .block opens braced closes (inductionHypothesis later)
  | initializer equals initializer _ inductionHypothesis =>
    rw [List.cons_append, List.append_assoc]
    exact .initializer equals initializer (inductionHypothesis later)

theorem of_bare (bare : ∀ token ∈ tokens, isBare token = true) :
    Framed pending tokens [] pending := by
  induction tokens with
  | nil => exact .nil
  | cons token tokens inductionHypothesis =>
    obtain ⟨first, later⟩ := List.forall_mem_cons.mp bare
    exact .bare first (inductionHypothesis later)

theorem of_attribute (attr : IsAttribute tokens stretches) :
    Framed pending tokens stretches pending := by
  simpa using Framed.attr attr (@Framed.nil pending)

/-- The brackets can be followed through the tokens if they are nested in every stretch. -/
theorem stillOpen_iff (framed : Framed pending tokens stretches last) {other : List String} :
    stillOpen pending tokens = some other ↔
      (∀ stretch ∈ stretches, isNested [] stretch = true) ∧ other = last := by
  -- A bracket of the frame is followed to where the frame says, and a stretch on its own.
  induction framed with
  | nil =>
    rw [stillOpen_nil, Option.some.injEq, and_iff_right (List.forall_mem_nil _)]
    exact eq_comm
  | bare bare _ inductionHypothesis =>
    rw [stillOpen_cons]
    simp [track_of_isBare bare, inductionHypothesis]
  | opens opens _ inductionHypothesis =>
    rw [stillOpen_cons]
    simp [track_of_isOpening opens, inductionHypothesis]
  | closes closes _ inductionHypothesis =>
    rw [stillOpen_cons]
    simp [track_of_isClosing closes, inductionHypothesis]
  | attr attr _ inductionHypothesis =>
    simp only [stillOpen_append, attr.stillOpen_iff, and_assoc, exists_and_left,
      exists_eq_left, inductionHypothesis, List.forall_mem_append]
  | block opens braced closes _ inductionHypothesis =>
    obtain ⟨opening, closing_eq⟩ := isOpening_of_openBrace opens
    simp only [stillOpen_cons, track_of_isOpening opening, closing_eq, Option.some.injEq,
      exists_eq_left', braced.stillOpen_iff closes, inductionHypothesis, List.forall_mem_cons,
      and_assoc]
  | initializer equals initializer _ inductionHypothesis =>
    have bare : isBare _ = true := isBare_of_reads equals (by decide)
    simp only [stillOpen_cons, track_of_isBare bare, Option.some.injEq, exists_eq_left',
      stillOpen_append, initializer.stillOpen_iff, and_assoc, exists_and_left, exists_eq_left,
      inductionHypothesis, List.forall_mem_cons]

end Framed

end Extent

end PeerExpansion
