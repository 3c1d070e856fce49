import PeerExpansion.Proofs.Attribute.Row
import PeerExpansion.Proofs.Declaration.Stretches

/-! # Arguments

An argument clause whose brackets are properly nested is read up to the parenthesis that closes it.
Its commas outside brackets divide it into segments, and each of them is an argument, if there is
anything in the clause at all.
-/

namespace PeerExpansion

namespace Extent

variable {pending last : List String} {token stop : Token} {tokens more : List Token}

/-- No comma among the tokens that are met outside brackets, where `depth` of them are open. -/
def Commaless (depth : Nat) (tokens : List Token) : Prop :=
  ∀ token ∈ outside depth tokens, token.isPunctuation "," = false

/-- The number of commas outside brackets. -/
def commas (tokens : List Token) : Nat :=
  (outside 0 tokens).countP (·.isPunctuation ",")

theorem outside_sublist (depth : Nat) (tokens : List Token) :
    (outside depth tokens).Sublist tokens := by
  induction tokens generalizing depth with
  | nil => exact .slnil
  | cons token tokens inductionHypothesis =>
    rw [outside]
    split
    · exact (inductionHypothesis _).cons_cons token
    · exact (inductionHypothesis _).cons token

theorem commas_le_length (tokens : List Token) : commas tokens ≤ tokens.length :=
  List.countP_le_length.trans (outside_sublist 0 tokens).length_le

theorem commas_eq_zero_iff : commas tokens = 0 ↔ Commaless 0 tokens := by
  simp [commas, Commaless, List.countP_eq_zero]

theorem Commaless.cons_iff : Commaless pending.length (token :: tokens) ↔
    (pending = [] → token.isPunctuation "," = false) ∧
      Commaless (depthBehind pending.length token) tokens := by
  cases pending with
  | nil => simp [Commaless, outside]
  | cons expected further => simp [Commaless, outside]

/-- Tokens with nested brackets have no comma outside, or they can be divided at the first one. -/
theorem exists_comma (runs : stillOpen pending tokens = some []) :
    Commaless pending.length tokens ∨
      ∃ front comma back, tokens = front ++ comma :: back ∧ stillOpen pending front = some [] ∧
        Commaless pending.length front ∧ comma.isPunctuation "," = true ∧
          isNested [] back = true := by
  induction tokens generalizing pending with
  | nil => exact .inl (List.forall_mem_nil _)
  | cons token tokens inductionHypothesis =>
    obtain ⟨middle, tracked, later⟩ := stillOpen_cons.mp runs
    -- Either the first token divides, or the search goes on behind it, as deep as it leads.
    by_cases divides : pending = [] ∧ token.isPunctuation "," = true
    · obtain ⟨rfl, comma⟩ := divides
      have bare := isBare_of_reads (Token.reads_of_isPunctuation comma) (by decide)
      rw [track_of_isBare bare, Option.some.injEq] at tracked
      subst tracked
      exact .inr ⟨[], token, tokens, rfl, rfl, List.forall_mem_nil _, comma,
        isNested_iff.mpr later⟩
    · have plain : pending = [] → token.isPunctuation "," = false := fun none =>
        Bool.eq_false_iff.mpr fun comma => divides ⟨none, comma⟩
      have depth_eq := depthBehind_of_track tracked
      obtain commaless | ⟨front, comma, back, rfl, inside, commaless, isComma, nested⟩ :=
        inductionHypothesis later
      · exact .inl (Commaless.cons_iff.mpr ⟨plain, depth_eq ▸ commaless⟩)
      · exact .inr ⟨token :: front, comma, back, rfl, stillOpen_cons.mpr ⟨middle, tracked, inside⟩,
          Commaless.cons_iff.mpr ⟨plain, depth_eq ▸ commaless⟩, isComma, nested⟩

theorem commas_append_cons {front back : List Token} {comma : Token}
    (nested : isNested [] front = true) (commaless : Commaless 0 front)
    (isComma : comma.isPunctuation "," = true) :
    commas (front ++ comma :: back) = commas back + 1 := by
  have none := commas_eq_zero_iff.mpr commaless
  rw [commas] at none ⊢
  rw [outside_append, foldl_depthBehind nested, List.length_nil, Nat.sub_zero,
    outside_cons (depthBehind_of_comma isComma 0), List.countP_append, none, Nat.zero_add,
    List.countP_cons, if_pos isComma, commas]

/-- Up to a comma or a closing parenthesis an argument takes all the tokens. -/
theorem argumentLength?_of_stillOpen (runs : stillOpen pending tokens = some [])
    (commaless : Commaless pending.length tokens)
    (stops : (stop.isPunctuation "," || stop.isPunctuation ")") = true) :
    Attribute.argumentLength? pending.length (tokens ++ stop :: more) = some tokens.length := by
  induction tokens generalizing pending with
  | nil =>
    cases runs
    simp [Attribute.argumentLength?, stops]
  | cons token tokens inductionHypothesis =>
    obtain ⟨middle, tracked, later⟩ := stillOpen_cons.mp runs
    obtain ⟨plain, commaless⟩ := Commaless.cons_iff.mp commaless
    have goes : (decide ((pending.length : Int) = 0) &&
        (token.isPunctuation "," || token.isPunctuation ")")) = false := by
      cases pending with
      | nil =>
        -- A parenthesis would close a bracket, and none is open.
        have inside : token.isPunctuation ")" = false := by
          refine Bool.eq_false_iff.mpr fun closes => ?_
          cases (track_of_isClosing (isClosing_of_isPunctuation closes (by decide))).mp tracked
        simp [plain rfl, inside]
      | cons expected further =>
        have open_ne : ((expected :: further).length : Int) ≠ 0 := by
          rw [List.length_cons]
          omega
        rw [decide_eq_false open_ne, Bool.false_and]
    have nesting_eq : (pending.length : Int) + Attribute.nesting token = middle.length :=
      tally_of_track tracked
    rw [depthBehind_of_track tracked] at commaless
    rw [List.cons_append, Attribute.argumentLength?, goes, if_neg Bool.false_ne_true, nesting_eq,
      inductionHypothesis later commaless]
    rfl

end Extent

namespace Cursor

variable {cursor : Cursor} {token second : Token} {front rest : List Token}

theorem current_of_behind (behind_eq : cursor.behind = token :: rest) :
    cursor.current = token := by
  simp [current, ahead, behind_eq]

theorem ahead_one_of_behind (behind_eq : cursor.behind = token :: second :: rest) :
    cursor.ahead 1 = second := by
  simp [ahead, behind_eq]

theorem behind_skip (behind_eq : cursor.behind = front ++ rest) :
    (cursor.skip front.length).behind = rest := by
  simp [skip, behind_eq]

end Cursor

namespace Attribute

open Reading Extent

variable {cursor : Cursor} {opening closing stop : Token} {tokens more : List Token}
  {segments others : List (List Token)} {source : List Char}

/-! ## Segments -/

/-- The tokens are these segments with commas between them. The brackets in a segment are properly
nested, and it has no comma outside them. -/
inductive Divided : List Token → List (List Token) → Prop
  | single {tokens : List Token} : isNested [] tokens = true → Commaless 0 tokens →
      Divided tokens [tokens]
  | comma {front back : List Token} {comma : Token} {segments : List (List Token)} :
      isNested [] front = true → Commaless 0 front → comma.isPunctuation "," = true →
        Divided back segments → Divided (front ++ comma :: back) (front :: segments)

theorem Divided.length_eq (divided : Divided tokens segments) :
    segments.length = commas tokens + 1 := by
  induction divided with
  | single _ commaless =>
    rw [commas_eq_zero_iff.mpr commaless]
    rfl
  | comma nested commaless isComma _ inductionHypothesis =>
    rw [List.length_cons, commas_append_cons nested commaless isComma, inductionHypothesis]

/-- What stands in front of the first comma outside brackets is known by that. -/
theorem eq_of_append_comma {front back otherFront otherBack : List Token} {comma otherComma : Token}
    (same : front ++ comma :: back = otherFront ++ otherComma :: otherBack)
    (nested : isNested [] front = true) (commaless : Commaless 0 front)
    (isComma : comma.isPunctuation "," = true) (otherNested : isNested [] otherFront = true)
    (otherCommaless : Commaless 0 otherFront)
    (otherIsComma : otherComma.isPunctuation "," = true) :
    front = otherFront ∧ back = otherBack := by
  have unequal {front back : List Token} {comma : Token} (nested : isNested [] front = true)
      (commaless : Commaless 0 front) (isComma : comma.isPunctuation "," = true) :
      ¬Commaless 0 (front ++ comma :: back) := by
    rw [← commas_eq_zero_iff, commas_append_cons nested commaless isComma]
    exact Nat.succ_ne_zero _
  -- The longer front would have the comma of the shorter one in it, outside brackets.
  obtain ⟨beyond, rfl, split⟩ | ⟨beyond, rfl, split⟩ := List.append_eq_append_iff.mp same
  · cases beyond with
    | nil => exact ⟨(List.append_nil _).symm, (List.cons.inj split).2⟩
    | cons token beyond =>
      obtain ⟨rfl, -⟩ := List.cons.inj split
      exact absurd otherCommaless (unequal nested commaless isComma)
  · cases beyond with
    | nil => exact ⟨List.append_nil _, (List.cons.inj split).2.symm⟩
    | cons token beyond =>
      obtain ⟨rfl, -⟩ := List.cons.inj split
      exact absurd commaless (unequal otherNested otherCommaless otherIsComma)

/-- There is one way only to divide tokens. -/
theorem Divided.unique (divided : Divided tokens segments) (again : Divided tokens others) :
    segments = others := by
  induction divided generalizing others with
  | @single tokens nested commaless =>
    have none := commas_eq_zero_iff.mpr commaless
    cases again with
    | single => rfl
    | comma otherNested otherCommaless otherIsComma =>
      rw [commas_append_cons otherNested otherCommaless otherIsComma] at none
      cases none
  | comma nested commaless isComma _ inductionHypothesis =>
    generalize whole : _ ++ _ :: _ = tokens at again
    cases again with
    | single _ otherCommaless =>
      have none := commas_eq_zero_iff.mpr otherCommaless
      rw [← whole, commas_append_cons nested commaless isComma] at none
      cases none
    | comma otherNested otherCommaless otherIsComma later =>
      obtain ⟨rfl, rfl⟩ := eq_of_append_comma whole nested commaless isComma otherNested
        otherCommaless otherIsComma
      rw [inductionHypothesis later]

/-! ## Arguments -/

/-- The tokens of an argument: those of its expression behind its label, if it has one. -/
inductive Labelled : Option String → List Token → List Token → Prop
  | plain {tokens : List Token} :
      (∀ name colon others, tokens = name :: colon :: others →
        ¬ (name.isIdentifier = true ∧ colon.isPunctuation ":" = true)) →
      Labelled none tokens tokens
  | label {name colon : Token} {tokens : List Token} : name.isIdentifier = true →
      colon.isPunctuation ":" = true → Labelled (some name.text) tokens (name :: colon :: tokens)

theorem Labelled.nested {label : Option String} {expression : List Token}
    (labelled : Labelled label expression tokens) (nested : isNested [] tokens = true)
    (commaless : Commaless 0 tokens) :
    stillOpen [] expression = some [] ∧ Commaless 0 expression := by
  rw [isNested_iff] at nested
  cases labelled with
  | plain => exact ⟨nested, commaless⟩
  | label named colon =>
    have namedPlain := isPlain_of_isIdentifier named
    have colonPlain := isPlain_of_isPunctuation colon (by decide)
    rw [Commaless, outside_cons (namedPlain.depthBehind_eq 0),
      outside_cons (colonPlain.depthBehind_eq 0)] at commaless
    simp only [stillOpen_cons, track_of_isBare (isBare_of_isIdentifier named),
      track_of_isBare (isBare_of_isPunctuation colon (by decide)), Option.some.injEq,
      exists_eq_left'] at nested
    exact ⟨nested, fun token member => commaless token (by simp [member])⟩

theorem Labelled.subset {label : Option String} {expression : List Token}
    (labelled : Labelled label expression tokens) : expression ⊆ tokens := by
  cases labelled with
  | plain => exact List.Subset.refl _
  | label => exact List.subset_cons_of_subset _ (List.subset_cons_self _ _)

/-- A mark that ends an argument. -/
def Stops (token : Token) : Prop :=
  token.isPunctuation "," = true ∨ token.isPunctuation ")" = true

theorem Stops.not_label (stops : Stops stop) :
    stop.isIdentifier = false ∧ stop.isPunctuation ":" = false := by
  obtain mark | mark := stops <;> obtain ⟨kind_eq, text_eq⟩ := Token.isPunctuation_iff.mp mark <;>
    simp [Token.isIdentifier, Token.isPunctuation, kind_eq, text_eq]

theorem reads_readLabel_some (named : cursor.current.isIdentifier = true)
    (colon : (cursor.ahead 1).isPunctuation ":" = true) :
    Reads readLabel cursor (some cursor.current.text) (cursor.skip 2) := by
  simp [readLabel, reads_ite, named, colon]

theorem reads_readLabel_none (unlabelled : ¬ (cursor.current.isIdentifier = true ∧
    (cursor.ahead 1).isPunctuation ":" = true)) : Reads readLabel cursor none cursor := by
  simpa [readLabel, reads_ite] using unlabelled

theorem exists_reads_readLabel (behind_eq : cursor.behind = tokens ++ stop :: more)
    (stops : Stops stop) :
    ∃ label expression passed, Labelled label expression tokens ∧
      Reads readLabel cursor label (cursor.skip passed) ∧
      (cursor.skip passed).behind = expression ++ stop :: more ∧
      passed + expression.length = tokens.length := by
  have still : cursor.skip 0 = cursor := by simp [Cursor.skip]
  obtain ⟨notNamed, notColon⟩ := stops.not_label
  -- A label needs two tokens. With fewer of them the mark that stops is asked, which is none.
  rcases tokens with _ | ⟨name, _ | ⟨colon, others⟩⟩
  · refine ⟨none, [], 0, .plain (by simp), ?_, by rwa [still], rfl⟩
    rw [still]
    exact reads_readLabel_none (by simp [Cursor.current_of_behind behind_eq, notNamed])
  · have next_eq : cursor.ahead 1 = stop := Cursor.ahead_one_of_behind behind_eq
    refine ⟨none, [name], 0, .plain (by simp), ?_, by rwa [still], rfl⟩
    rw [still]
    exact reads_readLabel_none (by simp [next_eq, notColon])
  · have first_eq : cursor.current = name := Cursor.current_of_behind behind_eq
    have next_eq : cursor.ahead 1 = colon := Cursor.ahead_one_of_behind behind_eq
    by_cases both : name.isIdentifier = true ∧ colon.isPunctuation ":" = true
    · have read := reads_readLabel_some (first_eq.symm ▸ both.1) (next_eq.symm ▸ both.2)
      rw [first_eq] at read
      exact ⟨some name.text, others, 2, .label both.1 both.2, read,
        @Cursor.behind_skip _ [name, colon] _ behind_eq, Nat.add_comm _ _⟩
    · refine ⟨none, _, 0, .plain ?_, ?_, by rwa [still], Nat.zero_add _⟩
      · rintro _ _ _ ⟨⟩
        exact both
      · rw [still]
        rw [← first_eq, ← next_eq] at both
        exact reads_readLabel_none both

/-- The source text from the first of the tokens to the last; none without a token. -/
def textOfTokens (source : List Char) (tokens : List Token) : String :=
  match tokens.head?, tokens.getLast? with
  | some first, some last => String.ofList (Text.slice source first.start last.stop)
  | _, _ => ""

/-- The argument is what a segment of a clause stands for. -/
structure StandsFor (source : List Char) (segment : List Token) (argument : Argument) : Prop where
  labelled : Labelled argument.label argument.tokens segment
  expression_eq : argument.expression = textOfTokens source argument.tokens
  position_eq : ∀ first ∈ segment.head?, argument.position = first.position

theorem textSince_of_behind {expression : List Token} (filled : expression ≠ [])
    (behind_eq : cursor.behind = expression ++ more) :
    (cursor.skip expression.length).textSince cursor.current =
      textOfTokens cursor.source expression := by
  obtain ⟨first, others, rfl⟩ := List.exists_cons_of_ne_nil filled
  have current_eq : cursor.current = first := Cursor.current_of_behind behind_eq
  have last_eq : (cursor.skip (first :: others).length).previous? =
      (first :: others).getLast? := by
    rw [Cursor.previous?, Cursor.skip, behind_eq, List.take_left, List.head?_append,
      List.head?_reverse, List.getLast?_eq_some_getLast filled]
    rfl
  rw [Cursor.textSince, last_eq, current_eq, textOfTokens, List.head?_cons,
    List.getLast?_eq_some_getLast filled]
  rfl

theorem exists_reads_readArgument (clause : Token)
    (behind_eq : cursor.behind = tokens ++ stop :: more)
    (nested : isNested [] tokens = true) (commaless : Commaless 0 tokens) (stops : Stops stop) :
    ∃ argument, Reads (readArgument clause) cursor argument (cursor.skip tokens.length) ∧
      StandsFor cursor.source tokens argument := by
  obtain ⟨label, expression, passed, labelled, labelRead, middle_eq, length_eq⟩ :=
    exists_reads_readLabel behind_eq stops
  obtain ⟨runs, commaless⟩ := labelled.nested nested commaless
  have last_eq : (cursor.skip passed).skip expression.length = cursor.skip tokens.length := by
    rw [Cursor.skip_skip, length_eq]
  have source_eq : (cursor.skip passed).source = cursor.source := rfl
  generalize cursor.skip passed = middle at labelRead middle_eq last_eq source_eq
  have found : argumentLength? 0 middle.behind = some expression.length := by
    rw [middle_eq]
    exact argumentLength?_of_stillOpen runs commaless (by simpa [Stops] using stops)
  have taken : middle.behind.take expression.length = expression := by
    rw [middle_eq, List.take_left]
  have skipped : Reads (skip expression.length) middle () (cursor.skip tokens.length) :=
    reads_skip.mpr last_eq.symm
  refine ⟨⟨label, textOfTokens cursor.source expression, expression, cursor.current.position⟩, ?_,
    labelled, rfl, fun first found => ?_⟩
  -- The text is taken from the tokens, so without one it is not asked for.
  · rw [readArgument, (reads_current.mpr ⟨rfl, rfl⟩).bind_iff, labelRead.bind_iff,
      (reads_get.mpr ⟨rfl, rfl⟩).bind_iff, found]
    dsimp only
    rw [skipped.bind_iff, taken]
    by_cases none : expression = []
    · rw [none]
      exact reads_pure.mpr ⟨rfl, rfl⟩
    · have told : Reads (textSince middle.current) (cursor.skip tokens.length)
          (textOfTokens cursor.source expression) (cursor.skip tokens.length) := by
        rw [← last_eq, ← source_eq]
        exact reads_textSince.mpr ⟨(textSince_of_behind none middle_eq).symm, rfl⟩
      rw [if_neg (mt List.length_eq_zero_iff.mp none), told.bind_iff]
      exact reads_pure.mpr ⟨rfl, rfl⟩
  · obtain ⟨others, rfl⟩ := List.head?_eq_some_iff.mp found
    rw [Cursor.current_of_behind behind_eq]

/-! ## Clauses -/

theorem not_reads_comma_of_closing {next : Cursor} (behind_eq : next.behind = closing :: more)
    (closes : closing.isPunctuation ")" = true) : next.current.reads "," = false := by
  rw [Cursor.current_of_behind behind_eq, Token.reads, (Token.isPunctuation_iff.mp closes).2]
  exact Bool.and_false _

/-- Behind an argument that no comma follows no other one is read. -/
theorem reads_separatedWithin_single {clause : Token} {argument : Argument} {next : Cursor}
    (read : Reads (readArgument clause) cursor argument next)
    (ends : next.current.reads "," = false) (limit : Nat) :
    Reads (separatedWithin "," (readArgument clause) limit) cursor [argument] next := by
  cases limit with
  | zero =>
    rw [separatedWithin, read.bind_iff]
    exact reads_pure.mpr ⟨rfl, rfl⟩
  | succ limit =>
    rw [separatedWithin, read.bind_iff, (reads_check.mpr ⟨rfl, rfl⟩).bind_iff, ends]
    exact reads_pure.mpr ⟨rfl, rfl⟩

/-- Behind a comma the other arguments are read as on their own. -/
theorem reads_separatedWithin_cons {clause : Token} {argument : Argument}
    {arguments : List Argument} {next last : Cursor} {limit : Nat}
    (read : Reads (readArgument clause) cursor argument next)
    (comma : next.current.reads "," = true)
    (later : Reads (separatedWithin "," (readArgument clause) limit) (next.skip 1) arguments last) :
    Reads (separatedWithin "," (readArgument clause) (limit + 1)) cursor (argument :: arguments)
      last := by
  rw [separatedWithin, read.bind_iff, (reads_check.mpr ⟨rfl, rfl⟩).bind_iff, comma, if_pos rfl,
    (reads_advance.mpr ⟨rfl, rfl⟩).bind_iff]
  exact later.bind_iff.mpr (reads_pure.mpr ⟨rfl, rfl⟩)

/-- Without a comma outside brackets all the tokens are one segment. -/
theorem exists_reads_single (clause : Token) (behind_eq : cursor.behind = tokens ++ closing :: more)
    (nested : isNested [] tokens = true) (commaless : Commaless 0 tokens)
    (closes : closing.isPunctuation ")" = true) (limit : Nat) :
    ∃ arguments segments, Reads (separatedWithin "," (readArgument clause) limit) cursor arguments
        (cursor.skip tokens.length) ∧
      Divided tokens segments ∧ List.Forall₂ (StandsFor cursor.source) segments arguments := by
  obtain ⟨argument, read, stands⟩ :=
    exists_reads_readArgument clause behind_eq nested commaless (.inr closes)
  have ends := not_reads_comma_of_closing (Cursor.behind_skip behind_eq) closes
  exact ⟨[argument], [tokens], reads_separatedWithin_single read ends limit,
    .single nested commaless, .cons stands .nil⟩

/-- Properly nested tokens in front of a closing parenthesis are read segment by segment. -/
theorem exists_reads_separated (clause : Token)
    (behind_eq : cursor.behind = tokens ++ closing :: more)
    (nested : isNested [] tokens = true) (closes : closing.isPunctuation ")" = true) {limit : Nat}
    (within : commas tokens ≤ limit) :
    ∃ arguments segments, Reads (separatedWithin "," (readArgument clause) limit) cursor arguments
        (cursor.skip tokens.length) ∧
      Divided tokens segments ∧ List.Forall₂ (StandsFor cursor.source) segments arguments := by
  -- The limit is an upper bound for the commas, and each step past one uses up one of it.
  induction limit generalizing cursor tokens with
  | zero =>
    have commaless := commas_eq_zero_iff.mp (Nat.eq_zero_of_le_zero within)
    exact exists_reads_single clause behind_eq nested commaless closes 0
  | succ limit inductionHypothesis =>
    obtain commaless | ⟨front, comma, back, rfl, inside, commaless, isComma, backNested⟩ :=
      exists_comma (isNested_iff.mp nested)
    · exact exists_reads_single clause behind_eq nested commaless closes (limit + 1)
    · have frontNested := isNested_iff.mpr inside
      rw [commas_append_cons frontNested commaless isComma] at within
      rw [List.append_assoc, List.cons_append] at behind_eq
      obtain ⟨first, read, stands⟩ :=
        exists_reads_readArgument clause behind_eq frontNested commaless (.inl isComma)
      have middle_eq := Cursor.behind_skip behind_eq
      have goes : (cursor.skip front.length).current.reads "," = true := by
        rw [Cursor.current_of_behind middle_eq]
        exact Token.reads_of_isPunctuation isComma
      obtain ⟨others, segments, later, divided, standing⟩ := inductionHypothesis
        (@Cursor.behind_skip _ [comma] _ middle_eq) backNested (Nat.le_of_succ_le_succ within)
      have last_eq : ((cursor.skip front.length).skip 1).skip back.length =
          cursor.skip (front ++ comma :: back).length := by
        rw [Cursor.skip_skip, Cursor.skip_skip, List.length_append, List.length_cons,
          Nat.add_comm 1]
      rw [List.length_singleton, last_eq] at later
      exact ⟨first :: others, front :: segments, reads_separatedWithin_cons read goes later,
        .comma frontNested commaless isComma divided, .cons stands standing⟩

/-- What a clause is read into whose parentheses stand around the tokens. -/
structure SplitsInto (source : List Char) (tokens : List Token) (arguments : List Argument) :
    Prop where
  none : tokens = [] → arguments = []
  /-- One argument stands for each segment, and there is one way only to divide the tokens. -/
  some : tokens ≠ [] → ∃ segments, Divided tokens segments ∧
    (∀ others, Divided tokens others → others = segments) ∧
      List.Forall₂ (StandsFor source) segments arguments

theorem exists_reads_readArguments
    (behind_eq : cursor.behind = opening :: (tokens ++ closing :: more))
    (opens : opening.reads "(" = true) (nested : isNested [] tokens = true)
    (closes : closing.isPunctuation ")" = true)
    (plain : ∀ token ∈ tokens, token.reads ")" = true → token.isPunctuation ")" = true) :
    ∃ arguments, Reads readArguments cursor arguments (cursor.skip (tokens.length + 2)) ∧
      SplitsInto cursor.source tokens arguments := by
  have inside : (cursor.skip 1).behind = tokens ++ closing :: more :=
    @Cursor.behind_skip _ [opening] _ behind_eq
  have opened : Reads (expect "(") cursor cursor.current (cursor.skip 1) :=
    reads_expect.mpr ⟨by rwa [Cursor.current_of_behind behind_eq], rfl, rfl⟩
  have last_eq : ((cursor.skip 1).skip tokens.length).skip 1 =
      cursor.skip (tokens.length + 2) := by
    rw [Cursor.skip_skip, Cursor.skip_skip, Nat.add_comm 1]
  rw [readArguments]
  simp only [opened.bind_iff]
  cases tokens with
  | nil =>
    have empty : (cursor.skip 1).current.reads ")" = true := by
      rw [Cursor.current_of_behind inside]
      exact Token.reads_of_isPunctuation closes
    refine ⟨[], ?_, fun _ => rfl, fun filled => absurd rfl filled⟩
    rw [(reads_check.mpr ⟨rfl, rfl⟩).bind_iff, empty, if_pos rfl]
    simp [Cursor.skip_skip]
  | cons first others =>
    have filled : (cursor.skip 1).current.reads ")" = false := by
      -- A parenthesis at the beginning would close a bracket, and none is open.
      rw [Cursor.current_of_behind inside]
      refine Bool.eq_false_iff.mpr fun reads => ?_
      have closing := isClosing_of_isPunctuation (plain first List.mem_cons_self reads) (by decide)
      obtain ⟨middle, tracked, -⟩ := stillOpen_cons.mp (isNested_iff.mp nested)
      cases (track_of_isClosing closing).mp tracked
    have within : commas (first :: others) ≤ (cursor.skip 1).remaining := by
      rw [Cursor.remaining, inside, List.length_append]
      exact (commas_le_length _).trans (Nat.le_add_right _ _)
    obtain ⟨arguments, segments, read, divided, stands⟩ :=
      exists_reads_separated cursor.current inside nested closes within
    have next_eq := Cursor.behind_skip inside
    generalize (cursor.skip 1).skip (first :: others).length = next at read next_eq last_eq
    have closed : Reads (expect ")") next next.current
        (cursor.skip ((first :: others).length + 2)) := by
      refine reads_expect.mpr ⟨?_, rfl, last_eq.symm⟩
      rw [Cursor.current_of_behind next_eq]
      exact Token.reads_of_isPunctuation closes
    have separated : Reads (separated "," (readArgument cursor.current)) (cursor.skip 1) arguments
        next := by
      rwa [separated, (reads_get.mpr ⟨rfl, rfl⟩).bind_iff]
    refine ⟨arguments, ?_, fun none => absurd none (List.cons_ne_nil _ _),
      fun _ => ⟨segments, divided, fun other again => again.unique divided, stands⟩⟩
    rw [(reads_check.mpr ⟨rfl, rfl⟩).bind_iff, filled, if_neg Bool.false_ne_true,
      separated.bind_iff, closed.bind_iff]
    exact reads_pure.mpr ⟨rfl, rfl⟩

section Scanned

variable {stream : TokenStream} {before : List Token}

/-- In a source, the argument clause between a parenthesis and the one that closes it is read up to
there, into one argument for each of its segments. -/
theorem exists_splitsInto_of_scan (scanned : TokenStream.scan source = .ok stream)
    (words_eq : stream.words = before ++ opening :: (tokens ++ closing :: more))
    (opens : opening.isPunctuation "(" = true) (nested : isNested [] tokens = true)
    (closes : closing.isPunctuation ")" = true) :
    ∃ arguments, Reads readArguments (.ofStream stream before.length) arguments
        (.ofStream stream (before.length + tokens.length + 2)) ∧
      SplitsInto source tokens arguments := by
  obtain ⟨source_eq, -⟩ := TokenStream.ordered_of_scan scanned
  have behind_eq : (Cursor.ofStream stream before.length).behind =
      opening :: (tokens ++ closing :: more) := by
    rw [Cursor.ofStream, words_eq, List.drop_left]
  have plain : ∀ token ∈ tokens, token.reads ")" = true → token.isPunctuation ")" = true := by
    intro token member reads
    have present : token ∈ stream.words := by simp [words_eq, member]
    obtain ⟨place, inside, rfl⟩ := List.mem_iff_getElem.mp present
    rw [← TokenStream.token_eq_getElem inside] at reads ⊢
    exact TokenStream.isPunctuation_of_reads scanned rfl (by decide) reads
  obtain ⟨arguments, read, splits⟩ := exists_reads_readArguments behind_eq
    (Token.reads_of_isPunctuation opens) nested closes plain
  rw [Cursor.skip_ofStream, ← Nat.add_assoc] at read
  have same : (Cursor.ofStream stream before.length).source = source := source_eq
  rw [same] at splits
  exact ⟨arguments, read, splits⟩

/-- A clause with a comma inside brackets, a label and an argument without tokens. -/
def clauseSample : List Char :=
  "@A(n: [b, c],)".toList

def clauseSampleWord (kind : TokenKind) (text : String) (offset : Nat) : Token :=
  ⟨kind, text, ⟨1, offset + 1, offset⟩⟩

def clauseSampleTokens : List Token :=
  [clauseSampleWord .identifier "n" 3, clauseSampleWord .punctuation ":" 4,
    clauseSampleWord .punctuation "[" 6, clauseSampleWord .identifier "b" 7,
    clauseSampleWord .punctuation "," 8, clauseSampleWord .identifier "c" 10,
    clauseSampleWord .punctuation "]" 11, clauseSampleWord .punctuation "," 12]

set_option maxRecDepth 20000 in
theorem exists_splitsInto_clauseSample : ∃ stream arguments,
    TokenStream.scan clauseSample = .ok stream ∧ isNested [] clauseSampleTokens = true ∧
      Reads readArguments (.ofStream stream 2) arguments (.ofStream stream 12) ∧
      SplitsInto clauseSample clauseSampleTokens arguments := by
  have words_eq : (TokenStream.scan clauseSample).toOption.map TokenStream.words =
      some ([clauseSampleWord .punctuation "@" 0, clauseSampleWord .identifier "A" 1] ++
        clauseSampleWord .punctuation "(" 2 ::
          (clauseSampleTokens ++ [clauseSampleWord .punctuation ")" 13])) := by
    decide +kernel
  obtain ⟨stream, scanned, words_eq⟩ := exists_of_map words_eq
  have nested : isNested [] clauseSampleTokens = true := by decide +kernel
  obtain ⟨arguments, read, splits⟩ :=
    exists_splitsInto_of_scan scanned words_eq (by decide) nested (by decide)
  exact ⟨stream, arguments, scanned, nested, read, splits⟩

end Scanned

end Attribute

end PeerExpansion
