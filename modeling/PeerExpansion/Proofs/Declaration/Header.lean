import PeerExpansion.Proofs.Declaration.Brackets
import PeerExpansion.Proofs.Declaration.Span

/-! # Where declarations with a body end

The end of a type or function is found from its header: parentheses, square brackets and what is
taken for generic brackets are counted up to the brace that opens the body.
-/

namespace PeerExpansion

open Reading

namespace Extent

variable {previous token : Token} {depth angle : Nat} {front back others tokens : List Token}
  {pending last : List String}

/-! ## The counts of a header -/

/-- The number of parentheses and square brackets open behind `token`. -/
def roundsBehind (depth : Nat) (token : Token) : Nat :=
  if token.kind == .punctuation && token.isOneOf ["(", "["] then depth + 1
  else if token.kind == .punctuation && token.isOneOf [")", "]"] then depth - 1
  else depth

/-- The number of what is taken for open generic brackets behind `token`. -/
def anglesBehind (previous : Token) (angle : Nat) (token : Token) : Nat :=
  if token.isPunctuation "<" && previous.isIdentifier && previous.stop == token.start then angle + 1
  else if token.isPunctuation ">" then angle - 1
  else angle

/-- The number of what is taken for open generic brackets behind the tokens. -/
def angles (previous : Token) (angle : Nat) : List Token → Nat
  | [] => angle
  | token :: others => angles token (anglesBehind previous angle token) others

theorem anglesBehind_of_isOneOf {texts : List String} (mark : token.isOneOf texts = true)
    (opening : "<" ∉ texts) (closing : ">" ∉ texts) :
    anglesBehind previous angle token = angle := by
  rw [Token.isOneOf, List.contains_iff_mem] at mark
  have other {text : String} (absent : text ∉ texts) : token.isPunctuation text = false := by
    rw [Token.isPunctuation, Bool.and_eq_false_iff, beq_eq_false_iff_ne, beq_eq_false_iff_ne]
    exact .inr (ne_of_mem_of_not_mem mark absent)
  rw [anglesBehind, other opening, other closing]
  rfl

theorem headerLength_cons : headerLength previous depth angle (token :: others) =
    if depth = 0 ∧ angle = 0 ∧ (endsHeader token = true ∨ startsNewLine previous token = true)
    then 0
    else headerLength token (roundsBehind depth token) (anglesBehind previous angle token) others +
      1 := by
  rw [headerLength]
  simp only [Bool.and_eq_true, Bool.or_eq_true, decide_eq_true_eq, and_assoc]
  refine if_congr Iff.rfl rfl ?_
  by_cases opens : (token.kind == .punctuation && token.isOneOf ["(", "["]) = true
  · have mark := (Bool.and_eq_true_iff.mp opens).2
    rw [roundsBehind, if_pos opens, anglesBehind_of_isOneOf mark (by decide) (by decide)]
    exact if_pos (Bool.and_eq_true_iff.mp opens)
  · rw [if_neg (mt Bool.and_eq_true_iff.mpr opens), roundsBehind, if_neg opens]
    by_cases closes : (token.kind == .punctuation && token.isOneOf [")", "]"]) = true
    · have mark := (Bool.and_eq_true_iff.mp closes).2
      rw [if_pos closes, anglesBehind_of_isOneOf mark (by decide) (by decide)]
      exact if_pos (Bool.and_eq_true_iff.mp closes)
    · rw [if_neg (mt Bool.and_eq_true_iff.mpr closes), if_neg closes, anglesBehind]
      simp only [Bool.and_eq_true, and_assoc]
      split_ifs <;> rfl

theorem headerLength_cons_eq_zero_iff : headerLength previous depth angle (token :: others) = 0 ↔
    depth = 0 ∧ angle = 0 ∧ (endsHeader token = true ∨ startsNewLine previous token = true) := by
  rw [headerLength_cons]
  split <;> simp_all

theorem headerLength_le (previous : Token) (depth angle : Nat) (tokens : List Token) :
    headerLength previous depth angle tokens ≤ tokens.length := by
  induction tokens generalizing previous depth angle with
  | nil => exact Nat.le_refl _
  | cons token tokens inductionHypothesis =>
    rw [headerLength_cons]
    split
    · exact Nat.zero_le _
    · exact Nat.succ_le_succ (inductionHypothesis _ _ _)

/-- A header that takes some words goes on behind them with the counts that they come to. -/
theorem headerLength_append
    (beyond : front.length ≤ headerLength previous depth angle (front ++ back)) :
    headerLength previous depth angle (front ++ back) = front.length +
      headerLength (front.getLastD previous) (front.foldl roundsBehind depth)
        (angles previous angle front) back := by
  induction front generalizing previous depth angle with
  | nil => exact (Nat.zero_add _).symm
  | cons token front inductionHypothesis =>
    rw [List.cons_append, headerLength_cons] at beyond ⊢
    split at beyond
    next => cases beyond
    next goes =>
      rw [if_neg goes, inductionHypothesis (Nat.le_of_succ_le_succ beyond), List.getLastD_cons,
        List.length_cons, List.foldl_cons, angles]
      omega

/-- A header takes words none of which ends it. -/
theorem le_headerLength (goes : ∀ before token after, front = before ++ token :: after →
      before.foldl roundsBehind depth = 0 → angles previous angle before = 0 →
        endsHeader token = false ∧ startsNewLine (before.getLastD previous) token = false)
    (back : List Token) : front.length ≤ headerLength previous depth angle (front ++ back) := by
  induction front generalizing previous depth angle with
  | nil => exact Nat.zero_le _
  | cons token front inductionHypothesis =>
    have passes : ¬ (depth = 0 ∧ angle = 0 ∧
        (endsHeader token = true ∨ startsNewLine previous token = true)) := by
      rintro ⟨none, noAngle, ends⟩
      have plain := goes [] token front rfl none noAngle
      simp only [List.getLastD_nil] at plain
      simp [plain] at ends
    rw [List.cons_append, headerLength_cons, if_neg passes]
    apply Nat.succ_le_succ
    apply inductionHypothesis
    rintro before other after rfl none noAngle
    have plain := goes (token :: before) other after rfl none noAngle
    rwa [List.getLastD_cons] at plain

/-! ## The counts of nested brackets -/

/-- Of the brackets that `pending` closes, the outermost is no brace. -/
def Sheltered (pending : List String) : Prop :=
  ∀ outermost ∈ pending.getLast?, outermost ≠ Token.closeBrace

theorem Sheltered.eq_nil (sheltered : Sheltered pending)
    (none : pending.countP (· != Token.closeBrace) = 0) : pending = [] := by
  by_contra filled
  have member := List.getLast_mem filled
  have brace := List.countP_eq_zero.mp none _ member
  exact sheltered _ (List.getLast?_eq_some_getLast filled) (by simpa using brace)

theorem sheltered_of_track (tracked : track pending token = some last)
    (plain : pending = [] → token.isPunctuation Token.openBrace = false)
    (sheltered : Sheltered pending) : Sheltered last := by
  obtain ⟨opens, rfl⟩ | ⟨closes, rfl⟩ | ⟨bare, rfl⟩ := track_cases tracked
  · cases pending with
    | nil =>
      rintro outermost ⟨⟩
      exact closing_ne_closeBrace opens (plain rfl)
    | cons => exact sheltered
  · cases last with
    | nil =>
      rintro outermost ⟨⟩
    | cons => exact sheltered
  · exact sheltered

/-- Where no block opens outside brackets, none is open without a bracket around it. -/
theorem sheltered_of_stillOpen (runs : stillOpen pending tokens = some last)
    (plain : ∀ token ∈ outside pending.length tokens, token.isPunctuation Token.openBrace = false)
    (sheltered : Sheltered pending) : Sheltered last := by
  induction tokens generalizing pending with
  | nil =>
    cases runs
    exact sheltered
  | cons token tokens inductionHypothesis =>
    obtain ⟨middle, tracked, later⟩ := stillOpen_cons.mp runs
    rw [outside] at plain
    refine inductionHypothesis later ?_ (sheltered_of_track tracked ?_ sheltered)
    · -- `outside` goes by the number of open brackets, which is that of the marks to come.
      rw [← depthBehind_of_track tracked]
      split at plain
      next none => exact none ▸ (List.forall_mem_cons.mp plain).2
      next => exact plain
    · rintro rfl
      exact plain token List.mem_cons_self

theorem roundsBehind_of_track (tracked : track pending token = some last) :
    roundsBehind (pending.countP (· != Token.closeBrace)) token =
      last.countP (· != Token.closeBrace) := by
  obtain ⟨opens, rfl⟩ | ⟨closes, rfl⟩ | ⟨bare, rfl⟩ := track_cases tracked
  · simp only [Token.isOpening, Token.isOneOf, Bool.and_eq_true, List.contains_iff_mem,
      List.mem_cons, List.not_mem_nil, or_false] at opens
    obtain ⟨kind, same | same | same⟩ := opens <;>
      simp [roundsBehind, closing, kind, same, Token.isOneOf, Token.openBrace, Token.closeBrace]
  · simp only [Token.isClosing, Token.isOneOf, Bool.and_eq_true, List.contains_iff_mem,
      List.mem_cons, List.not_mem_nil, or_false] at closes
    obtain ⟨kind, same | same | same⟩ := closes <;>
      simp [roundsBehind, kind, same, Token.isOneOf, Token.closeBrace]
  · obtain ⟨opens, closes⟩ := isBare_iff.mp bare
    rw [Token.isOpening] at opens
    rw [Token.isClosing] at closes
    cases kind : token.kind == .punctuation
    · simp [roundsBehind, kind]
    · simp_all [roundsBehind, Token.isOneOf]

theorem foldl_roundsBehind_of_stillOpen (runs : stillOpen pending tokens = some last) :
    tokens.foldl roundsBehind (pending.countP (· != Token.closeBrace)) =
      last.countP (· != Token.closeBrace) :=
  foldl_of_stillOpen roundsBehind_of_track runs

/-! ## Headers in front of a body -/

/-- What lets the end of a header be found at the brace behind it: its name is not told to begin a
line, and generic brackets are taken for open at each semicolon outside brackets, but not at the
end. -/
structure Settles (keyword name : Token) (header : List Token) : Prop where
  follows : startsNewLine keyword name = false
  unbroken : ∀ front mark back, header = front ++ mark :: back → mark.isPunctuation ";" = true →
    front.foldl depthBehind 0 = 0 → angles name 0 front ≠ 0
  closed : angles name 0 header = 0

theorem endsHeader_of_openBrace (opens : token.isPunctuation Token.openBrace = true) :
    endsHeader token = true := by
  rw [Token.isPunctuation_iff] at opens
  simp [endsHeader, Token.isOneOf, opens]

theorem endsHeader_of_closeBrace (closes : token.isPunctuation Token.closeBrace = true) :
    endsHeader token = true := by
  rw [Token.isPunctuation_iff] at closes
  simp [endsHeader, Token.isOneOf, closes]

theorem endsHeader_eq (opens : token.isPunctuation Token.openBrace = false)
    (closes : token.isPunctuation Token.closeBrace = false) :
    endsHeader token = token.isPunctuation ";" := by
  rw [Token.isPunctuation] at opens closes ⊢
  rw [endsHeader]
  cases kind : token.kind == .punctuation
  · rfl
  · simp_all [Token.isOneOf, Bool.beq_eq_decide_eq]

theorem headerLength_identifier {name : Token} (named : name.isIdentifier = true) :
    headerLength previous 0 0 (name :: others) =
      if startsNewLine previous name = true then 0 else headerLength name 0 0 others + 1 := by
  rw [Token.isIdentifier, beq_iff_eq] at named
  rw [headerLength_cons]
  simp [endsHeader, roundsBehind, anglesBehind, Token.isPunctuation, named]

section Headers

variable {keyword name mark brace : Token} {header : List Token}
variable (nested : isNested [] header = true)
variable (plain : ∀ token ∈ outside 0 header, token.isPunctuation Token.openBrace = false)
include nested

theorem rounds_of_depth (split : header = front ++ mark :: back)
    (none : front.foldl depthBehind 0 = 0) : front.foldl roundsBehind 0 = 0 := by
  subst split
  obtain ⟨pending, runs, -⟩ := stillOpen_append.mp (isNested_iff.mp nested)
  have depth_eq := foldl_depthBehind_of_stillOpen runs
  have rounds_eq := foldl_roundsBehind_of_stillOpen runs
  obtain rfl : pending = [] := List.length_eq_zero_iff.mp (depth_eq.symm.trans none)
  exact rounds_eq

theorem foldl_roundsBehind_of_isNested : header.foldl roundsBehind 0 = 0 :=
  foldl_roundsBehind_of_stillOpen (isNested_iff.mp nested)

include plain

/-- Where no parenthesis or square bracket is open in a header no other bracket is, and only a
semicolon ends the header. -/
theorem outside_of_rounds (split : header = front ++ mark :: back)
    (none : front.foldl roundsBehind 0 = 0) :
    front.foldl depthBehind 0 = 0 ∧ mark.isPunctuation Token.openBrace = false ∧
      endsHeader mark = mark.isPunctuation ";" := by
  subst split
  obtain ⟨pending, runs, later⟩ := stillOpen_append.mp (isNested_iff.mp nested)
  obtain ⟨middle, tracked, -⟩ := stillOpen_cons.mp later
  have depth_eq := foldl_depthBehind_of_stillOpen runs
  have rounds_eq := foldl_roundsBehind_of_stillOpen runs
  rw [outside_append, List.forall_mem_append] at plain
  have sheltered := sheltered_of_stillOpen runs plain.1 (by rintro outermost ⟨⟩)
  obtain rfl := sheltered.eq_nil (rounds_eq.symm.trans none)
  have opens : mark.isPunctuation Token.openBrace = false := by
    apply plain.2
    rw [show front.foldl depthBehind 0 = 0 from depth_eq, outside, if_pos rfl]
    exact List.mem_cons_self
  have closes : mark.isPunctuation Token.closeBrace = false := by
    by_contra closes
    rw [Bool.not_eq_false] at closes
    cases (track_of_isClosing (isClosing_of_closeBrace closes).1).mp tracked
  exact ⟨depth_eq, opens, endsHeader_eq opens closes⟩

/-- A header that ends in front of one of its own words does not end in front of a block. -/
theorem not_opens_of_headerLength (named : name.isIdentifier = true)
    (split : name :: header = front ++ mark :: back)
    (length_eq : headerLength keyword 0 0 (front ++ mark :: others) = front.length) :
    mark.isPunctuation Token.openBrace = false := by
  cases front with
  | nil =>
    cases split
    rw [Token.isIdentifier, beq_iff_eq] at named
    simp [Token.isPunctuation, named]
  | cons first front =>
    obtain ⟨rfl, header_eq⟩ := List.cons.inj split
    rw [List.cons_append, headerLength_identifier named] at length_eq
    split at length_eq
    next => cases length_eq
    next =>
      have length_eq := Nat.succ.inj length_eq
      have stops := headerLength_append (Nat.le_of_eq length_eq.symm)
      rw [length_eq, Nat.left_eq_add, headerLength_cons_eq_zero_iff] at stops
      exact (outside_of_rounds nested plain header_eq stops.1).2.1

variable (lined : ∀ token ∈ header, token.position.line = name.position.line)
include lined

/-- A header ends in front of the brace behind it if it settles there, and only then. -/
theorem headerLength_eq_iff (named : name.isIdentifier = true)
    (opens : brace.isPunctuation Token.openBrace = true) :
    headerLength keyword 0 0 (name :: (header ++ brace :: others)) = header.length + 1 ↔
      Settles keyword name header := by
  have rounds_eq := foldl_roundsBehind_of_isNested nested
  rw [headerLength_identifier named]
  constructor
  · intro length_eq
    split at length_eq
    next => cases length_eq
    next follows =>
      have length_eq := Nat.succ.inj length_eq
      have stops := headerLength_append (Nat.le_of_eq length_eq.symm)
      rw [length_eq, Nat.left_eq_add, headerLength_cons_eq_zero_iff] at stops
      refine ⟨Bool.eq_false_iff.mpr follows, ?_, stops.2.1⟩
      rintro front mark back rfl semicolon none noAngle
      -- The header would end at the semicolon.
      rw [List.append_assoc, List.cons_append] at length_eq
      have passed := headerLength_append (show front.length ≤ _ by
        rw [length_eq, List.length_append]
        exact Nat.le_add_right _ _)
      have rounds := rounds_of_depth nested rfl none
      have ends := (outside_of_rounds nested plain rfl rounds).2.2.trans semicolon
      rw [length_eq, headerLength_cons_eq_zero_iff.mpr ⟨rounds, noAngle, .inl ends⟩] at passed
      simp at passed
  · intro settles
    -- All of the header is on one line, so only a semicolon could end it before the brace.
    have passes : header.length ≤ headerLength name 0 0 (header ++ brace :: others) := by
      refine le_headerLength (fun front mark back split rounds noAngle => ?_) _
      obtain ⟨none, -, ends_eq⟩ := outside_of_rounds nested plain split rounds
      constructor
      · rw [ends_eq, ← Bool.not_eq_true]
        exact fun semicolon => settles.unbroken front mark back split semicolon none noAngle
      · have member : mark ∈ header := by simp [split]
        have before : (front.getLastD name).position.line = name.position.line := by
          obtain rfl | filled := List.eq_nil_or_concat front
          · rfl
          · obtain ⟨front, word, rfl⟩ := filled
            rw [List.concat_eq_append, List.getLastD_concat]
            exact lined word (by simp [split])
        rw [startsNewLine, before, lined mark member]
        simp
    have ends := headerLength_append passes
    rw [headerLength_cons_eq_zero_iff.mpr
      ⟨rounds_eq, settles.closed, .inl (endsHeader_of_openBrace opens)⟩] at ends
    rw [settles.follows, if_neg Bool.false_ne_true, ends]

end Headers

/-- No header ends behind a closing brace: it would have ended in front of it. -/
theorem headerLength_ne_of_closeBrace {closer : Token}
    (closes : closer.isPunctuation Token.closeBrace = true) :
    headerLength previous depth angle (front ++ closer :: token :: others) ≠ front.length + 1 := by
  intro length_eq
  have passed := headerLength_append (show front.length ≤ _ by rw [length_eq]; omega)
  rw [length_eq, Nat.add_left_cancel_iff, headerLength_cons] at passed
  split at passed
  next => cases passed
  next goes =>
    have stops := Nat.succ.inj passed
    have kind := closes
    rw [Token.isPunctuation_iff] at kind
    have rounds_eq (depth : Nat) : roundsBehind depth closer = depth := by
      simp [roundsBehind, Token.isOneOf, kind, Token.closeBrace]
    have angles_eq (previous : Token) (angle : Nat) :
        anglesBehind previous angle closer = angle := by
      simp [anglesBehind, Token.isPunctuation, kind, Token.closeBrace]
    rw [rounds_eq, angles_eq] at stops
    obtain ⟨none, noAngle, -⟩ := headerLength_cons_eq_zero_iff.mp stops.symm
    exact goes ⟨none, noAngle, .inl (endsHeader_of_closeBrace closes)⟩

/-! ## Blocks in a body -/

/-- Inside a block the brace that closes it is found with more braces open. -/
theorem exists_blockLength?_of_append {length : Nat}
    (found : blockLength? depth (front ++ back) = some length) (within : front.length < length) :
    ∃ deeper, blockLength? deeper back = some (length - front.length) := by
  induction front generalizing depth length with
  | nil => exact ⟨depth, found⟩
  | cons token front inductionHypothesis =>
    have later {depth : Nat}
        (found : (blockLength? depth (front ++ back)).map (· + 1) = some length) :
        ∃ deeper, blockLength? deeper back = some (length - (token :: front).length) := by
      obtain ⟨shorter, rest, rfl⟩ := Option.map_eq_some_iff.mp found
      rw [List.length_cons] at within ⊢
      obtain ⟨deeper, known⟩ := inductionHypothesis rest (Nat.lt_of_succ_lt_succ within)
      exact ⟨deeper, by rw [known, Nat.add_sub_add_right]⟩
    rw [List.cons_append, Declaration.blockLength?_cons] at found
    -- In the front only the depth changes, for the block does not end there.
    split at found
    next => exact later found
    next =>
      split at found
      next =>
        split at found
        next =>
          cases found
          simp at within
        next => exact later found
      next => exact later found

/-- With fewer braces open a block ends earlier. -/
theorem exists_blockLength?_lt {deeper length : Nat} (less : depth < deeper)
    (found : blockLength? deeper tokens = some length) :
    ∃ shorter < length, blockLength? depth tokens = some shorter := by
  induction tokens generalizing depth deeper length with
  | nil => cases found
  | cons token tokens inductionHypothesis =>
    have later {depth deeper : Nat} (less : depth < deeper)
        (found : (blockLength? deeper tokens).map (· + 1) = some length) :
        ∃ shorter < length, (blockLength? depth tokens).map (· + 1) = some shorter := by
      obtain ⟨rest, later, rfl⟩ := Option.map_eq_some_iff.mp found
      obtain ⟨shorter, bound, known⟩ := inductionHypothesis less later
      exact ⟨shorter + 1, Nat.succ_lt_succ bound, by rw [known, Option.map_some]⟩
    rw [Declaration.blockLength?_cons] at found ⊢
    split at found
    next opens =>
      rw [if_pos opens]
      exact later (Nat.succ_lt_succ less) found
    next opens =>
      rw [if_neg opens]
      split at found
      next closes =>
        rw [if_pos closes]
        rw [if_neg (Nat.ne_zero_of_lt less)] at found
        -- From depth zero the block ends here, and the deeper one goes on.
        obtain rfl | some := Nat.eq_zero_or_pos depth
        · obtain ⟨rest, known, rfl⟩ := Option.map_eq_some_iff.mp found
          have := (Declaration.blockLength?_le known).1
          exact ⟨1, by omega, rfl⟩
        · rw [if_neg (Nat.ne_zero_of_lt some)]
          exact later (by omega) found
      next closes =>
        rw [if_neg closes]
        exact later less found

/-- A block inside a body ends in front of the brace that closes the body. -/
theorem Braced.blockLength?_inner_ne {opening closer : Token} {inner : List Token}
    (braced : Braced (front ++ opening :: inner))
    (opens : opening.isPunctuation Token.openBrace = true)
    (closes : closer.isPunctuation Token.closeBrace = true) :
    blockLength? 0 (inner ++ closer :: others) ≠ some (inner.length + 1) := by
  have whole := braced.blockLength?_eq closes others
  rw [List.append_assoc, List.cons_append] at whole
  obtain ⟨deeper, found⟩ := exists_blockLength?_of_append whole
    (by rw [List.length_append, List.length_cons]; omega)
  rw [blockLength?_of_openBrace opens, Option.map_eq_some_iff] at found
  obtain ⟨rest, found, rest_eq⟩ := found
  obtain ⟨shorter, bound, known⟩ := exists_blockLength?_lt (Nat.succ_pos deeper) found
  rw [known]
  intro same
  cases same
  simp only [List.length_append, List.length_cons] at rest_eq
  omega

end Extent

end PeerExpansion
