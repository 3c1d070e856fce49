import PeerExpansion.Proofs.Declaration.Adjacent

/-! # Generic clauses in expressions

A comma ends an initializer where no bracket is open. Round, square and curly brackets are counted,
angle brackets are not: the commas between the arguments of a generic clause are met outside
brackets like any other.
-/

namespace PeerExpansion.Extent

/-! ## Tokens outside brackets -/

/-- The tokens that are met where no bracket is open, when `depth` brackets are open at the start.
The brackets that open there are among them. -/
def outside (depth : Nat) : List Token → List Token
  | [] => []
  | token :: others =>
    if depth = 0 then token :: outside (depthBehind 0 token) others
    else outside (depthBehind depth token) others

theorem outside_append (depth : Nat) (front back : List Token) :
    outside depth (front ++ back) =
      outside depth front ++ outside (front.foldl depthBehind depth) back := by
  induction front generalizing depth with
  | nil => rfl
  | cons token front inductionHypothesis =>
    simp only [List.cons_append, outside, List.foldl_cons, inductionHypothesis]
    split
    next none => rw [none, List.cons_append]
    next => rfl

/-- Where another bracket is open around them, tokens with nested brackets stay inside. -/
theorem outside_eq_nil {pending : List String} {tokens : List Token}
    (nested : isNested pending tokens = true) {depth : Nat} (inside : pending.length < depth) :
    outside depth tokens = [] := by
  induction tokens generalizing pending depth with
  | nil => rfl
  | cons token others inductionHypothesis =>
    -- A bracket that closes is one of `pending`, so at least the one around them stays open.
    rw [outside, if_neg (by omega), depthBehind]
    obtain ⟨opens, later⟩ | ⟨opens, closes, expected, further, rfl, later⟩ |
      ⟨opens, closes, later⟩ := isNested_cons nested
    · rw [if_pos opens]
      exact inductionHypothesis later (by simpa using inside)
    · rw [if_neg opens, if_pos closes]
      rw [List.length_cons] at inside
      exact inductionHypothesis later (by omega)
    · rw [if_neg opens, if_neg closes]
      exact inductionHypothesis later inside

/-- On one line an expression takes all tokens unless it meets one that ends it. -/
theorem expressionLength_eq_length_iff {previous : Token} {depth line : Nat} {tokens : List Token}
    (lined : ∀ token ∈ previous :: tokens, token.position.line = line) :
    expressionLength previous depth tokens = tokens.length ↔
      ∀ token ∈ outside depth tokens, endsExpression token = false := by
  induction tokens generalizing previous depth with
  | nil => simp [expressionLength, outside]
  | cons token others inductionHypothesis =>
    -- Without a line break only the token itself can end the expression.
    obtain ⟨previous_line, lined⟩ := List.forall_mem_cons.mp lined
    have same : startsNewLine previous token = false := by
      simp [startsNewLine, previous_line, lined token List.mem_cons_self]
    have later := @inductionHypothesis token (depthBehind depth token) lined
    rw [expressionLength, outside, same, Bool.or_false]
    by_cases none : depth = 0
    · subst none
      cases ends : endsExpression token with
      | true => simp [ends]
      | false => simpa [ends] using later
    · simpa [none] using later

/-! ## Expressions with generic clauses -/

/-- The token is no bracket and nothing that ends an expression. -/
structure IsPlain (token : Token) : Prop where
  not_opening : token.isOpening = false
  not_ending : endsExpression token = false

mutual

/-- The tokens of an expression. Outside round, square and curly brackets, which are properly
nested, the only commas stand between the arguments of generic clauses, and the clauses have as many
arguments as `counts` says. -/
inductive Expression : List Nat → List Token → Prop
  | nil : Expression [] []
  | word {counts : List Nat} {token : Token} {others : List Token} :
      IsPlain token → Expression counts others → Expression counts (token :: others)
  | group {counts : List Nat} {opening closer : Token} {inner others : List Token} :
      opening.isOpening = true → isNested [] inner = true → closer.isClosing = true →
        closer.text = closing opening → Expression counts others →
          Expression counts (opening :: (inner ++ closer :: others))
  | clause {count : Nat} {inner counts : List Nat} {name opening closer : Token}
      {arguments others : List Token} :
      name.isIdentifier = true → opening.isPunctuation "<" = true → opening.start = name.stop →
        TypeArguments count inner arguments → closer.isPunctuation ">" = true →
          Expression counts others →
            Expression (count :: inner ++ counts)
              (name :: opening :: (arguments ++ closer :: others))

/-- The tokens of `count` arguments with commas between them. `counts` is about the clauses inside
the arguments. -/
inductive TypeArguments : Nat → List Nat → List Token → Prop
  | one {counts : List Nat} {tokens : List Token} :
      tokens ≠ [] → Expression counts tokens → TypeArguments 1 counts tokens
  | more {count : Nat} {counts others : List Nat} {comma : Token} {tokens rest : List Token} :
      tokens ≠ [] → Expression counts tokens → comma.isPunctuation "," = true →
        TypeArguments count others rest →
          TypeArguments (count + 1) (counts ++ others) (tokens ++ comma :: rest)

end

/-- Marks that `IsPlain` excludes. -/
def boundaries : List String :=
  ["(", "[", Token.openBrace, ")", "]", Token.closeBrace, ",", ";"]

theorem isPlain_of_isPunctuation {token : Token} {text : String}
    (mark : token.isPunctuation text = true) (other : text ∉ boundaries) : IsPlain token := by
  rw [Token.isPunctuation, Bool.and_eq_true, beq_iff_eq, beq_iff_eq] at mark
  obtain ⟨kind_eq, rfl⟩ := mark
  simp only [boundaries, List.mem_cons, List.not_mem_nil, or_false, not_or] at other
  constructor
  · simp [Token.isOpening, Token.isOneOf, other]
  · simp [endsExpression, Token.isClosing, Token.isOneOf, Token.isPunctuation, other]

theorem isPlain_of_isIdentifier {token : Token} (identifier : token.isIdentifier = true) :
    IsPlain token := by
  rw [Token.isIdentifier, beq_iff_eq] at identifier
  constructor
  · simp [Token.isOpening, identifier]
  · simp [endsExpression, Token.isClosing, Token.isPunctuation, identifier]

theorem IsPlain.depthBehind_eq {token : Token} (plain : IsPlain token) (depth : Nat) :
    depthBehind depth token = depth := by
  have ends := plain.not_ending
  simp only [endsExpression, Bool.or_eq_false_iff] at ends
  simp [depthBehind, plain.not_opening, ends.1.1]

theorem endsExpression_of_comma {token : Token} (comma : token.isPunctuation "," = true) :
    endsExpression token = true := by
  simp [endsExpression, comma]

theorem depthBehind_of_comma {token : Token} (comma : token.isPunctuation "," = true)
    (depth : Nat) : depthBehind depth token = depth := by
  rw [Token.isPunctuation, Bool.and_eq_true, beq_iff_eq, beq_iff_eq] at comma
  simp [depthBehind, Token.isOpening, Token.isClosing, Token.isOneOf, comma, Token.openBrace,
    Token.closeBrace]

theorem not_isOpening_of_isClosing {token : Token} (closes : token.isClosing = true) :
    token.isOpening = false := by
  simp only [Token.isClosing, Token.isOneOf, Bool.and_eq_true, List.contains_iff_mem,
    List.mem_cons, List.not_mem_nil, or_false] at closes
  obtain ⟨_, same | same | same⟩ := closes <;>
    simp [Token.isOpening, Token.isOneOf, same, Token.openBrace, Token.closeBrace]

theorem not_endsExpression_of_isOpening {token : Token} (opens : token.isOpening = true) :
    endsExpression token = false := by
  have closes : token.isClosing = false := by
    by_contra closes
    simp [not_isOpening_of_isClosing (by simpa using closes)] at opens
  simp only [Token.isOpening, Token.isOneOf, Bool.and_eq_true, List.contains_iff_mem,
    List.mem_cons, List.not_mem_nil, or_false] at opens
  obtain ⟨_, same | same | same⟩ := opens <;>
    simp [endsExpression, closes, Token.isPunctuation, same, Token.openBrace]

theorem depthBehind_of_isClosing {token : Token} (closes : token.isClosing = true) (depth : Nat) :
    depthBehind depth token = depth - 1 := by
  rw [depthBehind, if_neg (by simp [not_isOpening_of_isClosing closes]), if_pos closes]

/-! ## What an expression meets outside brackets -/

section Steps

variable {token opening closer : Token} {inner others : List Token}

theorem outside_cons (level : depthBehind 0 token = 0) :
    outside 0 (token :: others) = token :: outside 0 others := by
  rw [outside, if_pos rfl, level]

theorem outside_group (opens : opening.isOpening = true) (nested : isNested [] inner = true)
    (closes : closer.isClosing = true) :
    outside 0 (opening :: (inner ++ closer :: others)) = opening :: outside 0 others := by
  have open_eq : depthBehind 0 opening = 1 := by rw [depthBehind, if_pos opens]
  rw [outside, if_pos rfl, open_eq, outside_append, outside_eq_nil nested Nat.one_pos,
    foldl_depthBehind nested, List.nil_append, outside, if_neg (by simp),
    depthBehind_of_isClosing closes]
  rfl

theorem foldl_group (opens : opening.isOpening = true) (nested : isNested [] inner = true)
    (closes : closer.isClosing = true) :
    (opening :: (inner ++ closer :: others)).foldl depthBehind 0 = others.foldl depthBehind 0 := by
  have open_eq : depthBehind 0 opening = 1 := by rw [depthBehind, if_pos opens]
  rw [List.foldl_cons, open_eq, List.foldl_append, foldl_depthBehind nested, List.foldl_cons,
    depthBehind_of_isClosing closes]
  rfl

end Steps

variable {count : Nat} {counts : List Nat} {tokens : List Token}

theorem TypeArguments.count_pos (arguments : TypeArguments count counts tokens) : 0 < count := by
  cases arguments with
  | one => exact Nat.one_pos
  | more => exact Nat.succ_pos _

mutual

/-- Behind an expression no more brackets are open than in front of it. -/
theorem Expression.foldl_eq {counts : List Nat} {tokens : List Token} :
    Expression counts tokens → tokens.foldl depthBehind 0 = 0
  | .nil => rfl
  | .word plain others => by
    rw [List.foldl_cons, plain.depthBehind_eq]
    exact others.foldl_eq
  | .group opens nested closes _ others => by
    rw [foldl_group opens nested closes]
    exact others.foldl_eq
  | .clause named opens _ arguments closes others => by
    have named := isPlain_of_isIdentifier named
    have opens := isPlain_of_isPunctuation opens (by decide)
    have closes := isPlain_of_isPunctuation closes (by decide)
    rw [List.foldl_cons, named.depthBehind_eq, List.foldl_cons, opens.depthBehind_eq,
      List.foldl_append, arguments.foldl_eq, List.foldl_cons, closes.depthBehind_eq]
    exact others.foldl_eq

theorem TypeArguments.foldl_eq {count : Nat} {counts : List Nat} {tokens : List Token} :
    TypeArguments count counts tokens → tokens.foldl depthBehind 0 = 0
  | .one _ expression => expression.foldl_eq
  | .more _ first comma others => by
    rw [List.foldl_append, first.foldl_eq, List.foldl_cons, depthBehind_of_comma comma]
    exact others.foldl_eq

end

mutual

/-- Nothing that would end the expression is met outside brackets unless a generic clause has
several arguments. -/
theorem Expression.outside_iff {counts : List Nat} {tokens : List Token} :
    Expression counts tokens →
      ((∀ token ∈ outside 0 tokens, endsExpression token = false) ↔ ∀ count ∈ counts, count = 1)
  | .nil => by simp [outside]
  | .word plain others => by
    rw [outside_cons (plain.depthBehind_eq 0), List.forall_mem_cons, others.outside_iff]
    exact and_iff_right plain.not_ending
  | .group opens nested closes _ others => by
    rw [outside_group opens nested closes, List.forall_mem_cons, others.outside_iff]
    exact and_iff_right (not_endsExpression_of_isOpening opens)
  | .clause named opens _ arguments closes others => by
    have named := isPlain_of_isIdentifier named
    have opens := isPlain_of_isPunctuation opens (by decide)
    have closes := isPlain_of_isPunctuation closes (by decide)
    rw [outside_cons (named.depthBehind_eq 0), outside_cons (opens.depthBehind_eq 0),
      outside_append, arguments.foldl_eq, outside_cons (closes.depthBehind_eq 0),
      List.forall_mem_cons, List.forall_mem_cons, List.forall_mem_append, List.forall_mem_cons,
      arguments.outside_iff, others.outside_iff, List.cons_append, List.forall_mem_cons,
      List.forall_mem_append, and_assoc]
    simp only [named.not_ending, opens.not_ending, closes.not_ending, true_and]

theorem TypeArguments.outside_iff {count : Nat} {counts : List Nat} {tokens : List Token} :
    TypeArguments count counts tokens →
      ((∀ token ∈ outside 0 tokens, endsExpression token = false) ↔
        count = 1 ∧ ∀ count ∈ counts, count = 1)
  | .one _ expression => by simpa using expression.outside_iff
  | .more _ first comma others => by
    -- The comma itself is met, and the arguments behind it make the count more than one.
    have some := others.count_pos
    rw [outside_append, first.foldl_eq, outside_cons (depthBehind_of_comma comma 0),
      List.forall_mem_append, List.forall_mem_cons, endsExpression_of_comma comma]
    simp only [Bool.true_eq_false, false_and, and_false, false_iff, not_and]
    omega

end

end PeerExpansion.Extent
