import PeerExpansion.Proofs.Attribute.Arguments

/-! # Argument clauses

An attribute has a clause if a parenthesis opens directly behind its name. When the brackets in the
clause are properly nested, it is read up to the parenthesis that closes it, into one argument more
than it has commas outside brackets.
-/

namespace PeerExpansion.Attribute

open Reading Extent

variable {cursor : Cursor} {tokens : List Token}

/-! ## Arguments -/

/-- One argument stands for the tokens between two commas, or for all of them if there is none. -/
structure Listed (arguments : List Argument) (tokens : List Token) : Prop where
  length_eq : arguments.length = commas tokens + 1
  single : ∀ argument, arguments = [argument] → Labelled argument.label argument.tokens tokens

theorem SplitsInto.listed {source : List Char} {arguments : List Argument}
    (splits : SplitsInto source tokens arguments) (filled : tokens ≠ []) :
    Listed arguments tokens := by
  obtain ⟨segments, divided, -, stands⟩ := splits.some filled
  refine ⟨stands.length_eq ▸ divided.length_eq, ?_⟩
  rintro argument rfl
  cases divided with
  | single =>
    obtain ⟨labelled, -⟩ := List.forall₂_cons.mp stands
    exact labelled.labelled
  | comma _ _ _ later =>
    -- Behind a comma there is another segment, and no argument is left for it.
    cases later <;> cases stands.length_eq

/-! ## Attributes -/

/-- What stands behind a name that ends with `last`: an argument clause, which opens directly behind
the name, or anything else that does not go on with the name. The clause is known by the tokens
between its parentheses. -/
inductive Follows (last : Token) : Option (List Token) → List Token → Prop
  | other {rest : List Token} :
      (∀ token ∈ rest.head?, ¬ (token.reads "(" = true ∧ token.start = last.stop)) →
      (∀ point name others, rest = point :: name :: others →
        ¬ (point.reads "." = true ∧ name.isIdentifier = true)) →
      Follows last none rest
  | clause {opening closing : Token} {tokens more : List Token} : opening.reads "(" = true →
      opening.start = last.stop → isNested [] tokens = true → closing.reads ")" = true →
      Follows last (some tokens) (opening :: (tokens ++ closing :: more))

/-- The tokens begin with an attribute. If it has an argument clause, the brackets in the clause are
properly nested. -/
inductive Begins (clause : Option (List Token)) : List Token → Prop
  | intro {mark first : Token} {members rest : List Token} : mark.reads "@" = true →
      first.isIdentifier = true → Members members → Follows (members.getLastD first) clause rest →
      Begins clause (mark :: first :: (members ++ rest))

theorem Begins.subset {clause : Option (List Token)} {words : List Token}
    (begins : Begins clause words) : clause.getD [] ⊆ words := by
  cases begins with
  | intro _ _ _ follows =>
    cases follows with
    | other => exact List.nil_subset _
    | clause =>
      intro token member
      rw [Option.getD_some] at member
      simp [member]

theorem Follows.ends {last : Token} {clause : Option (List Token)} {rest : List Token}
    (follows : Follows last clause rest) (point name : Token) (others : List Token)
    (same : rest = point :: name :: others) :
    ¬ (point.reads "." = true ∧ name.isIdentifier = true) := by
  cases follows with
  | other _ ends => exact ends point name others same
  | clause opens =>
    rintro ⟨point_reads, -⟩
    obtain ⟨rfl, -⟩ := List.cons.inj same
    rw [Token.reads, Bool.and_eq_true, beq_iff_eq] at opens point_reads
    exact absurd (opens.2.symm.trans point_reads.2) (by decide)

theorem reads_readMembersWithin_nil {limit : Nat} (ends : ¬ (cursor.current.reads "." = true ∧
    (cursor.ahead 1).isIdentifier = true)) : Reads (readMembersWithin limit) cursor [] cursor := by
  cases limit with
  | zero => exact reads_pure.mpr ⟨rfl, rfl⟩
  | succ limit => simpa [readMembersWithin, reads_ite] using ends

theorem reads_readMembersWithin_cons {limit : Nat} {names : List Token} {next : Cursor}
    (point : cursor.current.reads "." = true) (name : (cursor.ahead 1).isIdentifier = true)
    (later : Reads (readMembersWithin limit) (cursor.skip 2) names next) :
    Reads (readMembersWithin (limit + 1)) cursor (cursor.ahead 1 :: names) next := by
  simpa [readMembersWithin, reads_ite, point, name] using later

/-- A dotted name is read as far as it goes. -/
theorem exists_reads_readMembersWithin {members rest : List Token} (named : Members members)
    (behind_eq : cursor.behind = members ++ rest) (ending : cursor.ending.isIdentifier = false)
    (ends : ∀ point name others, rest = point :: name :: others →
      ¬ (point.reads "." = true ∧ name.isIdentifier = true)) {limit : Nat}
    (within : members.length ≤ limit) (first : Token) :
    ∃ names, Reads (readMembersWithin limit) cursor names (cursor.skip members.length) ∧
      names.getLastD first = members.getLastD first := by
  induction named generalizing cursor limit first with
  | nil =>
    refine ⟨[], reads_readMembersWithin_nil ?_, rfl⟩
    rintro ⟨point, name⟩
    -- The next token but one is a name only if it is no ending.
    match rest, behind_eq, ends with
    | [], behind_eq, _ => simp [Cursor.ahead, behind_eq, ending] at name
    | [_], behind_eq, _ => simp [Cursor.ahead, behind_eq, ending] at name
    | token :: follower :: others, behind_eq, ends =>
      rw [Cursor.current_of_behind behind_eq] at point
      rw [Cursor.ahead_one_of_behind behind_eq] at name
      exact ends token follower others rfl ⟨point, name⟩
  | @cons point word others point_reads word_named _ inductionHypothesis =>
    obtain ⟨limit, rfl⟩ : ∃ shorter, limit = shorter + 1 :=
      ⟨limit - 1, by rw [List.length_cons] at within; omega⟩
    have current_eq : cursor.current = point := Cursor.current_of_behind behind_eq
    have word_eq : cursor.ahead 1 = word := Cursor.ahead_one_of_behind behind_eq
    have later_eq : (cursor.skip 2).behind = others ++ rest :=
      @Cursor.behind_skip _ [point, word] _ behind_eq
    have shorter : others.length ≤ limit := by
      simp only [List.length_cons] at within
      omega
    obtain ⟨names, later, last_eq⟩ := inductionHypothesis later_eq ending shorter word
    have length_eq : (point :: word :: others).length = 2 + others.length := by
      simp only [List.length_cons]
      omega
    refine ⟨cursor.ahead 1 :: names, ?_, ?_⟩
    · rw [length_eq, ← Cursor.skip_skip]
      exact reads_readMembersWithin_cons (current_eq ▸ point_reads) (word_eq ▸ word_named) later
    · rw [List.getLastD_cons, word_eq, last_eq, List.getLastD_cons, List.getLastD_cons]

/-- The mark and the dotted name behind it are read as far as the name goes. -/
theorem exists_reads_name {mark first : Token} {members rest : List Token}
    (behind_eq : cursor.behind = mark :: first :: (members ++ rest))
    (mark_reads : mark.reads "@" = true) (first_named : first.isIdentifier = true)
    (named : Members members) (ending : cursor.ending.isIdentifier = false)
    (ends : ∀ point name others, rest = point :: name :: others →
      ¬ (point.reads "." = true ∧ name.isIdentifier = true)) :
    ∃ names next, Reads (expect "@") cursor mark (cursor.skip 1) ∧
      Reads (expectIdentifier "attribute name") (cursor.skip 1) first (cursor.skip 2) ∧
      Reads readMembers (cursor.skip 2) names next ∧
      names.getLastD first = members.getLastD first ∧
      next.behind = rest ∧ next.ending = cursor.ending := by
  have mark_eq : cursor.current = mark := Cursor.current_of_behind behind_eq
  have first_eq : (cursor.skip 1).current = first :=
    Cursor.current_of_behind (@Cursor.behind_skip _ [mark] _ behind_eq)
  have members_eq : (cursor.skip 2).behind = members ++ rest :=
    @Cursor.behind_skip _ [mark, first] _ behind_eq
  have within : members.length ≤ (cursor.skip 2).remaining := by
    rw [Cursor.remaining, members_eq, List.length_append]
    exact Nat.le_add_right _ _
  obtain ⟨names, namesRead, last_eq⟩ :=
    exists_reads_readMembersWithin named members_eq ending ends within first
  refine ⟨names, _, ?_, ?_, reads_readMembers.mpr namesRead, last_eq,
    Cursor.behind_skip members_eq, rfl⟩
  · exact reads_expect.mpr ⟨mark_eq ▸ mark_reads, mark_eq.symm, rfl⟩
  · exact reads_expectIdentifier.mpr
      ⟨first_eq ▸ first_named, first_eq.symm, by rw [Cursor.skip_skip]⟩

/-- Where no clause opens directly behind the name, the next token tells so; at the end this is the
ending, which reads like no parenthesis. -/
theorem not_opens_of_head {last : Token} {rest : List Token} (behind_eq : cursor.behind = rest)
    (ending_text : cursor.ending.text = "")
    (unopened : ∀ token ∈ rest.head?, ¬ (token.reads "(" = true ∧ token.start = last.stop)) :
    (cursor.current.reads "(" && cursor.current.start == last.stop) = false := by
  rw [Bool.eq_false_iff, Ne, Bool.and_eq_true, beq_iff_eq]
  cases rest with
  | nil =>
    have current_eq : cursor.current = cursor.ending := by
      simp [Cursor.current, Cursor.ahead, behind_eq]
    simp [current_eq, Token.reads, ending_text]
  | cons token others =>
    rw [Cursor.current_of_behind behind_eq]
    exact unopened token rfl

section Scanned

variable {source : List Char} {stream : TokenStream} {index : Nat} {content : Option (List Token)}

/-- An attribute is read with as many arguments as its clause asks for. -/
theorem exists_reads_read (scanned : TokenStream.scan source = .ok stream)
    (begins : Begins content (stream.words.drop index)) :
    ∃ attr last, Reads Attribute.read (.ofStream stream index) attr last ∧
      (content.getD [] = [] → attr.arguments.getD [] = []) ∧
      (content.getD [] ≠ [] → Listed (attr.arguments.getD []) (content.getD [])) := by
  obtain ⟨-, ordered⟩ := TokenStream.ordered_of_scan scanned
  -- Of the stream it only counts that what reads like a parenthesis in it is one.
  have marks : ∀ token ∈ stream.words.drop index,
      token.reads ")" = true → token.isPunctuation ")" = true := fun token member =>
    TokenStream.isPunctuation_of_mem scanned rfl (by decide) (List.mem_of_mem_drop member)
  have not_named : (Cursor.ofStream stream index).ending.isIdentifier = false := by
    show stream.ending.isIdentifier = false
    rw [Token.isIdentifier, ordered.ending_kind]
    rfl
  have behind_eq : (Cursor.ofStream stream index).behind = stream.words.drop index := rfl
  have ending_text : (Cursor.ofStream stream index).ending.text = "" := ordered.ending_text
  generalize Cursor.ofStream stream index = cursor at behind_eq ending_text not_named ⊢
  generalize stream.words.drop index = words at begins marks behind_eq
  cases begins with
  | @intro mark first members rest mark_reads first_named named follows =>
  obtain ⟨names, next, marked, opened, namesRead, last_eq, rest_eq, ending_eq⟩ :=
    exists_reads_name behind_eq mark_reads first_named named not_named follows.ends
  simp only [Attribute.read, marked.bind_iff, opened.bind_iff, namesRead.bind_iff, last_eq,
    (reads_current.mpr ⟨rfl, rfl⟩).bind_iff]
  cases follows with
  | other unopened ends =>
    simp only [not_opens_of_head rest_eq (ending_eq ▸ ending_text) unopened, Bool.false_eq_true,
      if_false, reads_pure]
    exact ⟨_, _, ⟨rfl, rfl⟩, fun _ => rfl, fun filled => absurd rfl filled⟩
  | @clause opening closing tokens more opens adjacent nested closes =>
    have direct : (next.current.reads "(" &&
        next.current.start == (members.getLastD first).stop) = true := by
      simp [Cursor.current_of_behind rest_eq, opens, adjacent]
    have inner (token : Token) (member : token ∈ tokens) := marks token (by simp [member])
    obtain ⟨arguments, argumentsRead, splits⟩ := exists_reads_readArguments rest_eq opens nested
      (marks closing (by simp) closes) inner
    simp only [direct, if_true, argumentsRead.bind_iff, (reads_get.mpr ⟨rfl, rfl⟩).bind_iff,
      reads_pure]
    exact ⟨_, _, ⟨rfl, rfl⟩, splits.none, splits.listed⟩

end Scanned

end PeerExpansion.Attribute
