import PeerExpansion.CachedProperty.MarkerFlag
import PeerExpansion.Proofs.Attribute.Clause
import PeerExpansion.Proofs.Token.Junction

/-! # What an argument clause means

A clause without arguments leaves the marker to the configuration. A clause that is a literal, with
or without its label, decides about it, and any other clause is refused: because of its commas if it
has some outside brackets, and as no literal otherwise.
-/

namespace PeerExpansion.CachedProperty

open Extent Reading

variable {configuration : Configuration} {attr : Attribute} {argument : Argument} {label : String}
  {flag : Bool} {tokens : List Token}

/-- How a literal is written. -/
def literalText : Bool → String
  | true => "true"
  | false => "false"

/-- The tokens are a literal, alone or behind the label and a colon. -/
def IsLiteral (label : String) (flag : Bool) (tokens : List Token) : Prop :=
  tokens.map Token.word = [.identifier (literalText flag)] ∨
    tokens.map Token.word = [.identifier label, .mark ":", .identifier (literalText flag)]

theorem IsLiteral.ne_nil (literal : IsLiteral label flag tokens) : tokens ≠ [] := by
  rintro rfl
  obtain literal | literal := literal <;> cases literal

theorem IsLiteral.commas_eq (literal : IsLiteral label flag tokens) : commas tokens = 0 := by
  have plain : ∀ word ∈ tokens.map Token.word, word ≠ .mark "," := by
    obtain words_eq | words_eq := literal <;> rw [words_eq] <;> simp [Word.identifier, Word.mark]
  rw [commas_eq_zero_iff]
  intro token member
  have inside : token.word ∈ tokens.map Token.word :=
    List.mem_map_of_mem ((outside_sublist 0 tokens).mem member)
  refine Bool.eq_false_iff.mpr fun comma => plain _ inside ?_
  obtain ⟨kind_eq, text_eq⟩ := Token.isPunctuation_iff.mp comma
  simp [Token.word, Word.mark, kind_eq, text_eq]

theorem IsLiteral.unique {other : Bool} (literal : IsLiteral label flag tokens)
    (otherLiteral : IsLiteral label other tokens) : flag = other := by
  have injective : ∀ first second : Bool,
      literalText first = literalText second → first = second := by
    decide
  obtain words_eq | words_eq := literal <;> obtain other_eq | other_eq := otherLiteral <;>
    simp [words_eq, Word.identifier] at other_eq <;> exact injective _ _ other_eq

theorem word_eq_identifier_iff {token : Token} {text : String} :
    token.word = .identifier text ↔ token.isIdentifier = true ∧ token.text = text := by
  simp [Token.word, Word.identifier, Token.isIdentifier]

/-- The literals are written like identifiers, and what is written like one is one. -/
theorem literal?_eq_some_iff
    (known : ∀ token ∈ argument.tokens, IsIdentifier token.text → token.isIdentifier = true) :
    argument.literal? = some flag ↔
      argument.tokens.map Token.word = [.identifier (literalText flag)] := by
  have spelled : ∀ flag : Bool, IsIdentifier (literalText flag) := by decide
  unfold Argument.literal?
  match tokens_eq : argument.tokens with
  | [] => simp
  | [token] =>
    rw [tokens_eq, List.forall_mem_singleton] at known
    have literal : token.word = .identifier (literalText flag) ↔ token.text = literalText flag := by
      rw [word_eq_identifier_iff, and_iff_right_iff_imp]
      exact fun text_eq => known (text_eq ▸ spelled flag)
    rw [List.map_singleton, List.singleton_inj, literal]
    by_cases yes : token.text = "true"
    · cases flag <;> simp [yes, literalText]
    · by_cases no : token.text = "false"
      · cases flag <;> simp [no, literalText]
      · cases flag <;> simp [yes, no, literalText]
  | first :: second :: others => simp

/-- What an argument means is told from its tokens. -/
theorem literal_iff (labelled : configuration.argumentLabel = .text label)
    (stands : Attribute.Labelled argument.label argument.tokens tokens)
    (known : ∀ token ∈ argument.tokens, IsIdentifier token.text → token.isIdentifier = true) :
    labelFits configuration argument = true ∧ argument.literal? = some flag ↔
      IsLiteral label flag tokens := by
  rw [literal?_eq_some_iff known, labelFits, IsLiteral]
  generalize argument.label = written, argument.tokens = expression at stands
  cases stands with
  | plain unlabelled =>
    rw [and_iff_right rfl, or_iff_left]
    intro words_eq
    -- A label with its colon would have been read as one.
    match tokens, words_eq, unlabelled with
    | [_], words_eq, _ => simp at words_eq
    | name :: colon :: others, words_eq, unlabelled =>
      rw [List.map_cons, List.map_cons, List.cons.injEq, List.cons.injEq] at words_eq
      obtain ⟨name_eq, colon_eq, -⟩ := words_eq
      refine unlabelled name colon others rfl ⟨(word_eq_identifier_iff.mp name_eq).1, ?_⟩
      simpa [Token.word, Word.mark, Token.isPunctuation] using colon_eq
  | @label name colon expression named isColon =>
    have label_eq : (configuration.argumentLabel == .text name.text) = true ↔
        name.word = .identifier label := by
      rw [labelled, word_eq_identifier_iff, and_iff_right named, beq_iff_eq, Json.text.injEq]
      exact eq_comm
    dsimp only
    rw [label_eq, List.map_cons, List.map_cons, Token.word_eq_mark isColon]
    simp

/-! ## Verdicts -/

/-- What the tokens between the parentheses mean, where `configured` stands for the setting. -/
inductive Verdict (label name : String) (configured : Json) (tokens : List Token) :
    Except Refusal Json → Prop
  | empty : tokens = [] → Verdict label name configured tokens (.ok configured)
  | literal {flag : Bool} : IsLiteral label flag tokens →
      Verdict label name configured tokens (.ok (.bool flag))
  | several : commas tokens ≠ 0 → Verdict label name configured tokens
      (.error ⟨name, .tooManyArguments (commas tokens + 1)⟩)
  | other : tokens ≠ [] → (∀ flag, ¬ IsLiteral label flag tokens) → commas tokens = 0 →
      Verdict label name configured tokens (.error ⟨name, .notLiteral⟩)

section Verdicts

variable {name : String} {configured : Json} {result : Except Refusal Json}

theorem Verdict.eq_ok_of_empty (verdict : Verdict label name configured tokens result)
    (empty : tokens = []) : result = .ok configured := by
  subst empty
  cases verdict with
  | empty => rfl
  | literal literal => exact absurd rfl literal.ne_nil
  | several several => exact absurd rfl several
  | other filled => exact absurd rfl filled

theorem Verdict.eq_ok_of_literal (verdict : Verdict label name configured tokens result)
    (literal : IsLiteral label flag tokens) : result = .ok (.bool flag) := by
  cases verdict with
  | empty empty => exact absurd empty literal.ne_nil
  | literal other => rw [literal.unique other]
  | several several => exact absurd literal.commas_eq several
  | other _ unlike => exact absurd literal (unlike flag)

theorem Verdict.eq_error_iff_several (verdict : Verdict label name configured tokens result)
    (count : Int) : result = .error ⟨name, .tooManyArguments count⟩ ↔
      commas tokens ≠ 0 ∧ count = commas tokens + 1 := by
  cases verdict with
  | empty empty => simp [empty, commas, outside]
  | literal literal => simp [literal.commas_eq]
  | several several => simp [several, eq_comm]
  | other _ _ none => simp [none]

theorem Verdict.eq_error_iff_other (verdict : Verdict label name configured tokens result) :
    result = .error ⟨name, .notLiteral⟩ ↔
      tokens ≠ [] ∧ (∀ flag, ¬ IsLiteral label flag tokens) ∧ commas tokens = 0 := by
  cases verdict with
  | empty empty => simp [empty]
  | @literal flag literal =>
    exact ⟨nofun, fun other => absurd literal (other.2.1 flag)⟩
  | several several => simp [several]
  | other filled unlike none => simp [filled, unlike, none]

end Verdicts

/-- The arguments of a clause are judged by its tokens. -/
theorem verdict_of_listed (labelled : configuration.argumentLabel = .text label)
    (empty : tokens = [] → attr.arguments.getD [] = [])
    (listed : tokens ≠ [] → Attribute.Listed (attr.arguments.getD []) tokens)
    (known : ∀ token ∈ tokens, IsIdentifier token.text → token.isIdentifier = true) :
    Verdict label attr.name configuration.emitPersistenceMarker tokens
      (markerFlag configuration attr) := by
  by_cases none : tokens = []
  · rw [markerFlag, empty none]
    exact .empty none
  · obtain ⟨length_eq, single⟩ := listed none
    rw [markerFlag]
    -- There is one argument more than there are commas, so its number tells which case it is.
    match attr.arguments.getD [], length_eq, single with
    | [argument], length_eq, single =>
      have commaless : commas tokens = 0 := (Nat.succ.inj length_eq).symm
      have stands := single argument rfl
      have meaning (flag : Bool) : labelFits configuration argument = true ∧
          argument.literal? = some flag ↔ IsLiteral label flag tokens :=
        literal_iff labelled stands fun token member => known token (stands.subset member)
      dsimp only
      split
      next value fits literal => exact .literal ((meaning value).mp ⟨fits, literal⟩)
      next other =>
        refine .other none (fun flag literal => ?_) commaless
        obtain ⟨fits, known⟩ := (meaning flag).mpr literal
        exact other flag fits known
    | first :: second :: others, length_eq, _ =>
      dsimp only
      rw [length_eq]
      refine .several ?_
      rintro commaless
      rw [commaless] at length_eq
      cases length_eq

variable {source : List Char} {stream : TokenStream} {index : Nat} {content : Option (List Token)}

/-- What an attribute with properly nested brackets in its clause answers: the configured value if
it has no clause or an empty one, a truth value if the clause is a literal, and otherwise a
complaint, about the commas outside brackets or, without any, about the literal. -/
theorem markerFlag_of_begins (scanned : TokenStream.scan source = .ok stream)
    (begins : Attribute.Begins content (stream.words.drop index))
    (labelled : configuration.argumentLabel = .text label) :
    ∃ attr last, Reads Attribute.read (.ofStream stream index) attr last ∧
      ((∀ value, markerFlag { configuration with emitPersistenceMarker := value } attr =
          .ok value) ↔ content = none ∨ content = some []) ∧
      (∀ flag, (∀ value, markerFlag { configuration with emitPersistenceMarker := value } attr =
          .ok (.bool flag)) ↔ IsLiteral label flag (content.getD [])) ∧
      (∀ count, markerFlag configuration attr = .error ⟨attr.name, .tooManyArguments count⟩ ↔
        commas (content.getD []) ≠ 0 ∧ count = commas (content.getD []) + 1) ∧
      (markerFlag configuration attr = .error ⟨attr.name, .notLiteral⟩ ↔
        content.getD [] ≠ [] ∧ (∀ flag, ¬ IsLiteral label flag (content.getD [])) ∧
          commas (content.getD []) = 0) := by
  obtain ⟨attr, last, read, empty, listed⟩ := Attribute.exists_reads_read scanned begins
  have known : ∀ token ∈ content.getD [], IsIdentifier token.text → token.isIdentifier = true :=
    fun token member => TokenStream.isIdentifier_of_text scanned
      (List.mem_of_mem_drop (begins.subset member))
  have verdict (value : Json) : Verdict label attr.name value (content.getD [])
      (markerFlag { configuration with emitPersistenceMarker := value } attr) :=
    @verdict_of_listed { configuration with emitPersistenceMarker := value } _ _ _ labelled empty
      listed known
  refine ⟨attr, last, read, ⟨fun all => ?_, fun none value => ?_⟩,
    fun flag => ⟨fun all => ?_, fun literal value => (verdict value).eq_ok_of_literal literal⟩,
    fun count => (verdict configuration.emitPersistenceMarker).eq_error_iff_several count,
    (verdict configuration.emitPersistenceMarker).eq_error_iff_other⟩
  · have empty := verdict .null
    rw [all .null] at empty
    cases empty with
    | empty empty => cases content <;> simp_all
  · refine (verdict value).eq_ok_of_empty ?_
    obtain rfl | rfl := none <;> rfl
  · have literal := verdict .null
    rw [all .null] at literal
    cases literal with
    | literal literal => exact literal

/-- A literal with its label behind a dotted name. -/
def labelledSample : List Char :=
  "@Image.Cached(on: false)".toList

def labelledContent : List Token :=
  [⟨.identifier, "on", ⟨1, 15, 14⟩⟩, ⟨.punctuation, ":", ⟨1, 17, 16⟩⟩,
    ⟨.identifier, "false", ⟨1, 19, 18⟩⟩]

def labelledWords : List Token :=
  ⟨.punctuation, "@", ⟨1, 1, 0⟩⟩ :: ⟨.identifier, "Image", ⟨1, 2, 1⟩⟩ ::
    ([⟨.punctuation, ".", ⟨1, 7, 6⟩⟩, ⟨.identifier, "Cached", ⟨1, 8, 7⟩⟩] ++
      ⟨.punctuation, "(", ⟨1, 14, 13⟩⟩ ::
        (labelledContent ++ [⟨.punctuation, ")", ⟨1, 24, 23⟩⟩]))

theorem begins_labelledWords : Attribute.Begins (some labelledContent) labelledWords :=
  .intro (by decide) (by decide) (.cons (by decide) (by decide) .nil)
    (.clause (by decide) (by decide) (by decide) (by decide))

set_option maxRecDepth 20000 in
theorem markerFlag_of_begins_labelledSample : ∃ stream attr last,
    TokenStream.scan labelledSample = .ok stream ∧
      Reads Attribute.read (.ofStream stream 0) attr last ∧
      markerFlag { argumentLabel := .text "on", emitPersistenceMarker := .bool true } attr =
        .ok (.bool false) := by
  have words_eq : (TokenStream.scan labelledSample).toOption.map TokenStream.words =
      some labelledWords := by
    decide +kernel
  obtain ⟨stream, scanned, words_eq⟩ := exists_of_map words_eq
  have begins : Attribute.Begins (some labelledContent) (stream.words.drop 0) := by
    rw [List.drop_zero, words_eq]
    exact begins_labelledWords
  have labelled :
      ({ argumentLabel := .text "on" } : Configuration).argumentLabel = .text "on" := rfl
  obtain ⟨attr, last, read, -, literal, -⟩ := markerFlag_of_begins scanned begins labelled
  exact ⟨stream, attr, last, scanned, read, (literal false).mpr (.inr (by decide)) (.bool true)⟩

end PeerExpansion.CachedProperty
