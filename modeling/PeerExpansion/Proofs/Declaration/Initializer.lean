import PeerExpansion.Proofs.Declaration.Binding
import PeerExpansion.Proofs.Declaration.Clauses
import PeerExpansion.Proofs.Declaration.Parts
import PeerExpansion.Proofs.Declaration.Taking

/-! # Variables with an initializer

What a source of the form `var name: type = expression` is parsed as depends on where its
initializer ends. All of the expression is taken unless one of its generic clauses has several
arguments.
-/

namespace PeerExpansion

open Reading

/-- The tokens are those of `var name: type = expression` with the equals sign at `place`. -/
structure TokenStream.Assigns (stream : TokenStream) (place : Nat) : Prop where
  front : ∃ name, (stream.words.take 3).map Token.word =
    [.identifier "var", .identifier name, .mark ":"]
  type : ∃ type, Reads TypeExpr.read (.ofStream stream 3) type (.ofStream stream place)
  equals : (stream.token place).word = .mark "="
  filled : place + 1 < stream.words.length

/-- The source is a variable with a single binding, and `text` is its initializer. -/
def Declaration.Initializes (source : List Char) (text : String) : Prop :=
  ∃ declaration binding, Declaration.parse source = .ok declaration ∧
    declaration.bindings = [binding] ∧ binding.initializer = some text

theorem TokenStream.Ordered.length_textOf_lt {stream : TokenStream} (ordered : stream.Ordered)
    {first next other : Nat} (order : first < next) (before : next < other)
    (inside : other ≤ stream.words.length) :
    (stream.textOf first next).length < (stream.textOf first other).length := by
  have starts := ordered.start_le_start (Nat.le_sub_one_of_lt order)
  have nonempty := ordered.start_lt_stop (show next - 1 < stream.words.length by omega)
  have apart := ordered.stop_le_start (show next - 1 < other - 1 by omega) (by omega)
  have filled := ordered.start_lt_stop (show other - 1 < stream.words.length by omega)
  rw [textOf, textOf, if_pos order, if_pos (Nat.lt_trans order before),
    Text.length_slice _ (ordered.stop_le_length (by omega)),
    Text.length_slice _ (ordered.stop_le_length (by omega))]
  omega

namespace Declaration

variable {source : List Char} {stream : TokenStream} {place : Nat} {last : Cursor}

theorem expressionLength_drop (inside : place < stream.words.length)
    (starts : Extent.endsExpression (stream.token place) = false) :
    Extent.expressionLength (stream.token place) 0 (stream.words.drop place) =
      1 + Extent.expressionLength (stream.token place)
        (Extent.depthBehind 0 (stream.token place)) (stream.words.drop (place + 1)) := by
  have same : Extent.startsNewLine (stream.token place) (stream.token place) = false := by
    simp [Extent.startsNewLine]
  rw [List.drop_eq_getElem_cons inside, ← TokenStream.token_eq_getElem inside,
    Extent.expressionLength, starts, same, Nat.add_comm]
  rfl

/-- An initializer takes as many words as its length says. -/
theorem reads_readInitializer_ofStream (ordered : stream.Ordered)
    (inside : place < stream.words.length)
    (starts : Extent.endsExpression (stream.token place) = false) {next : Nat}
    (next_eq : next = place +
      Extent.expressionLength (stream.token place) 0 (stream.words.drop place)) :
    Reads readInitializer (.ofStream stream place) (String.ofList (stream.textOf place next))
      (.ofStream stream next) := by
  have word : (stream.token place).kind ≠ .ending := by
    rw [TokenStream.token_eq_getElem inside]
    exact (ordered.filled _ (List.getElem_mem inside)).1
  have bound := expressionLength_le (stream.token place)
    (Extent.depthBehind 0 (stream.token place)) (stream.words.drop (place + 1))
  rw [List.length_drop] at bound
  rw [expressionLength_drop inside starts] at next_eq
  refine reads_readInitializer.mpr ⟨?_, ?_, ?_⟩
  · simp [starts, word]
  · rw [Cursor.skip_ofStream, Cursor.skip_ofStream, Cursor.current_ofStream, next_eq]
    rfl
  · rw [Cursor.current_ofStream,
      ← Cursor.textSince_ofStream (show place < next by omega) (by omega), String.ofList_toList]

/-- An initializer that ends in front of another word is shorter than all of the words. -/
theorem length_eq_of_reads_readInitializer (ordered : stream.Ordered)
    (inside : place < stream.words.length)
    (read : Reads readInitializer (.ofStream stream place)
      (String.ofList (stream.textOf place stream.words.length)) last) :
    Extent.endsExpression (stream.token place) = false ∧
      Extent.expressionLength (stream.token place) 0 (stream.words.drop place) =
        (stream.words.drop place).length := by
  have starts : Extent.endsExpression (stream.token place) = false := by
    have starts := (reads_readInitializer.mp read).1
    rw [Cursor.current_ofStream, Bool.or_eq_true, not_or] at starts
    exact Bool.eq_false_iff.mpr starts.2
  refine ⟨starts, ?_⟩
  obtain ⟨text_eq, -⟩ := read.unique (reads_readInitializer_ofStream ordered inside starts rfl)
  have length_eq := expressionLength_drop inside starts
  have bound := expressionLength_le (stream.token place) 0 (stream.words.drop place)
  rw [List.length_drop] at bound ⊢
  -- A shorter expression would have a shorter text.
  by_contra shorter
  have lengths := ordered.length_textOf_lt
    (show place < place +
      Extent.expressionLength (stream.token place) 0 (stream.words.drop place) by omega)
    (by omega) (Nat.le_refl _)
  rw [← String.ofList_injective text_eq] at lengths
  exact Nat.lt_irrefl _ lengths

end Declaration

/-! ## The parts of the variable -/

namespace TokenStream.Assigns

variable {source : List Char} {stream : TokenStream} {place : Nat} {last : Cursor}
variable (assigns : stream.Assigns place) (scanned : TokenStream.scan source = .ok stream)
include assigns scanned

theorem exists_faces : ∃ name rest, IsIdentifier name ∧
    (Cursor.ofStream stream 0).Faces
      (.identifier "var" :: .identifier name :: .mark ":" :: rest) := by
  obtain ⟨name, front⟩ := assigns.front
  have member : Word.identifier name ∈ (stream.words.take 3).map Token.word := by simp [front]
  obtain ⟨token, member, word_eq⟩ := List.mem_map.mp member
  have text_eq : token.text = name := congrArg Word.text word_eq
  have identifier := isIdentifier_of_scan scanned token (List.mem_of_mem_take member)
    (congrArg Word.kind word_eq)
  have faces := Cursor.faces_of_scan scanned
  rw [← List.take_append_drop 3 stream.words, List.map_append, front] at faces
  exact ⟨name, _, text_eq ▸ identifier, faces⟩

/-- Without attributes and modifiers the keyword is the first word. -/
theorem reads_front : ∃ attributes modifiers keyword,
    Reads Attribute.readAll (.ofStream stream 0) attributes (.ofStream stream 0) ∧
      Reads Declaration.readModifiers (.ofStream stream 0) modifiers (.ofStream stream 0) ∧
        Reads Declaration.readKeyword (.ofStream stream 0) (keyword, .property)
          (.ofStream stream 1) := by
  obtain ⟨name, rest, -, faces⟩ := assigns.exists_faces scanned
  obtain ⟨attributes, -, attributesRead⟩ := Attribute.yields_readAll_nil rfl _ faces
  obtain ⟨modifiers, -, modifiersRead⟩ :=
    Declaration.yields_readModifiers_nil (.cons (by decide) _) _ faces
  obtain ⟨⟨keyword, kind⟩, kind_eq, keywordRead⟩ := Declaration.yields_readKeyword _ faces
  obtain rfl : kind = .property := kind_eq
  rw [Cursor.skip_ofStream] at keywordRead
  exact ⟨attributes, modifiers, keyword, attributesRead, modifiersRead, keywordRead⟩

theorem reads_pattern : ∃ pattern,
    Reads Pattern.read (.ofStream stream 1) pattern (.ofStream stream 2) := by
  obtain ⟨name, rest, identifier, faces⟩ := assigns.exists_faces scanned
  have faces := @Cursor.Faces.skip _ [.identifier "var"] _ faces
  rw [Cursor.skip_ofStream] at faces
  obtain ⟨pattern, -, read⟩ := Declaration.yields_readPattern identifier _ faces
  rw [Cursor.skip_ofStream] at read
  exact ⟨pattern, read⟩

theorem reads_readType? : ∃ type,
    Reads Declaration.readType? (.ofStream stream 2) (some type) (.ofStream stream place) := by
  obtain ⟨name, rest, -, faces⟩ := assigns.exists_faces scanned
  obtain ⟨type, typeRead⟩ := assigns.type
  have colon : (Cursor.ofStream stream 2).current.reads ":" = true := by
    have word_eq := faces.word_ahead 2
    rw [Cursor.ahead_ofStream] at word_eq
    rw [Cursor.current_ofStream, Token.reads_eq]
    exact congrArg (Word.reads · ":") word_eq
  refine ⟨type, ?_⟩
  rw [Declaration.readType?, Reads, run_check_bind, if_pos colon, run_skip_bind,
    Cursor.skip_ofStream]
  exact typeRead.bind_iff.mpr (reads_pure.mpr ⟨rfl, rfl⟩)

omit scanned in
theorem reads_readInitializer?_iff {initializer : Option String} :
    Reads Declaration.readInitializer? (.ofStream stream place) initializer last ↔
      ∃ text, Reads Declaration.readInitializer (.ofStream stream (place + 1)) text last ∧
        initializer = some text := by
  have equals : (Cursor.ofStream stream place).current.reads "=" = true := by
    rw [Cursor.current_ofStream, Token.reads_eq, assigns.equals]
    rfl
  rw [Declaration.readInitializer?, Reads, run_check_bind, if_pos equals, run_skip_bind,
    Cursor.skip_ofStream]
  show Reads _ _ _ _ ↔ _
  simp only [reads_bind, reads_pure]
  constructor
  · rintro ⟨text, _, read, rfl, rfl⟩
    exact ⟨text, read, rfl⟩
  · rintro ⟨text, read, rfl⟩
    exact ⟨text, _, read, rfl, rfl⟩

/-- The declaration has the bindings that are read behind the keyword. -/
theorem exists_read_iff {bindings : List Binding} :
    (∃ declaration, Reads Declaration.read (.ofStream stream 0) declaration last ∧
        declaration.bindings = bindings) ↔
      Reads (separated "," Declaration.readBinding) (.ofStream stream 1) bindings last := by
  obtain ⟨attributes, modifiers, keyword, attributesRead, modifiersRead, keywordRead⟩ :=
    assigns.reads_front scanned
  have first : Reads current (.ofStream stream 0) (stream.token 0) (.ofStream stream 0) :=
    reads_current.mpr ⟨Cursor.current_ofStream.symm, rfl⟩
  -- All that is read in front of the bindings is known.
  simp only [Declaration.read, first.bind_iff, attributesRead.bind_iff, modifiersRead.bind_iff,
    keywordRead.bind_iff]
  simp only [reduceIte, reads_bind, reads_pure, reads_get, reads_textSince, and_assoc,
    exists_and_left, exists_eq_left]
  constructor
  · rintro ⟨declaration, ⟨bindings, _, bindingsRead, rfl, rfl⟩, rfl⟩
    exact bindingsRead
  · exact fun bindingsRead => ⟨_, ⟨bindings, _, bindingsRead, rfl, rfl⟩, rfl⟩

/-- Behind the type there is an initializer, and perhaps accessors. -/
theorem exists_readBinding_iff : ∃ pattern type, ∀ binding last,
    Reads Declaration.readBinding (.ofStream stream 1) binding last ↔
      ∃ text middle accessors,
        Reads Declaration.readInitializer (.ofStream stream (place + 1)) text middle ∧
          Reads Declaration.readAccessors? middle accessors last ∧
            binding = ⟨pattern, some type, some text, accessors⟩ := by
  obtain ⟨pattern, patternRead⟩ := assigns.reads_pattern scanned
  obtain ⟨type, typeRead⟩ := assigns.reads_readType? scanned
  refine ⟨pattern, type, fun binding last => ?_⟩
  rw [Declaration.readBinding, patternRead.bind_iff, typeRead.bind_iff]
  simp only [reads_bind, reads_pure, assigns.reads_readInitializer?_iff]
  constructor
  · rintro ⟨_, middle, ⟨text, initializerRead, rfl⟩, accessors, _, accessorsRead, rfl, rfl⟩
    exact ⟨text, middle, accessors, initializerRead, accessorsRead, rfl⟩
  · rintro ⟨text, middle, accessors, initializerRead, accessorsRead, rfl⟩
    exact ⟨_, middle, ⟨text, initializerRead, rfl⟩, accessors, _, accessorsRead, rfl, rfl⟩

/-- All of the expression is the initializer of the only binding just if its length says so. -/
theorem initializes_iff :
    Declaration.Initializes source
        (String.ofList (stream.textOf (place + 1) stream.words.length)) ↔
      Extent.endsExpression (stream.token (place + 1)) = false ∧
        Extent.expressionLength (stream.token (place + 1)) 0 (stream.words.drop (place + 1)) =
          (stream.words.drop (place + 1)).length := by
  obtain ⟨-, ordered⟩ := TokenStream.ordered_of_scan scanned
  obtain ⟨pattern, type, readBinding_iff⟩ := assigns.exists_readBinding_iff scanned
  have inside := assigns.filled
  constructor
  · rintro ⟨declaration, binding, parsed, only, whole⟩
    obtain ⟨other, _, next, otherScanned, -, alone⟩ := Declaration.exists_alone_of_parse parsed
    obtain rfl := Except.ok.inj (scanned.symm.trans otherScanned)
    have bindingsRead := (assigns.exists_read_iff scanned).mp ⟨declaration, alone.reads, only⟩
    obtain ⟨first, others, _, same, bindingRead⟩ := exists_first_of_separated bindingsRead
    obtain ⟨rfl, -⟩ := List.cons.inj same
    obtain ⟨text, middle, accessors, initializerRead, -, rfl⟩ :=
      (readBinding_iff _ _).mp bindingRead
    obtain rfl : text = _ := Option.some.inj whole
    exact Declaration.length_eq_of_reads_readInitializer ordered inside initializerRead
  · rintro ⟨starts, length_eq⟩
    rw [List.length_drop] at length_eq
    have initializerRead : Reads Declaration.readInitializer (.ofStream stream (place + 1)) _
        (.ofStream stream stream.words.length) :=
      Declaration.reads_readInitializer_ofStream ordered inside starts (by omega)
    -- Nothing stands behind the expression, so the binding ends with it, and the source, too.
    have absent {text : String} (visible : text ≠ "") :
        ¬ (Cursor.ofStream stream stream.words.length).current.reads text = true :=
      (ordered.endsEmpty _).not_reads (by simp) visible
    have accessorsRead : Reads Declaration.readAccessors?
        (.ofStream stream stream.words.length) none (.ofStream stream stream.words.length) := by
      rw [Declaration.readAccessors?, Reads, run_check_bind, if_neg (absent (by decide))]
      rfl
    have bindingRead := (readBinding_iff _ _).mpr
      ⟨_, _, none, initializerRead, accessorsRead, rfl⟩
    have bindingsRead := reads_separated_one bindingRead
      (Bool.eq_false_iff.mpr (absent (show "," ≠ "" by decide)))
    obtain ⟨declaration, read, only⟩ := (assigns.exists_read_iff scanned).mpr bindingsRead
    exact ⟨declaration, _, Declaration.parse_of_reads scanned read (Nat.le_refl _), only, rfl⟩

/-- The expression is taken for the initializer of a single binding just if each of its generic
clauses outside brackets has one argument. -/
theorem initializes_iff_of_expression {counts : List Nat} {line : Nat}
    (expression : Extent.Expression counts (stream.words.drop (place + 1)))
    (lined : ∀ token ∈ stream.words.drop (place + 1), token.position.line = line) :
    Declaration.Initializes source
        (String.ofList (stream.textOf (place + 1) stream.words.length)) ↔
      ∀ count ∈ counts, count = 1 := by
  have words_eq : stream.words.drop (place + 1) =
      stream.token (place + 1) :: stream.words.drop (place + 2) := by
    rw [List.drop_eq_getElem_cons assigns.filled, TokenStream.token_eq_getElem assigns.filled]
  have first : stream.token (place + 1) ∈ stream.words.drop (place + 1) :=
    words_eq ▸ List.mem_cons_self
  rw [assigns.initializes_iff scanned, Extent.expressionLength_eq_length_iff
    (List.forall_mem_cons.mpr ⟨lined _ first, lined⟩), ← expression.outside_iff]
  refine and_iff_right_of_imp fun goes => goes _ ?_
  rw [words_eq]
  exact List.mem_cons_self

end TokenStream.Assigns

/-! ## Samples -/

/-- A token in the first line of a source. -/
def Token.inFirstLine (kind : TokenKind) (text : String) (offset : Nat) : Token :=
  ⟨kind, text, ⟨1, offset + 1, offset⟩⟩

/-- What is found by evaluation of a source that begins with `var n: T =`. -/
theorem exists_assigns {source : List Char} {tokens : List Token} {text : String}
    (evaluated : (TokenStream.scan source).toOption.any (fun stream =>
      (stream.words.take 3).map Token.word == [.identifier "var", .identifier "n", .mark ":"] &&
        (TypeExpr.read.run (.ofStream stream 3)).toOption.any (·.2.index == 4) &&
        (stream.token 4).word == .mark "=" && stream.words.drop 5 == tokens &&
        stream.textOf 5 stream.words.length == text.toList) = true)
    (filled : tokens ≠ []) :
    ∃ stream, TokenStream.scan source = .ok stream ∧ stream.Assigns 4 ∧
      stream.words.drop 5 = tokens ∧
        String.ofList (stream.textOf 5 stream.words.length) = text := by
  obtain ⟨stream, scanned, known⟩ := exists_of_any evaluated
  simp only [Bool.and_eq_true, beq_iff_eq] at known
  obtain ⟨⟨⟨⟨front, type⟩, equals⟩, rfl⟩, text_eq⟩ := known
  obtain ⟨⟨type, last⟩, read, index_eq⟩ := exists_of_any type
  rw [ne_eq, List.drop_eq_nil_iff] at filled
  obtain ⟨next, _, inside, rfl⟩ := (TypeExpr.forward_read _ _ _ read).exists_index (by omega)
  have next_eq : next = 4 := by simpa [Cursor.index, Cursor.ofStream, inside] using index_eq
  subst next_eq
  refine ⟨stream, scanned, ⟨⟨"n", front⟩, ⟨type, read⟩, equals, by omega⟩, rfl, ?_⟩
  rw [text_eq, String.ofList_toList]

/-- A generic clause with one argument, and a comma in brackets. -/
def boxSample : List Char :=
  "var n: T = Box<Int>(x, y)".toList

def boxTokens : List Token :=
  .inFirstLine .identifier "Box" 11 :: .inFirstLine .punctuation "<" 14 ::
    ([.inFirstLine .identifier "Int" 15] ++ .inFirstLine .punctuation ">" 18 ::
      (.inFirstLine .punctuation "(" 19 ::
        ([.inFirstLine .identifier "x" 20, .inFirstLine .punctuation "," 21,
          .inFirstLine .identifier "y" 23] ++ .inFirstLine .punctuation ")" 24 :: [])))

theorem expression_boxTokens : Extent.Expression [1] boxTokens := by
  have argument : Extent.TypeArguments 1 [] [.inFirstLine .identifier "Int" 15] :=
    .one (List.cons_ne_nil _ _) (.word (Extent.isPlain_of_isIdentifier rfl) .nil)
  have call : Extent.Expression [] (boxTokens.drop 4) :=
    .group rfl (by decide) rfl (by decide) .nil
  exact .clause rfl rfl rfl argument rfl call

set_option maxRecDepth 20000 in
theorem TokenStream.Assigns.initializes_boxSample : ∃ stream,
    TokenStream.scan boxSample = .ok stream ∧ stream.Assigns 4 ∧
      Extent.Expression [1] (stream.words.drop 5) ∧
      (∀ token ∈ stream.words.drop 5, token.position.line = 1) ∧
      String.ofList (stream.textOf 5 stream.words.length) = "Box<Int>(x, y)" ∧
      Declaration.Initializes boxSample "Box<Int>(x, y)" := by
  obtain ⟨stream, scanned, assigns, tokens_eq, text_eq⟩ :=
    @exists_assigns boxSample boxTokens "Box<Int>(x, y)" (by decide +kernel) (List.cons_ne_nil _ _)
  have expression : Extent.Expression [1] (stream.words.drop 5) :=
    tokens_eq ▸ expression_boxTokens
  have lined : ∀ token ∈ stream.words.drop 5, token.position.line = 1 :=
    tokens_eq ▸ by decide
  refine ⟨stream, scanned, assigns, expression, lined, text_eq, ?_⟩
  rw [← text_eq]
  exact (assigns.initializes_iff_of_expression scanned expression lined).mpr (by decide)

/-- A generic clause with two arguments. -/
def dictionarySample : List Char :=
  "var n: T = Dictionary<String, Int>()".toList

def dictionaryTokens : List Token :=
  .inFirstLine .identifier "Dictionary" 11 :: .inFirstLine .punctuation "<" 21 ::
    (([.inFirstLine .identifier "String" 22] ++ .inFirstLine .punctuation "," 28 ::
        [.inFirstLine .identifier "Int" 30]) ++
      .inFirstLine .punctuation ">" 33 ::
        (.inFirstLine .punctuation "(" 34 :: ([] ++ .inFirstLine .punctuation ")" 35 :: [])))

theorem expression_dictionaryTokens : Extent.Expression [2] dictionaryTokens := by
  have first : Extent.Expression [] [.inFirstLine .identifier "String" 22] :=
    .word (Extent.isPlain_of_isIdentifier rfl) .nil
  have second : Extent.Expression [] [.inFirstLine .identifier "Int" 30] :=
    .word (Extent.isPlain_of_isIdentifier rfl) .nil
  have arguments := Extent.TypeArguments.more (List.cons_ne_nil _ _) first
    (show (Token.inFirstLine .punctuation "," 28).isPunctuation "," = true by decide)
    (.one (List.cons_ne_nil _ _) second)
  have call : Extent.Expression [] (dictionaryTokens.drop 6) :=
    .group rfl (by decide) rfl (by decide) .nil
  exact .clause rfl rfl rfl arguments rfl call

set_option maxRecDepth 20000 in
theorem dictionarySample_fails : ∃ stream,
    TokenStream.scan dictionarySample = .ok stream ∧ stream.Assigns 4 ∧
      Extent.Expression [2] (stream.words.drop 5) ∧
      (∀ token ∈ stream.words.drop 5, token.position.line = 1) ∧
      ¬ Declaration.Initializes dictionarySample
        (String.ofList (stream.textOf 5 stream.words.length)) := by
  obtain ⟨stream, scanned, assigns, tokens_eq, -⟩ :=
    @exists_assigns dictionarySample dictionaryTokens "Dictionary<String, Int>()"
      (by decide +kernel) (List.cons_ne_nil _ _)
  refine ⟨stream, scanned, assigns, tokens_eq ▸ expression_dictionaryTokens,
    tokens_eq ▸ by decide, ?_⟩
  rintro ⟨declaration, binding, parsed, -⟩
  have fails : (Declaration.parse dictionarySample).toOption.isNone = true := by decide +kernel
  rw [parsed] at fails
  cases fails

end PeerExpansion
