import PeerExpansion.Declaration.Read
import PeerExpansion.Proofs.TypeExpr.Formed

/-! # How the words of a variable are taken

What a variable declaration with one binding is read from, part by part.
-/

namespace PeerExpansion

open Reading TypeExpr

/-! ## In front of the keyword -/

namespace Attribute

variable {name : String} {rest : List Word}

theorem takes_readMembers_nil (other : (Word.nth rest 0).reads "." = false) :
    Takes readMembers [] [] rest := by
  refine .get fun cursor _ => ?_
  cases cursor.remaining with
  | zero => exact .pure rfl
  | succ limit =>
    refine .check_false other (.ahead fun next _ => ?_)
    rw [Bool.false_and, if_neg Bool.false_ne_true]
    exact .pure rfl

theorem yields_read (apart : Apart [".", "("] rest) :
    Yields Attribute.read (fun _ => True) [.mark "@", .identifier name] rest := by
  refine .expect rfl fun mark _ => .expectIdentifier rfl fun first _ => ?_
  refine .bind_nil (takes_readMembers_nil (apart.reads_eq (by decide))) ?_
  refine .current fun next next_eq => ?_
  have other : next.reads "(" = false := by
    rw [Token.reads_eq, next_eq]
    exact apart.reads_eq (by decide)
  rw [other, Bool.false_and, if_neg Bool.false_ne_true]
  exact .pure trivial

theorem yields_readAllWithin_nil (other : (Word.nth rest 0).reads "@" = false) (limit : Nat) :
    Yields (readAllWithin limit) (fun _ => True) [] rest := by
  cases limit with
  | zero => exact .pure trivial
  | succ limit => exact .check_false other (.pure trivial)

theorem yields_readAll_nil (other : (Word.nth rest 0).reads "@" = false) :
    Yields readAll (fun _ => True) [] rest :=
  .get fun _ _ => yields_readAllWithin_nil other _

theorem yields_readAll_one (apart : Apart ["@", ".", "("] rest) :
    Yields readAll (fun _ => True) [.mark "@", .identifier name] rest := by
  refine .get fun cursor faces => ?_
  rw [faces.remaining_eq]
  have later := yields_readAllWithin_nil (apart.reads_eq List.mem_cons_self)
  refine .check_true rfl (.bind_any_last (yields_read (apart.mono (by decide))) fun attr _ => ?_)
  exact .bind_any_last (later _) fun _ _ => .pure trivial

end Attribute

namespace Declaration

variable {name : String} {words rest : List Word}

theorem yields_readModifiersWithin_nil (apart : Apart modifierWords rest) (limit : Nat) :
    Yields (readModifiersWithin limit) (fun _ => True) [] rest := by
  cases limit with
  | zero => exact .pure trivial
  | succ limit =>
    refine .current fun first first_eq => .ahead fun next _ => ?_
    have text_eq : first.text = (Word.nth rest 0).text := congrArg Word.text first_eq
    have plain : isModifier first next = false := by
      have other : first.text ∉ modifierWords := text_eq ▸ apart
      simp [isModifier, Token.isOneOf, other]
    rw [plain, if_neg Bool.false_ne_true]
    exact .pure trivial

theorem yields_readModifiers_nil (apart : Apart modifierWords rest) :
    Yields readModifiers (fun _ => True) [] rest :=
  .get fun _ _ => yields_readModifiersWithin_nil apart _

theorem yields_readModifier {word : Word} (other : (Word.nth rest 0).reads "(" = false) :
    Yields readModifier (fun _ => True) [word] rest := by
  refine .advance fun first _ => .current fun next next_eq => ?_
  have plain : next.reads "(" = false := by
    rw [Token.reads_eq, next_eq]
    exact other
  rw [plain, Bool.false_and, if_neg Bool.false_ne_true]
  exact .pure trivial

theorem yields_readModifiers_one (known : name ∈ modifierWords) (plain : name ≠ "class")
    (apart : Apart ("(" :: modifierWords) rest) :
    Yields readModifiers (fun _ => True) [.identifier name] rest := by
  refine .get fun cursor faces => ?_
  rw [faces.remaining_eq]
  refine .current fun first first_eq => .ahead fun next _ => ?_
  have text_eq : first.text = name := congrArg Word.text first_eq
  have kind_eq : first.kind = .identifier := congrArg Word.kind first_eq
  have modifier : isModifier first next = true := by
    simp [isModifier, Token.isIdentifier, Token.isOneOf, kind_eq, text_eq, known, plain]
  rw [modifier, if_pos rfl]
  have later := yields_readModifiersWithin_nil (apart.mono (List.subset_cons_self _ _))
  refine .bind_any_last (yields_readModifier (apart.reads_eq List.mem_cons_self)) fun _ _ => ?_
  exact .bind_any_last (later _) fun _ _ => .pure trivial

theorem yields_readKeyword :
    Yields readKeyword (fun found => found.2 = .property) [.identifier "var"] rest := by
  refine .current fun keyword keyword_eq => ?_
  have text_eq : keyword.text = "var" := congrArg Word.text keyword_eq
  have kind_eq : keyword.kind = .identifier := congrArg Word.kind keyword_eq
  have known : DeclarationKind.ofKeyword? keyword.text = some .property := by
    rw [text_eq]
    rfl
  simp only [known, Token.isIdentifier, kind_eq]
  exact .skip_one (.pure rfl)

/-! ## Bindings -/

/-- What a pattern of one word binds: the low line binds nothing. -/
def Binds (name : String) (pattern : Pattern) : Prop :=
  ∃ position, pattern = if name = "_" then .wildcard position else .name name position

theorem yields_readPattern (identifier : IsIdentifier name) :
    Yields Pattern.read (Binds name) [.identifier name] rest := by
  refine .get fun cursor faces => ?_
  rw [faces.remaining_eq]
  refine .current fun first first_eq => ?_
  have text_eq : first.text = name := congrArg Word.text first_eq
  have kind_eq : first.kind = .identifier := congrArg Word.kind first_eq
  have parenthesis : name ≠ "(" := identifier.ne (by decide)
  have named : first.isIdentifier = true := by
    rw [Token.isIdentifier, kind_eq]
    rfl
  rw [if_neg (by simp [Token.reads, text_eq, parenthesis]), named, text_eq, Bool.true_and]
  by_cases wildcard : name = "_"
  · rw [if_pos (beq_iff_eq.mpr wildcard)]
    exact .skip_one (.pure ⟨first.position, by rw [if_pos wildcard]⟩)
  · rw [if_neg (beq_iff_eq.not.mpr wildcard)]
    exact .expectIdentifier rfl fun _ _ => .pure ⟨first.position, by rw [if_neg wildcard]⟩

theorem takes_readType? {type : TypeExpr} (spelling : Spelling type words)
    (apart : Apart memberMarks rest) :
    Takes readType? (some type) (.mark ":" :: words) rest :=
  .check_true rfl (.skip_one (.bind_last (spelling.takes_read apart) (.pure rfl)))

theorem takes_readInitializer?_none (other : (Word.nth rest 0).reads "=" = false) :
    Takes readInitializer? none [] rest :=
  .check_false other (.pure rfl)

theorem takes_readAccessors?_none (other : (Word.nth rest 0).reads Token.openBrace = false) :
    Takes readAccessors? none [] rest :=
  .check_false other (.pure rfl)

/-- The last token of a source, if it is a number, is all of an initializer. -/
theorem takes_readInitializer {word : Word} (kind_eq : word.kind = .number) :
    Takes readInitializer word.text [word] [] := by
  intro cursor faces
  obtain ⟨token, only, rfl⟩ := List.map_eq_singleton_iff.mp faces.behind_eq
  have current_eq : cursor.current = token := by
    rw [Cursor.current, Cursor.ahead, only]
    rfl
  have number : token.kind = .number := kind_eq
  have started : ¬ ((token.kind == .ending || Extent.endsExpression token) = true) := by
    simp [Extent.endsExpression, Token.isClosing, Token.isPunctuation, number]
  have passed : (cursor.skip 1).behind = [] := by
    rw [Cursor.skip, only]
    rfl
  have text_eq : (cursor.skip 1).textSince token = token.text := by
    have stands := faces.stands token (only ▸ List.mem_singleton_self token)
    have previous : (cursor.skip 1).previous? = some token := by
      rw [Cursor.previous?, Cursor.skip, only]
      rfl
    have slice_eq := stands.text_eq
    simp only [Cursor.textSince, previous]
    show String.ofList (Text.slice cursor.source token.start token.stop) = token.text
    rw [← slice_eq, String.ofList_toList]
  -- A number is no end of an expression, and nothing is left behind it that could carry it on.
  refine ⟨token.text, rfl, reads_bind.mpr ⟨token, cursor, by simp [current_eq], ?_⟩⟩
  rw [if_neg started]
  simp [passed, Extent.expressionLength, text_eq, Cursor.skip_skip]

theorem takes_readInitializer?_some {word : Word} (kind_eq : word.kind = .number) :
    Takes readInitializer? (some word.text) [.mark "=", word] [] :=
  .check_true rfl (.skip_one (.bind_last (takes_readInitializer kind_eq) (.pure rfl)))

/-! ## Blocks -/

theorem blockLength?_congr {tokens others : List Token}
    (same : tokens.map Token.word = others.map Token.word) (depth : Nat) :
    Extent.blockLength? depth tokens = Extent.blockLength? depth others := by
  induction tokens generalizing others depth with
  | nil =>
    obtain rfl := List.map_eq_nil_iff.mp same.symm
    rfl
  | cons token tokens inductionHypothesis =>
    obtain ⟨other, more, rfl, word_eq, more_eq⟩ := List.map_eq_cons_iff.mp same.symm
    have later := inductionHypothesis more_eq.symm
    have kind_eq : other.kind = token.kind := congrArg Word.kind word_eq
    have text_eq : other.text = token.text := congrArg Word.text word_eq
    simp only [Extent.blockLength?, Token.isPunctuation, kind_eq, text_eq, later]

/-- The words close a block behind its opening brace, and nothing before them does. -/
def Closes (words : List Word) : Prop :=
  Extent.blockLength? 0 (words.map fun word => ⟨word.kind, word.text, .start⟩) = some words.length

theorem yields_readBlock (closes : Closes words) :
    Yields readBlock (fun _ => True) (.mark Token.openBrace :: words) [] := by
  refine .expect rfl fun brace _ => .get fun cursor faces => ?_
  have length_eq : Extent.blockLength? 0 cursor.behind = some words.length := by
    rw [← closes]
    apply blockLength?_congr
    rw [faces.behind_eq, List.append_nil, List.map_map]
    exact (List.map_id' words).symm
  rw [length_eq, ← List.append_nil words]
  refine .skip (by simp) ?_
  exact .get fun _ _ => .pure trivial

theorem yields_readAccessors?_some (closes : Closes words) :
    Yields readAccessors? (∃ block, · = some block) (.mark Token.openBrace :: words) [] :=
  .check_true rfl (.bind_any_last (yields_readBlock closes) fun block _ => .pure ⟨block, rfl⟩)

/-! ## The declaration -/

variable {front middle : List Word} {Fits : Binding → Prop}

theorem yields_readBinding {type : TypeExpr} {initializer : Option String}
    {FitsAccessors : Option String → Prop} {typeWords initializerWords accessorWords : List Word}
    (identifier : IsIdentifier name) (spelling : Spelling type typeWords)
    (apart : Apart memberMarks (initializerWords ++ accessorWords))
    (initialized : Takes readInitializer? initializer initializerWords accessorWords)
    (accessed : Yields readAccessors? FitsAccessors accessorWords []) :
    Yields readBinding
      (fun binding => Binds name binding.pattern ∧ binding.type = some type ∧
        binding.initializer = initializer ∧ FitsAccessors binding.accessors)
      (.identifier name :: .mark ":" :: (typeWords ++ (initializerWords ++ accessorWords))) [] := by
  rw [← List.append_nil (initializerWords ++ accessorWords)] at apart
  rw [← List.append_nil accessorWords] at initialized
  show Yields _ _ ([_] ++ ((_ :: typeWords) ++ _)) []
  refine .bind_any (yields_readPattern identifier) fun pattern binds => ?_
  refine .bind (takes_readType? spelling apart) (.bind initialized ?_)
  refine .bind_any_last accessed fun accessors fits => ?_
  exact .pure ⟨binds, rfl, rfl, fits⟩

theorem yields_read
    (attributes : Yields Attribute.readAll (fun _ => True) front
      (middle ++ .identifier "var" :: words))
    (modifiers : Yields readModifiers (fun _ => True) middle (.identifier "var" :: words))
    (binding : Yields readBinding Fits words []) :
    Yields Declaration.read
      (fun declaration => declaration.kind = .property ∧
        ∃ binding, Fits binding ∧ declaration.bindings = [binding])
      (front ++ (middle ++ .identifier "var" :: words)) [] := by
  refine .current fun first _ => ?_
  refine .bind_any (by rwa [List.append_nil]) fun _ _ => ?_
  refine .bind_any (by rwa [List.append_nil]) fun _ _ => ?_
  rw [← List.singleton_append]
  refine .bind_any yields_readKeyword fun found kind_eq => ?_
  obtain ⟨keyword, kind⟩ := found
  obtain rfl : kind = .property := kind_eq
  simp only [reduceIte]
  refine .bind_any_last (yields_separated_one rfl binding) fun bindings fits => ?_
  obtain ⟨given, givenFits, rfl⟩ := fits
  refine .bind_nil (.pure rfl) ?_
  exact .get fun _ _ => .get fun _ _ => .pure ⟨rfl, given, givenFits, rfl⟩

theorem yields_readOnly {Fits : Declaration → Prop}
    (declaration : Yields Declaration.read Fits words []) :
    Yields readOnly Fits words [] := by
  refine .bind_any_last declaration fun given fits => .current fun next next_eq => ?_
  have kind_eq : next.kind = .ending := congrArg Word.kind next_eq
  have plain : next.isPunctuation ";" = false := by
    rw [Token.isPunctuation, kind_eq]
    rfl
  rw [plain, if_neg Bool.false_ne_true]
  refine .current fun finish finish_eq => ?_
  have finished : finish.kind = .ending := congrArg Word.kind finish_eq
  rw [finished]
  exact .pure fits

/-- A text that is spelled in words is parsed as its words are read. -/
theorem exists_parse_of_spells {text : String} {Fits : Declaration → Prop}
    (spells : Spells text words []) (yields : Yields Declaration.read Fits words []) :
    ∃ declaration, Fits declaration ∧ Declaration.parse text.toList = .ok declaration := by
  obtain ⟨stream, scanned, rfl, -⟩ := spells.exists_scan
  have faces := Cursor.faces_of_scan scanned
  rw [← List.append_nil (stream.words.map _)] at faces
  obtain ⟨declaration, fits, read⟩ := yields_readOnly yields _ faces
  refine ⟨declaration, fits, ?_⟩
  have run_eq : readOnly.run (.ofStream stream 0) = .ok (declaration, _) := read
  rw [Declaration.parse, scanned]
  show (readOnly.run (.ofStream stream 0) >>= _) = _
  rw [run_eq]
  rfl

end Declaration

end PeerExpansion
