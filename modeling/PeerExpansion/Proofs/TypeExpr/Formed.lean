import PeerExpansion.Proofs.TypeExpr.Spelling

/-! # The shapes of types

A type is made of smaller ones. In front of the word that names a metatype, behind `some` and `any`
and between ampersands its description writes a smaller type without parentheses. `Formed` has a
parameter for what stands in these places; in the clear shape nothing does that would need
parentheses there, and a clear type is read back from its description.
-/

namespace PeerExpansion.TypeExpr

open Reading

/-- What stands in the places of a type that are written without parentheses. -/
structure Shape where
  /-- The name at the beginning of a dotted one. -/
  leading : String → Prop
  /-- The type whose metatype is named. -/
  metatype : TypeExpr → Prop
  constraint : TypeExpr → Prop
  member : TypeExpr → Prop

/-- A shape for all types. -/
def Shape.loose : Shape where
  leading _ := True
  metatype _ := True
  constraint _ := True
  member _ := True

/-- The shape of types whose parts are told apart without parentheses. -/
def Shape.clear : Shape where
  leading name := name ∉ leadingWords
  metatype type := type.needsParentheses = false
  constraint type := type.isMember = true ∧ OpensNamed type.words
  member type := type.isMember = true

/-- How types are made of smaller ones. -/
inductive Formed (shape : Shape) : TypeExpr → Prop
  | dotted {first : NamePart} {others : List NamePart} :
      shape.leading first.name → (∀ part ∈ others, part.name ∉ metatypes) →
      (∀ part ∈ first :: others, IsIdentifier part.name) →
      (∀ part ∈ first :: others, ∀ argument ∈ part.arguments, Formed shape argument) →
      Formed shape (dotted first others)
  | metatype {type : TypeExpr} {word : String} : word ∈ metatypes → shape.metatype type →
      Formed shape type → Formed shape (type.metatype word)
  | optional {wrapped : TypeExpr} : Formed shape wrapped → Formed shape (.optional wrapped)
  | implicitlyUnwrapped {wrapped : TypeExpr} : Formed shape wrapped →
      Formed shape (.implicitlyUnwrapped wrapped)
  | array {element : TypeExpr} : Formed shape element → Formed shape (.array element)
  | dictionary {key value : TypeExpr} : Formed shape key → Formed shape value →
      Formed shape (.dictionary key value)
  | tuple {elements : List (Option String × TypeExpr)} : LabelsFit elements →
      (∀ only, elements ≠ [(none, only)]) → (∀ element ∈ elements, Formed shape element.2) →
      Formed shape (.tuple elements)
  | function {parameters : List (Option String × TypeExpr)} {effects : List String}
      {result : TypeExpr} : LabelsFit parameters → (∀ effect ∈ effects, effect ∈ effectWords) →
      (∀ parameter ∈ parameters, Formed shape parameter.2) → Formed shape result →
      Formed shape (.function parameters effects result)
  | constrained {specifier : String} {constraint : TypeExpr} : specifier ∈ constraintWords →
      shape.constraint constraint → Formed shape constraint →
      Formed shape (.constrained specifier constraint)
  | composition {members : List TypeExpr} : 2 ≤ members.length →
      (∀ member ∈ members, shape.member member) → (∀ member ∈ members, Formed shape member) →
      Formed shape (.composition members)

/-- A formed type is described by words, though another may be described by the same. -/
theorem Formed.described {shape : Shape} {type : TypeExpr} (formed : Formed shape type) :
    Described type type.words := by
  induction formed with
  | dotted _ _ identifiers _ inductionHypothesis =>
    exact (described_dotted identifiers inductionHypothesis).self
  | metatype known _ _ inductionHypothesis =>
    exact (described_metatype inductionHypothesis known).self
  | optional _ inductionHypothesis => exact (described_optional inductionHypothesis).self
  | implicitlyUnwrapped _ inductionHypothesis =>
    exact (described_implicitlyUnwrapped inductionHypothesis).self
  | array _ inductionHypothesis => exact (described_array inductionHypothesis).self
  | dictionary _ _ keyHypothesis valueHypothesis =>
    exact (described_dictionary keyHypothesis valueHypothesis).self
  | tuple fits _ _ inductionHypothesis => exact (described_tuple fits inductionHypothesis).self
  | function fits known _ _ inductionHypothesis resultHypothesis =>
    exact (described_function fits known inductionHypothesis resultHypothesis).self
  | constrained known _ _ inductionHypothesis =>
    exact (described_constrained known inductionHypothesis).self
  | composition _ _ _ inductionHypothesis =>
    exact (described_composition inductionHypothesis).self

/-! ## The words of formed types -/

section Words

variable {shape : Shape} {type key value : TypeExpr} {elements : List (Option String × TypeExpr)}

theorem words_dotted {first : NamePart} {others : List NamePart}
    (identifiers : ∀ part ∈ first :: others, IsIdentifier part.name)
    (formed : ∀ part ∈ first :: others, ∀ argument ∈ part.arguments, Formed shape argument) :
    (dotted first others).words =
      [.mark "."].intercalate ((first :: others).map (NamePart.words words)) :=
  (described_dotted identifiers fun part member argument inside =>
    (formed part member argument inside).described).words_eq

theorem words_metatype {word : String} (known : word ∈ metatypes) (formed : Formed shape type) :
    (type.metatype word).words = type.words ++ [.mark ".", .identifier word] :=
  (described_metatype formed.described known).words_eq

theorem words_optional (formed : Formed shape type) :
    (TypeExpr.optional type).words = parenthesisedWords type type.words ++ [.mark "?"] :=
  (described_optional formed.described).words_eq

theorem words_implicitlyUnwrapped (formed : Formed shape type) :
    (TypeExpr.implicitlyUnwrapped type).words =
      parenthesisedWords type type.words ++ [.mark "!"] :=
  (described_implicitlyUnwrapped formed.described).words_eq

theorem words_array (formed : Formed shape type) :
    (TypeExpr.array type).words = .mark "[" :: (type.words ++ [.mark "]"]) :=
  (described_array formed.described).words_eq

theorem words_dictionary (keyFormed : Formed shape key) (valueFormed : Formed shape value) :
    (TypeExpr.dictionary key value).words =
      .mark "[" :: ((key.words ++ .mark ":" :: value.words) ++ [.mark "]"]) := by
  rw [(described_dictionary keyFormed.described valueFormed.described).words_eq,
    List.append_assoc, List.cons_append]

theorem words_tuple (fits : LabelsFit elements)
    (formed : ∀ element ∈ elements, Formed shape element.2) :
    (TypeExpr.tuple elements).words =
      .mark "(" :: ([.mark ","].intercalate (elements.map (elementWords words)) ++
        [.mark ")"]) :=
  (described_tuple fits fun element member => (formed element member).described).words_eq

theorem words_function {effects : List String} (fits : LabelsFit elements)
    (known : ∀ effect ∈ effects, effect ∈ effectWords)
    (formed : ∀ element ∈ elements, Formed shape element.2) (resultFormed : Formed shape type) :
    (TypeExpr.function elements effects type).words =
      .mark "(" :: ([.mark ","].intercalate (elements.map (elementWords words)) ++
        [.mark ")"]) ++ effects.map Word.identifier ++ .mark "->" :: type.words := by
  rw [(described_function fits known (fun element member => (formed element member).described)
    resultFormed.described).words_eq]
  simp

theorem words_constrained {specifier : String} (known : specifier ∈ constraintWords)
    (formed : Formed shape type) :
    (TypeExpr.constrained specifier type).words = .identifier specifier :: type.words :=
  (described_constrained known formed.described).words_eq

theorem words_composition {members : List TypeExpr}
    (formed : ∀ member ∈ members, Formed shape member) :
    (TypeExpr.composition members).words = [.mark "&"].intercalate (members.map words) :=
  (described_composition fun member inside => (formed member inside).described).words_eq

end Words

/-! ## Clear types -/

abbrev Clear : TypeExpr → Prop :=
  Formed .clear

theorem Clear.spelling {type : TypeExpr} (clear : Clear type) : Spelling type type.words := by
  induction clear with
  | dotted plain named identifiers arguments inductionHypothesis =>
    exact (spelling_dotted plain named identifiers inductionHypothesis).self
  | metatype known plain type inductionHypothesis =>
    exact (spelling_metatype inductionHypothesis plain known).self
  | optional wrapped inductionHypothesis => exact (spelling_optional inductionHypothesis).self
  | implicitlyUnwrapped wrapped inductionHypothesis =>
    exact (spelling_implicitlyUnwrapped inductionHypothesis).self
  | array element inductionHypothesis => exact (spelling_array inductionHypothesis).self
  | dictionary key value keyHypothesis valueHypothesis =>
    exact (spelling_dictionary keyHypothesis valueHypothesis).self
  | tuple fits several elements inductionHypothesis =>
    exact (spelling_tuple fits several inductionHypothesis).self
  | function fits known parameters result inductionHypothesis resultHypothesis =>
    exact (spelling_function fits known inductionHypothesis resultHypothesis).self
  | constrained known fits constraint inductionHypothesis =>
    exact (spelling_constrained known fits.1 fits.2 inductionHypothesis).self
  | composition several fits members inductionHypothesis =>
    exact (spelling_composition several fits inductionHypothesis).self

/-! ## Canonical types -/

theorem isMember_of_isNamed {type : TypeExpr} (named : type.isNamed = true) :
    type.isMember = true := by
  cases type <;> first | rfl | cases named

theorem OpensNamed.append {words : List Word} (opens : OpensNamed words) (more : List Word) :
    OpensNamed (words ++ more) := by
  obtain ⟨name, others, identifier, rfl⟩ := opens
  exact ⟨name, others ++ more, identifier, rfl⟩

/-- A canonical type is clear, and a named one opens with its name. -/
theorem Canonical.clear_and_opensNamed {type : TypeExpr} (canonical : Canonical type) :
    Clear type ∧ (type.isNamed = true → OpensNamed type.words) := by
  induction canonical with
  | @dotted first others plain named identifiers _ inductionHypothesis =>
    have arguments : ∀ part ∈ first :: others, ∀ argument ∈ part.arguments, Clear argument :=
      fun part member argument inside => (inductionHypothesis part member argument inside).1
    refine ⟨.dotted plain named identifiers arguments, fun _ => ?_⟩
    obtain ⟨more, words_eq, -⟩ := exists_dottedWords_eq first others
    rw [(spelling_dotted plain named identifiers fun part member argument inside =>
      (arguments part member argument inside).spelling).words_eq, words_eq]
    exact ⟨_, _, identifiers first List.mem_cons_self, rfl⟩
  | @optional wrapped _ inductionHypothesis =>
    obtain ⟨clear, opens⟩ := inductionHypothesis
    refine ⟨.optional clear, fun named => ?_⟩
    -- A named type needs no parentheses, so its own words come first.
    rw [(spelling_optional clear.spelling).words_eq,
      parenthesisedWords_of_plain (@needsParentheses_of_isNamed wrapped named)]
    exact (opens named).append _
  | @implicitlyUnwrapped wrapped _ inductionHypothesis =>
    obtain ⟨clear, opens⟩ := inductionHypothesis
    refine ⟨.implicitlyUnwrapped clear, fun named => ?_⟩
    rw [(spelling_implicitlyUnwrapped clear.spelling).words_eq,
      parenthesisedWords_of_plain (@needsParentheses_of_isNamed wrapped named)]
    exact (opens named).append _
  | array _ inductionHypothesis => exact ⟨.array inductionHypothesis.1, nofun⟩
  | dictionary _ _ keyHypothesis valueHypothesis =>
    exact ⟨.dictionary keyHypothesis.1 valueHypothesis.1, nofun⟩
  | tuple fits several _ inductionHypothesis =>
    exact ⟨.tuple fits several fun element member => (inductionHypothesis element member).1, nofun⟩
  | function fits known _ _ inductionHypothesis resultHypothesis =>
    exact ⟨.function fits known (fun parameter member => (inductionHypothesis parameter member).1)
      resultHypothesis.1, nofun⟩
  | constrained known named _ inductionHypothesis =>
    obtain ⟨clear, opens⟩ := inductionHypothesis
    exact ⟨.constrained known ⟨isMember_of_isNamed named, opens named⟩ clear, nofun⟩
  | composition several fits _ inductionHypothesis =>
    exact ⟨.composition several fits fun member inside => (inductionHypothesis member inside).1,
      nofun⟩

/-! ## Reading a description

A type is read back from its own description, up to the end of it.
-/

theorem Canonical.spelling {type : TypeExpr} (canonical : Canonical type) :
    Spelling type type.words :=
  canonical.clear_and_opensNamed.1.spelling

/-- The description of a canonical type is read back as that type, up to its end. -/
theorem reads_description {type : TypeExpr} (canonical : Canonical type) :
    ∃ stream, TokenStream.scan type.description.toList = .ok stream ∧
      Reads TypeExpr.read (.ofStream stream 0) type (.ofStream stream stream.words.length) := by
  have spelling := canonical.spelling
  obtain ⟨stream, scanned, words_eq, -⟩ := (spelling.described [] .nil).exists_scan
  refine ⟨stream, scanned, ?_⟩
  have faces := Cursor.faces_of_scan scanned
  rw [words_eq, ← List.append_nil type.words] at faces
  have read := (spelling.takes_read (.nil (by decide))).reads faces
  rwa [Cursor.skip_ofStream, ← words_eq, List.length_map, Nat.zero_add] at read

/-- A type of every kind inside one another. -/
def nestedSample : TypeExpr :=
  .function
    [(some "each", .optional (.constrained "any"
      (dotted ⟨"Source", [ofName "Int"]⟩ [⟨"Item", [.tuple [], ofName "\x60in\x60"]⟩]))),
      (none, .array (.dictionary (ofName "$0") (.tuple [(some "x", ofName "async")])))]
    ["async", "throws"]
    (.composition [ofName "P", .implicitlyUnwrapped (.function [] [] (.tuple []))])

theorem canonical_nestedSample : Canonical nestedSample := by
  have none_of_nil (element : Option String × TypeExpr) (member : element ∈ []) :
      Canonical element.2 := (List.not_mem_nil member).elim
  have unit : Canonical (.tuple []) := .tuple (by simp [LabelsFit]) (by simp) none_of_nil
  have source : Canonical (dotted ⟨"Source", [ofName "Int"]⟩
      [⟨"Item", [.tuple [], ofName "\x60in\x60"]⟩]) := by
    refine .dotted (by decide) (by simp [metatypes]) (by simp; decide) ?_
    simp only [List.forall_mem_cons, List.not_mem_nil, false_implies, implies_true, and_true]
    exact ⟨canonical_ofName (by decide) (by decide), unit,
      canonical_ofName (by decide) (by decide)⟩
  refine .function (by simp [LabelsFit]; decide) (by decide) ?_ (.composition (by decide) ?_ ?_)
  · simp only [List.forall_mem_cons, List.not_mem_nil, false_implies, implies_true, and_true]
    refine ⟨.optional (.constrained (by decide) rfl source), .array (.dictionary ?_ ?_)⟩
    · exact canonical_ofName (by decide) (by decide)
    · refine .tuple (by simp [LabelsFit]; decide) (by simp) ?_
      simp only [List.forall_mem_cons, List.not_mem_nil, false_implies, implies_true, and_true]
      exact canonical_ofName (by decide) (by decide)
  · simp [isMember, ofName, dotted]
  · simp only [List.forall_mem_cons, List.not_mem_nil, false_implies, implies_true, and_true]
    exact ⟨canonical_ofName (by decide) (by decide),
      .implicitlyUnwrapped (.function (by simp [LabelsFit]) (by simp) none_of_nil unit)⟩

theorem reads_description_nestedSample :
    Canonical nestedSample ∧
      nestedSample.description = "(each: (any Source<Int>.Item<(), \x60in\x60>)?, " ++
        "[[$0: (x: async)]]) async throws -> P & (() -> ())!" ∧
      ∃ stream, TokenStream.scan nestedSample.description.toList = .ok stream ∧
        Reads TypeExpr.read (.ofStream stream 0) nestedSample
          (.ofStream stream stream.words.length) :=
  ⟨canonical_nestedSample, by decide, reads_description canonical_nestedSample⟩

end PeerExpansion.TypeExpr
