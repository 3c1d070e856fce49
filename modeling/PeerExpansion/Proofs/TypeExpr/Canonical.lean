import PeerExpansion.Proofs.TypeExpr.Taking

/-! # How types are spelled

The types that their own descriptions stand for, and how a description is spelled, given how those
of the types inside are.
-/

namespace PeerExpansion.TypeExpr

/-- A name, with or without marks behind it. -/
def isNamed : TypeExpr → Bool
  | simple .. => true
  | optional wrapped | implicitlyUnwrapped wrapped => wrapped.isNamed
  | _ => false

theorem needsParentheses_of_isNamed {type : TypeExpr} (named : type.isNamed = true) :
    type.needsParentheses = false := by
  cases type <;> first | rfl | cases named

/-- Whether the type can stand in a composition as it is written. -/
def isMember : TypeExpr → Bool
  | function .. | composition .. => false
  | _ => true

/-- The labels of a list of elements are identifiers. -/
def LabelsFit (elements : List (Option String × TypeExpr)) : Prop :=
  ∀ element ∈ elements, ∀ label ∈ element.1, IsIdentifier label

/-- Types in the shape in which they are read. -/
inductive Canonical : TypeExpr → Prop
  | dotted {first : NamePart} {others : List NamePart} :
      first.name ∉ leadingWords → (∀ part ∈ others, part.name ∉ metatypes) →
      (∀ part ∈ first :: others, IsIdentifier part.name) →
      (∀ part ∈ first :: others, ∀ argument ∈ part.arguments, Canonical argument) →
      Canonical (dotted first others)
  | optional {wrapped : TypeExpr} : Canonical wrapped → Canonical (.optional wrapped)
  | implicitlyUnwrapped {wrapped : TypeExpr} : Canonical wrapped →
      Canonical (.implicitlyUnwrapped wrapped)
  | array {element : TypeExpr} : Canonical element → Canonical (.array element)
  | dictionary {key value : TypeExpr} : Canonical key → Canonical value →
      Canonical (.dictionary key value)
  | tuple {elements : List (Option String × TypeExpr)} : LabelsFit elements →
      (∀ only, elements ≠ [(none, only)]) → (∀ element ∈ elements, Canonical element.2) →
      Canonical (.tuple elements)
  | function {parameters : List (Option String × TypeExpr)} {effects : List String}
      {result : TypeExpr} : LabelsFit parameters → (∀ effect ∈ effects, effect ∈ effectWords) →
      (∀ parameter ∈ parameters, Canonical parameter.2) → Canonical result →
      Canonical (.function parameters effects result)
  | constrained {specifier : String} {constraint : TypeExpr} : specifier ∈ constraintWords →
      constraint.isNamed = true → Canonical constraint →
      Canonical (.constrained specifier constraint)
  | composition {members : List TypeExpr} : 2 ≤ members.length →
      (∀ member ∈ members, member.isMember = true) → (∀ member ∈ members, Canonical member) →
      Canonical (.composition members)

/-- The type that a single name stands for. -/
def ofName (name : String) : TypeExpr :=
  dotted ⟨name, []⟩ []

theorem canonical_ofName {name : String} (identifier : IsIdentifier name)
    (plain : name ∉ leadingWords) : Canonical (ofName name) := by
  refine .dotted plain (fun _ member => (List.not_mem_nil member).elim) ?_ ?_
  · intro part member
    obtain rfl := List.mem_singleton.mp member
    exact identifier
  · intro part member argument argumentMember
    obtain rfl := List.mem_singleton.mp member
    exact (List.not_mem_nil argumentMember).elim

/-! ## Descriptions of lists -/

theorem descriptions_eq_map (types : List TypeExpr) :
    descriptions types = types.map description := by
  induction types with
  | nil => rfl
  | cons type types inductionHypothesis => rw [descriptions, inductionHypothesis, List.map_cons]

theorem elementDescriptions_eq_map (elements : List (Option String × TypeExpr)) :
    elementDescriptions elements =
      elements.map fun element => labelled element.1 element.2.description := by
  induction elements with
  | nil => rfl
  | cons element elements inductionHypothesis =>
    obtain ⟨label, type⟩ := element
    rw [elementDescriptions, inductionHypothesis, List.map_cons]

/-! ## Spelling -/

/-- The description of a type is spelled with these words. -/
def Described (type : TypeExpr) (words : List Word) : Prop :=
  ∀ behind, Ends behind → Spells type.description words behind

theorem ends_mark {text : String} {mark : Char} {more : List Char}
    (text_eq : text.toList = mark :: more) (ends : Lexeme.isWordPart mark = false)
    (behind : List Char) : Ends (text.toList ++ behind) := by
  rw [text_eq]
  exact .cons ends _

theorem spells_comma (behind : List Char) : Spells ", " [.mark ","] behind :=
  show Spells ("," ++ " ") ([.mark ","] ++ []) behind from
    .append (spells_mark rfl (by decide) _) (spells_space rfl (by decide))

theorem spells_colon (behind : List Char) : Spells ": " [.mark ":"] behind :=
  show Spells (":" ++ " ") ([.mark ":"] ++ []) behind from
    .append (spells_mark rfl (by decide) _) (spells_space rfl (by decide))

theorem spells_ampersand (behind : List Char) : Spells " & " [.mark "&"] behind :=
  show Spells (" " ++ "&" ++ " ") ([] ++ [.mark "&"] ++ []) behind from
    .append (.append (spells_space rfl (by decide)) (spells_mark rfl (by decide) _))
      (spells_space rfl (by decide))

section Pieces

variable {spelling : TypeExpr → List Word} {behind : List Char}

theorem spells_descriptions {types : List TypeExpr}
    (described : ∀ type ∈ types, Described type (spelling type)) (ends : Ends behind) :
    Spells (String.intercalate ", " (descriptions types))
      ([.mark ","].intercalate (types.map spelling)) behind := by
  rw [descriptions_eq_map]
  exact spells_intercalate described (fun _ _ _ => spells_comma _) (ends_mark rfl (by decide)) ends

theorem spells_labelled {element : Option String × TypeExpr}
    (fits : ∀ label ∈ element.1, IsIdentifier label)
    (described : Described element.2 (spelling element.2)) (ends : Ends behind) :
    Spells (labelled element.1 element.2.description) (elementWords spelling element) behind := by
  obtain ⟨label, type⟩ := element
  cases label with
  | none => exact described behind ends
  | some label =>
    have identifier := fits label rfl
    show Spells (label ++ ": " ++ type.description)
      ([.identifier label] ++ [.mark ":"] ++ spelling type) behind
    refine .append (.append (spells_identifier identifier ?_) (spells_colon _)) (described _ ends)
    exact ends_mark rfl (by decide) _

theorem spells_elements {elements : List (Option String × TypeExpr)} (fits : LabelsFit elements)
    (described : ∀ element ∈ elements, Described element.2 (spelling element.2))
    (ends : Ends behind) :
    Spells (String.intercalate ", " (elementDescriptions elements))
      ([.mark ","].intercalate (elements.map (elementWords spelling))) behind := by
  rw [elementDescriptions_eq_map]
  refine spells_intercalate (fun element member behind ends => ?_) (fun _ _ _ => spells_comma _)
    (ends_mark rfl (by decide)) ends
  exact spells_labelled (fits element member) (described element member) ends

theorem spells_part {part : NamePart} (identifier : IsIdentifier part.name)
    (described : ∀ argument ∈ part.arguments, Described argument (spelling argument))
    (ends : Ends behind) : Spells part.text (part.words spelling) behind := by
  obtain ⟨name, arguments⟩ := part
  cases arguments with
  | nil => exact spells_identifier identifier ends
  | cons argument others =>
    show Spells (name ++ "<" ++ String.intercalate ", " (descriptions (argument :: others)) ++ ">")
      ([.identifier name] ++ [.mark "<"] ++
        [.mark ","].intercalate ((argument :: others).map spelling) ++ [.mark ">"]) behind
    refine .append (.append (.append ?_ (spells_mark rfl (by decide) _)) ?_)
      (spells_mark rfl (by decide) _)
    · exact spells_identifier identifier (ends_mark rfl (by decide) _)
    · exact spells_descriptions described (ends_mark rfl (by decide) _)

/-- An identifier does not begin with a point, which would make a range of a point before it. -/
theorem spells_point_before {name : String} (identifier : IsIdentifier name)
    (more : List Char) : Spells "." [.mark "."] (name.toList ++ more) :=
  spells_point ((isIdentifier_iff.mp identifier).head?_ne_point more)

theorem exists_append_eq_text (part : NamePart) :
    ∃ more, part.text.toList = part.name.toList ++ more := by
  rw [NamePart.text, genericName]
  split
  · exact ⟨[], (List.append_nil _).symm⟩
  · simp only [String.toList_append, List.append_assoc]
    exact ⟨_, rfl⟩

theorem described_dotted {first : NamePart} {others : List NamePart}
    (identifiers : ∀ part ∈ first :: others, IsIdentifier part.name)
    (described : ∀ part ∈ first :: others, ∀ argument ∈ part.arguments,
      Described argument (spelling argument)) :
    Described (dotted first others)
      ([.mark "."].intercalate ((first :: others).map (NamePart.words spelling))) := by
  intro behind ends
  refine spells_intercalate (fun part member behind ends => ?_) (fun part member behind => ?_)
    (ends_mark rfl (by decide)) ends
  · exact spells_part (identifiers part member) (described part member) ends
  · obtain ⟨more, text_eq⟩ := exists_append_eq_text part
    rw [text_eq, List.append_assoc]
    exact spells_point_before (identifiers part member) _

end Pieces

section Marks

variable {type key value result : TypeExpr} {words others : List Word}

/-- The words of a type in front of a mark. -/
def parenthesisedWords (type : TypeExpr) (words : List Word) : List Word :=
  if type.needsParentheses then .mark "(" :: (words ++ [.mark ")"]) else words

theorem parenthesisedWords_of_plain (plain : type.needsParentheses = false) :
    parenthesisedWords type words = words := by
  rw [parenthesisedWords, plain, if_neg Bool.false_ne_true]

theorem Described.grouped (described : Described type words) (behind : List Char) :
    Spells ("(" ++ type.description ++ ")") (.mark "(" :: (words ++ [.mark ")"])) behind := by
  show Spells ("(" ++ type.description ++ ")") ([.mark "("] ++ words ++ [.mark ")"]) behind
  refine .append (.append (spells_mark rfl (by decide) _) ?_) (spells_mark rfl (by decide) _)
  exact described _ (ends_mark rfl (by decide) _)

theorem spells_parenthesised (described : Described type words) {behind : List Char}
    (ends : Ends behind) :
    Spells (parenthesised type type.description) (parenthesisedWords type words) behind := by
  unfold parenthesised parenthesisedWords
  split
  · exact described.grouped behind
  · exact described _ ends

theorem described_optional (described : Described type words) :
    Described (.optional type) (parenthesisedWords type words ++ [.mark "?"]) := by
  intro behind _
  refine .append (spells_parenthesised described ?_) (spells_mark rfl (by decide) _)
  exact ends_mark rfl (by decide) _

theorem described_implicitlyUnwrapped (described : Described type words) :
    Described (.implicitlyUnwrapped type) (parenthesisedWords type words ++ [.mark "!"]) := by
  intro behind _
  refine .append (spells_parenthesised described ?_) (spells_mark rfl (by decide) _)
  exact ends_mark rfl (by decide) _

/-- A text with a point and the word for a metatype behind it. -/
theorem spells_metatype {text word : String} (known : word ∈ metatypes)
    (spells : ∀ behind, Ends behind → Spells text words behind) {behind : List Char}
    (ends : Ends behind) :
    Spells (text ++ "." ++ word) (words ++ [.mark ".", .identifier word]) behind := by
  have identifiers : ∀ word ∈ metatypes, IsIdentifier word := by decide
  have identifier := identifiers word known
  rw [show words ++ [.mark ".", .identifier word] =
    words ++ [.mark "."] ++ [.identifier word] by simp]
  refine .append (.append (spells _ ?_) (spells_point_before identifier _))
    (spells_identifier identifier ends)
  exact ends_mark rfl (by decide) _

theorem described_metatype (described : Described type words) {word : String}
    (known : word ∈ metatypes) :
    Described (metatype type word) (words ++ [.mark ".", .identifier word]) :=
  fun _ ends => spells_metatype known described ends

theorem described_array (described : Described type words) :
    Described (.array type) (.mark "[" :: (words ++ [.mark "]"])) := by
  intro behind _
  show Spells ("[" ++ type.description ++ "]") ([.mark "["] ++ words ++ [.mark "]"]) behind
  refine .append (.append (spells_mark rfl (by decide) _) ?_) (spells_mark rfl (by decide) _)
  exact described _ (ends_mark rfl (by decide) _)

theorem described_dictionary (describedKey : Described key words)
    (describedValue : Described value others) :
    Described (.dictionary key value)
      (.mark "[" :: (words ++ .mark ":" :: (others ++ [.mark "]"]))) := by
  intro behind _
  rw [show .mark "[" :: (words ++ .mark ":" :: (others ++ [.mark "]"])) =
    [.mark "["] ++ words ++ [.mark ":"] ++ others ++ [.mark "]"] by simp]
  show Spells ("[" ++ key.description ++ ": " ++ value.description ++ "]") _ behind
  refine .append (.append (.append (.append (spells_mark rfl (by decide) _) ?_)
    (spells_colon _)) ?_) (spells_mark rfl (by decide) _)
  · exact describedKey _ (ends_mark rfl (by decide) _)
  · exact describedValue _ (ends_mark rfl (by decide) _)

end Marks

section Lists

variable {spelling : TypeExpr → List Word} {elements : List (Option String × TypeExpr)}

theorem spells_group (fits : LabelsFit elements)
    (described : ∀ element ∈ elements, Described element.2 (spelling element.2))
    (behind : List Char) :
    Spells ("(" ++ String.intercalate ", " (elementDescriptions elements) ++ ")")
      ([.mark "("] ++ [.mark ","].intercalate (elements.map (elementWords spelling)) ++
        [.mark ")"]) behind := by
  refine .append (.append (spells_mark rfl (by decide) _) ?_) (spells_mark rfl (by decide) _)
  exact spells_elements fits described (ends_mark rfl (by decide) _)

theorem described_tuple (fits : LabelsFit elements)
    (described : ∀ element ∈ elements, Described element.2 (spelling element.2)) :
    Described (.tuple elements)
      (.mark "(" :: ([.mark ","].intercalate (elements.map (elementWords spelling)) ++
        [.mark ")"])) :=
  fun behind _ => spells_group fits described behind

theorem spells_effects {effects : List String} (known : ∀ effect ∈ effects, effect ∈ effectWords)
    (behind : List Char) :
    Spells (String.join (effects.map (" " ++ ·))) (effects.map Word.identifier)
      (' ' :: behind) := by
  have identifiers : ∀ effect ∈ effectWords, IsIdentifier effect := by decide
  induction effects with
  | nil => exact .empty _
  | cons effect effects inductionHypothesis =>
    have later := inductionHypothesis fun other member =>
      known other (List.mem_cons_of_mem _ member)
    have identifier := identifiers effect (known effect List.mem_cons_self)
    -- What follows an effect is the space in front of the next one or of the arrow.
    have ends : Ends ((String.join (effects.map (" " ++ ·))).toList ++ ' ' :: behind) := by
      cases effects with
      | nil => exact .cons (by decide) _
      | cons next more =>
        simp only [List.map_cons, String.join_cons, String.append_assoc, String.toList_append]
        exact .cons (by decide) _
    rw [List.map_cons, String.join_cons, List.map_cons]
    show Spells (" " ++ effect ++ _) ([] ++ [.identifier effect] ++ _) _
    refine .append (.append (spells_space rfl (by decide)) ?_) later
    exact spells_identifier identifier ends

theorem spells_arrow_effects {effects : List String}
    (known : ∀ effect ∈ effects, effect ∈ effectWords) (behind : List Char) :
    Spells (arrow effects) (effects.map Word.identifier ++ [.mark "->"]) behind := by
  refine .append (spells_effects known _) ?_
  show Spells (" " ++ "->" ++ " ") ([] ++ [.mark "->"] ++ []) behind
  exact .append (.append (spells_space rfl (by decide)) (spells_arrow _))
    (spells_space rfl (by decide))

theorem described_function {effects : List String} {result : TypeExpr} {words : List Word}
    (fits : LabelsFit elements) (known : ∀ effect ∈ effects, effect ∈ effectWords)
    (described : ∀ element ∈ elements, Described element.2 (spelling element.2))
    (describedResult : Described result words) :
    Described (.function elements effects result)
      (.mark "(" :: ([.mark ","].intercalate (elements.map (elementWords spelling)) ++
        .mark ")" :: (effects.map Word.identifier ++ .mark "->" :: words))) := by
  intro behind ends
  have spelled := Spells.append (Spells.append (spells_group fits described _)
    (spells_arrow_effects known _)) (describedResult behind ends)
  simpa [description] using spelled

theorem described_constrained {specifier : String} {constraint : TypeExpr} {words : List Word}
    (known : specifier ∈ constraintWords) (described : Described constraint words) :
    Described (.constrained specifier constraint) (.identifier specifier :: words) := by
  have identifiers : ∀ word ∈ constraintWords, IsIdentifier word := by decide
  intro behind ends
  show Spells (specifier ++ " " ++ constraint.description)
    ([.identifier specifier] ++ [] ++ words) behind
  refine .append (.append (spells_identifier (identifiers specifier known) ?_) ?_)
    (described behind ends)
  · exact ends_mark rfl (by decide) _
  · exact spells_space rfl (by decide)

theorem described_composition {members : List TypeExpr}
    (described : ∀ member ∈ members, Described member (spelling member)) :
    Described (.composition members) ([.mark "&"].intercalate (members.map spelling)) := by
  intro behind ends
  rw [description, descriptions_eq_map]
  exact spells_intercalate described (fun _ _ _ => spells_ampersand _)
    (ends_mark rfl (by decide)) ends

end Lists

end PeerExpansion.TypeExpr
