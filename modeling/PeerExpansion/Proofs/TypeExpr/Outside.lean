import PeerExpansion.Proofs.TypeExpr.Formed

/-! # Marks outside brackets

`level` counts the brackets that are open behind words. In the words of a type all brackets are
closed, and the marks between its outermost parts are the ones in front of which none is open.
-/

namespace PeerExpansion

/-! ## Open brackets -/

/-- What a word adds to the number of open brackets, those around generic arguments included. -/
def Word.turn (word : Word) : Int :=
  if word ∈ [.mark "(", .mark "[", .mark "<"] then 1
  else if word ∈ [.mark ")", .mark "]", .mark ">"] then -1
  else 0

theorem Word.turn_identifier (name : String) : (Word.identifier name).turn = 0 := by
  simp [turn, identifier, mark]

def level : List Word → Int
  | [] => 0
  | word :: words => word.turn + level words

theorem level_append (front back : List Word) :
    level (front ++ back) = level front + level back := by
  induction front with
  | nil => exact (Int.zero_add _).symm
  | cons word front inductionHypothesis =>
    rw [List.cons_append, level, level, inductionHypothesis, Int.add_assoc]

/-- In front of each of the marks a bracket is open. -/
def Guarded (marks : List String) (words : List Word) : Prop :=
  ∀ front text back, text ∈ marks → words = front ++ .mark text :: back → 0 < level front

/-- All brackets are closed, none before it is opened, and the marks are inside them. -/
structure Held (marks : List String) (words : List Word) : Prop where
  level_eq : level words = 0
  nonneg : ∀ front back, words = front ++ back → 0 ≤ level front
  guarded : Guarded marks words

namespace Held

variable {marks others : List String} {word opening closing : Word} {words front back : List Word}

theorem mono (held : Held marks words) (within : others ⊆ marks) : Held others words where
  level_eq := held.level_eq
  nonneg := held.nonneg
  guarded front text back member split := held.guarded front text back (within member) split

theorem nil : Held marks [] where
  level_eq := rfl
  nonneg front back split := by
    rw [(List.append_eq_nil_iff.mp split.symm).1]
    exact Int.le_refl 0
  guarded front text back _ split := by simp at split

theorem append (first : Held marks front) (second : Held marks back) :
    Held marks (front ++ back) where
  level_eq := by rw [level_append, first.level_eq, second.level_eq]; rfl
  nonneg initial rest split := by
    obtain ⟨more, rfl, split_eq⟩ | ⟨more, rfl, split_eq⟩ := List.append_eq_append_iff.mp split
    · rw [level_append, first.level_eq, Int.zero_add]
      exact second.nonneg more rest split_eq
    · exact first.nonneg initial more rfl
  guarded initial text rest member split := by
    obtain ⟨more, rfl, split_eq⟩ | ⟨more, rfl, split_eq⟩ := List.append_eq_append_iff.mp split
    · rw [level_append, first.level_eq, Int.zero_add]
      exact second.guarded more text rest member split_eq
    · cases more with
      | nil =>
        -- The mark would be the first word of what comes behind, with no bracket open there.
        exact absurd (second.guarded [] text rest member split_eq.symm) (Int.lt_irrefl 0)
      | cons other more =>
        obtain ⟨rfl, -⟩ := List.cons.inj split_eq
        exact first.guarded initial text more member rfl

theorem single (level_eq : word.turn = 0) (other : ∀ text ∈ marks, word ≠ .mark text) :
    Held marks [word] where
  level_eq := by rw [level, level_eq]; rfl
  nonneg front back split := by
    obtain ⟨rfl, -⟩ | ⟨rfl, -⟩ := List.singleton_eq_append_iff.mp split
    · exact Int.le_refl 0
    · rw [level, level_eq]
      exact Int.le_refl 0
  guarded front text back member split := by
    obtain ⟨-, same⟩ | ⟨-, same⟩ := List.singleton_eq_append_iff.mp split
    · exact absurd (List.cons.inj same).1.symm (other text member)
    · cases same

theorem identifier (name : String) : Held marks [.identifier name] :=
  single (Word.turn_identifier name) fun _ _ same => by cases congrArg Word.kind same

theorem mark {text : String} (level_eq : (Word.mark text).turn = 0) (other : text ∉ marks) :
    Held marks [.mark text] :=
  single level_eq fun given member same => by
    obtain rfl : text = given := congrArg Word.text same
    exact other member

/-- Between brackets everything is inside them. -/
theorem bracketed (opens : opening.turn = 1) (closes : closing.turn = -1)
    (plain : ∀ text ∈ marks, (Word.mark text).turn = 0) (held : Held [] words) :
    Held marks (opening :: (words ++ [closing])) := by
  -- The opening bracket counts up to the closing one.
  have inside {front back : List Word} (split : words ++ [closing] = front ++ back)
      (filled : back ≠ []) : 0 < level (opening :: front) := by
    obtain ⟨more, last, rfl⟩ : ∃ more last, back = more ++ [last] :=
      ⟨_, _, (List.dropLast_concat_getLast filled).symm⟩
    rw [← List.append_assoc] at split
    have := held.nonneg front more (List.append_inj_left' split rfl)
    rw [level, opens]
    omega
  have total : level (opening :: (words ++ [closing])) = 0 := by
    rw [level, level_append, opens, held.level_eq, level, closes]
    rfl
  refine ⟨total, fun front back split => ?_, fun front text back member split => ?_⟩
  · by_cases last : back = []
    · rw [split, last, List.append_nil] at total
      exact Int.le_of_eq total.symm
    · cases front with
      | nil => exact Int.le_refl 0
      | cons first front =>
        rw [List.cons_append, List.cons.injEq] at split
        obtain ⟨rfl, split⟩ := split
        exact Int.le_of_lt (inside split last)
  · cases front with
    | nil =>
      obtain ⟨rfl, -⟩ := List.cons.inj split
      rw [plain text member] at opens
      cases opens
    | cons first front =>
      rw [List.cons_append, List.cons.injEq] at split
      obtain ⟨rfl, split⟩ := split
      exact inside split (List.cons_ne_nil _ back)

theorem intercalate {separator : Word} {parts : List (List Word)}
    (separates : Held marks [separator]) (held : ∀ part ∈ parts, Held marks part) :
    Held marks ([separator].intercalate parts) := by
  induction parts with
  | nil => exact nil
  | cons part parts inductionHypothesis =>
    have first := held part List.mem_cons_self
    have later := inductionHypothesis fun other member => held other (List.mem_cons_of_mem _ member)
    cases parts with
    | nil => simpa using first
    | cons next others =>
      rw [List.intercalate_cons_cons]
      exact (first.append separates).append later

end Held

namespace TypeExpr

/-! ## The words of types -/

/-- The marks between the parts of a type. -/
def separators : List String :=
  ["&", "->", ":", ","]

theorem held_elementWords {element : Option String × TypeExpr} (held : Held [] element.2.words) :
    Held [] (elementWords words element) := by
  unfold elementWords
  split
  next label _ =>
    show Held [] ([.identifier label] ++ [.mark ":"] ++ element.2.words)
    exact ((Held.identifier label).append (.mark rfl List.not_mem_nil)).append held
  next => exact held

section Words

variable {marks : List String} (known : marks ⊆ separators) {shape : Shape} {type : TypeExpr}
include known

theorem turn_separator : ∀ text ∈ marks, (Word.mark text).turn = 0 := by
  have each : ∀ text ∈ separators, (Word.mark text).turn = 0 := by decide
  exact fun text member => each text (known member)

theorem held_mark {text : String} (level_eq : (Word.mark text).turn = 0)
    (other : text ∉ separators) : Held marks [.mark text] :=
  .mark level_eq fun member => other (known member)

theorem held_group {elements : List (Option String × TypeExpr)}
    (held : ∀ element ∈ elements, Held [] element.2.words) :
    Held marks (.mark "(" :: ([.mark ","].intercalate (elements.map (elementWords words)) ++
      [.mark ")"])) := by
  refine .bracketed rfl rfl (turn_separator known) (.intercalate (.mark rfl List.not_mem_nil) ?_)
  intro part member
  obtain ⟨element, inside, rfl⟩ := List.mem_map.mp member
  exact held_elementWords (held element inside)

/-- The parameters and effects of a function, in front of its arrow. -/
theorem held_parameters {parameters : List (Option String × TypeExpr)} {effects : List String}
    (held : ∀ parameter ∈ parameters, Held [] parameter.2.words) :
    Held marks (.mark "(" :: ([.mark ","].intercalate (parameters.map (elementWords words)) ++
      [.mark ")"]) ++ effects.map Word.identifier) := by
  refine (held_group known held).append ?_
  induction effects with
  | nil => exact .nil
  | cons effect effects inductionHypothesis =>
    exact (Held.identifier effect).append inductionHypothesis

theorem held_parenthesisedWords (inside : Held [] type.words)
    (outside : type.needsParentheses = false → Held marks type.words) :
    Held marks (parenthesisedWords type type.words) := by
  unfold parenthesisedWords
  split
  next => exact .bracketed rfl rfl (turn_separator known) inside
  next plain => exact outside (by simpa using plain)

theorem held_part {part : NamePart} (held : ∀ argument ∈ part.arguments, Held [] argument.words) :
    Held marks (part.words words) := by
  unfold NamePart.words
  split
  next => exact .identifier part.name
  next =>
    refine (Held.identifier part.name).append (.bracketed rfl rfl (turn_separator known) ?_)
    refine .intercalate (.mark rfl List.not_mem_nil) fun words member => ?_
    obtain ⟨argument, inside, rfl⟩ := List.mem_map.mp member
    exact held argument inside

theorem held_dotted {first : NamePart} {others : List NamePart}
    (identifiers : ∀ part ∈ first :: others, IsIdentifier part.name)
    (formed : ∀ part ∈ first :: others, ∀ argument ∈ part.arguments, Formed shape argument)
    (held : ∀ part ∈ first :: others, ∀ argument ∈ part.arguments, Held [] argument.words) :
    Held marks (dotted first others).words := by
  rw [words_dotted identifiers formed]
  refine .intercalate (held_mark known rfl (by decide)) fun words member => ?_
  obtain ⟨part, inside, rfl⟩ := List.mem_map.mp member
  exact held_part known (held part inside)

theorem held_metatype {word : String} (wordKnown : word ∈ metatypes) (formed : Formed shape type)
    (held : Held marks type.words) : Held marks (type.metatype word).words := by
  rw [words_metatype wordKnown formed]
  exact held.append ((held_mark known rfl (by decide)).append (.identifier word))

theorem held_optional (formed : Formed shape type) (inside : Held [] type.words)
    (outside : type.needsParentheses = false → Held marks type.words) :
    Held marks (TypeExpr.optional type).words := by
  rw [words_optional formed]
  exact (held_parenthesisedWords known inside outside).append (held_mark known rfl (by decide))

theorem held_implicitlyUnwrapped (formed : Formed shape type) (inside : Held [] type.words)
    (outside : type.needsParentheses = false → Held marks type.words) :
    Held marks (TypeExpr.implicitlyUnwrapped type).words := by
  rw [words_implicitlyUnwrapped formed]
  exact (held_parenthesisedWords known inside outside).append (held_mark known rfl (by decide))

theorem held_array (formed : Formed shape type) (held : Held [] type.words) :
    Held marks (TypeExpr.array type).words := by
  rw [words_array formed]
  exact .bracketed rfl rfl (turn_separator known) held

theorem held_dictionary {key value : TypeExpr} (keyFormed : Formed shape key)
    (valueFormed : Formed shape value) (keyHeld : Held [] key.words)
    (valueHeld : Held [] value.words) : Held marks (TypeExpr.dictionary key value).words := by
  rw [words_dictionary keyFormed valueFormed]
  refine .bracketed rfl rfl (turn_separator known) ?_
  exact keyHeld.append ((Held.mark rfl List.not_mem_nil).append valueHeld)

theorem held_tuple {elements : List (Option String × TypeExpr)} (fits : LabelsFit elements)
    (formed : ∀ element ∈ elements, Formed shape element.2)
    (held : ∀ element ∈ elements, Held [] element.2.words) :
    Held marks (TypeExpr.tuple elements).words := by
  rw [words_tuple fits formed]
  exact held_group known held

end Words

variable {shape : Shape} {type : TypeExpr}

/-- In the words of a formed type all brackets are closed, and colons and commas are inside them. -/
theorem Formed.held (formed : Formed shape type) : Held [":", ","] type.words := by
  have known : [":", ","] ⊆ separators := by decide
  have inside {type : TypeExpr} (held : Held [":", ","] type.words) : Held [] type.words :=
    held.mono (List.nil_subset _)
  induction formed with
  | dotted _ _ identifiers arguments inductionHypothesis =>
    exact held_dotted known identifiers arguments fun part member argument within =>
      inside (inductionHypothesis part member argument within)
  | metatype wordKnown _ formed inductionHypothesis =>
    exact held_metatype known wordKnown formed inductionHypothesis
  | optional formed inductionHypothesis =>
    exact held_optional known formed (inside inductionHypothesis) fun _ => inductionHypothesis
  | implicitlyUnwrapped formed inductionHypothesis =>
    exact held_implicitlyUnwrapped known formed (inside inductionHypothesis) fun _ =>
      inductionHypothesis
  | array formed inductionHypothesis => exact held_array known formed (inside inductionHypothesis)
  | dictionary key value keyHypothesis valueHypothesis =>
    exact held_dictionary known key value (inside keyHypothesis) (inside valueHypothesis)
  | tuple fits _ elements inductionHypothesis =>
    exact held_tuple known fits elements fun element member =>
      inside (inductionHypothesis element member)
  | function fits effectsKnown parameters result inductionHypothesis resultHypothesis =>
    rw [words_function fits effectsKnown parameters result]
    refine (held_parameters known fun parameter member =>
      inside (inductionHypothesis parameter member)).append ?_
    exact (Held.mark rfl (by decide)).append resultHypothesis
  | constrained specifierKnown _ formed inductionHypothesis =>
    rw [words_constrained specifierKnown formed]
    exact (Held.identifier _).append inductionHypothesis
  | composition _ _ members inductionHypothesis =>
    rw [words_composition members]
    refine .intercalate (.mark rfl (by decide)) fun words member => ?_
    obtain ⟨type, within, rfl⟩ := List.mem_map.mp member
    exact inductionHypothesis type within

/-- All brackets are closed in the words of a formed type, wherever its marks are. -/
theorem Formed.balanced (formed : Formed shape type) : Held [] type.words :=
  formed.held.mono (List.nil_subset _)

/-- Between the parts of a clear type without parentheses is no ampersand and no arrow. -/
theorem Clear.held (clear : Clear type) (plain : type.needsParentheses = false) :
    Held ["&", "->"] type.words := by
  have known : ["&", "->"] ⊆ separators := by decide
  induction clear with
  | dotted _ _ identifiers arguments =>
    exact held_dotted known identifiers arguments fun part member argument within =>
      (arguments part member argument within).balanced
  | metatype wordKnown apart clear inductionHypothesis =>
    exact held_metatype known wordKnown clear (inductionHypothesis apart)
  | optional clear inductionHypothesis =>
    exact held_optional known clear clear.balanced inductionHypothesis
  | implicitlyUnwrapped clear inductionHypothesis =>
    exact held_implicitlyUnwrapped known clear clear.balanced inductionHypothesis
  | array clear => exact held_array known clear clear.balanced
  | dictionary key value => exact held_dictionary known key value key.balanced value.balanced
  | tuple fits _ elements =>
    exact held_tuple known fits elements fun element member => (elements element member).balanced
  | function | constrained | composition => cases plain

end TypeExpr

end PeerExpansion
