import PeerExpansion.Proofs.TypeExpr.Outside

/-! # What words tell of their type

The words of a type tell whether parentheses are needed around it. Where none are needed, the last
word shows the kind of the type, and a colon outside inner brackets tells a dictionary from an
array.
-/

namespace PeerExpansion.TypeExpr

variable {shape otherShape : Shape} {type other : TypeExpr}

/-! ## Closed words -/

/-- The words begin with one that is not for a constraint. -/
def Unconstrained (words : List Word) : Prop :=
  ∃ first others, words = first :: others ∧ first ∉ constraintWords.map Word.identifier

/-- No ampersand and no arrow stands outside brackets, and no word for a constraint in front. -/
structure Closed (words : List Word) : Prop where
  guarded : Guarded ["&", "->"] words
  unconstrained : Unconstrained words

/-- A type with closed words needs no parentheses. -/
theorem Formed.needsParentheses_of_closed (formed : Formed shape type)
    (closed : Closed type.words) : type.needsParentheses = false := by
  cases formed with
  | dotted | metatype | optional | implicitlyUnwrapped | array | dictionary | tuple => rfl
  | @function parameters effects result fits known formed resultFormed =>
    rw [words_function fits known formed resultFormed] at closed
    have held := @held_parameters [] (List.nil_subset _) parameters effects
      fun parameter member => (formed parameter member).balanced
    exact absurd (closed.guarded _ "->" _ (by decide) rfl) (by rw [held.level_eq]; decide)
  | constrained known _ formed =>
    rw [words_constrained known formed] at closed
    obtain ⟨first, others, same, plain⟩ := closed.unconstrained
    obtain ⟨rfl, -⟩ := List.cons.inj same
    exact absurd (List.mem_map_of_mem known) plain
  | @composition members several _ formed =>
    rw [words_composition formed] at closed
    match members, several with
    | first :: second :: others, _ =>
      simp only [List.map_cons, List.intercalate_cons_cons, List.append_assoc] at closed
      have held := (formed first List.mem_cons_self).held
      exact absurd (closed.guarded _ "&" _ (by decide) rfl) (by rw [held.level_eq]; decide)

theorem Unconstrained.append {words : List Word} (unconstrained : Unconstrained words)
    (more : List Word) : Unconstrained (words ++ more) := by
  obtain ⟨first, others, rfl, plain⟩ := unconstrained
  exact ⟨first, others ++ more, rfl, plain⟩

theorem unconstrained_mark (text : String) (words : List Word) :
    Unconstrained (.mark text :: words) := by
  refine ⟨_, words, rfl, fun member => ?_⟩
  obtain ⟨word, -, same⟩ := List.mem_map.mp member
  cases congrArg Word.kind same

theorem unconstrained_identifier {name : String} (plain : name ∉ leadingWords)
    (words : List Word) : Unconstrained (.identifier name :: words) := by
  have among : constraintWords ⊆ leadingWords := by decide
  refine ⟨_, words, rfl, fun member => ?_⟩
  obtain ⟨word, known, same⟩ := List.mem_map.mp member
  obtain rfl : word = name := congrArg Word.text same
  exact plain (among known)

theorem unconstrained_parenthesisedWords {words : List Word}
    (plain : type.needsParentheses = false → Unconstrained words) :
    Unconstrained (parenthesisedWords type words) := by
  unfold parenthesisedWords
  split
  next => exact unconstrained_mark "(" _
  next apart => exact plain (by simpa using apart)

theorem Clear.unconstrained (clear : Clear type) (plain : type.needsParentheses = false) :
    Unconstrained type.words := by
  induction clear with
  | @dotted first others leads _ identifiers arguments =>
    obtain ⟨more, words_eq, -⟩ := exists_dottedWords_eq first others
    rw [words_dotted identifiers arguments, words_eq]
    exact unconstrained_identifier leads more
  | metatype known apart clear inductionHypothesis =>
    rw [words_metatype known clear]
    exact (inductionHypothesis apart).append _
  | optional clear inductionHypothesis =>
    rw [words_optional clear]
    exact (unconstrained_parenthesisedWords inductionHypothesis).append _
  | implicitlyUnwrapped clear inductionHypothesis =>
    rw [words_implicitlyUnwrapped clear]
    exact (unconstrained_parenthesisedWords inductionHypothesis).append _
  | array clear =>
    rw [words_array clear]
    exact unconstrained_mark "[" _
  | dictionary key value =>
    rw [words_dictionary key value]
    exact unconstrained_mark "[" _
  | tuple fits _ elements =>
    rw [words_tuple fits elements]
    exact unconstrained_mark "(" _
  | function | constrained | composition => cases plain

/-- The words of a clear type are closed if it needs no parentheses. -/
theorem Clear.closed (clear : Clear type) (plain : type.needsParentheses = false) :
    Closed type.words where
  guarded := (clear.held plain).guarded
  unconstrained := clear.unconstrained plain

/-! ## Kinds -/

/-- What a type is, without the types inside. -/
inductive Kind
  | simple
  | optional
  | implicitlyUnwrapped
  | array
  | dictionary
  | tuple
  | function
  | constrained
  | composition
deriving DecidableEq

def kind : TypeExpr → Kind
  | simple .. => .simple
  | optional _ => .optional
  | implicitlyUnwrapped _ => .implicitlyUnwrapped
  | array _ => .array
  | dictionary .. => .dictionary
  | tuple _ => .tuple
  | function .. => .function
  | constrained .. => .constrained
  | composition _ => .composition

theorem kind_ne_simple {type : TypeExpr} (needs : type.needsParentheses = true) :
    type.kind ≠ .simple := by
  cases type with
  | simple => cases needs
  | _ => exact fun same => Kind.noConfusion same

/-- The kind of a type with this word at its end, if it needs no parentheses. Dictionaries are taken
for arrays. -/
def endingKind (word : Word) : Kind :=
  if word = .mark "?" then .optional
  else if word = .mark "!" then .implicitlyUnwrapped
  else if word = .mark "]" then .array
  else if word = .mark ")" then .tuple
  else .simple

/-- The kind that the last word shows. -/
def Kind.shown : Kind → Kind
  | dictionary => array
  | kind => kind

theorem Kind.eq_or_of_shown_eq {first second : Kind} (same : first.shown = second.shown) :
    first = second ∨ (first = .array ∧ second = .dictionary) ∨
      (first = .dictionary ∧ second = .array) := by
  cases first <;> cases second <;> first | decide | cases same

theorem endingKind_identifier (name : String) : endingKind (.identifier name) = .simple := by
  simp [endingKind, Word.identifier, Word.mark]

/-- A name ends with a word or behind its generic arguments. -/
theorem exists_dottedWords_eq_append (first : NamePart) (others : List NamePart) :
    ∃ front last, [.mark "."].intercalate ((first :: others).map (NamePart.words words)) =
        front ++ [last] ∧ endingKind last = .simple := by
  induction others generalizing first with
  | nil =>
    rw [List.map_singleton, List.intercalate_singleton]
    unfold NamePart.words
    split
    next => exact ⟨[], _, rfl, endingKind_identifier first.name⟩
    next => exact ⟨_ :: _ :: _, _, rfl, rfl⟩
  | cons next others inductionHypothesis =>
    obtain ⟨front, last, words_eq, ending⟩ := inductionHypothesis next
    rw [List.map_cons, List.map_cons, List.intercalate_cons_cons, ← List.map_cons, words_eq,
      ← List.append_assoc]
    exact ⟨_, last, rfl, ending⟩

/-- The last word of a type shows its kind where no parentheses are needed. -/
theorem Formed.endingKind_eq (formed : Formed shape type) (plain : type.needsParentheses = false) :
    ∃ front last, type.words = front ++ [last] ∧ endingKind last = type.kind.shown := by
  cases formed with
  | @dotted first others _ _ identifiers arguments =>
    obtain ⟨front, last, words_eq, ending⟩ := exists_dottedWords_eq_append first others
    exact ⟨front, last, (words_dotted identifiers arguments).trans words_eq, ending⟩
  | @metatype type word known _ formed =>
    rw [words_metatype known formed]
    exact ⟨type.words ++ [.mark "."], .identifier word, by simp, endingKind_identifier word⟩
  | optional formed => exact ⟨_, _, words_optional formed, rfl⟩
  | implicitlyUnwrapped formed => exact ⟨_, _, words_implicitlyUnwrapped formed, rfl⟩
  | array formed => exact ⟨_ :: _, _, words_array formed, rfl⟩
  | dictionary key value => exact ⟨_ :: _, _, words_dictionary key value, rfl⟩
  | tuple fits _ elements => exact ⟨_ :: _, _, words_tuple fits elements, rfl⟩
  | function | constrained | composition => cases plain

/-- A dictionary has a colon outside the brackets inside it, and an array has none. -/
theorem Formed.words_ne_of_kind (formed : Formed shape type) (otherFormed : Formed otherShape other)
    (array : type.kind = .array) (dictionary : other.kind = .dictionary) :
    type.words ≠ other.words := by
  intro same
  cases formed with
  | array element =>
    cases otherFormed with
    | dictionary key value =>
      rw [words_array element, words_dictionary key value, List.cons.injEq,
        List.append_cancel_right_eq] at same
      have opened := element.held.guarded _ ":" _ List.mem_cons_self same.2
      rw [key.held.level_eq] at opened
      cases opened
    | _ => cases dictionary
  | _ => cases array

/-- Closed words tell the kind of their type. -/
theorem Formed.kind_eq_of_words_eq (formed : Formed shape type)
    (otherFormed : Formed otherShape other) (closed : Closed type.words)
    (same : other.words = type.words) : other.kind = type.kind := by
  obtain ⟨front, last, words_eq, ending⟩ :=
    formed.endingKind_eq (formed.needsParentheses_of_closed closed)
  rw [← same] at closed
  obtain ⟨otherFront, otherLast, otherWords_eq, otherEnding⟩ :=
    otherFormed.endingKind_eq (otherFormed.needsParentheses_of_closed closed)
  have last_eq : otherLast = last := by
    rw [words_eq, otherWords_eq] at same
    exact (List.append_inj' same rfl).2 |> List.singleton_inj.mp
  rw [last_eq, ending] at otherEnding
  obtain kind_eq | ⟨array, dictionary⟩ | ⟨dictionary, array⟩ :=
    Kind.eq_or_of_shown_eq otherEnding
  · exact kind_eq.symm
  · exact absurd same.symm (formed.words_ne_of_kind otherFormed array dictionary)
  · exact absurd same (otherFormed.words_ne_of_kind formed array dictionary)

end PeerExpansion.TypeExpr
