import PeerExpansion.Proofs.TypeExpr.Kind
import PeerExpansion.Proofs.TypeExpr.Loose

/-! # Types with the same description

Clear types can be told by their descriptions. A metatype is known by a name that is written without
parentheses, so the metatype of a type that needs them has the description of a type of another
kind, in which only the last part of the type has its metatype there.
-/

namespace PeerExpansion.TypeExpr

open Reading

/-! ## Types and texts -/

/-- The type is what is read at the start of some source. -/
def IsRead (type : TypeExpr) : Prop :=
  ∃ source stream last, TokenStream.scan source = .ok stream ∧
    Reads TypeExpr.read (.ofStream stream 0) type last

/-- The type is what the text is read as, up to its end. -/
def IsReadFrom (type : TypeExpr) (text : String) : Prop :=
  ∃ stream, TokenStream.scan text.toList = .ok stream ∧
    Reads TypeExpr.read (.ofStream stream 0) type (.ofStream stream stream.words.length)

theorem among_named {source : List Char} {stream : TokenStream}
    (scanned : TokenStream.scan source = .ok stream) (index : Nat) :
    (Cursor.ofStream stream index).Among Token.Named :=
  among_ofStream (fun _ member => TokenStream.named_of_scan scanned member) index

theorem formed_of_reads {source : List Char} {stream : TokenStream} {index : Nat} {last : Cursor}
    {type : TypeExpr} (scanned : TokenStream.scan source = .ok stream)
    (read : Reads TypeExpr.read (.ofStream stream index) type last) : Formed .loose type :=
  (forms_read.reads (among_named scanned index) read).2

theorem IsRead.formed {type : TypeExpr} (read : IsRead type) : Formed .loose type := by
  obtain ⟨source, stream, last, scanned, read⟩ := read
  exact formed_of_reads scanned read

section Texts

variable {type other : TypeExpr} {text word : String} {words : List Word}

theorem IsReadFrom.isRead (read : IsReadFrom type text) : IsRead type := by
  obtain ⟨stream, scanned, read⟩ := read
  exact ⟨_, stream, _, scanned, read⟩

theorem IsReadFrom.unique (read : IsReadFrom type text) (again : IsReadFrom other text) :
    type = other := by
  obtain ⟨stream, scanned, read⟩ := read
  obtain ⟨stream, rescanned, again⟩ := again
  rw [scanned] at rescanned
  cases rescanned
  exact (read.unique again).1

theorem Whole.isReadFrom (whole : Whole type words) (spells : Spells text words []) :
    IsReadFrom type text := by
  obtain ⟨stream, scanned, words_eq, -⟩ := spells.exists_scan
  refine ⟨stream, scanned, ?_⟩
  have faces := Cursor.faces_of_scan scanned
  rw [words_eq, ← List.append_nil words] at faces
  have read := (whole.takes_read (.nil (by decide))).reads faces
  rwa [Cursor.skip_ofStream, ← words_eq, List.length_map, Nat.zero_add] at read

theorem Clear.isReadFrom_description (clear : Clear type) : IsReadFrom type type.description :=
  clear.spelling.whole.isReadFrom (clear.spelling.described [] .nil)

/-- Clear types with the same description are the same. -/
theorem Clear.eq_of_description_eq (clear : Clear type) (otherClear : Clear other)
    (same : type.description = other.description) : type = other := by
  have read := clear.isReadFrom_description
  rw [same] at read
  exact read.unique otherClear.isReadFrom_description

/-- The metatype of a clear type is read where parentheses keep the type together. -/
theorem Clear.isReadFrom_metatype (clear : Clear type) (known : word ∈ metatypes) :
    IsReadFrom (type.metatype word) ("(" ++ type.description ++ ")." ++ word) := by
  have chained := (chained_grouped clear.spelling).metatype known
  have whole := (chained.suffixed (List.cons_ne_nil _ _)).whole (by decide)
  have grouped := clear.spelling.described.grouped
  have spells := spells_metatype known (fun behind _ => grouped behind) .nil
  have text_eq : "(" ++ type.description ++ ")" ++ "." = "(" ++ type.description ++ ")." := by
    rw [String.append_assoc]
    rfl
  rw [text_eq] at spells
  exact whole.isReadFrom spells

end Texts

/-! ## Metatypes -/

section Metatypes

variable {type : TypeExpr} {word : String}

theorem intercalate_append_last (separator : String) (front : List String) (last more : String) :
    String.intercalate separator (front ++ [last ++ more]) =
      String.intercalate separator (front ++ [last]) ++ more := by
  cases front with
  | nil => simp
  | cons first front =>
    have filled : first :: front ≠ [] := List.cons_ne_nil first front
    have single (text : String) : [text] ≠ [] := List.cons_ne_nil text []
    simp only [String.intercalate_append_of_ne_nil filled (single _), String.intercalate_singleton,
      String.append_assoc]

/-- A clear type with the description of a metatype. It is of the kind of the type itself if that
needs parentheses, and may stand where a part of a composition stands if the type may. -/
structure MetatypeTwin (word : String) (type twin : TypeExpr) : Prop where
  clear : Clear twin
  description_eq : twin.description = (type.metatype word).description
  kind_eq : type.needsParentheses = true → twin.kind = type.kind
  isMember : type.isMember = true → twin.isMember = true

/-- The metatype of a type that needs no parentheses is clear itself. -/
theorem metatypeTwin_metatype (known : word ∈ metatypes) (clear : Clear type)
    (plain : type.needsParentheses = false) : MetatypeTwin word type (type.metatype word) where
  clear := .metatype known plain clear
  description_eq := rfl
  kind_eq needs := by
    rw [plain] at needs
    cases needs
  isMember _ := rfl

/-- The metatype of a composition reads like the metatype of its last member. -/
theorem description_metatype_composition (front : List TypeExpr) {last twin : TypeExpr}
    (same : twin.description = (last.metatype word).description) :
    (composition (front ++ [twin])).description =
      ((composition (front ++ [last])).metatype word).description := by
  simp only [description, metatype, descriptions_eq_map, List.map_append, List.map_singleton]
    at same ⊢
  rw [same, String.append_assoc, intercalate_append_last, String.append_assoc]

/-- Every metatype has the description of a clear type, of the same kind as a type that needs
parentheses. -/
theorem Clear.exists_twin (clear : Clear type) (known : word ∈ metatypes) :
    ∃ twin, MetatypeTwin word type twin := by
  induction clear with
  | dotted leads named identifiers arguments =>
    exact ⟨_, metatypeTwin_metatype known (.dotted leads named identifiers arguments) rfl⟩
  | metatype inner apart clear =>
    exact ⟨_, metatypeTwin_metatype known (.metatype inner apart clear) rfl⟩
  | optional clear => exact ⟨_, metatypeTwin_metatype known (.optional clear) rfl⟩
  | implicitlyUnwrapped clear =>
    exact ⟨_, metatypeTwin_metatype known (.implicitlyUnwrapped clear) rfl⟩
  | array clear => exact ⟨_, metatypeTwin_metatype known (.array clear) rfl⟩
  | dictionary key value => exact ⟨_, metatypeTwin_metatype known (.dictionary key value) rfl⟩
  | tuple fits several elements =>
    exact ⟨_, metatypeTwin_metatype known (.tuple fits several elements) rfl⟩
  -- In the others the last part has its metatype instead.
  | @function parameters effects result fits effectsKnown parametersClear _ _ resultHypothesis =>
    obtain ⟨twin, twins⟩ := resultHypothesis
    have same := twins.description_eq
    refine ⟨.function parameters effects twin,
      .function fits effectsKnown parametersClear twins.clear, ?_, fun _ => rfl,
      fun member => by cases member⟩
    simp only [description, metatype, String.append_assoc] at same ⊢
    rw [same]
  | @constrained specifier constraint specifierKnown fits clear inductionHypothesis =>
    obtain ⟨twin, twins⟩ := inductionHypothesis
    have same := twins.description_eq
    have words_eq : twin.words = constraint.words ++ [.mark ".", .identifier word] :=
      (words_eq_of_description_eq same).trans (words_metatype known clear)
    have twinFits := fits.2.append [.mark ".", .identifier word]
    rw [← words_eq] at twinFits
    refine ⟨.constrained specifier twin,
      .constrained specifierKnown ⟨twins.isMember fits.1, twinFits⟩ twins.clear, ?_,
      fun _ => rfl, fun _ => rfl⟩
    simp only [description, metatype, String.append_assoc] at same ⊢
    rw [same]
  | @composition members several fits clear inductionHypothesis =>
    have filled : members ≠ [] := by
      rintro rfl
      cases several
    obtain ⟨front, last, rfl⟩ : ∃ front last, members = front ++ [last] :=
      ⟨_, _, (List.dropLast_concat_getLast filled).symm⟩
    have within : last ∈ front ++ [last] := List.mem_append_right _ (List.mem_singleton_self last)
    obtain ⟨twin, twins⟩ := inductionHypothesis last within
    rw [List.forall_mem_append] at fits clear
    have twinFits : ∀ member ∈ front ++ [twin], member.isMember = true :=
      List.forall_mem_append.mpr ⟨fits.1, by simpa using twins.isMember (fits.2 last (by simp))⟩
    have twinClear : ∀ member ∈ front ++ [twin], Clear member :=
      List.forall_mem_append.mpr ⟨clear.1, by simpa using twins.clear⟩
    exact ⟨.composition (front ++ [twin]), .composition (by simpa using several) twinFits twinClear,
      description_metatype_composition front twins.description_eq, fun _ => rfl,
      fun member => by cases member⟩

/-- The metatype of a clear type has the description of a type of another kind exactly if the type
needs parentheses. -/
theorem Clear.exists_twin_iff (clear : Clear type) (known : word ∈ metatypes) :
    (∃ other, IsRead other ∧ other.description = (type.metatype word).description ∧
      other.kind ≠ (type.metatype word).kind) ↔ type.needsParentheses = true := by
  constructor
  · rintro ⟨other, read, same, different⟩
    by_contra plain
    have metatypeClear : Clear (type.metatype word) :=
      .metatype known (Bool.eq_false_iff.mpr plain) clear
    have closed := metatypeClear.closed rfl
    exact different (metatypeClear.kind_eq_of_words_eq read.formed closed
      (words_eq_of_description_eq same))
  · intro needs
    obtain ⟨twin, twins⟩ := clear.exists_twin known
    refine ⟨twin, twins.clear.isReadFrom_description.isRead, twins.description_eq, ?_⟩
    rw [twins.kind_eq needs]
    exact kind_ne_simple needs

end Metatypes

/-! ## Types that are read -/

/-- The description of a type that is read tells its kind, unless it begins with a word for a
constraint or has an ampersand or an arrow outside brackets. That of a clear type tells it from all
clear types. Its metatypes can all be read, and they share their description with a type of another
kind exactly if the type needs parentheses. -/
theorem renderingLaw_of_isRead {type : TypeExpr} (read : IsRead type) :
    (Closed type.words → ∀ other, IsRead other → other.description = type.description →
      other.kind = type.kind) ∧
      (Clear type →
        (∀ other, Clear other → other.description = type.description → other = type) ∧
          ∀ word ∈ metatypes,
            IsReadFrom (type.metatype word) ("(" ++ type.description ++ ")." ++ word) ∧
              ((∃ other, IsRead other ∧ other.description = (type.metatype word).description ∧
                other.kind ≠ (type.metatype word).kind) ↔ type.needsParentheses = true)) := by
  refine ⟨fun closed other otherRead same => ?_, fun clear => ⟨fun other otherClear same => ?_,
    fun word known => ⟨clear.isReadFrom_metatype known, clear.exists_twin_iff known⟩⟩⟩
  · exact read.formed.kind_eq_of_words_eq otherRead.formed closed (words_eq_of_description_eq same)
  · exact otherClear.eq_of_description_eq clear same

/-- A composition, whose metatypes are described like compositions. -/
def membersSample : TypeExpr :=
  .composition [ofName "A", ofName "B"]

theorem clear_ofName {name : String} (identifier : IsIdentifier name)
    (plain : name ∉ leadingWords) : Clear (ofName name) :=
  (canonical_ofName identifier plain).clear_and_opensNamed.1

theorem Clear.composed {first second : TypeExpr} (firstClear : Clear first)
    (secondClear : Clear second) (firstFits : first.isMember = true)
    (secondFits : second.isMember = true) : Clear (.composition [first, second]) := by
  refine .composition (Nat.le_refl 2) ?_ ?_
  · simpa [Shape.clear] using And.intro firstFits secondFits
  · simpa using And.intro firstClear secondClear

theorem clear_membersSample : Clear membersSample :=
  .composed (clear_ofName (by decide) (by decide)) (clear_ofName (by decide) (by decide)) rfl rfl

/-- A composition with a metatype in it. -/
def lastMemberSample : TypeExpr :=
  .composition [ofName "A", (ofName "B").metatype "Type"]

theorem clear_lastMemberSample : Clear lastMemberSample :=
  .composed (clear_ofName (by decide) (by decide))
    (.metatype (by decide) rfl (clear_ofName (by decide) (by decide))) rfl rfl

theorem renderingLaw_membersSample :
    (IsRead membersSample ∧ Clear membersSample ∧
      IsReadFrom (membersSample.metatype "Type") "(A & B).Type" ∧
      ∃ other, IsRead other ∧ other.description = "A & B.Type" ∧ other.kind ≠ .simple) ∧
      IsRead (.optional membersSample) ∧ Closed (TypeExpr.optional membersSample).words ∧
        ∀ other, IsRead other → other.description = "(A & B)?" → other.kind = .optional := by
  have clear := clear_membersSample
  have optional : Clear (.optional membersSample) := .optional clear
  have read := clear.isReadFrom_description.isRead
  have optionalRead := optional.isReadFrom_description.isRead
  have closed := optional.closed rfl
  obtain ⟨readFrom, twin⟩ := ((renderingLaw_of_isRead read).2 clear).2 "Type" (by decide)
  exact ⟨⟨read, clear, readFrom, twin.mpr rfl⟩, optionalRead, closed,
    (renderingLaw_of_isRead optionalRead).1 closed⟩

/-- Types of different kinds are read from sources, and their descriptions are the same. -/
theorem not_kind_eq_of_description_eq :
    IsReadFrom (membersSample.metatype "Type") "(A & B).Type" ∧
      IsReadFrom lastMemberSample "A & B.Type" ∧
      (membersSample.metatype "Type").description = lastMemberSample.description ∧
      (membersSample.metatype "Type").kind ≠ lastMemberSample.kind :=
  ⟨clear_membersSample.isReadFrom_metatype (by decide),
    clear_lastMemberSample.isReadFrom_description, rfl, by decide⟩

/-! ## Optional types and their marks

A question mark behind the description of a type describes an optional type only if no parentheses
are needed in front of the mark. Where they are needed the two texts differ, and no other type makes
up for it: what is described between parentheses is a tuple with a label or a comma in it.
-/

variable {shape otherShape : Shape} {type other : TypeExpr}

/-- A type that needs parentheses has words. -/
theorem Formed.words_ne_nil (formed : Formed shape type) (needs : type.needsParentheses = true) :
    type.words ≠ [] := by
  intro none
  cases formed with
  | function fits known parameters result =>
    rw [words_function fits known parameters result] at none
    cases none
  | constrained known _ constraint =>
    rw [words_constrained known constraint] at none
    cases none
  | @composition members several _ inner =>
    rw [words_composition inner] at none
    match members, several with
    | first :: second :: others, _ => simp [List.intercalate_cons_cons] at none
  | _ => cases needs

/-- Between parentheses all that a type consists of is inside them. -/
theorem Formed.closed_grouped (formed : Formed shape type) :
    Closed (.mark "(" :: (type.words ++ [.mark ")"])) where
  guarded := (Held.bracketed rfl rfl (by decide) formed.balanced).guarded
  unconstrained := unconstrained_mark "(" _

/-- The elements of a tuple are told by a label or a comma outside brackets, unless there are
none. -/
theorem not_held_of_elements {elements : List (Option String × TypeExpr)}
    (several : ∀ only, elements ≠ [(none, only)]) (filled : elements ≠ [])
    (formed : ∀ element ∈ elements, Formed shape element.2) :
    ¬ Held [":", ","] ([.mark ","].intercalate (elements.map (elementWords words))) := by
  intro held
  match elements, several, filled, formed with
  | [(none, only)], several, _, _ => exact several only rfl
  | [(some label, only)], _, _, _ =>
    rw [List.map_singleton, List.intercalate_singleton] at held
    have opened := held.guarded [.identifier label] ":" only.words (by decide) rfl
    rw [level, Word.turn_identifier] at opened
    exact absurd opened (by decide)
  | first :: second :: others, _, _, formed =>
    have balanced := (held_elementWords (formed first List.mem_cons_self).balanced).level_eq
    rw [List.map_cons, List.map_cons, List.intercalate_cons_cons, List.append_assoc] at held
    have opened := held.guarded _ "," _ (by decide) rfl
    rw [balanced] at opened
    exact absurd opened (by decide)

/-- No type is described by another one that needs parentheses, with parentheses around it. -/
theorem Formed.words_ne_grouped (formed : Formed shape type) (otherFormed : Formed otherShape other)
    (needs : other.needsParentheses = true) :
    type.words ≠ .mark "(" :: (other.words ++ [.mark ")"]) := by
  intro same
  have plain := formed.needsParentheses_of_closed (same ▸ otherFormed.closed_grouped)
  obtain ⟨front, last, words_eq, ending⟩ := formed.endingKind_eq plain
  -- The parenthesis at the end shows that the type is a tuple.
  rw [same, ← List.cons_append] at words_eq
  obtain rfl := List.singleton_inj.mp (List.append_inj' words_eq rfl).2
  cases formed with
  | @tuple elements fits several formed =>
    rw [words_tuple fits formed, List.cons.injEq, List.append_cancel_right_eq] at same
    have filled : elements ≠ [] := by
      rintro rfl
      exact otherFormed.words_ne_nil needs same.2.symm
    exact not_held_of_elements several filled formed (same.2 ▸ otherFormed.held)
  | function | constrained | composition => cases plain
  | _ => cases ending

theorem Formed.description_ne_grouped (formed : Formed shape type)
    (otherFormed : Formed otherShape other) (needs : other.needsParentheses = true) :
    type.description ≠ "(" ++ other.description ++ ")" := by
  intro same
  have spells := otherFormed.described.grouped []
  rw [← same] at spells
  exact formed.words_ne_grouped otherFormed needs (words_eq_of_spells spells)

/-- An optional type is described like another type with a question mark behind it exactly if the
type inside is described like the other and is written without parentheses. -/
theorem Formed.description_optional_eq_iff (formed : Formed shape type)
    (otherFormed : Formed otherShape other) :
    (TypeExpr.optional other).description = type.description ++ "?" ↔
      other.description = type.description ∧ other.needsParentheses = false := by
  rw [description, parenthesised, String.append_left_inj]
  cases needs : other.needsParentheses with
  | true => simp [(formed.description_ne_grouped otherFormed needs).symm]
  | false => simp

end PeerExpansion.TypeExpr
