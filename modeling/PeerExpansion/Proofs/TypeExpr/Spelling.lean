import PeerExpansion.Proofs.TypeExpr.Canonical

/-! # Words and the types around them

`Spelling` collects what the words of a type have to do with those of the types around it, and one
lemma for each kind of type shows how they come from those of the types inside.
-/

namespace PeerExpansion.TypeExpr

open Reading

/-! ## Types with marks behind them -/

/-- The words are taken for the type, and reading goes on with the marks behind it. -/
def Chained (type : TypeExpr) (words : List Word) : Prop :=
  ∀ ⦃depth : Nat⦄ ⦃value : TypeExpr⦄ ⦃others rest : List Word⦄, words.length ≤ depth + 1 →
    Parted (others ++ rest) → TakesSuffixes type value others rest →
    Takes (suffixedWithin (depth + 1)) value (words ++ others) rest

/-- The words are taken for the type by the reader for types without marks, where what follows
lets it stop. -/
def Primary (type : TypeExpr) (Stops : List Word → Prop) (words : List Word) : Prop :=
  ∀ ⦃depth : Nat⦄ ⦃rest : List Word⦄, words.length ≤ depth + 1 → Stops rest →
    Takes (readPrimary (suffixedWithin depth)) type words rest

/-- The words are taken by the reader for members of compositions. -/
def Suffixed (type : TypeExpr) (marks : List String) (words : List Word) : Prop :=
  ∀ ⦃depth : Nat⦄ ⦃rest : List Word⦄, words.length ≤ depth → Apart marks rest →
    Takes (suffixedWithin depth) type words rest

/-- The words are taken by the reader for whole types. -/
def Whole (type : TypeExpr) (words : List Word) : Prop :=
  ∀ ⦃depth : Nat⦄ ⦃rest : List Word⦄, words.length ≤ depth → Apart memberMarks rest →
    Takes (readComposition (suffixedWithin depth)) type words rest

section Chains

variable {type : TypeExpr} {marks : List String} {words : List Word}

theorem Primary.chained (primary : Primary type Parted words) : Chained type words :=
  fun _ _ _ _ bound parted suffixes => takes_suffixedWithin (primary bound parted) suffixes

/-- More marks make another type of a chained one. -/
theorem Chained.marked {marked : TypeExpr} {more : List Word} (chained : Chained type words)
    (parted : ∀ rest, Parted (more ++ rest))
    (suffixes : ∀ {value others rest}, TakesSuffixes marked value others rest →
      TakesSuffixes type value (more ++ others) rest) : Chained marked (words ++ more) := by
  intro depth value others rest bound _ taken
  rw [List.length_append] at bound
  rw [List.append_assoc]
  refine chained (by omega) ?_ (suffixes taken)
  rw [List.append_assoc]
  exact parted _

theorem Chained.optional (chained : Chained type words) :
    Chained (.optional type) (words ++ [.mark "?"]) :=
  chained.marked (fun _ => (Apart.cons (by decide) _).parted) .optional

theorem Chained.implicitlyUnwrapped (chained : Chained type words) :
    Chained (.implicitlyUnwrapped type) (words ++ [.mark "!"]) :=
  chained.marked (fun _ => (Apart.cons (by decide) _).parted) .implicitlyUnwrapped

theorem Chained.metatype (chained : Chained type words) {word : String}
    (known : word ∈ metatypes) :
    Chained (metatype type word) (words ++ [.mark ".", .identifier word]) :=
  chained.marked (parted_metatype known) (.metatype known)

theorem Chained.suffixed (chained : Chained type words) (filled : words ≠ []) :
    Suffixed type suffixMarks words := by
  intro depth rest bound apart
  cases depth with
  | zero => exact absurd (List.eq_nil_of_length_eq_zero (Nat.le_zero.mp bound)) filled
  | succ depth =>
    have closed : Apart partMarks ([] ++ rest) := apart.mono (by decide)
    rw [← List.append_nil words]
    exact chained bound closed.parted (.nil apart)

theorem Primary.suffixed (primary : Primary type (Apart marks) words)
    (within : suffixMarks ⊆ marks) (filled : words ≠ []) : Suffixed type marks words := by
  intro depth rest bound apart
  cases depth with
  | zero => exact absurd (List.eq_nil_of_length_eq_zero (Nat.le_zero.mp bound)) filled
  | succ depth =>
    rw [← List.append_nil words]
    exact takes_suffixedWithin (primary bound apart) (.nil (apart.mono within))

theorem Suffixed.whole (suffixed : Suffixed type marks words)
    (within : marks ⊆ memberMarks) : Whole type words := by
  intro depth rest bound apart
  have single : Takes (separated "&" (suffixedWithin depth)) [type] words rest := by
    refine (yields_separated_one (apart.reads_eq (by decide))
      (suffixed bound (apart.mono within))).mono ?_
    rintro _ ⟨_, rfl, rfl⟩
    rfl
  exact .bind_last single (.pure rfl)

end Chains

/-! ## Spellings -/

/-- The words open with a name. -/
def OpensNamed (words : List Word) : Prop :=
  ∃ name others, IsIdentifier name ∧ words = .identifier name :: others

/-- What the words of a type have to do with those around them. -/
structure Spelling (type : TypeExpr) (words : List Word) : Prop where
  described : Described type words
  opens : ∃ first others, words = first :: others ∧ first.reads ")" = false
  unlabelled : ∀ rest, Detached rest → ¬ StartsLabel (words ++ rest)
  chained : type.needsParentheses = false → Chained type words
  suffixed : type.isMember = true → Suffixed type suffixMarks words
  whole : Whole type words

/-- The words that the description of a type is read into. -/
def words (type : TypeExpr) : List Word :=
  match TokenStream.scan type.description.toList with
  | .ok stream => stream.words.map Token.word
  | .error _ => []

theorem words_eq_of_description_eq {type other : TypeExpr}
    (same : type.description = other.description) : type.words = other.words := by
  rw [words, words, same]

theorem words_eq_of_spells {type : TypeExpr} {words : List Word}
    (spells : Spells type.description words []) : type.words = words := by
  obtain ⟨stream, scanned, words_eq, -⟩ := spells.exists_scan
  rw [TypeExpr.words, scanned]
  exact words_eq

/-- A type has only one spelling. -/
theorem Described.words_eq {type : TypeExpr} {words : List Word}
    (described : Described type words) : type.words = words :=
  words_eq_of_spells (described [] .nil)

theorem Described.self {type : TypeExpr} {words : List Word} (described : Described type words) :
    Described type type.words := by
  rw [described.words_eq]
  exact described

theorem Spelling.words_eq {type : TypeExpr} {words : List Word} (spelling : Spelling type words) :
    type.words = words :=
  spelling.described.words_eq

theorem Spelling.self {type : TypeExpr} {words : List Word} (spelling : Spelling type words) :
    Spelling type type.words := by
  rw [spelling.words_eq]
  exact spelling

theorem spelling_of_chained {type : TypeExpr} {first : Word} {words : List Word}
    (described : Described type (first :: words)) (opens : first.reads ")" = false)
    (unlabelled : ∀ rest, Detached rest → ¬ StartsLabel (first :: (words ++ rest)))
    (chained : Chained type (first :: words)) : Spelling type (first :: words) where
  described := described
  opens := ⟨first, words, rfl, opens⟩
  unlabelled := unlabelled
  chained _ := chained
  suffixed _ := chained.suffixed (List.cons_ne_nil first words)
  whole := (chained.suffixed (List.cons_ne_nil first words)).whole (by decide)

theorem Whole.takes_read {type : TypeExpr} {words rest : List Word} (whole : Whole type words)
    (apart : Apart memberMarks rest) : Takes TypeExpr.read type words rest := by
  refine .get fun cursor faces => ?_
  have remaining_eq := faces.remaining_eq
  rw [List.length_append] at remaining_eq
  exact whole (by omega) apart

theorem Spelling.takes_read {type : TypeExpr} {words rest : List Word}
    (spelling : Spelling type words) (apart : Apart memberMarks rest) :
    Takes TypeExpr.read type words rest :=
  spelling.whole.takes_read apart

/-! ### Brackets -/

/-- A type that begins with a bracket, up to the bracket that closes it. -/
theorem spelling_of_opening {type : TypeExpr} {mark : String} {words : List Word}
    (described : Described type (.mark mark :: words)) (opening : mark ≠ ")")
    (primary : Primary type Parted (.mark mark :: words)) : Spelling type (.mark mark :: words) := by
  refine spelling_of_chained described ?_ (fun rest _ => not_startsLabel_mark mark _)
    primary.chained
  simpa [Word.reads, Word.mark] using opening

theorem spelling_array {element : TypeExpr} (inner : Spelling element element.words) :
    Spelling (.array element) (.mark "[" :: (element.words ++ [.mark "]"])) := by
  refine spelling_of_opening (described_array inner.described) (by decide) ?_
  intro depth rest bound _
  simp only [List.length_cons, List.length_append] at bound
  apply takes_readPrimary_bracketed
  exact takes_readBracketed_array (inner.whole (by omega) (.cons (by decide) rest))

theorem spelling_dictionary {key value : TypeExpr} (keySpelling : Spelling key key.words)
    (valueSpelling : Spelling value value.words) :
    Spelling (.dictionary key value)
      (.mark "[" :: (key.words ++ .mark ":" :: (value.words ++ [.mark "]"]))) := by
  refine spelling_of_opening (described_dictionary keySpelling.described valueSpelling.described)
    (by decide) ?_
  intro depth rest bound _
  simp only [List.length_cons, List.length_append] at bound
  apply takes_readPrimary_bracketed
  apply takes_readBracketed_dictionary
  · exact keySpelling.whole (by omega) (.cons (by decide) _)
  · exact valueSpelling.whole (by omega) (.cons (by decide) rest)

/-! ### Lists of elements -/

section Elements

variable {elements : List (Option String × TypeExpr)}

theorem length_words_le_elementWords (element : Option String × TypeExpr) :
    element.2.words.length ≤ (elementWords words element).length := by
  unfold elementWords
  split
  next => exact Nat.le_add_right _ 2
  next => exact Nat.le_refl _

theorem takesElements {depth : Nat} (fits : LabelsFit elements)
    (spellings : ∀ element ∈ elements, Spelling element.2 element.2.words)
    (bound : ([.mark ","].intercalate (elements.map (elementWords words))).length ≤ depth) :
    TakesElements (readComposition (suffixedWithin depth)) words elements := by
  have takes {text : String} (outside : text ∉ memberMarks) (other : text ≠ ":")
      (element : Option String × TypeExpr) (member : element ∈ elements) (rest : List Word) :
      TakesElement (readComposition (suffixedWithin depth)) words element (.mark text :: rest) := by
    have within := length_words_le_elementWords element
    have fitting : (elementWords words element).length ≤
        ([.mark ","].intercalate (elements.map (elementWords words))).length :=
      length_le_intercalate _ _ member
    have spelling := spellings element member
    exact ⟨spelling.whole (by omega) (.cons outside rest),
      spelling.unlabelled _ (detached_mark other rest)⟩
  -- A label that is an identifier is no closing parenthesis.
  refine ⟨takes (by decide) (by decide), takes (by decide) (by decide), ?_⟩
  intro element member
  obtain ⟨first, others, words_eq, opened⟩ := (spellings element member).opens
  unfold elementWords
  split
  next label found =>
    have other : label ≠ ")" := (fits element member label found).ne (by decide)
    exact ⟨_, _, rfl, by simpa [Word.reads, Word.identifier] using other⟩
  next => exact ⟨first, others, words_eq, opened⟩

theorem spelling_tuple (fits : LabelsFit elements) (several : ∀ only, elements ≠ [(none, only)])
    (spellings : ∀ element ∈ elements, Spelling element.2 element.2.words) :
    Spelling (.tuple elements)
      (.mark "(" :: ([.mark ","].intercalate (elements.map (elementWords words)) ++
        [.mark ")"])) := by
  refine spelling_of_opening (described_tuple fits fun element member =>
    (spellings element member).described) (by decide) ?_
  intro depth rest bound parted
  simp only [List.length_cons, List.length_append] at bound
  apply takes_readPrimary_parenthesised
  rw [← grouped_eq_tuple several]
  exact takes_readParenthesised (takesElements fits spellings (by omega))
    (parted.apart.mono (by decide))

theorem spelling_function {effects : List String} {result : TypeExpr} (fits : LabelsFit elements)
    (known : ∀ effect ∈ effects, effect ∈ effectWords)
    (spellings : ∀ element ∈ elements, Spelling element.2 element.2.words)
    (resultSpelling : Spelling result result.words) :
    Spelling (.function elements effects result)
      (.mark "(" :: ([.mark ","].intercalate (elements.map (elementWords words)) ++
        .mark ")" :: (effects.map Word.identifier ++ .mark "->" :: result.words))) where
  described := described_function fits known
    (fun element member => (spellings element member).described) resultSpelling.described
  opens := ⟨_, _, rfl, rfl⟩
  unlabelled rest _ := not_startsLabel_mark "(" _
  chained plain := by cases plain
  suffixed member := by cases member
  whole := by
    refine Suffixed.whole (Primary.suffixed (fun depth rest bound apart => ?_) (by decide)
      (List.cons_ne_nil _ _)) (List.Subset.refl memberMarks)
    simp only [List.length_cons, List.length_append] at bound
    apply takes_readPrimary_parenthesised
    -- The result reaches as far as it can, so not even an ampersand may follow.
    exact takes_readParenthesised_function (takesElements fits spellings (by omega)) known
      (resultSpelling.whole (by omega) apart)

end Elements

/-! ### Marks behind a type -/

section Marked

variable {type : TypeExpr} (inner : Spelling type type.words)
include inner

/-- Parentheses keep a type together. -/
theorem chained_grouped : Chained type (.mark "(" :: (type.words ++ [.mark ")"])) := by
  refine Primary.chained fun depth rest bound parted => ?_
  have takes : TakesElements (readComposition (suffixedWithin depth)) words [(none, type)] := by
    refine takesElements ?_ ?_ ?_
    · intro element member label found
      obtain rfl := List.mem_singleton.mp member
      cases found
    · intro element member
      obtain rfl := List.mem_singleton.mp member
      exact inner
    · simp only [List.length_cons, List.length_append] at bound
      simp only [List.map_cons, List.map_nil, List.intercalate_singleton, elementWords]
      omega
  have single : [.mark ","].intercalate ([(none, type)].map (elementWords words)) =
      type.words := by simp [elementWords]
  rw [← single]
  apply takes_readPrimary_parenthesised
  exact takes_readParenthesised takes (parted.apart.mono (by decide))

theorem chained_parenthesisedWords : Chained type (parenthesisedWords type type.words) := by
  unfold parenthesisedWords
  split
  next => exact chained_grouped inner
  next plain => exact inner.chained (by simpa using plain)

theorem spelling_of_marked {marked : TypeExpr} {mark : String} {more : List Word}
    (described : Described marked (parenthesisedWords type type.words ++ .mark mark :: more))
    (other : mark ≠ ":")
    (chained : Chained marked (parenthesisedWords type type.words ++ .mark mark :: more)) :
    Spelling marked (parenthesisedWords type type.words ++ .mark mark :: more) := by
  by_cases grouped : type.needsParentheses
  · rw [parenthesisedWords, if_pos grouped] at described chained ⊢
    exact spelling_of_chained described rfl (fun rest _ => not_startsLabel_mark "(" _) chained
  · rw [parenthesisedWords, if_neg grouped] at described chained ⊢
    obtain ⟨first, others, words_eq, opened⟩ := inner.opens
    have unlabelled (rest : List Word) :
        ¬ StartsLabel (first :: (others ++ .mark mark :: more ++ rest)) := by
      have := inner.unlabelled _ (detached_mark other (more ++ rest))
      rw [words_eq] at this
      simpa using this
    rw [words_eq] at described chained ⊢
    exact spelling_of_chained described opened (fun rest _ => unlabelled rest) chained

theorem spelling_optional :
    Spelling (.optional type) (parenthesisedWords type type.words ++ [.mark "?"]) :=
  spelling_of_marked inner (described_optional inner.described) (by decide)
    (chained_parenthesisedWords inner).optional

theorem spelling_implicitlyUnwrapped :
    Spelling (.implicitlyUnwrapped type) (parenthesisedWords type type.words ++ [.mark "!"]) :=
  spelling_of_marked inner (described_implicitlyUnwrapped inner.described) (by decide)
    (chained_parenthesisedWords inner).implicitlyUnwrapped

/-- A metatype is named without parentheses, so it is only spelled where none are needed. -/
theorem spelling_metatype (plain : type.needsParentheses = false) {word : String}
    (known : word ∈ metatypes) :
    Spelling (metatype type word) (type.words ++ [.mark ".", .identifier word]) := by
  have described := described_metatype inner.described known
  have chained := (inner.chained plain).metatype known
  rw [← @parenthesisedWords_of_plain type type.words plain] at described chained ⊢
  exact spelling_of_marked inner described (by decide) chained

end Marked

/-! ### Names, constraints and compositions -/

theorem takesArguments {part : NamePart} {depth : Nat}
    (spellings : ∀ argument ∈ part.arguments, Spelling argument argument.words)
    (bound : (part.words words).length ≤ depth + 1) :
    TakesArguments (readComposition (suffixedWithin depth)) words part := by
  obtain ⟨name, arguments⟩ := part
  intro rest argument member
  have within : argument.words.length ≤ ([.mark ","].intercalate (arguments.map words)).length :=
    length_le_intercalate _ _ member
  have filled : arguments.isEmpty = false :=
    List.isEmpty_eq_false_iff.mpr (List.ne_nil_of_mem member)
  simp only [NamePart.words, filled, Bool.false_eq_true, if_false, List.length_cons,
    List.length_append] at bound
  have whole := (spellings argument member).whole
  exact ⟨whole (by omega) (.cons (by decide) rest),
    fun more => whole (by omega) (.cons (by decide) more)⟩

theorem exists_dottedWords_eq (first : NamePart) (others : List NamePart) :
    ∃ more, [.mark "."].intercalate ((first :: others).map (NamePart.words words)) =
        .identifier first.name :: more ∧ ∀ rest, Detached rest → Detached (more ++ rest) := by
  have part : ∃ more, first.words words = .identifier first.name :: more ∧
      ∀ rest, Detached rest → Detached (more ++ rest) := by
    refine ⟨_, rfl, fun rest detached => ?_⟩
    split
    · exact detached
    · exact detached_mark (by decide) _
  obtain ⟨more, words_eq, detaches⟩ := part
  cases others with
  | nil => exact ⟨more, by simpa using words_eq, detaches⟩
  | cons next others =>
    simp only [List.map_cons, List.intercalate_cons_cons, words_eq, List.append_assoc,
      List.cons_append]
    refine ⟨_, rfl, fun rest _ => ?_⟩
    rw [List.append_assoc]
    exact detaches _ (detached_mark (by decide) _)

theorem spelling_dotted {first : NamePart} {others : List NamePart}
    (plain : first.name ∉ leadingWords) (named : ∀ part ∈ others, part.name ∉ metatypes)
    (identifiers : ∀ part ∈ first :: others, IsIdentifier part.name)
    (spellings : ∀ part ∈ first :: others, ∀ argument ∈ part.arguments,
      Spelling argument argument.words) :
    Spelling (dotted first others)
      ([.mark "."].intercalate ((first :: others).map (NamePart.words words))) := by
  have identifier := identifiers first List.mem_cons_self
  have described := described_dotted identifiers fun part member argument argumentMember =>
    (spellings part member argument argumentMember).described
  have takes {depth : Nat} {rest : List Word}
      (bound : ([.mark "."].intercalate ((first :: others).map (NamePart.words words))).length ≤
        depth + 1) (parted : Parted rest) :
      Takes (readSimple (readComposition (suffixedWithin depth))) (dotted first others)
        ([.mark "."].intercalate ((first :: others).map (NamePart.words words))) rest := by
    refine takes_readSimple (fun part member => ?_) named parted
    have within := length_le_intercalate (NamePart.words words) (.mark ".") member
    exact takesArguments (spellings part member) (Nat.le_trans within bound)
  -- Only a colon behind the first name makes a label of it, and none stands in a dotted name.
  obtain ⟨more, words_eq, detaches⟩ := exists_dottedWords_eq first others
  rw [words_eq] at described takes ⊢
  refine spelling_of_chained described ?_
    (fun rest detached => not_startsLabel_of_detached _ (detaches rest detached)) ?_
  · have other : first.name ≠ ")" := identifier.ne (by decide)
    simpa [Word.reads, Word.identifier] using other
  · exact Primary.chained fun depth rest bound parted =>
      takes_readPrimary_simple identifier plain (takes bound parted)

theorem spelling_ofName {name : String} (identifier : IsIdentifier name)
    (plain : name ∉ leadingWords) : Spelling (ofName name) [.identifier name] := by
  have spelling : Spelling (ofName name)
      ([.mark "."].intercalate ([⟨name, []⟩].map (NamePart.words words))) :=
    spelling_dotted plain (by simp) (by simpa using identifier) (by simp)
  simpa [NamePart.words] using spelling

theorem spelling_constrained {specifier : String} {constraint : TypeExpr}
    (known : specifier ∈ constraintWords) (member : constraint.isMember = true)
    (named : OpensNamed constraint.words) (inner : Spelling constraint constraint.words) :
    Spelling (.constrained specifier constraint) (.identifier specifier :: constraint.words) := by
  obtain ⟨name, more, identifier, words_eq⟩ := named
  have suffixed : Suffixed (.constrained specifier constraint) suffixMarks
      (.identifier specifier :: constraint.words) := by
    refine Primary.suffixed (fun depth rest bound apart => ?_) (List.Subset.refl _)
      (List.cons_ne_nil _ _)
    have takes := inner.suffixed member (Nat.le_of_succ_le_succ bound) apart
    rw [words_eq] at takes ⊢
    exact takes_readPrimary_constrained known takes
  exact {
    described := described_constrained known inner.described
    opens := by
      have plain : ∀ word ∈ constraintWords, (Word.identifier word).reads ")" = false := by decide
      exact ⟨_, _, rfl, plain specifier known⟩
    unlabelled := fun rest detached => by
      -- A second name in front of a colon would have to be what the constraint opens with.
      have unlabelled := inner.unlabelled rest detached
      rw [words_eq] at unlabelled ⊢
      rintro ⟨-, colon | ⟨-, colon⟩⟩
      · exact identifier.ne (by decide) colon
      · exact unlabelled ⟨rfl, .inl colon⟩
    chained := nofun
    suffixed := fun _ => suffixed
    whole := suffixed.whole (by decide) }

theorem spelling_composition {members : List TypeExpr} (several : 2 ≤ members.length)
    (fits : ∀ member ∈ members, member.isMember = true)
    (spellings : ∀ member ∈ members, Spelling member member.words) :
    Spelling (.composition members) ([.mark "&"].intercalate (members.map words)) := by
  have described := described_composition fun member inside => (spellings member inside).described
  have whole : Whole (.composition members) ([.mark "&"].intercalate (members.map words)) := by
    intro depth rest bound apart
    have each : TakesEach (suffixedWithin depth) words (.mark "&") rest members := by
      intro member inside
      have within := length_le_intercalate words (.mark "&") inside
      have suffixed := (spellings member inside).suffixed (fits member inside)
      exact ⟨suffixed (by omega) (apart.mono (by decide)),
        fun more => suffixed (by omega) (.cons (by decide) more)⟩
    have filled : members ≠ [] := by
      rintro rfl
      cases several
    refine .bind_last (takes_separated rfl (apart.reads_eq (by decide)) filled each) ?_
    split
    next => cases several; contradiction
    next => exact .pure rfl
  cases members with
  | nil => cases several
  | cons first others =>
    cases others with
    | nil => simp at several
    | cons next more =>
      have spelling := spellings first List.mem_cons_self
      obtain ⟨word, tail, words_eq, opened⟩ := spelling.opens
      simp only [List.map_cons, List.intercalate_cons_cons, List.append_assoc] at described whole ⊢
      -- It opens as its first member does. Neither a chain nor a member, it is only read as a whole.
      exact {
        described
        opens := ⟨word, _, by rw [words_eq]; rfl, opened⟩
        unlabelled := fun rest _ => by
          simp only [List.append_assoc]
          exact spelling.unlabelled _ (detached_mark (by decide) _)
        chained := nofun
        suffixed := nofun
        whole }

end PeerExpansion.TypeExpr
