import PeerExpansion.Proofs.Reading.Taking
import PeerExpansion.TypeExpr.Read

/-! # How the words of a type are taken

For each reader of types, the words that it takes, given those that the reader for the types inside
takes. What follows a type decides where it ends: `Apart marks rest` says that the rest begins with
none of the marks that would be taken for a part of it.
-/

namespace PeerExpansion.TypeExpr

open Reading

/-- The next word is none of `marks`. -/
def Apart (marks : List String) (rest : List Word) : Prop :=
  (Word.nth rest 0).text ∉ marks

namespace Apart

variable {marks : List String} {rest : List Word}

theorem cons {word : Word} (apart : word.text ∉ marks) (rest : List Word) :
    Apart marks (word :: rest) :=
  apart

theorem nil (apart : "" ∉ marks) : Apart marks [] :=
  apart

theorem mono {others : List String} (apart : Apart marks rest) (within : others ⊆ marks) :
    Apart others rest :=
  fun member => apart (within member)

theorem reads_eq (apart : Apart marks rest) {text : String} (member : text ∈ marks) :
    (Word.nth rest 0).reads text = false := by
  have different : (Word.nth rest 0).text ≠ text := by
    rintro rfl
    exact apart member
  simp [Word.reads, different]

end Apart

/-- Marks that go on with a name or with a parenthesis. -/
def partMarks : List String :=
  "." :: "<" :: "->" :: effectWords

def suffixMarks : List String :=
  "?" :: "!" :: partMarks

def memberMarks : List String :=
  "&" :: suffixMarks

/-- The next words go on neither with a name nor with a parenthesis. A point does with a name, but
for the point of a metatype. -/
structure Parted (rest : List Word) : Prop where
  apart : Apart ("<" :: "->" :: effectWords) rest
  point : (Word.nth rest 0).reads "." = true → (Word.nth rest 1).text ∈ metatypes

theorem Apart.parted {rest : List Word} (apart : Apart partMarks rest) : Parted rest where
  apart := apart.mono (List.subset_cons_self _ _)
  point reads := by
    rw [apart.reads_eq (by decide)] at reads
    cases reads

theorem parted_metatype {word : String} (known : word ∈ metatypes) (rest : List Word) :
    Parted (.mark "." :: .identifier word :: rest) :=
  ⟨.cons (by decide) _, fun _ => known⟩

/-! ## Names -/

/-- A part of a dotted name. -/
structure NamePart where
  name : String
  arguments : List TypeExpr

namespace NamePart

def text (part : NamePart) : String :=
  genericName part.name part.arguments

/-- The words of a part whose arguments are spelled with `spelling`. -/
def words (spelling : TypeExpr → List Word) (part : NamePart) : List Word :=
  .identifier part.name ::
    if part.arguments.isEmpty then []
    else .mark "<" :: ([.mark ","].intercalate (part.arguments.map spelling) ++ [.mark ">"])

end NamePart

def lastArguments (first : NamePart) (others : List NamePart) : List TypeExpr :=
  (others.getLastD first).arguments

theorem lastArguments_cons (first next : NamePart) (more : List NamePart) :
    lastArguments first (next :: more) = lastArguments next more := by
  rw [lastArguments, lastArguments, List.getLastD_cons]

/-- The type of a dotted name. -/
def dotted (first : NamePart) (others : List NamePart) : TypeExpr :=
  simple (String.intercalate "." ((first :: others).map NamePart.text))
    (lastArguments first others)

section Names

variable {type : Reading TypeExpr} {spelling : TypeExpr → List Word} {rest : List Word}

/-- Generic arguments are taken in front of a comma and in front of the closing mark. -/
def TakesArguments (type : Reading TypeExpr) (spelling : TypeExpr → List Word)
    (part : NamePart) : Prop :=
  ∀ rest, TakesEach type spelling (.mark ",") (.mark ">" :: rest) part.arguments

theorem takes_readPart {part : NamePart} (takes : TakesArguments type spelling part)
    (apart : Apart ["<"] rest) :
    Takes (readPart type) (part.text, part.arguments) (part.words spelling) rest := by
  obtain ⟨name, arguments⟩ := part
  refine .expectIdentifier rfl fun token word_eq => ?_
  obtain rfl : token.text = name := congrArg Word.text word_eq
  cases arguments with
  | nil =>
    have unread : Takes (readGenericArguments type) [] [] rest :=
      .check_false (apart.reads_eq (by decide)) (.pure rfl)
    exact .bind_last unread (.pure rfl)
  | cons argument others =>
    have separated : Takes (separated "," type) (argument :: others) _ (.mark ">" :: rest) :=
      takes_separated rfl rfl (List.cons_ne_nil argument others) (takes rest)
    refine .bind_last ?_ (.pure rfl)
    refine .check_true rfl (.skip_one (.bind separated ?_))
    exact .expect rfl fun _ _ => .pure rfl

theorem takes_readNameWithin {first : NamePart} {others : List NamePart}
    (takes : ∀ part ∈ first :: others, TakesArguments type spelling part)
    (named : ∀ part ∈ others, part.name ∉ metatypes) (parted : Parted rest) {limit : Nat}
    (enough : others.length ≤ limit) :
    Takes (readNameWithin type limit)
      ((first :: others).map NamePart.text, lastArguments first others)
      ([.mark "."].intercalate ((first :: others).map (NamePart.words spelling))) rest := by
  have takesFirst := takes first List.mem_cons_self
  induction others generalizing first limit with
  | nil =>
    have part := takes_readPart takesFirst (parted.apart.mono (by decide))
    simp only [List.map_cons, List.map_nil, List.intercalate_singleton]
    cases limit with
    | zero => exact .bind_last part (.pure rfl)
    | succ limit =>
      refine .bind_last part (.ahead fun next next_eq => .check rfl ?_)
      rw [if_neg]
      · exact .pure rfl
      · rw [List.nil_append] at next_eq ⊢
        have text_eq : next.text = (Word.nth rest 1).text := congrArg Word.text next_eq
        simp only [Token.isOneOf, text_eq, Bool.and_eq_true, Bool.not_eq_true',
          List.contains_eq_mem, decide_eq_false_iff_not, not_and, not_not]
        exact fun reads => parted.point reads.1
  | cons next more inductionHypothesis =>
    cases limit with
    | zero => simp at enough
    | succ limit =>
      have later := inductionHypothesis
        (fun part member => takes part (List.mem_cons_of_mem first member))
        (fun part member => named part (List.mem_cons_of_mem next member))
        (Nat.le_of_succ_le_succ enough)
        (takes next (List.mem_cons_of_mem first List.mem_cons_self))
      have plain := named next List.mem_cons_self
      rw [lastArguments_cons]
      simp only [List.map_cons, List.intercalate_cons_cons, List.append_assoc] at later ⊢
      -- The next part begins with its name, which no metatype has.
      obtain ⟨tail, tail_eq⟩ := exists_append_eq_intercalate_words (.mark ".")
        (next.words spelling) (more.map (NamePart.words spelling))
      refine .bind (takes_readPart takesFirst (.cons (by decide) _)) ?_
      refine .ahead fun token word_eq => .check_true rfl ?_
      obtain ⟨kind_eq, text_eq⟩ : token.kind = .identifier ∧ token.text = next.name := by
        rw [tail_eq] at word_eq
        exact ⟨congrArg Word.kind word_eq, congrArg Word.text word_eq⟩
      have named : (token.isIdentifier && !token.isOneOf metatypes) = true := by
        simp [Token.isIdentifier, Token.isOneOf, kind_eq, text_eq, plain]
      rw [Bool.true_and, if_pos named]
      exact .skip_one (.bind_last later (.pure rfl))

theorem takes_readSimple {first : NamePart} {others : List NamePart}
    (takes : ∀ part ∈ first :: others, TakesArguments type spelling part)
    (named : ∀ part ∈ others, part.name ∉ metatypes) (parted : Parted rest) :
    Takes (readSimple type) (dotted first others)
      ([.mark "."].intercalate ((first :: others).map (NamePart.words spelling))) rest := by
  refine .get fun cursor faces => ?_
  have bound := length_le_length_intercalate (NamePart.words spelling) (.mark ".")
    (first :: others)
  have remaining_eq := faces.remaining_eq
  rw [List.length_append] at remaining_eq
  rw [List.length_cons] at bound
  have parts := takes_readNameWithin takes named parted
    (show others.length ≤ cursor.remaining by omega)
  exact .bind_last parts (.pure rfl)

end Names

/-! ## Brackets -/

section Brackets

variable {type : Reading TypeExpr} {words others rest : List Word}

theorem takes_readBracketed_array {element : TypeExpr}
    (takes : Takes type element words (.mark "]" :: rest)) :
    Takes (readBracketed type) (.array element) (.mark "[" :: (words ++ [.mark "]"])) rest := by
  refine .expect rfl fun _ _ => .bind takes (.check_false rfl ?_)
  exact .expect rfl fun _ _ => .pure rfl

theorem takes_readBracketed_dictionary {key value : TypeExpr}
    (takesKey : Takes type key words (.mark ":" :: (others ++ .mark "]" :: rest)))
    (takesValue : Takes type value others (.mark "]" :: rest)) :
    Takes (readBracketed type) (.dictionary key value)
      (.mark "[" :: (words ++ .mark ":" :: (others ++ [.mark "]"]))) rest := by
  refine .expect rfl fun _ _ => .bind (by simpa using takesKey) (.check_true rfl ?_)
  refine .skip_one (.bind takesValue ?_)
  exact .expect rfl fun _ _ => .pure rfl

end Brackets

/-! ## Parentheses -/

/-- Whether words begin like an element with a label. -/
def StartsLabel (words : List Word) : Prop :=
  (Word.nth words 0).kind = .identifier ∧ ((Word.nth words 1).text = ":" ∨
    (Word.nth words 1).kind = .identifier ∧ (Word.nth words 2).text = ":")

/-- The next word goes on with no label. -/
def Detached (rest : List Word) : Prop :=
  (Word.nth rest 0).kind ≠ .identifier ∧ (Word.nth rest 0).text ≠ ":"

theorem detached_mark {text : String} (other : text ≠ ":") (rest : List Word) :
    Detached (.mark text :: rest) :=
  ⟨fun same => TokenKind.noConfusion same, other⟩

theorem not_startsLabel_mark (text : String) (words : List Word) :
    ¬ StartsLabel (.mark text :: words) := by
  rintro ⟨kind_eq, -⟩
  cases kind_eq

theorem not_startsLabel_of_detached {rest : List Word} (word : Word) (detached : Detached rest) :
    ¬ StartsLabel (word :: rest) := by
  rintro ⟨-, colon | ⟨identifier, -⟩⟩
  · exact detached.2 colon
  · exact detached.1 identifier

/-- The words of an element whose type is spelled with `spelling`. -/
def elementWords (spelling : TypeExpr → List Word) (element : Option String × TypeExpr) :
    List Word :=
  match element.1 with
  | some label => .identifier label :: .mark ":" :: spelling element.2
  | none => spelling element.2

section Parentheses

variable {type : Reading TypeExpr} {spelling : TypeExpr → List Word} {words rest : List Word}

theorem takes_readLabel_none (unlabelled : ¬ StartsLabel rest) :
    Takes TypeExpr.readLabel none [] rest := by
  refine .current fun first first_eq => .ahead fun second second_eq => ?_
  refine .ahead fun third third_eq => ?_
  rw [List.nil_append] at first_eq second_eq third_eq
  rw [StartsLabel, ← first_eq, ← second_eq, ← third_eq] at unlabelled
  simp only [Token.word] at unlabelled
  rw [if_neg, if_neg]
  · exact .pure rfl
  · simp only [Token.isIdentifier, Bool.and_eq_true, beq_iff_eq]
    rintro ⟨⟨firstKind, secondKind⟩, colon⟩
    exact unlabelled ⟨firstKind, .inr ⟨secondKind, colon⟩⟩
  · simp only [Token.isIdentifier, Bool.and_eq_true, beq_iff_eq]
    rintro ⟨firstKind, colon⟩
    exact unlabelled ⟨firstKind, .inl colon⟩

theorem takes_readLabel_some (label : String) (rest : List Word) :
    Takes TypeExpr.readLabel (some label) [.identifier label, .mark ":"] rest := by
  refine .current fun first first_eq => .ahead fun second second_eq => .ahead fun _ _ => ?_
  have kind_eq : first.kind = .identifier := congrArg Word.kind first_eq
  have text_eq : first.text = label := congrArg Word.text first_eq
  have colon : second.text = ":" := congrArg Word.text second_eq
  rw [if_pos (by simp [Token.isIdentifier, kind_eq, colon]), text_eq]
  show Takes _ _ ([_, _] ++ []) rest
  exact .skip rfl (.pure rfl)

/-- The type of an element is taken, and not for its label. -/
def TakesElement (type : Reading TypeExpr) (spelling : TypeExpr → List Word)
    (element : Option String × TypeExpr) (rest : List Word) : Prop :=
  Takes type element.2 (spelling element.2) rest ∧
    ¬ StartsLabel (spelling element.2 ++ rest)

theorem takes_readElement {element : Option String × TypeExpr}
    (takes : TakesElement type spelling element rest) :
    Takes (readElement type) element (elementWords spelling element) rest := by
  obtain ⟨label, inner⟩ := element
  obtain ⟨takes, unlabelled⟩ := takes
  cases label with
  | none =>
    exact .bind_nil (takes_readLabel_none unlabelled) (.bind_last takes (.pure rfl))
  | some label =>
    show Takes _ _ ([.identifier label, .mark ":"] ++ spelling inner) rest
    exact .bind (takes_readLabel_some label _) (.bind_last takes (.pure rfl))

theorem takes_readEffects {effects : List String} (known : ∀ effect ∈ effects, effect ∈ effectWords)
    (apart : Apart effectWords rest) :
    Takes readEffects effects (effects.map Word.identifier) rest := by
  refine .get fun cursor faces => ?_
  -- The reader takes the longest run of effects, and that run ends where the list of them does.
  have found : (cursor.behind.takeWhile (·.isOneOf effectWords)).map Token.word =
      effects.map Word.identifier := by
    have stops : rest.takeWhile (effectWords.contains ·.text) = [] := by
      cases rest with
      | nil => rfl
      | cons word rest =>
        have different : word.text ∉ effectWords := apart
        exact List.takeWhile_cons_of_neg (by simpa using different)
    have word_eq : (fun token : Token => token.isOneOf effectWords) =
        (effectWords.contains ·.text) ∘ Token.word := rfl
    rw [word_eq, ← List.takeWhile_map, faces.behind_eq, List.takeWhile_append_of_pos, stops,
      List.append_nil]
    intro word member
    obtain ⟨effect, effectMember, rfl⟩ := List.mem_map.mp member
    exact List.contains_iff_mem.mpr (known effect effectMember)
  have texts_eq : (cursor.behind.takeWhile (·.isOneOf effectWords)).map Token.text = effects := by
    have := congrArg (List.map Word.text) found
    rw [List.map_map, List.map_map] at this
    exact this.trans (List.map_id effects)
  have length_eq := congrArg List.length found
  simp only [List.length_map] at length_eq
  rw [← List.append_nil (effects.map Word.identifier)]
  refine .skip (by simp [length_eq]) ?_
  rw [texts_eq]
  exact .pure rfl

/-- The elements of a list between parentheses are taken one by one. -/
structure TakesElements (type : Reading TypeExpr) (spelling : TypeExpr → List Word)
    (elements : List (Option String × TypeExpr)) : Prop where
  inner : ∀ element ∈ elements, ∀ rest, TakesElement type spelling element (.mark "," :: rest)
  last : ∀ element ∈ elements, ∀ rest, TakesElement type spelling element (.mark ")" :: rest)
  opens : OpenEach (elementWords spelling) ")" elements

variable {elements : List (Option String × TypeExpr)}

theorem TakesElements.listed (takes : TakesElements type spelling elements) (rest : List Word) :
    Takes (listed ")" (readElement type)) elements
      ([.mark ","].intercalate (elements.map (elementWords spelling))) (.mark ")" :: rest) := by
  refine takes_listed rfl rfl rfl takes.opens fun element member => ⟨?_, fun more => ?_⟩
  · exact takes_readElement (takes.last element member rest)
  · exact takes_readElement (takes.inner element member more)

theorem takes_readParenthesised_function {effects : List String} {result : TypeExpr}
    (takes : TakesElements type spelling elements)
    (known : ∀ effect ∈ effects, effect ∈ effectWords)
    (takesResult : Takes type result words rest) :
    Takes (readParenthesised type) (.function elements effects result)
      (.mark "(" :: ([.mark ","].intercalate (elements.map (elementWords spelling)) ++
        .mark ")" :: (effects.map Word.identifier ++ .mark "->" :: words))) rest := by
  refine .expect rfl fun _ _ => .bind (takes.listed _) (.expect rfl fun _ _ => ?_)
  refine .bind (takes_readEffects known (.cons (by decide) _)) (.check_true rfl ?_)
  exact .skip_one (.bind_last takesResult (.pure rfl))

/-- What stands between parentheses when no arrow follows. -/
def grouped : List (Option String × TypeExpr) → TypeExpr
  | [(none, element)] => element
  | elements => tuple elements

theorem grouped_eq_tuple (several : ∀ only, elements ≠ [(none, only)]) :
    grouped elements = tuple elements := by
  unfold grouped
  split
  next only => exact absurd rfl (several only)
  next => rfl

theorem takes_readParenthesised (takes : TakesElements type spelling elements)
    (apart : Apart ("->" :: effectWords) rest) :
    Takes (readParenthesised type) (grouped elements)
      (.mark "(" :: ([.mark ","].intercalate (elements.map (elementWords spelling)) ++
        [.mark ")"])) rest := by
  refine .expect rfl fun _ _ => .bind (takes.listed _) (.expect rfl fun _ _ => ?_)
  have effects : Takes readEffects [] [] rest :=
    takes_readEffects (by simp) (apart.mono (by decide))
  refine .bind_nil effects (.check_false (apart.reads_eq (by decide)) ?_)
  rw [if_neg Bool.false_ne_true]
  show Takes (match elements with
    | [(none, element)] => pure element
    | _ => pure (tuple elements)) (grouped elements) [] rest
  unfold grouped
  split <;> exact .pure rfl

end Parentheses

/-! ## Primary types -/

/-- Words that stand in front of a type. -/
def leadingWords : List String :=
  "@" :: (ownershipWords ++ constraintWords)

section Primary

variable {suffixed : Reading TypeExpr} {value : TypeExpr} {words rest : List Word}

theorem takes_skipOwnership (apart : Apart ("@" :: ownershipWords) rest) :
    Takes skipOwnership () [] rest := by
  refine .get fun cursor _ => ?_
  cases cursor.remaining with
  | zero => exact .pure rfl
  | succ limit =>
    refine .check_false (apart.reads_eq (by decide)) (.current fun token word_eq => ?_)
    have text_eq : token.text = (Word.nth rest 0).text := congrArg Word.text word_eq
    have different : token.isOneOf ownershipWords = false := by
      rw [Token.isOneOf, text_eq]
      simpa using fun member => apart (List.mem_cons_of_mem "@" member)
    rw [different, if_neg Bool.false_ne_true]
    exact .pure rfl

/-- Without a word in front of it, a type is known by its first word. -/
theorem takes_readPrimary {word : Word} (plain : word.text ∉ leadingWords)
    (takes : Takes
      (if word.reads "(" then readParenthesised (readComposition suffixed)
        else if word.reads "[" then readBracketed (readComposition suffixed)
        else if word.kind == .identifier then readSimple (readComposition suffixed)
        else missing "a type") value (word :: words) rest) :
    Takes (readPrimary suffixed) value (word :: words) rest := by
  have apart : Apart leadingWords (word :: (words ++ rest)) := plain
  refine .bind_nil (takes_skipOwnership (apart.mono (by decide))) ?_
  refine .current fun first first_eq => .ahead fun second _ => ?_
  obtain rfl : first.word = word := first_eq
  have unconstrained : first.isOneOf constraintWords = false := by
    rw [Token.isOneOf, ← Bool.not_eq_true, List.contains_iff_mem]
    exact fun member => plain (List.mem_cons_of_mem _ (List.mem_append_right _ member))
  rw [unconstrained, Bool.false_and, if_neg Bool.false_ne_true]
  exact takes

theorem takes_readPrimary_parenthesised
    (takes : Takes (readParenthesised (readComposition suffixed)) value (.mark "(" :: words) rest) :
    Takes (readPrimary suffixed) value (.mark "(" :: words) rest :=
  takes_readPrimary (by decide) takes

theorem takes_readPrimary_bracketed
    (takes : Takes (readBracketed (readComposition suffixed)) value (.mark "[" :: words) rest) :
    Takes (readPrimary suffixed) value (.mark "[" :: words) rest :=
  takes_readPrimary (by decide) takes

theorem takes_readPrimary_simple {name : String} (identifier : IsIdentifier name)
    (plain : name ∉ leadingWords)
    (takes : Takes (readSimple (readComposition suffixed)) value (.identifier name :: words) rest) :
    Takes (readPrimary suffixed) value (.identifier name :: words) rest := by
  have parenthesis : name ≠ "(" := identifier.ne (by decide)
  have bracket : name ≠ "[" := identifier.ne (by decide)
  refine takes_readPrimary plain ?_
  rw [if_neg, if_neg]
  · exact takes
  · simpa [Word.reads, Word.identifier] using bracket
  · simpa [Word.reads, Word.identifier] using parenthesis

theorem takes_readPrimary_constrained {specifier name : String} {constraint : TypeExpr}
    (known : specifier ∈ constraintWords)
    (takes : Takes suffixed constraint (.identifier name :: words) rest) :
    Takes (readPrimary suffixed) (.constrained specifier constraint)
      (.identifier specifier :: .identifier name :: words) rest := by
  have free : ∀ word ∈ constraintWords, word ∉ "@" :: ownershipWords := by decide
  refine .bind_nil (takes_skipOwnership (.cons (free specifier known) _)) ?_
  refine .current fun first first_eq => .ahead fun second second_eq => ?_
  have text_eq : first.text = specifier := congrArg Word.text first_eq
  have kind_eq : second.kind = .identifier := congrArg Word.kind second_eq
  have constrained : (first.isOneOf constraintWords && second.isIdentifier) = true := by
    simp [Token.isOneOf, Token.isIdentifier, text_eq, kind_eq, known]
  rw [if_pos constrained, text_eq]
  exact .skip_one (.bind_last takes (.pure rfl))

end Primary

/-! ## Marks behind a type -/

/-- The metatype of a type, which is known by its name only. -/
def metatype (type : TypeExpr) (word : String) : TypeExpr :=
  simple (type.description ++ "." ++ word) []

section Suffixes

variable {type value : TypeExpr} {words others rest : List Word}

/-- The words behind a type are taken for marks of it, which make it the value. -/
def TakesSuffixes (type value : TypeExpr) (words rest : List Word) : Prop :=
  ∀ limit, (words ++ rest).length ≤ limit → Takes (readSuffixesWithin type limit) value words rest

namespace TakesSuffixes

theorem nil (apart : Apart suffixMarks rest) : TakesSuffixes type type [] rest := by
  intro limit _
  cases limit with
  | zero => exact .pure rfl
  | succ limit =>
    refine .ahead fun _ _ => .check_false (apart.reads_eq (by decide)) ?_
    refine .check_false (apart.reads_eq (by decide)) ?_
    exact .check_false (apart.reads_eq (by decide)) (.pure rfl)

theorem optional (takes : TakesSuffixes (.optional type) value words rest) :
    TakesSuffixes type value (.mark "?" :: words) rest := by
  intro limit bound
  cases limit with
  | zero => cases bound
  | succ limit =>
    exact .ahead fun _ _ => .check_true rfl (.skip_one (takes limit (Nat.le_of_succ_le_succ bound)))

theorem implicitlyUnwrapped (takes : TakesSuffixes (.implicitlyUnwrapped type) value words rest) :
    TakesSuffixes type value (.mark "!" :: words) rest := by
  intro limit bound
  cases limit with
  | zero => cases bound
  | succ limit =>
    refine .ahead fun _ _ => .check_false rfl (.check_true rfl (.skip_one ?_))
    exact takes limit (Nat.le_of_succ_le_succ bound)

theorem metatype {word : String} (known : word ∈ metatypes)
    (takes : TakesSuffixes (metatype type word) value words rest) :
    TakesSuffixes type value (.mark "." :: .identifier word :: words) rest := by
  intro limit bound
  cases limit with
  | zero => cases bound
  | succ limit =>
    refine .ahead fun member member_eq => .check_false rfl (.check_false rfl (.check_true rfl ?_))
    obtain rfl : member.text = word := congrArg Word.text member_eq
    have isMetatype : member.isOneOf metatypes = true := List.contains_iff_mem.mpr known
    rw [Bool.true_and, if_pos isMetatype]
    show Takes _ _ ([_, _] ++ words) rest
    exact .skip rfl (takes limit (Nat.le_of_succ_le (Nat.le_of_succ_le_succ bound)))

end TakesSuffixes

theorem takes_suffixedWithin {depth : Nat}
    (primary : Takes (readPrimary (suffixedWithin depth)) type words (others ++ rest))
    (suffixes : TakesSuffixes type value others rest) :
    Takes (suffixedWithin (depth + 1)) value (words ++ others) rest := by
  refine .bind primary (.get fun cursor faces => ?_)
  exact suffixes _ (Nat.le_of_eq faces.remaining_eq.symm)

end Suffixes

end PeerExpansion.TypeExpr
