import PeerExpansion.Proofs.CachedProperty.PeerText
import PeerExpansion.Proofs.Declaration.Taking
import PeerExpansion.Proofs.Token.Spelling

/-! # The words of the peers

Every peer is made of phrases, and its names are identifiers; so its words are known.
-/

namespace PeerExpansion

/-! ## Phrases

Generated text is made of phrases: a name, and the marks and spaces behind it. Its words can be read
off the phrases, whatever the names are.
-/

/-- The words of a text that is made of marks and spaces only. -/
def markWords (marks : List Char) : List Word :=
  (marks.filter fun mark => !isSpace mark).map fun mark => .mark (String.singleton mark)

/-- Marks and spaces whose words do not depend on what follows. -/
def Plain (marks : List Char) : Prop :=
  ∀ mark ∈ marks, isSpace mark = true ∨ mark ∈ plainMarks

-- Named because what is found for it by search may go through all characters there are.
instance (marks : List Char) : Decidable (Plain marks) :=
  List.decidableBAll _ marks

theorem spells_marks {marks : List Char} (plain : Plain marks) (behind : List Char) :
    Spells (String.ofList marks) (markWords marks) behind := by
  induction marks with
  | nil => exact .empty behind
  | cons mark marks inductionHypothesis =>
    have others := inductionHypothesis fun other member =>
      plain other (List.mem_cons_of_mem mark member)
    have text_eq :
        String.ofList (mark :: marks) = String.singleton mark ++ String.ofList marks := by
      rw [← String.toList_inj]
      simp
    rw [text_eq]
    by_cases space : isSpace mark = true
    · have words_eq : markWords (mark :: marks) = [] ++ markWords marks := by
        simp [markWords, space]
      rw [words_eq]
      exact .append (spells_space (by simp) space) others
    · have known := (plain mark List.mem_cons_self).resolve_left space
      have words_eq : markWords (mark :: marks) =
          [.mark (String.singleton mark)] ++ markWords marks := by
        simp [markWords, space]
      rw [words_eq]
      exact .append (spells_mark (by simp) known _) others

structure Phrase where
  name : String
  separator : String

namespace Phrase

def text (phrase : Phrase) : String :=
  phrase.name ++ phrase.separator

def words (phrase : Phrase) : List Word :=
  .identifier phrase.name :: markWords phrase.separator.toList

/-- The separator ends a name and is read in one way only in front of another. -/
def Separates (separator : String) : Prop :=
  separator ≠ "" ∧ (separator = "." ∨ Plain separator.toList)

instance (separator : String) : Decidable (Separates separator) :=
  inferInstanceAs (Decidable (_ ∧ _))

structure Fits (phrase : Phrase) : Prop where
  identifier : IsIdentifier phrase.name
  separates : Separates phrase.separator

variable {phrase : Phrase} {phrases : List Phrase} {behind : List Char}

theorem fits_all (identifiers : ∀ name ∈ phrases.map Phrase.name, IsIdentifier name)
    (separates : ∀ separator ∈ phrases.map Phrase.separator, Separates separator) :
    ∀ phrase ∈ phrases, phrase.Fits :=
  fun _ member =>
    ⟨identifiers _ (List.mem_map_of_mem member), separates _ (List.mem_map_of_mem member)⟩

theorem Fits.spells_separator (fits : phrase.Fits) (other : behind.head? ≠ some '.') :
    Spells phrase.separator (markWords phrase.separator.toList) behind := by
  obtain point | plain := fits.separates.2
  · rw [point]
    exact spells_point other
  · have spells := spells_marks plain behind
    rwa [String.ofList_toList] at spells

theorem Fits.ends (fits : phrase.Fits) (behind : List Char) :
    Ends (phrase.separator.toList ++ behind) := by
  cases separator_eq : phrase.separator.toList with
  | nil => exact absurd (String.toList_eq_nil_iff.mp separator_eq) fits.separates.1
  | cons first rest =>
    refine .cons ?_ _
    obtain point | plain := fits.separates.2
    · rw [point] at separator_eq
      cases separator_eq
      decide
    · rw [separator_eq] at plain
      obtain space | known := plain first List.mem_cons_self
      · rw [Bool.eq_false_iff]
        intro part
        exact absurd space (by simp [Lexeme.isSpace_of_isWordPart part])
      · exact of_mem_plainMarks (Lexeme.isWordPart · = false) known (by decide)

theorem Fits.spells (fits : phrase.Fits) (other : behind.head? ≠ some '.') :
    Spells phrase.text phrase.words behind :=
  .append (spells_identifier fits.identifier (fits.ends behind)) (fits.spells_separator other)

end Phrase

/-- Phrases in a row are spelled one after another. -/
theorem spells_phrases {phrases : List Phrase} {behind : List Char}
    (fits : ∀ phrase ∈ phrases, phrase.Fits) (other : behind.head? ≠ some '.') :
    Spells (String.join (phrases.map Phrase.text)) (phrases.flatMap Phrase.words) behind := by
  induction phrases with
  | nil => exact .empty behind
  | cons phrase phrases inductionHypothesis =>
    have others := inductionHypothesis fun later member =>
      fits later (List.mem_cons_of_mem phrase member)
    rw [List.map_cons, String.join_cons, List.flatMap_cons]
    refine .append ((fits phrase List.mem_cons_self).spells ?_) others
    -- A separator may be a point, and only another point behind it would change its words.
    cases phrases with
    | nil => simpa using other
    | cons next more =>
      have identifier := (fits next (by simp)).identifier
      rw [List.map_cons, String.join_cons, Phrase.text, String.append_assoc, String.toList_append,
        List.append_assoc]
      exact (isIdentifier_iff.mp identifier).head?_ne_point _

end PeerExpansion

namespace PeerExpansion.CachedProperty

section Phrases

variable (names : Names) (step : DecodeStep)

def hashPhrases : List Phrase :=
  [⟨"private", " "⟩, ⟨"var", " "⟩, ⟨names.hashField, ": "⟩, ⟨"Int", " = "⟩]

def cachePhrases : List Phrase :=
  [⟨"private", " "⟩, ⟨"var", " "⟩, ⟨names.cacheField, ": "⟩, ⟨"Image", "?"⟩]

def headPhrases : List Phrase :=
  [⟨"var", " "⟩, ⟨names.accessor, ": "⟩, ⟨"Image", "? \x7b\n    "⟩]

/-- The block of the accessor, behind its opening brace. -/
def blockPhrases : List Phrase :=
  [⟨"get", " \x7b\n        "⟩, ⟨"if", " "⟩, ⟨names.source, "."⟩, ⟨"hashValue", " != "⟩,
    ⟨names.hashField, ",\n            "⟩, ⟨"let", " "⟩, ⟨names.source, ",\n            "⟩,
    ⟨"let", " "⟩, ⟨step.binding, " = "⟩, ⟨step.decoderName, "("⟩, ⟨"data", ": "⟩,
    ⟨names.source, ")\n        \x7b\n            "⟩, ⟨names.cacheField, " = "⟩, ⟨"Image", "("⟩,
    ⟨step.binding, ": "⟩, ⟨step.binding, ")\n            "⟩, ⟨names.hashField, " = "⟩,
    ⟨names.source, "."⟩, ⟨"hashValue", "\n        \x7d\n        "⟩, ⟨"return", " "⟩,
    ⟨names.cacheField, "\n    \x7d\n\x7d"⟩]

/-- The words of the marker in front of a field. -/
def markerWords (flag : Json) : List Word :=
  if flag.isTruthy then [.mark "@", .identifier "Transient"] else []

def hashWords : List Word :=
  [.identifier "private", .identifier "var", .identifier names.hashField, .mark ":",
    .identifier "Int", .mark "=", .number "0"]

def cacheWords : List Word :=
  [.identifier "private", .identifier "var", .identifier names.cacheField, .mark ":",
    .identifier "Image", .mark "?"]

def accessorWords : List Word :=
  .identifier "var" :: .identifier names.accessor :: .mark ":" :: .identifier "Image" ::
    .mark "?" :: .mark Token.openBrace :: (blockPhrases names step).flatMap Phrase.words

theorem hashText_eq (mark : String) :
    hashText names mark = mark ++ (String.join ((hashPhrases names).map Phrase.text) ++ "0") := by
  rw [← String.toList_inj]
  simp [hashText, hashPhrases, Phrase.text]

theorem cacheText_eq (mark : String) :
    cacheText names mark = mark ++ String.join ((cachePhrases names).map Phrase.text) := by
  rw [← String.toList_inj]
  simp [cacheText, cachePhrases, Phrase.text]

set_option maxRecDepth 4000 in
theorem accessorText_eq :
    accessorText names step =
      String.join ((headPhrases names ++ blockPhrases names step).map Phrase.text) := by
  rw [← String.toList_inj]
  simp [accessorText, accessorLines, getterLines, block, headPhrases, blockPhrases, Phrase.text]

theorem words_hashPhrases :
    (hashPhrases names).flatMap Phrase.words ++ [.number "0"] = hashWords names := by
  simp [hashPhrases, Phrase.words, markWords, isSpace, hashWords]

theorem words_cachePhrases : (cachePhrases names).flatMap Phrase.words = cacheWords names := by
  simp [cachePhrases, Phrase.words, markWords, isSpace, cacheWords]

theorem words_accessorPhrases :
    (headPhrases names ++ blockPhrases names step).flatMap Phrase.words =
      accessorWords names step := by
  rw [List.flatMap_append]
  simp [headPhrases, Phrase.words, markWords, isSpace, accessorWords, Token.openBrace]

theorem closes_blockPhrases :
    Declaration.Closes ((blockPhrases names step).flatMap Phrase.words) := by
  simp [blockPhrases, Phrase.words, markWords, isSpace, Declaration.Closes, Word.identifier,
    Word.mark, Extent.blockLength?, Token.isPunctuation, Token.openBrace, Token.closeBrace]

/-- The names that stand in the peers, but for that of the accessor. -/
structure Identified : Prop where
  source : IsIdentifier names.source
  hashField : IsIdentifier names.hashField
  cacheField : IsIdentifier names.cacheField

variable {names} (identified : Identified names)

theorem fits_headPhrases (accessor : IsIdentifier names.accessor) :
    ∀ phrase ∈ headPhrases names, phrase.Fits := by
  refine Phrase.fits_all ?_ (show ∀ separator ∈ [" ", ": ", "? \x7b\n    "], _ by decide)
  have constant : ∀ name ∈ ["var", "Image"], IsIdentifier name := by decide
  simp [headPhrases, constant, accessor]

include identified

theorem fits_hashPhrases : ∀ phrase ∈ hashPhrases names, phrase.Fits := by
  refine Phrase.fits_all ?_ (show ∀ separator ∈ [" ", " ", ": ", " = "], _ by decide)
  have constant : ∀ name ∈ ["private", "var", "Int"], IsIdentifier name := by decide
  simp [hashPhrases, constant, identified.hashField]

theorem fits_cachePhrases : ∀ phrase ∈ cachePhrases names, phrase.Fits := by
  refine Phrase.fits_all ?_ (show ∀ separator ∈ [" ", " ", ": ", "?"], _ by decide)
  have constant : ∀ name ∈ ["private", "var", "Image"], IsIdentifier name := by decide
  simp [cachePhrases, constant, identified.cacheField]

theorem fits_blockPhrases : ∀ phrase ∈ blockPhrases names step, phrase.Fits := by
  obtain ⟨source, hashField, cacheField⟩ := identified
  have binding : IsIdentifier step.binding := by
    unfold DecodeStep.binding
    split <;> decide
  have decoder : IsIdentifier step.decoderName := by
    unfold DecodeStep.decoderName
    split <;> decide
  have constant : ∀ name ∈ ["get", "if", "hashValue", "let", "data", "Image", "return"],
      IsIdentifier name := by decide
  refine Phrase.fits_all ?_ ?_
  · simp [blockPhrases, source, hashField, cacheField, binding, decoder, constant]
  · -- The separators are the same for all names.
    show ∀ separator ∈ (blockPhrases ⟨"", ""⟩ ⟨.uiKit, .null⟩).map Phrase.separator, _
    decide

/-! ## Spelling -/

omit identified in
theorem spells_markText (flag : Json) (behind : List Char) :
    Spells (markText flag) (markerWords flag) behind := by
  unfold markText markerWords
  cases flag.isTruthy with
  | false => exact .empty behind
  | true =>
    have sign : Spells "@" [.mark "@"] (("Transient" ++ " ").toList ++ behind) :=
      spells_mark rfl (by decide) _
    have word : Spells "Transient" [.identifier "Transient"] (" ".toList ++ behind) :=
      spells_identifier (by decide) (.cons (by decide) behind)
    exact .append sign (.append word (spells_space rfl (by decide)))

theorem spells_hashText (flag : Json) :
    Spells (hashText names (markText flag)) (markerWords flag ++ hashWords names) [] := by
  rw [hashText_eq, ← words_hashPhrases]
  have zero : Spells "0" [.number "0"] [] :=
    spells_token (show "0".toList = ['0'] from rfl) rfl
  have phrases := spells_phrases (fits_hashPhrases identified)
    (show ("0".toList ++ []).head? ≠ some '.' by decide)
  exact .append (spells_markText flag _) (.append phrases zero)

theorem spells_cacheText (flag : Json) :
    Spells (cacheText names (markText flag)) (markerWords flag ++ cacheWords names) [] := by
  rw [cacheText_eq, ← words_cachePhrases]
  exact .append (spells_markText flag _) (spells_phrases (fits_cachePhrases identified) (by simp))

theorem spells_accessorText (accessor : IsIdentifier names.accessor) :
    Spells (accessorText names step) (accessorWords names step) [] := by
  rw [accessorText_eq, ← words_accessorPhrases]
  have fits : ∀ phrase ∈ headPhrases names ++ blockPhrases names step, phrase.Fits :=
    List.forall_mem_append.mpr ⟨fits_headPhrases accessor, fits_blockPhrases step identified⟩
  exact spells_phrases fits (by simp)

end Phrases

end PeerExpansion.CachedProperty
