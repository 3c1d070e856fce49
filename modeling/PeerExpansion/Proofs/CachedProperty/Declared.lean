import PeerExpansion.Generator
import PeerExpansion.Proofs.CachedProperty.Names
import PeerExpansion.Proofs.CachedProperty.Phrases
import PeerExpansion.Proofs.Outcome

/-! # Peers are declarations

Under the standard settings each of the three peers is parsed as one variable declaration. The two
fields bind the names that are meant for them. The accessor does so too unless what stands in front
of the suffix is a low line, which is a pattern that binds nothing, or a lone dollar sign, which is
no word at all.
-/

namespace PeerExpansion.CachedProperty

open Reading TypeExpr

/-- The text is a single variable declaration that binds `name` and nothing else. -/
def Declares (text name : String) (type : TypeExpr) (initializer : Option String)
    (hasBlock : Bool) : Prop :=
  ∃ declaration position accessors,
    Declaration.parse text.toList = .ok declaration ∧ declaration.kind = .property ∧
      declaration.bindings = [⟨.name name position, some type, initializer, accessors⟩] ∧
      accessors.isSome = hasBlock

/-- The declaration of a variable that binds as `name` does, whatever that is. -/
def Resembles (name : String) (type : TypeExpr) (initializer : Option String) (hasBlock : Bool)
    (declaration : Declaration) : Prop :=
  declaration.kind = .property ∧
    ∃ binding, (Declaration.Binds name binding.pattern ∧ binding.type = some type ∧
      binding.initializer = initializer ∧ binding.accessors.isSome = hasBlock) ∧
      declaration.bindings = [binding]

section Peers

variable {names : Names} {name text : String} {type : TypeExpr} {initializer : Option String}
  {hasBlock : Bool} {words rest : List Word}

theorem yields_markerWords (flag : Json) (apart : Apart ["@", ".", "("] rest) :
    Yields Attribute.readAll (fun _ => True) (markerWords flag) rest := by
  unfold markerWords
  split
  · exact Attribute.yields_readAll_one apart
  · exact Attribute.yields_readAll_nil (apart.reads_eq List.mem_cons_self)

/-- Such a declaration declares the name unless that is the low line. -/
theorem declares_iff {declaration : Declaration}
    (parsed : Declaration.parse text.toList = .ok declaration)
    (resembles : Resembles name type initializer hasBlock declaration) :
    Declares text name type initializer hasBlock ↔ name ≠ "_" := by
  obtain ⟨property, ⟨pattern, given, value, accessors⟩, ⟨⟨position, binds⟩, rfl, rfl, rfl⟩, only⟩ :=
    resembles
  dsimp only at binds only ⊢
  constructor
  · rintro ⟨other, otherPosition, otherAccessors, otherParsed, -, otherOnly, -⟩ rfl
    rw [parsed] at otherParsed
    cases otherParsed
    rw [only, List.cons.injEq, Binding.mk.injEq, binds, if_pos rfl] at otherOnly
    cases otherOnly.1.1
  · intro plain
    rw [if_neg plain] at binds
    rw [binds] at only
    exact ⟨declaration, position, accessors, parsed, property, only, rfl⟩

theorem declares_iff_of_spells (spells : Spells text words [])
    (yields : Yields Declaration.read (Resembles name type initializer hasBlock) words []) :
    Declares text name type initializer hasBlock ↔ name ≠ "_" := by
  obtain ⟨declaration, resembles, parsed⟩ := Declaration.exists_parse_of_spells spells yields
  exact declares_iff parsed resembles

/-! ## Fields -/

theorem yields_field (flag : Json) {typeWords initializerWords : List Word}
    (identifier : IsIdentifier name) (spelling : Spelling type typeWords)
    (apart : Apart memberMarks initializerWords)
    (initialized : Takes Declaration.readInitializer? initializer initializerWords []) :
    Yields Declaration.read (Resembles name type initializer false)
      (markerWords flag ++ .identifier "private" :: .identifier "var" :: .identifier name ::
        .mark ":" :: (typeWords ++ initializerWords)) [] := by
  have binding := Declaration.yields_readBinding identifier spelling
    (by simpa using apart) initialized (Declaration.takes_readAccessors?_none rfl)
  rw [List.append_nil] at binding
  have modifiers : Yields Declaration.readModifiers (fun _ => True) [.identifier "private"]
      (.identifier "var" :: .identifier name :: .mark ":" :: (typeWords ++ initializerWords)) :=
    Declaration.yields_readModifiers_one (by decide) (by decide) (.cons (by decide) _)
  have follows (more : List Word) : Apart ["@", ".", "("] (.identifier "private" :: more) :=
    .cons (by decide) more
  refine (Declaration.yields_read (yields_markerWords flag (follows _)) modifiers binding).mono ?_
  rintro declaration ⟨property, given, ⟨binds, type_eq, value_eq, none_eq⟩, only⟩
  exact ⟨property, given, ⟨binds, type_eq, value_eq, none_eq ▸ rfl⟩, only⟩

theorem append_ne_lowLine {stem suffix : String} (long : 1 < suffix.length) :
    stem ++ suffix ≠ "_" := by
  intro same
  have length_eq := congrArg String.length same
  rw [String.length_append] at length_eq
  have : "_".length = 1 := rfl
  omega

variable (identified : Identified names)
include identified

theorem declares_hashText (flag : Json) :
    Declares (hashText names (markText flag)) names.hashField (.simple "Int" []) (some "0")
      false := by
  rw [declares_iff_of_spells (spells_hashText identified flag)]
  · exact append_ne_lowLine (by decide)
  · exact yields_field flag identified.hashField (spelling_ofName (by decide) (by decide))
      (.cons (by decide) _) (Declaration.takes_readInitializer?_some rfl)

def imageType : TypeExpr :=
  .optional (.simple "Image" [])

omit identified in
theorem spelling_imageType : Spelling imageType [.identifier "Image", .mark "?"] := by
  have spelling : Spelling (ofName "Image") [.identifier "Image"] :=
    spelling_ofName (by decide) (by decide)
  have optional := spelling_optional spelling.self
  rwa [spelling.words_eq] at optional

theorem declares_cacheText (flag : Json) :
    Declares (cacheText names (markText flag)) names.cacheField imageType none false := by
  rw [declares_iff_of_spells (spells_cacheText identified flag)]
  · exact append_ne_lowLine (by decide)
  · exact yields_field flag identified.cacheField spelling_imageType (.nil (by decide))
      (Declaration.takes_readInitializer?_none rfl)

/-! ## The accessor -/

theorem declares_accessorText_iff (accessor : IsIdentifier names.accessor) (step : DecodeStep) :
    Declares (accessorText names step) names.accessor imageType none true ↔
      names.accessor ≠ "_" := by
  refine declares_iff_of_spells (spells_accessorText step identified accessor) ?_
  have accessors := Declaration.yields_readAccessors?_some (closes_blockPhrases names step)
  have follows (more : List Word) : Apart memberMarks (.mark Token.openBrace :: more) :=
    .cons (by decide) more
  have binding := Declaration.yields_readBinding accessor spelling_imageType (follows _)
    (Declaration.takes_readInitializer?_none rfl) accessors
  have modifiers (more : List Word) : Yields Declaration.readModifiers (fun _ => True) []
      (.identifier "var" :: more) :=
    Declaration.yields_readModifiers_nil (.cons (by decide) more)
  refine (Declaration.yields_read (Attribute.yields_readAll_nil rfl) (modifiers _) binding).mono ?_
  rintro declaration ⟨property, given, ⟨binds, type_eq, value_eq, block, block_eq⟩, only⟩
  exact ⟨property, given, ⟨binds, type_eq, value_eq, block_eq ▸ rfl⟩, only⟩

omit identified in
/-- A lone dollar sign is no word, so there is nothing to declare. -/
theorem not_declares_of_dollar {step : DecodeStep} (alone : names.accessor = "$") :
    ¬ Declares (accessorText names step) name type initializer hasBlock := by
  rintro ⟨declaration, position, accessors, parsed, -⟩
  obtain ⟨behind, text_eq⟩ : ∃ behind,
      (accessorText names step).toList = ("var" ++ " ").toList ++ '$' :: ':' :: behind := by
    rw [accessorText, alone]
    exact ⟨_, by simp; rfl⟩
  have keyword : Spells ("var" ++ " ") ([.identifier "var"] ++ []) ('$' :: ':' :: behind) :=
    .append (spells_identifier (by decide) (.cons (by decide) _)) (spells_space rfl (by decide))
  obtain ⟨error, refused⟩ := keyword.exists_scan_error rfl
  rw [Declaration.parse, text_eq, refused] at parsed
  cases parsed

end Peers

/-! ## Generated peers -/

section Generated

variable {source : List Char} {stream : TokenStream} {index : Nat} {last : Cursor}
  {declaration : Declaration} {attr : Attribute} {platform : String} {names : Names} {flag : Json}

theorem exists_select (machine macroName : String) (known : platform ∈ ["ios", "macos"]) :
    ∃ framework, DecodeStep.select machine (targeting platform).targetPlatform
      (targeting platform).resourceType macroName = .ok ⟨framework, .text "Image"⟩ := by
  obtain rfl | rfl : platform = "ios" ∨ platform = "macos" := by simpa using known
  · exact ⟨.uiKit, rfl⟩
  · exact ⟨.appKit, rfl⟩

theorem generate_targeting {machine macroName : String} {framework : Framework}
    (selected : DecodeStep.select machine (targeting platform).targetPlatform
      (targeting platform).resourceType macroName = .ok ⟨framework, .text "Image"⟩)
    (derived : Names.derive (targeting platform) attr.name declaration = .ok names)
    (marked : markerFlag (targeting platform) attr = .ok flag) (oneLine : OnOneLine names) :
    (generate machine macroName (targeting platform) attr declaration).outcome =
      .ok [hashText names (markText flag), cacheText names (markText flag),
        accessorText names ⟨framework, .text "Image"⟩] := by
  have prepared : prepare machine macroName (targeting platform) attr declaration =
      .ok (names, flag, ⟨framework, .text "Image"⟩) := by
    rw [prepare, review, derived, marked, selected]
    rfl
  rw [generate, prepared]
  simp only [finish, peers_targeting platform flag framework oneLine]
  rfl

/-- The standard suffix, and those that take its place. -/
theorem suffix_of_known {suffix : String} (known : suffix ∈ ["Data", "Hash", "Cache"]) :
    Names.Suffix suffix := by
  have all : ∀ suffix ∈ ["Data", "Hash", "Cache"],
      suffix.toList ≠ [] ∧ suffix.toList.all Lexeme.isWordPart = true := by decide
  exact ⟨(all suffix known).1, (all suffix known).2⟩

/-- The names of a variable that is accepted can stand in the peers, that of the accessor if it is
no lone dollar sign. -/
structure Accepted (declaration : Declaration) (names : Names) : Prop where
  source : Names.Source declaration names "Data"
  identified : Identified names
  oneLine : OnOneLine names
  accessor_iff : IsIdentifier names.accessor ↔ names.stem ≠ "$"

theorem accepted_of_derive {configuration : Configuration}
    (suffix_eq : configuration.suffix = .text "Data")
    (scanned : TokenStream.scan source = .ok stream)
    (read : Reads Declaration.read (.ofStream stream index) declaration last)
    (derived : Names.derive configuration attr.name declaration = .ok names) :
    Accepted declaration names := by
  have derives : Names.Source declaration names "Data" := Names.source_of_derive suffix_eq derived
  obtain ⟨binding, position, only, pattern_eq⟩ := derives.bound
  have identifier : IsIdentifier names.source :=
    Declaration.isIdentifier_of_mem_bindings scanned read (only ▸ List.mem_singleton_self binding)
      pattern_eq
  have whole : IsIdentifier (names.stem ++ "Data") := derives.source_eq ▸ identifier
  have data := suffix_of_known (show "Data" ∈ _ by decide)
  have other (suffix : String) (known : suffix ∈ ["Data", "Hash", "Cache"]) :
      IsIdentifier (names.stem ++ suffix) :=
    Names.isIdentifier_stem_append whole data derives.stem_ne (suffix_of_known known)
  -- No line feed is part of an identifier, so the names cannot break a line of the peers.
  have clean : '\n' ∉ (names.stem ++ "Data").toList :=
    (isIdentifier_iff.mp whole).not_mem rfl (by decide) (by decide)
  refine ⟨derives, ⟨identifier, other "Hash" (by decide), other "Cache" (by decide)⟩, ⟨?_, ?_⟩,
    Names.isIdentifier_stem_iff whole data derives.stem_ne⟩
  · rwa [derives.source_eq]
  · rw [String.toList_append, List.mem_append] at clean
    exact fun member => clean (.inl member)

theorem Accepted.declares_accessorText_iff (accepted : Accepted declaration names)
    (step : DecodeStep) :
    Declares (accessorText names step) names.stem imageType none true ↔
      names.stem ≠ "_" ∧ names.stem ≠ "$" := by
  by_cases alone : names.stem = "$"
  · -- Then the accessor is refused before anything of it is read.
    simp only [alone, ne_eq, not_true_eq_false, and_false, iff_false]
    exact not_declares_of_dollar alone
  · rw [and_iff_left alone]
    exact CachedProperty.declares_accessorText_iff accepted.identified
      (accepted.accessor_iff.mpr alone) step

/-- The peers of an accepted variable declare the names that are meant for them, the accessor only
if its name is neither a low line nor a dollar sign. -/
theorem generate_declares (machine macroName : String) (known : platform ∈ ["ios", "macos"])
    (scanned : TokenStream.scan source = .ok stream)
    (read : Reads Declaration.read (.ofStream stream index) declaration last)
    (derived : Names.derive (targeting platform) attr.name declaration = .ok names)
    (marked : markerFlag (targeting platform) attr = .ok flag) :
    ∃ binding position hash cache accessor,
      declaration.bindings = [binding] ∧
      binding.pattern = .name (names.stem ++ "Data") position ∧
      (generate machine macroName (targeting platform) attr declaration).outcome =
        .ok [hash, cache, accessor] ∧
      Declares hash (names.stem ++ "Hash") (.simple "Int" []) (some "0") false ∧
      Declares cache (names.stem ++ "Cache") (.optional (.simple "Image" [])) none false ∧
      (Declares accessor names.stem (.optional (.simple "Image" [])) none true ↔
        names.stem ≠ "_" ∧ names.stem ≠ "$") := by
  have accepted := accepted_of_derive rfl scanned read derived
  obtain ⟨binding, position, only, pattern_eq⟩ := accepted.source.bound
  obtain ⟨framework, selected⟩ := exists_select machine macroName known
  rw [accepted.source.source_eq] at pattern_eq
  exact ⟨binding, position, _, _, _, only, pattern_eq,
    generate_targeting selected derived marked accepted.oneLine,
    declares_hashText accepted.identified flag, declares_cacheText accepted.identified flag,
    accepted.declares_accessorText_iff _⟩

/-- A variable that is accepted, with the attribute that is followed. -/
def acceptedSample : String :=
  "@ImageCache(true) var fooData: Data?"

/-- Whether a text is a variable that is accepted, with this in front of the suffix. -/
def isAccepted (text stem : String) : Bool :=
  (Declaration.parse text.toList).toOption.any fun declaration =>
    declaration.attributes.any fun attr =>
      (Names.derive (targeting "ios") attr.name declaration).toOption.any fun names =>
        (markerFlag (targeting "ios") attr).toOption.any fun _ => names.stem == stem

theorem exists_of_isAccepted {text stem : String} (found : isAccepted text stem = true) :
    ∃ declaration, Declaration.parse text.toList = .ok declaration ∧
      ∃ attr ∈ declaration.attributes, ∃ names flag,
        Names.derive (targeting "ios") attr.name declaration = .ok names ∧
        markerFlag (targeting "ios") attr = .ok flag ∧ names.stem = stem := by
  obtain ⟨declaration, parsed, found⟩ := exists_of_any found
  obtain ⟨attr, member, found⟩ := List.any_eq_true.mp found
  obtain ⟨names, derived, found⟩ := exists_of_any found
  obtain ⟨flag, marked, found⟩ := exists_of_any found
  exact ⟨declaration, parsed, attr, member, names, flag, derived, marked, beq_iff_eq.mp found⟩

set_option maxRecDepth 20000 in
theorem generate_declares_acceptedSample : ∃ declaration attr hash cache accessor,
    Declaration.parse acceptedSample.toList = .ok declaration ∧ attr ∈ declaration.attributes ∧
      (generate "linux" "ImageCache" (targeting "ios") attr declaration).outcome =
        .ok [hash, cache, accessor] ∧
      Declares hash "fooHash" (.simple "Int" []) (some "0") false ∧
      Declares cache "fooCache" (.optional (.simple "Image" [])) none false ∧
      Declares accessor "foo" (.optional (.simple "Image" [])) none true := by
  obtain ⟨declaration, parsed, attr, member, names, flag, derived, marked, stem_eq⟩ :=
    exists_of_isAccepted (show isAccepted acceptedSample "foo" = true by decide +kernel)
  obtain ⟨stream, last, scanned, read⟩ := Declaration.exists_reads_of_parse parsed
  obtain ⟨binding, position, hash, cache, accessor, -, -, made, hashDeclares, cacheDeclares,
    accessor_iff⟩ := generate_declares "linux" "ImageCache" (by decide) scanned read derived marked
  rw [stem_eq] at hashDeclares cacheDeclares accessor_iff
  exact ⟨declaration, attr, hash, cache, accessor, parsed, member, made, hashDeclares,
    cacheDeclares, accessor_iff.mpr (by decide)⟩

/-- The variable is accepted with this in front of the suffix, but its accessor peer is no
declaration of it. -/
def Misdeclares (text stem : String) : Prop :=
  ∃ declaration attr names hash cache accessor,
    Declaration.parse text.toList = .ok declaration ∧ attr ∈ declaration.attributes ∧
      Names.derive (targeting "ios") attr.name declaration = .ok names ∧
      names.accessor = stem ∧
      (generate "linux" "ImageCache" (targeting "ios") attr declaration).outcome =
        .ok [hash, cache, accessor] ∧
      ¬ Declares accessor stem (.optional (.simple "Image" [])) none true

theorem misdeclares_of_isAccepted {text stem : String} (found : isAccepted text stem = true)
    (odd : stem = "_" ∨ stem = "$") : Misdeclares text stem := by
  obtain ⟨declaration, parsed, attr, member, names, flag, derived, marked, stem_eq⟩ :=
    exists_of_isAccepted found
  obtain ⟨stream, last, scanned, read⟩ := Declaration.exists_reads_of_parse parsed
  have accepted := accepted_of_derive rfl scanned read derived
  obtain ⟨framework, selected⟩ := exists_select "linux" "ImageCache" (show "ios" ∈ _ by decide)
  refine ⟨declaration, attr, names, _, _, _, parsed, member, derived, stem_eq,
    generate_targeting selected derived marked accepted.oneLine, fun declares => ?_⟩
  rw [← stem_eq] at declares odd
  obtain ⟨named, plain⟩ := (accepted.declares_accessorText_iff _).mp declares
  exact odd.elim named plain

set_option maxRecDepth 20000 in
/-- What is left in front of the suffix is no name, or the pattern that binds nothing. -/
theorem misdeclares_oddSamples :
    Misdeclares "@ImageCache var $Data: Data?" "$" ∧
      Misdeclares "@ImageCache var _Data: Data?" "_" := by
  constructor
  · exact misdeclares_of_isAccepted (by decide +kernel) (.inr rfl)
  · exact misdeclares_of_isAccepted (by decide +kernel) (.inl rfl)

end Generated

end PeerExpansion.CachedProperty
