import PeerExpansion.CachedProperty.Names
import PeerExpansion.Configuration.Load
import PeerExpansion.Declaration.Read
import PeerExpansion.Proofs.Declaration.Binding
import PeerExpansion.Proofs.Outcome

/-! # What the names of a cached property are

The names that a declaration gives rise to begin with what stands in front of the suffix of its own
name. With something behind it that is an identifier again; on its own it need not be.
-/

namespace PeerExpansion.CachedProperty.Names

/-- A declaration that names are derived from. -/
structure Source (declaration : Declaration) (names : Names) (suffix : String) : Prop where
  bound : ∃ binding position, declaration.bindings = [binding] ∧
    binding.pattern = .name names.source position
  source_eq : names.source = names.stem ++ suffix
  stem_ne : names.stem ≠ ""

theorem append_of_stem? {name suffix stem : String} (found : stem? name suffix = some stem) :
    name = stem ++ suffix := by
  unfold stem? at found
  split at found
  next ends =>
    cases found
    obtain ⟨front, front_eq⟩ := List.isSuffixOf_iff_suffix.mp ends
    have length_eq : name.length - suffix.length = front.length := by
      rw [← String.length_toList, ← front_eq, List.length_append, String.length_toList,
        Nat.add_sub_cancel]
    rw [← String.toList_inj, String.toList_append, String.toList_ofList, length_eq, ← front_eq,
      List.take_left]
  next => cases found

theorem source_of_ofIdentifier {identifier suffix : String} {names : Names}
    (found : ofIdentifier identifier suffix = .ok names) :
    names.source = identifier ∧ names.source = names.stem ++ suffix ∧ names.stem ≠ "" := by
  unfold ofIdentifier at found
  split at found
  next => cases found
  next => cases found
  next stem filled stem_eq =>
    cases found
    refine ⟨rfl, append_of_stem? stem_eq, ?_⟩
    rintro rfl
    exact filled rfl

theorem bindings_of_onlyBinding {declaration : Declaration} {binding : Binding}
    (found : onlyBinding declaration = .ok binding) : declaration.bindings = [binding] := by
  unfold onlyBinding at found
  split at found
  · split at found
    next => cases found
    next only =>
      cases found
      exact only
    next => cases found
  · cases found

theorem pattern_of_identifierOf {binding : Binding} {identifier : String}
    (found : identifierOf binding = .ok identifier) :
    ∃ position, binding.pattern = .name identifier position := by
  unfold identifierOf at found
  split at found
  next text position named =>
    cases found
    exact ⟨position, named⟩
  next => cases found

theorem source_of_derive {configuration : Configuration} {suffix attributeName : String}
    {declaration : Declaration} {names : Names} (suffix_eq : configuration.suffix = .text suffix)
    (derived : derive configuration attributeName declaration = .ok names) :
    Source declaration names suffix := by
  simp only [derive, suffix_eq] at derived
  obtain ⟨binding, only, derived⟩ := exists_of_bind_eq_ok derived
  obtain ⟨identifier, named, derived⟩ := exists_of_bind_eq_ok derived
  obtain ⟨_, _, derived⟩ := exists_of_bind_eq_ok derived
  obtain ⟨position, pattern_eq⟩ := pattern_of_identifierOf (eq_ok_of_mapError named)
  obtain ⟨identifier_eq, source_eq, stem_ne⟩ := source_of_ofIdentifier (eq_ok_of_mapError derived)
  refine ⟨⟨binding, position, ?_, ?_⟩, source_eq, stem_ne⟩
  · exact bindings_of_onlyBinding (eq_ok_of_mapError only)
  · rw [identifier_eq]
    exact pattern_eq

/-! ## Stems -/

/-- A suffix that leaves an identifier one when it takes the place of another. -/
structure Suffix (suffix : String) : Prop where
  filled : suffix.toList ≠ []
  parts : suffix.toList.all Lexeme.isWordPart = true

section Stems

variable {stem suffix : String} (identifier : IsIdentifier (stem ++ suffix))
  (plain : Suffix suffix) (stem_ne : stem ≠ "")
include identifier plain stem_ne

theorem exists_stem_cons : ∃ first rest, stem.toList = first :: rest ∧
    rest.all Lexeme.isWordPart = true ∧ (Lexeme.isWordStart first = true ∨ first = '$') := by
  have shape := isIdentifier_iff.mp identifier
  rw [String.toList_append] at shape
  -- A name between accents ends with one, and the suffix does not.
  have unquoted : (stem.toList ++ suffix.toList).getLast? ≠ some '\x60' := by
    rw [List.getLast?_append, List.getLast?_eq_some_getLast plain.filled, Option.some_or]
    intro accent
    have part := List.all_eq_true.mp plain.parts _ (List.getLast_mem plain.filled)
    rw [Option.some.inj accent] at part
    exact absurd part (by decide)
  obtain ⟨first, rest, text_eq, parts, starts⟩ := shape.exists_cons unquoted
  cases stem_eq : stem.toList with
  | nil => exact absurd (String.toList_eq_nil_iff.mp stem_eq) stem_ne
  | cons character more =>
    rw [stem_eq, List.cons_append] at text_eq
    obtain ⟨rfl, rfl⟩ := List.cons.inj text_eq
    rw [List.all_append, Bool.and_eq_true] at parts
    exact ⟨character, more, rfl, parts.1, starts.imp_right And.left⟩

/-- With another suffix the stem makes an identifier again. -/
theorem isIdentifier_stem_append {other : String} (otherPlain : Suffix other) :
    IsIdentifier (stem ++ other) := by
  obtain ⟨first, rest, stem_eq, parts, starts⟩ := exists_stem_cons identifier plain stem_ne
  have all : (rest ++ other.toList).all Lexeme.isWordPart = true := by
    rw [List.all_append, parts, otherPlain.parts]
    rfl
  rw [isIdentifier_iff, String.toList_append, stem_eq, List.cons_append]
  obtain start | rfl := starts
  · exact .plain start all
  · exact .dollar (by simp [otherPlain.filled]) all

/-- The stem itself is an identifier unless it is a lone dollar sign. -/
theorem isIdentifier_stem_iff : IsIdentifier stem ↔ stem ≠ "$" := by
  refine ⟨fun whole => whole.ne (by decide), fun other => ?_⟩
  obtain ⟨first, rest, stem_eq, parts, starts⟩ := exists_stem_cons identifier plain stem_ne
  rw [isIdentifier_iff, stem_eq]
  obtain start | rfl := starts
  · exact .plain start parts
  · refine .dollar (fun alone => other ?_) parts
    rw [← String.toList_inj, stem_eq, alone]
    rfl

end Stems

/-! ## Names that are told apart

All four names of a cached property begin with the same stem, so they differ where their endings do:
the suffix, the endings of the two fields, and the empty one of the accessor. A suffix is never
empty, but nothing keeps it from being one of the other two.
-/

/-- The names of a property: that of its source and those that are made for it. -/
def all (names : Names) : List String :=
  [names.source, names.hashField, names.cacheField, names.accessor]

/-- The endings by which the fields that are made are told from the accessor. -/
def fieldEndings : List String :=
  ["Hash", "Cache"]

variable {configuration : Configuration} {attributeName : String} {declaration : Declaration}
variable {names : Names}

/-- Names are derived with a suffix that is a text, or not at all. -/
theorem exists_suffix_of_derive
    (derived : derive configuration attributeName declaration = .ok names) :
    ∃ suffix, configuration.suffix = .text suffix := by
  unfold derive at derived
  obtain ⟨_, _, derived⟩ := exists_of_bind_eq_ok derived
  obtain ⟨_, _, derived⟩ := exists_of_bind_eq_ok derived
  obtain ⟨_, _, derived⟩ := exists_of_bind_eq_ok derived
  split at derived
  next suffix suffix_eq => exact ⟨suffix, suffix_eq⟩
  next => cases derived

theorem append_eq_self_iff {stem ending : String} : stem ++ ending = stem ↔ ending = "" := by
  rw [← String.toList_inj, String.toList_append, List.append_right_eq_self,
    String.toList_eq_nil_iff]

/-- Names that share their stem are told apart by what follows it. -/
theorem nodup_all_iff {suffix : String} (filled : suffix ≠ "")
    (source_eq : names.source = names.stem ++ suffix) :
    names.all.Nodup ↔ suffix ∉ fieldEndings := by
  have fields : names.hashField ≠ names.cacheField := by
    rw [hashField, cacheField, ne_eq, String.append_right_inj]
    decide
  have hash : names.hashField ≠ names.accessor := append_eq_self_iff.not.mpr (by decide)
  have cache : names.cacheField ≠ names.accessor := append_eq_self_iff.not.mpr (by decide)
  have source : names.source ≠ names.accessor := source_eq ▸ append_eq_self_iff.not.mpr filled
  have hash_iff : names.source = names.hashField ↔ suffix = "Hash" := by
    rw [source_eq, hashField, String.append_right_inj]
  have cache_iff : names.source = names.cacheField ↔ suffix = "Cache" := by
    rw [source_eq, cacheField, String.append_right_inj]
  simp [all, fieldEndings, fields, hash, cache, source, hash_iff, cache_iff]

/-- The names for an accepted declaration are pairwise different unless the suffix is one of the
endings that make the names of the fields. -/
theorem nodup_all_iff_of_derive (set : configuration.suffix.isTruthy = true)
    (derived : derive configuration attributeName declaration = .ok names) :
    names.all.Nodup ↔ ∀ ending ∈ fieldEndings, configuration.suffix ≠ .text ending := by
  obtain ⟨suffix, suffix_eq⟩ := exists_suffix_of_derive derived
  have filled : suffix ≠ "" := by
    rintro rfl
    rw [suffix_eq] at set
    cases set
  rw [nodup_all_iff filled (source_of_derive suffix_eq derived).source_eq, suffix_eq]
  simp only [ne_eq, Json.text.injEq]
  exact ⟨fun other ending member same => other (same ▸ member),
    fun other member => other _ member rfl⟩

/-- The settings with another suffix. -/
def suffixed (suffix : String) : Configuration :=
  { suffix := .text suffix }

/-- Whether a source is accepted under a suffix, with these names. -/
def accepts (suffix source : String) (expected : List String) : Bool :=
  (Declaration.parse source.toList).toOption.any fun declaration =>
    (derive (suffixed suffix) "ImageCache" declaration).toOption.any fun names =>
      names.all == expected

theorem exists_of_accepts {suffix source : String} {expected : List String}
    (found : accepts suffix source expected = true) :
    ∃ declaration names, Declaration.parse source.toList = .ok declaration ∧
      derive (suffixed suffix) "ImageCache" declaration = .ok names ∧ names.all = expected := by
  obtain ⟨declaration, parsed, found⟩ := exists_of_any found
  obtain ⟨names, derived, found⟩ := exists_of_any found
  exact ⟨declaration, names, parsed, derived, eq_of_beq found⟩

set_option maxRecDepth 20000 in
theorem nodup_all_ownSuffix : ∃ declaration names,
    Declaration.parse "@ImageCache var fooHashes: Data?".toList = .ok declaration ∧
      derive (suffixed "Hashes") "ImageCache" declaration = .ok names ∧
      names.all = ["fooHashes", "fooHash", "fooCache", "foo"] ∧ names.all.Nodup := by
  obtain ⟨declaration, names, parsed, derived, all_eq⟩ := exists_of_accepts
    (show accepts "Hashes" "@ImageCache var fooHashes: Data?"
      ["fooHashes", "fooHash", "fooCache", "foo"] = true by decide +kernel)
  exact ⟨declaration, names, parsed, derived, all_eq,
    (nodup_all_iff_of_derive (by decide) derived).mpr (by decide)⟩

set_option maxRecDepth 20000 in
/-- With the suffix of a field, a field that is made has the name of the source. -/
theorem not_nodup_all_hashSuffix : ∃ declaration names,
    Configuration.load .empty "ImageCache" none [("suffix", .text "Hash")] =
        .ok (suffixed "Hash") ∧
      Declaration.parse "@ImageCache var fooHash: Data?".toList = .ok declaration ∧
      derive (suffixed "Hash") "ImageCache" declaration = .ok names ∧
      names.source = names.hashField ∧ ¬ names.all.Nodup := by
  obtain ⟨declaration, names, parsed, derived, all_eq⟩ := exists_of_accepts
    (show accepts "Hash" "@ImageCache var fooHash: Data?"
      ["fooHash", "fooHash", "fooCache", "foo"] = true by decide +kernel)
  obtain ⟨source_eq, hash_eq, -⟩ := List.cons.inj all_eq |>.imp_right List.cons.inj
  refine ⟨declaration, names, rfl, parsed, derived, source_eq.trans hash_eq.symm, ?_⟩
  rw [all_eq]
  decide

end PeerExpansion.CachedProperty.Names
