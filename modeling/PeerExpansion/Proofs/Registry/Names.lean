import PeerExpansion.Generator
import PeerExpansion.Proofs.Registry.Resolution

/-! # Which names a registry lists

A registry lists every primary name with its aliases. As long as no registration that replaces takes
a primary name of another macro for an alias, no name is both, and a name is listed under what it
resolves to and nothing else. A name that is both resolves to itself, but is also listed where it is
an alias.
-/

namespace PeerExpansion.Registry

variable {Class : Type} {registry : Registry Class} {name second primary : String} {found : Class}

/-! ## Listed names -/

/-- The name is listed among those that the primary name answers to. -/
def Lists (registry : Registry Class) (primary name : String) : Prop :=
  ∃ names, (primary, names) ∈ registry.allNames ∧ name ∈ names

theorem mem_primaries : name ∈ registry.primaries ↔ registry.isPrimary name = true := by
  rw [primaries, sorted, List.mem_mergeSort, isPrimary, Association.isSome_lookup_iff]

theorem Sound.mem_aliasesOf (sound : registry.Sound) :
    name ∈ registry.aliasesOf primary ↔ registry.aliases.lookup name = some primary := by
  rw [sound.aliases_distinct.lookup_eq_some_iff, aliasesOf, sorted, List.mem_mergeSort]
  simp

theorem Sound.lists_iff (sound : registry.Sound) : registry.Lists primary name ↔
    registry.isPrimary name = true ∧ primary = name ∨
      registry.aliases.lookup name = some primary := by
  rw [Lists, allNames]
  simp only [List.mem_map, mem_primaries, Prod.mk.injEq]
  constructor
  · rintro ⟨_, ⟨_, known, rfl, rfl⟩, member⟩
    obtain rfl | second := List.mem_cons.mp member
    · exact .inl ⟨known, rfl⟩
    · exact .inr (sound.mem_aliasesOf.mp second)
  · rintro (⟨known, rfl⟩ | second)
    · exact ⟨_, ⟨_, known, rfl, rfl⟩, List.mem_cons_self⟩
    · exact ⟨_, ⟨_, sound.isPrimary_of_alias name primary second, rfl, rfl⟩,
        List.mem_cons_of_mem _ (sound.mem_aliasesOf.mpr second)⟩

/-- A name is listed under what it resolves to, and besides where a primary name is an alias. -/
theorem Sound.lists_iff_resolve (sound : registry.Sound) : registry.Lists primary name ↔
    registry.resolve name = .ok primary ∨
      registry.isPrimary name = true ∧ registry.aliases.lookup name = some primary := by
  rw [sound.lists_iff, resolve_eq_ok_iff]
  cases registry.isPrimary name <;> simp

/-! ## Clear names -/

/-- No name is both a primary name and an alias, so a name is listed under what it resolves to, and
every supported name is listed once. -/
structure NamesClear (registry : Registry Class) : Prop where
  apart : ∀ name, ¬ (registry.isPrimary name = true ∧ registry.isAlias name = true)
  lists_iff : ∀ name primary,
    registry.Lists primary name ↔ registry.resolve name = .ok primary
  existsUnique_lists : ∀ name, registry.isSupported name = true →
    ∃! primary, registry.Lists primary name

theorem Sound.namesClear_iff (sound : registry.Sound) : registry.NamesClear ↔
    ∀ name, registry.isPrimary name = true → registry.isAlias name = false := by
  constructor
  · intro clear name known
    rw [← Bool.not_eq_true]
    exact fun second => clear.apart name ⟨known, second⟩
  · intro apart
    have lists_iff (name primary : String) :
        registry.Lists primary name ↔ registry.resolve name = .ok primary := by
      rw [sound.lists_iff_resolve, or_iff_left]
      rintro ⟨known, second⟩
      exact Bool.false_ne_true ((apart name known).symm.trans (isAlias_iff.mpr ⟨primary, second⟩))
    refine ⟨fun name ⟨known, second⟩ => ?_, lists_iff, fun name supported => ?_⟩
    · exact Bool.false_ne_true ((apart name known).symm.trans second)
    · obtain ⟨primary, resolved⟩ := exists_resolve_iff.mpr supported
      refine ⟨primary, (lists_iff name primary).mpr resolved, fun other listed => ?_⟩
      cases ((lists_iff name other).mp listed).symm.trans resolved
      rfl

/-! ## Changes of the names -/

/-- A registration that is carried out and replaces, and takes a primary name for an alias. -/
def Overtakes (registry : Registry Class) : Change Class → Prop
  | .register name candidate aliases replace =>
    candidate.isSome = true ∧ replace = true ∧ registry.isAlias name = false ∧
      ∃ second ∈ aliases, second ≠ name ∧ registry.isPrimary second = true
  | .unregister _ => False

theorem isPrimary_addAliases (replace : Bool) (aliases : List String) :
    (registry.addAliases name replace aliases).1.isPrimary second = registry.isPrimary second := by
  rw [isPrimary, classes_addAliases, isPrimary]

/-- Where aliases may replace, all of them are added. -/
theorem isAlias_addAliases_true (aliases : List String) :
    (registry.addAliases name true aliases).1.isAlias second = true ↔
      registry.isAlias second = true ∨ second ∈ aliases ∧ second ≠ name := by
  induction aliases generalizing registry with
  | nil => simp [addAliases]
  | cons other others inductionHypothesis =>
    rw [addAliases]
    split
    next same =>
      rw [inductionHypothesis]
      subst same
      grind
    next unlike =>
      rw [if_pos rfl, inductionHypothesis, isAlias_putAlias]
      grind

/-- An alias that must not replace is refused when it is a primary name. -/
theorem isAlias_addAliases_false (aliases : List String) (known : registry.isPrimary second = true) :
    (registry.addAliases name false aliases).1.isAlias second = registry.isAlias second := by
  have whole : (registry.addAliases name false aliases).1.isPrimary second = true ∧
      (registry.addAliases name false aliases).1.isAlias second = registry.isAlias second := by
    refine @addAliases_induction _ (fun other => other.isPrimary second = true ∧
      other.isAlias second = registry.isAlias second) _ _ _ ⟨known, rfl⟩ ?_ aliases
    rintro other added ⟨known, kept⟩ (⟨⟨⟩⟩ | unopposed)
    have unlike : second ≠ added := by
      rintro rfl
      rw [conflict?, if_pos known] at unopposed
      cases unopposed
    refine ⟨known, ?_⟩
    rw [← kept, Bool.eq_iff_iff, isAlias_putAlias, or_iff_right unlike]
  exact whole.2

theorem isAlias_of_unregister (left : (registry.unregister primary).isAlias name = true) :
    registry.isAlias name = true := by
  rw [isAlias, Association.isSome_lookup_iff] at left ⊢
  exact (List.filter_sublist.map Prod.fst).subset left

theorem isPrimary_of_unregister (left : (registry.unregister primary).isPrimary name = true) :
    registry.isPrimary name = true := by
  rw [isPrimary, Association.isSome_lookup_iff] at left ⊢
  exact (List.filter_sublist.map Prod.fst).subset left

/-- New aliases keep the names apart unless they may replace and one of them is a primary name. -/
theorem apart_addAliases_iff
    (apart : ∀ second, registry.isPrimary second = true → registry.isAlias second = false)
    (replace : Bool) (aliases : List String) :
    (∀ second, registry.isPrimary second = true →
        (registry.addAliases name replace aliases).1.isAlias second = false) ↔
      ¬ (replace = true ∧
        ∃ second ∈ aliases, second ≠ name ∧ registry.isPrimary second = true) := by
  cases replace with
  | false =>
    refine iff_of_true (fun second known => ?_) fun taken => Bool.false_ne_true taken.1
    rw [isAlias_addAliases_false aliases known]
    exact apart second known
  | true =>
    simp only [← Bool.not_eq_true, isAlias_addAliases_true]
    constructor
    · rintro spared ⟨-, second, member, unlike, known⟩
      exact spared second known (.inr ⟨member, unlike⟩)
    · rintro spared second known (taken | ⟨member, unlike⟩)
      · exact Bool.false_ne_true ((apart second known).symm.trans taken)
      · exact spared ⟨trivial, second, member, unlike, known⟩

/-- Names that are clear stay so unless a change takes a primary name for an alias. -/
theorem namesClear_perform_iff (sound : registry.Sound) (clear : registry.NamesClear)
    (change : Change Class) :
    (registry.perform change).NamesClear ↔ ¬ registry.Overtakes change := by
  have apart := sound.namesClear_iff.mp clear
  rw [(sound.perform change).namesClear_iff]
  cases change with
  | unregister other =>
    refine iff_of_true (fun name known => ?_) id
    rw [← Bool.not_eq_true]
    intro second
    have old := apart name (isPrimary_of_unregister known)
    exact Bool.false_ne_true (old.symm.trans (isAlias_of_unregister second))
  | register name candidate aliases replace =>
    obtain ⟨unchanged, idle⟩ | ⟨found, rfl, free, replaces, carried⟩ :=
      registry.register_cases name candidate aliases replace
    · rw [perform, unchanged]
      refine iff_of_true apart ?_
      rintro ⟨offered, replaced, free, -⟩
      obtain rfl | taken | ⟨-, kept⟩ := idle
      · cases offered
      · exact Bool.false_ne_true (free.symm.trans taken)
      · exact Bool.false_ne_true (kept.symm.trans replaced)
    · -- The class alone makes no name unclear, for its name is no alias.
      have apartWithClass (second : String)
          (known : (registry.withClass name found).isPrimary second = true) :
          (registry.withClass name found).isAlias second = false := by
        obtain rfl | known := isPrimary_withClass.mp known
        · exact free
        · exact apart second known
      rw [perform, carried]
      simp only [isPrimary_addAliases]
      rw [apart_addAliases_iff apartWithClass, not_iff_not]
      constructor
      · rintro ⟨replaced, second, member, unlike, known⟩
        exact ⟨rfl, replaced, free, second, member, unlike,
          (isPrimary_withClass.mp known).resolve_left unlike⟩
      · rintro ⟨-, replaced, -, second, member, unlike, known⟩
        exact ⟨replaced, second, member, unlike, isPrimary_withClass.mpr (.inr known)⟩

/-- What a registry with this history lists, and when all its names have been clear. -/
structure NamesLaw (changes : List (Change Class)) : Prop where
  lists_iff : ∀ name primary, (after changes).Lists primary name ↔
    (after changes).resolve name = .ok primary ∨
      (after changes).isPrimary name = true ∧ (after changes).aliases.lookup name = some primary
  clear_iff : (∀ earlier, earlier <+: changes → (after earlier).NamesClear) ↔
    ∀ earlier change, earlier ++ [change] <+: changes → ¬ (after earlier).Overtakes change

theorem namesLaw_after (changes : List (Change Class)) : NamesLaw changes := by
  refine ⟨fun name primary => (sound_after changes).lists_iff_resolve, ?_⟩
  constructor
  · intro clear earlier change within
    have before := clear earlier ((List.prefix_append _ _).trans within)
    rw [← namesClear_perform_iff (sound_after earlier) before, ← after_concat]
    exact clear _ within
  · intro spared earlier within
    induction earlier using List.reverseRecOn with
    | nil => exact sound_empty.namesClear_iff.mpr nofun
    | append_singleton earlier change inductionHypothesis =>
      have before := inductionHypothesis ((List.prefix_append _ _).trans within)
      rw [after_concat, namesClear_perform_iff (sound_after earlier) before]
      exact spared earlier change within

/-- A macro is registered, and then another one that is to replace it and has its name as alias. -/
def overtakingSample : List (Change GeneratorClass) :=
  [.register "Picture" (some (CachedProperty.generatorClass "linux")) [] false,
    .register "ImageCache" (some (CachedProperty.generatorClass "linux")) ["Picture"] true]

/-- The name that was overtaken resolves to itself, and is listed under both macros. -/
theorem overtakingSample_unclear :
    (after overtakingSample).isPrimary "Picture" = true ∧
      (after overtakingSample).isAlias "Picture" = true ∧
      (after overtakingSample).resolve "Picture" = .ok "Picture" ∧
      (after overtakingSample).Lists "Picture" "Picture" ∧
      (after overtakingSample).Lists "ImageCache" "Picture" ∧
      ¬ (after overtakingSample).NamesClear := by
  have known : (after overtakingSample).isPrimary "Picture" = true := by decide
  have second : (after overtakingSample).aliases.lookup "Picture" = some "ImageCache" := by decide
  have taken := isAlias_iff.mpr ⟨_, second⟩
  have sound := sound_after overtakingSample
  exact ⟨known, taken, resolve_eq_ok_iff.mpr (.inl ⟨known, rfl⟩),
    sound.lists_iff.mpr (.inl ⟨known, rfl⟩), sound.lists_iff.mpr (.inr second),
    fun clear => clear.apart "Picture" ⟨known, taken⟩⟩

end PeerExpansion.Registry
