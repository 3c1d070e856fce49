import Mathlib.Data.List.Induction
import PeerExpansion.Generator
import PeerExpansion.Proofs.Association
import PeerExpansion.Registry

/-! # Registries in the course of time

A registry starts empty and is changed by registering and unregistering, whether a registration is
carried out, skipped, refused or given up halfway. Every registry that comes about this way is
sound: no name is listed twice, and all aliases stand for primary names.
-/

namespace PeerExpansion.Registry

variable {Class : Type} {registry : Registry Class} {name second primary : String} {found : Class}

/-! ## Histories -/

inductive Change (Class : Type)
  | register (name : String) (candidate : Option Class) (aliases : List String) (replace : Bool)
  | unregister (name : String)

/-- The registry as a change leaves it, also one that ends with an error. -/
def perform (registry : Registry Class) : Change Class → Registry Class
  | .register name candidate aliases replace =>
    (registry.register name candidate aliases replace).1
  | .unregister name => registry.unregister name

/-- What becomes of the empty registry. -/
def after (changes : List (Change Class)) : Registry Class :=
  changes.foldl perform empty

@[simp]
theorem after_nil : after ([] : List (Change Class)) = empty := rfl

@[simp]
theorem after_concat (changes : List (Change Class)) (change : Change Class) :
    after (changes ++ [change]) = (after changes).perform change := by
  simp [after]

/-- What holds of the empty registry and is kept by every change holds of every registry. -/
theorem after_induction (holds : List (Change Class) → Registry Class → Prop)
    (start : holds [] empty)
    (step : ∀ changes change, holds changes (after changes) →
      holds (changes ++ [change]) ((after changes).perform change))
    (changes : List (Change Class)) : holds changes (after changes) := by
  induction changes using List.reverseRecOn with
  | nil => exact start
  | append_singleton changes change inductionHypothesis =>
    rw [after_concat]
    exact step changes change inductionHypothesis

/-! ## Single changes -/

/-- The registry with a class for a primary name. -/
def withClass (registry : Registry Class) (name : String) (found : Class) : Registry Class :=
  { registry with classes := Association.put registry.classes name found }

theorem isPrimary_iff :
    registry.isPrimary name = true ↔ ∃ found, registry.classes.lookup name = some found :=
  Option.isSome_iff_exists

theorem isAlias_iff :
    registry.isAlias name = true ↔ ∃ primary, registry.aliases.lookup name = some primary :=
  Option.isSome_iff_exists

@[simp]
theorem isPrimary_withClass : (registry.withClass name found).isPrimary second = true ↔
    second = name ∨ registry.isPrimary second = true := by
  rw [isPrimary, isPrimary, withClass, Association.lookup_put]
  split <;> simp [*]

@[simp]
theorem isAlias_putAlias {other : String} : (registry.putAlias name second).isAlias other = true ↔
    other = second ∨ registry.isAlias other = true := by
  rw [isAlias, isAlias, putAlias, Association.lookup_put]
  split <;> simp [*]

/-- A registration that is carried out puts the class in first, and then the aliases. One that is
refused or skipped changes nothing. -/
theorem register_cases (registry : Registry Class) (name : String) (candidate : Option Class)
    (aliases : List String) (replace : Bool) :
    (registry.register name candidate aliases replace).1 = registry ∧
        (candidate = none ∨ registry.isAlias name = true ∨
          registry.isPrimary name = true ∧ replace = false) ∨
      ∃ found, candidate = some found ∧ registry.isAlias name = false ∧
        (registry.isPrimary name = true → replace = true) ∧
        registry.register name candidate aliases replace =
          (registry.withClass name found).addAliases name replace aliases := by
  cases candidate with
  | none => exact .inl ⟨rfl, .inl rfl⟩
  | some found =>
    rw [register]
    split
    next taken => exact .inl ⟨rfl, .inr (.inl taken)⟩
    next free =>
    rw [Bool.not_eq_true] at free
    split
    next known =>
      rw [Bool.and_eq_true, Bool.not_eq_true'] at known
      exact .inl ⟨rfl, .inr (.inr known)⟩
    next fresh =>
      rw [Bool.and_eq_true, Bool.not_eq_true', not_and, Bool.not_eq_false] at fresh
      exact .inr ⟨found, rfl, free, fresh, rfl⟩

/-- What holds of a registry, and with every alias that may be added, holds after a list of aliases,
however many of them are taken. -/
theorem addAliases_induction {Holds : Registry Class → Prop} {registry : Registry Class}
    {name : String} {replace : Bool} (held : Holds registry)
    (put : ∀ registry second, Holds registry →
      replace = true ∨ registry.conflict? name second = none →
        Holds (registry.putAlias name second))
    (aliases : List String) : Holds (registry.addAliases name replace aliases).1 := by
  induction aliases generalizing registry with
  | nil => exact held
  | cons second others inductionHypothesis =>
    rw [addAliases]
    split
    next => exact inductionHypothesis held
    next =>
    split
    next replaces => exact inductionHypothesis (put registry second held (.inl replaces))
    next =>
    split
    next => exact held
    next unopposed => exact inductionHypothesis (put registry second held (.inr unopposed))

@[simp]
theorem classes_addAliases (registry : Registry Class) (name : String) (replace : Bool)
    (aliases : List String) :
    (registry.addAliases name replace aliases).1.classes = registry.classes :=
  @addAliases_induction _ (·.classes = registry.classes) _ _ _ rfl (fun _ _ held _ => held) aliases

/-! ## Soundness -/

/-- No name is listed twice, and there are no aliases of names that have no class. -/
structure Sound (registry : Registry Class) : Prop where
  classes_distinct : Association.Distinct registry.classes
  aliases_distinct : Association.Distinct registry.aliases
  isPrimary_of_alias : ∀ second primary, registry.aliases.lookup second = some primary →
    registry.isPrimary primary = true

theorem sound_empty : Sound (empty : Registry Class) :=
  ⟨.nil, .nil, nofun⟩

namespace Sound

theorem withClass (sound : registry.Sound) (name : String) (found : Class) :
    (registry.withClass name found).Sound where
  classes_distinct := sound.classes_distinct.put name found
  aliases_distinct := sound.aliases_distinct
  isPrimary_of_alias second primary known :=
    isPrimary_withClass.mpr (.inr (sound.isPrimary_of_alias second primary known))

theorem putAlias (sound : registry.Sound) (known : registry.isPrimary name = true)
    (second : String) : (registry.putAlias name second).Sound where
  classes_distinct := sound.classes_distinct
  aliases_distinct := sound.aliases_distinct.put second name
  isPrimary_of_alias other primary found := by
    rw [Registry.putAlias, Association.lookup_put] at found
    split at found
    · cases found
      exact known
    · exact sound.isPrimary_of_alias other primary found

/-- Aliases that are added stand for the name that is being registered, however many are taken. -/
theorem addAliases (sound : registry.Sound) (known : registry.isPrimary name = true)
    (replace : Bool) (aliases : List String) :
    (registry.addAliases name replace aliases).1.Sound := by
  -- The name has its class all the time, since only aliases are added.
  have whole : (registry.addAliases name replace aliases).1.Sound ∧
      (registry.addAliases name replace aliases).1.isPrimary name = true := by
    refine @addAliases_induction _ (fun registry => registry.Sound ∧ registry.isPrimary name = true)
      _ _ _ ⟨sound, known⟩ ?_ aliases
    rintro registry second ⟨sound, known⟩ -
    exact ⟨sound.putAlias known second, known⟩
  exact whole.1

theorem register (sound : registry.Sound) (name : String) (candidate : Option Class)
    (aliases : List String) (replace : Bool) :
    (registry.register name candidate aliases replace).1.Sound := by
  obtain ⟨unchanged, -⟩ | ⟨found, -, -, -, carried⟩ :=
    registry.register_cases name candidate aliases replace
  · rw [unchanged]
    exact sound
  · rw [carried]
    exact (sound.withClass name found).addAliases (isPrimary_withClass.mpr (.inl rfl)) _ _

/-- A name goes together with the aliases that stand for it. -/
theorem unregister (sound : registry.Sound) (name : String) :
    (registry.unregister name).Sound where
  classes_distinct := sound.classes_distinct.erase name
  aliases_distinct := sound.aliases_distinct.filter _
  isPrimary_of_alias second primary known := by
    obtain ⟨member, kept⟩ := List.mem_filter.mp (Association.mem_of_lookup known)
    have unlike : primary ≠ name := bne_iff_ne.mp kept
    have old := sound.isPrimary_of_alias second primary
      (sound.aliases_distinct.lookup_eq_some_iff.mpr member)
    rw [isPrimary, Registry.unregister, Association.lookup_erase, if_neg unlike]
    exact old

theorem perform (sound : registry.Sound) (change : Change Class) :
    (registry.perform change).Sound := by
  cases change with
  | register name candidate aliases replace => exact sound.register name candidate aliases replace
  | unregister name => exact sound.unregister name

end Sound

theorem sound_after (changes : List (Change Class)) : (after changes).Sound :=
  after_induction (fun _ registry => registry.Sound) sound_empty
    (fun _ change sound => sound.perform change) changes

/-! ## Taking a registration back

Unregistering a name takes out all that a registration without leave to replace has put in for it,
wherever that stopped: the class, and the aliases up to the one that was refused. What is left is
what unregistering alone would have left. Where the name was not supported before, that is the
registry as it was, for no alias stands for a name without a class.
-/

theorem unregister_withClass (registry : Registry Class) (name : String) (found : Class) :
    (registry.withClass name found).unregister name = registry.unregister name := by
  simp only [unregister, withClass, Association.erase_put]

/-- An alias that nothing speaks against was free or stood for the name already. -/
theorem eq_of_lookup_aliases (unopposed : registry.conflict? name second = none) {primary : String}
    (known : registry.aliases.lookup second = some primary) : primary = name := by
  rw [conflict?, known] at unopposed
  split at unopposed
  · cases unopposed
  · dsimp only at unopposed
    split at unopposed
    next same => exact same
    next => cases unopposed

theorem unregister_putAlias (unopposed : registry.conflict? name second = none) :
    (registry.putAlias name second).unregister name = registry.unregister name := by
  have kept := Association.filter_value_put fun _ known => eq_of_lookup_aliases unopposed known
  simp only [unregister, putAlias, kept]

/-- However many aliases are added before one is refused, they go with the name. -/
theorem unregister_addAliases (registry : Registry Class) (name : String) (aliases : List String) :
    (registry.addAliases name false aliases).1.unregister name = registry.unregister name := by
  refine @addAliases_induction _ (·.unregister name = registry.unregister name) _ _ _ rfl ?_ aliases
  rintro other second held (⟨⟨⟩⟩ | unopposed)
  exact (unregister_putAlias unopposed).trans held

theorem unregister_register (registry : Registry Class) (name : String) (candidate : Option Class)
    (aliases : List String) :
    (registry.register name candidate aliases false).1.unregister name =
      registry.unregister name := by
  obtain ⟨unchanged, -⟩ | ⟨found, -, -, -, carried⟩ :=
    registry.register_cases name candidate aliases false
  · rw [unchanged]
  · rw [carried, unregister_addAliases, unregister_withClass]

/-- There is nothing to be taken out for a name that is not supported. -/
theorem Sound.unregister_eq_self (sound : registry.Sound)
    (unsupported : registry.isSupported name = false) : registry.unregister name = registry := by
  have unknown : ¬ registry.isPrimary name = true := by
    rw [isSupported, Bool.or_eq_false_iff] at unsupported
    exact Bool.eq_false_iff.mp unsupported.1
  have classes_eq : (registry.unregister name).classes = registry.classes :=
    Association.erase_eq_self (mt Association.isSome_lookup_iff.mpr unknown)
  have aliases_eq : (registry.unregister name).aliases = registry.aliases := by
    refine List.filter_eq_self.mpr fun entry member => bne_iff_ne.mpr ?_
    rintro rfl
    exact unknown (sound.isPrimary_of_alias entry.1 entry.2
      (sound.aliases_distinct.lookup_eq_some_iff.mpr member))
  calc registry.unregister name
    _ = ⟨(registry.unregister name).classes, (registry.unregister name).aliases⟩ := rfl
    _ = registry := by rw [classes_eq, aliases_eq]

/-- A registration for a name that is not supported is taken back by unregistering the name, whether
it was carried out, refused or given up halfway. -/
theorem unregister_register_after (changes : List (Change Class))
    (unsupported : (after changes).isSupported name = false) (candidate : Option Class)
    (aliases : List String) :
    ((after changes).register name candidate aliases false).1.unregister name = after changes := by
  rw [unregister_register]
  exact (sound_after changes).unregister_eq_self unsupported

/-- A macro that was registered in the place of another one, and is called by its name. -/
def successorSample : List (Change GeneratorClass) :=
  [.register "Picture" (some (CachedProperty.generatorClass "linux")) ["Shot"] false,
    .register "Photo" (some (CachedProperty.generatorClass "linux")) ["Picture", "Shot"] true]

/-- The name itself and one alias twice stand in front of the alias that is refused. -/
theorem unregister_register_after_successorSample :
    (after successorSample).isSupported "ImageCache" = false ∧
      ((after successorSample).register "ImageCache" (some (CachedProperty.generatorClass "linux"))
        ["Cached", "ImageCache", "Cached", "Shot"] false).2 = .error (.aliasTaken "Shot" "Photo") ∧
      ((after successorSample).register "ImageCache" (some (CachedProperty.generatorClass "linux"))
        ["Cached", "ImageCache", "Cached", "Shot"] false).1.unregister "ImageCache" =
          after successorSample := by
  have unsupported : (after successorSample).isSupported "ImageCache" = false := by decide
  exact ⟨unsupported, rfl, unregister_register_after successorSample unsupported _ _⟩

end PeerExpansion.Registry
