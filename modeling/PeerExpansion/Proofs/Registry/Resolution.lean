import PeerExpansion.Proofs.Outcome
import PeerExpansion.Proofs.Registry.Change
import PeerExpansion.Registry.Create

/-! # What names resolve to

A supported name leads to a primary name, and this to the class that was registered for it. In a
sound registry no look-up on this way can fail. The generators of a registry are made by the classes
that are found this way.
-/

namespace PeerExpansion.Registry

variable {Class : Type} {registry : Registry Class} {name primary : String} {found : Class}

/-! ## Classes -/

/-- A class that was to be registered for a name at some time. -/
def Offered (changes : List (Change Class)) (name : String) (found : Class) : Prop :=
  ∃ aliases replace, Change.register name (some found) aliases replace ∈ changes

theorem Offered.concat {changes : List (Change Class)} (offered : Offered changes name found)
    (change : Change Class) : Offered (changes ++ [change]) name found := by
  obtain ⟨aliases, replace, member⟩ := offered
  exact ⟨aliases, replace, List.mem_append_left _ member⟩

/-- A class for a name was there before or comes with the change. -/
theorem lookup_classes_perform {change : Change Class}
    (known : (registry.perform change).classes.lookup name = some found) :
    registry.classes.lookup name = some found ∨ Offered [change] name found := by
  cases change with
  | register other candidate aliases replace =>
    obtain ⟨unchanged, -⟩ | ⟨fresh, rfl, -, -, carried⟩ :=
      registry.register_cases other candidate aliases replace
    · rw [perform, unchanged] at known
      exact .inl known
    · rw [perform, carried, classes_addAliases, withClass, Association.lookup_put] at known
      split at known
      next same =>
        subst same
        cases known
        exact .inr ⟨aliases, replace, List.mem_singleton_self _⟩
      next => exact .inl known
  | unregister other =>
    rw [perform, unregister, Association.lookup_erase] at known
    split at known
    · cases known
    · exact .inl known

theorem offered_of_lookup {changes : List (Change Class)}
    (known : (after changes).classes.lookup name = some found) : Offered changes name found := by
  refine after_induction (fun changes registry =>
    ∀ found, registry.classes.lookup name = some found → Offered changes name found)
    nofun (fun changes change offered found known => ?_) changes found known
  obtain old | ⟨aliases, replace, member⟩ := lookup_classes_perform known
  · exact (offered found old).concat change
  · exact ⟨aliases, replace, List.mem_append_right _ member⟩

/-! ## Names -/

theorem resolve_eq_ok_iff : registry.resolve name = .ok primary ↔
    registry.isPrimary name = true ∧ primary = name ∨
      registry.isPrimary name = false ∧ registry.aliases.lookup name = some primary := by
  rw [resolve]
  split
  next known => simp [known, eq_comm]
  next unknown =>
    rw [Bool.not_eq_true] at unknown
    cases registry.aliases.lookup name <;> simp [unknown]

theorem eq_unknown_of_resolve {error : RegistryError}
    (refused : registry.resolve name = .error error) :
    error = .unknown name registry.primaries := by
  rw [resolve] at refused
  split at refused
  · cases refused
  · split at refused
    · cases refused
    · cases refused
      rfl

theorem exists_resolve_iff :
    (∃ primary, registry.resolve name = .ok primary) ↔ registry.isSupported name = true := by
  simp only [resolve_eq_ok_iff, isSupported, Bool.or_eq_true, isAlias_iff]
  cases registry.isPrimary name <;> simp

theorem findClass_eq_ok_iff : registry.findClass name = .ok found ↔
    ∃ primary, registry.resolve name = .ok primary ∧
      registry.classes.lookup primary = some found := by
  rw [findClass]
  constructor
  · intro chosen
    obtain ⟨primary, resolved, chosen⟩ := exists_of_bind_eq_ok chosen
    split at chosen
    next known =>
      cases chosen
      exact ⟨primary, resolved, known⟩
    next => cases chosen
  · rintro ⟨primary, resolved, known⟩
    rw [resolved]
    simp only [bind, Except.bind, known]
    rfl

theorem exists_configuration_of_create {registry : Macros} {files : FileStore}
    {source : ConfigurationSource} {generator : Generator}
    (created : registry.create files name source = .ok generator) :
    ∃ found primary configuration, registry.findClass name = .ok found ∧
      registry.resolve name = .ok primary ∧ source.resolve files primary = .ok configuration ∧
      found.create configuration = .ok generator := by
  rw [create] at created
  obtain ⟨found, chosen, created⟩ := exists_of_bind_eq_ok created
  obtain ⟨primary, resolved, created⟩ := exists_of_bind_eq_ok created
  split at created
  next => cases created
  next =>
  split at created
  next => cases created
  next configuration configured =>
  split at created
  next => cases created
  next made =>
    cases created
    exact ⟨found, primary, configuration, chosen, resolved, configured, made⟩

theorem exists_of_create {registry : Macros} {files : FileStore} {source : ConfigurationSource}
    {generator : Generator} (created : registry.create files name source = .ok generator) :
    ∃ found configuration, registry.findClass name = .ok found ∧
      found.create configuration = .ok generator := by
  obtain ⟨found, _, configuration, chosen, -, -, made⟩ := exists_configuration_of_create created
  exact ⟨found, configuration, chosen, made⟩

/-! ## Sound registries -/

namespace Sound

variable (sound : registry.Sound)
include sound

theorem isPrimary_of_resolve (resolved : registry.resolve name = .ok primary) :
    registry.isPrimary primary = true := by
  obtain ⟨known, rfl⟩ | ⟨-, known⟩ := resolve_eq_ok_iff.mp resolved
  · exact known
  · exact sound.isPrimary_of_alias name primary known

theorem exists_findClass (resolved : registry.resolve name = .ok primary) :
    ∃ found, registry.findClass name = .ok found ∧
      registry.classes.lookup primary = some found := by
  obtain ⟨found, known⟩ := isPrimary_iff.mp (sound.isPrimary_of_resolve resolved)
  exact ⟨found, findClass_eq_ok_iff.mpr ⟨primary, resolved, known⟩, known⟩

theorem resolve_resolve (resolved : registry.resolve name = .ok primary) :
    registry.resolve primary = .ok primary :=
  resolve_eq_ok_iff.mpr (.inl ⟨sound.isPrimary_of_resolve resolved, rfl⟩)

end Sound

/-- What can be relied on in a registry with this history: that a name is supported, that it has a
primary name and that there is a class for it are the same. -/
structure Reliable (changes : List (Change Class)) (registry : Registry Class) : Prop where
  resolve_iff : ∀ name, registry.isSupported name = true ↔
    ∃ primary, registry.resolve name = .ok primary
  findClass_iff : ∀ name, registry.isSupported name = true ↔
    ∃ found, registry.findClass name = .ok found
  findClass_ne : ∀ name primary, registry.findClass name ≠ .error (.noClass primary)
  offered : ∀ name primary found, registry.resolve name = .ok primary →
    registry.findClass name = .ok found → Offered changes primary found
  resolve_resolve : ∀ name primary, registry.resolve name = .ok primary →
    registry.isPrimary primary = true ∧ registry.resolve primary = .ok primary
  isPrimary_of_mem : ∀ entry ∈ registry.aliases, registry.isPrimary entry.2 = true

theorem reliable_after (changes : List (Change Class)) : Reliable changes (after changes) := by
  have sound := sound_after changes
  refine ⟨fun name => exists_resolve_iff.symm, fun name => ?_, fun name primary absent => ?_,
    fun name primary found resolved chosen => ?_, fun name primary resolved => ?_, ?_⟩
  · rw [← exists_resolve_iff]
    constructor
    · rintro ⟨primary, resolved⟩
      obtain ⟨found, chosen, -⟩ := sound.exists_findClass resolved
      exact ⟨found, chosen⟩
    · rintro ⟨found, chosen⟩
      obtain ⟨primary, resolved, -⟩ := findClass_eq_ok_iff.mp chosen
      exact ⟨primary, resolved⟩
  · cases resolved : (after changes).resolve name with
    | error error =>
      rw [findClass, resolved, eq_unknown_of_resolve resolved] at absent
      cases absent
    | ok target =>
      obtain ⟨found, chosen, -⟩ := sound.exists_findClass resolved
      cases absent.symm.trans chosen
  · obtain ⟨other, otherChosen, known⟩ := sound.exists_findClass resolved
    cases otherChosen.symm.trans chosen
    exact offered_of_lookup known
  · exact ⟨sound.isPrimary_of_resolve resolved, sound.resolve_resolve resolved⟩
  · rintro ⟨second, primary⟩ member
    exact sound.isPrimary_of_alias second primary
      (sound.aliases_distinct.lookup_eq_some_iff.mpr member)

end PeerExpansion.Registry
