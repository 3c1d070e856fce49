import PeerExpansion.Generator
import PeerExpansion.Proofs.Registry.Resolution

/-! # Registrations that fail

A registration that is refused for its class or its name leaves the registry as it was. One that is
refused for an alias has put the class in by then, and the aliases in front of that one: it leaves
what would have come of a registration with those aliases alone.
-/

namespace PeerExpansion

/-- Whether a registration got as far as its aliases. -/
def RegistryError.concernsAlias : RegistryError → Bool
  | aliasIsPrimary _ | aliasTaken .. => true
  | _ => false

namespace Registry

variable {Class : Type} {registry left : Registry Class} {name second : String}
  {candidate : Option Class} {aliases : List String} {replace : Bool} {error : RegistryError}

theorem concernsAlias_of_conflict (refused : registry.conflict? name second = some error) :
    error.concernsAlias = true := by
  rw [conflict?] at refused
  split at refused
  · cases refused
    rfl
  split at refused
  · split at refused
    · cases refused
    · cases refused
      rfl
  · cases refused

/-- Adding aliases stops at the first that is refused, with those in front of it added. None is
refused that may replace. -/
theorem exists_of_addAliases_error
    (failed : registry.addAliases name replace aliases = (left, .error error)) :
    replace = false ∧ ∃ before second behind, aliases = before ++ second :: behind ∧
      registry.addAliases name replace before = (left, .ok ()) ∧
        left.conflict? name second = some error := by
  induction aliases generalizing registry with
  | nil => cases failed
  | cons first others inductionHypothesis =>
    rw [addAliases] at failed
    split at failed
    next same =>
      obtain ⟨kept, before, second, behind, rfl, added, refused⟩ := inductionHypothesis failed
      exact ⟨kept, first :: before, second, behind, rfl, by rw [addAliases, if_pos same, added],
        refused⟩
    next other =>
    split at failed
    next replaces =>
      obtain ⟨kept, -⟩ := inductionHypothesis failed
      exact absurd replaces (Bool.eq_false_iff.mp kept)
    next keeps =>
    split at failed
    next opposed =>
      cases failed
      exact ⟨Bool.not_eq_true _ ▸ keeps, [], first, others, rfl, rfl, opposed⟩
    next unopposed =>
      obtain ⟨kept, before, second, behind, rfl, added, refused⟩ := inductionHypothesis failed
      refine ⟨kept, first :: before, second, behind, rfl, ?_, refused⟩
      rw [addAliases, if_neg other, if_neg keeps, unopposed, added]

/-- The registries cannot be told apart by the names they support, by what these resolve to, by the
classes that are found for them, or by the aliases they list. -/
structure Agrees (registry other : Registry Class) : Prop where
  isSupported_eq : ∀ name, other.isSupported name = registry.isSupported name
  resolve_eq : ∀ name, other.resolve name = registry.resolve name
  findClass_eq : ∀ name, other.findClass name = registry.findClass name
  aliasesOf_eq : ∀ primary, other.aliasesOf primary = registry.aliasesOf primary

theorem Agrees.refl (registry : Registry Class) : registry.Agrees registry :=
  ⟨fun _ => rfl, fun _ => rfl, fun _ => rfl, fun _ => rfl⟩

/-- What a registration that failed has left of the registry. Where it was refused for an alias, the
name is supported now and was not before. -/
structure FailureLaw (registry : Registry Class) (name : String) (candidate : Option Class)
    (aliases : List String) (replace : Bool) (left : Registry Class) (error : RegistryError) :
    Prop where
  unchanged : error.concernsAlias = false → left = registry
  stopped : error.concernsAlias = true →
    registry.isSupported name = false ∧ left.isSupported name = true ∧
      ∃ before second behind, aliases = before ++ second :: behind ∧
        registry.register name candidate before replace = (left, .ok ()) ∧
          left.conflict? name second = some error
  agrees_iff : registry.Agrees left ↔ error.concernsAlias = false

theorem FailureLaw.of_parts (unchanged : error.concernsAlias = false → left = registry)
    (stopped : error.concernsAlias = true →
      registry.isSupported name = false ∧ left.isSupported name = true ∧
        ∃ before second behind, aliases = before ++ second :: behind ∧
          registry.register name candidate before replace = (left, .ok ()) ∧
            left.conflict? name second = some error) :
    FailureLaw registry name candidate aliases replace left error := by
  refine ⟨unchanged, stopped, fun agrees => ?_, fun early => ?_⟩
  · rw [← Bool.not_eq_true]
    intro late
    obtain ⟨unsupported, supported, -⟩ := stopped late
    rw [agrees.isSupported_eq, unsupported] at supported
    cases supported
  · rw [unchanged early]
    exact .refl registry

/-- However a registration fails, and in whatever state the registry was. -/
theorem failureLaw_of_register
    (failed : registry.register name candidate aliases replace = (left, .error error)) :
    FailureLaw registry name candidate aliases replace left error := by
  cases candidate with
  | none =>
    cases failed
    exact .of_parts (fun _ => rfl) fun late => absurd late Bool.false_ne_true
  | some found =>
    rw [register] at failed
    split at failed
    next =>
      cases failed
      exact .of_parts (fun _ => rfl) fun late => absurd late Bool.false_ne_true
    next free =>
    split at failed
    next => cases failed
    next fresh =>
      obtain ⟨rfl, before, second, behind, rfl, added, refused⟩ :=
        exists_of_addAliases_error failed
      rw [Bool.not_eq_true] at free
      -- Without leave to replace, a name that has a class would have been skipped.
      have unknown : registry.isPrimary name = false := by simpa using fresh
      have known : left.isPrimary name = true := by
        rw [isPrimary, ← congrArg (Registry.classes ·.1) added, classes_addAliases]
        exact isPrimary_withClass.mpr (.inl rfl)
      have late := concernsAlias_of_conflict refused
      refine .of_parts (fun early => absurd late (Bool.eq_false_iff.mp early)) fun _ => ?_
      have unsupported : registry.isSupported name = false := by
        rw [isSupported, unknown, free, Bool.or_false]
      have supported : left.isSupported name = true := by
        rw [isSupported, known, Bool.true_or]
      refine ⟨unsupported, supported, before, second, behind, rfl, ?_, refused⟩
      rw [register, free, if_neg Bool.false_ne_true, if_neg fresh, added]

/-- The registry of one macro. -/
def pictureSample : Registry GeneratorClass :=
  after [.register "Picture" (some (CachedProperty.generatorClass "linux")) [] false]

/-- A registration for which the second of two aliases is refused. -/
def halfwaySample : Registry GeneratorClass × Except RegistryError Unit :=
  pictureSample.register "ImageCache" (some (CachedProperty.generatorClass "linux"))
    ["Photo", "Picture"] false

theorem failureLaw_halfwaySample : halfwaySample.2 = .error (.aliasIsPrimary "Picture") ∧
    FailureLaw pictureSample "ImageCache" (some (CachedProperty.generatorClass "linux"))
      ["Photo", "Picture"] false halfwaySample.1 (.aliasIsPrimary "Picture") :=
  ⟨rfl, failureLaw_of_register rfl⟩

/-- The name and the first alias are supported although their registration failed. -/
theorem halfwaySample_changes : halfwaySample.2 = .error (.aliasIsPrimary "Picture") ∧
    pictureSample.isSupported "ImageCache" = false ∧
    halfwaySample.1.isSupported "ImageCache" = true ∧
    pictureSample.isSupported "Photo" = false ∧
    halfwaySample.1.isSupported "Photo" = true ∧
    ¬ pictureSample.Agrees halfwaySample.1 := by
  have before : pictureSample.isSupported "ImageCache" = false := by decide
  have behind : halfwaySample.1.isSupported "ImageCache" = true := by decide
  refine ⟨rfl, before, behind, by decide, by decide, fun agrees => ?_⟩
  rw [agrees.isSupported_eq, before] at behind
  cases behind

end Registry

end PeerExpansion
