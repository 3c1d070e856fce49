import PeerExpansion.Proofs.Expansion.Memory
import PeerExpansion.Proofs.Registry.Resolution

/-! # Expanders whose registry changes

An expander looks its registry up again at every use, but keeps the generators that it has made. So
the class of a generator is the one that was registered when the generator was first needed,
whatever happened to the registry since. It is the current class as long as nobody has replaced the
class of the primary name or taken it out.
-/

namespace PeerExpansion

open Expander Work

/-! ## Histories -/

/-- What is asked of an expander or done to the registry that it works with. -/
inductive Request
  | change (change : Registry.Change GeneratorClass)
  | generator (name : String)
  | expand (source : List Char) (sourceName : String)

structure Session where
  registry : Registry.Macros
  expander : Expander

namespace Session

variable (files : FileStore) (configuration : ConfigurationSource)

/-- The session as a request leaves it, also one that ends with an error. -/
def perform (session : Session) : Request → Session
  | .change change => { session with registry := session.registry.perform change }
  | .generator name =>
    { session with
      expander := (session.expander.run (generatorFor session.registry name)).2.1 }
  | .expand source sourceName =>
    { session with
      expander := (session.expander.run (expand session.registry source sourceName)).2.1 }

/-- What becomes of an empty registry and an expander that has made nothing. -/
def after (requests : List Request) : Session :=
  requests.foldl perform ⟨.empty, .ofSource files configuration⟩

variable {files configuration}

theorem after_append (requests others : List Request) :
    after files configuration (requests ++ others) =
      others.foldl perform (after files configuration requests) :=
  List.foldl_append

theorem after_concat (requests : List Request) (request : Request) :
    after files configuration (requests ++ [request]) =
      (after files configuration requests).perform request :=
  after_append requests [request]

theorem sound_after (requests : List Request) :
    (after files configuration requests).registry.Sound := by
  induction requests using List.reverseRecOn with
  | nil => exact Registry.sound_empty
  | append_singleton requests request sound =>
    rw [after_concat]
    cases request with
    | change change => exact sound.perform change
    | generator name => exact sound
    | expand source sourceName => exact sound

end Session

/-! ## Classes -/

/-- A generator that the class has made, apart from what it keeps of its uses. -/
def GeneratorClass.Makes (found : GeneratorClass) (generator : Generator) : Prop :=
  ∃ configuration made, found.create configuration = .ok made ∧ generator.unused = made.unused

theorem GeneratorClass.Makes.of_unused {found : GeneratorClass} {old generator : Generator}
    (makes : found.Makes old) (same : generator.unused = old.unused) : found.Makes generator := by
  obtain ⟨configuration, made, created, alike⟩ := makes
  exact ⟨configuration, made, created, same.trans alike⟩

/-- Whether a request may put another class in the place of the one for a primary name, or take the
name out. -/
def Request.Alters (primary : String) : Request → Prop
  | .change (.register name candidate _ replace) =>
    name = primary ∧ candidate.isSome = true ∧ replace = true
  | .change (.unregister name) => name = primary
  | .generator _ | .expand _ _ => False

namespace Session

variable {session : Session} {primary : String} {found : GeneratorClass}

theorem lookup_classes_perform {request : Request} (unaltered : ¬ request.Alters primary)
    (known : session.registry.classes.lookup primary = some found) :
    (session.perform request).registry.classes.lookup primary = some found := by
  cases request with
  | generator name => exact known
  | expand source sourceName => exact known
  | change change =>
  cases change with
  | unregister name =>
    have unlike : primary ≠ name := fun same => unaltered same.symm
    show (Association.erase session.registry.classes name).lookup primary = some found
    rw [Association.lookup_erase, if_neg unlike, known]
  | register name candidate aliases replace =>
    show (session.registry.register name candidate aliases replace).1.classes.lookup primary = _
    obtain ⟨unchanged, -⟩ | ⟨other, rfl, -, fresh, carried⟩ :=
      session.registry.register_cases name candidate aliases replace
    · rw [unchanged, known]
    · rw [carried, Registry.classes_addAliases, Registry.withClass, Association.lookup_put]
      split
      next same =>
        -- The name has a class already, so the registration was one that replaces.
        subst same
        exact (unaltered ⟨rfl, rfl, fresh (Registry.isPrimary_iff.mpr ⟨found, known⟩)⟩).elim
      next => exact known

theorem lookup_classes_of_unaltered {requests : List Request}
    (unaltered : ∀ request ∈ requests, ¬ request.Alters primary)
    (known : session.registry.classes.lookup primary = some found) :
    (requests.foldl perform session).registry.classes.lookup primary = some found := by
  induction requests generalizing session with
  | nil => exact known
  | cons request others inductionHypothesis =>
    obtain ⟨front, back⟩ := List.forall_mem_cons.mp unaltered
    exact inductionHypothesis back (lookup_classes_perform front known)

end Session

/-! ## Generators -/

/-- What an expander may have become through uses with one registry: it keeps all that it had made,
and what is new was made by the classes in the registry. -/
structure Expander.Grown (registry : Registry.Macros) (before expander : Expander) : Prop where
  kept : ∀ primary, expander.generators.lookup primary = none →
    before.generators.lookup primary = none
  origin : ∀ primary generator, expander.generators.lookup primary = some generator →
    (∃ old, before.generators.lookup primary = some old ∧ generator.unused = old.unused) ∨
      before.generators.lookup primary = none ∧
        (∃ name, registry.resolve name = .ok primary) ∧
        ∃ found, registry.findClass primary = .ok found ∧ found.Makes generator

namespace Expander.Grown

variable {registry : Registry.Macros}

theorem refl (expander : Expander) : Grown registry expander expander where
  kept _ unknown := unknown
  origin _ generator known := .inl ⟨generator, known, rfl⟩

theorem made {before expander : Expander} (grown : Grown registry before expander)
    {name primary : String} {generator : Generator}
    (resolved : registry.resolve name = .ok primary)
    (created : registry.create expander.files primary expander.source = .ok generator) :
    Grown registry before
      { expander with generators := expander.generators ++ [(primary, generator)] } where
  kept other unknown := by
    rw [List.lookup_append, Option.or_eq_none_iff] at unknown
    exact grown.kept other unknown.1
  origin other found known := by
    obtain old | ⟨unknown, rfl, rfl⟩ := known_or_eq_of_lookup_append known
    · exact grown.origin other found old
    · obtain ⟨found, configuration, chosen, made⟩ := Registry.exists_of_create created
      exact .inr ⟨grown.kept _ unknown, ⟨name, resolved⟩, found, chosen, configuration, _, made, rfl⟩

theorem used {before expander : Expander} (grown : Grown registry before expander)
    (attr : Attribute) (declaration : Declaration) :
    Grown registry before (expander.used registry attr declaration) where
  kept primary unknown := by
    have behaves := expander.behaviour_lookup_used registry attr declaration primary
    rw [unknown, Option.map_none, eq_comm, Option.map_eq_none_iff] at behaves
    exact grown.kept primary behaves
  origin primary generator known := by
    obtain ⟨old, oldKnown, used⟩ := exists_lookup_of_used known
    have same : generator.unused = old.unused := by
      obtain rfl | rfl := used
      · rfl
      · exact Generator.unused_after old attr declaration
    obtain ⟨first, firstKnown, alike⟩ | ⟨unknown, named, found, chosen, makes⟩ :=
      grown.origin primary old oldKnown
    · exact .inl ⟨first, firstKnown, same.trans alike⟩
    · exact .inr ⟨unknown, named, found, chosen, makes.of_unused same⟩

theorem sustained (before : Expander) : Sustained registry (Grown registry before) where
  made _ _ _ _ grown resolved _ created := grown.made resolved created
  used _ attr declaration grown := grown.used attr declaration

end Expander.Grown

namespace Session

theorem grown_perform (session : Session) (request : Request) :
    Grown session.registry session.expander (session.perform request).expander := by
  have sustained : Sustained session.registry (Grown session.registry session.expander) :=
    Grown.sustained session.expander
  cases request with
  | change change => exact .refl _
  | generator name =>
    exact sustained.maintains_generatorFor name ⟨session.expander, []⟩ (.refl _)
  | expand source sourceName =>
    exact sustained.maintains_expand source sourceName ⟨session.expander, []⟩ (.refl _)

variable {files : FileStore} {configuration : ConfigurationSource}
variable {requests : List Request} {primary name : String} {generator : Generator}

/-- What an expander has not made by some moment it had not made before that. -/
theorem unknown_before {moment : List Request} (earlier : moment <+: requests)
    (unknown : (after files configuration requests).expander.generators.lookup primary = none) :
    (after files configuration moment).expander.generators.lookup primary = none := by
  obtain ⟨others, rfl⟩ := earlier
  rw [after_append] at unknown
  generalize after files configuration moment = session at unknown ⊢
  induction others generalizing session with
  | nil => exact unknown
  | cons request others inductionHypothesis =>
    exact (session.grown_perform request).kept primary (inductionHypothesis _ unknown)

/-- A generator was made at some moment of a history: the expander had none for the primary name
until then and has had one ever since, and it was made by the class that the name stood for at that
moment. -/
structure Made (files : FileStore) (configuration : ConfigurationSource)
    (requests earlier : List Request) (primary : String) (found : GeneratorClass)
    (generator : Generator) : Prop where
  resolve_eq : (after files configuration earlier).registry.resolve primary = .ok primary
  findClass_eq : (after files configuration earlier).registry.findClass primary = .ok found
  makes : found.Makes generator
  unknown_iff : ∀ moment, moment <+: requests →
    ((after files configuration moment).expander.generators.lookup primary = none ↔
      moment <+: earlier)

theorem Made.concat {earlier : List Request} {found : GeneratorClass} {old : Generator}
    {request : Request} (made : Made files configuration requests earlier primary found old)
    (within : earlier <+: requests) (same : generator.unused = old.unused)
    (known : (after files configuration (requests ++ [request])).expander.generators.lookup primary =
      some generator) :
    Made files configuration (requests ++ [request]) earlier primary found generator where
  resolve_eq := made.resolve_eq
  findClass_eq := made.findClass_eq
  makes := made.makes.of_unused same
  unknown_iff moment before := by
    obtain rfl | before := List.prefix_concat_iff.mp before
    · have beyond : ¬ requests ++ [request] <+: earlier := by
        intro reached
        have short := (reached.trans within).length_le
        rw [List.length_append, List.length_singleton] at short
        omega
      simp [known, beyond]
    · exact made.unknown_iff moment before

/-- Whatever an expander keeps was made at some moment. -/
theorem exists_made
    (known : (after files configuration requests).expander.generators.lookup primary =
      some generator) :
    ∃ earlier others found, requests = earlier ++ others ∧
      Made files configuration requests earlier primary found generator := by
  induction requests using List.reverseRecOn generalizing generator with
  | nil => cases known
  | append_singleton requests request inductionHypothesis =>
    rw [after_concat] at known
    obtain ⟨old, oldKnown, same⟩ | ⟨unknown, ⟨other, resolved⟩, found, chosen, makes⟩ :=
      ((after files configuration requests).grown_perform request).origin primary generator known
    · obtain ⟨earlier, others, found, rfl, made⟩ := inductionHypothesis oldKnown
      refine ⟨earlier, others ++ [request], found, List.append_assoc .., ?_⟩
      exact made.concat (List.prefix_append ..) same (by rw [after_concat, known])
    · -- There was none before this request.
      have made : Made files configuration requests requests primary found generator :=
        { resolve_eq := (sound_after requests).resolve_resolve resolved
          findClass_eq := chosen
          makes := makes
          unknown_iff := fun moment before => iff_of_true (unknown_before before unknown) before }
      exact ⟨requests, [request], found, rfl,
        made.concat (List.prefix_refl _) rfl (by rw [after_concat, known])⟩

theorem lookup_of_generatorFor {registry : Registry.Macros} {first last : Workshop}
    (runs : Runs (generatorFor registry name) first generator last) :
    ∃ primary, registry.resolve name = .ok primary ∧
      last.expander.generators.lookup primary = some generator := by
  obtain ⟨primary, resolved, ⟨known, rfl⟩ | ⟨unknown, -, rfl⟩⟩ := exists_of_generatorFor runs
  · exact ⟨primary, resolved, known⟩
  · exact ⟨primary, resolved, by simp [List.lookup_append, unknown]⟩

/-- The generator that an expander answers with was made for its primary name by the class that this
name stood for when it first was asked for. This is still the class for the name where nobody has
altered what the primary name stands for since then. -/
theorem exists_made_of_generatorFor
    (returned : ((after files configuration requests).expander.run
      (generatorFor (after files configuration requests).registry name)).1 = .ok generator) :
    ∃ primary found earlier others, requests = earlier ++ others ∧
      (after files configuration requests).registry.resolve name = .ok primary ∧
      Made files configuration requests earlier primary found generator ∧
      ((∀ request ∈ others, ¬ request.Alters primary) →
        (after files configuration requests).registry.findClass name = .ok found) := by
  have runs := Work.run_eq_ok.mp (Prod.ext returned rfl)
  obtain ⟨primary, resolved, known⟩ := lookup_of_generatorFor runs
  -- The generator is kept from now on, so it was made now or before.
  have kept : (after files configuration
      (requests ++ [.generator name])).expander.generators.lookup primary = some generator := by
    rw [after_concat]
    exact known
  obtain ⟨earlier, others, found, split_eq, made⟩ := exists_made kept
  obtain rfl | ⟨rest, last, rfl⟩ := List.eq_nil_or_concat others
  · -- It is there after the last request, so it was made before the end.
    rw [List.append_nil] at split_eq
    have unknown := (made.unknown_iff _ (List.prefix_refl _)).mpr (split_eq ▸ List.prefix_refl _)
    rw [kept] at unknown
    cases unknown
  rw [List.concat_eq_append, ← List.append_assoc] at split_eq
  obtain ⟨rfl, -⟩ := List.append_inj' split_eq rfl
  refine ⟨primary, found, earlier, rest, rfl, resolved,
    { made with
      unknown_iff := fun moment before =>
        made.unknown_iff moment (before.trans (List.prefix_append ..)) },
    fun unaltered => Registry.findClass_eq_ok_iff.mpr ⟨primary, resolved, ?_⟩⟩
  -- What the primary name stood for then was its own class, which has not been altered.
  obtain ⟨target, targetResolved, registered⟩ := Registry.findClass_eq_ok_iff.mp made.findClass_eq
  cases made.resolve_eq.symm.trans targetResolved
  rw [after_append]
  exact lookup_classes_of_unaltered unaltered registered

/-- A class that makes generators for cached properties, under names of its own. -/
def otherClass : GeneratorClass where
  name := "OtherGenerator"
  module := "driver"
  create configuration :=
    .ok (CachedProperty.generator "linux" "OtherGenerator" "Other" configuration)

/-- The class is replaced after it was used. -/
def replacedSample : List Request :=
  [.change (.register "ImageCache" (some (CachedProperty.generatorClass "linux")) [] false),
    .generator "ImageCache", .change (.register "ImageCache" (some otherClass) [] true)]

theorem exists_made_replacedSample :
    ∃ generator,
      ((after .empty (.ready {}) replacedSample).expander.run
        (generatorFor (after .empty (.ready {}) replacedSample).registry "ImageCache")).1 =
          .ok generator ∧
      ∃ primary found earlier others, replacedSample = earlier ++ others ∧
        (after .empty (.ready {}) replacedSample).registry.resolve "ImageCache" = .ok primary ∧
        Made .empty (.ready {}) replacedSample earlier primary found generator ∧
        ((∀ request ∈ others, ¬ request.Alters primary) →
          (after .empty (.ready {}) replacedSample).registry.findClass "ImageCache" = .ok found) :=
  ⟨_, rfl, exists_made_of_generatorFor rfl⟩

/-- An expander goes on with the generator of a class that was replaced. -/
theorem replacedSample_outdated :
    ∃ generator found,
      ((after .empty (.ready {}) replacedSample).expander.run
        (generatorFor (after .empty (.ready {}) replacedSample).registry "ImageCache")).1 =
          .ok generator ∧
      (after .empty (.ready {}) replacedSample).registry.findClass "ImageCache" = .ok found ∧
      ¬ found.Makes generator := by
  refine ⟨CachedProperty.generator "linux" "ImageCacheGenerator" "ImageCache" {}, otherClass, rfl,
    rfl, ?_⟩
  rintro ⟨configuration, made, created, same⟩
  cases created
  have className_eq : "ImageCacheGenerator" = "OtherGenerator" := congrArg Generator.className same
  simp at className_eq

end Session

end PeerExpansion
