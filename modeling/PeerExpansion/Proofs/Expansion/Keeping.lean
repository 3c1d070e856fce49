import PeerExpansion.Proofs.Expansion.Found
import PeerExpansion.Proofs.Expansion.Memory
import PeerExpansion.Proofs.Registry.Resolution

/-! # Generators that expand cached properties

A class may be a special case of the one for cached properties and keep the way it expands. Its
generators make peers for variables only. As long as a registry holds no other classes, an expander
has no other generators.
-/

namespace PeerExpansion

open Expander Work

/-! ## Keeping the expansion -/

/-- A generator that expands as the ones for cached properties do, whatever else it changes. -/
def Generator.KeepsExpand (generator : Generator) : Prop :=
  ∃ machine macroName configuration,
    generator.generate = CachedProperty.generate machine macroName configuration

def GeneratorClass.KeepsExpand (generatorClass : GeneratorClass) : Prop :=
  ∀ configuration generator,
    generatorClass.create configuration = .ok generator → generator.KeepsExpand

def Registry.KeepsExpand (registry : Registry.Macros) : Prop :=
  ∀ name found, registry.classes.lookup name = some found → found.KeepsExpand

/-- An expander whose generators keep the expansion, as all do that it has made from a registry of
such classes. -/
def Expander.KeepsExpand (expander : Expander) : Prop :=
  ∀ name generator, expander.generators.lookup name = some generator → generator.KeepsExpand

theorem CachedProperty.generator_keepsExpand (machine className macroName : String)
    (configuration : Configuration) :
    (CachedProperty.generator machine className macroName configuration).KeepsExpand :=
  ⟨machine, macroName, configuration, generate_generator machine className macroName configuration⟩

theorem CachedProperty.generatorClass_keepsExpand (machine : String) :
    (CachedProperty.generatorClass machine).KeepsExpand := by
  intro configuration generator made
  cases made
  exact generator_keepsExpand _ _ _ _

theorem Registry.standard_keepsExpand (machine : String) :
    Registry.KeepsExpand (Registry.standard machine) := by
  intro name found known
  have only : (Registry.standard machine).classes =
      [("ImageCache", CachedProperty.generatorClass machine)] := rfl
  rw [only, List.lookup_cons] at known
  split at known
  · cases known
    exact CachedProperty.generatorClass_keepsExpand machine
  · cases known

theorem Expander.ofSource_keepsExpand (files : FileStore) (source : ConfigurationSource) :
    (Expander.ofSource files source).KeepsExpand := by
  intro name generator known
  cases known

theorem Generator.KeepsExpand.after {generator : Generator} (kept : generator.KeepsExpand)
    (attr : Attribute) (declaration : Declaration) :
    (generator.after attr declaration).KeepsExpand := by
  rw [KeepsExpand, generate_after]
  exact kept

theorem Expander.KeepsExpand.used {expander : Expander} (cached : expander.KeepsExpand)
    (registry : Registry.Macros) (attr : Attribute) (declaration : Declaration) :
    (expander.used registry attr declaration).KeepsExpand := by
  intro name generator known
  obtain ⟨old, before, rfl | rfl⟩ := exists_lookup_of_used known
  · exact cached name _ before
  · exact (cached name old before).after attr declaration

theorem Registry.create_keepsExpand {registry : Registry.Macros} (kept : registry.KeepsExpand)
    {files : FileStore} {name : String} {source : ConfigurationSource} {generator : Generator}
    (made : registry.create files name source = .ok generator) : generator.KeepsExpand := by
  obtain ⟨found, configuration, chosen, created⟩ := Registry.exists_of_create made
  obtain ⟨primary, -, known⟩ := Registry.findClass_eq_ok_iff.mp chosen
  exact kept primary found known configuration generator created

/-! ## Variables only -/

theorem CachedProperty.isProperty_of_generate {machine macroName : String}
    {configuration : Configuration} {attr : Attribute} {declaration : Declaration}
    {peers : List String}
    (made : (CachedProperty.generate machine macroName configuration attr declaration).outcome =
      .ok peers) : declaration.isProperty = true := by
  -- Nothing is checked before the kind of the declaration.
  by_contra other
  rw [Bool.not_eq_true] at other
  have unbound : Names.onlyBinding declaration = .error .notVariable := by
    rw [Names.onlyBinding, other]
    rfl
  have underived : Names.derive configuration attr.name declaration =
      .error (.refused ⟨attr.name, .notVariable⟩) := by
    rw [Names.derive, unbound]
    rfl
  have unprepared : prepare machine macroName configuration attr declaration =
      .error (.refused ⟨attr.name, .notVariable⟩) := by
    rw [prepare, review, underived]
    rfl
  rw [generate, unprepared] at made
  cases made

theorem Generator.KeepsExpand.isProperty {generator : Generator} (kept : generator.KeepsExpand)
    {attr : Attribute} {declaration : Declaration} {sourceName : String} {notes : List LogRecord}
    {expansion : Expansion}
    (expanded : Expansion.run generator attr declaration sourceName = (notes, .ok (.ok expansion))) :
    declaration.isProperty = true := by
  obtain ⟨machine, macroName, configuration, generate_eq⟩ := kept
  simp only [Expansion.run, generate_eq, Prod.mk.injEq] at expanded
  obtain ⟨_, expanded⟩ := expanded
  split at expanded
  · cases expanded
  · cases expanded
  · cases expanded
  · next made => exact CachedProperty.isProperty_of_generate made

/-! ## Work -/

/-- The expander of a workshop keeps the expansion. -/
def Workshop.KeepsExpand (shop : Workshop) : Prop :=
  shop.expander.KeepsExpand

variable {registry : Registry.Macros} {sourceName : String} {first last : Workshop}

theorem Registry.KeepsExpand.sustained (kept : registry.KeepsExpand) :
    Sustained registry Expander.KeepsExpand where
  made expander _ primary generator cached _ _ made := by
    intro name found known
    obtain old | ⟨-, -, rfl⟩ := known_or_eq_of_lookup_append known
    · exact cached _ _ old
    · exact Registry.create_keepsExpand kept made
  used expander attr declaration cached := cached.used registry attr declaration

/-- An expander keeps the expansion over every use, those that fail among them. -/
theorem keepsExpand_of_run {expander : Expander} (kept : registry.KeepsExpand)
    (cached : expander.KeepsExpand) (source : List Char) :
    (expander.run (expand registry source sourceName)).2.1.KeepsExpand :=
  kept.sustained.maintains_expand source sourceName _ cached

/-! ## Results -/

theorem keepsExpand_of_generatorFor (kept : registry.KeepsExpand) (cached : first.KeepsExpand)
    {name : String} {generator : Generator}
    (runs : Runs (generatorFor registry name) first generator last) : generator.KeepsExpand := by
  obtain ⟨primary, -, ⟨known, -⟩ | ⟨-, made, -⟩⟩ := exists_of_generatorFor runs
  · exact cached primary generator known
  · exact Registry.create_keepsExpand kept made

theorem isProperty_of_expandAttribute (kept : registry.KeepsExpand) (cached : first.KeepsExpand)
    {declaration : Declaration} {attr : Attribute} {answer : Attribute × ExpansionResult}
    (runs : Runs (expandAttribute registry declaration sourceName attr) first answer last)
    (succeeded : answer.2.toBool = true) : declaration.isProperty = true := by
  simp only [expandAttribute, runs_bind, runs_modify] at runs
  obtain ⟨generator, middle, chosen, _, _, rfl, tail⟩ := runs
  have keeps := keepsExpand_of_generatorFor kept cached chosen
  split at tail
  next => exact (runs_throw tail).elim
  next result outcome_eq =>
  obtain ⟨rfl, _⟩ := runs_pure.mp tail
  cases result with
  | error => cases succeeded
  | ok expansion => exact keeps.isProperty (Prod.ext rfl outcome_eq)

theorem isProperty_of_expandDeclaration (kept : registry.KeepsExpand) (cached : first.KeepsExpand)
    {declaration : Declaration} {results : List (Attribute × ExpansionResult)}
    (runs : Runs (expandDeclaration registry declaration sourceName) first results last) :
    ∀ answer ∈ results, answer.2.toBool = true → declaration.isProperty = true := by
  rw [expandDeclaration] at runs
  generalize macroAttributes registry declaration.attributes = attributes at runs
  induction attributes generalizing first results with
  | nil =>
    rw [List.mapM_nil] at runs
    rw [(runs_pure.mp runs).1]
    simp
  | cons attr others inductionHypothesis =>
    obtain ⟨answer, middle, rest, run, othersRun, rfl⟩ := runs_mapM_cons.mp runs
    have later : middle.KeepsExpand :=
      (kept.sustained.maintains_expandAttribute declaration sourceName attr).of_runs run cached
    exact List.forall_mem_cons.mpr
      ⟨isProperty_of_expandAttribute kept cached run, inductionHypothesis later othersRun⟩

/-- Where all classes keep the expansion, nothing but variables is expanded. -/
theorem Reports.isProperty_of_mem {visits : List Visit} {findings : List Finding}
    (reports : Reports registry sourceName visits first findings last) (kept : registry.KeepsExpand)
    (cached : first.KeepsExpand) {declaration : Declaration}
    {results : List (Attribute × ExpansionResult)}
    (member : .declared declaration results ∈ findings) :
    ∀ answer ∈ results, answer.2.toBool = true → declaration.isProperty = true := by
  induction reports with
  | nil => cases member
  | nothing _ inductionHypothesis => exact inductionHypothesis cached member
  | plain _ inductionHypothesis => exact inductionHypothesis cached member
  | unreadable _ inductionHypothesis =>
    obtain impossible | member := List.mem_cons.mp member
    · cases impossible
    · exact inductionHypothesis cached member
  | declared runs _ inductionHypothesis =>
    obtain same | member := List.mem_cons.mp member
    · cases same
      exact isProperty_of_expandDeclaration kept cached runs
    · -- What is found later comes from the workshop as this declaration has left it.
      exact inductionHypothesis
        ((kept.sustained.maintains_expandDeclaration _ sourceName).of_runs runs cached) member

end PeerExpansion
