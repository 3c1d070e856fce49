import PeerExpansion.Proofs.Association
import PeerExpansion.Proofs.Expansion.Search

/-! # What a use leaves behind

A generator that has selected its decode step keeps it, and an expander keeps its generators as
their uses leave them. None of this shows: a generator makes of a declaration what it would have
made of it before any use. An expansion makes generators and uses them, so what holds of an expander
all the time is what making and using keeps.
-/

namespace PeerExpansion

namespace Generator

variable (generator : Generator) (attr : Attribute) (declaration : Declaration)

/-- All of a generator that shows in an expansion. -/
def behaviour : String × String × (Attribute → Declaration → Generation) :=
  (generator.macroName, generator.role, generator.generate)

/-- To keep the step that would be selected changes no later selection. -/
theorem step_keeping : { generator with step? := generator.step.toOption }.step = generator.step := by
  cases kept : generator.step? with
  | some chosen => simp [step, kept, Except.toOption]
  | none => cases selected : generator.select <;> simp [step, kept, selected, Except.toOption]

theorem generate_after : (generator.after attr declaration).generate = generator.generate := by
  unfold after
  split
  · rfl
  · funext otherAttr otherDeclaration
    rw [generate, generate, step_keeping]

/-- The generator without the decode step that it keeps. -/
def unused : Generator :=
  { generator with step? := none }

@[simp]
theorem unused_after : (generator.after attr declaration).unused = generator.unused := by
  unfold after
  split <;> rfl

theorem behaviour_after : (generator.after attr declaration).behaviour = generator.behaviour := by
  have macroName_eq : (generator.after attr declaration).macroName = generator.macroName := by
    unfold after
    split <;> rfl
  have role_eq : (generator.after attr declaration).role = generator.role := by
    unfold after
    split <;> rfl
  rw [behaviour, macroName_eq, role_eq, generate_after, behaviour]

variable {generator} {other : Generator}

theorem generate_eq_of_behaviour (same : generator.behaviour = other.behaviour) :
    generator.generate = other.generate :=
  congrArg (·.2.2) same

theorem run_eq_of_behaviour (same : generator.behaviour = other.behaviour) :
    Expansion.run generator = Expansion.run other := by
  have macroName_eq : generator.macroName = other.macroName := congrArg (·.1) same
  have role_eq : generator.role = other.role := congrArg (·.2.1) same
  funext attr declaration sourceName
  rw [Expansion.run, Expansion.run, macroName_eq, role_eq, generate_eq_of_behaviour same]

end Generator

namespace CachedProperty

/-- Selecting the decode step when it is needed comes to the same as selecting it every time. -/
theorem generate_generator (machine className macroName : String) (configuration : Configuration) :
    (generator machine className macroName configuration).generate =
      generate machine macroName configuration := by
  funext attr declaration
  simp only [Generator.generate, generator, plan, generate, prepare]
  cases review configuration attr declaration with
  | error fault => rfl
  | ok reviewed =>
    simp only [Generator.step]
    cases DecodeStep.select machine configuration.targetPlatform configuration.resourceType
      macroName <;> rfl

end CachedProperty

namespace Expander

variable {registry : Registry.Macros} {expander : Expander} {attr : Attribute}
variable {declaration : Declaration} {name : String}

theorem lookup_used {primary : String} (resolved : registry.resolve attr.name = .ok primary) :
    (expander.used registry attr declaration).generators.lookup name =
      (expander.generators.lookup name).map fun generator =>
        if name = primary then generator.after attr declaration else generator := by
  rw [used, resolved]
  exact Association.lookup_map_value expander.generators fun name generator =>
    if name = primary then generator.after attr declaration else generator

/-- What is kept after a use was kept before it, and may have been used. -/
theorem exists_lookup_of_used {generator : Generator}
    (known : (expander.used registry attr declaration).generators.lookup name = some generator) :
    ∃ old, expander.generators.lookup name = some old ∧
      (generator = old ∨ generator = old.after attr declaration) := by
  cases resolved : registry.resolve attr.name with
  | error error =>
    rw [used, resolved] at known
    exact ⟨generator, known, .inl rfl⟩
  | ok primary =>
    rw [lookup_used resolved, Option.map_eq_some_iff] at known
    obtain ⟨old, known, rfl⟩ := known
    refine ⟨old, known, ?_⟩
    split
    · exact .inr rfl
    · exact .inl rfl

theorem behaviour_lookup_used (expander : Expander) (registry : Registry.Macros)
    (attr : Attribute) (declaration : Declaration) (name : String) :
    ((expander.used registry attr declaration).generators.lookup name).map Generator.behaviour =
      (expander.generators.lookup name).map Generator.behaviour := by
  cases resolved : registry.resolve attr.name with
  | error error => rw [used, resolved]
  | ok primary =>
    rw [lookup_used resolved, Option.map_map]
    congr
    funext generator
    rw [Function.comp_apply]
    split
    · exact Generator.behaviour_after generator attr declaration
    · rfl

@[simp]
theorem source_used : (expander.used registry attr declaration).source = expander.source := by
  unfold used
  split <;> rfl

@[simp]
theorem files_used : (expander.used registry attr declaration).files = expander.files := by
  unfold used
  split <;> rfl

end Expander

/-- A generator that is answered with was kept already, or is made now and kept from then on. -/
theorem exists_of_generatorFor {first last : Workshop} {generator : Generator}
    (runs : Work.Runs (Expander.generatorFor registry name) first generator last) :
    ∃ primary, registry.resolve name = .ok primary ∧
      (first.expander.generators.lookup primary = some generator ∧ last = first ∨
        first.expander.generators.lookup primary = none ∧
          registry.create first.expander.files primary first.expander.source = .ok generator ∧
          last = { first with expander := { first.expander with
            generators := first.expander.generators ++ [(primary, generator)] } }) := by
  unfold Expander.generatorFor at runs
  split at runs
  next => exact (Work.runs_throw runs).elim
  next primary resolved =>
  simp only [Work.runs_bind, Work.runs_get] at runs
  obtain ⟨_, _, ⟨rfl, rfl⟩, runs⟩ := runs
  refine ⟨primary, resolved, ?_⟩
  split at runs
  next known =>
    obtain ⟨rfl, rfl⟩ := Work.runs_pure.mp runs
    exact .inl ⟨known, rfl⟩
  next unknown =>
  split at runs
  next => exact (Work.runs_throw runs).elim
  next made =>
  rw [Work.runs_bind] at runs
  obtain ⟨_, _, put, runs⟩ := runs
  obtain ⟨rfl, rfl⟩ := Work.runs_pure.mp runs
  cases put
  exact .inr ⟨unknown, made, rfl⟩

/-! ## Whole expansions -/

/-- What stays true of an expander whose generators are made from the registry and used. -/
structure Expander.Sustained (registry : Registry.Macros) (holds : Expander → Prop) : Prop where
  made : ∀ expander name primary generator, holds expander →
    registry.resolve name = .ok primary →
    expander.generators.lookup primary = none →
    registry.create expander.files primary expander.source = .ok generator →
    holds { expander with generators := expander.generators ++ [(primary, generator)] }
  used : ∀ expander attr declaration, holds expander →
    holds (expander.used registry attr declaration)

namespace Expander.Sustained

open Work

variable {registry : Registry.Macros} {holds : Expander → Prop}
variable (sustained : Sustained registry holds)
include sustained

theorem maintains_generatorFor (name : String) :
    Maintains (holds ·.expander) (generatorFor registry name) := by
  unfold generatorFor
  split
  next => exact maintains_throw _
  next resolved =>
    refine maintains_get_bind fun shop held => ?_
    split
    next => exact held
    next unknown =>
      split
      next => exact held
      next made => exact sustained.made _ _ _ _ held resolved unknown made

theorem maintains_expandAttribute (declaration : Declaration) (sourceName : String)
    (attr : Attribute) :
    Maintains (holds ·.expander) (expandAttribute registry declaration sourceName attr) := by
  refine maintains_bind (sustained.maintains_generatorFor _) fun generator => ?_
  refine maintains_bind (maintains_modify fun shop held => sustained.used _ attr declaration held)
    fun _ => ?_
  split
  · exact maintains_throw _
  · exact maintains_pure _

theorem maintains_expandDeclaration (declaration : Declaration) (sourceName : String) :
    Maintains (holds ·.expander) (expandDeclaration registry declaration sourceName) :=
  maintains_mapM (sustained.maintains_expandAttribute declaration sourceName) _

theorem maintains_reportAll (sourceName : String) (visits : List Visit) :
    Maintains (holds ·.expander) (reportAll registry sourceName visits) := by
  induction visits with
  | nil => exact maintains_pure _
  | cons visit visits inductionHypothesis =>
    rw [reportAll_cons]
    cases visit.sight with
    | nothing | plain => exact inductionHypothesis
    | unreadable => exact maintains_bind inductionHypothesis fun _ => maintains_pure _
    | declared =>
      refine maintains_bind (sustained.maintains_expandDeclaration _ _) fun _ => ?_
      exact maintains_bind inductionHypothesis fun _ => maintains_pure _

theorem maintains_expand (source : List Char) (sourceName : String) :
    Maintains (holds ·.expander) (expand registry source sourceName) := by
  unfold expand
  split
  next => exact maintains_pure _
  next stream scanned =>
    have ordered := (TokenStream.ordered_of_scan scanned).2
    obtain ⟨visits, -, same⟩ := exists_find_eq registry sourceName ordered
    rw [same]
    refine maintains_bind (sustained.maintains_reportAll _ _) fun _ => ?_
    exact maintains_bind (maintains_modify fun _ held => held) fun _ => maintains_pure _

end Expander.Sustained

end PeerExpansion
