import PeerExpansion.Proofs.Declaration.Moved
import PeerExpansion.Proofs.Expansion.Keeping

/-! # What an expander has generators for

An expander keeps the generators it has made, and what it keeps is what it would make again. So what
it has been used for makes no difference to what it expands later. A generator that pays no
attention to places makes the same peers for a declaration wherever it stands.
-/

namespace PeerExpansion

open Expander Work

variable {registry : Registry.Macros} {sourceName name : String} {first last : Workshop}

/-! ## Generators -/

/-- The generator that an expander has or makes for an attribute name. -/
def Expander.supply (registry : Registry.Macros) (expander : Expander) (name : String) :
    Except RegistryError Generator :=
  match registry.resolve name with
  | .error error => .error error
  | .ok primary =>
    match expander.generators.lookup primary with
    | some generator => .ok generator
    | none => registry.create expander.files primary expander.source

/-- A generator that is put by when it is made is the one that would be made later. -/
theorem Expander.supply_append {expander : Expander} {primary : String} {generator : Generator}
    (fresh : expander.generators.lookup primary = none)
    (made : registry.create expander.files primary expander.source = .ok generator)
    (other : String) :
    ({ expander with generators := expander.generators ++ [(primary, generator)] } :
        Expander).supply registry other = expander.supply registry other := by
  unfold supply
  cases registry.resolve other with
  | error => rfl
  | ok target =>
    cases kept : expander.generators.lookup target with
    | some => simp [List.lookup_append, kept]
    | none =>
      by_cases same : target = primary
      · subst same
        simp [List.lookup_append, fresh, made]
      · have unlike : (target == primary) = false := beq_eq_false_iff_ne.mpr same
        simp [List.lookup_append, List.lookup_cons, kept, unlike]

/-- Who asks for a generator gets what is supplied. If it has to be made, that changes nothing of
what is supplied. -/
theorem exists_outcome_generatorFor (registry : Registry.Macros) (name : String) (shop : Workshop) :
    ∃ later, Work.outcome (generatorFor registry name) shop =
        ((shop.expander.supply registry name).mapError .registry, later) ∧
      ∀ other, later.expander.supply registry other = shop.expander.supply registry other := by
  have got : Work.outcome get shop = (.ok shop, shop) := rfl
  unfold generatorFor
  cases resolved : registry.resolve name with
  | error error =>
    refine ⟨shop, ?_, fun _ => rfl⟩
    rw [supply, resolved]
    rfl
  | ok primary =>
    simp only [Work.outcome_bind_ok got]
    cases known : shop.expander.generators.lookup primary with
    | some generator =>
      refine ⟨shop, ?_, fun _ => rfl⟩
      simp only [supply, resolved, known]
      rfl
    | none =>
      cases made : registry.create shop.expander.files primary shop.expander.source with
      | error error =>
        refine ⟨shop, ?_, fun _ => rfl⟩
        simp only [supply, resolved, known, made]
        rfl
      | ok generator =>
        refine ⟨{ shop with expander := { shop.expander with
          generators := shop.expander.generators ++ [(primary, generator)] } }, ?_,
          supply_append known made⟩
        simp only [supply, resolved, known, made]
        rfl

theorem supply_of_generatorFor {generator : Generator}
    (runs : Runs (generatorFor registry name) first generator last) :
    first.expander.supply registry name = .ok generator := by
  obtain ⟨_, outcome_eq, -⟩ := exists_outcome_generatorFor registry name first
  exact eq_ok_of_mapError (congrArg Prod.fst (outcome_eq.symm.trans runs))

theorem exists_runs_generatorFor {generator : Generator} (shop : Workshop)
    (supplied : shop.expander.supply registry name = .ok generator) :
    ∃ later, Runs (generatorFor registry name) shop generator later ∧
      ∀ other, later.expander.supply registry other = shop.expander.supply registry other := by
  obtain ⟨later, outcome_eq, kept⟩ := exists_outcome_generatorFor registry name shop
  rw [supplied] at outcome_eq
  exact ⟨later, outcome_eq, kept⟩

/-- A generator whose peers do not depend on where its attribute and its declaration stand. -/
def Generator.IgnoresPlaces (generator : Generator) : Prop :=
  ∀ base attr declaration,
    (generator.generate (attr.moved base) (declaration.moved base)).outcome =
      (generator.generate attr declaration).outcome

theorem Generator.IgnoresPlaces.of_behaviour {generator other : Generator}
    (ignores : other.IgnoresPlaces) (same : generator.behaviour = other.behaviour) :
    generator.IgnoresPlaces := by
  rw [IgnoresPlaces, generate_eq_of_behaviour same]
  exact ignores

/-! ## Cached properties -/

namespace CachedProperty

theorem markerFlag_moved (configuration : Configuration) (attr : Attribute) (base : Position) :
    markerFlag configuration (attr.moved base) = markerFlag configuration attr := by
  have arguments_eq : (attr.moved base).arguments.getD [] =
      (attr.arguments.getD []).map (Argument.moved base) := by
    cases arguments : attr.arguments <;> simp [Attribute.moved, arguments]
  have literal_eq (argument : Argument) : (argument.moved base).literal? = argument.literal? := by
    cases tokens : argument.tokens with
    | nil => simp [Argument.literal?, Argument.moved, tokens]
    | cons token others =>
      cases others with
      | nil => simp [Argument.literal?, Argument.moved, Token.moved, tokens]
      | cons => simp [Argument.literal?, Argument.moved, tokens]
  have fits_eq (argument : Argument) :
      labelFits configuration (argument.moved base) = labelFits configuration argument := rfl
  rw [markerFlag, markerFlag, arguments_eq]
  cases attr.arguments.getD [] with
  | nil => rfl
  | cons argument others =>
    cases others with
    | nil => simp only [List.map_cons, List.map_nil, fits_eq, literal_eq]; rfl
    | cons => simp; rfl

theorem derive_moved (configuration : Configuration) (name : String) (declaration : Declaration)
    (base : Position) :
    Names.derive configuration name (declaration.moved base) =
      Names.derive configuration name declaration := by
  -- A declaration that is moved has the same bindings but for their positions.
  have only_eq : Names.onlyBinding (declaration.moved base) =
      (Names.onlyBinding declaration).map (Binding.moved base) := by
    have kept : (declaration.moved base).isProperty = declaration.isProperty := rfl
    have bindings_eq : (declaration.moved base).bindings =
        declaration.bindings.map (Binding.moved base) := rfl
    rw [Names.onlyBinding, Names.onlyBinding, kept, bindings_eq]
    split
    · cases declaration.bindings with
      | nil => rfl
      | cons binding others => cases others <;> rfl
    · rfl
  have identifier_eq (binding : Binding) :
      Names.identifierOf (binding.moved base) = Names.identifierOf binding := by
    cases pattern : binding.pattern <;>
      simp [Names.identifierOf, Binding.moved, pattern, Pattern.moved]
  have type_eq (binding : Binding) (identifier : String) :
      Names.checkType configuration (binding.moved base) identifier =
        Names.checkType configuration binding identifier := rfl
  rw [Names.derive, Names.derive, only_eq]
  cases Names.onlyBinding declaration with
  | error reason => rfl
  | ok binding =>
    simp only [Except.map, Except.mapError, bind, Except.bind, identifier_eq, type_eq]

theorem prepare_moved (machine macroName : String) (configuration : Configuration)
    (attr : Attribute) (declaration : Declaration) (base : Position) :
    prepare machine macroName configuration (attr.moved base) (declaration.moved base) =
      prepare machine macroName configuration attr declaration := by
  have name_eq : (attr.moved base).name = attr.name := rfl
  rw [prepare, prepare, review, review, name_eq, derive_moved, markerFlag_moved]

end CachedProperty

theorem Generator.KeepsExpand.ignoresPlaces {generator : Generator} (kept : generator.KeepsExpand) :
    generator.IgnoresPlaces := by
  obtain ⟨machine, macroName, configuration, generate_eq⟩ := kept
  intro base attr declaration
  rw [generate_eq, CachedProperty.generate, CachedProperty.generate, CachedProperty.prepare_moved]
  split
  · rfl
  · rfl

/-- All generators of an expander ignore places where those that it keeps and those of its registry
expand as the ones for cached properties do. -/
theorem ignoresPlaces_of_supply (kept : registry.KeepsExpand) {expander : Expander}
    (cached : expander.KeepsExpand) {generator : Generator}
    (supplied : expander.supply registry name = .ok generator) : generator.IgnoresPlaces := by
  unfold supply at supplied
  split at supplied
  · cases supplied
  · split at supplied
    next known =>
      cases supplied
      exact (cached _ _ known).ignoresPlaces
    next => exact (Registry.create_keepsExpand kept supplied).ignoresPlaces

/-! ## Expansions -/

/-- Two workshops that have or make generators which behave alike. -/
def SameSupply (registry : Registry.Macros) (shop other : Workshop) : Prop :=
  ∀ name, (shop.expander.supply registry name).map Generator.behaviour =
    (other.expander.supply registry name).map Generator.behaviour

namespace SameSupply

variable {shop other : Workshop}

theorem refl (shop : Workshop) : SameSupply registry shop shop :=
  fun _ => rfl

theorem symm (same : SameSupply registry shop other) : SameSupply registry other shop :=
  fun name => (same name).symm

theorem trans {third : Workshop} (same : SameSupply registry shop other)
    (others : SameSupply registry other third) : SameSupply registry shop third :=
  fun name => (same name).trans (others name)

theorem exists_supply {generator : Generator} (same : SameSupply registry shop other)
    (supplied : other.expander.supply registry name = .ok generator) :
    ∃ alike, shop.expander.supply registry name = .ok alike ∧
      alike.behaviour = generator.behaviour := by
  have behaves := same name
  rw [supplied] at behaves
  cases found : shop.expander.supply registry name with
  | error error =>
    rw [found] at behaves
    cases behaves
  | ok alike =>
    rw [found] at behaves
    exact ⟨alike, rfl, Except.ok.inj behaves⟩

/-- What cannot be supplied in the one is refused in the other for the same reason. -/
theorem supply_eq_error {error : RegistryError} (same : SameSupply registry shop other)
    (refused : other.expander.supply registry name = .error error) :
    shop.expander.supply registry name = .error error := by
  have behaves := same name
  rw [refused] at behaves
  cases found : shop.expander.supply registry name with
  | error reason =>
    rw [found] at behaves
    cases behaves
    rfl
  | ok alike =>
    rw [found] at behaves
    cases behaves

end SameSupply

theorem sameSupply_of_generatorFor {generator : Generator}
    (runs : Runs (generatorFor registry name) first generator last) :
    SameSupply registry last first := by
  obtain ⟨later, laterRuns, same⟩ := exists_runs_generatorFor first (supply_of_generatorFor runs)
  cases runs.symm.trans laterRuns
  exact fun other => congrArg (Except.map Generator.behaviour) (same other)

/-- The generators behave after a use as they did before. -/
theorem sameSupply_used (shop : Workshop) (attr : Attribute) (declaration : Declaration)
    (notes : List LogRecord) :
    SameSupply registry ⟨shop.expander.used registry attr declaration, notes⟩ shop := by
  intro other
  unfold supply
  cases registry.resolve other with
  | error => rfl
  | ok primary =>
    have kept := shop.expander.behaviour_lookup_used registry attr declaration primary
    simp only [source_used, files_used]
    cases before : shop.expander.generators.lookup primary with
    | none =>
      rw [before, Option.map_none, Option.map_eq_none_iff] at kept
      rw [kept]
    | some generator =>
      rw [before, Option.map_some, Option.map_eq_some_iff] at kept
      obtain ⟨later, known, behaves⟩ := kept
      rw [known]
      exact congrArg Except.ok behaves

theorem exists_run_moved {generator : Generator} (ignores : generator.IgnoresPlaces)
    {attr : Attribute} {declaration : Declaration} {expansion : Expansion} (base : Position)
    (ran : (Expansion.run generator attr declaration sourceName).2 = .ok (.ok expansion)) :
    ∃ moved, (Expansion.run generator (attr.moved base) (declaration.moved base) sourceName).2 =
      .ok (.ok moved) ∧ moved.peers = expansion.peers := by
  simp only [Expansion.run] at ran ⊢
  rw [ignores base attr declaration]
  split at ran
  next => cases ran
  next => cases ran
  next => cases ran
  next peers made =>
    cases ran
    exact ⟨_, rfl, rfl⟩

theorem runs_expandAttribute {generator : Generator} {attr : Attribute} {declaration : Declaration}
    {notes : List LogRecord} {result : ExpansionResult}
    (chosen : Runs (generatorFor registry attr.name) first generator last)
    (ran : Expansion.run generator attr declaration sourceName = (notes, .ok result)) :
    Runs (expandAttribute registry declaration sourceName attr) first (attr, result)
      ⟨last.expander.used registry attr declaration, last.notes ++ notes⟩ := by
  rw [expandAttribute]
  refine runs_bind.mpr ⟨generator, last, chosen, ?_⟩
  simp only [ran]
  exact runs_bind.mpr ⟨(), _, runs_modify.mpr rfl, runs_pure.mpr ⟨rfl, rfl⟩⟩

theorem macroAttributes_moved (registry : Registry.Macros) (declaration : Declaration)
    (base : Position) : macroAttributes registry (declaration.moved base).attributes =
      (macroAttributes registry declaration.attributes).map (Attribute.moved base) := by
  show (declaration.attributes.map (Attribute.moved base)).filter _ = _
  rw [List.filter_map]
  rfl

/-- Peers for an attribute, and the same peers for it in another place. -/
def MovedAnswer (base : Position) (answer moved : Attribute × ExpansionResult) : Prop :=
  moved.1 = answer.1.moved base ∧ ∃ expansion other,
    answer.2 = .ok expansion ∧ moved.2 = .ok other ∧ other.peers = expansion.peers

section Moved

variable {declaration : Declaration} (base : Position)
variable (ignores : ∀ name generator,
  first.expander.supply registry name = .ok generator → generator.IgnoresPlaces)
include ignores

theorem exists_runs_expandAttribute_moved {attr : Attribute} {answer : Attribute × ExpansionResult}
    (runs : Runs (expandAttribute registry declaration sourceName attr) first answer last)
    (succeeded : answer.2.toBool = true) {shop : Workshop} (same : SameSupply registry shop first) :
    SameSupply registry last first ∧ ∃ moved later,
      Runs (expandAttribute registry (declaration.moved base) sourceName (attr.moved base)) shop
        moved later ∧ MovedAnswer base answer moved ∧ SameSupply registry later first := by
  simp only [expandAttribute, runs_bind, runs_modify] at runs
  obtain ⟨generator, middle, chosen, _, _, rfl, tail⟩ := runs
  have supplied := supply_of_generatorFor chosen
  have kept := sameSupply_of_generatorFor chosen
  -- The generator of the other expander may be another one, but it behaves alike.
  obtain ⟨twin, twinSupplied, alike⟩ := same.exists_supply supplied
  obtain ⟨later, laterChosen, -⟩ := exists_runs_generatorFor shop twinSupplied
  have laterKept := sameSupply_of_generatorFor laterChosen
  split at tail
  next => exact (runs_throw tail).elim
  next result outcome_eq =>
  obtain ⟨rfl, rfl⟩ := runs_pure.mp tail
  cases result with
  | error => cases succeeded
  | ok expansion =>
    obtain ⟨moved, moved_eq, peers_eq⟩ := exists_run_moved (ignores _ _ supplied) base outcome_eq
    rw [← Generator.run_eq_of_behaviour alike] at moved_eq
    exact ⟨(sameSupply_used middle attr declaration _).trans kept, _, _,
      runs_expandAttribute laterChosen (Prod.ext rfl moved_eq),
      ⟨rfl, expansion, moved, rfl, rfl, peers_eq⟩,
      (sameSupply_used later _ _ _).trans (laterKept.trans same)⟩

theorem exists_runs_expandDeclaration_moved {results : List (Attribute × ExpansionResult)}
    (runs : Runs (expandDeclaration registry declaration sourceName) first results last)
    (succeeded : ∀ answer ∈ results, answer.2.toBool = true) {shop : Workshop}
    (same : SameSupply registry shop first) :
    SameSupply registry last first ∧ ∃ moved later,
      Runs (expandDeclaration registry (declaration.moved base) sourceName) shop moved later ∧
        List.Forall₂ (MovedAnswer base) results moved ∧ SameSupply registry later first := by
  rw [expandDeclaration] at runs
  simp only [expandDeclaration, macroAttributes_moved]
  generalize macroAttributes registry declaration.attributes = attributes at runs
  induction attributes generalizing first results shop with
  | nil =>
    rw [List.mapM_nil, runs_pure] at runs
    obtain ⟨rfl, rfl⟩ := runs
    exact ⟨.refl _, [], shop, runs_pure.mpr ⟨rfl, rfl⟩, .nil, same⟩
  | cons attr others inductionHypothesis =>
    obtain ⟨answer, middle, rest, run, othersRun, rfl⟩ := runs_mapM_cons.mp runs
    obtain ⟨answered, restAnswered⟩ := List.forall_mem_cons.mp succeeded
    obtain ⟨kept, moved, later, movedRun, alike, laterKept⟩ :=
      exists_runs_expandAttribute_moved base ignores run answered same
    -- The others are expanded in workshops that still have or make the same.
    have before : SameSupply registry first middle := kept.symm
    have ignores (name : String) (generator : Generator)
        (supplied : middle.expander.supply registry name = .ok generator) :
        generator.IgnoresPlaces := by
      obtain ⟨alike, known, behaves⟩ := before.exists_supply supplied
      exact (ignores name alike known).of_behaviour behaves.symm
    obtain ⟨lastKept, restMoved, final, restRun, restAlike, finalKept⟩ :=
      inductionHypothesis ignores restAnswered
        (laterKept.trans before) othersRun
    exact ⟨lastKept.trans kept, moved :: restMoved, final,
      runs_mapM_cons.mpr ⟨moved, later, restMoved, movedRun, restRun, rfl⟩, .cons alike restAlike,
      finalKept.trans kept⟩

end Moved

end PeerExpansion
