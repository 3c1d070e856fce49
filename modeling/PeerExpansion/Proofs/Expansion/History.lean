import PeerExpansion.Proofs.Expansion.Supply

/-! # Expansions one after another

An expander that is used for several sources keeps what it made for the earlier ones, also for those
whose expansion failed. `Impartial work` compares two runs of a piece of work whose expanders need
not keep the same: where both have or make generators that behave alike, the outcomes are the same,
and so is what the expanders have or make from then on. There is one rule for each way to put work
together.
-/

namespace PeerExpansion

open Expander Work

variable {registry : Registry.Macros} {first second : Workshop}

/-! ## Impartial work -/

/-- Work that comes to the same wherever the same is supplied, and changes nothing of what is. -/
structure Impartial {α : Type} (registry : Registry.Macros) (work : Work α) : Prop where
  outcome_eq : ∀ first second, SameSupply registry first second →
    (Work.outcome work first).1 = (Work.outcome work second).1
  maintains : ∀ shop, Maintains (SameSupply registry · shop) work

namespace Impartial

variable {α β : Type}

theorem pure (value : α) : Impartial registry (pure value) where
  outcome_eq _ _ _ := rfl
  maintains _ := maintains_pure value

/-- What is written in the log makes no difference to the expander. -/
theorem modify {change : Workshop → Workshop}
    (kept : ∀ shop, (change shop).expander = shop.expander) :
    Impartial registry (modify change) where
  outcome_eq _ _ _ := rfl
  maintains shop := maintains_modify fun other same => by
    unfold SameSupply
    rw [kept]
    exact same

theorem bind {work : Work α} {next : α → Work β} (front : Impartial registry work)
    (back : ∀ given, Impartial registry (next given)) : Impartial registry (work >>= next) where
  outcome_eq first second same := by
    have middle_eq := front.outcome_eq first second same
    have firstKept := front.maintains first first (.refl _)
    have secondKept := front.maintains second second (.refl _)
    cases ranFirst : Work.outcome work first with
    | mk firstResult firstMiddle =>
    cases ranSecond : Work.outcome work second with
    | mk secondResult secondMiddle =>
    rw [ranFirst] at middle_eq firstKept
    rw [ranSecond] at middle_eq secondKept
    obtain rfl : firstResult = secondResult := middle_eq
    -- Both end here, or go on from workshops that still have or make the same.
    cases firstResult with
    | error fault => rw [Work.outcome_bind_error ranFirst, Work.outcome_bind_error ranSecond]
    | ok given =>
      rw [Work.outcome_bind_ok ranFirst, Work.outcome_bind_ok ranSecond]
      exact (back given).outcome_eq _ _ ((firstKept.trans same).trans secondKept.symm)
  maintains shop := maintains_bind (front.maintains shop) fun given => (back given).maintains shop

theorem mapM {task : α → Work β} (each : ∀ given, Impartial registry (task given))
    (items : List α) : Impartial registry (items.mapM task) := by
  induction items with
  | nil => exact pure []
  | cons given others inductionHypothesis =>
    rw [List.mapM_cons]
    exact bind (each given) fun _ => bind inductionHypothesis fun _ => pure _

end Impartial

/-! ## Expansions -/

/-- What an attribute comes to with what is supplied for its name. -/
def Expander.answer (registry : Registry.Macros) (declaration : Declaration) (sourceName : String)
    (attr : Attribute) (expander : Expander) :
    Except ExpansionFault (Attribute × ExpansionResult) :=
  match expander.supply registry attr.name with
  | .error error => .error (.registry error)
  | .ok generator =>
    match (Expansion.run generator attr declaration sourceName).2 with
    | .error interruption => .error (.interrupted interruption)
    | .ok result => .ok (attr, result)

section Attribute

variable (declaration : Declaration) (sourceName : String) (attr : Attribute)

theorem answer_eq_of_sameSupply (same : SameSupply registry first second) :
    first.expander.answer registry declaration sourceName attr =
      second.expander.answer registry declaration sourceName attr := by
  cases supplied : second.expander.supply registry attr.name with
  | ok generator =>
    obtain ⟨alike, alikeSupplied, behaves⟩ := same.exists_supply supplied
    simp only [answer, supplied, alikeSupplied, Generator.run_eq_of_behaviour behaves]
  | error error =>
    simp only [answer, supplied, same.supply_eq_error supplied]

theorem exists_outcome_expandAttribute (shop : Workshop) :
    ∃ later, Work.outcome (expandAttribute registry declaration sourceName attr) shop =
        (shop.expander.answer registry declaration sourceName attr, later) ∧
      SameSupply registry later shop := by
  obtain ⟨middle, chosen, kept⟩ := exists_outcome_generatorFor registry attr.name shop
  have middleKept : SameSupply registry middle shop :=
    fun name => congrArg (Except.map Generator.behaviour) (kept name)
  unfold expandAttribute answer
  cases supplied : shop.expander.supply registry attr.name with
  | error error =>
    rw [supplied] at chosen
    exact ⟨middle, Work.outcome_bind_error chosen, middleKept⟩
  | ok generator =>
    rw [supplied] at chosen
    refine ⟨⟨middle.expander.used registry attr declaration,
      middle.notes ++ (Expansion.run generator attr declaration sourceName).1⟩, ?_,
      (sameSupply_used middle attr declaration _).trans middleKept⟩
    rw [Work.outcome_bind_ok chosen]
    -- The notes stay with both outcomes.
    cases ran : (Expansion.run generator attr declaration sourceName).2 with
    | error interruption =>
      simp only [ran]
      rfl
    | ok result =>
      simp only [ran]
      rfl

theorem impartial_expandAttribute :
    Impartial registry (expandAttribute registry declaration sourceName attr) where
  outcome_eq first second same := by
    obtain ⟨_, ranFirst, -⟩ := exists_outcome_expandAttribute declaration sourceName attr first
    obtain ⟨_, ranSecond, -⟩ := exists_outcome_expandAttribute declaration sourceName attr second
    rw [ranFirst, ranSecond]
    exact answer_eq_of_sameSupply declaration sourceName attr same
  maintains shop other same := by
    obtain ⟨_, ran, kept⟩ := exists_outcome_expandAttribute declaration sourceName attr other
    rw [ran]
    exact kept.trans same

end Attribute

theorem impartial_reportAll (sourceName : String) (visits : List Visit) :
    Impartial registry (reportAll registry sourceName visits) := by
  induction visits with
  | nil => exact .pure _
  | cons visit visits inductionHypothesis =>
    rw [reportAll_cons]
    cases visit.sight with
    | nothing | plain => exact inductionHypothesis
    | unreadable => exact inductionHypothesis.bind fun _ => .pure _
    | declared =>
      refine (Impartial.mapM (impartial_expandAttribute _ _) _).bind fun _ => ?_
      exact inductionHypothesis.bind fun _ => .pure _

theorem impartial_expand (source : List Char) (sourceName : String) :
    Impartial registry (expand registry source sourceName) := by
  unfold expand
  split
  next => exact .pure _
  next stream scanned =>
    -- Where the search goes on depends on the source alone, not on the results.
    have ordered := (TokenStream.ordered_of_scan scanned).2
    obtain ⟨visits, -, same⟩ := exists_find_eq registry sourceName ordered
    rw [same]
    refine (impartial_reportAll _ _).bind fun _ => ?_
    exact .bind (.modify fun _ => rfl) fun _ => .pure _

/-! ## Several sources -/

/-- What becomes of several sources that one expander expands in order. Whatever it has made by then
is there for the next of them, also where an expansion came to no result. -/
def Expander.expandAll (registry : Registry.Macros) :
    Expander → List (List Char × String) → List (Except ExpansionFault SourceExpansion)
  | _, [] => []
  | expander, (source, sourceName) :: others =>
    let (outcome, later, _) := expander.run (expand registry source sourceName)
    outcome :: later.expandAll registry others

/-- An expander that was used expands every source as one that never was. -/
theorem expandAll_of_sameSupply {expander fresh : Expander}
    (same : SameSupply registry ⟨expander, []⟩ ⟨fresh, []⟩)
    (sources : List (List Char × String)) :
    expander.expandAll registry sources =
      sources.map fun (source, sourceName) =>
        (fresh.run (expand registry source sourceName)).1 := by
  induction sources generalizing expander with
  | nil => rfl
  | cons pair others inductionHypothesis =>
    obtain ⟨source, sourceName⟩ := pair
    have impartial : Impartial registry _ := impartial_expand source sourceName
    rw [expandAll, List.map_cons]
    exact congrArg₂ List.cons (impartial.outcome_eq _ _ same)
      (inductionHypothesis (impartial.maintains _ _ same))

/-- One expander for all sources does what a new one for each of them would do. -/
theorem expandAll_eq_map (registry : Registry.Macros) (files : FileStore)
    (configuration : ConfigurationSource) (sources : List (List Char × String)) :
    (ofSource files configuration).expandAll registry sources =
      sources.map fun (source, sourceName) =>
        ((ofSource files configuration).run (expand registry source sourceName)).1 :=
  expandAll_of_sameSupply (.refl _) sources

end PeerExpansion
