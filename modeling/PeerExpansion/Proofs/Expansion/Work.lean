import PeerExpansion.Expansion.Source
import PeerExpansion.Proofs.Outcome

/-! # What a piece of work comes to

`Runs work first value last` says that a piece of work answers `value` and has turned the workshop
from `first` into `last`. As with readings, the lemmas take such a statement apart.
-/

namespace PeerExpansion

namespace Work

variable {α β : Type} {first last : Workshop}

def outcome (work : Work α) (shop : Workshop) : Except ExpansionFault α × Workshop :=
  (ExceptT.run work).run shop

theorem outcome_bind_ok {work : Work α} {next : α → Work β} {given : α} {middle : Workshop}
    (ran : outcome work first = (.ok given, middle)) :
    outcome (work >>= next) first = outcome (next given) middle :=
  PeerExpansion.outcome_bind_ok ran

theorem outcome_bind_error {work : Work α} {next : α → Work β} {fault : ExpansionFault}
    {middle : Workshop} (ran : outcome work first = (.error fault, middle)) :
    outcome (work >>= next) first = (.error fault, middle) :=
  PeerExpansion.outcome_bind_error ran

/-- `work` answers `value` in the workshop `first` and leaves it as `last`. -/
def Runs (work : Work α) (first : Workshop) (value : α) (last : Workshop) : Prop :=
  outcome work first = (.ok value, last)

@[simp]
theorem runs_pure {given value : α} :
    Runs (pure given) first value last ↔ value = given ∧ last = first := by
  show (Except.ok given, first) = (Except.ok value, last) ↔ _
  simp [eq_comm]

@[simp]
theorem runs_bind {work : Work α} {next : α → Work β} {value : β} :
    Runs (work >>= next) first value last ↔
      ∃ given middle, Runs work first given middle ∧ Runs (next given) middle value last := by
  unfold Runs
  cases ran : outcome work first with
  | mk result middle =>
    cases result with
    | error fault =>
      rw [outcome_bind_error ran]
      simp
    | ok given =>
      rw [outcome_bind_ok ran]
      simp [and_assoc]

@[simp]
theorem runs_throw {fault : ExpansionFault} {value : α} :
    ¬ Runs (throw fault) first value last := by
  show ¬ (Except.error fault, first) = (Except.ok value, last)
  simp

@[simp]
theorem runs_get {shop : Workshop} : Runs get first shop last ↔ shop = first ∧ last = first := by
  show (Except.ok first, first) = (Except.ok shop, last) ↔ _
  simp [eq_comm]

@[simp]
theorem runs_modify {change : Workshop → Workshop} {value : PUnit} :
    Runs (modify change) first value last ↔ last = change first := by
  show (Except.ok PUnit.unit, change first) = (Except.ok value, last) ↔ _
  simp [eq_comm]

/-! ## Invariants -/

variable {holds : Workshop → Prop}

/-- Whatever becomes of the work, what holds of the workshop before it holds after it. -/
def Maintains (holds : Workshop → Prop) (work : Work α) : Prop :=
  ∀ shop, holds shop → holds (outcome work shop).2

theorem Maintains.of_runs {work : Work α} {value : α} (maintains : Maintains holds work)
    (runs : Runs work first value last) (held : holds first) : holds last := by
  have after := maintains first held
  rw [Runs] at runs
  rwa [runs] at after

theorem maintains_pure (value : α) : Maintains holds (pure value) :=
  fun _ held => held

theorem maintains_throw (fault : ExpansionFault) : Maintains holds (throw fault : Work α) :=
  fun _ held => held

theorem maintains_modify {change : Workshop → Workshop}
    (kept : ∀ shop, holds shop → holds (change shop)) : Maintains holds (modify change) :=
  fun shop held => kept shop held

theorem maintains_bind {work : Work α} {next : α → Work β} (front : Maintains holds work)
    (back : ∀ given, Maintains holds (next given)) : Maintains holds (work >>= next) := by
  intro shop held
  have middleHeld := front shop held
  cases ran : outcome work shop with
  | mk result middle =>
    rw [ran] at middleHeld
    cases result with
    | error fault =>
      rw [outcome_bind_error ran]
      exact middleHeld
    | ok given =>
      rw [outcome_bind_ok ran]
      exact back given middle middleHeld

/-- Work that looks at the workshop first. -/
theorem maintains_get_bind {next : Workshop → Work β}
    (kept : ∀ shop, holds shop → holds (outcome (next shop) shop).2) :
    Maintains holds (get >>= next) := by
  intro shop held
  have ran : outcome get shop = (.ok shop, shop) := rfl
  rw [outcome_bind_ok ran]
  exact kept shop held

theorem maintains_mapM {task : α → Work β} (kept : ∀ given, Maintains holds (task given))
    (items : List α) : Maintains holds (items.mapM task) := by
  induction items with
  | nil => exact maintains_pure []
  | cons given others inductionHypothesis =>
    rw [List.mapM_cons]
    refine maintains_bind (kept given) fun _ => ?_
    exact maintains_bind inductionHypothesis fun _ => maintains_pure _

/-! ## Answers -/

theorem run_eq_of_outcome {work : Work α} {expander : Expander} {shop : Workshop}
    {result : Except ExpansionFault α} (ran : outcome work ⟨expander, []⟩ = (result, shop)) :
    expander.run work = (result, shop.expander, shop.notes) := by
  have opened : expander.run work = ((outcome work ⟨expander, []⟩).1,
      (outcome work ⟨expander, []⟩).2.expander, (outcome work ⟨expander, []⟩).2.notes) := rfl
  rw [opened, ran]

theorem run_eq_ok {work : Work α} {expander later : Expander} {value : α} {notes : List LogRecord} :
    expander.run work = (.ok value, later, notes) ↔
      Runs work ⟨expander, []⟩ value ⟨later, notes⟩ := by
  show ((outcome work ⟨expander, []⟩).1, (outcome work ⟨expander, []⟩).2.expander,
    (outcome work ⟨expander, []⟩).2.notes) = _ ↔ _
  unfold Runs
  cases outcome work ⟨expander, []⟩ with
  | mk result shop =>
    cases shop
    simp

theorem exists_run_of_any {work : Work α} {expander : Expander} {accepts : α → Bool}
    (found : (expander.run work).1.toOption.any accepts = true) :
    ∃ value later notes, expander.run work = (.ok value, later, notes) ∧ accepts value = true := by
  obtain ⟨value, ran, accepted⟩ := exists_of_any found
  exact ⟨value, (expander.run work).2.1, (expander.run work).2.2, Prod.ext ran rfl, accepted⟩

end Work

/-- What is found under a name after something was put in, which goes behind all that was there. -/
theorem known_or_eq_of_lookup_append {α : Type} {known : List (String × α)} {primary name : String}
    {added found : α} (looked : (known ++ [(primary, added)]).lookup name = some found) :
    known.lookup name = some found ∨
      known.lookup name = none ∧ name = primary ∧ found = added := by
  rw [List.lookup_append, List.lookup_cons, Option.or_eq_some_iff] at looked
  obtain old | ⟨unknown, new⟩ := looked
  · exact .inl old
  · split at new
    next same =>
      cases new
      exact .inr ⟨unknown, beq_iff_eq.mp same, rfl⟩
    next => cases new

/-- An expander for one fixed target. -/
def phoneExpander : Expander :=
  .ofSource .empty (.ready { targetPlatform := .text "ios" })

end PeerExpansion
