/-! # What work comes to

An answer that is put together of others tells what those are. Work with a state may also fail and
leave behind what it has done until then: `outcome` is its answer or fault with the state that it
ends in.
-/

namespace PeerExpansion

section Answers

variable {ε δ α β : Type}

theorem exists_of_bind_eq_ok {front : Except ε α} {next : α → Except ε β} {value : β}
    (bound : front >>= next = .ok value) : ∃ given, front = .ok given ∧ next given = .ok value := by
  cases front with
  | error => cases bound
  | ok given => exact ⟨given, rfl, bound⟩

theorem error_of_bind_eq_error {front : Except ε α} {next : α → Except ε β} {fault : ε}
    (bound : front >>= next = .error fault) :
    front = .error fault ∨ ∃ given, front = .ok given ∧ next given = .error fault := by
  cases front with
  | error other =>
    cases bound
    exact .inl rfl
  | ok given => exact .inr ⟨given, rfl, bound⟩

theorem eq_ok_of_mapError {result : Except ε α} {change : ε → δ} {value : α}
    (mapped : result.mapError change = .ok value) : result = .ok value := by
  cases result with
  | error => cases mapped
  | ok given =>
    cases mapped
    rfl

theorem exists_error_of_mapError {result : Except ε α} {change : ε → δ} {fault : δ}
    (mapped : result.mapError change = .error fault) :
    ∃ found, result = .error found ∧ change found = fault := by
  cases result with
  | error found =>
    cases mapped
    exact ⟨found, rfl, rfl⟩
  | ok => cases mapped

theorem exists_of_map_eq_ok {result : Except ε α} {change : α → β} {value : β}
    (mapped : result.map change = .ok value) : ∃ given, result = .ok given ∧ change given = value := by
  cases result with
  | error => cases mapped
  | ok given => exact ⟨given, rfl, Except.ok.inj mapped⟩

/-- What holds of an answer by evaluation says that there is an answer. -/
theorem exists_of_any {result : Except ε α} {accepts : α → Bool}
    (found : result.toOption.any accepts = true) :
    ∃ value, result = .ok value ∧ accepts value = true := by
  cases result with
  | error => cases found
  | ok value => exact ⟨value, rfl, found⟩

/-- What is told of an answer by evaluation says that there is an answer. -/
theorem exists_of_map {result : Except ε α} {change : α → β} {told : β}
    (found : result.toOption.map change = some told) :
    ∃ value, result = .ok value ∧ change value = told := by
  cases result with
  | error => cases found
  | ok value => exact ⟨value, rfl, Option.some.inj found⟩

def fault? : Except ε α → Option ε
  | .error fault => some fault
  | .ok _ => none

/-- What holds of a fault by evaluation says that there is a fault. -/
theorem exists_error_of_any {result : Except ε α} {accepts : ε → Bool}
    (found : (fault? result).any accepts = true) :
    ∃ fault, result = .error fault ∧ accepts fault = true := by
  cases result with
  | error fault => exact ⟨fault, rfl, found⟩
  | ok => cases found

theorem exists_of_mem_of_mapM_eq_ok {task : α → Except ε β} {items : List α} {answers : List β}
    {answer : β} (ran : items.mapM task = .ok answers) (member : answer ∈ answers) :
    ∃ item ∈ items, task item = .ok answer := by
  induction items generalizing answers with
  | nil =>
    obtain rfl := Except.ok.inj ran
    cases member
  | cons item others inductionHypothesis =>
    rw [List.mapM_cons] at ran
    obtain ⟨first, front, ran⟩ := exists_of_bind_eq_ok ran
    obtain ⟨rest, later, ran⟩ := exists_of_bind_eq_ok ran
    obtain rfl := Except.ok.inj ran
    obtain rfl | member := List.mem_cons.mp member
    · exact ⟨item, List.mem_cons_self, front⟩
    · obtain ⟨other, found, answered⟩ := inductionHypothesis later member
      exact ⟨other, List.mem_cons_of_mem item found, answered⟩

theorem exists_mapM_iff {task : α → Except ε β} {items : List α} :
    (∃ answers, items.mapM task = .ok answers) ↔
      ∀ item ∈ items, ∃ answer, task item = .ok answer := by
  induction items with
  | nil => simp [pure, Except.pure]
  | cons item others inductionHypothesis =>
    rw [List.forall_mem_cons, ← inductionHypothesis, List.mapM_cons]
    constructor
    · rintro ⟨answers, ran⟩
      obtain ⟨first, front, ran⟩ := exists_of_bind_eq_ok ran
      obtain ⟨rest, later, -⟩ := exists_of_bind_eq_ok ran
      exact ⟨⟨first, front⟩, rest, later⟩
    · rintro ⟨⟨first, front⟩, rest, later⟩
      exact ⟨first :: rest, by rw [front, later]; rfl⟩

end Answers

section States

variable {ε σ α β : Type} {first middle : σ}

def outcome (work : ExceptT ε (StateM σ) α) (state : σ) : Except ε α × σ :=
  (ExceptT.run work).run state

theorem outcome_bind_ok {work : ExceptT ε (StateM σ) α} {next : α → ExceptT ε (StateM σ) β}
    {given : α} (ran : outcome work first = (.ok given, middle)) :
    outcome (work >>= next) first = outcome (next given) middle := by
  unfold outcome at ran ⊢
  rw [ExceptT.run_bind, StateT.run_bind, ran]
  rfl

theorem outcome_bind_error {work : ExceptT ε (StateM σ) α} {next : α → ExceptT ε (StateM σ) β}
    {fault : ε} (ran : outcome work first = (.error fault, middle)) :
    outcome (work >>= next) first = (.error fault, middle) := by
  unfold outcome at ran ⊢
  rw [ExceptT.run_bind, StateT.run_bind, ran]
  rfl

/-- Work that ends with a value answers no other one. -/
theorem eq_of_outcome_bind_pure {work : ExceptT ε (StateM σ) α} {value other : β}
    (answered : (outcome (work >>= fun _ => pure value) first).1 = .ok other) : other = value := by
  cases ran : outcome work first with
  | mk result middle =>
    cases result with
    | error fault =>
      rw [outcome_bind_error ran] at answered
      cases answered
    | ok given =>
      rw [outcome_bind_ok ran] at answered
      exact (Except.ok.inj answered).symm

theorem outcome_get_bind (next : σ → ExceptT ε (StateM σ) β) :
    outcome (get >>= next) first = outcome (next first) first := rfl

theorem outcome_set_bind (state : σ) (next : PUnit → ExceptT ε (StateM σ) β) :
    outcome (set state >>= next) first = outcome (next ⟨⟩) state := rfl

theorem outcome_modify_bind (change : σ → σ) (next : PUnit → ExceptT ε (StateM σ) β) :
    outcome (modify change >>= next) first = outcome (next ⟨⟩) (change first) := rfl

end States

end PeerExpansion
