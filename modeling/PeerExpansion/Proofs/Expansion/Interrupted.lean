import PeerExpansion.Proofs.CachedProperty.Misuse
import PeerExpansion.Proofs.Expansion.Delivery

/-! # Expansions that a misused setting ends

The way of a search does not depend on the settings. A setting that is misused at one of the
declarations on the way ends the expansion; where none is, the expansion comes to a result.
`Settles` says of a piece of work just when it is ended.
-/

namespace PeerExpansion

namespace Work

variable {α β : Type}

/-- Where `holds` is true of the workshop, a misused setting ends the work if `ended` says so.
Otherwise the work answers what fits, and `holds` is true of the workshop afterwards. -/
def Settles (holds : Workshop → Prop) (ended : Prop) (work : Work α) (Fits : α → Prop) : Prop :=
  ∀ shop, holds shop →
    (ended → ∃ misuse later,
      outcome work shop = (.error (.interrupted (.misused misuse)), later)) ∧
    (¬ended → ∃ value later, Runs work shop value later ∧ holds later ∧ Fits value)

variable {holds : Workshop → Prop} {ended endedLater : Prop}

theorem Delivers.settles {work : Work α} {Fits : α → Prop} (delivers : Delivers holds work Fits) :
    Settles holds False work Fits :=
  fun shop held => ⟨False.elim, fun _ => delivers shop held⟩

theorem settles_bind {work : Work α} {next : α → Work β} {Given : α → Prop} {Fits : β → Prop}
    (front : Settles holds ended work Given)
    (back : ∀ given, Given given → Settles holds endedLater (next given) Fits) :
    Settles holds (ended ∨ endedLater) (work >>= next) Fits := by
  intro shop held
  obtain ⟨stops, goesOn⟩ := front shop held
  -- What the front has ended does not come to the rest.
  by_cases here : ended
  · obtain ⟨misuse, later, ran⟩ := stops here
    exact ⟨fun _ => ⟨misuse, later, outcome_bind_error ran⟩,
      fun neither => absurd (.inl here) neither⟩
  · obtain ⟨given, middle, runs, middleHeld, fits⟩ := goesOn here
    obtain ⟨stopsLater, goesOnLater⟩ := back given fits middle middleHeld
    refine ⟨fun either => ?_, fun neither => ?_⟩
    · obtain ⟨misuse, later, ran⟩ := stopsLater (either.resolve_left here)
      exact ⟨misuse, later, (outcome_bind_ok runs).trans ran⟩
    · obtain ⟨value, later, nextRuns, laterHeld, valueFits⟩ :=
        goesOnLater fun there => neither (.inr there)
      exact ⟨value, later, runs_bind.mpr ⟨given, middle, runs, nextRuns⟩, laterHeld, valueFits⟩

/-- Work that only puts together what was answered before. -/
theorem settles_bind_pure {work : Work α} {change : α → β} {Given : α → Prop} {Fits : β → Prop}
    (front : Settles holds ended work Given) (fits : ∀ given, Given given → Fits (change given)) :
    Settles holds ended (work >>= fun given => pure (change given)) Fits := by
  have both := settles_bind front fun given known => (delivers_pure (fits given known)).settles
  rwa [or_false] at both

theorem settles_mapM {task : α → Work β} {Fits : β → Prop} {endedAt : α → Prop} {items : List α}
    (each : ∀ item ∈ items, Settles holds (endedAt item) (task item) Fits) :
    Settles holds (∃ item ∈ items, endedAt item) (items.mapM task)
      fun values => ∀ value ∈ values, Fits value := by
  induction items with
  | nil =>
    have never : (∃ item ∈ ([] : List α), endedAt item) = False := by simp
    rw [never]
    exact (delivers_pure (by simp)).settles
  | cons item others inductionHypothesis =>
    rw [List.mapM_cons]
    obtain ⟨first, rest⟩ := List.forall_mem_cons.mp each
    rw [List.exists_mem_cons_iff]
    refine settles_bind first fun value fits => ?_
    exact settles_bind_pure (inductionHypothesis rest) fun values allFit =>
      List.forall_mem_cons.mpr ⟨fits, allFit⟩

end Work

open Expander Reading Work

variable {registry : Registry.Macros} {sourceName : String} {stream : TokenStream}

/-! ## The way of the search -/

/-- The search through the source comes to the declaration. -/
def Meets (registry : Registry.Macros) (source : List Char) (declaration : Declaration) : Prop :=
  ∃ stream visits visit, TokenStream.scan source = .ok stream ∧ Walk registry stream 0 visits ∧
    visit ∈ visits ∧ visit.sight = .declared declaration

/-! ## Ended expansions -/

section Ended

variable (machine : String) (configuration : Configuration)

open CachedProperty in
/-- A macro of the declaration makes the expansion use a setting that cannot be used. -/
def Misuses (declaration : Declaration) : Prop :=
  ∃ attr ∈ macroAttributes (Registry.standard machine) declaration.attributes,
    IsAcceptable configuration attr declaration ∧ IsUnservable machine configuration

variable {configuration} in
/-- Settings of the right sorts are never misused. -/
theorem not_misuses_of_wellTyped (typed : configuration.WellTyped) (declaration : Declaration) :
    ¬Misuses machine configuration declaration := by
  rintro ⟨_, -, -, ⟨truthy, unnamed⟩ | ⟨-, misuse, failed⟩⟩
  · obtain unset | ⟨platform, set⟩ := typed.targetPlatform
    · rw [unset] at truthy
      cases truthy
    · exact unnamed platform set
  · obtain ⟨unit, unit_eq⟩ := typed.exists_indentUnit
    rw [unit_eq] at failed
    cases failed

/-- The peers that were made at an attribute are those that are generated for it. -/
def IsGenerated (declaration : Declaration) (answer : Attribute × ExpansionResult) : Prop :=
  ∀ expansion, answer.2 = .ok expansion → ∃ texts,
    (CachedProperty.generate machine "ImageCache" configuration answer.1 declaration).outcome =
      .ok texts ∧ expansion.peers = texts.map Text.tidy

def Finding.IsGenerated (finding : Finding) : Prop :=
  ∀ declaration results, finding = .declared declaration results →
    ∀ answer ∈ results, PeerExpansion.IsGenerated machine configuration declaration answer

variable {machine configuration} {suffix : String}
  (suffix_eq : configuration.suffix = .text suffix)
include suffix_eq

open CachedProperty in
theorem settles_expandAttribute (declaration : Declaration) {attr : Attribute}
    (supported : (Registry.standard machine).isSupported attr.name = true) :
    Settles (Workshop.Supplied machine configuration)
      (IsAcceptable configuration attr declaration ∧ IsUnservable machine configuration)
      (expandAttribute (Registry.standard machine) declaration sourceName attr)
      (IsGenerated machine configuration declaration) := by
  unfold expandAttribute
  rw [Registry.eq_of_isSupported_standard supported, ← false_or (_ ∧ _)]
  refine settles_bind delivers_generatorFor.settles fun generator serves => ?_
  rw [← false_or (_ ∧ _)]
  refine settles_bind (delivers_modify fun _ supplied =>
    supplied.used _ attr declaration _).settles fun _ _ => ?_
  have generate_eq := (Generator.generate_eq_of_behaviour serves).trans
    (generate_generator machine _ _ configuration)
  intro shop held
  refine ⟨fun ⟨acceptable, unservable⟩ => ?_, fun servable => ?_⟩
  · obtain ⟨misuse, outcome_eq⟩ := exists_misuse_of_isUnservable unservable acceptable
    simp only [generate_eq, outcome_eq]
    exact ⟨misuse, shop, rfl⟩
  · obtain ⟨texts, outcome_eq⟩ | ⟨complaint, outcome_eq⟩ :=
      generate_outcome_of_servable suffix_eq fun acceptable unservable =>
        servable ⟨acceptable, unservable⟩
    · simp only [generate_eq, outcome_eq]
      refine ⟨_, shop, runs_pure.mpr ⟨rfl, rfl⟩, held, fun expansion made => ?_⟩
      cases made
      exact ⟨texts, outcome_eq, rfl⟩
    · simp only [generate_eq, outcome_eq]
      exact ⟨_, shop, runs_pure.mpr ⟨rfl, rfl⟩, held, nofun⟩

theorem settles_expandDeclaration (declaration : Declaration) :
    Settles (Workshop.Supplied machine configuration) (Misuses machine configuration declaration)
      (expandDeclaration (Registry.standard machine) declaration sourceName)
      fun results => ∀ answer ∈ results, IsGenerated machine configuration declaration answer :=
  settles_mapM fun _ member =>
    settles_expandAttribute suffix_eq declaration (List.mem_filter.mp member).2

/-- The work on the way is ended if one of the declarations ends it. -/
theorem settles_reportAll (visits : List Visit) :
    Settles (Workshop.Supplied machine configuration)
      (∃ visit ∈ visits, ∃ declaration, visit.sight = .declared declaration ∧
        Misuses machine configuration declaration)
      (reportAll (Registry.standard machine) sourceName visits)
      fun findings => ∀ finding ∈ findings, finding.IsGenerated machine configuration := by
  induction visits with
  | nil =>
    simp only [List.not_mem_nil, false_and, exists_false]
    exact (delivers_pure (List.forall_mem_nil _)).settles
  | cons visit visits inductionHypothesis =>
    obtain ⟨place, sight, next⟩ := visit
    rw [List.exists_mem_cons_iff]
    cases sight with
    | nothing | plain =>
      simp only [reportAll, reduceCtorEq, false_and, exists_false, false_or]
      exact inductionHypothesis
    | unreadable attributes error =>
      simp only [reportAll, reduceCtorEq, false_and, exists_false, false_or]
      refine settles_bind_pure inductionHypothesis fun findings made =>
        List.forall_mem_cons.mpr ⟨?_, made⟩
      rintro _ _ ⟨⟩
    | declared declaration =>
      simp only [reportAll, Sight.declared.injEq, exists_eq_left']
      refine settles_bind (settles_expandDeclaration suffix_eq declaration) fun results made => ?_
      refine settles_bind_pure inductionHypothesis fun findings othersMade =>
        List.forall_mem_cons.mpr ⟨?_, othersMade⟩
      rintro _ _ ⟨⟩
      exact made

theorem settles_find {source : List Char} (scanned : TokenStream.scan source = .ok stream) :
    Settles (Workshop.Supplied machine configuration)
      (∃ declaration, Meets (Registry.standard machine) source declaration ∧
        Misuses machine configuration declaration)
      (find (Registry.standard machine) sourceName stream)
      fun findings => ∀ finding ∈ findings, finding.IsGenerated machine configuration := by
  have ordered := (TokenStream.ordered_of_scan scanned).2
  obtain ⟨visits, walk, same⟩ := exists_find_eq (Registry.standard machine) sourceName ordered
  have met (declaration : Declaration) : Meets (Registry.standard machine) source declaration ↔
      ∃ visit ∈ visits, visit.sight = .declared declaration := by
    constructor
    · -- There is only one way through the source.
      rintro ⟨other, others, visit, otherScanned, otherWalk, member, declared⟩
      cases scanned.symm.trans otherScanned
      rw [walk.unique ordered otherWalk]
      exact ⟨visit, member, declared⟩
    · rintro ⟨visit, member, declared⟩
      exact ⟨stream, visits, visit, scanned, walk, member, declared⟩
  have ended_iff : (∃ declaration, Meets (Registry.standard machine) source declaration ∧
      Misuses machine configuration declaration) ↔
        ∃ visit ∈ visits, ∃ declaration, visit.sight = .declared declaration ∧
          Misuses machine configuration declaration := by
    constructor
    · rintro ⟨declaration, meets, misuses⟩
      obtain ⟨visit, member, declared⟩ := (met declaration).mp meets
      exact ⟨visit, member, declaration, declared, misuses⟩
    · rintro ⟨visit, member, declaration, declared, misuses⟩
      exact ⟨declaration, (met declaration).mpr ⟨visit, member, declared⟩, misuses⟩
  rw [ended_iff, same]
  exact settles_reportAll suffix_eq visits

/-- An expansion is ended just if the search comes to a declaration that misuses a setting. -/
theorem settles_expand (source : List Char) :
    Settles (Workshop.Supplied machine configuration)
      (∃ declaration, Meets (Registry.standard machine) source declaration ∧
        Misuses machine configuration declaration)
      (expand (Registry.standard machine) source sourceName) fun _ => True := by
  unfold expand
  split
  next error unread =>
    have never : ¬∃ declaration, Meets (Registry.standard machine) source declaration ∧
        Misuses machine configuration declaration := by
      rintro ⟨declaration, ⟨stream, _, _, scanned, -⟩, -⟩
      cases unread.symm.trans scanned
    rw [eq_false never]
    exact (delivers_pure trivial).settles
  next stream scanned =>
    rw [← or_false (∃ declaration, _)]
    refine settles_bind (settles_find suffix_eq scanned) fun findings _ => ?_
    refine (delivers_bind (delivers_modify fun _ supplied =>
      ⟨supplied.source_eq, supplied.serves⟩) fun _ _ => delivers_pure trivial).settles

end Ended

end PeerExpansion
