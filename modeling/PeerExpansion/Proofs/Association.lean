import Mathlib.Data.List.Nodup
import PeerExpansion.Association

/-! # Associations with distinct keys

Where no key comes twice, what an association holds for a key is the one entry with that key.
Putting and erasing keep the keys distinct.
-/

namespace PeerExpansion.Association

variable {Key Value : Type} {entries : List (Key × Value)} {key : Key} {value : Value}

/-- No key comes twice. -/
def Distinct (entries : List (Key × Value)) : Prop :=
  (entries.map Prod.fst).Nodup

instance [DecidableEq Key] (entries : List (Key × Value)) : Decidable (Distinct entries) :=
  inferInstanceAs (Decidable (List.Nodup _))

theorem Distinct.nil : Distinct ([] : List (Key × Value)) :=
  List.nodup_nil

theorem Distinct.filter (distinct : Distinct entries) (keeps : Key × Value → Bool) :
    Distinct (entries.filter keeps) :=
  List.Nodup.sublist (List.filter_sublist.map _) distinct

section Lookup

variable [BEq Key] [LawfulBEq Key]

theorem isSome_lookup_iff : (entries.lookup key).isSome = true ↔ key ∈ entries.map Prod.fst := by
  induction entries with
  | nil => simp
  | cons entry rest inductionHypothesis =>
    rw [List.lookup_cons, List.map_cons, List.mem_cons]
    by_cases same : key = entry.1
    · simp [same]
    · simp [same, beq_eq_false_iff_ne.mpr same, inductionHypothesis]

theorem lookup_map_value {Other : Type} (entries : List (Key × Value))
    (change : Key → Value → Other) :
    (entries.map fun entry => (entry.1, change entry.1 entry.2)).lookup key =
      (entries.lookup key).map (change key) := by
  induction entries with
  | nil => rfl
  | cons entry rest inductionHypothesis =>
    rw [List.map_cons, List.lookup_cons, List.lookup_cons, inductionHypothesis]
    by_cases same : key = entry.1
    · simp [same]
    · simp [beq_eq_false_iff_ne.mpr same]

theorem lookup_filter (keeps : Key → Bool) (entries : List (Key × Value)) (key : Key) :
    (entries.filter fun entry => keeps entry.1).lookup key =
      if keeps key = true then entries.lookup key else none := by
  induction entries with
  | nil => simp
  | cons entry rest inductionHypothesis =>
    obtain ⟨first, value⟩ := entry
    rw [List.filter_cons]
    by_cases same : key = first
    · subst same
      by_cases kept : keeps key = true <;> simp [kept, inductionHypothesis]
    · by_cases front : keeps first = true <;>
        simp [front, inductionHypothesis, List.lookup_cons, beq_eq_false_iff_ne.mpr same]

theorem mem_of_lookup (known : entries.lookup key = some value) : (key, value) ∈ entries := by
  obtain ⟨front, back, rfl, -⟩ := List.lookup_eq_some_iff.mp known
  simp

theorem Distinct.lookup_eq_some_iff (distinct : Distinct entries) :
    entries.lookup key = some value ↔ (key, value) ∈ entries := by
  refine ⟨mem_of_lookup, fun member => ?_⟩
  induction entries with
  | nil => cases member
  | cons entry rest inductionHypothesis =>
    obtain ⟨fresh, distinct⟩ := List.nodup_cons.mp distinct
    rw [List.lookup_cons]
    obtain rfl | member := List.mem_cons.mp member
    · simp
    · have unlike : (key == entry.1) = false := by
        rw [beq_eq_false_iff_ne]
        rintro rfl
        exact fresh (List.mem_map.mpr ⟨_, member, rfl⟩)
      rw [unlike]
      exact inductionHypothesis distinct member

end Lookup

section Put

variable [DecidableEq Key]

theorem mem_keys_put {other : Key} :
    other ∈ (put entries key value).map Prod.fst ↔ other = key ∨ other ∈ entries.map Prod.fst := by
  induction entries with
  | nil => simp [put]
  | cons entry rest inductionHypothesis =>
    obtain ⟨first, old⟩ := entry
    rw [put]
    split
    next same => simp [same]
    next =>
      rw [List.map_cons, List.mem_cons, inductionHypothesis, List.map_cons, List.mem_cons]
      exact or_left_comm

theorem Distinct.put (distinct : Distinct entries) (key : Key) (value : Value) :
    Distinct (put entries key value) := by
  induction entries with
  | nil => exact List.nodup_singleton key
  | cons entry rest inductionHypothesis =>
    obtain ⟨first, old⟩ := entry
    obtain ⟨fresh, distinct⟩ := List.nodup_cons.mp distinct
    rw [Association.put]
    split
    next same =>
      subst same
      exact List.nodup_cons.mpr ⟨fresh, distinct⟩
    next unlike =>
      refine List.nodup_cons.mpr ⟨fun member => ?_, inductionHypothesis distinct⟩
      obtain same | old := mem_keys_put.mp member
      · exact unlike same
      · exact fresh old

/-- A new key comes last. -/
theorem put_eq_append (fresh : key ∉ entries.map Prod.fst) :
    Association.put entries key value = entries ++ [(key, value)] := by
  induction entries with
  | nil => rfl
  | cons entry rest inductionHypothesis =>
    obtain ⟨first, old⟩ := entry
    rw [List.map_cons, List.mem_cons, not_or] at fresh
    rw [Association.put, if_neg (Ne.symm fresh.1), inductionHypothesis fresh.2, List.cons_append]

theorem mem_put {entry : Key × Value} (member : entry ∈ Association.put entries key value) :
    entry = (key, value) ∨ entry ∈ entries := by
  induction entries with
  | nil => exact Or.inl (List.mem_singleton.mp member)
  | cons first rest inductionHypothesis =>
    rw [Association.put] at member
    split at member
    next => exact (List.mem_cons.mp member).imp_right (List.mem_cons_of_mem _)
    next =>
      obtain rfl | member := List.mem_cons.mp member
      · exact Or.inr List.mem_cons_self
      · exact (inductionHypothesis member).imp_right (List.mem_cons_of_mem _)

theorem filter_put (keeps : Key → Bool) (entries : List (Key × Value)) (key : Key)
    (value : Value) :
    (Association.put entries key value).filter (fun entry => keeps entry.1) =
      if keeps key = true then
        Association.put (entries.filter fun entry => keeps entry.1) key value
      else entries.filter fun entry => keeps entry.1 := by
  induction entries with
  | nil => by_cases kept : keeps key = true <;> simp [Association.put, kept]
  | cons entry rest inductionHypothesis =>
    obtain ⟨first, old⟩ := entry
    rw [Association.put]
    by_cases same : first = key
    · subst same
      rw [if_pos rfl]
      by_cases kept : keeps first = true <;> simp [kept, Association.put]
    · rw [if_neg same, List.filter_cons, List.filter_cons, inductionHypothesis]
      by_cases kept : keeps key = true <;> by_cases front : keeps first = true <;>
        simp [kept, front, Association.put, same]

/-- Putting a value in for a key that has this value already, or none at all, leaves the entries
with other values as they are. -/
theorem filter_value_put [DecidableEq Value] [BEq Key] [LawfulBEq Key]
    (own : ∀ old, entries.lookup key = some old → old = value) :
    (Association.put entries key value).filter (fun entry => entry.2 != value) =
      entries.filter fun entry => entry.2 != value := by
  induction entries with
  | nil => simp [Association.put]
  | cons entry rest inductionHypothesis =>
    obtain ⟨first, old⟩ := entry
    rw [Association.put]
    by_cases same : first = key
    · subst same
      obtain rfl := own old (by simp)
      simp
    · rw [if_neg same, List.filter_cons, List.filter_cons, inductionHypothesis]
      intro other found
      refine own other ?_
      rw [List.lookup_cons, beq_eq_false_iff_ne.mpr (Ne.symm same)]
      exact found

theorem Distinct.erase (distinct : Distinct entries) (key : Key) :
    Distinct (erase entries key) :=
  distinct.filter _

theorem erase_put (entries : List (Key × Value)) (key : Key) (value : Value) :
    Association.erase (Association.put entries key value) key = Association.erase entries key := by
  have kept := filter_put (fun other => other != key) entries key value
  rwa [if_neg (by simp)] at kept

theorem erase_eq_self (fresh : key ∉ entries.map Prod.fst) :
    Association.erase entries key = entries := by
  refine List.filter_eq_self.mpr fun entry member => bne_iff_ne.mpr ?_
  rintro rfl
  exact fresh (List.mem_map_of_mem member)

end Put

end PeerExpansion.Association
