/-! # Associations

A list of keys with their values, in the order in which the keys first came.
-/

namespace PeerExpansion.Association

variable {Key Value : Type} [DecidableEq Key]

/-- Gives a key a value. A key that is there already keeps its place. -/
def put (entries : List (Key × Value)) (key : Key) (value : Value) : List (Key × Value) :=
  match entries with
  | [] => [(key, value)]
  | (other, old) :: rest =>
    if other = key then (key, value) :: rest else (other, old) :: put rest key value

def erase (entries : List (Key × Value)) (key : Key) : List (Key × Value) :=
  entries.filter fun (other, _) => other != key

section Lookup

variable [BEq Key] [LawfulBEq Key]

theorem lookup_put (entries : List (Key × Value)) (key other : Key) (value : Value) :
    (put entries key value).lookup other =
      if other = key then some value else entries.lookup other := by
  induction entries with
  | nil =>
    by_cases same : other = key
    · simp [put, same]
    · simp [put, List.lookup_cons, same, beq_eq_false_iff_ne.mpr same]
  | cons entry rest ih =>
    obtain ⟨first, old⟩ := entry
    by_cases found : first = key
    · subst found
      simp only [put, if_true, List.lookup_cons]
      by_cases same : other = first
      · simp [same]
      · simp [same, beq_eq_false_iff_ne.mpr same]
    · simp only [put, if_neg found, List.lookup_cons]
      by_cases same : other = first
      · subst same
        simp [found]
      · simp only [beq_eq_false_iff_ne.mpr same]
        exact ih

theorem lookup_erase (entries : List (Key × Value)) (key other : Key) :
    (erase entries key).lookup other = if other = key then none else entries.lookup other := by
  induction entries with
  | nil => simp [erase]
  | cons entry rest ih =>
    obtain ⟨first, old⟩ := entry
    simp only [erase, List.filter_cons] at ih ⊢
    by_cases found : first = key
    · subst found
      simp only [bne_self_eq_false, Bool.false_eq_true, if_false, ih, List.lookup_cons]
      by_cases same : other = first
      · simp [same]
      · simp [same, beq_eq_false_iff_ne.mpr same]
    · simp only [bne_iff_ne, ne_eq, found, not_false_eq_true, if_true, List.lookup_cons]
      by_cases same : other = first
      · subst same
        simp [found]
      · simp only [beq_eq_false_iff_ne.mpr same]
        exact ih

end Lookup

end PeerExpansion.Association
