import PeerExpansion.Json
import PeerExpansion.Proofs.Association

/-! # Layers of settings

Putting a layer over settings, with no key twice in either: what is set for a key afterwards, which
keys there are, and what is left when some keys are taken out.
-/

namespace PeerExpansion.Settings

variable {settings layer : Settings} {key : String} {value : Json}

@[simp]
theorem putAll_nil (settings : Settings) : settings.putAll [] = settings := rfl

theorem putAll_cons (settings : Settings) (key : String) (value : Json) (layer : Settings) :
    settings.putAll ((key, value) :: layer) = (settings.put key value).putAll layer := rfl

theorem distinct_putAll (distinct : Association.Distinct settings) (layer : Settings) :
    Association.Distinct (settings.putAll layer) := by
  induction layer generalizing settings with
  | nil => exact distinct
  | cons setting layer inductionHypothesis =>
    exact inductionHypothesis (distinct.put setting.1 setting.2)

theorem get?_putAll (distinct : Association.Distinct layer) (settings : Settings) (key : String) :
    (settings.putAll layer).get? key = (layer.get? key).or (settings.get? key) := by
  induction layer generalizing settings with
  | nil => rfl
  | cons setting layer inductionHypothesis =>
    obtain ⟨first, value⟩ := setting
    obtain ⟨fresh, distinct⟩ := List.nodup_cons.mp distinct
    rw [putAll_cons, inductionHypothesis distinct, get?_put]
    change _ = (List.lookup key ((first, value) :: layer)).or _
    rw [List.lookup_cons]
    by_cases same : key = first
    · subst same
      have absent : Settings.get? layer key = none := by
        rw [get?, ← Option.not_isSome_iff_eq_none, Association.isSome_lookup_iff]
        exact fresh
      simp [absent]
    · rw [if_neg same, beq_eq_false_iff_ne.mpr same]
      rfl

/-- Over settings that have none of its keys, a layer is put behind them as it is. -/
theorem putAll_eq_append (distinct : Association.Distinct (settings ++ layer)) :
    settings.putAll layer = settings ++ layer := by
  induction layer generalizing settings with
  | nil => exact (List.append_nil settings).symm
  | cons setting layer inductionHypothesis =>
    obtain ⟨key, value⟩ := setting
    have fresh : key ∉ settings.map Prod.fst := by
      intro member
      rw [Association.Distinct, List.map_append, List.nodup_append] at distinct
      exact distinct.2.2 key member key List.mem_cons_self rfl
    have put_eq : settings.put key value = settings ++ [(key, value)] :=
      Association.put_eq_append fresh
    rw [putAll_cons, put_eq, inductionHypothesis (by simpa using distinct)]
    simp

theorem putAll_nil_left (distinct : Association.Distinct layer) : putAll [] layer = layer :=
  putAll_eq_append distinct

theorem filter_putAll (keeps : String → Bool) (settings layer : Settings) :
    (settings.putAll layer).filter (fun setting => keeps setting.1) =
      putAll (settings.filter fun setting => keeps setting.1)
        (layer.filter fun setting => keeps setting.1) := by
  induction layer generalizing settings with
  | nil => rfl
  | cons setting layer inductionHypothesis =>
    obtain ⟨key, value⟩ := setting
    rw [putAll_cons, inductionHypothesis, put, Association.filter_put]
    split
    next kept => rw [List.filter_cons_of_pos (by exact kept), putAll_cons]; rfl
    next dropped => rw [List.filter_cons_of_neg (by exact dropped)]

theorem mem_putAll {setting : String × Json} (member : setting ∈ settings.putAll layer) :
    setting ∈ settings ∨ setting ∈ layer := by
  induction layer generalizing settings with
  | nil => exact Or.inl member
  | cons first layer inductionHypothesis =>
    obtain earlier | later := @inductionHypothesis (settings.put first.1 first.2) member
    · obtain same | old := Association.mem_put earlier
      · exact Or.inr (same ▸ List.mem_cons_self)
      · exact Or.inl old
    · exact Or.inr (List.mem_cons_of_mem _ later)

end PeerExpansion.Settings
