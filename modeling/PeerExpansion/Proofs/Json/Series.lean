import Mathlib.Data.List.Induction
import PeerExpansion.Proofs.Json.Consuming

/-! # Reading what was printed: series

Lists and objects are both read as a series of elements between commas, and both are printed with
every element on a line of its own. The length of the text bounds how many elements there are.
-/

namespace PeerExpansion.Json

open Read

variable {α : Type}

/-- Elements between commas, up to a closing bracket. -/
def seriesWithin (closing : Char) (fault : JsonFault) (element : JsonReading α) :
    Nat → JsonReading (List α)
  | 0 => failHere fault
  | limit + 1 => do
    let first ← element
    skipGap
    let here ← get
    if here.head? = some closing then
      set here.tail
      return [first]
    else
      expect ',' .expectingComma
      skipGap
      let others ← seriesWithin closing fault element limit
      return first :: others

theorem ite_head?_of_ne {β : Type} {closing : Char} {here : List Char} {closed goesOn : β}
    (other : ∀ rest, here = closing :: rest → False) :
    (if here.head? = some closing then closed else goesOn) = goesOn := by
  refine if_neg fun same => ?_
  obtain ⟨rest, rfl⟩ := List.head?_eq_some_iff.mp same
  exact other rest rfl

theorem itemsWithin_eq (value : JsonReading Json) (limit : Nat) :
    itemsWithin value limit = seriesWithin ']' .expectingValue value limit := by
  induction limit with
  | zero => rfl
  | succ limit inductionHypothesis =>
    rw [itemsWithin, seriesWithin, inductionHypothesis]
    refine bind_congr fun first => bind_congr fun _ => bind_congr fun here => ?_
    split
    next => rfl
    next other => exact (ite_head?_of_ne other).symm

theorem entriesWithin_eq (value : JsonReading Json) (limit : Nat) :
    entriesWithin value limit = seriesWithin '\x7d' .expectingKey (entry value) limit := by
  induction limit with
  | zero => rfl
  | succ limit inductionHypothesis =>
    rw [entriesWithin, seriesWithin, inductionHypothesis]
    refine bind_congr fun first => bind_congr fun _ => bind_congr fun here => ?_
    split
    next => rfl
    next other => exact (ite_head?_of_ne other).symm

/-- The brackets at which a series ends. -/
def closings : List Char :=
  [']', '\x7d']

theorem isGap_of_mem_closings : ∀ closing ∈ closings, isGap closing = false := by
  simp only [closings, List.forall_mem_cons]
  exact ⟨by decide, by decide, by simp⟩

/-- What begins with no space, no byte order mark and no bracket that ends a series. -/
def Begins (text : List Char) : Prop :=
  ∃ first others, text = first :: others ∧ isGap first = false ∧ first ∉ '\ufeff' :: closings

/-- The text is read as the value wherever a printed value may end. -/
structure Spells (reading : JsonReading α) (text : List Char) (value : α) : Prop where
  begins : Begins text
  consumes : ∀ rest, Stops rest → Consumes reading text value rest

theorem Spells.visible {reading : JsonReading α} {text : List Char} {value : α}
    (spells : Spells reading text value) : Visible text := by
  obtain ⟨first, others, shown, seen, -⟩ := spells.begins
  exact ⟨first, others, shown, seen⟩

/-- The space between the elements of a series: a line feed and an indentation. -/
structure IsBreak (gap : List Char) : Prop where
  head : gap.head? = some '\n'
  blank : gap.all isGap = true

theorem IsBreak.stops {gap : List Char} (isBreak : IsBreak gap) (rest : List Char) :
    Stops (gap ++ rest) := by
  obtain ⟨others, rfl⟩ := List.head?_eq_some_iff.mp isBreak.head
  rintro _ ⟨⟩
  exact Or.inr rfl

theorem visible_intercalate {texts : List (List Char)} (separator : List Char)
    (filled : texts ≠ []) (each : ∀ text ∈ texts, Visible text) :
    Visible (separator.intercalate texts) := by
  obtain ⟨first, others, rfl⟩ := List.exists_cons_of_ne_nil filled
  have seen := each first List.mem_cons_self
  cases others with
  | nil => simpa using seen
  | cons next others =>
    rw [List.intercalate_cons_cons, List.append_assoc]
    exact seen.append _

section Series

variable {closing : Char} {fault : JsonFault} {element : JsonReading α} {limit : Nat}
  {text gap ending more rest : List Char} {value : α} {others : List α}

theorem consumes_last (first : Spells element text value) (outer : IsBreak ending)
    (bracket : closing ∈ closings) :
    Consumes (seriesWithin closing fault element (limit + 1)) (text ++ (ending ++ [closing]))
      [value] rest := by
  have seen := isGap_of_mem_closings closing bracket
  have stops := outer.stops ([closing] ++ rest)
  rw [← List.append_assoc] at stops
  refine (first.consumes _ stops).bind ?_
  refine (consumes_skipGap outer.blank ⟨closing, rest, rfl, seen⟩).bind ?_
  refine consumes_get_bind ?_
  rw [List.singleton_append, if_pos List.head?_cons]
  exact consumes_set_bind [closing] [] (consumes_pure _ _)

theorem consumes_another (first : Spells element text value) (inner : IsBreak gap)
    (bracket : closing ∈ closings) (visible : Visible more)
    (later : Consumes (seriesWithin closing fault element limit) more others rest) :
    Consumes (seriesWithin closing fault element (limit + 1)) (text ++ ',' :: (gap ++ more))
      (value :: others) rest := by
  have first := first.consumes (',' :: (gap ++ more) ++ rest) (by rintro _ ⟨⟩; exact Or.inl rfl)
  refine first.bind ?_
  refine consumes_noGap_bind ⟨',', gap ++ more ++ rest, rfl, rfl⟩ ?_
  refine consumes_get_bind ?_
  have unlike : some ',' ≠ some closing := by
    rintro ⟨⟩
    exact absurd bracket (by decide)
  rw [List.cons_append, List.head?_cons, if_neg unlike]
  refine (consumes_expect ',' _ _).bind ?_
  refine (consumes_skipGap inner.blank (visible.append rest)).bind ?_
  rw [← List.append_nil more]
  exact later.bind (consumes_pure _ _)

/-- A series of printed elements is read up to its closing bracket. -/
theorem consumes_seriesWithin {elements : List (List Char × α)} (bracket : closing ∈ closings)
    (inner : IsBreak gap) (outer : IsBreak ending)
    (filled : elements ≠ []) (each : ∀ part ∈ elements, Spells element part.1 part.2)
    (enough : elements.length ≤ limit) :
    Consumes (seriesWithin closing fault element limit)
      ((',' :: gap).intercalate (elements.map Prod.fst) ++ (ending ++ [closing]))
      (elements.map Prod.snd) rest := by
  induction elements generalizing limit with
  | nil => exact absurd rfl filled
  | cons part others inductionHypothesis =>
    obtain ⟨limit, rfl⟩ := Nat.exists_eq_add_one_of_ne_zero (Nat.ne_zero_of_lt enough)
    have first := each part List.mem_cons_self
    cases others with
    | nil => simpa using consumes_last first outer bracket
    | cons next others =>
      have each : ∀ part ∈ next :: others, Spells element part.1 part.2 :=
        fun part member => each part (List.mem_cons_of_mem _ member)
      have later := inductionHypothesis (List.cons_ne_nil next others) each
        (Nat.le_of_lt_succ enough)
      have visible : Visible ((',' :: gap).intercalate ((next :: others).map Prod.fst)) :=
        visible_intercalate _ (List.cons_ne_nil _ _)
          (List.forall_mem_map.mpr fun part member => (each part member).visible)
      have read := consumes_another first inner bracket (visible.append _) later
      simp only [List.map_cons] at read ⊢
      rw [List.intercalate_cons_cons]
      simpa only [List.append_assoc, List.cons_append] using read

end Series

/-! ## Bracketed values -/

theorem isBreak_newLine (depth : Nat) : IsBreak (newLine depth).toList where
  head := by simp [newLine]
  blank := by simp [newLine, isGap]

theorem toList_bracketed (opening closing : String) (depth : Nat) {parts : List String}
    (filled : parts ≠ []) :
    (bracketed opening closing depth parts).toList =
      opening.toList ++ ((newLine (depth + 1)).toList ++
        ((',' :: (newLine (depth + 1)).toList).intercalate (parts.map String.toList) ++
          ((newLine depth).toList ++ closing.toList))) := by
  rw [bracketed, if_neg (by simpa using filled)]
  simp [String.toList_intercalate]

theorem length_le_length_intercalate {text : List Char} {texts : List (List Char)}
    (separator : List Char) (member : text ∈ texts) :
    text.length ≤ (separator.intercalate texts).length := by
  induction texts with
  | nil => cases member
  | cons first others inductionHypothesis =>
    cases others with
    | nil =>
      obtain rfl := List.mem_singleton.mp member
      simp
    | cons next others =>
      rw [List.intercalate_cons_cons, List.length_append, List.length_append]
      obtain rfl | member := List.mem_cons.mp member
      · omega
      · have := inductionHypothesis member
        omega

theorem length_le_length_intercalate_of_visible {texts : List (List Char)} (separator : List Char)
    (each : ∀ text ∈ texts, Visible text) :
    texts.length ≤ (separator.intercalate texts).length := by
  induction texts with
  | nil => exact Nat.le_refl _
  | cons first others inductionHypothesis =>
    obtain ⟨character, rest, rfl, -⟩ := each first List.mem_cons_self
    have fewer := inductionHypothesis fun text member => each text (List.mem_cons_of_mem _ member)
    cases others with
    | nil => simp
    | cons next others =>
      rw [List.intercalate_cons_cons, List.length_append, List.length_append]
      simp only [List.length_cons] at fewer ⊢
      omega

theorem toList_bracketed_eq_append (opening closing : String) (depth : Nat) (parts : List String) :
    (bracketed opening closing depth parts).toList =
      opening.toList ++ (bracketed "" closing depth parts).toList := by
  unfold bracketed
  split <;> simp

theorem length_lt_length_bracketed {opening part : String} {parts : List String}
    (bracket : opening.toList ≠ []) (closing : String) (depth : Nat) (member : part ∈ parts) :
    part.toList.length < (bracketed opening closing depth parts).toList.length := by
  have inner := length_le_length_intercalate (',' :: (newLine (depth + 1)).toList)
    (List.mem_map_of_mem (f := String.toList) member)
  have outer := List.length_pos_iff.mpr bracket
  rw [toList_bracketed opening closing depth (List.ne_nil_of_mem member)]
  simp only [List.length_append]
  omega

/-- A series behind its opening bracket, which may be empty. -/
def series (closing : Char) (fault : JsonFault) (element : JsonReading α) :
    JsonReading (List α) := do
  skipGap
  let here ← get
  if here.head? = some closing then
    set here.tail
    return []
  else seriesWithin closing fault element (here.length + 1)

theorem items_eq (value : JsonReading Json) : items value = series ']' .expectingValue value := by
  rw [items, series]
  refine bind_congr fun _ => bind_congr fun here => ?_
  split
  next => rfl
  next other =>
    rw [itemsWithin_eq]
    exact (ite_head?_of_ne other).symm

theorem entries_eq (value : JsonReading Json) :
    entries value = series '\x7d' .expectingKey (entry value) := by
  rw [entries, series]
  refine bind_congr fun _ => bind_congr fun here => ?_
  split
  next => rfl
  next other =>
    rw [entriesWithin_eq]
    exact (ite_head?_of_ne other).symm

theorem head?_intercalate {first : List Char} (separator : List Char)
    (others : List (List Char)) (filled : first ≠ []) :
    (separator.intercalate (first :: others)).head? = first.head? := by
  cases others with
  | nil => simp
  | cons next others =>
    rw [List.intercalate_cons_cons, List.append_assoc, List.head?_append_of_ne_nil _ filled]

section Bracketed

variable {opening closing : Char} {fault : JsonFault} {element : JsonReading α}
  {gap ending rest : List Char}

theorem consumes_series_nil (bracket : closing ∈ closings) :
    Consumes (series closing fault element) [closing] [] rest := by
  have seen := isGap_of_mem_closings closing bracket
  refine consumes_noGap_bind ⟨closing, rest, rfl, seen⟩ ?_
  refine consumes_get_bind ?_
  rw [List.singleton_append, List.head?_cons, if_pos rfl]
  exact consumes_set_bind [closing] [] (consumes_pure _ _)

theorem consumes_series (elements : List (List Char × α)) (bracket : closing ∈ closings)
    (inner : IsBreak gap) (outer : IsBreak ending) (filled : elements ≠ [])
    (each : ∀ part ∈ elements, Spells element part.1 part.2) :
    Consumes (series closing fault element)
      (gap ++ ((',' :: gap).intercalate (elements.map Prod.fst) ++ (ending ++ [closing])))
      (elements.map Prod.snd) rest := by
  have seen : ∀ text ∈ elements.map Prod.fst, Visible text :=
    List.forall_mem_map.mpr fun part member => (each part member).visible
  have visible := visible_intercalate (',' :: gap) (by simpa using filled) seen
  have counted := length_le_length_intercalate_of_visible (',' :: gap) seen
  refine (consumes_skipGap inner.blank ((visible.append _).append rest)).bind ?_
  refine consumes_get_bind ?_
  -- The first element does not begin with the closing bracket, so the series is not empty.
  have unlike : ((',' :: gap).intercalate (elements.map Prod.fst) ++ (ending ++ [closing]) ++
      rest).head? ≠ some closing := by
    obtain ⟨part, others, rfl⟩ := List.exists_cons_of_ne_nil filled
    obtain ⟨first, more, shown, -, unclosing⟩ := (each part List.mem_cons_self).begins
    rw [List.append_assoc, List.head?_append, List.map_cons,
      head?_intercalate _ _ (by simp [shown]), shown]
    rintro ⟨⟩
    exact unclosing (List.mem_cons_of_mem _ bracket)
  rw [if_neg unlike]
  refine consumes_seriesWithin bracket inner outer filled each ?_
  simp only [List.length_append, List.length_map] at counted ⊢
  omega

/-- What is bracketed is read behind its opening bracket. -/
theorem consumes_bracketed (elements : List (String × α)) (bracket : closing ∈ closings)
    (each : ∀ part ∈ elements, Spells element part.1.toList part.2) (depth : Nat) :
    Consumes (series closing fault element)
      (bracketed "" (String.singleton closing) depth (elements.map Prod.fst)).toList
      (elements.map Prod.snd) rest := by
  by_cases filled : elements = []
  · subst filled
    simpa [bracketed] using consumes_series_nil bracket
  · have each : ∀ part ∈ elements.map fun part => (part.1.toList, part.2),
        Spells element part.1 part.2 := List.forall_mem_map.mpr each
    have read : Consumes (series closing fault element) _ _ rest :=
      consumes_series _ bracket (isBreak_newLine (depth + 1)) (isBreak_newLine depth)
        (by simpa using filled) each
    rw [toList_bracketed _ _ _ (by simpa using filled)]
    simpa [Function.comp_def] using read

end Bracketed

end PeerExpansion.Json
