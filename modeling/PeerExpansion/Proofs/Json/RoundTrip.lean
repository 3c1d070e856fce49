import PeerExpansion.Proofs.Json.Series
import PeerExpansion.Proofs.Settings

/-! # Reading what was printed: whole values

A plain value is printed and read again to the same value. The text of a value is long enough to
bound how deep it nests.
-/

namespace PeerExpansion.Json

open Read

variable {α : Type}

/-- A value without fractions, in whose objects no key comes twice. -/
inductive Plain : Json → Prop
  | null : Plain null
  | bool (value : Bool) : Plain (bool value)
  | int (value : Int) : Plain (int value)
  | text (value : String) : Plain (text value)
  | list {items : List Json} (plain : ∀ item ∈ items, Plain item) : Plain (list items)
  | object {entries : Settings} (distinct : Association.Distinct entries)
    (plain : ∀ entry ∈ entries, Plain entry.2) : Plain (object entries)

theorem printItems_eq (depth : Nat) (items : List Json) :
    printItems depth items = items.map (printAt depth) := by
  induction items with
  | nil => rfl
  | cons item others inductionHypothesis =>
    rw [printItems, inductionHypothesis, List.map_cons]

theorem printEntries_eq (depth : Nat) (entries : Settings) :
    printEntries depth entries =
      entries.map fun entry => printText entry.1 ++ ": " ++ entry.2.printAt depth := by
  induction entries with
  | nil => rfl
  | cons entry others inductionHypothesis =>
    rw [printEntries, inductionHypothesis, List.map_cons]

/-- The value is printed as a text that is read again, with a limit as long as the text. -/
def ReadsBack (value : Json) : Prop :=
  ∀ depth limit, (value.printAt depth).toList.length ≤ limit →
    Spells (valueWithin limit) (value.printAt depth).toList value

theorem readsBack_of_printAt {value : Json} (shown : String)
    (printed : ∀ depth, value.printAt depth = shown) (begins : Begins shown.toList)
    (read : ∀ limit rest, Stops rest → Consumes (valueWithin (limit + 1)) shown.toList value rest) :
    ReadsBack value := by
  intro depth limit enough
  rw [printed] at enough ⊢
  refine ⟨begins, fun rest stops => ?_⟩
  obtain ⟨first, others, shown_eq, -⟩ := begins
  rw [shown_eq, List.length_cons] at enough
  obtain ⟨limit, rfl⟩ := Nat.exists_eq_add_one_of_ne_zero (Nat.ne_zero_of_lt enough)
  exact read limit rest stops

theorem readsBack_null : ReadsBack null :=
  readsBack_of_printAt "null" (fun _ => rfl) ⟨'n', _, rfl, rfl, by decide⟩ fun _ _ _ => rfl

theorem readsBack_bool (value : Bool) : ReadsBack (bool value) := by
  cases value with
  | false =>
    exact readsBack_of_printAt "false" (fun _ => rfl) ⟨'f', _, rfl, rfl, by decide⟩ fun _ _ _ => rfl
  | true =>
    exact readsBack_of_printAt "true" (fun _ => rfl) ⟨'t', _, rfl, rfl, by decide⟩ fun _ _ _ => rfl

theorem begins_printText (text : String) : Begins (printText text).toList :=
  ⟨'"', _, toList_printText text, rfl, by decide⟩

theorem readsBack_text (value : String) : ReadsBack (text value) := by
  refine readsBack_of_printAt (printText value) (fun _ => rfl) (begins_printText value)
    fun limit rest _ => ?_
  have read := (consumes_text value rest).map Json.text
  rw [toList_printText] at read ⊢
  exact read

/-- The text of a number: its sign, and digits. -/
theorem toList_toString_eq (value : Int) : ∃ sign digit others,
    (toString value).toList = sign ++ digit :: others ∧ (sign = [] ∨ sign = ['-']) ∧
      digit.isDigit = true := by
  have digits (value : Nat) : ∃ digit others,
      Nat.toDigits 10 value = digit :: others ∧ digit.isDigit = true := by
    obtain ⟨digit, others, shown⟩ := List.exists_cons_of_ne_nil (@Nat.toDigits_ne_nil value 10)
    exact ⟨digit, others, shown, isDigit_of_mem_toDigits value digit (by simp [shown])⟩
  cases value with
  | ofNat value =>
    obtain ⟨digit, others, shown, digit_eq⟩ := digits value
    exact ⟨[], digit, others, by rw [toList_toString_ofNat, shown]; rfl, Or.inl rfl, digit_eq⟩
  | negSucc value =>
    obtain ⟨digit, others, shown, digit_eq⟩ := digits (value + 1)
    exact ⟨['-'], digit, others, by rw [toList_toString_negSucc, shown]; rfl, Or.inr rfl, digit_eq⟩

theorem ne_of_isDigit {digit letter : Char} (digit_eq : digit.isDigit = true)
    (letter_eq : letter.isDigit = false) : digit ≠ letter := by
  rintro rfl
  rw [digit_eq] at letter_eq
  cases letter_eq

section Number

variable {sign : List Char} {digit : Char} (signs : sign = [] ∨ sign = ['-'])
  (digit_eq : digit.isDigit = true) (others : List Char)
include signs digit_eq

/-- A number is none of the words that stand for a value. -/
theorem word?_of_isDigit : word? (sign ++ digit :: others) = none := by
  have unlike (letter : Char) (letter_eq : letter.isDigit = false) : letter ≠ digit :=
    (ne_of_isDigit digit_eq letter_eq).symm
  obtain rfl | rfl := signs
  · simp [word?, words, unlike 'n' rfl, unlike 't' rfl, unlike 'f' rfl, unlike 'N' rfl,
      unlike 'I' rfl, unlike '-' rfl]
  · simp [word?, words, unlike 'I' rfl]

theorem begins_number : Begins (sign ++ digit :: others) := by
  obtain rfl | rfl := signs
  · have seen : isGap digit = false := by simp [isGap, ne_of_isDigit digit_eq]
    have unlike : digit ∉ '\ufeff' :: closings := by simp [closings, ne_of_isDigit digit_eq]
    exact ⟨digit, others, rfl, seen, unlike⟩
  · exact ⟨'-', digit :: others, rfl, rfl, by decide⟩

theorem run_valueWithin_number (limit : Nat) :
    (valueWithin (limit + 1)).run (sign ++ digit :: others) =
      number.run (sign ++ digit :: others) := by
  have none_eq := word?_of_isDigit signs digit_eq others
  have unlike {letter : Char} {rest : List Char} (letter_eq : letter.isDigit = false)
      (minus : letter ≠ '-') : sign ++ digit :: others ≠ letter :: rest := by
    obtain rfl | rfl := signs
    · exact fun same => ne_of_isDigit digit_eq letter_eq (List.cons.inj same).1
    · exact fun same => minus (List.cons.inj same).1.symm
  rw [valueWithin, StateT.run_bind, StateT.run_get, pure_bind]
  dsimp only
  split
  next same => exact absurd same (unlike rfl (by decide))
  next same => exact absurd same (unlike rfl (by decide))
  next same => exact absurd same (unlike rfl (by decide))
  next => rw [none_eq]

end Number

theorem readsBack_int (value : Int) : ReadsBack (int value) := by
  obtain ⟨sign, digit, others, shown, signs, digit_eq⟩ := toList_toString_eq value
  refine readsBack_of_printAt (toString value) (fun _ => rfl) ?_ fun limit rest stops => ?_
  · rw [shown]
    exact begins_number signs digit_eq others
  · have read := consumes_number value stops
    unfold Consumes at read ⊢
    rw [shown, List.append_assoc, List.cons_append] at read ⊢
    rw [run_valueWithin_number signs digit_eq]
    exact read

/-- A value that is printed as a series between brackets is read again if its parts are. -/
theorem readsBack_of_series {value : Json} {opening closing : Char} {fault : JsonFault}
    {element : Nat → JsonReading α} {parts : Nat → List (String × α)} {values : List α}
    (bracket : closing ∈ closings) (begins : isGap opening = false ∧ opening ∉ '\ufeff' :: closings)
    (printed : ∀ depth, value.printAt depth = bracketed (String.singleton opening)
      (String.singleton closing) depth ((parts (depth + 1)).map Prod.fst))
    (answers : ∀ depth, (parts depth).map Prod.snd = values)
    (each : ∀ depth limit, ∀ part ∈ parts depth, part.1.toList.length ≤ limit →
      Spells (element limit) part.1.toList part.2)
    (read : ∀ limit text rest, Consumes (series closing fault (element limit)) text values rest →
      Consumes (valueWithin (limit + 1)) (opening :: text) value rest) : ReadsBack value := by
  intro depth limit enough
  have shown_eq : (value.printAt depth).toList = opening :: (bracketed "" (String.singleton closing)
      depth ((parts (depth + 1)).map Prod.fst)).toList := by
    rw [printed, toList_bracketed_eq_append, String.toList_singleton]
    rfl
  refine ⟨⟨opening, _, shown_eq, begins⟩, fun rest _ => ?_⟩
  -- The brackets make the text longer than each of its parts, so the limit lasts a level less.
  have inside : ∀ part ∈ parts (depth + 1), part.1.toList.length < limit := by
    intro part member
    refine Nat.lt_of_lt_of_le ?_ enough
    rw [printed]
    exact length_lt_length_bracketed (by simp) _ _ (List.mem_map_of_mem member)
  rw [shown_eq, List.length_cons] at enough
  obtain ⟨limit, rfl⟩ := Nat.exists_eq_add_one_of_ne_zero (Nat.ne_zero_of_lt enough)
  have consumed := @consumes_bracketed _ closing fault _ rest _ bracket
    (fun part member => each _ limit part member (Nat.le_of_lt_succ (inside part member))) depth
  rw [answers] at consumed
  rw [shown_eq]
  exact read limit _ rest consumed

theorem readsBack_list {items : List Json} (each : ∀ item ∈ items, ReadsBack item) :
    ReadsBack (list items) := by
  refine @readsBack_of_series _ _ '[' ']' .expectingValue valueWithin
    (fun depth => items.map fun item => (item.printAt depth, item)) items (by decide)
    ⟨rfl, by decide⟩ (fun depth => ?_) (fun depth => ?_) ?_ ?_
  · rw [printAt, printItems_eq, List.map_map]
    rfl
  · rw [List.map_map]
    exact List.map_id items
  · intro depth limit part member enough
    obtain ⟨item, known, rfl⟩ := List.mem_map.mp member
    exact each item known depth limit enough
  · intro limit text rest consumed
    rw [← items_eq] at consumed
    exact @consumes_set_bind _ _ _ ['['] _ (fun _ => do
      return list (← Read.items (valueWithin limit))) (consumed.map list)

/-- A key is read with its colon, and a value behind them. -/
theorem Spells.entry {value : Json} {reading : JsonReading Json} {text : List Char}
    (spells : Spells reading text value) (key : String) :
    Spells (Read.entry reading) ((printText key).toList ++ (":".toList ++ (" ".toList ++ text)))
      (key, value) := by
  refine ⟨?_, fun rest stops => ?_⟩
  · obtain ⟨first, others, shown, seen, unlike⟩ := begins_printText key
    exact ⟨first, _, by rw [shown, List.cons_append], seen, unlike⟩
  · have later : Consumes (do
        let key ← Read.text
        skipGap
        expect ':' .expectingColon
        skipGap
        return (key, ← reading)) ((printText key).toList ++ (":".toList ++ (" ".toList ++ text)))
        (key, value) rest := by
      refine (consumes_text key _).bind ?_
      refine consumes_noGap_bind ⟨':', _, rfl, rfl⟩ ?_
      refine (consumes_expect ':' _ _).bind ?_
      refine (consumes_skipGap rfl (spells.visible.append rest)).bind ?_
      exact (spells.consumes rest stops).map _
    have shown := toList_printText key
    rw [shown] at later ⊢
    exact later

theorem readsBack_object {entries : Settings} (distinct : Association.Distinct entries)
    (each : ∀ entry ∈ entries, ReadsBack entry.2) : ReadsBack (object entries) := by
  refine @readsBack_of_series _ _ '\x7b' '\x7d' .expectingKey
    (fun limit => Read.entry (valueWithin limit))
    (fun depth => entries.map fun entry =>
      (printText entry.1 ++ ": " ++ entry.2.printAt depth, entry)) entries (by decide)
    ⟨rfl, by decide⟩ (fun depth => ?_) (fun depth => ?_) ?_ ?_
  · rw [printAt, printEntries_eq, List.map_map]
    rfl
  · rw [List.map_map]
    exact List.map_id entries
  · intro depth limit part member enough
    obtain ⟨entry, known, rfl⟩ := List.mem_map.mp member
    simp only [String.toList_append, List.length_append] at enough
    simpa using (each entry known depth limit (by omega)).entry entry.1
  · intro limit text rest consumed
    rw [← entries_eq] at consumed
    have read := consumed.map fun entries => object (Settings.putAll [] entries)
    rw [Settings.putAll_nil_left distinct] at read
    exact @consumes_set_bind _ _ _ ['\x7b'] _ (fun _ => do
      return object (Settings.putAll [] (← Read.entries (valueWithin limit)))) read

theorem Plain.readsBack {value : Json} (plain : Plain value) : ReadsBack value := by
  induction plain with
  | null => exact readsBack_null
  | bool value => exact readsBack_bool value
  | int value => exact readsBack_int value
  | text value => exact readsBack_text value
  | list _ inductionHypothesis => exact readsBack_list inductionHypothesis
  | object distinct _ inductionHypothesis => exact readsBack_object distinct inductionHypothesis

/-- What is printed of a plain value is read again to the same value. -/
theorem parse_print {value : Json} (plain : Plain value) :
    parse (print value).toList = .ok value := by
  have enough : (print value).toList.length ≤ ((print value).toList ++ []).length + 1 := by simp
  have spells := plain.readsBack 0 _ enough
  obtain ⟨first, others, shown, -, unlike⟩ := spells.begins
  have unmarked : ¬(((print value).toList ++ []).head? == some '\ufeff') = true := by
    have unlike : first ≠ '\ufeff' := List.ne_of_not_mem_cons unlike
    rw [List.append_nil, print, shown]
    simpa using unlike
  have stops : Stops [] := by rintro _ ⟨⟩
  have read : Consumes document (print value).toList value [] := by
    refine consumes_get_bind ?_
    rw [if_neg unmarked]
    -- The limit of depth holds the text too, which is taken apart only in its place as the input.
    generalize ((print value).toList ++ []).length + 1 = limit at spells ⊢
    refine consumes_noGap_bind (spells.visible.append []) ?_
    rw [← List.append_nil (print value).toList]
    refine (spells.consumes ([] ++ []) stops).bind ?_
    -- Nothing is left, which is no gap to skip either.
    change Consumes _ ([] ++ []) value []
    have skipped : Consumes skipGap [] ⟨⟩ ([] ++ []) := rfl
    exact skipped.bind (consumes_get_bind (consumes_pure value []))
  rw [Consumes, List.append_nil] at read
  rw [parse, read]
  rfl

/-! ## Line ends

A printed text holds no carriage return, so it can be kept in a file in which every line end is read
as a line feed.
-/

theorem not_mem_escapeChar (character : Char) : '\r' ∉ escapeChar character := by
  generalize printed : escapeChar character = escaped
  cases escape_of_escapeChar printed with
  | @short mark known =>
    rw [List.mem_cons, List.mem_singleton]
    rintro (⟨⟨⟩⟩ | rfl)
    cases known
  | code small =>
    have codes : ∀ code < 0x20, '\r' ∉ '\\' :: 'u' :: Text.hexDigits 4 code := by decide
    exact codes _ small
  | plain _ _ visible =>
    rw [List.mem_singleton]
    rintro rfl
    exact visible (by decide)

theorem not_mem_printText (text : String) : '\r' ∉ (printText text).toList := by
  rw [toList_printText]
  simp [not_mem_escapeChar]

theorem not_mem_newLine (depth : Nat) : '\r' ∉ (newLine depth).toList := by
  simp [newLine]

theorem not_mem_intercalate {separator : List Char} {texts : List (List Char)}
    (apart : '\r' ∉ separator) (each : ∀ text ∈ texts, '\r' ∉ text) :
    '\r' ∉ separator.intercalate texts := by
  induction texts with
  | nil => simp
  | cons first others inductionHypothesis =>
    rw [List.forall_mem_cons] at each
    cases others with
    | nil => simpa using each.1
    | cons next others =>
      rw [List.intercalate_cons_cons, List.mem_append, List.mem_append, not_or, not_or]
      exact ⟨⟨each.1, apart⟩, inductionHypothesis each.2⟩

theorem not_mem_bracketed {opening closing : String} {parts : List String}
    (front : '\r' ∉ opening.toList) (back : '\r' ∉ closing.toList) (depth : Nat)
    (each : ∀ part ∈ parts, '\r' ∉ part.toList) :
    '\r' ∉ (bracketed opening closing depth parts).toList := by
  by_cases filled : parts = []
  · subst filled
    simp [bracketed, front, back]
  · have inner := not_mem_newLine (depth + 1)
    have apart : '\r' ∉ ',' :: (newLine (depth + 1)).toList := by simp [inner]
    have middle := not_mem_intercalate apart (List.forall_mem_map.mpr each)
    rw [toList_bracketed _ _ _ filled]
    simp only [List.mem_append, not_or]
    exact ⟨front, inner, middle, not_mem_newLine depth, back⟩

theorem not_mem_number (value : Int) : '\r' ∉ (toString value).toList := by
  have digits (value : Nat) : '\r' ∉ Nat.toDigits 10 value := fun member =>
    absurd (isDigit_of_mem_toDigits value _ member) (by decide)
  cases value with
  | ofNat value =>
    rw [toList_toString_ofNat]
    exact digits value
  | negSucc value =>
    rw [toList_toString_negSucc, List.mem_cons, not_or]
    exact ⟨by decide, digits (value + 1)⟩

theorem Plain.not_mem_printAt {value : Json} (plain : Plain value) (depth : Nat) :
    '\r' ∉ (value.printAt depth).toList := by
  induction plain generalizing depth with
  | null => simp [printAt]
  | bool value => cases value <;> simp [printAt]
  | int value => exact not_mem_number value
  | text value => exact not_mem_printText value
  | list _ inductionHypothesis =>
    rw [printAt, printItems_eq]
    refine not_mem_bracketed (by decide) (by decide) depth ?_
    exact List.forall_mem_map.mpr fun item member => inductionHypothesis item member (depth + 1)
  | object _ _ inductionHypothesis =>
    rw [printAt, printEntries_eq]
    refine not_mem_bracketed (by decide) (by decide) depth ?_
    refine List.forall_mem_map.mpr fun entry member => ?_
    simp [not_mem_printText, inductionHypothesis entry member (depth + 1)]

end PeerExpansion.Json
