import Mathlib.Data.List.Basic
import Mathlib.Data.List.TakeDrop
import PeerExpansion.Json.Print
import PeerExpansion.Json.Read

/-! # Reading what was printed: texts and numbers

A reading consumes a text when it takes just that text off the front, whatever follows. Printed
texts are consumed up to their closing quote, and printed numbers up to what ends a printed value.
-/

namespace PeerExpansion.Json

open Read

variable {α β : Type}

/-- The reading takes `text` off the front of `rest`, and answers `value`. -/
def Consumes (reading : JsonReading α) (text : List Char) (value : α) (rest : List Char) : Prop :=
  reading.run (text ++ rest) = .ok (value, rest)

section Steps

variable {reading : JsonReading α} {value : α} {next : α → JsonReading β} {result : β}
variable {front back rest : List Char}

theorem consumes_pure (value : α) (rest : List Char) :
    Consumes (pure value) [] value rest := rfl

theorem Consumes.bind (first : Consumes reading front value (back ++ rest))
    (second : Consumes (next value) back result rest) :
    Consumes (reading >>= next) (front ++ back) result rest := by
  unfold Consumes at first second ⊢
  rw [StateT.run_bind, List.append_assoc, first]
  exact second

theorem consumes_get_bind {next : List Char → JsonReading β}
    (later : Consumes (next (back ++ rest)) back result rest) :
    Consumes (get >>= next) back result rest := later

theorem consumes_set_bind (front back : List Char) {next : PUnit → JsonReading β}
    (later : Consumes (next ⟨⟩) back result rest) :
    Consumes (set (back ++ rest) >>= next) (front ++ back) result rest := later

theorem Consumes.map (read : Consumes reading front value rest) (change : α → β) :
    Consumes (do return change (← reading)) front (change value) rest := by
  unfold Consumes at read ⊢
  rw [StateT.run_bind, read]
  rfl

theorem consumes_expect (character : Char) (fault : JsonFault) (rest : List Char) :
    Consumes (expect character fault) [character] ⟨⟩ rest := by
  refine consumes_get_bind ?_
  simp only [List.singleton_append, if_true]
  exact consumes_set_bind [character] [] (consumes_pure _ _)

/-- What stands behind a gap and is none. -/
def Visible (text : List Char) : Prop :=
  ∃ first others, text = first :: others ∧ isGap first = false

theorem Visible.append {text : List Char} (visible : Visible text) (rest : List Char) :
    Visible (text ++ rest) := by
  obtain ⟨first, others, rfl, seen⟩ := visible
  exact ⟨first, others ++ rest, rfl, seen⟩

theorem consumes_skipGap {gap : List Char} (blank : gap.all isGap = true) (visible : Visible rest) :
    Consumes skipGap gap ⟨⟩ rest := by
  obtain ⟨first, others, rfl, seen⟩ := visible
  unfold Consumes skipGap
  have skipped : (gap ++ first :: others).dropWhile isGap = first :: others := by
    rw [List.dropWhile_append_of_pos (List.all_eq_true.mp blank),
      List.dropWhile_cons_of_neg (Bool.eq_false_iff.mp seen)]
  exact congrArg (fun left => Except.ok (PUnit.unit, left)) skipped

theorem consumes_noGap_bind {next : PUnit → JsonReading β} (visible : Visible (front ++ rest))
    (later : Consumes (next ⟨⟩) front result rest) :
    Consumes (skipGap >>= next) front result rest :=
  (consumes_skipGap (List.all_nil) visible).bind later

end Steps

/-! ## Texts -/

/-- The ways in which a character is printed inside a text. -/
inductive Escape : Char → List Char → Prop
  | short {character mark : Char} : shortEscape? mark = some character →
      Escape character ['\\', mark]
  | code {character : Char} : character.toNat < 0x20 →
      Escape character ('\\' :: 'u' :: Text.hexDigits 4 character.toNat)
  | plain {character : Char} : character ≠ '"' → character ≠ '\\' → ¬ character.toNat < 0x20 →
      Escape character [character]

theorem escape_of_escapeChar {character : Char} {escaped : List Char}
    (printed : escapeChar character = escaped) : Escape character escaped := by
  subst printed
  unfold escapeChar
  iterate 7
    split
    next same => subst same; exact .short rfl
  split
  next small => exact .code small
  next quote slash _ _ _ _ _ visible => exact .plain quote slash visible

theorem length_escapeChar_pos (character : Char) : 0 < (escapeChar character).length := by
  generalize printed : escapeChar character = escaped
  cases escape_of_escapeChar printed with
  | short | code | plain => exact Nat.succ_pos _

/-- The digits of a control character are read as its number. -/
theorem codeUnit?_hexDigits : ∀ code < 0x20, codeUnit? (Text.hexDigits 4 code) = some code := by
  decide

section Characters

variable {whole text others rest : List Char} {limit : Nat} {character : Char}
  (later : Consumes (textWithin whole limit) text others rest)
include later

theorem consumes_then_cons : Consumes (do
    let others ← textWithin whole limit
    return character :: others) text (character :: others) rest :=
  later.map (character :: ·)

theorem consumes_shortEscape {mark : Char} (known : shortEscape? mark = some character) :
    Consumes (textWithin whole (limit + 1)) ('\\' :: mark :: text) (character :: others) rest := by
  rw [textWithin]
  refine consumes_get_bind ?_
  unfold shortEscape? at known
  split at known <;> cases known <;>
    exact consumes_set_bind ['\\', _] _ (consumes_then_cons later)

theorem consumes_codeEscape (small : character.toNat < 0x20) (filled : text ≠ []) :
    Consumes (textWithin whole (limit + 1))
      ('\\' :: 'u' :: (Text.hexDigits 4 character.toNat ++ text)) (character :: others) rest := by
  have width : (Text.hexDigits 4 character.toNat).length = 4 := by simp [Text.hexDigits]
  have long : ¬ (Text.hexDigits 4 character.toNat ++ (text ++ rest)).length ≤ 4 := by
    have := List.length_pos_iff.mpr filled
    simp only [List.length_append, width]
    omega
  have plain : ¬ isHighSurrogate character.toNat = true := by
    simp [isHighSurrogate]
    omega
  have taken : (Text.hexDigits 4 character.toNat ++ (text ++ rest)).take 4 =
      Text.hexDigits 4 character.toNat := List.take_left' width
  have dropped : (Text.hexDigits 4 character.toNat ++ (text ++ rest)).drop 4 = text ++ rest :=
    List.drop_left' width
  rw [textWithin]
  refine consumes_get_bind ?_
  simp only [List.cons_append, List.append_assoc]
  rw [if_neg long, taken, dropped, codeUnit?_hexDigits _ small]
  simp only [if_neg plain, Char.ofNat_toNat]
  exact consumes_set_bind ('\\' :: 'u' :: Text.hexDigits 4 character.toNat) _
    (consumes_then_cons later)

theorem consumes_plain (quote : character ≠ '"') (slash : character ≠ '\\')
    (visible : ¬ character.toNat < 0x20) :
    Consumes (textWithin whole (limit + 1)) (character :: text) (character :: others) rest := by
  rw [textWithin]
  refine consumes_get_bind ?_
  rw [List.cons_append]
  split
  next same => cases same
  next same => exact absurd (List.cons.inj same).1 quote
  next same => exact absurd (List.cons.inj same).1 slash
  next same => exact absurd (List.cons.inj same).1 slash
  next same => exact absurd (List.cons.inj same).1 slash
  next same =>
    obtain ⟨rfl, rfl⟩ := List.cons.inj same
    rw [if_neg visible]
    exact consumes_set_bind [character] _ (consumes_then_cons later)

/-- Whichever way a character is escaped, it is read again. -/
theorem consumes_escapeChar (filled : text ≠ []) (character : Char) :
    Consumes (textWithin whole (limit + 1)) (escapeChar character ++ text) (character :: others)
      rest := by
  generalize printed : escapeChar character = escaped
  cases escape_of_escapeChar printed with
  | short known => exact consumes_shortEscape later known
  | code small => exact consumes_codeEscape later small filled
  | plain quote slash visible => exact consumes_plain later quote slash visible

end Characters

theorem consumes_textWithin {whole rest : List Char} {limit : Nat} {characters : List Char}
    (enough : characters.length < limit) :
    Consumes (textWithin whole limit) (characters.flatMap escapeChar ++ ['"']) characters rest := by
  induction characters generalizing limit with
  | nil =>
    obtain ⟨limit, rfl⟩ := Nat.exists_eq_add_one_of_ne_zero (Nat.ne_zero_of_lt enough)
    exact consumes_get_bind (consumes_set_bind ['"'] [] (consumes_pure _ _))
  | cons character characters inductionHypothesis =>
    obtain ⟨limit, rfl⟩ := Nat.exists_eq_add_one_of_ne_zero (Nat.ne_zero_of_lt enough)
    have later := inductionHypothesis (Nat.lt_of_succ_lt_succ enough)
    rw [List.flatMap_cons, List.append_assoc]
    exact consumes_escapeChar later (by simp) character

theorem length_le_length_escaped (characters : List Char) :
    characters.length ≤ (characters.flatMap escapeChar).length := by
  induction characters with
  | nil => exact Nat.le_refl _
  | cons character characters inductionHypothesis =>
    have filled := length_escapeChar_pos character
    rw [List.flatMap_cons, List.length_append, List.length_cons]
    omega

theorem toList_printText (text : String) :
    (printText text).toList = '"' :: (text.toList.flatMap escapeChar ++ ['"']) := by
  simp [printText]

/-- A printed text is read up to its closing quote. -/
theorem consumes_text (text : String) (rest : List Char) :
    Consumes Read.text (printText text).toList text rest := by
  have long := length_le_length_escaped text.toList
  rw [toList_printText]
  refine consumes_get_bind ?_
  refine consumes_set_bind ['"'] _ ?_
  have read := @consumes_textWithin
    ('"' :: (text.toList.flatMap escapeChar ++ ['"']) ++ rest) rest
    ('"' :: (text.toList.flatMap escapeChar ++ ['"']) ++ rest).length text.toList (by
      simp only [List.cons_append, List.length_cons, List.length_append]
      omega)
  have answered := read.map String.ofList
  rwa [String.ofList_toList] at answered

/-! ## Numbers -/

/-- What may stand behind a printed value: the end, a comma or a line feed. -/
def Stops (rest : List Char) : Prop :=
  ∀ next ∈ rest.head?, next = ',' ∨ next = '\n'

theorem Stops.rejects {rest : List Char} (stops : Stops rest) (accepts : Char → Bool)
    (comma : accepts ',' = false) (feed : accepts '\n' = false) :
    ∀ next ∈ rest.head?, accepts next = false := by
  intro next found
  obtain rfl | rfl := stops next found
  · exact comma
  · exact feed

theorem fraction_of_stops {rest : List Char} (stops : Stops rest) : fraction rest = ([], rest) := by
  unfold fraction
  split
  next => exact absurd (stops '.' rfl) (by decide)
  next => rfl

theorem exponent_of_stops {rest : List Char} (stops : Stops rest) : exponent rest = ([], rest) := by
  cases rest with
  | nil => rfl
  | cons mark rest =>
    obtain rfl | rfl := stops mark rfl <;> rfl

theorem natOfDigits_toDigits (value : Nat) : natOfDigits (Nat.toDigits 10 value) = value := by
  rw [natOfDigits, ← Nat.ofDigitChars_eq_foldl, Nat.ofDigitChars_ten_toDigits]

theorem isDigit_of_mem_toDigits (value : Nat) :
    ∀ digit ∈ Nat.toDigits 10 value, digit.isDigit = true :=
  fun _ member => Nat.isDigit_of_mem_toDigits (by decide) (by decide) member

/-- Only the number zero begins with the digit. -/
theorem eq_nil_of_toDigits_zero {value : Nat} {others : List Char}
    (leading : Nat.toDigits 10 value = '0' :: others) : others = [] := by
  induction value using Nat.strongRecOn generalizing others with
  | ind value inductionHypothesis =>
    rw [Nat.toDigits_eq_if (by decide)] at leading
    split at leading
    next => exact (List.cons.inj leading).2.symm
    next large =>
      obtain ⟨front, front_eq⟩ : ∃ front, Nat.toDigits 10 (value / 10) = '0' :: front := by
        cases tens : Nat.toDigits 10 (value / 10) with
        | nil => exact absurd tens Nat.toDigits_ne_nil
        | cons first front =>
          rw [tens, List.cons_append] at leading
          exact ⟨front, by rw [(List.cons.inj leading).1]⟩
      -- Then the tens are nothing but a zero, and the number has one digit.
      have alone := inductionHypothesis (value / 10) (by omega) front_eq
      have tens := natOfDigits_toDigits (value / 10)
      rw [front_eq, alone] at tens
      have : natOfDigits ['0'] = 0 := rfl
      omega

theorem span_digits {digits rest : List Char} (all : ∀ digit ∈ digits, digit.isDigit = true)
    (stops : Stops rest) : Read.digits (digits ++ rest) = (digits, rest) := by
  have ended := stops.rejects Char.isDigit rfl rfl
  rw [Read.digits, List.span_eq_takeWhile_dropWhile, List.takeWhile_append_of_pos all,
    List.dropWhile_append_of_pos all]
  cases rest with
  | nil => simp
  | cons next rest =>
    rw [List.takeWhile_cons_of_neg (by simp [ended next rfl]),
      List.dropWhile_cons_of_neg (by simp [ended next rfl]), List.append_nil]

theorem wholePart_toDigits (value : Nat) {rest : List Char} (stops : Stops rest) :
    wholePart (Nat.toDigits 10 value ++ rest) = (Nat.toDigits 10 value, rest) := by
  have split := span_digits (isDigit_of_mem_toDigits value) stops
  unfold wholePart
  split
  next others same =>
    cases leading : Nat.toDigits 10 value with
    | nil => exact absurd leading Nat.toDigits_ne_nil
    | cons first more =>
      rw [leading, List.cons_append] at same
      obtain ⟨rfl, rfl⟩ := List.cons.inj same
      rw [eq_nil_of_toDigits_zero leading]
      rfl
  next => exact split

/-- The sign of a number, and what is behind it. -/
def signed : List Char → List Char × List Char
  | '-' :: rest => (['-'], rest)
  | rest => ([], rest)

theorem number_eq : number = (do
    let here ← get
    match wholePart (signed here).2 with
    | ([], _) => failAt .expectingValue here
    | (whole, behind) =>
      set (exponent (fraction behind).2).2
      if (fraction behind).1.isEmpty && (exponent (fraction behind).2).1.isEmpty then
        return int (if (signed here).1.isEmpty then natOfDigits whole else -natOfDigits whole)
      else
        return decimal (String.ofList ((signed here).1 ++ whole ++ (fraction behind).1 ++
          (exponent (fraction behind).2).1))) := rfl

/-- The digits of a number are read behind its sign. -/
theorem consumes_signed (sign : List Char) (value : Nat) {rest : List Char} (stops : Stops rest)
    (split : signed (sign ++ Nat.toDigits 10 value ++ rest) =
      (sign, Nat.toDigits 10 value ++ rest)) :
    Consumes number (sign ++ Nat.toDigits 10 value)
      (int (if sign.isEmpty then value else -value)) rest := by
  rw [number_eq]
  refine consumes_get_bind ?_
  rw [split]
  dsimp only
  rw [wholePart_toDigits value stops]
  split
  next same => exact absurd (Prod.mk.inj same).1 Nat.toDigits_ne_nil
  next same =>
    obtain ⟨rfl, rfl⟩ := Prod.mk.inj same
    rw [fraction_of_stops stops, exponent_of_stops stops, natOfDigits_toDigits]
    simp only [List.isEmpty_nil, Bool.and_self, if_true]
    rw [← List.append_nil (sign ++ _)]
    exact consumes_set_bind _ [] (consumes_pure _ rest)

theorem toList_toString_ofNat (value : Nat) :
    (toString (Int.ofNat value)).toList = Nat.toDigits 10 value := by
  change (toString value).toList = _
  rw [Nat.toString_eq_ofList_toDigits, String.toList_ofList]

theorem toList_toString_negSucc (value : Nat) :
    (toString (Int.negSucc value)).toList = '-' :: Nat.toDigits 10 (value + 1) := by
  change ("-" ++ (value + 1).repr).toList = _
  rw [Nat.repr_eq_ofList_toDigits, String.toList_append]
  exact congrArg ('-' :: ·) String.toList_ofList

theorem signed_of_isDigit {text : List Char} (digits : ∀ first ∈ text.head?, first.isDigit = true) :
    signed text = ([], text) := by
  unfold signed
  split
  next => exact absurd (digits '-' rfl) (by decide)
  next => rfl

theorem consumes_number (value : Int) {rest : List Char} (stops : Stops rest) :
    Consumes number (toString value).toList (int value) rest := by
  cases value with
  | ofNat value =>
    rw [toList_toString_ofNat]
    refine consumes_signed [] value stops (signed_of_isDigit ?_)
    intro first found
    refine isDigit_of_mem_toDigits value first ?_
    rw [List.nil_append, List.head?_append_of_ne_nil _ Nat.toDigits_ne_nil] at found
    exact List.mem_of_mem_head? found
  | negSucc value =>
    rw [toList_toString_negSucc]
    exact consumes_signed ['-'] (value + 1) stops rfl

end PeerExpansion.Json
