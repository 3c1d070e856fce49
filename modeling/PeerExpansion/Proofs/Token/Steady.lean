import PeerExpansion.Proofs.Token.Identifier

/-! # What stands behind a word

A word ends where what stands behind it cannot belong to it. A line feed can belong to no word, so a
word that lies in the front of a text is measured the same when the text breaks off behind the
front.
-/

namespace PeerExpansion

/-- The text is at its end, or its line is. -/
def BreaksOff (behind : List Char) : Prop :=
  ∀ next ∈ behind.head?, next = '\n'

theorem BreaksOff.nil : BreaksOff [] := by
  rintro _ ⟨⟩

theorem BreaksOff.feed (rest : List Char) : BreaksOff ('\n' :: rest) := by
  rintro _ ⟨⟩
  rfl

/-- A mark of a line that begins in the front of a text that breaks off behind it ends there. -/
theorem BreaksOff.prefix_of_prefix_append {mark front other : List Char} (breaks : BreaksOff other)
    (line : '\n' ∉ mark) (begins : mark <+: front ++ other) : mark <+: front := by
  obtain short | long := Nat.le_total mark.length front.length
  · exact List.prefix_of_prefix_length_le begins (List.prefix_append _ _) short
  · obtain ⟨more, rfl⟩ := List.prefix_of_prefix_length_le (List.prefix_append _ _) begins long
    cases more with
    | nil => simp
    | cons next more =>
      obtain ⟨others, rfl⟩ := (List.prefix_append_right_inj front).mp begins
      rw [breaks next rfl] at line
      simp at line

namespace Lexeme

/-- A measure of the start of a text that does not go beyond what it measures: where it stays in the
front of a text, it is the same when the text breaks off behind the front. -/
def Steady (measure : List Char → Nat) : Prop :=
  ∀ front behind other, BreaksOff other → measure (front ++ behind) ≤ front.length →
    measure (front ++ other) = measure (front ++ behind)

theorem runLength_of_breaksOff {accepts : Char → Bool} {other : List Char}
    (rejects : accepts '\n' = false) (breaks : BreaksOff other) : runLength accepts other = 0 := by
  cases other with
  | nil => rfl
  | cons character rest =>
    rw [breaks character rfl, runLength, List.takeWhile_cons_of_neg (by simp [rejects])]
    rfl

theorem runLength_cons (accepts : Char → Bool) (first : Char) (rest : List Char) :
    runLength accepts (first :: rest) =
      if accepts first then runLength accepts rest + 1 else 0 := by
  rw [runLength, List.takeWhile_cons]
  split <;> rfl

theorem steady_runLength {accepts : Char → Bool} (rejects : accepts '\n' = false) :
    Steady (runLength accepts) := by
  intro front behind other breaks within
  induction front with
  | nil =>
    rw [List.nil_append, runLength_of_breaksOff rejects breaks]
    exact (Nat.le_zero.mp within).symm
  | cons first front inductionHypothesis =>
    rw [List.cons_append, runLength_cons] at within ⊢
    rw [List.cons_append, runLength_cons]
    split at within
    next accepted =>
      rw [if_pos accepted, if_pos accepted, inductionHypothesis (Nat.le_of_succ_le_succ within)]
    next refused => rw [if_neg refused, if_neg refused]

/-- What is measured behind something measured before. -/
theorem steady_add {first second : List Char → Nat} (firstSteady : Steady first)
    (secondSteady : Steady second) :
    Steady fun text => first text + second (text.drop (first text)) := by
  intro front behind other breaks within
  dsimp only at within ⊢
  have bound : first (front ++ behind) ≤ front.length := by omega
  rw [List.drop_append_of_le_length bound] at within ⊢
  rw [firstSteady front behind other breaks bound, List.drop_append_of_le_length bound,
    secondSteady _ behind other breaks (by rw [List.length_drop]; omega)]

theorem runLength_le (accepts : Char → Bool) (text : List Char) :
    runLength accepts text ≤ text.length :=
  (List.takeWhile_prefix _).length_le

theorem fractionLength_cons_cons (first second : Char) (rest : List Char) :
    fractionLength (first :: second :: rest) =
      if first = '.' ∧ Text.isDecimalDigit second = true then 2 + runLength isDigitPart rest
      else 0 := by
  unfold fractionLength
  split
  next same =>
    cases same
    simp
  next other =>
    rw [if_neg]
    rintro ⟨rfl, _⟩
    exact other _ _ rfl

theorem fractionLength_cons_of_breaksOff (first : Char) {other : List Char}
    (breaks : BreaksOff other) : fractionLength (first :: other) = 0 := by
  cases other with
  | nil =>
    unfold fractionLength
    split
    next same => cases same
    next => rfl
  | cons character rest =>
    rw [breaks character rfl, fractionLength_cons_cons,
      if_neg fun held => absurd held.2 (by decide)]

theorem fractionLength_of_breaksOff {other : List Char} (breaks : BreaksOff other) :
    fractionLength other = 0 := by
  unfold fractionLength
  split
  next => exact absurd (breaks '.' rfl) (by decide)
  next => rfl

theorem fractionLength_le (text : List Char) : fractionLength text ≤ text.length := by
  match text with
  | [] => exact Nat.zero_le _
  | [first] =>
    rw [fractionLength_cons_of_breaksOff first .nil]
    exact Nat.zero_le _
  | first :: second :: rest =>
    have := runLength_le isDigitPart rest
    rw [fractionLength_cons_cons, List.length_cons, List.length_cons]
    split <;> omega

theorem steady_fractionLength : Steady fractionLength := by
  intro front behind other breaks within
  -- A fraction needs a point and a digit, so the first two characters are looked at together.
  match front with
  | [] =>
    rw [List.nil_append, fractionLength_of_breaksOff breaks]
    exact (Nat.le_zero.mp within).symm
  | [first] =>
    rw [List.singleton_append, fractionLength_cons_of_breaksOff first breaks]
    cases behind with
    | nil => rw [List.append_nil, fractionLength_cons_of_breaksOff first .nil]
    | cons second behind =>
      rw [List.singleton_append, fractionLength_cons_cons] at within ⊢
      split at within
      next => simp only [List.length_cons, List.length_nil] at within; omega
      next refused => rw [if_neg refused]
  | first :: second :: front =>
    simp only [List.cons_append, fractionLength_cons_cons, List.length_cons] at within ⊢
    split at within
    next digit =>
      rw [if_pos digit, if_pos digit,
        steady_runLength (by decide) front behind other breaks (by omega)]
    next refused => rw [if_neg refused, if_neg refused]

/-- The sign that an exponent may begin with. -/
def signLength : List Char → Nat
  | sign :: _ => if sign = '+' || sign = '-' then 1 else 0
  | [] => 0

/-- What follows the mark of an exponent, if there are digits in it. -/
def exponentDigits (text : List Char) : Nat :=
  let length := runLength Text.isDecimalDigit (text.drop (signLength text))
  if length = 0 then 0 else signLength text + length

theorem exponentLength_cons (mark : Char) (rest : List Char) :
    exponentLength (mark :: rest) =
      if mark.toLower = 'e' ∧ exponentDigits rest ≠ 0 then 1 + exponentDigits rest else 0 := by
  have unfolded (digits : Nat)
      (counted : runLength Text.isDecimalDigit (rest.drop (signLength rest)) = digits) :
      exponentLength (mark :: rest) =
        if mark.toLower = 'e' ∧ digits ≠ 0 then 1 + signLength rest + digits else 0 := by
    cases rest <;>
    · simp only [signLength] at counted
      simp only [exponentLength, counted]
      cases digits <;> simp [signLength]
  rw [unfolded _ rfl, exponentDigits]
  by_cases none : runLength Text.isDecimalDigit (rest.drop (signLength rest)) = 0
  · simp [none]
  · simp [none, Nat.add_assoc]

theorem exponentDigits_le (text : List Char) : exponentDigits text ≤ text.length := by
  have := runLength_le Text.isDecimalDigit (text.drop (signLength text))
  rw [List.length_drop] at this
  simp only [exponentDigits]
  split <;> omega

theorem exponentLength_le (text : List Char) : exponentLength text ≤ text.length := by
  cases text with
  | nil => exact Nat.zero_le _
  | cons mark rest =>
    have := exponentDigits_le rest
    rw [exponentLength_cons, List.length_cons]
    split <;> omega

theorem steady_exponentDigits : Steady exponentDigits := by
  intro front behind other breaks within
  have rejects : Text.isDecimalDigit '\n' = false := by decide
  cases front with
  | nil =>
    have none : exponentDigits other = 0 := by
      cases other with
      | nil => rfl
      | cons character rest =>
        obtain rfl := breaks character rfl
        simp [exponentDigits, signLength, runLength_of_breaksOff rejects (.feed rest)]
    rw [List.nil_append, none]
    exact (Nat.le_zero.mp within).symm
  | cons sign front =>
    have same : signLength (sign :: front ++ other) = signLength (sign :: front ++ behind) := rfl
    have short : signLength (sign :: front ++ behind) ≤ (sign :: front).length := by
      simp only [List.cons_append, signLength, List.length_cons]
      split <;> omega
    simp only [exponentDigits, same, List.drop_append_of_le_length short] at within ⊢
    rw [steady_runLength rejects _ behind other breaks]
    rw [List.length_drop]
    split at within <;> omega

theorem steady_exponentLength : Steady exponentLength := by
  intro front behind other breaks within
  cases front with
  | nil =>
    have none : exponentLength other = 0 := by
      cases other with
      | nil => rfl
      | cons character rest =>
        rw [breaks character rfl, exponentLength_cons, if_neg fun held => absurd held.1 (by decide)]
    rw [List.nil_append, none]
    exact (Nat.le_zero.mp within).symm
  | cons mark front =>
    simp only [List.cons_append, exponentLength_cons, List.length_cons] at within ⊢
    by_cases exponent : mark.toLower = 'e'
    · rw [steady_exponentDigits front behind other breaks]
      by_cases none : exponentDigits (front ++ behind) = 0
      · omega
      · rw [if_pos ⟨exponent, none⟩] at within
        omega
    · simp only [exponent, false_and, if_false]

/-- What follows the first digit of a number. -/
def digitsLength (text : List Char) : Nat :=
  let whole := runLength isDigitPart text
  let fraction := fractionLength (text.drop whole)
  whole + fraction + exponentLength (text.drop (whole + fraction))

theorem steady_digitsLength : Steady digitsLength :=
  steady_add (steady_add (steady_runLength (by decide)) steady_fractionLength) steady_exponentLength

theorem digitsLength_le (text : List Char) : digitsLength text ≤ text.length := by
  have whole := runLength_le isDigitPart text
  have fraction := fractionLength_le (text.drop (runLength isDigitPart text))
  have exponent := exponentLength_le (text.drop (runLength isDigitPart text +
    fractionLength (text.drop (runLength isDigitPart text))))
  rw [List.length_drop] at fraction exponent
  simp only [digitsLength]
  omega

theorem decimalLength?_cons (first : Char) (rest : List Char) : decimalLength? (first :: rest) =
    if Text.isDecimalDigit first then some (1 + digitsLength rest) else none := by
  simp only [decimalLength?, digitsLength, Nat.add_assoc]

/-- The same of the measure of a word that begins with the first character of a text. -/
def SteadyWord (measure : List Char → Option Nat) : Prop :=
  ∀ first front behind other, BreaksOff other →
    (∀ length, measure (first :: (front ++ behind)) = some length → length ≤ front.length + 1) →
      measure (first :: (front ++ other)) = measure (first :: (front ++ behind))

theorem steadyWord_decimalLength? : SteadyWord decimalLength? := by
  intro first front behind other breaks within
  rw [decimalLength?_cons] at within
  rw [decimalLength?_cons, decimalLength?_cons]
  by_cases digit : Text.isDecimalDigit first = true
  · have bound := within _ (if_pos digit)
    rw [steady_digitsLength front behind other breaks (by omega)]
  · rw [if_neg digit, if_neg digit]

theorem radixDigit?_feed {mark : Char} {isDigit : Char → Bool}
    (known : radixDigit? mark = some isDigit) : isDigit '\n' = false := by
  unfold radixDigit? at known
  split at known <;> cases known <;> decide

/-- A number that states its radix is a zero, the mark of the radix and something behind it. -/
theorem exists_of_radixLength? {text : List Char} {length : Nat}
    (measured : radixLength? text = some length) :
    ∃ mark rest isDigit, text = '0' :: mark :: rest ∧ radixDigit? mark = some isDigit ∧
      0 < runLength (fun digit => isDigit digit || digit == '_') rest ∧
      length = 2 + runLength (fun digit => isDigit digit || digit == '_') rest := by
  unfold radixLength? at measured
  split at measured
  next mark rest =>
    split at measured
    next => cases measured
    next isDigit known =>
      split at measured
      next => cases measured
      next filled =>
        cases measured
        exact ⟨mark, rest, isDigit, rfl, known, Nat.pos_of_ne_zero filled, rfl⟩
  next => cases measured

theorem radixLength?_eq_none {first : Char} (other : first ≠ '0') (rest : List Char) :
    radixLength? (first :: rest) = none := by
  rw [Option.eq_none_iff_forall_ne_some]
  intro length measured
  obtain ⟨_, _, _, same, -⟩ := exists_of_radixLength? measured
  exact other (List.cons.inj same).1

/-- Behind a zero that stands alone no radix is stated. -/
theorem radixLength?_zero_of_breaksOff {other : List Char} (breaks : BreaksOff other) :
    radixLength? ('0' :: other) = none := by
  rw [Option.eq_none_iff_forall_ne_some]
  intro length measured
  obtain ⟨mark, rest, isDigit, same, known, -⟩ := exists_of_radixLength? measured
  obtain ⟨-, rfl⟩ := List.cons.inj same
  rw [breaks mark rfl] at known
  cases known

theorem steadyWord_radixLength? : SteadyWord radixLength? := by
  intro first front behind other breaks within
  by_cases zero : first = '0'
  · subst zero
    cases front with
    | nil =>
      rw [List.nil_append, List.nil_append, radixLength?_zero_of_breaksOff breaks, eq_comm,
        Option.eq_none_iff_forall_ne_some]
      -- A zero is too short for a number that states its radix.
      intro length measured
      have bound := within length measured
      obtain ⟨_, _, _, -, -, -, rfl⟩ := exists_of_radixLength? measured
      rw [List.length_nil] at bound
      omega
    | cons mark front =>
      simp only [List.cons_append, radixLength?, List.length_cons] at within ⊢
      cases known : radixDigit? mark with
      | none => rfl
      | some isDigit =>
        simp only [known] at within
        have rejects : (fun digit => isDigit digit || digit == '_') '\n' = false := by
          simp only [radixDigit?_feed known]
          decide
        dsimp only
        rw [steady_runLength rejects front behind other breaks]
        split at within
        next zero => omega
        next =>
          have := within _ rfl
          omega
  · rw [radixLength?_eq_none zero, radixLength?_eq_none zero]

theorem steadyWord_numberLength? : SteadyWord numberLength? := by
  intro first front behind other breaks within
  simp only [numberLength?] at within ⊢
  have radix : radixLength? (first :: (front ++ other)) =
      radixLength? (first :: (front ++ behind)) :=
    steadyWord_radixLength? first front behind other breaks fun length measured =>
      within length (by rw [measured, Option.some_or])
  rw [radix]
  cases measured : radixLength? (first :: (front ++ behind)) with
  | some length => rfl
  | none =>
    rw [measured] at within
    exact steadyWord_decimalLength? first front behind other breaks within

theorem runLength_append_of_lt {accepts : Char → Bool} {front behind : List Char}
    (inside : runLength accepts (front ++ behind) < front.length) (other : List Char) :
    runLength accepts (front ++ other) = runLength accepts (front ++ behind) := by
  induction front with
  | nil => cases inside
  | cons first front inductionHypothesis =>
    simp only [List.cons_append, runLength_cons, List.length_cons] at inside ⊢
    split at inside
    next accepted =>
      rw [if_pos accepted, if_pos accepted, inductionHypothesis (by omega)]
    next refused => rw [if_neg refused, if_neg refused]

theorem runLength_append_ne {accepts : Char → Bool} {next : Char} (accepted : accepts next = true)
    (front behind : List Char) : runLength accepts (front ++ next :: behind) ≠ front.length := by
  induction front with
  | nil => simp [runLength_cons, accepted]
  | cons first front inductionHypothesis =>
    rw [List.cons_append, runLength_cons, List.length_cons]
    split <;> omega

theorem runLength_append_le {accepts : Char → Bool} {other : List Char}
    (rejects : accepts '\n' = false) (breaks : BreaksOff other) (front : List Char) :
    runLength accepts (front ++ other) ≤ front.length := by
  induction front with
  | nil => exact Nat.le_of_eq (runLength_of_breaksOff rejects breaks)
  | cons first front inductionHypothesis =>
    rw [List.cons_append, runLength_cons, List.length_cons]
    split <;> omega

/-- Whether a name in grave accents is closed behind its characters. -/
def closesName (text : List Char) : Bool :=
  text[runLength isWordPart text]? == some '\x60'

theorem closesName_append {front behind other : List Char} (breaks : BreaksOff other)
    (within : closesName (front ++ behind) = true →
      runLength isWordPart (front ++ behind) < front.length) :
    closesName (front ++ other) = closesName (front ++ behind) := by
  by_cases inside : runLength isWordPart (front ++ behind) < front.length
  · rw [closesName, closesName, runLength_append_of_lt inside,
      List.getElem?_append_left inside, List.getElem?_append_left inside]
  -- Only word characters are left of the front, so the name would have to be closed behind it.
  · have beyond : front.length ≤ runLength isWordPart (front ++ other) := by
      by_contra short
      rw [← runLength_append_of_lt (by omega) behind] at short
      omega
    have bound := @runLength_append_le isWordPart other (by decide) breaks front
    have opened : closesName (front ++ other) = false := by
      rw [closesName, List.getElem?_append_right beyond, Nat.sub_eq_zero_of_le bound,
        beq_eq_false_iff_ne, ← List.head?_eq_getElem?]
      intro accent
      exact absurd (breaks _ accent) (by decide)
    rw [opened, Bool.eq_false_iff.mpr (mt within inside)]

/-- What follows the first grave accent of a name between two of them. -/
def accentedLength? : List Char → Option Nat
  | [] => none
  | second :: more =>
    if isWordStart second && closesName more then some (2 + runLength isWordPart more) else none

theorem identifierLength?_accent (rest : List Char) :
    identifierLength? ('\x60' :: rest) = (accentedLength? rest).map (· + 1) := by
  cases rest with
  | nil => rfl
  | cons second more =>
    rw [accentedLength?, apply_ite (Option.map (· + 1))]
    simp [identifierLength?, isWordStart, closesName, Nat.add_right_comm]

theorem accentedLength?_append {front behind other : List Char} (breaks : BreaksOff other)
    (within : ∀ length, accentedLength? (front ++ behind) = some length → length ≤ front.length) :
    accentedLength? (front ++ other) = accentedLength? (front ++ behind) := by
  cases front with
  | nil =>
    have none : accentedLength? other = none := by
      cases other with
      | nil => rfl
      | cons second more =>
        rw [breaks second rfl]
        rfl
    rw [List.nil_append, none]
    cases measured : accentedLength? behind with
    | none => exact measured.symm
    | some length =>
      have bound := within length measured
      cases behind with
      | nil => cases measured
      | cons second more =>
        rw [accentedLength?] at measured
        split at measured <;> cases measured
        simp at bound
  | cons second front =>
    simp only [List.cons_append, accentedLength?, List.length_cons] at within ⊢
    by_cases start : isWordStart second = true
    · simp only [start, Bool.true_and] at within ⊢
      have inside (closed : closesName (front ++ behind) = true) :
          runLength isWordPart (front ++ behind) < front.length := by
        have := within _ (if_pos closed)
        omega
      rw [closesName_append breaks inside]
      by_cases closed : closesName (front ++ behind) = true
      · rw [if_pos closed, if_pos closed, runLength_append_of_lt (inside closed)]
      · rw [if_neg closed, if_neg closed]
    · rw [if_neg (by simp [start]), if_neg (by simp [start])]

theorem steadyWord_identifierLength? : SteadyWord identifierLength? := by
  intro first front behind other breaks within
  -- It begins with an accent, with the start of a word or with a dollar sign.
  by_cases accent : first = '\x60'
  · subst accent
    rw [identifierLength?_accent, identifierLength?_accent, accentedLength?_append breaks]
    intro length measured
    have := within (length + 1) (by rw [identifierLength?_accent, measured, Option.map_some])
    omega
  have parts : Steady (runLength isWordPart) := steady_runLength (by decide)
  simp only [identifierLength?] at within ⊢
  by_cases word : isWordStart first = true
  · simp only [word, if_true, Option.some.injEq, forall_eq'] at within ⊢
    rw [parts front behind other breaks (by omega)]
  by_cases dollar : first = '$'
  · rw [if_neg word, if_pos dollar] at within ⊢
    rw [if_neg word, if_pos dollar]
    cases measured : runLength isWordPart (front ++ behind) with
    | zero => rw [parts front behind other breaks (by omega), measured]
    | succ length =>
      simp only [measured, Option.some.injEq, forall_eq'] at within
      rw [parts front behind other breaks (by omega), measured]
  · simp only [word, dollar, accent, Bool.false_eq_true, if_false]

theorem punctuationLength?_eq (first : Char) (rest : List Char) :
    punctuationLength? (first :: rest) =
      if ['-', '>'] <+: first :: rest then some 2
      else if ['.', '.', '.'] <+: first :: rest ∨ ['.', '.', '<'] <+: first :: rest then some 3
      else if punctuationMarks.contains first then some 1 else none := by
  unfold punctuationLength?
  split
  next same =>
    cases same
    rw [if_pos (by simp)]
  next same =>
    cases same
    rw [if_neg (by simp), if_pos (by simp)]
  next same =>
    cases same
    rw [if_neg (by simp), if_pos (by simp)]
  next arrow dots upTo same =>
    cases same
    -- The longer marks are asked for first, so none of them begins here.
    have notArrow : ¬ ['-', '>'] <+: first :: rest := by
      rintro ⟨more, same⟩
      cases same
      exact arrow more rfl rfl
    have notDots : ¬ (['.', '.', '.'] <+: first :: rest ∨ ['.', '.', '<'] <+: first :: rest) := by
      rintro (⟨more, same⟩ | ⟨more, same⟩) <;> cases same
      · exact dots more rfl rfl
      · exact upTo more rfl rfl
    rw [if_neg notArrow, if_neg notDots]
  next same => cases same

theorem steadyWord_punctuationLength? : SteadyWord punctuationLength? := by
  intro first front behind other breaks within
  -- A mark has no line feed, so it does not begin in the front and end behind it.
  have same (mark : List Char) (line : '\n' ∉ mark)
      (bound : mark <+: first :: (front ++ behind) → mark.length ≤ front.length + 1) :
      mark <+: first :: (front ++ other) ↔ mark <+: first :: (front ++ behind) := by
    rw [← List.cons_append, ← List.cons_append] at *
    constructor
    · intro begins
      exact (breaks.prefix_of_prefix_append line begins).trans (List.prefix_append _ _)
    · intro begins
      have short := List.prefix_of_prefix_length_le begins (List.prefix_append _ _) (bound begins)
      exact short.trans (List.prefix_append _ _)
  rw [punctuationLength?_eq] at within
  rw [punctuationLength?_eq, punctuationLength?_eq]
  by_cases arrow : ['-', '>'] <+: first :: (front ++ behind)
  · have bound := within 2 (if_pos arrow)
    rw [if_pos arrow, if_pos ((same ['-', '>'] (by decide) fun _ => bound).mpr arrow)]
  rw [if_neg arrow, if_neg (mt (same _ (by decide) (absurd · arrow)).mp arrow)]
  rw [if_neg arrow] at within
  have dots : (['.', '.', '.'] <+: first :: (front ++ other) ∨
      ['.', '.', '<'] <+: first :: (front ++ other)) ↔
      (['.', '.', '.'] <+: first :: (front ++ behind) ∨
      ['.', '.', '<'] <+: first :: (front ++ behind)) := by
    rw [same ['.', '.', '.'] (by decide) fun begins => within 3 (if_pos (.inl begins)),
      same ['.', '.', '<'] (by decide) fun begins => within 3 (if_pos (.inr begins))]
  simp only [dots]

theorem accentedLength?_le {text : List Char} {length : Nat}
    (measured : accentedLength? text = some length) : length ≤ text.length := by
  cases text with
  | nil => cases measured
  | cons second more =>
    obtain ⟨closed, same⟩ := Option.ite_none_right_eq_some.mp measured
    cases same
    rw [Bool.and_eq_true, closesName, beq_iff_eq] at closed
    have inside := (List.getElem?_eq_some_iff.mp closed.2).1
    rw [List.length_cons]
    omega

theorem identifierLength?_le {text : List Char} {length : Nat}
    (measured : identifierLength? text = some length) : length ≤ text.length := by
  cases text with
  | nil => cases measured
  | cons first rest =>
    rw [List.length_cons]
    by_cases accent : first = '\x60'
    · subst accent
      rw [identifierLength?_accent, Option.map_eq_some_iff] at measured
      obtain ⟨found, measured, rfl⟩ := measured
      exact Nat.succ_le_succ (accentedLength?_le measured)
    · have parts := runLength_le isWordPart rest
      simp only [identifierLength?, accent, if_false] at measured
      split at measured
      next =>
        cases measured
        omega
      next =>
        split at measured
        next =>
          split at measured <;> cases measured
          omega
        next => cases measured

theorem radixLength?_le {text : List Char} {length : Nat}
    (measured : radixLength? text = some length) : length ≤ text.length := by
  unfold radixLength? at measured
  split at measured
  next mark rest =>
    split at measured
    next => cases measured
    next isDigit _ =>
      have digits := runLength_le (fun digit => isDigit digit || digit == '_') rest
      rw [List.length_cons, List.length_cons]
      split at measured <;> cases measured
      omega
  next => cases measured

theorem numberLength?_le {text : List Char} {length : Nat}
    (measured : numberLength? text = some length) : length ≤ text.length := by
  rw [numberLength?, Option.or_eq_some_iff] at measured
  obtain radix | ⟨-, decimal⟩ := measured
  · exact radixLength?_le radix
  · cases text with
    | nil => cases decimal
    | cons first rest =>
      have digits := digitsLength_le rest
      rw [decimalLength?_cons] at decimal
      split at decimal <;> cases decimal
      rw [List.length_cons]
      omega

theorem punctuationLength?_le {text : List Char} {length : Nat}
    (measured : punctuationLength? text = some length) : length ≤ text.length := by
  unfold punctuationLength? at measured
  split at measured
  all_goals first | cases measured | (split at measured <;> cases measured)
  all_goals simp only [List.length_cons]; omega

theorem word?_le {text : List Char} {kind : TokenKind} {length : Nat}
    (measured : word? text = some (kind, length)) : length ≤ text.length := by
  unfold word? at measured
  split at measured
  next found named =>
    cases measured
    exact identifierLength?_le named
  next =>
    split at measured
    next found counted =>
      cases measured
      exact numberLength?_le counted
    next =>
      obtain ⟨found, marked, same⟩ := Option.map_eq_some_iff.mp measured
      cases same
      exact punctuationLength?_le marked

/-- The word at the start of a text is the same when the text breaks off behind it. -/
theorem word?_append {first : Char} {front behind other : List Char} (breaks : BreaksOff other)
    {kind : TokenKind} {length : Nat}
    (measured : word? (first :: (front ++ behind)) = some (kind, length))
    (within : length ≤ front.length + 1) :
    word? (first :: (front ++ other)) = some (kind, length) := by
  unfold word? at measured ⊢
  cases named : identifierLength? (first :: (front ++ behind)) with
  | some found =>
    simp only [named, Option.some.injEq, Prod.mk.injEq] at measured
    obtain ⟨rfl, rfl⟩ := measured
    have same := steadyWord_identifierLength? first front behind other breaks (by grind)
    rw [same, named]
  | none =>
    -- What begins no identifier and no number with one end begins none with the other.
    have same := steadyWord_identifierLength? first front behind other breaks (by grind)
    rw [same, named]
    simp only [named] at measured
    dsimp only
    cases counted : numberLength? (first :: (front ++ behind)) with
    | some found =>
      simp only [counted, Option.some.injEq, Prod.mk.injEq] at measured
      obtain ⟨rfl, rfl⟩ := measured
      have same := steadyWord_numberLength? first front behind other breaks (by grind)
      rw [same, counted]
    | none =>
      have same := steadyWord_numberLength? first front behind other breaks (by grind)
      rw [same, counted]
      simp only [counted, Option.map_eq_some_iff, Prod.mk.injEq] at measured
      obtain ⟨found, marked, rfl, rfl⟩ := measured
      have same := steadyWord_punctuationLength? first front behind other breaks (by grind)
      rw [same, marked]
      rfl

end Lexeme

end PeerExpansion
