import PeerExpansion.Proofs.Reading.Place
import PeerExpansion.Proofs.Token.Spelling

/-! # Readings that take words

A reading of words does not depend on where they stand. `Takes reading value words rest` says that
a reading answers `value` and passes exactly `words` wherever these stand with `rest` behind them,
the rest being all that is left of the source; `Yields` says the same of a reading whose answer is
only known to fit. A reading made of others is followed by the rules of this module, one for each
step.
-/

namespace PeerExpansion

def Word.reads (word : Word) (text : String) : Bool :=
  word.kind != .string && word.text == text

theorem Token.reads_eq (token : Token) (text : String) :
    token.reads text = token.word.reads text := rfl

/-- The word that has `count` others before it. Behind the last there is only the ending. -/
def Word.nth (words : List Word) (count : Nat) : Word :=
  words[count]?.getD .ending

namespace Cursor

/-- Exactly these words are left to read. -/
structure Faces (cursor : Cursor) (words : List Word) : Prop where
  behind_eq : cursor.behind.map Token.word = words
  ending_eq : cursor.ending.word = .ending
  stands : ∀ token ∈ cursor.behind, Stands cursor.source token

namespace Faces

variable {cursor : Cursor} {words rest : List Word}

theorem word_ahead (faces : cursor.Faces words) (count : Nat) :
    (cursor.ahead count).word = Word.nth words count := by
  obtain ⟨rfl, ending_eq, -⟩ := faces
  rw [Word.nth, List.getElem?_map, ahead]
  cases cursor.behind[count]? with
  | none => exact ending_eq
  | some token => rfl

theorem skip (faces : cursor.Faces (words ++ rest)) : (cursor.skip words.length).Faces rest where
  behind_eq := by
    show (cursor.behind.drop words.length).map Token.word = rest
    rw [List.map_drop, faces.behind_eq, List.drop_left]
  ending_eq := faces.ending_eq
  stands token member := faces.stands token (List.mem_of_mem_drop member)

theorem remaining_eq (faces : cursor.Faces words) : cursor.remaining = words.length := by
  rw [← faces.behind_eq, List.length_map, remaining]

end Faces

theorem faces_of_scan {source : List Char} {stream : TokenStream}
    (scanned : TokenStream.scan source = .ok stream) :
    (ofStream stream 0).Faces (stream.words.map Token.word) := by
  obtain ⟨rfl, fills, ending_eq⟩ := fills_of_scan scanned
  refine ⟨by simp [ofStream], ?_, fun token member => fills.stands token ?_⟩
  · show stream.ending.word = .ending
    rw [ending_eq]
    rfl
  · simpa [ofStream] using member

end Cursor

namespace Reading

variable {α β : Type}

/-- Wherever `words` stand in front of `rest`, `reading` passes them and answers what fits. -/
def Yields (reading : Reading α) (Fits : α → Prop) (words rest : List Word) : Prop :=
  ∀ cursor : Cursor, cursor.Faces (words ++ rest) →
    ∃ value, Fits value ∧ Reads reading cursor value (cursor.skip words.length)

/-- Wherever `words` stand in front of `rest`, `reading` passes them and answers `value`. -/
abbrev Takes (reading : Reading α) (value : α) (words rest : List Word) : Prop :=
  Yields reading (· = value) words rest

namespace Yields

variable {reading : Reading α} {next : α → Reading β} {given : α} {Given : α → Prop}
  {Fits : β → Prop} {words others rest : List Word} {word : Word}

theorem mono {Weaker : α → Prop} (yields : Yields reading Given words rest)
    (weakens : ∀ value, Given value → Weaker value) : Yields reading Weaker words rest := by
  intro cursor faces
  obtain ⟨value, fits, read⟩ := yields cursor faces
  exact ⟨value, weakens value fits, read⟩

theorem reads (takes : Takes reading given words rest) {cursor : Cursor}
    (faces : cursor.Faces (words ++ rest)) :
    Reads reading cursor given (cursor.skip words.length) := by
  obtain ⟨_, rfl, read⟩ := takes cursor faces
  exact read

theorem pure {value : β} (fits : Fits value) : Yields (pure value) Fits [] rest :=
  fun _ _ => ⟨value, fits, reads_pure.mpr ⟨rfl, rfl⟩⟩

theorem bind_any (front : Yields reading Given words (others ++ rest))
    (back : ∀ value, Given value → Yields (next value) Fits others rest) :
    Yields (reading >>= next) Fits (words ++ others) rest := by
  intro cursor faces
  rw [List.append_assoc] at faces
  obtain ⟨value, given, read⟩ := front cursor faces
  obtain ⟨answer, fits, backRead⟩ := back value given _ faces.skip
  rw [List.length_append, ← Cursor.skip_skip]
  exact ⟨answer, fits, reads_bind.mpr ⟨value, _, read, backRead⟩⟩

theorem bind (front : Takes reading given words (others ++ rest))
    (back : Yields (next given) Fits others rest) :
    Yields (reading >>= next) Fits (words ++ others) rest :=
  bind_any front (by rintro _ rfl; exact back)

theorem map {change : α → β} (front : Takes reading given words rest)
    (fits : Fits (change given)) : Yields (change <$> reading) Fits words rest :=
  fun _ faces => ⟨change given, fits, reads_map.mpr ⟨given, front.reads faces, rfl⟩⟩

/-- Behind the last reading that passes something. -/
theorem bind_last (front : Takes reading given words rest)
    (back : Yields (next given) Fits [] rest) : Yields (reading >>= next) Fits words rest := by
  rw [← List.append_nil words]
  exact bind front back

theorem bind_any_last (front : Yields reading Given words rest)
    (back : ∀ value, Given value → Yields (next value) Fits [] rest) :
    Yields (reading >>= next) Fits words rest := by
  rw [← List.append_nil words]
  exact bind_any front back

/-- A reading that passes nothing. -/
theorem bind_nil (front : Takes reading given [] (words ++ rest))
    (back : Yields (next given) Fits words rest) : Yields (reading >>= next) Fits words rest :=
  bind front back

/-- A reading that answers the cursor or what it finds there. -/
theorem look {answer : Cursor → α} (looks : ∀ cursor, Reads reading cursor (answer cursor) cursor)
    (back : ∀ cursor : Cursor, cursor.Faces (words ++ rest) →
      Yields (next (answer cursor)) Fits words rest) :
    Yields (reading >>= next) Fits words rest := by
  intro cursor faces
  obtain ⟨value, fits, read⟩ := back cursor faces cursor faces
  exact ⟨value, fits, reads_bind.mpr ⟨_, _, looks cursor, read⟩⟩

theorem get {next : Cursor → Reading β}
    (back : ∀ cursor : Cursor, cursor.Faces (words ++ rest) →
      Yields (next cursor) Fits words rest) :
    Yields (get >>= next) Fits words rest :=
  look (fun _ => reads_get.mpr ⟨rfl, rfl⟩) back

theorem ahead {count : Nat} {next : Token → Reading β}
    (back : ∀ token : Token, token.word = Word.nth (words ++ rest) count →
      Yields (next token) Fits words rest) :
    Yields (Reading.ahead count >>= next) Fits words rest :=
  look (fun _ => reads_ahead.mpr ⟨rfl, rfl⟩) fun _ faces => back _ (faces.word_ahead count)

theorem current {next : Token → Reading β}
    (back : ∀ token : Token, token.word = Word.nth (words ++ rest) 0 →
      Yields (next token) Fits words rest) :
    Yields (Reading.current >>= next) Fits words rest :=
  ahead back

theorem check {text : String} {found : Bool} {next : Bool → Reading β}
    (known : (Word.nth (words ++ rest) 0).reads text = found)
    (back : Yields (next found) Fits words rest) :
    Yields (Reading.check text >>= next) Fits words rest := by
  refine look (fun _ => reads_check.mpr ⟨rfl, rfl⟩) fun cursor faces => ?_
  rw [Token.reads_eq, Cursor.current, faces.word_ahead, known]
  exact back

theorem check_true {text : String} {next : Bool → Reading β}
    (known : (Word.nth (words ++ rest) 0).reads text = true)
    (back : Yields (next true) Fits words rest) :
    Yields (Reading.check text >>= next) Fits words rest :=
  check known back

theorem check_false {text : String} {next : Bool → Reading β}
    (known : (Word.nth (words ++ rest) 0).reads text = false)
    (back : Yields (next false) Fits words rest) :
    Yields (Reading.check text >>= next) Fits words rest :=
  check known back

theorem skip {count : Nat} {next : Unit → Reading β} (count_eq : words.length = count)
    (back : Yields (next ()) Fits others rest) :
    Yields (Reading.skip count >>= next) Fits (words ++ others) rest := by
  have passes : Takes (Reading.skip count) () words (others ++ rest) := by
    intro cursor _
    rw [count_eq]
    exact ⟨(), rfl, reads_skip.mpr rfl⟩
  exact bind passes back

theorem skip_one {next : Unit → Reading β} (back : Yields (next ()) Fits others rest) :
    Yields (Reading.skip 1 >>= next) Fits (word :: others) rest :=
  show Yields _ Fits ([word] ++ others) rest from skip rfl back

/-- A reading that answers the token it passes. -/
theorem pass {reading : Reading Token} {next : Token → Reading β}
    (passes : ∀ cursor : Cursor, cursor.current.word = word →
      Reads reading cursor cursor.current (cursor.skip 1))
    (back : ∀ token : Token, token.word = word → Yields (next token) Fits others rest) :
    Yields (reading >>= next) Fits (word :: others) rest := by
  have front : Yields reading (·.word = word) [word] (others ++ rest) := by
    intro cursor faces
    have word_eq : cursor.current.word = word := faces.word_ahead 0
    exact ⟨_, word_eq, passes cursor word_eq⟩
  exact bind_any front back

theorem advance {next : Token → Reading β}
    (back : ∀ token : Token, token.word = word → Yields (next token) Fits others rest) :
    Yields (Reading.advance >>= next) Fits (word :: others) rest :=
  pass (fun _ _ => reads_advance.mpr ⟨rfl, rfl⟩) back

theorem expect {text : String} {next : Token → Reading β} (known : word.reads text = true)
    (back : ∀ token : Token, token.word = word → Yields (next token) Fits others rest) :
    Yields (Reading.expect text >>= next) Fits (word :: others) rest := by
  refine pass (fun cursor word_eq => reads_expect.mpr ⟨?_, rfl, rfl⟩) back
  rw [Token.reads_eq, word_eq, known]

theorem expectIdentifier {wanted : String} {next : Token → Reading β}
    (known : word.kind = .identifier)
    (back : ∀ token : Token, token.word = word → Yields (next token) Fits others rest) :
    Yields (Reading.expectIdentifier wanted >>= next) Fits (word :: others) rest := by
  refine pass (fun cursor word_eq => reads_expectIdentifier.mpr ⟨?_, rfl, rfl⟩) back
  have kind_eq : cursor.current.kind = .identifier := (congrArg Word.kind word_eq).trans known
  rw [Token.isIdentifier, kind_eq]
  rfl

end Yields

/-! ## Lists -/

section Lists

variable {item : Reading α} {words : α → List Word} {mark : Word} {items : List α}
  {rest : List Word}

/-- Every item is taken in front of a separator, and in front of the rest. -/
def TakesEach (item : Reading α) (words : α → List Word) (mark : Word) (rest : List Word)
    (items : List α) : Prop :=
  ∀ value ∈ items, Takes item value (words value) rest ∧
    ∀ more, Takes item value (words value) (mark :: more)

theorem TakesEach.tail {value : α} (each : TakesEach item words mark rest (value :: items)) :
    TakesEach item words mark rest items :=
  fun other member => each other (List.mem_cons_of_mem value member)

theorem length_le_length_intercalate (words : α → List Word) (mark : Word) (items : List α) :
    items.length ≤ ([mark].intercalate (items.map words)).length + 1 := by
  induction items with
  | nil => exact Nat.zero_le _
  | cons value items inductionHypothesis =>
    cases items with
    | nil => simp
    | cons next more =>
      simp only [List.map_cons, List.length_cons, List.intercalate_cons_cons, List.length_append]
        at inductionHypothesis ⊢
      omega

theorem exists_append_eq_intercalate_words (mark : Word) (first : List Word)
    (others : List (List Word)) :
    ∃ tail, [mark].intercalate (first :: others) = first ++ tail := by
  cases others with
  | nil => exact ⟨[], by simp⟩
  | cons next more =>
    rw [List.intercalate_cons_cons, List.append_assoc]
    exact ⟨_, rfl⟩

theorem length_le_intercalate (words : α → List Word) (mark : Word) {value : α}
    (member : value ∈ items) :
    (words value).length ≤ ([mark].intercalate (items.map words)).length := by
  induction items with
  | nil => cases member
  | cons first items inductionHypothesis =>
    cases items with
    | nil =>
      obtain rfl := List.mem_singleton.mp member
      simp
    | cons next more =>
      simp only [List.map_cons, List.intercalate_cons_cons, List.length_append]
        at inductionHypothesis ⊢
      obtain rfl | later := List.mem_cons.mp member
      · omega
      · have := inductionHypothesis later
        omega

theorem takes_separatedWithin {separator : String} (separates : mark.reads separator = true)
    (stops : (Word.nth rest 0).reads separator = false) (filled : items ≠ [])
    (each : TakesEach item words mark rest items) {limit : Nat}
    (enough : items.length ≤ limit + 1) :
    Takes (separatedWithin separator item limit) items ([mark].intercalate (items.map words))
      rest := by
  -- The last item has to be told apart: no separator follows it, so its rest is the rest of all.
  induction items generalizing limit with
  | nil => exact absurd rfl filled
  | cons value items inductionHypothesis =>
    obtain ⟨last, inner⟩ := each value List.mem_cons_self
    cases items with
    | nil =>
      have single : [mark].intercalate ([value].map words) = words value ++ [] := by simp
      rw [single]
      cases limit with
      | zero => exact .bind last (.pure rfl)
      | succ limit => exact .bind last (.check_false stops (.pure rfl))
    | cons next more =>
      cases limit with
      | zero => simp at enough
      | succ limit =>
        have others := inductionHypothesis (List.cons_ne_nil next more) each.tail
          (Nat.le_of_succ_le_succ enough)
        simp only [List.map_cons, List.intercalate_cons_cons, List.append_assoc] at others ⊢
        refine .bind (inner _) (.check_true separates (.advance fun _ _ => ?_))
        exact .map others rfl

theorem takes_separated {separator : String} (separates : mark.reads separator = true)
    (stops : (Word.nth rest 0).reads separator = false) (filled : items ≠ [])
    (each : TakesEach item words mark rest items) :
    Takes (separated separator item) items ([mark].intercalate (items.map words)) rest := by
  refine .get fun cursor faces => ?_
  have bound := length_le_length_intercalate words mark items
  have remaining_eq := faces.remaining_eq
  rw [List.length_append] at remaining_eq
  exact takes_separatedWithin separates stops filled each (by omega)

theorem yields_separated_one {separator : String} {Fits : α → Prop} {words : List Word}
    (stops : (Word.nth rest 0).reads separator = false) (yields : Yields item Fits words rest) :
    Yields (separated separator item) (∃ value, Fits value ∧ · = [value]) words rest := by
  rw [← List.append_nil words]
  refine .get fun cursor _ => ?_
  cases cursor.remaining with
  | zero => exact .bind_any yields fun value fits => .pure ⟨value, fits, rfl⟩
  | succ limit =>
    exact .bind_any yields fun value fits => .check_false stops (.pure ⟨value, fits, rfl⟩)

/-- The first word of every item is told from the mark that closes the list. -/
def OpenEach (words : α → List Word) (close : String) (items : List α) : Prop :=
  ∀ value ∈ items, ∃ first others, words value = first :: others ∧ first.reads close = false

theorem OpenEach.tail {close : String} {value : α} (opens : OpenEach words close (value :: items)) :
    OpenEach words close items :=
  fun other member => opens other (List.mem_cons_of_mem value member)

theorem takes_listedWithin {close : String} {closing : Word} (separates : mark.reads "," = true)
    (closes : closing.reads close = true) (stops : closing.reads "," = false)
    (opens : OpenEach words close items) (each : TakesEach item words mark (closing :: rest) items)
    {limit : Nat} (enough : items.length ≤ limit) :
    Takes (listedWithin close item limit) items ([mark].intercalate (items.map words))
      (closing :: rest) := by
  -- Each round begins by looking for the closing mark, which no item opens with.
  induction items generalizing limit with
  | nil =>
    cases limit with
    | zero => exact .check_true closes (.pure rfl)
    | succ limit => exact .check_true closes (.pure rfl)
  | cons value items inductionHypothesis =>
    obtain ⟨last, inner⟩ := each value List.mem_cons_self
    obtain ⟨first, others, words_eq, opened⟩ := opens value List.mem_cons_self
    cases limit with
    | zero => simp at enough
    | succ limit =>
      have later := inductionHypothesis opens.tail each.tail (Nat.le_of_succ_le_succ enough)
      rw [listedWithin]
      cases items with
      | nil =>
        have single : [mark].intercalate ([value].map words) = words value ++ [] := by simp
        rw [single]
        refine .check_false (by rw [words_eq]; exact opened) ?_
        exact .bind last (.check_false stops (.pure rfl))
      | cons next more =>
        simp only [List.map_cons, List.intercalate_cons_cons, List.append_assoc] at later ⊢
        refine .check_false (by rw [words_eq]; exact opened) ?_
        refine .bind (inner _) (.check_true separates (.advance fun _ _ => ?_))
        exact .map later rfl

theorem takes_listed {close : String} {closing : Word} (separates : mark.reads "," = true)
    (closes : closing.reads close = true) (stops : closing.reads "," = false)
    (opens : OpenEach words close items)
    (each : TakesEach item words mark (closing :: rest) items) :
    Takes (listed close item) items ([mark].intercalate (items.map words)) (closing :: rest) := by
  refine .get fun cursor faces => ?_
  have bound := length_le_length_intercalate words mark items
  have remaining_eq := faces.remaining_eq
  -- The closing mark makes up for the separator that the last item lacks.
  rw [List.length_append, List.length_cons] at remaining_eq
  exact takes_listedWithin separates closes stops opens each (by omega)

end Lists

end Reading

end PeerExpansion
