import PeerExpansion.Proofs.Token.Pieces

/-! # Where string literals close

A literal is meant to close at the first of its marks that is neither escaped nor inside an
interpolation. A literal on one line does, as far as the literals in its interpolations do. One
between triple quotes is closed by the next triple quote, so it does only where that one is free.
-/

namespace PeerExpansion

/-! ## Free places -/

def LiteralFrame.isLiteral : LiteralFrame → Bool
  | line | block => true
  | interpolation _ => false

/-- `Closes minds Fits frame text behind` says that the frame, read from `text` on, is closed in
front of `behind`. In the literals that `minds` accepts, a backslash takes the next character with
it or opens an interpolation; in others it is a character like any other. Of every literal in an
interpolation `Fits` has to hold. -/
inductive Closes (minds : LiteralFrame → Bool)
    (Fits : LiteralFrame → List Char → List Char → Prop) :
    LiteralFrame → List Char → List Char → Prop
  | line {behind : List Char} : Closes minds Fits .line ('"' :: behind) behind
  | block {behind : List Char} : Closes minds Fits .block ('"' :: '"' :: '"' :: behind) behind
  | escape {frame : LiteralFrame} {character : Char} {text behind : List Char} :
      frame.isLiteral = true → minds frame = true → character ≠ '(' →
      Closes minds Fits frame text behind →
        Closes minds Fits frame ('\\' :: character :: text) behind
  | interpolation {frame : LiteralFrame} {text later behind : List Char} :
      frame.isLiteral = true → minds frame = true →
      Closes minds Fits (.interpolation 0) text later → Closes minds Fits frame later behind →
        Closes minds Fits frame ('\\' :: '(' :: text) behind
  | character {frame : LiteralFrame} {character : Char} {text behind : List Char} :
      frame.isLiteral = true → (minds frame = true → character ≠ '\\') →
      ¬ frame.mark <+: character :: text → Closes minds Fits frame text behind →
        Closes minds Fits frame (character :: text) behind
  | parenthesis {behind : List Char} : Closes minds Fits (.interpolation 0) (')' :: behind) behind
  | opening {depth : Nat} {text behind : List Char} :
      Closes minds Fits (.interpolation (depth + 1)) text behind →
        Closes minds Fits (.interpolation depth) ('(' :: text) behind
  | closing {depth : Nat} {text behind : List Char} :
      Closes minds Fits (.interpolation depth) text behind →
        Closes minds Fits (.interpolation (depth + 1)) (')' :: text) behind
  | innerLine {depth : Nat} {text later behind : List Char} : ¬ ['"', '"'] <+: text →
      Fits .line text later → Closes minds Fits .line text later →
      Closes minds Fits (.interpolation depth) later behind →
        Closes minds Fits (.interpolation depth) ('"' :: text) behind
  | innerBlock {depth : Nat} {text later behind : List Char} :
      Fits .block text later → Closes minds Fits .block text later →
      Closes minds Fits (.interpolation depth) later behind →
        Closes minds Fits (.interpolation depth) ('"' :: '"' :: '"' :: text) behind
  | code {depth : Nat} {character : Char} {text behind : List Char} :
      character ∉ ['(', ')', '"'] → Closes minds Fits (.interpolation depth) text behind →
        Closes minds Fits (.interpolation depth) (character :: text) behind

/-- How frames are meant to be closed: backslashes count in literals of both forms. -/
def ClosesAsMeant : LiteralFrame → List Char → List Char → Prop :=
  Closes LiteralFrame.isLiteral fun _ _ _ => True

/-- The number of backslashes at the end of a text. -/
def backslashes (front : List Char) : Nat :=
  (front.reverse.takeWhile (· == '\\')).length

/-- What stands behind `front` is escaped: an odd number of backslashes stands in front of it. -/
def Escaped (front : List Char) : Prop :=
  backslashes front % 2 = 1

instance (front : List Char) : Decidable (Escaped front) :=
  inferInstanceAs (Decidable (_ = _))

/-- An escaped parenthesis stands at the offset. It opens an interpolation. -/
def OpensAt (text : List Char) (offset : Nat) : Prop :=
  ['('] <+: text.drop offset ∧ Escaped (text.take offset)

/-- The offset is inside no interpolation of the literal whose text is given, that is, one comes to
it past characters and whole interpolations. -/
inductive Outside (text : List Char) : Nat → Prop
  | start : Outside text 0
  | next {offset : Nat} : Outside text offset → offset < text.length → ¬ OpensAt text offset →
      Outside text (offset + 1)
  | behind {offset : Nat} {later : List Char} : Outside text offset → OpensAt text offset →
      ClosesAsMeant (.interpolation 0) (text.drop (offset + 1)) later →
        Outside text (text.length - later.length)

/-- The offset is neither escaped nor inside an interpolation. -/
structure Free (text : List Char) (offset : Nat) : Prop where
  plain : ¬ Escaped (text.take offset)
  outside : Outside text offset

/-- The literal is closed by a mark at a free offset. -/
def ClosesFree (frame : LiteralFrame) (text behind : List Char) : Prop :=
  ∃ offset, text.drop offset = frame.mark ++ behind ∧ Free text offset

/-- The literal is closed by the first of its marks at a free offset. -/
def ClosesFirst (frame : LiteralFrame) (text behind : List Char) : Prop :=
  ∃ offset, text.drop offset = frame.mark ++ behind ∧ Free text offset ∧
    ∀ earlier < offset, frame.mark <+: text.drop earlier → ¬ Free text earlier

/-- The literal is closed in front of `behind` when backslashes count on one line only, and `Fits`
holds of it and of all literals in its interpolations. -/
def EachLiteral (Fits : LiteralFrame → List Char → List Char → Prop) (frame : LiteralFrame)
    (text behind : List Char) : Prop :=
  Fits frame text behind ∧ Closes (· == .line) Fits frame text behind

/-! ## Backslashes -/

section Backslashes

variable {front text rest : List Char} {character : Char} {offset : Nat}

theorem escaped_backslash : Escaped (front ++ ['\\']) ↔ ¬ Escaped front := by
  simp only [Escaped, backslashes, List.reverse_append, List.reverse_singleton,
    List.singleton_append, List.takeWhile_cons, beq_self_eq_true, if_true, List.length_cons]
  omega

theorem not_escaped_of_ne (other : character ≠ '\\') : ¬ Escaped (front ++ [character]) := by
  simp [Escaped, backslashes, other]

theorem not_escaped_nil : ¬ Escaped [] := by
  decide

theorem take_succ_of_drop (split : text.drop offset = character :: rest) :
    text.take (offset + 1) = text.take offset ++ [character] := by
  rw [List.take_add, split, List.take_succ_cons, List.take_zero]

theorem drop_succ_of_drop (split : text.drop offset = character :: rest) :
    text.drop (offset + 1) = rest := by
  rw [← List.drop_drop, split, List.drop_succ_cons, List.drop_zero]

theorem lt_length_of_drop (split : text.drop offset = character :: rest) :
    offset < text.length := by
  have := congrArg List.length split
  rw [List.length_drop, List.length_cons] at this
  omega

theorem opensAt_iff (split : text.drop offset = character :: rest) :
    OpensAt text offset ↔ character = '(' ∧ Escaped (text.take offset) := by
  simp [OpensAt, split, eq_comm]

end Backslashes

/-! ## Closing a frame -/

section Closing

variable {minds : LiteralFrame → Bool} {Fits Others : LiteralFrame → List Char → List Char → Prop}
variable {frame : LiteralFrame} {text behind other : List Char}

theorem Closes.mono (closes : Closes minds Fits frame text behind)
    (fits : ∀ frame text behind, Fits frame text behind → Others frame text behind) :
    Closes minds Others frame text behind := by
  induction closes with
  | line => exact .line
  | block => exact .block
  | escape literal minded plain _ inner => exact .escape literal minded plain inner
  | interpolation literal minded _ _ inner outer => exact .interpolation literal minded inner outer
  | character literal minded plain _ inner => exact .character literal minded plain inner
  | parenthesis => exact .parenthesis
  | opening _ inner => exact .opening inner
  | closing _ inner => exact .closing inner
  | innerLine single fitting _ _ inner outer =>
    exact .innerLine single (fits _ _ _ fitting) inner outer
  | innerBlock fitting _ _ inner outer => exact .innerBlock (fits _ _ _ fitting) inner outer
  | code plain _ inner => exact .code plain inner

/-- What closes a frame stands directly in front of what is behind. -/
theorem Closes.exists_eq_append (closes : Closes minds Fits frame text behind) :
    ∃ inner, text = inner ++ frame.mark ++ behind := by
  induction closes with
  | line | block | parenthesis => exact ⟨[], rfl⟩
  | @escape _ character _ _ _ _ _ _ inductionHypothesis =>
    obtain ⟨inner, rfl⟩ := inductionHypothesis
    exact ⟨'\\' :: character :: inner, rfl⟩
  | interpolation _ _ _ _ innerHypothesis outerHypothesis =>
    obtain ⟨outer, rfl⟩ := outerHypothesis
    obtain ⟨inner, rfl⟩ := innerHypothesis
    exact ⟨'\\' :: '(' :: (inner ++ [')'] ++ outer), by simp [LiteralFrame.mark]⟩
  | @character _ character _ _ _ _ _ _ inductionHypothesis
  | @code _ character _ _ _ _ inductionHypothesis =>
    obtain ⟨inner, rfl⟩ := inductionHypothesis
    exact ⟨character :: inner, rfl⟩
  | opening _ inductionHypothesis =>
    obtain ⟨inner, rfl⟩ := inductionHypothesis
    exact ⟨'(' :: inner, rfl⟩
  | closing _ inductionHypothesis =>
    obtain ⟨inner, rfl⟩ := inductionHypothesis
    exact ⟨')' :: inner, rfl⟩
  | innerLine _ _ _ _ innerHypothesis outerHypothesis =>
    obtain ⟨outer, rfl⟩ := outerHypothesis
    obtain ⟨inner, rfl⟩ := innerHypothesis
    exact ⟨'"' :: (inner ++ ['"'] ++ outer), by simp [LiteralFrame.mark]⟩
  | innerBlock _ _ _ innerHypothesis outerHypothesis =>
    obtain ⟨outer, rfl⟩ := outerHypothesis
    obtain ⟨inner, rfl⟩ := innerHypothesis
    exact ⟨'"' :: '"' :: '"' :: (inner ++ ['"', '"', '"'] ++ outer), by simp [LiteralFrame.mark]⟩

/-- A frame that is read from an offset on is closed further on. -/
theorem Closes.lt_of_drop {offset : Nat}
    (closes : Closes minds Fits frame (text.drop offset) behind) :
    offset < text.length - behind.length := by
  obtain ⟨inner, split⟩ := closes.exists_eq_append
  have filled : 0 < frame.mark.length := by
    cases frame <;> exact Nat.succ_pos _
  have length_eq := congrArg List.length split
  simp only [List.length_drop, List.length_append] at length_eq
  omega

/-- A frame is closed in one place only. -/
theorem Closes.unique (closes : Closes minds Fits frame text behind)
    (again : Closes minds Others frame text other) : behind = other := by
  -- What is read first tells the constructor; the ways on are the same by the hypotheses.
  induction closes generalizing other with
  | line =>
    cases again with
    | line => rfl
    | character _ _ unmarked => exact absurd ⟨_, rfl⟩ unmarked
  | block =>
    cases again with
    | block => rfl
    | character _ _ unmarked => exact absurd ⟨_, rfl⟩ unmarked
  | escape literal minded plain _ inductionHypothesis =>
    cases again with
    | escape _ _ _ later => exact inductionHypothesis later
    | interpolation => exact absurd rfl plain
    | character _ other => exact absurd rfl (other minded)
    | code => cases literal
  | interpolation literal minded _ _ innerHypothesis outerHypothesis =>
    cases again with
    | escape _ _ plain => exact absurd rfl plain
    | interpolation _ _ inner outer =>
      -- The interpolation has one end, so the literal goes on in one place.
      obtain rfl := innerHypothesis inner
      exact outerHypothesis outer
    | character _ other => exact absurd rfl (other minded)
    | code => cases literal
  | character literal plain unmarked _ inductionHypothesis =>
    cases again with
    | line | block => exact absurd ⟨_, rfl⟩ unmarked
    | escape _ minded | interpolation _ minded => exact absurd rfl (plain minded)
    | character _ _ _ later => exact inductionHypothesis later
    | parenthesis | opening | closing | innerLine | innerBlock | code => cases literal
  | parenthesis =>
    cases again with
    | character literal => cases literal
    | parenthesis => rfl
    | code plain => simp at plain
  | opening _ inductionHypothesis =>
    cases again with
    | character literal => cases literal
    | opening later => exact inductionHypothesis later
    | code plain => simp at plain
  | closing _ inductionHypothesis =>
    cases again with
    | character literal => cases literal
    | closing later => exact inductionHypothesis later
    | code plain => simp at plain
  | innerLine single _ _ _ innerHypothesis outerHypothesis =>
    cases again with
    | character literal => cases literal
    | innerLine _ _ inner outer =>
      obtain rfl := innerHypothesis inner
      exact outerHypothesis outer
    | innerBlock => exact absurd ⟨_, rfl⟩ single
    | code plain => simp at plain
  | innerBlock _ _ _ innerHypothesis outerHypothesis =>
    cases again with
    | character literal => cases literal
    | innerLine single => exact absurd ⟨_, rfl⟩ single
    | innerBlock _ inner outer =>
      obtain rfl := innerHypothesis inner
      exact outerHypothesis outer
    | code plain => simp at plain
  | code plain _ inductionHypothesis =>
    cases again with
    | escape literal | interpolation literal | character literal => cases literal
    | parenthesis | opening | closing | innerLine | innerBlock => simp at plain
    | code _ later => exact inductionHypothesis later

end Closing

/-! ## Steps past characters and interpolations -/

section Steps

variable {text rest later behind : List Char} {character : Char} {offset : Nat}

theorem Free.start (text : List Char) : Free text 0 :=
  ⟨not_escaped_nil, .start⟩

theorem Free.next (free : Free text offset) (split : text.drop offset = character :: rest)
    (plain : character ≠ '\\') : Free text (offset + 1) where
  plain := by
    rw [take_succ_of_drop split]
    exact not_escaped_of_ne plain
  outside := by
    refine .next free.outside (lt_length_of_drop split) ?_
    rw [opensAt_iff split]
    exact fun opens => free.plain opens.2

section Backslash

variable (free : Free text offset) (split : text.drop offset = '\\' :: rest)
include free split

theorem Free.escaped_succ : Escaped (text.take (offset + 1)) := by
  rw [take_succ_of_drop split, escaped_backslash]
  exact free.plain

theorem Free.outside_succ : Outside text (offset + 1) := by
  refine .next free.outside (lt_length_of_drop split) ?_
  rw [opensAt_iff split]
  exact fun opens => absurd opens.1 (by decide)

end Backslash

theorem Free.past_escape (free : Free text offset)
    (split : text.drop offset = '\\' :: character :: rest) (plain : character ≠ '(') :
    Free text (offset + 2) where
  plain := by
    rw [take_succ_of_drop (drop_succ_of_drop split)]
    by_cases slash : character = '\\'
    · rw [slash, escaped_backslash]
      exact not_not_intro (free.escaped_succ split)
    · exact not_escaped_of_ne slash
  outside := by
    have second := drop_succ_of_drop split
    refine .next (free.outside_succ split) (lt_length_of_drop second) ?_
    rw [opensAt_iff second]
    exact fun opens => plain opens.1

theorem Free.opensAt_succ (free : Free text offset)
    (split : text.drop offset = '\\' :: '(' :: rest) : OpensAt text (offset + 1) :=
  (opensAt_iff (drop_succ_of_drop split)).mpr ⟨rfl, free.escaped_succ split⟩

theorem Free.past_interpolation (free : Free text offset)
    (split : text.drop offset = '\\' :: '(' :: rest)
    (closes : ClosesAsMeant (.interpolation 0) rest later) :
    Free text (text.length - later.length) ∧ text.drop (text.length - later.length) = later := by
  have inside := drop_succ_of_drop (drop_succ_of_drop split)
  obtain ⟨inner, rest_eq⟩ := closes.exists_eq_append
  -- The interpolation ends with a parenthesis, so no run of backslashes leads out of it.
  have text_eq : text = text.take (offset + 2) ++ inner ++ [')'] ++ later := by
    conv_lhs => rw [← List.take_append_drop (offset + 2) text, inside, rest_eq]
    simp [LiteralFrame.mark]
  have length_eq := congrArg List.length text_eq
  rw [List.length_append] at length_eq
  have stop_eq :
      text.length - later.length = (text.take (offset + 2) ++ inner ++ [')']).length := by
    omega
  have take_eq := congrArg (List.take (text.length - later.length)) text_eq
  have drop_eq := congrArg (List.drop (text.length - later.length)) text_eq
  rw [stop_eq, List.take_left, ← stop_eq] at take_eq
  rw [stop_eq, List.drop_left, ← stop_eq] at drop_eq
  refine ⟨⟨?_, ?_⟩, drop_eq⟩
  · rw [take_eq]
    exact not_escaped_of_ne (by decide)
  · refine .behind (free.outside_succ split) (free.opensAt_succ split) ?_
    rwa [inside]

/-- An offset outside all interpolations is not inside one that begins before it. -/
theorem Outside.exists_of_lt {opening : Nat} (outside : Outside text opening)
    (opens : OpensAt text opening) (further : Outside text offset) (order : opening < offset) :
    ∃ behind, ClosesAsMeant (.interpolation 0) (text.drop (opening + 1)) behind ∧
      text.length - behind.length ≤ offset := by
  induction offset using Nat.strongRecOn generalizing opening with
  | ind offset inductionHypothesis =>
    cases further with
    | start => cases order
    | next before _ closed =>
      obtain rfl | less := Nat.eq_or_lt_of_le (Nat.le_of_lt_succ order)
      · exact absurd opens closed
      · obtain ⟨behind, closes, bound⟩ :=
          inductionHypothesis _ (Nat.lt_succ_self _) outside opens before less
        exact ⟨behind, closes, Nat.le_succ_of_le bound⟩
    | @behind previous later before opened closes =>
      have beyond := closes.lt_of_drop
      obtain less | rfl | greater := Nat.lt_trichotomy opening previous
      · obtain ⟨behind, closes, bound⟩ :=
          inductionHypothesis _ (by omega) outside opens before less
        exact ⟨behind, closes, by omega⟩
      · exact ⟨later, closes, Nat.le_refl _⟩
      · -- The opening would be inside the interpolation that ends at the offset.
        obtain ⟨behind, again, bound⟩ := inductionHypothesis _ order before opened outside greater
        obtain rfl := closes.unique again
        omega

end Steps

/-! ## The first free mark -/

section First

variable {frame : LiteralFrame} {text rest later behind : List Char} {character : Char}
variable {offset stop : Nat}

/-- No place inside an interpolation is free. -/
theorem Free.not_free_of_between (free : Free text offset)
    (split : text.drop offset = '\\' :: '(' :: rest)
    (closes : ClosesAsMeant (.interpolation 0) rest later) (above : offset < stop)
    (below : stop < text.length - later.length) : ¬ Free text stop := by
  intro inside
  obtain rfl | beyond := Nat.eq_or_lt_of_le (Nat.succ_le_of_lt above)
  · exact inside.plain (free.escaped_succ split)
  · obtain ⟨other, again, bound⟩ := (free.outside_succ split).exists_of_lt
      (free.opensAt_succ split) inside.outside beyond
    rw [drop_succ_of_drop (drop_succ_of_drop split)] at again
    obtain rfl := closes.unique again
    omega

theorem LiteralFrame.exists_mark_eq_cons (frame : LiteralFrame)
    (literal : frame.isLiteral = true) : ∃ more, frame.mark = '"' :: more := by
  cases frame with
  | line | block => exact ⟨_, rfl⟩
  | interpolation => cases literal

theorem LiteralFrame.not_mark_prefix_backslash (literal : frame.isLiteral = true) :
    ¬ frame.mark <+: '\\' :: rest := by
  obtain ⟨more, mark_eq⟩ := frame.exists_mark_eq_cons literal
  rw [mark_eq, List.cons_prefix_cons]
  exact fun marked => absurd marked.1 (by decide)

/-- A literal that is closed as meant is closed by the first free mark. -/
theorem ClosesAsMeant.closesFirst_of_drop (literal : frame.isLiteral = true)
    (closes : ClosesAsMeant frame rest behind) (split : text.drop offset = rest)
    (free : Free text offset)
    (none : ∀ earlier < offset, frame.mark <+: text.drop earlier → ¬ Free text earlier) :
    ClosesFirst frame text behind := by
  -- On the way the place is free, and no free mark stands in front of it.
  induction closes generalizing offset with
  | line | block => exact ⟨offset, split, free, none⟩
  | escape _ _ plain _ inductionHypothesis =>
    refine inductionHypothesis literal (drop_succ_of_drop (drop_succ_of_drop split))
      (free.past_escape split plain) ?_
    rw [Nat.forall_lt_succ_right, Nat.forall_lt_succ_right]
    refine ⟨⟨none, fun marked => ?_⟩, fun _ inside => inside.plain (free.escaped_succ split)⟩
    exact absurd (split ▸ marked) (LiteralFrame.not_mark_prefix_backslash literal)
  | interpolation _ _ inner _ _ inductionHypothesis =>
    obtain ⟨further, split_eq⟩ := free.past_interpolation split inner
    refine inductionHypothesis literal split_eq further fun earlier below marked => ?_
    obtain before | rfl | above := Nat.lt_trichotomy earlier offset
    · exact none earlier before marked
    · exact absurd (split ▸ marked) (LiteralFrame.not_mark_prefix_backslash literal)
    · exact free.not_free_of_between split inner above below
  | character _ plain unmarked _ inductionHypothesis =>
    refine inductionHypothesis literal (drop_succ_of_drop split)
      (free.next split (plain literal)) ?_
    rw [Nat.forall_lt_succ_right]
    exact ⟨none, fun marked => absurd (split ▸ marked) unmarked⟩
  | parenthesis | opening | closing | innerLine | innerBlock | code => cases literal

/-- From a free place in front of another one a reading comes to a free place further on, which is
not behind that other one. -/
theorem Free.exists_next (literal : frame.isLiteral = true) (free : Free text offset)
    (last : Free text stop) (before : offset < stop) (inside : stop < text.length)
    (unmarked : ¬ frame.mark <+: text.drop offset) :
    ∃ next, offset < next ∧ next ≤ stop ∧ Free text next ∧
      (ClosesAsMeant frame (text.drop next) behind →
        ClosesAsMeant frame (text.drop offset) behind) := by
  obtain ⟨character, rest, split⟩ : ∃ character rest, text.drop offset = character :: rest :=
    ⟨_, _, List.drop_eq_getElem_cons (Nat.lt_trans before inside)⟩
  rw [split] at unmarked ⊢
  by_cases slash : character = '\\'
  · subst slash
    -- The place behind the backslash is not free, so it is not the one that the reading goes to.
    have above : offset + 1 < stop := by
      refine Nat.lt_of_le_of_ne before ?_
      rintro rfl
      exact last.plain (free.escaped_succ split)
    have rest_eq := drop_succ_of_drop split
    rw [List.drop_eq_getElem_cons (Nat.lt_trans above inside)] at rest_eq
    obtain rfl := rest_eq.symm
    by_cases opens : text[offset + 1] = '('
    · rw [opens] at split ⊢
      obtain ⟨later, closes, bound⟩ := (free.outside_succ split).exists_of_lt
        (free.opensAt_succ split) last.outside above
      obtain ⟨past, later_eq⟩ := free.past_interpolation split closes
      have beyond := closes.lt_of_drop
      refine ⟨_, by omega, bound, past, fun outer => .interpolation literal literal closes ?_⟩
      rwa [later_eq] at outer
    · exact ⟨offset + 2, by omega, above, free.past_escape split opens,
        .escape literal literal opens⟩
  · refine ⟨offset + 1, Nat.lt_succ_self _, before, free.next split slash, fun later => ?_⟩
    rw [drop_succ_of_drop split] at later
    exact .character literal (fun _ => slash) unmarked later

/-- A literal is closed as meant by the first free mark, wherever a reading of it stands. -/
theorem closesAsMeant_of_free (literal : frame.isLiteral = true)
    (closing : text.drop stop = frame.mark ++ behind) (last : Free text stop)
    (first : ∀ earlier < stop, frame.mark <+: text.drop earlier → ¬ Free text earlier)
    (free : Free text offset) (order : offset ≤ stop) :
    ClosesAsMeant frame (text.drop offset) behind := by
  have inside : stop < text.length := by
    obtain ⟨more, mark_eq⟩ := frame.exists_mark_eq_cons literal
    rw [mark_eq] at closing
    exact lt_length_of_drop closing
  -- The way that is left to the mark gets shorter with each step.
  obtain ⟨distance, distance_eq⟩ : ∃ distance, distance = stop - offset := ⟨_, rfl⟩
  induction distance using Nat.strongRecOn generalizing offset with
  | ind distance inductionHypothesis =>
    obtain rfl | before := Nat.eq_or_lt_of_le order
    · rw [closing]
      cases frame with
      | line => exact .line
      | block => exact .block
      | interpolation => cases literal
    · have unmarked := mt (first offset before) (not_not_intro free)
      obtain ⟨next, above, below, further, closes⟩ :=
        free.exists_next literal last before inside unmarked
      exact closes (inductionHypothesis (stop - next) (by omega) further below rfl)

/-- A literal is closed as meant exactly if its first free mark closes it. -/
theorem closesAsMeant_iff (literal : frame.isLiteral = true) :
    ClosesAsMeant frame text behind ↔ ClosesFirst frame text behind := by
  constructor
  · intro closes
    exact closes.closesFirst_of_drop literal rfl (Free.start text) (fun _ below => by cases below)
  · rintro ⟨stop, closing, last, first⟩
    exact closesAsMeant_of_free literal closing last first (Free.start text) (Nat.zero_le stop)

end First

end PeerExpansion
