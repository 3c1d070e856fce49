import Mathlib.Data.List.Forall2
import PeerExpansion.Proofs.Reading.Limit

/-! # Two sources read side by side

A reading looks at the kinds and texts of tokens, at whether one touches another, and at whether it
stands on a later line. Where two sources have such tokens alike, a reading that goes through both
takes the same way: it fails at both with the same complaint, or what it answers is alike. A
`Likeness` says what that means for tokens and for what is made of them; `Parallel` says it of a
pair of readings, and each rule about it takes one step in both sources.
-/

namespace PeerExpansion

/-- Which tokens of two sources correspond to one another, and which positions, offsets and
stretches of text do in consequence. -/
structure Likeness (source other : List Char) where
  Tokens : Token → Token → Prop
  Positions : Position → Position → Prop
  Stops : Nat → Nat → Prop
  Texts : String → String → Prop
  kind_eq {token twin : Token} : Tokens token twin → token.kind = twin.kind
  text_eq {token twin : Token} : Tokens token twin → token.text = twin.text
  line_lt_iff {first firstTwin second secondTwin : Token} :
    Tokens first firstTwin → Tokens second secondTwin →
      (first.position.line < second.position.line ↔
        firstTwin.position.line < secondTwin.position.line)
  touches_iff {first firstTwin second secondTwin : Token} :
    Tokens first firstTwin → Tokens second secondTwin →
      (first.stop = second.start ↔ firstTwin.stop = secondTwin.start)
  position {token twin : Token} : Tokens token twin → Positions token.position twin.position
  stop {token twin : Token} : Tokens token twin → Stops token.stop twin.stop
  empty : Texts "" ""
  slice {first firstTwin last lastTwin : Token} :
    Tokens first firstTwin → Tokens last lastTwin →
      Texts (String.ofList (Text.slice source first.start last.stop))
        (String.ofList (Text.slice other firstTwin.start lastTwin.stop))

namespace Likeness

variable {source other : List Char} (like : Likeness source other)

/-- Two cursors with the same way before them. Of the tokens behind them only the nearest ones need
to correspond, and these not before something was read. -/
structure Cursors (begun : Bool) (cursor twin : Cursor) : Prop where
  source_eq : cursor.source = source
  other_eq : twin.source = other
  ends : cursor.EndsEmpty
  behind : List.Forall₂ like.Tokens cursor.behind twin.behind
  ending : like.Tokens cursor.ending twin.ending
  previous : begun = true → ∃ last lastTwin, cursor.previous? = some last ∧
    twin.previous? = some lastTwin ∧ like.Tokens last lastTwin

variable {like}

section Tokens

variable {token twin : Token} (alike : like.Tokens token twin)
include alike

theorem reads_eq (text : String) : token.reads text = twin.reads text := by
  rw [Token.reads, Token.reads, like.kind_eq alike, like.text_eq alike]

theorem isPunctuation_eq (text : String) : token.isPunctuation text = twin.isPunctuation text := by
  rw [Token.isPunctuation, Token.isPunctuation, like.kind_eq alike, like.text_eq alike]

theorem isIdentifier_eq : token.isIdentifier = twin.isIdentifier := by
  rw [Token.isIdentifier, Token.isIdentifier, like.kind_eq alike]

theorem isOneOf_eq (texts : List String) : token.isOneOf texts = twin.isOneOf texts := by
  rw [Token.isOneOf, Token.isOneOf, like.text_eq alike]

theorem isOpening_eq : token.isOpening = twin.isOpening := by
  rw [Token.isOpening, Token.isOpening, like.kind_eq alike, isOneOf_eq alike]

theorem isClosing_eq : token.isClosing = twin.isClosing := by
  rw [Token.isClosing, Token.isClosing, like.kind_eq alike, isOneOf_eq alike]

theorem shown_eq : token.shown = twin.shown := by
  rw [Token.shown, Token.shown, like.text_eq alike]

end Tokens

namespace Cursors

variable {begun : Bool} {cursor twin : Cursor} (cursors : like.Cursors begun cursor twin)
include cursors

theorem remaining_eq : cursor.remaining = twin.remaining :=
  cursors.behind.length_eq

theorem ahead (count : Nat) : like.Tokens (cursor.ahead count) (twin.ahead count) := by
  have behind := cursors.behind
  unfold Cursor.ahead
  generalize cursor.behind = tokens at behind
  generalize twin.behind = twins at behind
  induction behind generalizing count with
  | nil => exact cursors.ending
  | cons alike _ inductionHypothesis =>
    cases count with
    | zero => exact alike
    | succ count => exact inductionHypothesis count

theorem current : like.Tokens cursor.current twin.current :=
  cursors.ahead 0

theorem skip (count : Nat) : like.Cursors begun (cursor.skip count) (twin.skip count) where
  source_eq := cursors.source_eq
  other_eq := cursors.other_eq
  ends := cursors.ends.skip count
  behind := List.forall₂_drop count cursors.behind
  ending := cursors.ending
  previous started := by
    -- The token just passed is the last of those skipped, if there are any.
    have taken := List.rel_reverse (List.forall₂_take count cursors.behind)
    unfold Cursor.previous? Cursor.skip
    generalize (cursor.behind.take count).reverse = tokens at taken ⊢
    generalize (twin.behind.take count).reverse = twins at taken ⊢
    cases taken with
    | nil => exact cursors.previous started
    | cons alike _ => exact ⟨_, _, rfl, rfl, alike⟩

/-- Behind a token that is passed, what was passed corresponds. -/
theorem pass (some : 0 < cursor.remaining) : like.Cursors true (cursor.skip 1) (twin.skip 1) := by
  refine { cursors.skip 1 with previous := fun _ => ?_ }
  have behind := cursors.behind
  unfold Cursor.remaining at some
  unfold Cursor.previous? Cursor.skip
  generalize cursor.behind = tokens at behind some ⊢
  generalize twin.behind = twins at behind ⊢
  cases behind with
  | nil => cases some
  | cons alike _ => exact ⟨_, _, rfl, rfl, alike⟩

omit cursors in
theorem of_true (cursors : like.Cursors true cursor twin) (begun : Bool) :
    like.Cursors begun cursor twin :=
  { cursors with previous := fun _ => cursors.previous rfl }

end Cursors

end Likeness

namespace Reading

variable {source other : List Char} {like : Likeness source other} {begun ended : Bool}
variable {α β γ δ : Type}

/-- Both readings have failed with the same complaint, or both have come to cursors with the same
way before them and answer what fits together. -/
def Agree (like : Likeness source other) (ended : Bool) (Fits : α → β → Prop) :
    Except SyntaxError (α × Cursor) → Except SyntaxError (β × Cursor) → Prop
  | .ok (value, last), .ok (valueTwin, lastTwin) =>
    Fits value valueTwin ∧ like.Cursors ended last lastTwin
  | .error error, .error errorTwin => error.fault = errorTwin.fault
  | _, _ => False

/-- From cursors with the same way before them the readings go side by side. -/
def Parallel (like : Likeness source other) (begun ended : Bool) (Fits : α → β → Prop)
    (reading : Reading α) (twin : Reading β) : Prop :=
  ∀ cursor cursorTwin, like.Cursors begun cursor cursorTwin →
    Agree like ended Fits (reading.run cursor) (twin.run cursorTwin)

theorem Agree.imp {Fits Weaker : α → β → Prop} {later : Bool}
    {result : Except SyntaxError (α × Cursor)} {twin : Except SyntaxError (β × Cursor)}
    (agree : Agree like ended Fits result twin)
    (weakens : ∀ value valueTwin, Fits value valueTwin → Weaker value valueTwin)
    (forgets : ∀ last lastTwin, like.Cursors ended last lastTwin →
      like.Cursors later last lastTwin) :
    Agree like later Weaker result twin := by
  cases result with
  | error error =>
    cases twin with
    | error errorTwin => exact agree
    | ok => exact agree.elim
  | ok found =>
    cases twin with
    | error => exact agree.elim
    | ok foundTwin => exact ⟨weakens _ _ agree.1, forgets _ _ agree.2⟩

theorem Parallel.mono {Fits Weaker : α → β → Prop} {reading : Reading α} {twin : Reading β}
    (parallel : Parallel like begun ended Fits reading twin)
    (weakens : ∀ value valueTwin, Fits value valueTwin → Weaker value valueTwin) :
    Parallel like begun ended Weaker reading twin :=
  fun _ _ cursors => (parallel _ _ cursors).imp weakens fun _ _ => id

/-- What was read may be left out of account again. -/
theorem Parallel.forget {Fits : α → β → Prop} {reading : Reading α} {twin : Reading β}
    (parallel : Parallel like begun true Fits reading twin) (ended : Bool) :
    Parallel like begun ended Fits reading twin :=
  fun _ _ cursors => (parallel _ _ cursors).imp (fun _ _ => id) fun _ _ later => later.of_true ended

section Reads

variable {Fits : α → β → Prop} {reading : Reading α} {twin : Reading β} {cursor cursorTwin : Cursor}
variable (parallel : Parallel like begun ended Fits reading twin)
variable (cursors : like.Cursors begun cursor cursorTwin)
include parallel cursors

theorem Parallel.exists_twin {value : α} {last : Cursor} (read : Reads reading cursor value last) :
    ∃ valueTwin lastTwin, Reads twin cursorTwin valueTwin lastTwin ∧ Fits value valueTwin ∧
      like.Cursors ended last lastTwin := by
  have agree := parallel _ _ cursors
  rw [read] at agree
  cases ran : twin.run cursorTwin with
  | error =>
    rw [ran] at agree
    exact agree.elim
  | ok found =>
    rw [ran] at agree
    exact ⟨_, _, ran, agree⟩

theorem Parallel.exists_reads {valueTwin : β} {lastTwin : Cursor}
    (read : Reads twin cursorTwin valueTwin lastTwin) :
    ∃ value last, Reads reading cursor value last ∧ Fits value valueTwin ∧
      like.Cursors ended last lastTwin := by
  have agree := parallel _ _ cursors
  rw [read] at agree
  cases ran : reading.run cursor with
  | error =>
    rw [ran] at agree
    exact agree.elim
  | ok found =>
    rw [ran] at agree
    exact ⟨_, _, ran, agree⟩

end Reads

theorem parallel_pure {Fits : α → β → Prop} {value : α} {valueTwin : β}
    (fits : Fits value valueTwin) :
    Parallel like begun begun Fits (pure value) (pure valueTwin) :=
  fun _ _ cursors => ⟨fits, cursors⟩

theorem parallel_bind {middle : Bool} {Given : α → β → Prop} {Fits : γ → δ → Prop}
    {reading : Reading α} {twin : Reading β} {next : α → Reading γ} {nextTwin : β → Reading δ}
    (front : Parallel like begun middle Given reading twin)
    (back : ∀ value valueTwin, Given value valueTwin →
      Parallel like middle ended Fits (next value) (nextTwin valueTwin)) :
    Parallel like begun ended Fits (reading >>= next) (twin >>= nextTwin) := by
  intro cursor cursorTwin cursors
  have agree := front cursor cursorTwin cursors
  rw [StateT.run_bind, StateT.run_bind]
  generalize reading.run cursor = result at agree
  generalize twin.run cursorTwin = resultTwin at agree
  cases result with
  | error error =>
    cases resultTwin with
    | error errorTwin => exact agree
    | ok => exact agree.elim
  | ok found =>
    cases resultTwin with
    | error => exact agree.elim
    | ok foundTwin => exact back _ _ agree.1 _ _ agree.2

/-- Where what was read is the same in both sources, both go on with the same. -/
theorem parallel_bind_eq {middle : Bool} {Fits : γ → δ → Prop} {reading twin : Reading α}
    {next : α → Reading γ} {nextTwin : α → Reading δ}
    (front : Parallel like begun middle Eq reading twin)
    (back : ∀ value, Parallel like middle ended Fits (next value) (nextTwin value)) :
    Parallel like begun ended Fits (reading >>= next) (twin >>= nextTwin) :=
  parallel_bind front fun value _ same => same ▸ back value

theorem parallel_ite {condition conditionTwin : Prop} [Decidable condition]
    [Decidable conditionTwin] {Fits : α → β → Prop} {yes no : Reading α}
    {yesTwin noTwin : Reading β}
    (same : condition ↔ conditionTwin) (left : Parallel like begun ended Fits yes yesTwin)
    (right : Parallel like begun ended Fits no noTwin) :
    Parallel like begun ended Fits (if condition then yes else no)
      (if conditionTwin then yesTwin else noTwin) := by
  by_cases held : condition
  · rwa [if_pos held, if_pos (same.mp held)]
  · rwa [if_neg held, if_neg (held ∘ same.mpr)]

theorem parallel_get : Parallel like begun begun (like.Cursors begun) get get :=
  fun _ _ cursors => ⟨cursors, cursors⟩

theorem parallel_ahead (count : Nat) :
    Parallel like begun begun like.Tokens (ahead count) (ahead count) :=
  fun _ _ cursors => ⟨cursors.ahead count, cursors⟩

theorem parallel_current : Parallel like begun begun like.Tokens current current :=
  parallel_ahead 0

theorem parallel_check (text : String) : Parallel like begun begun Eq (check text) (check text) :=
  fun _ _ cursors => ⟨Likeness.reads_eq cursors.current text, cursors⟩

theorem parallel_skip (count : Nat) :
    Parallel like begun begun Eq (skip count) (skip count) :=
  fun _ _ cursors => ⟨rfl, cursors.skip count⟩

theorem parallel_advance : Parallel like begun begun like.Tokens advance advance :=
  fun _ _ cursors => ⟨cursors.current, cursors.skip 1⟩

theorem parallel_fail (fault : SyntaxFault) (token twin : Token) (Fits : α → β → Prop) :
    Parallel like begun ended Fits (fail fault token) (fail fault twin) :=
  fun _ _ _ => rfl

theorem parallel_missing (wanted : String) (Fits : α → β → Prop) :
    Parallel like begun ended Fits (missing wanted) (missing wanted) := by
  refine parallel_bind parallel_current fun token twin alike => ?_
  rw [Likeness.shown_eq alike]
  exact parallel_fail _ _ _ Fits

theorem parallel_expect {text : String} (visible : text ≠ "") :
    Parallel like begun true like.Tokens (expect text) (expect text) := by
  intro cursor twin cursors
  rw [expect, run_check_bind, run_check_bind, ← Likeness.reads_eq cursors.current]
  by_cases seen : cursor.current.reads text = true
  · rw [if_pos seen]
    exact ⟨cursors.current, cursors.pass (cursors.ends.remaining_pos_of_reads visible seen)⟩
  · rw [if_neg seen]
    exact parallel_missing _ _ cursor twin cursors

theorem parallel_expectIdentifier (wanted : String) :
    Parallel like begun true like.Tokens (expectIdentifier wanted) (expectIdentifier wanted) := by
  intro cursor twin cursors
  rw [expectIdentifier, run_current_bind, run_current_bind,
    ← Likeness.isIdentifier_eq cursors.current]
  by_cases seen : cursor.current.isIdentifier = true
  · rw [if_pos seen]
    exact ⟨cursors.current, cursors.pass (cursors.ends.remaining_pos_of_isIdentifier seen)⟩
  · rw [if_neg seen]
    exact parallel_missing _ _ cursor twin cursors

theorem parallel_textSince {first twin : Token} (alike : like.Tokens first twin) :
    Parallel like true true like.Texts (textSince first) (textSince twin) := by
  intro cursor cursorTwin cursors
  obtain ⟨last, lastTwin, previous, previousTwin, lastAlike⟩ := cursors.previous rfl
  refine ⟨?_, cursors⟩
  rw [Cursor.textSince, Cursor.textSince, previous, previousTwin, cursors.source_eq,
    cursors.other_eq]
  exact like.slice alike lastAlike

/-- A loop takes as many steps as there are tokens left, and there are as many in both sources. -/
theorem parallel_get_bind {Fits : α → β → Prop} {loop : Nat → Reading α} {twin : Nat → Reading β}
    (each : ∀ limit, Parallel like begun ended Fits (loop limit) (twin limit)) :
    Parallel like begun ended Fits (do loop (← get).remaining) (do twin (← get).remaining) := by
  intro cursor cursorTwin cursors
  rw [run_get_bind, run_get_bind, ← cursors.remaining_eq]
  exact each _ cursor cursorTwin cursors

section Items

variable {Fits : α → β → Prop} {item : Reading α} {twin : Reading β}
variable (each : Parallel like true true Fits item twin)
include each

theorem parallel_separatedWithin (separator : String) (limit : Nat) :
    Parallel like true true (List.Forall₂ Fits) (separatedWithin separator item limit)
      (separatedWithin separator twin limit) := by
  induction limit with
  | zero =>
    refine parallel_bind each fun value valueTwin fits => ?_
    exact parallel_pure (.cons fits .nil)
  | succ limit inductionHypothesis =>
    refine parallel_bind each fun value valueTwin fits => ?_
    refine parallel_bind_eq (parallel_check separator) fun found => ?_
    refine parallel_ite Iff.rfl ?_ (parallel_pure (.cons fits .nil))
    refine parallel_bind parallel_advance fun _ _ _ => ?_
    refine parallel_bind inductionHypothesis fun others othersTwin othersFit => ?_
    exact parallel_pure (.cons fits othersFit)

theorem parallel_separated (separator : String) :
    Parallel like true true (List.Forall₂ Fits) (separated separator item)
      (separated separator twin) :=
  parallel_get_bind (parallel_separatedWithin each separator)

theorem parallel_listedWithin (close : String) (limit : Nat) :
    Parallel like true true (List.Forall₂ Fits) (listedWithin close item limit)
      (listedWithin close twin limit) := by
  induction limit with
  | zero =>
    refine parallel_bind_eq (parallel_check close) fun closed => ?_
    refine parallel_ite Iff.rfl (parallel_pure .nil) ?_
    refine parallel_bind each fun value valueTwin fits => ?_
    exact parallel_pure (.cons fits .nil)
  | succ limit inductionHypothesis =>
    refine parallel_bind_eq (parallel_check close) fun closed => ?_
    refine parallel_ite Iff.rfl (parallel_pure .nil) ?_
    refine parallel_bind each fun value valueTwin fits => ?_
    refine parallel_bind_eq (parallel_check ",") fun found => ?_
    refine parallel_ite Iff.rfl ?_ (parallel_pure (.cons fits .nil))
    refine parallel_bind parallel_advance fun _ _ _ => ?_
    refine parallel_bind inductionHypothesis fun others othersTwin othersFit => ?_
    exact parallel_pure (.cons fits othersFit)

theorem parallel_listed (close : String) :
    Parallel like true true (List.Forall₂ Fits) (listed close item) (listed close twin) :=
  parallel_get_bind (parallel_listedWithin each close)

end Items

end Reading

end PeerExpansion
