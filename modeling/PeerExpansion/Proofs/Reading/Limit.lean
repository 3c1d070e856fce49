import Mathlib.Data.Nat.Init
import PeerExpansion.Proofs.Reading.Forward

/-! # Loops that end before their steps run out

The loops of the readers are given as many steps as there are tokens left. Where each round takes a
token at least, a loop ends for a reason of its own and never for want of steps: more of them change
nothing. `Settles` says so of a loop, `Alike` of two readings that they come to the same as long as
only so many tokens are left.
-/

namespace PeerExpansion

namespace Cursor

/-- What stands behind the last token is the empty one. -/
structure EndsEmpty (cursor : Cursor) : Prop where
  kind_eq : cursor.ending.kind = .ending
  text_eq : cursor.ending.text = ""

namespace EndsEmpty

variable {cursor last : Cursor} (ends : cursor.EndsEmpty)
include ends

theorem skip (count : Nat) : (cursor.skip count).EndsEmpty :=
  ⟨ends.kind_eq, ends.text_eq⟩

theorem of_leads (leads : cursor.Leads last) : last.EndsEmpty := by
  obtain ⟨count, rfl⟩ := leads
  exact ends.skip count

theorem remaining_pos (seen : cursor.current.text ≠ "") : 0 < cursor.remaining := by
  rw [remaining, List.length_pos_iff]
  intro none
  apply seen
  rw [current, ahead, none]
  exact ends.text_eq

theorem remaining_pos_of_reads {text : String} (visible : text ≠ "")
    (seen : cursor.current.reads text = true) : 0 < cursor.remaining := by
  apply ends.remaining_pos
  rw [Token.reads, Bool.and_eq_true, beq_iff_eq] at seen
  rwa [seen.2]

theorem remaining_pos_of_isOneOf {texts : List String} (visible : "" ∉ texts)
    (seen : cursor.current.isOneOf texts = true) : 0 < cursor.remaining := by
  apply ends.remaining_pos
  rw [Token.isOneOf, List.contains_iff_mem] at seen
  exact fun empty => visible (empty ▸ seen)

theorem remaining_pos_of_isIdentifier (seen : cursor.current.isIdentifier = true) :
    0 < cursor.remaining := by
  rw [remaining, List.length_pos_iff]
  intro none
  rw [current, ahead, none, Token.isIdentifier] at seen
  cases ends.kind_eq.symm.trans (eq_of_beq seen)

variable (exhausted : cursor.remaining ≤ 0)
include exhausted

theorem not_reads {text : String} (visible : text ≠ "") : ¬ cursor.current.reads text = true :=
  fun seen => Nat.not_le_of_lt (ends.remaining_pos_of_reads visible seen) exhausted

theorem not_isOneOf {texts : List String} (visible : "" ∉ texts) :
    ¬ cursor.current.isOneOf texts = true :=
  fun seen => Nat.not_le_of_lt (ends.remaining_pos_of_isOneOf visible seen) exhausted

theorem not_isIdentifier : ¬ cursor.current.isIdentifier = true :=
  fun seen => Nat.not_le_of_lt (ends.remaining_pos_of_isIdentifier seen) exhausted

end EndsEmpty

theorem Leads.remaining_le {first last : Cursor} (leads : first.Leads last) :
    last.remaining ≤ first.remaining := by
  obtain ⟨count, rfl⟩ := leads
  rw [remaining_skip]
  exact Nat.sub_le _ _

end Cursor

namespace Reading

variable {α β : Type} {bound : Nat}

/-! ## Running a reading -/

section Run

variable (cursor : Cursor)

theorem run_get_bind (next : Cursor → Reading β) :
    (get >>= next).run cursor = (next cursor).run cursor := rfl

theorem run_ahead_bind (count : Nat) (next : Token → Reading β) :
    (ahead count >>= next).run cursor = (next (cursor.ahead count)).run cursor := rfl

theorem run_current_bind (next : Token → Reading β) :
    (current >>= next).run cursor = (next cursor.current).run cursor := rfl

theorem run_check_bind (text : String) (next : Bool → Reading β) :
    (check text >>= next).run cursor = (next (cursor.current.reads text)).run cursor := rfl

theorem run_skip_bind (count : Nat) (next : Unit → Reading β) :
    (skip count >>= next).run cursor = (next ()).run (cursor.skip count) := rfl

theorem run_advance_bind (next : Token → Reading β) :
    (advance >>= next).run cursor = (next cursor.current).run (cursor.skip 1) := rfl

end Run

/-! ## Readings that come to the same -/

/-- Where at most `bound` tokens are left, the readings come to the same. -/
def Alike (bound : Nat) (reading other : Reading α) : Prop :=
  ∀ cursor : Cursor, cursor.EndsEmpty → cursor.remaining ≤ bound →
    reading.run cursor = other.run cursor

/-- A reading that takes a token or more. -/
def Costs (reading : Reading α) : Prop :=
  ∀ first value last, first.EndsEmpty → Reads reading first value last →
    last.remaining < first.remaining

theorem alike_refl (reading : Reading α) : Alike bound reading reading :=
  fun _ _ _ => rfl

theorem alike_bind {reading other : Reading α} {next later : α → Reading β}
    (forward : Forward reading) (front : Alike bound reading other)
    (back : ∀ value, Alike bound (next value) (later value)) :
    Alike bound (reading >>= next) (other >>= later) := by
  intro cursor ends enough
  -- Behind the front there are no more tokens left than before it.
  rw [StateT.run_bind, StateT.run_bind, ← front cursor ends enough]
  cases ran : reading.run cursor with
  | error error => rfl
  | ok result =>
    obtain ⟨value, last⟩ := result
    have leads := forward _ _ _ ran
    exact back value last (ends.of_leads leads) (Nat.le_trans leads.remaining_le enough)

theorem alike_check {text : String} {yes no other noOther : Reading α}
    (found : Alike bound yes other) (missed : Alike bound no noOther) :
    Alike bound (do if ← check text then yes else no)
      (do if ← check text then other else noOther) := by
  refine alike_bind (forward_check _) (alike_refl _) fun asked => ?_
  split
  · exact found
  · exact missed

theorem alike_bind_of_costs {reading : Reading α} {next later : α → Reading β}
    (forward : Forward reading) (costs : Costs reading)
    (back : ∀ value, Alike bound (next value) (later value)) :
    Alike (bound + 1) (reading >>= next) (reading >>= later) := by
  intro cursor ends enough
  rw [StateT.run_bind, StateT.run_bind]
  cases ran : reading.run cursor with
  | error error => rfl
  | ok result =>
    obtain ⟨value, last⟩ := result
    have fewer := costs _ _ _ ends ran
    exact back value last (ends.of_leads (forward _ _ _ ran)) (by omega)

/-- A loop to which it makes no difference how many steps it may take, if only as many as there are
tokens left. -/
def Settles (loop : Nat → Reading α) : Prop :=
  ∀ limit, Alike limit (loop (limit + 1)) (loop limit)

theorem Settles.run_eq {loop : Nat → Reading α} (settles : Settles loop) {cursor : Cursor}
    (ends : cursor.EndsEmpty) {limit : Nat} (enough : cursor.remaining ≤ limit) :
    (loop limit).run cursor = (loop cursor.remaining).run cursor := by
  induction limit, enough using Nat.le_induction with
  | base => rfl
  | succ limit enough inductionHypothesis =>
    rw [settles limit cursor ends enough, inductionHypothesis]

/-- Behind a token that is passed there are fewer left. -/
theorem Alike.run_skip_eq {reading other : Reading α} (alike : Alike bound reading other)
    {cursor : Cursor} (some : 0 < cursor.remaining) (ends : cursor.EndsEmpty)
    (enough : cursor.remaining ≤ bound + 1) {count : Nat} (passes : 0 < count) :
    reading.run (cursor.skip count) = other.run (cursor.skip count) := by
  have fewer := Nat.lt_of_lt_of_le (Nat.sub_lt some passes) enough
  rw [← Cursor.remaining_skip] at fewer
  exact alike _ (ends.skip count) (Nat.le_of_lt_succ fewer)

section Branch

variable {condition : Prop} [Decidable condition] {no noOther : Reading α} {cursor : Cursor}
  (some : condition → 0 < cursor.remaining) (ends : cursor.EndsEmpty)
  (enough : cursor.remaining ≤ bound + 1) (same : no.run cursor = noOther.run cursor)
include some ends enough same

/-- Where only a token that is there is asked for and passed, the readings behind it may be alike for
a token fewer. -/
theorem run_ite_skip_eq {next later : Unit → Reading α} (alike : Alike bound (next ()) (later ()))
    {count : Nat} (passes : 0 < count) :
    (if condition then skip count >>= next else no).run cursor =
      (if condition then skip count >>= later else noOther).run cursor := by
  split
  next seen =>
    rw [run_skip_bind, run_skip_bind]
    exact alike.run_skip_eq (some seen) ends enough passes
  next => exact same

theorem run_ite_advance_eq {next later : Token → Reading α}
    (alike : ∀ token, Alike bound (next token) (later token)) :
    (if condition then advance >>= next else no).run cursor =
      (if condition then advance >>= later else noOther).run cursor := by
  split
  next seen =>
    rw [run_advance_bind, run_advance_bind]
    exact (alike _).run_skip_eq (some seen) ends enough Nat.one_pos
  next => exact same

end Branch

theorem alike_get_bind {loop other : Nat → Reading α}
    (alike : ∀ limit, Alike bound (loop limit) (other limit)) :
    Alike bound (do loop (← get).remaining) (do other (← get).remaining) :=
  fun cursor ends enough => alike cursor.remaining cursor ends enough

theorem costs_bind {reading : Reading α} {next : α → Reading β} (costs : Costs reading)
    (back : ∀ value, Forward (next value)) : Costs (reading >>= next) := by
  intro first value last ends read
  obtain ⟨given, middle, frontRead, backRead⟩ := reads_bind.mp read
  have fewer := costs _ _ _ ends frontRead
  have := (back _ _ _ _ backRead).remaining_le
  omega

theorem costs_expect {text : String} (visible : text ≠ "") : Costs (expect text) := by
  intro first value last ends read
  obtain ⟨seen, -, rfl⟩ := reads_expect.mp read
  have := ends.remaining_pos_of_reads visible seen
  rw [Cursor.remaining_skip]
  omega

theorem costs_expectIdentifier (wanted : String) : Costs (expectIdentifier wanted) := by
  intro first value last ends read
  obtain ⟨seen, -, rfl⟩ := reads_expectIdentifier.mp read
  have := ends.remaining_pos_of_isIdentifier seen
  rw [Cursor.remaining_skip]
  omega

/-! ## Loops over items -/

section Items

variable {item other : Reading α} {separator close : String}

theorem settles_separatedWithin (visible : separator ≠ "") (forward : Forward item) :
    Settles (separatedWithin separator item) := by
  intro limit
  induction limit with
  | zero =>
    -- At the end no separator is found, whether it may be looked for or not.
    refine alike_bind forward (alike_refl _) fun first cursor ends enough => ?_
    rw [run_check_bind, if_neg (ends.not_reads enough visible)]
  | succ limit inductionHypothesis =>
    refine alike_bind forward (alike_refl _) fun first cursor ends enough => ?_
    rw [run_check_bind, run_check_bind]
    refine run_ite_advance_eq (ends.remaining_pos_of_reads visible) ends enough rfl fun _ => ?_
    exact alike_bind (forward_separatedWithin _ forward _) inductionHypothesis fun _ => alike_refl _

theorem alike_separatedWithin (forward : Forward item) (alike : Alike bound item other)
    (limit : Nat) :
    Alike bound (separatedWithin separator item limit) (separatedWithin separator other limit) := by
  induction limit with
  | zero => exact alike_bind forward alike fun _ => alike_refl _
  | succ limit inductionHypothesis =>
    refine alike_bind forward alike fun first => alike_check ?_ (alike_refl _)
    refine alike_bind forward_advance (alike_refl _) fun _ => ?_
    exact alike_bind (forward_separatedWithin _ forward _) inductionHypothesis fun _ => alike_refl _

theorem alike_separated (forward : Forward item) (alike : Alike bound item other) :
    Alike bound (separated separator item) (separated separator other) :=
  alike_get_bind (alike_separatedWithin forward alike)

theorem settles_listedWithin (forward : Forward item) : Settles (listedWithin close item) := by
  intro limit
  induction limit with
  | zero =>
    refine alike_check (alike_refl _) ?_
    refine alike_bind forward (alike_refl _) fun first cursor ends enough => ?_
    rw [run_check_bind, if_neg (ends.not_reads enough (by decide))]
  | succ limit inductionHypothesis =>
    refine alike_check (alike_refl _) ?_
    refine alike_bind forward (alike_refl _) fun first cursor ends enough => ?_
    rw [run_check_bind, run_check_bind]
    refine run_ite_advance_eq (ends.remaining_pos_of_reads (by decide)) ends enough rfl fun _ => ?_
    exact alike_bind (forward_listedWithin _ forward _) inductionHypothesis fun _ => alike_refl _

theorem alike_listedWithin (forward : Forward item) (alike : Alike bound item other)
    (limit : Nat) :
    Alike bound (listedWithin close item limit) (listedWithin close other limit) := by
  induction limit with
  | zero => exact alike_check (alike_refl _) (alike_bind forward alike fun _ => alike_refl _)
  | succ limit inductionHypothesis =>
    refine alike_check (alike_refl _) ?_
    refine alike_bind forward alike fun first => alike_check ?_ (alike_refl _)
    refine alike_bind forward_advance (alike_refl _) fun _ => ?_
    exact alike_bind (forward_listedWithin _ forward _) inductionHypothesis fun _ => alike_refl _

theorem alike_listed (forward : Forward item) (alike : Alike bound item other) :
    Alike bound (listed close item) (listed close other) :=
  alike_get_bind (alike_listedWithin forward alike)

end Items

end Reading

end PeerExpansion
