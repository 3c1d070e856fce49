import PeerExpansion.Proofs.Reading.Place
import PeerExpansion.Proofs.Token.Spelling

/-! # Two streams that begin with the same words

Two streams of one source may have the same words up to some place, and other words behind it. What
a reading answers that stays in front of that place in one of them it answers in the other, too,
unless it goes on there because of what it finds behind the place. A `Seam` is the place where the
words come to differ; what stands behind it in the other stream is the ending or begins an
attribute, which goes on with hardly anything. `Carries` says of a reading that it comes to the same
in the other stream.
-/

namespace PeerExpansion

/-- The ending, or a mark that an attribute begins with. -/
def Token.IsStop (token : Token) : Prop :=
  token.word = .ending ∨ token.word = .mark "@"

namespace Token.IsStop

variable {token : Token} (stop : token.IsStop) {text : String} {texts : List String}
include stop

theorem text_eq : token.text = "" ∨ token.text = "@" :=
  stop.imp (congrArg Word.text) (congrArg Word.text)

theorem kind_eq : token.kind = .ending ∨ token.kind = .punctuation :=
  stop.imp (congrArg Word.kind) (congrArg Word.kind)

theorem text_ne (visible : text ≠ "") (other : text ≠ "@") : token.text ≠ text := by
  rintro rfl
  exact stop.text_eq.elim visible other

theorem not_reads (visible : text ≠ "") (other : text ≠ "@") : ¬ token.reads text = true := by
  rw [Token.reads, Bool.and_eq_true]
  exact fun same => stop.text_ne visible other (eq_of_beq same.2)

theorem not_isPunctuation (visible : text ≠ "") (other : text ≠ "@") :
    ¬ token.isPunctuation text = true := by
  rw [Token.isPunctuation, Bool.and_eq_true]
  exact fun same => stop.text_ne visible other (eq_of_beq same.2)

theorem not_isOneOf (visible : "" ∉ texts) (other : "@" ∉ texts) :
    ¬ token.isOneOf texts = true := by
  rw [Token.isOneOf, List.contains_iff_mem]
  obtain empty | mark := stop.text_eq
  · rwa [empty]
  · rwa [mark]

theorem not_isIdentifier : ¬ token.isIdentifier = true := by
  rw [Token.isIdentifier, beq_iff_eq]
  obtain ending | mark := stop.kind_eq
  · rw [ending]; decide
  · rw [mark]; decide

end Token.IsStop

/-- Two streams of one source with the same words up to the one at `place`. -/
structure Seam where
  stream : TokenStream
  other : TokenStream
  place : Nat
  source_eq : other.source = stream.source
  within : place ≤ stream.words.length
  otherWithin : place ≤ other.words.length
  words_eq : other.words.take place = stream.words.take place
  ending_eq : stream.ending.word = .ending
  otherEnding_eq : other.ending.word = .ending
  stop : (other.token place).IsStop

namespace Seam

variable (seam : Seam) {index : Nat}

/-- The cursor in front of a word in the first stream, and the one in the other. -/
def cursor (index : Nat) : Cursor :=
  .ofStream seam.stream index

def twin (index : Nat) : Cursor :=
  .ofStream seam.other index

theorem ends (index : Nat) : (seam.cursor index).EndsEmpty :=
  ⟨congrArg Word.kind seam.ending_eq, congrArg Word.text seam.ending_eq⟩

theorem otherEnds (index : Nat) : (seam.twin index).EndsEmpty :=
  ⟨congrArg Word.kind seam.otherEnding_eq, congrArg Word.text seam.otherEnding_eq⟩

theorem ahead_cursor (count : Nat) :
    (seam.cursor index).ahead count = seam.stream.token (index + count) :=
  Cursor.ahead_ofStream count

theorem ahead_twin (count : Nat) :
    (seam.twin index).ahead count = seam.other.token (index + count) :=
  Cursor.ahead_ofStream count

theorem current_cursor : (seam.cursor index).current = seam.stream.token index :=
  seam.ahead_cursor 0

theorem current_twin : (seam.twin index).current = seam.other.token index :=
  seam.ahead_twin 0

theorem skip_cursor (count : Nat) : (seam.cursor index).skip count = seam.cursor (index + count) :=
  Cursor.skip_ofStream count

theorem skip_twin (count : Nat) : (seam.twin index).skip count = seam.twin (index + count) :=
  Cursor.skip_ofStream count

theorem remaining_cursor : (seam.cursor index).remaining = seam.stream.words.length - index :=
  Cursor.remaining_ofStream

theorem token_eq (front : index < seam.place) :
    seam.other.token index = seam.stream.token index := by
  have same := congrArg (·[index]?) seam.words_eq
  simp only [List.getElem?_take_of_lt front] at same
  rw [TokenStream.token, TokenStream.token, same,
    List.getElem?_eq_getElem (Nat.lt_of_lt_of_le front seam.within)]
  rfl

theorem before_eq (front : index ≤ seam.place) :
    (seam.twin index).before = (seam.cursor index).before := by
  have same := congrArg (List.take index) seam.words_eq
  rw [List.take_take, List.take_take, Nat.min_eq_left front] at same
  exact congrArg List.reverse same

/-- The words from `index` up to the seam. -/
def front (index : Nat) : List Token :=
  (seam.stream.words.take seam.place).drop index

theorem length_front (index : Nat) : (seam.front index).length = seam.place - index := by
  rw [front, List.length_drop, List.length_take, Nat.min_eq_left seam.within]

theorem behind_cursor (inside : index ≤ seam.place) :
    (seam.cursor index).behind = seam.front index ++ seam.stream.words.drop seam.place := by
  rw [front, ← List.drop_append_of_le_length, List.take_append_drop]
  · rfl
  · rwa [List.length_take, Nat.min_eq_left seam.within]

theorem behind_twin (inside : index ≤ seam.place) :
    (seam.twin index).behind = seam.front index ++ seam.other.words.drop seam.place := by
  rw [front, ← seam.words_eq, ← List.drop_append_of_le_length, List.take_append_drop]
  · rfl
  · rwa [List.length_take, Nat.min_eq_left seam.otherWithin]

/-- A reading that goes forward stops at a word further on. -/
theorem exists_index {last : Cursor} (leads : (seam.cursor index).Leads last)
    (front : index ≤ seam.place) :
    ∃ next, index ≤ next ∧ next ≤ seam.stream.words.length ∧ last = seam.cursor next :=
  leads.exists_index (Nat.le_trans front seam.within)

theorem le_of_leads {next : Nat} (leads : (seam.cursor index).Leads (seam.cursor next))
    (inside : index ≤ seam.stream.words.length) (front : next ≤ seam.place) : index ≤ next := by
  have remaining_le := leads.remaining_le
  have within := Nat.le_trans front seam.within
  rw [seam.remaining_cursor, seam.remaining_cursor] at remaining_le
  omega

end Seam

namespace Reading

variable {α β : Type} {seam : Seam} {room spare : Nat}

/-- The reading goes forward, and what it answers in the first stream of a seam it answers in the
other, where it has `room` words in front of it and leaves `spare` of them. -/
structure Carries (seam : Seam) (room spare : Nat) (reading : Reading α) : Prop where
  forward : Forward reading
  reads : ∀ index value next, index + room ≤ seam.place → next + spare ≤ seam.place →
    Reads reading (seam.cursor index) value (seam.cursor next) →
      Reads reading (seam.twin index) value (seam.twin next)

namespace Carries

variable {reading : Reading α}

theorem mono (carries : Carries seam room spare reading) {more further : Nat}
    (roomier : room ≤ more) (spares : spare ≤ further) : Carries seam more further reading where
  forward := carries.forward
  reads index value next enough left read :=
    carries.reads index value next (by omega) (by omega) read

/-- Nothing more is asked of a reading that needs neither room nor a word to spare. -/
theorem relax (carries : Carries seam 0 0 reading) : Carries seam room spare reading :=
  carries.mono (Nat.zero_le _) (Nat.zero_le _)

/-- What is left was there before. -/
theorem of_spare (carries : Carries seam spare spare reading) : Carries seam 0 spare reading where
  forward := carries.forward
  reads index value next enough left read := by
    have within := seam.within
    have order := seam.le_of_leads (carries.forward _ _ _ read) (by omega) (by omega)
    exact carries.reads index value next (by omega) left read

/-- A reading that takes a word has room for it. -/
theorem of_costs (costs : Costs reading) (carries : Carries seam (spare + 1) spare reading) :
    Carries seam 0 spare reading where
  forward := carries.forward
  reads index value next enough left read := by
    have within := seam.within
    have fewer := costs _ _ _ (seam.ends index) read
    rw [seam.remaining_cursor, seam.remaining_cursor] at fewer
    exact carries.reads index value next (by omega) left read

end Carries

theorem carries_pure (value : α) : Carries seam room spare (pure value) where
  forward := forward_pure value
  reads index given next enough left read := by
    obtain ⟨rfl, same⟩ := reads_pure.mp read
    have within := seam.within
    obtain rfl := Cursor.ofStream_injective (by omega) (by omega) same
    exact reads_pure.mpr ⟨rfl, rfl⟩

/-- A reading that only complains. -/
theorem carries_of_fails {reading : Reading α}
    (fails : ∀ first value last, ¬ Reads reading first value last) :
    Carries seam room spare reading where
  forward first value last read := (fails first value last read).elim
  reads _ _ _ _ _ read := (fails _ _ _ read).elim

theorem carries_missing (wanted : String) :
    Carries seam room spare (missing wanted : Reading α) :=
  carries_of_fails fun _ _ _ => reads_missing

section Bind

variable {reading : Reading α} {next : α → Reading β} {index last : Nat} {value : β}

/-- Two readings that end in front of a seam, one behind the other, meet in front of it. -/
theorem exists_middle (front : Forward reading) (back : ∀ given, Forward (next given))
    (read : Reads (reading >>= next) (seam.cursor index) value (seam.cursor last))
    (inside : index ≤ seam.place) (left : last ≤ seam.place) :
    ∃ given middle, (index ≤ middle ∧ middle ≤ last) ∧
      Reads reading (seam.cursor index) given (seam.cursor middle) ∧
        Reads (next given) (seam.cursor middle) value (seam.cursor last) := by
  obtain ⟨given, _, frontRead, backRead⟩ := reads_bind.mp read
  obtain ⟨middle, after, within, rfl⟩ := seam.exists_index (front _ _ _ frontRead) inside
  have before := seam.le_of_leads (back given _ _ _ backRead) within left
  exact ⟨given, middle, ⟨after, before⟩, frontRead, backRead⟩

theorem lt_of_costs {reading : Reading α} {value : α} (costs : Costs reading)
    (read : Reads reading (seam.cursor index) value (seam.cursor last)) : index < last := by
  have fewer := costs _ _ _ (seam.ends index) read
  rw [seam.remaining_cursor, seam.remaining_cursor] at fewer
  omega

theorem carries_bind (front : Carries seam room spare reading)
    (back : ∀ value, Carries seam 0 spare (next value)) :
    Carries seam room spare (reading >>= next) where
  forward := forward_bind front.forward fun value => (back value).forward
  reads index value last enough left read := by
    obtain ⟨given, middle, before, frontRead, backRead⟩ :=
      exists_middle front.forward (fun given => (back given).forward) read (by omega) (by omega)
    exact reads_bind.mpr ⟨given, _, front.reads index given middle enough (by omega) frontRead,
      (back given).reads middle value last (by omega) left backRead⟩

/-- In front of a reading that takes a word, there is one more to spare. -/
theorem carries_bind_of_costs (front : Carries seam room (spare + 1) reading)
    (costs : ∀ value, Costs (next value)) (back : ∀ value, Carries seam 0 spare (next value)) :
    Carries seam room spare (reading >>= next) where
  forward := forward_bind front.forward fun value => (back value).forward
  reads index value last enough left read := by
    obtain ⟨given, middle, -, frontRead, backRead⟩ :=
      exists_middle front.forward (fun given => (back given).forward) read (by omega) (by omega)
    have before := lt_of_costs (costs given) backRead
    exact reads_bind.mpr ⟨given, _, front.reads index given middle enough (by omega) frontRead,
      (back given).reads middle value last (by omega) left backRead⟩

end Bind

/-! ## Looking and moving on -/

section Looking

variable {next : Token → Reading β}

theorem carries_ahead_bind {count : Nat} (within : count < room)
    (back : ∀ token, Carries seam room spare (next token)) :
    Carries seam room spare (ahead count >>= next) where
  forward := forward_bind (forward_ahead count) fun token => (back token).forward
  reads index value last enough left read := by
    rw [Reads, run_ahead_bind, seam.ahead_cursor] at read
    rw [Reads, run_ahead_bind, seam.ahead_twin, seam.token_eq (by omega)]
    exact (back _).reads index value last enough left read

theorem carries_current_bind (some : 0 < room)
    (back : ∀ token, Carries seam room spare (next token)) :
    Carries seam room spare (current >>= next) :=
  carries_ahead_bind some back

theorem carries_check_bind {text : String} {next : Bool → Reading β} (some : 0 < room)
    (back : ∀ found, Carries seam room spare (next found)) :
    Carries seam room spare (check text >>= next) := by
  rw [check, bind_assoc]
  exact carries_current_bind some fun token => by
    rw [pure_bind]
    exact back _

theorem carries_skip_bind {count : Nat} {next : Unit → Reading β} (within : count ≤ room)
    (back : Carries seam (room - count) spare (next ())) :
    Carries seam room spare (skip count >>= next) where
  forward := forward_bind (forward_skip count) fun _ => back.forward
  reads index value last enough left read := by
    rw [Reads, run_skip_bind, seam.skip_cursor] at read
    rw [Reads, run_skip_bind, seam.skip_twin]
    exact back.reads _ value last (by omega) left read

theorem carries_advance_bind (some : 0 < room)
    (back : ∀ token, Carries seam (room - 1) spare (next token)) :
    Carries seam room spare (advance >>= next) := by
  rw [advance, bind_assoc]
  refine carries_current_bind some fun token => ?_
  rw [bind_assoc]
  refine carries_skip_bind some ?_
  rw [pure_bind]
  exact back token

theorem carries_expect {text : String} (visible : text ≠ "") :
    Carries seam 0 spare (expect text) := by
  refine .of_costs (costs_expect visible) ?_
  refine carries_check_bind (Nat.succ_pos _) fun found => ?_
  split
  · rw [← bind_pure advance]
    exact carries_advance_bind (Nat.succ_pos _) fun _ => carries_pure _
  · exact carries_missing _

theorem carries_expectIdentifier (wanted : String) :
    Carries seam 0 spare (expectIdentifier wanted) := by
  refine .of_costs (costs_expectIdentifier wanted) ?_
  refine carries_current_bind (Nat.succ_pos _) fun token => ?_
  split
  · rw [← bind_pure advance]
    exact carries_advance_bind (Nat.succ_pos _) fun _ => carries_pure _
  · exact carries_missing _

end Looking

/-- A mark that has to stand behind a reading is a word that the reading leaves. -/
theorem carries_bind_expect {reading : Reading α} {text : String} {next : α → Token → Reading β}
    (visible : text ≠ "") (front : Carries seam room (spare + 1) reading)
    (back : ∀ value token, Carries seam 0 spare (next value token)) :
    Carries seam room spare (reading >>= fun value => expect text >>= next value) := by
  refine carries_bind_of_costs front (fun value => ?_) fun value => ?_
  · exact costs_bind (costs_expect visible) fun token => (back value token).forward
  · exact carries_bind (carries_expect visible) fun token => back value token

theorem carries_textSince (first : Token) : Carries seam room spare (textSince first) where
  forward := forward_textSince first
  reads index text next enough left read := by
    obtain ⟨rfl, same⟩ := reads_textSince.mp read
    have within := seam.within
    obtain rfl := Cursor.ofStream_injective (by omega) (by omega) same
    have source_eq : (seam.twin next).source = (seam.cursor next).source := seam.source_eq
    refine reads_textSince.mpr ⟨?_, rfl⟩
    rw [Cursor.textSince, Cursor.textSince, Cursor.previous?, Cursor.previous?,
      seam.before_eq (by omega), source_eq]

/-- What was passed last is the same in both streams. -/
theorem carries_previous_bind (next : Option Token → Reading β)
    (back : ∀ previous, Carries seam room spare (next previous)) :
    Carries seam room spare (do next (← get).previous?) where
  forward := forward_bind forward_get fun cursor => (back cursor.previous?).forward
  reads index value last enough left read := by
    have previous_eq : (seam.twin index).previous? = (seam.cursor index).previous? := by
      rw [Cursor.previous?, Cursor.previous?, seam.before_eq (by omega)]
    rw [Reads, run_get_bind] at read ⊢
    rw [previous_eq]
    exact (back _).reads index value last enough left read

/-! ## Going on or not -/

/-- A reading that passes so many words when there are so many. -/
def Passes (count : Nat) (reading : Reading α) : Prop :=
  ∀ first value last, first.EndsEmpty → count ≤ first.remaining → Reads reading first value last →
    last.remaining + count ≤ first.remaining

theorem passes_skip_bind {count : Nat} {next : Unit → Reading β} (back : Forward (next ())) :
    Passes count (skip count >>= next) := by
  intro first value last ends enough read
  rw [Reads, run_skip_bind] at read
  have remaining_le := (back _ _ _ read).remaining_le
  rw [Cursor.remaining_skip] at remaining_le
  omega

theorem passes_ahead_bind {count place : Nat} {next : Token → Reading β}
    (back : ∀ token, Passes count (next token)) : Passes count (ahead place >>= next) :=
  fun first _ _ ends enough read => back _ first _ _ ends enough read

theorem passes_bind {count : Nat} {reading : Reading α} {next : α → Reading β}
    (passes : Passes count reading) (back : ∀ value, Forward (next value)) :
    Passes count (reading >>= next) := by
  intro first value last ends enough read
  obtain ⟨given, middle, frontRead, backRead⟩ := reads_bind.mp read
  have passed := passes _ _ _ ends enough frontRead
  have := (back _ _ _ _ backRead).remaining_le
  omega

theorem passes_advance_bind {next : Token → Reading β} (back : ∀ token, Forward (next token)) :
    Passes 1 (advance >>= next) := by
  rw [advance, bind_assoc]
  refine passes_ahead_bind fun token => ?_
  rw [bind_assoc]
  exact passes_skip_bind (forward_bind (forward_pure token) back)

theorem passes_skip_bind_of_costs {count : Nat} {next : Unit → Reading β}
    (costs : Costs (next ())) :
    Passes (count + 1) (skip count >>= next) := by
  intro first value last ends enough read
  rw [Reads, run_skip_bind] at read
  have fewer := costs _ _ _ (ends.skip count) read
  rw [Cursor.remaining_skip] at fewer
  omega

theorem Passes.lt {reading : Reading α} (passes : Passes 1 reading) {first last : Cursor}
    {value : α} (ends : first.EndsEmpty) (some : 0 < first.remaining)
    (read : Reads reading first value last) : last.remaining < first.remaining :=
  passes first value last ends some read

theorem costs_bind_of_back {reading : Reading α} {next : α → Reading β} (forward : Forward reading)
    (back : ∀ value, Costs (next value)) : Costs (reading >>= next) := by
  intro first value last ends read
  obtain ⟨given, middle, frontRead, backRead⟩ := reads_bind.mp read
  have leads := forward _ _ _ frontRead
  exact Nat.lt_of_lt_of_le (back _ _ _ _ (ends.of_leads leads) backRead) leads.remaining_le

theorem passes_of_costs {reading : Reading α} (costs : Costs reading) : Passes 1 reading :=
  fun first value last ends _ read => costs first value last ends read

/-- Of two ways to go on only the one that is gone has to be the same. -/
theorem run_ite_congr {condition : Prop} [Decidable condition] {yes yesTwin no noTwin : Reading α}
    {cursor : Cursor} (left : yes.run cursor = yesTwin.run cursor)
    (right : no.run cursor = noTwin.run cursor) :
    (if condition then yes else no).run cursor =
      (if condition then yesTwin else noTwin).run cursor := by
  split
  · exact left
  · exact right

/-- A reading that goes on if what it finds ahead asks for it. It finds that in words that it passes
then, and not behind a stop. -/
theorem carries_branch {reading no : Reading α} (window : Nat) (asks : (Nat → Token) → Bool)
    (yes : (Nat → Token) → Reading α)
    (unfolds : ∀ cursor : Cursor, reading.run cursor =
      (if asks cursor.ahead = true then yes cursor.ahead else no).run cursor)
    (looks : ∀ first second, (∀ count < window, first count = second count) →
      asks first = asks second ∧ yes first = yes second)
    (refuses : ∀ ahead, ∀ count < window, (ahead count).IsStop → ¬ asks ahead = true)
    (passes : ∀ ahead, Passes window (yes ahead))
    (yesCarries : ∀ ahead, Carries seam window spare (yes ahead))
    (noCarries : Carries seam room spare no) : Carries seam room spare reading where
  forward first value last read := by
    rw [Reads, unfolds] at read
    split at read
    · exact (yesCarries _).forward _ _ _ read
    · exact noCarries.forward _ _ _ read
  reads index value next enough left read := by
    have ahead_eq (inside : index + window ≤ seam.place) :
        ∀ count < window, (seam.cursor index).ahead count = (seam.twin index).ahead count := by
      intro count within
      rw [seam.ahead_cursor, seam.ahead_twin, seam.token_eq (by omega)]
    rw [Reads, unfolds] at read
    rw [Reads, unfolds]
    by_cases asked : asks (seam.cursor index).ahead = true
    · -- What was asked for is there and was passed, so it stands in front of the seam.
      have within := seam.within
      have inside : index + window ≤ seam.stream.words.length := by
        by_contra short
        refine refuses _ (seam.stream.words.length - index) (by omega) (.inl ?_) asked
        rw [seam.ahead_cursor, TokenStream.token_eq_ending (by omega)]
        exact seam.ending_eq
      rw [if_pos asked] at read
      have passed := passes _ _ _ _ (seam.ends index) (by rw [seam.remaining_cursor]; omega) read
      rw [seam.remaining_cursor, seam.remaining_cursor] at passed
      obtain ⟨asks_eq, yes_eq⟩ := looks _ _ (ahead_eq (by omega))
      rw [← asks_eq, if_pos asked, ← yes_eq]
      exact (yesCarries _).reads index value next (by omega) left read
    · have refused : ¬ asks (seam.twin index).ahead = true := by
        intro held
        obtain inside | short := Nat.lt_or_ge seam.place (index + window)
        · refine refuses _ (seam.place - index) (by omega) ?_ held
          rw [seam.ahead_twin, Nat.add_sub_cancel' (by omega)]
          exact seam.stop
        · exact asked ((looks _ _ (ahead_eq short)).1 ▸ held)
      rw [if_neg asked] at read
      rw [if_neg refused]
      exact noCarries.reads index value next enough left read

theorem carries_branch_one {reading no : Reading α} (asks : Token → Bool)
    (yes : Token → Reading α)
    (unfolds : ∀ cursor : Cursor, reading.run cursor =
      (if asks (cursor.ahead 0) = true then yes (cursor.ahead 0) else no).run cursor)
    (refuses : ∀ token : Token, token.IsStop → ¬ asks token = true)
    (passes : ∀ token, Passes 1 (yes token))
    (yesCarries : ∀ token, Carries seam 1 spare (yes token))
    (noCarries : Carries seam room spare no) : Carries seam room spare reading := by
  refine carries_branch 1 (fun ahead => asks (ahead 0)) (fun ahead => yes (ahead 0)) unfolds ?_ ?_
    (fun _ => passes _) (fun _ => yesCarries _) noCarries
  · intro first second same
    rw [same 0 Nat.one_pos]
    exact ⟨rfl, rfl⟩
  · intro ahead count within stop
    obtain rfl := Nat.lt_one_iff.mp within
    exact refuses _ stop

theorem carries_branch_two {reading no : Reading α} (asks : Token → Token → Bool)
    (yes : Token → Token → Reading α)
    (unfolds : ∀ cursor : Cursor, reading.run cursor =
      (if asks (cursor.ahead 0) (cursor.ahead 1) = true then yes (cursor.ahead 0) (cursor.ahead 1)
        else no).run cursor)
    (refusesFirst : ∀ first second : Token, first.IsStop → ¬ asks first second = true)
    (refusesSecond : ∀ first second : Token, second.IsStop → ¬ asks first second = true)
    (passes : ∀ first second, Passes 2 (yes first second))
    (yesCarries : ∀ first second, Carries seam 2 spare (yes first second))
    (noCarries : Carries seam room spare no) : Carries seam room spare reading := by
  refine carries_branch 2 (fun ahead => asks (ahead 0) (ahead 1))
    (fun ahead => yes (ahead 0) (ahead 1)) unfolds ?_ ?_ (fun _ => passes _ _)
    (fun _ => yesCarries _ _) noCarries
  · intro first second same
    rw [same 0 Nat.two_pos, same 1 Nat.one_lt_two]
    exact ⟨rfl, rfl⟩
  · intro ahead count within stop
    obtain rfl | rfl : count = 0 ∨ count = 1 := by omega
    · exact refusesFirst _ _ stop
    · exact refusesSecond _ _ stop

/-- A reading that goes on if a mark is there. -/
theorem carries_check {text : String} {yes no : Reading α} (visible : text ≠ "")
    (other : text ≠ "@") (passes : Passes 1 yes) (yesCarries : Carries seam 1 spare yes)
    (noCarries : Carries seam room spare no) :
    Carries seam room spare (do if ← check text then yes else no) := by
  exact carries_branch_one (·.reads text) (fun _ => yes) (fun _ => rfl)
    (fun _ stop => stop.not_reads visible other) (fun _ => passes) (fun _ => yesCarries) noCarries

/-- A loop is given as many steps as there are tokens left, and more of them change nothing. -/
theorem carries_get_bind {loop : Nat → Reading α} (settles : Settles loop)
    (each : ∀ limit, Carries seam room spare (loop limit)) :
    Carries seam room spare (do loop (← get).remaining) where
  forward first value last read := (each first.remaining).forward first value last read
  reads index value next enough left read := by
    have enough_left := Nat.le_max_left (seam.cursor index).remaining (seam.twin index).remaining
    have enough_right := Nat.le_max_right (seam.cursor index).remaining (seam.twin index).remaining
    rw [Reads, run_get_bind, ← settles.run_eq (seam.ends index) enough_left] at read
    rw [Reads, run_get_bind, ← settles.run_eq (seam.otherEnds index) enough_right]
    exact (each _).reads index value next enough left read

section Items

variable {item : Reading α} (carries : Carries seam 0 spare item) {separator close : String}
include carries

theorem carries_separatedWithin (visible : separator ≠ "") (other : separator ≠ "@") (limit : Nat) :
    Carries seam 0 spare (separatedWithin separator item limit) := by
  induction limit with
  | zero => exact carries_bind carries fun value => carries_pure _
  | succ limit inductionHypothesis =>
    refine carries_bind carries fun first => carries_check visible other ?_ ?_ (carries_pure _)
    · exact passes_advance_bind fun _ =>
        forward_bind inductionHypothesis.forward fun _ => forward_pure _
    · refine carries_advance_bind Nat.one_pos fun _ => ?_
      exact carries_bind inductionHypothesis fun _ => carries_pure _

theorem carries_separated (visible : separator ≠ "") (other : separator ≠ "@") :
    Carries seam 0 spare (separated separator item) :=
  carries_get_bind (settles_separatedWithin visible carries.forward)
    (carries_separatedWithin carries visible other)

end Items

section Listed

variable {item : Reading α} (carries : Carries seam 0 1 item) {separator close : String}
include carries

/-- The mark that closes a list has to be there. -/
theorem carries_listedWithin (limit : Nat) :
    Carries seam 0 1 (listedWithin close item limit) := by
  induction limit with
  | zero =>
    refine .of_spare (carries_check_bind Nat.one_pos fun closed => ?_)
    split
    · exact carries_pure _
    · exact carries_bind (carries.mono (Nat.zero_le _) (Nat.le_refl _)) fun _ => carries_pure _
  | succ limit inductionHypothesis =>
    refine .of_spare (carries_check_bind Nat.one_pos fun closed => ?_)
    split
    · exact carries_pure _
    · refine carries_bind (carries.mono (Nat.zero_le _) (Nat.le_refl _)) fun first => ?_
      refine carries_check (by decide) (by decide) ?_ ?_ (carries_pure _)
      · exact passes_advance_bind fun _ =>
          forward_bind inductionHypothesis.forward fun _ => forward_pure _
      · refine carries_advance_bind Nat.one_pos fun _ => ?_
        exact carries_bind inductionHypothesis fun _ => carries_pure _

theorem carries_listed : Carries seam 0 1 (listed close item) :=
  carries_get_bind (settles_listedWithin carries.forward) (carries_listedWithin carries)

end Listed

end Reading

end PeerExpansion
