import PeerExpansion.Proofs.Reading.Place

/-! # Where attributes stand

An attribute takes the tokens from its mark to the end of its name or of its argument clause. The
attributes in front of a declaration stand in a row, each behind the one before, so reading a row
from the mark of any of them gives the rest of it.
-/

namespace PeerExpansion.Attribute

open Reading

variable {stream : TokenStream} {index : Nat} {last : Cursor}

/-- The last name of a dotted name is the token just passed. -/
theorem previous?_of_readMembersWithin {limit : Nat} {members : List Token} {word : Token}
    (ordered : stream.Ordered)
    (read : Reads (readMembersWithin limit) (.ofStream stream index) members last)
    (previous : (Cursor.ofStream stream index).previous? = some word) :
    last.previous? = some (members.getLastD word) := by
  induction limit generalizing index members word with
  | zero =>
    simp only [readMembersWithin, reads_pure] at read
    obtain ⟨rfl, rfl⟩ := read
    exact previous
  | succ limit inductionHypothesis =>
    simp [readMembersWithin, reads_ite] at read
    obtain ⟨⟨_, identifier⟩, others, later, rfl⟩ | ⟨_, rfl, rfl⟩ := read
    · have inside := ordered.lt_length_of_isIdentifier identifier
      rw [List.getLastD_cons]
      exact inductionHypothesis later (Cursor.previous?_ofStream inside)
    · exact previous

theorem readMembersWithin_eq_nil {limit : Nat} {members : List Token} {first : Cursor}
    (read : Reads (readMembersWithin limit) first members last)
    (ends : first.current.reads "." = false) : members = [] := by
  cases limit with
  | zero =>
    simp only [readMembersWithin, reads_pure] at read
    exact read.1
  | succ limit =>
    simp [readMembersWithin, reads_ite, ends] at read
    exact read.1

theorem reads_readMembers {members : List Token} {first : Cursor} :
    Reads readMembers first members last ↔
      Reads (readMembersWithin first.remaining) first members last := by
  simp [readMembers]

/-- An attribute that takes the tokens of a source from `index` up to, but without, `next`. -/
structure Spans (stream : TokenStream) (index next : Nat) (attr : Attribute) : Prop where
  mark : (stream.token index).reads "@" = true
  identifier : (stream.token (index + 1)).isIdentifier = true
  index_lt : index + 2 ≤ next
  next_le : next ≤ stream.words.length
  position_eq : attr.position = (stream.token index).position
  stop_eq : attr.stop = (stream.token (next - 1)).stop
  name_eq : (stream.token (index + 2)).reads "." = false →
    attr.name = (stream.token (index + 1)).text

namespace Spans

variable {next : Nat} {attr : Attribute} (spans : attr.Spans stream index next)
include spans

theorem start_eq : attr.start = (stream.token index).start :=
  congrArg Position.offset spans.position_eq

theorem last_lt : next - 1 < stream.words.length := by
  have := spans.index_lt
  have := spans.next_le
  omega

theorem firstFrom_stop (ordered : stream.Ordered) :
    stream.firstFrom attr.stop = stream.token next := by
  have := spans.index_lt
  rw [spans.stop_eq, ordered.firstFrom_stop spans.last_lt, Nat.sub_add_cancel (by omega)]

theorem start_lt (ordered : stream.Ordered) {place : Nat} (after : index < place) :
    attr.start < (stream.token place).start := by
  have := spans.index_lt
  have := spans.next_le
  rw [spans.start_eq]
  exact ordered.start_lt_start after (by omega)

end Spans

/-- What goes with an attribute when it is taken out: the text up to the next token. -/
def range (stream : TokenStream) (attr : Attribute) : Nat × Nat :=
  (attr.start, (stream.firstFrom attr.stop).start)

theorem spans_of_reads {attr : Attribute} (ordered : stream.Ordered)
    (read : Reads Attribute.read (.ofStream stream index) attr last) :
    ∃ next, last = .ofStream stream next ∧ attr.Spans stream index next := by
  simp only [Attribute.read, reads_bind, reads_expect, reads_expectIdentifier, reads_current,
    reads_ite, reads_get, reads_pure, and_assoc, exists_and_left, exists_eq_left,
    Cursor.skip_ofStream, Cursor.current_ofStream] at read
  obtain ⟨mark, identifier, members, middle, membersRead, tail⟩ := read
  have inside := ordered.lt_length_of_isIdentifier identifier
  have dotted : (stream.token (index + 2)).reads "." = false → members = [] := by
    intro ends
    exact readMembersWithin_eq_nil (reads_readMembers.mp membersRead) (by simpa using ends)
  -- Without arguments the attribute ends with its name, whose last word has just been passed.
  have previous : middle.previous? = some (members.getLastD (stream.token (index + 1))) :=
    previous?_of_readMembersWithin ordered (reads_readMembers.mp membersRead)
      (Cursor.previous?_ofStream inside)
  obtain ⟨place, after, bound, rfl, placed⟩ :=
    (forward_readMembers _ _ _ membersRead).exists_previous? inside
  rw [placed, Option.some.injEq] at previous
  have name_eq : (stream.token (index + 2)).reads "." = false →
      String.intercalate "." ((stream.token (index + 1) :: members).map Token.text) =
        (stream.token (index + 1)).text := by
    intro ends
    rw [dotted ends]
    rfl
  obtain ⟨_, arguments, later, argumentsRead, rfl, rfl⟩ | ⟨_, rfl, rfl⟩ := tail
  · -- With arguments it ends with their clause, and again that has just been passed.
    obtain ⟨before, rfl⟩ := Nat.exists_eq_add_of_lt after
    obtain ⟨next, behind, bound, rfl, previous⟩ :=
      (forward_readArguments _ _ _ argumentsRead).exists_previous? (by omega)
    refine ⟨next, rfl, mark, identifier, by omega, bound, rfl, ?_, name_eq⟩
    rw [previous]
    rfl
  · exact ⟨place, rfl, mark, identifier, after, bound, rfl, by rw [previous], name_eq⟩

/-- The attributes in a row that begin at the token with some index, and the index behind them. -/
inductive Row (stream : TokenStream) : Nat → List Attribute → Nat → Prop
  | nil {index : Nat} : (stream.token index).reads "@" = false → Row stream index [] index
  | cons {index next stop : Nat} {attr : Attribute} {others : List Attribute} :
      Reads Attribute.read (.ofStream stream index) attr (.ofStream stream next) →
        attr.Spans stream index next → Row stream next others stop →
          Row stream index (attr :: others) stop

theorem reads_readAll {attributes : List Attribute} {first : Cursor} :
    Reads readAll first attributes last ↔
      Reads (readAllWithin first.remaining) first attributes last := by
  simp [readAll]

theorem reads_readAllWithin {limit : Nat} {attributes : List Attribute} (ordered : stream.Ordered)
    (enough : stream.words.length - index ≤ limit) :
    Reads (readAllWithin limit) (.ofStream stream index) attributes last ↔
      ∃ stop, last = .ofStream stream stop ∧ Row stream index attributes stop := by
  induction limit generalizing index attributes with
  | zero =>
    -- The steps run out at the end of the source only, where there is no mark.
    have ends : (stream.token index).reads "@" = false := by
      by_contra mark
      have := ordered.lt_length_of_reads (eq_true_of_ne_false mark) (by decide)
      omega
    simp only [readAllWithin, reads_pure]
    constructor
    · rintro ⟨rfl, rfl⟩
      exact ⟨index, rfl, .nil ends⟩
    · rintro ⟨stop, rfl, row⟩
      cases row with
      | nil => exact ⟨rfl, rfl⟩
      | cons _ spans _ =>
        cases ends.symm.trans spans.mark
  | succ limit inductionHypothesis =>
    simp only [readAllWithin, reads_bind, reads_check, reads_ite, reads_pure, and_assoc,
      exists_and_left, exists_eq_left, Cursor.current_ofStream, Bool.not_eq_true]
    constructor
    · rintro (⟨mark, attr, middle, attrRead, others, _, othersRead, rfl, rfl⟩ | ⟨ends, rfl, rfl⟩)
      · obtain ⟨next, rfl, spans⟩ := spans_of_reads ordered attrRead
        have := spans.index_lt
        obtain ⟨stop, rfl, row⟩ := (inductionHypothesis (by omega)).mp othersRead
        exact ⟨stop, rfl, .cons attrRead spans row⟩
      · exact ⟨index, rfl, .nil ends⟩
    · rintro ⟨stop, rfl, row⟩
      cases row with
      | nil ends => exact .inr ⟨ends, rfl, rfl⟩
      | cons attrRead spans row =>
        have := spans.index_lt
        exact .inl ⟨spans.mark, _, _, attrRead, _, _,
          (inductionHypothesis (by omega)).mpr ⟨stop, rfl, row⟩, rfl, rfl⟩

/-- What is read in a row. -/
theorem reads_readAll_iff {attributes : List Attribute} (ordered : stream.Ordered) :
    Reads readAll (.ofStream stream index) attributes last ↔
      ∃ stop, last = .ofStream stream stop ∧ Row stream index attributes stop := by
  rw [reads_readAll, Cursor.remaining_ofStream]
  exact reads_readAllWithin ordered (Nat.le_refl _)

namespace Row

variable {stop : Nat} {attributes : List Attribute}

theorem reads (row : Row stream index attributes stop) (ordered : stream.Ordered) :
    Reads readAll (.ofStream stream index) attributes (.ofStream stream stop) :=
  (reads_readAll_iff ordered).mpr ⟨stop, rfl, row⟩

theorem index_le (row : Row stream index attributes stop) : index ≤ stop := by
  induction row with
  | nil => exact Nat.le_refl _
  | cons _ spans _ inductionHypothesis =>
    have := spans.index_lt
    omega

theorem index_lt (row : Row stream index attributes stop)
    (mark : (stream.token index).reads "@" = true) : index < stop := by
  cases row with
  | nil ends => cases ends.symm.trans mark
  | cons _ spans row =>
    have := spans.index_lt
    have := row.index_le
    omega

theorem unique {others : List Attribute} {behind : Nat} (row : Row stream index attributes stop)
    (otherRow : Row stream index others behind) : attributes = others ∧ stop = behind := by
  induction row generalizing others with
  | nil ends =>
    cases otherRow with
    | nil => exact ⟨rfl, rfl⟩
    | cons _ spans _ => cases ends.symm.trans spans.mark
  | cons read spans row inductionHypothesis =>
    cases otherRow with
    | nil ends => cases ends.symm.trans spans.mark
    | cons otherRead otherSpans otherRow =>
      -- Within a source the cursor tells where it stands, so both go on at the same token.
      obtain ⟨rfl, same⟩ := read.unique otherRead
      obtain rfl := Cursor.ofStream_injective spans.next_le otherSpans.next_le same
      obtain ⟨rfl, rfl⟩ := inductionHypothesis otherRow
      exact ⟨rfl, rfl⟩

theorem stop_le (row : Row stream index attributes stop) (inside : index ≤ stream.words.length) :
    stop ≤ stream.words.length := by
  induction row with
  | nil => exact inside
  | cons _ spans _ inductionHypothesis => exact inductionHypothesis spans.next_le

theorem ends (row : Row stream index attributes stop) : (stream.token stop).reads "@" = false := by
  induction row with
  | nil ends => exact ends
  | cons _ _ _ inductionHypothesis => exact inductionHypothesis

/-- Every attribute of a row has its tokens in the row, and begins a row itself. -/
theorem spans_of_mem (row : Row stream index attributes stop) :
    ∀ attr ∈ attributes, ∃ place next others, index ≤ place ∧ next ≤ stop ∧
      attr.Spans stream place next ∧ Row stream place (attr :: others) stop := by
  induction row with
  | nil => simp
  | @cons index next stop attr others read spans row inductionHypothesis =>
    have := spans.index_lt
    refine List.forall_mem_cons.mpr ⟨?_, fun other member => ?_⟩
    · exact ⟨index, next, others, Nat.le_refl _, row.index_le, spans, .cons read spans row⟩
    · obtain ⟨place, behind, rest, after, before, otherSpans, otherRow⟩ :=
        inductionHypothesis other member
      exact ⟨place, behind, rest, by omega, before, otherSpans, otherRow⟩

/-- Each attribute of a row stands behind what goes with the ones before it. -/
theorem pairwise (row : Row stream index attributes stop) (ordered : stream.Ordered) :
    attributes.Pairwise fun first second => (range stream first).2 ≤ (range stream second).1 := by
  induction row with
  | nil => exact .nil
  | @cons index next stop attr others read spans row inductionHypothesis =>
    refine .cons (fun other member => ?_) inductionHypothesis
    obtain ⟨place, _, _, after, _, otherSpans, _⟩ := row.spans_of_mem other member
    simp only [range, spans.firstFrom_stop ordered, otherSpans.start_eq]
    exact ordered.start_le_start after

/-- Every token of a row belongs to one of its attributes. -/
theorem exists_spans (row : Row stream index attributes stop) {place : Nat} (after : index ≤ place)
    (before : place < stop) :
    ∃ attr ∈ attributes, ∃ first next,
      first ≤ place ∧ place < next ∧ attr.Spans stream first next := by
  induction row with
  | nil => omega
  | @cons index next stop attr others read spans row inductionHypothesis =>
    obtain inside | behind := Nat.lt_or_ge place next
    · exact ⟨attr, List.mem_cons_self, index, next, after, inside, spans⟩
    · obtain ⟨other, member, found⟩ := inductionHypothesis behind before
      exact ⟨other, List.mem_cons_of_mem _ member, found⟩

end Row

end PeerExpansion.Attribute
