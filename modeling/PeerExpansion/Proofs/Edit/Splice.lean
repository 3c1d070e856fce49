import PeerExpansion.Edit
import PeerExpansion.Text.Slice

/-! # Edits put in one after the other

Applying edits from the last to the first puts all of them in at the places they name, as long as
they take different parts of the text. `splice` is that text, written from left to right.
-/

namespace PeerExpansion.Edit

/-! ## Order -/

theorem isNoEarlier_iff {first second : Edit} :
    isNoEarlier first second = true ↔ second.start < first.start ∨
      first.start = second.start ∧ (second.stop < first.stop ∨
        first.stop = second.stop ∧ ¬ first.replacement < second.replacement) := by
  unfold isNoEarlier
  split
  · split
    · simp_all
    · simp_all
  · simp_all

theorem isNoEarlier_trans (first second third : Edit) (front : isNoEarlier first second = true)
    (back : isNoEarlier second third = true) : isNoEarlier first third = true := by
  rw [isNoEarlier_iff] at front back ⊢
  obtain front | ⟨start_eq, front | ⟨stop_eq, front⟩⟩ := front <;>
    obtain back | ⟨start_eq', back | ⟨stop_eq', back⟩⟩ := back
  all_goals first
    | exact .inl (by omega)
    | exact .inr ⟨by omega, .inl (by omega)⟩
    | exact .inr ⟨by omega, .inr ⟨by omega,
        List.not_lt.mpr (List.le_trans (List.not_lt.mp back) (List.not_lt.mp front))⟩⟩

theorem isNoEarlier_total (first second : Edit) :
    (isNoEarlier first second || isNoEarlier second first) = true := by
  rw [Bool.or_eq_true, isNoEarlier_iff, isNoEarlier_iff]
  obtain less | start_eq | more := Nat.lt_trichotomy first.start second.start
  · exact .inr (.inl less)
  · obtain less | stop_eq | more := Nat.lt_trichotomy first.stop second.stop
    · exact .inr (.inr ⟨start_eq.symm, .inl less⟩)
    · obtain le | ge := List.le_total first.replacement second.replacement
      · exact .inr (.inr ⟨start_eq.symm, .inr ⟨stop_eq.symm, List.not_lt.mpr le⟩⟩)
      · exact .inl (.inr ⟨start_eq, .inr ⟨stop_eq, List.not_lt.mpr ge⟩⟩)
    · exact .inl (.inr ⟨start_eq, .inl more⟩)
  · exact .inl (.inl more)

theorem isNoEarlier_antisymm {first second : Edit} (front : isNoEarlier first second = true)
    (back : isNoEarlier second first = true) : first = second := by
  rw [isNoEarlier_iff] at front back
  obtain front | ⟨start_eq, front | ⟨stop_eq, front⟩⟩ := front
  · omega
  · omega
  · obtain back | ⟨_, back | ⟨_, back⟩⟩ := back
    · omega
    · omega
    · have replacement_eq := List.le_antisymm (List.not_lt.mp back) (List.not_lt.mp front)
      cases first
      cases second
      simp_all

/-- There is only one order that edits are sorted in. -/
theorem mergeSort_eq {given sorted : List Edit}
    (pairwise : sorted.Pairwise fun first second => isNoEarlier first second = true)
    (same : given.Perm sorted) : given.mergeSort isNoEarlier = sorted :=
  List.Perm.eq_of_pairwise (fun _ _ _ _ => isNoEarlier_antisymm)
    (List.pairwise_mergeSort isNoEarlier_trans isNoEarlier_total given) pairwise
    ((List.mergeSort_perm _ _).trans same)

/-- Whatever the edits are, the order they are given in does not matter. -/
theorem applyAll_perm {given others : List Edit} (same : given.Perm others) (text : List Char) :
    applyAll given text = applyAll others text := by
  have sorted := mergeSort_eq
    (List.pairwise_mergeSort isNoEarlier_trans isNoEarlier_total others)
    (same.trans (List.mergeSort_perm others isNoEarlier).symm)
  rw [applyAll, applyAll, sorted]

section Characters

variable {character : Char} {text : List Char} (absent : character ∉ text)
include absent

theorem not_mem_applyTo {edit : Edit} (apart : character ∉ edit.replacement) :
    character ∉ edit.applyTo text := by
  rw [applyTo, List.mem_append, List.mem_append, not_or, not_or]
  exact ⟨⟨fun front => absent (List.take_subset _ _ front), apart⟩,
    fun back => absent (List.drop_subset _ _ back)⟩

/-- All that is in a text after some edits was in it before, or in what the edits put in. -/
theorem not_mem_applyAll {edits : List Edit} (each : ∀ edit ∈ edits, character ∉ edit.replacement) :
    character ∉ applyAll edits text := by
  have sorted : ∀ edit ∈ edits.mergeSort isNoEarlier, character ∉ edit.replacement :=
    fun edit member => each edit (List.mem_mergeSort.mp member)
  rw [applyAll]
  generalize edits.mergeSort isNoEarlier = latestFirst at sorted
  induction latestFirst generalizing text with
  | nil => exact absent
  | cons edit others inductionHypothesis =>
    obtain ⟨here, there⟩ := List.forall_mem_cons.mp sorted
    exact inductionHypothesis (not_mem_applyTo absent here) there

end Characters

def Disjoint (first second : Edit) : Prop :=
  first.stop ≤ second.start ∨ second.stop ≤ first.start

/-- Edits of a text of some length, in order and each with a part of the text to itself. -/
structure Apart (length : Nat) (edits : List Edit) : Prop where
  inside : ∀ edit ∈ edits, edit.start < edit.stop ∧ edit.stop ≤ length
  pairwise : edits.Pairwise fun first second => first.stop ≤ second.start

namespace Apart

variable {length : Nat} {edit : Edit} {edits : List Edit}

theorem head (apart : Apart length (edit :: edits)) : edit.start < edit.stop ∧ edit.stop ≤ length :=
  apart.inside edit List.mem_cons_self

theorem tail (apart : Apart length (edit :: edits)) : Apart length edits where
  inside other member := apart.inside other (List.mem_cons_of_mem _ member)
  pairwise := (List.pairwise_cons.mp apart.pairwise).2

theorem stop_le_start (apart : Apart length (edit :: edits)) :
    ∀ other ∈ edits, edit.stop ≤ other.start :=
  (List.pairwise_cons.mp apart.pairwise).1

theorem start_lt_start (apart : Apart length edits) :
    edits.Pairwise fun first second => first.start < second.start := by
  refine List.Pairwise.imp_of_mem ?_ apart.pairwise
  intro first second member _ behind
  exact Nat.lt_of_lt_of_le (apart.inside first member).1 behind

/-- Edits that stand apart are sorted from the last to the first. -/
theorem pairwise_reverse (apart : Apart length edits) :
    edits.reverse.Pairwise fun first second => isNoEarlier first second = true := by
  refine List.pairwise_reverse.mpr (apart.start_lt_start.imp ?_)
  intro first second before
  exact isNoEarlier_iff.mpr (.inl before)

end Apart

/-! ## Splicing -/

/-- The text from `offset` on with the edits in it. -/
def splice (text : List Char) : Nat → List Edit → List Char
  | offset, [] => text.drop offset
  | offset, edit :: edits =>
    Text.slice text offset edit.start ++ edit.replacement ++ splice text edit.stop edits

/-- An edit finds its range where it was in the text, whatever has become of what is behind it. -/
theorem applyTo_take_append {text : List Char} {edit : Edit}
    (extent : edit.start < edit.stop ∧ edit.stop ≤ text.length) (rest : List Char) :
    edit.applyTo (text.take edit.stop ++ rest) =
      text.take edit.start ++ edit.replacement ++ rest := by
  have taken : (text.take edit.stop).length = edit.stop := List.length_take_of_le extent.2
  rw [applyTo, List.take_append_of_le_length (by omega), List.take_take,
    Nat.min_eq_left (by omega), List.drop_append_of_le_length (by omega),
    List.drop_of_length_le (by omega), List.nil_append]

/-- Applying edits that stand apart leaves what is in front of them as it was. -/
theorem foldr_applyTo {text : List Char} {edits : List Edit} (apart : Apart text.length edits)
    {offset : Nat} (inside : offset ≤ text.length) (before : ∀ edit ∈ edits, offset ≤ edit.start) :
    edits.foldr applyTo text = text.take offset ++ splice text offset edits := by
  induction edits generalizing offset with
  | nil => exact (List.take_append_drop offset text).symm
  | cons edit edits inductionHypothesis =>
    have start_le := before edit List.mem_cons_self
    -- The later edits are in already, and they begin behind this one, so its offsets still hold.
    rw [List.foldr_cons, inductionHypothesis apart.tail apart.head.2 apart.stop_le_start,
      applyTo_take_append apart.head, splice, ← Text.take_append_slice text start_le]
    simp only [List.append_assoc]

/-- Edits that stand apart are put in all at once, in whatever order they are given. -/
theorem applyAll_eq_splice {text : List Char} {given edits : List Edit}
    (apart : Apart text.length edits) (same : given.Perm edits) :
    applyAll given text = splice text 0 edits := by
  have sorted := mergeSort_eq apart.pairwise_reverse (same.trans (List.reverse_perm _).symm)
  rw [applyAll, sorted, List.foldl_reverse]
  exact foldr_applyTo apart (Nat.zero_le _) fun _ _ => Nat.zero_le _

/-! ## Gaps and parts -/

/-- What stands between the ranges of a text, from `offset` on to its end. -/
def gaps (text : List Char) : Nat → List (Nat × Nat) → List (List Char)
  | offset, [] => [text.drop offset]
  | offset, (start, stop) :: ranges => Text.slice text offset start :: gaps text stop ranges

/-- Gaps and parts in turn, a gap at either end. -/
def weave : List (List Char) → List (List Char) → List Char
  | gap :: gaps, part :: parts => gap ++ part ++ weave gaps parts
  | gaps, _ => gaps.flatten

def range (edit : Edit) : Nat × Nat :=
  (edit.start, edit.stop)

theorem splice_eq_weave (text : List Char) (offset : Nat) (edits : List Edit) :
    splice text offset edits =
      weave (gaps text offset (edits.map range)) (edits.map replacement) := by
  induction edits generalizing offset with
  | nil => simp [splice, gaps, weave]
  | cons edit edits inductionHypothesis =>
    rw [splice, inductionHypothesis]
    rfl

/-- Putting back what stood in the ranges gives the text. -/
theorem weave_slices {text : List Char} {edits : List Edit} (apart : Apart text.length edits)
    {offset : Nat} (before : ∀ edit ∈ edits, offset ≤ edit.start) :
    weave (gaps text offset (edits.map range))
      (edits.map fun edit => Text.slice text edit.start edit.stop) = text.drop offset := by
  induction edits generalizing offset with
  | nil => simp [gaps, weave]
  | cons edit edits inductionHypothesis =>
    have filled := apart.head.1
    have start_le := before edit List.mem_cons_self
    have rest := inductionHypothesis apart.tail apart.stop_le_start
    calc
      _ = Text.slice text offset edit.start ++ Text.slice text edit.start edit.stop ++
          text.drop edit.stop := congrArg _ rest
      _ = text.drop offset := by
        rw [List.append_assoc, Text.slice_append_drop text (Nat.le_of_lt filled),
          Text.slice_append_drop text start_le]

theorem length_gaps (text : List Char) (offset : Nat) (ranges : List (Nat × Nat)) :
    (gaps text offset ranges).length = ranges.length + 1 := by
  induction ranges generalizing offset with
  | nil => rfl
  | cons range ranges inductionHypothesis => exact congrArg (· + 1) (inductionHypothesis _)

/-- A part of a text that keeps away from all ranges lies in one of the gaps. -/
theorem exists_gap {text : List Char} {ranges : List (Nat × Nat)} {offset start stop : Nat}
    (after : offset ≤ start) (order : start ≤ stop)
    (away : ∀ range ∈ ranges, stop ≤ range.1 ∨ range.2 ≤ start) :
    ∃ gap ∈ gaps text offset ranges, Text.slice text start stop <:+: gap := by
  induction ranges generalizing offset with
  | nil =>
    refine ⟨_, List.mem_singleton_self _, Text.slice text offset start, text.drop stop, ?_⟩
    rw [List.append_assoc, Text.slice_append_drop text order, Text.slice_append_drop text after]
  | cons range ranges inductionHypothesis =>
    obtain ⟨awayHere, awayLater⟩ := List.forall_mem_cons.mp away
    obtain before | behind := awayHere
    · refine ⟨_, List.mem_cons_self, Text.slice text offset start, Text.slice text stop range.1, ?_⟩
      rw [Text.slice_append_slice text after order,
        Text.slice_append_slice text (Nat.le_trans after order) before]
    · obtain ⟨gap, member, within⟩ := inductionHypothesis behind awayLater
      exact ⟨gap, List.mem_cons_of_mem _ member, within⟩

theorem infix_weave {gaps parts : List (List Char)} (enough : parts.length < gaps.length) :
    ∀ part ∈ parts, part <:+: weave gaps parts := by
  induction parts generalizing gaps with
  | nil => simp
  | cons first parts inductionHypothesis =>
    cases gaps with
    | nil => cases enough
    | cons gap gaps =>
      refine List.forall_mem_cons.mpr ⟨⟨gap, weave gaps parts, rfl⟩, fun part member => ?_⟩
      have within := inductionHypothesis (Nat.lt_of_succ_lt_succ enough) part member
      exact within.trans (List.suffix_append _ _).isInfix

end PeerExpansion.Edit

/-! ## Erasing spans

A span is erased by an edit with nothing to put in its place. What edits of this kind leave of a
text are the characters at the offsets that no span covers.
-/

namespace PeerExpansion

namespace Text

def covers (spans : List (Nat × Nat)) (offset : Nat) : Bool :=
  spans.any fun (first, behind) => first ≤ offset && offset < behind

/-- The characters of a text that no span covers, where the text begins at `offset`. -/
def without (spans : List (Nat × Nat)) (offset : Nat) : List Char → List Char
  | [] => []
  | character :: rest =>
    if covers spans offset then without spans (offset + 1) rest
    else character :: without spans (offset + 1) rest

variable {spans others : List (Nat × Nat)} {offset : Nat}

theorem covers_iff :
    covers spans offset = true ↔ ∃ span ∈ spans, span.1 ≤ offset ∧ offset < span.2 := by
  simp [covers]

theorem without_append (spans : List (Nat × Nat)) (offset : Nat) (front back : List Char) :
    without spans offset (front ++ back) =
      without spans offset front ++ without spans (offset + front.length) back := by
  induction front generalizing offset with
  | nil => rfl
  | cons character front inductionHypothesis =>
    rw [List.cons_append, without, without, inductionHypothesis, List.length_cons,
      Nat.add_right_comm, Nat.add_assoc]
    split <;> rfl

/-- Only the spans that cover a part of a text matter. -/
theorem without_congr {text : List Char}
    (same : ∀ place, offset ≤ place → place < offset + text.length →
      covers spans place = covers others place) :
    without spans offset text = without others offset text := by
  induction text generalizing offset with
  | nil => rfl
  | cons character rest inductionHypothesis =>
    rw [List.length_cons] at same
    rw [without, without, same offset (Nat.le_refl _) (by omega),
      inductionHypothesis fun place after before => same place (by omega) (by omega)]

theorem without_nil (offset : Nat) (text : List Char) : without [] offset text = text := by
  induction text generalizing offset with
  | nil => rfl
  | cons character rest inductionHypothesis =>
    rw [without, inductionHypothesis]
    rfl

theorem without_eq_nil {text : List Char}
    (covered : ∀ place, offset ≤ place → place < offset + text.length →
      covers spans place = true) : without spans offset text = [] := by
  induction text generalizing offset with
  | nil => rfl
  | cons character rest inductionHypothesis =>
    rw [List.length_cons] at covered
    rw [without, covered offset (Nat.le_refl _) (by omega), if_pos rfl]
    exact inductionHypothesis fun place after before => covered place (by omega) (by omega)

/-- The spans cover all offsets from `start` up to, but without, `stop`. -/
def Covered (spans : List (Nat × Nat)) (start stop : Nat) : Prop :=
  ∀ offset, start ≤ offset → offset < stop → covers spans offset = true

/-- The spans cover none of these offsets. -/
def Uncovered (spans : List (Nat × Nat)) (start stop : Nat) : Prop :=
  ∀ offset, start ≤ offset → offset < stop → covers spans offset = false

/-! ## Slices -/

variable {start middle stop : Nat}

theorem without_of_uncovered (uncovered : Uncovered spans start stop) (text : List Char) :
    without spans start (slice text start stop) = slice text start stop := by
  refine (without_congr fun offset after before => ?_).trans (without_nil _ _)
  have short : (slice text start stop).length ≤ stop - start := List.length_take_le _ _
  rw [uncovered offset after (by omega)]
  rfl

theorem without_of_covered (covered : Covered spans start stop) (text : List Char) :
    without spans start (slice text start stop) = [] := by
  refine without_eq_nil fun offset after before => ?_
  have short : (slice text start stop).length ≤ stop - start := List.length_take_le _ _
  exact covered offset after (by omega)

theorem without_slice_append {text : List Char} (before : start ≤ middle) (behind : middle ≤ stop)
    (inside : middle ≤ text.length) : without spans start (slice text start stop) =
      without spans start (slice text start middle) ++
        without spans middle (slice text middle stop) := by
  rw [← slice_append_slice text before behind, without_append, length_slice text inside,
    Nat.add_sub_cancel' before]

end Text

namespace Edit

/-- The range of an edit in a text of which the edited one begins at `base`. -/
def rangeFrom (base : Nat) (edit : Edit) : Nat × Nat :=
  (base + edit.start, base + edit.stop)

theorem covers_rangeFrom_cons {base place : Nat} {edit : Edit} {edits : List Edit} :
    Text.covers ((edit :: edits).map (rangeFrom base)) place = true ↔
      (base + edit.start ≤ place ∧ place < base + edit.stop) ∨
        Text.covers (edits.map (rangeFrom base)) place = true := by
  simp [Text.covers, rangeFrom]

theorem covers_rangeFrom_eq_false {base place bound : Nat} {edits : List Edit}
    (before : place < base + bound) (behind : ∀ edit ∈ edits, bound ≤ edit.start) :
    Text.covers (edits.map (rangeFrom base)) place = false := by
  rw [Text.covers, List.any_map, List.any_eq_false]
  intro edit member covered
  have late := behind edit member
  have reached : base + edit.start ≤ place :=
    of_decide_eq_true (Bool.and_eq_true_iff.mp covered).1
  omega

/-- Edits that put nothing in leave the characters at the offsets they do not cover. -/
theorem splice_eq_without {text : List Char} {edits : List Edit} (apart : Apart text.length edits)
    (erasing : ∀ edit ∈ edits, edit.replacement = []) (base : Nat) {offset : Nat}
    (before : ∀ edit ∈ edits, offset ≤ edit.start) :
    splice text offset edits =
      Text.without (edits.map (rangeFrom base)) (base + offset) (text.drop offset) := by
  induction edits generalizing offset with
  | nil => exact (Text.without_nil _ _).symm
  | cons edit edits inductionHypothesis =>
    obtain ⟨filled, bound⟩ := apart.head
    have start_le := before edit List.mem_cons_self
    have behind := apart.stop_le_start
    have front_length : (Text.slice text offset edit.start).length = edit.start - offset :=
      Text.length_slice text (by omega)
    have middle_length : (Text.slice text edit.start edit.stop).length = edit.stop - edit.start :=
      Text.length_slice text bound
    -- The text falls into what is in front of the first edit, what it covers, and what is behind it.
    have front : Text.without ((edit :: edits).map (rangeFrom base)) (base + offset)
        (Text.slice text offset edit.start) = Text.slice text offset edit.start := by
      refine (Text.without_congr fun place _ early => ?_).trans (Text.without_nil _ _)
      have early : place < base + edit.start := by omega
      refine covers_rangeFrom_eq_false early ?_
      exact List.forall_mem_cons.mpr ⟨Nat.le_refl _, fun other member =>
        Nat.le_trans (Nat.le_of_lt filled) (behind other member)⟩
    have middle : Text.without ((edit :: edits).map (rangeFrom base)) (base + edit.start)
        (Text.slice text edit.start edit.stop) = [] :=
      Text.without_eq_nil fun place late early =>
        covers_rangeFrom_cons.mpr (.inl ⟨late, by omega⟩)
    have back : Text.without ((edit :: edits).map (rangeFrom base)) (base + edit.stop)
        (text.drop edit.stop) =
        Text.without (edits.map (rangeFrom base)) (base + edit.stop) (text.drop edit.stop) := by
      refine Text.without_congr fun place late _ => ?_
      rw [Bool.eq_iff_iff, covers_rangeFrom_cons]
      exact or_iff_right fun covered => Nat.not_lt.mpr late covered.2
    have parts : text.drop offset = Text.slice text offset edit.start ++
        (Text.slice text edit.start edit.stop ++ text.drop edit.stop) := by
      rw [Text.slice_append_drop text (Nat.le_of_lt filled), Text.slice_append_drop text start_le]
    rw [parts, Text.without_append, Text.without_append, front_length, middle_length,
      Nat.add_assoc base, Nat.add_sub_cancel' start_le, Nat.add_assoc base,
      Nat.add_sub_cancel' (Nat.le_of_lt filled), front, middle, back, splice,
      erasing edit List.mem_cons_self, inductionHypothesis apart.tail
        (fun other member => erasing other (List.mem_cons_of_mem _ member)) behind,
      List.append_nil, List.nil_append]

end Edit

end PeerExpansion
