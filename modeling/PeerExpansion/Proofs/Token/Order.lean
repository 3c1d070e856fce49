import Mathlib.Tactic.ByContra
import PeerExpansion.Proofs.Token.Scan

/-! # The order of tokens

The tokens of a source by their index, from the first word to the ending. Offsets and indices put
them in the same order.
-/

namespace PeerExpansion

/-- Of two members of a list in order, one comes first. -/
theorem related_of_pairwise {α : Type} {relation : α → α → Prop} {items : List α}
    (pairwise : items.Pairwise relation) {first second : α} (member : first ∈ items)
    (otherMember : second ∈ items) :
    first = second ∨ relation first second ∨ relation second first := by
  induction pairwise with
  | nil => cases member
  | cons related _ inductionHypothesis =>
    obtain rfl | within := List.mem_cons.mp member
    · obtain rfl | otherWithin := List.mem_cons.mp otherMember
      · exact .inl rfl
      · exact .inr (.inl (related _ otherWithin))
    · obtain rfl | otherWithin := List.mem_cons.mp otherMember
      · exact .inr (.inr (related _ within))
      · exact inductionHypothesis within otherWithin

namespace TokenStream

/-- The token that has `index` others before it. Behind the last word there is only the ending. -/
def token (stream : TokenStream) (index : Nat) : Token :=
  stream.words[index]?.getD stream.ending

/-- The words follow one another through the source, and the ending stands at its end. -/
structure Ordered (stream : TokenStream) : Prop where
  filled : ∀ word ∈ stream.words,
    word.kind ≠ .ending ∧ word.start < word.stop ∧ word.stop ≤ stream.source.length
  pairwise : stream.words.Pairwise fun first second => first.stop ≤ second.start
  ending_kind : stream.ending.kind = .ending
  ending_text : stream.ending.text = ""
  ending_start : stream.ending.start = stream.source.length

theorem ordered_of_scan {source : List Char} {stream : TokenStream}
    (scanned : scan source = .ok stream) : stream.source = source ∧ stream.Ordered := by
  obtain ⟨rfl, fills, ending_eq⟩ := fills_of_scan scanned
  refine ⟨rfl, ?_, fills.pairwise, ?_, ?_, ?_⟩
  · intro word member
    have stands := fills.stands word member
    exact ⟨stands.kind_ne, stands.start_lt, stands.stop_le⟩
  · rw [ending_eq]; rfl
  · rw [ending_eq]; rfl
  · rw [ending_eq]
    exact Position.offset_ofOffset (Nat.le_refl _)

variable {stream : TokenStream}

theorem token_eq_getElem {index : Nat} (inside : index < stream.words.length) :
    stream.token index = stream.words[index] := by
  simp [token, inside]

theorem token_eq_ending {index : Nat} (beyond : stream.words.length ≤ index) :
    stream.token index = stream.ending := by
  simp [token, beyond]

theorem token_mem_toList (stream : TokenStream) (index : Nat) :
    stream.token index ∈ stream.toList := by
  obtain within | beyond := Nat.lt_or_ge index stream.words.length
  · rw [token_eq_getElem within]
    exact List.mem_append_left _ (List.getElem_mem within)
  · rw [token_eq_ending beyond]
    exact List.mem_append_right _ (List.mem_singleton_self _)

namespace Ordered

variable (ordered : stream.Ordered) {first second index : Nat}
include ordered

theorem start_lt_stop (inside : index < stream.words.length) :
    (stream.token index).start < (stream.token index).stop := by
  rw [token_eq_getElem inside]
  exact (ordered.filled _ (List.getElem_mem inside)).2.1

theorem stop_le_length (inside : index < stream.words.length) :
    (stream.token index).stop ≤ stream.source.length := by
  rw [token_eq_getElem inside]
  exact (ordered.filled _ (List.getElem_mem inside)).2.2

theorem stop_le_start (before : first < second) (inside : first < stream.words.length) :
    (stream.token first).stop ≤ (stream.token second).start := by
  obtain within | beyond := Nat.lt_or_ge second stream.words.length
  · rw [token_eq_getElem inside, token_eq_getElem within]
    exact List.pairwise_iff_getElem.mp ordered.pairwise _ _ inside within before
  · rw [token_eq_ending beyond, ordered.ending_start]
    exact ordered.stop_le_length inside

theorem start_lt_start (before : first < second) (inside : first < stream.words.length) :
    (stream.token first).start < (stream.token second).start :=
  Nat.lt_of_lt_of_le (ordered.start_lt_stop inside) (ordered.stop_le_start before inside)

theorem start_le_length (index : Nat) : (stream.token index).start ≤ stream.source.length := by
  obtain within | beyond := Nat.lt_or_ge index stream.words.length
  · exact Nat.le_of_lt
      (Nat.lt_of_lt_of_le (ordered.start_lt_stop within) (ordered.stop_le_length within))
  · exact Nat.le_of_eq (token_eq_ending beyond ▸ ordered.ending_start)

theorem start_le_start (before : first ≤ second) :
    (stream.token first).start ≤ (stream.token second).start := by
  obtain rfl | before := Nat.eq_or_lt_of_le before
  · exact Nat.le_refl _
  · obtain inside | beyond := Nat.lt_or_ge first stream.words.length
    · exact Nat.le_of_lt (ordered.start_lt_start before inside)
    · have same : stream.token first = stream.token second :=
        (token_eq_ending beyond).trans (token_eq_ending (by omega)).symm
      exact Nat.le_of_eq (congrArg Token.start same)

theorem stop_le_stop (before : first ≤ second) (inside : second < stream.words.length) :
    (stream.token first).stop ≤ (stream.token second).stop := by
  obtain rfl | before := Nat.eq_or_lt_of_le before
  · exact Nat.le_refl _
  · exact Nat.le_trans (ordered.stop_le_start before (Nat.lt_trans before inside))
      (Nat.le_of_lt (ordered.start_lt_stop inside))

theorem lt_of_start_lt (before : (stream.token first).start < (stream.token second).start) :
    first < second := by
  by_contra behind
  have := ordered.start_le_start (show second ≤ first by omega)
  omega

theorem le_of_start_lt_stop (inside : second < stream.words.length)
    (before : (stream.token first).start < (stream.token second).stop) : first ≤ second := by
  by_contra behind
  have := ordered.stop_le_start (show second < first by omega) inside
  omega

/-- Two words that end at the same place are the same. -/
theorem eq_of_stop_eq (inside : first < stream.words.length) (within : second < stream.words.length)
    (same : (stream.token first).stop = (stream.token second).stop) : first = second := by
  have filled := ordered.start_lt_stop inside
  have otherFilled := ordered.start_lt_stop within
  have := ordered.le_of_start_lt_stop within (Nat.lt_of_lt_of_eq filled same)
  have := ordered.le_of_start_lt_stop inside (Nat.lt_of_lt_of_eq otherFilled same.symm)
  omega

/-- Two places where a word starts are the same. -/
theorem eq_of_start_eq (inside : first < stream.words.length)
    (same : (stream.token first).start = (stream.token second).start) : first = second := by
  obtain before | same | behind := Nat.lt_trichotomy first second
  · have := ordered.start_lt_start before inside
    omega
  · exact same
  · have := ordered.start_lt_start behind (by omega)
    omega

/-- A token that is told from the ending is a word. -/
theorem lt_length_of_kind_ne (kind_ne : (stream.token index).kind ≠ .ending) :
    index < stream.words.length := by
  by_contra beyond
  rw [token_eq_ending (by omega)] at kind_ne
  exact kind_ne ordered.ending_kind

theorem lt_length_of_isIdentifier (identifier : (stream.token index).isIdentifier = true) :
    index < stream.words.length := by
  apply ordered.lt_length_of_kind_ne
  rw [Token.isIdentifier, beq_iff_eq] at identifier
  rw [identifier]
  decide

theorem lt_length_of_reads {text : String} (reads : (stream.token index).reads text = true)
    (filled : text ≠ "") : index < stream.words.length := by
  by_contra beyond
  rw [token_eq_ending (by omega)] at reads
  simp only [Token.reads, ordered.ending_text, Bool.and_eq_true, beq_iff_eq] at reads
  exact filled reads.2.symm

/-- The first token behind a word is the one after it. -/
theorem firstFrom_stop (inside : index < stream.words.length) :
    stream.firstFrom (stream.token index).stop = stream.token (index + 1) := by
  have before : (stream.words.take (index + 1)).find?
      (fun token => (stream.token index).stop ≤ token.start) = none := by
    rw [List.find?_eq_none]
    intro word member
    obtain ⟨place, bound, rfl⟩ := List.mem_take_iff_getElem.mp member
    have := ordered.start_lt_stop inside
    have := ordered.start_le_start (show place ≤ index by omega)
    rw [← token_eq_getElem (by omega)]
    simpa using (by omega)
  -- None of the words up to this one begins behind it, so the next is found, or the ending.
  rw [firstFrom, ← List.take_append_drop (index + 1) stream.words, List.find?_append, before,
    Option.none_or]
  obtain within | beyond := Nat.lt_or_ge (index + 1) stream.words.length
  · have behind := ordered.stop_le_start (Nat.lt_succ_self index) inside
    rw [token_eq_getElem within] at behind ⊢
    rw [List.drop_eq_getElem_cons within, List.find?_cons_of_pos (by simpa using behind)]
    rfl
  · rw [List.drop_of_length_le beyond, token_eq_ending beyond]
    rfl

end Ordered

end TokenStream

end PeerExpansion
