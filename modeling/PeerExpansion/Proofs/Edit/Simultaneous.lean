import PeerExpansion.Proofs.Edit.Splice
import Mathlib.Data.List.Sort

/-! # Edits put in at once

Edits refer to the text as it was, but they are applied one after the other, each to what the ones
before it have left. As long as no two of them share a part of the text this cannot be told from
putting all of them in at once: the text is cut at their ranges, and every range is exchanged for
its replacement.
-/

namespace PeerExpansion.Edit

theorem Disjoint.symm {first second : Edit} (disjoint : first.Disjoint second) :
    second.Disjoint first :=
  Or.symm disjoint

/-- Edits of a text of some length, in any order and each with a part of the text to itself. -/
structure Separate (length : Nat) (edits : List Edit) : Prop where
  inside : ∀ edit ∈ edits, edit.start < edit.stop ∧ edit.stop ≤ length
  disjoint : edits.Pairwise Disjoint

theorem Separate.perm {length : Nat} {edits others : List Edit} (separate : Separate length edits)
    (same : edits.Perm others) : Separate length others where
  inside edit member := separate.inside edit (same.mem_iff.mpr member)
  disjoint := same.pairwise separate.disjoint Disjoint.symm

/-! ## Order of start -/

def StartsNoLater (first second : Edit) : Prop :=
  first.start ≤ second.start

instance : DecidableRel StartsNoLater := fun first second =>
  inferInstanceAs (Decidable (first.start ≤ second.start))

instance : Std.Total StartsNoLater where
  total first second := Nat.le_total first.start second.start

instance : IsTrans Edit StartsNoLater where
  trans _ _ _ := Nat.le_trans

def byStart (edits : List Edit) : List Edit :=
  edits.insertionSort StartsNoLater

theorem byStart_perm (edits : List Edit) : (byStart edits).Perm edits :=
  List.perm_insertionSort StartsNoLater edits

/-- Of two edits that share nothing, the one that does not start later is at its end before the
other one starts. -/
theorem Disjoint.stop_le_start {first second : Edit} (disjoint : first.Disjoint second)
    (filled : second.start < second.stop) (order : first.StartsNoLater second) :
    first.stop ≤ second.start := by
  obtain before | behind := disjoint
  · exact before
  · rw [StartsNoLater] at order
    omega

theorem Separate.apart_byStart {length : Nat} {edits : List Edit}
    (separate : Separate length edits) : Apart length (byStart edits) := by
  have sorted := separate.perm (byStart_perm edits).symm
  refine ⟨sorted.inside, ?_⟩
  have ascending : (byStart edits).Pairwise StartsNoLater :=
    List.pairwise_insertionSort StartsNoLater edits
  refine (ascending.and sorted.disjoint).imp_of_mem ?_
  rintro first second _ member ⟨order, disjoint⟩
  exact disjoint.stop_le_start (sorted.inside second member).1 order

/-! ## All at once -/

/-- The edits are put into a text all at once. `ordered` has them in order of start; between the
gaps that they leave stands what they replace in the text, and their replacements in the outcome,
whatever order the edits are given in. -/
structure Simultaneous (text : List Char) (edits ordered : List Edit) : Prop where
  same : ordered.Perm edits
  ascending : ordered.Pairwise fun first second => first.start < second.start
  text_eq : text = weave (gaps text 0 (ordered.map range))
    (ordered.map fun edit => Text.slice text edit.start edit.stop)
  applyAll_eq : applyAll edits text =
    weave (gaps text 0 (ordered.map range)) (ordered.map replacement)
  applyAll_others : ∀ others : List Edit, others.Perm edits →
    applyAll others text = applyAll edits text

theorem simultaneous_of_separate {text : List Char} {edits : List Edit}
    (separate : Separate text.length edits) : Simultaneous text edits (byStart edits) := by
  have apart := separate.apart_byStart
  have same := byStart_perm edits
  refine ⟨same, apart.start_lt_start, ?_, ?_, fun others shuffled => applyAll_perm shuffled text⟩
  · exact (weave_slices apart fun _ _ => Nat.zero_le _).symm
  · calc applyAll edits text
      _ = splice text 0 (byStart edits) := applyAll_eq_splice apart same.symm
      _ = weave (gaps text 0 ((byStart edits).map range)) ((byStart edits).map replacement) :=
        splice_eq_weave text 0 (byStart edits)

def retypingSample : List Char :=
  "@Echo var x: Int".toList

/-- Edits that meet, that take away, that make longer and that end with the text, out of order. -/
def retypingEdits : List Edit :=
  [⟨10, 11, "width".toList⟩, ⟨0, 6, []⟩, ⟨13, 16, "Double".toList⟩, ⟨6, 9, "let".toList⟩]

theorem simultaneous_retypingSample :
    Separate retypingSample.length retypingEdits ∧
      Simultaneous retypingSample retypingEdits (byStart retypingEdits) ∧
      applyAll retypingEdits retypingSample = "let width: Double".toList := by
  have separate : Separate retypingSample.length retypingEdits :=
    ⟨by decide, by simp [retypingEdits, Disjoint]⟩
  have simultaneous := simultaneous_of_separate separate
  refine ⟨separate, simultaneous, ?_⟩
  rw [simultaneous.applyAll_eq]
  decide

end PeerExpansion.Edit
