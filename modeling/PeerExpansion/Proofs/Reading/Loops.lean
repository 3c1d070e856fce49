import PeerExpansion.Proofs.Reading.Limit

/-! # The loops of the readers

No loop of a reader ends for want of steps. Types and patterns nest, and their readers take the
depth for a number of steps. How deep they may go makes no difference either, as every level costs a
token.
-/

namespace PeerExpansion

open Reading

/-! ## Attributes -/

namespace Attribute

theorem costs_read : Costs Attribute.read :=
  costs_bind (costs_expect (by decide)) fun mark => by
    have forward := forward_read
    grind

theorem settles_readMembersWithin : Settles readMembersWithin := by
  intro limit
  induction limit with
  | zero =>
    intro cursor ends enough
    unfold readMembersWithin
    rw [run_check_bind, run_ahead_bind, if_neg (by simp [ends.not_reads enough])]
  | succ limit inductionHypothesis =>
    intro cursor ends enough
    unfold readMembersWithin
    rw [run_check_bind, run_check_bind, run_ahead_bind, run_ahead_bind]
    split
    next seen =>
      have some := ends.remaining_pos_of_reads (by decide) (Bool.and_eq_true_iff.mp seen).1
      rw [run_ahead_bind, run_ahead_bind, run_skip_bind, run_skip_bind]
      refine Alike.run_skip_eq ?_ some ends enough Nat.two_pos
      exact alike_bind (forward_readMembersWithin _) inductionHypothesis fun _ => alike_refl _
    next => rfl

theorem settles_readAllWithin : Settles readAllWithin := by
  intro limit
  induction limit with
  | zero =>
    intro cursor ends enough
    unfold readAllWithin
    rw [run_check_bind, if_neg (ends.not_reads enough (by decide))]
  | succ limit inductionHypothesis =>
    refine alike_check ?_ (alike_refl _)
    refine alike_bind_of_costs forward_read costs_read fun attr => ?_
    exact alike_bind (forward_readAllWithin _) inductionHypothesis fun _ => alike_refl _

end Attribute

/-! ## Patterns -/

namespace Pattern

theorem settles_readWithin : Settles Pattern.readWithin := by
  intro limit
  induction limit with
  | zero =>
    intro cursor ends enough
    unfold Pattern.readWithin
    have absent := ends.not_isIdentifier enough
    rw [run_current_bind, if_neg (ends.not_reads enough (by decide)), if_neg (by simp [absent]),
      expectIdentifier, bind_assoc, run_current_bind, if_neg absent]
    rfl
  | succ limit inductionHypothesis =>
    intro cursor ends enough
    unfold Pattern.readWithin
    rw [run_current_bind, run_current_bind]
    refine run_ite_skip_eq (ends.remaining_pos_of_reads (by decide)) ends enough rfl ?_ Nat.one_pos
    exact alike_bind (forward_listed _ (forward_readWithin _))
      (alike_listed (forward_readWithin _) inductionHypothesis) fun _ => alike_refl _

end Pattern

/-! ## Types -/

namespace TypeExpr

section Parts

variable {type other : Reading TypeExpr} {bound : Nat}

theorem settles_readNameWithin (forward : Forward type) : Settles (readNameWithin type) := by
  intro limit
  induction limit with
  | zero =>
    refine alike_bind (forward_readPart forward) (alike_refl _) fun part cursor ends enough => ?_
    rw [run_ahead_bind, run_check_bind, if_neg (by simp [ends.not_reads enough])]
  | succ limit inductionHypothesis =>
    refine alike_bind (forward_readPart forward) (alike_refl _) fun part cursor ends enough => ?_
    rw [run_ahead_bind, run_ahead_bind, run_check_bind, run_check_bind]
    refine run_ite_skip_eq (fun seen => ?_) ends enough rfl ?_ Nat.one_pos
    · simp only [Bool.and_eq_true] at seen
      exact ends.remaining_pos_of_reads (by decide) seen.1.1
    · exact alike_bind (forward_readNameWithin forward _) inductionHypothesis fun _ => alike_refl _

variable (forward : Forward type) (alike : Alike bound type other)
include forward alike

theorem alike_readComposition : Alike bound (readComposition type) (readComposition other) :=
  alike_bind (forward_separated _ forward) (alike_separated forward alike) fun _ => alike_refl _

theorem alike_readGenericArguments :
    Alike bound (readGenericArguments type) (readGenericArguments other) := by
  refine alike_check ?_ (alike_refl _)
  refine alike_bind (forward_skip _) (alike_refl _) fun _ => ?_
  exact alike_bind (forward_separated _ forward) (alike_separated forward alike)
    fun _ => alike_refl _

theorem alike_readPart : Alike (bound + 1) (readPart type) (readPart other) := by
  refine alike_bind_of_costs (forward_expectIdentifier _) (costs_expectIdentifier _) fun name => ?_
  exact alike_bind (forward_readGenericArguments forward)
    (alike_readGenericArguments forward alike) fun _ => alike_refl _

theorem alike_readNameWithin (limit : Nat) :
    Alike (bound + 1) (readNameWithin type limit) (readNameWithin other limit) := by
  induction limit with
  | zero =>
    exact alike_bind (forward_readPart forward) (alike_readPart forward alike) fun _ => alike_refl _
  | succ limit inductionHypothesis =>
    refine alike_bind (forward_readPart forward) (alike_readPart forward alike) fun part => ?_
    refine alike_bind (forward_ahead _) (alike_refl _) fun next => ?_
    refine alike_bind (forward_check _) (alike_refl _) fun found => ?_
    split
    · refine alike_bind (forward_skip _) (alike_refl _) fun _ => ?_
      exact alike_bind (forward_readNameWithin forward _) inductionHypothesis fun _ => alike_refl _
    · exact alike_refl _

theorem alike_readSimple : Alike (bound + 1) (readSimple type) (readSimple other) := by
  refine alike_bind forward_get (alike_refl _) fun cursor => ?_
  exact alike_bind (forward_readNameWithin forward _) (alike_readNameWithin forward alike _)
    fun _ => alike_refl _

theorem alike_readBracketed : Alike (bound + 1) (readBracketed type) (readBracketed other) := by
  refine alike_bind_of_costs (forward_expect _) (costs_expect (by decide)) fun _ => ?_
  refine alike_bind forward alike fun element => alike_check ?_ (alike_refl _)
  refine alike_bind (forward_skip _) (alike_refl _) fun _ => ?_
  exact alike_bind forward alike fun _ => alike_refl _

theorem alike_readElement : Alike bound (readElement type) (readElement other) := by
  refine alike_bind forward_readLabel (alike_refl _) fun label => ?_
  exact alike_bind forward alike fun _ => alike_refl _

theorem alike_readParenthesised :
    Alike (bound + 1) (readParenthesised type) (readParenthesised other) := by
  refine alike_bind_of_costs (forward_expect _) (costs_expect (by decide)) fun _ => ?_
  have elementForward := forward_readElement forward
  refine alike_bind (forward_listed _ elementForward)
    (alike_listed elementForward (alike_readElement forward alike)) fun elements => ?_
  refine alike_bind (forward_expect _) (alike_refl _) fun _ => ?_
  refine alike_bind forward_readEffects (alike_refl _) fun effects => ?_
  refine alike_check ?_ (alike_refl _)
  refine alike_bind (forward_skip _) (alike_refl _) fun _ => ?_
  exact alike_bind forward alike fun _ => alike_refl _

theorem alike_readPrimary : Alike (bound + 1) (readPrimary type) (readPrimary other) := by
  have compositionForward := forward_readComposition forward
  have composition := alike_readComposition forward alike
  refine alike_bind forward_skipOwnership (alike_refl _) fun _ cursor ends enough => ?_
  rw [run_current_bind, run_current_bind, run_ahead_bind, run_ahead_bind]
  refine run_ite_skip_eq
    (fun seen => ends.remaining_pos_of_isOneOf (by decide) (Bool.and_eq_true_iff.mp seen).1) ends
    enough ?_ (alike_bind forward alike fun _ => alike_refl _) Nat.one_pos
  split
  · exact alike_readParenthesised compositionForward composition cursor ends enough
  · split
    · exact alike_readBracketed compositionForward composition cursor ends enough
    · split
      · exact alike_readSimple compositionForward composition cursor ends enough
      · rfl

end Parts

theorem settles_skipOwnershipWithin : Settles skipOwnershipWithin := by
  intro limit
  induction limit with
  | zero =>
    intro cursor ends enough
    unfold skipOwnershipWithin
    rw [run_check_bind, if_neg (ends.not_reads enough (by decide)), run_current_bind,
      if_neg (ends.not_isOneOf enough (by decide))]
  | succ limit inductionHypothesis =>
    refine alike_check ?_ fun cursor ends enough => ?_
    · exact alike_bind_of_costs Attribute.forward_read Attribute.costs_read
        fun _ => inductionHypothesis
    · rw [run_current_bind, run_current_bind]
      exact run_ite_skip_eq (ends.remaining_pos_of_isOneOf (by decide)) ends enough rfl
        inductionHypothesis Nat.one_pos

theorem settles_readSuffixesWithin (type : TypeExpr) : Settles (readSuffixesWithin type) := by
  -- Each kind of suffix is skipped as it is seen, so there is a token fewer for the next round.
  intro limit
  induction limit generalizing type with
  | zero =>
    intro cursor ends enough
    unfold readSuffixesWithin
    rw [run_ahead_bind, run_check_bind, if_neg (ends.not_reads enough (by decide)), run_check_bind,
      if_neg (ends.not_reads enough (by decide)), run_check_bind,
      if_neg (by simp [ends.not_reads enough])]
  | succ limit inductionHypothesis =>
    intro cursor ends enough
    unfold readSuffixesWithin
    rw [run_ahead_bind, run_ahead_bind, run_check_bind, run_check_bind]
    refine run_ite_skip_eq (ends.remaining_pos_of_reads (by decide)) ends enough ?_
      (inductionHypothesis _) Nat.one_pos
    rw [run_check_bind, run_check_bind]
    refine run_ite_skip_eq (ends.remaining_pos_of_reads (by decide)) ends enough ?_
      (inductionHypothesis _) Nat.one_pos
    rw [run_check_bind, run_check_bind]
    exact run_ite_skip_eq
      (fun seen => ends.remaining_pos_of_reads (by decide) (Bool.and_eq_true_iff.mp seen).1) ends
      enough rfl (inductionHypothesis _) Nat.two_pos

theorem settles_suffixedWithin : Settles suffixedWithin := by
  intro limit
  induction limit with
  | zero =>
    -- Without a token left a type of any depth is missed, and at the same place.
    intro cursor ends enough
    unfold suffixedWithin readPrimary skipOwnership
    rw [bind_assoc, bind_assoc, run_get_bind, Nat.le_zero.mp enough, skipOwnershipWithin, pure_bind,
      bind_assoc, run_current_bind, bind_assoc, run_ahead_bind,
      if_neg (by simp [ends.not_isOneOf enough (show "" ∉ constraintWords by decide)]),
      if_neg (ends.not_reads enough (by decide)), if_neg (ends.not_reads enough (by decide)),
      if_neg (ends.not_isIdentifier enough)]
    rfl
  | succ limit inductionHypothesis =>
    have forward := forward_suffixedWithin (limit + 1)
    exact alike_bind (forward_readPrimary forward) (alike_readPrimary forward inductionHypothesis)
      fun _ => alike_refl _

end TypeExpr

/-! ## Declarations -/

namespace Declaration

theorem settles_readModifiersWithin : Settles readModifiersWithin := by
  have some {cursor : Cursor} (ends : cursor.EndsEmpty) {next : Token}
      (seen : isModifier cursor.current next = true) : 0 < cursor.remaining := by
    simp only [isModifier, Bool.and_eq_true] at seen
    exact ends.remaining_pos_of_isIdentifier seen.1.1
  intro limit
  induction limit with
  | zero =>
    intro cursor ends enough
    unfold readModifiersWithin
    rw [run_current_bind, run_ahead_bind,
      if_neg fun seen => Nat.not_le_of_lt (some ends seen) enough]
  | succ limit inductionHypothesis =>
    intro cursor ends enough
    unfold readModifiersWithin
    rw [run_current_bind, run_current_bind, run_ahead_bind, run_ahead_bind]
    rw [readModifier, bind_assoc, bind_assoc]
    refine run_ite_advance_eq (some ends) ends enough rfl fun token => ?_
    refine alike_bind ?_ (alike_refl _) fun modifier => ?_
    · grind
    · exact alike_bind (forward_readModifiersWithin _) inductionHypothesis fun _ => alike_refl _

end Declaration

/-! ## All loops -/

/-- The loops of the readers, each with the readings inside it. -/
inductive Reading.IsLoop : {α : Type} → (Nat → Reading α) → Prop
  | attributes : IsLoop Attribute.readAllWithin
  | members : IsLoop Attribute.readMembersWithin
  | arguments (clause : Token) : IsLoop (separatedWithin "," (Attribute.readArgument clause))
  | modifiers : IsLoop Declaration.readModifiersWithin
  | bindings : IsLoop (separatedWithin "," Declaration.readBinding)
  | patterns : IsLoop Pattern.readWithin
  | patternElements (depth : Nat) : IsLoop (listedWithin ")" (Pattern.readWithin depth))
  | types : IsLoop TypeExpr.suffixedWithin
  | suffixes (type : TypeExpr) : IsLoop (TypeExpr.readSuffixesWithin type)
  | ownership : IsLoop TypeExpr.skipOwnershipWithin
  | compositionMembers (depth : Nat) : IsLoop (separatedWithin "&" (TypeExpr.suffixedWithin depth))
  | nameParts (depth : Nat) :
      IsLoop (TypeExpr.readNameWithin (TypeExpr.readComposition (TypeExpr.suffixedWithin depth)))
  | genericArguments (depth : Nat) :
      IsLoop (separatedWithin "," (TypeExpr.readComposition (TypeExpr.suffixedWithin depth)))
  | typeElements (depth : Nat) :
      IsLoop (listedWithin ")"
        (TypeExpr.readElement (TypeExpr.readComposition (TypeExpr.suffixedWithin depth))))

theorem Reading.IsLoop.settles {α : Type} {loop : Nat → Reading α} (isLoop : IsLoop loop) :
    Settles loop := by
  cases isLoop with
  | attributes => exact Attribute.settles_readAllWithin
  | members => exact Attribute.settles_readMembersWithin
  | arguments clause =>
    exact settles_separatedWithin (by decide) (Attribute.forward_readArgument clause)
  | modifiers => exact Declaration.settles_readModifiersWithin
  | bindings => exact settles_separatedWithin (by decide) Declaration.forward_readBinding
  | patterns => exact Pattern.settles_readWithin
  | patternElements depth => exact settles_listedWithin (Pattern.forward_readWithin depth)
  | types => exact TypeExpr.settles_suffixedWithin
  | suffixes type => exact TypeExpr.settles_readSuffixesWithin type
  | ownership => exact TypeExpr.settles_skipOwnershipWithin
  | compositionMembers depth =>
    exact settles_separatedWithin (by decide) (TypeExpr.forward_suffixedWithin depth)
  | nameParts depth =>
    exact TypeExpr.settles_readNameWithin
      (TypeExpr.forward_readComposition (TypeExpr.forward_suffixedWithin depth))
  | genericArguments depth =>
    exact settles_separatedWithin (by decide)
      (TypeExpr.forward_readComposition (TypeExpr.forward_suffixedWithin depth))
  | typeElements depth =>
    exact settles_listedWithin (TypeExpr.forward_readElement
      (TypeExpr.forward_readComposition (TypeExpr.forward_suffixedWithin depth)))

end PeerExpansion
