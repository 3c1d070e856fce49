import PeerExpansion.Declaration.Read
import PeerExpansion.Proofs.Reading.Basic

/-! # Readings go forward

Whatever is read, the cursor comes to stand where it stood or further on among the same tokens. Each
reading inherits this from those it is made of, and the lemmas are tagged for `grind`, which opens
the reading and follows its branches.
-/

namespace PeerExpansion

namespace Cursor

/-- `last` stands at the place of `first` or further on. -/
def Leads (first last : Cursor) : Prop :=
  ∃ count, last = first.skip count

theorem Leads.refl (cursor : Cursor) : cursor.Leads cursor :=
  ⟨0, rfl⟩

theorem Leads.skip (cursor : Cursor) (count : Nat) : cursor.Leads (cursor.skip count) :=
  ⟨count, rfl⟩

theorem Leads.trans {first middle last : Cursor} (front : first.Leads middle)
    (back : middle.Leads last) : first.Leads last := by
  obtain ⟨count, rfl⟩ := front
  obtain ⟨others, rfl⟩ := back
  exact ⟨count + others, skip_skip first count others⟩

end Cursor

namespace Reading

variable {α β : Type}

/-- A reading that never goes back. -/
def Forward (reading : Reading α) : Prop :=
  ∀ first value last, Reads reading first value last → first.Leads last

@[grind .]
theorem forward_pure (value : α) : Forward (pure value) := by
  rintro first _ _ read
  obtain ⟨rfl, rfl⟩ := reads_pure.mp read
  exact .refl _

@[grind .]
theorem forward_bind {reading : Reading α} {next : α → Reading β} (front : Forward reading)
    (back : ∀ value, Forward (next value)) : Forward (reading >>= next) := by
  intro first value last read
  obtain ⟨given, middle, frontRead, backRead⟩ := reads_bind.mp read
  exact (front _ _ _ frontRead).trans (back _ _ _ _ backRead)

@[grind .]
theorem forward_get : Forward get := by
  rintro first _ _ read
  obtain ⟨rfl, rfl⟩ := reads_get.mp read
  exact .refl _

@[grind .]
theorem forward_skip (count : Nat) : Forward (skip count) := by
  rintro first _ _ read
  obtain rfl := reads_skip.mp read
  exact .skip _ _

@[grind .]
theorem forward_fail (fault : SyntaxFault) (token : Token) : Forward (fail fault token : Reading α) :=
  fun _ _ _ read => (reads_fail read).elim

@[grind .]
theorem forward_ahead (count : Nat) : Forward (ahead count) :=
  forward_bind forward_get fun _ => forward_pure _

@[grind .]
theorem forward_current : Forward current :=
  forward_ahead 0

@[grind .]
theorem forward_check (text : String) : Forward (check text) :=
  forward_bind forward_current fun _ => forward_pure _

@[grind .]
theorem forward_advance : Forward advance := by
  grind [advance]

@[grind .]
theorem forward_missing (wanted : String) : Forward (missing wanted : Reading α) := by
  grind [missing]

@[grind .]
theorem forward_expect (text : String) : Forward (expect text) := by
  grind [expect]

@[grind .]
theorem forward_expectIdentifier (wanted : String) : Forward (expectIdentifier wanted) := by
  grind [expectIdentifier]

@[grind .]
theorem forward_textSince (token : Token) : Forward (textSince token) :=
  forward_bind forward_get fun _ => forward_pure _

@[grind .]
theorem forward_separatedWithin (separator : String) {item : Reading α} (forward : Forward item)
    (limit : Nat) : Forward (separatedWithin separator item limit) := by
  induction limit with
  | zero => grind [separatedWithin]
  | succ limit inductionHypothesis =>
    grind [separatedWithin]

@[grind .]
theorem forward_separated (separator : String) {item : Reading α} (forward : Forward item) :
    Forward (separated separator item) :=
  forward_bind forward_get fun _ => forward_separatedWithin separator forward _

@[grind .]
theorem forward_listedWithin (close : String) {item : Reading α} (forward : Forward item)
    (limit : Nat) : Forward (listedWithin close item limit) := by
  induction limit with
  | zero => grind [listedWithin]
  | succ limit inductionHypothesis =>
    grind [listedWithin]

@[grind .]
theorem forward_listed (close : String) {item : Reading α} (forward : Forward item) :
    Forward (listed close item) :=
  forward_bind forward_get fun _ => forward_listedWithin close forward _

end Reading

namespace Attribute

open Reading

@[grind .]
theorem forward_readLabel : Forward readLabel := by
  grind [readLabel]

@[grind .]
theorem forward_readArgument (clause : Token) : Forward (readArgument clause) := by
  refine forward_bind forward_current fun first => ?_
  refine forward_bind forward_readLabel fun label => ?_
  refine forward_bind forward_get fun cursor => ?_
  split
  · exact forward_fail _ _
  · grind [forward_bind]

@[grind .]
theorem forward_readArguments : Forward readArguments := by
  grind [readArguments]

@[grind .]
theorem forward_readMembersWithin (limit : Nat) : Forward (readMembersWithin limit) := by
  induction limit with
  | zero => exact forward_pure _
  | succ limit inductionHypothesis =>
    grind [readMembersWithin]

@[grind .]
theorem forward_readMembers : Forward readMembers :=
  forward_bind forward_get fun _ => forward_readMembersWithin _

@[grind .]
theorem forward_read : Forward Attribute.read := by
  grind [Attribute.read]

@[grind .]
theorem forward_readAllWithin (limit : Nat) : Forward (readAllWithin limit) := by
  induction limit with
  | zero => exact forward_pure _
  | succ limit inductionHypothesis =>
    grind [readAllWithin]

@[grind .]
theorem forward_readAll : Forward readAll :=
  forward_bind forward_get fun _ => forward_readAllWithin _

end Attribute

namespace Pattern

open Reading

@[grind .]
theorem forward_readWithin (depth : Nat) : Forward (readWithin depth) := by
  induction depth with
  | zero => exact forward_missing _
  | succ depth inductionHypothesis => grind [readWithin]

@[grind .]
theorem forward_read : Forward Pattern.read := by
  grind [Pattern.read]

end Pattern

namespace TypeExpr

open Reading

@[grind .]
theorem forward_readComposition {suffixed : Reading TypeExpr} (forward : Forward suffixed) :
    Forward (readComposition suffixed) := by
  refine forward_bind (forward_separated "&" forward) fun types => ?_
  split <;> exact forward_pure _

section Parts

variable {type : Reading TypeExpr}

@[grind .]
theorem forward_readGenericArguments (forward : Forward type) :
    Forward (readGenericArguments type) := by
  grind [readGenericArguments]

@[grind .]
theorem forward_readPart (forward : Forward type) : Forward (readPart type) := by
  grind [readPart]

@[grind .]
theorem forward_readNameWithin (forward : Forward type) (limit : Nat) :
    Forward (readNameWithin type limit) := by
  induction limit with
  | zero => grind [readNameWithin]
  | succ limit inductionHypothesis => grind [readNameWithin]

@[grind .]
theorem forward_readSimple (forward : Forward type) : Forward (readSimple type) := by
  grind [readSimple]

@[grind .]
theorem forward_readBracketed (forward : Forward type) : Forward (readBracketed type) := by
  grind [readBracketed]

@[grind .]
theorem forward_readLabel : Forward TypeExpr.readLabel := by
  grind [TypeExpr.readLabel]

@[grind .]
theorem forward_readElement (forward : Forward type) : Forward (readElement type) := by
  grind [readElement]

@[grind .]
theorem forward_readEffects : Forward readEffects := by
  grind [readEffects]

@[grind .]
theorem forward_readParenthesised (forward : Forward type) :
    Forward (readParenthesised type) := by
  refine forward_bind (forward_expect "(") fun _ => ?_
  refine forward_bind (forward_listed ")" (forward_readElement forward)) fun elements => ?_
  refine forward_bind (forward_expect ")") fun _ => ?_
  refine forward_bind forward_readEffects fun effects => ?_
  refine forward_bind (forward_check "->") fun arrow => ?_
  split
  · grind
  · split <;> grind

end Parts

@[grind .]
theorem forward_skipOwnershipWithin (limit : Nat) : Forward (skipOwnershipWithin limit) := by
  induction limit with
  | zero => exact forward_pure _
  | succ limit inductionHypothesis => grind [skipOwnershipWithin]

@[grind .]
theorem forward_skipOwnership : Forward skipOwnership := by
  grind [skipOwnership]

@[grind .]
theorem forward_readPrimary {suffixed : Reading TypeExpr} (forward : Forward suffixed) :
    Forward (readPrimary suffixed) := by
  grind [readPrimary]

@[grind .]
theorem forward_readSuffixesWithin (type : TypeExpr) (limit : Nat) :
    Forward (readSuffixesWithin type limit) := by
  induction limit generalizing type with
  | zero => exact forward_pure _
  | succ limit inductionHypothesis => grind [readSuffixesWithin]

@[grind .]
theorem forward_suffixedWithin (depth : Nat) : Forward (suffixedWithin depth) := by
  induction depth with
  | zero => exact forward_missing _
  | succ depth inductionHypothesis => grind [suffixedWithin]

@[grind .]
theorem forward_read : Forward TypeExpr.read := by
  grind [TypeExpr.read]

end TypeExpr

namespace Declaration

open Reading

@[grind .]
theorem forward_readModifier : Forward readModifier := by
  grind [readModifier]

@[grind .]
theorem forward_readModifiersWithin (limit : Nat) : Forward (readModifiersWithin limit) := by
  induction limit with
  | zero => exact forward_pure _
  | succ limit inductionHypothesis => grind [readModifiersWithin]

@[grind .]
theorem forward_readModifiers : Forward readModifiers := by
  grind [readModifiers]

@[grind .]
theorem forward_readBlock : Forward readBlock := by
  grind [readBlock]

@[grind .]
theorem forward_readInitializer : Forward readInitializer := by
  grind [readInitializer]

@[grind .]
theorem forward_readType? : Forward readType? := by
  grind [readType?]

@[grind .]
theorem forward_readInitializer? : Forward readInitializer? := by
  grind [readInitializer?]

@[grind .]
theorem forward_readAccessors? : Forward readAccessors? := by
  grind [readAccessors?]

@[grind .]
theorem forward_readBinding : Forward readBinding := by
  grind [readBinding]

@[grind .]
theorem forward_readBody (keyword : Token) : Forward (readBody keyword) := by
  grind [readBody]

@[grind .]
theorem forward_readKeyword : Forward readKeyword := by
  grind [readKeyword]

@[grind .]
theorem forward_read : Forward Declaration.read := by
  refine forward_bind forward_current fun first => ?_
  refine forward_bind Attribute.forward_readAll fun attributes => ?_
  refine forward_bind forward_readModifiers fun modifiers => ?_
  refine forward_bind forward_readKeyword fun (keyword, kind) => ?_
  grind

end Declaration

end PeerExpansion
