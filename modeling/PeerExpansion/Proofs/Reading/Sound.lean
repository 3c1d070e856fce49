import PeerExpansion.Declaration.Read
import PeerExpansion.Proofs.Reading.Basic

/-! # What readings complain about

A reading comes upon no tokens but those of its source, and what it complains about stands where one
of them does. Each reading inherits this from those it is made of. Most answer nothing that a
complaint could be about, and their lemmas are tagged for `grind`; `Sound` keeps track of the tokens
that the others answer.
-/

namespace PeerExpansion

/-- The tokens around a cursor are all known. -/
structure Cursor.Among (known : Token → Prop) (cursor : Cursor) : Prop where
  before : ∀ token ∈ cursor.before, known token
  behind : ∀ token ∈ cursor.behind, known token
  ending : known cursor.ending

namespace Cursor.Among

variable {known : Token → Prop} {cursor : Cursor} (among : cursor.Among known)
include among

theorem ahead (count : Nat) : known (cursor.ahead count) := by
  rw [Cursor.ahead]
  cases found : cursor.behind[count]? with
  | none => exact among.ending
  | some token => exact among.behind token (List.mem_of_getElem? found)

theorem skip (count : Nat) : (cursor.skip count).Among known where
  before token member := by
    obtain passed | old := List.mem_append.mp member
    · exact among.behind token (List.mem_of_mem_take (List.mem_reverse.mp passed))
    · exact among.before token old
  behind token member := among.behind token (List.mem_of_mem_drop member)
  ending := among.ending

end Cursor.Among

theorem among_ofStream {known : Token → Prop} {stream : TokenStream}
    (all : ∀ token ∈ stream.toList, known token) (index : Nat) :
    (Cursor.ofStream stream index).Among known where
  before token member :=
    all token (List.mem_append_left _ (List.mem_of_mem_take (List.mem_reverse.mp member)))
  behind token member := all token (List.mem_append_left _ (List.mem_of_mem_drop member))
  ending := all _ (List.mem_append_right _ (List.mem_singleton_self _))

namespace Reading

variable {α β : Type} {known : Token → Prop}

/-- The error is about the place of a known token. -/
def Concerns (known : Token → Prop) (error : SyntaxError) : Prop :=
  ∃ token, known token ∧ error.position = token.position

/-- Among known tokens `reading` stays among them and answers what fits, or it complains about one
of them. -/
def Sound (known : Token → Prop) (reading : Reading α) (Fits : α → Prop) : Prop :=
  ∀ cursor : Cursor, cursor.Among known →
    match reading.run cursor with
    | .ok (value, last) => last.Among known ∧ Fits value
    | .error error => Concerns known error

/-- The same of a reading that may answer anything. -/
abbrev Safe (known : Token → Prop) (reading : Reading α) : Prop :=
  Sound known reading fun _ => True

theorem Sound.mono {reading : Reading α} {Fits Weaker : α → Prop}
    (sound : Sound known reading Fits) (weakens : ∀ value, Fits value → Weaker value) :
    Sound known reading Weaker := by
  intro cursor among
  have after := sound cursor among
  split at after
  next => exact ⟨after.1, weakens _ after.2⟩
  next => exact after

theorem Sound.safe {reading : Reading α} {Fits : α → Prop} (sound : Sound known reading Fits) :
    Safe known reading :=
  sound.mono fun _ _ => trivial

theorem Sound.reads {reading : Reading α} {Fits : α → Prop} (sound : Sound known reading Fits)
    {cursor last : Cursor} {value : α} (among : cursor.Among known)
    (read : Reads reading cursor value last) : last.Among known ∧ Fits value := by
  have after := sound cursor among
  rw [read] at after
  exact after

/-- What is known of all answers of a reading besides. -/
theorem Safe.sound {reading : Reading α} {Fits : α → Prop} (safe : Safe known reading)
    (fits : ∀ {cursor value last}, cursor.Among known → Reads reading cursor value last →
      Fits value) : Sound known reading Fits := by
  intro cursor among
  have after := safe cursor among
  cases ran : reading.run cursor with
  | error error =>
    rw [ran] at after
    exact after
  | ok result =>
    rw [ran] at after
    exact ⟨after.1, fits among ran⟩

theorem sound_pure {value : α} {Fits : α → Prop} (fits : Fits value) :
    Sound known (pure value) Fits :=
  fun _ among => ⟨among, fits⟩

theorem sound_bind {reading : Reading α} {next : α → Reading β} {Given : α → Prop}
    {Fits : β → Prop} (front : Sound known reading Given)
    (back : ∀ value, Given value → Sound known (next value) Fits) :
    Sound known (reading >>= next) Fits := by
  intro cursor among
  have after := front cursor among
  rw [StateT.run_bind]
  cases ran : reading.run cursor with
  | error error =>
    rw [ran] at after
    exact after
  | ok result =>
    rw [ran] at after
    exact back _ after.2 _ after.1

theorem safe_bind_sound {reading : Reading α} {next : α → Reading β} {Fits : β → Prop}
    (front : Safe known reading) (back : ∀ value, Sound known (next value) Fits) :
    Sound known (reading >>= next) Fits :=
  sound_bind front fun value _ => back value

theorem sound_get : Sound known get (Cursor.Among known) :=
  fun _ among => ⟨among, among⟩

theorem sound_ahead (count : Nat) : Sound known (ahead count) known :=
  sound_bind sound_get fun _ among => sound_pure (among.ahead count)

theorem sound_current : Sound known current known :=
  sound_ahead 0

@[grind .]
theorem safe_pure (value : α) : Safe known (pure value) :=
  sound_pure trivial

@[grind .]
theorem safe_bind {reading : Reading α} {next : α → Reading β} (front : Safe known reading)
    (back : ∀ value, Safe known (next value)) : Safe known (reading >>= next) :=
  sound_bind front fun value _ => back value

@[grind .]
theorem safe_get : Safe known get :=
  sound_get.safe

@[grind .]
theorem safe_skip (count : Nat) : Safe known (skip count) :=
  fun _ among => ⟨among.skip count, trivial⟩

theorem sound_fail (fault : SyntaxFault) {token : Token} (held : known token)
    (Fits : α → Prop) : Sound known (fail fault token) Fits :=
  fun _ _ => ⟨token, held, rfl⟩

@[grind .]
theorem safe_ahead (count : Nat) : Safe known (ahead count) :=
  (sound_ahead count).safe

@[grind .]
theorem safe_current : Safe known current :=
  safe_ahead 0

@[grind .]
theorem safe_check (text : String) : Safe known (check text) :=
  safe_bind safe_current fun _ => safe_pure _

theorem sound_advance : Sound known advance known :=
  sound_bind sound_current fun _ held => sound_bind (safe_skip 1) fun _ _ => sound_pure held

@[grind .]
theorem safe_advance : Safe known advance :=
  sound_advance.safe

theorem sound_missing (wanted : String) (Fits : α → Prop) :
    Sound known (missing wanted) Fits :=
  sound_bind sound_current fun _ held => sound_fail _ held Fits

@[grind .]
theorem safe_missing (wanted : String) : Safe known (missing wanted : Reading α) :=
  sound_missing wanted _

theorem sound_expect (text : String) : Sound known (expect text) known := by
  refine sound_bind (safe_check text) fun found _ => ?_
  split
  · exact sound_advance
  · exact sound_missing _ _

@[grind .]
theorem safe_expect (text : String) : Safe known (expect text) :=
  (sound_expect text).safe

@[grind .]
theorem safe_expectIdentifier (wanted : String) : Safe known (expectIdentifier wanted) := by
  grind [expectIdentifier]

@[grind .]
theorem safe_textSince (token : Token) : Safe known (textSince token) :=
  safe_bind safe_get fun _ => safe_pure _

section Lists

variable {item : Reading α} {Fits : α → Prop}

theorem sound_separatedWithin (separator : String) (sound : Sound known item Fits) (limit : Nat) :
    Sound known (separatedWithin separator item limit)
      fun items => items ≠ [] ∧ ∀ value ∈ items, Fits value := by
  have single (value : α) (fits : Fits value) :
      [value] ≠ [] ∧ ∀ other ∈ [value], Fits other := by
    simp [fits]
  induction limit with
  | zero => exact sound_bind sound fun value fits => sound_pure (single value fits)
  | succ limit inductionHypothesis =>
    refine sound_bind sound fun value fits => safe_bind_sound (safe_check separator) fun found => ?_
    split
    · refine safe_bind_sound safe_advance fun _ => ?_
      refine sound_bind inductionHypothesis fun others later => sound_pure ?_
      exact ⟨List.cons_ne_nil value others, List.forall_mem_cons.mpr ⟨fits, later.2⟩⟩
    · exact sound_pure (single value fits)

theorem sound_separated (separator : String) (sound : Sound known item Fits) :
    Sound known (separated separator item)
      fun items => items ≠ [] ∧ ∀ value ∈ items, Fits value :=
  safe_bind_sound safe_get fun _ => sound_separatedWithin separator sound _

theorem sound_listedWithin (close : String) (sound : Sound known item Fits) (limit : Nat) :
    Sound known (listedWithin close item limit) fun items => ∀ value ∈ items, Fits value := by
  have none : ∀ value ∈ ([] : List α), Fits value := by simp
  induction limit with
  | zero =>
    refine safe_bind_sound (safe_check close) fun closed => ?_
    split
    · exact sound_pure none
    · exact sound_bind sound fun value fits => sound_pure (List.forall_mem_singleton.mpr fits)
  | succ limit inductionHypothesis =>
    refine safe_bind_sound (safe_check close) fun closed => ?_
    split
    · exact sound_pure none
    · refine sound_bind sound fun value fits => safe_bind_sound (safe_check ",") fun found => ?_
      split
      · refine safe_bind_sound safe_advance fun _ => ?_
        refine sound_bind inductionHypothesis fun others later => sound_pure ?_
        exact List.forall_mem_cons.mpr ⟨fits, later⟩
      · exact sound_pure (List.forall_mem_singleton.mpr fits)

theorem sound_listed (close : String) (sound : Sound known item Fits) :
    Sound known (listed close item) fun items => ∀ value ∈ items, Fits value :=
  safe_bind_sound safe_get fun _ => sound_listedWithin close sound _

@[grind .]
theorem safe_separated (separator : String) (safe : Safe known item) :
    Safe known (separated separator item) :=
  (sound_separated separator safe).safe

@[grind .]
theorem safe_listed (close : String) (safe : Safe known item) :
    Safe known (listed close item) :=
  (sound_listed close safe).safe

end Lists

end Reading

open Reading

variable {known : Token → Prop}

namespace Attribute

@[grind .]
theorem safe_readLabel : Safe known readLabel := by
  grind [readLabel]

@[grind .]
theorem safe_readArgument {clause : Token} (held : known clause) :
    Safe known (readArgument clause) := by
  refine safe_bind safe_current fun first => ?_
  refine safe_bind safe_readLabel fun label => ?_
  refine safe_bind safe_get fun cursor => ?_
  split
  · exact sound_fail _ held _
  · grind

@[grind .]
theorem safe_readArguments : Safe known readArguments := by
  refine sound_bind (sound_expect "(") fun clause held => ?_
  grind

@[grind .]
theorem safe_readMembersWithin (limit : Nat) : Safe known (readMembersWithin limit) := by
  induction limit with
  | zero => exact safe_pure _
  | succ limit inductionHypothesis => grind [readMembersWithin]

@[grind .]
theorem safe_readMembers : Safe known readMembers :=
  safe_bind safe_get fun _ => safe_readMembersWithin _

@[grind .]
theorem safe_read : Safe known Attribute.read := by
  grind [Attribute.read]

@[grind .]
theorem safe_readAllWithin (limit : Nat) : Safe known (readAllWithin limit) := by
  induction limit with
  | zero => exact safe_pure _
  | succ limit inductionHypothesis => grind [readAllWithin]

@[grind .]
theorem safe_readAll : Safe known readAll :=
  safe_bind safe_get fun _ => safe_readAllWithin _

end Attribute

namespace Pattern

@[grind .]
theorem safe_readWithin (depth : Nat) : Safe known (readWithin depth) := by
  induction depth with
  | zero => exact safe_missing _
  | succ depth inductionHypothesis => grind [readWithin]

@[grind .]
theorem safe_read : Safe known Pattern.read := by
  grind [Pattern.read]

end Pattern

namespace TypeExpr

@[grind .]
theorem safe_readComposition {suffixed : Reading TypeExpr} (safe : Safe known suffixed) :
    Safe known (readComposition suffixed) := by
  refine safe_bind (safe_separated "&" safe) fun types => ?_
  split <;> exact safe_pure _

section Parts

variable {type : Reading TypeExpr}

@[grind .]
theorem safe_readGenericArguments (safe : Safe known type) :
    Safe known (readGenericArguments type) := by
  grind [readGenericArguments]

@[grind .]
theorem safe_readPart (safe : Safe known type) : Safe known (readPart type) := by
  grind [readPart]

@[grind .]
theorem safe_readNameWithin (safe : Safe known type) (limit : Nat) :
    Safe known (readNameWithin type limit) := by
  induction limit with
  | zero => grind [readNameWithin]
  | succ limit inductionHypothesis => grind [readNameWithin]

@[grind .]
theorem safe_readSimple (safe : Safe known type) : Safe known (readSimple type) := by
  grind [readSimple]

@[grind .]
theorem safe_readBracketed (safe : Safe known type) : Safe known (readBracketed type) := by
  grind [readBracketed]

@[grind .]
theorem safe_readLabel : Safe known TypeExpr.readLabel := by
  grind [TypeExpr.readLabel]

@[grind .]
theorem safe_readElement (safe : Safe known type) : Safe known (readElement type) := by
  grind [readElement]

@[grind .]
theorem safe_readEffects : Safe known readEffects := by
  grind [readEffects]

@[grind .]
theorem safe_readParenthesised (safe : Safe known type) :
    Safe known (readParenthesised type) := by
  refine safe_bind (safe_expect "(") fun _ => ?_
  refine safe_bind (safe_listed ")" (safe_readElement safe)) fun elements => ?_
  refine safe_bind (safe_expect ")") fun _ => ?_
  refine safe_bind safe_readEffects fun effects => ?_
  refine safe_bind (safe_check "->") fun arrow => ?_
  split
  · grind
  · -- Effects without an arrow are complained about at the token behind them.
    have complains (given : TypeExpr) : Safe known do
        fail .missingArrow (← current)
        return given :=
      sound_bind sound_current fun _ held =>
        safe_bind (sound_fail _ held _) fun _ => safe_pure given
    split
    · split
      · exact complains _
      · exact safe_pure _
    · split
      · exact complains _
      · exact safe_pure _

end Parts

@[grind .]
theorem safe_skipOwnershipWithin (limit : Nat) : Safe known (skipOwnershipWithin limit) := by
  induction limit with
  | zero => exact safe_pure _
  | succ limit inductionHypothesis => grind [skipOwnershipWithin]

@[grind .]
theorem safe_skipOwnership : Safe known skipOwnership := by
  grind [skipOwnership]

@[grind .]
theorem safe_readPrimary {suffixed : Reading TypeExpr} (safe : Safe known suffixed) :
    Safe known (readPrimary suffixed) := by
  grind [readPrimary]

@[grind .]
theorem safe_readSuffixesWithin (type : TypeExpr) (limit : Nat) :
    Safe known (readSuffixesWithin type limit) := by
  induction limit generalizing type with
  | zero => exact safe_pure _
  | succ limit inductionHypothesis => grind [readSuffixesWithin]

@[grind .]
theorem safe_suffixedWithin (depth : Nat) : Safe known (suffixedWithin depth) := by
  induction depth with
  | zero => exact safe_missing _
  | succ depth inductionHypothesis => grind [suffixedWithin]

@[grind .]
theorem safe_read : Safe known TypeExpr.read := by
  grind [TypeExpr.read]

end TypeExpr

namespace Declaration

@[grind .]
theorem safe_readModifier : Safe known readModifier := by
  grind [readModifier]

@[grind .]
theorem safe_readModifiersWithin (limit : Nat) : Safe known (readModifiersWithin limit) := by
  induction limit with
  | zero => exact safe_pure _
  | succ limit inductionHypothesis => grind [readModifiersWithin]

@[grind .]
theorem safe_readModifiers : Safe known readModifiers := by
  grind [readModifiers]

@[grind .]
theorem safe_readBlock : Safe known readBlock := by
  refine sound_bind (sound_expect Token.openBrace) fun brace held => ?_
  refine safe_bind safe_get fun cursor => ?_
  split
  · exact sound_fail _ held _
  · grind

@[grind .]
theorem safe_readInitializer : Safe known readInitializer := by
  refine sound_bind sound_current fun first held => ?_
  split
  · refine safe_bind (sound_fail _ held _) fun _ => ?_
    grind
  · grind

@[grind .]
theorem safe_readType? : Safe known readType? := by
  grind [readType?]

@[grind .]
theorem safe_readInitializer? : Safe known readInitializer? := by
  grind [readInitializer?]

@[grind .]
theorem safe_readAccessors? : Safe known readAccessors? := by
  grind [readAccessors?]

@[grind .]
theorem safe_readBinding : Safe known readBinding := by
  grind [readBinding]

@[grind .]
theorem safe_readBody (keyword : Token) : Safe known (readBody keyword) := by
  grind [readBody]

@[grind .]
theorem safe_readKeyword : Safe known readKeyword := by
  grind [readKeyword]

/-- A declaration has the position of its first token. -/
theorem sound_read : Sound known Declaration.read
    fun declaration => ∃ token, known token ∧ declaration.position = token.position := by
  refine sound_bind sound_current fun first held => ?_
  refine sound_bind Attribute.safe_readAll fun attributes _ => ?_
  refine sound_bind safe_readModifiers fun modifiers _ => ?_
  refine sound_bind safe_readKeyword fun (keyword, kind) _ => ?_
  by_cases property : kind = .property
  · simp only [property, reduceIte]
    refine sound_bind (safe_separated "," safe_readBinding) fun bindings _ => ?_
    refine sound_bind (safe_pure none) fun name _ => sound_bind safe_get fun cursor _ => ?_
    exact sound_bind (safe_textSince first) fun text _ => sound_pure ⟨first, held, rfl⟩
  · simp only [property, reduceIte]
    refine sound_bind (safe_pure []) fun bindings _ => ?_
    refine sound_bind (safe_readBody keyword) fun name _ => sound_bind safe_get fun cursor _ => ?_
    exact sound_bind (safe_textSince first) fun text _ => sound_pure ⟨first, held, rfl⟩

end Declaration

end PeerExpansion
