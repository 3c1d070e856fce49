import PeerExpansion.Proofs.Reading.Sound
import PeerExpansion.Proofs.TypeExpr.Formed

/-! # The types that are read

Each reader of types makes a formed type of those that the reader for the types inside answers, so
a type that is read from any source is formed, though it need not be clear.
-/

namespace PeerExpansion

/-- A token that is called an identifier is one. -/
def Token.Named (token : Token) : Prop :=
  token.kind = .identifier → IsIdentifier token.text

theorem Token.Named.isIdentifier_text {token : Token} (named : token.Named)
    (identifier : token.isIdentifier = true) : IsIdentifier token.text :=
  named (by simpa [Token.isIdentifier] using identifier)

theorem TokenStream.named_of_scan {source : List Char} {stream : TokenStream}
    (scanned : scan source = .ok stream) {token : Token} (member : token ∈ stream.toList) :
    token.Named := by
  intro kind_eq
  obtain inside | last := List.mem_append.mp member
  · exact isIdentifier_of_scan scanned token inside kind_eq
  · obtain rfl := List.mem_singleton.mp last
    rw [(ordered_of_scan scanned).2.ending_kind] at kind_eq
    cases kind_eq

namespace TypeExpr

open Reading

/-- A reader of types that answers formed ones only. -/
abbrev Forms (reading : Reading TypeExpr) : Prop :=
  Sound Token.Named reading (Formed .loose)

section Names

variable {type : Reading TypeExpr} (forms : Forms type) {cursor last : Cursor}
include forms

theorem sound_readGenericArguments : Sound Token.Named (readGenericArguments type)
    fun arguments => ∀ argument ∈ arguments, Formed .loose argument := by
  refine safe_bind_sound (safe_check "<") fun found => ?_
  split
  · refine safe_bind_sound (safe_skip 1) fun _ => ?_
    refine sound_bind (sound_separated "," forms) fun arguments formed => ?_
    exact safe_bind_sound (safe_expect ">") fun _ => sound_pure formed.2
  · exact sound_pure (by simp)

/-- A part that is read at a cursor. -/
structure NamePart.IsReadAt (part : NamePart) (cursor : Cursor) : Prop where
  name_eq : part.name = cursor.current.text
  identifier : IsIdentifier part.name
  arguments : ∀ argument ∈ part.arguments, Formed .loose argument

theorem exists_part_of_reads {text : String} {arguments : List TypeExpr}
    (among : cursor.Among Token.Named)
    (read : Reads (readPart type) cursor (text, arguments) last) :
    ∃ part : NamePart, part.IsReadAt cursor ∧ text = part.text ∧ arguments = part.arguments := by
  simp only [readPart, reads_bind, reads_expectIdentifier, reads_pure] at read
  obtain ⟨name, middle, ⟨identifier, rfl, rfl⟩, found, after, readArguments, pair, rfl⟩ := read
  cases pair
  have fits := ((sound_readGenericArguments forms).reads (among.skip 1) readArguments).2
  exact ⟨⟨cursor.current.text, arguments⟩,
    ⟨rfl, (among.ahead 0).isIdentifier_text identifier, fits⟩, rfl, rfl⟩

theorem exists_parts_of_reads {limit : Nat} {texts : List String} {arguments : List TypeExpr}
    (among : cursor.Among Token.Named)
    (read : Reads (readNameWithin type limit) cursor (texts, arguments) last) :
    ∃ (first : NamePart) (others : List NamePart), first.IsReadAt cursor ∧
      texts = (first :: others).map NamePart.text ∧ arguments = lastArguments first others ∧
      ∀ part ∈ others, part.name ∉ metatypes ∧ ∃ place, part.IsReadAt place := by
  induction limit generalizing cursor texts with
  | zero =>
    simp only [readNameWithin, reads_bind, reads_pure, Prod.exists] at read
    obtain ⟨text, found, middle, readFirst, pair, rfl⟩ := read
    cases pair
    obtain ⟨part, isRead, rfl, rfl⟩ := exists_part_of_reads forms among readFirst
    exact ⟨part, [], isRead, rfl, rfl, by simp⟩
  | succ limit inductionHypothesis =>
    simp only [readNameWithin, reads_bind, reads_ahead, reads_check, reads_ite, reads_skip,
      reads_pure, Prod.exists] at read
    obtain ⟨text, found, middle, readFirst, _, _, ⟨rfl, rfl⟩, _, _, ⟨rfl, rfl⟩, goesOn⟩ := read
    obtain ⟨part, isRead, rfl, rfl⟩ := exists_part_of_reads forms among readFirst
    have between := ((safe_readPart forms.safe).reads among readFirst).1
    obtain ⟨point, _, _, rfl, others, arguments, _, readLater, pair, rfl⟩ | ⟨-, pair, rfl⟩ := goesOn
    · cases pair
      obtain ⟨next, more, nextRead, rfl, rfl, later⟩ :=
        inductionHypothesis (between.skip 1) readLater
      refine ⟨part, next :: more, isRead, rfl, (lastArguments_cons part next more).symm, ?_⟩
      refine List.forall_mem_cons.mpr ⟨⟨?_, _, nextRead⟩, later⟩
      -- The point is passed only where no metatype is behind it.
      rw [nextRead.name_eq, Cursor.current, Cursor.ahead_skip]
      simp only [Bool.and_eq_true, Bool.not_eq_true', Token.isOneOf, List.contains_eq_mem,
        decide_eq_false_iff_not] at point
      exact point.2
    · cases pair
      exact ⟨part, [], isRead, rfl, rfl, by simp⟩

theorem forms_readSimple : Forms (readSimple type) := by
  refine (safe_readSimple forms.safe).sound fun among read => ?_
  simp only [readSimple, reads_bind, reads_get, reads_pure, Prod.exists] at read
  obtain ⟨_, _, ⟨rfl, rfl⟩, texts, arguments, _, readParts, rfl, rfl⟩ := read
  obtain ⟨first, others, isRead, rfl, rfl, later⟩ := exists_parts_of_reads forms among readParts
  have each : ∀ part ∈ first :: others, ∃ place, part.IsReadAt place :=
    List.forall_mem_cons.mpr ⟨⟨_, isRead⟩, fun part member => (later part member).2⟩
  refine .dotted trivial (fun part member => (later part member).1) ?_ ?_
  · intro part member
    obtain ⟨place, found⟩ := each part member
    exact found.identifier
  · intro part member
    obtain ⟨place, found⟩ := each part member
    exact found.arguments

end Names

section Groups

variable {type suffixed : Reading TypeExpr}

theorem forms_readComposition (forms : Forms suffixed) : Forms (readComposition suffixed) := by
  refine sound_bind (sound_separated "&" forms) fun members fits => ?_
  obtain ⟨filled, formed⟩ := fits
  match members, filled with
  | [only], _ => exact sound_pure (formed only (List.mem_singleton_self only))
  | first :: second :: others, _ =>
    exact sound_pure (.composition (by simp) (fun _ _ => trivial) formed)

theorem forms_readBracketed (forms : Forms type) : Forms (readBracketed type) := by
  refine safe_bind_sound (safe_expect "[") fun _ => sound_bind forms fun element formed => ?_
  refine safe_bind_sound (safe_check ":") fun colon => ?_
  split
  · refine safe_bind_sound (safe_skip 1) fun _ => sound_bind forms fun value valueFormed => ?_
    exact safe_bind_sound (safe_expect "]") fun _ => sound_pure (.dictionary formed valueFormed)
  · exact safe_bind_sound (safe_expect "]") fun _ => sound_pure (.array formed)

theorem sound_readLabel :
    Sound Token.Named TypeExpr.readLabel fun label => ∀ name ∈ label, IsIdentifier name := by
  refine sound_bind sound_current fun first firstNamed => ?_
  refine sound_bind (sound_ahead 1) fun second secondNamed => ?_
  refine sound_bind (sound_ahead 2) fun third _ => ?_
  split
  next found =>
    have identifier := firstNamed.isIdentifier_text (Bool.and_eq_true_iff.mp found).1
    exact safe_bind_sound (safe_skip 2) fun _ => sound_pure (by simpa using identifier)
  next =>
    split
    next found =>
      simp only [Bool.and_eq_true] at found
      have identifier := secondNamed.isIdentifier_text found.1.2
      exact safe_bind_sound (safe_skip 3) fun _ => sound_pure (by simpa using identifier)
    next => exact sound_pure (by simp)

theorem sound_readElement (forms : Forms type) : Sound Token.Named (readElement type)
    fun element => (∀ name ∈ element.1, IsIdentifier name) ∧ Formed .loose element.2 :=
  sound_bind sound_readLabel fun _ identifier => sound_bind forms fun _ formed =>
    sound_pure ⟨identifier, formed⟩

theorem sound_readEffects :
    Sound Token.Named readEffects fun effects => ∀ effect ∈ effects, effect ∈ effectWords := by
  refine safe_bind_sound safe_get fun cursor => safe_bind_sound (safe_skip _) fun _ => sound_pure ?_
  intro effect member
  obtain ⟨token, inside, rfl⟩ := List.mem_map.mp member
  exact List.contains_iff_mem.mp (List.all_eq_true.mp List.all_takeWhile token inside)

theorem forms_readParenthesised (forms : Forms type) : Forms (readParenthesised type) := by
  refine safe_bind_sound (safe_expect "(") fun _ => ?_
  refine sound_bind (sound_listed ")" (sound_readElement forms)) fun elements fits => ?_
  refine safe_bind_sound (safe_expect ")") fun _ => ?_
  refine sound_bind sound_readEffects fun effects known => ?_
  refine safe_bind_sound (safe_check "->") fun arrow => ?_
  have labels : LabelsFit elements := fun element member => (fits element member).1
  have formed : ∀ element ∈ elements, Formed .loose element.2 :=
    fun element member => (fits element member).2
  split
  · refine safe_bind_sound (safe_skip 1) fun _ => sound_bind forms fun result resultFormed => ?_
    exact sound_pure (.function labels known formed resultFormed)
  · -- Effects without an arrow are complained about, so what comes then does not matter.
    have complains {next : Unit → Reading TypeExpr} :
        Forms (current >>= fun token => fail .missingArrow token >>= next) :=
      sound_bind sound_current fun _ held =>
        sound_bind (sound_fail _ held fun _ => False) fun _ impossible => impossible.elim
    split
    next element =>
      split
      · exact complains
      · exact sound_pure (formed _ (List.mem_singleton_self _))
    next several =>
      split
      · exact complains
      · exact sound_pure (.tuple labels (fun only same => several only same) formed)

end Groups

theorem forms_readPrimary {suffixed : Reading TypeExpr} (forms : Forms suffixed) :
    Forms (readPrimary suffixed) := by
  have whole := forms_readComposition forms
  refine safe_bind_sound safe_skipOwnership fun _ => ?_
  refine safe_bind_sound safe_current fun first => safe_bind_sound (safe_ahead 1) fun next => ?_
  split
  next found =>
    have known : first.text ∈ constraintWords :=
      List.contains_iff_mem.mp (Bool.and_eq_true_iff.mp found).1
    refine safe_bind_sound (safe_skip 1) fun _ => sound_bind forms fun constraint formed => ?_
    exact sound_pure (.constrained known trivial formed)
  next =>
    split
    · exact forms_readParenthesised whole
    split
    · exact forms_readBracketed whole
    split
    · exact forms_readSimple whole
    · exact sound_missing _ _

theorem forms_readSuffixesWithin {type : TypeExpr} (formed : Formed .loose type) (limit : Nat) :
    Forms (readSuffixesWithin type limit) := by
  induction limit generalizing type with
  | zero => exact sound_pure formed
  | succ limit inductionHypothesis =>
    refine safe_bind_sound (safe_ahead 1) fun member => safe_bind_sound (safe_check "?") fun _ => ?_
    split
    · exact safe_bind_sound (safe_skip 1) fun _ => inductionHypothesis (.optional formed)
    refine safe_bind_sound (safe_check "!") fun _ => ?_
    split
    · exact safe_bind_sound (safe_skip 1) fun _ => inductionHypothesis (.implicitlyUnwrapped formed)
    refine safe_bind_sound (safe_check ".") fun _ => ?_
    split
    next found =>
      have known : member.text ∈ metatypes :=
        List.contains_iff_mem.mp (Bool.and_eq_true_iff.mp found).2
      exact safe_bind_sound (safe_skip 2) fun _ =>
        inductionHypothesis (.metatype known trivial formed)
    next => exact sound_pure formed

theorem forms_suffixedWithin (depth : Nat) : Forms (suffixedWithin depth) := by
  induction depth with
  | zero => exact sound_missing _ _
  | succ depth inductionHypothesis =>
    refine sound_bind (forms_readPrimary inductionHypothesis) fun type formed => ?_
    exact safe_bind_sound safe_get fun _ => forms_readSuffixesWithin formed _

theorem forms_read : Forms TypeExpr.read :=
  safe_bind_sound safe_get fun _ => forms_readComposition (forms_suffixedWithin _)

end TypeExpr

end PeerExpansion
