import Mathlib.Data.List.TakeDrop
import Mathlib.Data.List.TakeWhile
import PeerExpansion.Console.Markup
import PeerExpansion.Proofs.Outcome

/-! # Text between tags

A message is put together of tags and of texts that come from elsewhere. Such a text can bring tags
of its own and end in backslashes, but only a bracket with a slash behind it can close a tag. So a
message that closes just what it has opened itself is shown as long as no text in it has that.
-/

namespace PeerExpansion.Markup

variable {opened : List String} {slashes limit other : Nat}
  {text content behind rest name : List Char} {character : Char}

/-! ## Tags -/

theorem tagAt_eq_some_iff :
    tagAt text = some (content, behind) ↔ ∃ first inner, content = first :: inner ∧
      text = '[' :: first :: (inner ++ ']' :: behind) ∧ isTagStart first = true ∧
        ∀ character ∈ inner, character ≠ '[' ∧ character ≠ ']' := by
  constructor
  · intro tag
    unfold tagAt at tag
    split at tag
    next first rest =>
      rw [List.span_eq_takeWhile_dropWhile] at tag
      split at tag
      next inner after same =>
        obtain ⟨inner_eq, after_eq⟩ := Prod.mk.inj same
        split at tag
        next starts =>
          obtain ⟨rfl, rfl⟩ := Prod.mk.inj (Option.some.inj tag)
          refine ⟨first, inner, rfl, ?_, starts, fun character member => ?_⟩
          · rw [← inner_eq, ← after_eq, List.takeWhile_append_dropWhile]
          · rw [← inner_eq] at member
            simpa using List.mem_takeWhile_imp member
        next => cases tag
      next => cases tag
    next => cases tag
  · rintro ⟨first, inner, rfl, rfl, starts, plain⟩
    have kept : ∀ character ∈ inner, (character != '[' && character != ']') = true := by
      simpa using plain
    rw [tagAt, List.span_eq_takeWhile_dropWhile, List.takeWhile_append_of_pos kept,
      List.dropWhile_append_of_pos kept]
    simp [starts]

theorem ne_of_isTagStart (starts : isTagStart character = true) :
    character ≠ '[' ∧ character ≠ ']' ∧ character ≠ '=' := by
  refine ⟨?_, ?_, ?_⟩ <;> rintro rfl <;> exact absurd starts (by decide)

theorem length_behind_lt (tag : tagAt text = some (content, behind)) :
    behind.length < text.length := by
  obtain ⟨first, inner, -, rfl, -, -⟩ := tagAt_eq_some_iff.mp tag
  simp
  omega

theorem tagAt_eq_none (other : character ≠ '[') : tagAt (character :: rest) = none := by
  cases tag : tagAt (character :: rest) with
  | none => rfl
  | some found =>
    obtain ⟨_, _, -, same, -⟩ := tagAt_eq_some_iff.mp tag
    exact absurd (List.cons.inj same).1 other

/-- A tag without a slash at its front opens. -/
theorem exists_ofTag_eq_opening {first : Char} {inner : List Char}
    (starts : isTagStart first = true) (other : first ≠ '/') :
    ∃ name, ofTag (first :: inner) = .opening name := by
  have kept : (first != '=') = true := by simp [(ne_of_isTagStart starts).2.2]
  unfold ofTag
  rw [List.takeWhile_cons, if_pos kept]
  split
  next same => exact absurd (List.cons.inj same).1 other
  next => exact ⟨_, rfl⟩

/-! ## Reading on -/

theorem piecesWithin_of_tag (tag : tagAt text = some (content, behind)) :
    piecesWithin (limit + 1) slashes text =
      .text (List.replicate (slashes / 2) '\\') ::
        (if slashes % 2 = 1 then .text ('[' :: content ++ [']']) else ofTag content) ::
          piecesWithin limit 0 behind := by
  rw [piecesWithin.eq_def]
  dsimp only
  rw [tag]

theorem piecesWithin_slash :
    piecesWithin (limit + 1) slashes ('\\' :: rest) = piecesWithin limit (slashes + 1) rest := by
  rw [piecesWithin.eq_def]
  dsimp only
  rw [tagAt_eq_none (by decide)]
  rfl

theorem piecesWithin_bracket (noTag : tagAt ('[' :: rest) = none) :
    piecesWithin (limit + 1) slashes ('[' :: rest) =
      .text (List.replicate (slashes - 1) '\\') :: .text ['['] :: piecesWithin limit 0 rest := by
  rw [piecesWithin.eq_def]
  dsimp only
  rw [noTag]
  rfl

theorem piecesWithin_plain (noBracket : character ≠ '[') (noSlash : character ≠ '\\') :
    piecesWithin (limit + 1) slashes (character :: rest) =
      .text (List.replicate slashes '\\') :: .text [character] ::
        piecesWithin limit 0 rest := by
  rw [piecesWithin.eq_def]
  dsimp only
  rw [tagAt_eq_none noBracket]
  dsimp only
  split
  next empty => cases empty
  next same => exact absurd (List.cons.inj same).1 noSlash
  next same => exact absurd (List.cons.inj same).1 noBracket
  next same =>
    obtain ⟨rfl, rfl⟩ := List.cons.inj same
    rfl

/-- It does not matter how many steps there are beyond those that are needed. -/
theorem piecesWithin_eq (enough : text.length < limit) (otherEnough : text.length < other) :
    piecesWithin limit slashes text = piecesWithin other slashes text := by
  induction limit generalizing other slashes text with
  | zero => omega
  | succ limit inductionHypothesis =>
    obtain ⟨other, rfl⟩ : ∃ less, other = less + 1 := Nat.exists_eq_succ_of_ne_zero (by omega)
    -- Every step takes at least a character, so neither limit is reached.
    cases tag : tagAt text with
    | some found =>
      obtain ⟨content, behind⟩ := found
      have shorter := length_behind_lt tag
      rw [piecesWithin_of_tag tag, piecesWithin_of_tag tag]
      rw [inductionHypothesis (show behind.length < limit by omega)
        (show behind.length < other by omega)]
    | none =>
      cases text with
      | nil => rfl
      | cons character rest =>
        rw [List.length_cons] at enough otherEnough
        have same (slashes : Nat) :
            piecesWithin limit slashes rest = piecesWithin other slashes rest :=
          inductionHypothesis (by omega) (by omega)
        by_cases slash : character = '\\'
        · subst slash
          rw [piecesWithin_slash, piecesWithin_slash, same]
        by_cases bracket : character = '['
        · subst bracket
          rw [piecesWithin_bracket tag, piecesWithin_bracket tag, same]
        · rw [piecesWithin_plain bracket slash, piecesWithin_plain bracket slash, same]

/-- A text is read on from tag to tag, and from character to character elsewhere. -/
@[elab_as_elim]
theorem reading_induction {motive : Nat → List Char → Prop} (nil : ∀ slashes, motive slashes [])
    (tag : ∀ slashes text content behind, tagAt text = some (content, behind) →
      motive 0 behind → motive slashes text)
    (slash : ∀ slashes rest, motive (slashes + 1) rest → motive slashes ('\\' :: rest))
    (bracket : ∀ slashes rest, tagAt ('[' :: rest) = none → motive 0 rest →
      motive slashes ('[' :: rest))
    (plain : ∀ slashes character rest, character ≠ '[' → character ≠ '\\' → motive 0 rest →
      motive slashes (character :: rest))
    (slashes : Nat) (text : List Char) : motive slashes text := by
  induction length_eq : text.length using Nat.strongRecOn generalizing text slashes with
  | ind length inductionHypothesis =>
    -- Whatever is taken, the text that is left is shorter.
    have onward (slashes : Nat) {later : List Char} (shorter : later.length < text.length) :
        motive slashes later := inductionHypothesis _ (length_eq ▸ shorter) _ _ rfl
    cases tagged : tagAt text with
    | some found => exact tag _ _ _ _ tagged (onward 0 (length_behind_lt tagged))
    | none =>
      cases text with
      | nil => exact nil slashes
      | cons character rest =>
        by_cases isSlash : character = '\\'
        · subst isSlash
          exact slash _ _ (onward _ (Nat.lt_succ_self _))
        by_cases isBracket : character = '['
        · subst isBracket
          exact bracket _ _ tagged (onward 0 (Nat.lt_succ_self _))
        · exact plain _ _ _ isBracket isSlash (onward 0 (Nat.lt_succ_self _))

/-- What is shown of a text behind backslashes, while tags are open. -/
def shownFrom (opened : List String) (slashes : Nat) (text : List Char) :
    Except UnmatchedTag (List Char) :=
  textOf opened (piecesWithin (text.length + 1) slashes text)

theorem textOf_piecesWithin (enough : text.length < limit) :
    textOf opened (piecesWithin limit slashes text) = shownFrom opened slashes text := by
  rw [shownFrom, piecesWithin_eq enough (Nat.lt_succ_self _)]

theorem textOf_text (pieces : List Piece) :
    textOf opened (.text text :: pieces) = (textOf opened pieces).map (text ++ ·) := by
  rw [textOf]
  cases textOf opened pieces <;> rfl

/-! ## Texts that are shown -/

/-- The text can be shown behind backslashes, while tags are open. -/
def Shows (opened : List String) (slashes : Nat) (text : List Char) : Prop :=
  ∃ shown, shownFrom opened slashes text = .ok shown

theorem exists_map_iff {ε α β : Type} {result : Except ε α} {change : α → β} :
    (∃ value, result.map change = .ok value) ↔ ∃ value, result = .ok value := by
  cases result <;> simp [Except.map]

theorem shows_nil : Shows opened slashes [] :=
  ⟨List.replicate slashes '\\' ++ [], rfl⟩

theorem shows_slash (behind : Shows opened (slashes + 1) rest) :
    Shows opened slashes ('\\' :: rest) := by
  rw [Shows, shownFrom, piecesWithin_slash]
  exact behind

theorem shows_bracket (noTag : tagAt ('[' :: rest) = none) (behind : Shows opened 0 rest) :
    Shows opened slashes ('[' :: rest) := by
  rw [Shows, shownFrom, piecesWithin_bracket noTag, textOf_text, textOf_text, exists_map_iff,
    exists_map_iff]
  exact behind

theorem shows_plain (noBracket : character ≠ '[') (noSlash : character ≠ '\\')
    (behind : Shows opened 0 rest) : Shows opened slashes (character :: rest) := by
  rw [Shows, shownFrom, piecesWithin_plain noBracket noSlash, textOf_text, textOf_text,
    exists_map_iff, exists_map_iff]
  exact behind

theorem shows_append_plain {front back : List Char}
    (plain : ∀ character ∈ front, character ≠ '[' ∧ character ≠ '\\')
    (behind : Shows opened 0 back) : Shows opened 0 (front ++ back) := by
  induction front with
  | nil => exact behind
  | cons character front inductionHypothesis =>
    obtain ⟨⟨noBracket, noSlash⟩, others⟩ := List.forall_mem_cons.mp plain
    exact shows_plain noBracket noSlash (inductionHypothesis others)

theorem isDigit_of_mem_toString {value : Nat} (member : character ∈ (toString value).toList) :
    character.isDigit = true := by
  rw [Nat.toString_eq_repr, Nat.repr, String.toList_ofList] at member
  exact Nat.isDigit_of_mem_toDigits (by decide) (by decide) member

theorem plain_toString (value : Nat) :
    ∀ character ∈ (toString value).toList, character ≠ '[' ∧ character ≠ '\\' := by
  intro character member
  have digit := isDigit_of_mem_toString member
  constructor <;> rintro rfl <;> exact absurd digit (by decide)

/-- Behind an odd number of backslashes a tag is text; otherwise it opens something. -/
theorem shows_opening (tag : tagAt text = some (content, behind))
    (opens : ofTag content = .opening name) (escaped : slashes % 2 = 1 → Shows opened 0 behind)
    (others : Shows (styleName name :: opened) 0 behind) : Shows opened slashes text := by
  have enough := length_behind_lt tag
  rw [Shows, shownFrom, piecesWithin_of_tag tag, textOf_text, exists_map_iff]
  split
  next odd =>
    rw [textOf_text, exists_map_iff, textOf_piecesWithin enough]
    exact escaped odd
  · rw [opens, textOf, textOf_piecesWithin enough]
    exact others

theorem shows_closing (tag : tagAt text = some (content, behind))
    (closes : ofTag content = .closing name) (filled : name ≠ []) (known : styleName name ∈ opened)
    (others : ∀ opened, Shows opened 0 behind) : Shows opened slashes text := by
  have enough := length_behind_lt tag
  rw [Shows, shownFrom, piecesWithin_of_tag tag, textOf_text, exists_map_iff]
  split
  · rw [textOf_text, exists_map_iff, textOf_piecesWithin enough]
    exact others opened
  · have closed : close name opened = .ok (opened.erase (styleName name)) := by
      unfold close
      rw [if_neg (by simpa using filled), if_pos (by simpa using known)]
    rw [closes, textOf, closed]
    change ∃ shown, textOf _ _ = _
    rw [textOf_piecesWithin enough]
    exact others _

theorem shows_openingTag {tag : List Char} (name : List Char)
    (read : ∀ rest, tagAt (tag ++ rest) = some (name, rest)) (opens : ofTag name = .opening name)
    (others : Shows (styleName name :: opened) 0 behind) : Shows opened 0 (tag ++ behind) :=
  shows_opening (read behind) opens nofun others

theorem shows_closingTag {tag : List Char} (name : List Char)
    (read : ∀ rest, tagAt (tag ++ rest) = some ('/' :: name, rest))
    (closes : ofTag ('/' :: name) = .closing name) (filled : name ≠ [])
    (known : styleName name ∈ opened) (others : ∀ opened, Shows opened 0 behind) :
    Shows opened slashes (tag ++ behind) :=
  shows_closing (read behind) closes filled known others

theorem shows_lastTag (name : List Char) (read : tagAt text = some ('/' :: name, []))
    (closes : ofTag ('/' :: name) = .closing name) (filled : name ≠ [])
    (known : styleName name ∈ opened) : Shows opened slashes text :=
  shows_closing read closes filled known fun _ => shows_nil

/-! ## Texts from elsewhere -/

/-- The text holds what begins a closing tag. -/
def HasClosing (text : List Char) : Prop :=
  ['[', '/'] <:+: text

instance (text : List Char) : Decidable (HasClosing text) :=
  inferInstanceAs (Decidable (_ <:+: _))

/-- The first bracket of the text, if it has one, opens. -/
def Shut (text : List Char) : Prop :=
  ']' ∉ text.takeWhile (· != '[')

theorem shut_nil : Shut [] :=
  List.not_mem_nil

theorem shut_bracket : Shut ('[' :: rest) := by
  simp [Shut]

theorem shut_append {front back : List Char} (plain : ∀ character ∈ front, character ≠ ']')
    (shut : Shut back) : Shut (front ++ back) := by
  intro closed
  rw [List.takeWhile_append] at closed
  split at closed
  · obtain here | there := List.mem_append.mp closed
    · exact plain _ here rfl
    · exact shut there
  · exact plain _ ((List.takeWhile_prefix _).subset closed) rfl

/-- A tag does not reach into a text whose first bracket opens. -/
theorem exists_of_tagAt_append {front back : List Char}
    (tag : tagAt (front ++ back) = some (content, behind)) (filled : front ≠ [])
    (shut : Shut back) :
    ∃ later, front = '[' :: (content ++ ']' :: later) ∧ behind = later ++ back := by
  obtain ⟨first, inner, rfl, same, starts, plain⟩ := tagAt_eq_some_iff.mp tag
  have noBracket : ∀ character ∈ first :: inner, (character != '[') = true := by
    intro character member
    rw [bne_iff_ne]
    obtain rfl | member := List.mem_cons.mp member
    · exact (ne_of_isTagStart starts).1
    · exact (plain _ member).1
  obtain ⟨character, front, rfl⟩ := List.exists_cons_of_ne_nil filled
  rw [List.cons_append, List.cons.injEq, ← List.cons_append] at same
  obtain ⟨rfl, same⟩ := same
  obtain ⟨beyond, content_eq, rfl⟩ | ⟨rest, front_eq, closed⟩ :=
    List.append_eq_append_iff.mp same
  · -- The first bracket of `back` would close the tag.
    have reached : ∀ character ∈ beyond, (character != '[') = true := fun _ member =>
      noBracket _ (by rw [content_eq]; exact List.mem_append_right _ member)
    rw [Shut, List.takeWhile_append_of_pos reached] at shut
    simp at shut
  · cases rest with
    | nil =>
      subst closed
      simp [Shut] at shut
    | cons other later =>
      obtain ⟨rfl, rfl⟩ := List.cons.inj closed
      exact ⟨later, by rw [front_eq], rfl⟩

theorem tagAt_append (tag : tagAt text = some (content, behind)) (back : List Char) :
    tagAt (text ++ back) = some (content, behind ++ back) := by
  obtain ⟨first, inner, rfl, rfl, starts, plain⟩ := tagAt_eq_some_iff.mp tag
  exact tagAt_eq_some_iff.mpr ⟨first, inner, rfl, by simp, starts, plain⟩

theorem tagAt_append_eq_none {back : List Char} (noTag : tagAt (character :: rest) = none)
    (shut : Shut back) : tagAt (character :: (rest ++ back)) = none := by
  cases tag : tagAt (character :: (rest ++ back)) with
  | none => rfl
  | some found =>
    obtain ⟨content, behind⟩ := found
    obtain ⟨later, front_eq, -⟩ := exists_of_tagAt_append tag (List.cons_ne_nil character rest) shut
    obtain ⟨first, inner, rfl, -, starts, plain⟩ := tagAt_eq_some_iff.mp tag
    have sooner : tagAt (character :: rest) = some (first :: inner, later) :=
      tagAt_eq_some_iff.mpr ⟨first, inner, rfl, front_eq, starts, plain⟩
    rw [noTag] at sooner
    cases sooner

/-- The text holds a closing tag. -/
def ClosesTag (text : List Char) : Prop :=
  ∃ inner, (∀ character ∈ inner, character ≠ '[' ∧ character ≠ ']') ∧
    '[' :: '/' :: (inner ++ [']']) <:+: text

theorem ClosesTag.hasClosing (closes : ClosesTag text) : HasClosing text := by
  obtain ⟨inner, -, inside⟩ := closes
  exact List.IsInfix.trans ⟨[], inner ++ [']'], rfl⟩ inside

theorem ClosesTag.mono (closes : ClosesTag rest) (inside : rest <:+: text) : ClosesTag text := by
  obtain ⟨inner, plain, closing⟩ := closes
  exact ⟨inner, plain, closing.trans inside⟩

/-- In front of a text whose first bracket opens, a text without a closing tag only opens tags. -/
theorem shows_append {back : List Char} (noClosing : ¬ClosesTag text) (shut : Shut back)
    (others : ∀ more slashes, Shows (more ++ opened) slashes back) :
    Shows opened slashes (text ++ back) := by
  induction slashes, text using reading_induction generalizing opened with
  | nil slashes => exact others [] slashes
  | tag slashes text content behind tag inductionHypothesis =>
    obtain ⟨first, inner, rfl, rfl, starts, plain⟩ := tagAt_eq_some_iff.mp tag
    have opening : first ≠ '/' := by
      rintro rfl
      exact noClosing ⟨inner, plain, [], behind, by simp⟩
    obtain ⟨name, opens⟩ : ∃ name, ofTag (first :: inner) = .opening name :=
      exists_ofTag_eq_opening starts opening
    -- What is left of the text has no closing tag either, and leaves all tags open.
    have onward (more : List String) : Shows (more ++ opened) 0 (behind ++ back) := by
      refine inductionHypothesis (fun closing => noClosing (closing.mono ?_))
        fun further slashes => ?_
      · exact ⟨'[' :: (first :: inner ++ [']']), [], by simp⟩
      · rw [← List.append_assoc]
        exact others _ _
    exact shows_opening (tagAt_append tag back) opens (fun _ => onward [])
      (onward [styleName name])
  | slash slashes rest inductionHypothesis =>
    have onward := inductionHypothesis
      (fun closing => noClosing (closing.mono (List.suffix_cons _ _).isInfix)) others
    exact shows_slash onward
  | bracket slashes rest noTag inductionHypothesis =>
    have onward := inductionHypothesis
      (fun closing => noClosing (closing.mono (List.suffix_cons _ _).isInfix)) others
    exact shows_bracket (tagAt_append_eq_none noTag shut) onward
  | plain slashes character rest noBracket noSlash inductionHypothesis =>
    have onward := inductionHypothesis
      (fun closing => noClosing (closing.mono (List.suffix_cons _ _).isInfix)) others
    exact shows_plain noBracket noSlash onward

/-! ## What is visible

What a text that is shown shows does not depend on the tags that are open: it is the text without
its tags, and without the backslashes that make text of a tag or a bracket.
-/

def Piece.visible : Piece → List Char
  | .text text => text
  | _ => []

/-- What is visible of a text behind backslashes. -/
def visibleFrom (slashes : Nat) (text : List Char) : List Char :=
  (piecesWithin (text.length + 1) slashes text).flatMap Piece.visible

def visible (text : List Char) : List Char :=
  visibleFrom 0 text

theorem eq_visible_of_textOf {pieces : List Piece} {shown : List Char}
    (read : textOf opened pieces = .ok shown) : shown = pieces.flatMap Piece.visible := by
  induction pieces generalizing opened shown with
  | nil =>
    cases read
    rfl
  | cons piece pieces inductionHypothesis =>
    rw [List.flatMap_cons]
    cases piece with
    | text text =>
      rw [textOf_text] at read
      obtain ⟨later, readLater, rfl⟩ := exists_of_map_eq_ok read
      rw [inductionHypothesis readLater]
      rfl
    | opening name => exact inductionHypothesis read
    | closing name =>
      obtain ⟨left, -, read⟩ := exists_of_bind_eq_ok read
      exact inductionHypothesis read

theorem eq_visible_of_shown {shown : List Char} (read : Markup.shown text = .ok shown) :
    shown = visible text :=
  eq_visible_of_textOf read

theorem flatMap_piecesWithin (enough : text.length < limit) :
    (piecesWithin limit slashes text).flatMap Piece.visible = visibleFrom slashes text := by
  rw [visibleFrom, piecesWithin_eq enough (Nat.lt_succ_self _)]

theorem visible_ofTag (content : List Char) : (ofTag content).visible = [] := by
  unfold ofTag
  split <;> rfl

theorem visibleFrom_nil : visibleFrom slashes [] = List.replicate slashes '\\' :=
  List.append_nil _

theorem visibleFrom_tag (tag : tagAt text = some (content, behind)) :
    visibleFrom slashes text = List.replicate (slashes / 2) '\\' ++
      ((if slashes % 2 = 1 then '[' :: content ++ [']'] else []) ++ visible behind) := by
  rw [visibleFrom, piecesWithin_of_tag tag, List.flatMap_cons, List.flatMap_cons,
    flatMap_piecesWithin (length_behind_lt tag)]
  split
  · rfl
  · rw [visible_ofTag]
    rfl

theorem visibleFrom_slash :
    visibleFrom slashes ('\\' :: rest) = visibleFrom (slashes + 1) rest := by
  rw [visibleFrom, piecesWithin_slash]
  rfl

theorem visibleFrom_bracket (noTag : tagAt ('[' :: rest) = none) :
    visibleFrom slashes ('[' :: rest) =
      List.replicate (slashes - 1) '\\' ++ '[' :: visible rest := by
  rw [visibleFrom, piecesWithin_bracket noTag]
  rfl

theorem visibleFrom_plain (noBracket : character ≠ '[') (noSlash : character ≠ '\\') :
    visibleFrom slashes (character :: rest) =
      List.replicate slashes '\\' ++ character :: visible rest := by
  rw [visibleFrom, piecesWithin_plain noBracket noSlash]
  rfl

/-- Nothing is visible but what is in the text. -/
theorem visibleFrom_sublist (slashes : Nat) (text : List Char) :
    (visibleFrom slashes text).Sublist (List.replicate slashes '\\' ++ text) := by
  induction slashes, text using reading_induction with
  | nil slashes => simp [visibleFrom_nil]
  | tag slashes text content behind tag inductionHypothesis =>
    rw [visibleFrom_tag tag]
    obtain ⟨first, inner, rfl, rfl, -, -⟩ := tagAt_eq_some_iff.mp tag
    have split : '[' :: first :: (inner ++ ']' :: behind) =
        ('[' :: (first :: inner) ++ [']']) ++ behind := by simp
    rw [split]
    refine (List.replicate_sublist_replicate _ |>.mpr (Nat.div_le_self _ _)).append
      (List.Sublist.append ?_ inductionHypothesis)
    split_ifs
    · exact .refl _
    · exact List.nil_sublist _
  | slash slashes rest inductionHypothesis =>
    rw [visibleFrom_slash]
    rwa [List.replicate_succ', List.append_assoc] at inductionHypothesis
  | bracket slashes rest noTag inductionHypothesis =>
    rw [visibleFrom_bracket noTag]
    exact (List.replicate_sublist_replicate _ |>.mpr (Nat.sub_le _ _)).append
      (inductionHypothesis.cons_cons '[')
  | plain slashes character rest noBracket noSlash inductionHypothesis =>
    rw [visibleFrom_plain noBracket noSlash]
    exact (List.Sublist.refl _).append (inductionHypothesis.cons_cons character)

theorem visible_sublist (text : List Char) : (visible text).Sublist text :=
  visibleFrom_sublist 0 text

/-- What stands between brackets in the text, with no bracket in it, begins as a tag does. -/
def HasTag (text : List Char) : Prop :=
  ∃ first inner, isTagStart first = true ∧
    (∀ character ∈ inner, character ≠ '[' ∧ character ≠ ']') ∧
      '[' :: first :: (inner ++ [']']) <:+: text

theorem ClosesTag.hasTag (closes : ClosesTag text) : HasTag text := by
  obtain ⟨inner, plain, inside⟩ := closes
  exact ⟨'/', inner, rfl, plain, inside⟩

/-- There is nothing in the text that the console reads as markup. -/
structure IsPlain (text : List Char) : Prop where
  untagged : ¬HasTag text
  unescaped : ¬['\\', '['] <:+: text

theorem IsPlain.not_closesTag (plain : IsPlain text) : ¬ClosesTag text :=
  mt ClosesTag.hasTag plain.untagged

theorem isPlain_nil : IsPlain [] :=
  ⟨fun ⟨_, _, _, _, inside⟩ => absurd (List.infix_nil.mp inside) (List.cons_ne_nil _ _),
    fun inside => absurd (List.infix_nil.mp inside) (List.cons_ne_nil _ _)⟩

/-- Without a bracket there is no markup. -/
theorem isPlain_of_not_mem (noBracket : '[' ∉ text) : IsPlain text := by
  refine ⟨fun ⟨first, inner, _, _, inside⟩ => noBracket (inside.subset ?_),
    fun inside => noBracket (inside.subset ?_)⟩ <;> simp

theorem hasTag_cons_iff : HasTag (character :: rest) ↔
    (∃ found, tagAt (character :: rest) = some found) ∨ HasTag rest := by
  constructor
  · rintro ⟨first, inner, starts, plain, inside⟩
    rw [List.infix_cons_iff] at inside
    obtain ⟨behind, begins⟩ | inside := inside
    · refine .inl ⟨(first :: inner, behind), tagAt_eq_some_iff.mpr ⟨first, inner, rfl, ?_, starts,
        plain⟩⟩
      rw [← begins]
      simp
    · exact .inr ⟨first, inner, starts, plain, inside⟩
  · rintro (⟨⟨content, behind⟩, tag⟩ | ⟨first, inner, starts, plain, inside⟩)
    · obtain ⟨first, inner, rfl, split, starts, plain⟩ := tagAt_eq_some_iff.mp tag
      exact ⟨first, inner, starts, plain, [], behind, by rw [split]; simp⟩
    · exact ⟨first, inner, starts, plain, inside.trans (List.suffix_cons _ _).isInfix⟩

theorem isPlain_cons_iff : IsPlain (character :: rest) ↔ tagAt (character :: rest) = none ∧
    (character = '\\' → rest.head? ≠ some '[') ∧ IsPlain rest := by
  have escaped : ['\\', '['] <:+: character :: rest ↔
      (character = '\\' ∧ rest.head? = some '[') ∨ ['\\', '['] <:+: rest := by
    have begins : ['['] <+: rest ↔ rest.head? = some '[' := by
      cases rest with
      | nil => simp
      | cons second rest => simp [List.cons_prefix_cons, eq_comm]
    rw [List.infix_cons_iff, List.cons_prefix_cons, begins, eq_comm]
  constructor
  · rintro ⟨untagged, unescaped⟩
    rw [hasTag_cons_iff, not_or] at untagged
    rw [escaped, not_or, not_and] at unescaped
    exact ⟨Option.eq_none_iff_forall_ne_some.mpr fun found tag => untagged.1 ⟨found, tag⟩,
      unescaped.1, untagged.2, unescaped.2⟩
  · rintro ⟨noTag, unescaped, plain⟩
    refine ⟨?_, ?_⟩
    · rw [hasTag_cons_iff, not_or, noTag]
      exact ⟨nofun, plain.untagged⟩
    · rw [escaped, not_or, not_and]
      exact ⟨unescaped, plain.unescaped⟩

/-- All of a text is visible if it is plain, and if no bracket comes right behind backslashes. -/
theorem visibleFrom_eq_iff (slashes : Nat) (text : List Char) :
    visibleFrom slashes text = List.replicate slashes '\\' ++ text ↔
      IsPlain text ∧ (slashes = 0 ∨ text.head? ≠ some '[') := by
  induction slashes, text using reading_induction with
  | nil slashes => simp [visibleFrom_nil, isPlain_nil]
  | tag slashes text content behind tag inductionHypothesis =>
    refine iff_of_false (fun same => ?_) fun plain => ?_
    · have lengths := congrArg List.length same
      have shorter := (visible_sublist behind).length_le
      obtain ⟨first, inner, rfl, rfl, -, -⟩ := tagAt_eq_some_iff.mp tag
      rw [visibleFrom_tag tag] at lengths
      split_ifs at lengths with odd <;> simp at lengths <;> omega
    · cases text with
      | nil => cases tag
      | cons character rest =>
        rw [(isPlain_cons_iff.mp plain.1).1] at tag
        cases tag
  | slash slashes rest inductionHypothesis =>
    rw [List.replicate_succ', List.append_assoc, List.singleton_append] at inductionHypothesis
    rw [visibleFrom_slash, inductionHypothesis, isPlain_cons_iff, tagAt_eq_none (by decide)]
    simp [and_comm]
  | bracket slashes rest noTag inductionHypothesis =>
    have all : visible rest = rest ↔ IsPlain rest := by simpa [visible] using inductionHypothesis
    rw [visibleFrom_bracket noTag, isPlain_cons_iff, noTag]
    cases slashes with
    | zero => simp [all]
    | succ slashes =>
      -- One of the backslashes is used up.
      refine iff_of_false (fun same => ?_) (by simp)
      have lengths := congrArg List.length same
      have shorter := (visible_sublist rest).length_le
      simp at lengths
      omega
  | plain slashes character rest noBracket noSlash inductionHypothesis =>
    have all : visible rest = rest ↔ IsPlain rest := by simpa [visible] using inductionHypothesis
    rw [visibleFrom_plain noBracket noSlash, isPlain_cons_iff, tagAt_eq_none noBracket]
    simp [noBracket, noSlash, all]

theorem visible_eq_iff : visible text = text ↔ IsPlain text := by
  have all := visibleFrom_eq_iff 0 text
  rw [List.replicate_zero, List.nil_append] at all
  rw [visible, all]
  exact and_iff_left (.inl rfl)

/-! ### Texts one behind another -/

theorem visible_append_plain {front : List Char} (back : List Char)
    (plain : ∀ character ∈ front, character ≠ '[' ∧ character ≠ '\\') :
    visible (front ++ back) = front ++ visible back := by
  induction front with
  | nil => rfl
  | cons character front inductionHypothesis =>
    obtain ⟨⟨noBracket, noSlash⟩, others⟩ := List.forall_mem_cons.mp plain
    rw [List.cons_append, visible, visibleFrom_plain noBracket noSlash, inductionHypothesis others]
    rfl

theorem visible_append_tag {tag : List Char}
    (read : ∀ rest, tagAt (tag ++ rest) = some (content, rest)) (back : List Char) :
    visible (tag ++ back) = visible back :=
  visibleFrom_tag (read back)

/-- A text in front of a plain character shows what it shows on its own. -/
theorem visibleFrom_append {back : List Char} (noBracket : character ≠ '[')
    (noSlash : character ≠ '\\') (shut : Shut (character :: back)) :
    visibleFrom slashes (text ++ character :: back) =
      visibleFrom slashes text ++ visible (character :: back) := by
  induction slashes, text using reading_induction with
  | nil slashes =>
    rw [List.nil_append, visibleFrom_nil, visible, visibleFrom_plain noBracket noSlash,
      visibleFrom_plain noBracket noSlash]
    rfl
  | tag slashes text content behind tag inductionHypothesis =>
    rw [visibleFrom_tag tag, visibleFrom_tag (tagAt_append tag _), List.append_assoc,
      List.append_assoc, visible, inductionHypothesis]
    rfl
  | slash slashes rest inductionHypothesis =>
    rw [List.cons_append, visibleFrom_slash, visibleFrom_slash, inductionHypothesis]
  | bracket slashes rest noTag inductionHypothesis =>
    rw [List.cons_append, visibleFrom_bracket noTag,
      visibleFrom_bracket (tagAt_append_eq_none noTag shut), visible, inductionHypothesis]
    simp [visible]
  | plain slashes other rest noBracket noSlash inductionHypothesis =>
    rw [List.cons_append, visibleFrom_plain noBracket noSlash, visibleFrom_plain noBracket noSlash,
      visible, inductionHypothesis]
    simp [visible]

end PeerExpansion.Markup
