import PeerExpansion.Proofs.Declaration.Stretches
import PeerExpansion.Proofs.Token.Pieces

/-! # What readings account for

`Conforms` says which tokens a reading takes. `Frames` is the case in which they are framed: what
the reading understands has nested brackets, and the rest are stretches that it passes over. A
reading inherits this from those it is made of.
-/

namespace PeerExpansion

open Extent

namespace Reading

variable {α β : Type} {source : List Char} {stream : TokenStream} {index next behind : Nat}
  {pending middle last : List String} {text separator : String}

/-- The tokens between two indices leave `last` to be closed where there was `pending`, and none of
them is in a stretch that is passed over. -/
structure Steps (stream : TokenStream) (index next : Nat) (pending last : List String) : Prop where
  index_le : index ≤ next
  next_le : next ≤ stream.words.length
  framed : Framed pending (stream.between index next) [] last

theorem Steps.trans (steps : Steps stream index next pending middle)
    (later : Steps stream next behind middle last) : Steps stream index behind pending last := by
  refine ⟨Nat.le_trans steps.index_le later.index_le, later.next_le, ?_⟩
  rw [← TokenStream.between_append steps.index_le later.index_le]
  exact steps.framed.append later.framed

theorem steps_of_framed (inside : index < stream.words.length)
    (framed : Framed pending [stream.token index] [] last) :
    Steps stream index (index + 1) pending last := by
  refine ⟨Nat.le_succ _, inside, ?_⟩
  rwa [TokenStream.between_cons (Nat.lt_succ_self _) inside, TokenStream.between_self]

/-- What is read from the token at `index` on takes tokens of the shape, and passes over some
stretches of them. -/
def Conforms (stream : TokenStream) (index : Nat) (Shape : List Token → List (List Token) → Prop)
    (reading : Reading α) : Prop :=
  ∀ value finish, index ≤ stream.words.length →
    Reads reading (.ofStream stream index) value finish →
      ∃ next stretches, finish = .ofStream stream next ∧ index ≤ next ∧
        next ≤ stream.words.length ∧ Shape (stream.between index next) stretches

section Passing

variable {Shape Front : List Token → List (List Token) → Prop} {reading : Reading α}

theorem Conforms.mono (conforms : Conforms stream index Front reading)
    (weaker : ∀ tokens stretches, Front tokens stretches → Shape tokens stretches) :
    Conforms stream index Shape reading := by
  intro value finish inside read
  obtain ⟨next, stretches, rfl, after, within, shape⟩ := conforms value finish inside read
  exact ⟨next, stretches, rfl, after, within, weaker _ _ shape⟩

theorem conforms_pure {value : α} (shape : Shape [] []) :
    Conforms stream index Shape (pure value) := by
  intro other finish inside read
  obtain ⟨rfl, rfl⟩ := reads_pure.mp read
  refine ⟨index, [], rfl, Nat.le_refl _, inside, ?_⟩
  rwa [TokenStream.between_self]

theorem conforms_of_fails (fails : ∀ first value last, ¬ Reads reading first value last) :
    Conforms stream index Shape reading :=
  fun _ _ _ read => (fails _ _ _ read).elim

/-- What is read behind a part is asked for the rest of the shape. -/
theorem conforms_bind {continued : α → Reading β} (front : Conforms stream index Front reading)
    (back : ∀ value next tokens stretches, Front tokens stretches →
      Conforms stream next (fun others further => Shape (tokens ++ others) (stretches ++ further))
        (continued value)) :
    Conforms stream index Shape (reading >>= continued) := by
  intro value finish inside read
  obtain ⟨given, _, frontRead, backRead⟩ := reads_bind.mp read
  obtain ⟨next, stretches, rfl, after, within, begins⟩ := front _ _ inside frontRead
  obtain ⟨behind, others, rfl, later, bound, shape⟩ :=
    back given next _ _ begins _ _ within backRead
  refine ⟨behind, stretches ++ others, rfl, Nat.le_trans after later, bound, ?_⟩
  rwa [← TokenStream.between_append after later]

/-- A reading that only looks does not matter for what is passed. -/
theorem conforms_look_bind {continued : α → Reading β} {known : α}
    (looks : Reads reading (.ofStream stream index) known (.ofStream stream index))
    (back : Conforms stream index Shape (continued known)) :
    Conforms stream index Shape (reading >>= continued) := by
  intro value finish inside read
  exact back value finish inside (looks.bind_iff.mp read)

theorem conforms_get_bind {continued : Cursor → Reading β}
    (back : Conforms stream index Shape (continued (.ofStream stream index))) :
    Conforms stream index Shape (get >>= continued) :=
  conforms_look_bind (reads_get.mpr ⟨rfl, rfl⟩) back

theorem conforms_ahead_bind {count : Nat} {continued : Token → Reading β}
    (back : Conforms stream index Shape (continued (stream.token (index + count)))) :
    Conforms stream index Shape (ahead count >>= continued) :=
  conforms_look_bind (reads_ahead.mpr ⟨(Cursor.ahead_ofStream _).symm, rfl⟩) back

theorem conforms_current_bind {continued : Token → Reading β}
    (back : Conforms stream index Shape (continued (stream.token index))) :
    Conforms stream index Shape (current >>= continued) :=
  conforms_ahead_bind back

theorem conforms_check_bind {continued : Bool → Reading β}
    (back : Conforms stream index Shape (continued ((stream.token index).reads text))) :
    Conforms stream index Shape (check text >>= continued) :=
  conforms_look_bind (reads_check.mpr ⟨by rw [Cursor.current_ofStream], rfl⟩) back

theorem conforms_textSince_bind {token : Token} {continued : String → Reading β}
    (back : ∀ text, Conforms stream index Shape (continued text)) :
    Conforms stream index Shape (textSince token >>= continued) :=
  conforms_look_bind (reads_textSince.mpr ⟨rfl, rfl⟩) (back _)

theorem conforms_skip {count : Nat} {stretches : List (List Token)}
    (bound : count ≤ stream.words.length - index)
    (shape : Shape (stream.between index (index + count)) stretches) :
    Conforms stream index Shape (skip count) := by
  intro value finish inside read
  obtain rfl := reads_skip.mp read
  exact ⟨_, _, Cursor.skip_ofStream _, Nat.le_add_right _ _, by omega, shape⟩

/-- Where it is known what a part takes, the rest of the shape is what has to be behind that. -/
theorem conforms_take_bind {count : Nat} {continued : α → Reading β} {known : α}
    (stretches : List (List Token))
    (takes : Reads reading (.ofStream stream index) known (.ofStream stream (index + count)))
    (bound : count ≤ stream.words.length - index)
    (back : Conforms stream (index + count) (fun others further =>
      Shape (stream.between index (index + count) ++ others) (stretches ++ further))
        (continued known)) :
    Conforms stream index Shape (reading >>= continued) := by
  intro value finish inside read
  obtain ⟨next, further, rfl, later, within, shape⟩ :=
    back value finish (by omega) (takes.bind_iff.mp read)
  rw [TokenStream.between_append (Nat.le_add_right _ _) later] at shape
  exact ⟨next, _, rfl, by omega, within, shape⟩

theorem conforms_skip_bind {count : Nat} {continued : Unit → Reading β}
    (stretches : List (List Token)) (bound : count ≤ stream.words.length - index)
    (back : Conforms stream (index + count) (fun others further =>
      Shape (stream.between index (index + count) ++ others) (stretches ++ further))
        (continued ())) :
    Conforms stream index Shape (skip count >>= continued) :=
  conforms_take_bind stretches (reads_skip.mpr (Cursor.skip_ofStream count).symm) bound back

theorem conforms_skip_two_bind {continued : Unit → Reading β}
    (inside : index + 1 < stream.words.length)
    (back : Conforms stream (index + 2) (fun others further =>
      Shape (stream.token index :: stream.token (index + 1) :: others) further) (continued ())) :
    Conforms stream index Shape (skip 2 >>= continued) := by
  refine conforms_skip_bind [] (by omega) ?_
  rwa [TokenStream.between_cons (by omega) (by omega), TokenStream.between_cons (by omega) inside,
    TokenStream.between_self]

theorem conforms_token_bind {continued : Token → Reading β} {reading : Reading Token}
    (takes : Reads reading (.ofStream stream index) (stream.token index)
      (.ofStream stream (index + 1))) (inside : index < stream.words.length)
    (back : Conforms stream (index + 1) (fun others further =>
      Shape (stream.token index :: others) further) (continued (stream.token index))) :
    Conforms stream index Shape (reading >>= continued) := by
  refine conforms_take_bind [] takes (by omega) ?_
  rwa [TokenStream.between_cons (Nat.lt_succ_self _) inside, TokenStream.between_self]

end Passing

/-- What is read from the token at `index` on takes framed tokens. -/
def Frames (stream : TokenStream) (index : Nat) (pending last : List String)
    (reading : Reading α) : Prop :=
  Conforms stream index (fun tokens stretches => Framed pending tokens stretches last) reading

theorem frames_pure (value : α) : Frames stream index pending pending (pure value) :=
  conforms_pure .nil

theorem frames_missing (wanted : String) :
    Frames stream index pending last (missing wanted : Reading α) :=
  conforms_of_fails fun _ _ _ => reads_missing

theorem frames_bind {reading : Reading α} {continued : α → Reading β}
    (front : Frames stream index pending middle reading)
    (back : ∀ value next, Frames stream next middle last (continued value)) :
    Frames stream index pending last (reading >>= continued) :=
  conforms_bind front fun value next _ _ framed =>
    (back value next).mono fun _ _ rest => framed.append rest

theorem frames_skip {count : Nat} (steps : Steps stream index (index + count) pending last) :
    Frames stream index pending last (skip count) :=
  conforms_skip (by have := steps.next_le; omega) steps.framed

theorem frames_skip_bind {count : Nat} {continued : Unit → Reading β}
    (steps : Steps stream index (index + count) pending middle)
    (back : ∀ next, Frames stream next middle last (continued ())) :
    Frames stream index pending last (skip count >>= continued) :=
  frames_bind (frames_skip steps) fun _ => back

theorem frames_advance (steps : Steps stream index (index + 1) pending last) :
    Frames stream index pending last advance :=
  conforms_current_bind (frames_skip_bind steps fun _ => frames_pure _)

theorem frames_expect (steps : (stream.token index).reads text = true →
      Steps stream index (index + 1) pending last) :
    Frames stream index pending last (expect text) := by
  refine conforms_check_bind ?_
  split
  next reads => exact frames_advance (steps reads)
  next => exact frames_missing _

section Marks

variable (scanned : TokenStream.scan source = .ok stream)
include scanned

/-- A mark that is no bracket. -/
theorem steps_of_reads (reads : (stream.token index).reads text = true)
    (other : text ∉ "" :: marks) : Steps stream index (index + 1) pending pending := by
  rw [List.mem_cons, not_or] at other
  have inside := (TokenStream.ordered_of_scan scanned).2.lt_length_of_reads reads other.1
  exact steps_of_framed inside (.bare (isBare_of_reads reads other.2) .nil)

theorem steps_of_isIdentifier (identifier : (stream.token index).isIdentifier = true) :
    Steps stream index (index + 1) pending pending := by
  have inside := (TokenStream.ordered_of_scan scanned).2.lt_length_of_isIdentifier identifier
  exact steps_of_framed inside (.bare (isBare_of_isIdentifier identifier) .nil)

theorem steps_of_isOneOf {texts : List String} (word : (stream.token index).isOneOf texts = true)
    (other : ∀ text ∈ texts, text ∉ "" :: marks) :
    Steps stream index (index + 1) pending pending := by
  rw [Token.isOneOf, List.contains_iff_mem] at word
  have plain := other _ word
  rw [List.mem_cons, not_or] at plain
  obtain ⟨-, ordered⟩ := TokenStream.ordered_of_scan scanned
  refine steps_of_framed ?_ (.bare (isBare_of_not_mem plain.2) .nil)
  by_contra beyond
  rw [TokenStream.token_eq_ending (by omega), ordered.ending_text] at plain
  exact plain.1 rfl

theorem isPunctuation_of_reads {mark : Char}
    (reads : (stream.token index).reads text = true) (text_eq : text.toList = [mark])
    (known : mark ∈ plainMarks) :
    index < stream.words.length ∧ (stream.token index).isPunctuation text = true := by
  have filled : text ≠ "" := by
    rintro rfl
    cases text_eq
  exact ⟨(TokenStream.ordered_of_scan scanned).2.lt_length_of_reads reads filled,
    TokenStream.isPunctuation_of_reads scanned text_eq known reads⟩

theorem steps_of_opening {expected : String} (reads : (stream.token index).reads text = true)
    (known : (text, expected) = ("(", ")") ∨ (text, expected) = ("[", "]")) :
    Steps stream index (index + 1) pending (expected :: pending) := by
  have found {mark : Char} (text_eq : text.toList = [mark]) (plain : mark ∈ plainMarks)
      (opens : text ∈ ["(", "[", Token.openBrace])
      (closing_eq : ∀ token : Token, token.text = text → closing token = expected) :
      Steps stream index (index + 1) pending (expected :: pending) := by
    obtain ⟨inside, mark⟩ := isPunctuation_of_reads scanned reads text_eq plain
    have same := closing_eq _ (Token.isPunctuation_iff.mp mark).2
    exact steps_of_framed inside (.opens (isOpening_of_isPunctuation mark opens) (same ▸ .nil))
  obtain same | same := known <;> cases same
  · exact found rfl (by decide) (by decide) fun token same => by simp [closing, same]
  · exact found rfl (by decide) (by decide) fun token same => by simp [closing, same]

theorem steps_of_closing (reads : (stream.token index).reads text = true)
    (known : text = ")" ∨ text = "]") :
    Steps stream index (index + 1) (text :: pending) pending := by
  have found {mark : Char} (text_eq : text.toList = [mark]) (plain : mark ∈ plainMarks)
      (closes : text ∈ [")", "]", Token.closeBrace]) :
      Steps stream index (index + 1) (text :: pending) pending := by
    obtain ⟨inside, mark⟩ := isPunctuation_of_reads scanned reads text_eq plain
    have framed := Framed.closes (isClosing_of_isPunctuation mark closes) (@Framed.nil pending)
    rw [(Token.isPunctuation_iff.mp mark).2] at framed
    exact steps_of_framed inside framed
  obtain rfl | rfl := known
  · exact found rfl (by decide) (by decide)
  · exact found rfl (by decide) (by decide)

section Shapes

variable {Shape : List Token → List (List Token) → Prop} {continued : Token → Reading β}

theorem conforms_expect_bind (filled : text ≠ "")
    (back : (stream.token index).reads text = true → Conforms stream (index + 1)
      (fun others further => Shape (stream.token index :: others) further)
        (continued (stream.token index))) :
    Conforms stream index Shape (expect text >>= continued) := by
  intro value finish inside read
  obtain ⟨_, _, expected, -⟩ := reads_bind.mp read
  obtain ⟨reads, -, -⟩ := reads_expect.mp expected
  rw [Cursor.current_ofStream] at reads
  have within := (TokenStream.ordered_of_scan scanned).2.lt_length_of_reads reads filled
  have takes : Reads (expect text) (.ofStream stream index) (stream.token index)
      (.ofStream stream (index + 1)) := by simp [reads]
  exact conforms_token_bind takes within (back reads) value finish inside read

theorem conforms_expectIdentifier_bind {wanted : String}
    (back : (stream.token index).isIdentifier = true → Conforms stream (index + 1)
      (fun others further => Shape (stream.token index :: others) further)
        (continued (stream.token index))) :
    Conforms stream index Shape (expectIdentifier wanted >>= continued) := by
  intro value finish inside read
  obtain ⟨_, _, expected, -⟩ := reads_bind.mp read
  obtain ⟨word, -, -⟩ := reads_expectIdentifier.mp expected
  rw [Cursor.current_ofStream] at word
  have within := (TokenStream.ordered_of_scan scanned).2.lt_length_of_isIdentifier word
  have takes : Reads (expectIdentifier wanted) (.ofStream stream index) (stream.token index)
      (.ofStream stream (index + 1)) := by simp [word]
  exact conforms_token_bind takes within (back word) value finish inside read

end Shapes

theorem frames_expect_mark (other : text ∉ "" :: marks) :
    Frames stream index pending pending (expect text) :=
  frames_expect fun reads => steps_of_reads scanned reads other

theorem frames_expect_opening {expected : String}
    (known : (text, expected) = ("(", ")") ∨ (text, expected) = ("[", "]")) :
    Frames stream index pending (expected :: pending) (expect text) :=
  frames_expect fun reads => steps_of_opening scanned reads known

theorem frames_expect_closing (known : text = ")" ∨ text = "]") :
    Frames stream index (text :: pending) pending (expect text) :=
  frames_expect fun reads => steps_of_closing scanned reads known

/-- A mark that is asked for and passed, if it is there. -/
theorem frames_check {passed : Unit → Reading β} {otherwise : Reading β}
    (other : text ∉ "" :: marks) (yes : ∀ next, Frames stream next pending last (passed ()))
    (no : Frames stream index pending last otherwise) :
    Frames stream index pending last
      (do if ← check text then skip 1 >>= passed else otherwise) := by
  refine conforms_check_bind ?_
  split
  next reads => exact frames_skip_bind (steps_of_reads scanned reads other) yes
  next => exact no

theorem frames_expectIdentifier (wanted : String) :
    Frames stream index pending pending (expectIdentifier wanted) := by
  refine conforms_current_bind ?_
  split
  next identifier => exact frames_advance (steps_of_isIdentifier scanned identifier)
  next => exact frames_missing _

variable {item : Reading α} (frames : ∀ index, Frames stream index pending pending item)
include frames

theorem frames_separatedWithin (other : separator ∉ "" :: marks) (limit index : Nat) :
    Frames stream index pending pending (separatedWithin separator item limit) := by
  induction limit generalizing index with
  | zero => exact frames_bind (frames index) fun _ _ => frames_pure _
  | succ limit inductionHypothesis =>
    refine frames_bind (frames index) fun first next => ?_
    refine conforms_check_bind ?_
    split
    next reads =>
      refine frames_bind (frames_advance (steps_of_reads scanned reads other)) fun _ next => ?_
      exact frames_bind (inductionHypothesis next) fun _ _ => frames_pure _
    next => exact frames_pure _

theorem frames_separated (other : separator ∉ "" :: marks) (index : Nat) :
    Frames stream index pending pending (separated separator item) :=
  conforms_get_bind (frames_separatedWithin scanned frames other _ _)

theorem frames_listedWithin (close : String) (limit index : Nat) :
    Frames stream index pending pending (listedWithin close item limit) := by
  induction limit generalizing index with
  | zero =>
    refine conforms_check_bind ?_
    split
    · exact frames_pure _
    · exact frames_bind (frames index) fun _ _ => frames_pure _
  | succ limit inductionHypothesis =>
    refine conforms_check_bind ?_
    split
    · exact frames_pure _
    · refine frames_bind (frames index) fun first next => ?_
      refine conforms_check_bind ?_
      split
      next reads =>
        refine frames_bind (frames_advance (steps_of_reads scanned reads (by decide)))
          fun _ next => ?_
        exact frames_bind (inductionHypothesis next) fun _ _ => frames_pure _
      next => exact frames_pure _

theorem frames_listed (close : String) (index : Nat) :
    Frames stream index pending pending (listed close item) :=
  conforms_get_bind (frames_listedWithin scanned frames close _ _)

end Marks

end Reading

open Reading

variable {source : List Char} {stream : TokenStream} {pending : List String}
variable (scanned : TokenStream.scan source = .ok stream)
include scanned

/-! ## Attributes -/

namespace Attribute

theorem conforms_readLabel (index : Nat) : Conforms stream index
    (fun tokens stretches => IsLabel tokens ∧ stretches = []) readLabel := by
  refine conforms_current_bind (conforms_ahead_bind ?_)
  split
  next label =>
    obtain ⟨word, colon⟩ := Bool.and_eq_true_iff.mp label
    obtain ⟨-, ordered⟩ := TokenStream.ordered_of_scan scanned
    have beyond := ordered.lt_length_of_reads (Token.reads_of_isPunctuation colon) (by decide)
    exact conforms_skip_two_bind beyond (conforms_pure ⟨.name word colon, rfl⟩)
  next => exact conforms_pure ⟨.none, rfl⟩

theorem conforms_readArgument (clause : Token) (index : Nat) : Conforms stream index
    (fun tokens stretches => ∃ label stretch, tokens = label ++ stretch ∧ stretches = [stretch] ∧
      IsLabel label ∧ IsArgument stretch) (readArgument clause) := by
  refine conforms_current_bind (conforms_bind (conforms_readLabel scanned index) ?_)
  rintro _ next label _ ⟨isLabel, rfl⟩
  refine conforms_get_bind ?_
  split
  next => exact conforms_of_fails fun _ _ _ => reads_fail
  next length found =>
    have bound := argumentLength?_le found
    rw [show (Cursor.ofStream stream next).behind = stream.words.drop next from rfl,
      List.length_drop] at bound
    have argument : IsArgument (stream.between next (next + length)) := by
      rw [TokenStream.between, Nat.add_sub_cancel_left]
      exact isArgument_of_argumentLength? found
    refine conforms_skip_bind [stream.between next (next + length)] bound ?_
    split
    · refine conforms_look_bind (reads_pure.mpr ⟨rfl, rfl⟩) (conforms_pure ?_)
      exact ⟨label, _, by rw [List.append_nil], rfl, isLabel, argument⟩
    · refine conforms_textSince_bind fun expression => conforms_pure ?_
      exact ⟨label, _, by rw [List.append_nil], rfl, isLabel, argument⟩

theorem conforms_separated (clause : Token) (limit index : Nat) :
    Conforms stream index Arguments (separatedWithin "," (readArgument clause) limit) := by
  induction limit generalizing index with
  | zero =>
    refine conforms_bind (conforms_readArgument scanned clause index) ?_
    rintro _ next _ _ ⟨label, stretch, rfl, rfl, isLabel, argument⟩
    refine conforms_pure ?_
    rw [List.append_nil, List.append_nil]
    exact .last isLabel argument
  | succ limit inductionHypothesis =>
    refine conforms_bind (conforms_readArgument scanned clause index) ?_
    rintro _ next _ _ ⟨label, stretch, rfl, rfl, isLabel, argument⟩
    refine conforms_check_bind ?_
    split
    next reads =>
      obtain ⟨inside, comma⟩ := isPunctuation_of_reads scanned reads rfl (by decide)
      refine conforms_token_bind (reads_advance.mpr ⟨by simp, by simp⟩) inside ?_
      refine conforms_bind (inductionHypothesis _) fun _ _ others stretches arguments => ?_
      refine conforms_pure ?_
      simp only [List.append_nil, List.append_assoc, List.cons_append, List.nil_append]
      exact .more isLabel argument comma arguments
    next =>
      refine conforms_pure ?_
      rw [List.append_nil, List.append_nil]
      exact .last isLabel argument

theorem conforms_readMembersWithin (limit index : Nat) : Conforms stream index
    (fun tokens stretches => Members tokens ∧ stretches = []) (readMembersWithin limit) := by
  induction limit generalizing index with
  | zero => exact conforms_pure ⟨.nil, rfl⟩
  | succ limit inductionHypothesis =>
    refine conforms_check_bind (conforms_ahead_bind ?_)
    split
    next member =>
      obtain ⟨point, word⟩ := Bool.and_eq_true_iff.mp member
      obtain ⟨-, ordered⟩ := TokenStream.ordered_of_scan scanned
      have beyond := ordered.lt_length_of_isIdentifier word
      refine conforms_ahead_bind (conforms_skip_two_bind beyond ?_)
      refine conforms_bind (inductionHypothesis _) ?_
      rintro _ _ others _ ⟨members, rfl⟩
      refine conforms_pure ⟨?_, rfl⟩
      rw [List.append_nil]
      exact .cons point word members
    next => exact conforms_pure ⟨.nil, rfl⟩

theorem conforms_readMembers (index : Nat) : Conforms stream index
    (fun tokens stretches => Members tokens ∧ stretches = []) readMembers :=
  conforms_get_bind (conforms_readMembersWithin scanned _ _)

theorem conforms_readArguments (index : Nat) : Conforms stream index (fun tokens stretches =>
    ∃ opening content closer, tokens = opening :: (content ++ [closer]) ∧
      opening.isPunctuation "(" = true ∧ Arguments content stretches ∧
        closer.isPunctuation ")" = true) readArguments := by
  refine conforms_expect_bind scanned (by decide) fun reads => ?_
  have opens := (isPunctuation_of_reads scanned reads rfl (by decide)).2
  refine conforms_check_bind ?_
  split
  next reads =>
    obtain ⟨inside, closes⟩ := isPunctuation_of_reads scanned reads rfl (by decide)
    refine conforms_skip_bind [[]] (by omega) (conforms_pure ?_)
    rw [TokenStream.between_cons (Nat.lt_succ_self _) inside, TokenStream.between_self]
    exact ⟨_, [], _, rfl, opens, .empty, closes⟩
  next =>
    refine conforms_bind (conforms_get_bind (conforms_separated scanned _ _ _)) ?_
    intro _ next content stretches arguments
    refine conforms_expect_bind scanned (by decide) fun reads => conforms_pure ?_
    have closes := (isPunctuation_of_reads scanned reads rfl (by decide)).2
    rw [List.append_nil]
    exact ⟨_, content, _, rfl, opens, arguments, closes⟩

theorem conforms_read (index : Nat) : Conforms stream index IsAttribute Attribute.read := by
  refine conforms_expect_bind scanned (by decide) fun mark => ?_
  refine conforms_expectIdentifier_bind scanned fun word => ?_
  refine conforms_bind (conforms_readMembers scanned _) ?_
  rintro _ next members _ ⟨isMembers, rfl⟩
  refine conforms_current_bind ?_
  split
  · refine conforms_bind (conforms_readArguments scanned next) ?_
    rintro _ behind _ stretches ⟨opening, content, closer, rfl, opens, arguments, closes⟩
    refine conforms_get_bind (conforms_pure ?_)
    rw [List.append_nil, List.append_nil]
    exact .clause mark word isMembers opens arguments closes
  · refine conforms_pure ?_
    rw [List.append_nil]
    exact .plain mark word isMembers

theorem frames_read (index : Nat) : Frames stream index pending pending Attribute.read :=
  (conforms_read scanned index).mono fun _ _ => .of_attribute

theorem frames_readAllWithin (limit index : Nat) :
    Frames stream index pending pending (readAllWithin limit) := by
  induction limit generalizing index with
  | zero => exact frames_pure _
  | succ limit inductionHypothesis =>
    refine conforms_check_bind ?_
    split
    · refine frames_bind (frames_read scanned index) fun attr next => ?_
      exact frames_bind (inductionHypothesis next) fun _ _ => frames_pure _
    · exact frames_pure _

theorem frames_readAll (index : Nat) : Frames stream index pending pending readAll :=
  conforms_get_bind (frames_readAllWithin scanned _ _)

end Attribute

/-! ## Patterns -/

namespace Pattern

theorem frames_readWithin (depth index : Nat) :
    Frames stream index pending pending (readWithin depth) := by
  induction depth generalizing index pending with
  | zero => exact frames_missing _
  | succ depth inductionHypothesis =>
    refine conforms_current_bind ?_
    split
    next reads =>
      refine frames_skip_bind (steps_of_opening scanned reads (.inl rfl)) fun next => ?_
      refine frames_bind (frames_listed scanned inductionHypothesis ")" next)
        fun elements next => ?_
      refine frames_bind (frames_expect_closing scanned (.inl rfl)) fun _ next => ?_
      exact conforms_textSince_bind fun _ => frames_pure _
    next =>
      split
      next wildcard =>
        have identifier := (Bool.and_eq_true_iff.mp wildcard).1
        exact frames_skip_bind (steps_of_isIdentifier scanned identifier) fun _ => frames_pure _
      next => exact frames_bind (frames_expectIdentifier scanned _) fun _ _ => frames_pure _

theorem frames_read (index : Nat) : Frames stream index pending pending Pattern.read :=
  conforms_get_bind (frames_readWithin scanned _ _)

end Pattern

/-! ## Types -/

namespace TypeExpr

theorem frames_readComposition {suffixed : Reading TypeExpr}
    (frames : ∀ index, Frames stream index pending pending suffixed) (index : Nat) :
    Frames stream index pending pending (readComposition suffixed) := by
  refine frames_bind (frames_separated scanned frames (by decide) index) fun types next => ?_
  split <;> exact frames_pure _

section Parts

variable {type : Reading TypeExpr}
variable (frames : ∀ pending index, Frames stream index pending pending type)
include frames

theorem frames_readGenericArguments (index : Nat) :
    Frames stream index pending pending (readGenericArguments type) := by
  refine frames_check scanned (by decide) (fun next => ?_) (frames_pure _)
  refine frames_bind (frames_separated scanned (frames pending) (by decide) next)
    fun arguments next => ?_
  exact frames_bind (frames_expect_mark scanned (by decide)) fun _ _ => frames_pure _

theorem frames_readPart (index : Nat) : Frames stream index pending pending (readPart type) := by
  refine frames_bind (frames_expectIdentifier scanned _) fun name next => ?_
  exact frames_bind (frames_readGenericArguments scanned frames next) fun _ _ => frames_pure _

theorem frames_readNameWithin (limit index : Nat) :
    Frames stream index pending pending (readNameWithin type limit) := by
  induction limit generalizing index with
  | zero => exact frames_bind (frames_readPart scanned frames index) fun _ _ => frames_pure _
  | succ limit inductionHypothesis =>
    refine frames_bind (frames_readPart scanned frames index) fun part next => ?_
    refine conforms_ahead_bind (conforms_check_bind ?_)
    split
    next dotted =>
      simp only [Bool.and_eq_true] at dotted
      refine frames_skip_bind (steps_of_reads scanned dotted.1.1 (by decide)) fun next => ?_
      exact frames_bind (inductionHypothesis next) fun _ _ => frames_pure _
    next => exact frames_pure _

theorem frames_readSimple (index : Nat) :
    Frames stream index pending pending (readSimple type) := by
  refine conforms_get_bind ?_
  exact frames_bind (frames_readNameWithin scanned frames _ index) fun _ _ => frames_pure _

theorem frames_readBracketed (index : Nat) :
    Frames stream index pending pending (readBracketed type) := by
  refine frames_bind (frames_expect_opening scanned (.inr rfl)) fun _ next => ?_
  refine frames_bind (frames _ next) fun element next => ?_
  refine frames_check scanned (by decide) (fun next => ?_) ?_
  · refine frames_bind (frames _ next) fun value next => ?_
    exact frames_bind (frames_expect_closing scanned (.inr rfl)) fun _ _ => frames_pure _
  · exact frames_bind (frames_expect_closing scanned (.inr rfl)) fun _ _ => frames_pure _

omit frames in
theorem steps_of_text {index : Nat} {text : String}
    (text_eq : ((stream.token index).text == text) = true) (other : text ∉ "" :: marks) :
    Steps stream index (index + 1) pending pending := by
  refine @steps_of_isOneOf _ _ _ _ scanned [text] ?_ (by simpa using other)
  simpa [Token.isOneOf] using text_eq

omit frames in
theorem frames_readLabel (index : Nat) : Frames stream index pending pending readLabel := by
  refine conforms_current_bind (conforms_ahead_bind (conforms_ahead_bind ?_))
  split
  next label =>
    rw [Bool.and_eq_true] at label
    exact frames_skip_bind ((steps_of_isIdentifier scanned label.1).trans
      (steps_of_text scanned label.2 (by decide))) fun _ => frames_pure _
  next =>
    split
    next label =>
      simp only [Bool.and_eq_true] at label
      exact frames_skip_bind (((steps_of_isIdentifier scanned label.1.1).trans
        (steps_of_isIdentifier scanned label.1.2)).trans
          (steps_of_text scanned label.2 (by decide))) fun _ => frames_pure _
    next => exact frames_pure _

theorem frames_readElement (index : Nat) :
    Frames stream index pending pending (readElement type) := by
  refine frames_bind (frames_readLabel scanned index) fun label next => ?_
  exact frames_bind (frames pending next) fun _ _ => frames_pure _

omit scanned frames in
theorem frames_readEffects (index : Nat) : Frames stream index pending pending readEffects := by
  refine conforms_get_bind ?_
  let words := (stream.words.drop index).takeWhile (·.isOneOf effectWords)
  have begins : words <+: stream.words.drop index := List.takeWhile_prefix _
  have plain : ∀ word ∈ words, isBare word = true := by
    intro word member
    have known : word.isOneOf effectWords = true :=
      List.all_eq_true.mp List.all_takeWhile word member
    rw [Token.isOneOf, List.contains_iff_mem] at known
    have other : ∀ text ∈ effectWords, text ∉ marks := by decide
    exact isBare_of_not_mem (other _ known)
  have bound : words.length ≤ stream.words.length - index := by
    rw [← List.length_drop]
    exact begins.length_le
  have framed : Framed pending (stream.between index (index + words.length)) [] pending := by
    rw [TokenStream.between, Nat.add_sub_cancel_left, ← List.prefix_iff_eq_take.mp begins]
    exact .of_bare plain
  exact frames_bind (conforms_skip bound framed) fun _ _ => frames_pure _

theorem frames_readParenthesised (index : Nat) :
    Frames stream index pending pending (readParenthesised type) := by
  refine frames_bind (frames_expect_opening scanned (.inl rfl)) fun _ next => ?_
  refine frames_bind (frames_listed scanned (frames_readElement scanned frames) ")" next)
    fun elements next => ?_
  refine frames_bind (frames_expect_closing scanned (.inl rfl)) fun _ next => ?_
  refine frames_bind (frames_readEffects next) fun effects next => ?_
  refine frames_check scanned (by decide) (fun next => ?_) ?_
  · exact frames_bind (frames pending next) fun _ _ => frames_pure _
  · -- Effects without an arrow are complained about, whatever the elements are.
    split
    all_goals
      split
      · exact conforms_current_bind
          (frames_bind (conforms_of_fails fun _ _ _ => reads_fail) fun _ _ => frames_pure _)
      · exact frames_pure _

end Parts

theorem frames_skipOwnershipWithin (limit index : Nat) :
    Frames stream index pending pending (skipOwnershipWithin limit) := by
  induction limit generalizing index with
  | zero => exact frames_pure _
  | succ limit inductionHypothesis =>
    refine conforms_check_bind ?_
    split
    · exact frames_bind (Attribute.frames_read scanned index) fun _ => inductionHypothesis
    · refine conforms_current_bind ?_
      split
      next word =>
        exact frames_skip_bind (steps_of_isOneOf scanned word (by decide)) inductionHypothesis
      next => exact frames_pure _

theorem frames_skipOwnership (index : Nat) :
    Frames stream index pending pending skipOwnership :=
  conforms_get_bind (frames_skipOwnershipWithin scanned _ _)

theorem frames_readPrimary {suffixed : Reading TypeExpr}
    (frames : ∀ pending index, Frames stream index pending pending suffixed) (index : Nat) :
    Frames stream index pending pending (readPrimary suffixed) := by
  have type (pending : List String) (index : Nat) :
      Frames stream index pending pending (readComposition suffixed) :=
    frames_readComposition scanned (frames pending) index
  refine frames_bind (frames_skipOwnership scanned index) fun _ next => ?_
  refine conforms_current_bind (conforms_ahead_bind ?_)
  split
  next word =>
    have constraint := (Bool.and_eq_true_iff.mp word).1
    refine frames_skip_bind (steps_of_isOneOf scanned constraint (by decide)) fun next => ?_
    exact frames_bind (frames pending next) fun _ _ => frames_pure _
  next =>
    split
    · exact frames_readParenthesised scanned type next
    · split
      · exact frames_readBracketed scanned type next
      · split
        · exact frames_readSimple scanned type next
        · exact frames_missing _

theorem frames_readSuffixesWithin (type : TypeExpr) (limit index : Nat) :
    Frames stream index pending pending (readSuffixesWithin type limit) := by
  induction limit generalizing type index with
  | zero => exact frames_pure _
  | succ limit inductionHypothesis =>
    refine conforms_ahead_bind ?_
    refine frames_check scanned (by decide) (inductionHypothesis _) ?_
    refine frames_check scanned (by decide) (inductionHypothesis _) (conforms_check_bind ?_)
    split
    next member =>
      rw [Bool.and_eq_true] at member
      exact frames_skip_bind ((steps_of_reads scanned member.1 (by decide)).trans
        (steps_of_isOneOf scanned member.2 (by decide))) (inductionHypothesis _)
    next => exact frames_pure _

theorem frames_suffixedWithin (depth index : Nat) :
    Frames stream index pending pending (suffixedWithin depth) := by
  induction depth generalizing index pending with
  | zero => exact frames_missing _
  | succ depth inductionHypothesis =>
    have primary := @frames_readPrimary _ _ pending scanned _
      (fun _ index => inductionHypothesis index) index
    refine frames_bind primary fun type next => ?_
    exact conforms_get_bind (frames_readSuffixesWithin scanned _ _ _)

theorem frames_read (index : Nat) : Frames stream index pending pending TypeExpr.read :=
  conforms_get_bind (frames_readComposition scanned (frames_suffixedWithin scanned _) index)

end TypeExpr

/-! ## Parts of declarations -/

namespace Declaration

theorem frames_readModifier {index : Nat} (word : (stream.token index).isIdentifier = true) :
    Frames stream index pending pending readModifier := by
  refine frames_bind (frames_advance (steps_of_isIdentifier scanned word)) fun word next => ?_
  refine conforms_current_bind ?_
  split
  next detail =>
    have opening := (Bool.and_eq_true_iff.mp detail).1
    refine frames_skip_bind (steps_of_opening scanned opening (.inl rfl)) fun next => ?_
    refine frames_bind (frames_expectIdentifier scanned _) fun _ next => ?_
    exact frames_bind (frames_expect_closing scanned (.inl rfl)) fun _ _ => frames_pure _
  next => exact frames_pure _

theorem frames_readModifiersWithin (limit index : Nat) :
    Frames stream index pending pending (readModifiersWithin limit) := by
  induction limit generalizing index with
  | zero => exact frames_pure _
  | succ limit inductionHypothesis =>
    refine conforms_current_bind (conforms_ahead_bind ?_)
    split
    next modifier =>
      simp only [isModifier, Bool.and_eq_true] at modifier
      refine frames_bind (frames_readModifier scanned modifier.1.1) fun _ next => ?_
      exact frames_bind (inductionHypothesis next) fun _ _ => frames_pure _
    next => exact frames_pure _

theorem frames_readModifiers (index : Nat) :
    Frames stream index pending pending readModifiers :=
  conforms_get_bind (frames_readModifiersWithin scanned _ _)

theorem frames_readType? (index : Nat) : Frames stream index pending pending readType? := by
  refine frames_check scanned (by decide) (fun next => ?_) (frames_pure _)
  exact frames_bind (TypeExpr.frames_read scanned next) fun _ _ => frames_pure _

/-- A block is a single stretch between its braces, whatever brackets are open around it. -/
theorem exists_stretch_of_readBlock {index : Nat} {text : String} {finish : Cursor}
    (read : Reads readBlock (.ofStream stream index) text finish) :
    ∃ next content, finish = .ofStream stream next ∧ index ≤ next ∧ next ≤ stream.words.length ∧
      ∀ pending, Framed pending (stream.between index next) [content] pending := by
  obtain ⟨opens, length, found, rfl⟩ := reads_readBlock_ofStream.mp ⟨text, read⟩
  obtain ⟨within, brace⟩ := isPunctuation_of_reads scanned opens rfl (by decide)
  obtain ⟨content, closer, others, split, braced, closes⟩ :=
    exists_braced_of_isSome (Option.isSome_of_eq_some found)
  have bound := (blockLength?_le found).2
  rw [List.length_drop] at bound
  rw [split, braced.blockLength?_eq closes, Option.some.injEq] at found
  refine ⟨index + 1 + length, content, rfl, by omega, by omega, fun pending => ?_⟩
  rw [TokenStream.between_cons (by omega) within, TokenStream.between, Nat.add_sub_cancel_left,
    split, ← found, List.take_length_add_append]
  exact .block brace braced closes .nil

theorem frames_readBlock (index : Nat) : Frames stream index pending pending readBlock := by
  intro text finish inside read
  obtain ⟨next, content, rfl, after, within, framed⟩ := exists_stretch_of_readBlock scanned read
  exact ⟨next, [content], rfl, after, within, framed pending⟩

theorem frames_readAccessors? (index : Nat) :
    Frames stream index pending pending readAccessors? := by
  refine conforms_check_bind ?_
  split
  · exact frames_bind (frames_readBlock scanned index) fun _ _ => frames_pure _
  · exact frames_pure _

end Declaration

end PeerExpansion
