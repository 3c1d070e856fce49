import PeerExpansion.Proofs.Declaration.Body
import PeerExpansion.Proofs.Declaration.Framing
import PeerExpansion.Proofs.Declaration.Initializer

/-! # Brackets of declarations

A declaration that is read has nested brackets if those in its arguments, blocks, initializers and
header are nested, and only then. Brackets may be left open in two of its parts alone: a header, and
an initializer that goes on to the end of the source.
-/

namespace PeerExpansion

open Extent Reading

/-! ## Where expressions end -/

namespace Extent

theorem initializer_of_expressionLength {previous : Token} {depth : Nat} {tokens : List Token}
    (shorter : expressionLength previous depth tokens < tokens.length) :
    (tokens.take (expressionLength previous depth tokens)).foldl depthBehind depth = 0 ∧
      ∀ token ∈ outside depth (tokens.take (expressionLength previous depth tokens)),
        endsExpression token = false := by
  induction tokens generalizing previous depth with
  | nil => cases shorter
  | cons token tokens inductionHypothesis =>
    rw [expressionLength] at shorter ⊢
    split at shorter
    next stops =>
      rw [if_pos stops]
      simp only [Bool.and_eq_true, decide_eq_true_eq] at stops
      simp [stops.1, outside]
    next goes =>
      rw [if_neg goes, List.take_succ_cons, List.foldl_cons, outside]
      obtain ⟨closed, plain⟩ := inductionHypothesis (Nat.lt_of_succ_lt_succ shorter)
      refine ⟨closed, ?_⟩
      split
      next none =>
        subst none
        refine List.forall_mem_cons.mpr ⟨?_, plain⟩
        simp only [decide_true, Bool.true_and, Bool.or_eq_true, not_or, Bool.not_eq_true] at goes
        exact goes.1
      next => exact plain

theorem isInitializer_of_expressionLength {previous : Token} {tokens : List Token}
    (shorter : expressionLength previous 0 tokens < tokens.length) :
    IsInitializer (tokens.take (expressionLength previous 0 tokens)) := by
  obtain ⟨closed, goes⟩ := initializer_of_expressionLength shorter
  exact ⟨closed, goes⟩

end Extent

/-! ## Outlines of variables -/

namespace TokenStream

/-- The tokens from `index` up to, but without, `next` are framed, or those in front of `loose` are:
an initializer that goes on to the end of the source. -/
inductive Outlined (stream : TokenStream) (index next : Nat) :
    List (List Token) → List Token → Prop
  | whole {stretches : List (List Token)} :
      Framed [] (stream.between index next) stretches [] → Outlined stream index next stretches []
  | loose {place : Nat} {stretches : List (List Token)} : index < place → place ≤ next →
      next = stream.words.length → (stream.token (place - 1)).reads "=" = true →
        Framed [] (stream.between index place) stretches [] →
          Outlined stream index next stretches (stream.between place next)

end TokenStream

namespace Reading

variable {α β : Type} {source : List Char} {stream : TokenStream} {index next behind : Nat}

theorem outlined_append {stretches others : List (List Token)} {loose : List Token}
    (framed : Framed [] (stream.between index next) stretches []) (after : index ≤ next)
    (later : next ≤ behind) (rest : stream.Outlined next behind others loose) :
    stream.Outlined index behind (stretches ++ others) loose := by
  cases rest with
  | whole rest =>
    refine .whole ?_
    rw [← TokenStream.between_append after later]
    exact framed.append rest
  | @loose place _ before within ends equals rest =>
    refine .loose (Nat.lt_of_le_of_lt after before) within ends equals ?_
    rw [← TokenStream.between_append after (Nat.le_of_lt before)]
    exact framed.append rest

/-- What is read from the token at `index` on takes the tokens of an outline. -/
def Outlines (stream : TokenStream) (index : Nat) (reading : Reading α) : Prop :=
  ∀ value finish, index ≤ stream.words.length →
    Reads reading (.ofStream stream index) value finish →
    ∃ next stretches loose, finish = .ofStream stream next ∧ index ≤ next ∧
      next ≤ stream.words.length ∧ stream.Outlined index next stretches loose

theorem outlines_of_frames {reading : Reading α} (frames : Frames stream index [] [] reading) :
    Outlines stream index reading := by
  intro value finish inside read
  obtain ⟨next, stretches, rfl, after, within, framed⟩ := frames _ _ inside read
  exact ⟨next, stretches, [], rfl, after, within, .whole framed⟩

theorem outlines_pure (value : α) : Outlines stream index (pure value) :=
  outlines_of_frames (frames_pure value)

theorem outlines_bind {reading : Reading α} {continued : α → Reading β}
    (front : Outlines stream index reading)
    (back : ∀ value next, Outlines stream next (continued value)) :
    Outlines stream index (reading >>= continued) := by
  intro value finish inside read
  obtain ⟨given, _, frontRead, backRead⟩ := reads_bind.mp read
  obtain ⟨next, stretches, loose, rfl, after, within, outlined⟩ := front _ _ inside frontRead
  obtain ⟨behind, others, rest, rfl, later, bound, outlinedRest⟩ :=
    back given next _ _ within backRead
  cases outlined with
  | whole framed =>
    exact ⟨behind, _, rest, rfl, Nat.le_trans after later, bound,
      outlined_append framed after later outlinedRest⟩
  | loose before within ends equals framed =>
    -- Behind an initializer that goes on to the end there is nothing more to read.
    obtain rfl : behind = next := by omega
    exact ⟨behind, _, _, rfl, after, bound, .loose before within ends equals framed⟩

theorem outlines_check_bind {text : String} {continued : Bool → Reading β}
    (back : Outlines stream index (continued ((stream.token index).reads text))) :
    Outlines stream index (check text >>= continued) := by
  have looks : Reads (check text) (.ofStream stream index) ((stream.token index).reads text)
      (.ofStream stream index) := reads_check.mpr ⟨by rw [Cursor.current_ofStream], rfl⟩
  intro value finish inside read
  exact back value finish inside (looks.bind_iff.mp read)

theorem outlines_separated {item : Reading α} (scanned : TokenStream.scan source = .ok stream)
    (outlines : ∀ index, Outlines stream index item) (index : Nat) :
    Outlines stream index (separated "," item) := by
  have within (limit index : Nat) : Outlines stream index (separatedWithin "," item limit) := by
    induction limit generalizing index with
    | zero => exact outlines_bind (outlines index) fun _ _ => outlines_pure _
    | succ limit inductionHypothesis =>
      refine outlines_bind (outlines index) fun first next => outlines_check_bind ?_
      split
      next reads =>
        have comma : Frames stream next [] [] advance :=
          frames_advance (steps_of_reads scanned reads (by decide))
        refine outlines_bind (outlines_of_frames comma) fun _ behind => ?_
        exact outlines_bind (inductionHypothesis behind) fun _ _ => outlines_pure _
      next => exact outlines_pure _
  intro value finish inside read
  have looks : Reads get (.ofStream stream index) (.ofStream stream index)
      (.ofStream stream index) := reads_get.mpr ⟨rfl, rfl⟩
  exact within _ index value finish inside (looks.bind_iff.mp read)

end Reading

namespace Declaration

variable {source : List Char} {stream : TokenStream} {index next place : Nat} {last : Cursor}

section Readings

variable (scanned : TokenStream.scan source = .ok stream)
include scanned

/-- An initializer ends in front of a token with no bracket counted as open, or with the source. -/
theorem exists_initializer_of_reads {text : String}
    (read : Reads readInitializer (.ofStream stream place) text last) :
    ∃ next, last = .ofStream stream next ∧ place ≤ next ∧ next ≤ stream.words.length ∧
      (next < stream.words.length → IsInitializer (stream.between place next)) := by
  obtain ⟨-, ordered⟩ := TokenStream.ordered_of_scan scanned
  have starts := (reads_readInitializer.mp read).1
  rw [Cursor.current_ofStream, Bool.or_eq_true, not_or] at starts
  have inside : place < stream.words.length :=
    ordered.lt_length_of_kind_ne (by simpa using starts.1)
  have known := reads_readInitializer_ofStream ordered inside (Bool.eq_false_iff.mpr starts.2) rfl
  have bound := expressionLength_le (stream.token place) 0 (stream.words.drop place)
  rw [List.length_drop] at bound
  refine ⟨_, (read.unique known).2, Nat.le_add_right _ _, by omega, fun shorter => ?_⟩
  rw [TokenStream.between, Nat.add_sub_cancel_left]
  apply isInitializer_of_expressionLength
  rw [List.length_drop]
  omega

theorem outlines_readInitializer? (index : Nat) :
    Outlines stream index readInitializer? := by
  refine outlines_check_bind ?_
  split
  next equals =>
    have step : Steps stream index (index + 1) [] [] := steps_of_reads scanned equals (by decide)
    have inside := step.next_le
    intro value finish _ read
    simp only [reads_bind, reads_skip, reads_pure, Cursor.skip_ofStream, exists_eq_left,
      exists_const] at read
    obtain ⟨text, _, read, rfl, rfl⟩ := read
    obtain ⟨next, rfl, after, within, initializer⟩ := exists_initializer_of_reads scanned read
    obtain shorter | rfl := Nat.lt_or_eq_of_le within
    · refine ⟨next, [stream.between (index + 1) next], [], rfl, by omega, within, .whole ?_⟩
      rw [TokenStream.between_cons (by omega) inside]
      have framed := Framed.initializer equals (initializer shorter) .nil
      rwa [List.append_nil] at framed
    · exact ⟨_, [], _, rfl, by omega, within,
        .loose (Nat.lt_succ_self _) after rfl equals step.framed⟩
  next => exact outlines_pure _

theorem outlines_readBinding (index : Nat) : Outlines stream index readBinding := by
  refine outlines_bind (outlines_of_frames (Pattern.frames_read scanned index))
    fun pattern next => ?_
  refine outlines_bind (outlines_of_frames (frames_readType? scanned next)) fun type next => ?_
  refine outlines_bind (outlines_readInitializer? scanned next) fun initializer next => ?_
  exact outlines_bind (outlines_of_frames (frames_readAccessors? scanned next)) fun _ _ =>
    outlines_pure _

end Readings

/-- The stretches of a declaration that are passed over, and the tokens in which brackets may be
left open. In a variable those are an initializer that goes on to the end of the source. In any
other declaration they are the header, from the keyword to where it is taken to end. -/
inductive Outline (declaration : Declaration) (stream : TokenStream) (index next : Nat) :
    List (List Token) → List Token → Prop
  | property {stretches : List (List Token)} {loose : List Token} :
      declaration.isProperty = true → stream.Outlined index next stretches loose →
        declaration.Outline stream index next stretches loose
  | other {place behind : Nat} {front back : List (List Token)} :
      declaration.isProperty = false → index < place →
        declaration.IsKeyword (stream.token (place - 1)) →
          Framed [] (stream.between index place) front [] →
            behind = place + headerLength (stream.token (place - 1)) 0 0 (stream.words.drop place) →
              behind ≤ next →
                (∀ pending, Framed pending (stream.between behind next) back pending) →
                  declaration.Outline stream index next (front ++ back)
                    (stream.between place behind)

/-- A declaration that is read has an outline. -/
theorem exists_outline_of_reads {declaration : Declaration}
    (scanned : TokenStream.scan source = .ok stream) (inside : index ≤ stream.words.length)
    (read : Reads Declaration.read (.ofStream stream index) declaration last) :
    ∃ next stretches loose, last = .ofStream stream next ∧ index ≤ next ∧
      next ≤ stream.words.length ∧ declaration.Outline stream index next stretches loose := by
  obtain ⟨_, _, parts⟩ := readInParts_of_reads read
  obtain ⟨first, attributed, rfl, after, within, framed⟩ :=
    Attribute.frames_readAll scanned index _ _ inside parts.attributes
  obtain ⟨place, modified, rfl, later, bound, rest⟩ :=
    frames_readModifiers scanned first _ _ within parts.modifiers
  have keyword : declaration.IsKeyword (stream.token (place + 1 - 1)) :=
    Cursor.current_ofStream ▸ parts.keyword
  have tail := parts.rest
  rw [Cursor.current_ofStream, Cursor.skip_ofStream] at tail
  have step : Steps stream place (place + 1) [] [] :=
    steps_of_isIdentifier scanned keyword.identifier
  -- Up to the keyword nothing is left open; what is behind it depends on the kind.
  have front :
      Framed [] (stream.between index (place + 1)) (attributed ++ (modified ++ [])) [] := by
    rw [← TokenStream.between_append after (show first ≤ place + 1 by omega),
      ← TokenStream.between_append later (Nat.le_succ place)]
    exact framed.append (rest.append step.framed)
  obtain ⟨property, bindingsRead⟩ | ⟨other, -, nameRead⟩ := tail
  · obtain ⟨next, stretches, loose, rfl, behind, finished, outlined⟩ :=
      outlines_separated scanned (outlines_readBinding scanned) _ _ _ step.next_le bindingsRead
    exact ⟨next, _, loose, rfl, by omega, finished,
      .property property (outlined_append front (by omega) behind outlined)⟩
  · obtain ⟨behind, behind_eq, body⟩ := exists_readBody_iff.mp ⟨declaration.name, nameRead⟩
    have inside := step.next_le
    have header := headerLength_le (stream.token place) 0 0 (stream.words.drop (place + 1))
    rw [List.length_drop] at header
    split at body
    next opens =>
      obtain ⟨text, block⟩ :=
        reads_readBlock_ofStream.mpr ⟨Token.reads_of_isPunctuation opens, body⟩
      obtain ⟨next, content, rfl, shut, finished, framed⟩ :=
        exists_stretch_of_readBlock scanned block
      exact ⟨next, _, _, rfl, by omega, finished,
        .other other (by omega) keyword front behind_eq shut framed⟩
    next =>
      subst body
      have ended (pending : List String) :
          Framed pending (stream.between behind behind) [] pending := by
        rw [TokenStream.between_self]
        exact .nil
      exact ⟨behind, _, _, rfl, by omega, by omega,
        .other other (by omega) keyword front behind_eq (Nat.le_refl _) ended⟩

/-! ## The law of brackets -/

/-- The brackets can be followed through a declaration if they are nested in every stretch that is
passed over and can be followed through what may leave some of them open. -/
theorem Outline.stillOpen_iff {declaration : Declaration} {stretches : List (List Token)}
    {loose : List Token} (outline : declaration.Outline stream index next stretches loose)
    {pending : List String} : stillOpen [] (stream.between index next) = some pending ↔
      (∀ stretch ∈ stretches, isNested [] stretch = true) ∧
        stillOpen [] loose = some pending := by
  cases outline with
  | property _ outlined =>
    cases outlined with
    | whole framed =>
      rw [framed.stillOpen_iff, stillOpen_nil, Option.some.injEq]
      exact and_congr_right fun _ => eq_comm
    | loose before within _ _ framed =>
      simp only [← TokenStream.between_append (Nat.le_of_lt before) within, Extent.stillOpen_append,
        framed.stillOpen_iff, and_assoc, exists_and_left, exists_eq_left]
  | @other place behind _ _ _ before _ framed behind_eq within rest =>
    have after : place ≤ behind := by omega
    simp only [← TokenStream.between_append (show index ≤ behind by omega) within,
      ← TokenStream.between_append (Nat.le_of_lt before) after, Extent.stillOpen_append,
      framed.stillOpen_iff, (rest _).stillOpen_iff, List.forall_mem_append]
    constructor
    · rintro ⟨_, ⟨_, ⟨nested, rfl⟩, runs⟩, further, rfl⟩
      exact ⟨⟨nested, further⟩, runs⟩
    · rintro ⟨⟨nested, further⟩, runs⟩
      exact ⟨pending, ⟨[], ⟨nested, rfl⟩, runs⟩, further, rfl⟩

/-- A source that holds a single declaration and perhaps a semicolon behind its first `next` words.
The brackets of the declaration are nested if they are in every stretch that is passed over and in
what may leave brackets open. Where no bracket is closed by a wrong mark, those that are open behind
the declaration are those that `loose` leaves open. -/
structure BracketLaw (source : List Char) (declaration : Declaration) (stream : TokenStream)
    (next : Nat) (stretches : List (List Token)) (loose : List Token) : Prop where
  scanned : TokenStream.scan source = .ok stream
  alone : declaration.Alone stream next
  outline : declaration.Outline stream 0 next stretches loose
  nested_iff : isNested [] (stream.words.take next) = true ↔
    (∀ stretch ∈ stretches, isNested [] stretch = true) ∧ isNested [] loose = true
  open_iff : ∀ pending, stillOpen [] (stream.words.take next) = some pending ↔
    (∀ stretch ∈ stretches, isNested [] stretch = true) ∧ stillOpen [] loose = some pending

theorem bracketLaw_of_parse {declaration : Declaration}
    (parsed : Declaration.parse source = .ok declaration) :
    ∃ stream next stretches loose,
      declaration.BracketLaw source stream next stretches loose := by
  obtain ⟨stream, _, next, scanned, spans, alone⟩ := exists_alone_of_parse parsed
  obtain ⟨other, stretches, loose, same, -, within, outline⟩ :=
    exists_outline_of_reads scanned (Nat.zero_le _) alone.reads
  obtain rfl := Cursor.ofStream_injective spans.next_le within same
  have whole : stream.words.take next = stream.between 0 next := by
    rw [TokenStream.between, List.drop_zero, Nat.sub_zero]
  refine ⟨stream, next, stretches, loose, scanned, alone, outline, ?_, fun pending => ?_⟩
  · rw [isNested_iff, isNested_iff, whole, outline.stillOpen_iff]
  · rw [whole, outline.stillOpen_iff]

/-- Two variables with brackets in their attribute, modifier, initializer, pattern, type and
accessors. -/
def accessorSample : List Char :=
  "@Cached(of: [1, 2]) private(set) var x = f(1), (y, z): [Int] \x7b get \x7b 2 \x7d \x7d".toList

set_option maxRecDepth 20000 in
theorem bracketLaw_accessorSample : ∃ declaration,
    Declaration.parse accessorSample = .ok declaration ∧
      declaration.stop = accessorSample.length ∧ ∃ stream next stretches loose,
        declaration.BracketLaw accessorSample stream next stretches loose := by
  have evaluated : (Declaration.parse accessorSample).toOption.any
      (·.stop == accessorSample.length) = true := by
    decide +kernel
  obtain ⟨declaration, parsed, stop_eq⟩ := exists_of_any evaluated
  exact ⟨declaration, parsed, eq_of_beq stop_eq, bracketLaw_of_parse parsed⟩

/-- A block in which a parenthesis is closed by a square bracket. -/
def mixedSample : List Char :=
  "var x: Int \x7b (1] \x7d".toList

set_option maxRecDepth 20000 in
/-- The declaration is read, although its brackets are not nested. -/
theorem mixedSample_not_nested : ∃ declaration stream next,
    Declaration.parse mixedSample = .ok declaration ∧ TokenStream.scan mixedSample = .ok stream ∧
      declaration.Alone stream next ∧ isNested [] (stream.words.take next) = false := by
  have accepted : (Declaration.parse mixedSample).toOption.any
      (·.stop == mixedSample.length) = true := by
    decide +kernel
  have scans : (TokenStream.scan mixedSample).toOption.any (fun stream =>
      decide (stream.words.length = 9 ∧ isNested [] stream.words = false ∧
        (stream.token 8).isPunctuation ";" = false)) = true := by
    decide +kernel
  obtain ⟨declaration, parsed, -⟩ := exists_of_any accepted
  obtain ⟨stream, _, next, scanned, -, alone⟩ := exists_alone_of_parse parsed
  obtain ⟨other, same, known⟩ := exists_of_any scans
  obtain rfl := Except.ok.inj (same.symm.trans scanned)
  obtain ⟨length_eq, mixed, plain⟩ := of_decide_eq_true known
  have whole : other.words.length ≤ next := by
    obtain all | ⟨semicolon, within⟩ := alone.ends
    · exact all
    · by_contra shorter
      obtain rfl : next = 8 := by omega
      rw [plain] at semicolon
      cases semicolon
  exact ⟨declaration, other, next, parsed, scanned, alone, by rwa [List.take_of_length_le whole]⟩

end Declaration

end PeerExpansion
