import PeerExpansion.Proofs.Declaration.Header
import PeerExpansion.Proofs.Outcome
import PeerExpansion.Proofs.Token.Pieces

/-! # Declarations with a body

A declaration that is a keyword, a name, a header and a block is read from its keyword to the brace
that closes the block, if the end of its header is found.
-/

namespace PeerExpansion

open Reading

namespace Declaration

variable {stream : TokenStream} {index place : Nat} {last : Cursor}

/-- What is behind the keyword of a declaration other than a variable is passed up to the end of its
header, and up to the end of a block that stands there. -/
theorem exists_readBody_iff {keyword : Token} :
    (∃ name, Reads (readBody keyword) (.ofStream stream place) name last) ↔
      ∃ behind, behind = place + Extent.headerLength keyword 0 0 (stream.words.drop place) ∧
        if (stream.token behind).isPunctuation Token.openBrace = true then
          ∃ length, Extent.blockLength? 0 (stream.words.drop (behind + 1)) = some length ∧
            last = .ofStream stream (behind + 1 + length)
        else last = .ofStream stream behind := by
  have behind_eq : (Cursor.ofStream stream place).behind = stream.words.drop place := rfl
  simp only [readBody, reads_bind, reads_current, reads_get, reads_skip, and_assoc, exists_and_left,
    exists_eq_left, Cursor.skip_ofStream, Cursor.current_ofStream, behind_eq, exists_const]
  generalize place + Extent.headerLength keyword 0 0 (stream.words.drop place) = behind
  by_cases opens : (stream.token behind).isPunctuation Token.openBrace = true
  · have reads := Token.reads_of_isPunctuation opens
    have block := @reads_readBlock_ofStream stream behind last
    simp only [reads, true_and] at block
    simp [opens, ← block]
  · simp [opens]

theorem exists_read_iff_of_keyword {kind : DeclarationKind} (ordered : stream.Ordered)
    (identifier : (stream.token index).isIdentifier = true)
    (known : DeclarationKind.ofKeyword? (stream.token index).text = some kind)
    (other : kind ≠ .property)
    (leads : isModifier (stream.token index) (stream.token (index + 1)) = false) :
    (∃ declaration, Reads Declaration.read (.ofStream stream index) declaration last) ↔
      ∃ name, Reads (readBody (stream.token index)) (.ofStream stream (index + 1)) name last := by
  have plain : (stream.token index).reads "@" = false := by
    rw [Token.reads, Bool.and_eq_false_iff, beq_eq_false_iff_ne]
    refine .inr fun same => ?_
    rw [same] at known
    cases known
  -- There are neither attributes nor modifiers in front of the keyword.
  have attributesRead := (Attribute.reads_readAll_iff ordered).mpr ⟨index, rfl, .nil plain⟩
  have modifiersRead :
      Reads readModifiers (.ofStream stream index) [] (.ofStream stream index) := by
    rw [readModifiers, (reads_get.mpr ⟨rfl, rfl⟩).bind_iff]
    cases (Cursor.ofStream stream index).remaining <;> simp [readModifiersWithin, leads]
  have keywordRead : Reads readKeyword (.ofStream stream index) (stream.token index, kind)
      (.ofStream stream (index + 1)) := by
    simp [readKeyword, known, identifier]
  rw [Declaration.read]
  simp only [(reads_current.mpr ⟨rfl, rfl⟩).bind_iff, attributesRead.bind_iff,
    modifiersRead.bind_iff, keywordRead.bind_iff, other, if_false]
  simp

end Declaration

/-! ## Where the reading ends -/

/-- The tokens from `index` are a keyword of anything but a variable, a name, a header on its line
up to the brace at `brace`, and a block up to the brace at `close`. The brackets of the header are
nested, and no block opens in it outside them. The word `class` is no keyword in front of a modifier
or another keyword. -/
structure TokenStream.HasBody (stream : TokenStream) (index brace close : Nat) : Prop where
  keyword : (stream.token index).isIdentifier = true
  kind : (DeclarationKind.ofKeyword? (stream.token index).text).any (· != .property) = true
  leads : Declaration.isModifier (stream.token index) (stream.token (index + 1)) = false
  name : (stream.token (index + 1)).isIdentifier = true
  header_le : index + 2 ≤ brace
  nested : Extent.isNested [] (stream.between (index + 2) brace) = true
  plain : ∀ token ∈ Extent.outside 0 (stream.between (index + 2) brace),
    token.isPunctuation Token.openBrace = false
  lined : ∀ token ∈ stream.between (index + 2) brace,
    token.position.line = (stream.token (index + 1)).position.line
  opens : (stream.token brace).isPunctuation Token.openBrace = true
  body_lt : brace < close
  braced : Extent.Braced (stream.between (brace + 1) close)
  closes : (stream.token close).isPunctuation Token.closeBrace = true
  close_lt : close < stream.words.length

instance (stream : TokenStream) (index brace close : Nat) :
    Decidable (stream.HasBody index brace close) :=
  decidable_of_iff
    (((stream.token index).isIdentifier = true ∧
      (DeclarationKind.ofKeyword? (stream.token index).text).any (· != .property) = true ∧
      Declaration.isModifier (stream.token index) (stream.token (index + 1)) = false ∧
      (stream.token (index + 1)).isIdentifier = true) ∧
     (index + 2 ≤ brace ∧
      Extent.isNested [] (stream.between (index + 2) brace) = true ∧
      (∀ token ∈ Extent.outside 0 (stream.between (index + 2) brace),
        token.isPunctuation Token.openBrace = false) ∧
      ∀ token ∈ stream.between (index + 2) brace,
        token.position.line = (stream.token (index + 1)).position.line) ∧
      (stream.token brace).isPunctuation Token.openBrace = true ∧ brace < close ∧
      Extent.Braced (stream.between (brace + 1) close) ∧
      (stream.token close).isPunctuation Token.closeBrace = true ∧ close < stream.words.length)
    ⟨fun ⟨⟨keyword, kind, leads, name⟩, ⟨order, nested, plain, lined⟩, opens, filled, braced,
        closes, inside⟩ =>
      ⟨keyword, kind, leads, name, order, nested, plain, lined, opens, filled, braced, closes,
        inside⟩,
     fun body => ⟨⟨body.keyword, body.kind, body.leads, body.name⟩,
      ⟨body.header_le, body.nested, body.plain, body.lined⟩, body.opens, body.body_lt, body.braced,
      body.closes, body.close_lt⟩⟩

/-- The declaration at `index` can be read, and its text is the one from the token there to the end
of the one at `close`. -/
def TokenStream.EndsAt (stream : TokenStream) (index close : Nat) : Prop :=
  ∃ declaration last, Declaration.read.run (.ofStream stream index) = .ok (declaration, last) ∧
    declaration.start = (stream.token index).start ∧ declaration.stop = (stream.token close).stop

namespace TokenStream.HasBody

variable {stream : TokenStream} {index brace close : Nat}

/-- The end of the header is found at the brace. -/
def Settles (stream : TokenStream) (index brace : Nat) : Prop :=
  Extent.Settles (stream.token index) (stream.token (index + 1)) (stream.between (index + 2) brace)

variable (body : stream.HasBody index brace close)
include body

theorem drop_brace_eq : stream.words.drop (brace + 1) = stream.between (brace + 1) close ++
    stream.token close :: stream.words.drop (close + 1) :=
  drop_eq_between_append body.body_lt body.close_lt

theorem drop_name_eq : stream.words.drop (index + 1) = stream.token (index + 1) ::
    (stream.between (index + 2) brace ++
      stream.token brace :: stream.words.drop (brace + 1)) := by
  have := body.header_le
  have := body.body_lt
  have := body.close_lt
  rw [← drop_eq_between_append body.header_le (by omega),
    List.drop_eq_getElem_cons (show index + 1 < _ by omega), ← token_eq_getElem (by omega)]

/-- The header is taken to end at the brace if it settles there, and only then. -/
theorem headerLength_eq_iff : Extent.headerLength (stream.token index) 0 0
    (stream.words.drop (index + 1)) = brace - (index + 1) ↔ Settles stream index brace := by
  have := body.header_le
  have := body.body_lt
  have := body.close_lt
  have found := @Extent.headerLength_eq_iff (stream.words.drop (brace + 1)) (stream.token index) _ _
    _ body.nested body.plain body.lined body.name body.opens
  rwa [← body.drop_name_eq, length_between (by omega),
    show brace - (index + 2) + 1 = brace - (index + 1) by omega] at found

/-- No block begins where the header is taken to end, unless that is at the brace or behind it. -/
theorem not_opens {behind : Nat} (after : index < behind) (before : behind < brace)
    (length_eq : Extent.headerLength (stream.token index) 0 0 (stream.words.drop (index + 1)) =
      behind - (index + 1)) :
    (stream.token behind).isPunctuation Token.openBrace = false := by
  have := body.body_lt
  have := body.close_lt
  have split : stream.token (index + 1) :: stream.between (index + 2) brace =
      stream.between (index + 1) behind ++
        stream.token behind :: stream.between (behind + 1) brace := by
    rw [← between_cons (by omega) (by omega), between_eq_append (by omega) before (by omega)]
  rw [drop_eq_between_append (show index + 1 ≤ behind by omega) (by omega)] at length_eq
  refine Extent.not_opens_of_headerLength body.nested body.plain body.name split
    (length_eq.trans ?_)
  rw [length_between (by omega)]

/-- A block that begins in the body does not end where the body does. -/
theorem blockLength?_ne {behind : Nat} (after : brace < behind) (before : behind < close)
    (opens : (stream.token behind).isPunctuation Token.openBrace = true) :
    Extent.blockLength? 0 (stream.words.drop (behind + 1)) ≠ some (close - behind) := by
  have := body.close_lt
  have braced := body.braced
  rw [between_eq_append (show brace + 1 ≤ behind by omega) before (by omega)] at braced
  have inner := @Extent.Braced.blockLength?_inner_ne _ (stream.words.drop (close + 1)) _ _ _ braced
    opens body.closes
  rwa [← drop_eq_between_append (by omega) body.close_lt, length_between (by omega),
    show close - (behind + 1) + 1 = close - behind by omega] at inner

/-- The header is not taken to end right behind the body. -/
theorem headerLength_ne (more : close + 1 < stream.words.length) :
    Extent.headerLength (stream.token index) 0 0 (stream.words.drop (index + 1)) ≠
      close - index := by
  have := body.header_le
  have := body.body_lt
  rw [drop_eq_between_append (show index + 1 ≤ close by omega) body.close_lt,
    List.drop_eq_getElem_cons more, show close - index = close - (index + 1) + 1 by omega,
    ← length_between (Nat.le_of_lt body.close_lt)]
  exact Extent.headerLength_ne_of_closeBrace body.closes

theorem exists_read_iff (ordered : stream.Ordered) {last : Cursor} :
    (∃ declaration, Reads Declaration.read (.ofStream stream index) declaration last) ↔
      ∃ behind, behind = index + 1 + Extent.headerLength (stream.token index) 0 0
          (stream.words.drop (index + 1)) ∧
        if (stream.token behind).isPunctuation Token.openBrace = true then
          ∃ length, Extent.blockLength? 0 (stream.words.drop (behind + 1)) = some length ∧
            last = .ofStream stream (behind + 1 + length)
        else last = .ofStream stream behind := by
  obtain ⟨kind, known, other⟩ := (Option.any_eq_true _ _).mp body.kind
  rw [bne_iff_ne] at other
  rw [Declaration.exists_read_iff_of_keyword ordered body.keyword known other body.leads,
    Declaration.exists_readBody_iff]

/-- A header that settles leads to the end of the body. -/
theorem exists_read_of_settles (ordered : stream.Ordered) (settles : Settles stream index brace) :
    ∃ declaration, Reads Declaration.read (.ofStream stream index) declaration
      (.ofStream stream (close + 1)) := by
  have := body.header_le
  have := body.body_lt
  have := body.close_lt
  have block := body.braced.blockLength?_eq body.closes (stream.words.drop (close + 1))
  rw [← body.drop_brace_eq, length_between (by omega)] at block
  rw [body.exists_read_iff ordered]
  refine ⟨brace, ?_, ?_⟩
  · rw [body.headerLength_eq_iff.mpr settles]
    omega
  · rw [if_pos body.opens]
    exact ⟨_, block, congrArg _ (by omega)⟩

/-- What leads to the end of the body is a header that settles, or the end of the source. -/
theorem settles_of_read (ordered : stream.Ordered)
    (read : ∃ declaration, Reads Declaration.read (.ofStream stream index) declaration
      (.ofStream stream (close + 1))) :
    Settles stream index brace ∨ close + 1 = stream.words.length := by
  have := body.header_le
  have := body.body_lt
  have inside := body.close_lt
  obtain ⟨behind, behind_eq, found⟩ := (body.exists_read_iff ordered).mp read
  have bound := Extent.headerLength_le (stream.token index) 0 0 (stream.words.drop (index + 1))
  rw [List.length_drop] at bound
  split at found
  next opens =>
    obtain ⟨length, block, same⟩ := found
    have within := Declaration.blockLength?_le block
    rw [List.length_drop] at within
    have close_eq := Cursor.ofStream_injective inside (by omega) same
    -- No block begins in the header, and one that begins in the body ends before the body does.
    obtain before | rfl | after := Nat.lt_trichotomy behind brace
    · have plain := body.not_opens (show index < behind by omega) before (by omega)
      rw [plain] at opens
      cases opens
    · exact .inl (body.headerLength_eq_iff.mp (by omega))
    · rw [show length = close - behind by omega] at block
      exact absurd block (body.blockLength?_ne after (by omega) opens)
  next =>
    have close_eq := Cursor.ofStream_injective inside (by omega) found
    by_contra neither
    rw [not_or] at neither
    exact body.headerLength_ne (by omega) (by omega)

/-- Where a declaration with a body ends. -/
theorem endLaw_of_scan {source : List Char} (scanned : TokenStream.scan source = .ok stream) :
    (Settles stream index brace → stream.EndsAt index close) ∧
      (stream.EndsAt index close →
        Settles stream index brace ∨ close + 1 = stream.words.length) := by
  have := body.header_le
  have := body.body_lt
  have inside := body.close_lt
  obtain ⟨-, ordered⟩ := ordered_of_scan scanned
  constructor
  · intro settles
    obtain ⟨declaration, read⟩ := body.exists_read_of_settles ordered settles
    obtain ⟨_, spans⟩ := Declaration.exists_spans_of_reads ordered (by omega) inside read
    exact ⟨declaration, _, read, spans.start_eq, spans.stop_eq⟩
  · rintro ⟨declaration, last, read, -, stop_eq⟩
    obtain ⟨_, next, rfl, spans⟩ := Declaration.spans_of_reads ordered (by omega) read
    -- The last token that was passed is the one that ends where the body does.
    have same := spans.stop_eq.symm.trans stop_eq
    have filled := ordered.start_lt_stop spans.last_lt
    have otherFilled := ordered.start_lt_stop inside
    have := ordered.le_of_start_lt_stop inside (filled.trans_eq same)
    have := ordered.le_of_start_lt_stop spans.last_lt (otherFilled.trans_eq same.symm)
    have := spans.index_lt
    obtain rfl : next = close + 1 := by omega
    exact body.settles_of_read ordered ⟨declaration, read⟩

end TokenStream.HasBody

/-- A generic type with a member, and a variable behind it. -/
def genericTypeSample : List Char :=
  "struct Box<T> where T: Any \x7b\n  func f() \x7b \x7d\n\x7d\nlet y = 1".toList

set_option maxRecDepth 20000 in
theorem TokenStream.endsAt_genericTypeSample : ∃ stream, scan genericTypeSample = .ok stream ∧
    stream.HasBody 0 9 16 ∧ HasBody.Settles stream 0 9 ∧ stream.EndsAt 0 16 := by
  have evaluated : (scan genericTypeSample).toOption.any (fun stream =>
      decide (stream.HasBody 0 9 16 ∧
        Extent.headerLength (stream.token 0) 0 0 (stream.words.drop 1) = 8)) = true := by
    decide +kernel
  obtain ⟨stream, scanned, known⟩ := exists_of_any evaluated
  obtain ⟨body, length_eq⟩ := of_decide_eq_true known
  have settles := body.headerLength_eq_iff.mp length_eq
  exact ⟨stream, scanned, body, settles, (body.endLaw_of_scan scanned).1 settles⟩

/-- A name in the line behind its keyword. -/
def nextLineSample : List Char :=
  "func\nload() \x7b\n\x7d".toList

/-- A comparison in the value that a parameter has by default. -/
def comparisonSample : List Char :=
  "func f(x: Bool = a<b) \x7b\n\x7d\nvar y: Int".toList

set_option maxRecDepth 20000 in
/-- The first declaration ends in front of its name, and the second runs on over the variable behind
it. -/
theorem TokenStream.not_endsAt_comparisonSample :
    (∃ stream, scan nextLineSample = .ok stream ∧ stream.HasBody 0 4 5 ∧ ¬ stream.EndsAt 0 5) ∧
      ∃ stream, scan comparisonSample = .ok stream ∧ stream.HasBody 0 11 12 ∧
        ¬ stream.EndsAt 0 12 := by
  have elsewhere {stream : TokenStream} {close : Nat}
      (evaluated : (Declaration.read.run (.ofStream stream 0)).toOption.any
        (·.1.stop != (stream.token close).stop) = true) : ¬ stream.EndsAt 0 close := by
    rintro ⟨declaration, last, read, -, stop_eq⟩
    rw [read] at evaluated
    simp [Except.toOption, stop_eq] at evaluated
  have nextLine : (scan nextLineSample).toOption.any (fun stream =>
      decide (stream.HasBody 0 4 5) && (Declaration.read.run (.ofStream stream 0)).toOption.any
        (·.1.stop != (stream.token 5).stop)) = true := by
    decide +kernel
  have comparison : (scan comparisonSample).toOption.any (fun stream =>
      decide (stream.HasBody 0 11 12) && (Declaration.read.run (.ofStream stream 0)).toOption.any
        (·.1.stop != (stream.token 12).stop)) = true := by
    decide +kernel
  obtain ⟨stream, scanned, known⟩ := exists_of_any nextLine
  obtain ⟨other, otherScanned, otherKnown⟩ := exists_of_any comparison
  obtain ⟨body, read⟩ := Bool.and_eq_true_iff.mp known
  obtain ⟨otherBody, otherRead⟩ := Bool.and_eq_true_iff.mp otherKnown
  exact ⟨⟨stream, scanned, of_decide_eq_true body, elsewhere read⟩,
    other, otherScanned, of_decide_eq_true otherBody, elsewhere otherRead⟩

end PeerExpansion
