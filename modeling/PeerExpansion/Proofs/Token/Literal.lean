import PeerExpansion.Proofs.Outcome
import PeerExpansion.Proofs.Token.Quotation
import PeerExpansion.Proofs.Token.Seam

/-! # How string literals are read

The end of a literal on one line is looked for past escapes and interpolations, that of a literal
between triple quotes is just the next triple quote. So the literals of a source are closed as they
are meant to be where no literal between triple quotes is closed by one that is not free.
-/

namespace PeerExpansion

/-! ## Literals that are read to their marks -/

section Each

variable {Fits : LiteralFrame → List Char → List Char → Prop} {frame : LiteralFrame}
variable {text behind : List Char}

/-- If the literal is between triple quotes, it is closed by a free mark. -/
def BlockClosesFree (frame : LiteralFrame) (text behind : List Char) : Prop :=
  frame = .block → ClosesFree frame text behind

/-- A literal in which backslashes do not count is closed by the next mark. -/
theorem Closes.not_mark_prefix {minds : LiteralFrame → Bool} {offset earlier : Nat}
    (closes : Closes minds Fits .block text behind) (careless : minds .block = false)
    (split : text.drop offset = LiteralFrame.block.mark ++ behind) (before : earlier < offset) :
    ¬ LiteralFrame.block.mark <+: text.drop earlier := by
  generalize frame_eq : LiteralFrame.block = frame at closes
  induction closes generalizing offset earlier with
  | block =>
    have length_eq := congrArg List.length split
    simp [LiteralFrame.mark] at length_eq
    omega
  | escape _ minded | interpolation _ minded =>
    subst frame_eq
    rw [careless] at minded
    cases minded
  | character _ _ unmarked _ inductionHypothesis =>
    subst frame_eq
    cases offset with
    | zero => cases before
    | succ offset =>
      cases earlier with
      | zero => exact unmarked
      | succ earlier => exact inductionHypothesis split (Nat.lt_of_succ_lt_succ before) rfl
  | _ => cases frame_eq

theorem ClosesFree.closesFirst (free : ClosesFree .block text behind)
    (closes : Closes (· == .line) Fits .block text behind) : ClosesFirst .block text behind := by
  obtain ⟨offset, split, outside⟩ := free
  refine ⟨offset, split, outside, fun earlier before marked => ?_⟩
  exact absurd marked (closes.not_mark_prefix rfl split before)

/-- Where the literals between triple quotes are closed by free marks, all literals are closed by
their first ones, and what is around them is closed as meant. -/
theorem Closes.closesFirst (closes : Closes (· == .line) BlockClosesFree frame text behind) :
    Closes (· == .line) ClosesFirst frame text behind ∧
      (frame ≠ .block → ClosesAsMeant frame text behind) := by
  induction closes with
  | line => exact ⟨.line, fun _ => .line⟩
  | block => exact ⟨.block, fun single => absurd rfl single⟩
  | escape literal minded plain _ inductionHypothesis =>
    obtain ⟨inner, meant⟩ := inductionHypothesis
    exact ⟨.escape literal minded plain inner,
      fun single => .escape literal literal plain (meant single)⟩
  | interpolation literal minded _ _ innerHypothesis outerHypothesis =>
    obtain ⟨inner, innerMeant⟩ := innerHypothesis
    obtain ⟨outer, outerMeant⟩ := outerHypothesis
    exact ⟨.interpolation literal minded inner outer, fun single =>
      .interpolation literal literal (innerMeant nofun) (outerMeant single)⟩
  | @character frame _ _ _ literal plain unmarked _ inductionHypothesis =>
    obtain ⟨inner, meant⟩ := inductionHypothesis
    refine ⟨.character literal plain unmarked inner, fun single => ?_⟩
    -- Only the literal of a line is left, and there backslashes count either way.
    have minded : (frame == .line) = true := by
      cases frame with
      | line => rfl
      | block => exact absurd rfl single
      | interpolation => cases literal
    exact .character literal (fun _ => plain minded) unmarked (meant single)
  | parenthesis => exact ⟨.parenthesis, fun _ => .parenthesis⟩
  | opening _ inductionHypothesis =>
    obtain ⟨inner, meant⟩ := inductionHypothesis
    exact ⟨.opening inner, fun _ => .opening (meant nofun)⟩
  | closing _ inductionHypothesis =>
    obtain ⟨inner, meant⟩ := inductionHypothesis
    exact ⟨.closing inner, fun _ => .closing (meant nofun)⟩
  | innerLine single _ _ _ innerHypothesis outerHypothesis =>
    obtain ⟨inner, innerMeant⟩ := innerHypothesis
    obtain ⟨outer, outerMeant⟩ := outerHypothesis
    have closed := innerMeant nofun
    exact ⟨.innerLine single ((closesAsMeant_iff rfl).mp closed) inner outer,
      fun _ => .innerLine single trivial closed (outerMeant nofun)⟩
  | innerBlock free closes _ innerHypothesis outerHypothesis =>
    obtain ⟨inner, -⟩ := innerHypothesis
    obtain ⟨outer, outerMeant⟩ := outerHypothesis
    -- The block is closed by a free mark, so by its first one, and that is as it is meant.
    have first := (free rfl).closesFirst closes
    exact ⟨.innerBlock first inner outer, fun _ =>
      .innerBlock trivial ((closesAsMeant_iff rfl).mpr first) (outerMeant nofun)⟩
  | code plain _ inductionHypothesis =>
    obtain ⟨inner, meant⟩ := inductionHypothesis
    exact ⟨.code plain inner, fun _ => .code plain (meant nofun)⟩

theorem eachLiteral_closesFirst_iff (literal : frame.isLiteral = true) :
    EachLiteral ClosesFirst frame text behind ↔ EachLiteral BlockClosesFree frame text behind := by
  constructor
  · rintro ⟨⟨offset, split, free, -⟩, closes⟩
    refine ⟨fun _ => ⟨offset, split, free⟩, closes.mono fun frame text behind first _ => ?_⟩
    obtain ⟨offset, split, free, -⟩ := first
    exact ⟨offset, split, free⟩
  · rintro ⟨free, closes⟩
    obtain ⟨first, meant⟩ := closes.closesFirst
    refine ⟨?_, first⟩
    cases frame with
    | line => exact (closesAsMeant_iff rfl).mp (meant nofun)
    | block => exact (free rfl).closesFirst closes
    | interpolation => cases literal

end Each

/-! ## Reading a literal -/

/-- The open frames are closed one after another, the innermost first, in front of `behind`. -/
def Unwinds : List LiteralFrame → List Char → List Char → Prop
  | [], text, behind => text = behind
  | frame :: frames, text, behind =>
    ∃ later, Closes (· == .line) (fun _ _ _ => True) frame text later ∧
      Unwinds frames later behind

/-- An end that is found closes all frames that are open. -/
theorem unwinds_of_framesEnd {opened : List LiteralFrame} {text behind : List Char}
    (closed : framesEnd opened text = .ok behind) : Unwinds opened text behind := by
  apply framesEnd_induction ?_ ?_ closed
  · rfl
  intro opened taken text left step unwinds
  -- A frame that stays open is closed further on, and one that a step opens in front of it.
  cases step with
  | escape plain =>
    obtain ⟨later, closes, unwinds⟩ := unwinds
    exact ⟨later, .escape rfl rfl plain closes, unwinds⟩
  | interpolation =>
    obtain ⟨later, inner, further, outer, unwinds⟩ := unwinds
    exact ⟨further, .interpolation rfl rfl inner outer, unwinds⟩
  | line => exact ⟨text, .line, unwinds⟩
  | character slash quote feed =>
    obtain ⟨later, closes, unwinds⟩ := unwinds
    refine ⟨later, .character rfl (fun _ => slash) ?_ closes, unwinds⟩
    simpa [LiteralFrame.mark, eq_comm] using quote
  | block => exact ⟨text, .block, unwinds⟩
  | blockCharacter plain =>
    obtain ⟨later, closes, unwinds⟩ := unwinds
    exact ⟨later, .character rfl (absurd · Bool.false_ne_true) plain closes, unwinds⟩
  | opening =>
    obtain ⟨later, closes, unwinds⟩ := unwinds
    exact ⟨later, .opening closes, unwinds⟩
  | closing =>
    obtain ⟨later, closes, unwinds⟩ := unwinds
    exact ⟨later, .closing closes, unwinds⟩
  | parenthesis => exact ⟨text, .parenthesis, unwinds⟩
  | innerLine single =>
    obtain ⟨later, inner, further, outer, unwinds⟩ := unwinds
    exact ⟨further, .innerLine single trivial inner outer, unwinds⟩
  | innerBlock =>
    obtain ⟨later, inner, further, outer, unwinds⟩ := unwinds
    exact ⟨further, .innerBlock trivial inner outer, unwinds⟩
  | code plain feed =>
    obtain ⟨later, closes, unwinds⟩ := unwinds
    exact ⟨later, .code plain closes, unwinds⟩

/-! ## Literals of a source -/

/-- A literal of the frame stands at the head of `quotation`, and `text` is what is behind its
opening mark. -/
structure LiteralFrame.Opens (frame : LiteralFrame) (quotation text : List Char) : Prop where
  literal : frame.isLiteral = true
  split : quotation = frame.mark ++ text
  single : frame = .line → ¬ ['"', '"'] <+: text

section Pieces

variable {first : Char} {rest : List Char} {length : Nat}

theorem quote_of_pieceAt (measured : pieceAt first rest = .ok (.token .string, length)) :
    first = '"' := by
  cases pieceForm_of_pieceAt measured with
  | blockLiteral | lineLiteral => rfl
  | word _ _ _ word => exact absurd rfl (kind_of_word? word).2

/-- A literal is measured from the end of its opening mark, of which `front` is read before. -/
theorem closes_of_measured {frame : LiteralFrame} {front text : List Char} {piece : Piece}
    (measured : ((literalEnd frame [] text).map fun left =>
      (Piece.token .string, text.length + front.length - left.length)) = .ok (piece, length)) :
    Closes (· == .line) (fun _ _ _ => True) frame text ((front ++ text).drop length) := by
  obtain ⟨body, left, rfl, -, rfl, closed⟩ := exists_body_of_measured measured
  obtain ⟨behind, closes, rfl⟩ := @unwinds_of_framesEnd [frame] _ _ (closed left)
  rw [← List.append_assoc, List.drop_left' (by rw [List.length_append, Nat.add_comm])]
  exact closes

/-- A piece that is a string is a literal that is read to its end. -/
theorem exists_opens_of_pieceAt (measured : pieceAt first rest = .ok (.token .string, length)) :
    ∃ frame text, LiteralFrame.Opens frame (first :: rest) text ∧
      Closes (· == .line) (fun _ _ _ => True) frame text (rest.drop length) := by
  obtain rfl := quote_of_pieceAt measured
  by_cases double : ['"', '"'] <+: rest
  · obtain ⟨text, rfl⟩ := double
    rw [List.cons_append, List.singleton_append, pieceAt_blockLiteral] at measured
    exact ⟨.block, text, ⟨rfl, rfl, nofun⟩, @closes_of_measured _ _ ['"', '"'] _ _ measured⟩
  · rw [pieceAt_lineLiteral double] at measured
    exact ⟨.line, rest, ⟨rfl, rfl, fun _ => double⟩, @closes_of_measured _ _ [] _ _ measured⟩

end Pieces

/-- Every string of a source is a literal that is read to its end, where backslashes count on one
line only. It and the literals in its interpolations are all closed by their first free marks if
and only if those of them between triple quotes are closed by free ones. -/
theorem TokenStream.exists_closes_of_scan {source : List Char} {stream : TokenStream}
    {token : Token} (scanned : scan source = .ok stream) (member : token ∈ stream.words)
    (kind_eq : token.kind = .string) :
    ∃ frame text, LiteralFrame.Opens frame (source.drop token.start) text ∧
      Closes (· == .line) (fun _ _ _ => True) frame text (source.drop token.stop) ∧
      (EachLiteral ClosesFirst frame text (source.drop token.stop) ↔
        EachLiteral BlockClosesFree frame text (source.drop token.stop)) := by
  obtain ⟨index, inside, rfl⟩ := List.mem_iff_getElem.mp member
  obtain ⟨first, taken, -, split, measured⟩ := exists_piece scanned inside
  rw [token_eq_getElem inside] at split measured
  rw [kind_eq] at measured
  obtain ⟨frame, text, opens, closes⟩ := exists_opens_of_pieceAt measured
  rw [List.drop_left] at closes
  rw [split]
  exact ⟨frame, text, opens, closes, eachLiteral_closesFirst_iff opens.literal⟩

/-- A literal on one line with another one, between triple quotes, in an interpolation. -/
def quotationSample : List Char :=
  "\"\\(\"\"\"a\\\"b\"\"\")\\\\\"".toList

def quotationToken : Token :=
  ⟨.string, "\"\\(\"\"\"a\\\"b\"\"\")\\\\\"", .start⟩

set_option maxRecDepth 20000 in
theorem exists_closes_quotationSample :
    ∃ stream, TokenStream.scan quotationSample = .ok stream ∧ quotationToken ∈ stream.words ∧
      quotationToken.kind = .string ∧
      ∃ frame text,
        LiteralFrame.Opens frame (quotationSample.drop quotationToken.start) text ∧
        Closes (· == .line) (fun _ _ _ => True) frame text
          (quotationSample.drop quotationToken.stop) ∧
        (EachLiteral ClosesFirst frame text (quotationSample.drop quotationToken.stop) ↔
          EachLiteral BlockClosesFree frame text (quotationSample.drop quotationToken.stop)) := by
  have words : (TokenStream.scan quotationSample).toOption.map TokenStream.words =
      some [quotationToken] := by
    decide +kernel
  obtain ⟨stream, scanned, words_eq⟩ := exists_of_map words
  have member : quotationToken ∈ stream.words := by
    rw [words_eq]
    exact List.mem_singleton_self _
  exact ⟨stream, scanned, member, rfl, TokenStream.exists_closes_of_scan scanned member rfl⟩

/-- A literal between triple quotes with another such literal in an interpolation. -/
def innerQuotationSample : List Char :=
  "\"\"\"\\(\"\"\"x\"\"\")\"\"\"".toList

set_option maxRecDepth 20000 in
/-- The literal is meant to close at the end of the source, but the opening mark of the inner one
closes it. -/
theorem not_closesFirst_innerQuotationSample :
    (∃ stream, TokenStream.scan innerQuotationSample = .ok stream ∧
      stream.words.map Token.text = ["\"\"\"\\(\"\"\"", "x", "\"\"\")\"\"\""]) ∧
    LiteralFrame.Opens .block innerQuotationSample (innerQuotationSample.drop 3) ∧
    ClosesFirst .block (innerQuotationSample.drop 3) [] ∧
    ¬ ClosesFirst .block (innerQuotationSample.drop 3) (innerQuotationSample.drop 8) := by
  have meant : ClosesAsMeant .block (innerQuotationSample.drop 3) [] :=
    .interpolation rfl rfl
      (.innerBlock trivial (.character rfl (fun _ => by decide) (by decide) .block) .parenthesis)
      .block
  refine ⟨?_, ⟨rfl, rfl, nofun⟩, (closesAsMeant_iff rfl).mp meant, fun first => ?_⟩
  · have texts : (TokenStream.scan innerQuotationSample).toOption.map
        (fun stream => stream.words.map Token.text) =
          some ["\"\"\"\\(\"\"\"", "x", "\"\"\")\"\"\""] := by
      decide +kernel
    exact exists_of_map texts
  · exact absurd (meant.unique ((closesAsMeant_iff rfl).mpr first)) (by decide)

end PeerExpansion
