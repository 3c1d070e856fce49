import PeerExpansion.Proofs.Token.Literal

/-! # Line feeds in literals on one line

A literal that opens with one quotation mark ends on its line. It is read in parts: characters,
backslashes with the characters behind them, and whole literals between triple quotes in its
interpolations. A line feed that is a part of its own ends the reading with an error. One behind a
backslash is read over, so a literal that is accepted has line feeds there and between triple quotes
only.
-/

namespace PeerExpansion

/-! ## Parts of a literal -/

inductive LiteralPart
  | single (character : Char)
  /-- A backslash and the character behind it. -/
  | escape (character : Char)
  /-- A literal between triple quotes. -/
  | block (inner : List Char)
deriving DecidableEq

namespace LiteralPart

def text : LiteralPart → List Char
  | single character => [character]
  | escape character => ['\\', character]
  | block inner => LiteralFrame.block.mark ++ (inner ++ LiteralFrame.block.mark)

/-- What stands outside of the literals between triple quotes. -/
def outerText : LiteralPart → List Char
  | block _ => []
  | part => part.text

def textOf (parts : List LiteralPart) : List Char :=
  parts.flatMap text

/-- `Passes opened part behind left` says that the part stands for what it is where the frames
`opened` are open, the innermost first, and `behind` follows the part, and that the frames `left`
are open behind it. -/
inductive Passes : List LiteralFrame → LiteralPart → List Char → List LiteralFrame → Prop
  | escape {outer : List LiteralFrame} {character : Char} {behind : List Char} :
      character ≠ '(' → Passes (.line :: outer) (.escape character) behind (.line :: outer)
  | interpolation {outer : List LiteralFrame} {behind : List Char} :
      Passes (.line :: outer) (.escape '(') behind (.interpolation 0 :: .line :: outer)
  | close {outer : List LiteralFrame} {behind : List Char} :
      Passes (.line :: outer) (.single '"') behind outer
  | plain {outer : List LiteralFrame} {character : Char} {behind : List Char} :
      character ≠ '\\' → character ≠ '"' →
        Passes (.line :: outer) (.single character) behind (.line :: outer)
  | opening {outer : List LiteralFrame} {depth : Nat} {behind : List Char} :
      Passes (.interpolation depth :: outer) (.single '(') behind
        (.interpolation (depth + 1) :: outer)
  | closing {outer : List LiteralFrame} {depth : Nat} {behind : List Char} :
      Passes (.interpolation (depth + 1) :: outer) (.single ')') behind
        (.interpolation depth :: outer)
  | parenthesis {outer : List LiteralFrame} {behind : List Char} :
      Passes (.interpolation 0 :: outer) (.single ')') behind outer
  | innerLine {outer : List LiteralFrame} {depth : Nat} {behind : List Char} :
      ¬ ['"', '"'] <+: behind →
        Passes (.interpolation depth :: outer) (.single '"') behind
          (.line :: .interpolation depth :: outer)
  | innerBlock {outer : List LiteralFrame} {depth : Nat} {inner behind : List Char} :
      ¬ LiteralFrame.block.mark <:+: inner ++ ['"', '"'] →
        Passes (.interpolation depth :: outer) (.block inner) behind (.interpolation depth :: outer)
  | code {outer : List LiteralFrame} {depth : Nat} {character : Char} {behind : List Char} :
      character ∉ ['(', ')', '"'] →
        Passes (.interpolation depth :: outer) (.single character) behind
          (.interpolation depth :: outer)

/-- The parts follow one another in front of `behind`. -/
inductive PassesAll (behind : List Char) :
    List LiteralFrame → List LiteralPart → List LiteralFrame → Prop
  | nil {opened : List LiteralFrame} : PassesAll behind opened [] opened
  | cons {opened middle left : List LiteralFrame} {part : LiteralPart}
      {parts : List LiteralPart} : Passes opened part (textOf parts ++ behind) middle →
        PassesAll behind middle parts left → PassesAll behind opened (part :: parts) left

end LiteralPart

open LiteralPart

/-! ## Reading parts -/

section Reading

variable {opened middle left inside : List LiteralFrame} {top : LiteralFrame}
  {part : LiteralPart} {parts : List LiteralPart} {text behind inner : List Char}

theorem textOf_cons (part : LiteralPart) (parts : List LiteralPart) :
    textOf (part :: parts) = part.text ++ textOf parts :=
  List.flatMap_cons

/-- A literal between triple quotes ends at the next triple quote. -/
theorem framesEnd_block (clean : ¬ LiteralFrame.block.mark <:+: inner ++ ['"', '"']) :
    framesEnd (.block :: inside) (inner ++ (LiteralFrame.block.mark ++ behind)) =
      framesEnd inside behind := by
  induction inner with
  | nil => exact LiteralStep.block.framesEnd_eq
  | cons character inner inductionHypothesis =>
    have later : ¬ LiteralFrame.block.mark <:+: inner ++ ['"', '"'] := fun marked =>
      clean (marked.trans (List.suffix_cons character _).isInfix)
    rw [← inductionHypothesis later]
    refine LiteralStep.framesEnd_eq (.blockCharacter fun begins => clean ?_)
    -- The mark would begin in the literal, and be over before the one that closes it.
    have marked : LiteralFrame.block.mark <+: character :: (inner ++ ['"', '"']) :=
      List.prefix_of_prefix_length_le begins ⟨'"' :: behind, by simp [LiteralFrame.mark]⟩
        (by simp [LiteralFrame.mark])
    exact marked.isInfix

/-- A part that is no line feed is read over. -/
theorem framesEnd_of_passes (passes : Passes opened part behind left)
    (unfed : part ≠ .single '\n') :
    framesEnd opened (part.text ++ behind) = framesEnd left behind := by
  have visible {character : Char} (same : part = .single character) : character ≠ '\n' := by
    rintro rfl
    exact unfed same
  cases passes with
  | escape other => exact LiteralStep.framesEnd_eq (.escape other)
  | interpolation => exact LiteralStep.interpolation.framesEnd_eq
  | close => exact LiteralStep.line.framesEnd_eq
  | plain slash quote => exact LiteralStep.framesEnd_eq (.character slash quote (visible rfl))
  | opening => exact LiteralStep.opening.framesEnd_eq
  | closing => exact LiteralStep.closing.framesEnd_eq
  | parenthesis => exact LiteralStep.parenthesis.framesEnd_eq
  | innerLine single => exact LiteralStep.framesEnd_eq (.innerLine single)
  | innerBlock clean =>
    rw [LiteralPart.text, List.append_assoc, List.append_assoc]
    exact LiteralStep.innerBlock.framesEnd_eq.trans (framesEnd_block clean)
  | code other => exact LiteralStep.framesEnd_eq (.code other (visible rfl))

/-- The complaints about a literal that does not end on its line. -/
def lineFaults : List SyntaxFault :=
  [.unterminatedLiteral, .unterminatedInterpolation]

/-- A part that is a line feed is where the reading stops. -/
theorem framesEnd_of_feed (passes : Passes opened (.single '\n') behind left) :
    ∃ fault ∈ lineFaults, framesEnd opened ('\n' :: behind) = .error fault := by
  cases passes with
  | plain =>
    refine ⟨.unterminatedLiteral, by simp [lineFaults], ?_⟩
    rw [framesEnd, literalEnd.eq_def]
    rfl
  | code =>
    refine ⟨.unterminatedInterpolation, by simp [lineFaults], ?_⟩
    rw [framesEnd, literalEnd.eq_def]
    rfl

/-- The parts of a literal are read over if none of them is a line feed. -/
theorem framesEnd_of_passesAll (passes : PassesAll behind opened parts left)
    (unfed : .single '\n' ∉ parts) :
    framesEnd opened (textOf parts ++ behind) = framesEnd left behind := by
  induction passes with
  | nil => rfl
  | cons first _ inductionHypothesis =>
    rw [List.mem_cons, not_or] at unfed
    rw [textOf_cons, List.append_assoc, framesEnd_of_passes first (Ne.symm unfed.1)]
    exact inductionHypothesis unfed.2

theorem framesEnd_of_feed_mem (passes : PassesAll behind opened parts left)
    (fed : .single '\n' ∈ parts) :
    ∃ fault ∈ lineFaults, framesEnd opened (textOf parts ++ behind) = .error fault := by
  induction passes with
  | nil => cases fed
  | @cons _ _ _ part _ first _ inductionHypothesis =>
    rw [textOf_cons, List.append_assoc]
    by_cases feed : part = .single '\n'
    · subst feed
      exact framesEnd_of_feed first
    · rw [framesEnd_of_passes first feed]
      exact inductionHypothesis (List.mem_of_ne_of_mem (Ne.symm feed) fed)

/-! ## The parts that are read -/

/-- The text closes the frames in front of `behind`, and no part of it is a line feed. -/
def ClosesUnfed (opened : List LiteralFrame) (text behind : List Char) : Prop :=
  ∃ parts, text = textOf parts ++ behind ∧ PassesAll behind opened parts [] ∧
    .single '\n' ∉ parts

theorem ClosesUnfed.nil : ClosesUnfed [] behind behind :=
  ⟨[], rfl, .nil, List.not_mem_nil⟩

theorem ClosesUnfed.cons (passes : Passes opened part text middle) (unfed : part ≠ .single '\n')
    (closes : ClosesUnfed middle text behind) :
    ClosesUnfed opened (part.text ++ text) behind := by
  obtain ⟨parts, rfl, later, free⟩ := closes
  refine ⟨part :: parts, ?_, .cons passes later, ?_⟩
  · rw [textOf_cons, List.append_assoc]
  · exact List.not_mem_cons_of_ne_of_not_mem (Ne.symm unfed) free

/-- What an end that is found says of the text in front of it. -/
def FrameCloses (inside : List LiteralFrame) (text behind : List Char) : LiteralFrame → Prop
  | .block => ∃ inner later, text = inner ++ (LiteralFrame.block.mark ++ later) ∧
      ¬ LiteralFrame.block.mark <:+: inner ++ ['"', '"'] ∧ ClosesUnfed inside later behind
  | top => ClosesUnfed (top :: inside) text behind

/-- What an end that is found says where these frames are open. -/
def FramesClose (text behind : List Char) : List LiteralFrame → Prop
  | [] => text = behind
  | top :: inside => .block ∉ inside → FrameCloses inside text behind top

theorem FramesClose.closesUnfed (closes : FramesClose text behind opened)
    (outside : .block ∉ opened) : ClosesUnfed opened text behind := by
  match opened with
  | [] =>
    obtain rfl := closes
    exact .nil
  | .block :: inside => exact absurd (List.mem_cons_self ..) outside
  | .line :: inside => exact closes fun later => outside (.tail _ later)
  | .interpolation _ :: inside => exact closes fun later => outside (.tail _ later)

/-- A character that begins no mark can stand in front of what a literal between triple quotes
holds. -/
theorem not_mark_infix_cons {character : Char} {later : List Char}
    (clean : ¬ LiteralFrame.block.mark <:+: inner ++ ['"', '"'])
    (plain : ¬ LiteralFrame.block.mark <+:
      character :: (inner ++ (LiteralFrame.block.mark ++ later))) :
    ¬ LiteralFrame.block.mark <:+: (character :: inner) ++ ['"', '"'] := by
  rw [List.cons_append, List.infix_cons_iff, not_or]
  refine ⟨fun begins => plain (begins.trans ?_), clean⟩
  exact ⟨'"' :: later, by simp [LiteralFrame.mark]⟩

/-- An end that is found closes frames on one line without a line feed of its own. -/
theorem framesClose_of_framesEnd (closed : framesEnd opened text = .ok behind) :
    FramesClose text behind opened := by
  apply framesEnd_induction ?_ ?_ closed
  · rfl
  intro opened taken text left step closes
  -- Whichever step is taken, only the innermost frame can be a literal between triple quotes.
  cases step with
  | escape plain => exact fun outside => .cons (.escape plain) (by simp) (closes outside)
  | interpolation =>
    intro outside
    exact .cons .interpolation (by simp) (closes.closesUnfed (by simpa using outside))
  | line => exact fun outside => .cons .close (by decide) (closes.closesUnfed outside)
  | character slash quote feed =>
    exact fun outside => .cons (.plain slash quote) (by simpa using feed) (closes outside)
  | block => exact fun outside => ⟨[], text, rfl, by decide, closes.closesUnfed outside⟩
  | @blockCharacter _ character _ plain =>
    intro outside
    obtain ⟨inner, later, rfl, clean, closes⟩ := closes outside
    exact ⟨character :: inner, later, rfl, not_mark_infix_cons clean plain, closes⟩
  | opening => exact fun outside => .cons .opening (by decide) (closes outside)
  | closing => exact fun outside => .cons .closing (by decide) (closes outside)
  | parenthesis => exact fun outside => .cons .parenthesis (by decide) (closes.closesUnfed outside)
  | innerLine single =>
    intro outside
    exact .cons (.innerLine single) (by decide) (closes (by simpa using outside))
  | innerBlock =>
    intro outside
    obtain ⟨inner, later, rfl, clean, closes⟩ := closes (by simpa using outside)
    have closes := closes.cons (.innerBlock clean) (by simp)
    rwa [LiteralPart.text, List.append_assoc, List.append_assoc] at closes
  | code plain feed =>
    exact fun outside => .cons (.code plain) (by simpa using feed) (closes outside)

theorem closesUnfed_iff :
    ClosesUnfed [.line] text behind ↔ literalEnd .line [] text = .ok behind := by
  refine ⟨?_, fun closed => @framesClose_of_framesEnd [.line] _ _ closed List.not_mem_nil⟩
  rintro ⟨parts, rfl, passes, unfed⟩
  exact framesEnd_of_passesAll passes unfed

/-- Line feeds that are not between triple quotes are behind backslashes if none is a part. -/
theorem exists_feed_outerText_iff (unfed : .single '\n' ∉ parts) :
    (∃ part ∈ parts, '\n' ∈ part.outerText) ↔ .escape '\n' ∈ parts := by
  refine ⟨?_, fun escaped => ⟨_, escaped, by simp [outerText, LiteralPart.text]⟩⟩
  rintro ⟨part, member, feed⟩
  cases part with
  | block => cases feed
  | single character =>
    obtain rfl := List.mem_singleton.mp feed
    exact absurd member unfed
  | escape character =>
    obtain rfl : '\n' = character := by simpa [outerText, LiteralPart.text] using feed
    exact member

end Reading

/-! ## Literals on one line in a source -/

section Sources

variable {source front text : List Char} {words : List Word} {stream : TokenStream} {token : Token}

/-- A string that does not open with three quotation marks is to end on its line. -/
theorem TokenStream.exists_literalEnd_of_scan (scanned : scan source = .ok stream)
    (member : token ∈ stream.words) (kind_eq : token.kind = .string)
    (single : ¬ LiteralFrame.block.mark <+: token.text.toList) :
    ∃ text, token.text.toList = '"' :: text ∧
      literalEnd .line [] (text ++ source.drop token.stop) = .ok (source.drop token.stop) := by
  obtain ⟨index, inside, rfl⟩ := List.mem_iff_getElem.mp member
  obtain ⟨first, taken, text_eq, -, measured⟩ := exists_piece scanned inside
  rw [token_eq_getElem inside] at text_eq measured
  rw [kind_eq] at measured
  obtain rfl := quote_of_pieceAt measured
  rw [text_eq, String.toList_ofList] at single ⊢
  refine ⟨taken, rfl, ?_⟩
  generalize source.drop stream.words[index].stop = behind at measured ⊢
  -- With two more quotation marks it would be a literal between triple quotes.
  by_cases double : ['"', '"'] <+: taken ++ behind
  · obtain ⟨literal, same⟩ := double
    rw [← same, List.cons_append, List.singleton_append, pieceAt_blockLiteral] at measured
    obtain ⟨body, left, -, -, length_eq, -⟩ := exists_body_of_measured measured
    have marked : ['"', '"'] <+: taken :=
      List.prefix_of_prefix_length_le ⟨literal, same⟩ (List.prefix_append ..)
        (by rw [length_eq]; exact Nat.le_add_left ..)
    exact absurd (List.prefix_cons_inj '"' |>.mpr marked) single
  · rw [pieceAt_lineLiteral double] at measured
    obtain ⟨body, left, split, -, length_eq, closes⟩ := exists_body_of_measured measured
    obtain ⟨rfl, rfl⟩ := List.append_inj split length_eq
    exact closes behind

/-- A literal that does not end is refused where it opens. -/
theorem scan_of_literalEnd_error {fault : SyntaxFault}
    (lexes : Lexes ('"' :: text) front words) (single : ¬ ['"', '"'] <+: text)
    (unclosed : literalEnd .line [] text = .error fault) :
    TokenStream.scan (front ++ '"' :: text) = .error ⟨fault, Position.start.after front⟩ := by
  obtain ⟨tokens, -, read⟩ := lexes.exists_tokensFrom .start
  rw [TokenStream.scan, read, tokensFrom, pieceAt_lineLiteral single, unclosed]
  rfl

/-- What becomes of the line feeds in the literals of a source that are to end on their lines. -/
structure FeedLaw (source : List Char) : Prop where
  /-- A string that does not open with three quotation marks is read in parts. -/
  parted : ∀ {stream token}, TokenStream.scan source = .ok stream → token ∈ stream.words →
    token.kind = .string → ¬ LiteralFrame.block.mark <+: token.text.toList →
      ∃ parts, token.text.toList = '"' :: textOf parts ∧
        PassesAll (source.drop token.stop) [.line] parts []
  /-- None of its parts is a line feed, and those behind backslashes are the only ones that are not
  between triple quotes. -/
  unfed : ∀ {stream token parts}, TokenStream.scan source = .ok stream → token ∈ stream.words →
    token.kind = .string → ¬ LiteralFrame.block.mark <+: token.text.toList →
      token.text.toList = '"' :: textOf parts →
        PassesAll (source.drop token.stop) [.line] parts [] →
          .single '\n' ∉ parts ∧
            ((∃ part ∈ parts, '\n' ∈ part.outerText) ↔ .escape '\n' ∈ parts)
  /-- A line feed that is a part makes the literal an error. -/
  fed : ∀ {front words behind parts left},
    source = front ++ '"' :: (textOf parts ++ behind) →
      Lexes ('"' :: (textOf parts ++ behind)) front words →
        ¬ ['"', '"'] <+: textOf parts ++ behind → PassesAll behind [.line] parts left →
          .single '\n' ∈ parts → ∃ fault ∈ lineFaults,
            TokenStream.scan source = .error ⟨fault, Position.start.after front⟩
  /-- So does the lack of an end. -/
  unclosed : ∀ {front words text}, source = front ++ '"' :: text →
    Lexes ('"' :: text) front words → ¬ ['"', '"'] <+: text →
      (∀ behind, ¬ ClosesUnfed [.line] text behind) → ∃ fault,
        TokenStream.scan source = .error ⟨fault, Position.start.after front⟩

/-- In the literals that are to end on their lines, line feeds are read over behind backslashes and
between triple quotes only. -/
theorem TokenStream.feedLaw (source : List Char) : FeedLaw source where
  parted scanned member kind_eq single := by
    obtain ⟨text, text_eq, closed⟩ := exists_literalEnd_of_scan scanned member kind_eq single
    obtain ⟨parts, split, passes, -⟩ := closesUnfed_iff.mpr closed
    rw [List.append_cancel_right split] at text_eq
    exact ⟨parts, text_eq, passes⟩
  unfed := by
    intro stream token parts scanned member kind_eq single parts_eq passes
    obtain ⟨text, text_eq, closed⟩ := exists_literalEnd_of_scan scanned member kind_eq single
    obtain rfl := (List.cons.inj (text_eq.symm.trans parts_eq)).2
    have unfed : .single '\n' ∉ parts := by
      intro fed
      obtain ⟨fault, -, stuck⟩ := framesEnd_of_feed_mem passes fed
      rw [framesEnd, closed] at stuck
      cases stuck
    exact ⟨unfed, exists_feed_outerText_iff unfed⟩
  fed := by
    rintro front words behind parts left rfl lexes single passes fed
    obtain ⟨fault, member, stuck⟩ := framesEnd_of_feed_mem passes fed
    exact ⟨fault, member, scan_of_literalEnd_error lexes single stuck⟩
  unclosed := by
    rintro front words text rfl lexes single endless
    cases closed : literalEnd .line [] text with
    | ok behind => exact absurd (closesUnfed_iff.mpr closed) (endless behind)
    | error fault => exact ⟨fault, scan_of_literalEnd_error lexes single closed⟩

/-- A literal with a line feed behind a backslash. -/
def continuedSample : List Char :=
  "\"a\\\nb\"".toList

def continuedToken : Token :=
  ⟨.string, "\"a\\\nb\"", .start⟩

set_option maxRecDepth 20000 in
/-- The line ends before the literal does, and it is a string all the same. -/
theorem scan_continuedSample : ∃ stream token parts,
    TokenStream.scan continuedSample = .ok stream ∧ token ∈ stream.words ∧
      token.kind = .string ∧ ¬ LiteralFrame.block.mark <+: token.text.toList ∧
      token.text.toList = '"' :: textOf parts ∧
      PassesAll (continuedSample.drop token.stop) [.line] parts [] ∧
      ∃ part ∈ parts, '\n' ∈ part.outerText := by
  have words : (TokenStream.scan continuedSample).toOption.map TokenStream.words =
      some [continuedToken] := by
    decide +kernel
  obtain ⟨stream, scanned, words_eq⟩ := exists_of_map words
  have member : continuedToken ∈ stream.words := by
    rw [words_eq]
    exact List.mem_singleton_self _
  refine ⟨stream, continuedToken, [.single 'a', .escape '\n', .single 'b', .single '"'], scanned,
    member, rfl, by decide, by decide, ?_, .escape '\n', by decide, by decide⟩
  exact .cons (.plain (by decide) (by decide)) (.cons (.escape (by decide))
    (.cons (.plain (by decide) (by decide)) (.cons .close .nil)))

end Sources

end PeerExpansion
