import PeerExpansion.Proofs.Token.Seam
import PeerExpansion.Proofs.Token.Spelling

/-! # Parts of a source in front of others

A part of a source is read piece by piece. What its pieces are may depend on what stands behind the
part, so `Lexes` takes note of it: the same part in front of another text may be read in another
way.
-/

namespace PeerExpansion

/-- A part of a text is a slice of it, and the rest is what the text has behind the slice. -/
theorem Text.slice_of_drop {text rest : List Char} (front : List Char) {start stop : Nat}
    (split : text.drop start = front ++ rest) (length_eq : start + front.length = stop) :
    front = slice text start stop ∧ rest = text.drop stop := by
  subst length_eq
  refine ⟨?_, ?_⟩
  · rw [slice, split, Nat.add_sub_cancel_left, List.take_left]
  · rw [← List.drop_drop, split, List.drop_left]

/-- The words that a piece is read into. -/
def Piece.read (text : List Char) : Piece → List Word
  | gap => []
  | token kind => [⟨kind, String.ofList text⟩]

theorem Piece.map_word_words (text : List Char) (position : Position) (piece : Piece) :
    (piece.words text position).map Token.word = piece.read text := by
  cases piece <;> rfl

/-- A text is read into these words, piece by piece, where `behind` follows it. -/
inductive Lexes (behind : List Char) : List Char → List Word → Prop
  | nil : Lexes behind [] []
  | cons {first : Char} {taken rest : List Char} {piece : Piece} {words : List Word} :
      pieceAt first (taken ++ (rest ++ behind)) = .ok (piece, taken.length) →
        Lexes behind rest words →
          Lexes behind (first :: (taken ++ rest)) (piece.read (first :: taken) ++ words)

namespace Lexes

variable {behind front back text : List Char} {words others : List Word}

theorem append (lexes : Lexes (back ++ behind) front words) (later : Lexes behind back others) :
    Lexes behind (front ++ back) (words ++ others) := by
  induction lexes with
  | nil => exact later
  | cons measured _ inductionHypothesis =>
    rw [List.cons_append, List.append_assoc, List.append_assoc]
    exact .cons (by rwa [List.append_assoc]) inductionHypothesis

theorem piece {first : Char} {taken : List Char} {piece : Piece}
    (measured : pieceAt first (taken ++ behind) = .ok (piece, taken.length)) :
    Lexes behind (first :: taken) (piece.read (first :: taken)) := by
  have alone : pieceAt first (taken ++ ([] ++ behind)) = .ok (piece, taken.length) := measured
  simpa using Lexes.cons alone .nil

/-- Reading a text comes to reading what is behind it, with the words of the text in front. -/
theorem exists_tokensFrom (lexes : Lexes behind text words) (position : Position) :
    ∃ tokens : List Token, tokens.map Token.word = words ∧
      tokensFrom position (text ++ behind) =
        (tokensFrom (position.after text) behind).map fun read => (tokens ++ read.1, read.2) := by
  induction lexes generalizing position with
  | nil =>
    refine ⟨[], rfl, ?_⟩
    rw [List.nil_append, Position.after_nil]
    cases tokensFrom position behind <;> rfl
  | @cons first taken rest piece words measured _ inductionHypothesis =>
    obtain ⟨tokens, rfl, read⟩ := inductionHypothesis (position.after (first :: taken))
    refine ⟨piece.words (first :: taken) position ++ tokens, ?_, ?_⟩
    · rw [List.map_append, Piece.map_word_words]
    · rw [List.cons_append, List.append_assoc, tokensFrom_cons measured, read,
        ← List.cons_append, Position.after_append]
      cases tokensFrom ((position.after (first :: taken)).after rest) behind with
      | error => rfl
      | ok later => simp [Except.map, List.append_assoc]

theorem exists_scan (lexes : Lexes [] text words) :
    ∃ stream, TokenStream.scan text = .ok stream ∧ stream.words.map Token.word = words := by
  obtain ⟨tokens, rfl, read⟩ := lexes.exists_tokensFrom .start
  rw [List.append_nil, tokensFrom] at read
  refine ⟨⟨text, tokens, .ending (Position.start.after text)⟩, ?_, rfl⟩
  rw [TokenStream.scan, read]
  simp [Except.map, bind, Except.bind, pure, Except.pure]

end Lexes

theorem Token.start_of_after {word : Token} {position : Position} {front : List Char}
    (place : position.after front = word.position) :
    position.offset + front.length = word.start := by
  rw [Token.start, ← place, Position.offset_after]

namespace Scans

variable {position finish : Position} {text : List Char} {words before others : List Token}
  {word : Token}

theorem lexes (scans : Scans position text words finish) :
    Lexes [] text (words.map Token.word) := by
  induction scans with
  | nil => exact .nil
  | cons measured _ inductionHypothesis =>
    rw [List.map_append, Piece.map_word_words]
    exact .cons (by rwa [List.append_nil]) inductionHypothesis

/-- What is read before a word is read in front of the text that begins with it. -/
theorem exists_lexes (scans : Scans position text (before ++ word :: others) finish) :
    ∃ front rest, text = front ++ rest ∧ position.after front = word.position ∧
      Lexes rest front (before.map Token.word) ∧
        Scans word.position rest (word :: others) finish := by
  generalize whole : before ++ word :: others = given at scans
  induction scans generalizing before with
  | nil => simp at whole
  | @cons position finish first taken rest piece words measured scans inductionHypothesis =>
    have behind {before : List Token} (split : before ++ word :: others = words) :
        ∃ front later, first :: (taken ++ rest) = front ++ later ∧
          position.after front = word.position ∧
            Lexes later front (piece.read (first :: taken) ++ before.map Token.word) ∧
              Scans word.position later (word :: others) finish := by
      obtain ⟨front, later, rfl, place, lexes, scans⟩ := inductionHypothesis split
      refine ⟨first :: (taken ++ front), later, by simp, ?_, .cons measured lexes, scans⟩
      rw [← place, ← List.cons_append, Position.after_append]
    cases piece with
    | gap => exact behind whole
    | token kind =>
      cases before with
      | nil =>
        obtain ⟨rfl, rfl⟩ := List.cons.inj whole
        exact ⟨[], _, rfl, rfl, .nil, .cons measured scans⟩
      | cons other before =>
        obtain ⟨rfl, split⟩ := List.cons.inj whole
        exact behind split

/-- The word at the head of a text is a piece of it. -/
theorem exists_piece (scans : Scans word.position text (word :: others) finish) :
    ∃ first taken rest, text = first :: (taken ++ rest) ∧
      word.text = String.ofList (first :: taken) ∧
        pieceAt first (taken ++ rest) = .ok (.token word.kind, taken.length) ∧
          Scans (word.position.after (first :: taken)) rest others finish := by
  generalize place_eq : word.position = place at scans
  generalize whole : word :: others = given at scans
  cases scans with
  | nil => cases whole
  | @cons _ _ first taken rest piece words measured scans =>
    cases piece with
    | gap =>
      -- The word would stand behind the gap, and not where the text begins.
      obtain rfl : word :: others = words := whole
      obtain ⟨front, _, _, later, _⟩ := @exists_lexes _ _ _ [] _ _ scans
      have start_eq := Token.start_of_after later
      rw [Position.offset_after, List.length_cons, Token.start, place_eq] at start_eq
      omega
    | token kind =>
      obtain ⟨rfl, rfl⟩ := List.cons.inj whole
      exact ⟨first, taken, rest, rfl, rfl, measured, place_eq ▸ scans⟩

end Scans

namespace TokenStream

open Text (slice)

/-! ## Words between two indices -/

/-- The words from one index up to, but without, another. -/
def between (stream : TokenStream) (first behind : Nat) : List Token :=
  (stream.words.drop first).take (behind - first)

section Between

variable {stream : TokenStream} {first middle behind : Nat}

theorem between_append (before : first ≤ middle) (after : middle ≤ behind) :
    stream.between first middle ++ stream.between middle behind = stream.between first behind := by
  have split : behind - first = (middle - first) + (behind - middle) := by omega
  have meet : middle = first + (middle - first) := by omega
  simp only [between]
  rw [split, List.take_add, List.drop_drop, ← meet]

theorem between_succ (order : first ≤ behind) (inside : behind < stream.words.length) :
    stream.between first (behind + 1) = stream.between first behind ++ [stream.token behind] := by
  have found : (stream.words.drop first)[behind - first]? = some (stream.token behind) := by
    rw [List.getElem?_drop, Nat.add_sub_cancel' order, List.getElem?_eq_getElem inside,
      ← token_eq_getElem inside]
  rw [between, Nat.sub_add_comm order, List.take_add_one, found]
  rfl

theorem between_eq_concat (order : first < behind) (inside : behind ≤ stream.words.length) :
    stream.between first behind =
      stream.between first (behind - 1) ++ [stream.token (behind - 1)] := by
  have grown := @between_succ stream first (behind - 1) (by omega) (by omega)
  rwa [Nat.sub_add_cancel (by omega)] at grown

/-- From an index on there are the words up to another one, the word there, and those behind it. -/
theorem drop_eq_between_append (order : first ≤ middle) (inside : middle < stream.words.length) :
    stream.words.drop first = stream.between first middle ++
      stream.token middle :: stream.words.drop (middle + 1) := by
  have split := List.take_append_drop (middle - first) (stream.words.drop first)
  rw [List.drop_drop, Nat.add_sub_cancel' order, List.drop_eq_getElem_cons inside,
    ← token_eq_getElem inside] at split
  exact split.symm

theorem between_self (stream : TokenStream) (index : Nat) : stream.between index index = [] := by
  rw [between, Nat.sub_self, List.take_zero]

theorem between_cons (order : first < behind) (inside : first < stream.words.length) :
    stream.between first behind = stream.token first :: stream.between (first + 1) behind := by
  have count : behind - first = behind - (first + 1) + 1 := by omega
  rw [between, List.drop_eq_getElem_cons inside, count, List.take_succ_cons,
    ← token_eq_getElem inside]
  rfl

/-- Two indices and a word between them. -/
theorem between_eq_append (order : first ≤ middle) (before : middle < behind)
    (inside : middle < stream.words.length) : stream.between first behind =
      stream.between first middle ++ stream.token middle :: stream.between (middle + 1) behind := by
  rw [← between_cons before inside, between_append order (Nat.le_of_lt before)]

theorem length_between (inside : behind ≤ stream.words.length) :
    (stream.between first behind).length = behind - first := by
  rw [between, List.length_take, List.length_drop]
  omega

theorem mem_between {word : Token} (member : word ∈ stream.between first behind) :
    ∃ index, first ≤ index ∧ index < behind ∧ index < stream.words.length ∧
      word = stream.token index := by
  obtain ⟨place, bound, rfl⟩ := List.mem_take_iff_getElem.mp member
  rw [List.length_drop] at bound
  have inside : first + place < stream.words.length := by omega
  refine ⟨first + place, Nat.le_add_right _ _, by omega, inside, ?_⟩
  rw [List.getElem_drop, token_eq_getElem inside]

theorem words_eq_between (stream : TokenStream) :
    stream.words = stream.between 0 stream.words.length := by
  rw [between, List.drop_zero, Nat.sub_zero, List.take_length]

end Between

/-! ## Parts -/

variable {source : List Char} {stream : TokenStream} {first last index : Nat}

theorem scans_of_scan (scanned : scan source = .ok stream) :
    ∃ finish, Scans .start source stream.words finish := by
  obtain ⟨words, finish, read, rfl⟩ := exists_tokensFrom_of_scan scanned
  exact ⟨finish, scans_iff.mpr read⟩

theorem scans_drop (scanned : scan source = .ok stream) (inside : index < stream.words.length) :
    ∃ finish, Scans (stream.token index).position (source.drop (stream.token index).start)
      (stream.words.drop index) finish := by
  obtain ⟨finish, scans⟩ := scans_of_scan scanned
  have whole := drop_eq_between_append (Nat.zero_le index) inside
  rw [List.drop_zero] at whole
  rw [whole] at scans
  rw [List.drop_eq_getElem_cons inside, ← token_eq_getElem inside]
  obtain ⟨front, rest, rfl, place, -, later⟩ := scans.exists_lexes
  have length_eq : front.length = (stream.token index).start := by
    simpa [Position.start] using Token.start_of_after place
  rw [← length_eq, List.drop_left]
  exact ⟨finish, later⟩

variable (scanned : scan source = .ok stream)
include scanned

theorem toList_text (inside : index < stream.words.length) : (stream.token index).text.toList =
    slice source (stream.token index).start (stream.token index).stop := by
  obtain ⟨-, fills, -⟩ := fills_of_scan scanned
  rw [token_eq_getElem inside]
  exact (fills.stands _ (List.getElem_mem inside)).text_eq

/-- The part of a source from one word up to another is read into the words there. -/
theorem lexes_slice (order : first ≤ last) (inside : last < stream.words.length) :
    Lexes (source.drop (stream.token last).start)
      (slice source (stream.token first).start (stream.token last).start)
      ((stream.between first last).map Token.word) := by
  obtain ⟨finish, scans⟩ := scans_drop scanned (Nat.lt_of_le_of_lt order inside)
  rw [drop_eq_between_append order inside] at scans
  obtain ⟨front, rest, cut, place, lexes, -⟩ := scans.exists_lexes
  obtain ⟨rfl, rfl⟩ := Text.slice_of_drop _ cut (Token.start_of_after place)
  exact lexes

/-- A word is a piece of the source, and the rest is read behind it. -/
theorem exists_piece_and_scans (inside : index < stream.words.length) :
    ∃ character taken finish, (stream.token index).text = String.ofList (character :: taken) ∧
      source.drop (stream.token index).start =
          character :: (taken ++ source.drop (stream.token index).stop) ∧
        pieceAt character (taken ++ source.drop (stream.token index).stop) =
            .ok (.token (stream.token index).kind, taken.length) ∧
          Scans ((stream.token index).position.after (character :: taken))
            (source.drop (stream.token index).stop) (stream.words.drop (index + 1)) finish := by
  obtain ⟨finish, scans⟩ := scans_drop scanned inside
  rw [List.drop_eq_getElem_cons inside, ← token_eq_getElem inside] at scans
  obtain ⟨character, taken, rest, cut, text_eq, measured, later⟩ := scans.exists_piece
  have stop_eq : (stream.token index).start + (character :: taken).length =
      (stream.token index).stop := by
    rw [Token.stop, text_eq, String.length_ofList]
  obtain ⟨-, rfl⟩ := Text.slice_of_drop (character :: taken) cut stop_eq
  exact ⟨character, taken, finish, text_eq, cut, measured, later⟩

theorem exists_piece (inside : index < stream.words.length) :
    ∃ character taken, (stream.token index).text = String.ofList (character :: taken) ∧
      source.drop (stream.token index).start =
          character :: (taken ++ source.drop (stream.token index).stop) ∧
        pieceAt character (taken ++ source.drop (stream.token index).stop) =
          .ok (.token (stream.token index).kind, taken.length) := by
  obtain ⟨character, taken, _, text_eq, cut, measured, -⟩ := exists_piece_and_scans scanned inside
  exact ⟨character, taken, text_eq, cut, measured⟩

/-- The part of a source between a word and the next token is read into no words. -/
theorem lexes_gap (inside : index < stream.words.length) :
    Lexes (source.drop (stream.token (index + 1)).start)
      (slice source (stream.token index).stop (stream.token (index + 1)).start) [] := by
  obtain ⟨rfl, ordered⟩ := ordered_of_scan scanned
  obtain ⟨character, taken, finish, text_eq, -, -, scans⟩ := exists_piece_and_scans scanned inside
  have place_eq : ((stream.token index).position.after (character :: taken)).offset =
      (stream.token index).stop := by
    rw [Position.offset_after, Token.stop, text_eq, String.length_ofList]
    rfl
  obtain within | beyond := Nat.lt_or_ge (index + 1) stream.words.length
  · rw [List.drop_eq_getElem_cons within, ← token_eq_getElem within] at scans
    obtain ⟨front, rest, gap, place, lexes, -⟩ := @Scans.exists_lexes _ _ _ [] _ _ scans
    obtain ⟨rfl, rfl⟩ := Text.slice_of_drop _ gap (place_eq ▸ Token.start_of_after place)
    exact lexes
  · rw [List.drop_of_length_le beyond] at scans
    rw [token_eq_ending beyond, ordered.ending_start, List.drop_length, Text.slice_eq_drop]
    exact scans.lexes

/-- The part of a source from one word to the end of another can be read on its own. -/
theorem lexes_alone (order : first ≤ last) (inside : last < stream.words.length) :
    Lexes [] (slice source (stream.token first).start (stream.token last).stop)
      ((stream.between first (last + 1)).map Token.word) := by
  obtain ⟨finish, scans⟩ := scans_drop scanned (Nat.lt_of_le_of_lt order inside)
  rw [drop_eq_between_append order inside] at scans
  obtain ⟨front, rest, cut, place, scans⟩ := scans.exists_cut
  obtain ⟨rfl, rfl⟩ := Text.slice_of_drop _ cut place
  rw [between_succ order inside]
  exact scans.lexes

end TokenStream

end PeerExpansion
