import Mathlib.Data.List.Chain
import PeerExpansion.Proofs.Token.Scan

/-! # Tokens are faithful to their source

Reading a source into tokens loses nothing but gaps, and every token is told where it stands: the
line is counted from the line feeds before the token, the column from the last of them.
-/

namespace PeerExpansion

/-! ## Gaps -/

/-- Whether the gap between two tokens of a source, `second` coming right after `first`, holds
nothing else. -/
def GapBetween (source : List Char) (first second : Token) : Prop :=
  Gap (Text.slice source first.stop second.start) (source.drop second.start)

theorem Fills.gap_before {source : List Char} {offset : Nat} {words : List Token} {ending : Token}
    (fills : Fills source offset words) (end_eq : ending.start = source.length) :
    ∀ first ∈ (words ++ [ending]).head?,
      Gap (Text.slice source offset first.start) (source.drop first.start) := by
  cases fills with
  | nil inside gap =>
    rintro first ⟨⟩
    rw [end_eq, List.drop_length]
    exact gap
  | cons behind gap stands fills =>
    rintro first ⟨⟩
    exact gap

theorem Fills.isChain {source : List Char} {offset : Nat} {words : List Token} {ending : Token}
    (fills : Fills source offset words) (end_eq : ending.start = source.length) :
    (words ++ [ending]).IsChain (GapBetween source) := by
  induction fills with
  | nil => exact .singleton _
  | cons behind gap stands fills inductionHypothesis =>
    exact List.isChain_cons.mpr ⟨fills.gap_before end_eq, inductionHypothesis⟩

/-! ## Faithfulness -/

/-- What a source is read into. Every token stands in the source where it says, and the words are
all that there is in the source besides gaps. -/
structure TokenStream.Faithful (source : List Char) (stream : TokenStream) : Prop where
  source_eq : stream.source = source
  /-- No word is empty, and none is taken for the end of the source. -/
  filled : ∀ word ∈ stream.words, word.kind ≠ .ending ∧ word.start < word.stop
  ordered : stream.words.Pairwise fun first second => first.stop ≤ second.start
  text_eq : ∀ word ∈ stream.words, word.stop ≤ source.length ∧
    word.text.toList = Text.slice source word.start word.stop
  ending_eq : stream.ending.kind = .ending ∧ stream.ending.text = "" ∧
    stream.ending.start = source.length
  gap_first : ∀ first ∈ stream.toList.head?,
    Gap (Text.slice source 0 first.start) (source.drop first.start)
  gaps : stream.toList.IsChain (GapBetween source)
  line_eq : ∀ token ∈ stream.toList,
    token.position.line = 1 + (source.take token.start).count '\n'
  column_eq : ∀ token ∈ stream.toList,
    token.position.column = token.start - lineStart source token.start + 1

theorem Fills.position_eq {source : List Char} {offset : Nat} {words : List Token}
    (fills : Fills source offset words) :
    ∀ token ∈ words ++ [.ending (.ofOffset source source.length)],
      token.start ≤ source.length ∧ token.position = .ofOffset source token.start := by
  intro token member
  obtain word | ending := List.mem_append.mp member
  · have stands := fills.stands token word
    have filled := stands.start_lt
    have inside := stands.stop_le
    exact ⟨by omega, stands.position_eq⟩
  · obtain rfl := List.mem_singleton.mp ending
    have start_eq : (Token.ending (.ofOffset source source.length)).start = source.length :=
      Position.offset_ofOffset (Nat.le_refl _)
    rw [start_eq]
    exact ⟨Nat.le_refl _, rfl⟩

theorem faithful_of_scan {source : List Char} {stream : TokenStream}
    (scanned : TokenStream.scan source = .ok stream) : stream.Faithful source := by
  obtain ⟨source_eq, fills, ending_eq⟩ := fills_of_scan scanned
  have end_eq : stream.ending.start = source.length := by
    rw [ending_eq]
    exact Position.offset_ofOffset (Nat.le_refl _)
  have places := fills.position_eq
  rw [← ending_eq] at places
  constructor
  · exact source_eq
  · intro word member
    exact ⟨(fills.stands word member).kind_ne, (fills.stands word member).start_lt⟩
  · exact fills.pairwise
  · intro word member
    exact ⟨(fills.stands word member).stop_le, (fills.stands word member).text_eq⟩
  · rw [end_eq, ending_eq]
    exact ⟨rfl, rfl, rfl⟩
  · exact fills.gap_before end_eq
  · exact fills.isChain end_eq
  · intro token member
    rw [(places token member).2, Position.line_ofOffset]
  · intro token member
    rw [(places token member).2, Position.column_ofOffset (places token member).1]

/-- Comments in a comment, a literal of several lines, and a literal in a literal. -/
def nestedSample : List Char :=
  "a/* x /* y */\n*/\t\"\"\"\n\\(b)\"\"\" // z\n\"(\\(c(\"d\")))\" 0.5".toList

def nestedWords : List Token :=
  [⟨.identifier, "a", ⟨1, 1, 0⟩⟩, ⟨.string, "\"\"\"\n\\(b)\"\"\"", ⟨2, 4, 17⟩⟩,
    ⟨.string, "\"(\\(c(\"d\")))\"", ⟨4, 1, 34⟩⟩, ⟨.number, "0.5", ⟨4, 15, 48⟩⟩]

set_option maxRecDepth 20000 in
theorem faithful_nestedSample : ∃ stream, TokenStream.scan nestedSample = .ok stream ∧
    stream.words = nestedWords ∧ stream.Faithful nestedSample := by
  have words_eq : (TokenStream.scan nestedSample).toOption.map TokenStream.words =
      some nestedWords := by
    decide +kernel
  cases scanned : TokenStream.scan nestedSample with
  | error =>
    rw [scanned] at words_eq
    cases words_eq
  | ok stream =>
    rw [scanned] at words_eq
    exact ⟨stream, rfl, Option.some.inj words_eq, faithful_of_scan scanned⟩

/-! ## Positions that are in the source

Tokens have the position of a place in the source, and so does what is wrong with a source that
cannot be read into tokens.
-/

/-- The position of a character of the source, or that of its end. -/
def Position.Within (source : List Char) (position : Position) : Prop :=
  ∃ offset ≤ source.length, position = .ofOffset source offset

theorem within_of_tokensFrom_error {source text : List Char} {position : Position} {offset : Nat}
    {error : SyntaxError} (stuck : tokensFrom position text = .error error)
    (inside : offset ≤ source.length) (remains : source.drop offset = text)
    (place : position = .ofOffset source offset) : error.position.Within source := by
  fun_induction tokensFrom position text generalizing offset with
  | case1 => cases stuck
  | case2 position first rest fault found =>
    cases stuck
    exact ⟨offset, inside, place⟩
  | case3 position first rest piece length found text =>
    rename_i inductionHypothesis
    have begins : Begins source offset text (rest.drop length) :=
      .of_drop inside (by simp only [remains, text, List.cons_append, List.take_append_drop])
    have next_place : position.after text = .ofOffset source (offset + text.length) := by
      rw [place, ← Position.ofOffset_after, begins.taken]
    cases later : tokensFrom (position.after text) (rest.drop length) with
    | error laterError =>
      rw [later] at stuck
      cases stuck
      exact inductionHypothesis later begins.inside begins.dropped next_place
    | ok others =>
      rw [later] at stuck
      cases piece <;> cases stuck

namespace TokenStream

variable {source : List Char}

theorem within_of_scan_error {error : SyntaxError} (stuck : scan source = .error error) :
    error.position.Within source := by
  unfold scan at stuck
  cases read : tokensFrom .start source with
  | error other =>
    rw [read] at stuck
    cases stuck
    exact within_of_tokensFrom_error read (Nat.zero_le _) List.drop_zero rfl
  | ok result =>
    rw [read] at stuck
    cases stuck

theorem within_of_scan {stream : TokenStream} (scanned : scan source = .ok stream) :
    ∀ token ∈ stream.toList, token.position.Within source := by
  obtain ⟨-, fills, ending_eq⟩ := fills_of_scan scanned
  intro token member
  rw [toList, ending_eq] at member
  obtain ⟨inside, position_eq⟩ := fills.position_eq token member
  exact ⟨token.start, inside, position_eq⟩

end TokenStream

end PeerExpansion
