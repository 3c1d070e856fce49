import PeerExpansion.Proofs.Token.Order
import PeerExpansion.Proofs.Token.Steady

/-! # Spelling

A `Word` is a token without its place. `Spells text words behind` says that a text is read into
these words wherever it stands, provided that `behind` follows it. Spellings are put together from
identifiers, marks and spaces.
-/

namespace PeerExpansion

structure Word where
  kind : TokenKind
  text : String
deriving DecidableEq

namespace Word

def identifier (text : String) : Word := ⟨.identifier, text⟩

def number (text : String) : Word := ⟨.number, text⟩

def mark (text : String) : Word := ⟨.punctuation, text⟩

def ending : Word := ⟨.ending, ""⟩

end Word

def Token.word (token : Token) : Word :=
  ⟨token.kind, token.text⟩

theorem Token.word_eq_mark {token : Token} {text : String}
    (punctuation : token.isPunctuation text = true) : token.word = .mark text := by
  rw [isPunctuation, Bool.and_eq_true, beq_iff_eq, beq_iff_eq] at punctuation
  rw [word, punctuation.1, punctuation.2]
  rfl

theorem TokenStream.Ordered.ending_word {stream : TokenStream} (ordered : stream.Ordered) :
    stream.ending.word = .ending := by
  rw [Token.word, ordered.ending_kind, ordered.ending_text]
  rfl

/-- `text` is read into `words`, and the reading goes on with `behind`. -/
def Spells (text : String) (words : List Word) (behind : List Char) : Prop :=
  ∀ position, ∃ tokens : List Token, tokens.map Token.word = words ∧
    tokensFrom position (text.toList ++ behind) =
      (tokensFrom (position.after text.toList) behind).map fun read => (tokens ++ read.1, read.2)

theorem Spells.empty (behind : List Char) : Spells "" [] behind := by
  intro position
  refine ⟨[], rfl, ?_⟩
  rw [String.toList_empty, List.nil_append, Position.after_nil]
  cases tokensFrom position behind <;> rfl

theorem Spells.append {first second : String} {behind : List Char} {words others : List Word}
    (front : Spells first words (second.toList ++ behind)) (back : Spells second others behind) :
    Spells (first ++ second) (words ++ others) behind := by
  intro position
  obtain ⟨tokens, rfl, read⟩ := front position
  obtain ⟨laterTokens, rfl, laterRead⟩ := back (position.after first.toList)
  refine ⟨tokens ++ laterTokens, List.map_append, ?_⟩
  rw [String.toList_append, List.append_assoc, read, laterRead, Position.after_append]
  cases tokensFrom ((position.after first.toList).after second.toList) behind with
  | error error => rfl
  | ok read => simp [Except.map, List.append_assoc]

/-- A text that is spelled up to its end makes a stream of tokens. -/
theorem Spells.exists_scan {text : String} {words : List Word} (spells : Spells text words []) :
    ∃ stream, TokenStream.scan text.toList = .ok stream ∧ stream.words.map Token.word = words ∧
      stream.ending.word = .ending := by
  obtain ⟨tokens, rfl, read⟩ := spells .start
  rw [List.append_nil, tokensFrom] at read
  refine ⟨⟨text.toList, tokens, .ending (Position.start.after text.toList)⟩, ?_, rfl, rfl⟩
  rw [TokenStream.scan, read]
  simp [Except.map, bind, Except.bind, pure, Except.pure]

/-- Where no piece begins behind a text that is spelled, the reading ends with an error. -/
theorem Spells.exists_scan_error {text : String} {words : List Word} {first : Char}
    {rest : List Char} {fault : SyntaxFault} (spells : Spells text words (first :: rest))
    (refused : pieceAt first rest = .error fault) :
    ∃ error, TokenStream.scan (text.toList ++ first :: rest) = .error error := by
  obtain ⟨tokens, -, read⟩ := spells .start
  have stuck : tokensFrom (Position.start.after text.toList) (first :: rest) =
      .error ⟨fault, Position.start.after text.toList⟩ := by
    rw [tokensFrom]
    simp only [refused]
  rw [TokenStream.scan, read, stuck]
  exact ⟨_, rfl⟩

/-! ## Pieces -/

section Pieces

variable {text : String} {first : Char} {taken behind : List Char}

theorem spells_token {kind : TokenKind} (text_eq : text.toList = first :: taken)
    (found : pieceAt first (taken ++ behind) = .ok (.token kind, taken.length)) :
    Spells text [⟨kind, text⟩] behind := by
  intro position
  refine ⟨[⟨kind, text, position⟩], rfl, ?_⟩
  rw [text_eq, List.cons_append, tokensFrom]
  simp only [found, List.take_left, List.drop_left, ← text_eq, String.ofList_toList]
  cases tokensFrom (position.after text.toList) behind <;> rfl

theorem spells_space (text_eq : text.toList = [first]) (space : isSpace first = true) :
    Spells text [] behind := by
  intro position
  have found : pieceAt first behind = .ok (.gap, 0) := by
    rw [pieceAt.eq_def, if_pos space]
  refine ⟨[], rfl, ?_⟩
  rw [text_eq, List.singleton_append, tokensFrom]
  simp only [found, List.take_zero, List.drop_zero]
  cases tokensFrom (position.after [first]) behind <;> rfl

/-- The character begins a word, if anything. -/
structure Solid (first : Char) : Prop where
  isSpace_eq : isSpace first = false
  slash_ne : first ≠ '/'
  quote_ne : first ≠ '"'

theorem Solid.pieceAt_eq (solid : Solid first) {kind : TokenKind} {length : Nat}
    (word : Lexeme.word? (first :: behind) = some (kind, length + 1)) :
    pieceAt first behind = .ok (.token kind, length) := by
  rw [pieceAt.eq_def, solid.isSpace_eq, if_neg Bool.false_ne_true]
  split
  next => exact absurd rfl solid.slash_ne
  next => exact absurd rfl solid.slash_ne
  next => exact absurd rfl solid.quote_ne
  next => exact absurd rfl solid.quote_ne
  next =>
    rw [word]
    rfl

end Pieces

/-! ## Identifiers -/

namespace Lexeme

theorem isSpace_of_isWordPart {character : Char} (part : isWordPart character = true) :
    isSpace character = false := by
  -- In the order of characters, what makes up words comes behind all white space.
  have low : '0' ≤ character := by
    obtain word | line := Bool.or_eq_true_iff.mp part
    · obtain letter | digit := Bool.or_eq_true_iff.mp word
      · obtain upper | lower := Bool.or_eq_true_iff.mp letter
        · have first : 'A' ≤ character := (of_decide_eq_true upper).1
          exact Char.le_trans (by decide) first
        · have first : 'a' ≤ character := of_decide_eq_true (Bool.and_eq_true_iff.mp lower).1
          exact Char.le_trans (by decide) first
      · exact of_decide_eq_true (Bool.and_eq_true_iff.mp digit).1
    · rw [beq_iff_eq.mp line]
      decide
  rw [Bool.eq_false_iff]
  intro space
  simp only [isSpace, Bool.or_eq_true, beq_iff_eq, Bool.and_eq_true, decide_eq_true_eq] at space
  obtain rfl | ⟨-, high⟩ := space
  · exact absurd low (by decide)
  · exact absurd (Char.le_trans low high) (by decide)

theorem solid_of_identifierLength? {first : Char} {rest : List Char} {length : Nat}
    (identifier : identifierLength? (first :: rest) = some length) : Solid first := by
  by_cases start : isWordStart first
  · refine ⟨isSpace_of_isWordPart (isWordPart_of_isWordStart start), ?_, ?_⟩
    all_goals
      rintro rfl
      cases start
  · simp only [identifierLength?, start, Bool.false_eq_true, if_false] at identifier
    by_cases dollar : first = '$'
    · subst dollar
      exact ⟨by decide, by decide, by decide⟩
    · by_cases accent : first = '\x60'
      · subst accent
        exact ⟨by decide, by decide, by decide⟩
      · simp [dollar, accent] at identifier

end Lexeme

theorem spells_identifier {name : String} {behind : List Char} (identifier : IsIdentifier name)
    (ends : Ends behind) : Spells name [.identifier name] behind := by
  have longer := Lexeme.identifierLength?_append (isIdentifier_iff.mp identifier) ends
  cases text_eq : name.toList with
  | nil =>
    rw [IsIdentifier, text_eq] at identifier
    cases identifier
  | cons first taken =>
    rw [IsIdentifier, text_eq] at identifier
    rw [text_eq] at longer
    apply spells_token text_eq
    apply (Lexeme.solid_of_identifierLength? identifier).pieceAt_eq
    rw [Lexeme.word?, ← List.cons_append, longer]
    rfl

/-! ## Marks -/

/-- Neither an identifier nor a number begins with the character. -/
structure Bare (mark : Char) : Prop extends Solid mark where
  start_eq : Lexeme.isWordStart mark = false
  dollar_ne : mark ≠ '$'
  accent_ne : mark ≠ '\x60'
  digit_eq : Text.isDecimalDigit mark = false

theorem Bare.word?_eq {mark : Char} (bare : Bare mark) (behind : List Char) :
    Lexeme.word? (mark :: behind) =
      (Lexeme.punctuationLength? (mark :: behind)).map fun length => (.punctuation, length) := by
  have identifier : Lexeme.identifierLength? (mark :: behind) = none := by
    simp [Lexeme.identifierLength?, bare.start_eq, bare.dollar_ne, bare.accent_ne]
  have radix : Lexeme.radixLength? (mark :: behind) = none := by
    refine Lexeme.radixLength?_eq_none ?_ behind
    rintro rfl
    exact absurd bare.digit_eq (by decide)
  have decimal : Lexeme.decimalLength? (mark :: behind) = none := by
    simp [Lexeme.decimalLength?, bare.digit_eq]
  rw [Lexeme.word?, identifier, Lexeme.numberLength?, radix, decimal]
  rfl

/-- Marks that are words of one character, whatever follows them. -/
def plainMarks : List Char :=
  "+*%=<>!&|^~?,:;()[]\x7b\x7d@#\\".toList

theorem of_mem_plainMarks (Holds : Char → Prop) [DecidablePred Holds] {mark : Char}
    (known : mark ∈ plainMarks) (all : plainMarks.all (fun other => Holds other) = true) :
    Holds mark :=
  of_decide_eq_true (List.all_eq_true.mp all mark known)

theorem bare_of_mem_plainMarks {mark : Char} (known : mark ∈ plainMarks) : Bare mark := by
  obtain ⟨⟨space, slash, quote⟩, start, dollar, accent, digit⟩ := of_mem_plainMarks
    (fun mark => (isSpace mark = false ∧ mark ≠ '/' ∧ mark ≠ '"') ∧
      Lexeme.isWordStart mark = false ∧ mark ≠ '$' ∧ mark ≠ '\x60' ∧
      Text.isDecimalDigit mark = false) known (by decide)
  exact ⟨⟨space, slash, quote⟩, start, dollar, accent, digit⟩

theorem punctuationLength?_of_mem_plainMarks {mark : Char} (known : mark ∈ plainMarks)
    (behind : List Char) : Lexeme.punctuationLength? (mark :: behind) = some 1 := by
  obtain ⟨dash, point, contained⟩ := of_mem_plainMarks
    (fun mark => mark ≠ '-' ∧ mark ≠ '.' ∧ Lexeme.punctuationMarks.contains mark = true)
    known (by decide)
  unfold Lexeme.punctuationLength?
  split
  next arrow => cases arrow; exact absurd rfl dash
  next ellipsis => cases ellipsis; exact absurd rfl point
  next range => cases range; exact absurd rfl point
  next same => cases same; rw [if_pos contained]
  next nothing => cases nothing

theorem pieceAt_of_mem_plainMarks {mark : Char} (known : mark ∈ plainMarks) (behind : List Char) :
    pieceAt mark behind = .ok (.token .punctuation, 0) := by
  have bare := bare_of_mem_plainMarks known
  apply bare.toSolid.pieceAt_eq
  rw [bare.word?_eq, punctuationLength?_of_mem_plainMarks known]
  rfl

theorem spells_mark {text : String} {mark : Char} (text_eq : text.toList = [mark])
    (known : mark ∈ plainMarks) (behind : List Char) : Spells text [.mark text] behind :=
  spells_token text_eq (pieceAt_of_mem_plainMarks known behind)

/-- Every token that begins with a plain mark is the mark. -/
theorem kind_of_tokensFrom {text : List Char} {position finish : Position} {words : List Token}
    (scanned : tokensFrom position text = .ok (words, finish)) {mark : Char}
    (known : mark ∈ plainMarks) :
    ∀ word ∈ words, word.text.toList.head? = some mark → word.kind = .punctuation := by
  refine forall_of_tokensFrom
    (fun word => word.text.toList.head? = some mark → word.kind = .punctuation) ?_ scanned
  intro first rest kind length position measured begins
  obtain rfl : first = mark := by simpa using begins
  cases measured.symm.trans (pieceAt_of_mem_plainMarks known rest)
  rfl

/-- A word that reads like a plain mark is the mark. -/
theorem TokenStream.isPunctuation_of_mem {source : List Char} {stream : TokenStream}
    (scanned : TokenStream.scan source = .ok stream) {text : String} {mark : Char}
    (text_eq : text.toList = [mark]) (known : mark ∈ plainMarks) {word : Token}
    (member : word ∈ stream.words) (reads : word.reads text = true) :
    word.isPunctuation text = true := by
  obtain ⟨words, finish, read, rfl⟩ := exists_tokensFrom_of_scan scanned
  simp only [Token.reads, Bool.and_eq_true, beq_iff_eq] at reads
  have kind_eq := kind_of_tokensFrom read known word member (by rw [reads.2, text_eq]; rfl)
  simp only [Token.isPunctuation, kind_eq, reads.2, beq_self_eq_true, Bool.and_self]

theorem TokenStream.isPunctuation_of_reads {source : List Char} {stream : TokenStream}
    (scanned : TokenStream.scan source = .ok stream) {text : String} {mark : Char}
    (text_eq : text.toList = [mark]) (known : mark ∈ plainMarks) {index : Nat}
    (reads : (stream.token index).reads text = true) :
    (stream.token index).isPunctuation text = true := by
  have filled : text ≠ "" := by
    rintro rfl
    cases text_eq
  have inside := (ordered_of_scan scanned).2.lt_length_of_reads reads filled
  rw [token_eq_getElem inside] at reads ⊢
  exact isPunctuation_of_mem scanned text_eq known (List.getElem_mem inside) reads

/-- A point that does not begin a range or an ellipsis. -/
theorem spells_point {behind : List Char} (alone : behind.head? ≠ some '.') :
    Spells "." [.mark "."] behind := by
  have bare : Bare '.' := ⟨⟨by decide, by decide, by decide⟩, by decide, by decide, by decide,
    by decide⟩
  apply spells_token (show ".".toList = ['.'] from rfl)
  apply bare.toSolid.pieceAt_eq
  rw [bare.word?_eq]
  cases behind with
  | nil => rfl
  | cons next rest =>
    have other : next ≠ '.' := by simpa using alone
    unfold Lexeme.punctuationLength?
    split
    next arrow => cases arrow
    next ellipsis => cases ellipsis; exact absurd rfl other
    next range => cases range; exact absurd rfl other
    next same => cases same; rfl
    next nothing => cases nothing

theorem spells_arrow (behind : List Char) : Spells "->" [.mark "->"] behind := by
  have bare : Bare '-' := ⟨⟨by decide, by decide, by decide⟩, by decide, by decide, by decide,
    by decide⟩
  apply spells_token (show "->".toList = ['-', '>'] from rfl)
  apply bare.toSolid.pieceAt_eq
  rw [List.singleton_append, bare.word?_eq]
  rfl

/-! ## Lists -/

theorem exists_append_eq_intercalate (separator first : String) (others : List String) :
    ∃ tail, (separator.intercalate (first :: others)).toList = first.toList ++ tail := by
  cases others with
  | nil => exact ⟨[], by simp⟩
  | cons next more =>
    rw [String.intercalate_cons_cons, String.append_assoc, String.toList_append]
    exact ⟨_, rfl⟩

/-- Items are spelled with a separator between them as each is on its own. -/
theorem spells_intercalate {α : Type} {items : List α} {text : α → String}
    {words : α → List Word} {separator : String} {mark : Word}
    (spells : ∀ item ∈ items, ∀ behind, Ends behind → Spells (text item) (words item) behind)
    (separates : ∀ item ∈ items, ∀ behind, Spells separator [mark] ((text item).toList ++ behind))
    (ends : ∀ behind, Ends (separator.toList ++ behind)) {behind : List Char}
    (endsBehind : Ends behind) :
    Spells (separator.intercalate (items.map text)) ([mark].intercalate (items.map words))
      behind := by
  induction items with
  | nil => exact .empty behind
  | cons item items inductionHypothesis =>
    have others := inductionHypothesis
      (fun other member => spells other (List.mem_cons_of_mem item member))
      (fun other member => separates other (List.mem_cons_of_mem item member))
    have spellsItem := spells item List.mem_cons_self
    cases items with
    | nil => simpa using spellsItem behind endsBehind
    | cons next more =>
      simp only [List.map_cons, String.intercalate_cons_cons, List.intercalate_cons_cons]
        at others ⊢
      -- A separator may depend on what follows it, which is the next item and no more.
      obtain ⟨tail, tail_eq⟩ := exists_append_eq_intercalate separator (text next) (more.map text)
      refine .append (.append (spellsItem _ (ends _)) ?_) others
      rw [tail_eq, List.append_assoc]
      exact separates next (List.mem_cons_of_mem item List.mem_cons_self) _

end PeerExpansion
