import PeerExpansion.Proofs.Declaration.Parallel
import PeerExpansion.Proofs.Outcome
import PeerExpansion.Proofs.Reading.Place
import PeerExpansion.Proofs.Token.Faithful
import PeerExpansion.Proofs.Token.Spelling

/-! # Comments and spacing

Two sources with the same words, and with a break or no gap at all between the same of them, are
read as the same declarations. All else about the gaps makes no difference. The outline of a
declaration is what it says apart from places and from source text that is kept as it stands.
-/

namespace PeerExpansion

open Reading

/-! ## Outlines -/

/-- The labels of the arguments, and the words of their expressions. -/
def Argument.outline (argument : Argument) : Option String × List String :=
  (argument.label, argument.tokens.map Token.text)

def Attribute.outline (attr : Attribute) :
    String × Option (List (Option String × List String)) :=
  (attr.name, attr.arguments.map fun arguments => arguments.map Argument.outline)

/-- What a pattern binds. -/
inductive PatternOutline
  | name (identifier : String)
  | wildcard
  | tuple (elements : List PatternOutline)

namespace Pattern

mutual

def outline : Pattern → PatternOutline
  | name text _ => .name text
  | wildcard _ => .wildcard
  | tuple elements _ _ => .tuple (outlines elements)

def outlines : List Pattern → List PatternOutline
  | [] => []
  | pattern :: others => pattern.outline :: outlines others

end

end Pattern

structure DeclarationOutline where
  kind : DeclarationKind
  keyword : String
  name : Option String
  modifiers : List String
  attributes : List (String × Option (List (Option String × List String)))
  bindings : List (PatternOutline × Option TypeExpr)

def Declaration.outline (declaration : Declaration) : DeclarationOutline where
  kind := declaration.kind
  keyword := declaration.keyword
  name := declaration.name
  modifiers := declaration.modifiers
  attributes := declaration.attributes.map Attribute.outline
  bindings := declaration.bindings.map fun binding => (binding.pattern.outline, binding.type)

namespace Likeness

variable {source other : List Char} {like : Likeness source other}

theorem Arguments.outline_eq {argument twin : Argument} (alike : like.Arguments argument twin) :
    argument.outline = twin.outline := by
  rw [Argument.outline, Argument.outline, alike.label_eq, map_text_eq alike.tokens]

theorem Attributes.outline_eq {attr twin : Attribute} (alike : like.Attributes attr twin) :
    attr.outline = twin.outline := by
  rw [Attribute.outline, Attribute.outline, alike.name_eq]
  congr 1
  exact map_eq_of_rel alike.arguments fun _ _ all =>
    map_eq_of_forall₂ all fun _ _ => Arguments.outline_eq

mutual

theorem Patterns.outline_eq : ∀ {pattern twin : Pattern}, like.Patterns pattern twin →
    pattern.outline = twin.outline
  | .name _ _, _, .name _ => rfl
  | .wildcard _, _, .wildcard _ => rfl
  | .tuple elements _ _, _, .tuple alike _ _ => by
    rw [Pattern.outline, Pattern.outline, Patterns.outlines_eq alike]

theorem Patterns.outlines_eq : ∀ {patterns twins : List Pattern},
    List.Forall₂ like.Patterns patterns twins →
      Pattern.outlines patterns = Pattern.outlines twins
  | [], _, .nil => rfl
  | pattern :: others, _, .cons alike rest => by
    rw [Pattern.outlines, Pattern.outlines, Patterns.outline_eq alike, Patterns.outlines_eq rest]

end

theorem Declarations.outline_eq {declaration twin : Declaration}
    (alike : like.Declarations declaration twin) : declaration.outline = twin.outline := by
  rw [Declaration.outline, Declaration.outline, alike.kind_eq, alike.keyword_eq, alike.name_eq,
    alike.modifiers_eq, map_eq_of_forall₂ alike.attributes fun _ _ => Attributes.outline_eq]
  congr 1
  refine map_eq_of_forall₂ alike.bindings fun binding twin bound => ?_
  rw [bound.pattern.outline_eq, bound.type_eq]

end Likeness

/-! ## Sources that differ in their gaps -/

namespace TokenStream

/-- The words are the same, and those that touch and those that begin a later line than the word in
front of them are the same too. -/
structure Matches (stream other : TokenStream) : Prop where
  words_eq : stream.words.map Token.word = other.words.map Token.word
  touches_iff : ∀ index < stream.words.length,
    ((stream.token index).stop = (stream.token (index + 1)).start ↔
      (other.token index).stop = (other.token (index + 1)).start)
  line_lt_iff : ∀ index < stream.words.length,
    ((stream.token index).position.line < (stream.token (index + 1)).position.line ↔
      (other.token index).position.line < (other.token (index + 1)).position.line)

instance (stream other : TokenStream) : Decidable (stream.Matches other) :=
  decidable_of_iff
    (stream.words.map Token.word = other.words.map Token.word ∧
      (∀ index < stream.words.length,
        ((stream.token index).stop = (stream.token (index + 1)).start ↔
          (other.token index).stop = (other.token (index + 1)).start)) ∧
      ∀ index < stream.words.length,
        ((stream.token index).position.line < (stream.token (index + 1)).position.line ↔
          (other.token index).position.line < (other.token (index + 1)).position.line))
    ⟨fun ⟨words, touches, lines⟩ => ⟨words, touches, lines⟩,
      fun same => ⟨same.words_eq, same.touches_iff, same.line_lt_iff⟩⟩

/-- Tokens come in the order of their lines. -/
theorem line_le_line {source : List Char} {stream : TokenStream}
    (scanned : scan source = .ok stream) {first second : Nat} (before : first ≤ second) :
    (stream.token first).position.line ≤ (stream.token second).position.line := by
  have ordered := (ordered_of_scan scanned).2
  have line_eq (index : Nat) : (stream.token index).position.line =
      1 + (source.take (stream.token index).start).count '\n' := by
    obtain ⟨offset, inside, position_eq⟩ := within_of_scan scanned _ (stream.token_mem_toList index)
    rw [Token.start, position_eq, Position.offset_ofOffset inside, Position.line_ofOffset]
  have starts := ordered.start_le_start before
  have sublist := (List.take_prefix_take_left (l := source) starts).sublist.count_le '\n'
  rw [line_eq, line_eq]
  omega

/-- Between two places that a growing measure tells apart there is a step that it tells apart. -/
theorem lt_of_steps {measure twin : Nat → Nat} {bound : Nat}
    (grows : ∀ first second, first ≤ second → measure first ≤ measure second)
    (twinGrows : ∀ first second, first ≤ second → twin first ≤ twin second)
    (steps : ∀ index < bound, measure index < measure (index + 1) → twin index < twin (index + 1))
    {first second : Nat} (inside : second ≤ bound) (before : measure first < measure second) :
    twin first < twin second := by
  induction second with
  | zero => exact absurd before (Nat.not_lt_of_le (grows _ _ (Nat.zero_le _)))
  | succ second inductionHypothesis =>
    have order : first ≤ second := by
      by_contra behind
      exact Nat.not_lt_of_le (grows (second + 1) first (by omega)) before
    obtain later | same := Nat.lt_or_ge (measure second) (measure (second + 1))
    · exact Nat.lt_of_le_of_lt (twinGrows _ _ order) (steps second (by omega) later)
    · have earlier := inductionHypothesis (by omega) (by omega)
      exact Nat.lt_of_lt_of_le earlier (twinGrows _ _ (Nat.le_succ _))

namespace Ordered

variable {stream : TokenStream}

/-- A word touches no token but the next one. -/
theorem stop_eq_start_iff (ordered : stream.Ordered) {first second : Nat}
    (inside : first < stream.words.length) (otherInside : second ≤ stream.words.length) :
    (stream.token first).stop = (stream.token second).start ↔
      second = first + 1 ∧ (stream.token first).stop = (stream.token (first + 1)).start := by
  refine ⟨fun touches => ?_, fun ⟨next, touches⟩ => next ▸ touches⟩
  obtain rfl : second = first + 1 := by
    by_contra apart
    obtain behind | beyond := Nat.lt_or_gt_of_ne apart
    · have := ordered.start_lt_stop inside
      have := ordered.start_le_start (show second ≤ first by omega)
      omega
    · have := ordered.stop_le_start (Nat.lt_add_one first) inside
      have := ordered.start_lt_start (show first + 1 < second by omega) (by omega)
      omega
  exact ⟨rfl, touches⟩

theorem stop_ending (ordered : stream.Ordered) :
    (stream.token stream.words.length).stop = stream.source.length := by
  rw [token_eq_ending (Nat.le_refl _), Token.stop, ordered.ending_start, ordered.ending_text]
  rfl

end Ordered

namespace Matches

variable {source otherSource : List Char} {stream other : TokenStream}
variable (same : stream.Matches other)

include same

theorem length_eq : stream.words.length = other.words.length := by
  simpa using congrArg List.length same.words_eq

theorem symm : other.Matches stream where
  words_eq := same.words_eq.symm
  touches_iff index inside := (same.touches_iff index (same.length_eq ▸ inside)).symm
  line_lt_iff index inside := (same.line_lt_iff index (same.length_eq ▸ inside)).symm

theorem word_eq (ordered : stream.Ordered) (otherOrdered : other.Ordered) (index : Nat) :
    (stream.token index).word = (other.token index).word := by
  obtain within | beyond := Nat.lt_or_ge index stream.words.length
  · have twin := congrArg (·[index]?) same.words_eq
    have otherWithin := same.length_eq ▸ within
    simpa [token_eq_getElem within, token_eq_getElem otherWithin, within, otherWithin] using twin
  · rw [token_eq_ending beyond, token_eq_ending (same.length_eq ▸ beyond), Token.word, Token.word,
      ordered.ending_kind, ordered.ending_text, otherOrdered.ending_kind, otherOrdered.ending_text]

section Scanned

variable (scanned : scan source = .ok stream) (otherScanned : scan otherSource = .ok other)
include scanned otherScanned

theorem line_lt_of_line_lt {first second : Nat} (inside : second ≤ stream.words.length)
    (before : (stream.token first).position.line < (stream.token second).position.line) :
    (other.token first).position.line < (other.token second).position.line :=
  lt_of_steps (fun _ _ => line_le_line scanned) (fun _ _ => line_le_line otherScanned)
    (fun index within => (same.line_lt_iff index within).mp) inside before

theorem touches_iff_touches {first second : Nat} (inside : first ≤ stream.words.length)
    (otherInside : second ≤ stream.words.length) :
    (stream.token first).stop = (stream.token second).start ↔
      (other.token first).stop = (other.token second).start := by
  have ordered := (ordered_of_scan scanned).2
  have otherOrdered := (ordered_of_scan otherScanned).2
  have length_eq := same.length_eq
  obtain within | rfl := Nat.lt_or_eq_of_le inside
  · have front := ordered.stop_eq_start_iff within otherInside
    have back := otherOrdered.stop_eq_start_iff (show first < other.words.length by omega)
      (show second ≤ other.words.length by omega)
    rw [front, back, same.touches_iff first within]
  · -- What the ending touches begins at the end of the source, as only the ending does.
    have end_iff {stream : TokenStream} (ordered : stream.Ordered) {index : Nat}
        (inside : index ≤ stream.words.length) :
        stream.source.length = (stream.token index).start ↔ index = stream.words.length := by
      constructor
      · intro starts
        by_contra apart
        have := ordered.start_lt_stop (show index < stream.words.length by omega)
        have := ordered.stop_le_length (show index < stream.words.length by omega)
        omega
      · rintro rfl
        rw [token_eq_ending (Nat.le_refl _), ordered.ending_start]
    rw [ordered.stop_ending, end_iff ordered otherInside, length_eq, otherOrdered.stop_ending,
      end_iff otherOrdered (length_eq ▸ otherInside)]

end Scanned

end Matches

/-- Tokens of the same place correspond. Nothing is asked of places and of text. -/
def Matches.likeness {source otherSource : List Char} {stream other : TokenStream}
    (same : stream.Matches other) (scanned : scan source = .ok stream)
    (otherScanned : scan otherSource = .ok other) : Likeness stream.source other.source where
  Tokens token twin :=
    ∃ index ≤ stream.words.length, token = stream.token index ∧ twin = other.token index
  Positions _ _ := True
  Stops _ _ := True
  Texts _ _ := True
  kind_eq := by
    rintro _ _ ⟨index, _, rfl, rfl⟩
    exact congrArg Word.kind
      (same.word_eq (ordered_of_scan scanned).2 (ordered_of_scan otherScanned).2 index)
  text_eq := by
    rintro _ _ ⟨index, _, rfl, rfl⟩
    exact congrArg Word.text
      (same.word_eq (ordered_of_scan scanned).2 (ordered_of_scan otherScanned).2 index)
  line_lt_iff := by
    rintro _ _ _ _ ⟨first, inside, rfl, rfl⟩ ⟨second, otherInside, rfl, rfl⟩
    exact ⟨same.line_lt_of_line_lt scanned otherScanned otherInside,
      same.symm.line_lt_of_line_lt otherScanned scanned (same.length_eq ▸ otherInside)⟩
  touches_iff := by
    rintro _ _ _ _ ⟨first, inside, rfl, rfl⟩ ⟨second, otherInside, rfl, rfl⟩
    exact same.touches_iff_touches scanned otherScanned inside otherInside
  position _ := trivial
  stop _ := trivial
  empty := trivial
  slice _ _ := trivial

theorem Matches.cursors {source otherSource : List Char} {stream other : TokenStream}
    (same : stream.Matches other) (scanned : scan source = .ok stream)
    (otherScanned : scan otherSource = .ok other) (index : Nat) :
    (same.likeness scanned otherScanned).Cursors false (.ofStream stream index)
      (.ofStream other index) where
  source_eq := rfl
  other_eq := rfl
  ends := (ordered_of_scan scanned).2.endsEmpty index
  behind := by
    refine List.forall₂_drop index (List.forall₂_iff_get.mpr ⟨same.length_eq, ?_⟩)
    intro place inside otherInside
    exact ⟨place, Nat.le_of_lt inside, (token_eq_getElem inside).symm,
      (token_eq_getElem otherInside).symm⟩
  ending := ⟨stream.words.length, Nat.le_refl _, (token_eq_ending (Nat.le_refl _)).symm,
    (token_eq_ending (Nat.le_of_eq same.length_eq.symm)).symm⟩
  previous := nofun

end TokenStream

/-! ## The same declarations -/

theorem Cursor.Leads.index_add_remaining {first last : Cursor} (leads : first.Leads last) :
    last.index + last.remaining = first.index + first.remaining := by
  obtain ⟨count, rfl⟩ := leads
  simpa [Cursor.index, Cursor.remaining] using
    congrArg List.length (first.before_append_behind_skip count)

/-- Two readings that complain about the same, or that both find a declaration with the same outline
and end in front of the token with the same index. -/
def SameOutcome : Except SyntaxError (Declaration × Cursor) →
    Except SyntaxError (Declaration × Cursor) → Prop
  | .error error, .error other => error.fault = other.fault
  | .ok (declaration, last), .ok (other, otherLast) =>
    declaration.outline = other.outline ∧ last.index = otherLast.index
  | _, _ => False

/-- Comments and spacing do not change what is read. -/
theorem read_sameOutcome {source otherSource : List Char} {stream other : TokenStream}
    (scanned : TokenStream.scan source = .ok stream)
    (otherScanned : TokenStream.scan otherSource = .ok other) (same : stream.Matches other)
    (index : Nat) :
    SameOutcome (Declaration.read.run (.ofStream stream index))
      (Declaration.read.run (.ofStream other index)) := by
  have agree := Declaration.parallel_read _ _ (same.cursors scanned otherScanned index)
  cases read : Declaration.read.run (.ofStream stream index) with
  | error error =>
    cases otherRead : Declaration.read.run (.ofStream other index) with
    | error otherError =>
      rw [read, otherRead] at agree
      exact agree
    | ok =>
      rw [read, otherRead] at agree
      exact agree.elim
  | ok found =>
    cases otherRead : Declaration.read.run (.ofStream other index) with
    | error =>
      rw [read, otherRead] at agree
      exact agree.elim
    | ok otherFound =>
      obtain ⟨declaration, last⟩ := found
      obtain ⟨otherDeclaration, otherLast⟩ := otherFound
      rw [read, otherRead] at agree
      have counted := (Declaration.forward_read _ _ _ read).index_add_remaining
      have otherCounted := (Declaration.forward_read _ _ _ otherRead).index_add_remaining
      have remaining_eq := agree.2.remaining_eq
      have length_eq := same.length_eq
      refine ⟨agree.1.outline_eq, ?_⟩
      simp only [Cursor.index, Cursor.ofStream, Cursor.remaining, List.length_reverse,
        List.length_take, List.length_drop] at counted otherCounted remaining_eq ⊢
      omega

def closeSample : List Char :=
  "@Echo(a: 1)\nvar (x, _): Int // z".toList

def wideSample : List Char :=
  "@Echo(a:/**/1)\n\n var  (x,\t_):  Int ".toList

set_option maxRecDepth 20000 in
theorem read_sameOutcome_wideSample : ∃ stream other,
    TokenStream.scan closeSample = .ok stream ∧ TokenStream.scan wideSample = .ok other ∧
      stream.Matches other ∧
      SameOutcome (Declaration.read.run (.ofStream stream 0))
        (Declaration.read.run (.ofStream other 0)) := by
  have evaluated : (TokenStream.scan closeSample).toOption.any (fun stream =>
      (TokenStream.scan wideSample).toOption.any fun other => stream.Matches other) = true := by
    decide +kernel
  obtain ⟨stream, scanned, evaluated⟩ := exists_of_any evaluated
  obtain ⟨other, otherScanned, evaluated⟩ := exists_of_any evaluated
  have same := of_decide_eq_true evaluated
  exact ⟨stream, other, scanned, otherScanned, same, read_sameOutcome scanned otherScanned same 0⟩

end PeerExpansion
