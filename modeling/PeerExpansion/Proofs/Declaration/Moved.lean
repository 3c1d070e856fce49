import PeerExpansion.Proofs.Declaration.Parallel
import PeerExpansion.Proofs.Reading.Place
import PeerExpansion.Proofs.Token.Moved

/-! # Declarations in another place

A text that stands somewhere in a source, with the tokens there that it has on its own, is read
there as it is read on its own. Only the places are others.
-/

namespace PeerExpansion

open Reading

def Argument.moved (base : Position) (argument : Argument) : Argument where
  label := argument.label
  expression := argument.expression
  tokens := argument.tokens.map (Token.moved base)
  position := argument.position.moved base

def Attribute.moved (base : Position) (attr : Attribute) : Attribute where
  name := attr.name
  arguments := attr.arguments.map fun arguments => arguments.map (Argument.moved base)
  position := attr.position.moved base
  stop := base.offset + attr.stop

namespace Pattern

mutual

def moved (base : Position) : Pattern → Pattern
  | name text position => .name text (position.moved base)
  | wildcard position => .wildcard (position.moved base)
  | tuple elements text position => .tuple (allMoved base elements) text (position.moved base)

def allMoved (base : Position) : List Pattern → List Pattern
  | [] => []
  | pattern :: others => pattern.moved base :: allMoved base others

end

end Pattern

def Binding.moved (base : Position) (binding : Binding) : Binding :=
  { binding with pattern := binding.pattern.moved base }

/-- The declaration that the text of this one is read as where it begins at `base`. -/
def Declaration.moved (base : Position) (declaration : Declaration) : Declaration :=
  { declaration with
    position := declaration.position.moved base
    stop := base.offset + declaration.stop
    attributes := declaration.attributes.map (Attribute.moved base)
    bindings := declaration.bindings.map (Binding.moved base) }

/-! ## At the start of a source -/

@[simp]
theorem Argument.moved_by_start (argument : Argument) : argument.moved .start = argument := by
  have tokens_eq : argument.tokens.map (Token.moved .start) = argument.tokens :=
    List.map_id'' Token.moved_by_start _
  rw [moved, tokens_eq, Position.moved_by_start]

@[simp]
theorem Attribute.moved_by_start (attr : Attribute) : attr.moved .start = attr := by
  have each (arguments : List Argument) : arguments.map (Argument.moved .start) = arguments :=
    List.map_id'' Argument.moved_by_start _
  have arguments_eq : (attr.arguments.map fun arguments => arguments.map (Argument.moved .start)) =
      attr.arguments := by
    cases attr.arguments with
    | none => rfl
    | some arguments => exact congrArg some (each arguments)
  have stop_eq : Position.start.offset + attr.stop = attr.stop := Nat.zero_add _
  rw [moved, arguments_eq, Position.moved_by_start, stop_eq]

namespace Pattern

mutual

theorem moved_by_start : ∀ pattern : Pattern, pattern.moved .start = pattern
  | name text position => by rw [moved, Position.moved_by_start]
  | wildcard position => by rw [moved, Position.moved_by_start]
  | tuple elements text position => by
    rw [moved, Position.moved_by_start, allMoved_by_start elements]

theorem allMoved_by_start : ∀ patterns : List Pattern, allMoved .start patterns = patterns
  | [] => rfl
  | pattern :: others => by rw [allMoved, moved_by_start pattern, allMoved_by_start others]

end

end Pattern

@[simp]
theorem Binding.moved_by_start (binding : Binding) : binding.moved .start = binding := by
  rw [moved, Pattern.moved_by_start]

@[simp]
theorem Declaration.moved_by_start (declaration : Declaration) :
    declaration.moved .start = declaration := by
  have attributes_eq : declaration.attributes.map (Attribute.moved .start) =
      declaration.attributes :=
    List.map_id'' Attribute.moved_by_start _
  have bindings_eq : declaration.bindings.map (Binding.moved .start) = declaration.bindings :=
    List.map_id'' Binding.moved_by_start _
  have stop_eq : Position.start.offset + declaration.stop = declaration.stop := Nat.zero_add _
  rw [moved, attributes_eq, bindings_eq, Position.moved_by_start, stop_eq]

/-! ## Parts of a source -/

/-- The text `inner` as a part of `source`. -/
structure Inlay (inner source : List Char) where
  front : List Char
  tail : List Char
  source_eq : source = front ++ (inner ++ tail)

namespace Inlay

variable {inner source : List Char} (inlay : Inlay inner source)

/-- Where the part begins. -/
def base : Position :=
  Position.start.after inlay.front

theorem offset_base : inlay.base.offset = inlay.front.length := by
  rw [base, Position.offset_after]
  exact Nat.zero_add _

theorem take_eq {offset : Nat} (inside : offset ≤ inner.length) :
    source.take (inlay.base.offset + offset) = inlay.front ++ inner.take offset := by
  obtain ⟨front, tail, rfl⟩ := inlay
  rw [offset_base, List.take_append, List.take_of_length_le (Nat.le_add_right _ _),
    Nat.add_sub_cancel_left, List.take_append_of_le_length inside]

theorem drop_eq {offset : Nat} (inside : offset ≤ inner.length) :
    source.drop (inlay.base.offset + offset) = inner.drop offset ++ inlay.tail := by
  obtain ⟨front, tail, rfl⟩ := inlay
  rw [offset_base, ← List.drop_drop, List.drop_left, List.drop_append_of_le_length inside]

theorem slice_eq {first last : Nat} (inside : last ≤ inner.length) :
    Text.slice source (inlay.base.offset + first) (inlay.base.offset + last) =
      Text.slice inner first last := by
  rw [Text.slice, Text.slice, Nat.add_sub_add_left]
  by_cases order : first ≤ last
  · rw [inlay.drop_eq (by omega), List.take_append_of_le_length (by rw [List.length_drop]; omega)]
  · simp [show last - first = 0 by omega]

theorem line_lt_moved_iff (first second : Token) :
    first.position.line < second.position.line ↔
      (first.moved inlay.base).position.line < (second.moved inlay.base).position.line := by
  have counted := (Position.counted_start.after inlay.front).line_pos
  show _ ↔ inlay.base.line + _ - 1 < inlay.base.line + _ - 1
  have : 1 ≤ inlay.base.line := counted
  omega

theorem touches_moved_iff (first second : Token) :
    first.stop = second.start ↔
      (first.moved inlay.base).stop = (second.moved inlay.base).start := by
  simp only [Token.stop, Token.start, Token.moved, Position.moved]
  omega

/-- The tokens of the part, and those that the source has in its place. -/
def likeness : Likeness inner source where
  Tokens token twin := token.moved inlay.base = twin ∧ token.stop ≤ inner.length
  Positions position twin := position.moved inlay.base = twin
  Stops stop twin := inlay.base.offset + stop = twin
  Texts := Eq
  kind_eq := by
    rintro token _ ⟨rfl, _⟩
    rfl
  text_eq := by
    rintro token _ ⟨rfl, _⟩
    rfl
  line_lt_iff := by
    rintro first _ second _ ⟨rfl, _⟩ ⟨rfl, _⟩
    exact inlay.line_lt_moved_iff first second
  touches_iff := by
    rintro first _ second _ ⟨rfl, _⟩ ⟨rfl, _⟩
    exact inlay.touches_moved_iff first second
  position := by
    rintro token _ ⟨rfl, _⟩
    rfl
  stop := by
    rintro token _ ⟨rfl, _⟩
    exact (Nat.add_assoc _ _ _).symm
  empty := rfl
  slice := by
    rintro first _ last _ ⟨rfl, _⟩ ⟨rfl, inside⟩
    rw [← inlay.slice_eq inside, Token.stop, Token.stop, ← Nat.add_assoc]
    rfl

variable {inlay : Inlay inner source}

theorem map_moved_eq {tokens twins : List Token}
    (alike : List.Forall₂ inlay.likeness.Tokens tokens twins) :
    tokens.map (Token.moved inlay.base) = twins := by
  rw [Likeness.map_eq_of_forall₂ alike fun _ _ alike => alike.1, List.map_id']

theorem forall₂_tokens {tokens : List Token}
    (inside : ∀ token ∈ tokens, token.stop ≤ inner.length) :
    List.Forall₂ inlay.likeness.Tokens tokens (tokens.map (Token.moved inlay.base)) := by
  rw [List.forall₂_map_right_iff, List.forall₂_same]
  exact fun token member => ⟨rfl, inside token member⟩

theorem argument_moved_eq {argument twin : Argument}
    (alike : inlay.likeness.Arguments argument twin) : argument.moved inlay.base = twin := by
  have expression_eq : argument.expression = twin.expression := alike.expression
  have position_eq : argument.position.moved inlay.base = twin.position := alike.position
  rw [Argument.moved, alike.label_eq, expression_eq, map_moved_eq alike.tokens, position_eq]

theorem attribute_moved_eq {attr twin : Attribute}
    (alike : inlay.likeness.Attributes attr twin) : attr.moved inlay.base = twin := by
  have position_eq : attr.position.moved inlay.base = twin.position := alike.position
  have stop_eq : inlay.base.offset + attr.stop = twin.stop := alike.stop
  have arguments_eq :
      (attr.arguments.map fun arguments => arguments.map (Argument.moved inlay.base)) =
      twin.arguments.map id :=
    Likeness.map_eq_of_rel alike.arguments fun arguments twins all => by
      rw [Likeness.map_eq_of_forall₂ all fun _ _ => argument_moved_eq, List.map_id']
      rfl
  rw [Attribute.moved, alike.name_eq, arguments_eq, Option.map_id, position_eq, stop_eq]
  rfl

mutual

theorem pattern_moved_eq : ∀ {pattern twin : Pattern}, inlay.likeness.Patterns pattern twin →
    pattern.moved inlay.base = twin
  | .name _ _, _, .name position => congrArg _ position
  | .wildcard _, _, .wildcard position => congrArg _ position
  | .tuple elements _ _, _, .tuple alike text position => by
    rw [Pattern.moved, patterns_moved_eq alike]
    exact congrArg₂ _ text position

theorem patterns_moved_eq : ∀ {patterns twins : List Pattern},
    List.Forall₂ inlay.likeness.Patterns patterns twins →
      Pattern.allMoved inlay.base patterns = twins
  | [], _, .nil => rfl
  | pattern :: others, _, .cons alike rest => by
    rw [Pattern.allMoved, pattern_moved_eq alike, patterns_moved_eq rest]

end

theorem texts_eq_of_rel {text twin : Option String}
    (alike : Option.Rel inlay.likeness.Texts text twin) : text = twin := by
  cases alike with
  | none => rfl
  | some same => exact congrArg some same

theorem binding_moved_eq {binding twin : Binding}
    (alike : inlay.likeness.Bindings binding twin) : binding.moved inlay.base = twin := by
  rw [Binding.moved, pattern_moved_eq alike.pattern, alike.type_eq,
    texts_eq_of_rel alike.initializer, texts_eq_of_rel alike.accessors]

theorem declaration_moved_eq {declaration twin : Declaration}
    (alike : inlay.likeness.Declarations declaration twin) :
    declaration.moved inlay.base = twin := by
  have position_eq : declaration.position.moved inlay.base = twin.position := alike.position
  have stop_eq : inlay.base.offset + declaration.stop = twin.stop := alike.stop
  have text_eq : declaration.text = twin.text := alike.text
  rw [Declaration.moved, alike.kind_eq, alike.keyword_eq, position_eq, stop_eq, text_eq,
    Likeness.map_eq_of_forall₂ alike.attributes fun _ _ => attribute_moved_eq, List.map_id',
    alike.modifiers_eq, Likeness.map_eq_of_forall₂ alike.bindings fun _ _ => binding_moved_eq,
    List.map_id', alike.name_eq]

/-- From some word on, `other` has the tokens of the part in their place. -/
structure Shows (inlay : Inlay inner source) (stream other : TokenStream) (index : Nat) : Prop where
  scanned : TokenStream.scan inner = .ok stream
  source_eq : other.source = source
  index_le : index ≤ other.words.length
  words_eq : other.words.drop index = stream.words.map (Token.moved inlay.base)
  ending_eq : other.ending = stream.ending.moved inlay.base

namespace Shows

variable {stream other : TokenStream} {index next : Nat} {declaration : Declaration}
variable (shows : inlay.Shows stream other index)
include shows

theorem cursors : inlay.likeness.Cursors false (.ofStream stream 0) (.ofStream other index) := by
  obtain ⟨source_eq, ordered⟩ := TokenStream.ordered_of_scan shows.scanned
  refine ⟨source_eq, shows.source_eq, ordered.endsEmpty 0, ?_, ?_, nofun⟩
  · show List.Forall₂ _ stream.words (other.words.drop index)
    rw [shows.words_eq]
    refine forall₂_tokens fun token member => ?_
    rw [← source_eq]
    exact (ordered.filled token member).2.2
  · refine ⟨shows.ending_eq.symm, ?_⟩
    show stream.ending.stop ≤ _
    rw [Token.stop, ordered.ending_text, ordered.ending_start, source_eq]
    exact Nat.le_refl _

theorem length_eq : other.words.length = index + stream.words.length := by
  have same := congrArg List.length shows.words_eq
  rw [List.length_drop, List.length_map] at same
  have := shows.index_le
  omega

/-- What is read from the part on its own is read from it in its place. -/
theorem reads_moved (read : Reads Declaration.read (.ofStream stream 0) declaration
      (.ofStream stream next)) (within : next ≤ stream.words.length) :
    Reads Declaration.read (.ofStream other index) (declaration.moved inlay.base)
      (.ofStream other (index + next)) := by
  obtain ⟨twin, last, twinRead, alike, cursors⟩ :=
    Declaration.parallel_read.exists_twin shows.cursors read
  rw [← declaration_moved_eq alike] at twinRead
  obtain ⟨place, after, bound, rfl⟩ :=
    (Declaration.forward_read _ _ _ twinRead).exists_index shows.index_le
  have remaining_eq := cursors.remaining_eq
  rw [Cursor.remaining_ofStream, Cursor.remaining_ofStream, shows.length_eq] at remaining_eq
  rw [shows.length_eq] at bound
  obtain rfl : place = index + next := by omega
  exact twinRead

/-- What is read from the part in its place is read from it on its own. -/
theorem exists_reads (read : Reads Declaration.read (.ofStream other index) declaration
      (.ofStream other next)) (within : next ≤ other.words.length) :
    ∃ alone, Reads Declaration.read (.ofStream stream 0) alone (.ofStream stream (next - index)) ∧
      alone.moved inlay.base = declaration := by
  obtain ⟨alone, last, aloneRead, alike, cursors⟩ :=
    Declaration.parallel_read.exists_reads shows.cursors read
  obtain ⟨place, after, bound, rfl⟩ :=
    (Declaration.forward_read _ _ _ aloneRead).exists_index (Nat.zero_le _)
  have remaining_eq := cursors.remaining_eq
  rw [Cursor.remaining_ofStream, Cursor.remaining_ofStream, shows.length_eq] at remaining_eq
  rw [shows.length_eq] at within
  obtain rfl : place = next - index := by omega
  exact ⟨alone, aloneRead, declaration_moved_eq alike⟩

end Shows

end Inlay

end PeerExpansion
