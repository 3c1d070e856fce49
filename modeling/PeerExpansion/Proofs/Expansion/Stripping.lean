import PeerExpansion.Proofs.Attribute.Removal
import PeerExpansion.Proofs.Expansion.SpliceLaw

/-! # What taking attributes out leaves of a declaration

The attributes of a declaration whose macros are expanded are taken out, each with the text up to
the next token. The tokens of the declaration that do not belong to them are still there. They are
also what the rest of the declaration is read into, unless the end of one of them and the start of
the next make one word now that nothing is between them any more.
-/

namespace PeerExpansion

open Expander Text Work

theorem lexes_iff_exists_scan {text : List Char} {words : List Word} : Lexes [] text words ↔
    ∃ stream, TokenStream.scan text = .ok stream ∧ stream.words.map Token.word = words := by
  constructor
  · exact Lexes.exists_scan
  · rintro ⟨stream, scanned, rfl⟩
    obtain ⟨_, scans⟩ := TokenStream.scans_of_scan scanned
    exact scans.lexes

namespace ExpandedDeclaration

variable (stream : TokenStream) (expanded : ExpandedDeclaration)

/-- What is taken out: the expanded attributes, each up to the token behind it. -/
def removed : List (Nat × Nat) :=
  expanded.results.map fun (attr, _) => attr.range stream

/-- The declaration without what is taken out. -/
def bare : List Char :=
  without (expanded.removed stream) expanded.declaration.start
    (slice stream.source expanded.declaration.start expanded.declaration.stop)

/-- What stands on the line of the declaration behind it, if the peers go behind that. -/
def trailing : List Char :=
  slice stream.source expanded.declaration.stop (expanded.range stream).2

/-- Whether a token belongs to the declaration, but to none of the expanded attributes, of which
each goes from its mark to its end. -/
def keeps (word : Token) : Bool :=
  expanded.declaration.start ≤ word.start && word.start < expanded.declaration.stop &&
    !covers (expanded.results.map fun (attr, _) => (attr.start, attr.stop)) word.start

def keptWords : List Token :=
  stream.words.filter expanded.keeps

end ExpandedDeclaration

/-- How the text of an expanded declaration comes about, and what it is read into. -/
structure Stripped (stream : TokenStream) (expanded : ExpandedDeclaration) : Prop where
  rewritten_eq : expanded.rewritten stream = expanded.bare stream ++ expanded.trailing stream ++
    expanded.peers.flatMap (Insertion.peerBlock (expanded.indent stream))
  words_iff : (∃ stripped, TokenStream.scan (expanded.bare stream) = .ok stripped ∧
      stripped.words.map Token.word = (expanded.keptWords stream).map Token.word) ↔
    (expanded.keptWords stream).IsChain fun first second =>
      ¬ Fused (expanded.removed stream) first second

/-- What an expansion does to the tokens of the declarations that it expands. -/
def StrippingLaw (registry : Registry.Macros) (expander : Expander) (source : List Char)
    (sourceName : String) (outcome : SourceExpansion) : Prop :=
  (∃ error, TokenStream.scan source = .error error ∧ outcome.source = source) ∨
    ∃ stream findings shop,
      Arises registry source sourceName ⟨expander, []⟩ stream findings shop outcome ∧
      Spliced stream findings outcome.source ∧
      ∀ expanded ∈ expandedDeclarations findings, Stripped stream expanded

variable {registry : Registry.Macros} {sourceName : String} {stream : TokenStream}
variable {visits : List Visit} {findings : List Finding} {first last : Workshop}

namespace ExpandedDeclaration

variable {expanded : ExpandedDeclaration} {index behind next : Nat}

theorem covers_removed_iff {offset : Nat} : covers (expanded.removed stream) offset = true ↔
    ∃ attr ∈ expanded.results.map (·.1),
      (attr.range stream).1 ≤ offset ∧ offset < (attr.range stream).2 := by
  simp [covers_iff, removed]

section Spans

theorem bare_eq (spans : expanded.declaration.Spans stream index behind next) :
    expanded.bare stream = Attribute.left stream (expanded.removed stream) (next - 1) index := by
  rw [bare, Attribute.left, spans.start_eq, spans.stop_eq]

variable (ordered : stream.Ordered)
variable (spans : expanded.declaration.Spans stream index behind next)
variable (some : (expanded.results.map (·.1)).Sublist expanded.declaration.attributes)
include ordered spans some

/-- Nothing is taken out behind the attributes. -/
theorem uncovered_behind (stop : Nat) :
    Uncovered (expanded.removed stream) (stream.token behind).start stop := by
  intro offset late _
  rw [Bool.eq_false_iff, ne_eq, covers_removed_iff]
  rintro ⟨attr, member, _, early⟩
  obtain ⟨_, place, _, _, before, attrSpans, _⟩ := spans.row.spans_of_mem attr (some.subset member)
  rw [Attribute.range_eq ordered attrSpans] at early
  have := ordered.start_le_start before
  omega

theorem removes : Attribute.Removes stream (expanded.removed stream)
    expanded.declaration.attributes behind (next - 1) where
  rest := uncovered_behind ordered spans some _
  attributes attr member := by
    by_cases taken : attr ∈ expanded.results.map (·.1)
    · exact .inl fun offset late early => covers_removed_iff.mpr ⟨attr, taken, late, early⟩
    · refine .inr fun offset late early => ?_
      rw [Bool.eq_false_iff, ne_eq, covers_removed_iff]
      rintro ⟨other, otherTaken, otherLate, otherEarly⟩
      -- Two attributes of a row have no offset in common.
      obtain rfl | before | after :=
        related_of_pairwise (spans.row.pairwise ordered) member (some.subset otherTaken)
      · exact taken otherTaken
      · omega
      · omega

/-- A word begins in an expanded attribute if it begins in what is taken out with one. -/
theorem covers_attributes {word : Token} (member : word ∈ stream.between index next) :
    covers (expanded.results.map fun (attr, _) => (attr.start, attr.stop)) word.start =
      covers (expanded.removed stream) word.start := by
  obtain ⟨place, _, _, bound, rfl⟩ := TokenStream.mem_between member
  have attributes_iff : covers (expanded.results.map fun (attr, _) => (attr.start, attr.stop))
      (stream.token place).start = true ↔ ∃ attr ∈ expanded.results.map (·.1),
        attr.start ≤ (stream.token place).start ∧ (stream.token place).start < attr.stop := by
    simp [covers_iff]
  rw [Bool.eq_iff_iff, attributes_iff, covers_removed_iff]
  refine exists_congr fun attr => and_congr_right fun taken => and_congr_right fun late => ?_
  obtain ⟨front, back, _, _, _, attrSpans, _⟩ := spans.row.spans_of_mem attr (some.subset taken)
  have long := attrSpans.index_lt
  have lastInside := attrSpans.last_lt
  rw [Attribute.range_eq ordered attrSpans, attrSpans.stop_eq]
  constructor
  · intro early
    exact Nat.lt_of_lt_of_le early (ordered.stop_le_start (by omega) lastInside)
  · intro early
    have before := ordered.lt_of_start_lt early
    exact Nat.lt_of_lt_of_le (ordered.start_lt_stop bound)
      (ordered.stop_le_stop (by omega) lastInside)

theorem keptWords_eq :
    expanded.keptWords stream =
      Attribute.kept stream (expanded.removed stream) (next - 1) index := by
  have index_lt := spans.index_lt
  have next_le := spans.next_le
  have lastInside := spans.last_lt
  have parts : stream.words = stream.between 0 index ++
      (stream.between index next ++ stream.between next stream.words.length) := by
    rw [TokenStream.between_append (by omega) next_le,
      TokenStream.between_append (Nat.zero_le _) (by omega), ← stream.words_eq_between]
  -- Nothing is kept in front of the declaration or behind it.
  have front : (stream.between 0 index).filter expanded.keeps = [] := by
    refine List.filter_eq_nil_iff.mpr fun word member => ?_
    have early := (Attribute.start_of_mem_between ordered member).2
    rw [← spans.start_eq] at early
    simp [keeps, Nat.not_le.mpr early]
  have back : (stream.between next stream.words.length).filter expanded.keeps = [] := by
    refine List.filter_eq_nil_iff.mpr fun word member => ?_
    have late := (Attribute.start_of_mem_between ordered member).1
    have behindIt := spans.stop_le_start ordered (Nat.le_refl next)
    simp [keeps, Nat.not_lt.mpr (Nat.le_trans behindIt late)]
  rw [keptWords, parts, List.filter_append, List.filter_append, front, back, List.nil_append,
    List.append_nil, Attribute.kept, Nat.sub_add_cancel (by omega)]
  -- Inside it only what the attributes cover is left out.
  refine List.filter_congr fun word member => ?_
  obtain ⟨place, after, before, bound, rfl⟩ := TokenStream.mem_between member
  have start_le := ordered.start_le_start after
  have start_lt := Nat.lt_of_lt_of_le (ordered.start_lt_stop bound)
    (ordered.stop_le_stop (show place ≤ next - 1 by omega) lastInside)
  rw [keeps, covers_attributes ordered spans some member, spans.start_eq, spans.stop_eq]
  simp [start_le, start_lt]

theorem without_original : without (expanded.removed stream) expanded.declaration.start
    (expanded.original stream) = expanded.bare stream ++ expanded.trailing stream := by
  have filled := spans.start_lt_stop ordered
  have reached := Insertion.stop_le_point stream expanded.declaration
  rw [original, range, without_slice_append (Nat.le_of_lt filled) reached
    (spans.stop_le_length ordered)]
  congr 1
  refine without_of_uncovered (fun offset late early => ?_) _
  refine uncovered_behind ordered spans some (offset + 1) offset ?_ (Nat.lt_succ_self _)
  have within := ordered.start_lt_stop spans.last_lt
  have := ordered.start_le_start (show behind ≤ next - 1 by
    have := spans.behind_lt
    omega)
  rw [spans.stop_eq] at late
  omega

end Spans

end ExpandedDeclaration

theorem Searched.stripped
    (searched : Searched registry sourceName stream visits first findings last)
    {source : List Char} (scanned : TokenStream.scan source = .ok stream)
    {expanded : ExpandedDeclaration} (member : expanded ∈ expandedDeclarations findings) :
    Stripped stream expanded := by
  obtain ⟨found, -⟩ := mem_expandedDeclarations.mp member
  obtain ⟨index, behind, next, spans, -⟩ := searched.exists_spans found
  have ordered := searched.ordered
  have some : (expanded.results.map (·.1)).Sublist expanded.declaration.attributes := by
    rw [searched.reports.attributes_eq found]
    exact List.filter_sublist
  constructor
  · rw [← ExpandedDeclaration.without_original ordered spans some]
    rfl
  · rw [← lexes_iff_exists_scan, ExpandedDeclaration.bare_eq spans,
      ExpandedDeclaration.keptWords_eq ordered spans some]
    have := spans.behind_lt
    exact spans.row.lexes_left_iff scanned (by omega) spans.last_lt
      (ExpandedDeclaration.removes ordered spans some)

theorem strippingLaw_of_expand {expander later : Expander} {source : List Char}
    {outcome : SourceExpansion} {notes : List LogRecord} (kept : registry.KeepsExpand)
    (cached : expander.KeepsExpand)
    (expanded : expander.run (expand registry source sourceName) = (.ok outcome, later, notes)) :
    StrippingLaw registry expander source sourceName outcome := by
  obtain ⟨error, unread, rfl⟩ | ⟨stream, findings, shop, arises⟩ :=
    arises_of_expand (run_eq_ok.mp expanded)
  · exact .inl ⟨error, unread, rfl⟩
  obtain ⟨visits, searched⟩ := arises.exists_searched
  have spliced := searched.spliced (searched.unnested kept cached)
  rw [arises.source_eq, ← arises.output_eq] at spliced
  exact .inr ⟨stream, findings, shop, arises, spliced, fun _ => searched.stripped arises.scanned⟩

/-- An attribute between two others that stay. -/
def mixedSample : List Char :=
  "@objc @ImageCache\n@available(iOS 17, *) public var fooData: Data?".toList

set_option maxRecDepth 20000 in
theorem strippingLaw_mixedSample : ∃ outcome later notes,
    phoneExpander.run (expand (Registry.standard "linux") mixedSample "<input>") =
        (.ok outcome, later, notes) ∧
      outcome.expandedCount = 1 ∧
      StrippingLaw (Registry.standard "linux") phoneExpander mixedSample "<input>" outcome := by
  have evaluated : (phoneExpander.run (expand (Registry.standard "linux") mixedSample
      "<input>")).1.toOption.any (fun outcome => outcome.expandedCount == 1) = true := by
    decide +kernel
  obtain ⟨outcome, later, notes, expanded, count⟩ := exists_run_of_any evaluated
  exact ⟨outcome, later, notes, expanded, eq_of_beq count,
    strippingLaw_of_expand (Registry.standard_keepsExpand "linux")
      (Expander.ofSource_keepsExpand _ _) expanded⟩

/-- An attribute right behind the name of another one, and only a space in front of the keyword. -/
def fusedSample : List Char :=
  "@objc@ImageCache var fooData: Data?".toList

/-- Whether the rest of a declaration is read into the tokens that are left of it. -/
def readsKept (stream : TokenStream) (expanded : ExpandedDeclaration) : Bool :=
  (TokenStream.scan (expanded.bare stream)).toOption.any fun stripped =>
    stripped.words.map Token.word == (expanded.keptWords stream).map Token.word

set_option maxRecDepth 20000 in
/-- The name and the keyword of the sample become one word. -/
theorem fusedSample_loses_tokens : ∃ outcome later notes,
    phoneExpander.run (expand (Registry.standard "linux") fusedSample "<input>") =
        (.ok outcome, later, notes) ∧
      ∃ stream findings shop,
        Arises (Registry.standard "linux") fusedSample "<input>" ⟨phoneExpander, []⟩ stream findings
          shop outcome ∧
        ∃ expanded ∈ expandedDeclarations findings,
          ¬ ∃ stripped, TokenStream.scan (expanded.bare stream) = .ok stripped ∧
            stripped.words.map Token.word = (expanded.keptWords stream).map Token.word := by
  have fuses : (TokenStream.scan fusedSample).toOption.any (fun stream =>
      (phoneExpander.run (find (Registry.standard "linux") "<input>" stream)).1.toOption.any
        fun findings => (expandedDeclarations findings).any fun expanded =>
          !readsKept stream expanded) = true := by
    decide +kernel
  obtain ⟨outcome, later, notes, ran, stream, findings, shop, arises, some⟩ :=
    exists_arises_of_any fuses
  obtain ⟨expanded, member, differs⟩ := List.any_eq_true.mp some
  refine ⟨outcome, later, notes, ran, stream, findings, shop, arises, expanded, member, ?_⟩
  rintro ⟨stripped, read, kept⟩
  rw [readsKept, read, Except.toOption, Option.any_some, kept, beq_self_eq_true] at differs
  cases differs

end PeerExpansion
