import PeerExpansion.Proofs.Edit.Leftover
import PeerExpansion.Proofs.Expansion.Stripping

/-! # What becomes of comments

The peers of a declaration go between two pieces of the source, never into a comment. So a comment
is lost only with what is taken out: in the text of an expanded attribute, or between it and the
next token. All the others are still there, in their order.
-/

namespace PeerExpansion

open Expander Text Work

namespace Insertion

variable {source : List Char} {stream : TokenStream} {place behind next : Nat}
variable {declaration : Declaration}

/-- Of a text that is trimmed only white space is lost. -/
theorem exists_blank_append (text : List Char) : ∃ blank more, text = blank ++ (trim text ++ more) ∧
    '/' ∉ blank ∧ '/' ∉ more := by
  have plain {part : List Char} (blank : ∀ character ∈ part, isBlank character = true) :
      '/' ∉ part := by
    intro member
    exact absurd (blank '/' member) (by decide)
  refine ⟨text.takeWhile isBlank, ((trimStart text).reverse.takeWhile isBlank).reverse, ?_, ?_, ?_⟩
  · rw [trim, trimEnd, ← List.reverse_append, List.takeWhile_append_dropWhile, List.reverse_reverse,
      trimStart, List.takeWhile_append_dropWhile]
  · exact plain (List.all_eq_true.mp List.all_takeWhile)
  · exact plain fun character member =>
      List.all_eq_true.mp List.all_takeWhile character (List.mem_reverse.mp member)

/-- The rest of a line can be read on its own if it is blank or begins with a line comment. -/
theorem lexes_line {text rest behind : List Char} (lexes : Lexes behind (text ++ rest) [])
    (line : '\n' ∉ text) (ends : ∀ next ∈ (rest ++ behind).head?, next = '\n')
    (free : ((trim text).isEmpty || ['/', '/'].isPrefixOf (trim text)) = true) :
    Lexes (rest ++ behind) text [] := by
  obtain ⟨blank, more, text_eq, plain, morePlain⟩ := exists_blank_append text
  rw [Bool.or_eq_true, List.isEmpty_iff, List.isPrefixOf_iff_prefix] at free
  obtain none | ⟨comment, begins⟩ := free
  · rw [none, List.nil_append] at text_eq
    exact lexes.blank_append (by simp [text_eq, plain, morePlain])
  · rw [← begins] at text_eq
    rw [text_eq, List.mem_append, not_or] at line
    rw [text_eq, List.append_assoc] at lexes
    have front := lexes.blank_append plain
    rw [List.append_assoc _ rest] at front
    rw [text_eq]
    exact front.append (lexes_lineComment (by simpa using line.2) ends)

theorem slice_lineEnd (source : List Char) (offset : Nat) :
    slice source offset (lineEnd source offset) = (source.drop offset).takeWhile (· != '\n') := by
  rw [slice, lineEnd, Nat.add_sub_cancel_left]
  exact (List.prefix_iff_eq_take.mp (List.takeWhile_prefix _)).symm

theorem drop_lineEnd (source : List Char) (offset : Nat) :
    source.drop (lineEnd source offset) = (source.drop offset).dropWhile (· != '\n') := by
  have parts := List.takeWhile_append_dropWhile (p := (· != '\n')) (l := source.drop offset)
  have whole := slice_append_drop source (le_lineEnd source offset)
  rw [slice_lineEnd] at whole
  exact List.append_cancel_left (whole.trans parts.symm)

theorem boundary_lineEnd {source : List Char} {stream : TokenStream} {index : Nat}
    (scanned : TokenStream.scan source = .ok stream) (inside : index < stream.words.length)
    (reached : lineEnd source (stream.token index).stop ≤ (stream.token (index + 1)).start)
    (free : ((trim (slice source (stream.token index).stop
        (lineEnd source (stream.token index).stop))).isEmpty ||
      ['/', '/'].isPrefixOf (trim (slice source (stream.token index).stop
        (lineEnd source (stream.token index).stop)))) = true) :
    Boundary source (lineEnd source (stream.token index).stop) := by
  have order := le_lineEnd source (stream.token index).stop
  have gap := TokenStream.lexes_gap scanned inside
  rw [← slice_append_slice source order reached] at gap
  -- The rest of the line is blank or a comment, so no token leads over its end.
  have line := lexes_line gap ?_ ?_ free
  · rw [slice_append_drop source reached] at line
    exact (boundary_stop scanned inside).append order line
  · rw [slice_lineEnd]
    intro feed
    simpa using List.all_eq_true.mp List.all_takeWhile '\n' feed
  · rw [slice_append_drop source reached, drop_lineEnd]
    intro next found
    have stopped := List.head?_dropWhile_not (· != '\n') (source.drop (stream.token index).stop)
    rw [Option.mem_def.mp found] at stopped
    simpa using stopped

/-- The peers go between two pieces of the source. -/
theorem boundary_point {source : List Char} {stream : TokenStream} {place behind next : Nat}
    {declaration : Declaration} (scanned : TokenStream.scan source = .ok stream)
    (spans : declaration.Spans stream place behind next) :
    Boundary source (point stream declaration) := by
  obtain ⟨rfl, ordered⟩ := TokenStream.ordered_of_scan scanned
  have index_lt := spans.index_lt
  have atStop : Boundary stream.source declaration.stop :=
    spans.stop_eq ▸ boundary_stop scanned spans.last_lt
  have reached := point_le_start ordered spans
  simp only [point] at reached ⊢
  split at reached
  next beside => rwa [if_pos beside]
  next alone =>
    rw [if_neg alone]
    split at reached
    next free =>
      rw [if_pos free]
      rw [spans.stop_eq] at free reached ⊢
      refine boundary_lineEnd scanned spans.last_lt ?_ free
      rwa [Nat.sub_add_cancel (by omega)]
    next taken => rwa [if_neg taken]

end Insertion

/-! ## Rewritten declarations -/

namespace ExpandedDeclaration

variable {removed : List (Nat × Nat)}

/-- The peers as they are put in behind the declaration. -/
def addition (stream : TokenStream) (expanded : ExpandedDeclaration) : List Char :=
  expanded.peers.flatMap (Insertion.peerBlock (expanded.indent stream))

/-- Where the peers are put in. -/
def point (stream : TokenStream) (expanded : ExpandedDeclaration) : Nat :=
  (expanded.range stream).2

/-- Expanded declarations from an offset on, with what is removed there. -/
structure Arranged (stream : TokenStream) (removed : List (Nat × Nat)) (offset : Nat)
    (items : List ExpandedDeclaration) : Prop where
  behind : ∀ item ∈ items, offset ≤ (item.range stream).1
  filled : ∀ item ∈ items, (item.range stream).1 < (item.range stream).2 ∧
    (item.range stream).2 ≤ stream.source.length
  pairwise : items.Pairwise fun front back => (front.range stream).2 ≤ (back.range stream).1
  own : ∀ item ∈ items, ∀ place, (item.range stream).1 ≤ place → place < (item.range stream).2 →
    covers removed place = covers (item.removed stream) place
  free : ∀ place, offset ≤ place →
    (∀ item ∈ items, place < (item.range stream).1 ∨ (item.range stream).2 ≤ place) →
      covers removed place = false

namespace Arranged

variable {stream : TokenStream} {offset : Nat} {item : ExpandedDeclaration}
variable {items : List ExpandedDeclaration}

theorem tail (arranged : Arranged stream removed offset (item :: items)) :
    Arranged stream removed (item.point stream) items where
  behind := (List.pairwise_cons.mp arranged.pairwise).1
  filled other member := arranged.filled other (List.mem_cons_of_mem _ member)
  pairwise := (List.pairwise_cons.mp arranged.pairwise).2
  own other member := arranged.own other (List.mem_cons_of_mem _ member)
  free place late away := by
    have order := arranged.behind item List.mem_cons_self
    have filled := (arranged.filled item List.mem_cons_self).1
    exact arranged.free place (by rw [point] at late; omega)
      (List.forall_mem_cons.mpr ⟨.inr late, away⟩)

/-- Up to the point where its peers go, a declaration leaves what is not removed. -/
theorem head_eq (arranged : Arranged stream removed offset (item :: items)) :
    slice stream.source offset (item.range stream).1 ++ item.rewritten stream =
      without removed offset (slice stream.source offset (item.point stream)) ++
        item.addition stream := by
  have order := arranged.behind item List.mem_cons_self
  have filled := arranged.filled item List.mem_cons_self
  -- In front of the declaration nothing is removed, and in it what it removes itself.
  have before : Uncovered removed offset (item.range stream).1 := by
    refine fun place late early => arranged.free place late ?_
    refine List.forall_mem_cons.mpr ⟨.inl early, fun other member => .inl ?_⟩
    have := (List.pairwise_cons.mp arranged.pairwise).1 other member
    omega
  have rewritten_eq : item.rewritten stream =
      without removed (item.range stream).1 (item.original stream) ++ item.addition stream := by
    refine congrArg (· ++ item.addition stream) (without_congr fun place late early => ?_)
    have length_eq : (item.original stream).length =
        (item.range stream).2 - (item.range stream).1 := length_slice _ filled.2
    rw [length_eq] at early
    have reached : place < (item.range stream).2 :=
      Nat.lt_of_lt_of_eq early (Nat.add_sub_cancel' (Nat.le_of_lt filled.1))
    exact (arranged.own item List.mem_cons_self place late reached).symm
  rw [point, without_slice_append order (Nat.le_of_lt filled.1) (by omega),
    without_of_uncovered before, rewritten_eq, List.append_assoc]
  rfl

/-- With the declarations rewritten, a text consists of what is not removed and of the peers. -/
theorem splice_eq_weave (arranged : Arranged stream removed offset items) :
    Edit.splice stream.source offset (items.map (edit stream)) =
      Edit.weave (leftParts stream.source removed offset (items.map (point stream)))
        (items.map (addition stream)) := by
  induction items generalizing offset with
  | nil =>
    have uncovered : Uncovered removed offset stream.source.length :=
      fun place late _ => arranged.free place late (by simp)
    have left_eq := without_of_uncovered uncovered stream.source
    rw [slice_eq_drop] at left_eq
    simp [Edit.splice, leftParts, Edit.weave, left_eq]
  | cons item items inductionHypothesis =>
    have later := inductionHypothesis arranged.tail
    calc Edit.splice stream.source offset ((item :: items).map (edit stream))
      _ = slice stream.source offset (item.range stream).1 ++ item.rewritten stream ++
            Edit.splice stream.source (item.point stream) (items.map (edit stream)) := rfl
      _ = _ := by
        rw [arranged.head_eq, later]
        rfl

theorem cuts (arranged : Arranged stream removed offset items)
    (boundary : Boundary stream.source offset) (inside : offset ≤ stream.source.length)
    (points : ∀ item ∈ items, Boundary stream.source (item.point stream)) :
    Cuts stream.source offset (items.map (point stream)) := by
  induction items generalizing offset with
  | nil => exact .nil inside boundary
  | cons item items inductionHypothesis =>
    obtain ⟨here, later⟩ := List.forall_mem_cons.mp points
    have order := arranged.behind item List.mem_cons_self
    have filled := arranged.filled item List.mem_cons_self
    exact .cons (Nat.le_trans order (Nat.le_of_lt filled.1)) boundary
      (inductionHypothesis arranged.tail here filled.2 later)

end Arranged

end ExpandedDeclaration

/-! ## Expansions -/

/-- The attributes that are taken out, in the order in which they were found. -/
def expandedAttributes (findings : List Finding) : List Attribute :=
  (expandedDeclarations findings).flatMap fun expanded => expanded.results.map (·.1)

/-- What is taken out: each of them with the text up to the next token. -/
def removedRanges (stream : TokenStream) (findings : List Finding) : List (Nat × Nat) :=
  (expandedAttributes findings).map (Attribute.range stream)

/-- What becomes of a source and of the comments in it. Only the comments in the text of an expanded
attribute and those between it and the next token are lost; and all that the source has besides what
is taken out is still there, cut where the peers are put in. -/
structure KeepsComments (stream : TokenStream) (findings : List Finding) (output : List Char) :
    Prop where
  whole : ∀ comment ∈ comments stream.source,
    (∃ attr ∈ expandedAttributes findings, attr.start ≤ comment.1 ∧ comment.2 ≤ attr.stop ∨
        attr.stop ≤ comment.1 ∧ comment.2 ≤ (stream.firstFrom attr.stop).start) ∨
      ∀ attr ∈ expandedAttributes findings,
        comment.2 ≤ attr.start ∨ (stream.firstFrom attr.stop).start ≤ comment.1
  inOrder : InOrder
    (texts stream.source (spare (removedRanges stream findings) (comments stream.source))) output
  output_eq : output = Edit.weave
    (leftParts stream.source (removedRanges stream findings) 0
      ((expandedDeclarations findings).map (ExpandedDeclaration.point stream)))
    ((expandedDeclarations findings).map (ExpandedDeclaration.addition stream))
  flatten_eq : (leftParts stream.source (removedRanges stream findings) 0
      ((expandedDeclarations findings).map (ExpandedDeclaration.point stream))).flatten =
    without (removedRanges stream findings) 0 stream.source

/-- What an expansion does to the comments of a source. -/
def CommentLaw (registry : Registry.Macros) (expander : Expander) (source : List Char)
    (sourceName : String) (outcome : SourceExpansion) : Prop :=
  (∃ error, TokenStream.scan source = .error error ∧ outcome.source = source) ∨
    ∃ stream findings shop,
      Arises registry source sourceName ⟨expander, []⟩ stream findings shop outcome ∧
      KeepsComments stream findings outcome.source

variable {registry : Registry.Macros} {sourceName : String} {stream : TokenStream}
variable {visits : List Visit} {findings : List Finding} {first last : Workshop}

theorem covers_removedRanges_iff {place : Nat} :
    covers (removedRanges stream findings) place = true ↔
      ∃ expanded ∈ expandedDeclarations findings,
        covers (expanded.removed stream) place = true := by
  have taken_iff : covers (removedRanges stream findings) place = true ↔
      ∃ attr ∈ expandedAttributes findings,
        (attr.range stream).1 ≤ place ∧ place < (attr.range stream).2 := by
    simp [covers_iff, removedRanges]
  simp only [taken_iff, expandedAttributes, ExpandedDeclaration.covers_removed_iff,
    List.mem_flatMap]
  constructor
  · rintro ⟨attr, ⟨expanded, member, taken⟩, within⟩
    exact ⟨expanded, member, attr, taken, within⟩
  · rintro ⟨expanded, member, attr, taken, within⟩
    exact ⟨attr, ⟨expanded, member, taken⟩, within⟩

namespace Searched

variable (searched : Searched registry sourceName stream visits first findings last)
include searched

/-- Where an attribute stands that is taken out. -/
theorem exists_spans_of_attribute {attr : Attribute} (member : attr ∈ expandedAttributes findings) :
    ∃ index next, attr.Spans stream index next := by
  obtain ⟨expanded, found, taken⟩ := List.mem_flatMap.mp member
  obtain ⟨found, -⟩ := mem_expandedDeclarations.mp found
  obtain ⟨_, _, _, spans, -⟩ := searched.exists_spans found
  rw [searched.reports.attributes_eq found] at taken
  obtain ⟨index, next, _, _, _, attrSpans, _⟩ :=
    spans.row.spans_of_mem attr (List.filter_sublist.subset taken)
  exact ⟨index, next, attrSpans⟩

/-- Every comment is taken out as a whole or not at all. -/
theorem comment_apart {source : List Char} (scanned : TokenStream.scan source = .ok stream)
    {comment : Nat × Nat} (member : comment ∈ comments source) :
    (∃ attr ∈ expandedAttributes findings, attr.start ≤ comment.1 ∧ comment.2 ≤ attr.stop ∨
        attr.stop ≤ comment.1 ∧ comment.2 ≤ (stream.firstFrom attr.stop).start) ∨
      ∀ attr ∈ expandedAttributes findings,
        comment.2 ≤ attr.start ∨ (stream.firstFrom attr.stop).start ≤ comment.1 := by
  obtain ⟨rfl, ordered⟩ := TokenStream.ordered_of_scan scanned
  by_cases away : ∀ attr ∈ expandedAttributes findings,
      comment.2 ≤ attr.start ∨ (stream.firstFrom attr.stop).start ≤ comment.1
  · exact .inr away
  simp only [not_forall, not_or, Nat.not_le] at away
  obtain ⟨attr, taken, late, early⟩ := away
  refine .inl ⟨attr, taken, ?_⟩
  obtain ⟨index, next, spans⟩ := searched.exists_spans_of_attribute taken
  rw [spans.firstFrom_stop ordered] at early ⊢
  rw [spans.start_eq] at late ⊢
  rw [spans.stop_eq]
  -- No comment leads over one of the three boundaries.
  have atStart := (boundary_start scanned index).apart (ordered.start_le_length index) member
  have atStop := (boundary_stop scanned spans.last_lt).apart (ordered.stop_le_length spans.last_lt)
    member
  have atNext := (boundary_start scanned next).apart (ordered.start_le_length next) member
  omega

theorem covers_removed {expanded : ExpandedDeclaration}
    (member : expanded ∈ expandedDeclarations findings) {place : Nat}
    (covered : covers (expanded.removed stream) place = true) :
    (expanded.range stream).1 ≤ place ∧ place < (expanded.range stream).2 := by
  obtain ⟨found, -⟩ := mem_expandedDeclarations.mp member
  obtain ⟨_, _, _, spans, -⟩ := searched.exists_spans found
  obtain ⟨attr, taken, late, early⟩ := ExpandedDeclaration.covers_removed_iff.mp covered
  rw [searched.reports.attributes_eq found] at taken
  have inside := Insertion.range_of_mem searched.ordered spans (List.filter_sublist.subset taken)
  have reached := Insertion.stop_le_point stream expanded.declaration
  constructor
  · exact Nat.le_trans inside.1 late
  · exact Nat.lt_of_lt_of_le early (Nat.le_trans inside.2.2 reached)

theorem arranged (unnested : Unnested findings) :
    ExpandedDeclaration.Arranged stream (removedRanges stream findings) 0
      (expandedDeclarations findings) := by
  have apart := searched.apart unnested
  have pairwise : (expandedDeclarations findings).Pairwise
      fun front back => (front.range stream).2 ≤ (back.range stream).1 :=
    List.pairwise_map.mp apart.pairwise
  constructor
  · exact fun _ _ => Nat.zero_le _
  · exact List.forall_mem_map.mp apart.inside
  · exact pairwise
  · intro item member place late early
    rw [Bool.eq_iff_iff, covers_removedRanges_iff]
    constructor
    · rintro ⟨other, otherMember, covered⟩
      have within := searched.covers_removed otherMember covered
      -- The declarations stand apart, so what covers the place is removed with this one.
      obtain rfl | before | after := related_of_pairwise pairwise member otherMember
      · exact covered
      · omega
      · omega
    · exact fun covered => ⟨item, member, covered⟩
  · intro place _ away
    rw [Bool.eq_false_iff, ne_eq, covers_removedRanges_iff]
    rintro ⟨item, member, covered⟩
    have within := searched.covers_removed member covered
    have := away item member
    omega

theorem whole_comments {source : List Char} (scanned : TokenStream.scan source = .ok stream) :
    Whole (removedRanges stream findings) (comments source) := by
  have ordered := searched.ordered
  intro comment member
  have filled := (lt_of_mem_commentsFrom member).2
  obtain ⟨attr, taken, lost⟩ | away := searched.comment_apart scanned member
  · refine .inl (covers_iff.mpr ⟨attr.range stream, List.mem_map_of_mem taken, ?_⟩)
    obtain ⟨index, next, spans⟩ := searched.exists_spans_of_attribute taken
    have long := spans.index_lt
    have start_lt := ordered.start_lt_stop spans.last_lt
    have start_le := ordered.start_le_start (show index ≤ next - 1 by omega)
    have stop_le := ordered.stop_le_start (show next - 1 < next by omega) spans.last_lt
    rw [spans.firstFrom_stop ordered, spans.start_eq, spans.stop_eq] at lost
    rw [Attribute.range_eq ordered spans]
    omega
  · refine .inr fun place late early => ?_
    rw [Bool.eq_false_iff, ne_eq, covers_iff]
    rintro ⟨_, ranged, after, before⟩
    obtain ⟨attr, taken, rfl⟩ := List.mem_map.mp ranged
    have := away attr taken
    simp only [Attribute.range] at after before
    omega

theorem keepsComments {source : List Char} (scanned : TokenStream.scan source = .ok stream)
    (unnested : Unnested findings) :
    KeepsComments stream findings
      (Edit.applyAll (findings.filterMap (·.edit? stream)) stream.source) := by
  obtain ⟨rfl, ordered⟩ := TokenStream.ordered_of_scan scanned
  have arranged := searched.arranged unnested
  have finish : Boundary stream.source stream.source.length := by
    have ending := boundary_start scanned stream.words.length
    rwa [TokenStream.token_eq_ending (Nat.le_refl _), ordered.ending_start] at ending
  -- All cuts are at boundaries, so each comment is in one part.
  have cuts := arranged.cuts (boundary_zero _) (Nat.zero_le _) fun expanded member => by
    obtain ⟨found, -⟩ := mem_expandedDeclarations.mp member
    obtain ⟨_, _, _, spans, -⟩ := searched.exists_spans found
    exact Insertion.boundary_point scanned spans
  have output_eq : Edit.applyAll (findings.filterMap (·.edit? stream)) stream.source =
      Edit.weave
        (leftParts stream.source (removedRanges stream findings) 0
          ((expandedDeclarations findings).map (ExpandedDeclaration.point stream)))
        ((expandedDeclarations findings).map (ExpandedDeclaration.addition stream)) := by
    rw [searched.edits_eq, Edit.applyAll_eq_splice (searched.apart unnested) (.refl _),
      arranged.splice_eq_weave]
  refine ⟨fun comment => searched.comment_apart scanned, ?_, output_eq,
    cuts.flatten_leftParts (removedRanges stream findings)⟩
  rw [output_eq]
  exact cuts.inOrder_weave finish (searched.whole_comments scanned) (by simp)

end Searched

theorem commentLaw_of_expand {expander later : Expander} {source : List Char}
    {outcome : SourceExpansion} {notes : List LogRecord} (kept : registry.KeepsExpand)
    (cached : expander.KeepsExpand)
    (expanded : expander.run (expand registry source sourceName) = (.ok outcome, later, notes)) :
    CommentLaw registry expander source sourceName outcome := by
  obtain ⟨error, unread, rfl⟩ | ⟨stream, findings, shop, arises⟩ :=
    arises_of_expand (run_eq_ok.mp expanded)
  · exact .inl ⟨error, unread, rfl⟩
  obtain ⟨visits, searched⟩ := arises.exists_searched
  have comments := searched.keepsComments arises.scanned (searched.unnested kept cached)
  rw [arises.source_eq, ← arises.output_eq] at comments
  exact .inr ⟨stream, findings, shop, arises, comments⟩

/-- Comments in front of a declaration, in the arguments of its attribute, and behind it. -/
def commentedSample : List Char :=
  "// images\n@ImageCache(useSwiftData: /* always */ true)\nvar fooData: Data? // raw".toList

set_option maxRecDepth 20000 in
theorem commentLaw_commentedSample : ∃ outcome later notes,
    phoneExpander.run (expand (Registry.standard "linux") commentedSample "<input>") =
        (.ok outcome, later, notes) ∧
      outcome.expandedCount = 1 ∧
      CommentLaw (Registry.standard "linux") phoneExpander commentedSample "<input>" outcome := by
  have evaluated : (phoneExpander.run (expand (Registry.standard "linux") commentedSample
      "<input>")).1.toOption.any (fun outcome => outcome.expandedCount == 1) = true := by
    decide +kernel
  obtain ⟨outcome, later, notes, expanded, count⟩ := exists_run_of_any evaluated
  exact ⟨outcome, later, notes, expanded, eq_of_beq count,
    commentLaw_of_expand (Registry.standard_keepsExpand "linux")
      (Expander.ofSource_keepsExpand _ _) expanded⟩

/-- A comment between an attribute and the keyword. -/
def lostSample : List Char :=
  "@ImageCache /* cached */ var fooData: Data?".toList

set_option maxRecDepth 20000 in
/-- The comment of the sample does not lie in parentheses, and still it is lost: the declaration and
its peers are all that there is in the output. -/
theorem lostSample_loses_comment : ∃ outcome later notes,
    phoneExpander.run (expand (Registry.standard "linux") lostSample "<input>") =
        (.ok outcome, later, notes) ∧
      '(' ∉ lostSample ∧ comments lostSample = [(12, 24)] ∧
      slice lostSample 12 24 = "/* cached */".toList ∧
      ∃ stream findings shop expanded,
        Arises (Registry.standard "linux") lostSample "<input>" ⟨phoneExpander, []⟩ stream findings
          shop outcome ∧
        expandedDeclarations findings = [expanded] ∧
        outcome.source = "var fooData: Data?".toList ++ expanded.addition stream := by
  have left : (TokenStream.scan lostSample).toOption.any (fun stream =>
      (phoneExpander.run (find (Registry.standard "linux") "<input>" stream)).1.toOption.any
        fun findings => (expandedDeclarations findings).length == 1 &&
          leftParts stream.source (removedRanges stream findings) 0
              ((expandedDeclarations findings).map (ExpandedDeclaration.point stream)) ==
            ["var fooData: Data?".toList, []]) = true := by
    decide +kernel
  obtain ⟨outcome, later, notes, ran, stream, findings, shop, arises, found⟩ :=
    exists_arises_of_any left
  obtain ⟨single, parts_eq⟩ := by simpa only [Bool.and_eq_true, beq_iff_eq] using found
  obtain ⟨expanded, only⟩ := List.length_eq_one_iff.mp single
  obtain ⟨visits, searched⟩ := arises.exists_searched
  have kept := searched.keepsComments arises.scanned (searched.unnested
    (Registry.standard_keepsExpand "linux") (Expander.ofSource_keepsExpand _ _))
  have output_eq := kept.output_eq
  rw [parts_eq, only, arises.source_eq, ← arises.output_eq] at output_eq
  refine ⟨outcome, later, notes, ran, by decide, by decide +kernel, by decide, stream, findings,
    shop, expanded, arises, only, ?_⟩
  simpa [Edit.weave] using output_eq

end PeerExpansion
