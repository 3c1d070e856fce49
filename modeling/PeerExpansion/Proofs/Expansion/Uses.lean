import PeerExpansion.Proofs.Expansion.Expanded

/-! # Uses of macros

A search may come past the use of a macro without a word: when the attributes there cannot be read,
and when the use stands inside an attribute or a variable that the search passes in one step. It
misses no others.
-/

namespace PeerExpansion

open Expander Reading Work

/-! ## Uses -/

/-- A mark that begins a declaration, with the name of a macro behind it and nothing more to the
name. -/
structure MacroUse (registry : Registry.Macros) (stream : TokenStream) (place : Nat) : Prop where
  starts : startsDeclaration (.ofStream stream place) = true
  identifier : (stream.token (place + 1)).isIdentifier = true
  supported : registry.isSupported (stream.token (place + 1)).text = true
  undotted : (stream.token (place + 2)).reads "." = false

/-- The mark at a place belongs to an attribute that has been expanded. -/
def UseExpanded (stream : TokenStream) (findings : List Finding) (place : Nat) : Prop :=
  ∃ declaration results attr expansion, .declared declaration results ∈ findings ∧
    (attr, .ok expansion) ∈ results ∧ attr.position = (stream.token place).position

instance (registry : Registry.Macros) (stream : TokenStream) (place : Nat) :
    Decidable (MacroUse registry stream place) :=
  decidable_of_iff
    (startsDeclaration (.ofStream stream place) = true ∧
      (stream.token (place + 1)).isIdentifier = true ∧
        registry.isSupported (stream.token (place + 1)).text = true ∧
          (stream.token (place + 2)).reads "." = false)
    ⟨fun ⟨starts, identifier, supported, undotted⟩ => ⟨starts, identifier, supported, undotted⟩,
      fun use => ⟨use.starts, use.identifier, use.supported, use.undotted⟩⟩

/-- Where the attributes begin that have been expanded. -/
def Finding.expandedPositions : Finding → List Position
  | unreadable _ => []
  | declared _ results =>
    results.filterMap fun (attr, result) => result.expansion?.map fun _ => attr.position

theorem useExpanded_iff {stream : TokenStream} {findings : List Finding} {place : Nat} :
    UseExpanded stream findings place ↔
      (stream.token place).position ∈ findings.flatMap Finding.expandedPositions := by
  rw [List.mem_flatMap]
  constructor
  · rintro ⟨declaration, results, attr, expansion, found, answered, position_eq⟩
    exact ⟨_, found, List.mem_filterMap.mpr ⟨_, answered, congrArg some position_eq⟩⟩
  · rintro ⟨finding, found, known⟩
    cases finding with
    | unreadable => cases known
    | declared declaration results =>
      obtain ⟨⟨attr, result⟩, answered, position_eq⟩ := List.mem_filterMap.mp known
      cases result with
      | error => cases position_eq
      | ok expansion =>
        exact ⟨declaration, results, attr, expansion, found, answered, Option.some.inj position_eq⟩

instance (stream : TokenStream) (findings : List Finding) (place : Nat) :
    Decidable (UseExpanded stream findings place) :=
  decidable_of_iff _ useExpanded_iff.symm

/-- The ways in which the mark at a place is passed over. -/
inductive PassedOver (registry : Registry.Macros) (stream : TokenStream) (visits : List Visit)
    (place : Nat) : Prop
  /-- The attributes that begin with it cannot be read. -/
  | malformed {error : SyntaxError} : Attribute.readAll.run (.ofStream stream place) = .error error →
      PassedOver registry stream visits place
  /-- It is part of another attribute, one that is read at a place that is visited. -/
  | argument {visit : Visit} {attr : Attribute} : visit ∈ visits → attr ∈ visit.sight.attributes →
      attr.start < (stream.token place).start → (stream.token place).start < attr.stop →
        PassedOver registry stream visits place
  /-- It is part of a variable with a macro, and stands behind the attributes of that. -/
  | inside {visit : Visit} {declaration : Declaration} : visit ∈ visits →
      visit.sight = .declared declaration → declaration.isProperty = true →
        (∀ attr ∈ declaration.attributes, attr.stop ≤ (stream.token place).start) →
          (stream.token place).start < declaration.stop → PassedOver registry stream visits place

variable {registry : Registry.Macros} {sourceName : String} {stream : TokenStream} {place : Nat}
variable {visits : List Visit} {findings : List Finding} {first last : Workshop}

theorem MacroUse.lt_length (use : MacroUse registry stream place) (ordered : stream.Ordered) :
    place < stream.words.length :=
  ordered.lt_length_of_reads (reads_of_startsDeclaration use.starts) (by decide)

/-! ## Rows -/

namespace Attribute

theorem Spans.stop_le_start {index next : Nat} {attr : Attribute}
    (spans : attr.Spans stream index next) (ordered : stream.Ordered) (beyond : next ≤ place) :
    attr.stop ≤ (stream.token place).start := by
  have := spans.index_lt
  rw [spans.stop_eq]
  exact ordered.stop_le_start (by omega) spans.last_lt

theorem Spans.start_lt_stop {index next : Nat} {attr : Attribute}
    (spans : attr.Spans stream index next) (ordered : stream.Ordered) {other : Nat}
    (inside : other < next) : (stream.token other).start < attr.stop := by
  have := spans.index_lt
  rw [spans.stop_eq]
  exact Nat.lt_of_le_of_lt (ordered.start_le_start (by omega))
    (ordered.start_lt_stop spans.last_lt)

/-- No attribute of a row begins inside another one. -/
theorem Row.not_inside {index stop : Nat} {attributes : List Attribute}
    (row : Row stream index attributes stop) (ordered : stream.Ordered) {attr other : Attribute}
    (member : attr ∈ attributes) (otherMember : other ∈ attributes)
    (before : other.start < attr.start) (inside : attr.start < other.stop) : False := by
  obtain ⟨first, next, _, _, _, spans, _⟩ := row.spans_of_mem attr member
  obtain ⟨otherFirst, otherNext, _, _, _, otherSpans, _⟩ := row.spans_of_mem other otherMember
  have := spans.index_lt
  obtain rfl | behind | ahead := related_of_pairwise (row.pairwise ordered) member otherMember
  · omega
  · simp only [range, spans.firstFrom_stop ordered] at behind
    have := spans.start_lt ordered (show first < next by omega)
    omega
  · simp only [range, otherSpans.firstFrom_stop ordered] at ahead
    have := otherSpans.stop_le_start ordered (Nat.le_refl otherNext)
    omega

/-- A place in a row is the mark of one of its attributes or lies inside one. -/
theorem Row.mark_or_inside {index stop : Nat} {attributes : List Attribute}
    (row : Row stream index attributes stop) (ordered : stream.Ordered) (after : index ≤ place)
    (before : place < stop) : ∃ attr ∈ attributes,
      (∃ next, attr.Spans stream place next) ∨
        attr.start < (stream.token place).start ∧ (stream.token place).start < attr.stop := by
  obtain ⟨attr, member, first, next, first_le, within, spans⟩ := row.exists_spans after before
  obtain rfl | later := Nat.eq_or_lt_of_le first_le
  · exact ⟨attr, member, .inl ⟨next, spans⟩⟩
  · exact ⟨attr, member, .inr ⟨spans.start_lt ordered later, spans.start_lt_stop ordered within⟩⟩

end Attribute

/-- An attribute whose mark is the use of a macro is a macro attribute. -/
theorem MacroUse.mem_macroAttributes (use : MacroUse registry stream place) {next : Nat}
    {attr : Attribute} {attributes : List Attribute} (spans : attr.Spans stream place next)
    (member : attr ∈ attributes) : attr ∈ macroAttributes registry attributes := by
  rw [macroAttributes, List.mem_filter, spans.name_eq use.undotted]
  exact ⟨member, use.supported⟩

/-! ## Places passed in one step -/

theorem Sees.exists_row {next : Nat} {sight : Sight} {attr : Attribute}
    (sees : Sees registry stream place sight next) (member : attr ∈ sight.attributes) :
    ∃ behind, Attribute.Row stream place sight.attributes behind ∧ behind ≤ next := by
  cases sees with
  | idle => cases member
  | malformed => cases member
  | plain _ row => exact ⟨_, row, Nat.le_refl _⟩
  | unreadable _ row => exact ⟨_, row, Nat.le_refl _⟩
  | declared _ _ spans =>
    have later := spans.behind_lt
    refine ⟨_, spans.row, ?_⟩
    split
    · omega
    · exact Nat.le_refl _

namespace Sees

variable {index next : Nat} {sight : Sight}

/-- An attribute that is read at a place is passed in the step from there. -/
theorem passed_of_mem (sees : Sees registry stream index sight next) (ordered : stream.Ordered)
    {attr : Attribute} (member : attr ∈ sight.attributes)
    (before : attr.start ≤ (stream.token place).start)
    (inside : (stream.token place).start < attr.stop) : index ≤ place ∧ place < next := by
  obtain ⟨behind, row, behind_le⟩ := sees.exists_row member
  obtain ⟨first, last, _, after, last_le, spans, _⟩ := row.spans_of_mem attr member
  have := spans.index_lt
  rw [spans.stop_eq] at inside
  rw [spans.start_eq] at before
  have reached := ordered.le_of_start_lt_stop spans.last_lt inside
  have started : first ≤ place := by
    by_contra early
    have := spans.next_le
    have := ordered.start_lt_start (show place < first by omega) (by omega)
    omega
  omega

/-- A variable with a macro is passed in the step from its first attribute. -/
theorem passed_of_isProperty {declaration : Declaration}
    (sees : Sees registry stream index (.declared declaration) next) (ordered : stream.Ordered)
    (property : declaration.isProperty = true)
    (behind : ∀ attr ∈ declaration.attributes, attr.stop ≤ (stream.token place).start)
    (inside : (stream.token place).start < declaration.stop) : index ≤ place ∧ place < next := by
  obtain ⟨_, after, spans, some, rfl⟩ := sees.spans
  obtain ⟨attr, member⟩ := List.exists_mem_of_ne_nil _ some
  obtain ⟨first, last, _, later, _, attrSpans, _⟩ :=
    spans.row.spans_of_mem attr (List.mem_of_mem_filter member)
  have passed := behind attr (List.mem_of_mem_filter member)
  have filled := attrSpans.index_lt
  have marked := attrSpans.start_lt_stop ordered (show first < last by omega)
  have started := ordered.lt_of_start_lt (Nat.lt_of_lt_of_le marked passed)
  rw [spans.stop_eq] at inside
  have reached := ordered.le_of_start_lt_stop spans.last_lt inside
  rw [property, if_pos rfl]
  omega

end Sees

/-! ## What is reported -/

namespace Reports

theorem exists_declared (reports : Reports registry sourceName visits first findings last)
    {visit : Visit} (member : visit ∈ visits) {declaration : Declaration}
    (seen : visit.sight = .declared declaration) :
    ∃ results, .declared declaration results ∈ findings := by
  have declared : declaration ∈ findings.filterMap Finding.declaration? := by
    rw [reports.declarations_eq]
    exact List.mem_filterMap.mpr ⟨visit, member, by rw [seen]; rfl⟩
  obtain ⟨finding, found, known⟩ := List.mem_filterMap.mp declared
  cases finding with
  | unreadable => cases known
  | declared other results =>
    cases known
    exact ⟨results, found⟩

theorem unreadable_mem (reports : Reports registry sourceName visits first findings last)
    {visit : Visit} (member : visit ∈ visits) {attributes : List Attribute} {error : SyntaxError}
    (seen : visit.sight = .unreadable attributes error) : .unreadable error ∈ findings := by
  induction reports with
  | nil => cases member
  | nothing _ inductionHypothesis | plain _ inductionHypothesis =>
    obtain rfl | member := List.mem_cons.mp member
    · cases seen
    · exact inductionHypothesis member
  | unreadable _ inductionHypothesis =>
    obtain rfl | member := List.mem_cons.mp member
    · cases seen
      exact List.mem_cons_self
    · exact List.mem_cons_of_mem _ (inductionHypothesis member)
  | declared _ _ inductionHypothesis =>
    obtain rfl | member := List.mem_cons.mp member
    · cases seen
    · exact List.mem_cons_of_mem _ (inductionHypothesis member)

end Reports

/-- Without diagnostics nothing was unreadable. -/
theorem unreadable_not_mem (clean : findings.flatMap (·.diagnostics sourceName) = [])
    {error : SyntaxError} : .unreadable error ∉ findings := by
  intro member
  have silent := List.flatMap_eq_nil_iff.mp clean _ member
  cases silent

/-- Without diagnostics all macros expanded. -/
theorem exists_expansion (clean : findings.flatMap (·.diagnostics sourceName) = [])
    {declaration : Declaration} {results : List (Attribute × ExpansionResult)}
    (member : .declared declaration results ∈ findings) {attr : Attribute} {result : ExpansionResult}
    (answered : (attr, result) ∈ results) : ∃ expansion, result = .ok expansion := by
  have silent := List.flatMap_eq_nil_iff.mp clean _ member
  have quiet := List.filterMap_eq_nil_iff.mp silent _ answered
  cases result with
  | error => cases quiet
  | ok expansion => exact ⟨expansion, rfl⟩

namespace Searched

variable (searched : Searched registry sourceName stream visits first findings last)
include searched

/-- A macro among the attributes of a declaration that is seen is expanded. -/
theorem useExpanded_of_mem (clean : findings.flatMap (·.diagnostics sourceName) = [])
    {visit : Visit} (member : visit ∈ visits) {declaration : Declaration}
    (seen : visit.sight = .declared declaration) {attr : Attribute}
    (supported : attr ∈ macroAttributes registry declaration.attributes)
    (position_eq : attr.position = (stream.token place).position) :
    UseExpanded stream findings place := by
  obtain ⟨results, found⟩ := searched.reports.exists_declared member seen
  rw [← searched.reports.attributes_eq found] at supported
  obtain ⟨⟨_, result⟩, answered, rfl⟩ := List.mem_map.mp supported
  obtain ⟨expansion, rfl⟩ := exists_expansion clean found answered
  exact ⟨declaration, results, _, expansion, found, answered, position_eq⟩

theorem useExpanded_or_passedOver (clean : findings.flatMap (·.diagnostics sourceName) = [])
    (use : MacroUse registry stream place) :
    UseExpanded stream findings place ∨ PassedOver registry stream visits place := by
  have ordered := searched.ordered
  -- The one visit that passes the place says what becomes of it.
  obtain ⟨⟨index, sight, next⟩, member, after, before⟩ :=
    searched.walk.exists_visit (Nat.zero_le place) (use.lt_length ordered)
  obtain ⟨_, _, sees⟩ := searched.walk.sees _ member
  dsimp only at after before sees
  cases sees with
  | idle idle =>
    obtain rfl : index = place := by omega
    cases idle.symm.trans use.starts
  | malformed _ malformed =>
    obtain rfl : index = place := by omega
    exact .inr (.malformed malformed)
  | plain _ row none =>
    obtain ⟨attr, attrMember, ⟨_, spans⟩ | ⟨started, inside⟩⟩ :=
      row.mark_or_inside ordered after before
    · have supported := use.mem_macroAttributes spans attrMember
      rw [none] at supported
      cases supported
    · exact .inr (.argument member attrMember started inside)
  | unreadable =>
    exact absurd (searched.reports.unreadable_mem member rfl) (unreadable_not_mem clean)
  | @declared declaration behind finish _ _ spans _ =>
    obtain within | beyond := Nat.lt_or_ge place behind
    · obtain ⟨attr, attrMember, ⟨_, attrSpans⟩ | ⟨started, inside⟩⟩ :=
        spans.row.mark_or_inside ordered after within
      · have supported := use.mem_macroAttributes attrSpans attrMember
        exact .inl (searched.useExpanded_of_mem clean member rfl supported attrSpans.position_eq)
      · exact .inr (.argument member attrMember started inside)
    · split at before
      -- Behind the attributes, the step goes on only if the declaration is a variable.
      next property =>
        refine .inr (.inside member rfl property (fun attr attrMember => ?_) ?_)
        · obtain ⟨_, last, _, _, last_le, attrSpans, _⟩ := spans.row.spans_of_mem attr attrMember
          exact attrSpans.stop_le_start ordered (Nat.le_trans last_le beyond)
        · have := spans.index_lt
          rw [spans.stop_eq]
          exact Nat.lt_of_le_of_lt (ordered.start_le_start (by omega))
            (ordered.start_lt_stop spans.last_lt)
      next => omega

theorem not_passedOver (expanded : UseExpanded stream findings place) :
    ¬ PassedOver registry stream visits place := by
  have ordered := searched.ordered
  obtain ⟨declaration, results, attr, expansion, found, answered, position_eq⟩ := expanded
  have supported : attr ∈ macroAttributes registry declaration.attributes := by
    rw [← searched.reports.attributes_eq found]
    exact List.mem_map_of_mem answered
  have attrMember := List.mem_of_mem_filter supported
  obtain ⟨⟨index, sight, next⟩, member, rfl⟩ := searched.exists_visit found
  obtain ⟨_, _, sees⟩ := searched.walk.sees _ member
  obtain ⟨behind, row, _⟩ := sees.exists_row attrMember
  obtain ⟨first, last, _, _, _, spans, rest⟩ := row.spans_of_mem attr attrMember
  have filled := spans.index_lt
  have bound := spans.next_le
  have start_eq : attr.start = (stream.token place).start := congrArg Position.offset position_eq
  -- The attribute's mark is the one at the place, since no other token starts there.
  obtain rfl : first = place :=
    ordered.eq_of_start_eq (by omega) (spans.start_eq.symm.trans start_eq)
  have start_lt := spans.start_lt_stop ordered (show first < last by omega)
  obtain ⟨after, before⟩ := sees.passed_of_mem ordered attrMember (Nat.le_of_eq start_eq) start_lt
  -- What passes the place over has to be seen in the same step as the attribute.
  intro passed
  cases passed with
  | malformed malformed => cases malformed.symm.trans (rest.reads ordered)
  | argument otherMember partMember started inside =>
    obtain ⟨_, _, otherSees⟩ := searched.walk.sees _ otherMember
    obtain ⟨otherAfter, otherBefore⟩ :=
      otherSees.passed_of_mem ordered partMember (Nat.le_of_lt started) inside
    obtain rfl :=
      searched.walk.eq_of_passed member otherMember after before otherAfter otherBefore
    rw [← start_eq] at started inside
    exact row.not_inside ordered attrMember partMember started inside
  | inside otherMember otherSeen property passedAll inside =>
    obtain ⟨_, _, otherSees⟩ := searched.walk.sees _ otherMember
    rw [otherSeen] at otherSees
    obtain ⟨otherAfter, otherBefore⟩ :=
      otherSees.passed_of_isProperty ordered property passedAll inside
    obtain rfl :=
      searched.walk.eq_of_passed member otherMember after before otherAfter otherBefore
    cases otherSeen
    have := passedAll attr attrMember
    omega

end Searched

/-! ## Silence -/

/-- What becomes of the uses of macros in an expansion that complains of nothing: those are expanded
that are not passed over. -/
def UsesLaw (registry : Registry.Macros) (expander : Expander) (source : List Char)
    (sourceName : String) (outcome : SourceExpansion) : Prop :=
  ∃ stream findings shop visits,
    Arises registry source sourceName ⟨expander, []⟩ stream findings shop outcome ∧
      Walk registry stream 0 visits ∧
        ∀ place, MacroUse registry stream place →
          (UseExpanded stream findings place ↔ ¬ PassedOver registry stream visits place)

theorem usesLaw_of_expand {expander later : Expander} {source : List Char}
    {outcome : SourceExpansion} {notes : List LogRecord}
    (expanded : expander.run (expand registry source sourceName) = (.ok outcome, later, notes))
    (clean : outcome.diagnostics = []) :
    UsesLaw registry expander source sourceName outcome := by
  obtain ⟨error, _, rfl⟩ | ⟨stream, findings, shop, arises⟩ :=
    arises_of_expand (run_eq_ok.mp expanded)
  · cases clean
  obtain ⟨visits, searched⟩ := arises.exists_searched
  rw [arises.diagnostics_eq] at clean
  refine ⟨stream, findings, shop, visits, arises, searched.walk, fun place use => ?_⟩
  constructor
  · exact searched.not_passedOver
  · exact (searched.useExpanded_or_passedOver clean use).resolve_right

/-- The use at a place is not expanded, and nobody complains. -/
def LeftInSilence (registry : Registry.Macros) (expander : Expander) (source : List Char)
    (place : Nat) : Prop :=
  ∃ outcome later notes stream findings shop,
    expander.run (expand registry source "<input>") = (.ok outcome, later, notes) ∧
      outcome.diagnostics = [] ∧
      Arises registry source "<input>" ⟨expander, []⟩ stream findings shop outcome ∧
      MacroUse registry stream place ∧ ¬ UseExpanded stream findings place

def leavesInSilence (registry : Registry.Macros) (expander : Expander) (source : List Char)
    (place : Nat) : Bool :=
  ((expander.run (expand registry source "<input>")).1.toOption.any (·.diagnostics.isEmpty)) &&
    (TokenStream.scan source).toOption.any fun stream =>
      (expander.run (find registry "<input>" stream)).1.toOption.any fun findings =>
        MacroUse registry stream place && !UseExpanded stream findings place

theorem leftInSilence_of_leavesInSilence {expander : Expander} {source : List Char}
    (left : leavesInSilence registry expander source place = true) :
    LeftInSilence registry expander source place := by
  obtain ⟨ran, left⟩ := Bool.and_eq_true_iff.mp left
  obtain ⟨outcome, later, notes, expanded, clean⟩ := exists_run_of_any ran
  obtain ⟨stream, scanned, left⟩ := exists_of_any left
  obtain ⟨findings, shop, searchNotes, found, left⟩ := exists_run_of_any left
  obtain ⟨_, unread, _⟩ | ⟨stream, findings, shop, arises⟩ :=
    arises_of_expand (run_eq_ok.mp expanded)
  · cases unread.symm.trans scanned
  -- There is one way to read the source and one search, so what was evaluated is what came about.
  cases arises.scanned.symm.trans scanned
  cases arises.runs.symm.trans (run_eq_ok.mp found)
  obtain ⟨use, unexpanded⟩ := Bool.and_eq_true_iff.mp left
  exact ⟨outcome, later, notes, _, _, _, expanded, List.isEmpty_iff.mp clean, arises,
    of_decide_eq_true use, by simpa using unexpanded⟩

/-- A variable with a macro, and in its accessors another one. -/
def accessorSample : List Char :=
  "@ImageCache\nvar fooData: Data? \x7b\n  @ImageCache var barData: Data?\n\x7d".toList

set_option maxRecDepth 20000 in
theorem usesLaw_accessorSample : ∃ outcome later notes,
    phoneExpander.run (expand (Registry.standard "linux") accessorSample "<input>") =
        (.ok outcome, later, notes) ∧
      outcome.expandedCount = 1 ∧
      UsesLaw (Registry.standard "linux") phoneExpander accessorSample "<input>" outcome := by
  have evaluated : (phoneExpander.run (expand (Registry.standard "linux") accessorSample
      "<input>")).1.toOption.any (fun outcome => outcome.diagnostics.isEmpty &&
        outcome.expandedCount == 1) = true := by
    decide +kernel
  obtain ⟨outcome, later, notes, expanded, told⟩ := exists_run_of_any evaluated
  obtain ⟨clean, count⟩ := Bool.and_eq_true_iff.mp told
  exact ⟨outcome, later, notes, expanded, eq_of_beq count,
    usesLaw_of_expand expanded (List.isEmpty_iff.mp clean)⟩

/-- An argument clause that is not closed. -/
def unclosedSample : List Char :=
  "@ImageCache(\nvar fooData: Data?".toList

set_option maxRecDepth 20000 in
/-- A macro whose attribute cannot be read is passed over in silence. -/
theorem leftInSilence_unclosedSample :
    LeftInSilence (Registry.standard "linux") phoneExpander unclosedSample 0 :=
  leftInSilence_of_leavesInSilence (by decide +kernel)

end PeerExpansion
