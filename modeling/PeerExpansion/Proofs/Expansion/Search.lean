import PeerExpansion.Proofs.Declaration.Span
import PeerExpansion.Proofs.Expansion.Work

/-! # The search for declarations

The search visits places of a source one after the other. At each it sees one of a few things, and
what it sees says where it goes on. None of this depends on what becomes of the attributes: `Walk`
is the way through the source, `Reports` what is said on the way.
-/

namespace PeerExpansion

open Expander Reading Work

/-- What the search sees at a place. -/
inductive Sight
  /-- Nothing that begins a declaration, or attributes that cannot be read. -/
  | nothing
  /-- Attributes none of which is a macro. -/
  | plain (attributes : List Attribute)
  | unreadable (attributes : List Attribute) (error : SyntaxError)
  | declared (declaration : Declaration)

/-- A place with what is seen there, and the place that is visited next. -/
structure Visit where
  place : Nat
  sight : Sight
  next : Nat

def Sight.attributes : Sight → List Attribute
  | nothing => []
  | plain attributes => attributes
  | unreadable attributes _ => attributes
  | declared declaration => declaration.attributes

/-- The search sees something at a place, and goes on at the next. Only behind a variable are there
no declarations to be found inside. -/
inductive Sees (registry : Registry.Macros) (stream : TokenStream) (place : Nat) :
    Sight → Nat → Prop
  | idle : startsDeclaration (.ofStream stream place) = false →
      Sees registry stream place .nothing (place + 1)
  | malformed {error : SyntaxError} : startsDeclaration (.ofStream stream place) = true →
      Attribute.readAll.run (.ofStream stream place) = .error error →
        Sees registry stream place .nothing (place + 1)
  | plain {attributes : List Attribute} {behind : Nat} :
      startsDeclaration (.ofStream stream place) = true →
        Attribute.Row stream place attributes behind → macroAttributes registry attributes = [] →
          Sees registry stream place (.plain attributes) behind
  | unreadable {attributes : List Attribute} {behind : Nat} {error : SyntaxError} :
      startsDeclaration (.ofStream stream place) = true →
        Attribute.Row stream place attributes behind → macroAttributes registry attributes ≠ [] →
          Declaration.read.run (.ofStream stream place) = .error error →
            Sees registry stream place (.unreadable attributes error) behind
  | declared {declaration : Declaration} {behind next : Nat} :
      startsDeclaration (.ofStream stream place) = true →
        Reads Declaration.read (.ofStream stream place) declaration (.ofStream stream next) →
          declaration.Spans stream place behind next →
            macroAttributes registry declaration.attributes ≠ [] →
              Sees registry stream place (.declared declaration)
                (if declaration.isProperty then next else behind)

/-- The visits of a search from a place on. -/
inductive Walk (registry : Registry.Macros) (stream : TokenStream) : Nat → List Visit → Prop
  | done {place : Nat} : stream.words.length ≤ place → Walk registry stream place []
  | step {place next : Nat} {sight : Sight} {visits : List Visit} :
      place < stream.words.length → Sees registry stream place sight next →
        Walk registry stream next visits →
          Walk registry stream place (⟨place, sight, next⟩ :: visits)

/-- What is reported of the visits of a search, and how the workshop changes over it. -/
inductive Reports (registry : Registry.Macros) (sourceName : String) :
    List Visit → Workshop → List Finding → Workshop → Prop
  | nil {shop : Workshop} : Reports registry sourceName [] shop [] shop
  | nothing {place next : Nat} {visits : List Visit} {findings : List Finding}
      {first last : Workshop} :
      Reports registry sourceName visits first findings last →
        Reports registry sourceName (⟨place, .nothing, next⟩ :: visits) first findings last
  | plain {place next : Nat} {attributes : List Attribute} {visits : List Visit}
      {findings : List Finding} {first last : Workshop} :
      Reports registry sourceName visits first findings last →
        Reports registry sourceName (⟨place, .plain attributes, next⟩ :: visits) first findings last
  | unreadable {place next : Nat} {attributes : List Attribute} {error : SyntaxError}
      {visits : List Visit} {findings : List Finding} {first last : Workshop} :
      Reports registry sourceName visits first findings last →
        Reports registry sourceName (⟨place, .unreadable attributes error, next⟩ :: visits) first
          (.unreadable error :: findings) last
  | declared {place next : Nat} {declaration : Declaration}
      {results : List (Attribute × ExpansionResult)} {visits : List Visit}
      {findings : List Finding} {first middle last : Workshop} :
      Runs (expandDeclaration registry declaration sourceName) first results middle →
        Reports registry sourceName visits middle findings last →
          Reports registry sourceName (⟨place, .declared declaration, next⟩ :: visits) first
            (.declared declaration results :: findings) last

variable {registry : Registry.Macros} {sourceName : String} {stream : TokenStream}
variable {first last : Workshop} {findings : List Finding}

theorem reads_of_startsDeclaration {place : Nat}
    (starts : startsDeclaration (.ofStream stream place) = true) :
    (stream.token place).reads "@" = true := by
  rw [startsDeclaration, Cursor.current_ofStream, Bool.and_eq_true, Token.isPunctuation,
    Bool.and_eq_true, beq_iff_eq] at starts
  obtain ⟨⟨kind_eq, text_eq⟩, _⟩ := starts
  rw [Token.reads, kind_eq, text_eq]
  decide

/-! ## The way of a search

A search only goes forward, never looks at a place twice, and there is only one way it can go. What
it does not visit it has passed in one step.
-/

variable {place next : Nat} {sight : Sight} {visits : List Visit}

namespace Sees

theorem lt_next (sees : Sees registry stream place sight next) : place < next := by
  cases sees with
  | idle => exact Nat.lt_succ_self place
  | malformed => exact Nat.lt_succ_self place
  | plain starts row => exact row.index_lt (reads_of_startsDeclaration starts)
  | unreadable starts row => exact row.index_lt (reads_of_startsDeclaration starts)
  | declared starts _ spans =>
    have after := spans.row.index_lt (reads_of_startsDeclaration starts)
    have later := spans.behind_lt
    split
    · omega
    · exact after

theorem next_le (sees : Sees registry stream place sight next)
    (inside : place < stream.words.length) : next ≤ stream.words.length := by
  cases sees with
  | idle => exact inside
  | malformed => exact inside
  | plain _ row => exact row.stop_le (Nat.le_of_lt inside)
  | unreadable _ row => exact row.stop_le (Nat.le_of_lt inside)
  | declared _ _ spans =>
    split
    · exact spans.next_le
    · exact spans.row.stop_le (Nat.le_of_lt inside)

/-- What is seen at a place, and where the search goes on, is settled by the source. -/
theorem unique {other : Sight} {later : Nat} (ordered : stream.Ordered)
    (sees : Sees registry stream place sight next)
    (otherSees : Sees registry stream place other later) : sight = other ∧ next = later := by
  -- Whatever is seen at a place, what is read there decides against everything else.
  cases sees with
  | idle idle =>
    cases otherSees with
    | idle => exact ⟨rfl, rfl⟩
    | malformed starts | plain starts | unreadable starts | declared starts =>
      cases idle.symm.trans starts
  | malformed starts malformed =>
    cases otherSees with
    | idle idle => cases idle.symm.trans starts
    | malformed => exact ⟨rfl, rfl⟩
    | plain _ row | unreadable _ row => cases malformed.symm.trans (row.reads ordered)
    | declared _ _ spans => cases malformed.symm.trans (spans.row.reads ordered)
  | plain starts row none =>
    cases otherSees with
    | idle idle => cases idle.symm.trans starts
    | malformed _ malformed => cases malformed.symm.trans (row.reads ordered)
    | plain _ otherRow =>
      obtain ⟨rfl, rfl⟩ := row.unique otherRow
      exact ⟨rfl, rfl⟩
    | unreadable _ otherRow some => exact absurd ((row.unique otherRow).1 ▸ none) some
    | declared _ _ spans some => exact absurd ((row.unique spans.row).1 ▸ none) some
  | unreadable starts row some unread =>
    cases otherSees with
    | idle idle => cases idle.symm.trans starts
    | malformed _ malformed => cases malformed.symm.trans (row.reads ordered)
    | plain _ otherRow none => exact absurd ((row.unique otherRow).1 ▸ none) some
    | unreadable _ otherRow _ otherUnread =>
      obtain ⟨rfl, rfl⟩ := row.unique otherRow
      cases unread.symm.trans otherUnread
      exact ⟨rfl, rfl⟩
    | declared _ read => cases unread.symm.trans read
  | declared starts read spans some =>
    cases otherSees with
    | idle idle => cases idle.symm.trans starts
    | malformed _ malformed => cases malformed.symm.trans (spans.row.reads ordered)
    | plain _ otherRow none => exact absurd ((spans.row.unique otherRow).1 ▸ none) some
    | unreadable _ _ _ unread => cases unread.symm.trans read
    | declared _ otherRead otherSpans =>
      obtain ⟨rfl, same⟩ := read.unique otherRead
      obtain rfl := Cursor.ofStream_injective spans.next_le otherSpans.next_le same
      obtain ⟨_, rfl⟩ := spans.row.unique otherSpans.row
      exact ⟨rfl, rfl⟩

end Sees

namespace Walk

theorem unique {others : List Visit} (ordered : stream.Ordered)
    (walk : Walk registry stream place visits) (otherWalk : Walk registry stream place others) :
    visits = others := by
  induction walk generalizing others with
  | done beyond =>
    cases otherWalk with
    | done => rfl
    | step within => omega
  | step within sees walk inductionHypothesis =>
    cases otherWalk with
    | done beyond => omega
    | step _ otherSees otherWalk =>
      obtain ⟨rfl, rfl⟩ := sees.unique ordered otherSees
      rw [inductionHypothesis otherWalk]

theorem sees (walk : Walk registry stream place visits) : ∀ visit ∈ visits,
    place ≤ visit.place ∧ visit.place < stream.words.length ∧
      Sees registry stream visit.place visit.sight visit.next := by
  induction walk with
  | done => simp
  | step within sees walk inductionHypothesis =>
    refine List.forall_mem_cons.mpr ⟨⟨Nat.le_refl _, within, sees⟩, fun visit member => ?_⟩
    obtain ⟨after, bound, seen⟩ := inductionHypothesis visit member
    exact ⟨Nat.le_trans (Nat.le_of_lt sees.lt_next) after, bound, seen⟩

/-- Nothing that a step has passed is visited later. -/
theorem pairwise (walk : Walk registry stream place visits) :
    visits.Pairwise fun first second => first.next ≤ second.place := by
  induction walk with
  | done => exact .nil
  | step within sees walk inductionHypothesis =>
    exact .cons (fun visit member => (walk.sees visit member).1) inductionHypothesis

/-- A place is visited, or a step from a place before it passes it. -/
theorem exists_visit (walk : Walk registry stream place visits) {index : Nat}
    (after : place ≤ index) (inside : index < stream.words.length) :
    ∃ visit ∈ visits, visit.place ≤ index ∧ index < visit.next := by
  induction walk with
  | done => omega
  | @step place next sight visits within sees walk inductionHypothesis =>
    obtain passed | later := Nat.lt_or_ge index next
    · exact ⟨_, List.mem_cons_self, after, passed⟩
    · obtain ⟨visit, member, found⟩ := inductionHypothesis later
      exact ⟨visit, List.mem_cons_of_mem _ member, found⟩

/-- No two steps pass the same place. -/
theorem eq_of_passed (walk : Walk registry stream place visits) {visit other : Visit}
    (member : visit ∈ visits) (otherMember : other ∈ visits) {index : Nat}
    (after : visit.place ≤ index) (before : index < visit.next) (otherAfter : other.place ≤ index)
    (otherBefore : index < other.next) : visit = other := by
  obtain same | behind | ahead := related_of_pairwise walk.pairwise member otherMember
  · exact same
  · omega
  · omega

end Walk

/-! ## Steps of a search

What is seen at a place makes one step of the search, however many steps it has left. So a search
with steps enough reports the visits on its way, one after the other.
-/

/-- What a search does about what it sees, with what it finds further on. -/
def Sight.report (registry : Registry.Macros) (sourceName : String)
    (further : Work (List Finding)) : Sight → Work (List Finding)
  | nothing | plain _ => further
  | unreadable _ error => do
    let others ← further
    return .unreadable error :: others
  | declared declaration => do
    let results ← expandDeclaration registry declaration sourceName
    let others ← further
    return .declared declaration results :: others

/-- Something is seen at every place in front of the end. -/
theorem exists_sees (registry : Registry.Macros) (ordered : stream.Ordered)
    (inside : place ≤ stream.words.length) :
    ∃ sight next, Sees registry stream place sight next := by
  by_cases starts : startsDeclaration (.ofStream stream place) = true
  · cases attributesRead : Attribute.readAll.run (.ofStream stream place) with
    | error malformed => exact ⟨_, _, .malformed starts attributesRead⟩
    | ok row =>
      obtain ⟨attributes, afterAttributes⟩ := row
      obtain ⟨behind, rfl, row⟩ := (Attribute.reads_readAll_iff ordered).mp attributesRead
      by_cases none : macroAttributes registry attributes = []
      · exact ⟨_, _, .plain starts row none⟩
      · cases read : Declaration.read.run (.ofStream stream place) with
        | error unread => exact ⟨_, _, .unreadable starts row none read⟩
        | ok result =>
          obtain ⟨declaration, last⟩ := result
          obtain ⟨_, next, rfl, spans⟩ := Declaration.spans_of_reads ordered inside read
          -- The declaration reads the attributes once more, and they are the same.
          obtain ⟨rfl, rfl⟩ := row.unique spans.row
          exact ⟨_, _, .declared starts read spans none⟩
  · exact ⟨_, _, .idle (Bool.eq_false_iff.mpr starts)⟩

theorem findWithin_of_le (beyond : stream.words.length ≤ place) (limit : Nat) :
    findWithin registry sourceName limit (.ofStream stream place) = pure [] := by
  cases limit with
  | zero => rfl
  | succ limit =>
    rw [findWithin, if_pos]
    simpa [Cursor.ofStream] using beyond

theorem Sees.findWithin_succ (sees : Sees registry stream place sight next)
    (ordered : stream.Ordered) (within : place < stream.words.length) (limit : Nat) :
    findWithin registry sourceName (limit + 1) (.ofStream stream place) =
      sight.report registry sourceName
        (findWithin registry sourceName limit (.ofStream stream next)) := by
  have more : (Cursor.ofStream stream place).behind.isEmpty = false := by
    simpa [Cursor.ofStream] using within
  have attributesRead {attributes : List Attribute} {behind : Nat}
      (row : Attribute.Row stream place attributes behind) :
      Attribute.readAll.run (.ofStream stream place) =
        .ok (attributes, .ofStream stream behind) :=
    row.reads ordered
  cases sees with
  | idle idle => simp [findWithin, more, idle, Sight.report]
  | malformed starts malformed => simp [findWithin, more, starts, malformed, Sight.report]
  | plain starts row none =>
    simp [findWithin, more, starts, attributesRead row, none, Sight.report]
  | unreadable starts row some unread =>
    simp [findWithin, more, starts, attributesRead row, some, unread, Sight.report]
  | @declared declaration _ next starts read spans some =>
    have declarationRead : Declaration.read.run (.ofStream stream place) =
        .ok (declaration, .ofStream stream next) := read
    simp [findWithin, more, starts, attributesRead spans.row, some, declarationRead, Sight.report,
      apply_ite (Cursor.ofStream stream)]

/-- What the search does about the visits on its way. -/
def reportAll (registry : Registry.Macros) (sourceName : String) :
    List Visit → Work (List Finding)
  | [] => return []
  | visit :: visits =>
    match visit.sight with
    | .nothing | .plain _ => reportAll registry sourceName visits
    | .unreadable _ error => do
      let others ← reportAll registry sourceName visits
      return .unreadable error :: others
    | .declared declaration => do
      let results ← expandDeclaration registry declaration sourceName
      let others ← reportAll registry sourceName visits
      return .declared declaration results :: others

theorem reportAll_cons (visit : Visit) (visits : List Visit) :
    reportAll registry sourceName (visit :: visits) =
      visit.sight.report registry sourceName (reportAll registry sourceName visits) := by
  rw [reportAll]
  cases visit.sight <;> rfl

/-- There is a way to go whatever becomes of the attributes. -/
theorem exists_findWithin_eq (ordered : stream.Ordered) {limit place : Nat}
    (inside : place ≤ stream.words.length) (enough : stream.words.length - place ≤ limit) :
    ∃ visits, Walk registry stream place visits ∧
      findWithin registry sourceName limit (.ofStream stream place) =
        reportAll registry sourceName visits := by
  induction limit generalizing place with
  | zero => exact ⟨[], .done (by omega), rfl⟩
  | succ limit inductionHypothesis =>
    obtain within | beyond := Nat.lt_or_ge place stream.words.length
    · obtain ⟨sight, next, sees⟩ := exists_sees registry ordered inside
      -- Every step goes forward, so the steps that are left are enough for the rest.
      have later := sees.lt_next
      obtain ⟨visits, walk, same⟩ := inductionHypothesis (sees.next_le within) (by omega)
      refine ⟨⟨place, sight, next⟩ :: visits, .step within sees walk, ?_⟩
      rw [sees.findWithin_succ ordered within, same, reportAll_cons]
    · exact ⟨[], .done beyond, findWithin_of_le beyond _⟩

theorem exists_find_eq (registry : Registry.Macros) (sourceName : String)
    (ordered : stream.Ordered) : ∃ visits, Walk registry stream 0 visits ∧
      find registry sourceName stream = reportAll registry sourceName visits :=
  exists_findWithin_eq ordered (Nat.zero_le _) (Nat.sub_le _ _)

theorem reports_of_runs (runs : Runs (reportAll registry sourceName visits) first findings last) :
    Reports registry sourceName visits first findings last := by
  induction visits generalizing first findings with
  | nil =>
    obtain ⟨rfl, rfl⟩ := runs_pure.mp runs
    exact .nil
  | cons visit visits inductionHypothesis =>
    obtain ⟨place, sight, next⟩ := visit
    rw [reportAll_cons] at runs
    cases sight with
    | nothing => exact .nothing (inductionHypothesis runs)
    | plain => exact .plain (inductionHypothesis runs)
    | unreadable =>
      simp only [Sight.report, runs_bind, runs_pure] at runs
      obtain ⟨others, _, runs, rfl, rfl⟩ := runs
      exact .unreadable (inductionHypothesis runs)
    | declared =>
      simp only [Sight.report, runs_bind, runs_pure] at runs
      obtain ⟨results, middle, expanded, others, _, runs, rfl, rfl⟩ := runs
      exact .declared expanded (inductionHypothesis runs)

/-- A search goes the one way that its steps allow. -/
theorem walk_of_find (ordered : stream.Ordered)
    (runs : Runs (find registry sourceName stream) first findings last) :
    ∃ visits, Walk registry stream 0 visits ∧
      Reports registry sourceName visits first findings last := by
  obtain ⟨visits, walk, same⟩ := exists_find_eq registry sourceName ordered
  rw [same] at runs
  exact ⟨visits, walk, reports_of_runs runs⟩

/-! ## Sources without macros

Where no attribute that can be read is a macro, the search finds nothing, and the source is left as
it is.
-/

/-- No attribute that can be read in the source, at whatever place, is a macro. -/
def TokenStream.HasNoMacro (registry : Registry.Macros) (stream : TokenStream) : Prop :=
  ∀ place attr last, Reads Attribute.read (.ofStream stream place) attr last →
    registry.isSupported attr.name = false

/-- An attribute that can be read begins with a token of the source, so only those have to be
tried. -/
theorem TokenStream.hasNoMacro_of_all (ordered : stream.Ordered)
    (all : ∀ place < stream.words.length,
      ((Attribute.read.run (.ofStream stream place)).toOption.all fun (attr, _) =>
        !registry.isSupported attr.name) = true) : stream.HasNoMacro registry := by
  intro place attr last read
  obtain ⟨next, -, spans⟩ := Attribute.spans_of_reads ordered read
  have inside := spans.index_lt
  have within := spans.next_le
  have here := all place (by omega)
  rw [show Attribute.read.run (.ofStream stream place) = .ok (attr, last) from read] at here
  exact (Bool.not_eq_true' _).mp here

theorem Attribute.Row.exists_reads {index stop : Nat} {attributes : List Attribute}
    {attr : Attribute} (row : Attribute.Row stream index attributes stop)
    (member : attr ∈ attributes) :
    ∃ place last, Reads Attribute.read (.ofStream stream place) attr last := by
  induction row with
  | nil => cases member
  | cons read _ _ inductionHypothesis =>
    obtain rfl | behind := List.mem_cons.mp member
    · exact ⟨_, _, read⟩
    · exact inductionHypothesis behind

namespace TokenStream.HasNoMacro

variable (clean : stream.HasNoMacro registry)
include clean

theorem macroAttributes_eq_nil {index stop : Nat} {attributes : List Attribute}
    (row : Attribute.Row stream index attributes stop) :
    macroAttributes registry attributes = [] := by
  rw [macroAttributes, List.filter_eq_nil_iff]
  intro attr member
  obtain ⟨place, last, read⟩ := row.exists_reads member
  simp [clean place attr last read]

theorem findWithin_eq (ordered : stream.Ordered) (limit place : Nat) :
    findWithin registry sourceName limit (.ofStream stream place) = pure [] := by
  induction limit generalizing place with
  | zero => rfl
  | succ limit inductionHypothesis =>
    obtain within | beyond := Nat.lt_or_ge place stream.words.length
    · obtain ⟨sight, next, sees⟩ := exists_sees registry ordered (Nat.le_of_lt within)
      rw [sees.findWithin_succ ordered within, inductionHypothesis]
      cases sees with
      | idle | malformed | plain => rfl
      | unreadable _ row some => exact absurd (clean.macroAttributes_eq_nil row) some
      | declared _ _ spans some => exact absurd (clean.macroAttributes_eq_nil spans.row) some
    · exact findWithin_of_le beyond _

/-- The expansion is the source itself, without results and without diagnostics. -/
theorem exists_runs_expand {source : List Char} (scanned : TokenStream.scan source = .ok stream)
    (sourceName : String) (first : Workshop) :
    ∃ last, Runs (expand registry source sourceName) first ⟨source, source, sourceName, [], []⟩
      last := by
  have ordered := (TokenStream.ordered_of_scan scanned).2
  have nothing : find registry sourceName stream = pure [] := clean.findWithin_eq ordered _ 0
  have unedited : Edit.applyAll [] source = source := by simp [Edit.applyAll]
  unfold expand
  simp only [scanned, nothing, pure_bind, runs_bind, runs_modify, runs_pure, List.filterMap_nil,
    unedited]
  exact ⟨_, (), _, rfl, rfl, rfl⟩

end TokenStream.HasNoMacro

end PeerExpansion
