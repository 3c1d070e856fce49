import PeerExpansion.Proofs.CachedProperty.Generation
import PeerExpansion.Proofs.Expansion.Expanded
import PeerExpansion.Proofs.Expansion.Found
import PeerExpansion.Proofs.Expansion.Memory
import PeerExpansion.Proofs.Reading.Loops
import PeerExpansion.Proofs.Reading.Sound
import PeerExpansion.Proofs.Token.Faithful

/-! # Expansions that come to a result

With the macros of this library and settings of the right sorts, every source has an expansion, and
whatever is wrong with it is told about a place in it. `Delivers` says so of each piece of the work.
-/

namespace PeerExpansion

/-! ## Searches that stay among the tokens

A search comes to the last word of a source in as many steps as there are words, and more steps
change nothing. It looks for tokens by their place, and for the first one behind an offset. Wherever
it looks, there is one.
-/

section Search

open Expander Reading

variable {registry : Registry.Macros} {sourceName : String} {stream : TokenStream}

/-! ### Steps -/

theorem findWithin_eq_find (ordered : stream.Ordered) {limit : Nat}
    (enough : stream.words.length ≤ limit) :
    findWithin registry sourceName limit (.ofStream stream 0) =
      find registry sourceName stream := by
  obtain ⟨visits, walk, same⟩ := exists_findWithin_eq ordered (Nat.zero_le _) enough
  obtain ⟨others, otherWalk, otherSame⟩ := exists_find_eq registry sourceName ordered
  -- There is only one way through the source.
  rw [same, otherSame, walk.unique ordered otherWalk]

/-! ### Look-ups -/

namespace TokenStream

/-- The place of the first token that starts at `offset` or later, which is behind the last one when
there is none. -/
def placeFrom (stream : TokenStream) (offset : Nat) : Nat :=
  stream.toList.findIdx fun token => offset ≤ token.start

/-- The place that is looked at when there may be too few tokens: that of the ending at most. -/
def placeAhead (stream : TokenStream) (place count : Nat) : Nat :=
  min (place + count) (stream.toList.length - 1)

theorem getElem?_placeAhead (place count : Nat) :
    stream.toList[stream.placeAhead place count]? =
      some ((Cursor.ofStream stream place).ahead count) := by
  have last : stream.toList.length - 1 = stream.words.length := by simp [toList]
  rw [placeAhead, last, Cursor.ahead_ofStream, toList]
  obtain within | beyond := Nat.lt_or_ge (place + count) stream.words.length
  · rw [Nat.min_eq_left (Nat.le_of_lt within), List.getElem?_append_left within,
      token_eq_getElem within, List.getElem?_eq_getElem within]
  · rw [Nat.min_eq_right beyond, token_eq_ending beyond]
    exact List.getElem?_concat_length

theorem getElem?_previous {place : Nat} (inside : place < stream.words.length) :
    stream.toList[place]? = (Cursor.ofStream stream (place + 1)).previous? := by
  rw [Cursor.previous?_ofStream inside, token_eq_getElem inside, toList,
    List.getElem?_append_left inside, List.getElem?_eq_getElem inside]

theorem Ordered.getElem?_placeFrom (ordered : stream.Ordered) {offset : Nat}
    (inside : offset ≤ stream.source.length) :
    stream.toList[stream.placeFrom offset]? = some (stream.firstFrom offset) := by
  -- The ending starts behind all offsets of the source, so it is found if nothing else is.
  have last : [stream.ending].find? (fun token => offset ≤ token.start) = some stream.ending :=
    List.find?_cons_of_pos (by simpa [ordered.ending_start] using inside)
  rw [placeFrom, ← List.find?_eq_getElem?_findIdx, toList, List.find?_append, last, firstFrom]
  cases stream.words.find? fun token => offset ≤ token.start <;> rfl

end TokenStream

/-- A search through tokens that ends for want of words alone, and in which nothing is looked up
that is not there: neither ahead of a place or in front of it, nor behind the declarations and
attributes that are found. -/
structure Surveyed (registry : Registry.Macros) (sourceName : String) (stream : TokenStream) :
    Prop where
  steps : ∀ limit, stream.words.length ≤ limit →
    findWithin registry sourceName limit (.ofStream stream 0) = find registry sourceName stream
  loops : ∀ {α : Type} {loop : Nat → Reading α}, IsLoop loop →
    ∀ place limit, stream.words.length - place ≤ limit →
      (loop limit).run (.ofStream stream place) =
        (loop (stream.words.length - place)).run (.ofStream stream place)
  ahead : ∀ place count, stream.toList[stream.placeAhead place count]? =
    some ((Cursor.ofStream stream place).ahead count)
  previous : ∀ place < stream.words.length, ∃ token,
    stream.toList[place]? = some token ∧
      (Cursor.ofStream stream (place + 1)).previous? = some token
  walk : ∃ visits, Walk registry stream 0 visits ∧ ∀ visit ∈ visits,
    visit.place < visit.next ∧ visit.next ≤ stream.words.length ∧
      ∀ declaration, visit.sight = .declared declaration →
        ∀ offset ∈ declaration.stop :: declaration.attributes.map Attribute.stop,
          stream.toList[stream.placeFrom offset]? = some (stream.firstFrom offset)

theorem surveyed_of_find (ordered : stream.Ordered) {first last : Workshop}
    {findings : List Finding}
    (runs : Work.Runs (find registry sourceName stream) first findings last) :
    Surveyed registry sourceName stream where
  steps _ enough := findWithin_eq_find ordered enough
  loops isLoop place limit enough := by
    rw [← Cursor.remaining_ofStream] at enough ⊢
    exact isLoop.settles.run_eq (ordered.endsEmpty place) enough
  ahead := TokenStream.getElem?_placeAhead
  previous place inside :=
    ⟨stream.token place, (TokenStream.getElem?_previous inside).trans
      (Cursor.previous?_ofStream inside), Cursor.previous?_ofStream inside⟩
  walk := by
    obtain ⟨visits, walk, -⟩ := walk_of_find ordered runs
    refine ⟨visits, walk, fun visit member => ?_⟩
    obtain ⟨-, inside, sees⟩ := walk.sees visit member
    refine ⟨sees.lt_next, sees.next_le inside, fun declaration seen offset stands => ?_⟩
    rw [seen] at sees
    obtain ⟨behind, after, spans, -, -⟩ := sees.spans
    -- Declarations and attributes both end within the source, so some token begins there or later.
    apply ordered.getElem?_placeFrom
    obtain rfl | ends := List.mem_cons.mp stands
    · exact spans.stop_le_length ordered
    · obtain ⟨attr, attrMember, rfl⟩ := List.mem_map.mp ends
      obtain ⟨_, _, _, _, _, attrSpans, _⟩ := spans.row.spans_of_mem attr attrMember
      rw [attrSpans.stop_eq]
      exact ordered.stop_le_length attrSpans.last_lt

end Search

namespace Work

variable {α β : Type}

/-- Where `holds` is true of the workshop the work answers what fits, and `holds` is true of the
workshop afterwards. -/
def Delivers (holds : Workshop → Prop) (work : Work α) (Fits : α → Prop) : Prop :=
  ∀ shop, holds shop → ∃ value later, Runs work shop value later ∧ holds later ∧ Fits value

variable {holds : Workshop → Prop}

theorem delivers_pure {value : α} {Fits : α → Prop} (fits : Fits value) :
    Delivers holds (pure value) Fits :=
  fun shop held => ⟨value, shop, runs_pure.mpr ⟨rfl, rfl⟩, held, fits⟩

theorem delivers_bind {work : Work α} {next : α → Work β} {Given : α → Prop} {Fits : β → Prop}
    (front : Delivers holds work Given)
    (back : ∀ given, Given given → Delivers holds (next given) Fits) :
    Delivers holds (work >>= next) Fits := by
  intro shop held
  obtain ⟨given, middle, runs, middleHeld, fits⟩ := front shop held
  obtain ⟨value, later, nextRuns, laterHeld, valueFits⟩ := back given fits middle middleHeld
  exact ⟨value, later, runs_bind.mpr ⟨given, middle, runs, nextRuns⟩, laterHeld, valueFits⟩

theorem delivers_modify {change : Workshop → Workshop}
    (kept : ∀ shop, holds shop → holds (change shop)) :
    Delivers holds (modify change) fun _ => True :=
  fun shop held => ⟨(), change shop, runs_modify.mpr rfl, kept shop held, trivial⟩

theorem delivers_mapM {task : α → Work β} {Fits : β → Prop} {items : List α}
    (each : ∀ item ∈ items, Delivers holds (task item) Fits) :
    Delivers holds (items.mapM task) fun values => ∀ value ∈ values, Fits value := by
  induction items with
  | nil => exact delivers_pure (by simp)
  | cons item others inductionHypothesis =>
    rw [List.mapM_cons]
    obtain ⟨first, rest⟩ := List.forall_mem_cons.mp each
    refine delivers_bind first fun value fits => ?_
    refine delivers_bind (inductionHypothesis rest) fun values allFit => ?_
    exact delivers_pure (List.forall_mem_cons.mpr ⟨fits, allFit⟩)

end Work

open Expander Reading Work

/-! ## Diagnostics -/

/-- The line and column are those of a place in the source: one more than the line feeds in front of
it, and one more than the characters between it and the last of these. -/
def Diagnostic.PointsInto (source : List Char) (diagnostic : Diagnostic) : Prop :=
  ∃ offset ≤ source.length, diagnostic.line = 1 + (source.take offset).count '\n' ∧
    diagnostic.column = offset - lineStart source offset + 1

theorem Diagnostic.pointsInto_ofComplaint {source : List Char} {position : Position}
    (within : position.Within source) (complaint : Complaint) (sourceName : String) :
    (ofComplaint complaint (some position) sourceName).PointsInto source := by
  obtain ⟨offset, inside, rfl⟩ := within
  exact ⟨offset, inside, Position.line_ofOffset source offset, Position.column_ofOffset inside⟩

/-- A diagnostic about the source of that name. -/
def Diagnostic.Concerns (source : List Char) (sourceName : String) (diagnostic : Diagnostic) :
    Prop :=
  diagnostic.PointsInto source ∧ diagnostic.sourceName = sourceName

theorem Diagnostic.concerns_ofComplaint {source : List Char} {position : Position}
    (within : position.Within source) (complaint : Complaint) (sourceName : String) :
    (ofComplaint complaint (some position) sourceName).Concerns source sourceName :=
  ⟨pointsInto_ofComplaint within complaint sourceName, rfl⟩

/-- All that is told of a finding concerns the source. -/
def Finding.TellsOf (source : List Char) (sourceName : String) (finding : Finding) : Prop :=
  ∀ diagnostic ∈ finding.diagnostics sourceName, diagnostic.Concerns source sourceName

/-! ## Generators -/

variable {machine : String} {configuration : Configuration}

/-- A generator that behaves as the ones made from this configuration. -/
def Generator.Serves (machine : String) (configuration : Configuration) (generator : Generator) :
    Prop :=
  generator.behaviour =
    (CachedProperty.generator machine "ImageCacheGenerator" "ImageCache" configuration).behaviour

/-- The expander of a workshop takes its generators from this configuration. -/
structure Workshop.Supplied (machine : String) (configuration : Configuration) (shop : Workshop) :
    Prop where
  source_eq : shop.expander.source = .ready configuration
  serves : ∀ name generator, shop.expander.generators.lookup name = some generator →
    generator.Serves machine configuration

theorem Registry.eq_of_isSupported_standard {name : String}
    (supported : (Registry.standard machine).isSupported name = true) : name = "ImageCache" := by
  have lookup : (Registry.standard machine).isSupported name =
      (([("ImageCache", CachedProperty.generatorClass machine)].lookup name).isSome || false) := rfl
  rw [lookup, Bool.or_false, List.lookup_cons] at supported
  split at supported
  next same => exact eq_of_beq same
  next => cases supported

theorem Workshop.Supplied.add {shop : Workshop} (supplied : shop.Supplied machine configuration)
    (primary : String) {generator : Generator} (serves : generator.Serves machine configuration) :
    Workshop.Supplied machine configuration { shop with expander := { shop.expander with
      generators := shop.expander.generators ++ [(primary, generator)] } } := by
  refine ⟨supplied.source_eq, fun name found known => ?_⟩
  obtain old | ⟨-, -, rfl⟩ := known_or_eq_of_lookup_append known
  · exact supplied.serves _ _ old
  · exact serves

theorem Workshop.Supplied.used {shop : Workshop} (supplied : shop.Supplied machine configuration)
    (registry : Registry.Macros) (attr : Attribute) (declaration : Declaration)
    (notes : List LogRecord) :
    Workshop.Supplied machine configuration
      ⟨shop.expander.used registry attr declaration, notes⟩ := by
  refine ⟨source_used.trans supplied.source_eq, fun name found known => ?_⟩
  obtain ⟨old, before, rfl | rfl⟩ := exists_lookup_of_used known
  · exact supplied.serves _ _ before
  · exact (old.behaviour_after attr declaration).trans (supplied.serves _ _ before)

theorem delivers_generatorFor :
    Delivers (Workshop.Supplied machine configuration)
      (generatorFor (Registry.standard machine) "ImageCache")
      (Generator.Serves machine configuration) := by
  intro shop supplied
  have resolved : (Registry.standard machine).resolve "ImageCache" = .ok "ImageCache" := rfl
  -- What is kept already was made from the same settings as what would be made now.
  cases known : shop.expander.generators.lookup "ImageCache" with
  | some generator =>
    refine ⟨generator, shop, ?_, supplied, supplied.serves _ _ known⟩
    rw [generatorFor, resolved]
    refine runs_bind.mpr ⟨shop, shop, runs_get.mpr ⟨rfl, rfl⟩, ?_⟩
    rw [known]
    exact runs_pure.mpr ⟨rfl, rfl⟩
  | none =>
    refine ⟨_, _, ?_, supplied.add "ImageCache" rfl, rfl⟩
    have made : (Registry.standard machine).create shop.expander.files "ImageCache"
        shop.expander.source = .ok
          (CachedProperty.generator machine "ImageCacheGenerator" "ImageCache" configuration) := by
      rw [supplied.source_eq]
      rfl
    rw [generatorFor, resolved]
    refine runs_bind.mpr ⟨shop, shop, runs_get.mpr ⟨rfl, rfl⟩, ?_⟩
    rw [known, made]
    refine runs_bind.mpr ⟨(), _, ?_, runs_pure.mpr ⟨rfl, rfl⟩⟩
    rfl

/-! ## Findings -/

section Told

variable {source : List Char} {sourceName : String} (typed : configuration.WellTyped)
include typed

theorem delivers_expandAttribute {declaration : Declaration}
    (within : declaration.position.Within source) {attr : Attribute}
    (supported : (Registry.standard machine).isSupported attr.name = true) :
    Delivers (Workshop.Supplied machine configuration)
      (expandAttribute (Registry.standard machine) declaration sourceName attr)
      fun answer => ∀ diagnostic ∈ answer.2.diagnostic?, diagnostic.Concerns source sourceName := by
  unfold expandAttribute
  rw [Registry.eq_of_isSupported_standard supported]
  refine delivers_bind delivers_generatorFor fun generator serves => ?_
  refine delivers_bind (delivers_modify fun _ supplied => supplied.used _ attr declaration _)
    fun _ _ => ?_
  have generate_eq := (Generator.generate_eq_of_behaviour serves).trans
    (CachedProperty.generate_generator machine _ _ configuration)
  -- Peers are reported without a diagnostic, and a refusal at the place of the declaration.
  obtain ⟨texts, outcome_eq⟩ | ⟨complaint, outcome_eq⟩ :=
    CachedProperty.generate_outcome typed machine "ImageCache" attr declaration
  · simp only [generate_eq, outcome_eq]
    exact delivers_pure nofun
  · simp only [generate_eq, outcome_eq]
    refine delivers_pure fun diagnostic told => ?_
    cases told
    exact Diagnostic.concerns_ofComplaint within complaint sourceName

theorem delivers_expandDeclaration {declaration : Declaration}
    (within : declaration.position.Within source) :
    Delivers (Workshop.Supplied machine configuration)
      (expandDeclaration (Registry.standard machine) declaration sourceName)
      fun results => ∀ answer ∈ results, ∀ diagnostic ∈ answer.2.diagnostic?,
        diagnostic.Concerns source sourceName :=
  delivers_mapM fun _ member =>
    delivers_expandAttribute typed within (List.mem_filter.mp member).2

/-- What is seen at a place of the source tells of the source, if all that is found further on
does. -/
theorem delivers_report {place next : Nat} {sight : Sight} {further : Work (List Finding)}
    (among : (Cursor.ofStream stream place).Among fun token => token.position.Within source)
    (sees : Sees (Registry.standard machine) stream place sight next)
    (others : Delivers (Workshop.Supplied machine configuration) further
      fun findings => ∀ finding ∈ findings, finding.TellsOf source sourceName) :
    Delivers (Workshop.Supplied machine configuration)
      (sight.report (Registry.standard machine) sourceName further)
      fun findings => ∀ finding ∈ findings, finding.TellsOf source sourceName := by
  -- An error names a token of the source, and a declaration begins with one.
  have afterDeclaration := Declaration.sound_read (.ofStream stream place) among
  cases sees with
  | idle | malformed | plain => exact others
  | @unreadable _ _ error _ _ _ unread =>
    rw [unread] at afterDeclaration
    obtain ⟨token, within, position_eq⟩ := afterDeclaration
    refine delivers_bind others fun findings fit => delivers_pure ?_
    refine List.forall_mem_cons.mpr ⟨fun diagnostic told => ?_, fit⟩
    rw [List.mem_singleton.mp told]
    exact Diagnostic.concerns_ofComplaint (position_eq ▸ within) error.complaint sourceName
  | declared _ read =>
    rw [Reads] at read
    rw [read] at afterDeclaration
    obtain ⟨-, token, within, position_eq⟩ := afterDeclaration
    rw [← position_eq] at within
    refine delivers_bind (delivers_expandDeclaration typed within) fun results told => ?_
    refine delivers_bind others fun findings fit => delivers_pure ?_
    refine List.forall_mem_cons.mpr ⟨fun diagnostic member => ?_, fit⟩
    obtain ⟨answer, answered, told_eq⟩ := List.mem_filterMap.mp member
    exact told answer answered diagnostic told_eq

theorem delivers_reportAll (scanned : TokenStream.scan source = .ok stream) {place : Nat}
    {visits : List Visit} (walk : Walk (Registry.standard machine) stream place visits) :
    Delivers (Workshop.Supplied machine configuration)
      (reportAll (Registry.standard machine) sourceName visits)
      fun findings => ∀ finding ∈ findings, finding.TellsOf source sourceName := by
  induction walk with
  | done => exact delivers_pure nofun
  | @step place _ _ _ _ sees _ inductionHypothesis =>
    rw [reportAll_cons]
    have among := among_ofStream (TokenStream.within_of_scan scanned) place
    exact delivers_report typed among sees inductionHypothesis

/-- All that a search tells concerns the source. -/
theorem delivers_find (scanned : TokenStream.scan source = .ok stream) :
    Delivers (Workshop.Supplied machine configuration)
      (find (Registry.standard machine) sourceName stream)
      fun findings => ∀ finding ∈ findings, finding.TellsOf source sourceName := by
  have ordered := (TokenStream.ordered_of_scan scanned).2
  obtain ⟨visits, walk, same⟩ := exists_find_eq (Registry.standard machine) sourceName ordered
  rw [same]
  exact delivers_reportAll typed scanned walk

/-- An expansion comes to a result, and all that it tells concerns the source. -/
theorem delivers_expand (source : List Char) :
    Delivers (Workshop.Supplied machine configuration)
      (expand (Registry.standard machine) source sourceName)
      fun outcome => ∀ diagnostic ∈ outcome.diagnostics,
        diagnostic.Concerns source sourceName := by
  unfold expand
  split
  next error unread =>
    refine delivers_pure fun diagnostic told => ?_
    rw [List.mem_singleton.mp told]
    exact Diagnostic.concerns_ofComplaint (TokenStream.within_of_scan_error unread)
      error.complaint sourceName
  next stream scanned =>
    refine delivers_bind (delivers_find typed scanned) fun findings fit => ?_
    refine delivers_bind (delivers_modify fun _ supplied =>
      ⟨supplied.source_eq, supplied.serves⟩) fun _ _ => delivers_pure ?_
    intro diagnostic told
    obtain ⟨finding, found, member⟩ := List.mem_flatMap.mp told
    exact fit finding found diagnostic member

/-- Every source has an expansion. It is told of nothing but places in the source, and the search
looks up no tokens that are not there. -/
theorem expand_completes (files : FileStore) (machine : String) (source : List Char)
    (sourceName : String) :
    ∃ outcome later notes,
      (Expander.ofSource files (.ready configuration)).run
          (expand (Registry.standard machine) source sourceName) = (.ok outcome, later, notes) ∧
        (∀ diagnostic ∈ outcome.diagnostics, diagnostic.Concerns source sourceName) ∧
          ∀ stream, TokenStream.scan source = .ok stream →
            Surveyed (Registry.standard machine) sourceName stream := by
  have supplied : Workshop.Supplied machine configuration
      ⟨Expander.ofSource files (.ready configuration), []⟩ := ⟨rfl, nofun⟩
  obtain ⟨outcome, ⟨later, notes⟩, runs, -, concerns⟩ := delivers_expand typed source _ supplied
  refine ⟨outcome, later, notes, run_eq_ok.mpr runs, concerns, fun stream scanned => ?_⟩
  obtain ⟨error, unread, -⟩ | ⟨_, findings, shop, arises⟩ := arises_of_expand runs
  · cases unread.symm.trans scanned
  · cases arises.scanned.symm.trans scanned
    exact surveyed_of_find (TokenStream.ordered_of_scan scanned).2 arises.runs

end Told

theorem phone_wellTyped :
    Configuration.WellTyped { targetPlatform := .text "ios" } :=
  CachedProperty.wellTyped_targeting "ios"

/-- A member of a type that its macro is not for. -/
def misfitSample : List Char :=
  "struct S \x7b\n  @ImageCache var number: Int\n\x7d".toList

set_option maxRecDepth 20000 in
theorem expand_completes_misfitSample : ∃ outcome later notes,
    phoneExpander.run (expand (Registry.standard "linux") misfitSample "<input>") =
        (.ok outcome, later, notes) ∧
      outcome.diagnostics.map (fun diagnostic => (diagnostic.line, diagnostic.column)) =
        [(2, 3)] ∧
      (∀ diagnostic ∈ outcome.diagnostics, diagnostic.Concerns misfitSample "<input>") ∧
      ∀ stream, TokenStream.scan misfitSample = .ok stream →
        Surveyed (Registry.standard "linux") "<input>" stream := by
  have evaluated : (phoneExpander.run (expand (Registry.standard "linux") misfitSample
      "<input>")).1.toOption.any (fun outcome =>
        outcome.diagnostics.map (fun diagnostic => (diagnostic.line, diagnostic.column)) ==
          [(2, 3)]) = true := by
    decide +kernel
  obtain ⟨outcome, later, notes, expanded, concerns, surveyed⟩ :=
    expand_completes phone_wellTyped .empty "linux" misfitSample "<input>"
  have run_eq : phoneExpander.run (expand (Registry.standard "linux") misfitSample "<input>") =
      (.ok outcome, later, notes) := expanded
  rw [run_eq] at evaluated
  exact ⟨outcome, later, notes, run_eq, eq_of_beq evaluated, concerns, surveyed⟩

end PeerExpansion
