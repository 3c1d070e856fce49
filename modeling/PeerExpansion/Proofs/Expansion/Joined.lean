import PeerExpansion.Proofs.Declaration.Adjacent
import PeerExpansion.Proofs.Declaration.Span
import PeerExpansion.Proofs.Expansion.Inlaid
import PeerExpansion.Proofs.Expansion.Nesting
import PeerExpansion.Proofs.Expansion.Supply
import PeerExpansion.Proofs.Token.Spelling

/-! # The search through joined texts

Two texts with a variable each are joined by a line feed. Where the first variable is read from the
joined text as from its own, the search finds both variables, the second in its place, and an edit
of each is put in as into its own text.
-/

namespace PeerExpansion

open Expander Reading Work

/-! ## A text with a single declaration

Such a text can be expanded as a source or as the declaration that it is. The search through the
source finds the declaration and nothing else, so both ways come to the same.
-/

section Single

variable {registry : Registry.Macros} {sourceName : String} {stream : TokenStream}

/-! ### The search -/

theorem Attribute.Row.mark_of_ne_nil {index stop : Nat} {attributes : List Attribute}
    (row : Attribute.Row stream index attributes stop) (some : attributes ≠ []) :
    (stream.token index).reads "@" = true := by
  cases row with
  | nil => exact absurd rfl some
  | cons _ spans _ => exact spans.mark

/-- A text that begins with a mark can begin with a declaration. -/
theorem startsDeclaration_zero (mark : (stream.token 0).isPunctuation "@" = true) :
    startsDeclaration (.ofStream stream 0) = true := by
  rw [startsDeclaration, Cursor.current_ofStream, mark]
  rfl

theorem Declaration.Spans.isPunctuation_mark {source : List Char} {place behind next : Nat}
    {declaration : Declaration} (spans : declaration.Spans stream place behind next)
    (scanned : TokenStream.scan source = .ok stream)
    (carried : macroAttributes registry declaration.attributes ≠ []) :
    (stream.token place).isPunctuation "@" = true := by
  have attributed : declaration.attributes ≠ [] := by
    intro none
    exact carried (by rw [none]; rfl)
  exact TokenStream.isPunctuation_of_reads scanned rfl (by decide)
    (spans.row.mark_of_ne_nil attributed)

/-- Where no declaration with an attribute begins, nothing is found. -/
theorem findWithin_eq_nil (ordered : stream.Ordered) {place : Nat}
    (quiet : ∀ index, place ≤ index → startsDeclaration (.ofStream stream index) = false)
    (limit : Nat) :
    findWithin registry sourceName limit (.ofStream stream place) = pure [] := by
  induction limit generalizing place with
  | zero => rfl
  | succ limit inductionHypothesis =>
    obtain within | beyond := Nat.lt_or_ge place stream.words.length
    · have idle : Sees registry stream place .nothing (place + 1) :=
        .idle (quiet place (Nat.le_refl _))
      rw [idle.findWithin_succ ordered within]
      exact inductionHypothesis fun index after => quiet index (by omega)
    · exact findWithin_of_le beyond _

/-- One step of a search that stands in front of a variable with a macro. -/
theorem findWithin_of_reads {place behind next : Nat} {declaration : Declaration}
    (ordered : stream.Ordered)
    (starts : startsDeclaration (.ofStream stream place) = true)
    (read : Reads Declaration.read (.ofStream stream place) declaration (.ofStream stream next))
    (spans : declaration.Spans stream place behind next) (property : declaration.isProperty = true)
    (carried : macroAttributes registry declaration.attributes ≠ []) (limit : Nat) :
    findWithin registry sourceName (limit + 1) (.ofStream stream place) = do
      let results ← expandDeclaration registry declaration sourceName
      let others ← findWithin registry sourceName limit (.ofStream stream next)
      return .declared declaration results :: others := by
  have sees : Sees registry stream place (.declared declaration) next := by
    have seen := Sees.declared starts read spans carried
    rwa [if_pos property] at seen
  exact sees.findWithin_succ ordered (Nat.lt_of_lt_of_le spans.index_lt spans.next_le) limit

namespace Declaration.Alone

variable {source : List Char} {behind next : Nat} {declaration : Declaration}
variable (alone : declaration.Alone stream next) (scanned : TokenStream.scan source = .ok stream)
include alone scanned

/-- Nothing but a semicolon stands behind the declaration. -/
theorem not_mark {index : Nat} (after : next ≤ index) :
    ¬ (stream.token index).reads "@" = true := by
  have ordered := (TokenStream.ordered_of_scan scanned).2
  intro mark
  have inside := ordered.lt_length_of_reads mark (by decide)
  obtain short | ⟨semicolon, short⟩ := alone.ends
  · omega
  · obtain rfl : index = next := by omega
    simp only [Token.reads, Token.isPunctuation, Bool.and_eq_true, beq_iff_eq] at mark semicolon
    exact absurd (mark.2.symm.trans semicolon.2) (by decide)

theorem startsDeclaration_eq {index : Nat} (after : next ≤ index) :
    startsDeclaration (.ofStream stream index) = false := by
  rw [Bool.eq_false_iff]
  exact fun starts => alone.not_mark scanned after (reads_of_startsDeclaration starts)

/-- The search through the source expands the declaration and is done. -/
theorem find_eq (spans : declaration.Spans stream 0 behind next)
    (property : declaration.isProperty = true)
    (carried : macroAttributes registry declaration.attributes ≠ []) :
    find registry sourceName stream = do
      let results ← expandDeclaration registry declaration sourceName
      return [.declared declaration results] := by
  have ordered := (TokenStream.ordered_of_scan scanned).2
  have starts := startsDeclaration_zero (spans.isPunctuation_mark scanned carried)
  obtain ⟨limit, length_eq⟩ : ∃ limit, stream.words.length = limit + 1 :=
    Nat.exists_eq_succ_of_ne_zero (by have := spans.index_lt; have := spans.next_le; omega)
  rw [find, length_eq, findWithin_of_reads ordered starts alone.reads spans property carried]
  simp only [findWithin_eq_nil ordered fun index after => alone.startsDeclaration_eq scanned after,
    pure_bind]

end Declaration.Alone

/-! ### Results -/

/-- What an expansion of a whole source has to say is what the expansion of its declaration says. -/
structure SourceExpansion.Concurs (whole : SourceExpansion)
    (single : Except Diagnostic (List Expansion)) : Prop where
  success_iff : single.toBool = true ↔ whole.diagnostics = []
  peers_eq : ∀ expansions, single = .ok expansions → expansions.flatMap Expansion.peers =
    (whole.expansions.filterMap ExpansionResult.expansion?).flatMap Expansion.peers
  diagnostic_eq : ∀ diagnostic, single = .error diagnostic →
    whole.diagnostics.head? = some diagnostic

/-- Either both ways to expand a text are interrupted by the same fault, or what they come to is the
same. -/
def Concurring : Except ExpansionFault SourceExpansion →
    Except ExpansionFault (Except Diagnostic (List Expansion)) → Prop
  | .error fault, .error other => fault = other
  | .ok whole, .ok single => whole.Concurs single
  | _, _ => False

/-- All expansions are there, or the first diagnostic is. -/
theorem allExpansions_cases (results : List ExpansionResult) :
    (results.filterMap ExpansionResult.diagnostic? = [] ∧
      allExpansions results = .ok (results.filterMap ExpansionResult.expansion?)) ∨
    ∃ diagnostic others,
      results.filterMap ExpansionResult.diagnostic? = diagnostic :: others ∧
        allExpansions results = .error diagnostic := by
  induction results with
  | nil => exact .inl ⟨rfl, rfl⟩
  | cons result others inductionHypothesis =>
    rw [allExpansions, List.mapM_cons, ← allExpansions]
    cases result with
    | error diagnostic => exact .inr ⟨diagnostic, _, rfl, rfl⟩
    | ok expansion =>
      obtain ⟨clean, all⟩ | ⟨diagnostic, rest, told, refused⟩ := inductionHypothesis
      · exact .inl ⟨clean, by rw [all]; rfl⟩
      · exact .inr ⟨diagnostic, rest, told, by rw [refused]; rfl⟩

theorem concurs_allExpansions {whole : SourceExpansion} {results : List ExpansionResult}
    (expansions_eq : whole.expansions = results)
    (diagnostics_eq : whole.diagnostics = results.filterMap ExpansionResult.diagnostic?) :
    whole.Concurs (allExpansions results) := by
  obtain ⟨clean, all⟩ | ⟨diagnostic, others, told, refused⟩ := allExpansions_cases results
  · rw [all]
    refine ⟨by simp [diagnostics_eq, clean, Except.toBool], ?_, nofun⟩
    rintro _ ⟨⟩
    rw [expansions_eq]
  · rw [refused]
    refine ⟨by simp [diagnostics_eq, told, Except.toBool], nofun, ?_⟩
    rintro _ ⟨⟩
    rw [diagnostics_eq, told]
    rfl

theorem expand_concurring_expandSingle {source : List Char} {declaration : Declaration}
    (parsed : Declaration.parse source = .ok declaration)
    (property : declaration.isProperty = true)
    (carried : macroAttributes registry declaration.attributes ≠ []) (expander : Expander) :
    Concurring (expander.run (expand registry source sourceName)).1
      (expander.run (expandSingle registry source sourceName)).1 := by
  obtain ⟨stream, behind, next, scanned, spans, alone⟩ :=
    Declaration.exists_alone_of_parse parsed
  have found : find registry sourceName stream = _ :=
    alone.find_eq scanned spans property carried
  show Concurring (Work.outcome (expand registry source sourceName) ⟨expander, []⟩).1
    (Work.outcome (expandSingle registry source sourceName) ⟨expander, []⟩).1
  simp only [expand, expandSingle, scanned, parsed, found, bind_assoc, pure_bind]
  -- Both go on with the results of the declaration, if it has any.
  cases ran : Work.outcome (expandDeclaration registry declaration sourceName) ⟨expander, []⟩ with
  | mk result shop =>
    cases result with
    | error fault =>
      rw [Work.outcome_bind_error ran, Work.outcome_bind_error ran]
      rfl
    | ok results =>
      rw [Work.outcome_bind_ok ran, Work.outcome_bind_ok ran]
      have some : results.isEmpty = false := by
        rw [List.isEmpty_eq_false_iff]
        rintro rfl
        exact carried (attributes_of_expandDeclaration ran).symm
      rw [some]
      refine concurs_allExpansions ?_ ?_
      · simp [Finding.results]
      · simp [Finding.diagnostics, List.filterMap_map]

/-- Two macros on one variable, with a semicolon and a comment behind it. -/
def doubleSample : List Char :=
  "@Echo @Echo var x: Int; // both".toList

set_option maxRecDepth 20000 in
theorem expand_concurring_doubleSample : ∃ declaration,
    Declaration.parse doubleSample = .ok declaration ∧ declaration.isProperty = true ∧
      macroAttributes echoRegistry declaration.attributes ≠ [] ∧
      Concurring (phoneExpander.run (expand echoRegistry doubleSample "<input>")).1
        (phoneExpander.run (expandSingle echoRegistry doubleSample "<input>")).1 := by
  have evaluated : (Declaration.parse doubleSample).toOption.any (fun declaration =>
      declaration.isProperty && !(macroAttributes echoRegistry declaration.attributes).isEmpty) =
        true := by
    decide +kernel
  obtain ⟨declaration, parsed, known⟩ := exists_of_any evaluated
  obtain ⟨property, some⟩ := Bool.and_eq_true_iff.mp known
  have carried : macroAttributes echoRegistry declaration.attributes ≠ [] := by
    simpa [List.isEmpty_iff] using some
  exact ⟨declaration, parsed, property, carried,
    expand_concurring_expandSingle parsed property carried phoneExpander⟩

end Single

/-! ## Edits -/

namespace Edit

variable {text other : List Char} {edit later : Edit}

theorem moved_zero (edit : Edit) : edit.moved 0 = edit := by
  rw [moved, Nat.zero_add, Nat.zero_add]

theorem applyAll_singleton (edit : Edit) (text : List Char) :
    applyAll [edit] text = edit.applyTo text := by
  rw [applyAll, List.mergeSort_singleton]
  rfl

/-- An edit of each of two texts is put in as into the two texts on their own. -/
theorem applyAll_join (inside : edit.start < edit.stop ∧ edit.stop ≤ text.length)
    (laterInside : later.start < later.stop ∧ later.stop ≤ other.length) :
    applyAll [edit, later.moved (text.length + 1)] (text ++ '\n' :: other) =
      applyAll [edit] text ++ '\n' :: applyAll [later] other := by
  have apart : Apart (text ++ '\n' :: other).length [edit, later.moved (text.length + 1)] := by
    constructor
    · simp only [List.length_append, List.length_cons, List.forall_mem_cons, moved]
      exact ⟨by omega, by omega, nofun⟩
    · simp only [List.pairwise_pair, moved]
      omega
  -- Around the edits the joined texts fall into the parts of the two texts.
  have front : Text.slice (text ++ '\n' :: other) 0 edit.start = text.take edit.start := by
    rw [Text.slice, List.drop_zero, Nat.sub_zero, List.take_append_of_le_length (by omega)]
  have middle : Text.slice (text ++ '\n' :: other) edit.stop (text.length + 1 + later.start) =
      text.drop edit.stop ++ '\n' :: other.take later.start := by
    have room : text.length + 1 + later.start - edit.stop =
        (text.drop edit.stop).length + (later.start + 1) := by
      rw [List.length_drop]
      omega
    rw [Text.slice, List.drop_append_of_le_length inside.2, room, List.take_length_add_append]
    rfl
  have back : (text ++ '\n' :: other).drop (text.length + 1 + later.stop) =
      other.drop later.stop := by
    rw [Nat.add_assoc, ← List.drop_drop, List.drop_left, Nat.add_comm 1]
    rfl
  rw [applyAll_eq_splice apart (.refl _), applyAll_singleton, applyAll_singleton, splice, splice,
    splice, front]
  simp only [moved, middle, back, applyTo, List.append_assoc, List.cons_append]

end Edit

/-! ## Places in joined texts -/

section Join

variable {source other : List Char} {first second : TokenStream}

theorem Inlay.wholeLines_ofFirst : (Inlay.ofFirst source other).WholeLines :=
  ⟨rfl, rfl⟩

theorem Inlay.wholeLines_ofSecond : (Inlay.ofSecond source other).WholeLines :=
  ⟨by simp [ofSecond], rfl⟩

theorem secondBase_offset (source : List Char) :
    (secondBase source).offset = source.length + 1 := by
  rw [secondBase, Position.offset_after, List.length_append]
  exact Nat.zero_add _

variable (scanned : TokenStream.scan source = .ok first)
variable (otherScanned : TokenStream.scan other = .ok second)
include scanned otherScanned

theorem Inlay.stands_ofFirst : (Inlay.ofFirst source other).Stands first (first.join second) := by
  obtain ⟨rfl, -⟩ := TokenStream.ordered_of_scan scanned
  obtain ⟨rfl, -⟩ := TokenStream.ordered_of_scan otherScanned
  have base_eq : (Inlay.ofFirst first.source second.source).base = .start := rfl
  have moved_le (token : Token) :
      first.source.length ≤ (token.moved (secondBase first.source)).start := by
    show _ ≤ (secondBase first.source).offset + token.start
    rw [secondBase_offset]
    omega
  refine ⟨scanned, rfl,
    ⟨[], second.words.map (Token.moved (secondBase first.source)), ?_, nofun, ?_⟩, ?_⟩
  · rw [base_eq, List.map_id'' Token.moved_by_start]
    rfl
  · simp only [List.forall_mem_map]
    intro token _
    exact (Nat.zero_add _).trans_le (moved_le token)
  · exact (Nat.zero_add _).trans_le (moved_le second.ending)

theorem Inlay.stands_ofSecond :
    (Inlay.ofSecond source other).Stands second (first.join second) := by
  obtain ⟨rfl, ordered⟩ := TokenStream.ordered_of_scan scanned
  obtain ⟨rfl, otherOrdered⟩ := TokenStream.ordered_of_scan otherScanned
  have offset_eq : (Inlay.ofSecond first.source second.source).base.offset =
      first.source.length + 1 := secondBase_offset first.source
  refine ⟨otherScanned, rfl, ⟨first.words, [], ?_, ?_, nofun⟩, ?_⟩
  · rw [List.append_nil]
    rfl
  · intro word member
    have filled := (ordered.filled word member).2.2
    have : word.start ≤ word.stop := Nat.le_add_right _ _
    omega
  · show _ ≤ (secondBase first.source).offset + second.ending.start
    rw [offset_eq, secondBase_offset, otherOrdered.ending_start]

/-! ## The search -/

variable {registry : Registry.Macros} {sourceName : String}
variable {declaration otherDeclaration : Declaration} {behind next otherBehind otherNext : Nat}

omit otherScanned in
/-- Behind the first variable the search comes to the second text. -/
theorem findWithin_join (alone : declaration.Alone first next) (within : next ≤ first.words.length)
    (limit : Nat) :
    findWithin registry sourceName (limit + (first.words.length - next))
        (.ofStream (first.join second) next) =
      findWithin registry sourceName limit (.ofStream (first.join second) first.words.length) := by
  obtain short | ⟨_, short⟩ := alone.ends
  · obtain rfl : next = first.words.length := by omega
    rw [Nat.sub_self, Nat.add_zero]
  obtain short | inside := Nat.eq_or_lt_of_le within
  · rw [short, Nat.sub_self, Nat.add_zero]
  -- A semicolon is passed, which begins nothing.
  have length_eq : first.words.length = next + 1 := by omega
  have more : (Cursor.ofStream (first.join second) next).behind.isEmpty = false := by
    simp [Cursor.ofStream, TokenStream.join]
    omega
  have idle : startsDeclaration (.ofStream (first.join second) next) = false := by
    rw [Bool.eq_false_iff]
    intro starts
    have mark := reads_of_startsDeclaration starts
    rw [TokenStream.token_join_of_lt inside] at mark
    exact alone.not_mark scanned (Nat.le_refl _) mark
  rw [length_eq, Nat.add_sub_cancel_left, findWithin, more, idle, Cursor.skip_ofStream]
  rfl

/-- The mark of the second text is the first token of its line. -/
theorem startsDeclaration_join (filled : 0 < first.words.length)
    (mark : (second.token 0).isPunctuation "@" = true) :
    startsDeclaration (.ofStream (first.join second) first.words.length) = true := by
  obtain ⟨rfl, -⟩ := TokenStream.ordered_of_scan scanned
  obtain ⟨index, length_eq⟩ : ∃ index, first.words.length = index + 1 :=
    Nat.exists_eq_succ_of_ne_zero (Nat.ne_of_gt filled)
  have inside : index < first.words.length := by omega
  have previous_eq : (Cursor.ofStream (first.join second) (index + 1)).previous? =
      some ((first.join second).token index) :=
    Cursor.previous?_ofStream (by simp [TokenStream.join]; omega)
  rw [← length_eq, TokenStream.token_join_of_lt inside] at previous_eq
  have later : (first.token index).position.line <
      ((second.token 0).moved (secondBase first.source)).position.line := by
    have := TokenStream.line_lt_secondBase scanned index
    have := TokenStream.line_pos otherScanned 0
    show _ < (secondBase first.source).line + (second.token 0).position.line - 1
    omega
  have mark : ((second.token 0).moved (secondBase first.source)).isPunctuation "@" = true := mark
  have current_eq : (Cursor.ofStream (first.join second) first.words.length).current =
      (second.token 0).moved (secondBase first.source) := by
    rw [Cursor.current_ofStream]
    exact TokenStream.token_join_add 0
  rw [startsDeclaration, current_eq, previous_eq, mark]
  simp [later]

omit scanned in
/-- Behind the second variable nothing begins a declaration. -/
theorem not_startsDeclaration_join (alone : otherDeclaration.Alone second otherNext) {index : Nat}
    (after : first.words.length + otherNext ≤ index) :
    startsDeclaration (.ofStream (first.join second) index) = false := by
  rw [Bool.eq_false_iff]
  intro starts
  have mark := reads_of_startsDeclaration starts
  rw [← Nat.add_sub_cancel' (show first.words.length ≤ index by omega),
    TokenStream.token_join_add] at mark
  exact alone.not_mark otherScanned (by omega) mark

/-- The search through the joined texts finds both variables and nothing else. -/
theorem find_join (alone : declaration.Alone first next) (property : declaration.isProperty = true)
    (carried : macroAttributes registry declaration.attributes ≠ [])
    (spans : declaration.Spans first 0 behind next)
    (read : Reads Declaration.read (.ofStream (first.join second) 0) declaration
      (.ofStream (first.join second) next))
    (otherAlone : otherDeclaration.Alone second otherNext)
    (otherProperty : otherDeclaration.isProperty = true)
    (otherCarried : macroAttributes registry otherDeclaration.attributes ≠ [])
    (otherSpans : otherDeclaration.Spans second 0 otherBehind otherNext) :
    find registry sourceName (first.join second) = do
      let results ← expandDeclaration registry declaration sourceName
      let others ← expandDeclaration registry
        (otherDeclaration.moved (secondBase first.source)) sourceName
      return [.declared declaration results,
        .declared (otherDeclaration.moved (secondBase first.source)) others] := by
  have ordered := (TokenStream.ordered_of_scan (TokenStream.scan_join scanned otherScanned)).2
  have within := spans.next_le
  have before := spans.index_lt
  have otherWithin := otherSpans.next_le
  have otherBefore := otherSpans.index_lt
  have length_eq : (first.join second).words.length = first.words.length + second.words.length := by
    simp [TokenStream.join]
  have mark := spans.isPunctuation_mark scanned carried
  have otherMark := otherSpans.isPunctuation_mark otherScanned otherCarried
  have starts : startsDeclaration (.ofStream (first.join second) 0) = true := by
    apply startsDeclaration_zero
    rwa [TokenStream.token_join_of_lt (by omega)]
  have otherStarts := startsDeclaration_join scanned otherScanned (by omega) otherMark
  have otherRead := Declaration.reads_join_second scanned otherScanned otherAlone.reads otherWithin
  obtain ⟨_, joinedSpans⟩ :=
    Declaration.exists_spans_of_reads ordered (Nat.zero_le _) (by omega) read
  obtain ⟨_, otherJoinedSpans⟩ :=
    Declaration.exists_spans_of_reads ordered (by omega) (by omega) otherRead
  have quiet (index : Nat) (after : first.words.length + otherNext ≤ index) :=
    not_startsDeclaration_join otherScanned otherAlone after
  have movedCarried : macroAttributes registry
      (otherDeclaration.moved (secondBase first.source)).attributes ≠ [] := by
    simpa [macroAttributes_moved] using otherCarried
  -- The steps: the first variable, a semicolon behind it if there is one, and the second variable.
  obtain ⟨limit, limit_eq⟩ : ∃ limit, (first.join second).words.length =
      limit + 1 + (first.words.length - next) + 1 :=
    ⟨next + second.words.length - 2, by omega⟩
  rw [find, limit_eq, findWithin_of_reads ordered starts read joinedSpans property carried,
    findWithin_join scanned alone within,
    findWithin_of_reads ordered otherStarts otherRead otherJoinedSpans otherProperty movedCarried]
  simp only [findWithin_eq_nil ordered quiet, pure_bind, bind_assoc]

end Join

end PeerExpansion
