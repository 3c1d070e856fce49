import PeerExpansion.Proofs.Declaration.Boundary
import PeerExpansion.Proofs.Outcome
import PeerExpansion.Proofs.Reading.Loops
import PeerExpansion.Proofs.Reading.Sound

/-! # Where the parts of a declaration stand

Argument expressions, initializers and accessor blocks are kept as texts. Each is the text of some
tokens of the declaration, and they stand in the order of the source. `Gathers` says of a reading
which texts stand in front of where it ends; a reading inherits this from those it is made of.
-/

namespace PeerExpansion

open Reading

theorem Text.slice_slice (text : List Char) {start first last stop : Nat} (before : start ≤ first)
    (behind : last ≤ stop) :
    slice (slice text start stop) (first - start) (last - start) = slice text first last := by
  rw [slice, slice, slice, List.drop_take, List.drop_drop, List.take_take,
    Nat.add_sub_cancel' before]
  congr 1
  omega

/-! ## Texts one behind another -/

/-- Texts of tokens from one index on and up to another, none of which begins before the one in
front of it ends. `cut` is the text of the tokens from an index up to, but without, another. -/
inductive Excerpts (cut : Nat → Nat → List Char) : Nat → List String → Nat → Prop
  | nil {start stop : Nat} : start ≤ stop → Excerpts cut start [] stop
  | cons {start first next stop : Nat} {text : String} {others : List String} :
      start ≤ first → first ≤ next → text.toList = cut first next →
        Excerpts cut next others stop → Excerpts cut start (text :: others) stop

namespace Excerpts

variable {cut : Nat → Nat → List Char} {start middle stop : Nat} {texts others : List String}

theorem start_le (excerpts : Excerpts cut start texts stop) : start ≤ stop := by
  induction excerpts with
  | nil order => exact order
  | cons before order _ _ inductionHypothesis =>
    exact Nat.le_trans before (Nat.le_trans order inductionHypothesis)

theorem mono (excerpts : Excerpts cut start texts middle) (behind : middle ≤ stop) :
    Excerpts cut start texts stop := by
  induction excerpts with
  | nil order => exact .nil (Nat.le_trans order behind)
  | cons before order text_eq _ inductionHypothesis =>
    exact .cons before order text_eq (inductionHypothesis behind)

theorem append (excerpts : Excerpts cut start texts middle)
    (behind : Excerpts cut middle others stop) : Excerpts cut start (texts ++ others) stop := by
  induction excerpts with
  | nil order =>
    cases behind with
    | nil behind => exact .nil (Nat.le_trans order behind)
    | cons before inside text_eq later =>
      exact .cons (Nat.le_trans order before) inside text_eq later
  | cons before order text_eq _ inductionHypothesis =>
    exact .cons before order text_eq (inductionHypothesis behind)

/-- It is enough to cut alike between the ends. -/
theorem congr {other : Nat → Nat → List Char} (excerpts : Excerpts cut start texts stop)
    (same : ∀ first next, start ≤ first → first ≤ next → next ≤ stop →
      cut first next = other first next) : Excerpts other start texts stop := by
  induction excerpts with
  | nil order => exact .nil order
  | cons before order text_eq later inductionHypothesis =>
    refine .cons before order (text_eq.trans (same _ _ before order later.start_le))
      (inductionHypothesis fun first next behind => same first next ?_)
    omega

end Excerpts

/-! ## What readings gather -/

namespace Reading

variable {α β : Type} {stream : TokenStream} {done : List String}

/-- The reading stays in the stream. When the texts `done` stand in front of where it begins, those
of its answer stand in front of where it ends. -/
def Gathers (stream : TokenStream) (done : List String) (reading : Reading α)
    (texts : α → List String) : Prop :=
  ∀ start index value last, Excerpts stream.textOf start done index →
    index ≤ stream.words.length → Reads reading (.ofStream stream index) value last →
      ∃ next, last = .ofStream stream next ∧ next ≤ stream.words.length ∧
        Excerpts stream.textOf start (texts value) next

theorem gathers_pure {value : α} {texts : α → List String} (same : texts value = done) :
    Gathers stream done (pure value) texts := by
  intro start index other last before inside read
  obtain ⟨rfl, rfl⟩ := reads_pure.mp read
  exact ⟨index, rfl, inside, same ▸ before⟩

theorem gathers_bind {reading : Reading α} {next : α → Reading β} {texts : α → List String}
    {others : β → List String} (front : Gathers stream done reading texts)
    (back : ∀ given, Gathers stream (texts given) (next given) others) :
    Gathers stream done (reading >>= next) others := by
  intro start index value last before inside read
  obtain ⟨given, _, frontRead, backRead⟩ := reads_bind.mp read
  obtain ⟨middle, rfl, within, gathered⟩ := front _ _ _ _ before inside frontRead
  exact back given _ _ _ _ gathered within backRead

theorem gathers_of_forward {reading : Reading α} (forward : Forward reading) :
    Gathers stream done reading fun _ => done := by
  intro start index value last before inside read
  obtain ⟨next, behind, within, rfl⟩ := (forward _ _ _ read).exists_index inside
  exact ⟨next, rfl, within, before.mono behind⟩

/-- What a reading gathers stands behind what was there before. -/
theorem Gathers.behind {reading : Reading α} {texts : α → List String}
    (gathers : Gathers stream [] reading texts) :
    Gathers stream done reading fun value => done ++ texts value := by
  intro start index value last before inside read
  obtain ⟨next, rfl, within, gathered⟩ :=
    gathers index index value last (.nil (Nat.le_refl _)) inside read
  exact ⟨next, rfl, within, before.append gathered⟩

theorem gathers_forward_bind {reading : Reading α} {next : α → Reading β}
    {texts : β → List String} (forward : Forward reading)
    (back : ∀ given, Gathers stream done (next given) texts) :
    Gathers stream done (reading >>= next) texts :=
  gathers_bind (gathers_of_forward forward) back

theorem gathers_separatedWithin {separator : String} {item : Reading α} {texts : α → List String}
    (gathers : Gathers stream [] item texts) (limit : Nat) :
    Gathers stream [] (separatedWithin separator item limit) (·.flatMap texts) := by
  induction limit with
  | zero => exact gathers_bind gathers fun first => gathers_pure (by simp)
  | succ limit inductionHypothesis =>
    refine gathers_bind gathers fun first => ?_
    refine gathers_forward_bind (forward_check _) fun found => ?_
    split
    · refine gathers_forward_bind forward_advance fun _ => ?_
      exact gathers_bind inductionHypothesis.behind fun others => gathers_pure (by simp)
    · exact gathers_pure (by simp)

theorem gathers_separated {separator : String} {item : Reading α} {texts : α → List String}
    (gathers : Gathers stream [] item texts) :
    Gathers stream [] (separated separator item) (·.flatMap texts) :=
  gathers_forward_bind forward_get fun _ => gathers_separatedWithin gathers _

end Reading

/-! ## Attributes -/

namespace Attribute

variable {stream : TokenStream}

/-- The texts of the arguments. -/
def expressions (attr : Attribute) : List String :=
  (attr.arguments.getD []).map Argument.expression

theorem gathers_readArgument (clause : Token) :
    Gathers stream [] (readArgument clause) fun argument => [argument.expression] := by
  refine gathers_forward_bind forward_current fun first => ?_
  refine gathers_forward_bind forward_readLabel fun label => ?_
  intro start index argument last before inside read
  rw [Reads, run_get_bind] at read
  split at read
  next => exact (reads_fail read).elim
  next length found =>
    have length_le := argumentLength?_le found
    rw [show (Cursor.ofStream stream index).behind.length = _ from Cursor.remaining_ofStream]
      at length_le
    have moved : Reads (do
        skip length
        let expression ← if length = 0 then pure "" else
          textSince (Cursor.ofStream stream index).current
        return ⟨label, expression, (Cursor.ofStream stream index).behind.take length,
          first.position⟩) (.ofStream stream index) argument last := read
    simp only [reads_bind, reads_skip, reads_ite, reads_pure, reads_textSince, and_assoc,
      exists_and_left, exists_eq_left, exists_const, Cursor.skip_ofStream,
      Cursor.current_ofStream] at moved
    -- An argument without tokens is the empty text.
    obtain ⟨none, rfl, rfl⟩ | ⟨some, rfl, rfl⟩ := moved
    · refine ⟨index + length, rfl, by omega, ?_⟩
      refine .cons before.start_le (Nat.le_add_right _ _) ?_ (.nil (Nat.le_refl _))
      rw [TokenStream.textOf, if_neg (by omega)]
      exact String.toList_empty
    · refine ⟨index + length, rfl, by omega, ?_⟩
      refine .cons before.start_le (Nat.le_add_right _ _) ?_ (.nil (Nat.le_refl _))
      exact Cursor.textSince_ofStream (by omega) (by omega)

theorem gathers_readArguments :
    Gathers stream [] readArguments (·.map Argument.expression) := by
  refine gathers_forward_bind (forward_expect _) fun clause => ?_
  refine gathers_forward_bind (forward_check _) fun closed => ?_
  split
  · exact gathers_forward_bind (forward_skip _) fun _ => gathers_pure rfl
  · refine gathers_bind (gathers_separated (gathers_readArgument clause)) fun arguments => ?_
    refine gathers_forward_bind (forward_expect _) fun _ => gathers_pure ?_
    exact List.map_eq_flatMap

theorem gathers_read : Gathers stream [] Attribute.read expressions := by
  refine gathers_forward_bind (forward_expect _) fun mark => ?_
  refine gathers_forward_bind (forward_expectIdentifier _) fun first => ?_
  refine gathers_forward_bind forward_readMembers fun members => ?_
  refine gathers_forward_bind forward_current fun next => ?_
  split
  · refine gathers_bind gathers_readArguments fun arguments => ?_
    exact gathers_forward_bind forward_get fun _ => gathers_pure rfl
  · exact gathers_pure rfl

theorem gathers_readAllWithin (limit : Nat) :
    Gathers stream [] (readAllWithin limit) (·.flatMap expressions) := by
  induction limit with
  | zero => exact gathers_pure rfl
  | succ limit inductionHypothesis =>
    refine gathers_forward_bind (forward_check _) fun found => ?_
    split
    · refine gathers_bind gathers_read fun attr => ?_
      exact gathers_bind inductionHypothesis.behind fun others => gathers_pure List.flatMap_cons
    · exact gathers_pure rfl

theorem gathers_readAll : Gathers stream [] readAll (·.flatMap expressions) :=
  gathers_forward_bind forward_get fun _ => gathers_readAllWithin _

end Attribute

/-! ## Bindings -/

/-- The texts of an initializer and an accessor block. -/
def Binding.parts (binding : Binding) : List String :=
  binding.initializer.toList ++ binding.accessors.toList

namespace Declaration

variable {stream : TokenStream}

theorem gathers_readBlock : Gathers stream [] readBlock ([·]) := by
  intro start index text last before inside read
  simp only [readBlock, reads_bind, reads_expect, reads_get, and_assoc, exists_and_left,
    exists_eq_left, Cursor.skip_ofStream, Cursor.current_ofStream] at read
  obtain ⟨opens, read⟩ := read
  split at read
  next => exact (reads_fail read).elim
  next length found =>
    have length_le := (blockLength?_le found).2
    rw [show (Cursor.ofStream stream (index + 1)).behind.length = _ from Cursor.remaining_ofStream]
      at length_le
    have some := (blockLength?_le found).1
    simp only [reads_bind, reads_skip, reads_textSince, exists_eq_left, exists_const,
      Cursor.skip_ofStream] at read
    obtain ⟨rfl, rfl⟩ := read
    refine ⟨index + 1 + length, rfl, by omega, ?_⟩
    refine .cons before.start_le (by omega) ?_ (.nil (Nat.le_refl _))
    exact Cursor.textSince_ofStream (by omega) (by omega)

theorem gathers_readInitializer (ordered : stream.Ordered) :
    Gathers stream [] readInitializer ([·]) := by
  intro start index text last before inside read
  obtain ⟨starts, rfl, rfl⟩ := reads_readInitializer.mp read
  rw [Cursor.current_ofStream] at starts ⊢
  have some : index < stream.words.length := by
    apply ordered.lt_length_of_kind_ne
    intro ends
    simp [ends] at starts
  have length_le := expressionLength_le (stream.token index)
    (Extent.depthBehind 0 (stream.token index)) ((Cursor.ofStream stream index).skip 1).behind
  rw [show ((Cursor.ofStream stream index).skip 1).behind.length = _ from
    Cursor.remaining_skip _ _, Cursor.remaining_ofStream] at length_le
  rw [Cursor.skip_ofStream]
  refine ⟨_, rfl, by omega, ?_⟩
  refine .cons before.start_le (by omega) ?_ (.nil (Nat.le_refl _))
  exact Cursor.textSince_ofStream (by omega) (by omega)

theorem gathers_readInitializer? (ordered : stream.Ordered) :
    Gathers stream [] readInitializer? Option.toList := by
  refine gathers_forward_bind (forward_check _) fun found => ?_
  split
  · refine gathers_forward_bind (forward_skip _) fun _ => ?_
    exact gathers_bind (gathers_readInitializer ordered) fun text => gathers_pure rfl
  · exact gathers_pure rfl

theorem gathers_readAccessors? : Gathers stream [] readAccessors? Option.toList := by
  refine gathers_forward_bind (forward_check _) fun found => ?_
  split
  · exact gathers_bind gathers_readBlock fun block => gathers_pure rfl
  · exact gathers_pure rfl

theorem gathers_readBinding (ordered : stream.Ordered) :
    Gathers stream [] readBinding Binding.parts := by
  refine gathers_forward_bind Pattern.forward_read fun pattern => ?_
  refine gathers_forward_bind forward_readType? fun type => ?_
  refine gathers_bind (gathers_readInitializer? ordered) fun initializer => ?_
  exact gathers_bind gathers_readAccessors?.behind fun accessors => gathers_pure rfl

/-- All that a declaration keeps as a text: what stands in the arguments of its attributes and, in
a variable, the initializers and accessor blocks. -/
def parts (declaration : Declaration) : List String :=
  declaration.attributes.flatMap Attribute.expressions ++ declaration.bindings.flatMap Binding.parts

theorem gathers_read (ordered : stream.Ordered) :
    Gathers stream [] Declaration.read parts := by
  refine gathers_forward_bind forward_current fun first => ?_
  refine gathers_bind Attribute.gathers_readAll fun attributes => ?_
  refine gathers_forward_bind forward_readModifiers fun modifiers => ?_
  refine gathers_forward_bind forward_readKeyword fun (keyword, kind) => ?_
  -- Only a variable has bindings. What follows the keyword of the others is passed over.
  by_cases property : kind = .property
  · simp only [property, reduceIte, pure_bind]
    refine gathers_bind (gathers_separated (gathers_readBinding ordered)).behind fun bindings => ?_
    refine gathers_forward_bind forward_get fun cursor => ?_
    exact gathers_forward_bind (forward_textSince _) fun text => gathers_pure rfl
  · simp only [property, reduceIte, pure_bind]
    refine gathers_forward_bind (forward_readBody _) fun name => ?_
    refine gathers_forward_bind forward_get fun cursor => ?_
    exact gathers_forward_bind (forward_textSince _) fun text => gathers_pure (List.append_nil _)

/-! ## Declarations as they stand in a source -/

/-- What the text of a declaration says between two tokens of the stream it is read from. -/
def textOf (declaration : Declaration) (stream : TokenStream) (first next : Nat) : List Char :=
  if first < next then
    Text.slice declaration.text.toList ((stream.token first).start - declaration.start)
      ((stream.token (next - 1)).stop - declaration.start)
  else []

/-- A declaration that has the tokens of a source from `index` up to, but without, `next`, and its
text from them. Its attributes stand in a row in front of its keyword, and all that it keeps of
arguments, initializers and accessors is found in its text, one behind the other. -/
structure Faithful (stream : TokenStream) (index next : Nat) (declaration : Declaration) :
    Prop where
  index_lt : index < next
  next_le : next ≤ stream.words.length
  start_eq : declaration.start = (stream.token index).start
  stop_eq : declaration.stop = (stream.token (next - 1)).stop
  text_eq : declaration.text.toList = Text.slice stream.source declaration.start declaration.stop
  attributes : ∃ behind place, Attribute.Row stream index declaration.attributes behind ∧
    behind ≤ place ∧ place < next ∧ declaration.IsKeyword (stream.token place)
  parts : Excerpts (declaration.textOf stream) index declaration.parts next

theorem faithful_of_reads {index : Nat} {last : Cursor} {declaration : Declaration}
    (ordered : stream.Ordered) (inside : index ≤ stream.words.length)
    (read : Reads Declaration.read (.ofStream stream index) declaration last) :
    ∃ next, last = .ofStream stream next ∧ declaration.Faithful stream index next := by
  obtain ⟨behind, place, next, rfl, spans, after, before, keyword⟩ :=
    exists_keyword_of_reads ordered inside read
  obtain ⟨other, same, within, gathered⟩ :=
    gathers_read ordered index index _ _ (.nil (Nat.le_refl _)) inside read
  obtain rfl := Cursor.ofStream_injective spans.next_le within same
  have text_eq := spans.text_eq read
  refine ⟨next, rfl, spans.index_lt, spans.next_le, spans.start_eq, spans.stop_eq, ?_,
    ⟨behind, place, spans.row, after, before, keyword⟩, ?_⟩
  · rw [text_eq, spans.start_eq, spans.stop_eq]
  · -- The texts are those of the source, and the declaration's own text is a part of it.
    refine gathered.congr fun first other behind order within => ?_
    rw [TokenStream.textOf, textOf]
    split
    next some =>
      rw [text_eq, spans.start_eq]
      exact (Text.slice_slice _ (ordered.start_le_start behind)
        (ordered.stop_le_stop (by omega) spans.last_lt)).symm
    next => rfl

/-- Reading a declaration at any token of a source ends for want of words alone: no loop of the
readers runs out of steps. It either complains about a token or moves on and answers what stands
there. -/
theorem fails_or_faithful {source : List Char} (scanned : TokenStream.scan source = .ok stream)
    {index : Nat} (inside : index < stream.words.length) :
    (∀ {α : Type} {loop : Nat → Reading α}, IsLoop loop →
      ∀ place limit, stream.words.length - place ≤ limit →
        (loop limit).run (.ofStream stream place) =
          (loop (stream.words.length - place)).run (.ofStream stream place)) ∧
    ((∃ error, Declaration.read.run (.ofStream stream index) = .error error ∧
        Concerns (· ∈ stream.toList) error) ∨
      ∃ declaration next,
        Declaration.read.run (.ofStream stream index) =
          .ok (declaration, .ofStream stream next) ∧
        declaration.Faithful stream index next) := by
  obtain ⟨-, ordered⟩ := TokenStream.ordered_of_scan scanned
  refine ⟨fun isLoop place limit enough => ?_, ?_⟩
  · rw [← Cursor.remaining_ofStream] at enough ⊢
    exact isLoop.settles.run_eq (ordered.endsEmpty place) enough
  have among : (Cursor.ofStream stream index).Among (· ∈ stream.toList) :=
    among_ofStream (fun _ member => member) index
  have sound := sound_read _ among
  cases ran : Declaration.read.run (.ofStream stream index) with
  | error error =>
    rw [ran] at sound
    exact .inl ⟨error, rfl, sound⟩
  | ok result =>
    obtain ⟨declaration, last⟩ := result
    obtain ⟨next, rfl, faithful⟩ := faithful_of_reads ordered (Nat.le_of_lt inside) ran
    exact .inr ⟨declaration, next, rfl, faithful⟩

/-- A member between others, with texts of every kind. -/
def echoedText : List Char :=
  "struct S { @Echo(a: (1), b) @objc static var x: Int = f(2), y: Int { 3 } }".toList

set_option maxRecDepth 20000 in
theorem fails_or_faithful_echoedText : ∃ stream declaration next,
    TokenStream.scan echoedText = .ok stream ∧ 3 < stream.words.length ∧
      Declaration.read.run (.ofStream stream 3) = .ok (declaration, .ofStream stream next) ∧
      declaration.parts = ["(1)", "b", "f(2)", "{ 3 }"] ∧
      declaration.Faithful stream 3 next := by
  have evaluated : (TokenStream.scan echoedText).toOption.any (fun stream =>
      decide (3 < stream.words.length) &&
        (Declaration.read.run (.ofStream stream 3)).toOption.any fun result =>
          result.1.parts == ["(1)", "b", "f(2)", "{ 3 }"]) = true := by
    decide +kernel
  obtain ⟨stream, scanned, known⟩ := exists_of_any evaluated
  obtain ⟨inside, known⟩ := Bool.and_eq_true_iff.mp known
  have inside := of_decide_eq_true inside
  obtain ⟨⟨declaration, last⟩, read, parts_eq⟩ := exists_of_any known
  obtain ⟨error, failed, -⟩ | ⟨other, next, answered, faithful⟩ :=
    (fails_or_faithful scanned inside).2
  · cases read.symm.trans failed
  · cases read.symm.trans answered
    exact ⟨stream, declaration, next, scanned, inside, read, eq_of_beq parts_eq, faithful⟩

end Declaration

end PeerExpansion
