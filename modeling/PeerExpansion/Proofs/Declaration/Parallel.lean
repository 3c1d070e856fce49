import PeerExpansion.Declaration.Read
import PeerExpansion.Proofs.Reading.Parallel

/-! # Declarations read side by side

Every reader takes the same way through two sources whose tokens are alike, and what it answers is
alike part by part.
-/

namespace PeerExpansion

open Reading

namespace Likeness

variable {source other : List Char} (like : Likeness source other)

structure Arguments (argument twin : Argument) : Prop where
  label_eq : argument.label = twin.label
  expression : like.Texts argument.expression twin.expression
  tokens : List.Forall₂ like.Tokens argument.tokens twin.tokens
  position : like.Positions argument.position twin.position

structure Attributes (attr twin : Attribute) : Prop where
  name_eq : attr.name = twin.name
  arguments : Option.Rel (List.Forall₂ like.Arguments) attr.arguments twin.arguments
  position : like.Positions attr.position twin.position
  stop : like.Stops attr.stop twin.stop

inductive Patterns : Pattern → Pattern → Prop
  | name {text : String} {position twin : Position} : like.Positions position twin →
      Patterns (.name text position) (.name text twin)
  | wildcard {position twin : Position} : like.Positions position twin →
      Patterns (.wildcard position) (.wildcard twin)
  | tuple {elements elementTwins : List Pattern} {text textTwin : String}
      {position twin : Position} : List.Forall₂ Patterns elements elementTwins →
        like.Texts text textTwin → like.Positions position twin →
          Patterns (.tuple elements text position) (.tuple elementTwins textTwin twin)

structure Bindings (binding twin : Binding) : Prop where
  pattern : like.Patterns binding.pattern twin.pattern
  type_eq : binding.type = twin.type
  initializer : Option.Rel like.Texts binding.initializer twin.initializer
  accessors : Option.Rel like.Texts binding.accessors twin.accessors

structure Declarations (declaration twin : Declaration) : Prop where
  kind_eq : declaration.kind = twin.kind
  keyword_eq : declaration.keyword = twin.keyword
  position : like.Positions declaration.position twin.position
  stop : like.Stops declaration.stop twin.stop
  text : like.Texts declaration.text twin.text
  attributes : List.Forall₂ like.Attributes declaration.attributes twin.attributes
  modifiers_eq : declaration.modifiers = twin.modifiers
  bindings : List.Forall₂ like.Bindings declaration.bindings twin.bindings
  name_eq : declaration.name = twin.name

section Maps

variable {α β γ : Type} {Related : α → β → Prop} {change : α → γ} {changeTwin : β → γ}

/-- What is made of each is the same where it is the same for all that are related. -/
theorem map_eq_of_forall₂ {items : List α} {twins : List β} (all : List.Forall₂ Related items twins)
    (each : ∀ item twin, Related item twin → change item = changeTwin twin) :
    items.map change = twins.map changeTwin := by
  induction all with
  | nil => rfl
  | cons related _ inductionHypothesis =>
    rw [List.map_cons, List.map_cons, each _ _ related, inductionHypothesis]

theorem map_eq_of_rel {item : Option α} {twin : Option β} (related : Option.Rel Related item twin)
    (each : ∀ item twin, Related item twin → change item = changeTwin twin) :
    item.map change = twin.map changeTwin := by
  cases related with
  | none => rfl
  | some related => rw [Option.map_some, Option.map_some, each _ _ related]

end Maps

variable {like} {token twin : Token} {tokens twins : List Token}

theorem getLastD (all : List.Forall₂ like.Tokens tokens twins) (alike : like.Tokens token twin) :
    like.Tokens (tokens.getLastD token) (twins.getLastD twin) := by
  induction all generalizing token twin with
  | nil => exact alike
  | cons head _ inductionHypothesis =>
    rw [List.getLastD_cons, List.getLastD_cons]
    exact inductionHypothesis head

theorem map_text_eq (all : List.Forall₂ like.Tokens tokens twins) :
    tokens.map Token.text = twins.map Token.text := by
  induction all with
  | nil => rfl
  | cons alike _ inductionHypothesis =>
    rw [List.map_cons, List.map_cons, like.text_eq alike, inductionHypothesis]

theorem takeWhile_isOneOf (all : List.Forall₂ like.Tokens tokens twins) (texts : List String) :
    List.Forall₂ like.Tokens (tokens.takeWhile (·.isOneOf texts))
      (twins.takeWhile (·.isOneOf texts)) := by
  induction all with
  | nil => exact .nil
  | cons alike _ inductionHypothesis =>
    rw [List.takeWhile_cons, List.takeWhile_cons, isOneOf_eq alike]
    split
    · exact .cons alike inductionHypothesis
    · exact .nil

/-! ## Extents -/

theorem nesting_eq (alike : like.Tokens token twin) :
    Attribute.nesting token = Attribute.nesting twin := by
  rw [Attribute.nesting, Attribute.nesting, isOpening_eq alike, isClosing_eq alike]

theorem argumentLength?_eq (all : List.Forall₂ like.Tokens tokens twins) (depth : Int) :
    Attribute.argumentLength? depth tokens = Attribute.argumentLength? depth twins := by
  induction all generalizing depth with
  | nil => rfl
  | cons alike _ inductionHypothesis =>
    rw [Attribute.argumentLength?, Attribute.argumentLength?, isPunctuation_eq alike,
      isPunctuation_eq alike, nesting_eq alike, inductionHypothesis]

theorem blockLength?_eq (all : List.Forall₂ like.Tokens tokens twins) (depth : Nat) :
    Extent.blockLength? depth tokens = Extent.blockLength? depth twins := by
  induction all generalizing depth with
  | nil => rfl
  | cons alike _ inductionHypothesis =>
    simp only [Extent.blockLength?, isPunctuation_eq alike, inductionHypothesis]

theorem startsNewLine_eq {previous previousTwin : Token}
    (before : like.Tokens previous previousTwin) (alike : like.Tokens token twin) :
    Extent.startsNewLine previous token = Extent.startsNewLine previousTwin twin := by
  rw [Extent.startsNewLine, Extent.startsNewLine, isOneOf_eq before, isOneOf_eq alike,
    decide_eq_decide.mpr (like.line_lt_iff before alike)]

theorem endsExpression_eq (alike : like.Tokens token twin) :
    Extent.endsExpression token = Extent.endsExpression twin := by
  rw [Extent.endsExpression, Extent.endsExpression, isClosing_eq alike, isPunctuation_eq alike,
    isPunctuation_eq alike]

theorem depthBehind_eq (alike : like.Tokens token twin) (depth : Nat) :
    Extent.depthBehind depth token = Extent.depthBehind depth twin := by
  rw [Extent.depthBehind, Extent.depthBehind, isOpening_eq alike, isClosing_eq alike]

theorem expressionLength_eq (all : List.Forall₂ like.Tokens tokens twins)
    (alike : like.Tokens token twin) (depth : Nat) :
    Extent.expressionLength token depth tokens = Extent.expressionLength twin depth twins := by
  induction all generalizing token twin depth with
  | nil => rfl
  | cons head _ inductionHypothesis =>
    rw [Extent.expressionLength, Extent.expressionLength, endsExpression_eq head,
      startsNewLine_eq alike head, depthBehind_eq head, inductionHypothesis head]

theorem endsHeader_eq (alike : like.Tokens token twin) :
    Extent.endsHeader token = Extent.endsHeader twin := by
  rw [Extent.endsHeader, Extent.endsHeader, like.kind_eq alike, isOneOf_eq alike]

theorem touches_eq {previous previousTwin : Token} (before : like.Tokens previous previousTwin)
    (alike : like.Tokens token twin) :
    (previous.stop == token.start) = (previousTwin.stop == twin.start) := by
  simpa only [Bool.beq_eq_decide_eq] using decide_eq_decide.mpr (like.touches_iff before alike)

theorem headerLength_eq (all : List.Forall₂ like.Tokens tokens twins)
    (alike : like.Tokens token twin) (depth angle : Nat) :
    Extent.headerLength token depth angle tokens =
      Extent.headerLength twin depth angle twins := by
  induction all generalizing token twin depth angle with
  | nil => rfl
  | cons head _ inductionHypothesis =>
    simp only [Extent.headerLength, endsHeader_eq head, startsNewLine_eq alike head,
      like.kind_eq head, isOneOf_eq head, isPunctuation_eq head, isIdentifier_eq alike,
      touches_eq alike head, inductionHypothesis head]

end Likeness

variable {source other : List Char} {like : Likeness source other} {begun : Bool}

/-! ## Attributes -/

namespace Attribute

theorem parallel_readLabel : Parallel like begun begun Eq readLabel readLabel := by
  refine parallel_bind parallel_current fun first firstTwin firstAlike => ?_
  refine parallel_bind (parallel_ahead 1) fun second secondTwin secondAlike => ?_
  rw [Likeness.isIdentifier_eq firstAlike, Likeness.isPunctuation_eq secondAlike,
    like.text_eq firstAlike]
  refine parallel_ite Iff.rfl ?_ (parallel_pure rfl)
  exact parallel_bind_eq (parallel_skip 2) fun _ => parallel_pure rfl

theorem parallel_readArgument {clause clauseTwin : Token} :
    Parallel like true true like.Arguments (readArgument clause) (readArgument clauseTwin) := by
  refine parallel_bind parallel_current fun first firstTwin firstAlike => ?_
  refine parallel_bind_eq parallel_readLabel fun label => ?_
  refine parallel_bind parallel_get fun cursor twin cursors => ?_
  rw [← Likeness.argumentLength?_eq cursors.behind]
  split
  · exact parallel_fail _ _ _ _
  next length _ =>
    refine parallel_bind_eq (parallel_skip length) fun _ => ?_
    have rest {text textTwin : String} (alike : like.Texts text textTwin) :
        like.Arguments ⟨label, text, cursor.behind.take length, first.position⟩
          ⟨label, textTwin, twin.behind.take length, firstTwin.position⟩ :=
      ⟨rfl, alike, List.forall₂_take length cursors.behind, like.position firstAlike⟩
    refine parallel_ite Iff.rfl (parallel_pure (rest like.empty)) ?_
    refine parallel_bind (parallel_textSince cursors.current) fun text textTwin alike => ?_
    exact parallel_pure (rest alike)

theorem parallel_readArguments :
    Parallel like true true (List.Forall₂ like.Arguments) readArguments readArguments := by
  refine parallel_bind (parallel_expect (by decide)) fun clause clauseTwin _ => ?_
  refine parallel_bind_eq (parallel_check ")") fun empty => ?_
  refine parallel_ite Iff.rfl ?_ ?_
  · exact parallel_bind_eq (parallel_skip 1) fun _ => parallel_pure .nil
  · refine parallel_bind (parallel_separated parallel_readArgument ",") fun _ _ arguments => ?_
    refine parallel_bind (parallel_expect (by decide)) fun _ _ _ => ?_
    exact parallel_pure arguments

theorem parallel_readMembersWithin (limit : Nat) :
    Parallel like begun begun (List.Forall₂ like.Tokens) (readMembersWithin limit)
      (readMembersWithin limit) := by
  induction limit with
  | zero => exact parallel_pure .nil
  | succ limit inductionHypothesis =>
    refine parallel_bind_eq (parallel_check ".") fun dotted => ?_
    refine parallel_bind (parallel_ahead 1) fun next nextTwin nextAlike => ?_
    rw [Likeness.isIdentifier_eq nextAlike]
    refine parallel_ite Iff.rfl ?_ (parallel_pure .nil)
    refine parallel_bind (parallel_ahead 1) fun member memberTwin memberAlike => ?_
    refine parallel_bind_eq (parallel_skip 2) fun _ => ?_
    refine parallel_bind inductionHypothesis fun members memberTwins all => ?_
    exact parallel_pure (.cons memberAlike all)

theorem parallel_readMembers :
    Parallel like begun begun (List.Forall₂ like.Tokens) readMembers readMembers :=
  parallel_get_bind parallel_readMembersWithin

theorem parallel_read : Parallel like begun true like.Attributes Attribute.read Attribute.read := by
  refine parallel_bind (parallel_expect (by decide)) fun mark markTwin markAlike => ?_
  refine parallel_bind (parallel_expectIdentifier _) fun first firstTwin firstAlike => ?_
  refine parallel_bind parallel_readMembers fun members memberTwins membersAlike => ?_
  refine parallel_bind parallel_current fun next nextTwin nextAlike => ?_
  have last := Likeness.getLastD membersAlike firstAlike
  have name_eq := Likeness.map_text_eq (.cons firstAlike membersAlike)
  have touches := Likeness.touches_eq last nextAlike
  rw [name_eq, Likeness.reads_eq nextAlike, Bool.beq_comm, touches, Bool.beq_comm]
  refine parallel_ite Iff.rfl ?_ ?_
  · refine parallel_bind parallel_readArguments fun arguments argumentTwins alike => ?_
    refine parallel_bind parallel_get fun cursor cursorTwin cursors => ?_
    obtain ⟨finish, finishTwin, previous, previousTwin, finishAlike⟩ := cursors.previous rfl
    rw [previous, previousTwin]
    exact parallel_pure ⟨rfl, .some alike, like.position markAlike, like.stop finishAlike⟩
  · exact parallel_pure ⟨rfl, .none, like.position markAlike, like.stop last⟩

theorem parallel_readAllWithin (limit : Nat) :
    Parallel like begun begun (List.Forall₂ like.Attributes) (readAllWithin limit)
      (readAllWithin limit) := by
  induction limit with
  | zero => exact parallel_pure .nil
  | succ limit inductionHypothesis =>
    refine parallel_bind_eq (parallel_check "@") fun found => ?_
    refine parallel_ite Iff.rfl ?_ (parallel_pure .nil)
    refine parallel_bind (parallel_read.forget begun) fun attr attrTwin alike => ?_
    refine parallel_bind inductionHypothesis fun others otherTwins all => ?_
    exact parallel_pure (.cons alike all)

theorem parallel_readAll :
    Parallel like begun begun (List.Forall₂ like.Attributes) readAll readAll :=
  parallel_get_bind parallel_readAllWithin

end Attribute

/-! ## Patterns -/

namespace Pattern

theorem parallel_readWithin (depth : Nat) :
    Parallel like true true like.Patterns (Pattern.readWithin depth) (Pattern.readWithin depth) := by
  induction depth with
  | zero => exact parallel_missing _ _
  | succ depth inductionHypothesis =>
    refine parallel_bind parallel_current fun first firstTwin alike => ?_
    rw [Likeness.reads_eq alike, Likeness.isIdentifier_eq alike, like.text_eq alike]
    refine parallel_ite Iff.rfl ?_ (parallel_ite Iff.rfl ?_ ?_)
    · refine parallel_bind_eq (parallel_skip 1) fun _ => ?_
      refine parallel_bind (parallel_listed inductionHypothesis ")") fun _ _ elements => ?_
      refine parallel_bind (parallel_expect (by decide)) fun _ _ _ => ?_
      refine parallel_bind (parallel_textSince alike) fun _ _ text => ?_
      exact parallel_pure (.tuple elements text (like.position alike))
    · refine parallel_bind_eq (parallel_skip 1) fun _ => ?_
      exact parallel_pure (.wildcard (like.position alike))
    · refine parallel_bind (parallel_expectIdentifier _) fun _ _ _ => ?_
      exact parallel_pure (.name (like.position alike))

theorem parallel_read : Parallel like true true like.Patterns Pattern.read Pattern.read :=
  parallel_get_bind parallel_readWithin

end Pattern

/-! ## Types -/

namespace TypeExpr

section Parts

variable {type : Reading TypeExpr} (parallel : Parallel like true true Eq type type)

theorem forall₂_eq {α : Type} {fst snd : List α} (all : List.Forall₂ Eq fst snd) : fst = snd :=
  List.forall₂_eq_eq_eq ▸ all

include parallel

theorem parallel_readComposition :
    Parallel like true true Eq (readComposition type) (readComposition type) := by
  refine parallel_bind_eq ((parallel_separated parallel "&").mono fun _ _ => forall₂_eq)
    fun members => ?_
  split <;> exact parallel_pure rfl

theorem parallel_readGenericArguments :
    Parallel like true true Eq (readGenericArguments type) (readGenericArguments type) := by
  refine parallel_bind_eq (parallel_check "<") fun found => ?_
  refine parallel_ite Iff.rfl ?_ (parallel_pure rfl)
  refine parallel_bind_eq (parallel_skip 1) fun _ => ?_
  refine parallel_bind_eq ((parallel_separated parallel ",").mono fun _ _ => forall₂_eq)
    fun arguments => ?_
  exact parallel_bind (parallel_expect (by decide)) fun _ _ _ => parallel_pure rfl

theorem parallel_readPart : Parallel like true true Eq (readPart type) (readPart type) := by
  refine parallel_bind (parallel_expectIdentifier _) fun name nameTwin alike => ?_
  refine parallel_bind_eq (parallel_readGenericArguments parallel) fun arguments => ?_
  rw [like.text_eq alike]
  exact parallel_pure rfl

theorem parallel_readNameWithin (limit : Nat) :
    Parallel like true true Eq (readNameWithin type limit) (readNameWithin type limit) := by
  induction limit with
  | zero =>
    exact parallel_bind_eq (parallel_readPart parallel) fun _ => parallel_pure rfl
  | succ limit inductionHypothesis =>
    refine parallel_bind_eq (parallel_readPart parallel) fun part => ?_
    refine parallel_bind (parallel_ahead 1) fun next nextTwin alike => ?_
    refine parallel_bind_eq (parallel_check ".") fun dotted => ?_
    rw [Likeness.isIdentifier_eq alike, Likeness.isOneOf_eq alike]
    refine parallel_ite Iff.rfl ?_ (parallel_pure rfl)
    refine parallel_bind_eq (parallel_skip 1) fun _ => ?_
    exact parallel_bind_eq inductionHypothesis fun _ => parallel_pure rfl

theorem parallel_readSimple : Parallel like true true Eq (readSimple type) (readSimple type) := by
  refine parallel_bind parallel_get fun cursor twin cursors => ?_
  rw [cursors.remaining_eq]
  exact parallel_bind_eq (parallel_readNameWithin parallel _) fun _ => parallel_pure rfl

theorem parallel_readBracketed :
    Parallel like true true Eq (readBracketed type) (readBracketed type) := by
  refine parallel_bind (parallel_expect (by decide)) fun _ _ _ => ?_
  refine parallel_bind_eq parallel fun element => ?_
  refine parallel_bind_eq (parallel_check ":") fun found => ?_
  refine parallel_ite Iff.rfl ?_ ?_
  · refine parallel_bind_eq (parallel_skip 1) fun _ => ?_
    refine parallel_bind_eq parallel fun value => ?_
    exact parallel_bind (parallel_expect (by decide)) fun _ _ _ => parallel_pure rfl
  · exact parallel_bind (parallel_expect (by decide)) fun _ _ _ => parallel_pure rfl

omit parallel in
theorem parallel_readLabel :
    Parallel like true true Eq TypeExpr.readLabel TypeExpr.readLabel := by
  refine parallel_bind parallel_current fun first firstTwin firstAlike => ?_
  refine parallel_bind (parallel_ahead 1) fun second secondTwin secondAlike => ?_
  refine parallel_bind (parallel_ahead 2) fun third thirdTwin thirdAlike => ?_
  rw [Likeness.isIdentifier_eq firstAlike, Likeness.isIdentifier_eq secondAlike,
    like.text_eq firstAlike, like.text_eq secondAlike, like.text_eq thirdAlike]
  refine parallel_ite Iff.rfl ?_ (parallel_ite Iff.rfl ?_ (parallel_pure rfl))
  · exact parallel_bind_eq (parallel_skip 2) fun _ => parallel_pure rfl
  · exact parallel_bind_eq (parallel_skip 3) fun _ => parallel_pure rfl

theorem parallel_readElement :
    Parallel like true true Eq (readElement type) (readElement type) := by
  refine parallel_bind_eq parallel_readLabel fun label => ?_
  exact parallel_bind_eq parallel fun element => parallel_pure rfl

omit parallel in
theorem parallel_readEffects : Parallel like true true Eq readEffects readEffects := by
  refine parallel_bind parallel_get fun cursor twin cursors => ?_
  have effects := Likeness.takeWhile_isOneOf cursors.behind effectWords
  dsimp only
  rw [effects.length_eq, Likeness.map_text_eq effects]
  exact parallel_bind_eq (parallel_skip _) fun _ => parallel_pure rfl

theorem parallel_readParenthesised :
    Parallel like true true Eq (readParenthesised type) (readParenthesised type) := by
  refine parallel_bind (parallel_expect (by decide)) fun _ _ _ => ?_
  refine parallel_bind_eq ((parallel_listed (parallel_readElement parallel) ")").mono
    fun _ _ => forall₂_eq) fun elements => ?_
  refine parallel_bind (parallel_expect (by decide)) fun _ _ _ => ?_
  refine parallel_bind_eq parallel_readEffects fun effects => ?_
  refine parallel_bind_eq (parallel_check "->") fun arrow => ?_
  refine parallel_ite Iff.rfl ?_ (parallel_ite Iff.rfl ?_ ?_)
  · refine parallel_bind_eq (parallel_skip 1) fun _ => ?_
    exact parallel_bind_eq parallel fun result => parallel_pure rfl
  · refine parallel_bind parallel_current fun token twin _ => ?_
    have refused : Parallel like true true Eq (fail .missingArrow token : Reading Unit)
        (fail .missingArrow twin) := parallel_fail _ _ _ _
    refine parallel_bind_eq refused fun _ => ?_
    split <;> exact parallel_pure rfl
  · split <;> exact parallel_pure rfl

end Parts

theorem parallel_skipOwnershipWithin (limit : Nat) :
    Parallel like true true Eq (skipOwnershipWithin limit) (skipOwnershipWithin limit) := by
  induction limit with
  | zero => exact parallel_pure rfl
  | succ limit inductionHypothesis =>
    refine parallel_bind_eq (parallel_check "@") fun found => ?_
    refine parallel_ite Iff.rfl ?_ ?_
    · exact parallel_bind Attribute.parallel_read fun _ _ _ => inductionHypothesis
    · refine parallel_bind parallel_current fun token twin alike => ?_
      rw [Likeness.isOneOf_eq alike]
      refine parallel_ite Iff.rfl ?_ (parallel_pure rfl)
      exact parallel_bind_eq (parallel_skip 1) fun _ => inductionHypothesis

theorem parallel_skipOwnership :
    Parallel like true true Eq skipOwnership skipOwnership :=
  parallel_get_bind parallel_skipOwnershipWithin

theorem parallel_readPrimary {suffixed : Reading TypeExpr}
    (parallel : Parallel like true true Eq suffixed suffixed) :
    Parallel like true true Eq (readPrimary suffixed) (readPrimary suffixed) := by
  have composition := parallel_readComposition parallel
  refine parallel_bind_eq parallel_skipOwnership fun _ => ?_
  refine parallel_bind parallel_current fun first firstTwin firstAlike => ?_
  refine parallel_bind (parallel_ahead 1) fun second secondTwin secondAlike => ?_
  rw [Likeness.isOneOf_eq firstAlike, Likeness.isIdentifier_eq secondAlike,
    Likeness.reads_eq firstAlike, Likeness.reads_eq firstAlike,
    Likeness.isIdentifier_eq firstAlike, like.text_eq firstAlike]
  refine parallel_ite Iff.rfl ?_ (parallel_ite Iff.rfl ?_ (parallel_ite Iff.rfl ?_
    (parallel_ite Iff.rfl ?_ (parallel_missing _ _))))
  · refine parallel_bind_eq (parallel_skip 1) fun _ => ?_
    exact parallel_bind_eq parallel fun constraint => parallel_pure rfl
  · exact parallel_readParenthesised composition
  · exact parallel_readBracketed composition
  · exact parallel_readSimple composition

theorem parallel_readSuffixesWithin (type : TypeExpr) (limit : Nat) :
    Parallel like true true Eq (readSuffixesWithin type limit) (readSuffixesWithin type limit) := by
  induction limit generalizing type with
  | zero => exact parallel_pure rfl
  | succ limit inductionHypothesis =>
    refine parallel_bind (parallel_ahead 1) fun member memberTwin alike => ?_
    rw [Likeness.isOneOf_eq alike, like.text_eq alike]
    refine parallel_bind_eq (parallel_check "?") fun question => ?_
    refine parallel_ite Iff.rfl ?_ ?_
    · exact parallel_bind_eq (parallel_skip 1) fun _ => inductionHypothesis _
    refine parallel_bind_eq (parallel_check "!") fun exclamation => ?_
    refine parallel_ite Iff.rfl ?_ ?_
    · exact parallel_bind_eq (parallel_skip 1) fun _ => inductionHypothesis _
    refine parallel_bind_eq (parallel_check ".") fun dotted => ?_
    refine parallel_ite Iff.rfl ?_ (parallel_pure rfl)
    exact parallel_bind_eq (parallel_skip 2) fun _ => inductionHypothesis _

theorem parallel_suffixedWithin (depth : Nat) :
    Parallel like true true Eq (suffixedWithin depth) (suffixedWithin depth) := by
  induction depth with
  | zero => exact parallel_missing _ _
  | succ depth inductionHypothesis =>
    refine parallel_bind_eq (parallel_readPrimary inductionHypothesis) fun type => ?_
    exact parallel_get_bind (parallel_readSuffixesWithin type)

theorem parallel_read : Parallel like true true Eq TypeExpr.read TypeExpr.read :=
  parallel_get_bind fun depth => parallel_readComposition (parallel_suffixedWithin depth)

end TypeExpr

/-! ## Declarations -/

namespace Declaration

theorem isModifier_eq {token twin next nextTwin : Token} (alike : like.Tokens token twin)
    (nextAlike : like.Tokens next nextTwin) : isModifier token next = isModifier twin nextTwin := by
  rw [isModifier, isModifier, Likeness.isIdentifier_eq alike, Likeness.isOneOf_eq alike,
    Likeness.isOneOf_eq nextAlike, like.text_eq alike, like.text_eq nextAlike]

theorem parallel_readModifier : Parallel like begun begun Eq readModifier readModifier := by
  refine parallel_bind parallel_advance fun word wordTwin wordAlike => ?_
  refine parallel_bind parallel_current fun next nextTwin nextAlike => ?_
  have touches := Likeness.touches_eq wordAlike nextAlike
  rw [Likeness.reads_eq nextAlike, Bool.beq_comm, touches, Bool.beq_comm, like.text_eq wordAlike]
  refine parallel_ite Iff.rfl ?_ (parallel_pure rfl)
  refine parallel_bind_eq (parallel_skip 1) fun _ => ?_
  refine parallel_bind (parallel_expectIdentifier _) fun detail detailTwin detailAlike => ?_
  refine parallel_bind ((parallel_expect (by decide)).forget begun) fun _ _ _ => ?_
  rw [like.text_eq detailAlike]
  exact parallel_pure rfl

theorem parallel_readModifiersWithin (limit : Nat) :
    Parallel like begun begun Eq (readModifiersWithin limit) (readModifiersWithin limit) := by
  induction limit with
  | zero => exact parallel_pure rfl
  | succ limit inductionHypothesis =>
    refine parallel_bind parallel_current fun first firstTwin firstAlike => ?_
    refine parallel_bind (parallel_ahead 1) fun second secondTwin secondAlike => ?_
    rw [isModifier_eq firstAlike secondAlike]
    refine parallel_ite Iff.rfl ?_ (parallel_pure rfl)
    refine parallel_bind_eq parallel_readModifier fun modifier => ?_
    exact parallel_bind_eq inductionHypothesis fun others => parallel_pure rfl

theorem parallel_readModifiers : Parallel like begun begun Eq readModifiers readModifiers :=
  parallel_get_bind parallel_readModifiersWithin

theorem parallel_readBlock : Parallel like true true like.Texts readBlock readBlock := by
  refine parallel_bind (parallel_expect (by decide)) fun brace braceTwin alike => ?_
  refine parallel_bind parallel_get fun cursor twin cursors => ?_
  rw [← Likeness.blockLength?_eq cursors.behind]
  split
  · exact parallel_fail _ _ _ _
  · exact parallel_bind_eq (parallel_skip _) fun _ => parallel_textSince alike

theorem parallel_readInitializer :
    Parallel like true true like.Texts readInitializer readInitializer := by
  refine parallel_bind parallel_current fun first firstTwin alike => ?_
  have rest : Parallel like true true like.Texts
      (do
        skip 1
        skip (Extent.expressionLength first (Extent.depthBehind 0 first) (← get).behind)
        textSince first)
      (do
        skip 1
        skip (Extent.expressionLength firstTwin (Extent.depthBehind 0 firstTwin) (← get).behind)
        textSince firstTwin) := by
    refine parallel_bind_eq (parallel_skip 1) fun _ => ?_
    refine parallel_bind parallel_get fun cursor twin cursors => ?_
    rw [Likeness.depthBehind_eq alike, Likeness.expressionLength_eq cursors.behind alike]
    exact parallel_bind_eq (parallel_skip _) fun _ => parallel_textSince alike
  rw [like.kind_eq alike, Likeness.endsExpression_eq alike]
  refine parallel_ite Iff.rfl ?_ rest
  exact parallel_bind_eq (parallel_fail _ _ _ _) fun _ => rest

theorem parallel_readType? : Parallel like true true Eq readType? readType? := by
  refine parallel_bind_eq (parallel_check ":") fun found => ?_
  refine parallel_ite Iff.rfl ?_ (parallel_pure rfl)
  refine parallel_bind_eq (parallel_skip 1) fun _ => ?_
  exact parallel_bind_eq TypeExpr.parallel_read fun type => parallel_pure rfl

theorem parallel_readInitializer? :
    Parallel like true true (Option.Rel like.Texts) readInitializer? readInitializer? := by
  refine parallel_bind_eq (parallel_check "=") fun found => ?_
  refine parallel_ite Iff.rfl ?_ (parallel_pure .none)
  refine parallel_bind_eq (parallel_skip 1) fun _ => ?_
  exact parallel_bind parallel_readInitializer fun _ _ alike => parallel_pure (.some alike)

theorem parallel_readAccessors? :
    Parallel like true true (Option.Rel like.Texts) readAccessors? readAccessors? := by
  refine parallel_bind_eq (parallel_check _) fun found => ?_
  refine parallel_ite Iff.rfl ?_ (parallel_pure .none)
  exact parallel_bind parallel_readBlock fun _ _ alike => parallel_pure (.some alike)

theorem parallel_readBinding :
    Parallel like true true like.Bindings readBinding readBinding := by
  refine parallel_bind Pattern.parallel_read fun pattern patternTwin patternAlike => ?_
  refine parallel_bind_eq parallel_readType? fun type => ?_
  refine parallel_bind parallel_readInitializer? fun initializer initializerTwin initialized => ?_
  refine parallel_bind parallel_readAccessors? fun accessors accessorTwins accessed => ?_
  exact parallel_pure ⟨patternAlike, rfl, initialized, accessed⟩

theorem parallel_readBody {keyword twin : Token} (alike : like.Tokens keyword twin) :
    Parallel like true true Eq (readBody keyword) (readBody twin) := by
  refine parallel_bind parallel_current fun first firstTwin firstAlike => ?_
  refine parallel_bind parallel_get fun cursor cursorTwin cursors => ?_
  rw [Likeness.headerLength_eq cursors.behind alike, Likeness.isIdentifier_eq firstAlike,
    like.text_eq firstAlike]
  refine parallel_bind_eq (parallel_skip _) fun _ => ?_
  refine parallel_bind parallel_current fun next nextTwin nextAlike => ?_
  rw [Likeness.isPunctuation_eq nextAlike]
  refine parallel_ite Iff.rfl ?_ (parallel_pure rfl)
  exact parallel_bind parallel_readBlock fun _ _ _ => parallel_pure rfl

theorem parallel_readKeyword :
    Parallel like begun true (fun found twin => like.Tokens found.1 twin.1 ∧ found.2 = twin.2)
      readKeyword readKeyword := by
  intro cursor twin cursors
  rw [readKeyword, run_current_bind, run_current_bind, ← like.text_eq cursors.current,
    ← Likeness.isIdentifier_eq cursors.current]
  split
  next kind _ =>
    by_cases identifier : cursor.current.isIdentifier = true
    · rw [if_pos identifier, if_pos identifier]
      have passed := cursors.pass (cursors.ends.remaining_pos_of_isIdentifier identifier)
      exact ⟨⟨cursors.current, rfl⟩, passed⟩
    · rw [if_neg identifier, if_neg identifier]
      exact parallel_missing _ _ cursor twin cursors
  next => exact parallel_missing _ _ cursor twin cursors

/-- A declaration is read alike in both sources. -/
theorem parallel_read :
    Parallel like begun true like.Declarations Declaration.read Declaration.read := by
  refine parallel_bind parallel_current fun first firstTwin firstAlike => ?_
  refine parallel_bind Attribute.parallel_readAll fun attributes attributeTwins attributed => ?_
  refine parallel_bind_eq parallel_readModifiers fun modifiers => ?_
  refine parallel_bind parallel_readKeyword ?_
  rintro ⟨keyword, kind⟩ ⟨keywordTwin, _⟩ ⟨keywordAlike, rfl⟩
  have close {bindings bindingTwins : List Binding} (name : Option String)
      (bound : List.Forall₂ like.Bindings bindings bindingTwins) :
      Parallel like true true like.Declarations
        (do
          let stop := ((← get).previous?.map Token.stop).getD first.start
          return ⟨kind, keyword.text, first.position, stop, ← textSince first, attributes, modifiers,
            bindings, name⟩)
        (do
          let stop := ((← get).previous?.map Token.stop).getD firstTwin.start
          return ⟨kind, keywordTwin.text, firstTwin.position, stop, ← textSince firstTwin,
            attributeTwins, modifiers, bindingTwins, name⟩) := by
    refine parallel_bind parallel_get fun cursor twin cursors => ?_
    obtain ⟨last, lastTwin, previous, previousTwin, lastAlike⟩ := cursors.previous rfl
    rw [previous, previousTwin]
    refine parallel_bind (parallel_textSince firstAlike) fun text textTwin textAlike => ?_
    exact parallel_pure ⟨rfl, like.text_eq keywordAlike, like.position firstAlike,
      like.stop lastAlike, textAlike, attributed, rfl, bound, rfl⟩
  by_cases property : kind = .property
  · simp only [property, reduceIte]
    refine parallel_bind (parallel_separated parallel_readBinding ",") fun _ _ bound => ?_
    exact property ▸ close none bound
  · simp only [property, reduceIte, pure_bind]
    exact parallel_bind_eq (parallel_readBody keywordAlike) fun name => close name .nil

end Declaration

end PeerExpansion
