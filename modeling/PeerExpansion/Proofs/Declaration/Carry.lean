import PeerExpansion.Proofs.Reading.Carry
import PeerExpansion.Proofs.Reading.Loops

/-! # Variables in front of a seam

Every reading that a variable is made of comes to the same in both streams of a seam. Most may go up
to the seam, as nothing that a variable could go on with stands behind it; those that are followed
by a mark or a word anyway leave a word. Only an initializer may go on in the other stream, where it
ends for what stands behind the seam and not in front of it.
-/

namespace PeerExpansion

open Reading

variable {seam : Seam}

namespace Attribute

theorem carries_readLabel : Carries seam 0 0 readLabel := by
  refine carries_branch_two (fun first second => first.isIdentifier && second.isPunctuation ":")
    (fun first _ => do
      skip 2
      return some first.text) (fun _ => rfl) (fun first second stop => ?_)
    (fun first second stop => ?_) ?_ ?_ (carries_pure none)
  · rw [Bool.and_eq_true]
    exact fun asked => stop.not_isIdentifier asked.1
  · rw [Bool.and_eq_true]
    exact fun asked => stop.not_isPunctuation (by decide) (by decide) asked.2
  · exact fun _ _ => passes_skip_bind (forward_pure _)
  · exact fun _ _ => carries_skip_bind (Nat.le_refl _) (carries_pure _)

theorem argumentLength?_le {tokens : List Token} {depth : Int} {length : Nat}
    (found : argumentLength? depth tokens = some length) : length ≤ tokens.length := by
  induction tokens generalizing depth length with
  | nil => cases found
  | cons token tokens inductionHypothesis =>
    rw [argumentLength?] at found
    split at found
    · cases found
      exact Nat.zero_le _
    · obtain ⟨length, later, rfl⟩ := Option.map_eq_some_iff.mp found
      exact Nat.succ_le_succ (inductionHypothesis later)

/-- The end of an argument that is found in front of the seam does not depend on what stands
behind. -/
theorem argumentLength?_append {front rest other : List Token} {depth : Int} {length : Nat}
    (found : argumentLength? depth (front ++ rest) = some length) (inside : length < front.length) :
    argumentLength? depth (front ++ other) = some length := by
  induction front generalizing depth length with
  | nil => cases inside
  | cons token front inductionHypothesis =>
    rw [List.cons_append, argumentLength?] at found ⊢
    split at found
    next ends => rw [if_pos ends, found]
    next further =>
      obtain ⟨length, later, rfl⟩ := Option.map_eq_some_iff.mp found
      rw [if_neg further, inductionHypothesis later (Nat.lt_of_succ_lt_succ inside), Option.map_some]

theorem carries_readArgument (clause : Token) : Carries seam 0 1 (readArgument clause) := by
  have passed (first token : Token) (label : Option String) (tokens : List Token) (length : Nat) :
      Carries seam length 1 (do
        skip length
        let expression ← if length = 0 then pure "" else textSince token
        return (⟨label, expression, tokens, first.position⟩ : Argument)) := by
    refine carries_skip_bind (Nat.le_refl _) ?_
    split
    · exact carries_bind (carries_pure "") fun _ => carries_pure _
    · exact carries_bind (carries_textSince token) fun _ => carries_pure _
  refine .of_spare (carries_current_bind Nat.one_pos fun first => ?_)
  refine carries_bind (carries_readLabel.relax) fun label => ?_
  refine ⟨?_, fun index value next enough left read => ?_⟩
  · refine forward_bind forward_get fun cursor => ?_
    split
    · exact forward_fail _ _
    · exact (passed ..).forward
  · have within := seam.within
    rw [Reads, run_get_bind] at read ⊢
    cases found : argumentLength? 0 (seam.cursor index).behind with
    | none =>
      rw [found] at read
      exact (reads_fail read).elim
    | some length =>
      rw [found] at read
      -- What is left to be read says that the argument ends in front of the seam.
      have moved :=
        passes_skip_bind (by grind) _ _ _ (seam.ends index) (argumentLength?_le found) read
      rw [seam.remaining_cursor, seam.remaining_cursor] at moved
      have front := seam.length_front index
      have current_eq : (seam.twin index).current = (seam.cursor index).current := by
        rw [Cursor.current, Cursor.current, seam.ahead_twin, seam.ahead_cursor,
          seam.token_eq (by omega)]
      rw [current_eq, seam.behind_twin (by omega)]
      rw [seam.behind_cursor (by omega)] at found read
      rw [argumentLength?_append found (by omega)]
      simp only [List.take_append_of_le_length (show length ≤ (seam.front index).length by omega)]
        at read ⊢
      exact (passed ..).reads index value next (by omega) left read

theorem costs_readArguments : Costs readArguments :=
  costs_bind (costs_expect (by decide)) fun clause => by grind

theorem carries_readArguments : Carries seam 0 0 readArguments := by
  refine carries_bind (carries_expect (by decide)) fun clause => ?_
  refine carries_check (by decide) (by decide) (passes_skip_bind (forward_pure _))
    (carries_skip_bind (Nat.le_refl _) (carries_pure _)) ?_
  exact carries_bind_expect (by decide)
    (carries_separated (carries_readArgument clause) (by decide) (by decide))
    fun _ _ => carries_pure _

theorem carries_readMembersWithin (limit : Nat) : Carries seam 0 0 (readMembersWithin limit) := by
  induction limit with
  | zero => exact carries_pure _
  | succ limit inductionHypothesis =>
    refine carries_branch_two (fun point member => point.reads "." && member.isIdentifier)
      (fun _ _ => do
        let member ← Reading.ahead 1
        skip 2
        let members ← readMembersWithin limit
        return member :: members) (fun _ => rfl) (fun point member stop => ?_)
      (fun point member stop => ?_) ?_ ?_ (carries_pure [])
    · rw [Bool.and_eq_true]
      exact fun asked => stop.not_reads (by decide) (by decide) asked.1
    · rw [Bool.and_eq_true]
      exact fun asked => stop.not_isIdentifier asked.2
    · exact fun _ _ => passes_ahead_bind fun member => passes_skip_bind
        (forward_bind (forward_readMembersWithin limit) fun _ => forward_pure _)
    · refine fun _ _ => carries_ahead_bind Nat.one_lt_two fun member => ?_
      refine carries_skip_bind (Nat.le_refl _) ?_
      exact carries_bind inductionHypothesis fun _ => carries_pure _

theorem carries_readMembers : Carries seam 0 0 readMembers :=
  carries_get_bind settles_readMembersWithin carries_readMembersWithin

theorem carries_read : Carries seam 0 0 Attribute.read := by
  refine carries_bind (carries_expect (by decide)) fun mark => ?_
  refine carries_bind (carries_expectIdentifier _) fun first => ?_
  refine carries_bind carries_readMembers fun members => ?_
  have clause : Carries seam 0 0 (do
      let arguments ← readArguments
      let stop := ((← get).previous?.map Token.stop).getD (members.getLastD first).stop
      return (⟨String.intercalate "." ((first :: members).map Token.text), some arguments,
        mark.position, stop⟩ : Attribute)) := by
    refine carries_bind carries_readArguments fun arguments => ?_
    refine carries_previous_bind (fun previous => pure (⟨_, some arguments, mark.position,
      (previous.map Token.stop).getD (members.getLastD first).stop⟩ : Attribute)) fun _ => ?_
    exact carries_pure _
  refine carries_branch_one
    (fun opening => opening.reads "(" && opening.start == (members.getLastD first).stop)
    (fun _ => _) (fun _ => rfl) (fun opening stop => ?_) (fun _ => passes_of_costs ?_)
    (fun _ => clause.relax) (carries_pure _)
  · rw [Bool.and_eq_true]
    exact fun asked => stop.not_reads (by decide) (by decide) asked.1
  · exact costs_bind costs_readArguments fun _ => by grind

/-- A variable has a keyword behind its attributes, so one word is left. -/
theorem carries_readAllWithin (limit : Nat) : Carries seam 0 1 (readAllWithin limit) := by
  induction limit with
  | zero => exact carries_pure _
  | succ limit inductionHypothesis =>
    refine .of_spare (carries_check_bind Nat.one_pos fun found => ?_)
    split
    · refine carries_bind (carries_read.relax) fun attr => ?_
      exact carries_bind inductionHypothesis fun _ => carries_pure _
    · exact carries_pure _

theorem carries_readAll : Carries seam 0 1 readAll :=
  carries_get_bind settles_readAllWithin carries_readAllWithin

end Attribute

namespace Pattern

theorem costs_readWithin (depth : Nat) : Costs (readWithin depth) := by
  cases depth with
  | zero => exact fun _ _ _ _ read => (reads_missing read).elim
  | succ depth =>
    intro first value last ends read
    rw [Reads, readWithin, run_current_bind] at read
    split at read
    next seen =>
      exact (passes_skip_bind (by grind)).lt ends (ends.remaining_pos_of_reads (by decide) seen) read
    next =>
      split at read
      next seen =>
        have some := ends.remaining_pos_of_isIdentifier (Bool.and_eq_true_iff.mp seen).1
        exact (passes_skip_bind (by grind)).lt ends some read
      next =>
        exact costs_bind (costs_expectIdentifier _) (fun _ => forward_pure _) _ _ _ ends read

theorem carries_readWithin (depth : Nat) : Carries seam 0 0 (readWithin depth) := by
  induction depth with
  | zero => exact carries_missing _
  | succ depth inductionHypothesis =>
    refine .of_costs (costs_readWithin _) (carries_current_bind (Nat.succ_pos _) fun first => ?_)
    split
    · refine carries_skip_bind (Nat.succ_pos _) ?_
      have elements : Carries seam 0 1 (listed ")" (readWithin depth)) :=
        carries_listed inductionHypothesis.relax
      refine carries_bind_expect (by decide) elements fun elements _ => ?_
      exact carries_bind (carries_textSince _) fun _ => carries_pure _
    · split
      · exact carries_skip_bind (Nat.succ_pos _) (carries_pure _)
      · refine carries_bind ?_ fun _ => carries_pure _
        exact (carries_expectIdentifier _).relax

theorem carries_read : Carries seam 0 0 Pattern.read :=
  carries_get_bind settles_readWithin carries_readWithin

end Pattern

namespace TypeExpr

section Parts

variable {type suffixed : Reading TypeExpr}

theorem carries_readComposition (carries : Carries seam 0 0 suffixed) :
    Carries seam 0 0 (readComposition suffixed) := by
  refine carries_bind (carries_separated carries (by decide) (by decide)) fun types => ?_
  split <;> exact carries_pure _

variable (carries : Carries seam 0 0 type)
include carries

theorem carries_readGenericArguments : Carries seam 0 0 (readGenericArguments type) := by
  have forward := carries.forward
  refine carries_check (by decide) (by decide) (passes_skip_bind (by grind)) ?_ (carries_pure _)
  refine carries_skip_bind (Nat.le_refl _) ?_
  refine carries_bind (carries_separated carries (by decide) (by decide)) fun arguments => ?_
  exact carries_bind (carries_expect (by decide)) fun _ => carries_pure _

theorem carries_readPart : Carries seam 0 0 (readPart type) := by
  refine carries_bind (carries_expectIdentifier _) fun name => ?_
  exact carries_bind (carries_readGenericArguments carries) fun arguments => carries_pure _

omit carries in
theorem costs_readNameWithin (forward : Forward type) (limit : Nat) :
    Costs (readNameWithin type limit) := by
  have part : Costs (readPart type) := costs_bind (costs_expectIdentifier _) fun _ => by grind
  cases limit with
  | zero => exact costs_bind part fun _ => forward_pure _
  | succ limit => exact costs_bind part fun _ => by grind

theorem carries_readNameWithin (limit : Nat) : Carries seam 0 0 (readNameWithin type limit) := by
  have forward := carries.forward
  induction limit with
  | zero => exact carries_bind (carries_readPart carries) fun part => carries_pure _
  | succ limit inductionHypothesis =>
    refine carries_bind (carries_readPart carries) ?_
    rintro ⟨part, arguments⟩
    refine carries_branch_two
      (fun point name => point.reads "." && name.isIdentifier && !name.isOneOf metatypes)
      (fun _ _ => do
        skip 1
        let others ← readNameWithin type limit
        return (part :: others.1, others.2)) (fun _ => rfl) (fun point name stop => ?_)
      (fun point name stop => ?_) ?_ ?_ (carries_pure _)
    · simp only [Bool.and_eq_true]
      exact fun asked => stop.not_reads (by decide) (by decide) asked.1.1
    · simp only [Bool.and_eq_true]
      exact fun asked => stop.not_isIdentifier asked.1.2
    · exact fun _ _ => passes_skip_bind_of_costs
        (costs_bind (costs_readNameWithin forward limit) fun _ => forward_pure _)
    · refine fun _ _ => carries_skip_bind (Nat.le_succ 1) ?_
      refine carries_bind ?_ fun _ => carries_pure _
      exact inductionHypothesis.relax

theorem carries_readSimple : Carries seam 0 0 (readSimple type) := by
  have names : Carries seam 0 0 (do readNameWithin type (← get).remaining) :=
    carries_get_bind (settles_readNameWithin carries.forward) (carries_readNameWithin carries)
  have simple_eq : readSimple type = (do readNameWithin type (← get).remaining) >>= fun found =>
      pure (simple (String.intercalate "." found.1) found.2) := by
    rw [bind_assoc]
    rfl
  rw [simple_eq]
  exact carries_bind names fun found => carries_pure _

theorem carries_readBracketed : Carries seam 0 0 (readBracketed type) := by
  have forward := carries.forward
  refine carries_bind (carries_expect (by decide)) fun _ => carries_bind carries fun element => ?_
  refine carries_check (by decide) (by decide) (passes_skip_bind (by grind)) ?_ ?_
  · refine carries_skip_bind (Nat.le_refl _) (carries_bind carries fun value => ?_)
    exact carries_bind (carries_expect (by decide)) fun _ => carries_pure _
  · exact carries_bind (carries_expect (by decide)) fun _ => carries_pure _

omit carries in
theorem carries_readLabel : Carries seam 0 0 TypeExpr.readLabel := by
  -- There is one name in front of a colon, or there are two.
  have two : Carries seam 0 0 (do
      let first ← current
      let second ← Reading.ahead 1
      let third ← Reading.ahead 2
      if first.isIdentifier && second.isIdentifier && third.text == ":" then
        skip 3
        return some second.text
      else return none) := by
    refine carries_branch 3 (fun ahead =>
        (ahead 0).isIdentifier && (ahead 1).isIdentifier && (ahead 2).text == ":")
      (fun ahead => do
        skip 3
        return some (ahead 1).text) (fun _ => rfl) ?_ ?_ (fun _ => passes_skip_bind (forward_pure _))
      (fun _ => carries_skip_bind (Nat.le_refl _) (carries_pure _)) (carries_pure _)
    · intro first second same
      rw [same 0 (by decide), same 1 (by decide), same 2 (by decide)]
      exact ⟨rfl, rfl⟩
    · intro ahead count within stop
      simp only [Bool.and_eq_true, beq_iff_eq]
      obtain rfl | rfl | rfl : count = 0 ∨ count = 1 ∨ count = 2 := by omega
      · exact fun asked => stop.not_isIdentifier asked.1.1
      · exact fun asked => stop.not_isIdentifier asked.1.2
      · exact fun asked => stop.text_ne (by decide) (by decide) asked.2
  refine carries_branch_two (fun first second => first.isIdentifier && second.text == ":")
    (fun first _ => do
      skip 2
      return some first.text) (fun cursor => ?_) (fun first second stop => ?_)
    (fun first second stop => ?_) (fun _ _ => passes_skip_bind (forward_pure _))
    (fun _ _ => carries_skip_bind (Nat.le_refl _) (carries_pure _)) two
  · rw [TypeExpr.readLabel, run_current_bind, run_ahead_bind, run_ahead_bind]
    exact run_ite_congr rfl rfl
  · simp only [Bool.and_eq_true, beq_iff_eq]
    exact fun asked => stop.not_isIdentifier asked.1
  · simp only [Bool.and_eq_true, beq_iff_eq]
    exact fun asked => stop.text_ne (by decide) (by decide) asked.2

theorem carries_readElement : Carries seam 0 0 (readElement type) := by
  refine carries_bind carries_readLabel fun label => ?_
  exact carries_bind carries fun element => carries_pure _

omit carries in
theorem takeWhile_append_eq {accepts : Token → Bool} {front rest other : List Token}
    (inside : ((front ++ rest).takeWhile accepts).length ≤ front.length)
    (stops : other.takeWhile accepts = []) :
    (front ++ other).takeWhile accepts = (front ++ rest).takeWhile accepts := by
  induction front with
  | nil =>
    rw [List.nil_append, stops]
    exact (List.length_eq_zero_iff.mp (Nat.le_zero.mp inside)).symm
  | cons token front inductionHypothesis =>
    rw [List.cons_append, List.takeWhile_cons] at inside ⊢
    rw [List.cons_append, List.takeWhile_cons]
    split at inside
    next accepted =>
      rw [if_pos accepted, if_pos accepted, inductionHypothesis (Nat.le_of_succ_le_succ inside)]
    next refused => rw [if_neg refused, if_neg refused]

omit carries in
theorem carries_readEffects : Carries seam 0 0 readEffects where
  forward := forward_readEffects
  reads index value next enough left read := by
    have stops : (seam.other.words.drop seam.place).takeWhile (·.isOneOf effectWords) = [] := by
      cases rest : seam.other.words.drop seam.place with
      | nil => rfl
      | cons token others =>
        have found : seam.other.token seam.place = token := by
          rw [TokenStream.token, ← List.head?_drop, rest]
          rfl
        exact List.takeWhile_cons_of_neg ((found ▸ seam.stop).not_isOneOf (by decide) (by decide))
    have within := seam.within
    have front := seam.length_front index
    rw [Reads, readEffects, run_get_bind] at read ⊢
    have bound := (List.takeWhile_prefix (·.isOneOf effectWords)
      (l := (seam.cursor index).behind)).length_le
    have moved := passes_skip_bind (by grind) _ _ _ (seam.ends index) bound read
    rw [seam.remaining_cursor, seam.remaining_cursor] at moved
    rw [seam.behind_twin (by omega)]
    rw [seam.behind_cursor (by omega)] at read moved bound
    rw [List.length_append, List.length_drop] at bound
    have same := @takeWhile_append_eq (·.isOneOf effectWords) (seam.front index)
      (seam.stream.words.drop seam.place) _ (by omega) stops
    rw [same]
    generalize (seam.front index ++ _).takeWhile _ = effects at read moved ⊢
    have passed : Carries seam effects.length 0 (do
        skip effects.length
        return effects.map Token.text) :=
      carries_skip_bind (Nat.le_refl _) (carries_pure _)
    exact passed.reads index value next (by omega) left read

theorem carries_readParenthesised : Carries seam 0 0 (readParenthesised type) := by
  have forward := carries.forward
  refine carries_bind (carries_expect (by decide)) fun _ => ?_
  refine carries_bind_expect (by decide) (carries_listed (carries_readElement carries).relax)
    fun elements _ => ?_
  refine carries_bind carries_readEffects fun effects => ?_
  refine carries_check (by decide) (by decide) (passes_skip_bind (by grind)) ?_ ?_
  · refine carries_skip_bind (Nat.le_refl _) ?_
    exact carries_bind carries fun result => carries_pure _
  · have complains (given : TypeExpr) : Carries seam 0 0 do
        fail .missingArrow (← current)
        return given :=
      carries_of_fails fun _ _ _ => by simp
    split
    · split
      · exact complains _
      · exact carries_pure _
    · split
      · exact complains _
      · exact carries_pure _

end Parts

/-- A type has a word behind its attributes and ownership words. -/
theorem carries_skipOwnershipWithin (limit : Nat) :
    Carries seam 0 1 (skipOwnershipWithin limit) := by
  induction limit with
  | zero => exact carries_pure _
  | succ limit inductionHypothesis =>
    refine .of_spare (carries_check_bind Nat.one_pos fun found => ?_)
    split
    · exact carries_bind Attribute.carries_read.relax fun _ => inductionHypothesis
    · refine carries_current_bind Nat.one_pos fun token => ?_
      split
      · exact carries_skip_bind (Nat.le_refl _) inductionHypothesis
      · exact carries_pure _

theorem carries_skipOwnership : Carries seam 0 1 skipOwnership :=
  carries_get_bind settles_skipOwnershipWithin carries_skipOwnershipWithin

section Primary

variable {suffixed : Reading TypeExpr}

theorem costs_readSimple (forward : Forward suffixed) : Costs (readSimple suffixed) :=
  costs_bind_of_back forward_get fun _ =>
    costs_bind (costs_readNameWithin forward _) fun _ => forward_pure _

theorem costs_readParenthesised (forward : Forward suffixed) :
    Costs (readParenthesised suffixed) := by
  refine costs_bind (costs_expect (by decide)) fun _ => ?_
  refine forward_bind (forward_listed ")" (forward_readElement forward)) fun elements => ?_
  refine forward_bind (forward_expect ")") fun _ => ?_
  refine forward_bind forward_readEffects fun effects => ?_
  refine forward_bind (forward_check "->") fun arrow => ?_
  split
  · grind
  · split <;> grind

/-- A type that does not begin with a constraint word. -/
def readPlain (suffixed : Reading TypeExpr) : Reading TypeExpr := do
  let first ← current
  if first.reads "(" then readParenthesised (readComposition suffixed)
  else if first.reads "[" then readBracketed (readComposition suffixed)
  else if first.isIdentifier then readSimple (readComposition suffixed)
  else missing "a type"

theorem costs_readPlain (forward : Forward suffixed) : Costs (readPlain suffixed) := by
  have composition := forward_readComposition forward
  intro first value last ends read
  rw [Reads, readPlain, run_current_bind] at read
  split at read
  · exact costs_readParenthesised composition _ _ _ ends read
  · split at read
    · exact costs_bind (costs_expect (by decide)) (by grind) _ _ _ ends read
    · split at read
      · exact costs_readSimple composition _ _ _ ends read
      · exact (reads_missing read).elim

theorem carries_readPlain (carries : Carries seam 0 0 suffixed) :
    Carries seam 0 0 (readPlain suffixed) := by
  have composition := carries_readComposition carries
  refine .of_costs (costs_readPlain carries.forward) ?_
  refine carries_current_bind Nat.one_pos fun first => ?_
  split
  · exact (carries_readParenthesised composition).relax
  · split
    · exact (carries_readBracketed composition).relax
    · split
      · exact (carries_readSimple composition).relax
      · exact carries_missing _

/-- A type behind its attributes and ownership words. -/
def readUnowned (suffixed : Reading TypeExpr) : Reading TypeExpr := do
  let first ← current
  if first.isOneOf constraintWords && (← Reading.ahead 1).isIdentifier then
    skip 1
    let constraint ← suffixed
    return constrained first.text constraint
  else readPlain suffixed

theorem readPrimary_eq (suffixed : Reading TypeExpr) :
    readPrimary suffixed = skipOwnership >>= fun _ => readUnowned suffixed := by
  refine bind_congr fun _ => StateT.ext fun cursor => ?_
  rw [readUnowned, run_current_bind, run_current_bind, run_ahead_bind, run_ahead_bind]
  exact run_ite_congr rfl rfl

theorem costs_readUnowned (forward : Forward suffixed) : Costs (readUnowned suffixed) := by
  intro first value last ends read
  rw [Reads, readUnowned, run_current_bind, run_ahead_bind] at read
  split at read
  next seen =>
    have some := ends.remaining_pos_of_isOneOf (by decide) (Bool.and_eq_true_iff.mp seen).1
    exact (passes_skip_bind (by grind)).lt ends some read
  next => exact costs_readPlain forward _ _ _ ends read

theorem carries_readUnowned (carries : Carries seam 0 0 suffixed) (costs : Costs suffixed) :
    Carries seam 0 0 (readUnowned suffixed) := by
  refine carries_branch_two
    (fun word next => word.isOneOf constraintWords && next.isIdentifier)
    (fun word _ => do
      skip 1
      let constraint ← suffixed
      return constrained word.text constraint) (fun _ => rfl) (fun word next stop => ?_)
    (fun word next stop => ?_) (fun word next => ?_) (fun word next => ?_)
    (carries_readPlain carries)
  · rw [Bool.and_eq_true]
    exact fun asked => stop.not_isOneOf (by decide) (by decide) asked.1
  · rw [Bool.and_eq_true]
    exact fun asked => stop.not_isIdentifier asked.2
  · exact passes_skip_bind_of_costs (costs_bind costs fun _ => forward_pure _)
  · refine carries_skip_bind (Nat.le_succ 1) ?_
    exact carries_bind carries.relax fun constraint => carries_pure _

theorem costs_readPrimary (forward : Forward suffixed) : Costs (readPrimary suffixed) := by
  rw [readPrimary_eq]
  exact costs_bind_of_back forward_skipOwnership fun _ => costs_readUnowned forward

theorem carries_readPrimary (carries : Carries seam 0 0 suffixed) (costs : Costs suffixed) :
    Carries seam 0 0 (readPrimary suffixed) := by
  rw [readPrimary_eq]
  exact carries_bind_of_costs carries_skipOwnership (fun _ => costs_readUnowned carries.forward)
    fun _ => carries_readUnowned carries costs

end Primary

theorem carries_readSuffixesWithin (type : TypeExpr) (limit : Nat) :
    Carries seam 0 0 (readSuffixesWithin type limit) := by
  induction limit generalizing type with
  | zero => exact carries_pure _
  | succ limit inductionHypothesis =>
    have forward (type : TypeExpr) : Forward (readSuffixesWithin type limit) :=
      forward_readSuffixesWithin type limit
    -- From the last question to the first: a question that is denied leaves the one behind it.
    have metatype : Carries seam 0 0 (do
        let member ← Reading.ahead 1
        if (← check ".") && member.isOneOf metatypes then
          skip 2
          readSuffixesWithin (simple (type.description ++ "." ++ member.text) []) limit
        else return type) := by
      refine carries_branch_two (fun point member => point.reads "." && member.isOneOf metatypes)
        (fun _ member => do
          skip 2
          readSuffixesWithin (simple (type.description ++ "." ++ member.text) []) limit)
        (fun _ => rfl) (fun point member stop => ?_) (fun point member stop => ?_)
        (fun _ _ => passes_skip_bind (forward _))
        (fun _ _ => carries_skip_bind (Nat.le_refl _) (inductionHypothesis _)) (carries_pure _)
      · rw [Bool.and_eq_true]
        exact fun asked => stop.not_reads (by decide) (by decide) asked.1
      · rw [Bool.and_eq_true]
        exact fun asked => stop.not_isOneOf (by decide) (by decide) asked.2
    have forced : Carries seam 0 0 (do
        if ← check "!" then
          skip 1
          readSuffixesWithin (implicitlyUnwrapped type) limit
        else
          let member ← Reading.ahead 1
          if (← check ".") && member.isOneOf metatypes then
            skip 2
            readSuffixesWithin (simple (type.description ++ "." ++ member.text) []) limit
          else return type) :=
      carries_check (by decide) (by decide) (passes_skip_bind (forward _))
        (carries_skip_bind (Nat.le_refl _) (inductionHypothesis _)) metatype
    refine carries_branch_one (·.reads "?")
      (fun _ => do
        skip 1
        readSuffixesWithin (optional type) limit) (fun cursor => ?_)
      (fun _ stop => stop.not_reads (by decide) (by decide))
      (fun _ => passes_skip_bind (forward _))
      (fun _ => carries_skip_bind (Nat.le_refl _) (inductionHypothesis _)) forced
    · rw [readSuffixesWithin, run_ahead_bind, run_check_bind]
      refine run_ite_congr rfl ?_
      rw [run_check_bind, run_check_bind]
      exact run_ite_congr rfl rfl

theorem costs_suffixedWithin (depth : Nat) : Costs (suffixedWithin depth) := by
  cases depth with
  | zero => exact fun _ _ _ _ read => (reads_missing read).elim
  | succ depth =>
    exact costs_bind (costs_readPrimary (forward_suffixedWithin depth)) fun type => by grind

theorem carries_suffixedWithin (depth : Nat) : Carries seam 0 0 (suffixedWithin depth) := by
  induction depth with
  | zero => exact carries_missing _
  | succ depth inductionHypothesis =>
    have primary := carries_readPrimary inductionHypothesis (costs_suffixedWithin depth)
    refine carries_bind primary fun type => ?_
    exact carries_get_bind (settles_readSuffixesWithin type) (carries_readSuffixesWithin type)

theorem carries_read : Carries seam 0 0 TypeExpr.read := by
  have settles : Settles fun depth => readComposition (suffixedWithin depth) := fun depth =>
    alike_readComposition (forward_suffixedWithin _) (settles_suffixedWithin depth)
  exact carries_get_bind settles fun depth => carries_readComposition (carries_suffixedWithin depth)

end TypeExpr

namespace Declaration

theorem carries_readModifier : Carries seam 1 0 readModifier := by
  refine carries_advance_bind Nat.one_pos fun word => ?_
  have detailed : Carries seam 1 0 (do
      skip 1
      let detail ← expectIdentifier "modifier detail"
      let _ ← expect ")"
      return word.text ++ "(" ++ detail.text ++ ")") := by
    refine carries_skip_bind (Nat.le_refl _) ?_
    refine carries_bind (carries_expectIdentifier _) fun detail => ?_
    exact carries_bind (carries_expect (by decide)) fun _ => carries_pure _
  refine carries_branch_one (fun opening => opening.reads "(" && opening.start == word.stop)
    (fun _ => _) (fun _ => rfl) (fun opening stop => ?_) (fun _ => passes_skip_bind (by grind))
    (fun _ => detailed) (carries_pure word.text)
  rw [Bool.and_eq_true]
  exact fun asked => stop.not_reads (by decide) (by decide) asked.1

/-- What is a modifier in front of a stop is one in front of anything. -/
theorem isModifier_of_stop {token stop : Token} (isStop : stop.IsStop)
    (modifier : isModifier token stop = true) (next : Token) : isModifier token next = true := by
  have plain : ¬ stop.isOneOf modifierWords = true := isStop.not_isOneOf (by decide) (by decide)
  have other : (DeclarationKind.ofKeyword? stop.text).isSome = false := by
    obtain empty | mark := isStop.text_eq
    · rw [empty]; decide
    · rw [mark]; decide
  simp only [isModifier, plain, other, Bool.or_false, Bool.and_eq_true, Bool.or_eq_true]
    at modifier ⊢
  exact ⟨modifier.1, .inl (.inl modifier.2)⟩

/-- A variable has a keyword behind its modifiers, so one word is left. -/
theorem carries_readModifiersWithin (limit : Nat) :
    Carries seam 0 1 (readModifiersWithin limit) := by
  induction limit with
  | zero => exact carries_pure _
  | succ limit inductionHypothesis =>
    have further : Carries seam 1 1 (do
        let modifier ← readModifier
        let others ← readModifiersWithin limit
        return modifier :: others) :=
      carries_bind (carries_readModifier.mono (Nat.le_refl _) (Nat.zero_le _)) fun modifier =>
        carries_bind inductionHypothesis fun others => carries_pure _
    refine .of_spare ⟨forward_readModifiersWithin _, fun index value next enough left read => ?_⟩
    have within := seam.within
    rw [Reads, readModifiersWithin, run_current_bind, run_ahead_bind, Cursor.current,
      seam.ahead_cursor, seam.ahead_cursor] at read
    rw [Reads, readModifiersWithin, run_current_bind, run_ahead_bind, Cursor.current,
      seam.ahead_twin, seam.ahead_twin, seam.token_eq (by omega)]
    split at read
    next asked =>
      -- The modifier leaves a word, so what stands behind it is in front of the seam.
      have some : 0 < (seam.cursor index).remaining := by
        rw [seam.remaining_cursor]
        omega
      have passes : Passes 1 (do
          let modifier ← readModifier
          let others ← readModifiersWithin limit
          return modifier :: others) :=
        passes_bind (passes_advance_bind (by grind)) (by grind)
      have fewer := passes.lt (seam.ends index) some read
      rw [seam.remaining_cursor, seam.remaining_cursor] at fewer
      rw [seam.token_eq (show index + 1 < seam.place by omega), if_pos asked]
      exact further.reads index value next enough left read
    next refused =>
      have same :
          ¬ isModifier (seam.stream.token (index + 0)) (seam.other.token (index + 1)) = true := by
        obtain inside | last := Nat.lt_or_ge (index + 1) seam.place
        · rwa [seam.token_eq inside]
        · intro asked
          have stop := seam.stop
          rw [show seam.place = index + 1 by omega] at stop
          exact refused (isModifier_of_stop stop asked _)
      rw [if_neg same]
      exact (carries_pure []).reads index value next enough left read

theorem carries_readModifiers : Carries seam 0 1 readModifiers :=
  carries_get_bind settles_readModifiersWithin carries_readModifiersWithin

/-- One step through a block. -/
theorem blockLength?_cons (depth : Nat) (token : Token) (others : List Token) :
    Extent.blockLength? depth (token :: others) =
      if token.isPunctuation Token.openBrace then
        (Extent.blockLength? (depth + 1) others).map (· + 1)
      else if token.isPunctuation Token.closeBrace then
        if depth = 0 then some 1 else (Extent.blockLength? (depth - 1) others).map (· + 1)
      else (Extent.blockLength? depth others).map (· + 1) := by
  cases depth <;> rfl

theorem blockLength?_le {tokens : List Token} {depth length : Nat}
    (found : Extent.blockLength? depth tokens = some length) :
    0 < length ∧ length ≤ tokens.length := by
  induction tokens generalizing depth length with
  | nil => cases depth <;> cases found
  | cons token tokens inductionHypothesis =>
    have later {depth : Nat}
        (found : (Extent.blockLength? depth tokens).map (· + 1) = some length) :
        0 < length ∧ length ≤ (token :: tokens).length := by
      obtain ⟨shorter, closed, rfl⟩ := Option.map_eq_some_iff.mp found
      exact ⟨Nat.succ_pos _, Nat.succ_le_succ (inductionHypothesis closed).2⟩
    rw [blockLength?_cons] at found
    split at found
    · exact later found
    · split at found
      · split at found
        · cases found
          exact ⟨Nat.one_pos, Nat.succ_le_succ (Nat.zero_le _)⟩
        · exact later found
      · exact later found

/-- A brace that is found in front of the seam closes a block whatever stands behind. -/
theorem blockLength?_append {front rest other : List Token} {depth length : Nat}
    (found : Extent.blockLength? depth (front ++ rest) = some length)
    (inside : length ≤ front.length) :
    Extent.blockLength? depth (front ++ other) = some length := by
  induction front generalizing depth length with
  | nil => exact absurd (blockLength?_le found).1 (Nat.not_lt_of_le inside)
  | cons token front inductionHypothesis =>
    have later {depth : Nat}
        (found : (Extent.blockLength? depth (front ++ rest)).map (· + 1) = some length) :
        (Extent.blockLength? depth (front ++ other)).map (· + 1) = some length := by
      obtain ⟨shorter, closed, rfl⟩ := Option.map_eq_some_iff.mp found
      rw [inductionHypothesis closed (Nat.le_of_succ_le_succ inside), Option.map_some]
    rw [List.cons_append, blockLength?_cons] at found ⊢
    split at found
    next opens =>
      rw [if_pos opens]
      exact later found
    next opens =>
      rw [if_neg opens]
      split at found
      next closes =>
        rw [if_pos closes]
        split at found
        next outermost => rwa [if_pos outermost]
        next inner =>
          rw [if_neg inner]
          exact later found
      next closes =>
        rw [if_neg closes]
        exact later found

theorem carries_readBlock : Carries seam 0 0 readBlock := by
  refine carries_bind (carries_expect (by decide)) fun brace => ⟨?_, ?_⟩
  · refine forward_bind forward_get fun cursor => ?_
    split
    · exact forward_fail _ _
    · grind
  · intro index value next enough left read
    have within := seam.within
    have front := seam.length_front index
    rw [Reads, run_get_bind] at read ⊢
    cases found : Extent.blockLength? 0 (seam.cursor index).behind with
    | none =>
      rw [found] at read
      exact (reads_fail read).elim
    | some length =>
      rw [found] at read
      -- What is left to be read says that the block ends in front of the seam.
      have moved := passes_skip_bind (forward_textSince brace) _ _ _ (seam.ends index)
        (blockLength?_le found).2 read
      rw [seam.remaining_cursor, seam.remaining_cursor] at moved
      rw [seam.behind_cursor (by omega)] at found
      have bound := (blockLength?_le found).2
      rw [List.length_append, List.length_drop] at bound
      rw [seam.behind_twin (by omega), blockLength?_append found (by omega)]
      have passed : Carries seam length 0 (do
          skip length
          textSince brace) :=
        carries_skip_bind (Nat.le_refl _) (carries_textSince brace)
      exact passed.reads index value next (by omega) left read

theorem carries_readType? : Carries seam 0 0 readType? := by
  refine carries_check (by decide) (by decide) (passes_skip_bind (by grind)) ?_ (carries_pure _)
  refine carries_skip_bind (Nat.le_refl _) ?_
  exact carries_bind TypeExpr.carries_read fun type => carries_pure _

theorem costs_readBlock : Costs readBlock :=
  costs_bind (costs_expect (by decide)) fun brace => by
    refine forward_bind forward_get fun cursor => ?_
    split
    · exact forward_fail _ _
    · grind

theorem carries_readAccessors? : Carries seam 0 0 readAccessors? :=
  carries_check (by decide) (by decide)
    (passes_bind (passes_of_costs costs_readBlock) fun _ => forward_pure _)
    (carries_bind carries_readBlock.relax fun block => carries_pure _) (carries_pure _)

end Declaration

end PeerExpansion
