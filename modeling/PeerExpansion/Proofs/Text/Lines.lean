import Mathlib.Data.List.Induction
import PeerExpansion.Text.Tidy

/-! # Lines that are put together

Lines without line feeds are the lines of the text they make up. Such a text is tidy already when
something can be seen at the end of each of them.
-/

namespace PeerExpansion.Text

variable {line : List Char} {parts : List (List Char)}

/-! ## Taking lines apart -/

theorem lines_of_not_mem (clean : '\n' ∉ line) : lines line = [line] := by
  induction line with
  | nil => rfl
  | cons character line inductionHypothesis =>
    obtain ⟨other, clean⟩ : '\n' ≠ character ∧ '\n' ∉ line := by simpa using clean
    have later := inductionHypothesis clean
    rw [lines] at later ⊢
    rw [splitAt, if_neg (Ne.symm other), later]

theorem lines_append_feed (front back : List Char) :
    lines (front ++ '\n' :: back) = lines front ++ lines back := by
  induction front with
  | nil => simp [lines, splitAt]
  | cons character front inductionHypothesis =>
    rw [lines, lines] at inductionHypothesis ⊢
    rw [List.cons_append, splitAt, splitAt, inductionHypothesis]
    split
    · rfl
    · cases known : splitAt '\n' front with
      | nil => exact absurd known (splitAt_ne_nil '\n' front)
      | cons part more => rfl

theorem lines_append (clean : '\n' ∉ line) (rest : List Char) :
    lines (line ++ '\n' :: rest) = line :: lines rest := by
  rw [lines_append_feed, lines_of_not_mem clean, List.singleton_append]

/-- In front of a text there is only room on its first line. -/
theorem lines_append_of_clean (clean : '\n' ∉ line) {rest first : List Char}
    {others : List (List Char)} (cut : lines rest = first :: others) :
    lines (line ++ rest) = (line ++ first) :: others := by
  induction line with
  | nil => exact cut
  | cons character line inductionHypothesis =>
    obtain ⟨other, clean⟩ : '\n' ≠ character ∧ '\n' ∉ line := by simpa using clean
    have later := inductionHypothesis clean
    rw [lines] at later ⊢
    rw [List.cons_append, splitAt, if_neg (Ne.symm other), later]
    rfl

/-- A text consists of whole lines and the beginning of another one. -/
theorem exists_last_line (text : List Char) :
    ∃ parts last, '\n' ∉ last ∧ ∀ rest, lines (text ++ rest) = parts ++ lines (last ++ rest) := by
  induction text using List.reverseRecOn with
  | nil => exact ⟨[], [], by simp, fun rest => rfl⟩
  | append_singleton text character inductionHypothesis =>
    obtain ⟨parts, last, clean, cut⟩ := inductionHypothesis
    by_cases feed : character = '\n'
    · subst feed
      refine ⟨parts ++ [last], [], by simp, fun rest => ?_⟩
      rw [List.append_assoc, List.singleton_append, cut, lines_append clean, List.append_assoc]
      rfl
    · refine ⟨parts, last ++ [character], by simp [clean, Ne.symm feed], fun rest => ?_⟩
      rw [List.append_assoc, List.singleton_append, cut, List.append_assoc, List.singleton_append]

/-- What stands on one line of a text leaves the other lines as they are. -/
theorem exists_lines_around (front back : List Char) :
    ∃ above before after below, ∀ line, '\n' ∉ line →
      lines (front ++ line ++ back) = above ++ (before ++ line ++ after) :: below := by
  obtain ⟨above, before, clean, cut⟩ := exists_last_line front
  obtain ⟨after, below, back_eq⟩ := List.exists_cons_of_ne_nil (splitAt_ne_nil '\n' back)
  refine ⟨above, before, after, below, fun line lineClean => ?_⟩
  have whole : '\n' ∉ before ++ line := by simp [clean, lineClean]
  rw [List.append_assoc, cut, ← List.append_assoc, lines_append_of_clean whole back_eq]

theorem unlines_cons_cons (line next : List Char) (more : List (List Char)) :
    unlines (line :: next :: more) = line ++ '\n' :: unlines (next :: more) :=
  intercalate_cons_cons '\n' line next more

/-- Lines with a line feed behind each are the text and a line feed at its end. -/
theorem flatMap_feed (filled : parts ≠ []) :
    parts.flatMap (· ++ ['\n']) = unlines parts ++ ['\n'] := by
  induction parts with
  | nil => exact absurd rfl filled
  | cons line parts inductionHypothesis =>
    cases parts with
    | nil => simp [unlines]
    | cons next more =>
      rw [unlines_cons_cons, List.flatMap_cons, inductionHypothesis (List.cons_ne_nil _ _)]
      simp

theorem lines_unlines (some : parts ≠ []) (clean : ∀ line ∈ parts, '\n' ∉ line) :
    lines (unlines parts) = parts := by
  induction parts with
  | nil => exact absurd rfl some
  | cons line parts inductionHypothesis =>
    obtain ⟨lineClean, clean⟩ := List.forall_mem_cons.mp clean
    cases parts with
    | nil =>
      rw [unlines, List.intercalate_singleton]
      exact lines_of_not_mem lineClean
    | cons next more =>
      rw [unlines_cons_cons, lines_append lineClean,
        inductionHypothesis (List.cons_ne_nil next more) clean]

/-! ## Indented lines -/

theorem unlines_append {others : List (List Char)} (filled : parts ≠ []) (more : others ≠ []) :
    unlines (parts ++ others) = unlines parts ++ '\n' :: unlines others := by
  induction parts with
  | nil => exact absurd rfl filled
  | cons line parts inductionHypothesis =>
    cases parts with
    | nil =>
      obtain ⟨next, later, rfl⟩ := List.exists_cons_of_ne_nil more
      have single : unlines [line] = line := List.intercalate_singleton
      rw [List.singleton_append, unlines_cons_cons, single]
    | cons next parts =>
      rw [List.cons_append, List.cons_append, unlines_cons_cons, unlines_cons_cons,
        ← List.cons_append, inductionHypothesis (List.cons_ne_nil next parts), List.append_assoc]
      rfl

/-- A line behind `indent`, unless it is blank. -/
def indentLine (indent line : List Char) : List Char :=
  if isBlankLine line then line else indent ++ line

theorem indentLines_eq (indent text : List Char) :
    indentLines indent text = unlines ((lines text).map (indentLine indent)) := rfl

theorem indentLine_of_solid (indent : List Char) (solid : isBlankLine line = false) :
    indentLine indent line = indent ++ line := by
  rw [indentLine, solid, if_neg Bool.false_ne_true]

theorem indentLines_append_feed (indent front back : List Char) :
    indentLines indent (front ++ '\n' :: back) =
      indentLines indent front ++ '\n' :: indentLines indent back := by
  have filled (text : List Char) : (lines text).map (indentLine indent) ≠ [] := by
    simpa [lines] using splitAt_ne_nil '\n' text
  simp only [indentLines_eq]
  rw [lines_append_feed, List.map_append, unlines_append (filled front) (filled back)]

theorem indentLines_append (clean : '\n' ∉ line) (solid : isBlankLine line = false)
    (indent rest : List Char) :
    indentLines indent (line ++ '\n' :: rest) =
      indent ++ line ++ '\n' :: indentLines indent rest := by
  have alone : indentLines indent line = indent ++ line := by
    rw [indentLines_eq, lines_of_not_mem clean, List.map_singleton,
      indentLine_of_solid indent solid, unlines, List.intercalate_singleton]
  rw [indentLines_append_feed, alone]

theorem exists_unlines_around (above below : List (List Char)) :
    ∃ front back, ∀ line, unlines (above ++ line :: below) = front ++ line ++ back := by
  obtain ⟨back, back_eq⟩ : ∃ back, ∀ line, unlines (line :: below) = line ++ back := by
    cases below with
    | nil => exact ⟨[], fun line => by rw [List.append_nil]; exact List.intercalate_singleton⟩
    | cons next below =>
      exact ⟨'\n' :: unlines (next :: below), fun line => unlines_cons_cons line next below⟩
  cases above with
  | nil => exact ⟨[], back, back_eq⟩
  | cons first above =>
    refine ⟨unlines (first :: above) ++ ['\n'], back, fun line => ?_⟩
    rw [unlines_append (List.cons_ne_nil _ _) (List.cons_ne_nil _ _), back_eq]
    simp

/-- What can be seen on a line is indented with it, and all around it is indented as ever. -/
theorem exists_indentLines_around (indent front back : List Char) :
    ∃ newFront newBack, ∀ line, '\n' ∉ line → isBlankLine line = false →
      indentLines indent (front ++ line ++ back) = newFront ++ line ++ newBack := by
  obtain ⟨above, before, after, below, cut⟩ := exists_lines_around front back
  obtain ⟨newFront, newBack, joined⟩ :=
    exists_unlines_around (above.map (indentLine indent)) (below.map (indentLine indent))
  refine ⟨newFront ++ (indent ++ before), after ++ newBack, fun line clean solid => ?_⟩
  have seen : isBlankLine (before ++ line ++ after) = false := by
    rw [isBlankLine] at solid ⊢
    simp [List.all_append, solid]
  rw [indentLines_eq, cut line clean, List.map_append, List.map_cons,
    indentLine_of_solid indent seen, joined]
  simp only [List.append_assoc]

/-! ## Tidy lines -/

/-- Something can be seen at the end of the line. -/
def EndsVisibly (line : List Char) : Prop :=
  line.getLast?.any (!isBlank ·) = true

instance (line : List Char) : Decidable (EndsVisibly line) :=
  inferInstanceAs (Decidable (_ = true))

theorem endsVisibly_iff :
    EndsVisibly line ↔ ∃ front last, line = front ++ [last] ∧ isBlank last = false := by
  rw [EndsVisibly]
  cases line using List.reverseRecOn with
  | nil => simp
  | append_singleton front last => simp

theorem EndsVisibly.append (ends : EndsVisibly line) (front : List Char) :
    EndsVisibly (front ++ line) := by
  obtain ⟨middle, last, rfl, solid⟩ := endsVisibly_iff.mp ends
  exact endsVisibly_iff.mpr
    ⟨front ++ middle, last, (List.append_assoc front middle [last]).symm, solid⟩

theorem EndsVisibly.trimEnd_eq (ends : EndsVisibly line) : trimEnd line = line := by
  obtain ⟨front, last, rfl, solid⟩ := endsVisibly_iff.mp ends
  simp [trimEnd, solid]

theorem EndsVisibly.isEmpty_eq (ends : EndsVisibly line) : line.isEmpty = false := by
  obtain ⟨front, last, rfl, -⟩ := endsVisibly_iff.mp ends
  simp

theorem singleGaps_eq_self (solid : ∀ line ∈ parts, line.isEmpty = false) :
    singleGaps parts = parts := by
  induction parts with
  | nil => rfl
  | cons line parts inductionHypothesis =>
    obtain ⟨first, solid⟩ := List.forall_mem_cons.mp solid
    rw [singleGaps, first, Bool.false_and, if_neg Bool.false_ne_true, inductionHypothesis solid]

theorem dropWhile_isEmpty_eq_self (solid : ∀ line ∈ parts, line.isEmpty = false) :
    parts.dropWhile List.isEmpty = parts := by
  cases parts with
  | nil => rfl
  | cons line parts =>
    exact List.dropWhile_cons_of_neg (Bool.eq_false_iff.mp (solid line List.mem_cons_self))

theorem tidyChars_unlines (some : parts ≠ []) (clean : ∀ line ∈ parts, '\n' ∉ line)
    (ends : ∀ line ∈ parts, EndsVisibly line) : tidyChars (unlines parts) = unlines parts := by
  have solid : ∀ line ∈ parts, line.isEmpty = false := fun line member =>
    (ends line member).isEmpty_eq
  have trimmed : parts.map trimEnd = parts.map id :=
    List.map_congr_left fun line member => (ends line member).trimEnd_eq
  have backwards : ∀ line ∈ parts.reverse, line.isEmpty = false := fun line member =>
    solid line (List.mem_reverse.mp member)
  rw [tidyChars, lines_unlines some clean, trimmed, List.map_id, singleGaps_eq_self solid,
    dropOuterGaps, dropWhile_isEmpty_eq_self solid, dropWhile_isEmpty_eq_self backwards,
    List.reverse_reverse]

theorem singleGaps_subset (parts : List (List Char)) : singleGaps parts ⊆ parts := by
  induction parts with
  | nil => exact List.Subset.refl _
  | cons line parts inductionHypothesis =>
    rw [singleGaps]
    split
    · exact List.subset_cons_of_subset line inductionHypothesis
    · exact List.cons_subset_cons line inductionHypothesis

/-! ## Characters other than line feeds

A line feed is all that comes in when lines are put together, and nothing comes in when they are
tidied up. Indented lines hold what stands in the indentation, too.
-/

section Characters

variable {character : Char} (other : character ≠ '\n') {text indent : List Char}

theorem not_mem_of_mem_lines (absent : character ∉ text) :
    ∀ line ∈ lines text, character ∉ line := by
  intro line member present
  obtain ⟨above, below, lines_eq⟩ := List.append_of_mem member
  obtain ⟨front, back, around⟩ := exists_unlines_around above below
  rw [← unlines_lines text, lines_eq, around] at absent
  exact absent (by simp [present])

include other

theorem not_mem_unlines (each : ∀ line ∈ parts, character ∉ line) : character ∉ unlines parts := by
  induction parts with
  | nil => exact List.not_mem_nil
  | cons line parts inductionHypothesis =>
    obtain ⟨here, there⟩ := List.forall_mem_cons.mp each
    cases parts with
    | nil =>
      rw [unlines, List.intercalate_singleton]
      exact here
    | cons next more =>
      rw [unlines_cons_cons, List.mem_append, List.mem_cons, not_or, not_or]
      exact ⟨here, other, inductionHypothesis there⟩

theorem not_mem_indentLines (unindented : character ∉ indent) (absent : character ∉ text) :
    character ∉ indentLines indent text := by
  rw [indentLines_eq]
  refine not_mem_unlines other (List.forall_mem_map.mpr fun line member => ?_)
  have clean := not_mem_of_mem_lines absent line member
  rw [indentLine]
  split
  · exact clean
  · simp [unindented, clean]

theorem not_mem_tidyChars (absent : character ∉ text) : character ∉ tidyChars text := by
  have kept : dropOuterGaps (singleGaps ((lines text).map trimEnd)) ⊆ (lines text).map trimEnd := by
    have front := List.dropWhile_subset List.isEmpty (l := singleGaps ((lines text).map trimEnd))
    intro line member
    rw [dropOuterGaps, List.mem_reverse] at member
    have member := List.mem_reverse.mp (List.dropWhile_subset _ member)
    exact singleGaps_subset _ (front member)
  refine not_mem_unlines other fun line member => ?_
  obtain ⟨whole, wholeMember, rfl⟩ := List.mem_map.mp (kept member)
  rw [trimEnd, List.mem_reverse]
  intro present
  exact not_mem_of_mem_lines absent whole wholeMember
    (List.mem_reverse.mp (List.dropWhile_subset _ present))

end Characters

end PeerExpansion.Text
