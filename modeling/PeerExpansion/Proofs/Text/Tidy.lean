import Mathlib.Data.List.Chain
import Mathlib.Data.List.DropRight
import PeerExpansion.Proofs.Text.Lines

/-! # Tidying up

A text is tidied up to one that is tidy, and a tidy text stays as it is. What can be seen is left
alone: the lines that are not blank are all there, and those with a gap between them still have one.
-/

namespace PeerExpansion.Text

variable {text line : List Char} {parts : List (List Char)} {count first last : Nat}

/-! ## What a tidy text keeps -/

/-- The lines that are not blank. -/
def solidLines (parts : List (List Char)) : List (List Char) :=
  parts.filter (!isBlankLine ·)

/-- A blank line stands behind just `count` lines that are not blank. -/
def GapAfter (parts : List (List Char)) (count : Nat) : Prop :=
  ∃ above line below, parts = above ++ line :: below ∧ isBlankLine line = true ∧
    (solidLines above).length = count

/-- A blank line stands between two of the lines that are not blank. These are told by their numbers
among such lines, the first of which is zero. -/
def Parted (parts : List (List Char)) (first last : Nat) : Prop :=
  ∃ count, first < count ∧ count ≤ last ∧ GapAfter parts count

structure IsTidy (text : List Char) : Prop where
  /-- No line ends in white space. -/
  trimmed : ∀ line ∈ lines text, ∀ last ∈ line.getLast?, isBlank last = false
  single : (lines text).IsChain fun line next =>
    ¬(isBlankLine line = true ∧ isBlankLine next = true)
  noFirstFeed : text.head? ≠ some '\n'
  noLastFeed : text.getLast? ≠ some '\n'

/-! ## Lines without white space at their ends -/

theorem trimEnd_eq_rdropWhile (line : List Char) : trimEnd line = line.rdropWhile isBlank := rfl

theorem trimEnd_eq_self_iff :
    trimEnd line = line ↔ ∀ last ∈ line.getLast?, isBlank last = false := by
  rw [trimEnd_eq_rdropWhile]
  cases line using List.reverseRecOn with
  | nil => simp
  | append_singleton front last => simp [List.rdropWhile_eq_self_iff]

theorem trimEnd_trimEnd (line : List Char) : trimEnd (trimEnd line) = trimEnd line :=
  List.rdropWhile_idempotent isBlank line

theorem isBlankLine_iff : isBlankLine line = true ↔ trimEnd line = [] := by
  rw [trimEnd_eq_rdropWhile, List.rdropWhile_eq_nil_iff, isBlankLine, List.all_eq_true]

theorem isBlankLine_trimEnd (line : List Char) : isBlankLine (trimEnd line) = isBlankLine line := by
  rw [Bool.eq_iff_iff, isBlankLine_iff, isBlankLine_iff, trimEnd_trimEnd]

theorem isBlankLine_of_isEmpty (empty : line.isEmpty = true) : isBlankLine line = true := by
  rw [List.isEmpty_iff.mp empty]
  rfl

theorem isBlankLine_eq_isEmpty (trimmed : trimEnd line = line) :
    isBlankLine line = line.isEmpty := by
  rw [Bool.eq_iff_iff, isBlankLine_iff, trimmed, List.isEmpty_iff]

/-! ## Gaps -/

section Gaps

theorem solidLines_cons_blank (blank : isBlankLine line = true) (parts : List (List Char)) :
    solidLines (line :: parts) = solidLines parts := by
  simp [solidLines, blank]

theorem solidLines_cons_solid (solid : isBlankLine line = false) (parts : List (List Char)) :
    solidLines (line :: parts) = line :: solidLines parts := by
  simp [solidLines, solid]

theorem gapAfter_cons_blank (blank : isBlankLine line = true) :
    GapAfter (line :: parts) count ↔ count = 0 ∨ GapAfter parts count := by
  constructor
  · rintro ⟨_ | ⟨_, above⟩, other, below, split, otherBlank, rfl⟩
    · exact .inl rfl
    · obtain ⟨rfl, rfl⟩ := List.cons.inj split
      rw [solidLines_cons_blank blank]
      exact .inr ⟨above, other, below, rfl, otherBlank, rfl⟩
  · rintro (rfl | ⟨above, other, below, rfl, otherBlank, rfl⟩)
    · exact ⟨[], line, parts, rfl, blank, rfl⟩
    · exact ⟨line :: above, other, below, rfl, otherBlank,
        congrArg List.length (solidLines_cons_blank blank above)⟩

theorem gapAfter_cons_solid (solid : isBlankLine line = false) :
    GapAfter (line :: parts) count ↔ ∃ fewer, count = fewer + 1 ∧ GapAfter parts fewer := by
  constructor
  · rintro ⟨_ | ⟨_, above⟩, other, below, split, otherBlank, rfl⟩
    · obtain ⟨rfl, rfl⟩ := List.cons.inj split
      rw [solid] at otherBlank
      cases otherBlank
    · obtain ⟨rfl, rfl⟩ := List.cons.inj split
      rw [solidLines_cons_solid solid]
      exact ⟨_, rfl, above, other, below, rfl, otherBlank, rfl⟩
  · rintro ⟨_, rfl, above, other, below, rfl, otherBlank, rfl⟩
    exact ⟨line :: above, other, below, rfl, otherBlank,
      congrArg List.length (solidLines_cons_solid solid above)⟩

theorem gapAfter_concat_blank (blank : isBlankLine line = true) :
    GapAfter (parts ++ [line]) count ↔
      count = (solidLines parts).length ∨ GapAfter parts count := by
  induction parts generalizing count with
  | nil => exact gapAfter_cons_blank blank
  | cons other parts inductionHypothesis =>
    rw [List.cons_append]
    cases otherBlank : isBlankLine other with
    | true =>
      rw [gapAfter_cons_blank otherBlank, gapAfter_cons_blank otherBlank, inductionHypothesis,
        solidLines_cons_blank otherBlank]
      exact or_left_comm
    | false =>
      simp only [gapAfter_cons_solid otherBlank, inductionHypothesis,
        solidLines_cons_solid otherBlank, List.length_cons]
      constructor
      · rintro ⟨fewer, rfl, rfl | gap⟩
        · exact .inl rfl
        · exact .inr ⟨fewer, rfl, gap⟩
      · rintro (rfl | ⟨fewer, rfl, gap⟩)
        · exact ⟨_, rfl, .inl rfl⟩
        · exact ⟨fewer, rfl, .inr gap⟩

/-! ### Lines that are trimmed -/

theorem solidLines_map_trimEnd (parts : List (List Char)) :
    solidLines (parts.map trimEnd) = (solidLines parts).map trimEnd := by
  have same : (fun line => !isBlankLine line) ∘ trimEnd = fun line => !isBlankLine line :=
    funext fun line => congrArg not (isBlankLine_trimEnd line)
  rw [solidLines, List.filter_map, same]
  rfl

theorem gapAfter_map_trimEnd : GapAfter (parts.map trimEnd) count ↔ GapAfter parts count := by
  induction parts generalizing count with
  | nil => rfl
  | cons line parts inductionHypothesis =>
    rw [List.map_cons]
    have same := isBlankLine_trimEnd line
    cases blank : isBlankLine line with
    | true => rw [gapAfter_cons_blank (same.trans blank), gapAfter_cons_blank blank,
        inductionHypothesis]
    | false => simp only [gapAfter_cons_solid (same.trans blank), gapAfter_cons_solid blank,
        inductionHypothesis]

/-! ### Gaps that are made single -/

/-- Of two empty lines the first one is left out. -/
theorem singleGaps_cases (line : List Char) (parts : List (List Char)) :
    (∃ next others, line.isEmpty = true ∧ next.isEmpty = true ∧ parts = next :: others ∧
      singleGaps (line :: parts) = singleGaps parts) ∨
    (∀ next ∈ parts.head?, ¬(line.isEmpty = true ∧ next.isEmpty = true)) ∧
      singleGaps (line :: parts) = line :: singleGaps parts := by
  cases parts with
  | nil => exact .inr ⟨nofun, by simp [singleGaps]⟩
  | cons next others =>
    by_cases both : line.isEmpty = true ∧ next.isEmpty = true
    · exact .inl ⟨next, others, both.1, both.2, rfl, by
        rw [singleGaps.eq_def]
        simp [both]⟩
    · refine .inr ⟨by simpa using both, ?_⟩
      rw [singleGaps, if_neg (by simpa using both)]

theorem solidLines_singleGaps (parts : List (List Char)) :
    solidLines (singleGaps parts) = solidLines parts := by
  induction parts with
  | nil => rfl
  | cons line parts inductionHypothesis =>
    obtain ⟨next, others, empty, -, -, single⟩ | ⟨-, single⟩ := singleGaps_cases line parts
    · rw [single, inductionHypothesis, solidLines_cons_blank (isBlankLine_of_isEmpty empty)]
    · rw [single, solidLines, List.filter_cons, ← solidLines, inductionHypothesis, solidLines,
        solidLines, List.filter_cons]

theorem gapAfter_singleGaps : GapAfter (singleGaps parts) count ↔ GapAfter parts count := by
  induction parts generalizing count with
  | nil => rfl
  | cons line parts inductionHypothesis =>
    obtain ⟨next, others, empty, nextEmpty, rfl, single⟩ | ⟨-, single⟩ :=
      singleGaps_cases line parts
    · rw [single, inductionHypothesis, gapAfter_cons_blank (isBlankLine_of_isEmpty empty)]
      -- The line that is left out stands in front of another one with the same count.
      refine ⟨.inr, fun gap => gap.elim (fun none => ?_) id⟩
      exact (gapAfter_cons_blank (isBlankLine_of_isEmpty nextEmpty)).mpr (.inl none)
    · rw [single]
      cases blank : isBlankLine line with
      | true => rw [gapAfter_cons_blank blank, gapAfter_cons_blank blank, inductionHypothesis]
      | false => simp only [gapAfter_cons_solid blank, inductionHypothesis]

theorem map_isEmpty_head?_singleGaps (parts : List (List Char)) :
    (singleGaps parts).head?.map List.isEmpty = parts.head?.map List.isEmpty := by
  induction parts with
  | nil => rfl
  | cons line parts inductionHypothesis =>
    obtain ⟨next, others, empty, nextEmpty, rfl, single⟩ | ⟨-, single⟩ :=
      singleGaps_cases line parts
    · rw [single, inductionHypothesis]
      simp [empty, nextEmpty]
    · rw [single]
      rfl

/-- No two lines in a row are empty. -/
def HasSingleGaps (parts : List (List Char)) : Prop :=
  parts.IsChain fun line next => ¬(line.isEmpty = true ∧ next.isEmpty = true)

theorem hasSingleGaps_singleGaps (parts : List (List Char)) :
    HasSingleGaps (singleGaps parts) := by
  induction parts with
  | nil => exact .nil
  | cons line parts inductionHypothesis =>
    obtain ⟨next, others, -, -, -, single⟩ | ⟨apart, single⟩ := singleGaps_cases line parts
    · rwa [single]
    · rw [single]
      refine List.isChain_cons.mpr ⟨fun next found both => ?_, inductionHypothesis⟩
      have head_eq := map_isEmpty_head?_singleGaps parts
      rw [Option.mem_def.mp found, Option.map_some, both.2] at head_eq
      obtain ⟨other, otherFound, otherEmpty⟩ := Option.map_eq_some_iff.mp head_eq.symm
      exact apart other otherFound ⟨both.1, otherEmpty⟩

theorem HasSingleGaps.singleGaps_eq (single : HasSingleGaps parts) : singleGaps parts = parts := by
  induction parts with
  | nil => rfl
  | cons line parts inductionHypothesis =>
    obtain ⟨apart, later⟩ := List.isChain_cons.mp single
    obtain ⟨next, others, empty, nextEmpty, rfl, -⟩ | ⟨-, kept⟩ := singleGaps_cases line parts
    · exact absurd ⟨empty, nextEmpty⟩ (apart next rfl)
    · rw [kept, inductionHypothesis later]

/-! ### Gaps at the ends -/

theorem dropOuterGaps_eq (parts : List (List Char)) :
    dropOuterGaps parts = (parts.dropWhile List.isEmpty).rdropWhile List.isEmpty := rfl

theorem solidLines_dropWhile (parts : List (List Char)) :
    solidLines (parts.dropWhile List.isEmpty) = solidLines parts := by
  induction parts with
  | nil => rfl
  | cons line parts inductionHypothesis =>
    rw [List.dropWhile_cons]
    split
    next empty => rw [inductionHypothesis, solidLines_cons_blank (isBlankLine_of_isEmpty empty)]
    next => rfl

theorem gapAfter_dropWhile (inside : 0 < count) :
    GapAfter (parts.dropWhile List.isEmpty) count ↔ GapAfter parts count := by
  induction parts with
  | nil => rfl
  | cons line parts inductionHypothesis =>
    rw [List.dropWhile_cons]
    split
    next empty =>
      rw [inductionHypothesis, gapAfter_cons_blank (isBlankLine_of_isEmpty empty),
        or_iff_right (Nat.ne_of_gt inside)]
    next => rfl

theorem solidLines_rdropWhile (parts : List (List Char)) :
    solidLines (parts.rdropWhile List.isEmpty) = solidLines parts := by
  induction parts using List.reverseRecOn with
  | nil => rfl
  | append_singleton parts line inductionHypothesis =>
    rw [List.rdropWhile_concat]
    split
    next empty =>
      rw [inductionHypothesis, solidLines, solidLines, List.filter_append,
        List.filter_cons_of_neg (by simp [isBlankLine_of_isEmpty empty]), List.filter_nil,
        List.append_nil]
    next => rfl

theorem gapAfter_rdropWhile (inside : count < (solidLines parts).length) :
    GapAfter (parts.rdropWhile List.isEmpty) count ↔ GapAfter parts count := by
  induction parts using List.reverseRecOn with
  | nil => rfl
  | append_singleton parts line inductionHypothesis =>
    rw [List.rdropWhile_concat]
    split
    next empty =>
      have blank := isBlankLine_of_isEmpty empty
      have fewer : count < (solidLines parts).length := by
        simpa [solidLines, blank] using inside
      rw [inductionHypothesis fewer, gapAfter_concat_blank blank,
        or_iff_right (Nat.ne_of_lt fewer)]
    next => rfl

theorem HasSingleGaps.dropOuterGaps (single : HasSingleGaps parts) :
    HasSingleGaps (dropOuterGaps parts) := by
  have suffix := List.dropWhile_suffix List.isEmpty (l := parts)
  have kept := (List.rdropWhile_prefix List.isEmpty (parts.dropWhile List.isEmpty)).isInfix
  exact List.IsChain.infix single (kept.trans suffix.isInfix)

end Gaps

/-! ## Tidy texts -/

/-- The lines of the text that is tidied up; none, if all its lines are blank. -/
def tidyLines (text : List Char) : List (List Char) :=
  dropOuterGaps (singleGaps ((lines text).map trimEnd))

theorem tidyChars_eq (text : List Char) : tidyChars text = unlines (tidyLines text) := rfl

theorem tidyLines_subset (text : List Char) : tidyLines text ⊆ (lines text).map trimEnd := by
  intro line member
  have member := (List.rdropWhile_prefix _ _).subset member
  exact singleGaps_subset _ ((List.dropWhile_suffix _).subset member)

theorem feed_not_mem_of_mem_lines : ∀ line ∈ lines text, '\n' ∉ line := by
  induction text with
  | nil => simp [lines, splitAt]
  | cons character text inductionHypothesis =>
    rw [lines, splitAt]
    rw [lines] at inductionHypothesis
    split
    next => exact List.forall_mem_cons.mpr ⟨List.not_mem_nil, inductionHypothesis⟩
    next other =>
      obtain ⟨part, more, cut⟩ := List.exists_cons_of_ne_nil (splitAt_ne_nil '\n' text)
      rw [cut] at inductionHypothesis ⊢
      obtain ⟨clean, others⟩ := List.forall_mem_cons.mp inductionHypothesis
      exact List.forall_mem_cons.mpr ⟨by simp [clean, Ne.symm other], others⟩

theorem feed_not_mem_of_mem_tidyLines : ∀ line ∈ tidyLines text, '\n' ∉ line := by
  intro line member present
  obtain ⟨whole, wholeMember, rfl⟩ := List.mem_map.mp (tidyLines_subset text member)
  exact feed_not_mem_of_mem_lines whole wholeMember
    ((List.rdropWhile_prefix isBlank whole).subset present)

theorem trimEnd_eq_of_mem_tidyLines : ∀ line ∈ tidyLines text, trimEnd line = line := by
  intro line member
  obtain ⟨whole, -, rfl⟩ := List.mem_map.mp (tidyLines_subset text member)
  exact trimEnd_trimEnd whole

/-- A text whose lines are all blank is tidied up to one with a single line, which is empty. -/
theorem lines_tidyChars (text : List Char) :
    lines (tidyChars text) = if tidyLines text = [] then [[]] else tidyLines text := by
  rw [tidyChars_eq]
  split
  next none =>
    rw [none]
    rfl
  next some => exact lines_unlines some feed_not_mem_of_mem_tidyLines

theorem solidLines_tidyLines (text : List Char) :
    solidLines (tidyLines text) = (solidLines (lines text)).map trimEnd := by
  rw [tidyLines, dropOuterGaps_eq, solidLines_rdropWhile, solidLines_dropWhile,
    solidLines_singleGaps, solidLines_map_trimEnd]

theorem solidLines_lines_tidyChars (text : List Char) :
    solidLines (lines (tidyChars text)) = (solidLines (lines text)).map trimEnd := by
  rw [lines_tidyChars, ← solidLines_tidyLines]
  split
  next none =>
    rw [none]
    rfl
  next => rfl

/-- Between lines that are not blank there is a gap just where there was one. -/
theorem gapAfter_lines_tidyChars (inside : 0 < count)
    (more : count < (solidLines (lines text)).length) :
    GapAfter (lines (tidyChars text)) count ↔ GapAfter (lines text) count := by
  have some : tidyLines text ≠ [] := by
    intro none
    have all := solidLines_tidyLines text
    rw [none] at all
    have none := congrArg List.length all
    rw [List.length_map, solidLines, List.filter_nil, List.length_nil] at none
    omega
  rw [lines_tidyChars, if_neg some, tidyLines, dropOuterGaps_eq, gapAfter_rdropWhile,
    gapAfter_dropWhile inside, gapAfter_singleGaps, gapAfter_map_trimEnd]
  rwa [solidLines_dropWhile, solidLines_singleGaps, solidLines_map_trimEnd, List.length_map]

/-! ### Line feeds at the ends -/

theorem head?_eq_feed_iff :
    text.head? = some '\n' ↔ ∃ next others, lines text = [] :: next :: others := by
  cases text with
  | nil => simp [lines, splitAt]
  | cons character rest =>
    obtain ⟨part, more, cut⟩ := List.exists_cons_of_ne_nil (splitAt_ne_nil '\n' rest)
    by_cases feed : character = '\n'
    · simp [lines, splitAt, feed, cut]
    · simp [lines, splitAt, feed, cut]

theorem getLast?_eq_feed_iff :
    text.getLast? = some '\n' ↔ ∃ front, front ≠ [] ∧ lines text = front ++ [[]] := by
  cases text using List.reverseRecOn with
  | nil => simp [lines, splitAt]
  | append_singleton text character =>
    rw [List.getLast?_concat, Option.some.injEq]
    constructor
    · rintro rfl
      exact ⟨lines text, splitAt_ne_nil '\n' text, lines_append_feed text []⟩
    · rintro ⟨front, -, split⟩
      by_contra other
      obtain ⟨parts, last, clean, cut⟩ := exists_last_line text
      have whole : '\n' ∉ last ++ [character] := by simp [clean, Ne.symm other]
      rw [cut, lines_of_not_mem whole] at split
      exact absurd (List.append_inj_right' split rfl) (by simp)

/-- Neither the first nor the last line is empty. -/
structure SolidEnds (parts : List (List Char)) : Prop where
  head : ∀ line ∈ parts.head?, line.isEmpty = false
  last : ∀ line ∈ parts.getLast?, line.isEmpty = false

theorem solidEnds_dropOuterGaps (parts : List (List Char)) : SolidEnds (dropOuterGaps parts) := by
  rw [dropOuterGaps_eq]
  constructor
  · intro line found
    obtain ⟨others, split⟩ := List.head?_eq_some_iff.mp found
    obtain ⟨more, whole⟩ := List.rdropWhile_prefix List.isEmpty (parts.dropWhile List.isEmpty)
    have stopped := List.head?_dropWhile_not List.isEmpty parts
    rw [← whole, split] at stopped
    simpa using stopped
  · intro line found
    obtain ⟨some, rfl⟩ := List.mem_getLast?_eq_getLast found
    exact Bool.eq_false_iff.mpr (List.rdropWhile_last_not List.isEmpty _ some)

theorem SolidEnds.dropOuterGaps_eq (solid : SolidEnds parts) : dropOuterGaps parts = parts := by
  have front : parts.dropWhile List.isEmpty = parts := by
    cases parts with
    | nil => rfl
    | cons line parts =>
      exact List.dropWhile_cons_of_neg (Bool.eq_false_iff.mp (solid.head line rfl))
  rw [Text.dropOuterGaps_eq, front, List.rdropWhile_eq_self_iff]
  exact fun some => Bool.eq_false_iff.mp (solid.last _ (List.getLast_mem_getLast? some))

/-! ### The normal form -/

theorem isTidy_tidyChars (text : List Char) : IsTidy (tidyChars text) := by
  have solid : SolidEnds (tidyLines text) := solidEnds_dropOuterGaps _
  have single : HasSingleGaps (tidyLines text) := (hasSingleGaps_singleGaps _).dropOuterGaps
  have cut := lines_tidyChars text
  by_cases none : tidyLines text = []
  · rw [if_pos none] at cut
    have empty : tidyChars text = [] := by
      rw [tidyChars_eq, none]
      rfl
    exact ⟨by simp [cut], by simp [cut], by simp [empty], by simp [empty]⟩
  · rw [if_neg none] at cut
    refine ⟨fun line member => ?_, ?_, fun feed => ?_, fun feed => ?_⟩
    · rw [cut] at member
      exact trimEnd_eq_self_iff.mp (trimEnd_eq_of_mem_tidyLines line member)
    · rw [cut]
      refine List.IsChain.imp_of_mem_imp (fun line next member nextMember apart => ?_) single
      rwa [isBlankLine_eq_isEmpty (trimEnd_eq_of_mem_tidyLines line member),
        isBlankLine_eq_isEmpty (trimEnd_eq_of_mem_tidyLines next nextMember)]
    · obtain ⟨next, others, split⟩ := head?_eq_feed_iff.mp feed
      rw [cut] at split
      cases solid.head [] (by simp [split])
    · obtain ⟨front, -, split⟩ := getLast?_eq_feed_iff.mp feed
      rw [cut] at split
      cases solid.last [] (by simp [split])

theorem IsTidy.solidEnds (tidy : IsTidy text) (filled : text ≠ []) : SolidEnds (lines text) := by
  have alone : lines text ≠ [[]] := by
    intro cut
    rw [← unlines_lines text, cut] at filled
    exact filled rfl
  -- A blank line at an end would be a line feed at the end of the text.
  constructor
  · intro line found
    obtain ⟨others, split⟩ := List.head?_eq_some_iff.mp found
    cases line with
    | cons => rfl
    | nil =>
      cases others with
      | nil => exact absurd split alone
      | cons next others =>
        exact absurd (head?_eq_feed_iff.mpr ⟨next, others, split⟩) tidy.noFirstFeed
  · intro line found
    obtain ⟨front, split⟩ := List.getLast?_eq_some_iff.mp found
    cases line with
    | cons => rfl
    | nil =>
      by_cases none : front = []
      · rw [none] at split
        exact absurd split alone
      · exact absurd (getLast?_eq_feed_iff.mpr ⟨front, none, split⟩) tidy.noLastFeed

/-- A tidy text is tidied up already. -/
theorem IsTidy.tidyChars_eq (tidy : IsTidy text) : tidyChars text = text := by
  by_cases filled : text = []
  · rw [filled]
    rfl
  · have trimmed : ∀ line ∈ lines text, trimEnd line = line := fun line member =>
      trimEnd_eq_self_iff.mpr (tidy.trimmed line member)
    have single : HasSingleGaps (lines text) := by
      refine List.IsChain.imp_of_mem_imp (fun line next member nextMember apart => ?_) tidy.single
      rwa [isBlankLine_eq_isEmpty (trimmed line member),
        isBlankLine_eq_isEmpty (trimmed next nextMember)] at apart
    have kept : (lines text).map trimEnd = lines text :=
      (List.map_congr_left trimmed).trans (List.map_id _)
    rw [Text.tidyChars_eq, tidyLines, kept, single.singleGaps_eq,
      (tidy.solidEnds filled).dropOuterGaps_eq, unlines_lines]

/-- What tidying a text up makes of it. -/
structure TidyLaw (text tidied : String) : Prop where
  isTidy : IsTidy tidied.toList
  /-- The lines that are not blank are all there, in their order and without the white space at
  their ends. -/
  solidLines_eq : solidLines (lines tidied.toList) = (solidLines (lines text.toList)).map trimEnd
  /-- There is a gap between two of them just where there was one. -/
  parted_iff : ∀ first last, last < (solidLines (lines text.toList)).length →
    (Parted (lines tidied.toList) first last ↔ Parted (lines text.toList) first last)
  tidy_eq : tidy tidied = tidied

theorem tidyLaw_tidy (text : String) : TidyLaw text (tidy text) := by
  have chars : (tidy text).toList = tidyChars text.toList := String.toList_ofList
  have isTidy := isTidy_tidyChars text.toList
  refine ⟨?_, ?_, fun first last inside => ?_, ?_⟩
  · rwa [chars]
  · rw [chars, solidLines_lines_tidyChars]
  · rw [chars]
    refine exists_congr fun count => and_congr_right fun above => and_congr_right fun below => ?_
    exact gapAfter_lines_tidyChars (by omega) (by omega)
  · rw [tidy, chars, isTidy.tidyChars_eq, ← chars, String.ofList_toList]

end PeerExpansion.Text
