import PeerExpansion.Proofs.Token.Junction

/-! # Comments

Comments are no tokens, so they are found in what lies between tokens. A boundary of a source is an
offset that a piece ends at; no comment goes beyond one.
-/

namespace PeerExpansion

open Text (slice)

/-- The comments of a text that begins at `offset`, each from its first character up to what stands
behind it. A gap that begins with a slash is a comment, and any other is a space. -/
def commentsFrom (offset : Nat) : List Char → List (Nat × Nat)
  | [] => []
  | first :: rest =>
    match pieceAt first rest with
    | .error _ => []
    | .ok (piece, length) =>
      let later := commentsFrom (offset + length + 1) (rest.drop length)
      if piece = .gap && first = '/' then (offset, offset + length + 1) :: later else later
termination_by text => text.length
decreasing_by
  simp only [List.length_drop, List.length_cons]
  omega

/-- The comments of a source, in their order. -/
def comments (source : List Char) : List (Nat × Nat) :=
  commentsFrom 0 source

/-- Comments that follow one another through a part of a text. -/
inductive Follow : Nat → List (Nat × Nat) → Nat → Prop
  | nil {start stop : Nat} : start ≤ stop → Follow start [] stop
  | cons {start stop : Nat} {comment : Nat × Nat} {others : List (Nat × Nat)} :
      start ≤ comment.1 → comment.1 < comment.2 → Follow comment.2 others stop →
        Follow start (comment :: others) stop

theorem Follow.of_le {start place stop : Nat} {spans : List (Nat × Nat)}
    (follow : Follow place spans stop) (before : start ≤ place) : Follow start spans stop := by
  cases follow with
  | nil after => exact .nil (Nat.le_trans before after)
  | cons after filled later => exact .cons (Nat.le_trans before after) filled later

theorem Follow.start_le {start stop : Nat} {spans : List (Nat × Nat)}
    (follow : Follow start spans stop) :
    start ≤ stop ∧ ∀ span ∈ spans, start ≤ span.1 ∧ span.1 < span.2 ∧ span.2 ≤ stop := by
  induction follow with
  | nil before => exact ⟨before, by simp⟩
  | cons after filled _ inductionHypothesis =>
    obtain ⟨order, within⟩ := inductionHypothesis
    refine ⟨by omega, List.forall_mem_cons.mpr ⟨⟨after, filled, order⟩, fun span member => ?_⟩⟩
    have := within span member
    omega

theorem commentsFrom_cons {first : Char} {taken rest : List Char} {piece : Piece}
    (measured : pieceAt first (taken ++ rest) = .ok (piece, taken.length)) (offset : Nat) :
    commentsFrom offset (first :: (taken ++ rest)) =
      (if piece = .gap && first = '/' then [(offset, offset + taken.length + 1)] else []) ++
        commentsFrom (offset + taken.length + 1) rest := by
  rw [commentsFrom, measured]
  simp only [List.drop_left]
  split <;> rfl

theorem lt_of_mem_commentsFrom {offset : Nat} {text : List Char} {comment : Nat × Nat}
    (member : comment ∈ commentsFrom offset text) :
    offset ≤ comment.1 ∧ comment.1 < comment.2 := by
  fun_induction commentsFrom offset text with
  | case1 | case2 => cases member
  | case3 offset first rest piece length _ later _ inductionHypothesis =>
    obtain rfl | behind := List.mem_cons.mp member
    · exact ⟨Nat.le_refl _, Nat.lt_succ_of_le (Nat.le_add_right _ _)⟩
    · have := inductionHypothesis behind
      omega
  | case4 offset first rest piece length _ later _ inductionHypothesis =>
    have := inductionHypothesis member
    omega

/-- Where a part of a text is read, its comments come first. -/
theorem Lexes.exists_comments {front behind : List Char} {words : List Word}
    (lexes : Lexes behind front words) (offset : Nat) :
    ∃ within, Follow offset within (offset + front.length) ∧
      commentsFrom offset (front ++ behind) =
        within ++ commentsFrom (offset + front.length) behind := by
  induction lexes generalizing offset with
  | nil => exact ⟨[], .nil (Nat.le_refl _), rfl⟩
  | @cons first taken rest piece words measured _ inductionHypothesis =>
    obtain ⟨within, follow, split⟩ := inductionHypothesis (offset + taken.length + 1)
    have length_eq : offset + (first :: (taken ++ rest)).length =
        offset + taken.length + 1 + rest.length := by
      simp only [List.length_cons, List.length_append]
      omega
    rw [List.cons_append, List.append_assoc, commentsFrom_cons measured, split, length_eq,
      ← List.append_assoc]
    refine ⟨_, ?_, rfl⟩
    split
    · -- The first piece is a comment.
      exact .cons (Nat.le_refl _) (Nat.lt_succ_of_le (Nat.le_add_right _ _)) follow
    · exact follow.of_le (by omega)

/-- A piece of the source ends at the offset. -/
def Boundary (source : List Char) (offset : Nat) : Prop :=
  ∃ words, Lexes (source.drop offset) (source.take offset) words

section Boundaries

variable {source : List Char} {stream : TokenStream} {start stop index : Nat}

theorem boundary_zero (source : List Char) : Boundary source 0 :=
  ⟨[], .nil⟩

theorem Boundary.lexes (boundary : Boundary source start) (behind : Boundary source stop)
    (order : start ≤ stop) : ∃ words, Lexes (source.drop stop) (slice source start stop) words := by
  obtain ⟨words, front⟩ := boundary
  obtain ⟨others, whole⟩ := behind
  rw [← Text.slice_append_drop source order] at front
  rw [← Text.take_append_slice source order] at whole
  obtain ⟨later, -, lexes⟩ := front.exists_of_append whole
  exact ⟨later, lexes⟩

theorem Boundary.append (boundary : Boundary source start) (order : start ≤ stop)
    {words : List Word} (lexes : Lexes (source.drop stop) (slice source start stop) words) :
    Boundary source stop := by
  obtain ⟨others, front⟩ := boundary
  rw [← Text.slice_append_drop source order] at front
  exact ⟨others ++ words, Text.take_append_slice source order ▸ front.append lexes⟩

variable (scanned : TokenStream.scan source = .ok stream)
include scanned

theorem boundary_start (index : Nat) : Boundary source (stream.token index).start := by
  obtain ⟨rfl, ordered⟩ := TokenStream.ordered_of_scan scanned
  obtain ⟨finish, scans⟩ := TokenStream.scans_of_scan scanned
  obtain within | beyond := Nat.lt_or_ge index stream.words.length
  · have whole := TokenStream.drop_eq_between_append (Nat.zero_le index) within
    rw [List.drop_zero] at whole
    rw [whole] at scans
    obtain ⟨front, rest, cut, place, lexes, -⟩ := scans.exists_lexes
    have length_eq : 0 + front.length = (stream.token index).start := Token.start_of_after place
    obtain ⟨taken, rfl⟩ := Text.slice_of_drop front (List.drop_zero.trans cut) length_eq
    rw [slice, List.drop_zero, Nat.sub_zero] at taken
    exact ⟨_, taken ▸ lexes⟩
  · rw [TokenStream.token_eq_ending beyond, ordered.ending_start]
    exact ⟨_, by rw [List.drop_length, List.take_length]; exact scans.lexes⟩

theorem boundary_stop (inside : index < stream.words.length) :
    Boundary source (stream.token index).stop := by
  obtain ⟨-, ordered⟩ := TokenStream.ordered_of_scan scanned
  obtain ⟨first, taken, text_eq, -, measured⟩ := TokenStream.exists_piece scanned inside
  have text_slice := TokenStream.toList_text scanned inside
  rw [text_eq, String.toList_ofList] at text_slice
  exact (boundary_start scanned index).append (Nat.le_of_lt (ordered.start_lt_stop inside))
    (text_slice ▸ Lexes.piece measured)

end Boundaries

/-- The comments from a boundary on are those up to a later one and those behind it. -/
theorem Boundary.exists_comments {source : List Char} {start stop : Nat}
    (boundary : Boundary source start) (behind : Boundary source stop) (order : start ≤ stop)
    (inside : stop ≤ source.length) :
    ∃ within, Follow start within stop ∧ commentsFrom start (source.drop start) =
      within ++ commentsFrom stop (source.drop stop) := by
  obtain ⟨words, lexes⟩ := boundary.lexes behind order
  obtain ⟨within, follow, split⟩ := lexes.exists_comments start
  rw [Text.length_slice source inside, Nat.add_sub_cancel' order] at follow split
  rw [Text.slice_append_drop source order] at split
  exact ⟨within, follow, split⟩

/-- A comment ends in front of a boundary or begins behind it. -/
theorem Boundary.apart {source : List Char} {offset : Nat} (boundary : Boundary source offset)
    (inside : offset ≤ source.length) {comment : Nat × Nat} (member : comment ∈ comments source) :
    comment.2 ≤ offset ∨ offset ≤ comment.1 := by
  obtain ⟨within, follow, split⟩ :=
    (boundary_zero source).exists_comments boundary (Nat.zero_le _) inside
  rw [comments, ← List.drop_zero (l := source), split] at member
  obtain before | behind := List.mem_append.mp member
  · exact .inl (follow.start_le.2 comment before).2.2
  · exact .inr (lt_of_mem_commentsFrom behind).1

/-! ## The end of a line -/

/-- Spaces can be read on their own. -/
theorem Lexes.blank_append {blank rest behind : List Char} (lexes : Lexes behind (blank ++ rest) [])
    (plain : '/' ∉ blank) : Lexes (rest ++ behind) blank [] := by
  induction blank with
  | nil => exact .nil
  | cons first blank inductionHypothesis =>
    rw [List.mem_cons, not_or] at plain
    obtain ⟨taken, others, piece, words, split, none, measured, later⟩ := lexes.exists_of_cons
    obtain ⟨nothing, rfl⟩ := List.append_eq_nil_iff.mp none.symm
    cases piece with
    | token => cases nothing
    | gap =>
      cases space : isSpace first with
      | false =>
        -- A gap that begins with no space is a comment, and there is no slash to begin one.
        exact absurd (comment_of_pieceAt_gap measured space).1.symm plain.1
      | true =>
        rw [pieceAt.eq_def, if_pos space, Except.ok.injEq, Prod.mk.injEq] at measured
        obtain rfl := List.length_eq_zero_iff.mp measured.2.symm
        rw [List.nil_append] at split
        rw [← split] at later
        have measured : pieceAt first ([] ++ (blank ++ (rest ++ behind))) = .ok (.gap, 0) := by
          rw [pieceAt.eq_def, if_pos space]
        exact (Lexes.piece measured).append (inductionHypothesis later plain.2)

theorem lexes_lineComment {comment behind : List Char} (line : '\n' ∉ comment)
    (ends : ∀ next ∈ behind.head?, next = '\n') : Lexes behind ('/' :: '/' :: comment) [] := by
  have whole : comment.all (· != '\n') = true := by
    simpa using fun character member => ne_of_mem_of_not_mem member line
  have stops : ∀ next ∈ behind.head?, (next != '\n') = false := by simpa using ends
  have measured : pieceAt '/' ('/' :: comment ++ behind) = .ok (.gap, ('/' :: comment).length) := by
    rw [List.cons_append, pieceAt_lineComment, Lexeme.runLength_append whole stops,
      List.length_cons, Nat.add_comm]
  exact Lexes.piece measured

end PeerExpansion
