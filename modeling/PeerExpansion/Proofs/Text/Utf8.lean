import PeerExpansion.Proofs.Outcome
import PeerExpansion.Text.Utf8

/-! # Encoding and decoding

What is encoded is decoded to the same text, and what is decoded is encoded as the same bytes. The
first byte of a character says how many follow it, and the ranges that are checked shut out no
character: the short forms and the surrogates that they exclude never come about.
-/

namespace PeerExpansion.Utf8

/-- Which bytes have to follow a first byte, with the byte as a number. -/
theorem continuations?_ofNat {first : Nat} (byte : first < 256) :
    continuations? (UInt8.ofNat first) =
      if first < 0x80 then some []
      else if first < 0xc2 then none
      else if first < 0xe0 then some [(0x80, 0xbf)]
      else if first = 0xe0 then some [(0xa0, 0xbf), (0x80, 0xbf)]
      else if first = 0xed then some [(0x80, 0x9f), (0x80, 0xbf)]
      else if first < 0xf0 then some [(0x80, 0xbf), (0x80, 0xbf)]
      else if first = 0xf0 then some [(0x90, 0xbf), (0x80, 0xbf), (0x80, 0xbf)]
      else if first < 0xf4 then some [(0x80, 0xbf), (0x80, 0xbf), (0x80, 0xbf)]
      else if first = 0xf4 then some [(0x80, 0x8f), (0x80, 0xbf), (0x80, 0xbf)]
      else none := by
  simp [continuations?, UInt8.lt_iff_toNat_lt, ← UInt8.toNat_inj, Nat.mod_eq_of_lt byte]

theorem readContinuations_cons {low high : UInt8} {ranges : List (UInt8 × UInt8)}
    {bytes : List UInt8} {value seen byte : Nat} (above : low.toNat ≤ 0x80 + byte)
    (below : 0x80 + byte ≤ high.toNat) (small : byte < 0x40) :
    readContinuations value seen ((low, high) :: ranges) (UInt8.ofNat (byte + 0x80) :: bytes) =
      readContinuations (value * 64 + byte) (seen + 1) ranges bytes := by
  have counted : (UInt8.ofNat (byte + 0x80)).toNat = byte + 0x80 := by
    rw [UInt8.toNat_ofNat', Nat.mod_eq_of_lt (by omega)]
  rw [readContinuations, if_pos (by simp [UInt8.le_iff_toNat_le]; omega), counted]
  congr 1
  omega

theorem charAt_eq (ranges : List (UInt8 × UInt8)) {first : UInt8} {rest : List UInt8} {value : Nat}
    (known : continuations? first = some ranges)
    (read : readContinuations (leadingBits first ranges.length) 1 ranges rest = .ok value) :
    charAt first rest = .ok (Char.ofNat value, ranges.length) := by
  rw [charAt, known]
  simp only [read]
  rfl

/-! ## Characters by their length -/

section Characters

variable {value : Nat} (rest : List UInt8)

theorem charAt_one (small : value ≤ 0x7f) :
    charAt (UInt8.ofNat value) rest = .ok (Char.ofNat value, 0) := by
  refine charAt_eq [] ?_ ?_
  · rw [continuations?_ofNat (by omega), if_pos (by omega)]
  · simp only [List.length_nil, leadingBits, readContinuations, UInt8.toNat_ofNat']
    rw [Nat.mod_eq_of_lt (by omega)]

theorem charAt_two (long : 0x7f < value) (small : value ≤ 0x7ff) :
    charAt (UInt8.ofNat (value / 64 % 32 + 0xc0))
      (UInt8.ofNat (value % 64 + 0x80) :: rest) = .ok (Char.ofNat value, 1) := by
  refine charAt_eq [(0x80, 0xbf)] ?_ ?_
  · rw [continuations?_ofNat (by omega), if_neg (by omega), if_neg (by omega), if_pos (by omega)]
  · rw [readContinuations_cons (by simp) (by simp; omega) (by omega), readContinuations]
    simp only [List.length_singleton, leadingBits, UInt8.toNat_ofNat', Except.ok.injEq,
      Nat.reduceSub, Nat.reduceShiftLeft, Nat.reducePow]
    omega

/-- What is shut out behind the first byte are the codes of surrogates and of shorter forms. -/
theorem charAt_three (long : 0x7ff < value) (small : value ≤ 0xffff)
    (valid : value < 0xd800 ∨ 0xdfff < value) :
    charAt (UInt8.ofNat (value / 4096 % 16 + 0xe0))
      (UInt8.ofNat (value / 64 % 64 + 0x80) :: UInt8.ofNat (value % 64 + 0x80) :: rest) =
        .ok (Char.ofNat value, 2) := by
  obtain ⟨low, high, known, above, below⟩ : ∃ low high : UInt8,
      continuations? (UInt8.ofNat (value / 4096 % 16 + 0xe0)) =
          some [(low, high), (0x80, 0xbf)] ∧
        low.toNat ≤ 0x80 + value / 64 % 64 ∧ 0x80 + value / 64 % 64 ≤ high.toNat := by
    -- The range of the second byte excludes codes that are too long, and surrogates.
    rw [continuations?_ofNat (by omega), if_neg (by omega), if_neg (by omega), if_neg (by omega)]
    by_cases first : value / 4096 % 16 = 0
    · exact ⟨0xa0, 0xbf, if_pos (by omega), by simp; omega, by simp; omega⟩
    rw [if_neg (by omega)]
    by_cases surrogate : value / 4096 % 16 = 13
    · exact ⟨0x80, 0x9f, if_pos (by omega), by simp, by simp; omega⟩
    rw [if_neg (by omega), if_pos (by omega)]
    exact ⟨0x80, 0xbf, rfl, by simp, by simp; omega⟩
  refine charAt_eq _ known ?_
  rw [readContinuations_cons above below (by omega),
    readContinuations_cons (by simp) (by simp; omega) (by omega), readContinuations]
  simp only [List.length_cons, List.length_nil, leadingBits, UInt8.toNat_ofNat', Except.ok.injEq,
    Nat.reduceAdd, Nat.reduceSub, Nat.reduceShiftLeft, Nat.reducePow]
  omega

/-- Here they are the codes of shorter forms and of what is beyond the last code point. -/
theorem charAt_four (long : 0xffff < value) (small : value < 0x110000) :
    charAt (UInt8.ofNat (value / 262144 % 8 + 0xf0))
      (UInt8.ofNat (value / 4096 % 64 + 0x80) :: UInt8.ofNat (value / 64 % 64 + 0x80) ::
        UInt8.ofNat (value % 64 + 0x80) :: rest) = .ok (Char.ofNat value, 3) := by
  obtain ⟨low, high, known, above, below⟩ : ∃ low high : UInt8,
      continuations? (UInt8.ofNat (value / 262144 % 8 + 0xf0)) =
          some [(low, high), (0x80, 0xbf), (0x80, 0xbf)] ∧
        low.toNat ≤ 0x80 + value / 4096 % 64 ∧ 0x80 + value / 4096 % 64 ≤ high.toNat := by
    -- The range of the second byte excludes codes that are too long, and values too great.
    rw [continuations?_ofNat (by omega), if_neg (by omega), if_neg (by omega), if_neg (by omega),
      if_neg (by omega), if_neg (by omega), if_neg (by omega)]
    by_cases first : value / 262144 % 8 = 0
    · exact ⟨0x90, 0xbf, if_pos (by omega), by simp; omega, by simp; omega⟩
    rw [if_neg (by omega)]
    by_cases last : value / 262144 % 8 = 4
    · rw [if_neg (by omega), if_pos (by omega)]
      exact ⟨0x80, 0x8f, rfl, by simp, by simp; omega⟩
    rw [if_pos (by omega)]
    exact ⟨0x80, 0xbf, rfl, by simp, by simp; omega⟩
  refine charAt_eq _ known ?_
  rw [readContinuations_cons above below (by omega),
    readContinuations_cons (by simp) (by simp; omega) (by omega),
    readContinuations_cons (by simp) (by simp; omega) (by omega), readContinuations]
  simp only [List.length_cons, List.length_nil, leadingBits, UInt8.toNat_ofNat', Except.ok.injEq,
    Nat.reduceAdd, Nat.reduceSub, Nat.reduceShiftLeft, Nat.reducePow]
  omega

end Characters

/-! ## Texts -/

theorem isCodePoint (character : Char) :
    (character.toNat < 0xd800 ∨ 0xdfff < character.toNat) ∧ character.toNat < 0x110000 := by
  obtain low | ⟨high, bound⟩ := character.valid
  · exact ⟨.inl low, Nat.lt_trans low (by decide)⟩
  · exact ⟨.inr high, bound⟩

/-- An encoded character is read again, whatever is behind it. -/
theorem exists_charAt_of_encoded (character : Char) : ∃ first others,
    String.utf8EncodeChar character = first :: others ∧
      ∀ rest, charAt first (others ++ rest) = .ok (character, others.length) := by
  obtain ⟨valid, bound⟩ := isCodePoint character
  have answer (count : Nat) : (.ok (Char.ofNat character.toNat, count) :
      Except (Fault × Nat) (Char × Nat)) = .ok (character, count) := by
    rw [Char.ofNat_toNat]
  simp only [String.utf8EncodeChar, Char.toNat_val]
  by_cases one : character.toNat ≤ 0x7f
  · exact ⟨_, [], if_pos one, fun rest => (charAt_one rest one).trans (answer 0)⟩
  rw [if_neg one]
  by_cases two : character.toNat ≤ 0x7ff
  · exact ⟨_, [_], if_pos two, fun rest =>
      (charAt_two rest (Nat.lt_of_not_le one) two).trans (answer 1)⟩
  rw [if_neg two]
  by_cases three : character.toNat ≤ 0xffff
  · exact ⟨_, [_, _], if_pos three, fun rest =>
      (charAt_three rest (Nat.lt_of_not_le two) three valid).trans (answer 2)⟩
  · exact ⟨_, [_, _, _], if_neg three, fun rest =>
      (charAt_four rest (Nat.lt_of_not_le three) bound).trans (answer 3)⟩

theorem decodeFrom_encode (text : List Char) (offset : Nat) :
    decodeFrom offset (encode text) = .ok text := by
  induction text generalizing offset with
  | nil => rw [encode, List.flatMap_nil, decodeFrom]
  | cons character text inductionHypothesis =>
    obtain ⟨first, others, encoded, read⟩ := exists_charAt_of_encoded character
    rw [encode, List.flatMap_cons, encoded, List.cons_append, decodeFrom, read]
    simp only [List.drop_left]
    rw [← encode, inductionHypothesis]
    rfl

/-- What is encoded is decoded to the same text. -/
theorem decode_encode (text : List Char) : decode (encode text) = .ok text :=
  decodeFrom_encode text 0

theorem encode_injective {text other : List Char} (same : encode text = encode other) :
    text = other := by
  have decoded := decode_encode text
  rw [same, decode_encode] at decoded
  exact (Except.ok.inj decoded).symm

/-! ## Bytes -/

variable {value seen count : Nat} {first byte : UInt8} {bytes rest : List UInt8}
  {ranges : List (UInt8 × UInt8)} {low high : UInt8} {character : Char}

/-- What has to follow a first byte, and which first bytes that are. -/
theorem continuations?_cases (known : continuations? first = some ranges) :
    ranges = [] ∧ first.toNat < 0x80 ∨
      ranges = [(0x80, 0xbf)] ∧ 0xc2 ≤ first.toNat ∧ first.toNat < 0xe0 ∨
      (∃ low high : UInt8, ranges = [(low, high), (0x80, 0xbf)] ∧
        0xe0 ≤ first.toNat ∧ first.toNat < 0xf0 ∧ 0x80 ≤ low.toNat ∧ high.toNat ≤ 0xbf ∧
        (first.toNat = 0xe0 → 0xa0 ≤ low.toNat) ∧ (first.toNat = 0xed → high.toNat ≤ 0x9f)) ∨
      ∃ low high : UInt8, ranges = [(low, high), (0x80, 0xbf), (0x80, 0xbf)] ∧
        0xf0 ≤ first.toNat ∧ first.toNat ≤ 0xf4 ∧ 0x80 ≤ low.toNat ∧ high.toNat ≤ 0xbf ∧
        (first.toNat = 0xf0 → 0x90 ≤ low.toNat) ∧ (first.toNat = 0xf4 → high.toNat ≤ 0x8f) := by
  have spelled := continuations?_ofNat first.toNat_lt
  rw [UInt8.ofNat_toNat, known] at spelled
  by_cases one : first.toNat < 0x80
  · rw [if_pos one] at spelled
    exact .inl ⟨Option.some.inj spelled, one⟩
  rw [if_neg one] at spelled
  by_cases bare : first.toNat < 0xc2
  · rw [if_pos bare] at spelled
    cases spelled
  rw [if_neg bare] at spelled
  by_cases two : first.toNat < 0xe0
  · rw [if_pos two] at spelled
    exact .inr (.inl ⟨Option.some.inj spelled, by omega, two⟩)
  rw [if_neg two] at spelled
  by_cases three : first.toNat < 0xf0
  · refine .inr (.inr (.inl ?_))
    split at spelled
    next => exact ⟨_, _, Option.some.inj spelled, by simp; omega⟩
    split at spelled
    next => exact ⟨_, _, Option.some.inj spelled, by simp; omega⟩
    next => exact ⟨_, _, Option.some.inj spelled, by simp; omega⟩
  · refine .inr (.inr (.inr ?_))
    rw [if_neg (by omega), if_neg (by omega), if_neg three] at spelled
    split at spelled
    next => exact ⟨_, _, Option.some.inj spelled, by simp; omega⟩
    split at spelled
    next => exact ⟨_, _, Option.some.inj spelled, by simp; omega⟩
    split at spelled
    next => exact ⟨_, _, Option.some.inj spelled, by simp; omega⟩
    next => cases spelled

theorem exists_of_readContinuations {total : Nat}
    (read : readContinuations value seen ((low, high) :: ranges) bytes = .ok total) :
    ∃ byte others, bytes = byte :: others ∧ low.toNat ≤ byte.toNat ∧ byte.toNat ≤ high.toNat ∧
      readContinuations (value * 64 + byte.toNat % 64) (seen + 1) ranges others = .ok total := by
  cases bytes with
  | nil => cases read
  | cons byte others =>
    rw [readContinuations] at read
    split at read
    next within =>
      simp only [UInt8.le_iff_toNat_le, Bool.and_eq_true, decide_eq_true_eq] at within
      exact ⟨byte, others, rfl, within.1, within.2, read⟩
    next => cases read

theorem toNat_ofNat (valid : value < 0xd800 ∨ 0xdfff < value) (bound : value < 0x110000) :
    (Char.ofNat value).toNat = value := by
  have isValid : value.isValidChar := by
    obtain low | high := valid
    · exact .inl low
    · exact .inr ⟨high, bound⟩
  rw [Char.ofNat, dif_pos isValid]
  rfl

theorem eq_ofNat (counted : byte.toNat = value) : byte = UInt8.ofNat value := by
  rw [← counted, UInt8.ofNat_toNat]

section Encoded

variable {second third fourth : UInt8}

theorem encode_one (small : first.toNat < 0x80) :
    String.utf8EncodeChar (Char.ofNat (leadingBits first 0)) = [first] := by
  simp only [leadingBits, String.utf8EncodeChar, Char.toNat_val]
  rw [toNat_ofNat (by omega) (by omega), if_pos (by omega), UInt8.ofNat_toNat]

theorem encode_two (low : 0xc2 ≤ first.toNat) (high : first.toNat < 0xe0)
    (above : 0x80 ≤ second.toNat) (below : second.toNat ≤ 0xbf) :
    String.utf8EncodeChar (Char.ofNat (leadingBits first 1 * 64 + second.toNat % 64)) =
      [first, second] := by
  simp only [leadingBits, Nat.reduceSub, Nat.reduceShiftLeft, String.utf8EncodeChar,
    Char.toNat_val]
  rw [toNat_ofNat (by omega) (by omega), if_neg (by omega), if_pos (by omega), List.cons.injEq,
    List.cons.injEq]
  exact ⟨(eq_ofNat (by omega)).symm, (eq_ofNat (by omega)).symm, rfl⟩

theorem encode_three (low : 0xe0 ≤ first.toNat) (high : first.toNat < 0xf0)
    (above : 0x80 ≤ second.toNat) (below : second.toNat ≤ 0xbf)
    (short : first.toNat = 0xe0 → 0xa0 ≤ second.toNat)
    (surrogate : first.toNat = 0xed → second.toNat ≤ 0x9f)
    (thirdAbove : 0x80 ≤ third.toNat) (thirdBelow : third.toNat ≤ 0xbf) :
    String.utf8EncodeChar (Char.ofNat ((leadingBits first 2 * 64 + second.toNat % 64) * 64 +
      third.toNat % 64)) = [first, second, third] := by
  simp only [leadingBits, Nat.reduceSub, Nat.reduceShiftLeft, String.utf8EncodeChar,
    Char.toNat_val]
  rw [toNat_ofNat (by omega) (by omega), if_neg (by omega), if_neg (by omega), if_pos (by omega),
    List.cons.injEq, List.cons.injEq, List.cons.injEq]
  exact ⟨(eq_ofNat (by omega)).symm, (eq_ofNat (by omega)).symm, (eq_ofNat (by omega)).symm, rfl⟩

theorem encode_four (low : 0xf0 ≤ first.toNat) (high : first.toNat ≤ 0xf4)
    (above : 0x80 ≤ second.toNat) (below : second.toNat ≤ 0xbf)
    (short : first.toNat = 0xf0 → 0x90 ≤ second.toNat)
    (beyond : first.toNat = 0xf4 → second.toNat ≤ 0x8f)
    (thirdAbove : 0x80 ≤ third.toNat) (thirdBelow : third.toNat ≤ 0xbf)
    (fourthAbove : 0x80 ≤ fourth.toNat) (fourthBelow : fourth.toNat ≤ 0xbf) :
    String.utf8EncodeChar (Char.ofNat (((leadingBits first 3 * 64 + second.toNat % 64) * 64 +
      third.toNat % 64) * 64 + fourth.toNat % 64)) = [first, second, third, fourth] := by
  simp only [leadingBits, Nat.reduceSub, Nat.reduceShiftLeft, String.utf8EncodeChar,
    Char.toNat_val]
  rw [toNat_ofNat (by omega) (by omega), if_neg (by omega), if_neg (by omega), if_neg (by omega),
    List.cons.injEq, List.cons.injEq, List.cons.injEq, List.cons.injEq]
  exact ⟨(eq_ofNat (by omega)).symm, (eq_ofNat (by omega)).symm, (eq_ofNat (by omega)).symm,
    (eq_ofNat (by omega)).symm, rfl⟩

end Encoded

/-- The bytes that a character is read from are those that it is encoded as. -/
theorem encode_charAt (read : charAt first rest = .ok (character, count)) :
    String.utf8EncodeChar character ++ rest.drop count = first :: rest := by
  unfold charAt at read
  split at read
  next => cases read
  next ranges known =>
  obtain ⟨value, continued⟩ : ∃ value,
      readContinuations (leadingBits first ranges.length) 1 ranges rest = .ok value := by
    cases continued : readContinuations (leadingBits first ranges.length) 1 ranges rest with
    | ok value => exact ⟨value, rfl⟩
    | error fault =>
      rw [continued] at read
      cases read
  rw [continued] at read
  obtain ⟨rfl, rfl⟩ := Prod.mk.inj (Except.ok.inj read)
  -- There are as many bytes as the first of them says.
  obtain ⟨rfl, small⟩ | ⟨rfl, low, high⟩ |
    ⟨least, most, rfl, low, high, above, below, short, surrogate⟩ |
    ⟨least, most, rfl, low, high, above, below, short, beyond⟩ := continuations?_cases known
  · obtain rfl := Except.ok.inj continued
    rw [List.length_nil, encode_one small]
    rfl
  · obtain ⟨second, others, rfl, above, below, continued⟩ := exists_of_readContinuations continued
    obtain rfl := Except.ok.inj continued
    rw [List.length_singleton, encode_two low high above below]
    rfl
  · obtain ⟨second, others, rfl, secondAbove, secondBelow, continued⟩ :=
      exists_of_readContinuations continued
    obtain ⟨third, others, rfl, thirdAbove, thirdBelow, continued⟩ :=
      exists_of_readContinuations continued
    obtain rfl := Except.ok.inj continued
    rw [List.length_cons, List.length_singleton, encode_three low high (by omega) (by omega)
      (by omega) (by omega) thirdAbove thirdBelow]
    rfl
  · obtain ⟨second, others, rfl, secondAbove, secondBelow, continued⟩ :=
      exists_of_readContinuations continued
    obtain ⟨third, others, rfl, thirdAbove, thirdBelow, continued⟩ :=
      exists_of_readContinuations continued
    obtain ⟨fourth, others, rfl, fourthAbove, fourthBelow, continued⟩ :=
      exists_of_readContinuations continued
    obtain rfl := Except.ok.inj continued
    rw [List.length_cons, List.length_cons, List.length_singleton, encode_four low high (by omega)
      (by omega) (by omega) (by omega) thirdAbove thirdBelow fourthAbove fourthBelow]
    rfl

theorem encode_decodeFrom {offset : Nat} {text : List Char}
    (decoded : decodeFrom offset bytes = .ok text) : encode text = bytes := by
  induction offset, bytes using decodeFrom.induct generalizing text with
  | case1 offset =>
    rw [decodeFrom] at decoded
    obtain rfl := Except.ok.inj decoded
    rfl
  | case2 offset first rest fault count failed =>
    rw [decodeFrom, failed] at decoded
    cases decoded
  | case3 offset first rest character count read inductionHypothesis =>
    rw [decodeFrom, read] at decoded
    obtain ⟨others, later, same⟩ := exists_of_bind_eq_ok decoded
    obtain rfl := Except.ok.inj same
    rw [encode, List.flatMap_cons, ← encode, inductionHypothesis later, encode_charAt read]

/-- What is decoded is encoded as the same bytes. -/
theorem encode_of_decode {text : List Char} (decoded : decode bytes = .ok text) :
    encode text = bytes :=
  encode_decodeFrom decoded

end PeerExpansion.Utf8
