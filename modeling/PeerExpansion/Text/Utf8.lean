/-! # Decoding UTF-8

`decode` accepts the well-formed sequences only: the shortest form of every code point that is not
a surrogate. An error covers the longest stretch of bytes that could have begun such a sequence.
-/

namespace PeerExpansion.Utf8

inductive Fault
  | invalidStart
  | invalidContinuation
  | unexpectedEnd
deriving DecidableEq

def Fault.message : Fault → String
  | invalidStart => "invalid start byte"
  | invalidContinuation => "invalid continuation byte"
  | unexpectedEnd => "unexpected end of data"

structure DecodeError where
  fault : Fault
  /-- The offset of the first byte that could not be decoded, the byte, and how many there are. -/
  offset : Nat
  first : UInt8
  count : Nat
deriving DecidableEq

/-- The ranges that the bytes after a given first byte have to lie in. -/
def continuations? (first : UInt8) : Option (List (UInt8 × UInt8)) :=
  if first < 0x80 then some []
  else if first < 0xc2 then none
  else if first < 0xe0 then some [(0x80, 0xbf)]
  else if first = 0xe0 then some [(0xa0, 0xbf), (0x80, 0xbf)]
  else if first = 0xed then some [(0x80, 0x9f), (0x80, 0xbf)]
  else if first < 0xf0 then some [(0x80, 0xbf), (0x80, 0xbf)]
  else if first = 0xf0 then some [(0x90, 0xbf), (0x80, 0xbf), (0x80, 0xbf)]
  else if first < 0xf4 then some [(0x80, 0xbf), (0x80, 0xbf), (0x80, 0xbf)]
  else if first = 0xf4 then some [(0x80, 0x8f), (0x80, 0xbf), (0x80, 0xbf)]
  else none

/-- The bits of the code point that the first byte holds, when `count` bytes follow it. -/
def leadingBits (first : UInt8) (count : Nat) : Nat :=
  match count with
  | 0 => first.toNat
  | count => first.toNat % (1 <<< (6 - count))

/-- Adds the bits of the bytes behind the first one. `seen` bytes have been read before. -/
def readContinuations (value seen : Nat) :
    List (UInt8 × UInt8) → List UInt8 → Except (Fault × Nat) Nat
  | [], _ => .ok value
  | _ :: _, [] => .error (.unexpectedEnd, seen)
  | (low, high) :: ranges, byte :: bytes =>
    if low ≤ byte && byte ≤ high then
      readContinuations (value * 64 + byte.toNat % 64) (seen + 1) ranges bytes
    else .error (.invalidContinuation, seen)

/-- The character that begins with the byte `first`, and how many bytes of `rest` belong to it. -/
def charAt (first : UInt8) (rest : List UInt8) : Except (Fault × Nat) (Char × Nat) :=
  match continuations? first with
  | none => .error (.invalidStart, 1)
  | some ranges =>
    (readContinuations (leadingBits first ranges.length) 1 ranges rest).map fun value =>
      (Char.ofNat value, ranges.length)

def decodeFrom (offset : Nat) : List UInt8 → Except DecodeError (List Char)
  | [] => .ok []
  | first :: rest =>
    match charAt first rest with
    | .error (fault, count) => .error ⟨fault, offset, first, count⟩
    | .ok (character, count) => do
      let others ← decodeFrom (offset + 1 + count) (rest.drop count)
      return character :: others
termination_by bytes => bytes.length
decreasing_by
  simp only [List.length_drop, List.length_cons]
  omega

def decode (bytes : List UInt8) : Except DecodeError (List Char) :=
  decodeFrom 0 bytes

def encode (text : List Char) : List UInt8 :=
  text.flatMap String.utf8EncodeChar

def hexByte (byte : UInt8) : String :=
  let digits := Nat.toDigits 16 byte.toNat
  String.ofList (List.replicate (2 - digits.length) '0' ++ digits)

def DecodeError.message (error : DecodeError) : String :=
  let place :=
    if error.count = 1 then
      "byte 0x" ++ hexByte error.first ++ " in position " ++ toString error.offset
    else
      "bytes in position " ++ toString error.offset ++ "-" ++
        toString (error.offset + error.count - 1)
  "'utf-8' codec can't decode " ++ place ++ ": " ++ error.fault.message

end PeerExpansion.Utf8
