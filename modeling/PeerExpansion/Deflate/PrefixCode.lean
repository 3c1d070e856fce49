/-! # Prefix codes and bits

Compressed data is a sequence of bits in which symbols are written in canonical prefix codes: the
lengths of the code words determine the words. `Inflating` reads such data and keeps what it has
written when it fails.
-/

namespace PeerExpansion.Deflate

inductive Fault
  /-- The data cannot be right. -/
  | broken
  /-- The data ends too early. -/
  | exhausted
deriving DecidableEq

/-- What one symbol wrote, and how many bits were unread after it. -/
structure Piece where
  output : List UInt8
  unread : Nat
deriving DecidableEq

structure Inflater where
  bits : List Bool
  /-- All bytes written so far, the last one first. -/
  written : List UInt8
  /-- The pieces so far, the last one first. -/
  pieces : List Piece

abbrev Inflating := ExceptT Fault (StateM Inflater)

/-! ## Bits -/

/-- The bits of a byte, the lowest first. -/
def bitsOf (byte : UInt8) : List Bool :=
  (List.range 8).map byte.toNat.testBit

def readBit : Inflating Nat := do
  let state ← get
  match state.bits with
  | [] => throw .exhausted
  | bit :: bits =>
    set { state with bits }
    return bit.toNat

/-- A number of `count` bits, the lowest first. -/
def readBits : Nat → Inflating Nat
  | 0 => return 0
  | count + 1 => do
    let low ← readBit
    let high ← readBits count
    return low + 2 * high

/-- Skips the rest of a byte that has been begun. -/
def alignToByte : Inflating Unit :=
  modify fun state => { state with bits := state.bits.drop (state.bits.length % 8) }

def emit (output : List UInt8) : Inflating Unit :=
  modify fun state => { state with
    written := output.reverse ++ state.written
    pieces := ⟨output, state.bits.length⟩ :: state.pieces }

/-! ## Prefix codes -/

def longestWord : Nat := 15

structure PrefixCode where
  /-- How many code words there are of each length, from one bit on. -/
  counts : List Nat
  /-- The symbols in the order of their code words, shorter words first. -/
  symbols : List Nat

namespace PrefixCode

/-- The code in which symbol `n` has a word of the `n`th length; length zero means no word. -/
def ofLengths (lengths : List Nat) : PrefixCode :=
  let sizes := (List.range longestWord).map (· + 1)
  { counts := sizes.map lengths.count
    symbols := sizes.flatMap fun size =>
      (lengths.zipIdx.filter fun (length, _) => length == size).map (·.2) }

def usedLengths (lengths : List Nat) : List Nat :=
  lengths.filter (· != 0)

/-- Whether words of these lengths leave no room for another. -/
def isFull (lengths : List Nat) : Bool :=
  let shares := (usedLengths lengths).map fun length => 1 <<< (longestWord - length)
  shares.foldl (· + ·) 0 == 1 <<< longestWord

/-- A code may also have no word at all, or a single word of one bit. -/
def isUsable (lengths : List Nat) : Bool :=
  isFull lengths || usedLengths lengths == [] || usedLengths lengths == [1]

/-- Reads a word whose number among the words of at least the current length is `offset`. -/
def decodeFrom (offset : Nat) : List Nat → List Nat → Inflating Nat
  | [], _ => throw .broken
  | count :: counts, symbols => do
    let offset := 2 * offset + (← readBit)
    if offset < count then return symbols.getD offset 0
    else decodeFrom (offset - count) counts (symbols.drop count)

def decode (code : PrefixCode) : Inflating Nat :=
  decodeFrom 0 code.counts code.symbols

end PrefixCode

end PeerExpansion.Deflate
