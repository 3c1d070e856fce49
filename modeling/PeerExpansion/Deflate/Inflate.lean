import PeerExpansion.Checksum
import PeerExpansion.Deflate.PrefixCode

/-! # Decompression

Compressed data is a header of two bytes, blocks, and a checksum. A block is stored as it is, or in
prefix codes, which are either fixed or described in front of the block. `inflate` tells what each
symbol wrote and how it ended, so that a reader who wants only so many bytes can judge whether it
got them.
-/

namespace PeerExpansion.Deflate

/-! ## Symbols of a block -/

/-- The smallest length that each length symbol stands for, and the bits that are added to it. -/
def lengthRanges : List (Nat × Nat) :=
  [(3, 0), (4, 0), (5, 0), (6, 0), (7, 0), (8, 0), (9, 0), (10, 0), (11, 1), (13, 1), (15, 1),
    (17, 1), (19, 2), (23, 2), (27, 2), (31, 2), (35, 3), (43, 3), (51, 3), (59, 3), (67, 4),
    (83, 4), (99, 4), (115, 4), (131, 5), (163, 5), (195, 5), (227, 5), (258, 0)]

def distanceRanges : List (Nat × Nat) :=
  [(1, 0), (2, 0), (3, 0), (4, 0), (5, 1), (7, 1), (9, 2), (13, 2), (17, 3), (25, 3), (33, 4),
    (49, 4), (65, 5), (97, 5), (129, 6), (193, 6), (257, 7), (385, 7), (513, 8), (769, 8),
    (1025, 9), (1537, 9), (2049, 10), (3073, 10), (4097, 11), (6145, 11), (8193, 12),
    (12289, 12), (16385, 13), (24577, 13)]

def readInRange (ranges : List (Nat × Nat)) (symbol : Nat) : Inflating Nat := do
  match ranges[symbol]? with
  | none => throw .broken
  | some (base, extra) => return base + (← readBits extra)

/-- The next `count` bytes when each repeats the one `distance` bytes before it. -/
def repeated (distance : Nat) : Nat → List UInt8 → List UInt8
  | 0, _ => []
  | count + 1, written =>
    let byte := written.getD (distance - 1) 0
    byte :: repeated distance count (byte :: written)

def emitRepeated (length distance : Nat) : Inflating Unit := do
  let state ← get
  if state.written.length < distance then throw .broken
  emit (repeated distance length state.written)

/-- The symbol that ends a block. -/
def blockEnd : Nat := 256

/-- Reads the symbols of a block, each of which takes a bit or more. -/
def readSymbols (literals distances : PrefixCode) : Nat → Inflating Unit
  | 0 => throw .exhausted
  | limit + 1 => do
    let symbol ← literals.decode
    if symbol = blockEnd then return
    if symbol < blockEnd then emit [UInt8.ofNat symbol]
    else
      let length ← readInRange lengthRanges (symbol - blockEnd - 1)
      let distance ← readInRange distanceRanges (← distances.decode)
      emitRepeated length distance
    readSymbols literals distances limit

/-! ## Blocks -/

def emitStored : Nat → Inflating Unit
  | 0 => return
  | count + 1 => do
    emit [UInt8.ofNat (← readBits 8)]
    emitStored count

def readStored : Inflating Unit := do
  alignToByte
  let length ← readBits 16
  let complement ← readBits 16
  if length + complement ≠ 0xffff then throw .broken
  emitStored length

def readCoded (literalLengths distanceLengths : List Nat) : Inflating Unit := do
  let state ← get
  readSymbols (.ofLengths literalLengths) (.ofLengths distanceLengths) (state.bits.length + 1)

def fixedLiteralLengths : List Nat :=
  List.replicate 144 8 ++ List.replicate 112 9 ++ List.replicate 24 7 ++ List.replicate 8 8

def fixedDistanceLengths : List Nat :=
  List.replicate 30 5

/-- The lengths of the code for code lengths come in this order. -/
def lengthOrder : List Nat :=
  [16, 17, 18, 0, 8, 7, 9, 6, 10, 5, 11, 4, 12, 3, 13, 2, 14, 1, 15]

/-- What a symbol adds to the lengths read so far, of which `last` is the last. -/
def readLengthRun (symbol : Nat) (last : Option Nat) : Inflating (List Nat) := do
  match symbol, last with
  | 16, none => throw .broken
  | 16, some last => return List.replicate (3 + (← readBits 2)) last
  | 17, _ => return List.replicate (3 + (← readBits 3)) 0
  | 18, _ => return List.replicate (11 + (← readBits 7)) 0
  | length, _ => return [length]

/-- Reads code lengths until there are `total`. -/
def readLengths (code : PrefixCode) (total : Nat) : Nat → List Nat → Inflating (List Nat)
  | 0, lengths => return lengths
  | limit + 1, lengths => do
    if lengths.length = total then return lengths
    let run ← readLengthRun (← code.decode) lengths.getLast?
    if total < (lengths ++ run).length then throw .broken
    readLengths code total limit (lengths ++ run)

def readLengthCode (count : Nat) : Inflating (List Nat) := do
  let given ← (lengthOrder.take count).mapM fun symbol => do return (symbol, ← readBits 3)
  return (List.range lengthOrder.length).map fun symbol => (given.lookup symbol).getD 0

def readDescribed : Inflating Unit := do
  let literalCount := 257 + (← readBits 5)
  let distanceCount := 1 + (← readBits 5)
  let codeCount := 4 + (← readBits 4)
  if 286 < literalCount || 30 < distanceCount then throw .broken
  let codeLengths ← readLengthCode codeCount
  if !PrefixCode.isFull codeLengths then throw .broken
  let total := literalCount + distanceCount
  let lengths ← readLengths (.ofLengths codeLengths) total total []
  let literalLengths := lengths.take literalCount
  let distanceLengths := lengths.drop literalCount
  if literalLengths.getD blockEnd 0 = 0 || !PrefixCode.isUsable literalLengths ||
      !PrefixCode.isUsable distanceLengths then
    throw .broken
  readCoded literalLengths distanceLengths

/-- Reads blocks up to the one that says it is the last. -/
def readBlocks : Nat → Inflating Unit
  | 0 => throw .exhausted
  | limit + 1 => do
    let last ← readBit
    match ← readBits 2 with
    | 0 => readStored
    | 1 => readCoded fixedLiteralLengths fixedDistanceLengths
    | 2 => readDescribed
    | _ => throw .broken
    if last = 0 then readBlocks limit

/-! ## Whole data -/

/-- The method, the size of the window and a check; there is no dictionary. -/
def readHeader : Inflating Unit := do
  let method ← readBits 8
  let flags ← readBits 8
  if (method * 256 + flags) % 31 ≠ 0 || method % 16 ≠ 8 || 7 < method / 16 ||
      flags / 32 % 2 = 1 then
    throw .broken

def readChecksum : Inflating Unit := do
  alignToByte
  let bytes ← (List.range 4).mapM fun _ => readBits 8
  let state ← get
  if Checksum.bigEndian (bytes.map UInt8.ofNat) ≠ Checksum.adler32 state.written.reverse then
    throw .broken

def readAll : Inflating Unit := do
  readHeader
  readBlocks ((← get).bits.length + 1)
  readChecksum

structure Inflation where
  pieces : List Piece
  ending : Except Fault Unit
  /-- How many bits were unread at the end. -/
  unread : Nat

def inflate (bytes : List UInt8) : Inflation :=
  let (ending, state) := (ExceptT.run readAll).run ⟨bytes.flatMap bitsOf, [], []⟩
  ⟨state.pieces.reverse, ending, state.bits.length⟩

def Inflation.output (inflation : Inflation) : List UInt8 :=
  inflation.pieces.flatMap (·.output)

end PeerExpansion.Deflate
