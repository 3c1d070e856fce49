import PeerExpansion.Deflate.Inflate

/-! # PNG images

`Png.inspect` tells the size and the colour mode of an image file, if it holds all the rows that its
header announces. The file is a sequence of chunks; the rows are compressed in one or more of them.
What follows the last row is not looked at, except that a chunk that is announced has to be there.
-/

namespace PeerExpansion

structure ImageSummary where
  width : Nat
  height : Nat
  mode : String
deriving DecidableEq

namespace Png

def signature : List UInt8 :=
  [0x89, 0x50, 0x4e, 0x47, 0x0d, 0x0a, 0x1a, 0x0a]

def kindOf (name : String) : List UInt8 :=
  name.toList.map fun letter => UInt8.ofNat letter.toNat

/-! ## Chunks -/

structure ChunkHead where
  length : Nat
  kind : List UInt8
deriving DecidableEq

def isKindByte (byte : UInt8) : Bool :=
  let letter := Char.ofNat byte.toNat
  byte < 0x80 && (letter.isAlphanum || letter == '_')

/-- The head of a chunk and the bytes after it. -/
def readHead (bytes : List UInt8) : Option (ChunkHead × List UInt8) :=
  let kind := (bytes.drop 4).take 4
  if kind.length = 4 && kind.all isKindByte then
    some (⟨Checksum.bigEndian (bytes.take 4), kind⟩, bytes.drop 8)
  else none

/-- Whether the four bytes behind a chunk are its checksum. -/
def isIntact (head : ChunkHead) (content rest : List UInt8) : Bool :=
  (rest.take 4).length == 4 &&
    Checksum.bigEndian (rest.take 4) == (Checksum.crc32 (head.kind ++ content)).toNat

/-! ## The header -/

/-- The colour types of eight bits a sample: their numbers, modes and samples a pixel. -/
def colourTypes : List (UInt8 × String × Nat) :=
  [(0, "L", 1), (2, "RGB", 3), (6, "RGBA", 4)]

structure Header where
  summary : ImageSummary
  /-- How many bytes a row takes, with the one that tells how it was filtered. -/
  rowLength : Nat
deriving DecidableEq

def Header.total (header : Header) : Nat :=
  header.summary.height * header.rowLength

def readHeader (content : List UInt8) : Option Header :=
  let width := Checksum.bigEndian (content.take 4)
  let height := Checksum.bigEndian ((content.drop 4).take 4)
  match content.drop 8 with
  | 8 :: colour :: _ :: 0 :: 0 :: _ =>
    match colourTypes.lookup colour with
    | none => none
    | some (mode, samples) =>
      if width = 0 || height = 0 then none
      else some ⟨⟨width, height, mode⟩, width * samples + 1⟩
  | _ => none

/-- The header, the length of the first chunk of image data, and the bytes from its content on.
Every chunk before it has to be intact. -/
def open? (header : Option Header) : Nat → List UInt8 → Option (Header × Nat × List UInt8)
  | 0, _ => none
  | limit + 1, bytes => do
    let (head, rest) ← readHead bytes
    if head.kind = kindOf "IDAT" then return (← header, head.length, rest)
    let content := rest.take head.length
    let rest := rest.drop head.length
    if content.length < head.length || !isIntact head content rest then none
    else if head.kind = kindOf "IEND" then none
    else if head.kind = kindOf "IHDR" then
      open? (some (← readHeader content)) limit (rest.drop 4)
    else open? header limit (rest.drop 4)

/-! ## Rows -/

/-- The content of the chunks of image data in a row, and the bytes behind the last of them. -/
def gatherData : Nat → Nat → List UInt8 → List UInt8 × List UInt8
  | 0, length, bytes => (bytes.take length, bytes.drop length)
  | limit + 1, length, bytes =>
    let rest := (bytes.drop length).drop 4
    match readHead rest with
    | some (head, behind) =>
      if head.kind = kindOf "IDAT" then
        let (data, behind) := gatherData limit head.length behind
        (bytes.take length ++ data, behind)
      else (bytes.take length, rest)
    | none => (bytes.take length, rest)

/-- Whether a row may be begun with so many bits unread: there has to be a whole byte of data. -/
def hasMore (unread : Nat) : Bool :=
  8 ≤ unread

/-- Whether rows of `rowLength` bytes can be filled up to `total` bytes, when `written` are there
and `pieces` follow. Data that ends at the end of a row is enough, however few rows there are. -/
def fillsRows (rowLength total : Nat) (ending : Except Deflate.Fault Unit) (atEnd : Nat)
    (written : Nat) : List Deflate.Piece → Bool
  | [] => ending.toBool && written != 0 && written % rowLength == 0
  | piece :: others =>
    let reached := written + piece.output.length
    let crossed := written / rowLength < (min reached total - 1) / rowLength
    if crossed && !hasMore piece.unread then false
    else if total < reached then true
    else if reached = total then
      !others.isEmpty || ending matches .ok _ | .error .exhausted
    else
      let unread := (others.head?.map Deflate.Piece.unread).getD atEnd
      if reached % rowLength = 0 && !hasMore unread && !(others.isEmpty && ending.toBool) then
        false
      else fillsRows rowLength total ending atEnd reached others

/-- A row begins with the number of its filter, of which there are five. -/
def hasKnownFilters (rowLength : Nat) (output : List UInt8) : Bool :=
  output.zipIdx.all fun (byte, place) => place % rowLength != 0 || byte < 5

def holdsRows (header : Header) (data : List UInt8) : Bool :=
  let inflation := Deflate.inflate data
  fillsRows header.rowLength header.total inflation.ending inflation.unread 0 inflation.pieces &&
    hasKnownFilters header.rowLength (inflation.output.take header.total)

/-- Whether the chunks behind the data are as long as they say, up to the last chunk or to bytes
that are no chunk. -/
def hasWholeChunks : Nat → List UInt8 → Bool
  | 0, _ => true
  | limit + 1, bytes =>
    match readHead bytes with
    | none => true
    | some (head, rest) =>
      head.kind = kindOf "IEND" ||
        (head.length ≤ rest.length && hasWholeChunks limit (rest.drop (head.length + 4)))

def inspect (bytes : List UInt8) : Option ImageSummary := do
  if bytes.take signature.length ≠ signature then none
  let (header, length, rest) ← open? none bytes.length (bytes.drop signature.length)
  let (data, behind) := gatherData bytes.length length rest
  if holdsRows header data && hasWholeChunks bytes.length behind then return header.summary
  else none

end Png

end PeerExpansion
