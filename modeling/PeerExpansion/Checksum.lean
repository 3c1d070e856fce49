/-! # Checksums

The two sums that guard compressed images: one over each chunk, one over the decompressed data.
-/

namespace PeerExpansion.Checksum

/-- One bit of division by the polynomial, lowest bit first. -/
def crcBit (remainder : UInt32) : UInt32 :=
  if remainder &&& 1 = 1 then (remainder >>> 1) ^^^ 0xedb88320 else remainder >>> 1

def crcByte (remainder : UInt32) (byte : UInt8) : UInt32 :=
  Nat.repeat crcBit 8 (remainder ^^^ byte.toUInt32)

/-- The cyclic redundancy check of 32 bits. -/
def crc32 (bytes : List UInt8) : UInt32 :=
  bytes.foldl crcByte 0xffffffff ^^^ 0xffffffff

/-- The sum of the bytes and the sum of those sums, both modulo 65521. -/
def adler32 (bytes : List UInt8) : Nat :=
  let (sum, sums) := bytes.foldl
    (fun (sum, sums) byte =>
      let sum := (sum + byte.toNat) % 65521
      (sum, (sums + sum) % 65521))
    (1, 0)
  sums * 65536 + sum

/-- The number that bytes spell, the highest first. -/
def bigEndian (bytes : List UInt8) : Nat :=
  bytes.foldl (fun value byte => value * 256 + byte.toNat) 0

end PeerExpansion.Checksum
