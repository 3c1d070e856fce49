import PeerExpansion.Json
import PeerExpansion.Misuse
import PeerExpansion.Png

/-! # Values of attributes

What the attributes of an object can hold. A buffer is told apart from others by the hash of its
content. Hashes of numbers are numbers; the hash of any other content is a mark that stands for that
content and nothing else, save that empty content has the hash zero.
-/

namespace PeerExpansion.CachedImage

/-- Content that is not told apart by a number. -/
inductive Content
  | bytes (bytes : List UInt8)
  | text (text : String)
deriving DecidableEq

inductive Value
  | absent
  | bytes (bytes : List UInt8)
  /-- Bytes that can be changed in place. -/
  | mutableBytes (bytes : List UInt8)
  /-- Bytes that belong to someone else. -/
  | view (bytes : List UInt8)
  | number (value : Int)
  | text (text : String)
  | list (items : List Json)
  | image (summary : ImageSummary)
  /-- The hash of some content. -/
  | mark (content : Content)
deriving DecidableEq, Inhabited

namespace Value

/-- The value as it is handed to a decoder: bytes of whatever sort as bytes. -/
def frozen : Value → Value
  | mutableBytes content | view content => .bytes content
  | value => value

/-! ## Hashes -/

/-- Numbers are hashed modulo this prime of 61 bits, with their sign. -/
def hashModulus : Nat := 0x1fffffffffffffff

/-- No number has the hash minus one. -/
def numberHash (value : Int) : Int :=
  let hash := value.sign * (value.natAbs % hashModulus : Nat)
  if hash = -1 then -2 else hash

def contentHash (content : Content) : Value :=
  match content with
  | .bytes [] | .text "" => .number 0
  | content => .mark content

/-- A text of characters that fit in a byte has the same content as these bytes. -/
def textContent (text : String) : Content :=
  if text.toList.all fun character => character.toNat < 256 then
    .bytes (text.toList.map fun character => UInt8.ofNat character.toNat)
  else .text text

/-- The hash of a value. Lists and images have none. -/
def hash : Value → Except Misuse Value
  | absent => .ok .absent
  | bytes content | mutableBytes content | view content => .ok (contentHash (.bytes content))
  | number value => .ok (.number (numberHash value))
  | text content => .ok (contentHash (textContent content))
  | mark content => .ok (.mark content)
  | list _ | image _ => .error .wrongSort

/-! ## Changes in place -/

/-- The place that an index means among `count`; negative ones count from the end. -/
def place? (count : Nat) (index : Int) : Option Nat :=
  let place := if index < 0 then index + count else index
  if 0 ≤ place && place < count then some place.toNat else none

end Value

end PeerExpansion.CachedImage
