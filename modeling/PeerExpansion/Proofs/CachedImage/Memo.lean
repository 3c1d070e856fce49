import PeerExpansion.CachedImage.Access

/-! # The machine that remembers contents

An accessor knows its last image by the hash of a buffer. `Memo` is the machine that remembers the
content itself: it decodes a buffer unless that is missing or was decoded last, and keeps its image
when the buffer cannot be decoded. `ImageClass.performAll` is a run of the accessor to compare with.
-/

namespace PeerExpansion.CachedImage

/-! ## Buffers -/

/-- What an attribute can hold for an image to be decoded from it. -/
inductive Buffer
  | absent
  | bytes (content : List UInt8)
  | mutableBytes (content : List UInt8)
  | view (content : List UInt8)
deriving DecidableEq

namespace Buffer

def toValue : Buffer → Value
  | absent => .absent
  | bytes content => .bytes content
  | mutableBytes content => .mutableBytes content
  | view content => .view content

def content? : Buffer → Option (List UInt8)
  | absent => none
  | bytes content | mutableBytes content | view content => some content

/-- The buffer with one of its bytes replaced in place. -/
def poke (buffer : Buffer) (index item : Int) : Except AccessFault Buffer :=
  match buffer with
  | mutableBytes content =>
    if 0 ≤ item && item < 256 then
      match Value.place? content.length index with
      | none => .error .outOfRange
      | some place => .ok (mutableBytes (content.set place (UInt8.ofNat item.toNat)))
    else .error (.misused .malformed)
  | _ => .error (.misused .wrongSort)

theorem frozen_toValue_of_absent {buffer : Buffer} (absent : buffer.content? = none) :
    buffer.toValue.frozen = .absent := by
  cases buffer with
  | absent => rfl
  | bytes | mutableBytes | view => cases absent

theorem frozen_toValue {buffer : Buffer} {content : List UInt8}
    (holds : buffer.content? = some content) : buffer.toValue.frozen = .bytes content := by
  cases buffer with
  | absent => cases holds
  | bytes | mutableBytes | view =>
    cases holds
    rfl

theorem replaced_toValue (buffer : Buffer) (index item : Int) :
    ImageClass.replaced buffer.toValue index item = (buffer.poke index item).map toValue := by
  cases buffer with
  | absent | bytes | view => rfl
  | mutableBytes content =>
    simp only [toValue, ImageClass.replaced, poke]
    split
    · cases Value.place? content.length index <;> rfl
    · rfl

end Buffer

/-! ## Runs of an accessor -/

/-- What can be done to a cached image: its buffer is assigned or changed, and the image is read. -/
inductive Use
  | assign (buffer : Buffer)
  | poke (index item : Int)
  | read

abbrev Answer := Except AccessFault (Option Value)

namespace ImageClass

variable (images : ImageClass) (object : Nat) (image : CachedImage)

/-- Only a read answers something. -/
def perform : Use → Access (Option Value)
  | .assign buffer => do
    images.assign object image.source buffer.toValue
    return none
  | .poke index item => do
    images.poke object image.source index item
    return none
  | .read => do return some (← images.read object image.name)

/-- A use that fails does not end the run. -/
def performAll : List Use → StateM Gallery (List Answer)
  | [] => return []
  | use :: others => do
    let answer ← (images.perform object image use).run
    let answers ← performAll others
    return answer :: answers

end ImageClass

/-! ## The machine that remembers contents -/

structure Memo where
  /-- What the source holds, once something has been assigned to it. -/
  held : Option Buffer
  /-- The content that was decoded last, and its image. -/
  kept : Option (List UInt8 × Value)
  /-- The contents that were handed to the decoder, in order. -/
  calls : List (List UInt8)

namespace Memo

variable (decode : Nat → List UInt8 → Option Value)

/-- The last image, or the absent value where there is none yet. -/
def image (memo : Memo) : Value :=
  (memo.kept.map (·.2)).getD .absent

def decoded (memo : Memo) (content : List UInt8) : Memo where
  held := memo.held
  kept := ((decode memo.calls.length content).map (content, ·)).or memo.kept
  calls := memo.calls ++ [content]

/-- The machine after a read. It decodes unless there is nothing to decode or the image is known. -/
def looked (memo : Memo) (buffer : Buffer) : Memo :=
  match buffer.content? with
  | none => memo
  | some content =>
    if memo.kept.map (·.1) = some content then memo else memo.decoded decode content

def step (memo : Memo) : Use → Answer × Memo
  | .assign buffer => (.ok none, { memo with held := some buffer })
  | .poke index item =>
    match memo.held with
    | none => (.error .noAttribute, memo)
    | some buffer =>
      match buffer.poke index item with
      | .error fault => (.error fault, memo)
      | .ok changed => (.ok none, { memo with held := some changed })
  | .read =>
    match memo.held with
    | none => (.error .noAttribute, memo)
    | some buffer => (.ok (some (memo.looked decode buffer).image), memo.looked decode buffer)

def run (memo : Memo) : List Use → List Answer × Memo
  | [] => ([], memo)
  | use :: others =>
    let (answer, next) := memo.step decode use
    let (answers, last) := next.run others
    (answer :: answers, last)

/-- The machine of an object that has not been read, where the source holds `held`. -/
def start (held : Option Buffer) : Memo :=
  ⟨held, none, []⟩

/-- The contents that the source holds at some moment of a run. -/
def contents (memo : Memo) (uses : List Use) : List (List UInt8) :=
  (memo.held.bind Buffer.content?).toList ++
    match uses with
    | [] => []
    | use :: others => (memo.step decode use).2.contents others

end Memo

/-! ## What is taken for granted -/

/-- An accessor over a plain attribute, with a decoder that depends on the content and on how often
it was called before. -/
structure Serves (images : ImageClass) (image : CachedImage) (earlier : Nat)
    (decode : Nat → List UInt8 → Option Value) : Prop where
  found : images.find? image.name = some image
  plain : images.find? image.source = none
  decodes : ∀ count content, images.decode (earlier + count) (.bytes content) =
    .ok (decode count content)

/-- Hashes tell some contents from one another and from the hash that an accessor starts from. -/
structure TellsApart (images : ImageClass) (contents : List (List UInt8)) : Prop where
  hashed : ∀ content ∈ contents, ∃ hash, images.hash (.bytes content) = .ok hash ∧
    hash ≠ ImageClass.startHash
  injective : ∀ first ∈ contents, ∀ second ∈ contents,
    images.hash (.bytes first) = images.hash (.bytes second) → first = second
  absent : ∃ hash, images.hash .absent = .ok hash

/-- The source is not one of the two attributes that an accessor keeps its own state in. -/
structure Apart (image : CachedImage) : Prop where
  hash_ne : image.source ≠ image.hashAttribute
  cache_ne : image.source ≠ image.cacheAttribute

theorem hashAttribute_ne_cacheAttribute (image other : CachedImage) :
    image.hashAttribute ≠ other.cacheAttribute := by
  intro same
  -- The names end in different letters.
  have hash_ends : image.hashAttribute.toList.getLast? = some 'h' := by
    simp only [hashAttribute, String.toList_append, List.getLast?_append]
    rfl
  have cache_ends : other.cacheAttribute.toList.getLast? = some 'e' := by
    simp only [cacheAttribute, String.toList_append, List.getLast?_append]
    rfl
  rw [same, cache_ends] at hash_ends
  cases hash_ends

end PeerExpansion.CachedImage
