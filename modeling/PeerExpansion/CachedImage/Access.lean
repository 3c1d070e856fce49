import PeerExpansion.Association
import PeerExpansion.CachedImage
import PeerExpansion.CachedImage.Value

/-! # Access to cached images

`ImageClass.read` is the heart of this module: reading a cached image decodes its buffer only when
the hash of the buffer differs from the one kept with the image. A buffer that cannot be decoded
changes nothing, so the last good image stays and the next read tries again.
-/

namespace PeerExpansion.CachedImage

/-- Turns a buffer into a value, knowing how many buffers were decoded before. `none` stands for a
buffer that does not hold an image. -/
abbrev Decoder := Nat → Value → Except Misuse (Option Value)

structure ImageClass where
  images : List (String × CachedImage)
  decode : Decoder
  hash : Value → Except Misuse Value := Value.hash

/-- One use of the decoder, on behalf of an accessor of an object. -/
structure DecodeCall where
  object : Nat
  image : String
  buffer : Value
deriving DecidableEq

structure Gallery where
  /-- The attributes of the objects, by the objects' numbers. -/
  objects : List (Nat × List (String × Value))
  /-- The uses of the decoder so far, the last one first. -/
  calls : List DecodeCall
deriving DecidableEq

inductive AccessFault
  | noAttribute
  | readOnly (image : CachedImage)
  | misused (misuse : Misuse)
  | outOfRange
  /-- Accessors that read from each other in a circle. -/
  | endless

abbrev Access := ExceptT AccessFault (StateM Gallery)

namespace Gallery

def empty : Gallery := ⟨[], []⟩

def attributes (gallery : Gallery) (object : Nat) : List (String × Value) :=
  (gallery.objects.lookup object).getD []

def get? (gallery : Gallery) (object : Nat) (name : String) : Option Value :=
  (gallery.attributes object).lookup name

def put (gallery : Gallery) (object : Nat) (name : String) (value : Value) : Gallery :=
  { gallery with
    objects := Association.put gallery.objects object
      (Association.put (gallery.attributes object) name value) }

def erase (gallery : Gallery) (object : Nat) (name : String) : Gallery :=
  { gallery with
    objects := Association.put gallery.objects object
      (Association.erase (gallery.attributes object) name) }

/-- The names of the attributes that an object holds, in order. -/
def names (gallery : Gallery) (object : Nat) : List String :=
  ((gallery.attributes object).map (·.1)).mergeSort fun first second => !decide (second < first)

theorem get?_put (gallery : Gallery) (object other : Nat) (name key : String) (value : Value) :
    (gallery.put object name value).get? other key =
      if other = object ∧ key = name then some value else gallery.get? other key := by
  unfold get? attributes put
  rw [Association.lookup_put]
  by_cases same : other = object
  · subst same
    simp [attributes, Association.lookup_put]
  · simp [same]

end Gallery

namespace ImageClass

/-- A class with accessors of the given names; one that is named again replaces the first. -/
def ofImages (images : List CachedImage) (decode : Decoder) : ImageClass where
  images := images.foldl (fun images image => Association.put images image.name image) []
  decode := decode

def find? (images : ImageClass) (name : String) : Option CachedImage :=
  images.images.lookup name

/-- The hash that an accessor starts from when it has not decoded anything. -/
def startHash : Value := .number 0

/-- Decodes a buffer and keeps the outcome with the hash of the buffer, if there is one. -/
def refresh (images : ImageClass) (object : Nat) (image : CachedImage) (buffer hash : Value) :
    Access Unit := do
  let before ← get
  set { before with calls := ⟨object, image.name, buffer⟩ :: before.calls }
  match images.decode before.calls.length buffer with
  | .error misuse => throw (.misused misuse)
  | .ok none => return
  | .ok (some decoded) =>
    modify fun gallery =>
      (gallery.put object image.cacheAttribute decoded).put object image.hashAttribute hash

/-- What a cached image shows when its source holds `buffer`. -/
def view (images : ImageClass) (object : Nat) (image : CachedImage) (buffer : Value) :
    Access Value := do
  let buffer := buffer.frozen
  match images.hash buffer with
  | .error misuse => throw (.misused misuse)
  | .ok hash =>
    let kept := ((← get).get? object image.hashAttribute).getD startHash
    if hash ≠ kept && buffer ≠ .absent then images.refresh object image buffer hash
    return ((← get).get? object image.cacheAttribute).getD .absent

/-- Reads an attribute. Cached images come before attributes of the same name. -/
def readWithin (images : ImageClass) (object : Nat) : Nat → String → Access Value
  | 0, _ => throw .endless
  | limit + 1, name =>
    match images.find? name with
    | some image => do images.view object image (← images.readWithin object limit image.source)
    | none => do
      match (← get).get? object name with
      | some value => return value
      | none => throw .noAttribute

/-- A chain of sources passes each cached image at most once before it comes to an attribute. -/
def read (images : ImageClass) (object : Nat) (name : String) : Access Value :=
  images.readWithin object (images.images.length + 1) name

def assign (images : ImageClass) (object : Nat) (name : String) (value : Value) :
    Access Unit := do
  match images.find? name with
  | some image => throw (.readOnly image)
  | none => modify fun gallery => gallery.put object name value

def delete (images : ImageClass) (object : Nat) (name : String) : Access Unit := do
  let gallery ← get
  if (images.find? name).isSome || (gallery.get? object name).isNone then throw .noAttribute
  set (gallery.erase object name)

/-- The value with one of its items replaced. An item that is no byte is noticed before an index
that is out of range. -/
def replaced (value : Value) (index item : Int) : Except AccessFault Value :=
  match value with
  | .mutableBytes bytes =>
    if 0 ≤ item && item < 256 then
      match Value.place? bytes.length index with
      | none => .error .outOfRange
      | some place => .ok (.mutableBytes (bytes.set place (UInt8.ofNat item.toNat)))
    else .error (.misused .malformed)
  | .list items =>
    match Value.place? items.length index with
    | none => .error .outOfRange
    | some place => .ok (.list (items.set place (.int item)))
  | _ => .error (.misused .wrongSort)

/-- Replaces one item of the value an attribute holds. -/
def poke (images : ImageClass) (object : Nat) (name : String) (index item : Int) :
    Access Unit := do
  let value ← images.read object name
  match replaced value index item with
  | .error fault => throw fault
  | .ok value => modify fun gallery => gallery.put object name value

end ImageClass

end PeerExpansion.CachedImage
