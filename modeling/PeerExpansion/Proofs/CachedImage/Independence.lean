import PeerExpansion.Proofs.CachedImage.Memoization

/-! # Images that do not disturb one another

All that the images of a class keep stands in attributes of their objects, under names made from
those of the images. No two images share such a name, so nobody who assigns to the source of one
image of one object and reads it can tell what else is done in between, to the object or to others.

* `Slot.look` is a read, told from what is kept of one image of one object alone.
* `Alike` says that two galleries keep the same of it. `Alike.perform` is what concerns the image,
  `alike_perform` all else, and `Alike.performEvents` a whole run.
-/

namespace PeerExpansion.CachedImage

/-! ## Names of attributes -/

theorem name_eq_of_hashAttribute_eq {image other : CachedImage}
    (same : image.hashAttribute = other.hashAttribute) : image.name = other.name :=
  String.append_right_inj _ |>.mp (String.append_left_inj _ |>.mp same)

theorem name_eq_of_cacheAttribute_eq {image other : CachedImage}
    (same : image.cacheAttribute = other.cacheAttribute) : image.name = other.name :=
  String.append_right_inj _ |>.mp (String.append_left_inj _ |>.mp same)

/-! ## Runs over many objects -/

/-- What can be done to the objects of a class. -/
inductive Event
  | assign (object : Nat) (name : String) (value : Value)
  | read (object : Nat) (name : String)

/-- Whether an event is an assignment to the source of the image, or a read of it, on the object. -/
def Event.concerns (object : Nat) (image : CachedImage) : Event → Bool
  | assign other name _ => other == object && name == image.source
  | read other name => other == object && name == image.name

/-- How buffers are decoded for the images of these names. -/
abbrev Decoders := String → Value → Except Misuse (Option Value)

namespace ImageClass

/-- The class with a decoder that goes by the buffer alone. -/
def decodedBy (images : ImageClass) (decode : Value → Except Misuse (Option Value)) : ImageClass :=
  { images with decode := fun _ => decode }

variable (images : ImageClass) (decoders : Decoders)

/-- Every image has the decoder of its name. Only a read answers something. -/
def performEvent : Event → Access (Option Value)
  | .assign object name value => do
    images.assign object name value
    return none
  | .read object name => do return some (← (images.decodedBy (decoders name)).read object name)

/-- The events with what was answered. An event that fails does not end the run. -/
def performEvents : List Event → StateM Gallery (List (Event × Answer))
  | [] => return []
  | event :: others => do
    let answer ← (images.performEvent decoders event).run
    let told ← performEvents others
    return (event, answer) :: told

end ImageClass

/-- The uses of the decoder on behalf of one image of one object. -/
def Gallery.callsFor (gallery : Gallery) (object : Nat) (image : CachedImage) : List DecodeCall :=
  gallery.calls.filter fun call => call.object == object && call.image == image.name

/-- What is seen of one image of one object in a run: the answers to what concerns it, and the uses
of its decoder. -/
def ImageClass.observe (images : ImageClass) (decoders : Decoders) (object : Nat)
    (image : CachedImage) (events : List Event) (gallery : Gallery) :
    List (Event × Answer) × List DecodeCall :=
  let (told, last) := (images.performEvents decoders events).run gallery
  (told.filter fun (event, _) => event.concerns object image, last.callsFor object image)

/-- The attribute is none of those in which the images of the class keep what they have decoded. -/
def ImageClass.Spares (images : ImageClass) (key : String) : Prop :=
  ∀ name image, images.find? name = some image →
    key ≠ image.hashAttribute ∧ key ≠ image.cacheAttribute

/-- Images by their own names, over plain attributes other than those they keep their state in.
Several may have the same source. -/
structure ImageClass.Orderly (images : ImageClass) : Prop where
  named : ∀ name image, images.find? name = some image → image.name = name
  plain : ∀ name image, images.find? name = some image → images.find? image.source = none
  spared : ∀ name image, images.find? name = some image → images.Spares image.source

theorem find?_ofImages {images : List CachedImage} {decode : Decoder} {name : String}
    {image : CachedImage} (found : (ImageClass.ofImages images decode).find? name = some image) :
    image ∈ images ∧ image.name = name := by
  -- What stands in the class at any time was there before or is one of the images put so far.
  have put_all (rest : List CachedImage) (known : List (String × CachedImage))
      (found : (rest.foldl (fun known image => Association.put known image.name image)
        known).lookup name = some image) :
      known.lookup name = some image ∨ image ∈ rest ∧ image.name = name := by
    induction rest generalizing known with
    | nil => exact .inl found
    | cons first rest inductionHypothesis =>
      obtain found | ⟨member, named⟩ := inductionHypothesis _ found
      · rw [Association.lookup_put] at found
        split at found
        next same =>
          obtain rfl := Option.some.inj found
          exact .inr ⟨List.mem_cons_self, same.symm⟩
        next => exact .inl found
      · exact .inr ⟨List.mem_cons_of_mem _ member, named⟩
  obtain nothing | known := put_all images [] found
  · cases nothing
  · exact known

/-- No source is the name of an image of the class or one of the attributes of the images. -/
theorem orderly_ofImages {images : List CachedImage}
    (apart : ∀ image ∈ images, ∀ other ∈ images, image.source ≠ other.name ∧
      image.source ≠ other.hashAttribute ∧ image.source ≠ other.cacheAttribute)
    (decode : Decoder) : (ImageClass.ofImages images decode).Orderly where
  named _ _ found := (find?_ofImages found).2
  plain _ image found := by
    cases blocking : (ImageClass.ofImages images decode).find? image.source with
    | none => rfl
    | some other =>
      obtain ⟨otherMember, named⟩ := find?_ofImages blocking
      exact absurd named.symm (apart image (find?_ofImages found).1 other otherMember).1
  spared _ image found _ other otherFound :=
    (apart image (find?_ofImages found).1 other (find?_ofImages otherFound).1).2

/-! ## A read -/

/-- What is kept of one image of one object. -/
structure Slot where
  source : Option Value
  hash : Option Value
  image : Option Value

def Gallery.slot (gallery : Gallery) (object : Nat) (image : CachedImage) : Slot where
  source := gallery.get? object image.source
  hash := gallery.get? object image.hashAttribute
  image := gallery.get? object image.cacheAttribute

/-- What a read comes to. -/
structure Look where
  answer : Except AccessFault Value
  /-- The buffer that is handed to the decoder, if any. -/
  decoded? : Option Value
  /-- The hash and the image that are kept from now on, where the buffer could be decoded. -/
  kept? : Option (Value × Value)

def Slot.look (slot : Slot) (hash : Value → Except Misuse Value)
    (decode : Value → Except Misuse (Option Value)) : Look :=
  match slot.source with
  | none => ⟨.error .noAttribute, none, none⟩
  | some source =>
    match hash source.frozen with
    | .error misuse => ⟨.error (.misused misuse), none, none⟩
    | .ok current =>
      if current ≠ slot.hash.getD ImageClass.startHash && source.frozen ≠ .absent then
        match decode source.frozen with
        | .error misuse => ⟨.error (.misused misuse), some source.frozen, none⟩
        | .ok none => ⟨.ok (slot.image.getD .absent), some source.frozen, none⟩
        | .ok (some decoded) => ⟨.ok decoded, some source.frozen, some (current, decoded)⟩
      else ⟨.ok (slot.image.getD .absent), none, none⟩

/-- The gallery as a read leaves it. -/
def Gallery.looked (gallery : Gallery) (object : Nat) (image : CachedImage) (look : Look) :
    Gallery :=
  let calls := (look.decoded?.map (⟨object, image.name, ·⟩)).toList ++ gallery.calls
  match look.kept? with
  | none => ⟨gallery.objects, calls⟩
  | some (hash, decoded) =>
    (Gallery.put ⟨gallery.objects, calls⟩ object image.cacheAttribute decoded).put object
      image.hashAttribute hash

section Reads

variable {images : ImageClass} {image : CachedImage} {object place : Nat} {gallery : Gallery}

theorem outcome_refresh (decode : Value → Except Misuse (Option Value)) (buffer hash : Value) :
    outcome ((images.decodedBy decode).refresh object image buffer hash) gallery =
      match decode buffer with
      | .error misuse => (.error (.misused misuse), gallery.looked object image
          ⟨.error (.misused misuse), some buffer, none⟩)
      | .ok none => (.ok (), gallery.looked object image ⟨.ok .absent, some buffer, none⟩)
      | .ok (some decoded) => (.ok (), gallery.looked object image
          ⟨.ok decoded, some buffer, some (hash, decoded)⟩) := by
  rw [ImageClass.refresh, outcome_get_bind, outcome_set_bind]
  have decode_eq : (images.decodedBy decode).decode gallery.calls.length buffer = decode buffer :=
    rfl
  rw [decode_eq]
  cases decode buffer with
  | error misuse => rfl
  | ok answer => cases answer <;> rfl

theorem get?_cacheAttribute_looked {look : Look} {hash decoded : Value}
    (kept : look.kept? = some (hash, decoded)) :
    (gallery.looked object image look).get? object image.cacheAttribute = some decoded := by
  have distinct := hashAttribute_ne_cacheAttribute image image
  simp [Gallery.looked, kept, Gallery.get?_put, distinct.symm]

/-- Looking at the image of a buffer is what is told from the slot that holds the buffer. -/
theorem outcome_view {buffer : Value} (decode : Value → Except Misuse (Option Value))
    (held : (gallery.slot object image).source = some buffer) :
    outcome ((images.decodedBy decode).view object image buffer) gallery =
      (((gallery.slot object image).look images.hash decode).answer,
        gallery.looked object image ((gallery.slot object image).look images.hash decode)) := by
  -- The cases are those of the decoder; only an image that is decoded changes what is shown.
  have hash_eq : (images.decodedBy decode).hash = images.hash := rfl
  have kept_eq : (gallery.slot object image).hash = gallery.get? object image.hashAttribute := rfl
  simp only [ImageClass.view, Slot.look, held, hash_eq, kept_eq]
  cases images.hash buffer.frozen with
  | error misuse => rfl
  | ok current =>
    dsimp only
    rw [outcome_get_bind]
    split
    next =>
      have refreshed := @outcome_refresh images image object gallery decode buffer.frozen current
      cases decoded : decode buffer.frozen with
      | error misuse =>
        rw [decoded] at refreshed
        exact outcome_bind_error refreshed
      | ok answer =>
        cases answer with
        | none =>
          rw [decoded] at refreshed
          rw [outcome_bind_ok refreshed, outcome_get_bind]
          rfl
        | some value =>
          rw [decoded] at refreshed
          rw [outcome_bind_ok refreshed, outcome_get_bind, get?_cacheAttribute_looked rfl]
          rfl
    next => rfl

/-- A read is what is told from the slot of the image. -/
theorem outcome_read (found : images.find? image.name = some image)
    (plain : images.find? image.source = none)
    (decode : Value → Except Misuse (Option Value)) :
    outcome ((images.decodedBy decode).read object image.name) gallery =
      (((gallery.slot object image).look images.hash decode).answer,
        gallery.looked object image ((gallery.slot object image).look images.hash decode)) := by
  -- The class has the same images, whatever it decodes them by.
  have decodedFound : (images.decodedBy decode).find? image.name = some image := found
  have decodedPlain : (images.decodedBy decode).find? image.source = none := plain
  obtain ⟨limit, count⟩ := exists_limit decodedFound
  have read_eq : (images.decodedBy decode).read object image.name =
      (images.decodedBy decode).readWithin object (limit + 1) image.source >>=
        (images.decodedBy decode).view object image := by
    rw [ImageClass.read, count, ImageClass.readWithin, decodedFound]
  have source := @outcome_readWithin _ object _ gallery decodedPlain limit
  rw [read_eq]
  cases held : gallery.get? object image.source with
  | none =>
    have slot_source : (gallery.slot object image).source = none := held
    rw [held] at source
    rw [outcome_bind_error source, Slot.look, slot_source]
    rfl
  | some buffer =>
    rw [held] at source
    rw [outcome_bind_ok source]
    exact outcome_view decode held

/-- Reading what is no cached image changes nothing. -/
theorem outcome_read_plain {name : String} (plain : images.find? name = none)
    (decode : Value → Except Misuse (Option Value)) :
    (outcome ((images.decodedBy decode).read object name) gallery).2 = gallery := by
  have decodedPlain : (images.decodedBy decode).find? name = none := plain
  rw [ImageClass.read, outcome_readWithin decodedPlain]

theorem get?_looked (look : Look) (key : String) :
    (gallery.looked object image look).get? place key =
      match look.kept? with
      | none => gallery.get? place key
      | some (hash, decoded) =>
        if place = object ∧ key = image.hashAttribute then some hash
        else if place = object ∧ key = image.cacheAttribute then some decoded
        else gallery.get? place key := by
  cases kept : look.kept? with
  | none =>
    simp only [Gallery.looked, kept]
    rfl
  | some pair =>
    simp only [Gallery.looked, kept, Gallery.get?_put]
    rfl

theorem callsFor_looked (look : Look) (observed : CachedImage) :
    (gallery.looked object image look).callsFor place observed =
      (if object = place ∧ image.name = observed.name then
          (look.decoded?.map (⟨object, image.name, ·⟩)).toList
        else []) ++ gallery.callsFor place observed := by
  have calls_eq : (gallery.looked object image look).calls =
      (look.decoded?.map (⟨object, image.name, ·⟩)).toList ++ gallery.calls := by
    rw [Gallery.looked]
    split <;> rfl
  rw [Gallery.callsFor, calls_eq, List.filter_append, Gallery.callsFor]
  congr 1
  cases look.decoded? with
  | none => simp
  | some buffer => split <;> simp_all

end Reads

/-! ## Galleries that keep the same of an image -/

/-- Two galleries keep the same of one image of one object, and have decoded the same for it. -/
structure Alike (object : Nat) (image : CachedImage) (first second : Gallery) : Prop where
  slot_eq : first.slot object image = second.slot object image
  calls_eq : first.callsFor object image = second.callsFor object image

section Steps

variable {images : ImageClass} {decoders : Decoders} {image other : CachedImage}
variable {object place : Nat} {gallery first second last : Gallery} {event : Event}

theorem Alike.refl (gallery : Gallery) : Alike object image gallery gallery := ⟨rfl, rfl⟩

theorem Alike.trans (before : Alike object image first second)
    (after : Alike object image second last) : Alike object image first last :=
  ⟨before.slot_eq.trans after.slot_eq, before.calls_eq.trans after.calls_eq⟩

theorem Alike.put (alike : Alike object image first second) (key : String) (value : Value) :
    Alike object image (first.put object key value) (second.put object key value) where
  slot_eq := by
    have slot_eq := alike.slot_eq
    simp only [Gallery.slot, Slot.mk.injEq] at slot_eq
    simp only [Gallery.slot, Gallery.get?_put, slot_eq]
  calls_eq := alike.calls_eq

theorem Alike.looked (alike : Alike object image first second) (look : Look) :
    Alike object image (first.looked object image look) (second.looked object image look) where
  slot_eq := by
    have slot_eq := alike.slot_eq
    simp only [Gallery.slot, Slot.mk.injEq] at slot_eq
    simp only [Gallery.slot, get?_looked, slot_eq]
  calls_eq := by rw [callsFor_looked, callsFor_looked, alike.calls_eq]

/-- An attribute of another object, or one that has nothing to do with the image. -/
theorem alike_put {key : String} (value : Value)
    (apart : place = object → key ≠ image.source ∧ key ≠ image.hashAttribute ∧
      key ≠ image.cacheAttribute) :
    Alike object image gallery (gallery.put place key value) where
  slot_eq := by
    by_cases here : place = object
    · obtain ⟨source_ne, hash_ne, cache_ne⟩ := apart here
      simp [Gallery.slot, Gallery.get?_put, source_ne.symm, hash_ne.symm, cache_ne.symm]
    · have elsewhere : ¬ object = place := fun same => here same.symm
      simp [Gallery.slot, Gallery.get?_put, elsewhere]
  calls_eq := rfl

/-- A look at another object, or at another image whose attributes the source is none of. -/
theorem alike_looked (look : Look) (apart : place = object → other.name ≠ image.name ∧
      image.source ≠ other.hashAttribute ∧ image.source ≠ other.cacheAttribute) :
    Alike object image gallery (gallery.looked place other look) where
  slot_eq := by
    by_cases here : place = object
    · obtain ⟨name_ne, source_hash, source_cache⟩ := apart here
      -- Attributes of one kind are told apart by the names of the images, others by their endings.
      have hash_ne : image.hashAttribute ≠ other.hashAttribute :=
        fun same => name_ne (name_eq_of_hashAttribute_eq same).symm
      have cache_ne : image.cacheAttribute ≠ other.cacheAttribute :=
        fun same => name_ne (name_eq_of_cacheAttribute_eq same).symm
      have hash_cache := hashAttribute_ne_cacheAttribute image other
      have cache_hash := (hashAttribute_ne_cacheAttribute other image).symm
      cases kept : look.kept? <;>
        simp [Gallery.slot, get?_looked, kept, source_hash, source_cache, hash_ne, cache_ne,
          hash_cache, cache_hash]
    · have elsewhere : ¬ object = place := fun same => here same.symm
      cases kept : look.kept? <;> simp [Gallery.slot, get?_looked, kept, elsewhere]
  calls_eq := by
    have others : ¬ (place = object ∧ other.name = image.name) :=
      fun ⟨here, named⟩ => (apart here).1 named
    rw [callsFor_looked, if_neg others, List.nil_append]

theorem outcome_performEvent_read (name : String) :
    outcome (images.performEvent decoders (.read object name)) gallery =
      ((outcome ((images.decodedBy (decoders name)).read object name) gallery).1.map some,
        (outcome ((images.decodedBy (decoders name)).read object name) gallery).2) := by
  rw [ImageClass.performEvent]
  cases answered : outcome ((images.decodedBy (decoders name)).read object name) gallery with
  | mk answer next =>
    cases answer with
    | error => exact outcome_bind_error answered
    | ok => exact outcome_bind_ok answered

/-- What concerns the image is answered alike, and leaves alike galleries. -/
theorem Alike.perform (orderly : images.Orderly) (found : images.find? image.name = some image)
    (alike : Alike object image first second) (concerned : event.concerns object image = true) :
    (outcome (images.performEvent decoders event) first).1 =
        (outcome (images.performEvent decoders event) second).1 ∧
      Alike object image (outcome (images.performEvent decoders event) first).2
        (outcome (images.performEvent decoders event) second).2 := by
  have plain := orderly.plain _ _ found
  cases event with
  | assign place name value =>
    simp only [Event.concerns, Bool.and_eq_true, beq_iff_eq] at concerned
    obtain ⟨rfl, rfl⟩ := concerned
    rw [ImageClass.performEvent, outcome_bind_ok (outcome_assign plain value),
      outcome_bind_ok (outcome_assign plain value)]
    exact ⟨rfl, alike.put _ value⟩
  | read place name =>
    simp only [Event.concerns, Bool.and_eq_true, beq_iff_eq] at concerned
    obtain ⟨rfl, rfl⟩ := concerned
    rw [outcome_performEvent_read, outcome_performEvent_read, outcome_read found plain,
      outcome_read found plain, alike.slot_eq]
    exact ⟨rfl, alike.looked _⟩

/-- All else leaves what is kept of the image as it is. -/
theorem alike_perform (orderly : images.Orderly) (found : images.find? image.name = some image)
    (spared : ∀ place name value, event = .assign place name value → images.Spares name)
    (unconcerned : event.concerns object image = false) :
    Alike object image gallery (outcome (images.performEvent decoders event) gallery).2 := by
  -- It writes to another object, or to this one under names that the image does not use.
  cases event with
  | assign place name value =>
    simp only [Event.concerns, Bool.and_eq_false_iff, beq_eq_false_iff_ne] at unconcerned
    rw [ImageClass.performEvent]
    cases known : images.find? name with
    | some blocking =>
      have refused : outcome (images.assign place name value) gallery =
          (.error (.readOnly blocking), gallery) := by
        rw [ImageClass.assign, known]
        rfl
      rw [outcome_bind_error refused]
      exact .refl gallery
    | none =>
      rw [outcome_bind_ok (outcome_assign known value)]
      exact alike_put value fun here =>
        ⟨unconcerned.resolve_left (not_not_intro here), spared _ _ _ rfl _ _ found⟩
  | read place name =>
    simp only [Event.concerns, Bool.and_eq_false_iff, beq_eq_false_iff_ne] at unconcerned
    rw [outcome_performEvent_read]
    cases known : images.find? name with
    | none =>
      rw [outcome_read_plain known]
      exact .refl gallery
    | some looked =>
      obtain rfl := orderly.named _ _ known
      rw [outcome_read known (orderly.plain _ _ known)]
      exact alike_looked _ fun here =>
        ⟨unconcerned.resolve_left (not_not_intro here), orderly.spared _ _ found _ _ known⟩

/-! ## Whole runs -/

variable {events : List Event}

theorem run_performEvents_cons (event : Event) (others : List Event) :
    (images.performEvents decoders (event :: others)).run gallery =
      let happened := outcome (images.performEvent decoders event) gallery
      let later := (images.performEvents decoders others).run happened.2
      ((event, happened.1) :: later.1, later.2) := rfl

/-- What concerns the image goes in a run as if nothing else had been done in between. -/
theorem Alike.performEvents (orderly : images.Orderly)
    (found : images.find? image.name = some image)
    (spared : ∀ place name value, .assign place name value ∈ events → images.Spares name)
    (alike : Alike object image first second) :
    let alone := (images.performEvents decoders (events.filter (·.concerns object image))).run first
    let amid := (images.performEvents decoders events).run second
    alone.1.filter (·.1.concerns object image) = amid.1.filter (·.1.concerns object image) ∧
      Alike object image alone.2 amid.2 := by
  -- An event of the longer run is one of the shorter, or else leaves the two galleries alike.
  induction events generalizing first second with
  | nil => exact ⟨rfl, alike⟩
  | cons event others inductionHypothesis =>
    have othersSpared : ∀ place name value, .assign place name value ∈ others →
        images.Spares name :=
      fun place name value member => spared place name value (List.mem_cons_of_mem _ member)
    cases concerned : event.concerns object image with
    | true =>
      obtain ⟨answer_eq, alike⟩ := alike.perform orderly found concerned
      obtain ⟨told_eq, lastAlike⟩ := inductionHypothesis othersSpared alike
      rw [List.filter_cons_of_pos concerned, run_performEvents_cons, run_performEvents_cons]
      refine ⟨?_, lastAlike⟩
      simp only [List.filter_cons, concerned, if_true, answer_eq, told_eq]
    | false =>
      have unchanged : Alike object image second
          (outcome (images.performEvent decoders event) second).2 :=
        alike_perform orderly found
          (fun _ _ _ same => spared _ _ _ (List.mem_cons.mpr (.inl same.symm))) concerned
      obtain ⟨told_eq, lastAlike⟩ := inductionHypothesis othersSpared (alike.trans unchanged)
      have passed : ¬ event.concerns object image = true := ne_true_of_eq_false concerned
      rw [List.filter_cons_of_neg passed, run_performEvents_cons]
      refine ⟨?_, lastAlike⟩
      simp only [List.filter_cons, concerned, Bool.false_eq_true, if_false, told_eq]

/-- The answers that a run gives to what concerns one image of one object, and the uses of the
decoder for it, are those of the run that keeps nothing else. -/
theorem observe_filter (orderly : images.Orderly) (found : images.find? image.name = some image)
    (spared : ∀ place name value, .assign place name value ∈ events → images.Spares name)
    (decoders : Decoders) (object : Nat) (gallery : Gallery) :
    images.observe decoders object image (events.filter (·.concerns object image)) gallery =
      images.observe decoders object image events gallery := by
  have alike : Alike object image gallery gallery := .refl gallery
  obtain ⟨told_eq, lastAlike⟩ := alike.performEvents orderly found spared
  exact Prod.ext told_eq lastAlike.calls_eq

end Steps

/-- Two images of one buffer, and one of another. -/
def album : List CachedImage :=
  [⟨"cover", "front", "_data"⟩, ⟨"thumbnail", "front", "_data"⟩, ⟨"reverse", "back", "_data"⟩]

/-- Covers tell the length of their buffers, unless they begin with zero. Thumbnails tell the first
byte. All else goes wrong. -/
def albumDecoders : Decoders
  | "cover", .bytes (0 :: _) => .ok none
  | "cover", .bytes content => .ok (some (.number content.length))
  | "thumbnail", .bytes (first :: _) => .ok (some (.number first.toNat))
  | _, _ => .error .malformed

/-- Two albums in turn. The buffer of the first is missing, decoded, replaced by one that cannot be
decoded for a cover, and replaced by an absent one. -/
def albumEvents : List Event :=
  [.read 0 "cover", .assign 0 "front" (.bytes [7, 8]), .assign 1 "front" (.view [9]),
    .read 1 "cover", .read 0 "thumbnail", .read 0 "cover", .assign 0 "back" (.bytes [7, 8]),
    .read 0 "reverse", .assign 0 "front" (.mutableBytes [0, 1, 2]), .read 0 "thumbnail",
    .read 0 "cover", .assign 0 "cover" .absent, .assign 0 "front" .absent, .read 1 "thumbnail",
    .read 0 "cover", .read 0 "front", .assign 0 "front" (.bytes [4, 5, 6]), .read 0 "cover"]

theorem observe_filter_album :
    let images := ImageClass.ofImages album fun _ _ => .error .malformed
    let cover : CachedImage := ⟨"cover", "front", "_data"⟩
    images.Orderly ∧ images.find? cover.name = some cover ∧
      (∀ place name value, .assign place name value ∈ albumEvents → images.Spares name) ∧
      (albumEvents.filter (·.concerns 0 cover)).length = 9 ∧
      images.observe albumDecoders 0 cover (albumEvents.filter (·.concerns 0 cover)) .empty =
        images.observe albumDecoders 0 cover albumEvents .empty ∧
      (images.observe albumDecoders 0 cover albumEvents .empty).1.map (·.2.toOption) =
        [none, some none, some (some (.number 2)), some none, some (some (.number 2)), some none,
          some (some (.number 2)), some none, some (some (.number 3))] ∧
      (images.observe albumDecoders 0 cover albumEvents .empty).2 =
        [⟨0, "cover", .bytes [4, 5, 6]⟩, ⟨0, "cover", .bytes [0, 1, 2]⟩,
          ⟨0, "cover", .bytes [7, 8]⟩] := by
  intro images cover
  have orderly : images.Orderly := orderly_ofImages (by decide) _
  have found : images.find? cover.name = some cover := rfl
  have spared : ∀ place name value, .assign place name value ∈ albumEvents →
      images.Spares name := by
    intro place name value member _ other otherFound
    have names : name ∈ ["front", "back", "cover"] := by
      simp only [albumEvents, List.mem_cons, Event.assign.injEq, reduceCtorEq, List.not_mem_nil,
        or_false, false_or] at member
      grind
    have apart : ∀ key ∈ ["front", "back", "cover"], ∀ other ∈ album,
        key ≠ other.hashAttribute ∧ key ≠ other.cacheAttribute := by decide
    exact apart name names other (find?_ofImages otherFound).1
  exact ⟨orderly, found, spared, by decide, observe_filter orderly found spared _ 0 .empty,
    by decide, by decide⟩

end PeerExpansion.CachedImage
