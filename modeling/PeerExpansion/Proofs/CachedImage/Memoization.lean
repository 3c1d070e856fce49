import PeerExpansion.Proofs.CachedImage.Memo
import PeerExpansion.Proofs.Outcome

/-! # Reading a cached image is memoised decoding

As long as hashes tell the contents of a run apart, nobody can tell an accessor from the machine
that remembers contents: a run gives the same answers and makes the same calls of the decoder.

* `Related` says how the attributes of an object stand for a `Memo`.
* `Related.perform` is one use, `Related.performAll` a whole run.
-/

namespace PeerExpansion.CachedImage

/-! ## Outcomes of accesses -/

section Access

variable {images : ImageClass} {object : Nat} {name : String} {gallery : Gallery}

theorem outcome_assign (plain : images.find? name = none) (value : Value) :
    outcome (images.assign object name value) gallery =
      (.ok (), gallery.put object name value) := by
  rw [ImageClass.assign, plain]
  rfl

theorem outcome_readWithin (plain : images.find? name = none) (limit : Nat) :
    outcome (images.readWithin object (limit + 1) name) gallery =
      (match gallery.get? object name with
        | some value => .ok value
        | none => .error .noAttribute, gallery) := by
  rw [ImageClass.readWithin, plain]
  rw [outcome_get_bind]
  cases gallery.get? object name <;> rfl

theorem exists_limit {image : CachedImage} (found : images.find? name = some image) :
    ∃ limit, images.images.length = limit + 1 := by
  cases known : images.images with
  | nil =>
    rw [ImageClass.find?, known] at found
    cases found
  | cons => exact ⟨_, rfl⟩

end Access

/-! ## Simulation -/

section Simulation

variable {images : ImageClass} {object : Nat} {image : CachedImage}
variable {decode : Nat → List UInt8 → Option Value} {earlier : List DecodeCall}

/-- The attributes of an object stand for a memo: the hash is that of the content last decoded. -/
structure Related (images : ImageClass) (object : Nat) (image : CachedImage)
    (earlier : List DecodeCall) (memo : Memo) (gallery : Gallery) : Prop where
  held_eq : gallery.get? object image.source = memo.held.map Buffer.toValue
  image_eq : gallery.get? object image.cacheAttribute = memo.kept.map (·.2)
  hash_eq : (gallery.get? object image.hashAttribute).map Except.ok =
    memo.kept.map fun (content, _) => images.hash (.bytes content)
  calls_eq : gallery.calls =
    (memo.calls.map fun content => ⟨object, image.name, .bytes content⟩).reverse ++ earlier

namespace Related

variable {memo : Memo} {gallery : Gallery}
variable (related : Related images object image earlier memo gallery)
include related

theorem outcome_source (plain : images.find? image.source = none) (limit : Nat) :
    outcome (images.readWithin object (limit + 1) image.source) gallery =
      (match memo.held with
        | some buffer => .ok buffer.toValue
        | none => .error .noAttribute, gallery) := by
  rw [outcome_readWithin plain, related.held_eq]
  cases memo.held <;> rfl

theorem outcome_poke (plain : images.find? image.source = none) (index item : Int) :
    outcome (images.poke object image.source index item) gallery =
      match memo.held with
      | none => (.error .noAttribute, gallery)
      | some buffer =>
        match buffer.poke index item with
        | .error fault => (.error fault, gallery)
        | .ok changed => (.ok (), gallery.put object image.source changed.toValue) := by
  have source := related.outcome_source plain images.images.length
  rw [ImageClass.poke, ImageClass.read]
  cases held : memo.held with
  | none =>
    simp only [held] at source ⊢
    exact outcome_bind_error source
  | some buffer =>
    simp only [held] at source ⊢
    rw [outcome_bind_ok source, Buffer.replaced_toValue]
    cases buffer.poke index item <;> rfl

theorem held (apart : Apart image) (buffer : Buffer) :
    Related images object image earlier { memo with held := some buffer }
      (gallery.put object image.source buffer.toValue) where
  held_eq := by simp [Gallery.get?_put]
  image_eq := by simp [Gallery.get?_put, apart.cache_ne.symm, related.image_eq]
  hash_eq := by simp [Gallery.get?_put, apart.hash_ne.symm, related.hash_eq]
  calls_eq := related.calls_eq

/-- A buffer that has to be decoded is decoded once, and kept if it can be. -/
theorem decoded (serves : Serves images image earlier.length decode) (apart : Apart image)
    {content : List UInt8} {hash : Value} (hashed : images.hash (.bytes content) = .ok hash) :
    ∃ next, outcome (images.refresh object image (.bytes content) hash) gallery = (.ok (), next) ∧
      Related images object image earlier (memo.decoded decode content) next := by
  -- The decoder is told how often it was called, and the calls before the run count as well.
  have count : gallery.calls.length = earlier.length + memo.calls.length := by
    rw [related.calls_eq, List.length_append, List.length_reverse, List.length_map, Nat.add_comm]
  have decodes : images.decode gallery.calls.length (.bytes content) =
      .ok (decode memo.calls.length content) := by
    rw [count, serves.decodes]
  have logged : (⟨object, image.name, .bytes content⟩ :: gallery.calls : List DecodeCall) =
      ((memo.calls ++ [content]).map fun content => ⟨object, image.name, .bytes content⟩).reverse ++
        earlier := by
    rw [related.calls_eq]
    simp
  rw [ImageClass.refresh, outcome_get_bind, outcome_set_bind, decodes]
  cases answer : decode memo.calls.length content with
  | none =>
    have memo_eq : (memo.decoded decode content).kept = memo.kept := by
      rw [Memo.decoded, answer]
      rfl
    refine ⟨_, rfl, related.held_eq, ?_, ?_, logged⟩
    · rw [memo_eq]
      exact related.image_eq
    · rw [memo_eq]
      exact related.hash_eq
  | some decoded =>
    have memo_eq : (memo.decoded decode content).kept = some (content, decoded) := by
      rw [Memo.decoded, answer]
      rfl
    have distinct := hashAttribute_ne_cacheAttribute image image
    refine ⟨_, rfl, ?_, ?_, ?_, logged⟩
    · simp only [Gallery.get?_put, apart.hash_ne, apart.cache_ne, and_false, if_false]
      exact related.held_eq
    · simp [Gallery.get?_put, distinct.symm, memo_eq]
    · simp [Gallery.get?_put, memo_eq, hashed]

/-- The kept hash is that of a content only if the content is the one that was decoded last. -/
theorem hash_eq_kept_iff {contents : List (List UInt8)} (tells : TellsApart images contents)
    (keptKnown : ∀ kept ∈ memo.kept, kept.1 ∈ contents) {content : List UInt8}
    (known : content ∈ contents) {hash : Value} (hashed : images.hash (.bytes content) = .ok hash) :
    hash = (gallery.get? object image.hashAttribute).getD ImageClass.startHash ↔
      memo.kept.map (·.1) = some content := by
  have hash_eq := related.hash_eq
  cases kept : memo.kept with
  | none =>
    -- The hash that an accessor starts from is that of no content.
    rw [kept, Option.map_none, Option.map_eq_none_iff] at hash_eq
    obtain ⟨other, otherHashed, nonzero⟩ := tells.hashed content known
    cases hashed.symm.trans otherHashed
    rw [hash_eq]
    simp [nonzero]
  | some pair =>
    rw [kept, Option.map_some, Option.map_eq_some_iff] at hash_eq
    obtain ⟨keptHash, stored, keptHashed⟩ := hash_eq
    rw [stored, Option.getD_some, Option.map_some, Option.some.injEq]
    constructor
    · rintro rfl
      exact tells.injective _ (keptKnown pair kept) _ known (keptHashed.symm.trans hashed.symm)
    · intro same
      rw [← same] at hashed
      exact Except.ok.inj (hashed.symm.trans keptHashed.symm)

/-- Looking at the image of a buffer does what the machine does. -/
theorem looked (serves : Serves images image earlier.length decode) (apart : Apart image)
    {contents : List (List UInt8)} (tells : TellsApart images contents) {buffer : Buffer}
    (known : ∀ content ∈ buffer.content?, content ∈ contents)
    (keptKnown : ∀ kept ∈ memo.kept, kept.1 ∈ contents) :
    ∃ next, outcome (images.view object image buffer.toValue) gallery =
        (.ok (memo.looked decode buffer).image, next) ∧
      Related images object image earlier (memo.looked decode buffer) next := by
  have shown {memo : Memo} {gallery : Gallery}
      (related : Related images object image earlier memo gallery) :
      (gallery.get? object image.cacheAttribute).getD .absent = memo.image := by
    rw [related.image_eq]
    rfl
  rw [ImageClass.view]
  cases holds : buffer.content? with
  | none =>
    obtain ⟨hash, hashed⟩ := tells.absent
    have memo_eq : memo.looked decode buffer = memo := by rw [Memo.looked, holds]
    refine ⟨gallery, ?_, by rw [memo_eq]; exact related⟩
    simp only [Buffer.frozen_toValue_of_absent holds, hashed, memo_eq]
    rw [outcome_get_bind, ← shown related]
    simp
    rfl
  | some content =>
    have within : content ∈ contents := known content holds
    obtain ⟨hash, hashed, _⟩ := tells.hashed content within
    -- The accessor compares hashes where the machine compares contents.
    have kept_iff := related.hash_eq_kept_iff tells keptKnown within hashed
    simp only [Buffer.frozen_toValue holds, hashed]
    rw [outcome_get_bind]
    by_cases same : memo.kept.map (·.1) = some content
    · have memo_eq : memo.looked decode buffer = memo := by
        rw [Memo.looked, holds]
        exact if_pos same
      refine ⟨gallery, ?_, by rw [memo_eq]; exact related⟩
      rw [if_neg (by simp [kept_iff.mpr same]), memo_eq, ← shown related]
      rfl
    · have memo_eq : memo.looked decode buffer = memo.decoded decode content := by
        rw [Memo.looked, holds]
        exact if_neg same
      obtain ⟨next, refreshed, nextRelated⟩ := related.decoded serves apart hashed
      refine ⟨next, ?_, by rw [memo_eq]; exact nextRelated⟩
      rw [if_pos (by simpa [← kept_iff] using same), outcome_bind_ok refreshed,
        outcome_get_bind, memo_eq, ← shown nextRelated]
      rfl

/-- One use: the accessor answers what the machine answers, and they stay related. -/
theorem perform (serves : Serves images image earlier.length decode) (apart : Apart image)
    {contents : List (List UInt8)} (tells : TellsApart images contents)
    (known : ∀ content ∈ memo.held.bind Buffer.content?, content ∈ contents)
    (keptKnown : ∀ kept ∈ memo.kept, kept.1 ∈ contents) (use : Use) :
    ∃ next, outcome (images.perform object image use) gallery = ((memo.step decode use).1, next) ∧
      Related images object image earlier (memo.step decode use).2 next := by
  obtain ⟨limit, count⟩ := exists_limit serves.found
  have source (limit : Nat) := related.outcome_source serves.plain limit
  -- Assignments and changes in place only touch the buffer; a read goes on to what is kept of it.
  cases use with
  | assign buffer =>
    refine ⟨gallery.put object image.source buffer.toValue, ?_, related.held apart buffer⟩
    rw [ImageClass.perform, outcome_bind_ok (outcome_assign serves.plain _)]
    rfl
  | poke index item =>
    have poked := related.outcome_poke serves.plain index item
    rw [ImageClass.perform, Memo.step]
    cases held : memo.held with
    | none =>
      simp only [held] at poked ⊢
      exact ⟨gallery, outcome_bind_error poked, related⟩
    | some buffer =>
      cases changed : buffer.poke index item with
      | error fault =>
        simp only [held, changed] at poked ⊢
        exact ⟨gallery, outcome_bind_error poked, related⟩
      | ok later =>
        simp only [held, changed] at poked ⊢
        exact ⟨_, outcome_bind_ok poked, related.held apart later⟩
  | read =>
    rw [ImageClass.perform, ImageClass.read, count, ImageClass.readWithin, serves.found, Memo.step]
    cases held : memo.held with
    | none =>
      simp only [held] at source ⊢
      exact ⟨gallery, outcome_bind_error (outcome_bind_error (source _)), related⟩
    | some buffer =>
      simp only [held, Option.bind_some] at source known ⊢
      obtain ⟨next, viewed, nextRelated⟩ := related.looked serves apart tells known keptKnown
      refine ⟨next, ?_, nextRelated⟩
      have read : outcome (images.readWithin object (limit + 1) image.source >>=
          images.view object image) gallery = _ :=
        outcome_bind_ok (source limit)
      rw [outcome_bind_ok (read.trans viewed)]
      rfl

end Related

namespace Memo

variable {memo : Memo}

theorem kept_looked {contents : List (List UInt8)} {buffer : Buffer}
    (known : ∀ content ∈ buffer.content?, content ∈ contents)
    (keptKnown : ∀ kept ∈ memo.kept, kept.1 ∈ contents) :
    ∀ kept ∈ (memo.looked decode buffer).kept, kept.1 ∈ contents := by
  rw [looked]
  split
  · exact keptKnown
  next content holds =>
  split
  · exact keptKnown
  · intro kept member
    rw [decoded, Option.mem_def, Option.or_eq_some_iff, Option.map_eq_some_iff] at member
    obtain ⟨_, _, rfl⟩ | ⟨_, old⟩ := member
    · exact known content holds
    · exact keptKnown kept old

/-- What the machine keeps is a content that the source held. -/
theorem kept_step {contents : List (List UInt8)}
    (known : ∀ content ∈ memo.held.bind Buffer.content?, content ∈ contents)
    (keptKnown : ∀ kept ∈ memo.kept, kept.1 ∈ contents) (use : Use) :
    ∀ kept ∈ (memo.step decode use).2.kept, kept.1 ∈ contents := by
  cases use with
  | assign => exact keptKnown
  | poke =>
    rw [step]
    split
    · exact keptKnown
    · split <;> exact keptKnown
  | read =>
    rw [step]
    split
    · exact keptKnown
    next held =>
      rw [held, Option.bind_some] at known
      exact kept_looked known keptKnown

end Memo

/-- A whole run, from any moment on. -/
theorem Related.performAll {memo : Memo} {gallery : Gallery}
    (related : Related images object image earlier memo gallery)
    (serves : Serves images image earlier.length decode) (apart : Apart image)
    {contents : List (List UInt8)} (tells : TellsApart images contents) {uses : List Use}
    (known : ∀ content ∈ memo.contents decode uses, content ∈ contents)
    (keptKnown : ∀ kept ∈ memo.kept, kept.1 ∈ contents) :
    ∃ last, (images.performAll object image uses).run gallery = ((memo.run decode uses).1, last) ∧
      Related images object image earlier (memo.run decode uses).2 last := by
  induction uses generalizing memo gallery with
  | nil => exact ⟨gallery, rfl, related⟩
  | cons use others inductionHypothesis =>
    -- What is kept after a use was held before it, so the contents of the run cover it as well.
    simp only [Memo.contents, List.mem_append, Option.mem_toList] at known
    have heldKnown : ∀ content ∈ memo.held.bind Buffer.content?, content ∈ contents :=
      fun content member => known content (.inl member)
    obtain ⟨next, performed, nextRelated⟩ :=
      related.perform serves apart tells heldKnown keptKnown use
    obtain ⟨last, ran, lastRelated⟩ := inductionHypothesis nextRelated
      (fun content member => known content (.inr member)) (Memo.kept_step heldKnown keptKnown use)
    refine ⟨last, ?_, lastRelated⟩
    unfold outcome at performed
    rw [ImageClass.performAll, StateT.run_bind, performed]
    show (images.performAll object image others >>= fun answers =>
      pure (_ :: answers)).run next = _
    rw [StateT.run_bind, ran]
    rfl

end Simulation

/-! ## Memoisation -/

/-- An object on which a cached image has not been read yet. -/
structure Fresh (gallery : Gallery) (object : Nat) (image : CachedImage) (held : Option Buffer) :
    Prop where
  held_eq : gallery.get? object image.source = held.map Buffer.toValue
  hash_eq : gallery.get? object image.hashAttribute = none
  cache_eq : gallery.get? object image.cacheAttribute = none

theorem Fresh.related {gallery : Gallery} {object : Nat} {image : CachedImage}
    {held : Option Buffer} (fresh : Fresh gallery object image held) (images : ImageClass) :
    Related images object image gallery.calls (.start held) gallery where
  held_eq := fresh.held_eq
  image_eq := fresh.cache_eq
  hash_eq := by
    rw [fresh.hash_eq]
    rfl
  calls_eq := rfl

/-- The answers of a run, and the calls of the decoder in it, are those of the machine that
remembers the content it decoded last. -/
theorem performAll_eq_memo_run {images : ImageClass} {object : Nat} {image : CachedImage}
    {decode : Nat → List UInt8 → Option Value} {gallery : Gallery} {held : Option Buffer}
    {uses : List Use} (serves : Serves images image gallery.calls.length decode)
    (apart : Apart image) (fresh : Fresh gallery object image held)
    (tells : TellsApart images ((Memo.start held).contents decode uses)) :
    ∃ last, (images.performAll object image uses).run gallery =
        (((Memo.start held).run decode uses).1, last) ∧
      last.calls = (((Memo.start held).run decode uses).2.calls.map fun content =>
        ⟨object, image.name, .bytes content⟩).reverse ++ gallery.calls := by
  obtain ⟨last, ran, related⟩ := (fresh.related images).performAll serves apart tells
    (fun _ member => member) (fun _ nothing => by cases nothing)
  exact ⟨last, ran, related.calls_eq⟩

/-- The hash of values tells contents apart that are not empty. -/
theorem tellsApart_of_ne_nil {images : ImageClass} (standard : images.hash = Value.hash)
    {contents : List (List UInt8)} (filled : ∀ content ∈ contents, content ≠ []) :
    TellsApart images contents := by
  have hash_eq : ∀ content ∈ contents,
      images.hash (.bytes content) = .ok (.mark (.bytes content)) := by
    intro content member
    cases content with
    | nil => exact absurd rfl (filled [] member)
    | cons => rw [standard]; rfl
  refine ⟨fun content member => ⟨_, hash_eq content member, by simp [ImageClass.startHash]⟩, ?_, ?_⟩
  · intro first member second otherMember same
    rw [hash_eq first member, hash_eq second otherMember] at same
    simpa using same
  · exact ⟨.absent, by rw [standard]; rfl⟩

/-- A decoder that numbers its images and cannot decode what begins with zero. -/
def numberedDecode (count : Nat) (content : List UInt8) : Option Value :=
  if content.head? = some 0 then none else some (.number count)

def numberedClass (image : CachedImage) : ImageClass :=
  .ofImages [image] fun count value =>
    match value with
    | .bytes content => .ok (numberedDecode count content)
    | _ => .ok (some (.number count))

theorem numberedClass_serves {image : CachedImage} (other : image.source ≠ image.name) :
    Serves (numberedClass image) image 0 numberedDecode where
  found := by simp [ImageClass.find?, numberedClass, ImageClass.ofImages, Association.put]
  plain := by
    simp [ImageClass.find?, numberedClass, ImageClass.ofImages, Association.put, other]
  decodes count content := by rw [Nat.zero_add]; rfl

def picture : CachedImage := ⟨"picture", "picture_data", "_data"⟩

/-- A buffer that is missing, one that is decoded, one that cannot be, and one changed in place to
the content decoded before. -/
def pictureUses : List Use :=
  [.read, .assign .absent, .read, .assign (.bytes [7, 8]), .read, .read, .assign (.view [0]), .read,
    .read, .assign (.mutableBytes [7, 9]), .poke (-1) 8, .read, .poke 0 6, .read]

theorem performAll_eq_memo_run_picture :
    Serves (numberedClass picture) picture 0 numberedDecode ∧ Apart picture ∧
      Fresh .empty 0 picture none ∧
      TellsApart (numberedClass picture)
        ((Memo.start none).contents numberedDecode pictureUses) ∧
      ∃ last, ((numberedClass picture).performAll 0 picture pictureUses).run .empty =
          (((Memo.start none).run numberedDecode pictureUses).1, last) ∧
        ((Memo.start none).run numberedDecode pictureUses).1.map Except.toOption =
          [none, some none, some (some .absent), some none, some (some (.number 0)),
            some (some (.number 0)), some none, some (some (.number 0)), some (some (.number 0)),
            some none, some none, some (some (.number 0)), some none, some (some (.number 3))] ∧
        last.calls = ([[7, 8], [0], [0], [6, 8]].map fun content =>
          (⟨0, "picture", .bytes content⟩ : DecodeCall)).reverse := by
  have serves : Serves (numberedClass picture) picture 0 numberedDecode :=
    numberedClass_serves (by decide)
  have apart : Apart picture := ⟨by decide, by decide⟩
  have fresh : Fresh .empty 0 picture none := ⟨rfl, rfl, rfl⟩
  have tells : TellsApart (numberedClass picture)
      ((Memo.start none).contents numberedDecode pictureUses) :=
    tellsApart_of_ne_nil rfl (by decide)
  obtain ⟨last, ran, calls_eq⟩ := performAll_eq_memo_run serves apart fresh tells
  exact ⟨serves, apart, fresh, tells, last, ran, by decide, calls_eq.trans (by decide)⟩

/-- An accessor whose source is the attribute that keeps its image. -/
def slotImage : CachedImage := ⟨"picture", "_picture_cache", "_data"⟩

def slotUses : List Use :=
  [.assign (.bytes [7, 8]), .read, .read]

/-- The image takes the place of the buffer, and the next read decodes the image. -/
theorem performAll_ne_memo_run_slot :
    CachedImage.declare "picture" (some "_picture_cache") "_data" = .ok slotImage ∧
      Serves (numberedClass slotImage) slotImage 0 numberedDecode ∧
      Fresh .empty 0 slotImage none ∧
      TellsApart (numberedClass slotImage) ((Memo.start none).contents numberedDecode slotUses) ∧
      (((numberedClass slotImage).performAll 0 slotImage slotUses).run .empty).1 ≠
        ((Memo.start none).run numberedDecode slotUses).1 := by
  refine ⟨rfl, numberedClass_serves (by decide), ⟨rfl, rfl, rfl⟩,
    tellsApart_of_ne_nil rfl (by decide), fun same => ?_⟩
  exact absurd (congrArg (List.map Except.toOption) same) (by decide)

end PeerExpansion.CachedImage
