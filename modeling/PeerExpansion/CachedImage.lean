import PeerExpansion.Text.Quoted

/-! # Cached images

A cached image is an accessor of a class of objects: it shows the image decoded from a buffer that
another attribute holds. An object keeps the image, and the hash of the buffer it was decoded from,
in two attributes named after the accessor.
-/

namespace PeerExpansion

structure CachedImage where
  name : String
  /-- The attribute that holds the buffer. -/
  source : String
  suffix : String
deriving DecidableEq

namespace CachedImage

def hashAttribute (image : CachedImage) : String :=
  "_" ++ image.name ++ "_hash"

def cacheAttribute (image : CachedImage) : String :=
  "_" ++ image.name ++ "_cache"

def standardSuffix : String := "_data"

/-- An accessor that would read from itself. -/
structure SelfReference where
  name : String
deriving DecidableEq

def SelfReference.message (fault : SelfReference) : String :=
  "CachedImage " ++ Text.quoted fault.name ++ " cannot read from itself"

/-- The accessor `name`, whose source is named after it unless it is given. -/
def declare (name : String) (source : Option String) (suffix : String) :
    Except SelfReference CachedImage :=
  let source := source.getD (name ++ suffix)
  if source = name then .error ⟨name⟩ else .ok ⟨name, source, suffix⟩

def readOnlyMessage (image : CachedImage) : String :=
  image.name ++ " is read-only; assign " ++ image.source ++ " instead"

theorem source_ne_name {name suffix : String} {source : Option String} {image : CachedImage}
    (declared : declare name source suffix = .ok image) : image.source ≠ image.name := by
  simp only [declare] at declared
  split at declared
  · contradiction
  · cases declared
    assumption

end CachedImage

end PeerExpansion
