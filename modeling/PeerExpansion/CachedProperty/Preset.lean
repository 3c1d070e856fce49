import PeerExpansion.Configuration.Load
import PeerExpansion.Generator

/-! # Presets

Ways to make a generator for cached properties without a registry. A preset for one build target
does not let another target be chosen.
-/

namespace PeerExpansion.CachedProperty

inductive Preset
  /-- The standard configuration. -/
  | standard
  | custom (settings : Settings)
  | target (platform : String)
  /-- The generated fields are marked unless the attribute says otherwise. -/
  | marking (target : Json)

namespace Preset

def uiKit : Preset := target "ios"

def appKit : Preset := target "macos"

/-- The settings of a preset, with some of them overridden. -/
def settings (preset : Preset) (overrides : Settings) : Except Misuse Settings :=
  match preset with
  | standard => .ok []
  | custom settings => .ok (settings.putAll overrides)
  | target platform =>
    if (overrides.get? "target_platform").isSome then .error .wrongSort
    else .ok (("target_platform", .text platform) :: overrides)
  | marking platform =>
    .ok [("target_platform", platform), ("emit_persistence_marker", .bool true)]

def generator (preset : Preset) (machine : String) (overrides : Settings) :
    Except Misuse (Except ConfigurationError Generator) := do
  let settings ← preset.settings overrides
  return (Configuration.load .empty "ImageCache" none settings).map
    (CachedProperty.generator machine "ImageCacheGenerator" "ImageCache")

end Preset

end PeerExpansion.CachedProperty
