import PeerExpansion.CachedProperty.Refusal
import PeerExpansion.Text.Blank
import PeerExpansion.Text.Uppercase

/-! # Decoding on the build target

The accessor decodes its buffer with the image framework of the build target. The target comes from
the configuration; when that names none, the machine that generates is the target.
-/

namespace PeerExpansion.CachedProperty

inductive Framework
  | uiKit
  | appKit
deriving DecidableEq

namespace Framework

def name : Framework → String
  | uiKit => "UIKit"
  | appKit => "AppKit"

/-- Build targets by framework, UIKit first: it wins where both are there. -/
def targets : List (Framework × List String) :=
  [(uiKit, ["ios", "ipados", "tvos", "watchos", "visionos", "maccatalyst", "uikit"]),
    (appKit, ["macos", "osx", "appkit"])]

def ofKey? (key : String) : Option Framework :=
  (targets.find? fun (_, keys) => keys.contains key).map (·.1)

/-- The framework for a target, in whatever letters and with whatever white space around it. -/
def ofTarget? (target : String) : Option Framework :=
  ofKey? (String.ofList ((Text.trim target.toList).map Text.lowercase))

end Framework

/-- The target that a machine is, where it can be one. -/
def hostTarget? (machine : String) : Option String :=
  if machine = "ios" then some "ios"
  else if machine = "darwin" then some "macos"
  else none

/-- How the accessor of one target decodes. -/
structure DecodeStep where
  framework : Framework
  resourceType : Json
deriving DecidableEq

namespace DecodeStep

/-- The name the decoded value is bound to. -/
def binding (step : DecodeStep) : String :=
  match step.framework with
  | .uiKit => "uiImage"
  | .appKit => "nsImage"

def decoderName (step : DecodeStep) : String :=
  match step.framework with
  | .uiKit => "UIImage"
  | .appKit => "NSImage"

def decode (step : DecodeStep) (buffer : String) : String :=
  step.decoderName ++ "(data: " ++ buffer ++ ")"

def wrap (step : DecodeStep) (decoded : String) : String :=
  step.resourceType.display ++ "(" ++ step.binding ++ ": " ++ decoded ++ ")"

def sortName (step : DecodeStep) : String :=
  step.framework.name ++ "Strategy"

def shown (step : DecodeStep) : String :=
  step.sortName ++ "(resource_type=" ++ step.resourceType.shown ++ ")"

/-- The decode step for a configured target, on a machine of the given name. -/
def select (machine : String) (target resource : Json) (attributeName : String) :
    Except PropertyFault DecodeStep :=
  let unsupported (platform : String) : PropertyFault :=
    .refused ⟨attributeName, .unsupportedTarget platform⟩
  let forPlatform (platform : String) : Except PropertyFault DecodeStep :=
    match Framework.ofTarget? platform with
    | some framework => .ok ⟨framework, resource⟩
    | none => .error (unsupported platform)
  if target.isTruthy then
    match target with
    | .text platform => forPlatform platform
    | _ => .error (.misused .notText)
  else
    match hostTarget? machine with
    | some platform => forPlatform platform
    | none => .error (unsupported machine)

end DecodeStep

end PeerExpansion.CachedProperty
