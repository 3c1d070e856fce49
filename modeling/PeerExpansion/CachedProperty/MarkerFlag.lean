import PeerExpansion.Attribute
import PeerExpansion.CachedProperty.Refusal
import PeerExpansion.Configuration

/-! # The argument of the attribute

The attribute takes one argument at most: `true` or `false`, with or without its label. It decides
whether the generated fields are marked; without it the configuration does.
-/

namespace PeerExpansion.CachedProperty

/-- Whether an argument may bear the label it has. -/
def labelFits (configuration : Configuration) (argument : Argument) : Bool :=
  match argument.label with
  | none => true
  | some label => configuration.argumentLabel == .text label

/-- The value that decides whether the fields are marked: the configured one, of whatever sort, or
the literal at the attribute. -/
def markerFlag (configuration : Configuration) (attr : Attribute) : Except Refusal Json :=
  match attr.arguments.getD [] with
  | [] => .ok configuration.emitPersistenceMarker
  | [argument] =>
    match labelFits configuration argument, argument.literal? with
    | true, some value => .ok (.bool value)
    | _, _ => .error ⟨attr.name, .notLiteral⟩
  | arguments => .error ⟨attr.name, .tooManyArguments arguments.length⟩

end PeerExpansion.CachedProperty
