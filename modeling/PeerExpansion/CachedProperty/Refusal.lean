import PeerExpansion.Diagnostic
import PeerExpansion.Misuse
import PeerExpansion.Template

/-! # Refused properties

Why an attribute cannot make a cached property out of the declaration it stands at. Every refusal
names the attribute as it was written.
-/

namespace PeerExpansion.CachedProperty

inductive RefusalReason
  | unspecified
  | internal
  | notVariable
  | severalBindings
  | wrongType (identifier expectedType : String)
  | missingSuffix (identifier suffix : String)
  | nothingBeforeSuffix (identifier suffix : String)
  | unsupportedTarget (platform : String)
  | notLiteral
  | tooManyArguments (count : Int)
deriving DecidableEq

structure Refusal where
  attributeName : String
  reason : RefusalReason
deriving DecidableEq

namespace Refusal

def kind (refusal : Refusal) : String :=
  match refusal.reason with
  | .unspecified => "ImageCacheError"
  | .internal => "InternalError"
  | .notVariable => "OnlyVariableDeclaration"
  | .severalBindings => "OnlyOneBinding"
  | .wrongType .. => "MustBeType"
  | .missingSuffix .. => "MustHaveSuffix"
  | .nothingBeforeSuffix .. => "EmptyPrefix"
  | .unsupportedTarget _ => "OsNotSupported"
  | .notLiteral => "MustBeBoolLiteral"
  | .tooManyArguments _ => "TooManyArguments"

/-- The message without the attribute in front. -/
def remark (refusal : Refusal) : String :=
  match refusal.reason with
  | .unspecified => "failed"
  | .internal => "produced an internal error, please report"
  | .notVariable => "only allows variable declarations"
  | .severalBindings => "only allows a single binding per declaration"
  | .wrongType identifier expectedType =>
    "requires " ++ identifier ++ " to be of type " ++ expectedType
  | .missingSuffix identifier suffix =>
    "requires " ++ identifier ++ " to have the suffix " ++ suffix
  | .nothingBeforeSuffix identifier suffix =>
    "requires " ++ identifier ++ " to have a prefix before " ++ suffix
  | .unsupportedTarget _ => "does not support this OS"
  | .notLiteral => "requires its argument to be a boolean literal"
  | .tooManyArguments count => "accepts at most one argument, got " ++ toString count

def message (refusal : Refusal) : String :=
  "@" ++ refusal.attributeName ++ " " ++ refusal.remark

def complaint (refusal : Refusal) : Complaint :=
  ⟨refusal.kind, refusal.message⟩

end Refusal

/-- Why no peers were made: the declaration was refused, or a setting was misused. -/
inductive PropertyFault
  | refused (refusal : Refusal)
  | misused (misuse : Misuse)
  | template (fault : TemplateFault)

end PeerExpansion.CachedProperty
