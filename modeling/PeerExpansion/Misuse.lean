/-! # Misused values

What can go wrong when a setting holds a value of a sort that its use does not allow. The settings
are not checked when they are given, so this comes to light where they are used.
-/

namespace PeerExpansion

inductive Misuse
  /-- A question about the letters of a value that is no text. -/
  | notText
  /-- An operation on a value of a sort it is not made for. -/
  | wrongSort
  /-- A number too large to count with. -/
  | tooLarge
  /-- A value of the right sort whose parts do not fit. -/
  | malformed
deriving DecidableEq

end PeerExpansion
