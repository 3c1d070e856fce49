/-! # Repeated text -/

namespace PeerExpansion.Text

/-- Signed words of 64 bits are smaller. -/
def wordBound : Int := 0x8000000000000000

/-- The text `count` times over, and nothing when the count is negative. Counts that do not fit a
signed word of 64 bits are refused. -/
def repeat? (text : List Char) (count : Int) : Option (List Char) :=
  if -wordBound ≤ count && count < wordBound then
    some (List.replicate count.toNat text).flatten
  else none

end PeerExpansion.Text
