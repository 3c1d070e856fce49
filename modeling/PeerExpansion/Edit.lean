/-! # Edits of a text

An edit replaces the characters between two offsets. Edits refer to the text as it was, so several
are applied from the last to the first.
-/

namespace PeerExpansion

structure Edit where
  start : Nat
  stop : Nat
  replacement : List Char
deriving DecidableEq

namespace Edit

def applyTo (edit : Edit) (text : List Char) : List Char :=
  text.take edit.start ++ edit.replacement ++ text.drop edit.stop

/-- Whether `first` comes no earlier than `second`: by start, then end, then replacement. -/
def isNoEarlier (first second : Edit) : Bool :=
  if first.start = second.start then
    if first.stop = second.stop then !decide (first.replacement < second.replacement)
    else decide (second.stop < first.stop)
  else decide (second.start < first.start)

def applyAll (edits : List Edit) (text : List Char) : List Char :=
  (edits.mergeSort isNoEarlier).foldl (fun text edit => edit.applyTo text) text

end Edit

end PeerExpansion
