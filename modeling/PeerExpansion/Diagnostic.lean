import PeerExpansion.SyntaxError

/-! # Diagnostics

A complaint is what an error has to say, and of what kind it is; a diagnostic is a complaint about
a place in a named source.
-/

namespace PeerExpansion

structure Complaint where
  kind : String
  message : String
deriving DecidableEq

def SyntaxError.complaint (error : SyntaxError) : Complaint :=
  ⟨"SyntaxError", error.message⟩

structure Diagnostic where
  kind : String
  message : String
  line : Nat
  column : Nat
  sourceName : String
deriving DecidableEq

namespace Diagnostic

/-- The name of a source that has none. -/
def unnamed : String := "<input>"

/-- A complaint about no place in particular is given the line and column zero. -/
def ofComplaint (complaint : Complaint) (position : Option Position) (sourceName : String) :
    Diagnostic :=
  ⟨complaint.kind, complaint.message, (position.map Position.line).getD 0,
    (position.map Position.column).getD 0, sourceName⟩

def ofSyntaxError (error : SyntaxError) (sourceName : String) : Diagnostic :=
  ofComplaint error.complaint (some error.position) sourceName

/-- The line that reports the diagnostic. -/
def text (diagnostic : Diagnostic) : String :=
  diagnostic.sourceName ++ ":" ++ toString diagnostic.line ++ ":" ++
    toString diagnostic.column ++ ": error: " ++ diagnostic.message

end Diagnostic

end PeerExpansion
