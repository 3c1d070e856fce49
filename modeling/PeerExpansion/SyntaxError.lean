import PeerExpansion.Position

/-! # Errors in a source text

What can be wrong with the text of a declaration, the wording of each fault, and the error that
puts a fault at a position.
-/

namespace PeerExpansion

inductive SyntaxFault
  | unexpectedCharacter (shown : String)
  | unterminatedComment
  | unterminatedLiteral
  | unterminatedMultilineLiteral
  | unterminatedInterpolation
  | expected (wanted found : String)
  | unterminatedArguments
  | unterminatedBlock
  | missingArrow
  | missingInitializer
  | trailing (found : String)
deriving DecidableEq

def SyntaxFault.message : SyntaxFault → String
  | unexpectedCharacter shown => "Unexpected character " ++ shown
  | unterminatedComment => "Unterminated block comment"
  | unterminatedLiteral => "Unterminated string literal"
  | unterminatedMultilineLiteral => "Unterminated multi-line string literal"
  | unterminatedInterpolation => "Unterminated string interpolation"
  | expected wanted found => "Expected " ++ wanted ++ " but found '" ++ found ++ "'"
  | unterminatedArguments => "Unterminated attribute arguments"
  | unterminatedBlock => "Unterminated block"
  | missingArrow => "Expected '->' after function effects"
  | missingInitializer => "Expected an initializer expression"
  | trailing found => "Unexpected '" ++ found ++ "' after declaration"

structure SyntaxError where
  fault : SyntaxFault
  position : Position
deriving DecidableEq

namespace SyntaxError

/-- A message names the place it is about, when there is one, at its end. -/
def located (text : String) (position : Option Position) : String :=
  match position with
  | some position => text ++ " at " ++ position.describe
  | none => text

def message (error : SyntaxError) : String :=
  located error.fault.message (some error.position)

end SyntaxError

end PeerExpansion
