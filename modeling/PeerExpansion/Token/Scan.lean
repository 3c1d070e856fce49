import PeerExpansion.Text.Quoted
import PeerExpansion.Token.Lexeme
import PeerExpansion.Token.Literal

/-! # Reading a source into tokens

The source is a sequence of pieces: characters of white space, comments, and tokens. `pieceAt`
measures the piece at the head of a text; `TokenStream.scan` follows the positions through all of
them and keeps the tokens.
-/

namespace PeerExpansion

/-- What a piece of the source is. Gaps separate tokens and mean nothing else. -/
inductive Piece
  | gap
  | token (kind : TokenKind)
deriving DecidableEq

def isSpace (character : Char) : Bool :=
  character == ' ' || ('\t' ≤ character && character ≤ '\r')

/-- The piece that starts with `first`, and the number of characters it has after `first`. -/
def pieceAt (first : Char) (rest : List Char) : Except SyntaxFault (Piece × Nat) :=
  if isSpace first then .ok (.gap, 0)
  else
    match first, rest with
    | '/', '/' :: comment => .ok (.gap, 1 + (comment.takeWhile (· != '\n')).length)
    | '/', '*' :: comment =>
      match commentEnd 0 comment with
      | some behind => .ok (.gap, rest.length - behind.length)
      | none => .error .unterminatedComment
    | '"', '"' :: '"' :: literal =>
      (literalEnd .block [] literal).map fun behind =>
        (.token .string, rest.length - behind.length)
    | '"', literal =>
      (literalEnd .line [] literal).map fun behind =>
        (.token .string, rest.length - behind.length)
    | _, _ =>
      match Lexeme.word? (first :: rest) with
      | some (kind, length) => .ok (.token kind, length - 1)
      | none => .error (.unexpectedCharacter (Text.quoted (String.singleton first)))

/-- The tokens of a text that begins at `position`, and the position of its end. -/
def tokensFrom (position : Position) :
    List Char → Except SyntaxError (List Token × Position)
  | [] => .ok ([], position)
  | first :: rest =>
    match pieceAt first rest with
    | .error fault => .error ⟨fault, position⟩
    | .ok (piece, length) => do
      let text := first :: rest.take length
      let (words, finish) ← tokensFrom (position.after text) (rest.drop length)
      match piece with
      | .gap => return (words, finish)
      | .token kind => return (⟨kind, String.ofList text, position⟩ :: words, finish)
termination_by text => text.length
decreasing_by
  simp only [List.length_drop, List.length_cons]
  omega

/-- Reads a whole source into tokens. -/
def TokenStream.scan (source : List Char) : Except SyntaxError TokenStream := do
  let (words, finish) ← tokensFrom .start source
  return ⟨source, words, .ending finish⟩

end PeerExpansion
