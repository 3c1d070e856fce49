import PeerExpansion.Token

/-! # Where parts of a declaration end

Initializers, accessor blocks and the headers of types and functions are passed over without being
understood. Their ends are found from brackets and from line breaks: a line ends an initializer or
a header unless the token before the break or the one after it can only stand inside an expression.
-/

namespace PeerExpansion.Extent

/-- Tokens that let an expression go on across a line break next to them. -/
def continuations : List String :=
  [".", "?", ":", "&", "|", "+", "-", "*", "/", "%", "=", "<", ">", "^", "->", ",", "(", "[",
    "where", "throws", "async", "rethrows"]

/-- Whether `token` starts a line and with it something new. -/
def startsNewLine (previous token : Token) : Bool :=
  previous.position.line < token.position.line &&
    !previous.isOneOf continuations && !token.isOneOf continuations

/-- The number of tokens from behind an opening brace to the brace that closes it, that one
included, where `depth` braces are open inside; `none` when the source ends first. -/
def blockLength? (depth : Nat) : List Token → Option Nat
  | [] => none
  | token :: others =>
    if token.isPunctuation Token.openBrace then (blockLength? (depth + 1) others).map (· + 1)
    else if token.isPunctuation Token.closeBrace then
      match depth with
      | 0 => some 1
      | below + 1 => (blockLength? below others).map (· + 1)
    else (blockLength? depth others).map (· + 1)

/-- Marks that no expression contains outside brackets. -/
def endsExpression (token : Token) : Bool :=
  token.isClosing || token.isPunctuation "," || token.isPunctuation ";"

/-- The number of brackets open behind `token` when `depth` are open before it. -/
def depthBehind (depth : Nat) (token : Token) : Nat :=
  if token.isOpening then depth + 1
  else if token.isClosing then depth - 1
  else depth

/-- The number of tokens an expression still has behind `previous`, where `depth` brackets are
open. -/
def expressionLength (previous : Token) (depth : Nat) : List Token → Nat
  | [] => 0
  | token :: others =>
    if depth = 0 && (endsExpression token || startsNewLine previous token) then 0
    else expressionLength token (depthBehind depth token) others + 1

/-- Marks that end a header: its body, the end of what it stands in, and a separator. -/
def endsHeader (token : Token) : Bool :=
  token.kind == .punctuation && token.isOneOf [Token.openBrace, Token.closeBrace, ";"]

/-- The number of tokens of a header that are left behind `previous`. It ends at its body, at a
closing brace or semicolon, or with its line, but not inside its `depth` parentheses and square
brackets and its `angle` generic brackets. -/
def headerLength (previous : Token) (depth angle : Nat) : List Token → Nat
  | [] => 0
  | token :: others =>
    let isMark := token.kind == .punctuation
    if depth = 0 && angle = 0 && (endsHeader token || startsNewLine previous token) then 0
    else if isMark && token.isOneOf ["(", "["] then
      headerLength token (depth + 1) angle others + 1
    else if isMark && token.isOneOf [")", "]"] then
      headerLength token (depth - 1) angle others + 1
    else if token.isPunctuation "<" && previous.isIdentifier && previous.stop == token.start then
      headerLength token depth (angle + 1) others + 1
    else if token.isPunctuation ">" then
      headerLength token depth (angle - 1) others + 1
    else headerLength token depth angle others + 1

end PeerExpansion.Extent
