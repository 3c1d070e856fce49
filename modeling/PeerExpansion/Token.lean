import PeerExpansion.Position

/-! # Tokens

A token is a word of the source with its kind and the position of its first character. A
`TokenStream` is a whole source read into tokens; its last token is the empty one at the end.
-/

namespace PeerExpansion

inductive TokenKind
  | identifier
  | number
  | string
  | punctuation
  | ending
deriving DecidableEq

structure Token where
  kind : TokenKind
  text : String
  position : Position
deriving DecidableEq

namespace Token

def start (token : Token) : Nat :=
  token.position.offset

/-- The offset behind the token. -/
def stop (token : Token) : Nat :=
  token.start + token.text.length

/-- Whether the token reads `text`. A string literal is never taken for anything else. -/
def reads (token : Token) (text : String) : Bool :=
  token.kind != .string && token.text == text

def isPunctuation (token : Token) (text : String) : Bool :=
  token.kind == .punctuation && token.text == text

def isIdentifier (token : Token) : Bool :=
  token.kind == .identifier

def isOneOf (token : Token) (texts : List String) : Bool :=
  texts.contains token.text

def openBrace : String := "\x7b"

def closeBrace : String := "\x7d"

def isOpening (token : Token) : Bool :=
  token.kind == .punctuation && token.isOneOf ["(", "[", openBrace]

def isClosing (token : Token) : Bool :=
  token.kind == .punctuation && token.isOneOf [")", "]", closeBrace]

/-- What a message calls the token. -/
def shown (token : Token) : String :=
  if token.text.isEmpty then "end of input" else token.text

/-- The token that stands at the end of every source. -/
def ending (position : Position) : Token :=
  ⟨.ending, "", position⟩

end Token

structure TokenStream where
  source : List Char
  words : List Token
  ending : Token

namespace TokenStream

def toList (stream : TokenStream) : List Token :=
  stream.words ++ [stream.ending]

/-- The first token that starts at `offset` or later. -/
def firstFrom (stream : TokenStream) (offset : Nat) : Token :=
  (stream.words.find? fun token => offset ≤ token.start).getD stream.ending

end TokenStream

end PeerExpansion
