import PeerExpansion.Declaration
import PeerExpansion.Edit
import PeerExpansion.Text.Lines
import PeerExpansion.Text.Slice

/-! # Putting in peers

An expanded declaration loses the attributes that were expanded and gains the peers behind it, as
far indented as itself. The peers follow on lines of their own, behind a comment that ends the line
of the declaration.
-/

namespace PeerExpansion.Insertion

/-- The offset of the end of the line that `offset` lies on. -/
def lineEnd (source : List Char) (offset : Nat) : Nat :=
  offset + ((source.drop offset).takeWhile (· != '\n')).length

/-- Where the peers go: behind the declaration, and behind the comment that follows it when nothing
else does on its line. -/
def point (tokens : TokenStream) (declaration : Declaration) : Nat :=
  let finish := lineEnd tokens.source declaration.stop
  let next := tokens.firstFrom declaration.stop
  if next.kind != .ending && next.start < finish then declaration.stop
  else
    let rest := Text.trim (Text.slice tokens.source declaration.stop finish)
    if rest.isEmpty || ['/', '/'].isPrefixOf rest then finish else declaration.stop

/-- The span that goes with an attribute: up to the next token, but not beyond the declaration. -/
def removal (tokens : TokenStream) (declaration : Declaration) (attr : Attribute) : Edit where
  start := attr.start - declaration.start
  stop := min (tokens.firstFrom attr.stop).start declaration.stop - declaration.start
  replacement := []

/-- The white space that the line of `offset` begins with. -/
def indentation (source : List Char) (offset : Nat) : List Char :=
  let line := ((source.take offset).reverse.takeWhile (· != '\n')).reverse
  line.takeWhile fun character => character == ' ' || character == '\t'

/-- The declaration's text without the expanded attributes, as far as the peers go. -/
def stripped (tokens : TokenStream) (declaration : Declaration) (expanded : List Attribute) :
    List Char :=
  Edit.applyAll (expanded.map (removal tokens declaration))
    (Text.slice tokens.source declaration.start (point tokens declaration))

def peerBlock (indent : List Char) (peer : String) : List Char :=
  '\n' :: Text.indentLines indent peer.toList

/-- The edit that takes the expanded attributes out of a declaration and puts the peers in. -/
def edit (tokens : TokenStream) (declaration : Declaration) (expanded : List Attribute)
    (peers : List String) : Edit where
  start := declaration.start
  stop := point tokens declaration
  replacement :=
    stripped tokens declaration expanded ++
      peers.flatMap (peerBlock (indentation tokens.source declaration.start))

end PeerExpansion.Insertion
