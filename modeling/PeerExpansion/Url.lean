import PeerExpansion.Text.CodePoints
import PeerExpansion.Text.Split

/-! # URLs

`Url.parts?` splits the scheme and the authority off a URL. An authority with a malformed host makes
no URL at all: its brackets have to match and to hold an address of the sixth or a later version,
and none of its characters may stand for one that ends an authority.
-/

namespace PeerExpansion.Url

structure Parts where
  scheme : List Char
  authority : List Char
deriving DecidableEq

def isSchemePart (character : Char) : Bool :=
  character.isAlphanum || character == '+' || character == '-' || character == '.'

/-- Control characters and spaces in front, and tabs and line ends anywhere, do not count. -/
def cleaned (text : List Char) : List Char :=
  (text.dropWhile fun character => character.toNat ≤ 0x20).filter fun character =>
    character != '\t' && character != '\r' && character != '\n'

/-- The scheme, which may be empty, and the text behind it. -/
def splitScheme (text : List Char) : List Char × List Char :=
  match text.span (· != ':') with
  | (scheme, _ :: rest) =>
    if (scheme.head?.map Char.isAlpha).getD false && scheme.all isSchemePart then (scheme, rest)
    else ([], text)
  | (_, []) => ([], text)

/-- The authority behind two slashes, up to the path, the query or the fragment. -/
def authorityOf : List Char → List Char
  | '/' :: '/' :: rest => rest.takeWhile fun character => !(['/', '?', '#'].contains character)
  | _ => []

/-! ## Hosts in brackets -/

def isHexDigit (character : Char) : Bool :=
  character.isDigit || ('a' ≤ character && character ≤ 'f') || ('A' ≤ character && character ≤ 'F')

/-- One to three digits without a leading zero, at most 255. -/
def isOctet (digits : List Char) : Bool :=
  !digits.isEmpty && digits.all Char.isDigit && digits.length ≤ 3 &&
    (digits == ['0'] || digits.head? != some '0') &&
    digits.foldl (fun value digit => value * 10 + (digit.toNat - '0'.toNat)) 0 ≤ 255

def isFourOctets (text : List Char) : Bool :=
  let parts := Text.splitAt '.' text
  parts.length == 4 && parts.all isOctet

def isHexGroup (part : List Char) : Bool :=
  !part.isEmpty && part.length ≤ 4 && part.all isHexDigit

/-- The groups of an address. Four octets at the end count as two groups. -/
def groups? (text : List Char) : Option (List (List Char)) :=
  let parts := Text.splitAt ':' text
  let last := parts.getLast?.getD []
  if parts.length < 3 then none
  else if last.contains '.' then
    if isFourOctets last then some (parts.dropLast ++ [['0'], ['0']]) else none
  else some parts

/-- Whether the groups on one side of a gap are groups, when the gap may stand at the outer end. -/
def isSide (outer : Bool) (parts : List (List Char)) : Bool :=
  parts.all isHexGroup || (outer && parts == [[]])

def countSide (parts : List (List Char)) : Nat :=
  if parts == [[]] then 0 else parts.length

/-- Eight groups, or fewer with one gap that stands for the groups that lack. -/
def isGroupAddress (parts : List (List Char)) : Bool :=
  let inner := (parts.drop 1).dropLast
  if parts.length ≤ 9 then
    match inner.zipIdx.filter fun (part, _) => part.isEmpty with
    | [] => parts.length == 8 && parts.all isHexGroup
    | [(_, place)] =>
      let front := parts.take (place + 1)
      let back := parts.drop (place + 2)
      isSide true front && isSide true back && countSide front + countSide back < 8
    | _ => false
  else false

/-- An address of the sixth version, with the name of a zone behind a percent sign or without. -/
def isSixthVersion (host : List Char) : Bool :=
  let isAddress (text : List Char) := (((groups? text).map isGroupAddress).getD false)
  match host.span (· != '%') with
  | (address, []) => isAddress address
  | (address, _ :: zone) => !zone.isEmpty && !zone.contains '%' && isAddress address

/-- The letter v, a version in hexadecimal digits, a point, and more. -/
def isLaterVersion (host : List Char) : Bool :=
  match host with
  | 'v' :: rest =>
    match rest.span isHexDigit with
    | (version, '.' :: (first :: others)) =>
      !version.isEmpty && (first :: others).all (· != '\n')
    | _ => false
  | _ => false

def isBracketedHost (host : List Char) : Bool :=
  if host.head? = some 'v' then isLaterVersion host else isSixthVersion host

/-- Characters that stand for one of those that end an authority or one of its parts. -/
def disguises : CodePoints :=
  [(0x2047, 0x2049), (0x2100, 0x2101), (0x2105, 0x2106), (0x2a74, 0x2a74), (0xfe13, 0xfe13),
    (0xfe16, 0xfe16), (0xfe55, 0xfe56), (0xfe5f, 0xfe5f), (0xfe6b, 0xfe6b), (0xff03, 0xff03),
    (0xff0f, 0xff0f), (0xff1a, 0xff1a), (0xff1f, 0xff20)]

def isAuthority (authority : List Char) : Bool :=
  let bracketed :=
    ((authority.dropWhile (· != '[')).drop 1).takeWhile (· != ']')
  authority.contains '[' == authority.contains ']' &&
    (!authority.contains '[' || isBracketedHost bracketed) &&
    !authority.any disguises.contains

def parts? (text : String) : Option Parts :=
  let (scheme, rest) := splitScheme (cleaned text.toList)
  let authority := authorityOf rest
  if isAuthority authority then some ⟨scheme, authority⟩ else none

end PeerExpansion.Url
