import PeerExpansion.Text.Printable

/-! # Quoted text in messages

A text shown in a message stands between single quotes, or between double quotes when it holds a
single quote and no double one. Inside, the backslash, the quote in use and every unprintable
character are escaped, the last by their code point in hexadecimal.
-/

namespace PeerExpansion.Text

def hexDigit (value : Nat) : Char :=
  (Nat.digitChar value).toLower

/-- The last `width` hexadecimal digits of a number. -/
def hexDigits (width value : Nat) : List Char :=
  (List.range width).reverse.map fun place => hexDigit ((value >>> (4 * place)) % 16)

/-- The shortest of the three escapes by code point that has room for the character. -/
def codePointEscape (character : Char) : List Char :=
  let code := character.toNat
  if code < 0x100 then '\\' :: 'x' :: hexDigits 2 code
  else if code < 0x10000 then '\\' :: 'u' :: hexDigits 4 code
  else '\\' :: 'U' :: hexDigits 8 code

def escaped (quote character : Char) : List Char :=
  if character = quote || character = '\\' then ['\\', character]
  else if character = '\n' then ['\\', 'n']
  else if character = '\r' then ['\\', 'r']
  else if character = '\t' then ['\\', 't']
  else if isPrintable character then [character]
  else codePointEscape character

/-- The quote that needs no escape, where there is one; the single quote otherwise. -/
def quoteFor (text : List Char) : Char :=
  if text.contains '\'' && !text.contains '"' then '"' else '\''

def quotedChars (text : List Char) : List Char :=
  let quote := quoteFor text
  quote :: text.flatMap (escaped quote) ++ [quote]

def quoted (text : String) : String :=
  String.ofList (quotedChars text.toList)

end PeerExpansion.Text
