import PeerExpansion.SyntaxError

/-! # Comments and string literals

Both can nest: block comments in block comments, and string literals in the interpolations of
string literals. `commentEnd` and `literalEnd` find where the outermost one closes.
-/

namespace PeerExpansion

/-- The text behind the end of a block comment that holds `depth` open comments of its own. -/
def commentEnd (depth : Nat) : List Char → Option (List Char)
  | '/' :: '*' :: rest => commentEnd (depth + 1) rest
  | '*' :: '/' :: rest =>
    match depth with
    | 0 => some rest
    | below + 1 => commentEnd below rest
  | _ :: rest => commentEnd depth rest
  | [] => none

/-- What is open at a point inside a string literal. -/
inductive LiteralFrame
  /-- A literal that has to close on its line. -/
  | line
  /-- A literal between triple quotes. -/
  | block
  /-- An interpolation with `depth` parentheses open inside its own. -/
  | interpolation (depth : Nat)
deriving DecidableEq

/-- The complaint when the text ends, or its line does, while a frame is open. -/
def LiteralFrame.fault : LiteralFrame → SyntaxFault
  | line => .unterminatedLiteral
  | block => .unterminatedMultilineLiteral
  | interpolation _ => .unterminatedInterpolation

/-- The text behind the end of the frame `top` and of all the frames it is `inside` of, the
innermost first. -/
def literalEnd (top : LiteralFrame) (inside : List LiteralFrame) :
    List Char → Except SyntaxFault (List Char)
  | [] => .error top.fault
  | character :: rest =>
    match top with
    | .line =>
      if character = '\\' then
        match rest with
        | '(' :: more => literalEnd (.interpolation 0) (.line :: inside) more
        | _ :: more => literalEnd .line inside more
        | [] => .error top.fault
      else if character = '"' then
        match inside with
        | [] => .ok rest
        | outer :: further => literalEnd outer further rest
      else if character = '\n' then .error top.fault
      else literalEnd .line inside rest
    | .block =>
      match character, rest with
      | '"', '"' :: '"' :: more =>
        match inside with
        | [] => .ok more
        | outer :: further => literalEnd outer further more
      | _, later => literalEnd .block inside later
    | .interpolation depth =>
      if character = '"' then
        match rest with
        | '"' :: '"' :: more => literalEnd .block (.interpolation depth :: inside) more
        | later => literalEnd .line (.interpolation depth :: inside) later
      else if character = '(' then literalEnd (.interpolation (depth + 1)) inside rest
      else if character = ')' then
        match depth, inside with
        | below + 1, _ => literalEnd (.interpolation below) inside rest
        | 0, outer :: further => literalEnd outer further rest
        | 0, [] => .ok rest
      else if character = '\n' then .error top.fault
      else literalEnd (.interpolation depth) inside rest

end PeerExpansion
