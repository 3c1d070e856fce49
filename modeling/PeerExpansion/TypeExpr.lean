/-! # Types

The types a declaration can be annotated with, and the one way `TypeExpr.description` writes each.
-/

namespace PeerExpansion

inductive TypeExpr
  /-- A dotted name. `arguments` are the generic arguments of its last part, which `name` holds
  in writing too. -/
  | simple (name : String) (arguments : List TypeExpr)
  | optional (wrapped : TypeExpr)
  | implicitlyUnwrapped (wrapped : TypeExpr)
  | array (element : TypeExpr)
  | dictionary (key value : TypeExpr)
  | tuple (elements : List (Option String × TypeExpr))
  | function (parameters : List (Option String × TypeExpr)) (effects : List String)
      (result : TypeExpr)
  /-- A type known by what it conforms to, such as `some View`. -/
  | constrained (specifier : String) (constraint : TypeExpr)
  | composition (members : List TypeExpr)

namespace TypeExpr

/-- Whether a question or exclamation mark behind the type would belong to a part of it only. -/
def needsParentheses : TypeExpr → Bool
  | function .. | constrained .. | composition .. => true
  | _ => false

def parenthesised (type : TypeExpr) (text : String) : String :=
  if type.needsParentheses then "(" ++ text ++ ")" else text

def labelled (label : Option String) (text : String) : String :=
  match label with
  | some label => label ++ ": " ++ text
  | none => text

/-- The arrow of a function type with its effects in front. -/
def arrow (effects : List String) : String :=
  String.join (effects.map (" " ++ ·)) ++ " -> "

mutual

def description : TypeExpr → String
  | simple name _ => name
  | optional wrapped => parenthesised wrapped wrapped.description ++ "?"
  | implicitlyUnwrapped wrapped => parenthesised wrapped wrapped.description ++ "!"
  | array element => "[" ++ element.description ++ "]"
  | dictionary key value => "[" ++ key.description ++ ": " ++ value.description ++ "]"
  | tuple elements => "(" ++ String.intercalate ", " (elementDescriptions elements) ++ ")"
  | function parameters effects result =>
    "(" ++ String.intercalate ", " (elementDescriptions parameters) ++ ")" ++ arrow effects ++
      result.description
  | constrained specifier constraint => specifier ++ " " ++ constraint.description
  | composition members => String.intercalate " & " (descriptions members)

def descriptions : List TypeExpr → List String
  | [] => []
  | type :: others => type.description :: descriptions others

def elementDescriptions : List (Option String × TypeExpr) → List String
  | [] => []
  | (label, type) :: others =>
    labelled label type.description :: elementDescriptions others

end

/-- A name with its generic arguments. -/
def genericName (name : String) (arguments : List TypeExpr) : String :=
  if arguments.isEmpty then name
  else name ++ "<" ++ String.intercalate ", " (descriptions arguments) ++ ">"

end TypeExpr

end PeerExpansion
