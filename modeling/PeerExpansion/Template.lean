import PeerExpansion.Json
import PeerExpansion.Misuse
import PeerExpansion.Text.Lines
import PeerExpansion.Text.Repeat

/-! # Templates

A template is text with holes. A hole holds the value of an expression over a context; parts of a
template can depend on a condition or have their lines indented. Using a name the context lacks is
an error, but only where its value is needed.
-/

namespace PeerExpansion

inductive TemplateExpr
  | literal (value : Json)
  | name (name : String)
  | member (object : TemplateExpr) (name : String)
  | call (object : TemplateExpr) (method : String) (arguments : List TemplateExpr)
  /-- The value with its lines indented; the arguments are the unit and the number of levels. -/
  | indented (value : TemplateExpr) (arguments : List TemplateExpr)

inductive TemplateNode
  | text (text : String)
  | hole (expression : TemplateExpr)
  | when (condition : TemplateExpr) (body : List TemplateNode)
  | indented (arguments : List TemplateExpr) (body : List TemplateNode)

abbrev Template := List TemplateNode

/-- A value with named members, and methods of one argument. -/
structure TemplateObject where
  sortName : String
  shown : String
  members : List (String × Json)
  methods : List (String × (String → String))

inductive TemplateValue
  | plain (value : Json)
  | object (entity : TemplateObject)
  /-- Stands for a value that is not there, and says why. -/
  | absent (reason : String)

abbrev TemplateContext := List (String × TemplateValue)

inductive TemplateFault
  | absent (reason : String)
  | misuse (misuse : Misuse) (reason : String)
  | unknownTemplate (name : String)
  | malformed (reason : String)

def TemplateFault.message : TemplateFault → String
  | absent reason => reason
  | misuse _ reason => reason
  | unknownTemplate name => name
  | malformed reason => reason

namespace TemplateValue

def display : TemplateValue → Except TemplateFault String
  | plain value => .ok value.display
  | object entity => .ok entity.shown
  | absent reason => .error (.absent reason)

def isTruthy : TemplateValue → Except TemplateFault Bool
  | plain value => .ok value.isTruthy
  | object _ => .ok true
  | absent reason => .error (.absent reason)

def sortName : TemplateValue → String
  | plain value => value.sortName ++ " object"
  | object entity => entity.sortName
  | absent reason => reason

def lacking (value : TemplateValue) (name : String) : TemplateValue :=
  absent (Text.quoted value.sortName ++ " has no attribute " ++ Text.quoted name)

/-- The member of a value. Asking an absent value for a member is already a use. -/
def member (value : TemplateValue) (name : String) : Except TemplateFault TemplateValue :=
  match value with
  | absent reason => .error (.absent reason)
  | object entity =>
    match entity.members.lookup name with
    | some found => .ok (plain found)
    | none => .ok (value.lacking name)
  | plain (.object entries) =>
    match entries.lookup name with
    | some found => .ok (plain found)
    | none => .ok (value.lacking name)
  | plain _ => .ok (value.lacking name)

def call (value : TemplateValue) (method : String) (arguments : List String) :
    Except TemplateFault TemplateValue :=
  match value, arguments with
  | absent reason, _ => .error (.absent reason)
  | object entity, [argument] =>
    match entity.methods.lookup method with
    | some apply => .ok (plain (.text (apply argument)))
    | none => .error (.absent (Text.quoted entity.sortName ++ " has no attribute " ++
        Text.quoted method))
  | value, _ => .error (.absent (Text.quoted value.sortName ++ " has no attribute " ++
      Text.quoted method))

end TemplateValue

/-! ## Indentation -/

namespace Indentation

/-- What is put in front of lines. A number or list in front of a line is misused, but only where
there is a line that needs it. -/
inductive Lead
  | text (text : List Char)
  | unusable (reason : String)

def repeated (text : String) (count : Int) : Except TemplateFault Lead :=
  match Text.repeat? text.toList count with
  | some lead => .ok (.text lead)
  | none => .error (.misuse .tooLarge "cannot fit 'int' into an index-sized integer")

/-- Why two values have no product. -/
def noProduct (unit levels : Json) : String :=
  let uncountable (sort : String) := "can't multiply sequence by non-int of type '" ++ sort ++ "'"
  match unit, levels with
  | .text _, levels | .list _, levels => uncountable levels.sortName
  | unit, .text _ | unit, .list _ => uncountable unit.sortName
  | unit, levels =>
    "unsupported operand type(s) for *: '" ++ unit.sortName ++ "' and '" ++ levels.sortName ++ "'"

/-- `unit` taken `levels` times. The two may come in either order, as in any product. -/
def lead (unit levels : Json) : Except TemplateFault Lead :=
  match unit, levels, unit.count?, levels.count? with
  | .text text, _, _, some count => repeated text count
  | _, .text text, some count, _ => repeated text count
  | .list _, _, _, some _ | _, .list _, some _, _ =>
    .ok (.unusable "can only concatenate list (not \"str\") to list")
  | _, _, some _, some _ =>
    .ok (.unusable "unsupported operand type(s) for +: 'int' and 'str'")
  | _, _, _, _ => .error (.misuse .wrongSort (noProduct unit levels))

/-- Puts a lead in front of every line that is not blank. -/
def Lead.applyTo (text : List Char) : Lead → Except TemplateFault (List Char)
  | .text lead => .ok (Text.indentLines lead text)
  | .unusable reason =>
    if (Text.lines text).all Text.isBlankLine then .ok text
    else .error (.misuse .wrongSort reason)

/-- Four spaces, one level. -/
def standardUnit : Json := .text "    "

def standardLevels : Json := .int 1

end Indentation

end PeerExpansion
