import PeerExpansion.Template

/-! # Rendering templates

`Template.render` fills the holes of a template from a context. Expressions are evaluated where they
stand, arguments before what they are given to.
-/

namespace PeerExpansion

namespace Indentation

/-- The value an argument stands for; an absent one is an error as soon as it is multiplied. -/
def factor (standard : Json) : Option TemplateValue → Except TemplateFault Json
  | none => .ok standard
  | some (.plain value) => .ok value
  | some (.object entity) =>
    .error (.misuse .wrongSort ("unsupported operand type(s) for *: '" ++ entity.sortName ++ "'"))
  | some (.absent reason) => .error (.absent reason)

/-- Indents the lines of a value by the unit and the number of levels that `arguments` give. -/
def apply (value : TemplateValue) (arguments : List TemplateValue) :
    Except TemplateFault String := do
  if 2 < arguments.length then
    throw (.misuse .wrongSort "too many arguments")
  let unit ← factor standardUnit arguments[0]?
  let levels ← factor standardLevels arguments[1]?
  let lead ← lead unit levels
  let text ← value.display
  return String.ofList (← lead.applyTo text.toList)

end Indentation

namespace TemplateExpr

mutual

def eval (context : TemplateContext) : TemplateExpr → Except TemplateFault TemplateValue
  | literal value => .ok (.plain value)
  | .name key =>
    .ok ((context.lookup key).getD (.absent (Text.quoted key ++ " is undefined")))
  | member object key => do (← object.eval context).member key
  | call object method arguments => do
    let object ← object.eval context
    let arguments ← evalAll context arguments
    object.call method (← arguments.mapM TemplateValue.display)
  | indented value arguments => do
    let value ← value.eval context
    let arguments ← evalAll context arguments
    return .plain (.text (← Indentation.apply value arguments))

def evalAll (context : TemplateContext) :
    List TemplateExpr → Except TemplateFault (List TemplateValue)
  | [] => .ok []
  | expression :: others => do
    let value ← expression.eval context
    let values ← evalAll context others
    return value :: values

end

end TemplateExpr

mutual

def TemplateNode.render (context : TemplateContext) : TemplateNode → Except TemplateFault String
  | .text text => .ok text
  | .hole expression => do (← expression.eval context).display
  | .when condition body => do
    if ← (← condition.eval context).isTruthy then Template.render context body else return ""
  | .indented arguments body => do
    let text ← Template.render context body
    let arguments ← TemplateExpr.evalAll context arguments
    Indentation.apply (.plain (.text text)) arguments

def Template.render (context : TemplateContext) : List TemplateNode → Except TemplateFault String
  | [] => .ok ""
  | node :: others => do
    let first ← node.render context
    let rest ← Template.render context others
    return first ++ rest

end

end PeerExpansion
