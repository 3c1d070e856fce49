import PeerExpansion.Association
import PeerExpansion.FilePath
import PeerExpansion.Template.Read
import PeerExpansion.Template.Render

/-! # Shelves of templates

A shelf holds templates by name: either a fixed set, which is looked up like a directory of files,
or texts that are put there one by one. Putting a text on a fixed shelf clears it first, so it never
mixes the two.
-/

namespace PeerExpansion

inductive TemplateShelf
  | fixed (templates : List (String × Template))
  | written (texts : List (String × String))

/-- A template that could not be rendered. -/
inductive RenderError
  | named (name : String) (fault : TemplateFault)
  | unnamed (fault : TemplateFault)

namespace RenderError

def message : RenderError → String
  | named name fault => "Failed to render template " ++ name ++ ": " ++ fault.message
  | unnamed fault => "Failed to render template string: " ++ fault.message

end RenderError

namespace TemplateShelf

def empty : TemplateShelf := written []

def texts : TemplateShelf → List (String × String)
  | fixed _ => []
  | written texts => texts

def put (shelf : TemplateShelf) (name text : String) : TemplateShelf :=
  written (Association.put shelf.texts name text)

/-- The template of a name. On a fixed shelf the name is a path, in which only the steps count. -/
def find (shelf : TemplateShelf) (name : String) : Except TemplateFault Template :=
  match shelf with
  | fixed templates =>
    match templates.lookup (String.intercalate "/" (FilePath.ofText name).steps) with
    | some template => .ok template
    | none => .error (.unknownTemplate name)
  | written texts =>
    match texts.lookup name with
    | some text => Template.parse text
    | none => .error (.unknownTemplate name)

def holds (shelf : TemplateShelf) (name : String) : Bool :=
  match shelf.find name with
  | .error (.unknownTemplate _) => false
  | _ => true

def render (shelf : TemplateShelf) (name : String) (context : TemplateContext) :
    Except RenderError String :=
  (shelf.find name >>= Template.render context).mapError (.named name)

/-- Renders a text that is on no shelf. -/
def renderText (text : String) (context : TemplateContext) : Except RenderError String :=
  (Template.parse text >>= Template.render context).mapError .unnamed

end TemplateShelf

end PeerExpansion
