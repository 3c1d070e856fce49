import PeerExpansion.Attribute
import PeerExpansion.Pattern
import PeerExpansion.TypeExpr

/-! # Declarations

A declaration as it stands in a source. Variables are taken apart into their bindings; of any other
declaration only the kind, the name and the end are known.
-/

namespace PeerExpansion

inductive DeclarationKind
  /-- A variable or constant. -/
  | property
  | classType
  | structType
  | enumType
  | protocolType
  | actorType
  | typeExtension
  | function
  | initializer
  | deinitializer
  | subscript
  | typeAlias
  | associatedType
  | enumCase
  | moduleImport
  | macroDefinition
  | operator
  | precedenceGroup
deriving DecidableEq

namespace DeclarationKind

def keywords : List (String × DeclarationKind) :=
  [("var", property), ("let", property), ("class", classType), ("struct", structType),
    ("enum", enumType), ("protocol", protocolType), ("actor", actorType),
    ("extension", typeExtension), ("func", function), ("init", initializer),
    ("deinit", deinitializer), ("subscript", subscript), ("typealias", typeAlias),
    ("associatedtype", associatedType), ("case", enumCase), ("import", moduleImport),
    ("macro", macroDefinition), ("operator", operator), ("precedencegroup", precedenceGroup)]

def ofKeyword? (keyword : String) : Option DeclarationKind :=
  keywords.lookup keyword

/-- The kind as it is named in reports. -/
def name : DeclarationKind → String
  | property => "variable"
  | classType => "class"
  | structType => "struct"
  | enumType => "enum"
  | protocolType => "protocol"
  | actorType => "actor"
  | typeExtension => "extension"
  | function => "function"
  | initializer => "initializer"
  | deinitializer => "deinitializer"
  | subscript => "subscript"
  | typeAlias => "typealias"
  | associatedType => "associatedtype"
  | enumCase => "case"
  | moduleImport => "import"
  | macroDefinition => "macro"
  | operator => "operator"
  | precedenceGroup => "precedencegroup"

end DeclarationKind

/-- One `pattern: Type = initializer { accessors }` of a variable declaration. -/
structure Binding where
  pattern : Pattern
  type : Option TypeExpr
  initializer : Option String
  accessors : Option String

structure Declaration where
  kind : DeclarationKind
  keyword : String
  position : Position
  stop : Nat
  /-- The source text of the whole declaration. -/
  text : String
  attributes : List Attribute
  modifiers : List String
  /-- Empty unless the declaration is a variable. -/
  bindings : List Binding
  /-- The name behind the keyword, unless the declaration is a variable. -/
  name : Option String

namespace Declaration

def start (declaration : Declaration) : Nat :=
  declaration.position.offset

def isProperty (declaration : Declaration) : Bool :=
  declaration.kind == .property

def findAttribute? (declaration : Declaration) (name : String) : Option Attribute :=
  declaration.attributes.find? (·.name == name)

end Declaration

end PeerExpansion
