import PeerExpansion.CachedProperty.DecodeStep
import PeerExpansion.CachedProperty.Names
import PeerExpansion.Configuration
import PeerExpansion.Template.Render

/-! # The peers of a cached property

Three declarations follow the source field: the hash of the buffer that was decoded last, the value
decoded from it, and the accessor that decodes again when the hash has changed. Their layout is
given by three templates.
-/

namespace PeerExpansion.CachedProperty

/-! ## Templates -/

def spec (member : String) : TemplateNode :=
  .hole (.member (.name "spec") member)

/-- The marker and a space, where there is a marker. -/
def markerPart : TemplateNode :=
  .when (.name "marker") [.hole (.name "marker"), .text " "]

def hashTemplate : Template :=
  [markerPart, .text "private var ", spec "hash_field_name", .text ": Int = 0"]

def cacheTemplate : Template :=
  [markerPart, .text "private var ", spec "cache_field_name", .text ": ",
    .hole (.name "resource_type"), .text "?"]

def unit : TemplateNode :=
  .hole (.name "unit")

/-- The statements of the getter. -/
def getterTemplate : Template :=
  [.text "if ", spec "source_name", .text ".hashValue != ", spec "hash_field_name", .text ",\n",
    unit, .text "let ", spec "source_name", .text ",\n",
    unit, .text "let ", .hole (.member (.name "strategy") "binding"), .text " = ",
    .hole (.call (.name "strategy") "decode_expression" [.member (.name "spec") "source_name"]),
    .text "\n\x7b\n",
    unit, spec "cache_field_name", .text " = ",
    .hole (.call (.name "strategy") "wrap_expression" [.member (.name "strategy") "binding"]),
    .text "\n",
    unit, spec "hash_field_name", .text " = ", spec "source_name", .text ".hashValue\n\x7d\n",
    .text "return ", spec "cache_field_name", .text "\n"]

def accessorTemplate : Template :=
  [.text "var ", spec "accessor_name", .text ": ", .hole (.name "resource_type"),
    .text "? \x7b\n",
    .indented [.name "unit"]
      [.text "get \x7b\n", .indented [.name "unit"] getterTemplate, .text "\x7d\n"],
    .text "\x7d"]

/-- The templates by name, in the order of the peers. -/
def templates : List (String × Template) :=
  [("hash_field.swift.j2", hashTemplate), ("cache_field.swift.j2", cacheTemplate),
    ("accessor.swift.j2", accessorTemplate)]

/-! ## Context -/

def Names.toTemplate (names : Names) : TemplateValue :=
  .object {
    sortName := "PropertySpec object"
    shown := "PropertySpec(source_name=" ++ Text.quoted names.source ++ ", prefix=" ++
      Text.quoted names.stem ++ ")"
    members := [("source_name", .text names.source), ("prefix", .text names.stem),
      ("hash_field_name", .text names.hashField), ("cache_field_name", .text names.cacheField),
      ("accessor_name", .text names.accessor)]
    methods := [] }

def DecodeStep.toTemplate (step : DecodeStep) : TemplateValue :=
  .object {
    sortName := step.sortName ++ " object"
    shown := step.shown
    members := [("framework", .text step.framework.name), ("binding", .text step.binding),
      ("resource_type", step.resourceType),
      ("name", .text (String.ofList (step.framework.name.toList.map Text.lowercase)))]
    methods := [("decode_expression", step.decode), ("wrap_expression", step.wrap)] }

/-- The marker to write, when one is asked for. -/
def marker (configuration : Configuration) (flag : Json) : Json :=
  if flag.isTruthy then configuration.persistenceMarker else .null

def context (names : Names) (step : DecodeStep) (resource marker : Json) (unit : String) :
    TemplateContext :=
  [("spec", names.toTemplate), ("strategy", step.toTemplate), ("resource_type", .plain resource),
    ("marker", .plain marker), ("unit", .plain (.text unit))]

/-- The three peers, in the order in which they follow the field. -/
def peers (configuration : Configuration) (names : Names) (flag : Json) (step : DecodeStep) :
    Except PropertyFault (List String) :=
  match configuration.indentUnit with
  | .error misuse => .error (.misused misuse)
  | .ok unit =>
    let filled := context names step configuration.resourceType (marker configuration flag) unit
    let texts : Except TemplateFault (List String) :=
      (templates.map (·.2)).mapM (Template.render filled)
    texts.mapError .template

end PeerExpansion.CachedProperty
