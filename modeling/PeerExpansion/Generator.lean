import PeerExpansion.CachedProperty.MarkerFlag
import PeerExpansion.CachedProperty.Peers
import PeerExpansion.Log

/-! # Generators

A generator makes peers for the attributes of one name. It selects its decode step when a
declaration first needs one, and keeps it. Generators of one class are made from a configuration;
the class for cached properties is the one this library brings along.
-/

namespace PeerExpansion

/-- Why a generator made no peers. A refusal is reported to whoever wrote the attribute; everything
else is a fault in the configuration and ends the expansion. -/
inductive GenerationFault
  | refused (complaint : Complaint)
  | misused (misuse : Misuse)
  | template (fault : TemplateFault)

/-- What one use of a generator led to, and what it left in the log. -/
structure Generation where
  notes : List LogRecord
  outcome : Except GenerationFault (List String)

/-- What is to be done about a declaration: it is settled already, or waits for the decode step. -/
inductive Plan
  | settled (generation : Generation)
  | decoding (finish : CachedProperty.DecodeStep → Generation)

structure Generator where
  className : String
  /-- The name of the attribute that the generator is for. -/
  macroName : String
  role : String
  configuration : Configuration
  /-- The settings that are worth showing, under the names they are shown by. -/
  settings : Settings
  /-- The names of the templates at hand. -/
  templateNames : List String
  plan : Attribute → Declaration → Plan
  /-- The decode step for the build target, or why there is none. -/
  select : Except GenerationFault CachedProperty.DecodeStep := .error (.misused .wrongSort)
  /-- The decode step that was selected, once a declaration has needed it. -/
  step? : Option CachedProperty.DecodeStep := none

namespace Generator

/-- The decode step that is kept, or else the one to select. -/
def step (generator : Generator) : Except GenerationFault CachedProperty.DecodeStep :=
  match generator.step? with
  | some step => .ok step
  | none => generator.select

def generate (generator : Generator) (attr : Attribute) (declaration : Declaration) : Generation :=
  match generator.plan attr declaration with
  | .settled generation => generation
  | .decoding finish =>
    match generator.step with
    | .ok step => finish step
    | .error fault => ⟨[], .error fault⟩

/-- The generator after a use. What could not be selected is not kept, and tried again next time. -/
def after (generator : Generator) (attr : Attribute) (declaration : Declaration) : Generator :=
  match generator.plan attr declaration with
  | .settled _ => generator
  | .decoding _ => { generator with step? := generator.step.toOption }

end Generator

structure GeneratorClass where
  name : String
  /-- Where the class comes from. -/
  module : String
  /-- Makes a generator, or says why the class has none. -/
  create : Configuration → Except String Generator

namespace GeneratorClass

/-- The class that all others are special cases of. It says nothing about what to generate. -/
def base : GeneratorClass where
  name := "MacroGenerator"
  module := "imagecache.codegen.core.generator"
  create _ := .error
    "Can't instantiate abstract class MacroGenerator with abstract methods expand, macro_name"

end GeneratorClass

namespace CachedProperty

def PropertyFault.toGeneration : PropertyFault → GenerationFault
  | refused refusal => .refused refusal.complaint
  | misused misuse => .misused misuse
  | template fault => .template fault

/-- What has to be settled before the decode step is asked for. The declaration is checked first, so
a wrong declaration is reported on every machine. -/
def review (configuration : Configuration) (attr : Attribute) (declaration : Declaration) :
    Except PropertyFault (Names × Json) := do
  let names ← Names.derive configuration attr.name declaration
  let flag ← (markerFlag configuration attr).mapError .refused
  return (names, flag)

/-- What has to be settled before any peer is written. The target comes last. -/
def prepare (machine macroName : String) (configuration : Configuration) (attr : Attribute)
    (declaration : Declaration) : Except PropertyFault (Names × Json × DecodeStep) := do
  let (names, flag) ← review configuration attr declaration
  let step ←
    DecodeStep.select machine configuration.targetPlatform configuration.resourceType macroName
  return (names, flag, step)

def logger : String :=
  "imagecache.codegen.macros.image_cache.generator"

def expansionNote (attr : Attribute) (names : Names) (declaration : Declaration) : LogRecord :=
  ⟨.info, logger, "Expanding @" ++ attr.name ++ " on " ++ names.source ++ " (line " ++
    toString declaration.position.line ++ ")"⟩

/-- What is made of a declaration that was reviewed. -/
def finish (configuration : Configuration) (attr : Attribute) (declaration : Declaration)
    (names : Names) (flag : Json) (step : DecodeStep) : Generation :=
  ⟨[expansionNote attr names declaration],
    (peers configuration names flag step).mapError PropertyFault.toGeneration⟩

def plan (configuration : Configuration) (attr : Attribute) (declaration : Declaration) : Plan :=
  match review configuration attr declaration with
  | .error fault => .settled ⟨[], .error fault.toGeneration⟩
  | .ok (names, flag) => .decoding (finish configuration attr declaration names flag)

/-- What a generator for cached properties makes of a declaration, at every use of it. -/
def generate (machine macroName : String) (configuration : Configuration) (attr : Attribute)
    (declaration : Declaration) : Generation :=
  match prepare machine macroName configuration attr declaration with
  | .error fault => ⟨[], .error fault.toGeneration⟩
  | .ok (names, flag, step) => finish configuration attr declaration names flag step

def settings (configuration : Configuration) : Settings :=
  [("Suffix", configuration.suffix), ("Source Type", .text configuration.expectedType),
    ("Resource Type", configuration.resourceType),
    ("Persistence Marker", configuration.persistenceMarker),
    ("Marker By Default", configuration.emitPersistenceMarker),
    ("Target Platform",
      if configuration.targetPlatform.isTruthy then configuration.targetPlatform
      else .text "host"),
    ("Indent",
      if configuration.useTabs.isTruthy then .text "tab"
      else .text (configuration.indentSize.display ++ " spaces"))]

/-- A generator for cached properties whose attribute is called `macroName`. -/
def generator (machine className macroName : String) (configuration : Configuration) :
    Generator where
  className := className
  macroName := macroName
  role := "peer"
  configuration := configuration
  settings := settings configuration
  templateNames := templates.map (·.1)
  plan := plan configuration
  select :=
    (DecodeStep.select machine configuration.targetPlatform configuration.resourceType
      macroName).mapError PropertyFault.toGeneration

def generatorClass (machine : String) : GeneratorClass where
  name := "ImageCacheGenerator"
  module := "imagecache.codegen.macros.image_cache.generator"
  create configuration := .ok (generator machine "ImageCacheGenerator" "ImageCache" configuration)

end CachedProperty

end PeerExpansion
