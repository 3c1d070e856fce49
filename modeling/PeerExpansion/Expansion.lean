import PeerExpansion.Generator
import PeerExpansion.Text.Tidy

/-! # Expansions

What came of one attribute: its peers, or a diagnostic, never something of both.
-/

namespace PeerExpansion

structure Expansion where
  peers : List String
  macroName : String
  attributeName : String
  role : String
  declarationKind : DeclarationKind
  line : Nat

abbrev ExpansionResult := Except Diagnostic Expansion

/-- Faults that end an expansion instead of being reported at a declaration. -/
inductive Interruption
  | misused (misuse : Misuse)
  | template (fault : TemplateFault)

namespace Expansion

/-- The peers as they would stand in a source. -/
def code (expansion : Expansion) : String :=
  String.intercalate "\n" expansion.peers

/-- What is worth knowing of an expansion besides its peers. -/
def metadata (expansion : Expansion) : Settings :=
  [("macro", .text expansion.macroName), ("attribute", .text expansion.attributeName),
    ("role", .text expansion.role),
    ("declaration_kind", .text expansion.declarationKind.name),
    ("peer_count", .int expansion.peers.length), ("line", .int expansion.line)]

/-- Of several expansions, only the macros are told. -/
def jointMetadata : List Expansion → Settings
  | [expansion] => expansion.metadata
  | expansions => [("macros", .list (expansions.map fun expansion => .text expansion.macroName))]

/-- Uses a generator for one attribute of a declaration. -/
def run (generator : Generator) (attr : Attribute) (declaration : Declaration)
    (sourceName : String) : List LogRecord × Except Interruption ExpansionResult :=
  let generation := generator.generate attr declaration
  let outcome :=
    match generation.outcome with
    | .error (.refused complaint) =>
      .ok (.error (.ofComplaint complaint (some declaration.position) sourceName))
    | .error (.misused misuse) => .error (.misused misuse)
    | .error (.template fault) => .error (.template fault)
    | .ok peers =>
      .ok (.ok {
        peers := peers.map Text.tidy
        macroName := generator.macroName
        attributeName := attr.name
        role := generator.role
        declarationKind := declaration.kind
        line := declaration.position.line })
  (generation.notes, outcome)

end Expansion

end PeerExpansion
