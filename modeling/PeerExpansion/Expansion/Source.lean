import PeerExpansion.Declaration.Read
import PeerExpansion.Expansion
import PeerExpansion.Expansion.Insertion
import PeerExpansion.Registry.Create

/-! # Expanding a source

`Expander.expand` looks for declarations that carry an attribute of a registered macro. A
declaration all of whose macros expand gets its peers; one with a failure is left alone and
reported. Inside a type the search goes on among its members.
-/

namespace PeerExpansion

/-- What an expander works with, and the generators it has made so far, by primary name. -/
structure Expander where
  files : FileStore
  source : ConfigurationSource
  generators : List (String × Generator)

/-- Why an expansion came to no result. -/
inductive ExpansionFault
  | registry (error : RegistryError)
  | interrupted (interruption : Interruption)

structure Workshop where
  expander : Expander
  notes : List LogRecord

/-- Work that may make generators and leave notes, both of which stay when it fails. -/
abbrev Work := ExceptT ExpansionFault (StateM Workshop)

/-- What was found at one place of a source. -/
inductive Finding
  | unreadable (error : SyntaxError)
  | declared (declaration : Declaration) (results : List (Attribute × ExpansionResult))

structure SourceExpansion where
  /-- The source as it was given. -/
  input : List Char
  /-- The source with the peers in it. -/
  source : List Char
  sourceName : String
  expansions : List ExpansionResult
  diagnostics : List Diagnostic

namespace ExpansionResult

def diagnostic? : ExpansionResult → Option Diagnostic
  | .error diagnostic => some diagnostic
  | .ok _ => none

def expansion? : ExpansionResult → Option Expansion
  | .error _ => none
  | .ok expansion => some expansion

end ExpansionResult

namespace Finding

def results : Finding → List ExpansionResult
  | unreadable _ => []
  | declared _ results => results.map (·.2)

def diagnostics (sourceName : String) : Finding → List Diagnostic
  | unreadable error => [.ofSyntaxError error sourceName]
  | declared _ results => results.filterMap fun (_, result) => result.diagnostic?

/-- The edit of a declaration that expanded without a failure. -/
def edit? (tokens : TokenStream) : Finding → Option Edit
  | unreadable _ => none
  | declared declaration results =>
    if results.all fun (_, result) => result.toBool then
      some (Insertion.edit tokens declaration (results.map (·.1))
        ((results.filterMap fun (_, result) => result.expansion?).flatMap Expansion.peers))
    else none

end Finding

namespace SourceExpansion

def isSuccess (expansion : SourceExpansion) : Bool :=
  expansion.diagnostics.isEmpty

def isChanged (expansion : SourceExpansion) : Bool :=
  expansion.source != expansion.input

def expandedCount (expansion : SourceExpansion) : Nat :=
  (expansion.expansions.filter fun result => result.toBool).length

end SourceExpansion

namespace Expander

def ofSource (files : FileStore) (source : ConfigurationSource) : Expander :=
  ⟨files, source, []⟩

/-- The generator for an attribute name, made when it is first asked for. -/
def generatorFor (registry : Registry.Macros) (name : String) : Work Generator := do
  match registry.resolve name with
  | .error error => throw (.registry error)
  | .ok primary =>
    let shop ← get
    match shop.expander.generators.lookup primary with
    | some generator => return generator
    | none =>
      match registry.create shop.expander.files primary shop.expander.source with
      | .error error => throw (.registry error)
      | .ok generator =>
        let generators := shop.expander.generators ++ [(primary, generator)]
        set { shop with expander := { shop.expander with generators } }
        return generator

/-- The expander once its generator for an attribute has been used. -/
def used (expander : Expander) (registry : Registry.Macros) (attr : Attribute)
    (declaration : Declaration) : Expander :=
  match registry.resolve attr.name with
  | .error _ => expander
  | .ok primary =>
    { expander with generators := expander.generators.map fun (name, generator) =>
        (name, if name = primary then generator.after attr declaration else generator) }

/-- Those of a declaration's attributes that are macros. -/
def macroAttributes (registry : Registry.Macros) (attributes : List Attribute) :
    List Attribute :=
  attributes.filter fun attr => registry.isSupported attr.name

def expandAttribute (registry : Registry.Macros) (declaration : Declaration)
    (sourceName : String) (attr : Attribute) : Work (Attribute × ExpansionResult) := do
  let generator ← generatorFor registry attr.name
  let (notes, outcome) := Expansion.run generator attr declaration sourceName
  modify fun shop => ⟨shop.expander.used registry attr declaration, shop.notes ++ notes⟩
  match outcome with
  | .error interruption => throw (.interrupted interruption)
  | .ok result => return (attr, result)

/-- Expands every macro attribute of a declaration. -/
def expandDeclaration (registry : Registry.Macros) (declaration : Declaration)
    (sourceName : String) : Work (List (Attribute × ExpansionResult)) :=
  (macroAttributes registry declaration.attributes).mapM
    (expandAttribute registry declaration sourceName)

/-- Whether the token the cursor stands in front of can begin a declaration with an attribute: it
is the first of its line, or follows a brace or a semicolon. -/
def startsDeclaration (cursor : Cursor) : Bool :=
  cursor.current.isPunctuation "@" &&
    match cursor.previous? with
    | none => true
    | some previous =>
      previous.isPunctuation Token.openBrace || previous.isPunctuation Token.closeBrace ||
        previous.isPunctuation ";" || previous.position.line < cursor.current.position.line

/-- What is found from the cursor on, in at most `limit` steps. Each step passes a token or more. -/
def findWithin (registry : Registry.Macros) (sourceName : String) :
    Nat → Cursor → Work (List Finding)
  | 0, _ => return []
  | limit + 1, cursor =>
    if cursor.behind.isEmpty then return []
    else if !startsDeclaration cursor then findWithin registry sourceName limit (cursor.skip 1)
    else
      match Attribute.readAll.run cursor with
      | .error _ => findWithin registry sourceName limit (cursor.skip 1)
      | .ok (attributes, afterAttributes) =>
        if (macroAttributes registry attributes).isEmpty then
          findWithin registry sourceName limit afterAttributes
        else
          match Declaration.read.run cursor with
          | .error error => do
            let others ← findWithin registry sourceName limit afterAttributes
            return .unreadable error :: others
          | .ok (declaration, next) => do
            let results ← expandDeclaration registry declaration sourceName
            let others ←
              findWithin registry sourceName limit
                (if declaration.isProperty then next else afterAttributes)
            return .declared declaration results :: others

def find (registry : Registry.Macros) (sourceName : String) (tokens : TokenStream) :
    Work (List Finding) :=
  findWithin registry sourceName tokens.words.length (.ofStream tokens 0)

def logger : String :=
  "imagecache.codegen.expander"

def summaryNote (edits : List Edit) (sourceName : String) (diagnostics : List Diagnostic) :
    LogRecord :=
  ⟨.info, logger, "Expanded " ++ toString edits.length ++ " declaration(s) in " ++ sourceName ++
    " with " ++ toString diagnostics.length ++ " diagnostic(s)"⟩

/-- Expands all macro attributes of a source. -/
def expand (registry : Registry.Macros) (source : List Char) (sourceName : String) :
    Work SourceExpansion := do
  match TokenStream.scan source with
  | .error error => return ⟨source, source, sourceName, [], [.ofSyntaxError error sourceName]⟩
  | .ok tokens =>
    let findings ← find registry sourceName tokens
    let edits := findings.filterMap (·.edit? tokens)
    let diagnostics := findings.flatMap (·.diagnostics sourceName)
    modify fun shop =>
      { shop with notes := shop.notes ++ [summaryNote edits sourceName diagnostics] }
    return ⟨source, Edit.applyAll edits source, sourceName, findings.flatMap Finding.results,
      diagnostics⟩

/-- Runs a piece of work: its outcome, the expander afterwards, and the notes it left. -/
def run {α : Type} (expander : Expander) (work : Work α) :
    Except ExpansionFault α × Expander × List LogRecord :=
  let (outcome, shop) := (ExceptT.run work).run ⟨expander, []⟩
  (outcome, shop.expander, shop.notes)

end Expander

/-! ## Convenience -/

def noMacro (declaration : Declaration) (sourceName : String) : Diagnostic :=
  .ofComplaint ⟨"NoMacro", "Declaration carries no registered macro attribute"⟩
    (some declaration.position) sourceName

/-- All the expansions, or the first diagnostic among the results. -/
def allExpansions (results : List ExpansionResult) : Except Diagnostic (List Expansion) :=
  results.mapM id

/-- Expands a text that holds a single declaration. -/
def expandSingle (registry : Registry.Macros) (source : List Char) (sourceName : String) :
    Work (Except Diagnostic (List Expansion)) := do
  match Declaration.parse source with
  | .error error => return .error (.ofSyntaxError error sourceName)
  | .ok declaration =>
    let results ← Expander.expandDeclaration registry declaration sourceName
    if results.isEmpty then return .error (noMacro declaration sourceName)
    else return allExpansions (results.map (·.2))

end PeerExpansion
