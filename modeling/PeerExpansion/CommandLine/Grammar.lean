import PeerExpansion.Text.Quoted

/-! # Grammars of command lines

A command line consists of options, each with the value it takes, and of at most one operand. The
operand of the main program is the name of a command; the words behind it belong to that command.
-/

namespace PeerExpansion.CommandLine

inductive OptionKind
  | help
  | version
  /-- Takes no value. -/
  | flag
  | text
  | number
  /-- Takes one of several words, written in whatever letters. -/
  | choice (words : List String)
deriving DecidableEq

structure OptionSpec where
  /-- The ways to write the option. -/
  names : List String
  kind : OptionKind
  /-- Arguments of the same group exclude each other. -/
  group : Option Nat
deriving DecidableEq

namespace OptionSpec

def takesValue (option : OptionSpec) : Bool :=
  match option.kind with
  | .help | .version | .flag => false
  | .text | .number | .choice _ => true

/-- How the option is called in messages. -/
def title (option : OptionSpec) : String :=
  String.intercalate "/" option.names

end OptionSpec

inductive Arity
  | single
  | optional
  /-- One of several words, and with it all words behind it. -/
  | command (words : List String)
deriving DecidableEq

structure Operand where
  title : String
  arity : Arity
  group : Option Nat
deriving DecidableEq

structure Grammar where
  program : String
  options : List OptionSpec
  operand : Option Operand

namespace Grammar

/-- Every way to write an option. -/
def names (grammar : Grammar) : List (String × OptionSpec) :=
  grammar.options.flatMap fun option => option.names.map fun name => (name, option)

/-- The arguments of a group, by their titles, in the order in which conflicts are looked for. The
operand comes first. -/
def titlesOf (grammar : Grammar) (group : Nat) : List String :=
  let operands := grammar.operand.toList.filter fun operand => operand.group == some group
  let options := grammar.options.filter fun option => option.group == some group
  operands.map Operand.title ++ options.map OptionSpec.title

end Grammar

inductive UsageError
  | ambiguous (word : String) (names : List String)
  | valueExpected (title : String)
  | valueIgnored (title value : String)
  | notNumber (title value : String)
  | invalidChoice (title value : String) (words : List String)
  | excluded (title other : String)
  | required (title : String)
  | unrecognized (words : List String)
deriving DecidableEq

def UsageError.message : UsageError → String
  | ambiguous word names =>
    "ambiguous option: " ++ word ++ " could match " ++ String.intercalate ", " names
  | valueExpected title => "argument " ++ title ++ ": expected one argument"
  | valueIgnored title value =>
    "argument " ++ title ++ ": ignored explicit argument " ++ Text.quoted value
  | notNumber title value => "argument " ++ title ++ ": invalid int value: " ++ Text.quoted value
  | invalidChoice title value words =>
    "argument " ++ title ++ ": invalid choice: " ++ Text.quoted value ++ " (choose from " ++
      String.intercalate ", " (words.map Text.quoted) ++ ")"
  | excluded title other => "argument " ++ title ++ ": not allowed with argument " ++ other
  | required title => "the following arguments are required: " ++ title
  | unrecognized words => "unrecognized arguments: " ++ String.intercalate " " words

/-- Why the reading of a command line came to an end before the program began its work. -/
inductive Stop
  | help
  | version
  | usage (program : String) (error : UsageError)
deriving DecidableEq

end PeerExpansion.CommandLine
