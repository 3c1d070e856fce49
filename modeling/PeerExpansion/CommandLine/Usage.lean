import PeerExpansion.CommandLine.Invocation

/-! # Usage

How the program is called, one line for the program and one for each of its commands. Everything in
brackets can be left out.
-/

namespace PeerExpansion.CommandLine

def OptionKind.valueShown : OptionKind → String
  | help | version | flag => ""
  | text => " TEXT"
  | number => " NUMBER"
  | choice words => " \x7b" ++ String.intercalate "," words ++ "\x7d"

def OptionSpec.usage (option : OptionSpec) : String :=
  "[" ++ option.names.headD "" ++ option.kind.valueShown ++ "]"

def Operand.usage (operand : Operand) : String :=
  match operand.arity with
  | .single => operand.title
  | .optional => "[" ++ operand.title ++ "]"
  | .command _ => "[" ++ operand.title ++ " ...]"

def Grammar.usage (grammar : Grammar) : String :=
  let arguments :=
    grammar.options.map OptionSpec.usage ++ grammar.operand.toList.map Operand.usage
  "usage: " ++ String.intercalate " " (grammar.program :: arguments)

def help : String :=
  let grammars := mainGrammar :: commandNames.map commandGrammar
  String.join (grammars.map fun grammar => grammar.usage ++ "\n")

end PeerExpansion.CommandLine
