import PeerExpansion.CommandLine.Run

/-! # Words of a command line

How the words of a file and of one option with a value are read, whatever the file and the value
are called.
-/

namespace PeerExpansion.CommandLine

variable {grammar : Grammar} {word file value : String} {option : OptionSpec}

/-- The word cannot be taken for an option or for the mark. -/
def IsUndashed (word : String) : Prop :=
  word.toList.head? ≠ some '-'

instance (word : String) : Decidable (IsUndashed word) :=
  inferInstanceAs (Decidable (_ ≠ _))

theorem IsUndashed.classify (undashed : IsUndashed word) (grammar : Grammar) :
    classify grammar word = .ok .operand := by
  unfold CommandLine.classify
  split
  next dashed => exact absurd (by rw [dashed]; rfl) undashed
  next => rfl

theorem IsUndashed.ne_operandMark (undashed : IsUndashed word) : word ≠ operandMark := by
  rintro rfl
  exact undashed rfl

theorem classifyAll_cons (ordinary : word ≠ operandMark) {sort : WordSort}
    (classified : classify grammar word = .ok sort) {others : List String} {rest : List Word}
    (all : classifyAll grammar others = .ok rest) :
    classifyAll grammar (word :: others) = .ok (⟨word, sort⟩ :: rest) := by
  rw [classifyAll, if_neg ordinary, classified, all]
  rfl

/-- A word that names an option of its own. -/
theorem classify_of_lookup (known : grammar.names.lookup word = some option)
    {second : Char} {rest : List Char} (dashed : word.toList = '-' :: second :: rest) :
    classify grammar word = .ok (.option word option none) := by
  unfold classify
  rw [dashed]
  unfold classifyDashed
  rw [known]
  rfl

namespace Reading

theorem addOperand_text (undashed : IsUndashed file) (reading : Reading) (operand : Operand)
    (simple : ∀ words, operand.arity ≠ .command words) :
    reading.addOperand grammar operand [⟨file, .operand⟩] =
      { reading with pending := none }.add grammar operand.title operand.group (.text file) := by
  have kept : withoutMark [⟨file, .operand⟩] = [file] := by
    have other : (file == operandMark) = false := beq_eq_false_iff_ne.mpr undashed.ne_operandMark
    simp [withoutMark, other]
  unfold addOperand
  split
  next words command => exact absurd command (simple words)
  next =>
    rw [kept]

theorem takeOption_text (reading : Reading) (name : String) (text : option.kind = .text)
    (others : List Word) :
    reading.takeOption grammar ⟨word, .option name option none⟩ (⟨value, .operand⟩ :: others) =
      (reading.add grammar option.title option.group (.text value)).map (·, others) := by
  have takes : option.takesValue = true := by
    rw [OptionSpec.takesValue, text]
  have found : optionWord grammar (some ⟨value, .operand⟩) name option (word.length + 1) none =
      .ok ⟨[(option, value)], none, true⟩ := by
    simp [optionWord, takes]
  have added : reading.addOption grammar option value =
      reading.add grammar option.title option.group (.text value) := by
    unfold addOption valueOf
    rw [text]
    rfl
  unfold takeOption
  simp only [List.head?_cons, found]
  change ((reading.addOption grammar option value >>= pure) >>=
    fun reading => pure (reading, others)) = _
  rw [added, bind_pure]
  cases reading.add grammar option.title option.group (.text value) <;> rfl

/-- What is not in a group excludes nothing. -/
theorem add_of_ungrouped (reading : Reading) (title : String) (given : Given) :
    reading.add grammar title none given =
      .ok { reading with given := reading.given ++ [(title, given)] } := by
  simp [add]

theorem add_of_empty (reading : Reading) (title : String) (group : Option Nat) (given : Given)
    (first : reading.given = []) :
    reading.add grammar title group given = .ok { reading with given := [(title, given)] } := by
  unfold add
  dsimp only
  rw [List.find?_eq_none.mpr (by simp [first]), first]
  rfl

/-- In front of an option the operand is taken. -/
theorem takeWithin_operand {reading after : Reading} {first : Word} {others rest : List Word}
    (operand : isOption first = false) (options : (first :: others).any isOption = true)
    (taken : reading.takeOperand grammar (first :: others) = .ok (after, rest))
    (shorter : rest.length < (first :: others).length) (limit : Nat) :
    takeWithin grammar (limit + 1) reading (first :: others) =
      takeWithin grammar limit after rest := by
  simp only [takeWithin, operand, options, taken, bind, Except.bind, shorter, Bool.false_eq_true,
    if_true, if_false]

theorem takeWithin_option {reading after : Reading} {first : Word} {others rest : List Word}
    (isOption_first : isOption first = true)
    (taken : reading.takeOption grammar first others = .ok (after, rest)) (limit : Nat) :
    takeWithin grammar (limit + 1) reading (first :: others) =
      takeWithin grammar limit after rest := by
  simp only [takeWithin, isOption_first, taken, bind, Except.bind, if_true]

end Reading

/-- A file, and an option with its value behind it. -/
theorem read_file_option (pending : grammar.operand = some fileOperand)
    (known : grammar.names.lookup word = some option) (text : option.kind = .text)
    (ungrouped : option.group = none) {second : Char} {rest : List Char}
    (dashed : word.toList = '-' :: second :: rest) (ordinary : word ≠ operandMark)
    (file_undashed : IsUndashed file) (value_undashed : IsUndashed value) :
    grammar.read [file, word, value] =
      .ok ⟨[(fileOperand.title, .text file), (option.title, .text value)], [], none⟩ := by
  -- First the words are told apart, then the operand is taken and then the option with its value.
  have classified : classifyAll grammar [file, word, value] =
      .ok [⟨file, .operand⟩, ⟨word, .option word option none⟩, ⟨value, .operand⟩] :=
    classifyAll_cons file_undashed.ne_operandMark (file_undashed.classify grammar)
      (classifyAll_cons ordinary (classify_of_lookup known dashed)
        (classifyAll_cons value_undashed.ne_operandMark (value_undashed.classify grammar) rfl))
  have taken : Reading.takeOperand ⟨[], [], some fileOperand⟩ grammar
      [⟨file, .operand⟩, ⟨word, .option word option none⟩, ⟨value, .operand⟩] =
      .ok (⟨[(fileOperand.title, .text file)], [], none⟩,
        [⟨word, .option word option none⟩, ⟨value, .operand⟩]) := by
    unfold Reading.takeOperand
    change (Reading.addOperand _ grammar fileOperand [⟨file, .operand⟩] >>= _) = _
    rw [Reading.addOperand_text file_undashed _ _ (by simp [fileOperand]),
      Reading.add_of_empty _ _ _ _ rfl]
    rfl
  have chosen : Reading.takeOption ⟨[(fileOperand.title, .text file)], [], none⟩ grammar
      ⟨word, .option word option none⟩ [⟨value, .operand⟩] =
      .ok (⟨[(fileOperand.title, .text file), (option.title, .text value)], [], none⟩, []) := by
    rw [Reading.takeOption_text _ _ text, ungrouped, Reading.add_of_ungrouped]
    rfl
  rw [Grammar.read, classified]
  dsimp only
  rw [pending, Reading.takeWithin_operand rfl rfl taken (by simp), List.length_cons,
    Reading.takeWithin_option rfl chosen]
  rfl

/-! ## Whole command lines -/

/-- The conclusion is what the program comes to with these words. -/
def Concludes (environment : Environment) (words : List String) (conclusion : Conclusion) : Prop :=
  ∃ invocation, Invocation.read words = .ok invocation ∧ invocation.run environment = conclusion

section Commands

variable {command : String} (file_undashed : IsUndashed file) (value_undashed : IsUndashed value)
include file_undashed value_undashed

/-- The main program takes the command with all that is behind it. -/
theorem read_main (known : command ∈ commandNames)
    (foreign : classify mainGrammar word = .ok .unknownOption) (ordinary : word ≠ operandMark) :
    mainGrammar.read [command, file, word, value] =
      .ok ⟨[("COMMAND", .words [command, file, word, value])], [], none⟩ := by
  have command_undashed : IsUndashed command := by
    have all : ∀ name ∈ commandNames, IsUndashed name := by decide
    exact all command known
  have classified : classifyAll mainGrammar [command, file, word, value] =
      .ok [⟨command, .operand⟩, ⟨file, .operand⟩, ⟨word, .unknownOption⟩, ⟨value, .operand⟩] :=
    classifyAll_cons command_undashed.ne_operandMark (command_undashed.classify mainGrammar)
      (classifyAll_cons file_undashed.ne_operandMark (file_undashed.classify mainGrammar)
        (classifyAll_cons ordinary foreign
          (classifyAll_cons value_undashed.ne_operandMark (value_undashed.classify mainGrammar)
            rfl)))
  -- The command takes all words behind it, also those that look like options.
  have taken : Reading.takeOperand ⟨[], [], mainGrammar.operand⟩ mainGrammar
      [⟨command, .operand⟩, ⟨file, .operand⟩, ⟨word, .unknownOption⟩, ⟨value, .operand⟩] =
      .ok (⟨[("COMMAND", .words [command, file, word, value])], [], none⟩, []) := by
    unfold Reading.takeOperand
    change (Reading.addOperand _ mainGrammar ⟨"COMMAND", .command commandNames, none⟩
      [⟨command, .operand⟩, ⟨file, .operand⟩, ⟨word, .unknownOption⟩, ⟨value, .operand⟩] >>= _) = _
    unfold Reading.addOperand
    simp only [List.map_cons, List.map_nil, List.headD_cons, List.contains_iff_mem.mpr known,
      if_true]
    rfl
  rw [Grammar.read, classified]
  dsimp only
  rw [Reading.takeWithin_operand rfl rfl taken (by simp)]
  rfl

/-- What a command with a file and one option is read as. -/
theorem read_invocation (option : OptionSpec) (known : command ∈ commandNames)
    (pending : (commandGrammar command).operand = some fileOperand)
    (option_known : (commandGrammar command).names.lookup word = some option)
    (text : option.kind = .text) (ungrouped : option.group = none) {second : Char}
    {rest : List Char} (dashed : word.toList = '-' :: second :: rest)
    (ordinary : word ≠ operandMark)
    (foreign : classify mainGrammar word = .ok .unknownOption) :
    Invocation.read [command, file, word, value] = .ok ⟨standardLevel, "", some
      (Reading.command ⟨[(fileOperand.title, .text file), (option.title, .text value)], [], none⟩
        command)⟩ := by
  have read := read_file_option pending option_known text ungrouped dashed ordinary file_undashed
    value_undashed
  rw [Invocation.read, read_main file_undashed value_undashed known foreign ordinary]
  change ((do
    let commandReading ← (commandGrammar command).read [file, word, value]
    return (some (commandReading.command command), [] ++ commandReading.extras)) >>= _) = _
  rw [read]
  rfl

theorem read_expand_output :
    Invocation.read ["expand", file, "-o", value] =
      .ok ⟨standardLevel, "", some (.expand ⟨file, "", false⟩ ⟨none, none, none, none, false⟩ value
        false)⟩ :=
  read_invocation file_undashed value_undashed outputOption (by decide) rfl rfl rfl rfl
    rfl (by decide) rfl

theorem read_expand_config :
    Invocation.read ["expand", file, "--config", value] =
      .ok ⟨standardLevel, "", some (.expand ⟨file, "", false⟩
        ⟨some value, none, none, none, false⟩ "" false)⟩ :=
  read_invocation file_undashed value_undashed (option "--config" .text) (by decide) rfl rfl rfl
    rfl rfl (by decide) rfl

theorem read_check_config :
    Invocation.read ["check", file, "--config", value] =
      .ok ⟨standardLevel, "", some (.check ⟨file, "", false⟩
        ⟨some value, none, none, none, false⟩)⟩ :=
  read_invocation file_undashed value_undashed (option "--config" .text) (by decide) rfl rfl rfl
    rfl rfl (by decide) rfl

end Commands

end PeerExpansion.CommandLine
