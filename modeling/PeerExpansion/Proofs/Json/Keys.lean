import PeerExpansion.Proofs.Json.Consuming
import PeerExpansion.Proofs.Outcome
import PeerExpansion.Proofs.Settings

/-! # The keys of an object that was read

When a key comes twice in a text, the later value counts, so the object that is read has it once.
`Answers` is what holds of the answers of a reading, whatever text it is given.
-/

namespace PeerExpansion.Json

open Read

variable {α β : Type} {reading : JsonReading α} {next : α → JsonReading β}
variable {known : α → Prop} {holds : β → Prop}

/-- Whatever the reading answers, this holds of it. -/
def Answers (reading : JsonReading α) (known : α → Prop) : Prop :=
  ∀ here value rest, reading.run here = .ok (value, rest) → known value

theorem answers_pure {value : α} (given : known value) : Answers (pure value) known := by
  rintro _ _ _ ⟨⟩
  exact given

theorem answers_failAt (fault : JsonFault) (rest : List Char) :
    Answers (failAt fault rest) known := by
  rintro _ _ _ ⟨⟩

theorem Answers.bind (first : Answers reading known)
    (later : ∀ given, known given → Answers (next given) holds) :
    Answers (reading >>= next) holds := by
  intro here value rest read
  rw [StateT.run_bind] at read
  obtain ⟨⟨given, middle⟩, front, read⟩ := exists_of_bind_eq_ok read
  exact later given (first here given middle front) middle value rest read

theorem answers_bind (later : ∀ given, Answers (next given) holds) :
    Answers (reading >>= next) holds := by
  have first : Answers reading fun _ => True := fun _ _ _ _ => trivial
  exact first.bind fun given _ => later given

theorem answers_failHere (fault : JsonFault) : Answers (failHere fault) known :=
  answers_bind fun here => answers_failAt fault here

/-- If the value is an object, no key of it comes twice. -/
def Keyed (value : Json) : Prop :=
  ∀ entries, value = .object entries → Association.Distinct entries

theorem keyed_of_word? {here rest : List Char} {value : Json}
    (found : word? here = some (value, rest)) : value.Keyed := by
  obtain ⟨word, member, same⟩ := Option.map_eq_some_iff.mp found
  obtain ⟨rfl, -⟩ := Prod.mk.inj same
  have listed := List.mem_of_find?_eq_some member
  simp only [words, List.mem_cons, List.not_mem_nil, or_false] at listed
  obtain rfl | rfl | rfl | rfl | rfl | rfl := listed <;> rintro _ ⟨⟩

theorem answers_number : Answers number Keyed := by
  rw [number_eq]
  refine answers_bind fun here => ?_
  split
  next => exact answers_failAt _ _
  next =>
    refine answers_bind fun _ => ?_
    split
    next => exact answers_pure (by rintro _ ⟨⟩)
    next => exact answers_pure (by rintro _ ⟨⟩)

theorem answers_valueWithin (depth : Nat) : Answers (valueWithin depth) Keyed := by
  cases depth with
  | zero => exact answers_failHere _
  | succ depth =>
    rw [valueWithin]
    refine answers_bind fun here => ?_
    split
    next => exact answers_bind fun text => answers_pure (by rintro _ ⟨⟩)
    next => exact answers_bind fun _ => answers_bind fun items => answers_pure (by rintro _ ⟨⟩)
    next =>
      refine answers_bind fun _ => answers_bind fun entries => answers_pure ?_
      rintro _ ⟨⟩
      exact Settings.distinct_putAll .nil entries
    next =>
      split
      next found => exact answers_bind fun _ => answers_pure (keyed_of_word? found)
      next => exact answers_number

theorem answers_document : Answers document Keyed := by
  have ending (value : Json) (keyed : value.Keyed) : Answers (do
      skipGap
      if (← get).isEmpty then return value else failHere .extraData) Keyed := by
    refine answers_bind fun _ => answers_bind fun left => ?_
    split
    next => exact answers_pure keyed
    next => exact answers_failHere _
  refine answers_bind fun whole => ?_
  dsimp only
  split
  next => exact answers_bind fun _ => answers_bind fun _ => (answers_valueWithin _).bind ending
  next => exact answers_bind fun _ => (answers_valueWithin _).bind ending

theorem keyed_of_parse {text : List Char} {value : Json} (parsed : parse text = .ok value) :
    value.Keyed := by
  obtain ⟨⟨read, rest⟩, ran, same⟩ := exists_of_bind_eq_ok parsed
  obtain rfl := Except.ok.inj same
  exact answers_document text read rest ran

end PeerExpansion.Json
