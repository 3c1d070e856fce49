import PeerExpansion.Proofs.Outcome
import PeerExpansion.Proofs.Reading.Sound
import PeerExpansion.Proofs.Token.Faithful

/-! # Errors tell where they are

Whatever is wrong with a source is put at a place of it: at a character, a token, a bracket or quote
that is not closed, or the end. The place may have been noted down long before the fault was found,
so it is followed from the tokens to the error, through all readings.
-/

namespace PeerExpansion

open Reading

/-- The ways in which an error comes out of a source: it cannot be read into tokens, it does not
hold a single declaration, or none can be read at some index of its tokens. The index may lie beyond
the last of them. -/
inductive SyntaxError.Arises (source : List Char) (error : SyntaxError) : Prop
  | scan : TokenStream.scan source = .error error → Arises source error
  | parse : Declaration.parse source = .error error → Arises source error
  | read {stream : TokenStream} {index : Nat} : TokenStream.scan source = .ok stream →
      Declaration.read.run (.ofStream stream index) = .error error → Arises source error

/-- The error is about a place of the source, and its message names the line and column at its
end. -/
structure SyntaxError.Located (source : List Char) (error : SyntaxError) : Prop where
  offset_le : error.position.offset ≤ source.length
  line_eq : error.position.line = 1 + (source.take error.position.offset).count '\n'
  column_eq : error.position.column =
    error.position.offset - lineStart source error.position.offset + 1
  message_eq : ∃ text, error.message =
    text ++ " at " ++ (toString error.position.line ++ ":" ++ toString error.position.column)

theorem Position.Within.offset_le {source : List Char} {position : Position}
    (within : position.Within source) : position.offset ≤ source.length := by
  obtain ⟨offset, inside, rfl⟩ := within
  rwa [offset_ofOffset inside]

theorem Position.Within.eq_ofOffset {source : List Char} {position : Position}
    (within : position.Within source) : position = .ofOffset source position.offset := by
  obtain ⟨offset, inside, rfl⟩ := within
  rw [offset_ofOffset inside]

theorem SyntaxError.located_of_within {source : List Char} {error : SyntaxError}
    (within : error.position.Within source) : error.Located source where
  offset_le := within.offset_le
  line_eq := by
    conv_lhs => rw [within.eq_ofOffset]
    exact Position.line_ofOffset source _
  column_eq := by
    conv_lhs => rw [within.eq_ofOffset]
    exact Position.column_ofOffset within.offset_le
  message_eq := ⟨error.fault.message, rfl⟩

namespace Declaration

variable {known : Token → Prop} {α : Type}

theorem safe_readOnly : Safe known readOnly := by
  refine sound_bind sound_read.safe fun declaration _ => ?_
  refine sound_bind sound_current fun _ _ => ?_
  -- Behind the declaration, or the semicolon behind it, the end is expected.
  have ends : Safe known do
      let next ← current
      if next.kind != .ending then
        fail (.trailing next.text) next
      return declaration := by
    refine sound_bind sound_current fun next held => ?_
    split
    · exact sound_bind (sound_fail _ held fun _ => True) fun _ _ => safe_pure _
    · exact safe_pure _
  split
  · exact safe_bind (safe_skip 1) fun _ => ends
  · exact ends

/-- Among the tokens of a source a reading that is safe complains about a place of the source. -/
theorem within_of_safe {source : List Char} {stream : TokenStream} {index : Nat}
    {reading : Reading α} {error : SyntaxError} (scanned : TokenStream.scan source = .ok stream)
    (safe : Safe (· ∈ stream.toList) reading)
    (failed : reading.run (.ofStream stream index) = .error error) :
    error.position.Within source := by
  have concerns := safe _ (among_ofStream (fun _ member => member) index)
  rw [failed] at concerns
  obtain ⟨token, member, position_eq⟩ := concerns
  rw [position_eq]
  exact TokenStream.within_of_scan scanned token member

theorem within_of_parse_error {source : List Char} {error : SyntaxError}
    (failed : Declaration.parse source = .error error) : error.position.Within source := by
  rw [Declaration.parse] at failed
  obtain failed | ⟨stream, scanned, failed⟩ := error_of_bind_eq_error failed
  · exact TokenStream.within_of_scan_error failed
  · obtain failed | ⟨_, _, failed⟩ := error_of_bind_eq_error failed
    · exact within_of_safe scanned safe_readOnly failed
    · cases failed

end Declaration

/-- Every error that comes out of a source is put at a place of it. -/
theorem SyntaxError.located_of_arises {source : List Char} {error : SyntaxError}
    (arises : error.Arises source) : error.Located source := by
  apply located_of_within
  cases arises with
  | scan failed => exact TokenStream.within_of_scan_error failed
  | parse failed => exact Declaration.within_of_parse_error failed
  | read scanned failed =>
    exact Declaration.within_of_safe scanned Declaration.sound_read.safe failed

/-- The block of the function is not closed: the brace in the literal is none. -/
def unclosedBlockSample : List Char :=
  "/*\n*/ func load()\n  \x7b call(\"\x7d\")".toList

set_option maxRecDepth 20000 in
theorem SyntaxError.located_unclosedBlockSample : ∃ error stream beyond,
    Declaration.parse unclosedBlockSample = .error error ∧
      error.message = "Unterminated block at 3:3" ∧ error.Located unclosedBlockSample ∧
    TokenStream.scan unclosedBlockSample = .ok stream ∧ stream.words.length < 20 ∧
      Declaration.read.run (.ofStream stream 20) = .error beyond ∧
      beyond.message = "Expected a declaration but found 'end of input' at 3:14" ∧
      beyond.Located unclosedBlockSample := by
  have parsed : (fault? (Declaration.parse unclosedBlockSample)).any
      (·.message == "Unterminated block at 3:3") = true := by
    decide +kernel
  have evaluated : (TokenStream.scan unclosedBlockSample).toOption.any (fun stream =>
      decide (stream.words.length < 20) &&
        (fault? (Declaration.read.run (.ofStream stream 20))).any
          (·.message == "Expected a declaration but found 'end of input' at 3:14")) = true := by
    decide +kernel
  obtain ⟨error, failed, message_eq⟩ := exists_error_of_any parsed
  obtain ⟨stream, scanned, known⟩ := exists_of_any evaluated
  obtain ⟨short, known⟩ := Bool.and_eq_true_iff.mp known
  obtain ⟨beyond, complained, beyond_eq⟩ := exists_error_of_any known
  exact ⟨error, stream, beyond, failed, eq_of_beq message_eq, located_of_arises (.parse failed),
    scanned, of_decide_eq_true short, complained, eq_of_beq beyond_eq,
    located_of_arises (.read scanned complained)⟩

end PeerExpansion
