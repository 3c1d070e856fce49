import PeerExpansion.Proofs.CachedProperty.Names
import PeerExpansion.Proofs.TypeExpr.Rendering

/-! # The type of the buffer

A field is to be declared with the optional of the configured type. The rule compares texts, and for
the expected one it puts a question mark directly behind the configured type. So it holds for no
optional type that is written with parentheses, and for all others it says just that the type inside
is the configured one.
-/

namespace PeerExpansion

open Reading

/-! ## Annotations -/

/-- The declaration is a variable with a single binding of a name; `type` is its annotation. -/
structure Declaration.Annotates (declaration : Declaration) (identifier : String)
    (type : Option TypeExpr) : Prop where
  property : declaration.isProperty = true
  bound : ∃ binding position, declaration.bindings = [binding] ∧
    binding.pattern = .name identifier position ∧ binding.type = type

theorem TypeExpr.sound_readType? : Sound Token.Named Declaration.readType?
    fun declared => ∀ type ∈ declared, type.Formed .loose := by
  refine safe_bind_sound (safe_check ":") fun found => ?_
  split
  · refine safe_bind_sound (safe_skip 1) fun _ => sound_bind forms_read fun type formed => ?_
    exact sound_pure (by simpa using formed)
  · exact sound_pure (by simp)

theorem Declaration.sound_readBinding : Sound Token.Named readBinding
    fun binding => ∀ type ∈ binding.type, type.Formed .loose := by
  refine safe_bind_sound Pattern.safe_read fun pattern => ?_
  refine sound_bind TypeExpr.sound_readType? fun declared formed => ?_
  refine safe_bind_sound safe_readInitializer? fun initializer => ?_
  exact safe_bind_sound safe_readAccessors? fun accessors => sound_pure formed

section Scanned

variable {source : List Char} {stream : TokenStream} {index : Nat} {last : Cursor}

/-- An annotation is read as a type somewhere in the source. -/
theorem Declaration.Annotates.formed {declaration : Declaration} {identifier : String}
    {type : TypeExpr} (annotates : declaration.Annotates identifier (some type))
    (scanned : TokenStream.scan source = .ok stream)
    (read : Reads Declaration.read (.ofStream stream index) declaration last) :
    type.Formed .loose := by
  obtain ⟨binding, position, only, -, type_eq⟩ := annotates.bound
  obtain ⟨middle, after, leads, bindingRead⟩ :=
    exists_reads_of_mem_bindings read binding (only ▸ List.mem_singleton_self binding)
  have begins : (Cursor.ofStream stream 0).Leads (.ofStream stream index) := ⟨index, by simp⟩
  obtain ⟨place, -, -, rfl⟩ := (begins.trans leads).exists_index (Nat.zero_le _)
  exact (sound_readBinding.reads (TypeExpr.among_named scanned place) bindingRead).2 type type_eq

end Scanned

/-! ## The rule -/

namespace CachedProperty.Names

variable {configuration : Configuration} {declaration : Declaration} {identifier : String}
variable {declared : Option TypeExpr} {attributeName : String}

/-- The declaration is refused because of its type. -/
def RefusesType (configuration : Configuration) (attributeName : String)
    (declaration : Declaration) : Prop :=
  ∃ identifier expectedType, derive configuration attributeName declaration =
    .error (.refused ⟨attributeName, .wrongType identifier expectedType⟩)

/-- The annotation is an optional type that is described in the expected way. -/
def IsOptional (declared : Option TypeExpr) (expected : String) : Prop :=
  ∃ wrapped, declared = some (.optional wrapped) ∧
    (TypeExpr.optional wrapped).description = expected

theorem hasType_iff {binding : Binding} {expected : String} :
    hasType binding expected = true ↔ IsOptional binding.type expected := by
  unfold hasType IsOptional
  split
  next wrapped same => simp [same]
  next other =>
    simp only [Bool.false_eq_true, false_iff, not_exists, not_and]
    exact fun wrapped same => (other wrapped same).elim

theorem ofIdentifier_ne_wrongType (identifier suffix other expected : String) :
    ofIdentifier identifier suffix ≠ .error (.wrongType other expected) := by
  unfold ofIdentifier
  split <;> simp

/-- The rules in front of this one hold for a variable with a single binding of a name, and those
behind it complain about other things. -/
theorem refusesType_iff (annotates : declaration.Annotates identifier declared) :
    RefusesType configuration attributeName declaration ↔
      ¬ IsOptional declared configuration.expectedType := by
  obtain ⟨binding, position, only, named, rfl⟩ := annotates.bound
  have bound : onlyBinding declaration = .ok binding := by
    rw [onlyBinding, annotates.property, only]
    rfl
  have identified : identifierOf binding = .ok identifier := by rw [identifierOf, named]
  simp only [← hasType_iff, RefusesType, derive, bound, identified, checkType, Except.mapError,
    bind, Except.bind]
  cases hasType binding configuration.expectedType with
  | false => exact ⟨fun _ => by decide, fun _ => ⟨_, _, rfl⟩⟩
  | true =>
    -- With the right type only the names can be refused, and for other reasons.
    simp only [if_true, not_true_eq_false, iff_false, not_exists]
    intro other expected
    cases configuration.suffix with
    | text suffix =>
      have ne := ofIdentifier_ne_wrongType identifier suffix other expected
      cases found : ofIdentifier identifier suffix with
      | error reason => simpa [found] using ne
      | ok names => simp [found]
    | _ => simp [throw, throwThe, MonadExceptOf.throw]

variable {bufferSource source : List Char} {bufferStream stream : TokenStream}
  {bufferIndex index : Nat} {bufferLast last : Cursor} {buffer : TypeExpr}

/-- When the description of a type that is read is configured, the annotations that are accepted are
the optional types that are described in the same way inside and are written without parentheses.
If the description has no ampersand or arrow outside brackets and begins with no word for a
constraint, they are all the optional types that are described in this way inside. -/
theorem bufferLaw_of_reads (attributeName : String)
    (bufferScanned : TokenStream.scan bufferSource = .ok bufferStream)
    (bufferRead : Reads TypeExpr.read (.ofStream bufferStream bufferIndex) buffer bufferLast)
    (configured : configuration.rawBufferType = .text buffer.description)
    (scanned : TokenStream.scan source = .ok stream)
    (read : Reads Declaration.read (.ofStream stream index) declaration last)
    (annotates : declaration.Annotates identifier declared) :
    (¬ RefusesType configuration attributeName declaration ↔
      ∃ wrapped, declared = some (.optional wrapped) ∧
        wrapped.description = buffer.description ∧ wrapped.needsParentheses = false) ∧
      (TypeExpr.Closed buffer.words →
        (¬ RefusesType configuration attributeName declaration ↔
          ∃ wrapped, declared = some (.optional wrapped) ∧
            wrapped.description = buffer.description)) := by
  have bufferFormed := TypeExpr.formed_of_reads bufferScanned bufferRead
  have formed (wrapped : TypeExpr) (annotated : declared = some (.optional wrapped)) :
      wrapped.Formed .loose := by
    subst annotated
    cases annotates.formed scanned read with
    | optional formed => exact formed
  have expected : configuration.expectedType = buffer.description ++ "?" := by
    rw [Configuration.expectedType, configured]
    rfl
  have law : ¬ RefusesType configuration attributeName declaration ↔
      ∃ wrapped, declared = some (.optional wrapped) ∧
        wrapped.description = buffer.description ∧ wrapped.needsParentheses = false := by
    rw [refusesType_iff annotates, not_not, expected, IsOptional]
    refine exists_congr fun wrapped => and_congr_right fun annotated => ?_
    exact bufferFormed.description_optional_eq_iff (formed wrapped annotated)
  refine ⟨law, fun closed => law.trans (exists_congr fun wrapped => and_congr_right
    fun annotated => and_iff_left_of_imp fun same => ?_)⟩
  -- The type inside has the words of the configured one, so it is closed as well.
  have words_eq := TypeExpr.words_eq_of_description_eq same
  exact (formed wrapped annotated).needsParentheses_of_closed (words_eq ▸ closed)

/-- The standard settings but for the type of the buffer. -/
def buffering (type : TypeExpr) : Configuration :=
  { rawBufferType := .text type.description }

/-- Whether a text is a variable of a single name and an optional type, with such a type inside. -/
def declaresOptional (text identifier : String) (accepts : TypeExpr → Bool) : Bool :=
  (Declaration.parse text.toList).toOption.any fun declaration =>
    match declaration.isProperty, declaration.bindings with
    | true, [⟨.name name _, some (.optional wrapped), _, _⟩] =>
      name == identifier && accepts wrapped
    | _, _ => false

theorem exists_of_declaresOptional {text : String} {accepts : TypeExpr → Bool}
    (found : declaresOptional text identifier accepts = true) :
    ∃ declaration wrapped, Declaration.parse text.toList = .ok declaration ∧
      declaration.Annotates identifier (some (.optional wrapped)) ∧ accepts wrapped = true := by
  obtain ⟨declaration, parsed, found⟩ := exists_of_any found
  split at found
  next property only =>
    obtain ⟨named, accepted⟩ := (Bool.and_eq_true ..).mp found
    obtain rfl := beq_iff_eq.mp named
    exact ⟨declaration, _, parsed, ⟨property, _, _, only, rfl, rfl⟩, accepted⟩
  next => cases found

def bytesSample : TypeExpr :=
  .array (TypeExpr.ofName "UInt8")

theorem clear_bytesSample : bytesSample.Clear :=
  .array (TypeExpr.clear_ofName (by decide) (by decide))

set_option maxRecDepth 20000 in
theorem bufferLaw_bytesSample : TypeExpr.Closed bytesSample.words ∧
    ∃ declaration, Declaration.parse "var fooData: [UInt8]?".toList = .ok declaration ∧
      ¬ RefusesType (buffering bytesSample) "ImageCache" declaration := by
  obtain ⟨declaration, wrapped, parsed, annotates, same⟩ := exists_of_declaresOptional
    (show declaresOptional "var fooData: [UInt8]?" "fooData"
      (fun wrapped => wrapped.description == "[UInt8]") = true by decide +kernel)
  obtain ⟨stream, last, scanned, read⟩ := Declaration.exists_reads_of_parse parsed
  obtain ⟨bufferSource, bufferStream, bufferLast, bufferScanned, bufferRead⟩ :=
    clear_bytesSample.isReadFrom_description.isRead
  have closed := clear_bytesSample.closed rfl
  have configured : (buffering bytesSample).rawBufferType = .text bytesSample.description := rfl
  have law := bufferLaw_of_reads "ImageCache" bufferScanned bufferRead configured scanned read
    annotates
  exact ⟨closed, declaration, parsed, (law.2 closed).mpr ⟨wrapped, rfl, beq_iff_eq.mp same⟩⟩

def functionSample : TypeExpr :=
  .function [(none, TypeExpr.ofName "Int")] [] (TypeExpr.ofName "Void")

theorem clear_functionSample : functionSample.Clear := by
  have clear (name : String) (identifier : IsIdentifier name)
      (plain : name ∉ TypeExpr.leadingWords) : (TypeExpr.ofName name).Clear :=
    TypeExpr.clear_ofName identifier plain
  refine .function (by simp [TypeExpr.LabelsFit]) (by simp) ?_
    (clear "Void" (by decide) (by decide))
  simpa using clear "Int" (by decide) (by decide)

set_option maxRecDepth 20000 in
/-- The optional of a configured function type is refused: the rule expects no parentheses. -/
theorem refusesType_functionSample :
    TypeExpr.IsReadFrom functionSample "(Int) -> Void" ∧
      ∃ declaration wrapped,
        Declaration.parse "var actionData: ((Int) -> Void)?".toList = .ok declaration ∧
        declaration.Annotates "actionData" (some (.optional wrapped)) ∧
        wrapped.description = functionSample.description ∧
        RefusesType (buffering functionSample) "ImageCache" declaration := by
  obtain ⟨declaration, wrapped, parsed, annotates, accepted⟩ := exists_of_declaresOptional
    (show declaresOptional "var actionData: ((Int) -> Void)?" "actionData"
      (fun wrapped => wrapped.description == "(Int) -> Void" && wrapped.needsParentheses) = true
      by decide +kernel)
  obtain ⟨same, needs⟩ := (Bool.and_eq_true ..).mp accepted
  rw [beq_iff_eq] at same
  refine ⟨clear_functionSample.isReadFrom_description, declaration, wrapped, parsed, annotates,
    same, (refusesType_iff annotates).mpr ?_⟩
  rintro ⟨other, annotated, expected⟩
  cases annotated
  rw [TypeExpr.description, TypeExpr.parenthesised, if_pos needs, same] at expected
  exact absurd expected (by decide)

end CachedProperty.Names

end PeerExpansion
