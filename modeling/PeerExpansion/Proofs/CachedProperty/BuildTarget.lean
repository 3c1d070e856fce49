import PeerExpansion.Proofs.CachedProperty.Generation
import PeerExpansion.Proofs.Expansion.Memory
import PeerExpansion.Proofs.Text.Lines

/-! # What depends on the build target

A generator asks for its decode step when everything else about a declaration is settled, and only
the accessor makes use of it. The step decides about a place on the line that decodes the buffer and
about one on the line that wraps the decoded value: all else is the same for every framework.
-/

namespace PeerExpansion

namespace Generator

/-- The generator after a number of uses. -/
def afterAll (generator : Generator) (uses : List (Attribute × Declaration)) : Generator :=
  uses.foldl (fun generator use => generator.after use.1 use.2) generator

theorem generate_afterAll (generator : Generator) (uses : List (Attribute × Declaration)) :
    (generator.afterAll uses).generate = generator.generate := by
  induction uses generalizing generator with
  | nil => rfl
  | cons use uses inductionHypothesis =>
    exact (inductionHypothesis _).trans (generate_after generator use.1 use.2)

end Generator

namespace CachedProperty

/-! ## Places in a text -/

namespace Framework

/-- A decode step of the framework. -/
def step (framework : Framework) (resource : Json) : DecodeStep :=
  ⟨framework, resource⟩

/-- What stands in front of the buffer on the line that decodes it. -/
def decoding (framework : Framework) : List Char :=
  ("let " ++ (framework.step .null).binding ++ " = " ++ (framework.step .null).decoderName ++
    "(data: ").toList

/-- What stands behind the type that the decoded value is wrapped into. -/
def wrapping (framework : Framework) : List Char :=
  ("(" ++ (framework.step .null).binding ++ ": " ++ (framework.step .null).binding ++ ")").toList

theorem decoding_injective {framework other : Framework}
    (same : framework.decoding = other.decoding) : framework = other := by
  cases framework <;> cases other <;> first | rfl | exact absurd same (by decide)

theorem visible_decoding (framework : Framework) :
    '\n' ∉ framework.decoding ∧ Text.isBlankLine framework.decoding = false := by
  cases framework <;> decide

theorem visible_wrapping (framework : Framework) :
    '\n' ∉ framework.wrapping ∧ Text.isBlankLine framework.wrapping = false := by
  cases framework <;> decide

end Framework

/-- Texts that are the same for every framework but for a place that decodes and one that wraps, on
a later line. -/
def Places (text : Framework → List Char) : Prop :=
  ∃ front middle back, '\n' ∈ middle ∧ ∀ framework : Framework,
    text framework = front ++ framework.decoding ++ middle ++ framework.wrapping ++ back

theorem Places.around {text : Framework → List Char} (places : Places text)
    (front back : List Char) : Places fun framework => front ++ text framework ++ back := by
  obtain ⟨first, middle, last, feed, text_eq⟩ := places
  refine ⟨front ++ first, middle, last ++ back, feed, fun framework => ?_⟩
  simp only [text_eq, List.append_assoc]

/-- The two places are on different lines. -/
theorem Places.exists_feed {text : Framework → List Char} (places : Places text) :
    ∃ front middle behind back, ∀ framework : Framework,
      text framework = front ++ framework.decoding ++ middle ++
        '\n' :: (behind ++ framework.wrapping ++ back) := by
  obtain ⟨front, between, back, feed, text_eq⟩ := places
  obtain ⟨middle, behind, rfl⟩ := List.append_of_mem feed
  refine ⟨front, middle, behind, back, fun framework => ?_⟩
  rw [text_eq]
  simp only [List.append_assoc, List.cons_append]

theorem Places.indented {text : Framework → List Char} (places : Places text)
    (indent : List Char) : Places fun framework => Text.indentLines indent (text framework) := by
  obtain ⟨front, middle, behind, back, text_eq⟩ := places.exists_feed
  obtain ⟨newFront, newMiddle, decoded⟩ := Text.exists_indentLines_around indent front middle
  obtain ⟨newBehind, newBack, wrapped⟩ := Text.exists_indentLines_around indent behind back
  refine ⟨newFront, newMiddle ++ '\n' :: newBehind, newBack, by simp, fun framework => ?_⟩
  have decodes := framework.visible_decoding
  have wraps := framework.visible_wrapping
  show Text.indentLines indent (text framework) = _
  rw [text_eq, Text.indentLines_append_feed, decoded _ decodes.1 decodes.2,
    wrapped _ wraps.1 wraps.2]
  simp only [List.append_assoc, List.cons_append]

/-- The lines of a text without what the framework decides: what stands above, between and below the
two lines with a place, and what stands on these in front of it and behind it. -/
structure Frame where
  above : List (List Char)
  decoding : List Char × List Char
  between : List (List Char)
  wrapping : List Char × List Char
  below : List (List Char)

/-- All the lines with what a framework puts into the two places. -/
def Frame.fill (frame : Frame) (framework : Framework) : List (List Char) :=
  frame.above ++ (frame.decoding.1 ++ framework.decoding ++ frame.decoding.2) ::
    (frame.between ++ (frame.wrapping.1 ++ framework.wrapping ++ frame.wrapping.2) :: frame.below)

theorem Frame.fill_injective (frame : Frame) {framework other : Framework}
    (same : frame.fill framework = frame.fill other) : framework = other := by
  rw [fill, fill, List.append_cancel_left_eq, List.cons.injEq, List.append_cancel_right_eq,
    List.append_cancel_left_eq] at same
  exact Framework.decoding_injective same.1

theorem Places.exists_frame {text : Framework → List Char} (places : Places text) :
    ∃ frame : Frame, ∀ framework, Text.lines (text framework) = frame.fill framework := by
  obtain ⟨front, middle, behind, back, text_eq⟩ := places.exists_feed
  -- A line feed stands between the places, so each of them is on a line of its own.
  obtain ⟨above, before, after, below, decoded⟩ := Text.exists_lines_around front middle
  obtain ⟨more, start, rest, last, wrapped⟩ := Text.exists_lines_around behind back
  refine ⟨⟨above, (before, after), below ++ more, (start, rest), last⟩, fun framework => ?_⟩
  rw [text_eq, Text.lines_append_feed, decoded _ framework.visible_decoding.1,
    wrapped _ framework.visible_wrapping.1]
  simp [Frame.fill]

/-! ## Peers -/

section Peers

variable (names : Names) (resource marker : Json) (unit : String)

theorem places_of_pieces {middle : String} (feed : '\n' ∈ middle.toList) (front back : String) :
    Places fun framework => (front ++ String.ofList framework.decoding ++ middle ++
      String.ofList framework.wrapping ++ back).toList := by
  refine ⟨front.toList, middle.toList, back.toList, feed, fun framework => ?_⟩
  simp only [String.toList_append, String.toList_ofList]

/-- The statements of the getter on a target with the framework. -/
def getterText (framework : Framework) : String :=
  String.join ["if ", names.source, ".hashValue != ", names.hashField, ",\n", unit, "let ",
    names.source, ",\n", unit] ++ String.ofList framework.decoding ++
  String.join [names.source, ")", "\n\x7b\n", unit, names.cacheField, " = ", resource.display] ++
    String.ofList framework.wrapping ++
  String.join ["\n", unit, names.hashField, " = ", names.source, ".hashValue\n\x7d\n", "return ",
    names.cacheField, "\n"]

theorem places_getterText :
    Places fun framework => (getterText names resource unit framework).toList :=
  places_of_pieces (by simp) _ _

theorem render_getterText (framework : Framework) :
    Template.render (context names (framework.step resource) resource marker unit) getterTemplate =
      .ok (getterText names resource unit framework) := by
  have rendered : Template.render (context names (framework.step resource) resource marker unit)
    getterTemplate = .ok _ := rfl
  have display_text (text : String) : (Json.text text).display = text := rfl
  rw [rendered, Except.ok.injEq]
  simp only [display_text, getterText, DecodeStep.decode, DecodeStep.wrap, Framework.decoding,
    Framework.wrapping, Framework.step, DecodeStep.binding, DecodeStep.decoderName,
    String.join_cons, String.join_nil, String.ofList_toList, String.append_assoc,
    String.append_empty]

/-- The accessor is the same for all frameworks but for the two places. -/
theorem exists_render_accessor : ∃ text : Framework → String,
    Places (fun framework => (text framework).toList) ∧
      ∀ framework : Framework, Template.render
        (context names (framework.step resource) resource marker unit) accessorTemplate =
          .ok (text framework) := by
  have getter (framework : Framework) := render_around [.text "get \x7b\n"] [.text "\x7d\n"] rfl
    (render_getterText names resource marker unit framework) rfl
  have rendered (framework : Framework) := render_around
    [.text "var ", spec "accessor_name", .text ": ", .hole (.name "resource_type"),
      .text "? \x7b\n"] [.text "\x7d"] rfl (getter framework) rfl
  refine ⟨_, ?_, rendered⟩
  -- The statements are indented in the getter, and this is indented in the accessor.
  have inner := ((places_getterText names resource unit).indented unit.toList).around
    "get \x7b\n".toList "\x7d\n".toList
  have outer := (inner.indented unit.toList).around
    ("var " ++ names.accessor ++ ": " ++ resource.display ++ "? \x7b\n").toList "\x7d".toList
  simp only [String.toList_append, String.toList_ofList, String.append_empty, List.append_assoc]
    at outer ⊢
  exact outer

/-- The fields do not mention the decode step. -/
theorem render_hash_eq (step other : DecodeStep) :
    Template.render (context names step resource marker unit) hashTemplate =
      Template.render (context names other resource marker unit) hashTemplate := rfl

theorem render_cache_eq (step other : DecodeStep) :
    Template.render (context names step resource marker unit) cacheTemplate =
      Template.render (context names other resource marker unit) cacheTemplate := rfl

end Peers

/-- The fields are the same for all frameworks, and the accessor is but for the two places. -/
theorem exists_peers_frame {configuration : Configuration} {unit : String}
    (unit_eq : configuration.indentUnit = .ok unit) (names : Names) (flag : Json) :
    ∃ hash cache, ∃ accessor : Framework → String, ∃ frame : Frame, ∀ framework : Framework,
      peers configuration names flag (framework.step configuration.resourceType) =
        .ok [hash, cache, accessor framework] ∧
      Text.lines (accessor framework).toList = frame.fill framework := by
  obtain ⟨hash, hashRendered⟩ := exists_render_hashTemplate names
    (Framework.uiKit.step configuration.resourceType) configuration.resourceType
    (marker configuration flag) unit
  obtain ⟨cache, cacheRendered⟩ := exists_render_cacheTemplate names
    (Framework.uiKit.step configuration.resourceType) configuration.resourceType
    (marker configuration flag) unit
  obtain ⟨accessor, places, accessorRendered⟩ := exists_render_accessor names
    configuration.resourceType (marker configuration flag) unit
  obtain ⟨frame, lines_eq⟩ := places.exists_frame
  refine ⟨hash, cache, accessor, frame, fun framework => ⟨?_, lines_eq framework⟩⟩
  rw [render_hash_eq _ _ _ _ _ (framework.step configuration.resourceType)] at hashRendered
  rw [render_cache_eq _ _ _ _ _ (framework.step configuration.resourceType)] at cacheRendered
  simp only [peers, unit_eq, templates, List.map_cons, List.map_nil, List.mapM_cons, List.mapM_nil,
    hashRendered, cacheRendered, accessorRendered]
  rfl

end CachedProperty

/-! ## Two targets -/

/-- The fault is that the target has no framework to decode with. -/
def GenerationFault.RefusesTarget (fault : GenerationFault) : Prop :=
  ∃ complaint, fault = .refused complaint ∧ complaint.kind = "OsNotSupported"

/-- The configurations differ in nothing but the target. -/
def Configuration.SameButTarget (configuration other : Configuration) : Prop :=
  ∃ platform, other = { configuration with targetPlatform := platform }

namespace CachedProperty

section Targets

variable {configuration : Configuration}

/-- A decode step is selected, or the target is refused. -/
theorem select_cases (typed : configuration.WellTyped) (machine attributeName : String) :
    (∃ framework : Framework, DecodeStep.select machine configuration.targetPlatform
        configuration.resourceType attributeName =
          .ok (framework.step configuration.resourceType)) ∨
      ∃ platform, DecodeStep.select machine configuration.targetPlatform
        configuration.resourceType attributeName =
          .error (.refused ⟨attributeName, .unsupportedTarget platform⟩) := by
  obtain ⟨framework, selected⟩ | ⟨platform, refused⟩ | ⟨truthy, unnamed, _⟩ :=
    DecodeStep.select_cases machine attributeName configuration.targetPlatform
      configuration.resourceType
  · exact .inl ⟨framework, selected⟩
  · exact .inr ⟨platform, refused⟩
  · obtain unset | ⟨platform, set⟩ := typed.targetPlatform
    · rw [unset] at truthy
      cases truthy
    · exact absurd set (unnamed platform)

variable {machine macroName : String} {attr : Attribute} {declaration : Declaration}

/-- What is wrong other than the target is found by the review. -/
theorem exists_review_error (typed : configuration.WellTyped) {fault : GenerationFault}
    (failed : (generate machine macroName configuration attr declaration).outcome = .error fault)
    (other : ¬ fault.RefusesTarget) :
    ∃ found, review configuration attr declaration = .error found ∧
      found.toGeneration = fault := by
  rw [outcome_generate] at failed
  obtain ⟨found, wrong, rfl⟩ := exists_error_of_mapError failed
  obtain reviewed | ⟨⟨names, flag⟩, -, wrong⟩ := error_of_bind_eq_error wrong
  · exact ⟨found, reviewed, rfl⟩
  obtain unselected | ⟨step, -, unwritten⟩ := error_of_bind_eq_error wrong
  · obtain ⟨framework, selected⟩ | ⟨platform, refused⟩ := select_cases typed machine macroName
    · cases unselected.symm.trans selected
    · cases unselected.symm.trans refused
      exact absurd ⟨_, rfl, rfl⟩ other
  · -- With a unit of indentation the peers can be written.
    obtain ⟨unit, unit_eq⟩ := typed.exists_indentUnit
    obtain ⟨texts, made⟩ := exists_peers unit_eq names flag step
    cases unwritten.symm.trans made

/-- What was made was made with the framework of the target. -/
theorem exists_framework (typed : configuration.WellTyped) {texts : List String}
    (made : (generate machine macroName configuration attr declaration).outcome = .ok texts) :
    ∃ names flag, ∃ framework : Framework,
      review configuration attr declaration = .ok (names, flag) ∧
      DecodeStep.select machine configuration.targetPlatform configuration.resourceType macroName =
        .ok (framework.step configuration.resourceType) ∧
      peers configuration names flag (framework.step configuration.resourceType) = .ok texts := by
  rw [outcome_generate] at made
  obtain ⟨⟨names, flag⟩, reviewed, made⟩ := exists_of_bind_eq_ok (eq_ok_of_mapError made)
  obtain ⟨step, selected, made⟩ := exists_of_bind_eq_ok made
  obtain ⟨framework, known⟩ | ⟨platform, refused⟩ := select_cases typed machine macroName
  · cases selected.symm.trans known
    exact ⟨names, flag, framework, reviewed, known, made⟩
  · cases selected.symm.trans refused

/-- Two generators whose configurations differ in the target only, whatever they were used for, find
the same wrong with a declaration unless it is the target, and make the same of it but for what the
frameworks put into the two places of the accessor. -/
theorem targetLaw_of_sameButTarget {other : Configuration} (typed : configuration.WellTyped)
    (otherTyped : other.WellTyped) (same : configuration.SameButTarget other)
    (machine className macroName : String) (uses otherUses : List (Attribute × Declaration))
    (attr : Attribute) (declaration : Declaration) :
    (∀ fault : GenerationFault, ¬ fault.RefusesTarget →
      (((generator machine className macroName configuration).afterAll uses).generate attr
        declaration).outcome = .error fault →
      (((generator machine className macroName other).afterAll otherUses).generate attr
        declaration).outcome = .error fault) ∧
    ∀ texts otherTexts,
      (((generator machine className macroName configuration).afterAll uses).generate attr
        declaration).outcome = .ok texts →
      (((generator machine className macroName other).afterAll otherUses).generate attr
        declaration).outcome = .ok otherTexts →
      ∃ hash cache accessor otherAccessor, ∃ frame : Frame, ∃ framework otherFramework : Framework,
        texts = [hash, cache, accessor] ∧ otherTexts = [hash, cache, otherAccessor] ∧
        DecodeStep.select machine configuration.targetPlatform configuration.resourceType
          macroName = .ok (framework.step configuration.resourceType) ∧
        DecodeStep.select machine other.targetPlatform other.resourceType macroName =
          .ok (otherFramework.step other.resourceType) ∧
        Text.lines accessor.toList = frame.fill framework ∧
        Text.lines otherAccessor.toList = frame.fill otherFramework ∧
        (accessor = otherAccessor ↔ framework = otherFramework) := by
  simp only [Generator.generate_afterAll, generate_generator]
  obtain ⟨platform, rfl⟩ := same
  constructor
  · intro fault other failed
    obtain ⟨found, reviewed, rfl⟩ := exists_review_error typed failed other
    have otherReviewed : review { configuration with targetPlatform := platform } attr declaration =
      .error found := reviewed
    rw [generate, prepare, otherReviewed]
    rfl
  · intro texts otherTexts made otherMade
    obtain ⟨names, flag, framework, reviewed, selected, made⟩ := exists_framework typed made
    obtain ⟨otherNames, otherFlag, otherFramework, otherReviewed, otherSelected, otherMade⟩ :=
      exists_framework otherTyped otherMade
    -- Neither the review nor the peers look at the target.
    obtain ⟨rfl, rfl⟩ : names = otherNames ∧ flag = otherFlag := by
      have agreed := reviewed.symm.trans otherReviewed
      rwa [Except.ok.injEq, Prod.mk.injEq] at agreed
    obtain ⟨unit, unit_eq⟩ := typed.exists_indentUnit
    obtain ⟨hash, cache, accessor, frame, law⟩ := exists_peers_frame unit_eq names flag
    have texts_eq := made.symm.trans (law framework).1
    have otherTexts_eq := otherMade.symm.trans (law otherFramework).1
    rw [Except.ok.injEq] at texts_eq otherTexts_eq
    refine ⟨hash, cache, accessor framework, accessor otherFramework, frame, framework,
      otherFramework, texts_eq, otherTexts_eq, selected, otherSelected, (law framework).2,
      (law otherFramework).2, fun same => ?_, fun same => by rw [same]⟩
    refine frame.fill_injective ?_
    rw [← (law framework).2, ← (law otherFramework).2, same]

end Targets

/-- What comes of a declaration on a target under the standard settings. -/
def outcomeFor (platform : String) (attr : Attribute) (declaration : Declaration) :
    Except GenerationFault (List String) :=
  ((generator "linux" "ImageCacheGenerator" "ImageCache" (targeting platform)).generate attr
    declaration).outcome

/-- Whether a text is a declaration with an attribute that something is true of. -/
def holdsOf (text : String) (accepts : Attribute → Declaration → Bool) : Bool :=
  (Declaration.parse text.toList).toOption.any fun declaration =>
    declaration.attributes.any fun attr => accepts attr declaration

theorem exists_of_holdsOf {text : String} {accepts : Attribute → Declaration → Bool}
    (found : holdsOf text accepts = true) :
    ∃ declaration attr, Declaration.parse text.toList = .ok declaration ∧
      attr ∈ declaration.attributes ∧ accepts attr declaration = true := by
  obtain ⟨declaration, parsed, found⟩ := exists_of_any found
  obtain ⟨attr, member, found⟩ := List.any_eq_true.mp found
  exact ⟨declaration, attr, parsed, member, found⟩

def tellsMissingSuffix : GenerationFault → Bool
  | .refused complaint => complaint.kind == "MustHaveSuffix"
  | _ => false

set_option maxRecDepth 20000 in
/-- A phone and a desktop differ in the accessor only. A name that is wrong is told of even where
nothing can be decoded. -/
theorem targetLaw_of_sameButTarget_samples :
    (∃ declaration attr hash cache accessor otherAccessor,
      Declaration.parse "@ImageCache var fooData: Data?".toList = .ok declaration ∧
        attr ∈ declaration.attributes ∧
        outcomeFor "ios" attr declaration = .ok [hash, cache, accessor] ∧
        outcomeFor "macos" attr declaration = .ok [hash, cache, otherAccessor] ∧
        accessor ≠ otherAccessor) ∧
    ∃ declaration attr fault,
      Declaration.parse "@ImageCache var foo: Data?".toList = .ok declaration ∧
        attr ∈ declaration.attributes ∧ tellsMissingSuffix fault = true ∧
        outcomeFor "ios" attr declaration = .error fault ∧
        outcomeFor "linux" attr declaration = .error fault := by
  have law (platform other : String) := targetLaw_of_sameButTarget (wellTyped_targeting platform)
    (wellTyped_targeting other) ⟨.text other, rfl⟩ "linux" "ImageCacheGenerator" "ImageCache"
    [] []
  constructor
  · obtain ⟨declaration, attr, parsed, member, found⟩ := exists_of_holdsOf
      (show holdsOf "@ImageCache var fooData: Data?" (fun attr declaration =>
        (outcomeFor "ios" attr declaration).toOption.any fun _ =>
          (outcomeFor "macos" attr declaration).toOption.any fun _ => true) = true
        by decide +kernel)
    obtain ⟨texts, made, found⟩ := exists_of_any found
    obtain ⟨otherTexts, otherMade, -⟩ := exists_of_any found
    obtain ⟨hash, cache, accessor, otherAccessor, frame, framework, otherFramework, rfl, rfl,
      selected, otherSelected, -, -, same_iff⟩ :=
      (law "ios" "macos" attr declaration).2 _ _ made otherMade
    have phone : Framework.uiKit = framework :=
      congrArg DecodeStep.framework (Except.ok.inj selected)
    have desktop : Framework.appKit = otherFramework :=
      congrArg DecodeStep.framework (Except.ok.inj otherSelected)
    refine ⟨declaration, attr, hash, cache, accessor, otherAccessor, parsed, member, made,
      otherMade, fun same => ?_⟩
    rw [same_iff, ← phone, ← desktop] at same
    cases same
  · obtain ⟨declaration, attr, parsed, member, found⟩ := exists_of_holdsOf
      (show holdsOf "@ImageCache var foo: Data?" (fun attr declaration =>
        (fault? (outcomeFor "ios" attr declaration)).any tellsMissingSuffix) = true
        by decide +kernel)
    obtain ⟨fault, failed, found⟩ := exists_error_of_any found
    refine ⟨declaration, attr, fault, parsed, member, found, failed,
      (law "ios" "linux" attr declaration).1 fault ?_ failed⟩
    rintro ⟨complaint, rfl, refuses⟩
    rw [tellsMissingSuffix, refuses] at found
    exact absurd found (by decide)

end CachedProperty

end PeerExpansion
