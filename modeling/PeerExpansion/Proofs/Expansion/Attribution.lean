import PeerExpansion.Proofs.CachedProperty.BuildTarget
import PeerExpansion.Proofs.Expansion.History
import PeerExpansion.Proofs.Expansion.Session

/-! # In whose name a refusal is told

What is wrong with a declaration or with an argument is told in the name of the attribute that
stands there, which may be an alias. That nothing can be decoded on the target is told in the name
that the generator itself has, whatever the attribute is called. This is followed from the rules
that refuse something to the diagnostics of an expander that has been used before.
-/

namespace PeerExpansion

open Expander Work

namespace CachedProperty

/-! ## Refusals -/

def RefusalReason.ConcernsTarget (reason : RefusalReason) : Prop :=
  ∃ platform, reason = .unsupportedTarget platform

theorem Refusal.kind_eq_iff (refusal : Refusal) :
    refusal.kind = "OsNotSupported" ↔ refusal.reason.ConcernsTarget := by
  obtain ⟨name, reason⟩ := refusal
  cases reason <;> simp [kind, RefusalReason.ConcernsTarget]

variable {α β : Type}

/-- Whatever the result refuses is as it should be. -/
def Refuses (Fits : Refusal → Prop) (result : Except PropertyFault α) : Prop :=
  ∀ refusal, result = .error (.refused refusal) → Fits refusal

section Rules

variable {Fits : Refusal → Prop}

theorem refuses_ok (value : α) : Refuses Fits (.ok value) := by
  rintro refusal ⟨⟩

theorem refuses_misused (misuse : Misuse) :
    Refuses Fits (.error (.misused misuse) : Except PropertyFault α) := by
  rintro refusal ⟨⟩

theorem refuses_refused {refusal : Refusal} (fits : Fits refusal) :
    Refuses Fits (.error (.refused refusal) : Except PropertyFault α) := by
  rintro _ ⟨⟩
  exact fits

theorem refuses_bind {result : Except PropertyFault α} {next : α → Except PropertyFault β}
    (front : Refuses Fits result) (back : ∀ value, Refuses Fits (next value)) :
    Refuses Fits (result >>= next) := by
  cases result with
  | ok value => exact back value
  | error fault =>
    rintro refusal ⟨⟩
    exact front refusal rfl

end Rules

/-- A refusal in the name of the attribute, about something else than the target. -/
structure Refusal.Blames (name : String) (refusal : Refusal) : Prop where
  name_eq : refusal.attributeName = name
  other : ¬ refusal.reason.ConcernsTarget

/-- A rule that is broken, but not by the target. -/
def Local (result : Except RefusalReason α) : Prop :=
  ∀ reason, result = .error reason → ¬ reason.ConcernsTarget

theorem Local.refuses {result : Except RefusalReason α} (rule : Local result) (name : String) :
    Refuses (Refusal.Blames name) (result.mapError fun reason => .refused ⟨name, reason⟩) := by
  cases result with
  | ok value => exact refuses_ok value
  | error reason => exact refuses_refused ⟨rfl, rule reason rfl⟩

theorem local_onlyBinding (declaration : Declaration) : Local (Names.onlyBinding declaration) := by
  rintro _ broken ⟨platform, rfl⟩
  unfold Names.onlyBinding at broken
  split at broken
  · split at broken <;> cases broken
  · cases broken

theorem local_identifierOf (binding : Binding) : Local (Names.identifierOf binding) := by
  rintro _ broken ⟨platform, rfl⟩
  unfold Names.identifierOf at broken
  split at broken <;> cases broken

theorem local_checkType (configuration : Configuration) (binding : Binding) (identifier : String) :
    Local (Names.checkType configuration binding identifier) := by
  rintro _ broken ⟨platform, rfl⟩
  unfold Names.checkType at broken
  split at broken <;> cases broken

theorem local_ofIdentifier (identifier suffix : String) :
    Local (Names.ofIdentifier identifier suffix) := by
  rintro _ broken ⟨platform, rfl⟩
  unfold Names.ofIdentifier at broken
  split at broken <;> cases broken

variable (configuration : Configuration) (attr : Attribute) (declaration : Declaration)

theorem refuses_derive (name : String) :
    Refuses (Refusal.Blames name) (Names.derive configuration name declaration) := by
  refine refuses_bind ((local_onlyBinding declaration).refuses name) fun binding => ?_
  refine refuses_bind ((local_identifierOf binding).refuses name) fun identifier => ?_
  refine refuses_bind ((local_checkType configuration binding identifier).refuses name) fun _ => ?_
  split
  · exact (local_ofIdentifier _ _).refuses name
  · exact refuses_misused _

theorem refuses_markerFlag : Refuses (Refusal.Blames attr.name)
    ((markerFlag configuration attr).mapError .refused) := by
  unfold markerFlag
  split
  · exact refuses_ok _
  · split
    · exact refuses_ok _
    · exact refuses_refused ⟨rfl, nofun⟩
  · exact refuses_refused ⟨rfl, nofun⟩

theorem refuses_review :
    Refuses (Refusal.Blames attr.name) (review configuration attr declaration) :=
  refuses_bind (refuses_derive configuration declaration attr.name) fun _ =>
    refuses_bind (refuses_markerFlag configuration attr) fun _ => refuses_ok _

theorem refuses_select (machine name : String) (target resource : Json) :
    Refuses (fun refusal => refusal.attributeName = name ∧ refusal.reason.ConcernsTarget)
      (DecodeStep.select machine target resource name) := by
  obtain ⟨_, selected⟩ | ⟨platform, refused⟩ | ⟨_, _, misused⟩ :=
    DecodeStep.select_cases machine name target resource
  · rw [selected]
    exact refuses_ok _
  · rw [refused]
    exact refuses_refused ⟨rfl, platform, rfl⟩
  · rw [misused]
    exact refuses_misused _

/-- No peer that cannot be written is refused. -/
theorem refuses_peers (names : Names) (flag : Json) (step : DecodeStep) :
    Refuses (fun _ => False) (peers configuration names flag step) := by
  unfold peers
  split
  · exact refuses_misused _
  · intro refusal refused
    dsimp only at refused
    cases made : List.mapM (Template.render _) (templates.map (·.2)) <;> rw [made] at refused <;>
      cases refused

/-- A review that refuses tells so in the name of the attribute. Behind the review only the target
is refused, in the name of the generator. -/
theorem exists_refusal_of_generate {machine macroName : String} {complaint : Complaint}
    (refused : (generate machine macroName configuration attr declaration).outcome =
      .error (.refused complaint)) :
    ∃ refusal : Refusal, complaint = refusal.complaint ∧
      (review configuration attr declaration = .error (.refused refusal) ∧
          refusal.Blames attr.name ∨
        (∃ reviewed, review configuration attr declaration = .ok reviewed) ∧
          refusal.attributeName = macroName ∧ refusal.reason.ConcernsTarget) := by
  rw [outcome_generate] at refused
  obtain ⟨fault, failed, same⟩ := exists_error_of_mapError refused
  -- Only what is refused becomes a complaint.
  obtain ⟨refusal, rfl⟩ : ∃ refusal, fault = .refused refusal := by
    cases fault with
    | refused refusal => exact ⟨refusal, rfl⟩
    | misused => cases same
    | template => cases same
  cases same
  refine ⟨refusal, rfl, ?_⟩
  obtain reviewed | ⟨reviewed, accepted, failed⟩ := error_of_bind_eq_error failed
  · exact .inl ⟨reviewed, refuses_review configuration attr declaration refusal reviewed⟩
  obtain unselected | ⟨step, -, failed⟩ := error_of_bind_eq_error failed
  · exact .inr ⟨⟨reviewed, accepted⟩, refuses_select _ _ _ _ refusal unselected⟩
  · exact (refuses_peers _ _ _ _ refusal failed).elim

end CachedProperty

/-! ## Expanders -/

/-- What is told of an attribute is a complaint of its generator. -/
theorem exists_complaint_of_run {generator : Generator} {attr : Attribute}
    {declaration : Declaration} {sourceName : String} {diagnostic : Diagnostic}
    (ran : (Expansion.run generator attr declaration sourceName).2 = .ok (.error diagnostic)) :
    ∃ complaint, (generator.generate attr declaration).outcome = .error (.refused complaint) ∧
      diagnostic.kind = complaint.kind ∧ diagnostic.message = complaint.message := by
  simp only [Expansion.run] at ran
  split at ran
  next complaint refused =>
    cases ran
    exact ⟨complaint, refused, rfl, rfl⟩
  next => cases ran
  next => cases ran
  next => cases ran

/-- A request that leaves the registry as it is. -/
def Request.IsUse : Request → Prop
  | .change _ => False
  | .generator _ | .expand _ _ => True

namespace Session

theorem sameSupply_perform {session : Session} {request : Request} (use : request.IsUse) :
    (session.perform request).registry = session.registry ∧
      SameSupply session.registry ⟨(session.perform request).expander, []⟩
        ⟨session.expander, []⟩ := by
  cases request with
  | change change => exact use.elim
  | generator name =>
    obtain ⟨later, outcome_eq, kept⟩ :=
      exists_outcome_generatorFor session.registry name ⟨session.expander, []⟩
    have later_eq : (session.perform (.generator name)).expander = later.expander :=
      congrArg (·.2.expander) outcome_eq
    -- Asking for a generator may make one, but not one that was not supplied before.
    refine ⟨rfl, fun other => ?_⟩
    rw [later_eq]
    exact congrArg (Except.map Generator.behaviour) (kept other)
  | expand source sourceName =>
    exact ⟨rfl, (impartial_expand source sourceName).maintains _ _ (.refl _)⟩

/-- Uses leave an expander that supplies what it supplied before. -/
theorem sameSupply_foldl (session : Session) {requests : List Request}
    (uses : ∀ request ∈ requests, request.IsUse) :
    SameSupply session.registry ⟨(requests.foldl perform session).expander, []⟩
      ⟨session.expander, []⟩ := by
  induction requests generalizing session with
  | nil => exact .refl _
  | cons request others inductionHypothesis =>
    obtain ⟨use, othersUse⟩ := List.forall_mem_cons.mp uses
    obtain ⟨registry_eq, same⟩ := sameSupply_perform use
    have rest := inductionHypothesis (session.perform request) othersUse
    rw [registry_eq] at rest
    exact rest.trans same

end Session

/-- The generator that is supplied by an expander that has made nothing. -/
theorem exists_configuration_of_supply {registry : Registry.Macros} {files : FileStore}
    {source : ConfigurationSource} {name : String} {generator : Generator} {found : GeneratorClass}
    (supplied : (ofSource files source).supply registry name = .ok generator)
    (chosen : registry.findClass name = .ok found) :
    ∃ primary configuration, registry.resolve name = .ok primary ∧
      source.resolve files primary = .ok configuration ∧
      found.create configuration = .ok generator := by
  obtain ⟨primary, resolved, known⟩ := Registry.findClass_eq_ok_iff.mp chosen
  -- The generator is made for the primary name, which has the class and stands for itself.
  have settled : registry.resolve primary = .ok primary :=
    Registry.resolve_eq_ok_iff.mpr (.inl ⟨Registry.isPrimary_iff.mpr ⟨found, known⟩, rfl⟩)
  have created : registry.create files primary source = .ok generator := by
    rwa [supply, resolved] at supplied
  obtain ⟨other, target, configuration, otherChosen, otherResolved, configured, made⟩ :=
    Registry.exists_configuration_of_create created
  cases settled.symm.trans otherResolved
  cases otherChosen.symm.trans (Registry.findClass_eq_ok_iff.mpr ⟨primary, settled, known⟩)
  exact ⟨primary, configuration, resolved, configured, made⟩

section Told

variable {registry : Registry.Macros} {files : FileStore} {source : ConfigurationSource}
variable {machine sourceName : String} {declaration : Declaration} {attr answered : Attribute}
variable {diagnostic : Diagnostic}

theorem exists_refusal_of_expandAttribute {expander : Expander}
    (same : SameSupply registry ⟨expander, []⟩ ⟨.ofSource files source, []⟩)
    (chosen : registry.findClass attr.name = .ok (CachedProperty.generatorClass machine))
    (told : (expander.run (expandAttribute registry declaration sourceName attr)).1 =
      .ok (answered, .error diagnostic)) :
    ∃ primary configuration, registry.resolve attr.name = .ok primary ∧
      source.resolve files primary = .ok configuration ∧
      ∃ refusal : CachedProperty.Refusal, diagnostic.kind = refusal.kind ∧
        diagnostic.message = refusal.message ∧
        (CachedProperty.review configuration attr declaration = .error (.refused refusal) ∧
            refusal.Blames attr.name ∨
          (∃ reviewed, CachedProperty.review configuration attr declaration = .ok reviewed) ∧
            refusal.attributeName = "ImageCache" ∧ refusal.reason.ConcernsTarget) := by
  obtain ⟨later, outcome_eq, -⟩ :=
    exists_outcome_expandAttribute declaration sourceName attr ⟨expander, []⟩
  have answer_eq : expander.answer registry declaration sourceName attr =
      .ok (answered, .error diagnostic) :=
    (congrArg Prod.fst outcome_eq).symm.trans told
  -- What was used answers as what is new, so the generator is one that has just been made.
  rw [answer_eq_of_sameSupply declaration sourceName attr same, answer] at answer_eq
  split at answer_eq
  next => cases answer_eq
  next generator supplied =>
  split at answer_eq
  next => cases answer_eq
  next result ran =>
  cases answer_eq
  obtain ⟨primary, configuration, resolved, configured, made⟩ :=
    exists_configuration_of_supply supplied chosen
  cases made
  obtain ⟨complaint, refused, kind_eq, message_eq⟩ := exists_complaint_of_run ran
  rw [CachedProperty.generate_generator] at refused
  obtain ⟨refusal, rfl, wrong⟩ :=
    CachedProperty.exists_refusal_of_generate configuration attr declaration refused
  exact ⟨primary, configuration, resolved, configured, refusal, kind_eq, message_eq, wrong⟩

/-- A diagnostic begins with the name of the attribute it is about, whatever else the expander was
used for, unless the target is what is wrong: then it begins with the name of the generator. The
target is what is wrong just when all that is reviewed is right. -/
theorem nameLaw_of_expandAttribute {requests : List Request}
    (uses : ∀ request ∈ requests, request.IsUse)
    (chosen : registry.findClass attr.name = .ok (CachedProperty.generatorClass machine))
    (told : ((requests.foldl Session.perform ⟨registry, .ofSource files source⟩).expander.run
      (expandAttribute registry declaration sourceName attr)).1 =
        .ok (answered, .error diagnostic)) :
    ∃ primary configuration, registry.resolve attr.name = .ok primary ∧
      source.resolve files primary = .ok configuration ∧
      (∃ refusal : CachedProperty.Refusal, diagnostic.kind = refusal.kind ∧
        diagnostic.message = "@" ++
          (if diagnostic.kind = "OsNotSupported" then "ImageCache" else attr.name) ++ " " ++
            refusal.remark) ∧
      (diagnostic.kind = "OsNotSupported" ↔
        ∃ reviewed, CachedProperty.review configuration attr declaration = .ok reviewed) ∧
      (("@" ++ attr.name).toList <+: diagnostic.message.toList ↔
        diagnostic.kind = "OsNotSupported" →
          attr.name.toList <+: "ImageCache does not support this OS".toList) := by
  obtain ⟨primary, configuration, resolved, configured, refusal, kind_eq, message_eq, wrong⟩ :=
    exists_refusal_of_expandAttribute
      (Session.sameSupply_foldl ⟨registry, .ofSource files source⟩ uses) chosen told
  refine ⟨primary, configuration, resolved, configured, ?_⟩
  have kind_iff : diagnostic.kind = "OsNotSupported" ↔ refusal.reason.ConcernsTarget :=
    kind_eq ▸ refusal.kind_eq_iff
  rw [CachedProperty.Refusal.message] at message_eq
  obtain ⟨reviewed, blames⟩ | ⟨accepted, name_eq, platform, reason_eq⟩ := wrong
  · have other : diagnostic.kind ≠ "OsNotSupported" := fun same => blames.other (kind_iff.mp same)
    rw [blames.name_eq] at message_eq
    refine ⟨⟨refusal, kind_eq, by rw [if_neg other, message_eq]⟩, ?_, ?_⟩
    · simp [other, reviewed]
    · simp [other, message_eq]
  · have target : diagnostic.kind = "OsNotSupported" := kind_iff.mpr ⟨platform, reason_eq⟩
    rw [name_eq] at message_eq
    refine ⟨⟨refusal, kind_eq, by rw [if_pos target, message_eq]⟩, iff_of_true target accepted, ?_⟩
    have remark_eq : refusal.remark = "does not support this OS" := by
      rw [CachedProperty.Refusal.remark, reason_eq]
    simp [target, message_eq, remark_eq]

end Told

/-- A registry that knows the macro by a second name. -/
def aliasRegistry : Registry.Macros :=
  (Registry.empty.register "ImageCache" (some (CachedProperty.generatorClass "linux")) ["Cached"]
    false).1

/-- Uses of both names. -/
def aliasRequests : List Request :=
  [.generator "Cached", .expand "@ImageCache var fooData: Data?".toList "<input>"]

/-- The expander for a target behind these uses. -/
def aliasExpander (platform : String) : Expander :=
  (aliasRequests.foldl Session.perform
    ⟨aliasRegistry, .ofSource .empty (.ready (CachedProperty.targeting platform))⟩).expander

/-- What the expander tells of an attribute, where it tells something. -/
def toldOf? (platform : String) (attr : Attribute) (declaration : Declaration) :
    Option Diagnostic :=
  match ((aliasExpander platform).run
    (expandAttribute aliasRegistry declaration "<input>" attr)).1 with
  | .ok (_, .error diagnostic) => some diagnostic
  | _ => none

theorem exists_of_toldOf {platform : String} {attr : Attribute} {declaration : Declaration}
    {accepts : Diagnostic → Bool} (found : (toldOf? platform attr declaration).any accepts = true) :
    ∃ answered diagnostic, ((aliasExpander platform).run
      (expandAttribute aliasRegistry declaration "<input>" attr)).1 =
        .ok (answered, .error diagnostic) ∧ accepts diagnostic = true := by
  unfold toldOf? at found
  split at found
  next told => exact ⟨_, _, told, found⟩
  next => cases found

set_option maxRecDepth 20000 in
theorem nameLaw_of_expandAttribute_aliasSample : ∃ declaration attr answered diagnostic,
    Declaration.parse "@Cached var foo: Data?".toList = .ok declaration ∧
      attr ∈ declaration.attributes ∧
      ((aliasExpander "ios").run (expandAttribute aliasRegistry declaration "<input>" attr)).1 =
        .ok (answered, .error diagnostic) ∧
      attr.name = "Cached" ∧ diagnostic.kind = "MustHaveSuffix" ∧
      ("@" ++ attr.name).toList <+: diagnostic.message.toList := by
  obtain ⟨declaration, attr, parsed, member, found⟩ := CachedProperty.exists_of_holdsOf
    (show CachedProperty.holdsOf "@Cached var foo: Data?" (fun attr declaration =>
      attr.name == "Cached" && (toldOf? "ios" attr declaration).any
        (·.kind == "MustHaveSuffix")) = true by decide +kernel)
  rw [Bool.and_eq_true, beq_iff_eq] at found
  obtain ⟨name_eq, found⟩ := found
  obtain ⟨answered, diagnostic, told, kind_eq⟩ := exists_of_toldOf found
  rw [beq_iff_eq] at kind_eq
  have uses : ∀ request ∈ aliasRequests, request.IsUse := by
    simp [aliasRequests, Request.IsUse]
  have chosen : aliasRegistry.findClass attr.name =
      .ok (CachedProperty.generatorClass "linux") := by
    rw [name_eq]
    rfl
  obtain ⟨_, _, -, -, -, -, named⟩ := nameLaw_of_expandAttribute uses chosen told
  refine ⟨declaration, attr, answered, diagnostic, parsed, member, told, name_eq, kind_eq,
    named.mpr fun same => ?_⟩
  exact absurd (kind_eq.symm.trans same) (by decide)

set_option maxRecDepth 20000 in
/-- Where the target is wrong, an alias is not told of in its own name. -/
theorem toldOf_aliasSample : ∃ declaration attr answered diagnostic,
    Declaration.parse "@Cached var fooData: Data?".toList = .ok declaration ∧
      attr ∈ declaration.attributes ∧ attr.name = "Cached" ∧
      aliasRegistry.findClass attr.name = .ok (CachedProperty.generatorClass "linux") ∧
      ((aliasExpander "linux").run (expandAttribute aliasRegistry declaration "<input>" attr)).1 =
        .ok (answered, .error diagnostic) ∧
      diagnostic.kind = "OsNotSupported" ∧
      ¬ ("@" ++ attr.name).toList <+: diagnostic.message.toList := by
  obtain ⟨declaration, attr, parsed, member, found⟩ := CachedProperty.exists_of_holdsOf
    (show CachedProperty.holdsOf "@Cached var fooData: Data?" (fun attr declaration =>
      attr.name == "Cached" && (toldOf? "linux" attr declaration).any fun diagnostic =>
        diagnostic.kind == "OsNotSupported" &&
          diagnostic.message == "@ImageCache does not support this OS") = true by decide +kernel)
  rw [Bool.and_eq_true, beq_iff_eq] at found
  obtain ⟨name_eq, found⟩ := found
  obtain ⟨answered, diagnostic, told, found⟩ := exists_of_toldOf found
  rw [Bool.and_eq_true, beq_iff_eq, beq_iff_eq] at found
  refine ⟨declaration, attr, answered, diagnostic, parsed, member, name_eq, ?_, told, found.1, ?_⟩
  · rw [name_eq]
    rfl
  · rw [name_eq, found.2]
    decide

end PeerExpansion
