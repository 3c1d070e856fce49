import PeerExpansion.CachedProperty.Peers
import PeerExpansion.Proofs.Text.Lines

/-! # The text of the peers

The two fields are a line each, and the accessor is twelve, every one of them indented by a number
of levels of its own. The templates come to just this text whatever the names, the types, the marker
and the unit of indentation are, if only each of them can stand on a line; and the text is tidy.
-/

/-! ## Filling the templates

The templates only ask for what their context holds, so they can be filled whatever the names, the
type of the value and the marker are. A unit of indentation that is a text can be put in front of
lines.
-/

namespace PeerExpansion

theorem render_cons {context : TemplateContext} {node : TemplateNode} {others : Template}
    {first rest : String} (front : node.render context = .ok first)
    (back : Template.render context others = .ok rest) :
    Template.render context (node :: others) = .ok (first ++ rest) := by
  rw [Template.render, front, back]
  rfl

theorem render_append {context : TemplateContext} {nodes others : Template} {first rest : String}
    (front : Template.render context nodes = .ok first)
    (back : Template.render context others = .ok rest) :
    Template.render context (nodes ++ others) = .ok (first ++ rest) := by
  induction nodes generalizing first with
  | nil =>
    rw [Template.render] at front
    cases front
    rw [List.nil_append, back, String.empty_append]
  | cons node nodes inductionHypothesis =>
    rw [Template.render] at front
    cases nodeRendered : node.render context with
    | error => rw [nodeRendered] at front; cases front
    | ok text =>
      cases later : Template.render context nodes with
      | error => rw [nodeRendered, later] at front; cases front
      | ok more =>
        rw [nodeRendered, later] at front
        cases front
        rw [List.cons_append, render_cons nodeRendered (inductionHypothesis later),
          String.append_assoc]

namespace CachedProperty

section Context

variable {names : Names} {step : DecodeStep} {resource marker : Json} {unit : String}

theorem render_indented {body : Template} {text : String}
    (rendered : Template.render (context names step resource marker unit) body = .ok text) :
    TemplateNode.render (context names step resource marker unit)
      (.indented [.name "unit"] body) =
        .ok (String.ofList (Text.indentLines unit.toList text.toList)) := by
  -- A filter without a width indents once.
  have once : Indentation.repeated unit 1 = .ok (.text unit.toList) := by
    have length_one : Text.repeat? unit.toList 1 = some (unit.toList ++ []) := rfl
    rw [Indentation.repeated, length_one, List.append_nil]
  have applied : Indentation.apply (.plain (.text text)) [.plain (.text unit)] =
      Indentation.repeated unit 1 >>= fun lead =>
        lead.applyTo text.toList >>= fun indented => .ok (String.ofList indented) := rfl
  rw [TemplateNode.render, rendered]
  refine Eq.trans applied ?_
  rw [once]
  rfl

/-- A part that is indented stands between the texts in front of it and behind it. -/
theorem render_around (front back : Template) {body : Template} {first last text : String}
    (frontRendered : Template.render (context names step resource marker unit) front = .ok first)
    (rendered : Template.render (context names step resource marker unit) body = .ok text)
    (backRendered : Template.render (context names step resource marker unit) back = .ok last) :
    Template.render (context names step resource marker unit)
      (front ++ .indented [.name "unit"] body :: back) =
        .ok (first ++ (String.ofList (Text.indentLines unit.toList text.toList) ++ last)) :=
  render_append frontRendered (render_cons (render_indented rendered) backRendered)

variable (names step resource marker unit)

theorem exists_render_markerPart :
    ∃ text, markerPart.render (context names step resource marker unit) = .ok text := by
  have chosen : markerPart.render (context names step resource marker unit) =
      if marker.isTruthy = true then
        Template.render (context names step resource marker unit)
          [.hole (.name "marker"), .text " "]
      else .ok "" := by
    rw [markerPart, TemplateNode.render]
    rfl
  have written : Template.render (context names step resource marker unit)
      [.hole (.name "marker"), .text " "] = .ok _ := rfl
  rw [chosen]
  split
  · exact ⟨_, written⟩
  · exact ⟨_, rfl⟩

theorem exists_render_hashTemplate :
    ∃ text, Template.render (context names step resource marker unit) hashTemplate = .ok text := by
  obtain ⟨front, rendered⟩ := exists_render_markerPart names step resource marker unit
  exact ⟨_, render_cons rendered rfl⟩

theorem exists_render_cacheTemplate :
    ∃ text, Template.render (context names step resource marker unit) cacheTemplate =
      .ok text := by
  obtain ⟨front, rendered⟩ := exists_render_markerPart names step resource marker unit
  exact ⟨_, render_cons rendered rfl⟩

theorem exists_render_accessorTemplate :
    ∃ text, Template.render (context names step resource marker unit) accessorTemplate =
      .ok text := by
  have statements : Template.render (context names step resource marker unit) getterTemplate =
      .ok _ := rfl
  have getter := render_around [.text "get \x7b\n"] [.text "\x7d\n"] rfl statements rfl
  exact ⟨_, render_around
    [.text "var ", spec "accessor_name", .text ": ", .hole (.name "resource_type"),
      .text "? \x7b\n"] [.text "\x7d"] rfl getter rfl⟩

end Context

/-- There are peers as soon as there is a unit of indentation. -/
theorem exists_peers {configuration : Configuration} {unit : String}
    (unit_eq : configuration.indentUnit = .ok unit) (names : Names) (flag : Json)
    (step : DecodeStep) : ∃ texts, peers configuration names flag step = .ok texts := by
  obtain ⟨hash, hashRendered⟩ := exists_render_hashTemplate names step
    configuration.resourceType (marker configuration flag) unit
  obtain ⟨cache, cacheRendered⟩ := exists_render_cacheTemplate names step
    configuration.resourceType (marker configuration flag) unit
  obtain ⟨accessor, accessorRendered⟩ := exists_render_accessorTemplate names step
    configuration.resourceType (marker configuration flag) unit
  refine ⟨[hash, cache, accessor], ?_⟩
  simp only [peers, unit_eq, templates, List.map_cons, List.map_nil, List.mapM_cons, List.mapM_nil,
    hashRendered, cacheRendered, accessorRendered]
  rfl

end CachedProperty

end PeerExpansion

namespace PeerExpansion.CachedProperty

/-! ## Blocks of lines -/

/-- The lines of a text, each with its line feed. -/
def block (lines : List String) : String :=
  String.join (lines.map (· ++ "\n"))

/-- Something can be seen on the line, and it is only one. -/
structure Visible (line : String) : Prop where
  clean : '\n' ∉ line.toList
  solid : Text.isBlankLine line.toList = false

theorem visible_of_mem (seen : Char) {line : String} (clean : '\n' ∉ line.toList)
    (member : seen ∈ line.toList) (solid : Text.isBlank seen = false) : Visible line := by
  refine ⟨clean, ?_⟩
  rw [Text.isBlankLine, List.all_eq_false]
  exact ⟨seen, member, by simp [solid]⟩

theorem Visible.indented {line : String} (visible : Visible line) {unit : String}
    (clean : '\n' ∉ unit.toList) : Visible (unit ++ line) := by
  obtain ⟨lineClean, solid⟩ := visible
  obtain ⟨seen, member, blank⟩ := List.all_eq_false.mp solid
  refine visible_of_mem seen ?_ ?_ (by simpa using blank)
  · simpa using ⟨clean, lineClean⟩
  · simp [member]

theorem indentLines_block {lines : List String} (visible : ∀ line ∈ lines, Visible line)
    (indent : String) :
    String.ofList (Text.indentLines indent.toList (block lines).toList) =
      block (lines.map (indent ++ ·)) := by
  rw [← String.toList_inj, String.toList_ofList]
  induction lines with
  | nil => rfl
  | cons line lines inductionHypothesis =>
    have first := visible line List.mem_cons_self
    have later := inductionHypothesis fun other member =>
      visible other (List.mem_cons_of_mem _ member)
    have feed : "\n".toList = ['\n'] := rfl
    simp only [block, List.map_cons, String.join_cons, String.toList_append, feed,
      List.append_assoc, List.singleton_append] at later ⊢
    rw [Text.indentLines_append first.clean first.solid, later, List.append_assoc]

/-! ## The layout -/

/-- What the text of the peers depends on besides the names. -/
structure Layout where
  framework : Framework
  /-- The type that the cache field and the accessor are declared with. -/
  resource : String
  /-- The type that a decoded value is wrapped into. -/
  wrapper : String
  /-- What stands in front of the fields. -/
  mark : String
  /-- One level of indentation. -/
  unit : String

namespace Layout

variable (layout : Layout) (names : Names)

def step : DecodeStep :=
  ⟨layout.framework, .text layout.wrapper⟩

def hashText : String :=
  layout.mark ++ "private var " ++ names.stem ++ "Hash: Int = 0"

def cacheText : String :=
  layout.mark ++ "private var " ++ names.stem ++ "Cache: " ++ layout.resource ++ "?"

/-- The lines of the accessor, each behind the number of its levels. -/
def accessorLines : List (Nat × String) :=
  [(0, "var " ++ names.stem ++ ": " ++ layout.resource ++ "? \x7b"),
    (1, "get \x7b"),
    (2, "if " ++ names.source ++ ".hashValue != " ++ names.stem ++ "Hash,"),
    (3, "let " ++ names.source ++ ","),
    (3, "let " ++ layout.step.binding ++ " = " ++ layout.step.decoderName ++ "(data: " ++
      names.source ++ ")"),
    (2, "\x7b"),
    (3, names.stem ++ "Cache = " ++ layout.wrapper ++ "(" ++ layout.step.binding ++ ": " ++
      layout.step.binding ++ ")"),
    (3, names.stem ++ "Hash = " ++ names.source ++ ".hashValue"),
    (2, "\x7d"),
    (2, "return " ++ names.stem ++ "Cache"),
    (1, "\x7d"),
    (0, "\x7d")]

/-- The lines with their indentation. -/
def indentedLines : List String :=
  (layout.accessorLines names).map fun (levels, line) =>
    String.join (List.replicate levels layout.unit) ++ line

def accessorText : String :=
  String.intercalate "\n" (layout.indentedLines names)

end Layout

theorem newline_not_mem_binding (step : DecodeStep) : '\n' ∉ step.binding.toList := by
  unfold DecodeStep.binding
  split <;> decide

theorem newline_not_mem_decoderName (step : DecodeStep) : '\n' ∉ step.decoderName.toList := by
  unfold DecodeStep.decoderName
  split <;> decide

/-- Names that can stand on a line. -/
structure OnOneLine (names : Names) : Prop where
  source : '\n' ∉ names.source.toList
  stem : '\n' ∉ names.stem.toList

/-- Types, a mark and a unit of indentation that can stand on a line. -/
structure Layout.OnOneLine (layout : Layout) : Prop where
  resource : '\n' ∉ layout.resource.toList
  wrapper : '\n' ∉ layout.wrapper.toList
  mark : '\n' ∉ layout.mark.toList
  unit : '\n' ∉ layout.unit.toList

/-! ## Rendering -/

namespace Layout

variable (layout : Layout) (names : Names) (marker : Json)

def context : TemplateContext :=
  CachedProperty.context names layout.step (.text layout.resource) marker layout.unit

/-- The statements of the getter, as they stand in it. -/
def statements : List String :=
  ["if " ++ names.source ++ ".hashValue != " ++ names.stem ++ "Hash,",
    layout.unit ++ "let " ++ names.source ++ ",",
    layout.unit ++ "let " ++ layout.step.binding ++ " = " ++ layout.step.decoderName ++ "(data: " ++
      names.source ++ ")",
    "\x7b",
    layout.unit ++ names.stem ++ "Cache = " ++ layout.wrapper ++ "(" ++ layout.step.binding ++
      ": " ++ layout.step.binding ++ ")",
    layout.unit ++ names.stem ++ "Hash = " ++ names.source ++ ".hashValue",
    "\x7d",
    "return " ++ names.stem ++ "Cache"]

def getter : List String :=
  "get \x7b" :: (layout.statements names).map (layout.unit ++ ·) ++ ["\x7d"]

section Visible

variable {layout names}
variable (layoutClean : layout.OnOneLine) (namesClean : CachedProperty.OnOneLine names)
include layoutClean namesClean

theorem visible_statements : ∀ line ∈ layout.statements names, Visible line := by
  obtain ⟨-, wrapper, -, unit⟩ := layoutClean
  obtain ⟨source, stem⟩ := namesClean
  have binding := newline_not_mem_binding layout.step
  have decoder := newline_not_mem_decoderName layout.step
  have clean : ∀ line ∈ layout.statements names, '\n' ∉ line.toList := by
    simp [statements, source, stem, binding, decoder, wrapper, unit]
  intro line member
  have lineClean := clean line member
  simp only [statements, List.mem_cons, List.not_mem_nil, or_false] at member
  obtain rfl | rfl | rfl | rfl | rfl | rfl | rfl | rfl := member
  · exact visible_of_mem 'f' lineClean (by simp) rfl
  · exact visible_of_mem 'l' lineClean (by simp) rfl
  · exact visible_of_mem 'l' lineClean (by simp) rfl
  · exact visible_of_mem '\x7b' lineClean (by simp) rfl
  · exact visible_of_mem '=' lineClean (by simp) rfl
  · exact visible_of_mem '=' lineClean (by simp) rfl
  · exact visible_of_mem '\x7d' lineClean (by simp) rfl
  · exact visible_of_mem 'r' lineClean (by simp) rfl

theorem visible_getter : ∀ line ∈ layout.getter names, Visible line := by
  have inner := visible_statements layoutClean namesClean
  intro line member
  simp only [getter, List.cons_append, List.mem_cons, List.mem_append, List.mem_map,
    List.not_mem_nil, or_false] at member
  obtain rfl | ⟨statement, statementMember, rfl⟩ | rfl := member
  · exact ⟨by decide, by decide⟩
  · exact (inner statement statementMember).indented layoutClean.unit
  · exact ⟨by decide, by decide⟩

end Visible

theorem render_getterTemplate : Template.render (layout.context names marker) getterTemplate =
    .ok (block (layout.statements names)) := by
  have rendered : Template.render (layout.context names marker) getterTemplate = .ok _ := rfl
  rw [rendered, Except.ok.injEq, ← String.toList_inj]
  simp [block, statements, step, Json.display, DecodeStep.decode, DecodeStep.wrap,
    Names.hashField, Names.cacheField]

/-- The statements are indented inside the getter, and the getter inside the accessor. -/
theorem accessorText_eq : layout.accessorText names =
    "var " ++ names.stem ++ ": " ++ layout.resource ++ "? \x7b\n" ++
      block ((layout.getter names).map (layout.unit ++ ·)) ++ "\x7d" := by
  rw [← String.toList_inj]
  simp [accessorText, indentedLines, accessorLines, getter, statements, block, List.replicate]

variable {layout names}

theorem render_accessorTemplate (layoutClean : layout.OnOneLine)
    (namesClean : CachedProperty.OnOneLine names) :
    Template.render (layout.context names marker) accessorTemplate =
      .ok (layout.accessorText names) := by
  have inner := render_around [.text "get \x7b\n"] [.text "\x7d\n"] rfl
    (layout.render_getterTemplate names marker) rfl
  rw [indentLines_block (visible_statements layoutClean namesClean)] at inner
  have getterText : "get \x7b\n" ++ "" ++
      (block ((layout.statements names).map (layout.unit ++ ·)) ++ ("\x7d\n" ++ "")) =
        block (layout.getter names) := by
    rw [← String.toList_inj]
    simp [block, getter]
  rw [getterText] at inner
  have rendered := render_around
    [.text "var ", spec "accessor_name", .text ": ", .hole (.name "resource_type"),
      .text "? \x7b\n"] [.text "\x7d"] rfl inner rfl
  rw [indentLines_block (visible_getter layoutClean namesClean)] at rendered
  refine Eq.trans rendered ?_
  rw [Except.ok.injEq, accessorText_eq, ← String.toList_inj]
  simp [Names.accessor, Json.display]

/-- What stands in front of a field for the value of a marker. -/
def markFor (marker : Json) : String :=
  if marker.isTruthy then marker.display ++ " " else ""

section Fields

variable {marker} (names) (marked : layout.mark = markFor marker)
include marked

theorem render_markerPart :
    markerPart.render (layout.context names marker) = .ok layout.mark := by
  have written : Template.render (layout.context names marker) [.hole (.name "marker"), .text " "] =
      .ok (marker.display ++ (" " ++ "")) := rfl
  have chosen : markerPart.render (layout.context names marker) =
      if marker.isTruthy = true then
        Template.render (layout.context names marker) [.hole (.name "marker"), .text " "]
      else .ok "" := by
    rw [markerPart, TemplateNode.render]
    rfl
  rw [chosen, written, String.append_empty, marked, markFor]
  split <;> rfl

theorem render_hashTemplate :
    Template.render (layout.context names marker) hashTemplate = .ok (layout.hashText names) := by
  have field : Template.render (layout.context names marker)
      [.text "private var ", spec "hash_field_name", .text ": Int = 0"] = .ok _ := rfl
  refine (render_cons (render_markerPart names marked) field).trans ?_
  rw [Except.ok.injEq, ← String.toList_inj]
  simp [hashText, Names.hashField, Json.display]

theorem render_cacheTemplate :
    Template.render (layout.context names marker) cacheTemplate = .ok (layout.cacheText names) := by
  have field : Template.render (layout.context names marker)
      [.text "private var ", spec "cache_field_name", .text ": ", .hole (.name "resource_type"),
        .text "?"] = .ok _ := rfl
  refine (render_cons (render_markerPart names marked) field).trans ?_
  rw [Except.ok.injEq, ← String.toList_inj]
  simp [cacheText, Names.cacheField, Json.display]

end Fields

/-- The three texts of the layout, in the order of the peers. -/
def texts (layout : Layout) (names : Names) : List String :=
  [layout.hashText names, layout.cacheText names, layout.accessorText names]

theorem peers_eq_texts {configuration : Configuration} {flag : Json}
    (resource_eq : configuration.resourceType = .text layout.resource)
    (marked : layout.mark = markFor (CachedProperty.marker configuration flag))
    (unit_eq : configuration.indentUnit = .ok layout.unit) (layoutClean : layout.OnOneLine)
    (namesClean : CachedProperty.OnOneLine names) :
    peers configuration names flag layout.step = .ok (layout.texts names) := by
  have hash := render_hashTemplate names marked
  have cache := render_cacheTemplate names marked
  have accessor := render_accessorTemplate (CachedProperty.marker configuration flag) layoutClean
    namesClean
  unfold Layout.context at hash cache accessor
  simp only [peers, unit_eq, resource_eq, templates, List.map_cons, List.map_nil, List.mapM_cons,
    List.mapM_nil, hash, cache, accessor]
  rfl

/-! ## Tidiness -/

/-- A text of one line that ends visibly is tidy. -/
theorem tidy_eq_self {text : String} (clean : '\n' ∉ text.toList)
    (ends : Text.EndsVisibly text.toList) : Text.tidy text = text := by
  have single : Text.tidyChars (Text.unlines [text.toList]) = Text.unlines [text.toList] :=
    Text.tidyChars_unlines (List.cons_ne_nil _ _) (by simpa using clean) (by simpa using ends)
  rw [Text.unlines, List.intercalate_singleton] at single
  rw [Text.tidy, single, String.ofList_toList]

theorem endsVisibly_append (front : String) {back : String}
    (ends : Text.EndsVisibly back.toList) : Text.EndsVisibly (front ++ back).toList := by
  rw [String.toList_append]
  exact ends.append front.toList

theorem endsVisibly_accessorLines (layout : Layout) (names : Names) :
    ∀ entry ∈ layout.accessorLines names, Text.EndsVisibly entry.2.toList := by
  intro entry member
  simp only [accessorLines, List.mem_cons, List.not_mem_nil, or_false] at member
  obtain rfl | rfl | rfl | rfl | rfl | rfl | rfl | rfl | rfl | rfl | rfl | rfl := member
  · exact endsVisibly_append _ (show Text.EndsVisibly "? \x7b".toList by decide)
  · decide
  · exact endsVisibly_append _ (show Text.EndsVisibly "Hash,".toList by decide)
  · exact endsVisibly_append _ (show Text.EndsVisibly ",".toList by decide)
  · exact endsVisibly_append _ (show Text.EndsVisibly ")".toList by decide)
  · decide
  · exact endsVisibly_append _ (show Text.EndsVisibly ")".toList by decide)
  · exact endsVisibly_append _ (show Text.EndsVisibly ".hashValue".toList by decide)
  · decide
  · exact endsVisibly_append _ (show Text.EndsVisibly "Cache".toList by decide)
  · decide
  · decide

section Tidy

variable (layoutClean : layout.OnOneLine) (namesClean : CachedProperty.OnOneLine names)
include layoutClean namesClean

theorem clean_indentedLines : ∀ line ∈ layout.indentedLines names, '\n' ∉ line.toList := by
  obtain ⟨resource, wrapper, -, unit⟩ := layoutClean
  obtain ⟨source, stem⟩ := namesClean
  have binding := newline_not_mem_binding layout.step
  have decoder := newline_not_mem_decoderName layout.step
  simp [indentedLines, accessorLines, source, stem, binding, decoder, resource, wrapper, unit]

theorem tidy_accessorText : Text.tidy (layout.accessorText names) = layout.accessorText names := by
  have clean := clean_indentedLines layoutClean namesClean
  have ends : ∀ line ∈ layout.indentedLines names, Text.EndsVisibly line.toList := by
    intro line member
    obtain ⟨entry, entryMember, rfl⟩ := List.mem_map.mp member
    exact endsVisibly_append _ (endsVisibly_accessorLines layout names entry entryMember)
  have tidy : Text.tidyChars (Text.unlines ((layout.indentedLines names).map String.toList)) =
      Text.unlines ((layout.indentedLines names).map String.toList) :=
    Text.tidyChars_unlines (by simp [indentedLines, accessorLines]) (by simpa using clean)
      (by simpa using ends)
  have text_eq : (layout.accessorText names).toList =
      Text.unlines ((layout.indentedLines names).map String.toList) := by
    rw [accessorText, String.toList_intercalate]
    rfl
  rw [Text.tidy, text_eq, tidy, ← text_eq, String.ofList_toList]

/-- Whatever the names, the types and the marker end with, no text has anything to tidy up. -/
theorem tidy_texts : ∀ text ∈ layout.texts names, Text.tidy text = text := by
  have hash : Text.tidy (layout.hashText names) = layout.hashText names := by
    refine tidy_eq_self ?_ (endsVisibly_append _ (by decide))
    simp [hashText, layoutClean.mark, namesClean.stem]
  have cache : Text.tidy (layout.cacheText names) = layout.cacheText names := by
    refine tidy_eq_self ?_ (endsVisibly_append _ (by decide))
    simp [cacheText, layoutClean.mark, layoutClean.resource, namesClean.stem]
  have accessor := tidy_accessorText layoutClean namesClean
  simp [texts, hash, cache, accessor]

end Tidy

end Layout

/-! ## From the configuration -/

/-- What a configuration says about the text of the peers. -/
structure Style where
  resource : String
  marker : String
  usesTabs : Bool
  indentSize : Int

namespace Style

structure Describes (style : Style) (configuration : Configuration) : Prop where
  resource_eq : configuration.resourceType = .text style.resource
  marker_eq : configuration.persistenceMarker = .text style.marker
  usesTabs_eq : configuration.useTabs = .bool style.usesTabs
  indentSize_eq : configuration.indentSize = .int style.indentSize

/-- The texts can stand on a line, and the size is a signed word. -/
structure Fits (style : Style) : Prop where
  resource : '\n' ∉ style.resource.toList
  marker : '\n' ∉ style.marker.toList
  bounds : -Text.wordBound ≤ style.indentSize ∧ style.indentSize < Text.wordBound

def unit (style : Style) : String :=
  if style.usesTabs then "\t" else String.ofList (List.replicate style.indentSize.toNat ' ')

/-- The marker and a space, where it is asked for and there is one. -/
def mark (style : Style) (flag : Json) : String :=
  if flag.isTruthy = true ∧ style.marker ≠ "" then style.marker ++ " " else ""

def layout (style : Style) (flag : Json) (framework : Framework) (wrapper : String) : Layout :=
  ⟨framework, style.resource, wrapper, style.mark flag, style.unit⟩

variable {style : Style} {configuration : Configuration}

theorem Describes.indentUnit_eq (described : style.Describes configuration) (fits : style.Fits) :
    configuration.indentUnit = .ok style.unit := by
  have counted : Json.count? (.int style.indentSize) = some style.indentSize := rfl
  have repeated : Text.repeat? [' '] style.indentSize =
      some (List.replicate style.indentSize.toNat ' ') := by
    simp [Text.repeat?, fits.bounds]
  rw [Configuration.indentUnit, described.usesTabs_eq, described.indentSize_eq, unit]
  cases style.usesTabs with
  | true => rfl
  | false =>
    simp only [Json.isTruthy, Configuration.spaces, counted, repeated]
    rfl

theorem Describes.mark_eq (described : style.Describes configuration) (flag : Json) :
    style.mark flag = Layout.markFor (CachedProperty.marker configuration flag) := by
  rw [mark, CachedProperty.marker, described.marker_eq]
  cases flag.isTruthy with
  | false => rfl
  | true => simp [Layout.markFor, Json.isTruthy, Json.display]

theorem Fits.layout_onOneLine (fits : style.Fits) (flag : Json) (framework : Framework)
    {wrapper : String} (clean : '\n' ∉ wrapper.toList) :
    (style.layout flag framework wrapper).OnOneLine := by
  refine ⟨fits.resource, clean, ?_, ?_⟩
  · show '\n' ∉ (style.mark flag).toList
    rw [mark]
    split
    · simpa using fits.marker
    · simp
  · show '\n' ∉ style.unit.toList
    rw [unit]
    split
    · decide
    · simp

/-- The peers are the three texts of the layout, for every framework and every type that the decode
step wraps into; and there is nothing to tidy up in them. -/
theorem peers_laidOut (described : style.Describes configuration) (fits : style.Fits)
    {names : Names} (oneLine : OnOneLine names) (flag : Json) (framework : Framework)
    {wrapper : String} (clean : '\n' ∉ wrapper.toList) :
    peers configuration names flag ⟨framework, .text wrapper⟩ =
        .ok ((style.layout flag framework wrapper).texts names) ∧
      ∀ text ∈ (style.layout flag framework wrapper).texts names, Text.tidy text = text := by
  have layoutClean := fits.layout_onOneLine flag framework clean
  have peers_eq : peers configuration names flag (style.layout flag framework wrapper).step =
      .ok ((style.layout flag framework wrapper).texts names) :=
    Layout.peers_eq_texts described.resource_eq (described.mark_eq flag)
      (described.indentUnit_eq fits) layoutClean oneLine
  exact ⟨peers_eq, Layout.tidy_texts layoutClean oneLine⟩

def tabbedSample : Configuration :=
  { resourceType := .text "Picture", useTabs := .bool true }

def tabbedStyle : Style :=
  ⟨"Picture", "@Transient", true, 4⟩

/-- Marked fields, and an accessor that is indented by tabs. -/
theorem peers_laidOut_tabbedSample :
    peers tabbedSample ⟨"iconData", "icon"⟩ (.bool true) ⟨.appKit, .text "Picture"⟩ =
        .ok ["@Transient private var iconHash: Int = 0",
          "@Transient private var iconCache: Picture?",
          "var icon: Picture? \x7b\n\tget \x7b\n\t\tif iconData.hashValue != iconHash,\n" ++
            "\t\t\tlet iconData,\n\t\t\tlet nsImage = NSImage(data: iconData)\n\t\t\x7b\n" ++
            "\t\t\ticonCache = Picture(nsImage: nsImage)\n" ++
            "\t\t\ticonHash = iconData.hashValue\n\t\t\x7d\n" ++
            "\t\treturn iconCache\n\t\x7d\n\x7d"] ∧
      ∀ text ∈ (tabbedStyle.layout (.bool true) .appKit "Picture").texts ⟨"iconData", "icon"⟩,
        Text.tidy text = text := by
  have described : tabbedStyle.Describes tabbedSample := ⟨rfl, rfl, rfl, rfl⟩
  have fits : tabbedStyle.Fits := ⟨by decide, by decide, by decide⟩
  have oneLine : OnOneLine ⟨"iconData", "icon"⟩ := ⟨by decide, by decide⟩
  obtain ⟨peers_eq, tidy⟩ := peers_laidOut described fits oneLine (.bool true) .appKit
    (show '\n' ∉ "Picture".toList by decide)
  exact ⟨peers_eq.trans (congrArg Except.ok (by decide +kernel)), tidy⟩

end Style

/-! ## The standard layout

What the templates come to when a unit of indentation is four spaces and the type of the image is
`Image`: the texts of the three peers, written out.
-/

section Texts

variable (names : Names) (step : DecodeStep)

def getterLines : List String :=
  ["if " ++ names.source ++ ".hashValue != " ++ names.hashField ++ ",",
    "    let " ++ names.source ++ ",",
    "    let " ++ step.binding ++ " = " ++ step.decoderName ++ "(data: " ++ names.source ++ ")",
    "\x7b",
    "    " ++ names.cacheField ++ " = Image(" ++ step.binding ++ ": " ++ step.binding ++ ")",
    "    " ++ names.hashField ++ " = " ++ names.source ++ ".hashValue",
    "\x7d",
    "return " ++ names.cacheField]

def accessorLines : List String :=
  "get \x7b" :: (getterLines names step).map ("    " ++ ·) ++ ["\x7d"]

def hashText (mark : String) : String :=
  mark ++ "private var " ++ names.hashField ++ ": Int = 0"

def cacheText (mark : String) : String :=
  mark ++ "private var " ++ names.cacheField ++ ": Image?"

def accessorText : String :=
  "var " ++ names.accessor ++ ": Image? \x7b\n" ++
    block ((accessorLines names step).map ("    " ++ ·)) ++ "\x7d"

end Texts

/-- What stands in front of a field when the marker is asked for. -/
def markText (flag : Json) : String :=
  if flag.isTruthy then "@Transient " else ""

/-- The settings that are standard but for the build target. -/
def targeting (platform : String) : Configuration :=
  { targetPlatform := .text platform }

section Peers

variable (names : Names) (platform : String) (flag : Json) (framework : Framework)

/-- The layout that the standard settings ask for. -/
def imageLayout : Layout :=
  ⟨framework, "Image", "Image", markText flag, "    "⟩

theorem texts_imageLayout : (imageLayout flag framework).texts names =
    [hashText names (markText flag), cacheText names (markText flag),
      accessorText names ⟨framework, .text "Image"⟩] := by
  have hash : (imageLayout flag framework).hashText names = hashText names (markText flag) := by
    rw [← String.toList_inj]
    simp [imageLayout, Layout.hashText, hashText, Names.hashField]
  have cache : (imageLayout flag framework).cacheText names = cacheText names (markText flag) := by
    rw [← String.toList_inj]
    simp [imageLayout, Layout.cacheText, cacheText, Names.cacheField]
  have accessor : (imageLayout flag framework).accessorText names =
      accessorText names ⟨framework, .text "Image"⟩ := by
    have statements_eq : (imageLayout flag framework).statements names =
        getterLines names ⟨framework, .text "Image"⟩ := by
      simp [imageLayout, Layout.statements, Layout.step, getterLines, Names.hashField,
        Names.cacheField, ← String.toList_inj]
    rw [Layout.accessorText_eq, Layout.getter, statements_eq, ← String.toList_inj]
    simp [imageLayout, accessorText, accessorLines, Names.accessor]
  rw [Layout.texts, hash, cache, accessor]

/-- The peers, written out. -/
theorem peers_targeting {names : Names} (oneLine : OnOneLine names) :
    peers (targeting platform) names flag ⟨framework, .text "Image"⟩ =
      .ok [hashText names (markText flag), cacheText names (markText flag),
        accessorText names ⟨framework, .text "Image"⟩] := by
  have marked : markText flag = Layout.markFor (marker (targeting platform) flag) := by
    rw [markText, marker]
    cases flag.isTruthy with
    | false => rfl
    | true => rfl
  have clean : (imageLayout flag framework).OnOneLine := by
    have image : '\n' ∉ "Image".toList := by decide
    refine ⟨image, image, ?_, show '\n' ∉ "    ".toList by decide⟩
    show '\n' ∉ (markText flag).toList
    rw [markText]
    split <;> decide
  have peers_eq : peers (targeting platform) names flag (imageLayout flag framework).step =
      .ok ((imageLayout flag framework).texts names) :=
    Layout.peers_eq_texts rfl marked rfl clean oneLine
  rw [← texts_imageLayout, ← peers_eq]
  rfl

end Peers

end PeerExpansion.CachedProperty
