import PeerExpansion.Proofs.CachedProperty.BuildTarget
import PeerExpansion.Proofs.CachedProperty.Declared
import PeerExpansion.Proofs.Expansion.Interrupted

/-! # Line ends of an expansion

Under the standard settings, what is put into a source are the words of the templates and names from
the source, on lines that end with line feeds. So a source without carriage returns expands to one
without them.
-/

namespace PeerExpansion

open Expander Reading Work

variable {machine sourceName : String} {source : List Char} {stream : TokenStream}
  {declaration : Declaration} {attr : Attribute} {texts : List String}

/-! ## Peers -/

namespace CachedProperty

/-- Nothing of what goes into the peers has a carriage return. -/
structure HasPlainParts (layout : Layout) (names : Names) : Prop where
  resource : '\r' ∉ layout.resource.toList
  wrapper : '\r' ∉ layout.wrapper.toList
  mark : '\r' ∉ layout.mark.toList
  unit : '\r' ∉ layout.unit.toList
  source : '\r' ∉ names.source.toList
  stem : '\r' ∉ names.stem.toList

section Texts

variable {layout : Layout} {names : Names} (plain : HasPlainParts layout names)
include plain

theorem not_mem_accessorText : '\r' ∉ (layout.accessorText names).toList := by
  have binding : '\r' ∉ layout.step.binding.toList := by
    unfold DecodeStep.binding
    split <;> decide
  have decoder : '\r' ∉ layout.step.decoderName.toList := by
    unfold DecodeStep.decoderName
    split <;> decide
  have lines : ∀ line ∈ layout.indentedLines names, '\r' ∉ line.toList := by
    simp [Layout.indentedLines, Layout.accessorLines, plain.source, plain.stem, plain.unit,
      plain.wrapper, plain.resource, binding, decoder]
  rw [Layout.accessorText, String.toList_intercalate]
  exact Text.not_mem_unlines (by decide) (List.forall_mem_map.mpr lines)

theorem not_mem_texts : ∀ text ∈ layout.texts names, '\r' ∉ text.toList := by
  have accessor := not_mem_accessorText plain
  simp [Layout.texts, Layout.hashText, Layout.cacheText, plain.mark, plain.resource, plain.stem,
    accessor]

end Texts

/-- How peers look under the standard settings. -/
def standardStyle : Style :=
  ⟨"Image", "@Transient", false, 4⟩

theorem not_mem_mark (flag : Json) : '\r' ∉ (standardStyle.mark flag).toList := by
  rw [Style.mark]
  split <;> decide

/-- A generator that answers has found the declaration to be right, and has written its peers. -/
theorem not_mem_of_generate {index : Nat} {last : Cursor}
    (scanned : TokenStream.scan source = .ok stream)
    (read : Reads Declaration.read (.ofStream stream index) declaration last)
    (made : (generate machine "ImageCache" {} attr declaration).outcome = .ok texts) :
    ∀ text ∈ texts, '\r' ∉ text.toList := by
  obtain ⟨names, flag, framework, reviewed, -, peers_eq⟩ := exists_framework wellTyped_standard made
  obtain ⟨_, derived, reviewed⟩ := exists_of_bind_eq_ok reviewed
  obtain ⟨_, -, reviewed⟩ := exists_of_bind_eq_ok reviewed
  cases reviewed
  have accepted := accepted_of_derive rfl scanned read derived
  -- The name of the field is one word, and what stands in front of the suffix is part of it.
  have clean : '\r' ∉ names.source.toList :=
    (isIdentifier_iff.mp accepted.identified.source).not_mem rfl (by decide) (by decide)
  have stem : '\r' ∉ names.stem.toList := by
    rw [accepted.source.source_eq, String.toList_append, List.mem_append, not_or] at clean
    exact clean.1
  have described : standardStyle.Describes {} := ⟨rfl, rfl, rfl, rfl⟩
  have fits : standardStyle.Fits := ⟨by decide, by decide, by decide⟩
  obtain ⟨laidOut, -⟩ := Style.peers_laidOut described fits accepted.oneLine flag framework
    (show '\n' ∉ "Image".toList by decide)
  cases peers_eq.symm.trans laidOut
  have image : '\r' ∉ "Image".toList := by decide
  have unit : '\r' ∉ standardStyle.unit.toList := by decide
  exact not_mem_texts ⟨image, image, not_mem_mark flag, unit, clean, stem⟩

end CachedProperty

/-! ## Expansions -/

/-- The peers of a declaration that has been read are made of its words and of those of the
templates. -/
theorem not_mem_peers {index : Nat} {last : Cursor} {results : List (Attribute × ExpansionResult)}
    (scanned : TokenStream.scan source = .ok stream)
    (read : Reads Declaration.read (.ofStream stream index) declaration last)
    (made : ∀ answer ∈ results, IsGenerated machine {} declaration answer) :
    ∀ peer ∈ ExpandedDeclaration.peers ⟨declaration, results⟩, '\r' ∉ peer.toList := by
  intro peer member
  obtain ⟨expansion, expanded, member⟩ := List.mem_flatMap.mp member
  obtain ⟨⟨attr, result⟩, answered, known⟩ := List.mem_filterMap.mp expanded
  cases result with
  | error => cases known
  | ok =>
    cases known
    obtain ⟨texts, generated, peers_eq⟩ := made _ answered _ rfl
    rw [peers_eq] at member
    obtain ⟨text, textMember, rfl⟩ := List.mem_map.mp member
    have absent := CachedProperty.not_mem_of_generate scanned read generated text textMember
    rw [Text.tidy, String.toList_ofList]
    exact Text.not_mem_tidyChars (by decide) absent

/-- No edit of an expansion under the standard settings puts in a carriage return. -/
theorem not_mem_expanded {first last : Workshop} {findings : List Finding}
    (plain : '\r' ∉ source) (scanned : TokenStream.scan source = .ok stream)
    (search : Runs (find (Registry.standard machine) sourceName stream) first findings last)
    (made : ∀ finding ∈ findings, finding.IsGenerated machine {}) :
    '\r' ∉ Edit.applyAll (findings.filterMap (·.edit? stream)) source := by
  obtain ⟨rfl, -⟩ := TokenStream.ordered_of_scan scanned
  obtain ⟨visits, searched⟩ := searched_of_find scanned search
  refine Edit.not_mem_applyAll plain fun edit member => ?_
  obtain ⟨finding, found, edit_eq⟩ := List.mem_filterMap.mp member
  cases finding with
  | unreadable => cases edit_eq
  | declared declaration results =>
    simp only [Finding.edit?] at edit_eq
    split at edit_eq
    next =>
      cases edit_eq
      -- The declaration was read at the place where it was found, so its names are words.
      obtain ⟨⟨index, _, next⟩, visited, rfl⟩ := searched.exists_visit found
      obtain ⟨-, -, sees⟩ := searched.walk.sees _ visited
      cases sees with
      | declared _ read =>
        have peers := not_mem_peers scanned read (made _ found _ _ rfl)
        exact Insertion.not_mem_edit (by decide) plain peers _ _
    next => cases edit_eq

/-- Under the standard settings every source expands, and one without carriage returns expands to
one without them. -/
theorem exists_runs_expand_plain (plain : '\r' ∉ source) (sourceName : String) {first : Workshop}
    (supplied : first.Supplied machine {}) :
    ∃ expansion last, Runs (expand (Registry.standard machine) source sourceName) first expansion
      last ∧ '\r' ∉ expansion.source := by
  cases scanned : TokenStream.scan source with
  | error error => exact ⟨_, first, runs_expand_of_error scanned sourceName first, plain⟩
  | ok stream =>
    have suffix_eq : ({} : Configuration).suffix = .text "Data" := rfl
    have unmisused : ¬∃ declaration, Meets (Registry.standard machine) source declaration ∧
        Misuses machine {} declaration :=
      fun ⟨declaration, _, misuses⟩ =>
        not_misuses_of_wellTyped machine CachedProperty.wellTyped_standard declaration misuses
    obtain ⟨findings, later, search, -, made⟩ :=
      (settles_find suffix_eq scanned first supplied).2 unmisused
    obtain ⟨last, runs⟩ := runs_expand scanned search
    exact ⟨_, last, runs, not_mem_expanded plain scanned search made⟩

end PeerExpansion
