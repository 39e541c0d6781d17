import TinyBrowser.Forms.Entries
import TinyBrowser.Lib.Tagged

/-!
# The entry list in tree order

HTML's entry list has the contributions of the controls in tree order, a `select`'s being one entry
for each of its selected options that is not disabled. `collectEntries_eq_iff` says for which trees
and states the source's list is this one: no `_charset_` input may stand after another control that
contributes, and a `select` without `multiple` must have one such option.
-/

namespace TinyBrowser.Forms
open Lib Text

namespace Parsed

/-! ### HTML's list -/

section
variable (isAlphabetic : Char → Bool) (doc : Parsed) (σ : Selection) (form : NodeId)
  (submitter : Option NodeId)

/-- The controls that the entry list asks, in tree order. -/
def controls : List Control :=
  (doc.tree.preorder (doc.tree.top form.node)).filterMap (doc.submittable form submitter)

def listOfOptions (select : BlitzId) : List BlitzId :=
  (doc.tree.preorder select).filter fun o =>
    doc.listed select (doc.ancestors o) && doc.isHtmlElement o "option"

/-- The options that are selected once the selectedness setting algorithm has run. -/
def selectedOptions (select : BlitzId) : List BlitzId :=
  (doc.listOfOptions select).filter (doc.runSelectednessSetting σ select).2.selected

def enabledOptions (select : BlitzId) : List BlitzId :=
  (doc.selectedOptions σ select).filter fun o => !doc.optionDisabled o

def htmlContribution (c : Control) : List PendingEntry :=
  if doc.isCharset c then [.text c.name "UTF-8".toList]
  else if c.kind = .select then
    (doc.enabledOptions σ c.node).map fun o => .text c.name (doc.optionValue o)
  else (doc.pendingEntry isAlphabetic σ c (doc.isSubmitter submitter c.node)).1

/-- HTML's entry list, each entry with its control. -/
def htmlEntries : List (Control × PendingEntry) :=
  (doc.controls form submitter).flatMap (tagged (doc.htmlContribution isAlphabetic σ submitter))

/-- Whether HTML has a control contribute. -/
def contributes (c : Control) : Bool :=
  match c.kind with
  | .textarea => true
  | .button => doc.isSubmitter submitter c.node
  | .select => !(doc.enabledOptions σ c.node).isEmpty
  | .input => match (doc.inputType c.node).getD .text with
    | .reset | .button => false
    | .submit | .image => doc.isSubmitter submitter c.node
    | .checkbox | .radio => match doc.element c.node with
      | some e => e.checkedness
      | none => false
    | _ => true

/-- What the controls and options of a form have to be for the source's list to be HTML's. -/
structure SubmitsAsHtml : Prop where
  charset : (doc.controls form submitter).Pairwise fun c d =>
    doc.isCharset d = true → doc.isCharset c = false → doc.contributes σ submitter c = false
  single : ∀ c ∈ doc.controls form submitter, c.kind = .select →
    (doc.attr c.node "multiple").isSome = false →
    ∃ first o, (doc.selectedOptions σ c.node).head? = some first ∧
      doc.enabledOptions σ c.node = [o] ∧ doc.optionValue first = doc.optionValue o
  multiple : ∀ c ∈ doc.controls form submitter, c.kind = .select →
    (doc.attr c.node "multiple").isSome = true →
    ∀ o ∈ doc.enabledOptions σ c.node, doc.disabledByFieldset o = false

end

/-! ### The source's list -/

variable {isAlphabetic : Char → Bool} {doc : Parsed} {σ τ : Selection} {form : NodeId}
  {submitter : Option NodeId} {c d : Control} {n : BlitzId}

theorem listOfOptions_eq (doc : Parsed) (select : BlitzId) :
    doc.listOfOptions select = doc.selectOptions select :=
  (selectOptions_eq select).symm

theorem of_submittable (h : doc.submittable form submitter n = some c) :
    c.node = n ∧ doc.isHtmlElement n c.kind.localName = true ∧ doc.isDisabled n = false := by
  unfold submittable at h
  split at h
  · cases h
  · rename_i e he
    split at h
    · cases h
    · rename_i hns
      split at h
      · cases h
      · rename_i kind hkind
        split at h
        · cases h
        · dsimp only at h
          split at h
          · cases h
          · rename_i hor
            obtain rfl := Option.some.inj h
            have hlocal := List.find?_some hkind
            simp only [Bool.or_eq_true, not_or, Bool.not_eq_true] at hor
            refine ⟨rfl, ?_, hor.1.2⟩
            rw [isHtmlElement, he]
            simp only [Bool.and_eq_true, beq_iff_eq]
            exact ⟨not_not.1 hns, (beq_iff_eq.1 hlocal).symm⟩

theorem of_mem_controls (h : c ∈ doc.controls form submitter) :
    doc.isHtmlElement c.node c.kind.localName = true ∧ doc.isDisabled c.node = false := by
  obtain ⟨n, -, hn⟩ := List.mem_filterMap.1 h
  obtain ⟨rfl, hrest⟩ := of_submittable hn
  exact hrest

theorem pairwise_controls : (doc.controls form submitter).Pairwise fun c d => c.node ≠ d.node := by
  rw [controls, List.pairwise_filterMap]
  refine (doc.tree.nodup_preorder _).imp fun {n m} hnm c hc d hd heq => hnm ?_
  rw [← (of_submittable hc).1, ← (of_submittable hd).1, heq]

theorem nodup_controls : (doc.controls form submitter).Nodup :=
  pairwise_controls.imp fun hne heq => hne (congrArg Control.node heq)

theorem foldl_walkStep (nodes : List BlitzId) (pending : List (Control × PendingEntry))
    (controls : List Control) :
    nodes.foldl (doc.walkStep form submitter) (pending, controls) =
      (pending ++ ((nodes.filterMap (doc.submittable form submitter)).filter doc.isCharset).map
          fun c => (c, .text c.name "UTF-8".toList),
        controls ++ (nodes.filterMap (doc.submittable form submitter)).filter
          fun c => !doc.isCharset c) := by
  induction nodes generalizing pending controls with
  | nil => simp
  | cons n nodes ih =>
    rw [List.foldl_cons, walkStep]
    cases hn : doc.submittable form submitter n with
    | none =>
      rw [List.filterMap_cons_none hn]
      exact ih pending controls
    | some c =>
      rw [List.filterMap_cons_some hn]
      cases hc : doc.isCharset c with
      | true => simp [ih, hc]
      | false => simp [ih, hc]

theorem pendingEntry_congr (isSubmitter : Bool) (h : c.kind = .select → SameFor doc c.node σ τ) :
    (doc.pendingEntry isAlphabetic σ c isSubmitter).1 =
      (doc.pendingEntry isAlphabetic τ c isSubmitter).1 := by
  unfold pendingEntry
  cases hk : c.kind with
  | textarea => rfl
  | button => rfl
  | input => rfl
  | select =>
    have hselected := (h hk).effectiveSelectedOptions
    have hentries : (doc.selectEntries σ c).1 = (doc.selectEntries τ c).1 := by
      unfold selectEntries selectValue
      split <;> simp only [hselected]
    simp only [hentries]

theorem sameFor_pendingEntry (isSubmitter : Bool) (hd : doc.isHtmlElement d.node "select" = true)
    (hc : c.kind = .select → doc.isHtmlElement c.node "select" = true) (hne : d.node ≠ c.node) :
    SameFor doc d.node σ (doc.pendingEntry isAlphabetic σ c isSubmitter).2 := by
  have hrefl : SameFor doc d.node σ σ := ⟨fun _ _ => rfl, rfl⟩
  unfold pendingEntry
  cases hk : c.kind with
  | textarea => exact hrefl
  | button => exact hrefl
  | input => exact hrefl
  | select =>
    have hstate : (doc.selectEntries σ c).2 = (doc.runSelectednessSetting σ c.node).2 := by
      unfold selectEntries selectValue effectiveSelectedOptions
      split <;> rfl
    dsimp only
    rw [hstate]
    exact SameFor.of_run hd (hc hk) hne σ

/-- What a control contributes in the source. -/
def contribution (isAlphabetic : Char → Bool) (doc : Parsed) (σ : Selection)
    (submitter : Option NodeId) (c : Control) : List PendingEntry :=
  if doc.isCharset c then [.text c.name "UTF-8".toList]
  else (doc.pendingEntry isAlphabetic σ c (doc.isSubmitter submitter c.node)).1

theorem contribute_eq {controls : List Control} {pending : List (Control × PendingEntry)}
    (hcharset : ∀ c ∈ controls, doc.isCharset c = false)
    (hselect : ∀ c ∈ controls, c.kind = .select → doc.isHtmlElement c.node "select" = true)
    (hne : controls.Pairwise fun c d => c.node ≠ d.node)
    (hsame : ∀ c ∈ controls, c.kind = .select → SameFor doc c.node σ τ) :
    (doc.contribute isAlphabetic submitter controls pending τ).1 =
      pending ++ controls.flatMap (tagged (contribution isAlphabetic doc σ submitter)) := by
  induction controls generalizing pending τ with
  | nil => simp [contribute]
  | cons c controls ih =>
    obtain ⟨hc, hne⟩ := List.pairwise_cons.1 hne
    have hmem : ∀ d ∈ controls, d ∈ c :: controls := fun d hd => List.mem_cons_of_mem c hd
    have hentries : (doc.pendingEntry isAlphabetic τ c (doc.isSubmitter submitter c.node)).1 =
        contribution isAlphabetic doc σ submitter c := by
      rw [contribution, hcharset c List.mem_cons_self, if_neg Bool.false_ne_true]
      exact (pendingEntry_congr _ (hsame c List.mem_cons_self)).symm
    rw [contribute, List.flatMap_cons]
    dsimp only
    rw [ih (fun d hd => hcharset d (hmem d hd)) (fun d hd => hselect d (hmem d hd)) hne, hentries,
      List.append_assoc, tagged]
    intro d hd hk
    exact (hsame d (hmem d hd) hk).trans (sameFor_pendingEntry _ (hselect d (hmem d hd) hk)
      (hselect c List.mem_cons_self) (hc d hd).symm)

/-- The `_charset_` inputs contribute before all other controls. -/
theorem collectEntries_eq : (doc.collectEntries isAlphabetic σ form submitter).1 =
    hoisted doc.isCharset (contribution isAlphabetic doc σ submitter)
      (doc.controls form submitter) := by
  rw [collectEntries, walk_children, rootAbove_eq, foldl_walkStep]
  have hlast : (doc.contribute isAlphabetic submitter
      ((doc.controls form submitter).filter fun c => !doc.isCharset c)
      (((doc.controls form submitter).filter doc.isCharset).map
        fun c => (c, .text c.name "UTF-8".toList)) σ).1 = _ :=
    contribute_eq (τ := σ) (fun c hc => by simpa using (List.mem_filter.1 hc).2)
      (fun c hc hk => by
        have hhtml := (of_mem_controls (List.mem_filter.1 hc).1).1
        rwa [hk] at hhtml)
      (pairwise_controls.filter _) (fun _ _ _ => ⟨fun _ _ => rfl, rfl⟩)
  refine hlast.trans ?_
  rw [hoisted]
  congr 1
  have htagged : ∀ c ∈ (doc.controls form submitter).filter doc.isCharset,
      tagged (contribution isAlphabetic doc σ submitter) c = [(c, .text c.name "UTF-8".toList)] := by
    intro c hc
    rw [tagged, contribution, if_pos (List.mem_filter.1 hc).2]
    rfl
  rw [List.flatMap_def, List.map_congr_left htagged, ← List.flatMap_def, List.map_eq_flatMap]

/-! ### The contributions -/

theorem isCharset_select (h : c.kind = .select) : doc.isCharset c = false := by
  simp [isCharset, h]

theorem pendingEntry_select (h : c.kind = .select) (isSubmitter : Bool) :
    (doc.pendingEntry isAlphabetic σ c isSubmitter).1 = (doc.selectEntries σ c).1 := by
  have hdirname : doc.dirnameEntry isAlphabetic c = none := by
    unfold dirnameEntry dirnameValue
    rw [h]
    split
    · rfl
    · split <;> rfl
  rw [pendingEntry, hdirname]
  simp only [h, Option.toList_none, List.append_nil]
  split
  · rename_i hnil
    exact hnil.symm
  · rfl

theorem pendingEntry_eq_nil (isSubmitter : Bool) :
    (doc.pendingEntry isAlphabetic σ c isSubmitter).1 = [] ↔
      (match c.kind with
        | .textarea => doc.textareaEntries c
        | .button => doc.buttonEntries c isSubmitter
        | .input => doc.inputEntries c isSubmitter
        | .select => (doc.selectEntries σ c).1) = [] := by
  have hif : ∀ entries more : List PendingEntry,
      (if entries = [] then [] else entries ++ more) = [] ↔ entries = [] := by
    intro entries more
    split <;> simp_all
  unfold pendingEntry
  cases c.kind <;> dsimp only <;> exact hif _ _

theorem htmlContribution_eq_nil (hc : doc.isCharset c = false) :
    doc.htmlContribution isAlphabetic σ submitter c = [] ↔ doc.contributes σ submitter c = false := by
  rw [htmlContribution, hc, if_neg Bool.false_ne_true]
  unfold contributes
  by_cases hk : c.kind = .select
  · rw [if_pos hk, List.map_eq_nil_iff, hk]
    simp
  · rw [if_neg hk, pendingEntry_eq_nil]
    cases hkind : c.kind with
    | select => exact absurd hkind hk
    | textarea => simp [textareaEntries]
    | button => simp [buttonEntries]
    | input =>
      dsimp only
      unfold inputEntries
      generalize (doc.inputType c.node).getD .text = kind
      cases kind <;> dsimp only <;> try simp
      all_goals
        cases doc.element c.node <;> simp

theorem selectEntries_multiple (h : (doc.attr c.node "multiple").isSome = true) :
    (doc.selectEntries σ c).1 = ((doc.selectedOptions σ c.node).filter fun o =>
      !doc.isDisabled o).map fun o => .text c.name (doc.optionValue o) := by
  rw [selectEntries, if_pos h, selectedOptions, listOfOptions_eq]
  rfl

theorem selectEntries_single (h : (doc.attr c.node "multiple").isSome = false) :
    (doc.selectEntries σ c).1 = [.text c.name (match (doc.selectedOptions σ c.node).head? with
      | some option => doc.optionValue option
      | none => [])] := by
  rw [selectEntries, if_neg (by simp [h]), selectedOptions, listOfOptions_eq]
  rfl

theorem entries_multiple_iff (hc : c ∈ doc.controls form submitter) (hk : c.kind = .select)
    (h : (doc.attr c.node "multiple").isSome = true) :
    (doc.selectEntries σ c).1 = ((doc.enabledOptions σ c.node).map fun o =>
        .text c.name (doc.optionValue o)) ↔
      ∀ o ∈ doc.enabledOptions σ c.node, doc.disabledByFieldset o = false := by
  obtain ⟨hhtml, hdisabled⟩ := of_mem_controls hc
  rw [hk] at hhtml
  have hboth : ((doc.selectedOptions σ c.node).filter fun o => !doc.isDisabled o) =
      (doc.enabledOptions σ c.node).filter fun o => !doc.disabledByFieldset o := by
    rw [enabledOptions, List.filter_filter]
    refine List.filter_congr fun o ho => ?_
    have hmem : o ∈ doc.selectOptions c.node :=
      listOfOptions_eq doc c.node ▸ (List.mem_filter.1 ho).1
    rw [isDisabled_option hhtml hdisabled hmem, Bool.not_or, Bool.and_comm]
  rw [selectEntries_multiple h, hboth]
  constructor
  · intro heq
    have hlength := congrArg List.length heq
    rw [List.length_map, List.length_map] at hlength
    intro o ho
    simpa using List.length_filter_eq_length_iff.1 hlength o ho
  · intro hall
    rw [List.filter_eq_self.2 fun o ho => by simp [hall o ho]]

theorem entries_single_iff (h : (doc.attr c.node "multiple").isSome = false) :
    (doc.selectEntries σ c).1 = ((doc.enabledOptions σ c.node).map fun o =>
        .text c.name (doc.optionValue o)) ↔
      ∃ first o, (doc.selectedOptions σ c.node).head? = some first ∧
        doc.enabledOptions σ c.node = [o] ∧ doc.optionValue first = doc.optionValue o := by
  rw [selectEntries_single h, eq_comm, List.map_eq_singleton_iff]
  constructor
  · rintro ⟨o, ho, hvalue⟩
    have hmem : o ∈ doc.selectedOptions σ c.node :=
      (List.mem_filter.1 (ho ▸ List.mem_singleton_self o : o ∈ doc.enabledOptions σ c.node)).1
    cases hfirst : (doc.selectedOptions σ c.node).head? with
    | none =>
      rw [List.head?_eq_none_iff] at hfirst
      rw [hfirst] at hmem
      cases hmem
    | some first =>
      rw [hfirst] at hvalue
      exact ⟨first, o, rfl, ho, (PendingEntry.text.inj hvalue).2.symm⟩
  · rintro ⟨first, o, hfirst, ho, hvalue⟩
    refine ⟨o, ho, ?_⟩
    rw [hfirst, ← hvalue]

theorem contribution_eq_iff (hc : c ∈ doc.controls form submitter) :
    contribution isAlphabetic doc σ submitter c = doc.htmlContribution isAlphabetic σ submitter c ↔
      c.kind = .select →
        ((doc.attr c.node "multiple").isSome = false →
          ∃ first o, (doc.selectedOptions σ c.node).head? = some first ∧
            doc.enabledOptions σ c.node = [o] ∧ doc.optionValue first = doc.optionValue o) ∧
        ((doc.attr c.node "multiple").isSome = true →
          ∀ o ∈ doc.enabledOptions σ c.node, doc.disabledByFieldset o = false) := by
  by_cases hk : c.kind = .select
  · rw [contribution, htmlContribution, isCharset_select hk, if_neg Bool.false_ne_true,
      if_neg Bool.false_ne_true, if_pos hk, pendingEntry_select hk]
    cases hm : (doc.attr c.node "multiple").isSome with
    | true => simp [entries_multiple_iff hc hk hm, hk]
    | false => simp [entries_single_iff hm, hk]
  · rw [contribution, htmlContribution, if_neg hk]
    simp [hk]

theorem ownersInOrder_iff :
    InOrder doc.isCharset (doc.htmlContribution isAlphabetic σ submitter)
        (doc.controls form submitter) ↔
      (doc.controls form submitter).Pairwise fun c d =>
        doc.isCharset d = true → doc.isCharset c = false → doc.contributes σ submitter c = false := by
  refine List.Pairwise.iff fun c d => ?_
  refine imp_congr_right fun hd => imp_congr_right fun hc => ?_
  have hne : doc.htmlContribution isAlphabetic σ submitter d ≠ [] := by
    rw [htmlContribution, if_pos hd]
    exact List.cons_ne_nil _ _
  rw [← @htmlContribution_eq_nil isAlphabetic doc σ submitter c hc]
  exact or_iff_left hne

/-- The entries are HTML's, each with its control, for these trees and states and no others. -/
theorem collectEntries_eq_iff (isAlphabetic : Char → Bool) (doc : Parsed) (σ : Selection)
    (form : NodeId) (submitter : Option NodeId) :
    (doc.collectEntries isAlphabetic σ form submitter).1 =
      doc.htmlEntries isAlphabetic σ form submitter ↔ doc.SubmitsAsHtml σ form submitter := by
  rw [collectEntries_eq, htmlEntries, hoisted_eq_iff nodup_controls, ownersInOrder_iff]
  constructor
  · rintro ⟨hcontribution, hcharset⟩
    exact {
      charset := hcharset
      single := fun c hc hk => ((contribution_eq_iff hc).1 (hcontribution c hc) hk).1
      multiple := fun c hc hk => ((contribution_eq_iff hc).1 (hcontribution c hc) hk).2 }
  · intro h
    exact ⟨fun c hc => (contribution_eq_iff hc).2 fun hk => ⟨h.single c hc hk, h.multiple c hc hk⟩,
      h.charset⟩

/-- A form with a text input and a `_charset_` input after it. -/
def charsetLast : Parsed where
  id := 0
  tree := Forest.star 1 [2, 3] (by decide) (by decide)
  data
    | 0 => some .other
    | 1 => some (.element ⟨htmlNamespace, "form", [], [], false, false⟩)
    | 2 => some (.element ⟨htmlNamespace, "input", [⟨"", "name", "a".toList⟩], "b".toList, false,
        false⟩)
    | 3 => some (.element ⟨htmlNamespace, "input", [⟨"", "type", "hidden".toList⟩,
        ⟨"", "name", "_charset_".toList⟩], [], false, false⟩)
    | _ => none
  nodes := [0, 1, 2, 3]
  mem_nodes n h := by
    match n with
    | 0 | 1 | 2 | 3 => simp
    | _ + 4 => cases h
  data_of_parent c p h := by
    match c with
    | 0 | 1 | 2 | 3 => rfl
    | _ + 4 => simp [Forest.star] at h
  rootNode := 0
  disabledByFieldset _ := false

/-- Its entry for the encoding comes first. -/
theorem collectPendingEntries_charsetLast :
    (charsetLast.collectPendingEntries (fun _ => false) .fresh ⟨0, 1⟩ none).1 ≠
      (charsetLast.htmlEntries (fun _ => false) .fresh ⟨0, 1⟩ none).map (·.2) := by
  rw [htmlEntries, controls, ← rootAbove_eq, ← walk_children]
  decide +kernel

end Parsed

end TinyBrowser.Forms
