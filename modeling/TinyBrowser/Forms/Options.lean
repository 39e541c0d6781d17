import TinyBrowser.Forms.Controls

/-!
# A select's options

The list of options of a `select` is what one walk over its subtree finds, and it is HTML's
(`selectOptions_eq`). The selectedness setting algorithm of a select writes the slots of the options
in its list and of no other select's (`selected_runSelectednessSetting_of_ne`).
-/

namespace TinyBrowser.Forms
open Lib Text

/-- What the form algorithms write: the options' selectedness slots and dirtiness flags, and for
which selects the selectedness setting algorithm has run since the tree changed. -/
structure Selection where
  selected : BlitzId → Bool
  dirty : BlitzId → Bool
  normalized : BlitzId → Bool

/-- No option selected, and no algorithm run. -/
def Selection.fresh : Selection := ⟨fun _ => false, fun _ => false, fun _ => false⟩

namespace Parsed
variable (doc : Parsed)

/-! ### The list of options -/

/-- Whether the first `select` or `optgroup` above is an `optgroup`. -/
def optgroupAbove : List BlitzId → Bool
  | [] => false
  | p :: above =>
    if doc.isHtmlElement p "select" then false
    else if doc.isHtmlElement p "optgroup" then true
    else optgroupAbove above

def hasOptgroupAncestor (n : BlitzId) : Bool := doc.optgroupAbove (doc.ancestors n)

/-- Whether the walk over a select's descendants goes on below a node. -/
def descends (n : BlitzId) : Bool :=
  match doc.element n with
  | none => true
  | some e =>
    if e.ns ≠ htmlNamespace then true
    else if e.localName ∈ ["select", "hr", "datalist", "option"] then false
    else !(e.localName = "optgroup" ∧ doc.hasOptgroupAncestor n)

/-- The options in a select's list, in the order of the walk, which stops at every other select,
option, `datalist` and `hr` and at an `optgroup` in an `optgroup`. -/
def selectOptions (select : BlitzId) : List BlitzId :=
  (doc.walk (fun n => if doc.descends n then doc.tree.children n else [])
    (doc.tree.children select)).filter (doc.isHtmlElement · "option")

/-- The first `select` above. -/
def optionSelectOwner (n : BlitzId) : Option BlitzId :=
  (doc.ancestors n).find? (doc.isHtmlElement · "select")

/-- Whether there is a disabled `optgroup` before the first `select` above. -/
def disabledOptgroupAbove : List BlitzId → Bool
  | [] => false
  | p :: above =>
    if doc.isHtmlElement p "select" then false
    else if doc.isHtmlElement p "optgroup" ∧ (doc.attr p "disabled").isSome then true
    else disabledOptgroupAbove above

/-- Whether an option is disabled: the option itself or an `optgroup` of its select. -/
def optionDisabled (option : BlitzId) : Bool :=
  (doc.attr option "disabled").isSome || doc.disabledOptgroupAbove (doc.ancestors option)

def selectDisplaySize (select : BlitzId) : Nat :=
  match (doc.attr select "size").bind parseNonNegativeInteger with
  | some size => size
  | none => if (doc.attr select "multiple").isSome then 4 else 1

/-! ### Values -/

/-- What the walk for an option's text goes on below: anything but an HTML or SVG `script`. -/
def textDescends (n : BlitzId) : Bool :=
  match doc.element n with
  | none => false
  | some e => !(eqIgnoreAsciiCase e.localName.toList "script".toList &&
      (e.ns == htmlNamespace || e.ns == "http://www.w3.org/2000/svg"))

def optionText (option : BlitzId) : Text :=
  collapseWhitespace <|
    (doc.walk (fun n => if doc.textDescends n then doc.tree.children n else [])
      (doc.tree.children option)).flatMap fun n => match doc.data n with
        | some (.text content) => content
        | some (.cdataSection contents) => contents
        | _ => []

def optionValue (option : BlitzId) : Text :=
  match doc.attrNoNamespace option "value" with
  | some value => value
  | none => doc.optionText option

/-! ### Selectedness -/

/-- The option of a single select that the algorithm leaves selected: the last selected one, or in a
drop-down the first that is not disabled. -/
def desiredOption (σ : Selection) (select : BlitzId) : Option BlitzId :=
  let options := doc.selectOptions select
  match options.reverse.find? σ.selected with
  | some option => some option
  | none =>
    if doc.selectDisplaySize select = 1 then options.find? fun o => !doc.optionDisabled o else none

/-- The selectedness setting algorithm, run once until the tree changes, and whether it changed a
slot. -/
def runSelectednessSetting (σ : Selection) (select : BlitzId) : Bool × Selection :=
  if σ.normalized select then (false, σ)
  else
    let normalized := Function.update σ.normalized select true
    if (doc.attr select "multiple").isSome then (false, { σ with normalized })
    else
      let options := doc.selectOptions select
      let desired := doc.desiredOption σ select
      (options.any fun o => decide (desired = some o) != σ.selected o,
        { σ with
          selected := options.foldl
            (fun selected o => Function.update selected o (desired = some o)) σ.selected
          normalized })

def effectiveSelectedOptions (σ : Selection) (select : BlitzId) : List BlitzId × Selection :=
  let (_, σ) := doc.runSelectednessSetting σ select
  ((doc.selectOptions select).filter σ.selected, σ)

def selectValue (σ : Selection) (select : BlitzId) : Text × Selection :=
  let (selected, σ) := doc.effectiveSelectedOptions σ select
  (match selected.head? with
    | some option => doc.optionValue option
    | none => [], σ)

/-! ### The list is HTML's -/

/-- Whether `select` is met in the ancestors of a node, with only nodes before it that the list of
options goes on below. -/
def listed (select : BlitzId) : List BlitzId → Bool
  | [] => false
  | p :: above => p = select || (doc.descends p && listed select above)

variable {doc} {σ : Selection} {select other o n : BlitzId} {above : List BlitzId}

theorem not_select_of_descends (h : doc.descends n = true) :
    doc.isHtmlElement n "select" = false := by
  unfold descends at h
  unfold isHtmlElement
  cases he : doc.element n with
  | none => rfl
  | some e =>
    rw [he] at h
    dsimp only at h ⊢
    by_cases hns : e.ns = htmlNamespace
    · rw [if_neg (not_not_intro hns)] at h
      split at h
      · cases h
      · rename_i hmem
        simp only [Bool.and_eq_false_imp, beq_eq_false_iff_ne]
        intro _ hlocal
        exact hmem (by simp [hlocal])
    · simp [hns]

theorem kids_sublist (n : BlitzId) :
    (if doc.descends n then doc.tree.children n else []).Sublist (doc.tree.children n) := by
  split
  · exact List.Sublist.refl _
  · exact List.nil_sublist _

theorem mem_walk_iff :
    n ∈ doc.walk (fun n => if doc.descends n then doc.tree.children n else [])
      (doc.tree.children select) ↔ doc.listed select (doc.ancestors n) = true := by
  constructor
  · refine forall_mem_walk (P := fun n => doc.listed select (doc.ancestors n) = true) ?_ ?_ n
    · intro x hx c hc
      split at hc
      · rename_i hdescends
        rw [doc.ancestors_of_parent (doc.tree.mem_children.1 hc), listed, hdescends, hx]
        simp
      · cases hc
    · intro c hc
      rw [doc.ancestors_of_parent (doc.tree.mem_children.1 hc), listed]
      simp
  · intro h
    obtain ⟨hmem, hnext⟩ := Forest.mem_walk_of_mem (f := doc.tree) kids_sublist
      (doc.length_below_le select)
    induction n using doc.tree.induction_up with
    | root n hn =>
      rw [doc.ancestors_of_root hn] at h
      cases h
    | child n p hp ih =>
      rw [doc.ancestors_of_parent hp, listed, Bool.or_eq_true, Bool.and_eq_true,
        decide_eq_true_eq] at h
      rcases h with rfl | ⟨hdescends, h⟩
      · exact hmem n (doc.tree.mem_children.2 hp)
      · refine hnext p (ih h) n ?_
        rw [if_pos hdescends]
        exact doc.tree.mem_children.2 hp

theorem mem_selectOptions : o ∈ doc.selectOptions select ↔
    doc.listed select (doc.ancestors o) = true ∧ doc.isHtmlElement o "option" = true := by
  rw [selectOptions, List.mem_filter, mem_walk_iff]

theorem selectOptions_sublist (select : BlitzId) :
    (doc.selectOptions select).Sublist (doc.tree.preorder select) := by
  have hwalk : (doc.walk (fun n => if doc.descends n then doc.tree.children n else [])
      (doc.tree.children select)).Sublist
        ((doc.tree.children select).flatMap doc.tree.preorder) :=
    Forest.walk_sublist kids_sublist _
  rw [Forest.preorder_eq]
  exact (List.filter_sublist.trans hwalk).cons _

theorem selectOptions_eq (select : BlitzId) : doc.selectOptions select =
    (doc.tree.preorder select).filter fun o =>
      doc.listed select (doc.ancestors o) && doc.isHtmlElement o "option" := by
  rw [eq_filter_of_sublist (selectOptions_sublist select) (doc.tree.nodup_preorder select)]
  refine List.filter_congr fun o _ => ?_
  rw [Bool.eq_iff_iff, decide_eq_true_eq, mem_selectOptions, Bool.and_eq_true]

theorem nodup_selectOptions (select : BlitzId) : (doc.selectOptions select).Nodup :=
  (doc.tree.nodup_preorder select).sublist (selectOptions_sublist select)

/-- The options of a select's list have it as the first `select` above. -/
theorem optionSelectOwner_of_mem (hselect : doc.isHtmlElement select "select" = true)
    (h : o ∈ doc.selectOptions select) : doc.optionSelectOwner o = some select := by
  have hfind : ∀ above, doc.listed select above = true →
      above.find? (doc.isHtmlElement · "select") = some select := by
    intro above h
    induction above with
    | nil => cases h
    | cons p above ih =>
      rw [listed, Bool.or_eq_true, Bool.and_eq_true, decide_eq_true_eq] at h
      rcases h with rfl | ⟨hdescends, h⟩
      · exact List.find?_cons_of_pos hselect
      · rw [List.find?_cons_of_neg (by simp [not_select_of_descends hdescends])]
        exact ih h
  exact hfind _ (mem_selectOptions.1 h).1

theorem not_mem_selectOptions (hselect : doc.isHtmlElement select "select" = true)
    (hother : doc.isHtmlElement other "select" = true) (hne : select ≠ other)
    (h : o ∈ doc.selectOptions select) : o ∉ doc.selectOptions other := by
  intro ho
  have howner := optionSelectOwner_of_mem hselect h
  rw [optionSelectOwner_of_mem hother ho, Option.some.injEq] at howner
  exact hne howner.symm

/-! ### Two notions of disabled -/

theorem disabledAbove_eq (hselect : doc.isHtmlElement select "select" = true)
    (henabled : (doc.attr select "disabled").isSome = false)
    (h : doc.listed select above = true) :
    doc.disabledAbove above = doc.disabledOptgroupAbove above := by
  induction above with
  | nil => cases h
  | cons p above ih =>
    rw [listed, Bool.or_eq_true, Bool.and_eq_true, decide_eq_true_eq] at h
    rw [disabledAbove, disabledOptgroupAbove]
    rcases h with rfl | ⟨hdescends, h⟩
    · rw [if_pos hselect]
      unfold isHtmlElement at hselect
      cases he : doc.element p with
      | none =>
        rw [he] at hselect
        cases hselect
      | some e =>
        rw [he] at hselect
        simp only [Bool.and_eq_true, beq_iff_eq] at hselect
        simp [hselect.1, hselect.2, henabled]
    · have hnot := not_select_of_descends hdescends
      rw [ih h, hnot]
      unfold isHtmlElement at hnot ⊢
      cases he : doc.element p with
      | none => simp
      | some e =>
        rw [he] at hnot
        by_cases hns : e.ns = htmlNamespace
        · have hlocal : e.localName ≠ "select" := by simpa [hns] using hnot
          simp [hns, hlocal]
        · simp [hns]

/-- What `is_disabled` says of a listed option of an enabled select. -/
theorem isDisabled_option (hselect : doc.isHtmlElement select "select" = true)
    (henabled : doc.isDisabled select = false) (h : o ∈ doc.selectOptions select) :
    doc.isDisabled o = (doc.optionDisabled o || doc.disabledByFieldset o) := by
  obtain ⟨hlisted, hoption⟩ := mem_selectOptions.1 h
  have hattr : (doc.attr select "disabled").isSome = false := by
    unfold isDisabled at henabled
    split at henabled
    · cases henabled
    · rename_i hor
      rw [Bool.not_eq_true, Bool.or_eq_false_iff] at hor
      exact hor.1
  rw [isDisabled, optionDisabled, hoption, disabledAbove_eq hselect hattr hlisted]
  cases (doc.attr o "disabled").isSome <;> cases doc.disabledByFieldset o <;> simp

/-! ### Selects apart -/

variable {τ : Selection}

/-- What the algorithm would select depends on the slots of the list only. -/
theorem desiredOption_congr
    (h : ∀ o ∈ doc.selectOptions select, σ.selected o = τ.selected o) :
    doc.desiredOption σ select = doc.desiredOption τ select := by
  have hfind : (doc.selectOptions select).reverse.find? σ.selected =
      (doc.selectOptions select).reverse.find? τ.selected := by
    rw [← List.head?_filter, ← List.head?_filter]
    exact congrArg List.head? (List.filter_congr fun o ho => h o (List.mem_reverse.1 ho))
  rw [desiredOption, desiredOption, hfind]

theorem foldl_update_of_not_mem {options : List BlitzId} {selected value : BlitzId → Bool}
    (h : o ∉ options) :
    options.foldl (fun selected o => Function.update selected o (value o)) selected o =
      selected o := by
  induction options generalizing selected with
  | nil => rfl
  | cons p options ih =>
    rw [List.mem_cons, not_or] at h
    rw [List.foldl_cons, ih h.2, Function.update_of_ne h.1]

theorem foldl_update_of_mem {options : List BlitzId} {selected : BlitzId → Bool}
    (value : BlitzId → Bool) (h : o ∈ options) :
    options.foldl (fun selected o => Function.update selected o (value o)) selected o = value o := by
  induction options generalizing selected with
  | nil => cases h
  | cons p options ih =>
    rw [List.foldl_cons]
    by_cases ho : o ∈ options
    · exact ih ho
    · obtain rfl := (List.mem_cons.1 h).resolve_right ho
      rw [foldl_update_of_not_mem ho, Function.update_self]

theorem runSelectednessSetting_of_normalized (h : σ.normalized select = true) :
    doc.runSelectednessSetting σ select = (false, σ) := by
  rw [runSelectednessSetting, if_pos h]

theorem runSelectednessSetting_of_multiple (h : σ.normalized select = false)
    (hmultiple : (doc.attr select "multiple").isSome = true) :
    doc.runSelectednessSetting σ select =
      (false, { σ with normalized := Function.update σ.normalized select true }) := by
  rw [runSelectednessSetting, if_neg (by simp [h])]
  dsimp only
  rw [if_pos hmultiple]

theorem selected_of_single (h : σ.normalized select = false)
    (hsingle : (doc.attr select "multiple").isSome = false) (ho : o ∈ doc.selectOptions select) :
    (doc.runSelectednessSetting σ select).2.selected o =
      decide (doc.desiredOption σ select = some o) := by
  rw [runSelectednessSetting, if_neg (by simp [h])]
  dsimp only
  rw [if_neg (by simp [hsingle])]
  exact foldl_update_of_mem (fun o => decide (doc.desiredOption σ select = some o)) ho

theorem selected_runSelectednessSetting (h : o ∉ doc.selectOptions select) :
    (doc.runSelectednessSetting σ select).2.selected o = σ.selected o := by
  unfold runSelectednessSetting
  split
  · rfl
  · dsimp only
    split
    · rfl
    · exact foldl_update_of_not_mem h

theorem normalized_runSelectednessSetting (h : other ≠ select) :
    (doc.runSelectednessSetting σ select).2.normalized other = σ.normalized other := by
  unfold runSelectednessSetting
  split
  · rfl
  · dsimp only
    split <;> exact Function.update_of_ne h _ _

/-- Two states are the same for a select. -/
structure SameFor (doc : Parsed) (select : BlitzId) (σ τ : Selection) : Prop where
  selected : ∀ o ∈ doc.selectOptions select, σ.selected o = τ.selected o
  normalized : σ.normalized select = τ.normalized select

theorem SameFor.trans {τ υ : Selection} (h : SameFor doc select σ τ) (h' : SameFor doc select τ υ) :
    SameFor doc select σ υ :=
  ⟨fun o ho => (h.selected o ho).trans (h'.selected o ho), h.normalized.trans h'.normalized⟩

theorem SameFor.of_run (hselect : doc.isHtmlElement select "select" = true)
    (hother : doc.isHtmlElement other "select" = true) (hne : select ≠ other) (σ : Selection) :
    SameFor doc select σ (doc.runSelectednessSetting σ other).2 where
  selected _ ho :=
    (selected_runSelectednessSetting (not_mem_selectOptions hselect hother hne ho)).symm
  normalized := (normalized_runSelectednessSetting hne).symm

theorem SameFor.run (h : SameFor doc select σ τ) :
    ∀ o ∈ doc.selectOptions select, (doc.runSelectednessSetting σ select).2.selected o =
      (doc.runSelectednessSetting τ select).2.selected o := by
  intro o ho
  have hdesired := desiredOption_congr h.selected
  cases hn : σ.normalized select with
  | true =>
    rw [runSelectednessSetting_of_normalized hn,
      runSelectednessSetting_of_normalized (h.normalized ▸ hn)]
    exact h.selected o ho
  | false =>
    have hn' : τ.normalized select = false := h.normalized ▸ hn
    cases hm : (doc.attr select "multiple").isSome with
    | true =>
      rw [runSelectednessSetting_of_multiple hn hm, runSelectednessSetting_of_multiple hn' hm]
      exact h.selected o ho
    | false => rw [selected_of_single hn hm ho, selected_of_single hn' hm ho, hdesired]

theorem SameFor.effectiveSelectedOptions (h : SameFor doc select σ τ) :
    (doc.effectiveSelectedOptions σ select).1 = (doc.effectiveSelectedOptions τ select).1 :=
  List.filter_congr h.run

end Parsed

end TinyBrowser.Forms
