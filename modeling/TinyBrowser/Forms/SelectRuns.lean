import TinyBrowser.Forms.Selectedness

/-!
# Selectedness over runs

A run is a sequence of the operations of `Selectedness`, each after the change of the tree or of an
attribute that it answers, with readers in between. `Change` says what such a change leaves alone;
`Run` also keeps, for one select, which operation addressed it last and which option script has
selected in it since anything else could select or deselect one. `settled_of_run` is what holds of
the select in every state reached.
-/

namespace TinyBrowser.Forms
open Lib Text Parsed

structure World where
  doc : Parsed
  sel : Selection

inductive Op where
  | optionsInserted (options : List BlitzId)
  | setOptionSelected (o : BlitzId) (selected : Bool)
  | setSelectedIndex (select : BlitzId) (value : Int)
  | setValue (select : BlitzId) (value : Text)
  | selectedAttributeChanged (o : BlitzId)
  | selectAttributeChanged (select : BlitzId) (localName : String)
  | reset (select : BlitzId)
deriving DecidableEq

namespace Op

def perform (doc : Parsed) (σ : Selection) : Op → Selection
  | optionsInserted options => doc.optionsInserted σ options
  | setOptionSelected o selected => doc.setOptionSelected σ o selected
  | setSelectedIndex select value => doc.setSelectSelectedIndexValue σ select value
  | setValue select value => doc.setSelectValueSelectedness σ select value
  | selectedAttributeChanged o => doc.optionSelectedAttributeChanged σ o
  | selectAttributeChanged select localName => doc.selectAttributeChanged σ select localName
  | reset select => doc.resetSelectSelectedness σ select

/-- Whether an operation is about a select: the one it names, or the first above an option it names. -/
def addresses (doc : Parsed) (select : BlitzId) : Op → Bool
  | optionsInserted options => options.any fun o => doc.optionSelectOwner o == some select
  | setOptionSelected o _ | selectedAttributeChanged o => doc.optionSelectOwner o == some select
  | setSelectedIndex other _ | setValue other _ | selectAttributeChanged other _ | reset other =>
    other == select

def isSetter : Op → Bool
  | setSelectedIndex .. | setValue .. => true
  | _ => false

/-- The options that the change before an operation brings into the tree. -/
def inserted : Op → List BlitzId
  | optionsInserted options => options
  | _ => []

end Op

/-- The nodes were taken out of a select by `unlink_journaled`, which drops the mark; the rest of the
list is as it was. -/
structure Thinned (select : BlitzId) (w w' : World) : Prop where
  options : (w'.doc.selectOptions select).Sublist (w.doc.selectOptions select)
  single : w'.doc.isSingle select = w.doc.isSingle select
  size : w'.doc.selectDisplaySize select = w.doc.selectDisplaySize select
  disabled : ∀ o ∈ w'.doc.selectOptions select, w'.doc.optionDisabled o = w.doc.optionDisabled o
  selected : ∀ o ∈ w'.doc.selectOptions select, w'.sel.selected o = w.sel.selected o
  marked : w'.sel.normalized select = true →
    w.sel.normalized select = true ∧ w'.doc.selectOptions select = w.doc.selectOptions select

/-- A select has the same list, rules and slots in two states. -/
structure Alike (select : BlitzId) (w w' : World) : Prop where
  options : w'.doc.selectOptions select = w.doc.selectOptions select
  single : w'.doc.isSingle select = w.doc.isSingle select
  size : w'.doc.selectDisplaySize select = w.doc.selectDisplaySize select
  disabled : ∀ o ∈ w.doc.selectOptions select, w'.doc.optionDisabled o = w.doc.optionDisabled o
  selected : ∀ o ∈ w.doc.selectOptions select, w'.sel.selected o = w.sel.selected o
  normalized : w'.sel.normalized select = w.sel.normalized select

/-- The change of the tree or of an attribute before an operation. It takes nodes out of the selects
that the operation does not address, if anything; it brings the inserted options into those it does.
A node that there was keeps its slot and its dirtiness, but for the option whose `selected` attribute
changes while it is not dirty. -/
structure Change (op : Op) (w w' : World) : Prop where
  named : ∀ select, op.addresses w'.doc select = true →
    w'.doc.isHtmlElement select "select" = true
  html : ∀ select, w.doc.isHtmlElement select "select" = true →
    w'.doc.isHtmlElement select "select" = true
  elsewhere : ∀ select, op.addresses w'.doc select = false → Thinned select w w'
  options : ∀ select, ∀ o ∉ op.inserted,
    o ∈ w'.doc.selectOptions select → o ∈ w.doc.selectOptions select
  selected : ∀ o, w.doc.data o ≠ none → op ≠ .selectedAttributeChanged o ∨ w.sel.dirty o = true →
    w'.sel.selected o = w.sel.selected o
  dirty : ∀ o, w.doc.data o ≠ none → w'.sel.dirty o = w.sel.dirty o

/-- The last of the inserted options that arrive selected under the select. -/
def lastArrival (w : World) (select : BlitzId) (options : List BlitzId) : Option BlitzId :=
  options.reverse.find? fun o => w.doc.optionSelectOwner o == some select && w.sel.selected o

/-- The option that script has selected in a single select, after an operation in the state `w`: none
once the option has left the list, or a reset, a setter that matches nothing, or the arrival or
attribute of another option under the select may have changed what is selected, or the option itself
is deselected. -/
def recentAfter (w : World) (select : BlitzId) (op : Op) (recent : Option BlitzId) :
    Option BlitzId :=
  let recent := recent.filter (· ∈ w.doc.selectOptions select)
  if w.doc.isSingle select = false then none
  else match op with
    | .setOptionSelected o true =>
      if w.doc.optionSelectOwner o ≠ some select then recent
      else if o ∈ w.doc.selectOptions select then some o else none
    | .setOptionSelected o false => if recent = some o then none else recent
    | .setSelectedIndex other value =>
      if other = select then w.doc.optionAtIndex select value else recent
    | .setValue other value => if other = select then w.doc.firstMatching select value else recent
    | .reset other => if other = select then none else recent
    | .optionsInserted options =>
      match lastArrival w select options with
      | some o => if recent = some o then recent else none
      | none => recent
    | .selectedAttributeChanged o =>
      if recent ≠ some o ∧ w.doc.optionSelectOwner o = some select ∧ w.sel.dirty o = false ∧
          w.sel.selected o = true then none
      else recent
    | .selectAttributeChanged .. => recent

/-- The runs from a state in which the select has no mark that it is not due, with the operation that
addressed the select last and the option script has selected in it. A reader runs the selectedness
setting algorithm. -/
inductive Run (select : BlitzId) (w₀ : World) : Option Op → Option BlitzId → World → Prop
  | start : w₀.doc.isHtmlElement select "select" = true →
      (w₀.sel.normalized select = true → Balanced w₀.doc w₀.sel select) →
      Run select w₀ none none w₀
  | read {last recent w} (other : BlitzId) : Run select w₀ last recent w →
      w.doc.isHtmlElement other "select" = true →
      Run select w₀ last recent ⟨w.doc, (w.doc.runSelectednessSetting w.sel other).2⟩
  | step {last recent w w' op} : Run select w₀ last recent w → Change op w w' →
      Run select w₀ (if op.addresses w'.doc select then some op else last)
        (recentAfter w' select op recent) ⟨w'.doc, op.perform w'.doc w'.sel⟩

/-- What holds of a select after the operation that addressed it last. A reader sees what is
selected once the selectedness setting algorithm has run. -/
structure Settled (select : BlitzId) (last : Option Op) (recent : Option BlitzId) (w : World) :
    Prop where
  atMostOne : last ≠ none → w.doc.isSingle select = true →
    ∀ o ∈ w.doc.selectOptions select, ∀ x ∈ w.doc.selectOptions select,
      w.sel.selected o = true → w.sel.selected x = true → o = x
  recent : ∀ o, recent = some o → Sole w.doc w.sel select o
  exactlyOne : (∀ op, last = some op → op.isSetter = false) → w.doc.isSingle select = true →
    w.doc.selectDisplaySize select = 1 →
    (∃ o ∈ w.doc.selectOptions select, w.doc.optionDisabled o = false) →
    ∃ o, Sole w.doc (w.doc.runSelectednessSetting w.sel select).2 select o
  normalized : w.sel.normalized select = true →
    (∃ op, last = some op ∧ op.isSetter = true) ∨
      (w.doc.runSelectednessSetting (w.sel.invalidate select) select).1 = false ∧
        (w.doc.rerunSelectednessSetting w.sel select).selected = w.sel.selected
  idempotent : w.doc.runSelectednessSetting (w.doc.runSelectednessSetting w.sel select).2 select =
    (false, (w.doc.runSelectednessSetting w.sel select).2)

variable {select o x : BlitzId} {op : Op} {last : Option Op} {recent : Option BlitzId}
  {w w' w₀ : World} {doc : Parsed} {σ τ : Selection}

/-! ### States alike -/

theorem Alike.of_sameFor (h : SameFor doc select σ τ) : Alike select ⟨doc, σ⟩ ⟨doc, τ⟩ where
  options := rfl
  single := rfl
  size := rfl
  disabled _ _ := rfl
  selected o ho := (h.selected o ho).symm
  normalized := h.normalized.symm

theorem Alike.thinned (h : Alike select w w') : Thinned select w w' where
  options := h.options ▸ List.Sublist.refl _
  single := h.single
  size := h.size
  disabled o ho := h.disabled o (h.options ▸ ho)
  selected o ho := h.selected o (h.options ▸ ho)
  marked hm := ⟨h.normalized ▸ hm, h.options⟩

theorem Thinned.trans {w'' : World} (h : Thinned select w w') (h' : Thinned select w' w'') :
    Thinned select w w'' where
  options := h'.options.trans h.options
  single := h'.single.trans h.single
  size := h'.size.trans h.size
  disabled o ho := (h'.disabled o ho).trans (h.disabled o (h'.options.subset ho))
  selected o ho := (h'.selected o ho).trans (h.selected o (h'.options.subset ho))
  marked hm := by
    obtain ⟨hm', heq'⟩ := h'.marked hm
    obtain ⟨hm, heq⟩ := h.marked hm'
    exact ⟨hm, heq'.trans heq⟩

/-- As long as the mark is set nothing was taken out. -/
theorem Thinned.alike (h : Thinned select w w') (hm : w'.sel.normalized select = true) :
    Alike select w w' where
  options := (h.marked hm).2
  single := h.single
  size := h.size
  disabled o ho := h.disabled o ((h.marked hm).2 ▸ ho)
  selected o ho := h.selected o ((h.marked hm).2 ▸ ho)
  normalized := hm.trans (h.marked hm).1.symm

theorem Alike.desiredOption (h : Alike select w w') :
    w'.doc.desiredOption w'.sel select = w.doc.desiredOption w.sel select := by
  have hlast : (w.doc.selectOptions select).reverse.find? w'.sel.selected =
      (w.doc.selectOptions select).reverse.find? w.sel.selected := by
    rw [← List.head?_filter, ← List.head?_filter]
    exact congrArg List.head? (List.filter_congr fun o ho => h.selected o (List.mem_reverse.1 ho))
  have hfirst : ((w.doc.selectOptions select).find? fun o => !w'.doc.optionDisabled o) =
      (w.doc.selectOptions select).find? fun o => !w.doc.optionDisabled o := by
    rw [← List.head?_filter, ← List.head?_filter]
    exact congrArg List.head? (List.filter_congr fun o ho => congrArg _ (h.disabled o ho))
  rw [Parsed.desiredOption, Parsed.desiredOption, h.options, h.size, hlast, hfirst]

theorem Alike.balanced (h : Alike select w w') (hb : Balanced w.doc w.sel select) :
    Balanced w'.doc w'.sel select := by
  intro hsingle o ho
  rw [h.options] at ho
  rw [h.selected o ho, h.desiredOption]
  exact hb (h.single ▸ hsingle) o ho

theorem Alike.sole (h : Alike select w w') (ho : Sole w.doc w.sel select o) :
    Sole w'.doc w'.sel select o where
  mem := h.options ▸ ho.mem
  selected x hx := by
    rw [h.options] at hx
    rw [h.selected x hx, ho.selected x hx]

/-! ### One operation -/

theorem mem_firstOccurrences (values : List BlitzId) : x ∈ firstOccurrences values ↔ x ∈ values := by
  have hfold : ∀ found : List BlitzId,
      x ∈ values.foldl (fun found x => if x ∈ found then found else found ++ [x]) found ↔
        x ∈ found ∨ x ∈ values := by
    induction values with
    | nil => simp
    | cons y values ih =>
      intro found
      rw [List.foldl_cons, ih, List.mem_cons]
      by_cases hy : y ∈ found
      · rw [if_pos hy]
        constructor
        · rintro (h | h)
          · exact .inl h
          · exact .inr (.inr h)
        · rintro (h | rfl | h)
          · exact .inl h
          · exact .inl hy
          · exact .inr h
      · rw [if_neg hy, List.mem_append, List.mem_singleton, or_assoc]
  rw [firstOccurrences, hfold]
  simp

variable {options : List BlitzId}

theorem mem_selects :
    select ∈ firstOccurrences ((options.filterMap (doc.arrived σ)).map (·.2.1)) ↔
      (Op.optionsInserted options).addresses doc select = true := by
  rw [mem_firstOccurrences]
  simp only [List.mem_map, List.mem_filterMap, arrived, Option.map_eq_some_iff, Op.addresses,
    List.any_eq_true, beq_iff_eq]
  constructor
  · rintro ⟨_, ⟨o, ho, other, howner, rfl⟩, rfl⟩
    exact ⟨o, ho, howner⟩
  · rintro ⟨o, ho, howner⟩
    exact ⟨(o, select, σ.selected o), ⟨o, ho, select, howner, rfl⟩, rfl⟩

theorem html_of_mem_selects
    (h : select ∈ firstOccurrences ((options.filterMap (doc.arrived σ)).map (·.2.1))) :
    doc.isHtmlElement select "select" = true := by
  obtain ⟨o, -, ho⟩ := List.any_eq_true.1 (mem_selects.1 h)
  exact isHtmlElement_of_owner (beq_iff_eq.1 ho)

theorem owner_of_arrived {entry : BlitzId × BlitzId × Bool}
    (h : entry ∈ options.filterMap (doc.arrived σ)) :
    entry.1 ∈ options ∧ doc.optionSelectOwner entry.1 = some entry.2.1 ∧
      entry.2.2 = σ.selected entry.1 := by
  obtain ⟨o, ho, hentry⟩ := List.mem_filterMap.1 h
  obtain ⟨other, howner, rfl⟩ := Option.map_eq_some_iff.1 hentry
  exact ⟨ho, howner, rfl⟩

variable {selects : List BlitzId}

theorem sameFor_foldl_rerun (hselect : doc.isHtmlElement select "select" = true)
    (hhtml : ∀ other ∈ selects, doc.isHtmlElement other "select" = true)
    (h : select ∉ selects) (σ : Selection) :
    SameFor doc select σ (selects.foldl doc.rerunSelectednessSetting σ) :=
  .foldl (fun other hother _ => .rerun hselect (hhtml other hother)
    (fun heq => h (heq ▸ hother)) _) σ

/-- An operation is nothing to the selects that it does not address. -/
theorem sameFor_perform (hselect : doc.isHtmlElement select "select" = true)
    (hnamed : ∀ other, op.addresses doc other = true → doc.isHtmlElement other "select" = true)
    (h : op.addresses doc select = false) (σ : Selection) :
    SameFor doc select σ (op.perform doc σ) := by
  have hnot : ∀ {o}, (doc.optionSelectOwner o == some select) = false →
      o ∉ doc.selectOptions select := by
    intro o ho hmem
    rw [optionSelectOwner_of_mem hselect hmem] at ho
    simp at ho
  cases op with
  | optionsInserted options =>
    have hinsert : SameFor doc select σ
        ((options.filterMap (doc.arrived σ)).foldl doc.insertOption σ) := by
      refine .foldl (fun entry hentry τ => ?_) σ
      obtain ⟨ho, howner, -⟩ := owner_of_arrived hentry
      refine .insertOption hselect howner (fun heq => ?_) τ
      have hnone := List.any_eq_false.1 h _ ho
      rw [howner, heq] at hnone
      simp at hnone
    refine hinsert.trans (sameFor_foldl_rerun hselect (fun _ => html_of_mem_selects) ?_ _)
    rw [mem_selects, h]
    exact Bool.false_ne_true
  | setOptionSelected o selected =>
    have ho := hnot h
    rw [Op.perform, Parsed.setOptionSelected]
    split
    · rename_i other howner
      have hother := isHtmlElement_of_owner howner
      have hne : select ≠ other := by
        rintro rfl
        simp [Op.addresses, howner] at h
      dsimp only
      refine SameFor.trans ?_ (.rerun hselect hother hne _)
      refine SameFor.trans ?_ (.setSelectedness ho _ _ _)
      split
      · exact .clearOtherOptions hselect hother hne σ o
      · exact .refl doc select σ
    · exact .setSelectedness ho σ _ _
  | selectedAttributeChanged o =>
    rw [Op.perform, optionSelectedAttributeChanged]
    split
    · exact .refl doc select σ
    · rename_i other howner
      have hother := isHtmlElement_of_owner howner
      have hne : select ≠ other := by
        rintro rfl
        simp [Op.addresses, howner] at h
      dsimp only
      refine SameFor.trans ?_ (.rerun hselect hother hne _)
      split
      · exact .clearOtherOptions hselect hother hne σ o
      · exact .refl doc select σ
  | setSelectedIndex other value =>
    have hother := hnamed other (beq_self_eq_true other)
    exact .selectOnlyOption hselect hother (beq_eq_false_iff_ne.1 h).symm σ _
  | setValue other value =>
    have hother := hnamed other (beq_self_eq_true other)
    exact .selectOnlyOption hselect hother (beq_eq_false_iff_ne.1 h).symm σ _
  | selectAttributeChanged other localName =>
    have hother := hnamed other (beq_self_eq_true other)
    have hne : select ≠ other := (beq_eq_false_iff_ne.1 h).symm
    rw [Op.perform, Parsed.selectAttributeChanged]
    refine SameFor.trans ?_ (.rerun hselect hother hne _)
    split
    · exact .keepFirst hselect hother hne false σ fun _ ho => ho
    · exact .refl doc select σ
  | reset other =>
    have hother := hnamed other (beq_self_eq_true other)
    have hne : select ≠ other := (beq_eq_false_iff_ne.1 h).symm
    rw [Op.perform, resetSelectSelectedness]
    refine SameFor.trans ?_ (.rerun hselect hother hne _)
    exact .foldl (fun o ho σ => .setSelectedness
      (fun hmem => not_mem_selectOptions hselect hother hne hmem ho) σ _ _) σ

theorem balanced_foldl_rerun
    (hhtml : ∀ other ∈ selects, doc.isHtmlElement other "select" = true) (h : select ∈ selects)
    (σ : Selection) : Balanced doc (selects.foldl doc.rerunSelectednessSetting σ) select := by
  induction selects generalizing σ with
  | nil => cases h
  | cons other selects ih =>
    have hrest := fun x hx => hhtml x (List.mem_cons_of_mem other hx)
    by_cases hmem : select ∈ selects
    · exact ih hrest hmem _
    · obtain rfl := (List.mem_cons.1 h).resolve_right hmem
      exact (Alike.of_sameFor (sameFor_foldl_rerun (hhtml select h) hrest hmem _)).balanced
        (balanced_rerun σ select)

theorem owner_of_addresses (h : (doc.optionSelectOwner o == some select) = true) :
    doc.optionSelectOwner o = some select :=
  beq_iff_eq.1 h

theorem balanced_perform (h : op.addresses doc select = true) (hset : op.isSetter = false)
    (σ : Selection) : Balanced doc (op.perform doc σ) select := by
  cases op with
  | optionsInserted options =>
    exact balanced_foldl_rerun (fun _ => html_of_mem_selects) (mem_selects.2 h) _
  | setOptionSelected o selected =>
    rw [Op.perform, Parsed.setOptionSelected, owner_of_addresses h]
    exact balanced_rerun _ select
  | selectedAttributeChanged o =>
    rw [Op.perform, optionSelectedAttributeChanged, owner_of_addresses h]
    exact balanced_rerun _ select
  | setSelectedIndex other value => cases hset
  | setValue other value => cases hset
  | selectAttributeChanged other localName =>
    obtain rfl := beq_iff_eq.1 h
    exact balanced_rerun _ _
  | reset other =>
    obtain rfl := beq_iff_eq.1 h
    exact balanced_rerun _ _

theorem atMostOne_of_balanced (h : Balanced doc σ select) (hsingle : doc.isSingle select = true)
    (ho : o ∈ doc.selectOptions select) (hx : x ∈ doc.selectOptions select)
    (hos : σ.selected o = true) (hxs : σ.selected x = true) : o = x := by
  rw [h hsingle o ho, decide_eq_true_eq] at hos
  rw [h hsingle x hx, decide_eq_true_eq, hos, Option.some.injEq] at hxs
  exact hxs

theorem atMostOne_perform_setter (h : op.addresses doc select = true) (hset : op.isSetter = true)
    (ho : o ∈ doc.selectOptions select) (hx : x ∈ doc.selectOptions select)
    (hos : (op.perform doc σ).selected o = true) (hxs : (op.perform doc σ).selected x = true) :
    o = x := by
  have honly : ∀ keep : Option BlitzId, (doc.selectOnlyOption σ select keep).selected o = true →
      (doc.selectOnlyOption σ select keep).selected x = true → o = x := by
    intro keep hos hxs
    rw [selected_selectOnlyOption keep ho, decide_eq_true_eq] at hos
    rw [selected_selectOnlyOption keep hx, decide_eq_true_eq, ← hos, Option.some.injEq] at hxs
    exact hxs.symm
  cases op with
  | setSelectedIndex other value =>
    obtain rfl := beq_iff_eq.1 h
    exact honly _ hos hxs
  | setValue other value =>
    obtain rfl := beq_iff_eq.1 h
    exact honly _ hos hxs
  | optionsInserted options => cases hset
  | setOptionSelected o selected => cases hset
  | selectedAttributeChanged o => cases hset
  | selectAttributeChanged other localName => cases hset
  | reset other => cases hset

theorem sole_of_balanced (h : Balanced doc σ select) (hsingle : doc.isSingle select = true)
    (hsize : doc.selectDisplaySize select = 1)
    (henabled : ∃ o ∈ doc.selectOptions select, doc.optionDisabled o = false) :
    ∃ o, Sole doc σ select o := by
  cases hd : doc.desiredOption σ select with
  | some d =>
    refine ⟨d, mem_of_desiredOption hd, fun x hx => ?_⟩
    rw [h hsingle x hx, hd]
    simp [eq_comm]
  | none =>
    unfold Parsed.desiredOption at hd
    dsimp only at hd
    split at hd
    · cases hd
    · rw [if_pos hsize] at hd
      obtain ⟨o, ho, hdisabled⟩ := henabled
      have hnone := List.find?_eq_none.1 hd o ho
      simp [hdisabled] at hnone

theorem unchanged_of_balanced (h : Balanced doc σ select) :
    (doc.runSelectednessSetting (σ.invalidate select) select).1 = false ∧
      (doc.rerunSelectednessSetting σ select).selected = σ.selected := by
  have hnormalized : (σ.invalidate select).normalized select = false := Function.update_self _ _ _
  cases hsingle : doc.isSingle select with
  | false =>
    have hmultiple : (doc.attr select "multiple").isSome = true := by
      rw [isSome_multiple, hsingle]
      rfl
    rw [rerunSelectednessSetting, runSelectednessSetting_of_multiple hnormalized hmultiple]
    exact ⟨rfl, rfl⟩
  | true =>
    constructor
    · rw [runSelectednessSetting, if_neg (by simp [hnormalized])]
      dsimp only
      rw [isSome_multiple, hsingle, if_neg (by simp)]
      refine List.any_eq_false.2 fun o ho => ?_
      have hbalanced := h hsingle o ho
      simp only [bne_iff_ne, ne_eq, not_not]
      exact hbalanced.symm
    · funext o
      by_cases ho : o ∈ doc.selectOptions select
      · rw [selected_rerun hsingle ho, h hsingle o ho]
      · exact selected_runSelectednessSetting (σ := σ.invalidate select) ho

/-! ### The option that script has selected -/

theorem dirty_perform (h : σ.dirty o = true) (ho : o ∈ doc.selectOptions select)
    (hselect : doc.isHtmlElement select "select" = true)
    (hnamed : ∀ other, op.addresses doc other = true → doc.isHtmlElement other "select" = true)
    (hreset : op ≠ .reset select) : (op.perform doc σ).dirty o = true := by
  cases op with
  | optionsInserted options =>
    rw [Op.perform, dirty_optionsInserted]
    exact h
  | setOptionSelected y selected =>
    rw [Op.perform, Parsed.setOptionSelected]
    split
    · rw [dirty_rerun]
      refine dirty_setSelectedness_set ?_ y selected
      split
      · rwa [dirty_clearOtherOptions]
      · exact h
    · exact dirty_setSelectedness_set h y selected
  | selectedAttributeChanged y =>
    rw [Op.perform, optionSelectedAttributeChanged]
    split
    · exact h
    · rw [dirty_rerun]
      split
      · rwa [dirty_clearOtherOptions]
      · exact h
  | setSelectedIndex other value => exact dirty_selectOnlyOption (.inl h)
  | setValue other value => exact dirty_selectOnlyOption (.inl h)
  | selectAttributeChanged other localName =>
    rw [Op.perform, Parsed.selectAttributeChanged, dirty_rerun]
    split
    · rwa [dirty_keepFirst]
    · exact h
  | reset other =>
    have hother := hnamed other (beq_self_eq_true other)
    have hne : select ≠ other := fun heq => hreset (heq ▸ rfl)
    have hnot := not_mem_selectOptions hselect hother hne ho
    rw [Op.perform, resetSelectSelectedness, dirty_rerun]
    have hfold : ∀ (options : List BlitzId) (τ : Selection), o ∉ options →
        (options.foldl (fun σ o => σ.setSelectedness o (doc.attr o "selected").isSome .clear)
          τ).dirty o = τ.dirty o := by
      intro options
      induction options with
      | nil => exact fun _ _ => rfl
      | cons y options ih =>
        intro τ hmem
        rw [List.mem_cons, not_or] at hmem
        rw [List.foldl_cons, ih _ hmem.2]
        exact Function.update_of_ne hmem.1 _ _
    rw [hfold _ _ hnot, h]

/-- In a single select script's option is selected alone, and dirty. -/
structure Kept (w : World) (select o : BlitzId) : Prop where
  single : w.doc.isSingle select = true
  sole : Sole w.doc w.sel select o
  dirty : w.sel.dirty o = true

theorem sole_foldl_rerun (h : Sole doc σ select o) (hsingle : doc.isSingle select = true)
    (hselect : doc.isHtmlElement select "select" = true)
    (hhtml : ∀ other ∈ selects, doc.isHtmlElement other "select" = true) :
    Sole doc (selects.foldl doc.rerunSelectednessSetting σ) select o := by
  induction selects generalizing σ with
  | nil => exact h
  | cons other selects ih =>
    refine ih ?_ fun x hx => hhtml x (List.mem_cons_of_mem other hx)
    by_cases hne : select = other
    · subst hne
      exact h.rerun hsingle
    · exact (Alike.of_sameFor
        (.rerun hselect (hhtml other List.mem_cons_self) hne σ)).sole h

/-- The insertion steps of options that did not arrive selected are nothing to the select. -/
theorem sole_insertOptions (h : Sole doc τ select o)
    (hselect : doc.isHtmlElement select "select" = true)
    (hquiet : ∀ x ∈ options, doc.optionSelectOwner x = some select → σ.selected x = false) :
    Sole doc ((options.filterMap (doc.arrived σ)).foldl doc.insertOption τ) select o := by
  refine (Alike.of_sameFor (.foldl (fun entry hentry τ => ?_) τ)).sole h
  obtain ⟨hmem, howner, hselected⟩ := owner_of_arrived hentry
  by_cases hne : select = entry.2.1
  · rw [← hne] at howner
    rw [hquiet _ hmem howner] at hselected
    rw [show doc.insertOption τ entry = τ by
      rw [insertOption, if_neg (by simp [hselected])]]
    exact .refl doc select τ
  · exact .insertOption hselect howner hne τ

theorem sole_insertOption (ho : o ∈ doc.selectOptions select)
    (hsingle : doc.isSingle select = true) (τ : Selection) :
    Sole doc (doc.insertOption τ (o, select, true)) select o := by
  refine ⟨ho, fun x hx => ?_⟩
  rw [insertOption, if_pos rfl]
  dsimp only
  rw [if_pos hsingle, selected_clearOtherOptions, selected_setSelectedness]
  by_cases hxo : x = o <;> simp [hx, hxo]

/-- The last inserted selected option wins. -/
theorem sole_of_lastArrival (hlast : lastArrival ⟨doc, σ⟩ select options = some o)
    (ho : o ∈ doc.selectOptions select) (hsingle : doc.isSingle select = true)
    (hselect : doc.isHtmlElement select "select" = true) :
    Sole doc (doc.optionsInserted σ options) select o := by
  obtain ⟨harrived, later, earlier, heq, hlater⟩ := List.find?_eq_some_iff_append.1 hlast
  obtain ⟨howner, hselected⟩ := Bool.and_eq_true_iff.1 harrived
  have hsplit : options = earlier.reverse ++ o :: later.reverse := by
    rw [← options.reverse_reverse, heq]
    simp
  refine sole_foldl_rerun ?_ hsingle hselect fun _ => html_of_mem_selects
  have hentry : doc.arrived σ o = some (o, select, true) := by
    rw [arrived, beq_iff_eq.1 howner, hselected]
    rfl
  rw [hsplit, List.filterMap_append, List.filterMap_cons_some hentry, List.foldl_append,
    List.foldl_cons]
  refine sole_insertOptions (sole_insertOption ho hsingle _) hselect fun x hx hx' => ?_
  have hnot := hlater x (List.mem_reverse.1 hx)
  simpa [hx'] using hnot

theorem sole_optionsInserted (h : Sole doc σ select o)
    (hsingle : doc.isSingle select = true) (hselect : doc.isHtmlElement select "select" = true)
    (hquiet : ∀ x ∈ options, doc.optionSelectOwner x = some select → σ.selected x = false) :
    Sole doc (doc.optionsInserted σ options) select o :=
  sole_foldl_rerun (sole_insertOptions h hselect hquiet) hsingle hselect
    fun _ => html_of_mem_selects

theorem sole_setOptionSelected (ho : o ∈ doc.selectOptions select)
    (hsingle : doc.isSingle select = true) (howner : doc.optionSelectOwner o = some select) :
    Sole doc (doc.setOptionSelected σ o true) select o := by
  rw [Parsed.setOptionSelected, howner]
  refine Sole.rerun ⟨ho, fun x hx => ?_⟩ hsingle
  rw [hsingle, Bool.and_self, if_pos rfl, selected_setSelectedness, selected_clearOtherOptions]
  by_cases hxo : x = o <;> simp [hx, hxo]

theorem sole_deselectOther (h : Sole doc σ select o) (hsingle : doc.isSingle select = true)
    (howner : doc.optionSelectOwner x = some select) (hx : x ≠ o) :
    Sole doc (doc.setOptionSelected σ x false) select o := by
  rw [Parsed.setOptionSelected, howner]
  refine Sole.rerun ⟨h.mem, fun y hy => ?_⟩ hsingle
  rw [Bool.false_and, if_neg Bool.false_ne_true, selected_setSelectedness]
  by_cases hyx : y = x
  · subst hyx
    simp [hx]
  · rw [if_neg hyx, h.selected y hy]

theorem sole_selectedAttributeChanged (h : Sole doc σ select o)
    (hsingle : doc.isSingle select = true) (howner : doc.optionSelectOwner x = some select)
    (hquiet : σ.dirty x = true ∨ σ.selected x = false) :
    Sole doc (doc.optionSelectedAttributeChanged σ x) select o := by
  rw [optionSelectedAttributeChanged, howner]
  have hnone : (!σ.dirty x && σ.selected x) = false := by
    rcases hquiet with hd | hs
    · simp [hd]
    · simp [hs]
  dsimp only
  rw [hnone, Bool.false_and, if_neg Bool.false_ne_true]
  exact h.rerun hsingle

theorem sole_selectAttributeChanged (h : Sole doc σ select o) (hsingle : doc.isSingle select = true)
    (localName : String) : Sole doc (doc.selectAttributeChanged σ select localName) select o := by
  rw [Parsed.selectAttributeChanged]
  have hwalk : keepFirst false σ (doc.selectOptions select) = σ := by
    refine keepFirst_of_sole (o := o) (fun x hx hs => ?_) (nodup_selectOptions select) fun hf => by cases hf
    rw [h.selected x hx, decide_eq_true_eq] at hs
    exact hs
  rw [hwalk, ite_self]
  exact h.rerun hsingle

theorem data_of_mem (h : o ∈ doc.selectOptions select) : doc.data o ≠ none := by
  intro hnone
  have hoption := (mem_selectOptions.1 h).2
  unfold isHtmlElement at hoption
  rw [element, hnone] at hoption
  cases hoption

theorem Change.kept (h : Change op w w') (hk : Kept w select o)
    (hsingle : w'.doc.isSingle select = true) (ho : o ∈ w'.doc.selectOptions select)
    (hquiet : ∀ x ∈ w'.doc.selectOptions select, x ≠ o →
      x ∈ op.inserted ∨ op = .selectedAttributeChanged x ∧ w.sel.dirty x = false →
        w'.sel.selected x = false) : Kept w' select o where
  single := hsingle
  sole := by
    refine ⟨ho, fun x hx => ?_⟩
    by_cases hxo : x = o
    · subst hxo
      rw [h.selected x (data_of_mem hk.sole.mem) (.inr hk.dirty)]
      exact hk.sole.selected x hk.sole.mem
    by_cases hwritten : x ∈ op.inserted ∨
        op = .selectedAttributeChanged x ∧ w.sel.dirty x = false
    · rw [hquiet x hx hxo hwritten, decide_eq_false hxo]
    · rw [not_or, not_and_or, Bool.not_eq_false] at hwritten
      have hold := h.options select x hwritten.1 hx
      rw [h.selected x (data_of_mem hold) hwritten.2]
      exact hk.sole.selected x hold
  dirty := (h.dirty o (data_of_mem hk.sole.mem)).trans hk.dirty

theorem kept_unaddressed (hk : Kept ⟨doc, σ⟩ select o)
    (hselect : doc.isHtmlElement select "select" = true)
    (hnamed : ∀ other, op.addresses doc other = true → doc.isHtmlElement other "select" = true)
    (h : op.addresses doc select = false) : Kept ⟨doc, op.perform doc σ⟩ select o where
  single := hk.single
  sole := (Alike.of_sameFor (sameFor_perform hselect hnamed h σ)).sole hk.sole
  dirty := dirty_perform hk.dirty hk.sole.mem hselect hnamed (by
    rintro rfl
    simp [Op.addresses] at h)

/-- What script has selected stays selected alone while `recentAfter` says so. -/
theorem kept_step (hselect : w.doc.isHtmlElement select "select" = true)
    (hkept : ∀ o, recent = some o → Kept w select o) (hchange : Change op w w')
    (ho : recentAfter w' select op recent = some o) :
    Kept ⟨w'.doc, op.perform w'.doc w'.sel⟩ select o := by
  have hselect' := hchange.html select hselect
  have hstays : ∀ o, recent.filter (· ∈ w'.doc.selectOptions select) = some o →
      Kept w select o ∧ o ∈ w'.doc.selectOptions select := by
    intro o ho
    obtain ⟨hrecent, hmem⟩ := Option.filter_eq_some_iff.1 ho
    exact ⟨hkept o hrecent, of_decide_eq_true hmem⟩
  unfold recentAfter at ho
  generalize recent.filter (· ∈ w'.doc.selectOptions select) = recent at ho hstays
  dsimp only at ho
  split at ho
  · cases ho
  rename_i hsingle
  rw [Bool.not_eq_false] at hsingle
  have hdirty : ∀ {o}, Kept w' select o → op ≠ .reset select →
      (op.perform w'.doc w'.sel).dirty o = true := fun hk =>
    dirty_perform hk.dirty hk.sole.mem hselect' hchange.named
  -- calls that write no selectedness before they are performed
  have hidle : recent = some o →
      (∀ x, x ∉ op.inserted ∧ op ≠ .selectedAttributeChanged x) → Kept w' select o := fun hr hnot =>
    hchange.kept (hstays o hr).1 hsingle (hstays o hr).2 fun x _ _ hwritten =>
      absurd hwritten (not_or.2 ⟨(hnot x).1, fun h => (hnot x).2 h.1⟩)
  cases op with
  | optionsInserted options =>
    dsimp only at ho
    cases hlast : lastArrival w' select options with
    | some x =>
      rw [hlast] at ho
      dsimp only at ho
      split at ho
      · rename_i heq
        obtain rfl := Option.some.inj (heq.symm.trans ho)
        obtain ⟨hk, hmem⟩ := hstays x ho
        exact ⟨hsingle, sole_of_lastArrival hlast hmem hsingle hselect',
          dirty_perform ((hchange.dirty x (data_of_mem hk.sole.mem)).trans hk.dirty) hmem hselect'
            hchange.named (by simp)⟩
      · cases ho
    | none =>
      rw [hlast] at ho
      have hnone : ∀ x ∈ options, w'.doc.optionSelectOwner x = some select →
          w'.sel.selected x = false := by
        intro x hx howner
        simpa [howner] using List.find?_eq_none.1 hlast x (List.mem_reverse.2 hx)
      have hk : Kept w' select o := hchange.kept (hstays o ho).1 hsingle (hstays o ho).2
        fun x hx _ hwritten => by
          rcases hwritten with hi | ⟨heq, -⟩
          · exact hnone x hi (optionSelectOwner_of_mem hselect' hx)
          · cases heq
      exact ⟨hsingle, sole_optionsInserted hk.sole hsingle hselect' hnone, hdirty hk (by simp)⟩
  | setOptionSelected y selected =>
    have hk := fun hr => hidle hr (by simp [Op.inserted])
    cases selected with
    | true =>
      dsimp only at ho
      split at ho
      · rename_i howner
        exact kept_unaddressed (hk ho) hselect' hchange.named (beq_eq_false_iff_ne.2 howner)
      · rename_i howner
        rw [not_not] at howner
        split at ho
        · rename_i hmem
          obtain rfl := Option.some.inj ho
          refine ⟨hsingle, sole_setOptionSelected hmem hsingle howner, ?_⟩
          rw [Op.perform, Parsed.setOptionSelected, howner]
          dsimp only
          rw [dirty_rerun]
          exact Function.update_self _ _ _
        · cases ho
    | false =>
      dsimp only at ho
      split at ho
      · cases ho
      · rename_i hne
        have hyo : y ≠ o := fun heq => hne (heq ▸ ho)
        by_cases howner : w'.doc.optionSelectOwner y = some select
        · exact ⟨hsingle, sole_deselectOther (hk ho).sole hsingle howner hyo,
            hdirty (hk ho) (by simp)⟩
        · exact kept_unaddressed (hk ho) hselect' hchange.named (beq_eq_false_iff_ne.2 howner)
  | setSelectedIndex other value =>
    dsimp only at ho
    split at ho
    · rename_i heq
      subst heq
      have hmem : o ∈ w'.doc.selectOptions other := by
        unfold optionAtIndex at ho
        split at ho
        · exact List.mem_of_getElem? ho
        · cases ho
      rw [Op.perform, setSelectSelectedIndexValue, ho]
      exact ⟨hsingle, .selectOnlyOption hmem, dirty_selectOnlyOption (.inr ⟨hmem, rfl⟩)⟩
    · rename_i hne
      exact kept_unaddressed (hidle ho (by simp [Op.inserted])) hselect' hchange.named
        (beq_eq_false_iff_ne.2 hne)
  | setValue other value =>
    dsimp only at ho
    split at ho
    · rename_i heq
      subst heq
      have hmem : o ∈ w'.doc.selectOptions other := List.mem_of_find?_eq_some ho
      rw [Op.perform, setSelectValueSelectedness, ho]
      exact ⟨hsingle, .selectOnlyOption hmem, dirty_selectOnlyOption (.inr ⟨hmem, rfl⟩)⟩
    · rename_i hne
      exact kept_unaddressed (hidle ho (by simp [Op.inserted])) hselect' hchange.named
        (beq_eq_false_iff_ne.2 hne)
  | selectedAttributeChanged y =>
    dsimp only at ho
    split at ho
    · cases ho
    · rename_i hnone
      obtain ⟨hrecent, hmem⟩ := hstays o ho
      have hdata := data_of_mem hrecent.sole.mem
      have hquiet : w'.doc.optionSelectOwner y = some select →
          w'.sel.dirty y = true ∨ w'.sel.selected y = false := by
        intro howner
        by_cases hyo : recent = some y
        · obtain rfl := Option.some.inj (hyo.symm.trans ho)
          exact .inl ((hchange.dirty y hdata).trans hrecent.dirty)
        · by_contra hcon
          simp only [not_or, Bool.not_eq_true, Bool.not_eq_false] at hcon
          exact hnone ⟨hyo, howner, hcon⟩
      have hk : Kept w' select o := hchange.kept hrecent hsingle hmem fun x hx _ hwritten => by
        rcases hwritten with hi | ⟨heq, hd⟩
        · cases hi
        · obtain rfl := Op.selectedAttributeChanged.inj heq
          have hold := data_of_mem (hchange.options select y (by simp [Op.inserted]) hx)
          have hd' := (hchange.dirty y hold).trans hd
          exact (hquiet (optionSelectOwner_of_mem hselect' hx)).resolve_left (by simp [hd'])
      by_cases howner : w'.doc.optionSelectOwner y = some select
      · exact ⟨hsingle, sole_selectedAttributeChanged hk.sole hsingle howner (hquiet howner),
          hdirty hk (by simp)⟩
      · exact kept_unaddressed hk hselect' hchange.named (beq_eq_false_iff_ne.2 howner)
  | selectAttributeChanged other localName =>
    have hk := hidle ho (by simp [Op.inserted])
    by_cases heq : other = select
    · subst heq
      exact ⟨hsingle, sole_selectAttributeChanged hk.sole hsingle localName, hdirty hk (by simp)⟩
    · exact kept_unaddressed hk hselect' hchange.named (beq_eq_false_iff_ne.2 heq)
  | reset other =>
    dsimp only at ho
    split at ho
    · cases ho
    · rename_i hne
      exact kept_unaddressed (hidle ho (by simp [Op.inserted])) hselect' hchange.named
        (beq_eq_false_iff_ne.2 hne)

/-! ### Runs -/

structure RunInv (select : BlitzId) (last : Option Op) (recent : Option BlitzId) (w : World) :
    Prop where
  html : w.doc.isHtmlElement select "select" = true
  marked : w.sel.normalized select = true →
    (∃ op, last = some op ∧ op.isSetter = true) ∨ Balanced w.doc w.sel select
  atMostOne : last ≠ none → w.doc.isSingle select = true →
    ∀ o ∈ w.doc.selectOptions select, ∀ x ∈ w.doc.selectOptions select,
      w.sel.selected o = true → w.sel.selected x = true → o = x
  kept : ∀ o, recent = some o → Kept w select o

/-- What does not address the select, and takes no option script has selected out of it. -/
theorem RunInv.thinned (h : RunInv select last recent w) (hthin : Thinned select w w')
    (hhtml : w'.doc.isHtmlElement select "select" = true) {recent' : Option BlitzId}
    (hkept : ∀ o, recent' = some o → Kept w' select o) : RunInv select last recent' w' where
  html := hhtml
  marked hm := (h.marked (hthin.marked hm).1).imp_right (hthin.alike hm).balanced
  atMostOne hlast hsingle o ho x hx hos hxs := by
    rw [hthin.selected o ho] at hos
    rw [hthin.selected x hx] at hxs
    exact h.atMostOne hlast (hthin.single ▸ hsingle) o (hthin.options.subset ho) x
      (hthin.options.subset hx) hos hxs
  kept := hkept

theorem RunInv.step (h : RunInv select last recent w) (hchange : Change op w w') :
    RunInv select (if op.addresses w'.doc select then some op else last)
      (recentAfter w' select op recent) ⟨w'.doc, op.perform w'.doc w'.sel⟩ := by
  have hselect := hchange.html select h.html
  have hkept := fun o => kept_step (o := o) h.html h.kept hchange
  cases haddressed : op.addresses w'.doc select with
  | true =>
    refine {
      html := hselect
      marked := fun _ => ?_
      atMostOne := fun _ hsingle o ho x hx => ?_
      kept := hkept }
    · cases hset : op.isSetter with
      | true => exact .inl ⟨op, rfl, hset⟩
      | false => exact .inr (balanced_perform haddressed hset _)
    · cases hset : op.isSetter with
      | true => exact atMostOne_perform_setter haddressed hset ho hx
      | false => exact atMostOne_of_balanced (balanced_perform haddressed hset _) hsingle ho hx
  | false =>
    exact h.thinned ((hchange.elsewhere select haddressed).trans
      (Alike.of_sameFor (sameFor_perform hselect hchange.named haddressed _)).thinned) hselect hkept

theorem run_of_unmarked (h : σ.normalized select = false) :
    (doc.runSelectednessSetting σ select).2 = doc.rerunSelectednessSetting σ select := by
  have heq : σ.invalidate select = σ := by
    rw [Selection.invalidate, ← h, Function.update_eq_self]
  rw [rerunSelectednessSetting, heq]

theorem RunInv.read (h : RunInv select last recent w) {other : BlitzId}
    (hother : w.doc.isHtmlElement other "select" = true) :
    RunInv select last recent ⟨w.doc, (w.doc.runSelectednessSetting w.sel other).2⟩ := by
  by_cases hne : select = other
  · subst hne
    cases hm : w.sel.normalized select with
    | true =>
      rw [runSelectednessSetting_of_normalized hm]
      exact h
    | false =>
      rw [run_of_unmarked hm]
      have hbalanced : Balanced w.doc (w.doc.rerunSelectednessSetting w.sel select) select :=
        balanced_rerun w.sel select
      exact {
        html := h.html
        marked := fun _ => .inr hbalanced
        atMostOne := fun _ hsingle _ ho _ hx => atMostOne_of_balanced hbalanced hsingle ho hx
        kept := fun o ho => by
          obtain ⟨hsingle, hsole, hdirty⟩ := h.kept o ho
          exact ⟨hsingle, hsole.rerun hsingle, (congrFun (dirty_rerun _ _) o).trans hdirty⟩ }
  · have halike := Alike.of_sameFor (.of_run h.html hother hne w.sel)
    refine h.thinned halike.thinned h.html fun o ho => ?_
    obtain ⟨hsingle, hsole, hdirty⟩ := h.kept o ho
    exact ⟨hsingle, halike.sole hsole, (congrFun (dirty_run _ _) o).trans hdirty⟩

theorem runInv_of_run (h : Run select w₀ last recent w) : RunInv select last recent w := by
  induction h with
  | start hselect hbalanced =>
    exact {
      html := hselect
      marked := fun hm => .inr (hbalanced hm)
      atMostOne := fun hlast => absurd rfl hlast
      kept := fun _ heq => by cases heq }
  | read other _ hother ih => exact ih.read hother
  | step _ hchange ih => exact ih.step hchange

theorem normalized_run (σ : Selection) (select : BlitzId) :
    (doc.runSelectednessSetting σ select).2.normalized select = true := by
  unfold runSelectednessSetting
  split
  · assumption
  · dsimp only
    split <;> exact Function.update_self _ _ _

/-- Selectedness in every state that a run reaches. -/
theorem settled_of_run {select : BlitzId} {w₀ w : World} {last : Option Op}
    {recent : Option BlitzId} (h : Run select w₀ last recent w) : Settled select last recent w := by
  have hinv := runInv_of_run h
  refine {
    atMostOne := hinv.atMostOne
    recent := fun o ho => (hinv.kept o ho).sole
    exactlyOne := fun hset hsingle hsize henabled => ?_
    normalized := fun hm => (hinv.marked hm).imp_right unchanged_of_balanced
    idempotent := runSelectednessSetting_of_normalized (normalized_run w.sel select) }
  cases hm : w.sel.normalized select with
  | true =>
    have hbalanced := (hinv.marked hm).resolve_left (by
      rintro ⟨op, hlast, hsetter⟩
      rw [hset op hlast] at hsetter
      cases hsetter)
    rw [runSelectednessSetting_of_normalized hm]
    exact sole_of_balanced hbalanced hsingle hsize henabled
  | false =>
    rw [run_of_unmarked hm]
    exact sole_of_balanced (balanced_rerun _ _) hsingle hsize henabled

theorem nodup_twoOptions : ([2, 3] : List Nat).Nodup := by decide

theorem notMem_twoOptions : 1 ∉ ([2, 3] : List Nat) := by decide

/-- A select with two options. -/
def twoOptions : Parsed where
  id := 0
  tree := Forest.star 1 [2, 3] nodup_twoOptions notMem_twoOptions
  data
    | 1 => some (.element ⟨htmlNamespace, "select", [], [], false, false⟩)
    | 2 | 3 => some (.element ⟨htmlNamespace, "option", [], [], false, false⟩)
    | _ => none
  nodes := [1, 2, 3]
  mem_nodes n h := by
    match n with
    | 1 | 2 | 3 => simp
    | 0 | _ + 4 => cases h
  data_of_parent c p h := by
    match c with
    | 1 | 2 | 3 => rfl
    | 0 | _ + 4 => simp [Forest.star] at h
  rootNode := 0
  disabledByFieldset _ := false

theorem data_of_oneOption (c p : BlitzId) (h : (Forest.star 1 [3] (List.nodup_singleton 3)
    (by decide)).parent c = some p) : (twoOptions.data c).isSome = true := by
  have hc : c = 3 := by
    by_contra hne
    simp [Forest.star, hne] at h
  rw [hc]
  rfl

/-- The select after its first option was taken out. -/
def oneOption : Parsed :=
  { twoOptions with
    tree := Forest.star 1 [3] (List.nodup_singleton 3) (by decide)
    data_of_parent := data_of_oneOption }

theorem selectOptions_of_childless (h : doc.tree.children select = []) :
    doc.selectOptions select = [] := by
  rw [selectOptions, h]
  rfl

/-- Taking the first option out drops the mark. -/
theorem thinned_oneOption (σ : Selection) (select : BlitzId) :
    Thinned select ⟨twoOptions, σ⟩ ⟨oneOption, σ.invalidate 1⟩ := by
  by_cases h : select = 1
  · subst h
    exact {
      options := show (oneOption.selectOptions 1).Sublist (twoOptions.selectOptions 1) by
        decide +kernel
      single := rfl
      size := rfl
      disabled := show ∀ o ∈ oneOption.selectOptions 1,
        oneOption.optionDisabled o = twoOptions.optionDisabled o by decide +kernel
      selected := fun _ _ => rfl
      marked := fun hm => by simp [Selection.invalidate] at hm }
  · have hone : oneOption.selectOptions select = [] := selectOptions_of_childless (if_neg h)
    have htwo : twoOptions.selectOptions select = [] := selectOptions_of_childless (if_neg h)
    exact {
      options := by simp [hone]
      single := rfl
      size := rfl
      disabled := by simp [hone]
      selected := fun _ _ => rfl
      marked := fun hm => ⟨by simpa [Selection.invalidate, h] using hm, hone.trans htwo.symm⟩ }

/-- Script selects the second option, the first is taken out, the second is put in again, and a reader
looks at the select. -/
theorem settled_of_run_oneOption : ∃ σ : Selection, σ.selected 3 = true ∧
    Settled 1 (some (.optionsInserted [3])) (some 3) ⟨oneOption, σ⟩ := by
  have hnamed : ∀ {doc : Parsed} {options : List BlitzId} {select : BlitzId},
      (Op.optionsInserted options).addresses doc select = true →
        doc.isHtmlElement select "select" = true := by
    intro doc options select h
    obtain ⟨o, -, ho⟩ := List.any_eq_true.1 h
    exact isHtmlElement_of_owner (beq_iff_eq.1 ho)
  have hsame : ∀ w select, Thinned select w w := fun w select =>
    Alike.thinned ⟨rfl, rfl, rfl, fun _ _ => rfl, fun _ _ => rfl, rfl⟩
  have hselected : Change (.setOptionSelected 3 true) ⟨twoOptions, .fresh⟩ ⟨twoOptions, .fresh⟩ := {
    named := fun _ h => isHtmlElement_of_owner (beq_iff_eq.1 h)
    html := fun _ h => h
    elsewhere := fun _ _ => hsame _ _
    options := fun _ _ _ h => h
    selected := fun _ _ _ => rfl
    dirty := fun _ _ => rfl }
  have htaken : ∀ σ : Selection,
      Change (.optionsInserted []) ⟨twoOptions, σ⟩ ⟨oneOption, σ.invalidate 1⟩ := fun σ => {
    named := fun _ h => hnamed h
    html := fun _ h => h
    elsewhere := fun select _ => thinned_oneOption σ select
    options := fun select _ _ h => (thinned_oneOption σ select).options.subset h
    selected := fun _ _ _ => rfl
    dirty := fun _ _ => rfl }
  have hput : ∀ σ : Selection, Change (.optionsInserted [3]) ⟨oneOption, σ⟩ ⟨oneOption, σ⟩ := fun σ => {
    named := fun _ h => hnamed h
    html := fun _ h => h
    elsewhere := fun _ _ => hsame _ _
    options := fun _ _ _ h => h
    selected := fun _ _ _ => rfl
    dirty := fun _ _ => rfl }
  have hstart : Run 1 ⟨twoOptions, .fresh⟩ none none ⟨twoOptions, .fresh⟩ :=
    .start (by decide +kernel) (by rintro ⟨⟩)
  have hrun := (((hstart.step hselected).step (htaken _)).step (hput _)).read 1 (by decide +kernel)
  have hsettled := settled_of_run hrun
  refine ⟨_, ?_, (by convert hsettled using 1 <;> decide +kernel)⟩
  decide +kernel

/-- A reset takes the selection back from the option that script has selected. -/
theorem not_selected_after_reset :
    (twoOptions.setOptionSelected .fresh 3 true).selected 3 = true ∧
      (twoOptions.resetSelectSelectedness (twoOptions.setOptionSelected .fresh 3 true)
        1).selected 3 = false ∧
      (twoOptions.resetSelectSelectedness (twoOptions.setOptionSelected .fresh 3 true)
        1).selected 2 = true := by
  decide +kernel

end TinyBrowser.Forms
