import TinyBrowser.Forms.Entries

/-!
# Operations on selectedness

The entry points that change which options of a `select` are selected. All but the two setters of
the select drop its mark and run the selectedness setting algorithm again, after which a single
select is in balance: what is selected is what the algorithm would select.
-/

namespace TinyBrowser.Forms
open Lib Text

inductive Dirtiness where
  | keep | set | clear

namespace Selection

/-- Stands for `set_selectedness` of Blitz's mutator, which is another crate: it writes a slot and does
what it says to the dirtiness flag. -/
def setSelectedness (σ : Selection) (o : BlitzId) (selected : Bool) (dirtiness : Dirtiness) :
    Selection :=
  { σ with
    selected := Function.update σ.selected o selected
    dirty := match dirtiness with
      | .keep => σ.dirty
      | .set => Function.update σ.dirty o true
      | .clear => Function.update σ.dirty o false }

def invalidate (σ : Selection) (select : BlitzId) : Selection :=
  { σ with normalized := Function.update σ.normalized select false }

def markNormalized (σ : Selection) (select : BlitzId) : Selection :=
  { σ with normalized := Function.update σ.normalized select true }

end Selection

namespace Parsed
variable (doc : Parsed)

def isSingle (select : BlitzId) : Bool := (doc.attr select "multiple").isNone

/-- The algorithm for a select whose mark is dropped first. -/
def rerunSelectednessSetting (σ : Selection) (select : BlitzId) : Selection :=
  (doc.runSelectednessSetting (σ.invalidate select) select).2

def clearOtherOptions (σ : Selection) (select keep : BlitzId) : Selection :=
  (doc.selectOptions select).foldl (fun σ o =>
    if o ≠ keep ∧ σ.selected o = true then σ.setSelectedness o false .keep else σ) σ

/-- An option of a batch with its select and the selectedness it arrived with. -/
def arrived (σ : Selection) (o : BlitzId) : Option (BlitzId × BlitzId × Bool) :=
  (doc.optionSelectOwner o).map fun select => (o, select, σ.selected o)

def insertOption (σ : Selection) : BlitzId × BlitzId × Bool → Selection
  | (o, select, selected) =>
    if selected then
      let σ := σ.setSelectedness o true .keep
      if doc.isSingle select then doc.clearOtherOptions σ select o else σ
    else σ

/-- Each value once, at the place of its first occurrence. -/
def firstOccurrences (values : List BlitzId) : List BlitzId :=
  values.foldl (fun found x => if x ∈ found then found else found ++ [x]) []

def optionsInserted (σ : Selection) (options : List BlitzId) : Selection :=
  let inserted := options.filterMap (doc.arrived σ)
  let selects := firstOccurrences (inserted.map (·.2.1))
  selects.foldl doc.rerunSelectednessSetting (inserted.foldl doc.insertOption σ)

/-- The `option.selected` setter. -/
def setOptionSelected (σ : Selection) (o : BlitzId) (selected : Bool) : Selection :=
  match doc.optionSelectOwner o with
  | some select =>
    let σ := if selected && doc.isSingle select then doc.clearOtherOptions σ select o else σ
    doc.rerunSelectednessSetting (σ.setSelectedness o selected .set) select
  | none => σ.setSelectedness o selected .set

/-- Selects `keep` alone and marks it dirty. -/
def selectOnlyOption (σ : Selection) (select : BlitzId) (keep : Option BlitzId) : Selection :=
  ((doc.selectOptions select).foldl (fun σ o =>
    let selected := decide (some o = keep)
    σ.setSelectedness o selected (if selected then .set else .keep)) σ).markNormalized select

def optionAtIndex (select : BlitzId) (value : Int) : Option BlitzId :=
  if 0 ≤ value then (doc.selectOptions select)[value.toNat]? else none

def setSelectSelectedIndexValue (σ : Selection) (select : BlitzId) (value : Int) : Selection :=
  doc.selectOnlyOption σ select (doc.optionAtIndex select value)

def firstMatching (select : BlitzId) (value : Text) : Option BlitzId :=
  (doc.selectOptions select).find? fun o => doc.optionValue o = value

def setSelectValueSelectedness (σ : Selection) (select : BlitzId) (value : Text) : Selection :=
  doc.selectOnlyOption σ select (doc.firstMatching select value)

def optionSelectedAttributeChanged (σ : Selection) (o : BlitzId) : Selection :=
  match doc.optionSelectOwner o with
  | none => σ
  | some select =>
    let selected := !σ.dirty o && σ.selected o
    let σ := if selected && doc.isSingle select then doc.clearOtherOptions σ select o else σ
    doc.rerunSelectednessSetting σ select

/-- The walk over the options when `multiple` has gone: all selected ones but the first are cleared. -/
def keepFirst : Bool → Selection → List BlitzId → Selection
  | _, σ, [] => σ
  | seen, σ, o :: options =>
    if σ.selected o then
      keepFirst true (if seen then σ.setSelectedness o false .keep else σ) options
    else keepFirst seen σ options

def selectAttributeChanged (σ : Selection) (select : BlitzId) (localName : String) : Selection :=
  let σ := if localName = "multiple" ∧ doc.isSingle select = true then
    keepFirst false σ (doc.selectOptions select) else σ
  doc.rerunSelectednessSetting σ select

def resetSelectSelectedness (σ : Selection) (select : BlitzId) : Selection :=
  doc.rerunSelectednessSetting ((doc.selectOptions select).foldl (fun σ o =>
    σ.setSelectedness o (doc.attr o "selected").isSome .clear) σ) select

/-! ### Slots -/

variable {doc} {σ τ : Selection} {select other o x keep : BlitzId}

theorem isSome_multiple : (doc.attr select "multiple").isSome = !doc.isSingle select := by
  rw [isSingle]
  cases doc.attr select "multiple" <;> rfl

theorem selected_setSelectedness (selected : Bool) (dirtiness : Dirtiness) :
    (σ.setSelectedness o selected dirtiness).selected x =
      if x = o then selected else σ.selected x := by
  by_cases hx : x = o <;> simp [Selection.setSelectedness, Function.update, hx]

theorem selected_foldl_setSelectedness (value : BlitzId → Bool) (dirtiness : BlitzId → Dirtiness)
    (options : List BlitzId) (σ : Selection) :
    (options.foldl (fun σ o => σ.setSelectedness o (value o) (dirtiness o)) σ).selected =
      options.foldl (fun selected o => Function.update selected o (value o)) σ.selected := by
  induction options generalizing σ with
  | nil => rfl
  | cons o options ih => exact ih _

theorem selected_clearOtherOptions :
    (doc.clearOtherOptions σ select keep).selected x =
      if x ∈ doc.selectOptions select ∧ x ≠ keep then false else σ.selected x := by
  unfold clearOtherOptions
  induction doc.selectOptions select generalizing σ with
  | nil => simp
  | cons o options ih =>
    rw [List.foldl_cons, ih]
    simp only [List.mem_cons]
    by_cases hx : x = o
    · subst hx
      by_cases hk : x = keep
      · simp [hk]
      · cases hs : σ.selected x <;> simp [hk, hs, selected_setSelectedness]
    · have hcleared : (if o ≠ keep ∧ σ.selected o = true then σ.setSelectedness o false .keep
          else σ).selected x = σ.selected x := by
        split
        · rw [selected_setSelectedness, if_neg hx]
        · rfl
      rw [hcleared]
      simp [hx]

theorem selected_selectOnlyOption (keep : Option BlitzId) (ho : o ∈ doc.selectOptions select) :
    (doc.selectOnlyOption σ select keep).selected o = decide (some o = keep) := by
  unfold selectOnlyOption
  refine (congrFun (selected_foldl_setSelectedness (fun o => decide (some o = keep)) _ _ σ) o).trans ?_
  exact foldl_update_of_mem (fun o => decide (some o = keep)) ho

/-! ### Balance -/

/-- What is selected in a single select is what the selectedness setting algorithm would select. -/
def Balanced (doc : Parsed) (σ : Selection) (select : BlitzId) : Prop :=
  doc.isSingle select = true →
    ∀ o ∈ doc.selectOptions select, σ.selected o = decide (doc.desiredOption σ select = some o)

/-- One option of the list is selected alone. -/
structure Sole (doc : Parsed) (σ : Selection) (select o : BlitzId) : Prop where
  mem : o ∈ doc.selectOptions select
  selected : ∀ x ∈ doc.selectOptions select, σ.selected x = decide (x = o)

theorem Sole.desiredOption (h : Sole doc σ select o) : doc.desiredOption σ select = some o := by
  have hfind : (doc.selectOptions select).reverse.find? σ.selected = some o := by
    cases hx : (doc.selectOptions select).reverse.find? σ.selected with
    | none =>
      have hnone := List.find?_eq_none.1 hx o (List.mem_reverse.2 h.mem)
      simp [h.selected o h.mem] at hnone
    | some x =>
      have hmem := List.mem_reverse.1 (List.mem_of_find?_eq_some hx)
      have hselected := List.find?_some hx
      rw [h.selected x hmem, decide_eq_true_eq] at hselected
      rw [hselected]
  rw [Parsed.desiredOption, hfind]

theorem mem_of_desiredOption (h : doc.desiredOption σ select = some o) :
    o ∈ doc.selectOptions select := by
  unfold desiredOption at h
  dsimp only at h
  split at h
  · rename_i x hx
    obtain rfl := Option.some.inj h
    exact List.mem_reverse.1 (List.mem_of_find?_eq_some hx)
  · split at h
    · exact List.mem_of_find?_eq_some h
    · cases h

theorem selected_rerun (hsingle : doc.isSingle select = true) (ho : o ∈ doc.selectOptions select) :
    (doc.rerunSelectednessSetting σ select).selected o =
      decide (doc.desiredOption σ select = some o) := by
  have hmultiple : (doc.attr select "multiple").isSome = false := by
    rw [isSome_multiple, hsingle]
    rfl
  exact selected_of_single (σ := σ.invalidate select) (Function.update_self _ _ _) hmultiple ho

/-- The algorithm has the same outcome after itself. -/
theorem desiredOption_rerun (hsingle : doc.isSingle select = true) :
    doc.desiredOption (doc.rerunSelectednessSetting σ select) select =
      doc.desiredOption σ select := by
  cases hd : doc.desiredOption σ select with
  | some d =>
    refine Sole.desiredOption ⟨mem_of_desiredOption hd, fun x hx => ?_⟩
    rw [selected_rerun hsingle hx, hd]
    simp [eq_comm]
  | none =>
    have hnone : ∀ o ∈ doc.selectOptions select,
        (doc.rerunSelectednessSetting σ select).selected o = false := by
      intro o ho
      rw [selected_rerun hsingle ho, hd]
      rfl
    have hfind : ∀ τ : Selection, (∀ o ∈ doc.selectOptions select, τ.selected o = false) →
        (doc.selectOptions select).reverse.find? τ.selected = none := by
      intro τ hτ
      refine List.find?_eq_none.2 fun o ho => ?_
      simp [hτ o (List.mem_reverse.1 ho)]
    unfold desiredOption at hd ⊢
    dsimp only at hd ⊢
    rw [hfind _ hnone]
    split at hd
    · cases hd
    · exact hd

theorem balanced_rerun (σ : Selection) (select : BlitzId) :
    Balanced doc (doc.rerunSelectednessSetting σ select) select := by
  intro hsingle o ho
  rw [selected_rerun hsingle ho, desiredOption_rerun hsingle]

theorem Sole.rerun (h : Sole doc σ select o) (hsingle : doc.isSingle select = true) :
    Sole doc (doc.rerunSelectednessSetting σ select) select o := by
  refine ⟨h.mem, fun x hx => ?_⟩
  rw [selected_rerun hsingle hx, h.desiredOption]
  simp [eq_comm]

theorem Sole.selectOnlyOption (ho : o ∈ doc.selectOptions select) :
    Sole doc (doc.selectOnlyOption σ select (some o)) select o := by
  refine ⟨ho, fun x hx => ?_⟩
  rw [selected_selectOnlyOption _ hx]
  simp

/-! ### Other selects -/

theorem SameFor.refl (doc : Parsed) (select : BlitzId) (σ : Selection) : SameFor doc select σ σ :=
  ⟨fun _ _ => rfl, rfl⟩

theorem SameFor.setSelectedness (h : o ∉ doc.selectOptions select) (σ : Selection) (selected : Bool)
    (dirtiness : Dirtiness) : SameFor doc select σ (σ.setSelectedness o selected dirtiness) where
  selected x hx := by
    have hxo : x ≠ o := fun hxo => h (hxo ▸ hx)
    rw [selected_setSelectedness, if_neg hxo]
  normalized := rfl

theorem SameFor.foldl {α : Type} {f : Selection → α → Selection} {xs : List α}
    (h : ∀ x ∈ xs, ∀ σ, SameFor doc select σ (f σ x)) (σ : Selection) :
    SameFor doc select σ (xs.foldl f σ) := by
  induction xs generalizing σ with
  | nil => exact .refl doc select σ
  | cons x xs ih =>
    exact (h x List.mem_cons_self σ).trans
      (ih (fun y hy => h y (List.mem_cons_of_mem x hy)) _)

section
variable (hselect : doc.isHtmlElement select "select" = true)
  (hother : doc.isHtmlElement other "select" = true) (hne : select ≠ other)
include hselect hother hne

theorem SameFor.rerun (σ : Selection) :
    SameFor doc select σ (doc.rerunSelectednessSetting σ other) := by
  have hinvalidate : SameFor doc select σ (σ.invalidate other) :=
    ⟨fun _ _ => rfl, (Function.update_of_ne hne _ _).symm⟩
  exact hinvalidate.trans (.of_run hselect hother hne _)

theorem SameFor.clearOtherOptions (σ : Selection) (keep : BlitzId) :
    SameFor doc select σ (doc.clearOtherOptions σ other keep) := by
  refine .foldl (fun o ho σ => ?_) σ
  split
  · exact .setSelectedness (fun h => not_mem_selectOptions hselect hother hne h ho) σ _ _
  · exact .refl doc select σ

theorem SameFor.selectOnlyOption (σ : Selection) (keep : Option BlitzId) :
    SameFor doc select σ (doc.selectOnlyOption σ other keep) := by
  unfold Parsed.selectOnlyOption
  have hfold : SameFor doc select σ ((doc.selectOptions other).foldl (fun σ o =>
      σ.setSelectedness o (decide (some o = keep))
        (if decide (some o = keep) then .set else .keep)) σ) :=
    .foldl (fun o ho σ => .setSelectedness
      (fun h => not_mem_selectOptions hselect hother hne h ho) σ _ _) σ
  exact hfold.trans ⟨fun _ _ => rfl, (Function.update_of_ne hne _ _).symm⟩

theorem SameFor.keepFirst (seen : Bool) (σ : Selection) {options : List BlitzId}
    (h : ∀ o ∈ options, o ∈ doc.selectOptions other) :
    SameFor doc select σ (keepFirst seen σ options) := by
  induction options generalizing seen σ with
  | nil => exact .refl doc select σ
  | cons o options ih =>
    have hrest := fun x hx => h x (List.mem_cons_of_mem o hx)
    rw [Parsed.keepFirst]
    split
    · refine SameFor.trans ?_ (ih true _ hrest)
      split
      · exact .setSelectedness (fun ho =>
          not_mem_selectOptions hselect hother hne ho (h o List.mem_cons_self)) σ _ _
      · exact .refl doc select σ
    · exact ih seen σ hrest

end

theorem isHtmlElement_of_owner (h : doc.optionSelectOwner o = some select) :
    doc.isHtmlElement select "select" = true :=
  List.find?_some (p := fun n => doc.isHtmlElement n "select") h

/-- Inserting an option of one select is nothing to another. -/
theorem SameFor.insertOption (hselect : doc.isHtmlElement select "select" = true)
    {entry : BlitzId × BlitzId × Bool} (howner : doc.optionSelectOwner entry.1 = some entry.2.1)
    (hne : select ≠ entry.2.1) (σ : Selection) :
    SameFor doc select σ (doc.insertOption σ entry) := by
  obtain ⟨o, other, selected⟩ := entry
  have hother := isHtmlElement_of_owner howner
  have ho : o ∉ doc.selectOptions select := fun h => by
    have hsame := optionSelectOwner_of_mem hselect h
    rw [howner, Option.some.injEq] at hsame
    exact hne hsame.symm
  rw [Parsed.insertOption]
  split
  · dsimp only
    have hset := SameFor.setSelectedness ho σ true .keep
    split
    · exact hset.trans (.clearOtherOptions hselect hother hne _ _)
    · exact hset
  · exact .refl doc select σ

/-! ### Dirtiness -/

theorem dirty_foldl {α : Type} {f : Selection → α → Selection}
    (h : ∀ σ x, (f σ x).dirty = σ.dirty) (xs : List α) (σ : Selection) :
    (xs.foldl f σ).dirty = σ.dirty := by
  induction xs generalizing σ with
  | nil => rfl
  | cons x xs ih => rw [List.foldl_cons, ih, h]

theorem dirty_clearOtherOptions : (doc.clearOtherOptions σ select keep).dirty = σ.dirty := by
  refine dirty_foldl (fun σ o => ?_) _ σ
  split <;> rfl

theorem dirty_run (σ : Selection) (select : BlitzId) :
    (doc.runSelectednessSetting σ select).2.dirty = σ.dirty := by
  unfold runSelectednessSetting
  split
  · rfl
  · dsimp only
    split <;> rfl

theorem dirty_rerun (σ : Selection) (select : BlitzId) :
    (doc.rerunSelectednessSetting σ select).dirty = σ.dirty :=
  dirty_run _ _

theorem dirty_insertOption (σ : Selection) (entry : BlitzId × BlitzId × Bool) :
    (doc.insertOption σ entry).dirty = σ.dirty := by
  obtain ⟨o, select, selected⟩ := entry
  rw [insertOption]
  split
  · dsimp only
    split
    · rw [dirty_clearOtherOptions]
      rfl
    · rfl
  · rfl

theorem dirty_optionsInserted (options : List BlitzId) :
    (doc.optionsInserted σ options).dirty = σ.dirty := by
  unfold optionsInserted
  dsimp only
  rw [dirty_foldl dirty_rerun, dirty_foldl dirty_insertOption]

theorem dirty_keepFirst (seen : Bool) (options : List BlitzId) :
    (keepFirst seen σ options).dirty = σ.dirty := by
  induction options generalizing seen σ with
  | nil => rfl
  | cons o options ih =>
    rw [keepFirst]
    split
    · rw [ih]
      split <;> rfl
    · exact ih seen

theorem dirty_setSelectedness_set (h : σ.dirty x = true) (o : BlitzId) (selected : Bool) :
    (σ.setSelectedness o selected .set).dirty x = true := by
  by_cases hx : x = o
  · subst hx
    exact Function.update_self _ _ _
  · exact (Function.update_of_ne hx _ _).trans h

/-- The select's setters make the option they select dirty, and none clean. -/
theorem dirty_selectOnlyOption {keep : Option BlitzId}
    (h : σ.dirty x = true ∨ x ∈ doc.selectOptions select ∧ keep = some x) :
    (doc.selectOnlyOption σ select keep).dirty x = true := by
  change ((doc.selectOptions select).foldl _ σ).dirty x = true
  generalize doc.selectOptions select = options at h ⊢
  induction options generalizing σ with
  | nil => exact h.resolve_right fun h => by cases h.1
  | cons o options ih =>
    refine ih ?_
    by_cases hx : x = o ∧ keep = some x
    · obtain ⟨rfl, rfl⟩ := hx
      refine .inl ?_
      simp only [decide_true, if_true]
      exact Function.update_self _ _ _
    · rcases h with h | ⟨hmem, hkeep⟩
      · refine .inl ?_
        dsimp only
        split
        · exact dirty_setSelectedness_set h o _
        · exact h
      · exact .inr ⟨(List.mem_cons.1 hmem).resolve_left fun ho => hx ⟨ho, hkeep⟩, hkeep⟩

/-- With one option selected at most there is nothing for the walk to clear. -/
theorem keepFirst_of_sole {seen : Bool} {options : List BlitzId}
    (h : ∀ x ∈ options, σ.selected x = true → x = o) (hnodup : options.Nodup)
    (hseen : seen = true → o ∉ options) : keepFirst seen σ options = σ := by
  induction options generalizing seen with
  | nil => rfl
  | cons x options ih =>
    obtain ⟨hx, hnodup⟩ := List.nodup_cons.1 hnodup
    have hrest := fun y hy => h y (List.mem_cons_of_mem x hy)
    rw [keepFirst]
    split
    · rename_i hselected
      obtain rfl := h x List.mem_cons_self hselected
      have hnot : seen = false := by
        cases seen with
        | true => exact absurd List.mem_cons_self (hseen rfl)
        | false => rfl
      rw [hnot, if_neg Bool.false_ne_true]
      exact ih hrest hnodup fun _ => hx
    · exact ih hrest hnodup fun hs ho => hseen hs (List.mem_cons_of_mem x ho)

end Parsed

end TinyBrowser.Forms
