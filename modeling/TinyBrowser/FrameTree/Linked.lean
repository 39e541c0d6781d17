import TinyBrowser.FrameTree.Basic

/-!
# The maps of a frame tree describe one forest

`Linked t F` says that the child lists and the origins of `t` are the forest `F`, that the owners are
the containers read backwards, and that only live frames have entries. Adding a child is `insert` in
the forest, a reposition is `attach`, and a removal of frames with all that is below them is
`detachAll`.
-/

namespace TinyBrowser
open Lib

namespace FrameTree

variable {t t' : FrameTree} {F : Forest FrameId} {f c p : FrameId} {l : List FrameId}

structure Linked (t : FrameTree) (F : Forest FrameId) : Prop where
  children : t.childrenOf = F.children
  parent : t.parent = F.parent
  owners : ∀ n f, t.owners.get? n = some f ↔ t.container f = some n
  main : t.contains FrameId.main = false
  alive : ∀ f p, t.parent f = some p → t.isAlive p = true
  listed : ∀ f, t.isAlive f = false → t.children.get? f = none
  named : ∀ f, t.isAlive f = false → t.names.get? f = none
  sandboxed : ∀ f, t.isAlive f = false → t.popupSandbox.get? f = none

theorem linked_empty : Linked {} .empty where
  children := rfl
  parent := rfl
  owners _ _ := by simp [FrameTree.container]
  main := rfl
  alive := nofun
  listed _ _ := rfl
  named _ _ := rfl
  sandboxed _ _ := rfl

/-! ### Readings -/

theorem contains_eq (t : FrameTree) (f : FrameId) : t.contains f = (t.origins.get? f).isSome := rfl

theorem isAlive_eq_false : t.isAlive f = false ↔ f ≠ FrameId.main ∧ t.contains f = false := by
  simp [isAlive]

theorem contains_of_parent (h : t.parent f = some p) : t.contains f = true := by
  rw [contains_eq]
  unfold FrameTree.parent at h
  cases horigin : t.origins.get? f with
  | none => rw [horigin] at h; cases h
  | some origin => rfl

theorem contains_of_container {n : ElementId} (h : t.container f = some n) :
    t.contains f = true := by
  rw [contains_eq]
  unfold FrameTree.container at h
  cases horigin : t.origins.get? f with
  | none => rw [horigin] at h; cases h
  | some origin => rfl

theorem contains_of_opener (h : t.opener f = some p) : t.contains f = true := by
  rw [contains_eq]
  unfold FrameTree.opener at h
  cases horigin : t.origins.get? f with
  | none => rw [horigin] at h; cases h
  | some origin => rfl

theorem parent_of_not_contains (h : t.contains f = false) : t.parent f = none := by
  cases hp : t.parent f with
  | none => rfl
  | some p => rw [contains_of_parent hp] at h; cases h

theorem container_of_not_contains (h : t.contains f = false) : t.container f = none := by
  rw [contains_eq, Option.isSome_eq_false_iff, Option.isNone_iff_eq_none] at h
  rw [FrameTree.container, h]

theorem isAlive_of_contains (h : t.contains f = true) : t.isAlive f = true := by
  rw [isAlive, h, Bool.or_true]

/-- What the maps of origins say of a frame is all that parents and containers read. -/
theorem parent_congr (h : t'.origins.get? c = t.origins.get? f) : t'.parent c = t.parent f := by
  rw [FrameTree.parent, FrameTree.parent, h]

theorem container_congr (h : t'.origins.get? c = t.origins.get? f) :
    t'.container c = t.container f := by
  rw [FrameTree.container, FrameTree.container, h]

theorem Linked.isAlive_of_parent (h : Linked t F) (hp : F.parent f = some p) :
    t.isAlive f = true ∧ t.isAlive p = true := by
  rw [← h.parent] at hp
  exact ⟨isAlive_of_contains (contains_of_parent hp), h.alive f p hp⟩

/-- Live frames have live frames above and below them. -/
theorem Linked.isAlive_of_mem_chain (h : Linked t F) (hc : c ∈ F.chain f) :
    t.isAlive f = t.isAlive c := by
  induction f using F.induction_up with
  | root f hf =>
    rw [Forest.chain_of_root hf, List.mem_singleton] at hc
    rw [hc]
  | child f p hp ih =>
    obtain ⟨h1, h2⟩ := h.isAlive_of_parent hp
    rcases (Forest.mem_chain_of_parent hp).1 hc with rfl | hc
    · rfl
    · rw [h1, ← ih hc, h2]

theorem Linked.mem_keys (h : Linked t F) (c p : FrameId) (hp : F.parent c = some p) :
    c ∈ t.origins.keys := by
  rw [← h.parent] at hp
  exact (Dict.contains_iff ..).1 (contains_of_parent hp)

/-! ### Placing a child -/

theorem insertIdx_length_append (a b : List FrameId) (x : FrameId) :
    (a ++ b).insertIdx a.length x = a ++ x :: b := by
  induction a with
  | nil => rfl
  | cons y a ih =>
    rw [List.cons_append, List.length_cons, List.insertIdx_succ_cons, ih]
    rfl

theorem placeChild_eq (siblings : List FrameId) (child : FrameId) (before : Option FrameId) :
    placeChild siblings child before =
      place siblings [child] (before.filter fun target => target ∈ siblings) := by
  cases before with
  | none => rfl
  | some target =>
    rw [placeChild, Option.bind_some]
    by_cases hmem : target ∈ siblings
    · obtain ⟨a, b, rfl, ha⟩ := List.eq_append_cons_of_mem hmem
      have hfirst : a.findIdx? (fun frame => frame = target) = none := by
        rw [List.findIdx?_eq_none_iff]
        intro x hx
        rw [decide_eq_false_iff_not]
        rintro rfl
        exact ha hx
      rw [List.findIdx?_append, hfirst, List.findIdx?_cons, if_pos (by simp),
        Option.filter_some_pos (by simp), place_split ha]
      simp only [Option.map_some, Option.none_or, Nat.zero_add]
      rw [insertIdx_length_append, List.append_assoc]
      rfl
    · have hindex : siblings.findIdx? (fun frame => frame = target) = none := by
        rw [List.findIdx?_eq_none_iff]
        intro x hx
        rw [decide_eq_false_iff_not]
        rintro rfl
        exact hmem hx
      rw [hindex, Option.filter_some_neg (by simpa using hmem)]
      rfl

section
variable {n : ElementId} {before : Option FrameId}

theorem origins_defaultName (c : FrameId) : (t.defaultName c).origins = t.origins := by
  unfold defaultName
  split_ifs <;> rfl

theorem children_defaultName (c : FrameId) : (t.defaultName c).children = t.children := by
  unfold defaultName
  split_ifs <;> rfl

theorem owners_defaultName (c : FrameId) : (t.defaultName c).owners = t.owners := by
  unfold defaultName
  split_ifs <;> rfl

theorem popupSandbox_defaultName (c : FrameId) :
    (t.defaultName c).popupSandbox = t.popupSandbox := by
  unfold defaultName
  split_ifs <;> rfl

theorem names_defaultName (hf : f ≠ c) : (t.defaultName c).names.get? f = t.names.get? f := by
  unfold defaultName
  split_ifs
  · rfl
  · rw [Dict.get?_insert, if_neg hf]

theorem origins_addContainer : (t.addContainer p c n before).origins.get? f =
    if f = c then some (.container p n) else t.origins.get? f := by
  rw [addContainer, origins_defaultName, Dict.get?_insert]

theorem childLists_addContainer : (t.addContainer p c n before).children.get? f =
    if f = p then some (placeChild (t.childrenOf p) c before) else t.children.get? f := by
  rw [addContainer, children_defaultName, Dict.get?_insert]

theorem owners_addContainer {m : ElementId} : (t.addContainer p c n before).owners.get? m =
    if m = n then some c else t.owners.get? m := by
  rw [addContainer, owners_defaultName, Dict.get?_insert]

theorem parent_addContainer :
    (t.addContainer p c n before).parent f = if f = c then some p else t.parent f := by
  rw [FrameTree.parent, origins_addContainer]
  split_ifs <;> rfl

theorem container_addContainer :
    (t.addContainer p c n before).container f = if f = c then some n else t.container f := by
  rw [FrameTree.container, origins_addContainer]
  split_ifs <;> rfl

theorem isAlive_addContainer :
    (t.addContainer p c n before).isAlive f = (t.isAlive f || f = c) := by
  rw [isAlive, isAlive, contains_eq, contains_eq, origins_addContainer]
  split_ifs with hf
  · simp [hf]
  · simp [hf]

theorem Linked.fits (h : Linked t F) (hc : t.isAlive c = false) (hp : t.isAlive p = true)
    (before : Option FrameId) :
    F.Fits p c (before.filter fun target => target ∈ F.children p) where
  detached := by rw [← h.parent, parent_of_not_contains (isAlive_eq_false.1 hc).2]
  acyclic hchain := by
    rw [h.isAlive_of_mem_chain hchain, hc] at hp
    cases hp
  ref_mem r hr := of_decide_eq_true (Option.filter_eq_some_iff.1 hr).2

theorem Linked.addContainer (h : Linked t F) (hc : t.isAlive c = false) (hp : t.isAlive p = true)
    (hn : t.owners.get? n = none) : Linked (t.addContainer p c n before)
      (F.insert p c (before.filter fun target => target ∈ F.children p)) := by
  have hfits := h.fits hc hp before
  obtain ⟨hmain, hcontains⟩ := isAlive_eq_false.1 hc
  -- a dead frame is not live before, and is not the new one
  have hdead (f : FrameId) (hf : (t.addContainer p c n before).isAlive f = false) :
      t.isAlive f = false ∧ f ≠ c := by
    rw [isAlive_addContainer, Bool.or_eq_false_iff] at hf
    exact ⟨hf.1, of_decide_eq_false hf.2⟩
  refine ⟨?_, ?_, fun m f => ?_, ?_, fun f q hq => ?_, fun f hf => ?_, fun f hf => ?_,
    fun f hf => ?_⟩
  · funext q
    rw [hfits.children_insert, childrenOf, childLists_addContainer, placeChild_eq, ← h.children]
    split_ifs <;> rfl
  · funext f
    rw [hfits.parent_insert, parent_addContainer, ← h.parent]
  · rw [owners_addContainer, container_addContainer]
    split_ifs with hm hf hf
    · rw [hm, hf]
      simp
    · subst hm
      rw [← h.owners, hn]
      simp [Ne.symm hf]
    · subst hf
      rw [h.owners, container_of_not_contains hcontains]
      simp [Ne.symm hm]
    · exact h.owners m f
  · rw [contains_eq, origins_addContainer, if_neg (Ne.symm hmain)]
    exact h.main
  · rw [parent_addContainer] at hq
    rw [isAlive_addContainer, Bool.or_eq_true]
    split_ifs at hq with hf
    · exact .inl (Option.some.inj hq ▸ hp)
    · exact .inl (h.alive f q hq)
  · have hfp : f ≠ p := by
      rintro rfl
      rw [(hdead f hf).1] at hp
      cases hp
    rw [childLists_addContainer, if_neg hfp]
    exact h.listed f (hdead f hf).1
  · rw [FrameTree.addContainer, names_defaultName (hdead f hf).2]
    exact h.named f (hdead f hf).1
  · rw [FrameTree.addContainer, popupSandbox_defaultName]
    exact h.sandboxed f (hdead f hf).1

end

/-! ### Other updates -/

/-- An update of a live frame's name or flags, or of frames that stay where they are. -/
theorem Linked.congr (h : Linked t F) (horigins : t'.origins = t.origins)
    (hchildren : t'.children = t.children) (howners : t'.owners = t.owners)
    (hnames : ∀ f, t.isAlive f = false → t'.names.get? f = t.names.get? f)
    (hsandbox : ∀ f, t.isAlive f = false → t'.popupSandbox.get? f = t.popupSandbox.get? f) :
    Linked t' F := by
  have halive (f : FrameId) : t'.isAlive f = t.isAlive f := by
    rw [isAlive, isAlive, contains_eq, contains_eq, horigins]
  have hparent : t'.parent = t.parent := funext fun f => parent_congr (by rw [horigins])
  have hcontainer (f : FrameId) : t'.container f = t.container f := container_congr (by rw [horigins])
  refine ⟨?_, hparent.trans h.parent, fun n f => ?_, ?_, fun f p hp => ?_, fun f hf => ?_,
    fun f hf => ?_, fun f hf => ?_⟩
  · rw [← h.children]
    funext q
    rw [childrenOf, childrenOf, hchildren]
  · rw [howners, hcontainer]
    exact h.owners n f
  · rw [contains_eq, horigins]
    exact h.main
  · rw [halive]
    exact h.alive f p (hparent ▸ hp)
  · rw [hchildren]
    exact h.listed f (halive f ▸ hf)
  · rw [hnames f (halive f ▸ hf)]
    exact h.named f (halive f ▸ hf)
  · rw [hsandbox f (halive f ▸ hf)]
    exact h.sandboxed f (halive f ▸ hf)

theorem Linked.setName (h : Linked t F) (hf : t.isAlive f = true) (name : Text) :
    Linked (t.setName f name) F := by
  refine h.congr rfl rfl rfl (fun g hg => ?_) fun _ _ => rfl
  rw [FrameTree.setName, Dict.get?_insert, if_neg]
  rintro rfl
  rw [hf] at hg
  cases hg

theorem setPopupSandbox_of_ne (hf : f ≠ c) (sandbox : SandboxFlags) :
    (t.setPopupSandbox c sandbox).popupSandbox.get? f = t.popupSandbox.get? f := by
  unfold setPopupSandbox
  split_ifs <;> simp [hf]

theorem setPopupSandbox_fields (f : FrameId) (sandbox : SandboxFlags) :
    (t.setPopupSandbox f sandbox).origins = t.origins ∧
      (t.setPopupSandbox f sandbox).children = t.children ∧
      (t.setPopupSandbox f sandbox).owners = t.owners ∧
      (t.setPopupSandbox f sandbox).names = t.names := by
  unfold setPopupSandbox
  split_ifs <;> exact ⟨rfl, rfl, rfl, rfl⟩

theorem Linked.setPopupSandbox (h : Linked t F) (hf : t.isAlive f = true) (sandbox : SandboxFlags) :
    Linked (t.setPopupSandbox f sandbox) F := by
  obtain ⟨horigins, hchildren, howners, hnames⟩ := t.setPopupSandbox_fields f sandbox
  refine h.congr horigins hchildren howners (fun g _ => by rw [hnames])
    fun g hg => setPopupSandbox_of_ne ?_ sandbox
  rintro rfl
  rw [hf] at hg
  cases hg

theorem addAuxiliary_fields (opener c : FrameId) (openerVisible : Bool) (sandbox : SandboxFlags) :
    (t.addAuxiliary opener c openerVisible sandbox).origins =
        t.origins.insert c (.auxiliary opener openerVisible) ∧
      (t.addAuxiliary opener c openerVisible sandbox).children = t.children ∧
      (t.addAuxiliary opener c openerVisible sandbox).owners = t.owners ∧
      (t.addAuxiliary opener c openerVisible sandbox).names = (FrameTree.defaultName { t with
        origins := t.origins.insert c (.auxiliary opener openerVisible) } c).names := by
  obtain ⟨horigins, hchildren, howners, hnames⟩ := (FrameTree.defaultName { t with
    origins := t.origins.insert c (.auxiliary opener openerVisible) } c).setPopupSandbox_fields c
    sandbox
  rw [origins_defaultName] at horigins
  rw [children_defaultName] at hchildren
  rw [owners_defaultName] at howners
  exact ⟨horigins, hchildren, howners, hnames⟩

theorem isAlive_addAuxiliary {opener : FrameId} {openerVisible : Bool} {sandbox : SandboxFlags} :
    (t.addAuxiliary opener c openerVisible sandbox).isAlive f = (t.isAlive f || f = c) := by
  rw [isAlive, isAlive, contains_eq, contains_eq, (t.addAuxiliary_fields ..).1, Dict.get?_insert]
  split_ifs with hf <;> simp [hf]

theorem Linked.addAuxiliary (h : Linked t F) (hc : t.isAlive c = false) (opener : FrameId)
    (openerVisible : Bool) (sandbox : SandboxFlags) :
    Linked (t.addAuxiliary opener c openerVisible sandbox) F := by
  obtain ⟨hmain, hcontains⟩ := isAlive_eq_false.1 hc
  obtain ⟨horigins, hchildren, howners, hnames⟩ :=
    t.addAuxiliary_fields opener c openerVisible sandbox
  set t' := t.addAuxiliary opener c openerVisible sandbox with ht'
  have horigin (f : FrameId) : t'.origins.get? f =
      if f = c then some (.auxiliary opener openerVisible) else t.origins.get? f := by
    rw [horigins, Dict.get?_insert]
  have hparent : t'.parent = t.parent := by
    funext f
    by_cases hf : f = c
    · rw [FrameTree.parent, horigin, if_pos hf, hf, parent_of_not_contains hcontains]
    · exact parent_congr (by rw [horigin, if_neg hf])
  have hcontainer (f : FrameId) : t'.container f = t.container f := by
    by_cases hf : f = c
    · rw [FrameTree.container, horigin, if_pos hf, hf, container_of_not_contains hcontains]
    · exact container_congr (by rw [horigin, if_neg hf])
  have hdead (f : FrameId) (hf : t'.isAlive f = false) : t.isAlive f = false ∧ f ≠ c := by
    rw [isAlive_addAuxiliary, Bool.or_eq_false_iff] at hf
    exact ⟨hf.1, of_decide_eq_false hf.2⟩
  refine ⟨?_, hparent.trans h.parent, fun n f => ?_, ?_, fun f p hp => ?_, fun f hf => ?_,
    fun f hf => ?_, fun f hf => ?_⟩
  · rw [← h.children]
    funext q
    rw [childrenOf, hchildren]
    rfl
  · rw [hcontainer, howners]
    exact h.owners n f
  · rw [contains_eq, horigin, if_neg (Ne.symm hmain)]
    exact h.main
  · rw [isAlive_addAuxiliary, h.alive f p (hparent ▸ hp), Bool.true_or]
  · rw [hchildren]
    exact h.listed f (hdead f hf).1
  · rw [hnames, names_defaultName (hdead f hf).2]
    exact h.named f (hdead f hf).1
  · rw [ht', FrameTree.addAuxiliary, setPopupSandbox_of_ne (hdead f hf).2, popupSandbox_defaultName]
    exact h.sandboxed f (hdead f hf).1

theorem origins_reposition (rows : List (FrameId × List FrameId)) (before : Option FrameId) :
    (t.reposition rows c before).origins = t.origins := by
  unfold reposition
  split <;> rfl

/-- The row that a reposition finds is that of the parent, whatever the order of the scan. -/
theorem Linked.row {rows : List (FrameId × List FrameId)} {row : FrameId × List FrameId}
    (h : Linked t F) (hrows : rows.Perm t.children.pairs)
    (hrow : rows.find? (fun row => c ∈ row.2) = some row) :
    row.2 = F.children row.1 ∧ F.parent c = some row.1 := by
  have hmem := hrows.mem_iff.1 (List.mem_of_find?_eq_some hrow)
  have hsiblings : t.childrenOf row.1 = row.2 := by
    rw [childrenOf, (Dict.get?_eq_some_iff ..).2 hmem]
    rfl
  rw [← h.children, hsiblings]
  refine ⟨rfl, F.mem_children.1 ?_⟩
  rw [← h.children, hsiblings]
  simpa using List.find?_some hrow

theorem Linked.reposition {rows : List (FrameId × List FrameId)} (h : Linked t F)
    (hrows : rows.Perm t.children.pairs) (c : FrameId) (before : Option FrameId) :
    ∃ F', Linked (t.reposition rows c before) F' := by
  unfold FrameTree.reposition
  cases hrow : rows.find? fun row => c ∈ row.2 with
  | none => exact ⟨F, h⟩
  | some row =>
    obtain ⟨p, siblings⟩ := row
    obtain ⟨hsiblings, hp⟩ := h.row hrows hrow
    dsimp only at hsiblings hp ⊢
    subst hsiblings
    set ref := before.filter fun target => target ∈ (F.children p).erase c with href
    have hjoins : F.Joins p c ref := by
      refine ⟨Forest.not_mem_chain_parent hp, fun r hr => ?_⟩
      have hmem := of_decide_eq_true (Option.filter_eq_some_iff.1 hr).2
      rw [(F.nodup p).mem_erase_iff] at hmem
      exact ⟨hmem.2, hmem.1⟩
    refine ⟨F.attach p c ref, ?_, ?_, h.owners, h.main, h.alive, fun f hf => ?_, h.named,
      h.sandboxed⟩
    · funext q
      rw [hjoins.children_attach, childrenOf, Dict.get?_insert]
      split_ifs with hq
      · rw [placeChild_eq, Option.getD_some]
      · have hnot : c ∉ F.children q := by
          rw [F.mem_children, hp, Option.some.injEq]
          exact Ne.symm hq
        rw [List.erase_of_not_mem hnot, ← h.children]
        rfl
    · funext f
      rw [Forest.attach, hjoins.fits.parent_insert]
      split_ifs with hf
      · rw [hf, ← hp, ← h.parent]
        rfl
      · rw [Forest.parent_detach_of_ne hf, ← h.parent]
        rfl
    · have hfp : f ≠ p := by
        rintro rfl
        exact absurd (h.isAlive_of_parent hp).2 (by rw [show t.isAlive f = false from hf]; simp)
      rw [Dict.get?_insert, if_neg hfp]
      exact h.listed f hf

end FrameTree

end TinyBrowser
