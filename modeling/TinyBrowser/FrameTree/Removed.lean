import TinyBrowser.FrameTree.Linked
import TinyBrowser.Messaging.Owners

/-!
# Frames that are removed

`remove` takes one frame out of the five maps. Between two removals the child list of a removed
parent is gone while its children still name it, so what a removal keeps is `Loose`, and what the
removals of a list of frames did is `Without`. Where the list goes down with the tree, the rest is
`Linked` again.

`Dropped` is what `Shared` loses with the frames of a list: their entries in the tree, documents and
ports, each with one report to the engine. `detach_child_frames` drops what is below a frame, and
its walk comes to an end in every forest.
-/

namespace TinyBrowser
open Lib

namespace FrameTree

variable {t t' t'' : FrameTree} {F : Forest FrameId} {f c p : FrameId} {l l' : List FrameId}

/-- What every removal keeps. -/
structure Loose (t : FrameTree) : Prop where
  listed : ∀ c p, c ∈ t.childrenOf p → t.parent c = some p
  owners : ∀ n f, t.owners.get? n = some f ↔ t.container f = some n

theorem Linked.loose (h : Linked t F) : Loose t := by
  refine ⟨fun c p hc => ?_, h.owners⟩
  rw [h.parent, ← F.mem_children, ← h.children]
  exact hc

/-- The frames of `l` have no entries in `t'`, and the other frames have theirs. -/
structure Without (l : List FrameId) (t t' : FrameTree) : Prop where
  origins : ∀ f, t'.origins.get? f = if f ∈ l then none else t.origins.get? f
  children : ∀ p, t'.childrenOf p = if p ∈ l then [] else (t.childrenOf p).filter (· ∉ l)
  lists : ∀ p, p ∈ l ∨ t.children.get? p = none → t'.children.get? p = none
  names : ∀ f, t'.names.get? f = if f ∈ l then none else t.names.get? f
  popupSandbox : ∀ f, t'.popupSandbox.get? f = if f ∈ l then none else t.popupSandbox.get? f
  loose : Loose t'

theorem Without.refl (h : Loose t) : Without [] t t where
  origins _ := by simp
  children p := by simp
  lists p hp := by simpa using hp
  names _ := by simp
  popupSandbox _ := by simp
  loose := h

theorem Without.trans (h : Without l t t') (h' : Without l' t' t'') : Without (l ++ l') t t'' where
  origins f := by
    rw [h'.origins, h.origins]
    by_cases hl : f ∈ l <;> by_cases hl' : f ∈ l' <;> simp [hl, hl']
  children p := by
    rw [h'.children, h.children]
    by_cases hl : p ∈ l <;> by_cases hl' : p ∈ l' <;> simp [hl, hl', List.filter_filter]
    exact List.filter_congr fun x _ => Bool.and_comm ..
  lists p hp := by
    apply h'.lists
    rcases hp with hp | hp
    · rcases List.mem_append.1 hp with hp | hp
      · exact .inr (h.lists p (.inl hp))
      · exact .inl hp
    · exact .inr (h.lists p (.inr hp))
  names f := by
    rw [h'.names, h.names]
    by_cases hl : f ∈ l <;> by_cases hl' : f ∈ l' <;> simp [hl, hl']
  popupSandbox f := by
    rw [h'.popupSandbox, h.popupSandbox]
    by_cases hl : f ∈ l <;> by_cases hl' : f ∈ l' <;> simp [hl, hl']
  loose := h'.loose

theorem Without.contains (h : Without l t t') (f : FrameId) :
    t'.contains f = (t.contains f && f ∉ l) := by
  rw [contains_eq, contains_eq, h.origins]
  split_ifs with hf <;> simp [hf]

theorem Without.parent (h : Without l t t') (f : FrameId) :
    t'.parent f = if f ∈ l then none else t.parent f := by
  rw [FrameTree.parent, h.origins]
  split_ifs <;> rfl

theorem Loose.filter_of_ne (h : Loose t) (hp : t.parent c ≠ some p) :
    (t.children.get? p).map (fun siblings => siblings.filter (· ∉ [c])) = t.children.get? p := by
  cases hlist : t.children.get? p with
  | none => rfl
  | some siblings =>
    rw [Option.map_some, Option.some.injEq, List.filter_eq_self]
    intro x hx
    rw [decide_eq_true_eq, List.mem_singleton]
    rintro rfl
    refine hp (h.listed x p ?_)
    rw [childrenOf, hlist]
    exact hx

/-- The entries of one frame go, and its container's. -/
theorem without_of_erase {lists : Dict FrameId (List FrameId)} {owners : Dict ElementId FrameId}
    (h : Loose t)
    (hlists : ∀ p, lists.get? p =
      (t.children.get? p).map fun siblings => siblings.filter (· ∉ [c]))
    (howners : ∀ n f, owners.get? n = some f ↔ f ≠ c ∧ t.container f = some n) :
    Without [c] t ⟨t.origins.erase c, lists.erase c, owners, t.names.erase c,
      t.popupSandbox.erase c⟩ := by
  set t' : FrameTree := ⟨t.origins.erase c, lists.erase c, owners, t.names.erase c,
    t.popupSandbox.erase c⟩
  have horigins (f : FrameId) : t'.origins.get? f = if f ∈ [c] then none else t.origins.get? f := by
    simp [t']
  have hchildren (p : FrameId) : t'.childrenOf p =
      if p ∈ [c] then [] else (t.childrenOf p).filter (· ∉ [c]) := by
    rw [childrenOf, Dict.get?_erase, hlists, childrenOf]
    by_cases hp : p = c
    · simp [hp]
    · cases t.children.get? p <;> simp [hp]
  refine ⟨horigins, hchildren, fun p hp => ?_, fun f => by simp [t'], fun f => by simp [t'],
    fun f p hf => ?_, fun n f => ?_⟩
  · rw [Dict.get?_erase, hlists]
    rcases hp with hp | hp
    · rw [if_pos (List.mem_singleton.1 hp)]
    · rw [hp, Option.map_none, ite_self]
  · rw [hchildren] at hf
    split_ifs at hf
    · cases hf
    · obtain ⟨hmem, hfc⟩ := List.mem_filter.1 hf
      rw [FrameTree.parent, horigins, if_neg (of_decide_eq_true hfc)]
      exact h.listed f p hmem
  · show owners.get? n = some f ↔ _
    rw [howners]
    by_cases hf : f = c
    · have hgone : t'.container f = none := by
        rw [FrameTree.container, horigins, if_pos (List.mem_singleton.2 hf)]
      rw [hgone]
      simp [hf]
    · rw [show t'.container f = t.container f from container_congr
        ((horigins f).trans (if_neg (by simpa using hf)))]
      exact and_iff_right hf

theorem without_remove (h : Loose t) (hc : t.contains c = true) :
    Without [c] t (t.remove c).2 := by
  obtain ⟨origin, horigin⟩ := Option.isSome_iff_exists.1 hc
  cases origin with
  | container p n =>
    have hremove : (t.remove c).2 = ⟨t.origins.erase c,
        (t.children.modify p fun siblings => siblings.filter (· ≠ c)).erase c, t.owners.erase n,
        t.names.erase c, t.popupSandbox.erase c⟩ := by
      simp only [remove, horigin]
    have hparent : t.parent c = some p := by simp only [FrameTree.parent, horigin]
    have hcontainer : t.container c = some n := by simp only [FrameTree.container, horigin]
    rw [hremove]
    refine without_of_erase h (fun q => ?_) fun m f => ?_
    · rw [Dict.get?_modify]
      split_ifs with hq
      · rw [hq]
        simp
      · refine (h.filter_of_ne ?_).symm
        rw [hparent, Ne, Option.some.injEq]
        exact Ne.symm hq
    · rw [Dict.get?_erase]
      split_ifs with hm
      · subst hm
        simp only [false_iff, not_and]
        intro hf hfn
        have hfm := (h.owners m f).2 hfn
        rw [(h.owners m c).2 hcontainer] at hfm
        exact hf (Option.some.inj hfm).symm
      · rw [h.owners]
        refine (and_iff_right_of_imp ?_).symm
        rintro hfm rfl
        rw [hcontainer] at hfm
        exact hm (Option.some.inj hfm).symm
  | auxiliary opener openerVisible =>
    have hremove : (t.remove c).2 = ⟨t.origins.erase c, t.children.erase c, t.owners,
        t.names.erase c, t.popupSandbox.erase c⟩ := by
      simp only [remove, horigin]
    have hparent : t.parent c = none := by simp only [FrameTree.parent, horigin]
    have hcontainer : t.container c = none := by simp only [FrameTree.container, horigin]
    rw [hremove]
    refine without_of_erase h (fun q => (h.filter_of_ne (by simp [hparent])).symm) fun m f => ?_
    rw [h.owners]
    refine (and_iff_right_of_imp ?_).symm
    rintro hfm rfl
    rw [hcontainer] at hfm
    cases hfm

theorem Without.isAlive (h : Without l t t') (hl : FrameId.main ∉ l) (f : FrameId) :
    t'.isAlive f = (t.isAlive f && f ∉ l) := by
  rw [FrameTree.isAlive, FrameTree.isAlive, h.contains]
  by_cases hf : f = FrameId.main
  · rw [hf]
    simp [hl]
  · simp [hf]

theorem Linked.main_not_mem (h : Linked t F) (hcontains : ∀ f ∈ l, t.contains f = true) :
    FrameId.main ∉ l := fun hl => by
  have hmain := hcontains _ hl
  rw [h.main] at hmain
  cases hmain

theorem Without.of_dead (h : Without l t t') (hl : FrameId.main ∉ l)
    (hf : t'.isAlive f = false) : f ∈ l ∨ t.isAlive f = false := by
  rw [h.isAlive hl] at hf
  by_cases hfl : f ∈ l
  · exact .inl hfl
  · rw [decide_eq_true hfl, Bool.and_true] at hf
    exact .inr hf

/-- What is left of the tree is the forest without the frames. -/
theorem Linked.without (h : Linked t F) (hw : Without l t t')
    (hcontains : ∀ f ∈ l, t.contains f = true)
    (hdown : ∀ f ∈ l, ∀ c ∈ F.children f, c ∈ l) : Linked t' (F.detachAll l) := by
  have hmain := h.main_not_mem hcontains
  have hdead (f : FrameId) (hf : t'.isAlive f = false) : f ∈ l ∨ t.isAlive f = false :=
    hw.of_dead hmain hf
  have hchildren : t'.childrenOf = (F.detachAll l).children := by
    funext p
    rw [hw.children, F.children_detachAll, h.children]
    split_ifs with hp
    · rw [eq_comm, List.filter_eq_nil_iff]
      intro x hx
      simpa using hdown p hp x hx
    · rfl
  refine ⟨hchildren, ?_, hw.loose.owners, ?_, fun f p hp => ?_, fun f hf => ?_, fun f hf => ?_,
    fun f hf => ?_⟩
  · funext f
    rw [hw.parent, h.parent]
    split_ifs with hf
    · exact (Forest.parent_detachAll_of_mem hf).symm
    · exact (Forest.parent_detachAll_of_not_mem hf).symm
  · rw [hw.contains, h.main]
    rfl
  · rw [hw.parent] at hp
    split_ifs at hp with hf
    rw [hw.isAlive hmain, h.alive f p hp, Bool.true_and, decide_eq_true_eq]
    intro hpl
    refine hf (hdown p hpl f ?_)
    rw [F.mem_children, ← h.parent]
    exact hp
  · refine hw.lists f ((hdead f hf).imp_right (h.listed f))
  · rw [hw.names]
    rcases hdead f hf with hfl | hft
    · rw [if_pos hfl]
    · rw [h.named f hft, ite_self]
  · rw [hw.popupSandbox]
    rcases hdead f hf with hfl | hft
    · rw [if_pos hfl]
    · rw [h.sandboxed f hft, ite_self]

end FrameTree

/-! ### What the engine's shared state loses with a frame -/

namespace Shared

variable {s s' s'' : Shared} {F : Forest FrameId} {f c : FrameId} {l l' : List FrameId}
  {order : Iteration Nat}

/-- The tree is a forest, and only its live frames have documents and ports. -/
structure Held (s : Shared) (F : Forest FrameId) : Prop where
  tree : s.tree.Linked F
  documents : ∀ f, s.tree.isAlive f = false → s.documentIds.get? f = none
  ports : s.ports.OwnedBy fun f => s.tree.isAlive f = true

theorem Held.retree {t' : FrameTree} {F' : Forest FrameId} (h : Held s F) (ht : t'.Linked F')
    (horigins : t'.origins = s.tree.origins) : Held { s with tree := t' } F' := by
  have halive (f : FrameId) : t'.isAlive f = s.tree.isAlive f := by
    rw [FrameTree.isAlive, FrameTree.isAlive, FrameTree.contains_eq, FrameTree.contains_eq, horigins]
  exact ⟨ht, fun f hf => h.documents f (halive f ▸ hf),
    h.ports.mono fun f hf => (halive f).trans hf⟩

structure Dropped (l : List FrameId) (s s' : Shared) : Prop where
  tree : FrameTree.Without l s.tree s'.tree
  documents : ∀ f, s'.documentIds.get? f = if f ∈ l then none else s.documentIds.get? f
  ports : ∀ P, s.ports.OwnedBy P → s'.ports.OwnedBy fun f => P f ∧ f ∉ l
  reported : s'.removedFrames.map Prod.fst = s.removedFrames.map Prod.fst ++ l
  nextFrame : s'.nextFrame = s.nextFrame

theorem Dropped.refl (h : s.tree.Loose) : Dropped [] s s where
  tree := .refl h
  documents _ := by simp
  ports P hP := hP.mono fun f hf => ⟨hf, List.not_mem_nil⟩
  reported := (List.append_nil _).symm
  nextFrame := rfl

theorem Dropped.trans (h : Dropped l s s') (h' : Dropped l' s' s'') : Dropped (l ++ l') s s'' where
  tree := h.tree.trans h'.tree
  documents f := by
    rw [h'.documents, h.documents]
    by_cases hl : f ∈ l <;> by_cases hl' : f ∈ l' <;> simp [hl, hl']
  ports P hP := (h'.ports _ (h.ports P hP)).mono fun f hf => by
    simpa [and_assoc] using hf
  reported := by rw [h'.reported, h.reported, List.append_assoc]
  nextFrame := h'.nextFrame.trans h.nextFrame

theorem dropped_dropFrame (h : s.tree.Loose) (hc : s.tree.contains c = true)
    (container : Option ElementId) :
    Dropped [c] s ({ s with tree := (s.tree.remove c).2 }.dropFrame order c container) where
  tree := FrameTree.without_remove h hc
  documents f := by
    show (s.documentIds.erase c).get? f = _
    rw [Dict.get?_erase]
    simp
  ports P hP := (hP.closeFramePorts c (order.2 _)).mono fun f hf => by simpa using hf
  reported := List.map_append
  nextFrame := rfl

theorem dropped_removeAll (h : s.tree.Loose) (hnodup : l.Nodup)
    (hcontains : ∀ f ∈ l, s.tree.contains f = true) : Dropped l s (s.removeAll order l) := by
  induction l generalizing s with
  | nil => exact .refl h
  | cons c l ih =>
    obtain ⟨hc, hl⟩ := List.nodup_cons.1 hnodup
    have hhead := @dropped_dropFrame _ _ order h (hcontains c List.mem_cons_self)
      ((s.tree.remove c).1.bind FrameOrigin.containerOf)
    refine hhead.trans (ih hhead.tree.loose hl fun f hf => ?_)
    rw [hhead.tree.contains, hcontains f (List.mem_cons_of_mem _ hf), Bool.true_and,
      decide_eq_true_eq, List.mem_singleton]
    rintro rfl
    exact hc hf

theorem Held.dropped (h : Held s F) (hd : Dropped l s s')
    (hcontains : ∀ f ∈ l, s.tree.contains f = true)
    (hdown : ∀ f ∈ l, ∀ c ∈ F.children f, c ∈ l) : Held s' (F.detachAll l) := by
  have hmain := h.tree.main_not_mem hcontains
  refine ⟨h.tree.without hd.tree hcontains hdown, fun f hf => ?_, ?_⟩
  · rw [hd.documents]
    rcases hd.tree.of_dead hmain hf with hfl | hfs
    · rw [if_pos hfl]
    · rw [h.documents f hfs, ite_self]
  · refine (hd.ports _ h.ports).mono fun f hf => ?_
    rw [hd.tree.isAlive hmain, hf.1, decide_eq_true hf.2]
    rfl

theorem mem_flatMap_preorder : c ∈ (F.children f).flatMap F.preorder ↔ f ∈ F.chain c ∧ c ≠ f := by
  have hnodup := F.preorder_eq f ▸ F.nodup_preorder f
  rw [← Forest.mem_preorder, F.preorder_eq, List.mem_cons]
  constructor
  · intro hc
    exact ⟨.inr hc, fun heq => (List.nodup_cons.1 hnodup).1 (heq ▸ hc)⟩
  · rintro ⟨hc, hne⟩
    exact hc.resolve_left hne

theorem Held.detachChildFrames_eq (h : Held s F) (order : Iteration Nat) (f : FrameId) :
    ∃ l, s.detachChildFrames order f = some (s.removeAll order l) ∧ l.Nodup ∧
      ∀ c, c ∈ l ↔ f ∈ F.chain c ∧ c ≠ f := by
  have hnodup := F.preorder_eq f ▸ F.nodup_preorder f
  have hperm : ((F.children f).reverse.flatMap F.preorder).Perm
      ((F.children f).flatMap F.preorder) := (List.reverse_perm _).flatMap_right _
  have hturns : ((F.children f).reverse.flatMap F.preorder).length ≤ s.tree.turns := by
    have hlength : (F.preorder f).length ≤ s.tree.origins.keys.length + 1 :=
      Forest.length_preorder_le h.tree.mem_keys
    rw [F.preorder_eq, List.length_cons] at hlength
    rw [hperm.length_eq, FrameTree.turns]
    omega
  obtain ⟨l, hl, hlperm⟩ := @Forest.collect_eq _ F _ _ [] hturns
  refine ⟨l, ?_, (hlperm.trans hperm).nodup_iff.2 (List.nodup_cons.1 hnodup).2, fun c => ?_⟩
  · rw [detachChildFrames, h.tree.children, hl]
    rfl
  · rw [(hlperm.trans hperm).mem_iff, mem_flatMap_preorder]

theorem Held.contains_below (h : Held s F) (hc : f ∈ F.chain c ∧ c ≠ f) :
    s.tree.contains c = true := by
  cases hp : F.parent c with
  | none =>
    rw [Forest.chain_of_root hp, List.mem_singleton] at hc
    exact absurd hc.1.symm hc.2
  | some p =>
    rw [← h.tree.parent] at hp
    exact FrameTree.contains_of_parent hp

theorem Held.dropped_detachChildFrames (h : Held s F) (order : Iteration Nat) (f : FrameId) :
    ∃ l s', s.detachChildFrames order f = some s' ∧ Dropped l s s' ∧ l.Nodup ∧
      ∀ c, c ∈ l ↔ f ∈ F.chain c ∧ c ≠ f := by
  obtain ⟨l, heq, hnodup, hmem⟩ := h.detachChildFrames_eq order f
  exact ⟨l, _, heq, dropped_removeAll h.tree.loose hnodup
    (fun c hc => h.contains_below ((hmem c).1 hc)), hnodup, hmem⟩

/-- The frame itself goes after what is below it. -/
theorem Held.dropped_subtree (h : Held s F) (hf : s.tree.contains f = true) (order : Iteration Nat)
    (container : Option ElementId) :
    ∃ l s', (s.detachChildFrames order f).map (fun s =>
        { s with tree := (s.tree.remove f).2 }.dropFrame order f container) = some s' ∧
      Dropped l s s' ∧ l.Nodup ∧ ∀ c, c ∈ l ↔ f ∈ F.chain c := by
  obtain ⟨l, s₁, heq, hdropped, hnodup, hmem⟩ := h.dropped_detachChildFrames order f
  have hfl : f ∉ l := fun hfl => ((hmem f).1 hfl).2 rfl
  have hlive : s₁.tree.contains f = true := by
    rw [hdropped.tree.contains, hf, decide_eq_true hfl]
    rfl
  have hlast := @dropped_dropFrame _ _ order hdropped.tree.loose hlive container
  refine ⟨l ++ [f], _, by rw [heq]; rfl, hdropped.trans hlast, ?_, fun c => ?_⟩
  · rw [← List.concat_eq_append]
    exact hnodup.concat hfl
  · rw [List.mem_append, List.mem_singleton, hmem]
    constructor
    · rintro (hc | rfl)
      · exact hc.1
      · exact F.mem_chain_self c
    · intro hc
      by_cases hcf : c = f
      · exact .inr hcf
      · exact .inl ⟨hc, hcf⟩

/-! ### Ports -/

theorem applyPort_fields (s : Shared) (op : PortOp) :
    (s.applyPort op).tree = s.tree ∧ (s.applyPort op).documentIds = s.documentIds ∧
      (s.applyPort op).nextFrame = s.nextFrame ∧
      (s.applyPort op).removedFrames = s.removedFrames := by
  cases op <;> exact ⟨rfl, rfl, rfl, rfl⟩

end Shared

namespace PortTable.OwnedBy

/-- Whoever comes to own a port is among the owners. -/
theorem applyPort {s : Shared} {P : FrameId → Prop} (h : s.ports.OwnedBy P) (op : PortOp)
    (hop : ∀ f, op.newOwner = some f → P f) : (s.applyPort op).ports.OwnedBy P := by
  cases op with
  | newPair owner => exact h.newPair (hop owner rfl)
  | route endpoint recipient => exact h.keeps (keeps_route endpoint recipient)
  | post source payload ports => exact h.keeps (.of_same (samePlaces_post source payload ports))
  | requeue endpoint payload ports =>
    exact h.keeps (.of_same (samePlaces_requeue endpoint payload ports))
  | requeueClose endpoint => exact h.keeps (.of_same (samePlaces_requeueClose endpoint))
  | start endpoint => exact h.keeps (.of_same (samePlaces_start endpoint))
  | close endpoint => exact h.keeps (keeps_close endpoint)
  | detach endpoint frame => exact h.detach frame
  | adopt endpoint frame => exact h.adopt (hop frame rfl)
  | closeFramePorts frame order =>
    refine h.keeps ?_
    show PortTable.Keeps s.ports (s.ports.closeFramePorts frame order).1
    unfold PortTable.closeFramePorts
    split_ifs
    · exact keeps_closeAll order
    · exact .refl _
  | forget endpoint => exact h.keeps (keeps_forget endpoint)

end PortTable.OwnedBy

end TinyBrowser
