import TinyBrowser.FrameTree.Removed

/-!
# The frame tree in every run

In a linked tree the loops of `FrameTree` read the forest: the top-level frame is the root, and a
name is looked up in preorder. A target chosen from a live frame is live. `Consistent` is what the
origins, the child lists and the owners of a linked tree say of each other.

A run from an empty engine keeps a forest that the five maps of the tree describe. A frame leaves it
with all that is below it, keeps no entry and no port, and is reported once. The loops over the tree
end, and the navigable that a target chooses is live: for a name it is the first match in the subtree
of the current frame, then in the tree of its root, then in the other auxiliary trees, oldest first.
-/

namespace TinyBrowser
open Lib

namespace FrameTree

variable {t : FrameTree} {F : Forest FrameId} {f c p current : FrameId} {n : ElementId}

/-! ### Up -/

theorem Linked.topLevel_eq (h : Linked t F) (f : FrameId) : t.topLevel f = some (F.top f) := by
  rw [topLevel, h.parent]
  exact Forest.climb_eq (Forest.length_chain_le h.mem_keys)

theorem Linked.isInclusiveDescendant_eq (h : Linked t F) (a f : FrameId) :
    t.isInclusiveDescendant a f = some (decide (a ∈ F.chain f)) := by
  rw [isInclusiveDescendant, h.parent]
  exact Forest.climbsTo_eq (Forest.length_chain_le h.mem_keys)

theorem Linked.isAlive_top (h : Linked t F) (hf : t.isAlive f = true) :
    t.isAlive (F.top f) = true := by
  rwa [← h.isAlive_of_mem_chain (F.top_mem_chain f)]

/-! ### Down -/

theorem Linked.findByTargetName_eq (h : Linked t F) (name : Text) (f : FrameId) :
    t.findByTargetName name f = some ((F.preorder f).find? fun frame => t.name frame = name) := by
  rw [findByTargetName, h.children]
  exact Forest.search_eq (Forest.length_preorder_le h.mem_keys)

theorem mem_auxiliaries : f ∈ t.auxiliaries ↔
    ∃ opener openerVisible, t.origins.get? f = some (.auxiliary opener openerVisible) := by
  simp only [auxiliaries, List.mem_mergeSort, List.mem_filterMap, Dict.get?_eq_some_iff]
  constructor
  · rintro ⟨⟨frame, origin⟩, hrow, hsome⟩
    cases origin with
    | container parent container => cases hsome
    | auxiliary opener openerVisible =>
      obtain rfl := Option.some.inj hsome
      exact ⟨opener, openerVisible, hrow⟩
  · rintro ⟨opener, openerVisible, hrow⟩
    exact ⟨_, hrow, rfl⟩

theorem sorted_auxiliaries (t : FrameTree) : t.auxiliaries.Pairwise (· ≤ ·) :=
  List.pairwise_mergeSort' _ _

theorem root_eq_main_or_mem_auxiliaries (hf : t.isAlive f = true) (hroot : t.parent f = none) :
    f = FrameId.main ∨ f ∈ t.auxiliaries := by
  rw [isAlive, Bool.or_eq_true, decide_eq_true_eq] at hf
  refine hf.imp_right fun hcontains => mem_auxiliaries.2 ?_
  rw [contains_eq, Option.isSome_iff_exists] at hcontains
  obtain ⟨origin, horigin⟩ := hcontains
  rw [FrameTree.parent, horigin] at hroot
  cases origin with
  | container parent container => cases hroot
  | auxiliary opener openerVisible => exact ⟨opener, openerVisible, horigin⟩

/-! ### Targets -/

/-- What a name is looked up in, in order. -/
def searched (t : FrameTree) (F : Forest FrameId) (current : FrameId) : List FrameId :=
  F.preorder current ++ F.preorder (F.top current) ++
    (t.auxiliaries.filter (· ≠ F.top current)).flatMap F.preorder

theorem Linked.chooseNavigable_named (h : Linked t F) (name : ContextName) (current : FrameId) :
    t.chooseNavigable (.named name) current =
      some ((t.searched F current).find? fun frame => t.name frame = name.text) := by
  have hfirst (l : List FrameId) : firstOf (t.findByTargetName name.text) l =
      some ((l.flatMap F.preorder).find? fun frame => t.name frame = name.text) :=
    Forest.firstOf_eq fun f _ => h.findByTargetName_eq name.text f
  simp only [chooseNavigable, h.topLevel_eq, findByAuxiliaryName, hfirst, searched,
    List.find?_append, List.flatMap_cons, List.flatMap_nil, List.append_nil]
  cases (F.preorder current).find? fun frame => t.name frame = name.text with
  | some frame => rfl
  | none =>
    cases (F.preorder (F.top current)).find? fun frame => t.name frame = name.text <;> rfl

theorem Linked.isAlive_of_mem_searched (h : Linked t F) (hcurrent : t.isAlive current = true)
    (hf : f ∈ t.searched F current) : t.isAlive f = true := by
  simp only [searched, List.mem_append, List.mem_flatMap, List.mem_filter, Forest.mem_preorder]
    at hf
  rcases hf with (hf | hf) | ⟨root, ⟨hroot, -⟩, hf⟩
  · rw [h.isAlive_of_mem_chain hf, hcurrent]
  · rw [h.isAlive_of_mem_chain hf, h.isAlive_top hcurrent]
  · obtain ⟨opener, openerVisible, horigin⟩ := mem_auxiliaries.1 hroot
    rw [h.isAlive_of_mem_chain hf]
    refine isAlive_of_contains ?_
    rw [contains_eq, horigin]
    rfl

/-- A target chosen from a live frame is one. -/
theorem Linked.isAlive_chosen (h : Linked t F) (hcurrent : t.isAlive current = true)
    (target : TargetName) :
    ∃ chosen, t.chooseNavigable target current = some chosen ∧
      ∀ f, chosen = some f → t.isAlive f = true := by
  cases target with
  | current =>
    refine ⟨_, rfl, ?_⟩
    rintro f ⟨⟩
    exact hcurrent
  | parent =>
    refine ⟨_, rfl, ?_⟩
    rintro f ⟨⟩
    cases hp : t.parent current with
    | none => exact hcurrent
    | some p => exact h.alive current p hp
  | top =>
    refine ⟨some (F.top current), ?_, ?_⟩
    · rw [chooseNavigable, h.topLevel_eq]
      rfl
    · rintro f ⟨⟩
      exact h.isAlive_top hcurrent
  | blank => exact ⟨none, rfl, nofun⟩
  | named name =>
    refine ⟨_, h.chooseNavigable_named name current, fun f hf => ?_⟩
    exact h.isAlive_of_mem_searched hcurrent (List.mem_of_find?_eq_some hf)

/-! ### The maps of each other -/

theorem parent_eq_some : t.parent f = some p ↔ ∃ n, t.origins.get? f = some (.container p n) := by
  unfold FrameTree.parent
  rcases t.origins.get? f with _ | ⟨q, m⟩ | ⟨opener, openerVisible⟩ <;> simp

theorem container_eq_some :
    t.container f = some n ↔ ∃ p, t.origins.get? f = some (.container p n) := by
  unfold FrameTree.container
  rcases t.origins.get? f with _ | ⟨q, m⟩ | ⟨opener, openerVisible⟩ <;> simp

theorem Linked.mem_childrenOf (h : Linked t F) : f ∈ t.childrenOf p ↔ t.parent f = some p := by
  rw [h.children, h.parent, F.mem_children]

structure Consistent (t : FrameTree) (F : Forest FrameId) : Prop where
  children : ∀ p, t.childrenOf p = F.children p
  parent : ∀ f, t.parent f = F.parent f
  child : ∀ p f, f ∈ t.childrenOf p ↔ ∃ n, t.origins.get? f = some (.container p n)
  once : ∀ p f, (t.childrenOf p).count f ≤ 1
  owner : ∀ n f, t.owners.get? n = some f ↔ ∃ p, t.origins.get? f = some (.container p n)
  alive : ∀ p f, f ∈ t.childrenOf p → t.isAlive f = true ∧ t.isAlive p = true
  acyclic : WellFounded fun p f => t.parent f = some p
  root : ∀ f, t.isAlive f = true → (t.parent f = none ↔ f = FrameId.main ∨ f ∈ t.auxiliaries)
  auxiliaries : t.auxiliaries.Pairwise (· ≤ ·) ∧ ∀ f, f ∈ t.auxiliaries ↔
    ∃ opener openerVisible, t.origins.get? f = some (.auxiliary opener openerVisible)
  topLevel : ∀ f, t.topLevel f = some (F.top f)
  inclusive : ∀ a f, t.isInclusiveDescendant a f = some (decide (a ∈ F.chain f))

theorem Linked.consistent (h : Linked t F) : Consistent t F where
  children p := congrFun h.children p
  parent f := congrFun h.parent f
  child p f := h.mem_childrenOf.trans parent_eq_some
  once p f := by
    rw [h.children]
    exact List.nodup_iff_count_le_one.1 (F.nodup p) f
  owner n f := (h.owners n f).trans container_eq_some
  alive p f hf := by
    rw [h.children, F.mem_children] at hf
    exact h.isAlive_of_parent hf
  acyclic := h.parent ▸ F.up
  root f hf := by
    refine ⟨root_eq_main_or_mem_auxiliaries hf, ?_⟩
    rintro (rfl | hauxiliary)
    · exact parent_of_not_contains h.main
    · obtain ⟨opener, openerVisible, horigin⟩ := mem_auxiliaries.1 hauxiliary
      rw [FrameTree.parent, horigin]
  auxiliaries := ⟨t.sorted_auxiliaries, fun _ => mem_auxiliaries⟩
  topLevel := h.topLevel_eq
  inclusive := h.isInclusiveDescendant_eq

end FrameTree

open Machine

/-! ### The invariant of a run -/

namespace FrameRun

variable {r r' : FrameRun} {F F' : Forest FrameId} {f c p : FrameId} {l : List FrameId}
  {s' : Shared}

/-- The frames whose removal was reported to the engine, also those it took. -/
def reported (r : FrameRun) : List FrameId :=
  (r.taken ++ r.shared.removedFrames).map Prod.fst

structure Inv (r : FrameRun) (F : Forest FrameId) : Prop where
  held : r.shared.Held F
  next : FrameId.main < r.shared.nextFrame
  added : ∀ f, r.shared.tree.contains f = true → f ∈ r.added
  nodup : r.reported.Nodup
  gone : ∀ f, f ∈ r.reported ↔ f ∈ r.added ∧ r.shared.tree.isAlive f = false

theorem inv_empty : Inv {} .empty where
  held := ⟨FrameTree.linked_empty, fun _ _ => rfl, nofun⟩
  next := Nat.one_pos
  added := nofun
  nodup := .nil
  gone := by simp [reported]

/-- An operation that neither adds a frame nor removes one. -/
theorem Inv.same (h : Inv r F) (hheld : s'.Held F')
    (horigins : s'.tree.origins = r.shared.tree.origins)
    (hnext : s'.nextFrame = r.shared.nextFrame)
    (hremoved : s'.removedFrames = r.shared.removedFrames) : Inv { r with shared := s' } F' := by
  have hcontains (f : FrameId) : s'.tree.contains f = r.shared.tree.contains f := by
    rw [FrameTree.contains_eq, FrameTree.contains_eq, horigins]
  have hreported : FrameRun.reported { r with shared := s' } = r.reported := by
    rw [reported, reported, hremoved]
  refine ⟨hheld, hnext ▸ h.next, fun f hf => h.added f (hcontains f ▸ hf), hreported ▸ h.nodup,
    fun f => ?_⟩
  rw [hreported, h.gone, FrameTree.isAlive, FrameTree.isAlive, hcontains]

theorem Inv.fresh (h : Inv r F) (hnew : r.shared.nextFrame ∉ r.added) :
    r.shared.tree.isAlive r.shared.nextFrame = false := by
  rw [FrameTree.isAlive_eq_false]
  refine ⟨h.next.ne', ?_⟩
  by_contra hcontains
  exact hnew (h.added _ (Bool.eq_true_of_not_eq_false hcontains))

/-- The tree gets a frame with the next id. -/
theorem Inv.add {t' : FrameTree} (h : Inv r F) (hnew : r.shared.nextFrame ∉ r.added)
    (ht : t'.Linked F')
    (halive : ∀ f, t'.isAlive f = (r.shared.tree.isAlive f || f = r.shared.nextFrame)) :
    Inv { r with shared := { r.shared.allocateFrame.2 with tree := t' }
                 added := r.added ++ [r.shared.nextFrame] } F' := by
  have hdead (f : FrameId) (hf : t'.isAlive f = false) : r.shared.tree.isAlive f = false := by
    rw [halive, Bool.or_eq_false_iff] at hf
    exact hf.1
  refine ⟨⟨ht, fun f hf => h.held.documents f (hdead f hf), ?_⟩, ?_, fun f hf => ?_, h.nodup,
    fun f => ?_⟩
  · refine h.held.ports.mono fun f hf => ?_
    rw [halive, hf, Bool.true_or]
  · refine h.next.trans_le ?_
    show r.shared.nextFrame ≤ saturatingSucc r.shared.nextFrame
    unfold saturatingSucc
    split_ifs
    · exact Nat.le_succ _
    · exact le_rfl
  · have hlive := FrameTree.isAlive_of_contains hf
    rw [halive, Bool.or_eq_true, decide_eq_true_eq, FrameTree.isAlive, Bool.or_eq_true,
      decide_eq_true_eq] at hlive
    rw [List.mem_append, List.mem_singleton]
    rcases hlive with (rfl | hold) | rfl
    · rw [show t'.contains FrameId.main = false from ht.main] at hf
      cases hf
    · exact .inl (h.added f hold)
    · exact .inr rfl
  · show f ∈ r.reported ↔ _
    rw [h.gone, halive, Bool.or_eq_false_iff, decide_eq_false_iff_not, List.mem_append,
      List.mem_singleton]
    constructor
    · rintro ⟨hadded, hold⟩
      exact ⟨.inl hadded, hold, fun heq => hnew (heq ▸ hadded)⟩
    · rintro ⟨hadded, hold, hne⟩
      exact ⟨hadded.resolve_right hne, hold⟩

/-- Frames go with what is below them. -/
theorem Inv.drop (h : Inv r F) (hd : r.shared.Dropped l s') (hnodup : l.Nodup)
    (hcontains : ∀ f ∈ l, r.shared.tree.contains f = true)
    (hdown : ∀ f ∈ l, ∀ c ∈ F.children f, c ∈ l) :
    Inv { r with shared := s' } (F.detachAll l) := by
  have hreported : FrameRun.reported { r with shared := s' } = r.reported ++ l := by
    rw [reported, reported, List.map_append, hd.reported, List.map_append, List.append_assoc]
  have hmain := h.held.tree.main_not_mem hcontains
  refine ⟨h.held.dropped hd hcontains hdown, hd.nextFrame ▸ h.next, fun f hf => ?_, ?_,
    fun f => ?_⟩
  · rw [hd.tree.contains, Bool.and_eq_true] at hf
    exact h.added f hf.1
  · rw [hreported, List.nodup_append]
    refine ⟨h.nodup, hnodup, ?_⟩
    rintro f hf _ hfl rfl
    have hdead := ((h.gone f).1 hf).2
    rw [FrameTree.isAlive_of_contains (hcontains f hfl)] at hdead
    cases hdead
  · rw [hreported, List.mem_append, h.gone, hd.tree.isAlive hmain]
    by_cases hfl : f ∈ l
    · simp [hfl, h.added f (hcontains f hfl)]
    · simp [hfl]

/-! ### Steps -/

/-- The frames that an operation removes: a frame and all below it, or only what is below it. -/
def Removes (r : FrameRun) (F : Forest FrameId) : FrameOp → FrameId → Prop
  | .detachChildFrames _ frame, c => frame ∈ F.chain c ∧ c ≠ frame
  | .removeChildNavigable _ frame _, c => frame ∈ F.chain c
  | .closeAuxiliary _ frame, c => r.shared.tree.opener frame ≠ none ∧ frame ∈ F.chain c
  | _, _ => False

/-- An operation ends, keeps the invariant and removes the frames with `P`. -/
def Yields (r : FrameRun) (P : FrameId → Prop) (r' : Option FrameRun) : Prop :=
  ∃ r₁, r' = some r₁ ∧
    (∀ f, r.shared.tree.isAlive f = true → (r₁.shared.tree.isAlive f = false ↔ P f)) ∧ ∃ F, Inv r₁ F

theorem Yields.congr {P Q : FrameId → Prop} {o : Option FrameRun} (h : Yields r P o)
    (hiff : ∀ f, Q f ↔ P f) : Yields r Q o := by
  obtain ⟨r₁, heq, hgone, hinv⟩ := h
  exact ⟨r₁, heq, fun f hf => (hgone f hf).trans (hiff f).symm, hinv⟩

theorem yields_of_le (hle : ∀ f, r.shared.tree.isAlive f = true → r'.shared.tree.isAlive f = true)
    (h : Inv r' F) : Yields r (fun _ => False) (some r') :=
  ⟨r', rfl, fun f hf => by simp [hle f hf], F, h⟩

theorem yields_same (h : Inv r F) (hheld : s'.Held F')
    (horigins : s'.tree.origins = r.shared.tree.origins)
    (hnext : s'.nextFrame = r.shared.nextFrame)
    (hremoved : s'.removedFrames = r.shared.removedFrames) :
    Yields r (fun _ => False) (some { r with shared := s' }) := by
  refine yields_of_le (fun f hf => ?_) (h.same hheld horigins hnext hremoved)
  rw [FrameTree.isAlive, FrameTree.contains_eq] at hf ⊢
  rwa [horigins]

theorem yields_drop (h : Inv r F) (hd : r.shared.Dropped l s') (hnodup : l.Nodup)
    (hcontains : ∀ f ∈ l, r.shared.tree.contains f = true)
    (hdown : ∀ f ∈ l, ∀ c ∈ F.children f, c ∈ l) :
    Yields r (fun f => f ∈ l) (some { r with shared := s' }) := by
  refine ⟨_, rfl, fun f hf => ?_, _, h.drop hd hnodup hcontains hdown⟩
  show s'.tree.isAlive f = false ↔ f ∈ l
  rw [hd.tree.isAlive (h.held.tree.main_not_mem hcontains), hf, Bool.true_and,
    decide_eq_false_iff_not, not_not]

theorem yields_subtree {o : Option Shared} (h : Inv r F)
    (hf : r.shared.tree.contains f = true)
    (hd : ∃ l s', o = some s' ∧ r.shared.Dropped l s' ∧ l.Nodup ∧ ∀ c, c ∈ l ↔ f ∈ F.chain c) :
    Yields r (fun c => f ∈ F.chain c) (o.map fun s => { r with shared := s }) := by
  obtain ⟨l, s', rfl, hd, hnodup, hmem⟩ := hd
  refine (yields_drop h hd hnodup (fun c hc => ?_) fun x hx c hc => ?_).congr fun c => (hmem c).symm
  · by_cases hcf : c = f
    · exact hcf ▸ hf
    · exact h.held.contains_below ⟨(hmem c).1 hc, hcf⟩
  · rw [hmem, Forest.mem_chain_of_parent (F.mem_children.1 hc)]
    exact .inr ((hmem x).1 hx)

theorem yields_apply (h : Inv r F) {op : FrameOp} (hop : r.admits op = true) :
    Yields r (r.Removes F op) (r.apply op) := by
  cases op with
  | addContainer parent container before =>
    simp only [admits, Bool.and_eq_true, decide_eq_true_eq, Option.isNone_iff_eq_none] at hop
    obtain ⟨⟨hparent, hcontainer⟩, hnew⟩ := hop
    refine yields_of_le (fun f hf => ?_) (h.add hnew
      (h.held.tree.addContainer (h.fresh hnew) hparent hcontainer)
      fun f => FrameTree.isAlive_addContainer)
    show (r.shared.tree.addContainer parent r.shared.nextFrame container before).isAlive f = true
    rw [FrameTree.isAlive_addContainer, hf, Bool.true_or]
  | addAuxiliary opener openerVisible sandbox =>
    have hnew : r.shared.nextFrame ∉ r.added := of_decide_eq_true hop
    refine yields_of_le (fun f hf => ?_) (h.add hnew
      (h.held.tree.addAuxiliary (h.fresh hnew) opener openerVisible sandbox)
      fun f => FrameTree.isAlive_addAuxiliary)
    show (r.shared.tree.addAuxiliary opener r.shared.nextFrame openerVisible sandbox).isAlive f = true
    rw [FrameTree.isAlive_addAuxiliary, hf, Bool.true_or]
  | reposition rows child before =>
    obtain ⟨F', hlinked⟩ := h.held.tree.reposition (rows.2 _) child before
    have hsame := r.shared.tree.origins_reposition (c := child) (rows.1 r.shared.tree.children.pairs)
      before
    exact yields_same h (h.held.retree hlinked hsame) hsame rfl rfl
  | setName frame name =>
    exact yields_same h (h.held.retree (h.held.tree.setName hop name) rfl) rfl rfl rfl
  | setPopupSandbox frame sandbox =>
    have hsame := (r.shared.tree.setPopupSandbox_fields frame sandbox).1
    exact yields_same h (h.held.retree (h.held.tree.setPopupSandbox hop sandbox) hsame) hsame rfl rfl
  | beginDocument frame =>
    refine yields_same h ⟨h.held.tree, fun f hf => ?_, h.held.ports⟩ rfl rfl rfl
    show (r.shared.documentIds.insert frame r.shared.nextDocument).get? f = none
    rw [Dict.get?_insert, if_neg]
    · exact h.held.documents f hf
    · rintro rfl
      have hlive : r.shared.tree.isAlive f = true := hop
      rw [show r.shared.tree.isAlive f = false from hf] at hlive
      cases hlive
  | detachChildFrames order frame =>
    obtain ⟨l, s', heq, hd, hnodup, hmem⟩ := h.held.dropped_detachChildFrames order frame
    rw [FrameRun.apply, heq]
    refine (yields_drop h hd hnodup (fun c hc => h.held.contains_below ((hmem c).1 hc)) ?_).congr
      fun c => (hmem c).symm
    intro f hf c hc
    have hp := F.mem_children.1 hc
    have hchain := ((hmem f).1 hf).1
    refine (hmem c).2 ⟨(Forest.mem_chain_of_parent hp).2 (.inr hchain), ?_⟩
    rintro rfl
    exact Forest.not_mem_chain_parent hp hchain
  | removeChildNavigable order frame container =>
    have hcontainer : r.shared.tree.container frame = some container := of_decide_eq_true hop
    have hcontains := FrameTree.contains_of_container hcontainer
    exact yields_subtree h hcontains (h.held.dropped_subtree hcontains order (some container))
  | closeAuxiliary order frame =>
    rw [FrameRun.apply, Shared.closeAuxiliary]
    cases hopener : r.shared.tree.opener frame with
    | none =>
      exact (yields_same h h.held rfl rfl rfl).congr fun c => by simp [Removes, hopener]
    | some opener =>
      have hcontains := FrameTree.contains_of_opener hopener
      refine (yields_subtree h hcontains (h.held.dropped_subtree hcontains order none)).congr
        fun c => ?_
      simp [Removes, hopener]
  | takeRemovedFrames =>
    have hreported : (r.taken ++ r.shared.removedFrames ++ []).map Prod.fst = r.reported := by
      rw [List.append_nil]
      rfl
    refine yields_of_le (F := F) (fun f hf => hf) ?_
    refine ⟨⟨h.held.tree, h.held.documents, h.held.ports⟩, h.next, h.added, ?_, fun f => ?_⟩
    · show ((r.taken ++ r.shared.removedFrames ++ []).map Prod.fst).Nodup
      rw [hreported]
      exact h.nodup
    · show f ∈ (r.taken ++ r.shared.removedFrames ++ []).map Prod.fst ↔ _
      rw [hreported]
      exact h.gone f
  | port op =>
    have hports : (r.shared.applyPort op).ports.OwnedBy fun f => r.shared.tree.isAlive f = true :=
      h.held.ports.applyPort op fun f hf => by
        have hall : op.newOwner.all (fun frame => r.shared.tree.isAlive frame) = true := hop
        rwa [hf] at hall
    have hsame := r.shared.applyPort_fields op
    refine yields_same h ⟨hsame.1 ▸ h.held.tree, fun f hf => ?_, hsame.1 ▸ hports⟩
      (by rw [hsame.1]) hsame.2.2.1 hsame.2.2.2
    rw [hsame.2.1]
    exact h.held.documents f (hsame.1 ▸ hf)

theorem yields_step (h : Inv r F) {op : FrameOp} (hop : r.admits op = true) :
    Yields r (r.Removes F op) (r.step op) := by
  rw [step, if_pos hop]
  exact yields_apply h hop

theorem admits_of_step {op : FrameOp} (h : r.step op = some r') : r.admits op = true := by
  unfold step at h
  split_ifs at h with hop
  exact hop

theorem inv_of_run {ops : List FrameOp} (h : run step {} ops = some r) : ∃ F, Inv r F := by
  refine inv_run (I := fun r => ∃ F, Inv r F) (fun r op r' hr hstep => ?_) ⟨_, inv_empty⟩ h
  obtain ⟨F, hF⟩ := hr
  obtain ⟨r₁, heq, -, hinv⟩ := yields_step hF (admits_of_step hstep)
  rw [hstep, Option.some.injEq] at heq
  exact heq ▸ hinv

/-! ### What holds in a run -/

/-- A frame without an entry in any map, whose realm owns no port. -/
structure Forgotten (s : Shared) (f : FrameId) : Prop where
  origin : s.tree.origins.get? f = none
  children : s.tree.children.get? f = none
  sibling : ∀ p, f ∉ s.tree.childrenOf p
  owner : ∀ n, s.tree.owners.get? n ≠ some f
  name : s.tree.names.get? f = none
  popupSandbox : s.tree.popupSandbox.get? f = none
  document : s.documentIds.get? f = none
  port : ∀ e port, s.ports.ports.get? e = some port → port.owner ≠ some f

theorem forgotten_of_held {s : Shared} (h : s.Held F) (hf : s.tree.isAlive f = false) :
    Forgotten s f := by
  have hcontains := (FrameTree.isAlive_eq_false.1 hf).2
  have horigin : s.tree.origins.get? f = none := by
    rwa [FrameTree.contains_eq, Option.isSome_eq_false_iff, Option.isNone_iff_eq_none] at hcontains
  refine ⟨horigin, h.tree.listed f hf, fun p hp => ?_, fun n hn => ?_, h.tree.named f hf,
    h.tree.sandboxed f hf, h.documents f hf, fun e port he howner => ?_⟩
  · rw [h.tree.mem_childrenOf, FrameTree.parent_of_not_contains hcontains] at hp
    cases hp
  · rw [h.tree.owners, FrameTree.container_of_not_contains hcontains] at hn
    cases hn
  · have hlive : s.tree.isAlive f = true := (h.ports e port he).2 f howner
    rw [hf] at hlive
    cases hlive

structure Sound (r : FrameRun) (F : Forest FrameId) : Prop where
  consistent : r.shared.tree.Consistent F
  forgotten : ∀ f, r.shared.tree.isAlive f = false → Forgotten r.shared f
  once : r.reported.Nodup
  reported : ∀ f, f ∈ r.reported ↔ f ∈ r.added ∧ r.shared.tree.isAlive f = false
  chosen : ∀ target current, r.shared.tree.isAlive current = true →
    ∃ chosen, r.shared.tree.chooseNavigable target current = some chosen ∧
      ∀ f, chosen = some f → r.shared.tree.isAlive f = true
  named : ∀ name current, r.shared.tree.chooseNavigable (.named name) current =
    some ((r.shared.tree.searched F current).find? fun f => r.shared.tree.name f = name.text)
  steps : ∀ op, r.admits op = true → ∃ r', r.step op = some r' ∧
    ∀ f, r.shared.tree.isAlive f = true → (r'.shared.tree.isAlive f = false ↔ r.Removes F op f)

theorem Inv.sound (h : Inv r F) : Sound r F where
  consistent := h.held.tree.consistent
  forgotten _ := forgotten_of_held h.held
  once := h.nodup
  reported := h.gone
  chosen target _ hcurrent := h.held.tree.isAlive_chosen hcurrent target
  named := h.held.tree.chooseNavigable_named
  steps op hop := by
    obtain ⟨r', heq, hgone, -⟩ := yields_step h hop
    exact ⟨r', heq, hgone⟩

theorem frames_of_run {ops : List FrameOp} (h : run step {} ops = some r) : ∃ F, Sound r F :=
  let ⟨F, hF⟩ := inv_of_run h
  ⟨F, hF.sound⟩

/-- A frame goes with the frame inside it, and the popup it opened stays. -/
theorem frames_of_run_nested : ∃ r F, Sound r F ∧ r.reported = [2, 1] ∧
    r.shared.tree.isAlive 3 = true := by
  have hrun : run step {} [.addContainer FrameId.main ⟨0, 7⟩ none, .addContainer 1 ⟨0, 8⟩ none,
    .addAuxiliary 1 true .empty, .port (.newPair 2),
    .removeChildNavigable ⟨fun l => l, fun _ => .rfl⟩ 1 ⟨0, 7⟩, .takeRemovedFrames] = some _ := rfl
  obtain ⟨F, hF⟩ := frames_of_run hrun
  exact ⟨_, F, hF, by decide, by decide⟩

end FrameRun

end TinyBrowser
