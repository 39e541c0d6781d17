import TinyBrowser.Dom.Calls

/-!
# What the mutations do to the tree

The effect of the building blocks on the forest and on the node data, from the laws of Blitz, and
where the siblings stand that the mutations look up.
-/

namespace TinyBrowser.Dom
open Lib Blitz

variable {Base : Type} [Blitz Base] {base : Base} {parent node child old r : NodeId}

/-! ### Looking up children -/

theorem childIndex_of_mem (h : child ∈ (tree base).children parent) :
    childIndex base parent child = some (((tree base).children parent).idxOf child) := by
  have hs : (childIndex base parent child).isSome = true := List.isSome_idxOf?.2 h
  obtain ⟨i, hi⟩ := Option.isSome_iff_exists.1 hs
  rw [hi, List.idxOf_eq_getD_idxOf?]
  rw [childIndex, childIds] at hi
  rw [hi]
  rfl

theorem siblingsAround_next {n : NodeId} (h : n ∈ (siblingsAround base parent child).2) :
    n ∈ (tree base).children parent ∧ n ≠ child := by
  have hm := List.mem_of_mem_head? h
  rw [List.mem_filter, decide_eq_true_eq] at hm
  exact ⟨(List.dropWhile_sublist _).mem hm.1, hm.2⟩

/-- The next sibling is the child one further on. -/
theorem idxOf_sibling (hp : (tree base).parent node = some parent)
    (h : r ∈ sibling base node true) : r ∈ (tree base).children parent ∧
      ((tree base).children parent).idxOf r = ((tree base).children parent).idxOf node + 1 := by
  have hm : node ∈ (tree base).children parent := (tree base).mem_children.2 hp
  rw [sibling, parentOf, hp] at h
  simp only [Option.bind_eq_bind, Option.bind_some, childIndex_of_mem hm, if_true] at h
  obtain ⟨hlt, rfl⟩ := List.getElem?_eq_some_iff.1 h
  exact ⟨List.getElem_mem hlt, ((tree base).nodup parent).idxOf_getElem _ hlt⟩

theorem mem_sibling (hp : (tree base).parent node = some parent)
    (h : r ∈ sibling base node true) : r ∈ (tree base).children parent ∧ r ≠ node := by
  obtain ⟨hm, hi⟩ := idxOf_sibling hp h
  refine ⟨hm, ?_⟩
  rintro rfl
  omega

/-! ### The mutators -/

variable (laws : Laws Base) {ref : Option NodeId} {cs : List NodeId}
include laws

theorem tree_placeOne (h : (tree base).Joins parent child ref) :
    tree (placeOne base parent ref child) = (tree base).attach parent child ref := by
  cases ref with
  | none => exact laws.tree_appendChildren base parent child h
  | some r => exact laws.tree_insertNodesBefore base parent child r h

theorem data_placeOne (base : Base) (parent : NodeId) (ref : Option NodeId) (child : NodeId) :
    data (placeOne base parent ref child) = data base := by
  cases ref with
  | none => exact laws.data_appendChildren ..
  | some r => exact laws.data_insertNodesBefore ..

theorem tree_placeAll (h : (tree base).JoinsAll parent cs ref) :
    tree (cs.foldl (fun base child => placeOne base parent ref child) base) =
      (tree base).attachAll parent cs ref := by
  induction cs generalizing base with
  | nil => rfl
  | cons c cs ih =>
    have hc := tree_placeOne laws h.head
    rw [List.foldl_cons, ih (hc ▸ h.tail), hc]
    rfl

theorem data_placeAll (base : Base) (parent : NodeId) (ref : Option NodeId) (cs : List NodeId) :
    data (cs.foldl (fun base child => placeOne base parent ref child) base) = data base := by
  induction cs generalizing base with
  | nil => rfl
  | cons c cs ih => rw [List.foldl_cons, ih, data_placeOne laws]

theorem tree_removeAll (base : Base) (cs : List NodeId) :
    tree (cs.foldl removeNode base) = (tree base).detachAll cs := by
  induction cs generalizing base with
  | nil => rfl
  | cons c cs ih =>
    rw [List.foldl_cons, ih, laws.tree_removeNode]
    rfl

theorem data_removeAll (base : Base) (cs : List NodeId) :
    data (cs.foldl removeNode base) = data base := by
  induction cs generalizing base with
  | nil => rfl
  | cons c cs ih => rw [List.foldl_cons, ih, laws.data_removeNode]

/-! ### The mutations, written out -/

omit laws

/-- The adjustment for an insertion before `ref`; at the end no point moves. -/
def shiftRanges (ranges : RangeTable) (ref : Option NodeId) (parent : NodeId) (index count : Nat) :
    RangeTable :=
  if ref.isSome then adjustForInsert ranges parent index count else ranges

/-- The adjustment for children that leave a fragment. -/
def leaveRanges (base : Base) (ranges : RangeTable) (fragment : NodeId) (children : List NodeId) :
    RangeTable :=
  children.foldl (fun ranges child => adjustForRemove base ranges fragment 0 child) ranges

variable (parsed : Parsed Base)

theorem unlinkJournaled_of_root (h : (tree parsed.base).parent node = none) :
    unlinkJournaled parsed node = parsed := by
  rw [unlinkJournaled, parentOf, h]

theorem adjustUnlinked_eq {parsed' : Parsed Base} (h : (tree parsed.base).parent node = some parent)
    (hr : parsed'.side.ranges = parsed.side.ranges) :
    adjustUnlinked parsed' (slotOf parsed node) node = parsed'.withRanges
      (adjustForRemove parsed'.base parsed'.side.ranges parent
        (((tree parsed.base).children parent).idxOf node) node) := by
  rw [slotOf]
  cases he : parsed.side.ranges.isEmpty with
  | true =>
    rw [← hr] at he
    rw [if_pos rfl, adjustForRemove, RangeTable.mapPoints_of_isEmpty he]
    rfl
  | false =>
    rw [if_neg Bool.false_ne_true, parentOf, h, Option.bind_some,
      childIndex_of_mem ((tree parsed.base).mem_children.2 h)]
    rfl

theorem unlinkJournaled_eq (h : (tree parsed.base).parent node = some parent) :
    unlinkJournaled parsed node =
      ((parsed.withBase (removeNode parsed.base node)).withRanges
        (adjustForRemove (removeNode parsed.base node) parsed.side.ranges parent
          (((tree parsed.base).children parent).idxOf node) node)).record
        (.childList parent [] [node] (siblingsAround parsed.base parent node).1
          (siblingsAround parsed.base parent node).2) := by
  rw [unlinkJournaled, parentOf, h]
  dsimp only
  rw [adjustUnlinked_eq parsed h (Parsed.ranges_withBase ..)]
  rfl

theorem adjustPlaced_eq (h : child ∈ (tree parsed.base).children parent) :
    adjustPlaced parsed parent child ref = parsed.withRanges (shiftRanges parsed.side.ranges ref
      parent (((tree parsed.base).children parent).idxOf child) 1) := by
  have hi := childIndex_of_mem h
  rw [adjustPlaced, shiftRanges]
  cases ref with
  | none => rfl
  | some r =>
    cases he : parsed.side.ranges.isEmpty with
    | true =>
      rw [if_pos (by rfl), Option.isSome_some, if_pos rfl, adjustForInsert,
        RangeTable.mapPoints_of_isEmpty he]
      rfl
    | false =>
      rw [if_neg (by simp), Option.isSome_some, if_pos rfl, hi]

theorem placeJournaled_eq
    (h : child ∈ (tree (placeOne parsed.base parent ref child)).children parent) :
    placeJournaled parsed parent child ref =
      ((parsed.withBase (placeOne parsed.base parent ref child)).withRanges
        (shiftRanges parsed.side.ranges ref parent
          (((tree (placeOne parsed.base parent ref child)).children parent).idxOf child) 1)).record
        (.childList parent [child] [] (previousOf parsed.base parent ref) ref) := by
  rw [placeJournaled, placeInner, adjustPlaced_eq _ (by simpa using h)]
  simp only [Parsed.withRanges_record, Parsed.ranges_record, Parsed.ranges_withBase,
    Parsed.base_record, Parsed.base_withBase]

theorem adjustChildrenLeaving_eq (fragment : NodeId) (children : List NodeId) :
    adjustChildrenLeaving parsed fragment children =
      parsed.withRanges (leaveRanges parsed.base parsed.side.ranges fragment children) := by
  rw [adjustChildrenLeaving, leaveRanges]
  split
  · rename_i h
    rw [Bool.or_eq_true, List.isEmpty_iff] at h
    rcases h with rfl | h
    · rfl
    · have hfold : ∀ l : List NodeId, l.foldl (fun ranges child =>
          adjustForRemove parsed.base ranges fragment 0 child) parsed.side.ranges =
          parsed.side.ranges := fun l => by
        induction l with
        | nil => rfl
        | cons c l ih =>
          rw [List.foldl_cons, adjustForRemove, RangeTable.mapPoints_of_isEmpty h]
          exact ih
      rw [hfold]
      rfl
  · rfl

/-- Where the reference child stands. -/
def refIndex (base : Base) (parent : NodeId) (ref : Option NodeId) : Nat :=
  ref.elim 0 fun r => ((tree base).children parent).idxOf r

theorem adjustInserted_eq (h : ∀ r ∈ ref, r ∈ (tree base).children parent) (count : Nat) :
    adjustInserted parsed parent (ref.bind (childIndex base parent)) count = parsed.withRanges
      (shiftRanges parsed.side.ranges ref parent (refIndex base parent ref) count) := by
  cases ref with
  | none => rfl
  | some r =>
    rw [Option.bind_some, childIndex_of_mem (h r rfl)]
    rfl

theorem spliceParsed_eq (h : ∀ r ∈ ref, r ∈ (tree parsed.base).children parent)
    (hne : (tree parsed.base).children node ≠ []) :
    spliceParsed parsed parent node ref =
      (((parsed.withBase (((tree parsed.base).children node).foldl
          (fun base child => placeOne base parent ref child) parsed.base)).withRanges
        (shiftRanges (leaveRanges parsed.base parsed.side.ranges node
          ((tree parsed.base).children node)) ref parent (refIndex parsed.base parent ref)
          ((tree parsed.base).children node).length)).record
        (.childList node [] ((tree parsed.base).children node) none none)).record
        (.childList parent ((tree parsed.base).children node) []
          (previousOf parsed.base parent ref) ref) := by
  rw [spliceParsed, if_neg (by simpa [childIds] using hne)]
  simp only [adjustChildrenLeaving_eq, Parsed.base_record, Parsed.base_withRanges, childIds]
  rw [adjustInserted_eq _ h]
  simp only [Parsed.withBase_record, Parsed.withRanges_record, Parsed.withBase_withRanges,
    Parsed.ranges_record, Parsed.ranges_withRanges]
  rfl

theorem swapChildren_eq (hold : old ∈ (tree parsed.base).children parent)
    (h : ∀ r ∈ ref, r ∈ (tree (removeNode parsed.base old)).children parent)
    (previous : Option NodeId) :
    swapChildren parsed parent old cs previous ref =
      ((parsed.withBase (cs.foldl (fun base child => placeOne base parent ref child)
          (removeNode parsed.base old))).withRanges
        (shiftRanges (adjustForRemove parsed.base parsed.side.ranges parent
          (((tree parsed.base).children parent).idxOf old) old) ref parent
          (refIndex (removeNode parsed.base old) parent ref) cs.length)).record
        (.childList parent cs [old] previous ref) := by
  have hadjust : adjustReplaceRemoval parsed parent old = parsed.withRanges
      (adjustForRemove parsed.base parsed.side.ranges parent
        (((tree parsed.base).children parent).idxOf old) old) := by
    rw [adjustReplaceRemoval, childIndex_of_mem hold]
    split
    · rename_i he
      rw [adjustForRemove, RangeTable.mapPoints_of_isEmpty he]
      rfl
    · rfl
  rw [swapChildren, hadjust]
  simp only [Parsed.base_withRanges, Parsed.base_withBase]
  rw [adjustInserted_eq _ h]
  rfl

theorem moveParsed_eq {target : MoveTarget} (hp : (tree parsed.base).parent node = some old)
    (hr : target.reference = ref)
    (h : node ∈ (tree (moveNode parsed.base node parent ref)).children parent) :
    moveParsed parsed parent node target =
      (((parsed.withBase (moveNode parsed.base node parent ref)).withRanges
        (shiftRanges (adjustForRemove (moveNode parsed.base node parent ref) parsed.side.ranges old
          (((tree parsed.base).children old).idxOf node) node) ref parent
          (((tree (moveNode parsed.base node parent ref)).children parent).idxOf node) 1)).record
        (.childList old [] [node] (siblingsAround parsed.base old node).1
          (siblingsAround parsed.base old node).2)).record
        (.childList parent [node] []
          (sibling (moveNode parsed.base node parent ref) node false) ref) := by
  rw [moveParsed, hr, parentOf, hp]
  dsimp only [Option.elim_some]
  rw [adjustUnlinked_eq parsed hp (Parsed.ranges_withBase ..), adjustPlaced_eq _ (by simpa using h)]
  simp only [Parsed.withRanges_record, Parsed.ranges_record, Parsed.base_record,
    Parsed.ranges_withRanges, Parsed.base_withRanges, Parsed.base_withBase, Parsed.ranges_withBase]
  rfl

theorem clearChildren_eq (parent : NodeId) :
    clearChildren parsed parent = (parsed.withBase
      (((tree parsed.base).children parent).foldl removeNode parsed.base)).withRanges
        (if (tree parsed.base).children parent = [] then parsed.side.ranges
          else adjustForReplaceAll parsed.base parsed.side.ranges parent) := by
  rw [clearChildren, childIds]
  by_cases hc : (tree parsed.base).children parent = []
  · simp only [hc, List.isEmpty_nil, Bool.not_true, Bool.false_and, Bool.false_eq_true, if_false,
      if_true]
    rfl
  · rw [if_neg hc]
    split
    · rfl
    · rename_i he
      have he' : parsed.side.ranges.isEmpty = true := by simpa [hc] using he
      rw [adjustForReplaceAll, RangeTable.mapPoints_of_isEmpty he']
      rfl

variable (laws : Laws Base)
include laws

theorem tree_clearChildren (parent : NodeId) : tree (clearChildren parsed parent).base =
    (tree parsed.base).detachAll ((tree parsed.base).children parent) := by
  rw [clearChildren_eq, Parsed.base_withRanges, Parsed.base_withBase, tree_removeAll laws]

theorem data_clearChildren (parent : NodeId) :
    data (clearChildren parsed parent).base = data parsed.base := by
  rw [clearChildren_eq, Parsed.base_withRanges, Parsed.base_withBase, data_removeAll laws]

theorem tree_unlinkJournaled (node : NodeId) :
    tree (unlinkJournaled parsed node).base = (tree parsed.base).detach node := by
  cases h : (tree parsed.base).parent node with
  | none => rw [unlinkJournaled_of_root parsed h, Forest.detach_of_root h]
  | some p =>
    rw [unlinkJournaled_eq parsed h]
    simp only [Parsed.base_record, Parsed.base_withRanges, Parsed.base_withBase,
      laws.tree_removeNode]

theorem data_unlinkJournaled (node : NodeId) :
    data (unlinkJournaled parsed node).base = data parsed.base := by
  cases h : (tree parsed.base).parent node with
  | none => rw [unlinkJournaled_of_root parsed h]
  | some p =>
    rw [unlinkJournaled_eq parsed h]
    simp only [Parsed.base_record, Parsed.base_withRanges, Parsed.base_withBase,
      laws.data_removeNode]

theorem mem_children_placeOne (h : (tree base).Joins parent child ref) :
    child ∈ (tree (placeOne base parent ref child)).children parent := by
  rw [tree_placeOne laws h, h.children_attach, if_pos rfl, mem_place]
  exact .inr (List.mem_singleton_self child)

variable {parsed} in
theorem tree_appendAdopted (h : (tree parsed.base).Joins parent child none) :
    tree (appendAdopted parent parsed child).base = (tree parsed.base).attach parent child none := by
  have ht := tree_unlinkJournaled laws parsed child
  have hj := h.detached
  rw [← ht] at hj
  rw [appendAdopted, Parsed.base_withBase, laws.tree_appendChildren _ _ _ hj, ht, Forest.attach,
    Forest.detach_of_root (Forest.parent_detach_self _ child)]
  rfl

variable {parsed} in
theorem tree_appendAll (h : (tree parsed.base).JoinsAll parent cs none) :
    tree (cs.foldl (appendAdopted parent) parsed).base =
      (tree parsed.base).attachAll parent cs none := by
  induction cs generalizing parsed with
  | nil => rfl
  | cons c cs ih =>
    have ht := tree_appendAdopted laws h.head
    rw [List.foldl_cons, ih (ht ▸ h.tail), ht]
    rfl

theorem data_appendAll (parent : NodeId) (cs : List NodeId) :
    data (cs.foldl (appendAdopted parent) parsed).base = data parsed.base := by
  induction cs generalizing parsed with
  | nil => rfl
  | cons c cs ih =>
    rw [List.foldl_cons, ih, appendAdopted, Parsed.base_withBase, laws.data_appendChildren,
      data_unlinkJournaled laws]

omit laws in
/-- The children of an insertable fragment can go where it could. -/
theorem joinsAll_children (h : Insertable base parent node ref) :
    (tree base).JoinsAll parent ((tree base).children node) ref where
  nodup := (tree base).nodup node
  acyclic c hc hm := by
    rw [Forest.mem_children] at hc
    refine h.acyclic (Forest.mem_chain_trans ?_ hm)
    rw [Forest.mem_chain_of_parent hc]
    exact .inr (Forest.mem_chain_self _ node)
  ref_mem r hr := by
    have hm := h.reference_mem r hr
    refine ⟨hm, fun hrn => h.acyclic ?_⟩
    rw [Forest.mem_children] at hm hrn
    rw [hm] at hrn
    obtain rfl := Option.some.inj hrn
    exact Forest.mem_chain_self _ parent

omit laws in
/-- The place beside itself is the place before the next sibling. -/
theorem joins_of_insertable (h : Insertable base parent node ref) :
    (tree base).Joins parent node (if ref = some node then sibling base node true else ref) where
  acyclic := h.acyclic
  ref_mem r hr := by
    split at hr
    · rename_i he
      exact mem_sibling ((tree base).mem_children.1 (h.reference_mem node he)) hr
    · rename_i he
      exact ⟨h.reference_mem r hr, fun hrn => he (hrn ▸ hr)⟩

omit laws in
/-- The place of a replaced child, or the one after the new node when that stands next to it. -/
theorem joinsAll_replace (h : Insertable base parent node (some old)) (hne : old ≠ node) :
    (((tree base).detach node).detach old).JoinsAll parent [node]
      (if sibling base old true = some node then sibling base node true
        else sibling base old true) where
  nodup := List.nodup_singleton node
  acyclic c hc hm := by
    rw [List.mem_singleton] at hc
    subst hc
    exact h.acyclic (Forest.mem_chain_detach (Forest.mem_chain_detach hm))
  ref_mem r hr := by
    have hold := (tree base).mem_children.1 (h.reference_mem old rfl)
    have key : r ∈ (tree base).children parent ∧ r ≠ old ∧ r ≠ node := by
      split at hr
      · rename_i hs
        obtain ⟨hm, hi⟩ := idxOf_sibling hold hs
        obtain ⟨hm', hi'⟩ := idxOf_sibling ((tree base).mem_children.1 hm) hr
        refine ⟨hm', ?_, ?_⟩
        · rintro rfl
          omega
        · rintro rfl
          omega
      · rename_i hs
        obtain ⟨hm, hro⟩ := mem_sibling hold hr
        exact ⟨hm, hro, fun hrn => hs (hrn ▸ hr)⟩
    rw [Forest.children_detach, Forest.children_detach, List.mem_singleton,
      (((tree base).nodup parent).erase node).mem_erase_iff,
      ((tree base).nodup parent).mem_erase_iff]
    exact ⟨⟨key.2.1, key.2.2, key.1⟩, key.2.2⟩

omit laws in
/-- The children of a fragment take a replaced child's place. -/
theorem joinsAll_replace_children (h : Insertable base parent node (some old)) :
    ((tree base).detach old).JoinsAll parent ((tree base).children node) (sibling base old true) := by
  have hold := (tree base).mem_children.1 (h.reference_mem old rfl)
  have hj : (tree base).JoinsAll parent ((tree base).children node) (sibling base old true) :=
    joinsAll_children ⟨h.parent_ok, h.acyclic, fun r hr => (mem_sibling hold hr).1⟩
  exact hj.detach fun r hr => (mem_sibling hold hr).2

omit laws in
theorem joinsAll_replace_adopted (hold : (tree base).parent old = some parent)
    (h : Adopted base parent cs) :
    ((tree base).detach old).JoinsAll parent cs (sibling base old true) := by
  have hj : (tree base).JoinsAll parent cs (sibling base old true) := by
    refine ⟨h.1, fun c hc => (h.2 c hc).2, fun r hr => ?_⟩
    have hm := (mem_sibling hold hr).1
    refine ⟨hm, fun hrc => ?_⟩
    have hroot := (h.2 r hrc).1
    rw [parentOf, (tree base).mem_children.1 hm] at hroot
    cases hroot
  exact hj.detach fun r hr => (mem_sibling hold hr).2

omit laws in
theorem joins_of_movable {child : Option NodeReference}
    (h : Movable base parent node (moveTarget base node child)) :
    (tree base).Joins parent node (moveTarget base node child).reference where
  acyclic := h.acyclic
  ref_mem r hr := by
    obtain ⟨p, hp⟩ := h.parented
    have ht : moveTarget base node child = .before r := by
      cases ht : moveTarget base node child with
      | before c =>
        rw [ht] at hr
        exact congrArg _ (Option.some.inj hr)
      | atEnd => rw [ht] at hr; cases hr
      | unparented => rw [ht] at hr; cases hr
    refine ⟨h.before_mem r ht, ?_⟩
    match child with
    | none => cases ht
    | some (.attr ..) => cases ht
    | some (.tree c) =>
      rw [moveTarget] at ht
      split at ht
      · cases hs : sibling base node true with
        | none => rw [hs] at ht; cases ht
        | some s =>
          rw [hs] at ht
          obtain rfl := MoveTarget.before.inj ht
          exact (mem_sibling hp hs).2
      · rename_i hne
        exact MoveTarget.before.inj ht ▸ hne

end TinyBrowser.Dom
