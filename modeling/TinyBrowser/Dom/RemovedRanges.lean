import TinyBrowser.Dom.Order
import TinyBrowser.Dom.Plain

/-!
# Ranges and the removal of all children

`adjustForReplaceAll` and `adjustChildrenLeaving` move the live ranges for all children of a node at
once. `removeEach` is what they stand for: the children leave one after the other, in tree order, and
each one's adjustment runs while it still has its place.
-/

namespace TinyBrowser.Dom
open Lib Blitz Forest

variable {Base : Type} [Blitz Base]

/-- The live ranges after `children` have left `parent` one by one. -/
def removeEach (parent : NodeId) : Base → RangeTable → List NodeId → RangeTable
  | _, ranges, [] => ranges
  | base, ranges, child :: rest =>
    removeEach parent (removeNode base child)
      (adjustForRemove base ranges parent ((childIds base parent).idxOf child) child) rest

/-- The points in `parent` stand between its children. -/
def OffsetsWithin (base : Base) (ranges : RangeTable) (parent : NodeId) : Prop :=
  ∀ r, ranges.Has r → ∀ point ∈ [r.start, r.stop], point.node = parent →
    point.offset ≤ (childIds base parent).length

/-- Where a point ends up when the children `gone` have left the front of `parent`. -/
def leftBehind (base : Base) (parent : NodeId) (gone : List NodeId) (point : BoundaryPoint) :
    BoundaryPoint :=
  if ∃ child ∈ gone, child ∈ (tree base).chain point.node then ⟨parent, 0⟩
  else if point.node = parent then { point with offset := point.offset - gone.length }
  else point

section
variable {base base' : Base} {parent child : NodeId} {point : BoundaryPoint} {gone : List NodeId}
  {ranges : RangeTable}

theorem leftBehind_nil : leftBehind base parent [] = id := by
  funext point
  simp [leftBehind]

theorem adjustForRemove_zero : adjustForRemove base ranges parent 0 child =
    ranges.mapPoints (leftBehind base parent [child]) := by
  rw [adjustForRemove]
  congr 1
  funext point
  simp only [isInclusiveDescendant, isInclusiveAncestor_iff, leftBehind, ancestorChain,
    List.mem_singleton, exists_eq_left, List.length_singleton]
  split
  · rfl
  · split
    · next h => rw [if_pos h.1]
    · next h =>
      split
      · next hnode =>
        have hzero : point.offset = 0 := by
          by_contra hne
          exact h ⟨hnode, by omega⟩
        cases point
        simp_all
      · rfl

theorem not_below_parent (h : ∀ child ∈ gone, (tree base).parent child = some parent) :
    ¬∃ child ∈ gone, child ∈ (tree base).chain parent := by
  rintro ⟨child, hmem, hchain⟩
  exact not_mem_chain_parent (h child hmem) hchain

theorem leftBehind_parent (h : ∀ child ∈ gone, (tree base).parent child = some parent)
    (offset : Nat) : leftBehind base parent gone ⟨parent, offset⟩ = ⟨parent, offset - gone.length⟩ := by
  rw [leftBehind, if_neg (not_below_parent h), if_pos rfl]

theorem leftBehind_of_below (h : child ∈ gone) (hpoint : child ∈ (tree base).chain point.node) :
    leftBehind base parent gone point = ⟨parent, 0⟩ := by
  rw [leftBehind, if_pos ⟨child, h, hpoint⟩]

theorem leftBehind_leftBehind
    (h : ∀ c ∈ child :: gone, (tree base).parent c = some parent) (point : BoundaryPoint) :
    leftBehind base parent gone (leftBehind base parent [child] point) =
      leftBehind base parent (child :: gone) point := by
  have hgone : ∀ c ∈ gone, (tree base).parent c = some parent := fun c hc =>
    h c (List.mem_cons_of_mem _ hc)
  by_cases hbelow : child ∈ (tree base).chain point.node
  · rw [leftBehind_of_below List.mem_cons_self hbelow, leftBehind_of_below List.mem_cons_self hbelow,
      leftBehind_parent hgone, Nat.zero_sub]
  · have hone : ¬∃ c ∈ [child], c ∈ (tree base).chain point.node := by simpa using hbelow
    have hcons : (∃ c ∈ child :: gone, c ∈ (tree base).chain point.node) ↔
        ∃ c ∈ gone, c ∈ (tree base).chain point.node := by simp [hbelow]
    by_cases hnode : point.node = parent
    · obtain ⟨node, offset⟩ := point
      obtain rfl : node = parent := hnode
      rw [leftBehind_parent (fun c hc => h c (by simp_all)), leftBehind_parent hgone,
        leftBehind_parent h, List.length_singleton, List.length_cons, Nat.sub_sub, Nat.add_comm]
    · have hstays : leftBehind base parent [child] point = point := by
        rw [leftBehind, if_neg hone, if_neg hnode]
      rw [hstays, leftBehind, leftBehind]
      simp only [hcons, if_neg hnode]

theorem leftBehind_detach (ht : tree base' = (tree base).detach child)
    (h : child ∉ (tree base).chain point.node) :
    leftBehind base' parent gone point = leftBehind base parent gone point := by
  rw [leftBehind, leftBehind, ht, chain_detach_of_not_mem h]

theorem not_mem_chain_leftBehind (h : (tree base).parent child = some parent) :
    child ∉ (tree base).chain (leftBehind base parent [child] point).node := by
  by_cases hbelow : child ∈ (tree base).chain point.node
  · rw [leftBehind_of_below List.mem_cons_self hbelow]
    exact not_mem_chain_parent h
  · have hone : ¬∃ c ∈ [child], c ∈ (tree base).chain point.node := by simpa using hbelow
    rw [leftBehind, if_neg hone]
    split
    · exact hbelow
    · exact hbelow

/-! ### Both folds -/

theorem leaveRanges_eq (h : ∀ c ∈ gone, (tree base).parent c = some parent) (ranges : RangeTable) :
    leaveRanges base ranges parent gone = ranges.mapPoints (leftBehind base parent gone) := by
  induction gone generalizing ranges with
  | nil =>
    rw [leftBehind_nil, RangeTable.mapPoints_id]
    rfl
  | cons child gone ih =>
    have hgone : ∀ c ∈ gone, (tree base).parent c = some parent := fun c hc =>
      h c (List.mem_cons_of_mem _ hc)
    rw [leaveRanges, List.foldl_cons, adjustForRemove_zero]
    have htail := ih hgone (ranges.mapPoints (leftBehind base parent [child]))
    rw [leaveRanges] at htail
    rw [htail, RangeTable.mapPoints_mapPoints]
    congr 1
    funext point
    exact leftBehind_leftBehind h point

theorem removeEach_eq (laws : Laws Base) (h : childIds base parent = gone) (ranges : RangeTable) :
    removeEach parent base ranges gone = ranges.mapPoints (leftBehind base parent gone) := by
  induction gone generalizing base ranges with
  | nil =>
    rw [leftBehind_nil, RangeTable.mapPoints_id]
    rfl
  | cons child gone ih =>
    have hparent : ∀ c ∈ child :: gone, (tree base).parent c = some parent := fun c hc =>
      (tree base).mem_children.1 (by rw [← h] at hc; exact hc)
    have htree := laws.tree_removeNode base child
    have hrest : childIds (removeNode base child) parent = gone := by
      rw [childIds, htree, children_detach, show (tree base).children parent = _ from h,
        List.erase_cons_head]
    rw [removeEach, h, List.idxOf_cons_self, adjustForRemove_zero, ih hrest,
      RangeTable.mapPoints_mapPoints]
    congr 1
    funext point
    rw [Function.comp_apply,
      leftBehind_detach htree (not_mem_chain_leftBehind (hparent child List.mem_cons_self))]
    exact leftBehind_leftBehind hparent point

/-! ### The adjustments for all children -/

theorem adjustForReplaceAll_eq (h : OffsetsWithin base ranges parent) :
    adjustForReplaceAll base ranges parent =
      ranges.mapPoints (leftBehind base parent (childIds base parent)) := by
  have hchildren : ∀ c ∈ childIds base parent, (tree base).parent c = some parent := fun c hc =>
    (tree base).mem_children.1 hc
  rw [adjustForReplaceAll]
  refine RangeTable.mapPoints_congr fun r hr point hpoint => ?_
  obtain ⟨node, offset⟩ := point
  by_cases hnode : node = parent
  · subst hnode
    have hwithin := h r hr _ hpoint rfl
    rw [leftBehind_parent hchildren, if_pos rfl]
    split
    · rw [Nat.sub_eq_zero_of_le hwithin]
    · next hzero =>
      have hoffset : offset = 0 := by simpa using hzero
      rw [hoffset, Nat.zero_sub]
  · have hbelow : isInclusiveDescendant base node parent = true ↔
        ∃ child ∈ childIds base parent, child ∈ (tree base).chain node := by
      rw [isInclusiveDescendant, isInclusiveAncestor_iff, ancestorChain, mem_chain_iff_child,
        or_iff_right hnode]
      rfl
    rw [leftBehind, if_neg hnode, if_neg hnode, if_congr hbelow rfl rfl]

/-- Replacing all children moves the live ranges as removing the children one by one does, and so do
the children that leave a fragment. -/
theorem removedRanges_eq_removeEach (laws : Laws Base) (parsed : Parsed Base) (parent : NodeId) :
    (OffsetsWithin parsed.base parsed.side.ranges parent →
      adjustForReplaceAll parsed.base parsed.side.ranges parent =
        removeEach parent parsed.base parsed.side.ranges (childIds parsed.base parent)) ∧
    adjustChildrenLeaving parsed parent (childIds parsed.base parent) =
      parsed.withRanges
        (removeEach parent parsed.base parsed.side.ranges (childIds parsed.base parent)) := by
  have hchildren : ∀ c ∈ childIds parsed.base parent, (tree parsed.base).parent c = some parent :=
    fun c hc => (tree parsed.base).mem_children.1 hc
  rw [removeEach_eq laws rfl]
  constructor
  · exact adjustForReplaceAll_eq
  · rw [adjustChildrenLeaving_eq, leaveRanges_eq hchildren]

end

/-- A range from behind the first of three children to inside the last. -/
theorem removedRanges_eq_removeEach_three :
    let base := Doc.ofChildren [.element, .text [104, 105], .element]
    let ranges := RangeTable.ofList [⟨⟨0, 1⟩, ⟨3, 0⟩, none⟩]
    adjustForReplaceAll base ranges 0 = removeEach 0 base ranges [1, 2, 3] := by
  intro base ranges
  let parsed : Parsed Doc := ⟨base, ⟨[], 0, true, ranges, .empty⟩⟩
  have hwithin : OffsetsWithin parsed.base parsed.side.ranges 0 := by
    intro r hr point hpoint hnode
    obtain rfl : r = ⟨⟨0, 1⟩, ⟨3, 0⟩, none⟩ := by
      simpa [RangeTable.Has, RangeTable.ofList, parsed, ranges] using hr
    have hlength : (childIds parsed.base 0).length = 3 := rfl
    rw [hlength]
    rcases List.mem_pair.1 hpoint with rfl | rfl
    · decide
    · decide
  exact (removedRanges_eq_removeEach Doc.laws parsed 0).1 hwithin

end TinyBrowser.Dom
