import TinyBrowser.Dom.Effects
import TinyBrowser.Lib.Points

/-!
# Tree order and the order of boundary points

`treeOrder` compares two nodes of a tree as the preorder listing of the tree does, and `position` two
boundary points as the listing in which the point `(n, i)` stands between the subtrees of the children
`i - 1` and `i` of `n`. Both are shown from a node downwards: what is said of the subtree of a child is
the induction hypothesis, since the two functions look at the whole tree.
-/

namespace TinyBrowser.Dom
open Lib Blitz Forest

variable {Base : Type} [Blitz Base] {base : Base} {x a b c d : NodeId}

/-! ### Nodes -/

theorem commonLength_append (l l₁ l₂ : List NodeId) :
    commonLength (l ++ l₁) (l ++ l₂) = l.length + commonLength l₁ l₂ := by
  induction l with
  | nil => exact (Nat.zero_add _).symm
  | cons x l ih =>
    rw [List.cons_append, List.cons_append, commonLength, if_pos rfl, ih, List.length_cons]
    omega

theorem commonLength_nil_left (l : List NodeId) : commonLength [] l = 0 := by cases l <;> rfl

theorem commonLength_nil_right (l : List NodeId) : commonLength l [] = 0 := by cases l <;> rfl

theorem exists_reverse_chain (hc : c ∈ childIds base x) (ha : a ∈ (tree base).preorder c) :
    ∃ l, (ancestorChain base a).reverse = (ancestorChain base x).reverse ++ c :: l := by
  obtain ⟨l, hl⟩ := exists_chain_append (mem_preorder.1 ha)
  refine ⟨l.reverse, ?_⟩
  rw [ancestorChain, hl, chain_of_parent ((tree base).mem_children.1 hc), List.reverse_append,
    List.reverse_cons, List.append_assoc]
  rfl

theorem treeOrder_self (base : Base) (a : NodeId) : treeOrder base a a = .eq := by
  have hcommon := commonLength_append (ancestorChain base a).reverse [] []
  rw [List.append_nil, commonLength_nil_left, Nat.add_zero] at hcommon
  rw [treeOrder]
  rw [hcommon, if_pos rfl]
  exact Nat.compare_eq_eq.2 rfl

theorem treeOrder_below (hc : c ∈ childIds base x) (ha : a ∈ (tree base).preorder c) :
    treeOrder base x a = .lt ∧ treeOrder base a x = .gt := by
  obtain ⟨l, hl⟩ := exists_reverse_chain hc ha
  have hx := commonLength_append (ancestorChain base x).reverse [] (c :: l)
  have ha := commonLength_append (ancestorChain base x).reverse (c :: l) []
  rw [List.append_nil, commonLength_nil_left, Nat.add_zero] at hx
  rw [List.append_nil, commonLength_nil_right, Nat.add_zero] at ha
  rw [treeOrder, treeOrder]
  rw [hl, hx, ha, if_pos rfl, List.length_append, List.length_cons, if_neg (by omega), if_pos rfl]
  exact ⟨Nat.compare_eq_lt.2 (by omega), rfl⟩

/-- Below two children of one node the children decide. -/
theorem treeOrder_children (hc : c ∈ childIds base x) (hd : d ∈ childIds base x)
    (ha : a ∈ (tree base).preorder c) (hb : b ∈ (tree base).preorder d) (hcd : c ≠ d) :
    treeOrder base a b = orderIn (childIds base x) c d := by
  obtain ⟨l, hl⟩ := exists_reverse_chain hc ha
  obtain ⟨m, hm⟩ := exists_reverse_chain hd hb
  have hcommon := commonLength_append (ancestorChain base x).reverse (c :: l) (d :: m)
  rw [commonLength, if_neg hcd, Nat.add_zero] at hcommon
  have hpos : 0 < (ancestorChain base x).reverse.length := by
    rw [List.length_reverse]
    exact List.length_pos_of_mem ((tree base).mem_chain_self x)
  have hlast : (ancestorChain base x).reverse[(ancestorChain base x).reverse.length - 1]? = some x := by
    have hhead : (ancestorChain base x).head? = some x := by
      rw [ancestorChain, chain]
      rfl
    rw [← List.getLast?_eq_getElem?, List.getLast?_reverse, hhead]
  rw [treeOrder]
  rw [hl, hm, hcommon, if_neg (by simp), if_neg (by simp), if_neg (by omega),
    List.getElem?_append_left (by omega), hlast, List.getElem?_append_right (Nat.le_refl _),
    List.getElem?_append_right (Nat.le_refl _), Nat.sub_self]
  show compare (childIndex base x c) (childIndex base x d) = _
  rw [childIndex_of_mem hc, childIndex_of_mem hd]
  rfl

/-- Tree order is preorder. -/
theorem treeOrder_eq (ha : a ∈ (tree base).preorder x) (hb : b ∈ (tree base).preorder x) :
    treeOrder base a b = orderIn ((tree base).preorder x) a b := by
  induction x using (tree base).down.induction with
  | _ x ih =>
    rcases mem_preorder_cases ha with rfl | ⟨c, hc, hac⟩ <;>
      rcases mem_preorder_cases hb with rfl | ⟨d, hd, hbd⟩
    · rw [treeOrder_self, orderIn_self]
    · rw [(treeOrder_below hd hbd).1, orderIn_preorder_root hd hbd]
    · rw [(treeOrder_below hc hac).2, ← swap_orderIn, orderIn_preorder_root hc hac]
      rfl
    · rw [orderIn_preorder_children hc hd hac hbd]
      by_cases hcd : c = d
      · subst hcd
        rw [orderIn_self, ih c ((tree base).mem_children.1 hc) hac hbd]
        rfl
      · rw [treeOrder_children hc hd hac hbd hcd]
        have hne : orderIn ((tree base).children x) c d ≠ .eq := fun h => hcd ((orderIn_eq_iff hc).1 h)
        show orderIn ((tree base).children x) c d = _
        cases horder : orderIn ((tree base).children x) c d with
        | lt => rfl
        | gt => rfl
        | eq => exact absurd horder hne

theorem top_eq_rootOf (base : Base) (a : NodeId) :
    (tree base).top a = rootOf base a := by
  induction a using (tree base).induction_up with
  | root a ha =>
    rw [top_of_root ha, rootOf]
    split
    · rename_i p hp
      rw [ha] at hp
      cases hp
    · rfl
  | child a p hp ih =>
    rw [top_of_parent hp, rootOf, ih]
    split
    · rename_i q hq
      obtain rfl := Option.some.inj (hp.symm.trans hq)
      rfl
    · rename_i hq
      rw [hp] at hq
      cases hq

theorem mem_preorder_root (base : Base) (a : NodeId) :
    a ∈ (tree base).preorder (rootOf base a) := by
  rw [mem_preorder, ← top_eq_rootOf]
  exact (tree base).top_mem_chain a

/-! ### Boundary points -/

theorem isInclusiveAncestor_iff : isInclusiveAncestor base a b = true ↔ a ∈ ancestorChain base b := by
  rw [ancestorChain]
  induction b using (tree base).induction_up with
  | root b hb =>
    rw [isInclusiveAncestor, chain_of_root hb, List.mem_singleton]
    split_ifs with h
    · exact iff_of_true rfl h.symm
    · split
      · rename_i hp
        rw [hb] at hp
        cases hp
      · exact iff_of_false Bool.false_ne_true (Ne.symm h)
  | child b p hp ih =>
    rw [isInclusiveAncestor, mem_chain_of_parent hp]
    split_ifs with h
    · exact iff_of_true rfl (.inl h.symm)
    · split
      · rename_i q hq
        obtain rfl := Option.some.inj (hp.symm.trans hq)
        rw [ih, or_iff_right (Ne.symm h)]
      · rename_i hq
        rw [hp] at hq
        cases hq

theorem childToward_eq (hc : c ∈ childIds base x) (hb : b ∈ (tree base).preorder c) :
    childToward base x b = some c := by
  have hparent := (tree base).mem_children.1 hc
  rw [mem_preorder] at hb
  induction b using (tree base).induction_up with
  | root b hroot =>
    rw [chain_of_root hroot, List.mem_singleton] at hb
    rw [hb, hroot] at hparent
    cases hparent
  | child b p hp ih =>
    rw [childToward]
    split
    · rename_i q hq
      obtain rfl := Option.some.inj (hp.symm.trans hq)
      rcases (mem_chain_of_parent hp).1 hb with rfl | hb
      · rw [if_pos (Option.some.inj (hp.symm.trans hparent))]
      · have hne : p ≠ x := by
          rintro rfl
          exact not_mem_chain_parent hparent hb
        rw [if_neg hne]
        exact ih hb
    · rename_i hq
      rw [hp] at hq
      cases hq

variable {p q : BoundaryPoint}

theorem positionAhead_child {k : Nat} (hc : (childIds base p.node)[k]? = some c)
    (hq : q.node ∈ (tree base).preorder c) :
    positionAhead base p q = if k < p.offset then .gt else .lt := by
  obtain ⟨hk, hget⟩ := List.getElem?_eq_some_iff.1 hc
  have hmem := List.mem_of_getElem? hc
  have hidx : (childIds base p.node).idxOf c = k := by
    rw [← hget]
    exact ((tree base).nodup p.node).idxOf_getElem k hk
  rw [positionAhead, if_pos, childToward_eq hmem hq]
  · dsimp only
    rw [childIndex_of_mem hmem]
    show (if (childIds base p.node).idxOf c < p.offset then Ordering.gt else .lt) = _
    rw [hidx]
  · exact isInclusiveAncestor_iff.2 (mem_preorder.1 (mem_preorder_of_child hmem hq))

theorem positionAhead_apart (hc : c ∈ childIds base x) (hd : d ∈ childIds base x) (hcd : c ≠ d)
    (hp : p.node ∈ (tree base).preorder c) (hq : q.node ∈ (tree base).preorder d) :
    positionAhead base p q = .lt := by
  rw [positionAhead, if_neg]
  intro h
  -- what is above the one node would be below both children
  have hboth := mem_preorder.2 (mem_chain_trans (mem_preorder.1 hp) (isInclusiveAncestor_iff.1 h))
  exact hcd (eq_of_mem_preorder_children hc hd hboth hq)

def BoundaryPoint.pair (p : BoundaryPoint) : NodeId × Nat := (p.node, p.offset)

/-- The boundary points of the tree of `root`, in order. -/
def boundaryPoints (base : Base) (root : NodeId) : List (NodeId × Nat) :=
  (tree base).points (nodeLength base) root

theorem mem_boundaryPoints {root : NodeId} : p.pair ∈ boundaryPoints base root ↔
    p.node ∈ (tree base).preorder root ∧ p.offset ≤ nodeLength base p.node := mem_points

theorem position_below {k : Nat} (hc : (childIds base p.node)[k]? = some c)
    (hq : q.node ∈ (tree base).preorder c) :
    position base p q = (if k < p.offset then .gt else .lt) ∧
      position base q p = (if k < p.offset then .gt else .lt : Ordering).swap := by
  have hmem := List.mem_of_getElem? hc
  have hne : p.node ≠ q.node := fun h => not_mem_preorder_child hmem (h ▸ hq)
  obtain ⟨hlt, hgt⟩ := treeOrder_below hmem hq
  rw [position, if_neg hne, hgt, if_neg nofun, position, if_neg hne.symm, hlt, if_pos rfl,
    positionAhead_child hc hq]
  exact ⟨rfl, rfl⟩

theorem position_apart {k m : Nat} (hc : (childIds base x)[k]? = some c)
    (hd : (childIds base x)[m]? = some d) (hkm : k ≠ m) (hp : p.node ∈ (tree base).preorder c)
    (hq : q.node ∈ (tree base).preorder d) : position base p q = compare k m := by
  have hidx : ∀ {i : Nat} {e : NodeId}, (childIds base x)[i]? = some e →
      ((tree base).children x).idxOf e = i := by
    intro i e he
    obtain ⟨hi, hget⟩ := List.getElem?_eq_some_iff.1 he
    rw [← hget]
    exact ((tree base).nodup x).idxOf_getElem i hi
  have hcd : c ≠ d := by
    rintro rfl
    exact hkm ((hidx hc).symm.trans (hidx hd))
  have hcmem := List.mem_of_getElem? hc
  have hdmem := List.mem_of_getElem? hd
  have hne : p.node ≠ q.node := fun h =>
    hcd (eq_of_mem_preorder_children hcmem hdmem hp (h ▸ hq))
  have horder : treeOrder base q.node p.node = compare m k := by
    rw [treeOrder_children hdmem hcmem hq hp hcd.symm, orderIn]
    exact congrArg₂ compare (hidx hd) (hidx hc)
  rw [position, if_neg hne, horder, positionAhead_apart hcmem hdmem hcd hp hq,
    positionAhead_apart hdmem hcmem hcd.symm hq hp]
  rcases Nat.lt_or_gt_of_ne hkm with h | h
  · rw [Nat.compare_eq_gt.2 h, if_neg (by decide), Nat.compare_eq_lt.2 h]
  · rw [Nat.compare_eq_lt.2 h, if_pos rfl, Nat.compare_eq_gt.2 h]
    rfl

/-- Points are in the order of the listing, whatever offsets it goes up to. -/
theorem position_eq_points {len : NodeId → Nat} (hp : p.pair ∈ (tree base).points len x)
    (hq : q.pair ∈ (tree base).points len x) :
    position base p q = orderIn ((tree base).points len x) p.pair q.pair := by
  obtain ⟨a, i⟩ := p
  obtain ⟨b, j⟩ := q
  induction x using (tree base).down.induction with
  | _ x ih =>
    obtain ⟨ha, hi⟩ := mem_points.1 hp
    obtain ⟨hb, hj⟩ := mem_points.1 hq
    rcases mem_preorder_cases ha with rfl | ⟨c, hc, hac⟩ <;>
      rcases mem_preorder_cases hb with hbx | ⟨d, hd, hbd⟩
    · obtain rfl : b = a := hbx
      exact (if_pos rfl).trans (orderIn_points_root hi hj).symm
    · obtain ⟨k, hk, rfl⟩ := List.getElem_of_mem hd
      have hget := List.getElem?_eq_getElem hk
      rw [(position_below hget hbd).1]
      exact (orderIn_points_child hi hget (mem_points.2 ⟨hbd, hj⟩)).symm
    · obtain rfl : b = x := hbx
      obtain ⟨k, hk, rfl⟩ := List.getElem_of_mem hc
      have hget := List.getElem?_eq_getElem hk
      have hbelow := @position_below _ _ base _ ⟨b, j⟩ ⟨a, i⟩ k hget hac
      rw [hbelow.2, ← swap_orderIn]
      exact congrArg Ordering.swap (orderIn_points_child hj hget (mem_points.2 ⟨hac, hi⟩)).symm
    · obtain ⟨k, hk, rfl⟩ := List.getElem_of_mem hc
      obtain ⟨m, hm, rfl⟩ := List.getElem_of_mem hd
      have hgetk := List.getElem?_eq_getElem hk
      have hgetm := List.getElem?_eq_getElem hm
      have hpk := mem_points.2 ⟨hac, hi⟩
      have hqm := mem_points.2 ⟨hbd, hj⟩
      have hlist := orderIn_points_children hgetk hgetm hpk hqm
      refine Eq.trans ?_ hlist.symm
      by_cases hkm : k = m
      · subst hkm
        rw [Nat.compare_eq_eq.2 rfl]
        exact ih _ ((tree base).mem_children.1 hc) hpk hqm
      · rw [position_apart hgetk hgetm hkm hac hbd]
        rcases Nat.lt_or_gt_of_ne hkm with h | h
        · rw [Nat.compare_eq_lt.2 h]
          rfl
        · rw [Nat.compare_eq_gt.2 h]
          rfl

theorem position_eq (hp : p.pair ∈ boundaryPoints base x) (hq : q.pair ∈ boundaryPoints base x) :
    position base p q = orderIn (boundaryPoints base x) p.pair q.pair := position_eq_points hp hq

theorem linear_position (base : Base) (root : NodeId) : Linear (fun p : BoundaryPoint =>
    p.node ∈ (tree base).preorder root ∧ p.offset ≤ nodeLength base p.node) (position base) where
  eq_iff p hp q hq := by
    have hmem := mem_boundaryPoints.2 hp
    rw [position_eq hmem (mem_boundaryPoints.2 hq), orderIn_eq_iff hmem]
    cases p
    cases q
    simp [BoundaryPoint.pair]
  swap p hp q hq := by
    rw [position_eq (mem_boundaryPoints.2 hp) (mem_boundaryPoints.2 hq),
      position_eq (mem_boundaryPoints.2 hq) (mem_boundaryPoints.2 hp), swap_orderIn]
  trans p hp q hq r hr := by
    rw [position_eq (mem_boundaryPoints.2 hp) (mem_boundaryPoints.2 hq),
      position_eq (mem_boundaryPoints.2 hq) (mem_boundaryPoints.2 hr),
      position_eq (mem_boundaryPoints.2 hp) (mem_boundaryPoints.2 hr)]
    exact orderIn_trans

/-- `position` as the source calls itself, with a number of calls. -/
def positionWithin (base : Base) : Nat → BoundaryPoint → BoundaryPoint → Option Ordering
  | 0, _, _ => none
  | calls + 1, a, b =>
    if a.node = b.node then some (compare a.offset b.offset)
    else if treeOrder base b.node a.node = .lt then
      (positionWithin base calls b a).map Ordering.swap
    else some (positionAhead base a b)

theorem positionWithin_eq (hp : p.node ∈ (tree base).preorder x)
    (hq : q.node ∈ (tree base).preorder x) {calls : Nat} (h : 2 ≤ calls) :
    positionWithin base calls p q = some (position base p q) := by
  obtain ⟨calls, rfl⟩ : ∃ n, calls = n + 2 := ⟨calls - 2, by omega⟩
  rw [positionWithin, position]
  split_ifs with hnode horder
  · rfl
  · have hback : treeOrder base p.node q.node ≠ .lt := by
      rw [treeOrder_eq hq hp] at horder
      rw [treeOrder_eq hp hq, ← swap_orderIn, horder]
      nofun
    rw [positionWithin, if_neg (Ne.symm hnode), if_neg hback]
    rfl
  · rfl

end TinyBrowser.Dom
