import TinyBrowser.Lib.Preorder
import Mathlib.Data.List.Range
import Mathlib.Order.Compare

/-!
# The points of an ordered tree

A list without repetition orders its elements by where they stand (`orderIn`). A point of a tree is a
key with an offset: it stands before the subtree of the key's child of that index and after the one
before it. `points` lists the points of a subtree in this order, with `len` the last offset of each
key, as `preorder` lists its keys.
-/

namespace Lib

/-! ### The order of a list -/

section
variable {α β : Type} [DecidableEq α] [DecidableEq β] {l l₁ l₂ : List α} {a b : α}

/-- Which of two elements of a list stands first. -/
def orderIn (l : List α) (a b : α) : Ordering := compare (l.idxOf a) (l.idxOf b)

theorem orderIn_self (l : List α) (a : α) : orderIn l a a = .eq := Nat.compare_eq_eq.2 rfl

theorem swap_orderIn (l : List α) (a b : α) : (orderIn l a b).swap = orderIn l b a :=
  Nat.compare_swap ..

theorem orderIn_eq_iff (ha : a ∈ l) : orderIn l a b = .eq ↔ a = b := by
  rw [orderIn, Nat.compare_eq_eq]
  exact List.idxOf_inj ha

theorem orderIn_trans {c : α} (hab : orderIn l a b = .lt) (hbc : orderIn l b c = .lt) :
    orderIn l a c = .lt := by
  rw [orderIn, Nat.compare_eq_lt] at *
  exact hab.trans hbc

theorem orderIn_append_left (ha : a ∈ l₁) (hb : b ∈ l₁) :
    orderIn (l₁ ++ l₂) a b = orderIn l₁ a b := by
  rw [orderIn, orderIn, List.idxOf_append_of_mem ha, List.idxOf_append_of_mem hb]

theorem orderIn_append_right (ha : a ∉ l₁) (hb : b ∉ l₁) :
    orderIn (l₁ ++ l₂) a b = orderIn l₂ a b := by
  rw [orderIn, orderIn, List.idxOf_append_of_notMem ha, List.idxOf_append_of_notMem hb,
    Nat.compare_eq_ite_lt, Nat.compare_eq_ite_lt]
  simp only [Nat.add_lt_add_iff_left]

theorem orderIn_append_lt (ha : a ∈ l₁) (hb : b ∉ l₁) : orderIn (l₁ ++ l₂) a b = .lt := by
  have hlt := List.idxOf_lt_length_iff.2 ha
  rw [orderIn, List.idxOf_append_of_mem ha, List.idxOf_append_of_notMem hb, Nat.compare_eq_lt]
  omega

theorem orderIn_cons_lt (hb : b ≠ a) : orderIn (a :: l) a b = .lt :=
  orderIn_append_lt (List.mem_singleton_self a) (by simpa using hb)

theorem orderIn_append_gt (ha : a ∉ l₁) (hb : b ∈ l₁) : orderIn (l₁ ++ l₂) a b = .gt := by
  rw [← swap_orderIn, orderIn_append_lt hb ha]
  rfl

/-- Where the parts of a list stand one after the other, the parts decide first. -/
theorem orderIn_flatMap {l : List β} {g : β → List α} (hnodup : (l.flatMap g).Nodup) {c d : β}
    (hc : c ∈ l) (hd : d ∈ l) (ha : a ∈ g c) (hb : b ∈ g d) :
    orderIn (l.flatMap g) a b = (orderIn l c d).then (orderIn (g c) a b) := by
  induction l with
  | nil => cases hc
  | cons e l ih =>
    rw [List.flatMap_cons] at hnodup ⊢
    obtain ⟨-, hrest, hapart⟩ := List.nodup_append.1 hnodup
    have hfirst : ∀ {x : α} {y : β}, y ∈ l → x ∈ g y → x ∉ g e := fun hy hx hxe =>
      hapart _ hxe _ (List.mem_flatMap.2 ⟨_, hy, hx⟩) rfl
    have hother : ∀ {x : α} {y : β}, y ∈ e :: l → x ∈ g y → y ≠ e → y ∈ l := fun hy _ hye =>
      (List.mem_cons.1 hy).resolve_left hye
    by_cases hce : c = e
    · subst hce
      by_cases hdc : d = c
      · subst hdc
        rw [orderIn_append_left ha hb, orderIn_self]
        rfl
      · rw [orderIn_append_lt ha (hfirst (hother hd hb hdc) hb), orderIn_cons_lt hdc]
        rfl
    · have hcl := hother hc ha hce
      by_cases hde : d = e
      · subst hde
        rw [orderIn_append_gt (hfirst hcl ha) hb, ← swap_orderIn, orderIn_cons_lt hce]
        rfl
      · have hdl := hother hd hb hde
        have hcd : orderIn (e :: l) c d = orderIn l c d :=
          @orderIn_append_right β _ [e] l c d (by simpa using hce) (by simpa using hde)
        rw [orderIn_append_right (hfirst hcl ha) (hfirst hdl hb), ih hrest hcl hdl, hcd]

theorem orderIn_range {n i j : Nat} (hi : i < n) (hj : j < n) :
    orderIn (List.range n) i j = compare i j := by
  have hidx : ∀ k < n, (List.range n).idxOf k = k := fun k hk => by
    have h := (List.nodup_range (n := n)).idxOf_getElem k (by simpa using hk)
    rwa [List.getElem_range] at h
  rw [orderIn, hidx i hi, hidx j hj]

end

/-- `cmp` compares the elements of `s` as a linear order does. -/
structure Linear {α : Type} (s : α → Prop) (cmp : α → α → Ordering) : Prop where
  eq_iff : ∀ a, s a → ∀ b, s b → (cmp a b = .eq ↔ a = b)
  swap : ∀ a, s a → ∀ b, s b → cmp b a = (cmp a b).swap
  trans : ∀ a, s a → ∀ b, s b → ∀ c, s c → cmp a b = .lt → cmp b c = .lt → cmp a c = .lt

theorem linear_of_orderIn {α : Type} [DecidableEq α] {l : List α} {cmp : α → α → Ordering}
    (h : ∀ a ∈ l, ∀ b ∈ l, cmp a b = orderIn l a b) : Linear (· ∈ l) cmp where
  eq_iff a ha b hb := by rw [h a ha b hb, orderIn_eq_iff ha]
  swap a ha b hb := by rw [h a ha b hb, h b hb a ha, swap_orderIn]
  trans a ha b hb c hc := by
    rw [h a ha b hb, h b hb c hc, h a ha c hc]
    exact orderIn_trans

namespace Forest

variable {α : Type} {f : Forest α} {len : α → Nat} {x y c d a b : α}

/-! ### Keys -/

theorem exists_chain_append (h : x ∈ f.chain y) : ∃ l, f.chain y = l ++ f.chain x := by
  induction y using f.induction_up with
  | root y hy =>
    rw [chain_of_root hy, List.mem_singleton] at h
    subst h
    exact ⟨[], rfl⟩
  | child y p hp ih =>
    rcases (mem_chain_of_parent hp).1 h with rfl | h
    · exact ⟨[], rfl⟩
    · obtain ⟨l, hl⟩ := ih h
      exact ⟨y :: l, by rw [chain_of_parent hp, hl, List.cons_append]⟩

theorem mem_preorder_of_child (hc : c ∈ f.children x) (hy : y ∈ f.preorder c) :
    y ∈ f.preorder x := by
  rw [preorder_eq]
  exact List.mem_cons_of_mem _ (List.mem_flatMap.2 ⟨c, hc, hy⟩)

theorem not_mem_preorder_child (hc : c ∈ f.children x) : x ∉ f.preorder c := fun h =>
  not_mem_chain_parent (f.mem_children.1 hc) (mem_preorder.1 h)

theorem mem_preorder_cases (h : y ∈ f.preorder x) :
    y = x ∨ ∃ c ∈ f.children x, y ∈ f.preorder c := by
  rw [preorder_eq, List.mem_cons, List.mem_flatMap] at h
  exact h

theorem eq_of_mem_preorder_children (hc : c ∈ f.children x) (hd : d ∈ f.children x)
    (hyc : y ∈ f.preorder c) (hyd : y ∈ f.preorder d) : c = d :=
  eq_of_siblings (f.mem_children.1 hc) (f.mem_children.1 hd) (mem_preorder.1 hyc)
    (mem_preorder.1 hyd)

section
variable [DecidableEq α]

theorem orderIn_preorder_root (hc : c ∈ f.children x) (hy : y ∈ f.preorder c) :
    orderIn (f.preorder x) x y = .lt := by
  rw [preorder_eq]
  refine orderIn_cons_lt ?_
  rintro rfl
  exact not_mem_preorder_child hc hy

/-- Below a key, its children decide first. -/
theorem orderIn_preorder_children (hc : c ∈ f.children x) (hd : d ∈ f.children x)
    (ha : a ∈ f.preorder c) (hb : b ∈ f.preorder d) : orderIn (f.preorder x) a b =
      (orderIn (f.children x) c d).then (orderIn (f.preorder c) a b) := by
  have hnodup := (List.nodup_cons.1 (f.preorder_eq x ▸ f.nodup_preorder x)).2
  have hax : a ∉ [x] := fun h => not_mem_preorder_child hc (List.mem_singleton.1 h ▸ ha)
  have hbx : b ∉ [x] := fun h => not_mem_preorder_child hd (List.mem_singleton.1 h ▸ hb)
  rw [preorder_eq, ← orderIn_flatMap hnodup hc hd ha hb]
  exact orderIn_append_right hax hbx

end

/-! ### Points -/

/-- The points of the subtree of `x`, each offset of a key before the child of that index. -/
def points (f : Forest α) (len : α → Nat) (x : α) : List (α × Nat) :=
  (List.range (max (len x + 1) (f.children x).length)).flatMap fun i =>
    (if i ≤ len x then [(x, i)] else []) ++
      match _h : (f.children x)[i]? with
      | some c => f.points len c
      | none => []
termination_by f.down.wrap x
decreasing_by exact f.mem_children.1 (List.mem_of_getElem? _h)

/-- The points at one offset of a key and in the child of that index. -/
def pointsAt (f : Forest α) (len : α → Nat) (x : α) (i : Nat) : List (α × Nat) :=
  (if i ≤ len x then [(x, i)] else []) ++ ((f.children x)[i]?.map (f.points len)).getD []

theorem points_eq (f : Forest α) (len : α → Nat) (x : α) : f.points len x =
    (List.range (max (len x + 1) (f.children x).length)).flatMap (f.pointsAt len x) := by
  rw [points]
  congr 1
  funext i
  rw [pointsAt]
  congr 1
  split
  · rename_i c hc
    rw [hc]
    rfl
  · rename_i hc
    rw [hc]
    rfl

theorem mem_pointsAt {i j : Nat} : (y, j) ∈ f.pointsAt len x i ↔
    (y = x ∧ j = i ∧ j ≤ len x) ∨ ∃ c, (f.children x)[i]? = some c ∧ (y, j) ∈ f.points len c := by
  rw [pointsAt, List.mem_append]
  refine or_congr ?_ ?_
  · by_cases hi : i ≤ len x
    · rw [if_pos hi, List.mem_singleton, Prod.mk.injEq]
      exact ⟨fun h => ⟨h.1, h.2, h.2 ▸ hi⟩, fun h => ⟨h.1, h.2.1⟩⟩
    · rw [if_neg hi]
      exact iff_of_false List.not_mem_nil fun h => hi (h.2.1 ▸ h.2.2)
  · cases (f.children x)[i]? with
    | none => exact iff_of_false List.not_mem_nil nofun
    | some c => exact ⟨fun h => ⟨c, rfl, h⟩, fun ⟨_, hc, h⟩ => Option.some.inj hc ▸ h⟩

/-- The points of a subtree are its keys with their offsets. -/
theorem mem_points {j : Nat} : (y, j) ∈ f.points len x ↔ y ∈ f.preorder x ∧ j ≤ len y := by
  induction x using f.down.induction with
  | _ x ih =>
    rw [points_eq, List.mem_flatMap, preorder_eq, List.mem_cons, List.mem_flatMap]
    simp only [List.mem_range, mem_pointsAt]
    constructor
    · rintro ⟨i, -, ⟨rfl, rfl, hj⟩ | ⟨c, hc, hy⟩⟩
      · exact ⟨.inl rfl, hj⟩
      · have hmem := List.mem_of_getElem? hc
        obtain ⟨hyc, hj⟩ := (ih c (f.mem_children.1 hmem)).1 hy
        exact ⟨.inr ⟨c, hmem, hyc⟩, hj⟩
    · rintro ⟨rfl | ⟨c, hc, hyc⟩, hj⟩
      · exact ⟨j, by omega, .inl ⟨rfl, rfl, hj⟩⟩
      · obtain ⟨i, hi, hic⟩ := List.getElem_of_mem hc
        have hget : (f.children x)[i]? = some c := hic ▸ List.getElem?_eq_getElem hi
        exact ⟨i, by omega, .inr ⟨c, hget, (ih c (f.mem_children.1 hc)).2 ⟨hyc, hj⟩⟩⟩

theorem nodup_points (f : Forest α) (len : α → Nat) (x : α) : (f.points len x).Nodup := by
  induction x using f.down.induction with
  | _ x ih =>
    have hbelow : ∀ {i : Nat} {c : α} {p : α × Nat}, (f.children x)[i]? = some c →
        p ∈ f.points len c → p.1 ≠ x := by
      rintro i c ⟨y, j⟩ hc hp rfl
      exact not_mem_preorder_child (List.mem_of_getElem? hc) (mem_points.1 hp).1
    rw [points_eq, List.nodup_flatMap]
    refine ⟨fun i _ => ?_, ?_⟩
    · rw [pointsAt, List.nodup_append]
      refine ⟨by split <;> simp, ?_, fun p hp q hq hpq => ?_⟩
      · cases hc : (f.children x)[i]? with
        | none => exact .nil
        | some c => exact ih c (f.mem_children.1 (List.mem_of_getElem? hc))
      · subst hpq
        obtain rfl : p = (x, i) := by
          split at hp
          · exact List.mem_singleton.1 hp
          · cases hp
        cases hc : (f.children x)[i]? with
        | none => rw [hc] at hq; cases hq
        | some c => rw [hc] at hq; exact hbelow hc hq rfl
    · refine (List.nodup_range).imp fun {i j} hij => ?_
      rintro ⟨y, k⟩ hi hj
      rw [mem_pointsAt] at hi hj
      rcases hi with ⟨rfl, hki, -⟩ | ⟨c, hc, hyc⟩ <;> rcases hj with ⟨hy, hkj, -⟩ | ⟨d, hd, hyd⟩
      · exact hij (hki.symm.trans hkj)
      · exact hbelow hd hyd rfl
      · exact hbelow hc hyc hy
      · have hcd := eq_of_mem_preorder_children (List.mem_of_getElem? hc) (List.mem_of_getElem? hd)
          (mem_points.1 hyc).1 (mem_points.1 hyd).1
        have hlt := (List.getElem?_eq_some_iff.1 hc).1
        exact hij ((List.getElem?_inj hlt (f.nodup x)).1 (hc.trans (hcd ▸ hd.symm)))

section
variable [DecidableEq α] {i j k m : Nat} {p q : α × Nat}

theorem orderIn_pointsAt (hi : i < max (len x + 1) (f.children x).length)
    (hj : j < max (len x + 1) (f.children x).length) (hp : p ∈ f.pointsAt len x i)
    (hq : q ∈ f.pointsAt len x j) : orderIn (f.points len x) p q =
      (compare i j).then (orderIn (f.pointsAt len x i) p q) := by
  have hnodup := f.nodup_points len x
  rw [points_eq] at hnodup ⊢
  rw [orderIn_flatMap hnodup (List.mem_range.2 hi) (List.mem_range.2 hj) hp hq,
    orderIn_range hi hj]

theorem orderIn_points_root (hi : i ≤ len x) (hj : j ≤ len x) :
    orderIn (f.points len x) (x, i) (x, j) = compare i j := by
  rw [orderIn_pointsAt (i := i) (j := j) (by omega) (by omega) (mem_pointsAt.2 (.inl ⟨rfl, rfl, hi⟩))
    (mem_pointsAt.2 (.inl ⟨rfl, rfl, hj⟩))]
  by_cases hij : i = j
  · subst hij
    rw [orderIn_self, Ordering.then_eq]
  · rcases Nat.lt_or_gt_of_ne hij with h | h
    · rw [Nat.compare_eq_lt.2 h]
      rfl
    · rw [Nat.compare_eq_gt.2 h]
      rfl

/-- A point of a key is before the child of its index, and after those before it. -/
theorem orderIn_points_child (hi : i ≤ len x) (hc : (f.children x)[k]? = some c)
    (hq : q ∈ f.points len c) :
    orderIn (f.points len x) (x, i) q = if k < i then .gt else .lt := by
  have hk := (List.getElem?_eq_some_iff.1 hc).1
  have hfirst : q ≠ (x, i) := by
    rintro rfl
    exact not_mem_preorder_child (List.mem_of_getElem? hc) (mem_points.1 hq).1
  rw [orderIn_pointsAt (i := i) (j := k) (by omega) (by omega) (mem_pointsAt.2 (.inl ⟨rfl, rfl, hi⟩))
    (mem_pointsAt.2 (.inr ⟨c, hc, hq⟩)), pointsAt, if_pos hi]
  rcases Nat.lt_trichotomy i k with h | rfl | h
  · rw [Nat.compare_eq_lt.2 h, if_neg (by omega)]
    rfl
  · rw [Nat.compare_eq_eq.2 rfl, if_neg (by omega), List.singleton_append, orderIn_cons_lt hfirst]
    rfl
  · rw [Nat.compare_eq_gt.2 h, if_pos h]
    rfl

theorem orderIn_points_children (hc : (f.children x)[k]? = some c) (hd : (f.children x)[m]? = some d)
    (hp : p ∈ f.points len c) (hq : q ∈ f.points len d) :
    orderIn (f.points len x) p q = (compare k m).then (orderIn (f.points len c) p q) := by
  have hk := (List.getElem?_eq_some_iff.1 hc).1
  have hm := (List.getElem?_eq_some_iff.1 hd).1
  have hbelow : ∀ {i n : Nat} {c : α} {p : α × Nat}, (f.children x)[n]? = some c →
      p ∈ f.points len c → p ∉ (if i ≤ len x then [(x, i)] else []) := by
    intro i n c p hc hp h
    split at h
    · obtain rfl := List.mem_singleton.1 h
      exact not_mem_preorder_child (List.mem_of_getElem? hc) (mem_points.1 hp).1
    · cases h
  rw [orderIn_pointsAt (i := k) (j := m) (by omega) (by omega) (mem_pointsAt.2 (.inr ⟨c, hc, hp⟩))
    (mem_pointsAt.2 (.inr ⟨d, hd, hq⟩)), pointsAt, hc,
    orderIn_append_right (hbelow hc hp) (hbelow hd hq)]
  rfl

end

end Forest

end Lib
