import TinyBrowser.Lib.Rose

/-!
# Trees compared node by node

Two points of a graph are alike when a relation `R` holds between them, they have as many successors,
and these are alike one by one. On finite trees this is a matter of the nodes at one place in both
(`alike_iff`), which gives reflexivity, symmetry and transitivity from the same of `R`, and the
comparison `alike?` decides it.
-/

namespace Lib

inductive Alike {α : Type} (R : α → α → Prop) (next : α → List α) : α → α → Prop where
  | node {a b : α} (here : R a b) (length_eq : (next a).length = (next b).length)
      (below : ∀ (i : Nat) (x y : α), (next a)[i]? = some x → (next b)[i]? = some y →
        Alike R next x y) :
      Alike R next a b

/-- `Places next a b x y`: what stands at `x` below `a` stands at `y` below `b`. -/
inductive Places {α : Type} (next : α → List α) (a b : α) : α → α → Prop where
  | root : Places next a b a b
  | child {x y x' y' : α} {i : Nat} (above : Places next a b x y) (left : (next x)[i]? = some x')
      (right : (next y)[i]? = some y') : Places next a b x' y'

/-- Compares from the top, `none` if that does not end within the fuel. -/
def alike? {α : Type} (same : α → α → Bool) (next : α → List α) : Nat → α → α → Option Bool
  | 0, _, _ => none
  | fuel + 1, a, b =>
    if !same a b then some false
    else if (next a).length ≠ (next b).length then some false
    else ((next a).zip (next b)).allM fun pair => alike? same next fuel pair.1 pair.2

section
variable {α : Type} {R R' : α → α → Prop} {next : α → List α} {a b c x y : α} {s t : Rose α}

theorem Places.under {i : Nat} {a' b' : α} (ha : (next a)[i]? = some a') (hb : (next b)[i]? = some b')
    (h : Places next a' b' x y) : Places next a b x y := by
  induction h with
  | root => exact .child .root ha hb
  | child _ left right ih => exact .child ih left right

theorem Places.swap (h : Places next a b x y) : Places next b a y x := by
  induction h with
  | root => exact .root
  | child _ left right ih => exact .child ih right left

theorem Places.mem_values (h : Places next a b x y) (hs : s.Follows next) (hvalue : s.value = a) :
    ∃ u : Rose α, u.Follows next ∧ u.value = x ∧ ∀ z ∈ u.values, z ∈ s.values := by
  induction h with
  | root => exact ⟨s, hs, hvalue, fun _ hz => hz⟩
  | child _ left _ ih =>
    obtain ⟨⟨v, us⟩, hu, rfl, hsub⟩ := ih
    obtain ⟨hkids, hall⟩ := Rose.follows_node.1 hu
    rw [Rose.value, ← hkids, List.getElem?_map, Option.map_eq_some_iff] at left
    obtain ⟨u, hget, hu'⟩ := left
    have hmem := List.mem_of_getElem? hget
    exact ⟨u, hall u hmem, hu', fun z hz => hsub z (Rose.mem_values_of_kid hmem hz)⟩

theorem Places.mem_left (h : Places next a b x y) (hs : s.Follows next) (hvalue : s.value = a) :
    x ∈ s.values := by
  obtain ⟨u, -, rfl, hsub⟩ := h.mem_values hs hvalue
  exact hsub _ u.value_mem_values

theorem Alike.places (h : Alike R next a b) (hp : Places next a b x y) : Alike R next x y := by
  induction hp with
  | root => exact h
  | child _ left right ih =>
    cases ih with
    | node _ _ below => exact below _ _ _ left right

theorem Alike.here (h : Alike R next a b) : R a b ∧ (next a).length = (next b).length := by
  cases h with
  | node here length_eq _ => exact ⟨here, length_eq⟩

/-- A finite tree is like another when the nodes are at every place. -/
theorem alike_iff (hs : s.Follows next) (b : α) : Alike R next s.value b ↔
    ∀ x y, Places next s.value b x y → R x y ∧ (next x).length = (next y).length := by
  constructor
  · exact fun h x y hp => (h.places hp).here
  · induction s using Rose.induction generalizing b with
    | node v ts ih =>
      intro h
      obtain ⟨hkids, hall⟩ := Rose.follows_node.1 hs
      obtain ⟨here, hlength⟩ := h _ _ .root
      refine .node here hlength fun i x y hx hy => ?_
      have hget := hx
      rw [Rose.value, ← hkids, List.getElem?_map, Option.map_eq_some_iff] at hget
      obtain ⟨t, ht, rfl⟩ := hget
      have hmem := List.mem_of_getElem? ht
      exact ih t hmem (hall t hmem) y fun x' y' hp => h x' y' (hp.under hx hy)

/-! ### An equivalence -/

theorem Alike.refl (hs : s.Follows next) (h : ∀ x ∈ s.values, R x x) :
    Alike R next s.value s.value := by
  rw [alike_iff hs]
  intro x y hp
  have hxy : x = y := by
    induction hp with
    | root => rfl
    | child _ left right ih =>
      subst ih
      exact Option.some.inj (left.symm.trans right)
  subst hxy
  exact ⟨h x (hp.mem_left hs rfl), rfl⟩

theorem Alike.symm (h : Alike R next a b) (hR : ∀ x y, Places next a b x y → R x y → R y x) :
    Alike R next b a := by
  induction h with
  | node here length_eq _ ih =>
    refine .node (hR _ _ .root here) length_eq.symm fun i x y hx hy => ?_
    exact ih i y x hy hx fun x' y' hp => hR x' y' (hp.under hy hx)

theorem Alike.trans (h : Alike R next a b) (h' : Alike R next b c)
    (hR : ∀ x y z, Places next a b x y → Places next b c y z → R x y → R y z → R x z) :
    Alike R next a c := by
  induction h generalizing c with
  | @node a b here length_eq _ ih =>
    cases h' with
    | node here' length_eq' below' =>
      refine .node (hR _ _ _ .root .root here here') (length_eq.trans length_eq') ?_
      intro i x z hx hz
      have hi : i < (next b).length := by
        rw [← length_eq]
        exact (List.getElem?_eq_some_iff.1 hx).1
      have hy := List.getElem?_eq_getElem hi
      exact ih i x _ hx hy (below' i _ z hy hz) fun x' y' z' hp hp' =>
        hR x' y' z' (hp.under hx hy) (hp'.under hy hz)

/-! ### The comparison -/

theorem allM_eq {β : Type} {f : β → Option Bool} {Q : β → Prop} {l : List β}
    (h : ∀ p ∈ l, ∃ v, f p = some v ∧ (v = true ↔ Q p)) :
    ∃ v, l.allM f = some v ∧ (v = true ↔ ∀ p ∈ l, Q p) := by
  induction l with
  | nil => exact ⟨true, rfl, by simp⟩
  | cons p l ih =>
    rw [List.forall_mem_cons] at h
    obtain ⟨⟨v, hv, hQ⟩, htail⟩ := h
    obtain ⟨w, hw, hall⟩ := ih htail
    rw [List.allM, hv]
    cases v with
    | true => exact ⟨w, hw, by rw [hall, List.forall_mem_cons, ← hQ]; simp⟩
    | false => exact ⟨false, rfl, by rw [List.forall_mem_cons, ← hQ]; simp⟩

theorem mem_zip_iff {β : Type} {l l' : List β} {p : β × β} :
    p ∈ l.zip l' ↔ ∃ i : Nat, l[i]? = some p.1 ∧ l'[i]? = some p.2 := by
  rw [List.mem_iff_getElem?]
  simp only [List.getElem?_zip_eq_some]

theorem length_values_le {ts : List (Rose α)} (h : t ∈ ts) :
    t.values.length ≤ (ts.flatMap Rose.values).length := by
  have hmem : t.values ∈ ts.map Rose.values := List.mem_map_of_mem h
  rw [List.flatMap_def]
  exact (List.sublist_flatten_of_mem hmem).length_le

/-- With fuel for the first tree the comparison gives an answer, the right one. -/
theorem alike?_eq (same : α → α → Bool) (hs : s.Follows next) {fuel : Nat}
    (hfuel : s.values.length ≤ fuel) (b : α) :
    ∃ v, alike? same next fuel s.value b = some v ∧
      (v = true ↔ Alike (fun x y => same x y = true) next s.value b) := by
  induction s using Rose.induction generalizing fuel b with
  | node v ts ih =>
    obtain ⟨hkids, hall⟩ := Rose.follows_node.1 hs
    rw [Rose.values_node, List.length_cons] at hfuel
    obtain ⟨fuel, rfl⟩ : ∃ m, fuel = m + 1 := ⟨fuel - 1, by omega⟩
    rw [Rose.value, alike?]
    cases hsame : same v b with
    | false =>
      refine ⟨false, rfl, iff_of_false Bool.false_ne_true fun h => ?_⟩
      rw [h.here.1] at hsame
      cases hsame
    | true =>
      rw [Bool.not_true, if_neg Bool.false_ne_true]
      split
      · next hlength => exact ⟨false, rfl, iff_of_false Bool.false_ne_true fun h => hlength h.here.2⟩
      · next hlength =>
        obtain ⟨w, hw, hall'⟩ := allM_eq (l := (next v).zip (next b))
          (f := fun pair => alike? same next fuel pair.1 pair.2)
          (Q := fun pair => Alike (fun x y => same x y = true) next pair.1 pair.2) (by
            intro p hp
            obtain ⟨i, hleft, -⟩ := mem_zip_iff.1 hp
            rw [← hkids, List.getElem?_map, Option.map_eq_some_iff] at hleft
            obtain ⟨t, ht, hvalue⟩ := hleft
            have hmem := List.mem_of_getElem? ht
            have hle := length_values_le hmem
            rw [← hvalue]
            exact ih t hmem (hall t hmem) (by omega) p.2)
        refine ⟨w, hw, hall'.trans ?_⟩
        constructor
        · intro h
          refine .node hsame (not_not.1 hlength) fun i x y hx hy => ?_
          exact h (x, y) (mem_zip_iff.2 ⟨i, hx, hy⟩)
        · intro h p hp
          obtain ⟨i, hx, hy⟩ := mem_zip_iff.1 hp
          exact h.places (.child .root hx hy)

end
end Lib
