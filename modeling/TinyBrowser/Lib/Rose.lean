import Mathlib.Data.List.Basic
import Mathlib.Data.List.Perm.Basic
import Mathlib.Data.List.Nodup

/-!
# Finite trees

A finite tree follows a graph when the children of each of its nodes stand, in order, for the
successors of what the node stands for; it is then the unfolding of its root. What is said of the
points reached from one point, and of copies of them, is said of the unfolding.

A walk that keeps on a stack what it has yet to visit visits the values of the finite trees it
starts from, each once. Two trees walked in lockstep are one tree of pairs; a walk that goes past
the first children of some nodes leaves out what is below these.
-/

namespace Lib

inductive Rose (α : Type) where
  | node (value : α) (kids : List (Rose α))

namespace Rose
variable {α β γ : Type}

def value : Rose α → α
  | node a _ => a

mutual

def map (f : α → β) : Rose α → Rose β
  | node a ts => node (f a) (mapAll f ts)

def mapAll (f : α → β) : List (Rose α) → List (Rose β)
  | [] => []
  | t :: ts => map f t :: mapAll f ts

end

mutual

/-- The values, each before those below it. -/
def values : Rose α → List α
  | node a ts => a :: valuesAll ts

def valuesAll : List (Rose α) → List α
  | [] => []
  | t :: ts => values t ++ valuesAll ts

end

mutual

/-- The children of each node stand for the successors of what the node stands for. -/
def Follows (next : α → List α) : Rose α → Prop
  | node a ts => ts.map value = next a ∧ FollowsAll next ts

def FollowsAll (next : α → List α) : List (Rose α) → Prop
  | [] => True
  | t :: ts => Follows next t ∧ FollowsAll next ts

end

theorem induction {P : Rose α → Prop} (node : ∀ a ts, (∀ t ∈ ts, P t) → P (.node a ts)) :
    ∀ t, P t
  | .node a ts => node a ts fun t _ => induction node t
termination_by t => t
decreasing_by
  have := List.sizeOf_lt_of_mem ‹t ∈ ts›
  simp only [Rose.node.sizeOf_spec]
  omega

theorem mapAll_eq (f : α → β) (ts : List (Rose α)) : mapAll f ts = ts.map (map f) := by
  induction ts with
  | nil => rfl
  | cons t ts ih => rw [mapAll, ih, List.map_cons]

theorem map_node (f : α → β) (a : α) (ts : List (Rose α)) :
    map f (node a ts) = node (f a) (ts.map (map f)) := by
  rw [map, mapAll_eq]

@[simp] theorem value_map (f : α → β) (t : Rose α) : (t.map f).value = f t.value := by
  cases t
  rfl

theorem valuesAll_eq (ts : List (Rose α)) : valuesAll ts = ts.flatMap values := by
  induction ts with
  | nil => rfl
  | cons t ts ih => rw [valuesAll, ih, List.flatMap_cons]

theorem values_node (a : α) (ts : List (Rose α)) : values (node a ts) = a :: ts.flatMap values := by
  rw [values, valuesAll_eq]

theorem value_mem_values (t : Rose α) : t.value ∈ t.values := by
  cases t
  exact List.mem_cons_self

theorem mem_values_of_kid {a b : α} {t : Rose α} {ts : List (Rose α)} (ht : t ∈ ts)
    (h : b ∈ t.values) : b ∈ (node a ts).values := by
  rw [values_node]
  exact List.mem_cons_of_mem _ (List.mem_flatMap.2 ⟨t, ht, h⟩)

theorem followsAll_iff {next : α → List α} {ts : List (Rose α)} :
    FollowsAll next ts ↔ ∀ t ∈ ts, t.Follows next := by
  induction ts with
  | nil => simp [FollowsAll]
  | cons t ts ih => rw [FollowsAll, ih, List.forall_mem_cons]

theorem follows_node {next : α → List α} {a : α} {ts : List (Rose α)} :
    (node a ts).Follows next ↔ ts.map value = next a ∧ ∀ t ∈ ts, t.Follows next := by
  rw [Follows, followsAll_iff]

theorem Follows.congr {next next' : α → List α} {t : Rose α} (h : t.Follows next)
    (heq : ∀ a ∈ t.values, next' a = next a) : t.Follows next' := by
  induction t using induction with
  | node a ts ih =>
    obtain ⟨hkids, hall⟩ := follows_node.1 h
    refine follows_node.2 ⟨?_, fun t ht => ih t ht (hall t ht) fun b hb => ?_⟩
    · rw [hkids, heq a (value_mem_values (node a ts))]
    · exact heq b (mem_values_of_kid ht hb)

theorem map_congr {f g : α → β} {t : Rose α} (h : ∀ a ∈ t.values, f a = g a) :
    t.map f = t.map g := by
  induction t using induction with
  | node a ts ih =>
    rw [map_node, map_node, h a (value_mem_values (node a ts))]
    exact congrArg _ (List.map_congr_left fun t ht =>
      ih t ht fun b hb => h b (mem_values_of_kid ht hb))

theorem map_map (g : β → γ) (f : α → β) (t : Rose α) : (t.map f).map g = t.map fun a => g (f a) := by
  induction t using induction with
  | node a ts ih =>
    rw [map_node, map_node, map_node, List.map_map]
    exact congrArg _ (List.map_congr_left ih)

/-- A point has one unfolding. -/
theorem Follows.unique {next : α → List α} {t t' : Rose α} (h : t.Follows next)
    (h' : t'.Follows next) (hvalue : t.value = t'.value) : t = t' := by
  induction t using induction generalizing t' with
  | node a ts ih =>
    obtain ⟨a', ts'⟩ := t'
    obtain rfl : a = a' := hvalue
    obtain ⟨hkids, hall⟩ := follows_node.1 h
    obtain ⟨hkids', hall'⟩ := follows_node.1 h'
    congr 1
    have hvalues := hkids.trans hkids'.symm
    clear hkids hkids' h h'
    induction ts generalizing ts' with
    | nil => exact (List.map_eq_nil_iff.1 hvalues.symm).symm
    | cons t ts ihts =>
      cases ts' with
      | nil => cases hvalues
      | cons t' ts' =>
        obtain ⟨hhead, htail⟩ := List.cons.inj hvalues
        rw [List.forall_mem_cons] at hall hall' ih
        rw [ih.1 hall.1 hall'.1 hhead, ihts ih.2 ts' hall.2 hall'.2 htail]

end Rose

/-! ### Walks over finite trees -/

variable {α β γ σ : Type}

/-- Visits the points on the stack and all after them, the last successor of a point first. -/
def sweep (next : α → List α) (visit : σ → α → σ) : Nat → List α → σ → Option σ
  | _, [], s => some s
  | 0, _ :: _, _ => none
  | fuel + 1, a :: stack, s => sweep next visit fuel ((next a).reverse ++ stack) (visit s a)

theorem sweep_keeps {next : α → List α} {visit : σ → α → σ} {I : σ → Prop}
    (hvisit : ∀ s a, I s → I (visit s a)) {fuel : Nat} {stack : List α} {s s' : σ} (hs : I s)
    (h : sweep next visit fuel stack s = some s') : I s' := by
  induction fuel generalizing stack s with
  | zero =>
    cases stack with
    | nil => exact Option.some.inj h ▸ hs
    | cons a stack => cases h
  | succ fuel ih =>
    cases stack with
    | nil => exact Option.some.inj h ▸ hs
    | cons a stack => exact ih (hvisit s a hs) h

/-- The walk visits the values of the trees on its stack, in some order. -/
theorem sweep_eq {next : α → List α} (visit : σ → α → σ) {ts : List (Rose α)}
    (h : ∀ t ∈ ts, t.Follows next) :
    ∃ order : List α, order.Perm (ts.flatMap Rose.values) ∧ ∀ fuel s, order.length ≤ fuel →
      sweep next visit fuel (ts.map Rose.value) s = some (order.foldl visit s) := by
  obtain ⟨n, hn⟩ : ∃ n, (ts.flatMap Rose.values).length = n := ⟨_, rfl⟩
  induction n generalizing ts with
  | zero =>
    cases ts with
    | nil => exact ⟨[], .refl _, fun fuel s _ => by cases fuel <;> rfl⟩
    | cons t ts =>
      obtain ⟨a, kids⟩ := t
      rw [List.flatMap_cons, Rose.values_node] at hn
      cases hn
  | succ n ih =>
    cases ts with
    | nil => cases hn
    | cons t ts =>
      obtain ⟨a, kids⟩ := t
      obtain ⟨hnode, hts⟩ := List.forall_mem_cons.1 h
      obtain ⟨hkids, hall⟩ := Rose.follows_node.1 hnode
      have hperm : ((kids.reverse ++ ts).flatMap Rose.values).Perm
          (kids.flatMap Rose.values ++ ts.flatMap Rose.values) := by
        rw [List.flatMap_append]
        exact (List.Perm.flatMap_right _ (List.reverse_perm kids)).append_right _
      have hlength := hperm.length_eq
      rw [List.flatMap_cons, Rose.values_node, List.cons_append, List.length_cons] at hn
      obtain ⟨order, horder, hsweep⟩ := @ih (kids.reverse ++ ts)
        (fun t ht => (List.mem_append.1 ht).elim (fun ht => hall t (List.mem_reverse.1 ht)) (hts t))
        (by omega)
      refine ⟨a :: order, ?_, fun fuel s hfuel => ?_⟩
      · rw [List.flatMap_cons, Rose.values_node, List.cons_append]
        exact (horder.trans hperm).cons a
      · obtain ⟨fuel, rfl⟩ : ∃ m, fuel = m + 1 :=
          ⟨fuel - 1, by rw [List.length_cons] at hfuel; omega⟩
        have hsweep := hsweep fuel (visit s a) (Nat.le_of_succ_le_succ hfuel)
        rw [List.map_append, List.map_reverse, hkids] at hsweep
        exact hsweep

namespace Rose

/-! ### Two trees in lockstep -/

mutual

/-- The pairs of nodes at one place, as far as both trees go. -/
def zip : Rose α → Rose β → Rose (α × β)
  | node a ts, node b us => node (a, b) (zipAll ts us)

def zipAll : List (Rose α) → List (Rose β) → List (Rose (α × β))
  | t :: ts, u :: us => zip t u :: zipAll ts us
  | _, _ => []

end

theorem zipAll_eq (ts : List (Rose α)) (us : List (Rose β)) : zipAll ts us = ts.zipWith zip us := by
  induction ts generalizing us with
  | nil => cases us <;> rfl
  | cons t ts ih =>
    cases us with
    | nil => rfl
    | cons u us => rw [zipAll, ih, List.zipWith_cons_cons]

theorem zip_node (a : α) (b : β) (ts : List (Rose α)) (us : List (Rose β)) :
    zip (node a ts) (node b us) = node (a, b) (ts.zipWith zip us) := by
  rw [zip, zipAll_eq]

@[simp] theorem value_zip (t : Rose α) (u : Rose β) : (zip t u).value = (t.value, u.value) := by
  cases t
  cases u
  rfl

/-- Trees with their values left out. -/
def shape (t : Rose α) : Rose Unit := t.map fun _ => ()

theorem shape_map (f : α → β) (t : Rose α) : (t.map f).shape = t.shape := map_map ..

theorem shape_node (a : α) (ts : List (Rose α)) : (node a ts).shape = node () (ts.map shape) :=
  map_node ..

variable {t : Rose α} {u : Rose β}

theorem shape_eq_of_map_eq {f : α → γ} {g : β → γ}
    (h : t.map f = u.map g) : t.shape = u.shape := by
  rw [← shape_map f, h, shape_map]

/-- Trees of one shape are the two sides of the tree of their pairs. -/
theorem map_zip (h : t.shape = u.shape) :
    (zip t u).map Prod.fst = t ∧ (zip t u).map Prod.snd = u := by
  induction t using induction generalizing u with
  | node a ts ih =>
    obtain ⟨b, us⟩ := u
    rw [shape_node, shape_node] at h
    have hkids : ts.map shape = us.map shape := (node.inj h).2
    rw [zip_node, map_node, map_node]
    have hall : (ts.zipWith zip us).map (map Prod.fst) = ts ∧
        (ts.zipWith zip us).map (map Prod.snd) = us := by
      clear h
      induction ts generalizing us with
      | nil =>
        obtain rfl := List.map_eq_nil_iff.1 hkids.symm
        exact ⟨rfl, rfl⟩
      | cons t ts ihts =>
        cases us with
        | nil => cases hkids
        | cons u us =>
          obtain ⟨hhead, htail⟩ := List.cons.inj hkids
          obtain ⟨hleft, hright⟩ := ih t List.mem_cons_self hhead
          obtain ⟨hlefts, hrights⟩ := ihts (fun t ht => ih t (List.mem_cons_of_mem _ ht)) us htail
          rw [List.zipWith_cons_cons, List.map_cons, List.map_cons, hleft, hlefts, hright, hrights]
          exact ⟨rfl, rfl⟩
    rw [hall.1, hall.2]
    exact ⟨rfl, rfl⟩

theorem Follows.zip {next : α → List α} {next' : β → List β}
    (ht : t.Follows next) (hu : u.Follows next') :
    (zip t u).Follows fun p => (next p.1).zip (next' p.2) := by
  induction t using induction generalizing u with
  | node a ts ih =>
    obtain ⟨b, us⟩ := u
    obtain ⟨hts, hall⟩ := follows_node.1 ht
    obtain ⟨hus, hall'⟩ := follows_node.1 hu
    rw [zip_node, follows_node]
    constructor
    · rw [← hts, ← hus, List.zip_map, List.map_zipWith, List.zip, List.map_zipWith]
      simp only [value_zip, Prod.map_apply]
    · intro v hv
      rw [← List.map_uncurry_zip_eq_zipWith] at hv
      obtain ⟨⟨t, u⟩, hmem, rfl⟩ := List.mem_map.1 hv
      obtain ⟨ht, hu⟩ := List.of_mem_zip hmem
      exact ih t ht (hall t ht) (hall' u hu)

/-- The successors of a value stand for those of what it stands for. -/
theorem Follows.map_next {next : α → List α} {next' : β → List β} {f : α → β}
    (h : t.Follows next) (h' : (t.map f).Follows next') :
    ∀ a ∈ t.values, (next a).map f = next' (f a) := by
  induction t using induction with
  | node a ts ih =>
    obtain ⟨hkids, hall⟩ := follows_node.1 h
    rw [map_node, follows_node] at h'
    obtain ⟨hkids', hall'⟩ := h'
    rw [values_node, List.forall_mem_cons]
    refine ⟨?_, fun b hb => ?_⟩
    · rw [← hkids, ← hkids', List.map_map, List.map_map]
      exact List.map_congr_left fun t _ => (value_map f t).symm
    · obtain ⟨t, ht, hb⟩ := List.mem_flatMap.1 hb
      exact ih t ht (hall t ht) (hall' _ (List.mem_map_of_mem ht)) b hb

theorem values_map (f : α → β) (t : Rose α) : (t.map f).values = t.values.map f := by
  induction t using induction with
  | node a ts ih =>
    rw [map_node, values_node, values_node, List.map_cons, List.map_flatMap, List.flatMap_map]
    exact congrArg _ (List.flatMap_congr ih)

theorem map_eq_map_iff {f g : α → β} :
    t.map f = t.map g ↔ ∀ a ∈ t.values, f a = g a := by
  refine ⟨fun h => ?_, map_congr⟩
  have hvalues := congrArg values h
  rw [values_map, values_map] at hvalues
  exact List.map_inj_left.1 hvalues

theorem values_zip (hshape : t.shape = u.shape) :
    (zip t u).values.map Prod.fst = t.values ∧ (zip t u).values.map Prod.snd = u.values := by
  obtain ⟨hfst, hsnd⟩ := map_zip hshape
  rw [← values_map, ← values_map, hfst, hsnd]
  exact ⟨rfl, rfl⟩

theorem map_eq_map_zip {f : α → γ} {g : β → γ}
    (hshape : t.shape = u.shape) :
    u.map g = t.map f ↔ ∀ p ∈ (zip t u).values, g p.2 = f p.1 := by
  obtain ⟨hfst, hsnd⟩ := map_zip hshape
  have hleft : u.map g = (zip t u).map fun p => g p.2 := by rw [← map_map g Prod.snd, hsnd]
  have hright : t.map f = (zip t u).map fun p => f p.1 := by rw [← map_map f Prod.fst, hfst]
  rw [hleft, hright, map_eq_map_iff]

/-- A flag that is set along some of the pairs of two trees of one shape, and nowhere else in the
second tree, agrees with the flag in the first tree when no flagged pair is left out. -/
theorem map_eq_map_iff_of_marked {flag : α → Bool} {flag' : β → Bool}
    (hshape : t.shape = u.shape) (hnodup : u.values.Nodup) {marked : List (α × β)}
    (hsub : ∀ p ∈ marked, p ∈ (zip t u).values)
    (hflag : ∀ b ∈ u.values, flag' b = true ↔ ∃ p ∈ marked, flag p.1 = true ∧ p.2 = b) :
    u.map flag' = t.map flag ↔ ∀ p ∈ (zip t u).values, flag p.1 = true → p ∈ marked := by
  have hvalues := (values_zip hshape).2
  have hinj : ∀ p ∈ (zip t u).values, ∀ q ∈ (zip t u).values, p.2 = q.2 → p = q :=
    fun p hp q hq => List.inj_on_of_nodup_map (hvalues ▸ hnodup) hp hq
  have hmem : ∀ p ∈ (zip t u).values, p.2 ∈ u.values := fun p hp =>
    hvalues ▸ List.mem_map_of_mem hp
  rw [map_eq_map_zip hshape]
  constructor
  · intro h p hp hflagged
    rw [← h p hp] at hflagged
    obtain ⟨q, hq, -, heq⟩ := (hflag p.2 (hmem p hp)).1 hflagged
    rwa [← hinj q (hsub q hq) p hp heq]
  · intro h p hp
    rw [Bool.eq_iff_iff, hflag p.2 (hmem p hp)]
    constructor
    · rintro ⟨q, hq, hflagged, heq⟩
      rwa [← hinj q (hsub q hq) p hp heq]
    · exact fun hflagged => ⟨p, h p hp hflagged, hflagged, rfl⟩

theorem length_values_lt {a : α} {ts : List (Rose α)} (ht : t ∈ ts) :
    t.values.length < (node a ts).values.length := by
  obtain ⟨before, after, rfl⟩ := List.append_of_mem ht
  rw [values_node, List.flatMap_append, List.flatMap_cons, List.length_cons, List.length_append,
    List.length_append]
  omega

/-- Nothing leads back to the root of a finite tree. -/
theorem Follows.value_not_mem {next : α → List α} (h : t.Follows next) :
    ∀ a ∈ t.values, t.value ∉ next a := by
  have hsub : ∀ u : Rose α, u.Follows next → ∀ a ∈ u.values, ∀ b ∈ next a,
      ∃ v : Rose α, v.Follows next ∧ v.value = b ∧ sizeOf v < sizeOf u := fun u hu => by
    induction u using induction with
    | node c us ih =>
      obtain ⟨hkids, hall⟩ := follows_node.1 hu
      have hlt : ∀ v ∈ us, sizeOf v < sizeOf (node c us) := fun v hv => by
        have := List.sizeOf_lt_of_mem hv
        simp only [Rose.node.sizeOf_spec]
        omega
      intro a ha b hb
      rw [values_node, List.mem_cons] at ha
      rcases ha with rfl | ha
      · rw [← hkids] at hb
        obtain ⟨v, hv, rfl⟩ := List.mem_map.1 hb
        exact ⟨v, hall v hv, rfl, hlt v hv⟩
      · obtain ⟨v, hv, ha⟩ := List.mem_flatMap.1 ha
        obtain ⟨w, hw, hvalue, hsize⟩ := ih v hv (hall v hv) a ha b hb
        exact ⟨w, hw, hvalue, Nat.lt_trans hsize (hlt v hv)⟩
  intro a ha hmem
  obtain ⟨v, hv, hvalue, hsize⟩ := hsub t h a ha _ hmem
  rw [hv.unique h hvalue] at hsize
  exact Nat.lt_irrefl _ hsize

/-! ### Going past the first children -/

mutual

/-- The tree without the first `k a` children of each node `a`. -/
def trim (k : α → Nat) : Rose α → Rose α
  | node a ts => node a ((trimAll k ts).drop (k a))

def trimAll (k : α → Nat) : List (Rose α) → List (Rose α)
  | [] => []
  | t :: ts => trim k t :: trimAll k ts

end

mutual

/-- The values that are not in the trimmed tree. -/
def skipped (k : α → Nat) : Rose α → List α
  | node a ts => (ts.take (k a)).flatMap values ++ ((skippedAll k ts).drop (k a)).flatten

def skippedAll (k : α → Nat) : List (Rose α) → List (List α)
  | [] => []
  | t :: ts => skipped k t :: skippedAll k ts

end

theorem trim_node (k : α → Nat) (a : α) (ts : List (Rose α)) :
    trim k (node a ts) = node a ((ts.drop (k a)).map (trim k)) := by
  have hall : trimAll k ts = ts.map (trim k) := by
    induction ts with
    | nil => rfl
    | cons t ts ih => rw [trimAll, ih, List.map_cons]
  rw [trim, hall, List.map_drop]

theorem skipped_node (k : α → Nat) (a : α) (ts : List (Rose α)) :
    skipped k (node a ts) =
      (ts.take (k a)).flatMap values ++ (ts.drop (k a)).flatMap (skipped k) := by
  have hall : skippedAll k ts = ts.map (skipped k) := by
    induction ts with
    | nil => rfl
    | cons t ts ih => rw [skippedAll, ih, List.map_cons]
  rw [skipped, hall, ← List.map_drop, List.flatMap_def (f := skipped k)]

@[simp] theorem value_trim (k : α → Nat) (t : Rose α) : (t.trim k).value = t.value := by
  cases t
  rfl

theorem Follows.trim {next next' : α → List α} {k : α → Nat} (h : t.Follows next)
    (hnext : ∀ a ∈ t.values, next' a = (next a).drop (k a)) : (t.trim k).Follows next' := by
  induction t using induction with
  | node a ts ih =>
    obtain ⟨hkids, hall⟩ := follows_node.1 h
    rw [trim_node, follows_node]
    constructor
    · rw [hnext a (value_mem_values (node a ts)), ← hkids, List.map_map, List.map_drop]
      exact congrArg _ (List.map_congr_left fun t _ => value_trim k t)
    · intro u hu
      obtain ⟨t, ht, rfl⟩ := List.mem_map.1 hu
      have ht := List.mem_of_mem_drop ht
      exact ih t ht (hall t ht) fun b hb => hnext b (mem_values_of_kid ht hb)

theorem skipped_map (f : α → β) (k : β → Nat) (t : Rose α) :
    (t.map f).skipped k = (t.skipped fun a => k (f a)).map f := by
  induction t using induction with
  | node a ts ih =>
    rw [map_node, skipped_node, skipped_node, List.map_append, ← List.map_take, ← List.map_drop,
      List.flatMap_map, List.flatMap_map, List.map_flatMap, List.map_flatMap]
    congr 1
    · exact List.flatMap_congr fun t _ => values_map f t
    · exact List.flatMap_congr fun t ht => ih t (List.mem_of_mem_drop ht)

theorem values_perm (k : α → Nat) (t : Rose α) :
    t.values.Perm ((t.trim k).values ++ t.skipped k) := by
  induction t using induction with
  | node a ts ih =>
    rw [trim_node, skipped_node, values_node, values_node, List.cons_append, List.flatMap_map]
    refine List.Perm.cons a ?_
    have hdrop : ((ts.drop (k a)).flatMap values).Perm
        ((ts.drop (k a)).flatMap (fun t => (t.trim k).values) ++
          (ts.drop (k a)).flatMap (skipped k)) := by
      refine .trans ?_ (List.flatMap_append_perm ..).symm
      exact List.Perm.flatMap_left _ fun t ht => ih t (List.mem_of_mem_drop ht)
    have hsplit : ts.flatMap values =
        (ts.take (k a)).flatMap values ++ (ts.drop (k a)).flatMap values := by
      rw [← List.flatMap_append, List.take_append_drop]
    rw [hsplit]
    exact (hdrop.append_left _).trans (List.perm_append_comm_assoc ..)

theorem mem_values_of_trim {k : α → Nat} {a : α} (h : a ∈ (t.trim k).values) :
    a ∈ t.values :=
  (values_perm k t).mem_iff.2 (List.mem_append_left _ h)

theorem forall_mem_trim_iff {k : α → Nat} (hnodup : t.values.Nodup) {P : α → Prop} :
    (∀ a ∈ t.values, P a → a ∈ (t.trim k).values) ↔ ∀ a ∈ t.skipped k, ¬ P a := by
  have hperm := values_perm k t
  have hdisjoint := List.disjoint_of_nodup_append (hperm.nodup hnodup)
  constructor
  · exact fun h a ha hP =>
      hdisjoint (h a (hperm.mem_iff.2 (List.mem_append_right _ ha)) hP) ha
  · intro h a ha hP
    rcases List.mem_append.1 (hperm.mem_iff.1 ha) with htrim | hskipped
    · exact htrim
    · exact absurd hP (h a hskipped)

end Rose

end Lib
