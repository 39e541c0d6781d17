import Mathlib.Data.List.Nodup
import Mathlib.Tactic.SplitIfs
import Mathlib.Algebra.Order.Group.Multiset
import Mathlib.Tactic.Abel

/-!
# Finite maps with distinct keys

`Dict K V` is an association list whose keys are distinct by construction. It stands for a hash
map: the operations are specified by what `get?` returns (`get?_insert`, `get?_erase`,
`get?_modify`, `get?_mapVal`, `get?_retain`), and the order of `keys` is the order in which the keys were last
inserted.

`collect f m` are the items that `f` finds in the values of the map `m`, as a multiset, so that
what an update does to them is an equation. It depends on the map only through what `f` sees of
each value (`collect_congr`).
-/

namespace Lib

/-- A finite map from `K` to `V`. -/
structure Dict (K V : Type) where
  pairs : List (K × V)
  nodup : (pairs.map Prod.fst).Nodup

namespace Dict

variable {K V : Type}

instance [DecidableEq K] [DecidableEq V] : DecidableEq (Dict K V) := fun a b =>
  decidable_of_iff (a.pairs = b.pairs) (by cases a; cases b; simp)

def empty : Dict K V := ⟨[], by simp⟩

def keys (m : Dict K V) : List K := m.pairs.map Prod.fst

/-- The map of one pair. -/
def singleton (k : K) (v : V) : Dict K V := ⟨[(k, v)], by simp⟩

/-- The pairs whose key satisfies `p`. -/
def retain (p : K → Bool) (m : Dict K V) : Dict K V :=
  ⟨m.pairs.filter fun x => p x.1, m.nodup.sublist (List.filter_sublist.map _)⟩

/-- The pairs that satisfy `p`. -/
def filter (p : K → V → Bool) (m : Dict K V) : Dict K V :=
  ⟨m.pairs.filter fun x => p x.1 x.2, m.nodup.sublist (List.filter_sublist.map _)⟩

/-- Rewrites every value in place. -/
def mapVal {W : Type} (f : V → W) (m : Dict K V) : Dict K W :=
  ⟨m.pairs.map fun x => (x.1, f x.2), by simpa [List.map_map, Function.comp_def] using m.nodup⟩

@[simp] theorem keys_mapVal {W : Type} (f : V → W) (m : Dict K V) : (m.mapVal f).keys = m.keys := by
  simp [keys, mapVal, List.map_map, Function.comp_def]

section
variable [DecidableEq K]

def get? (m : Dict K V) (k : K) : Option V := (m.pairs.find? fun x => x.1 = k).map Prod.snd

def contains (m : Dict K V) (k : K) : Bool := (m.get? k).isSome

def erase (m : Dict K V) (k : K) : Dict K V := m.retain fun k' => k' ≠ k

def insert (m : Dict K V) (k : K) (v : V) : Dict K V :=
  ⟨(m.erase k).pairs ++ [(k, v)], by
    simp only [List.map_append, List.map_cons, List.map_nil]
    refine List.nodup_append.2 ⟨(m.erase k).nodup, by simp, ?_⟩
    simp [erase, retain]⟩

/-- Rewrites the value under one key, if there is one. -/
def modify (m : Dict K V) (k : K) (f : V → V) : Dict K V :=
  match m.get? k with
  | some v => m.insert k (f v)
  | none => m

variable (m : Dict K V) (k k' : K) (v : V)

theorem get?_eq_some_iff : m.get? k = some v ↔ (k, v) ∈ m.pairs := by
  obtain ⟨l, hl⟩ := m
  simp only [get?]
  induction l with
  | nil => simp
  | cons x l ih =>
    obtain ⟨a, b⟩ := x
    simp only [List.map_cons, List.nodup_cons, List.mem_map] at hl
    by_cases ha : a = k
    · subst ha
      simp only [List.find?_cons, decide_true, Option.map_some, Option.some.injEq, List.mem_cons,
        Prod.mk.injEq, true_and]
      constructor
      · exact fun h => .inl h.symm
      · rintro (h | h)
        · exact h.symm
        · exact absurd ⟨(a, v), h, rfl⟩ hl.1
    · simp only [List.find?_cons, ha, decide_false, List.mem_cons, Prod.mk.injEq, Ne.symm ha,
        false_and, false_or]
      exact ih hl.2

theorem mem_keys_iff : k ∈ m.keys ↔ ∃ v, m.get? k = some v := by
  simp [keys, get?_eq_some_iff]

theorem get?_eq_none_iff : m.get? k = none ↔ k ∉ m.keys := by
  rw [mem_keys_iff, Option.eq_none_iff_forall_ne_some]; simp

theorem contains_iff : m.contains k = true ↔ k ∈ m.keys := by
  rw [mem_keys_iff, contains, Option.isSome_iff_exists]

@[simp] theorem get?_empty : (empty : Dict K V).get? k = none := rfl

@[simp] theorem get?_singleton : (singleton k v).get? k' = if k' = k then some v else none := by
  by_cases h : k = k'
  · subst h; simp [get?, singleton]
  · simp [get?, singleton, h, Ne.symm h]

/-- Two maps agree at `k` as soon as they hold the same values there. -/
theorem get?_congr {m' : Dict K V} (h : ∀ v, (k, v) ∈ m.pairs ↔ (k', v) ∈ m'.pairs) :
    m.get? k = m'.get? k' := by
  ext v; rw [get?_eq_some_iff, get?_eq_some_iff, h]

@[simp] theorem get?_retain (p : K → Bool) :
    (m.retain p).get? k = if p k = true then m.get? k else none := by
  split
  · refine get?_congr _ _ _ fun v => ?_
    simp [retain, *]
  · rw [get?_eq_none_iff]
    simp [keys, retain, *]

@[simp] theorem get?_erase : (m.erase k).get? k' = if k' = k then none else m.get? k' := by
  by_cases h : k' = k <;> simp [erase, h]

@[simp] theorem get?_insert : (m.insert k v).get? k' = if k' = k then some v else m.get? k' := by
  by_cases h : k' = k
  · subst h; simp [get?_eq_some_iff, insert]
  · rw [if_neg h]
    refine get?_congr _ _ _ fun w => ?_
    simp [insert, erase, retain, h]

@[simp] theorem get?_modify (f : V → V) :
    (m.modify k f).get? k' = if k' = k then (m.get? k').map f else m.get? k' := by
  unfold modify
  cases hk : m.get? k with
  | none =>
    split_ifs with h
    · rw [h, hk]
      rfl
    · rfl
  | some v =>
    rw [get?_insert]
    split_ifs with h
    · rw [h, hk]
      rfl
    · rfl

@[simp] theorem get?_mapVal {W : Type} (f : V → W) : (m.mapVal f).get? k = (m.get? k).map f := by
  simp [get?, mapVal, List.find?_map, Function.comp_def, Option.map_map]

@[simp] theorem mem_keys_insert : k' ∈ (m.insert k v).keys ↔ k' = k ∨ k' ∈ m.keys := by
  simp only [mem_keys_iff, get?_insert]
  by_cases h : k' = k <;> simp [h]

@[simp] theorem mem_keys_erase : k' ∈ (m.erase k).keys ↔ k' ≠ k ∧ k' ∈ m.keys := by
  simp only [mem_keys_iff, get?_erase]
  by_cases h : k' = k <;> simp [h]

/-- The number of entries with `q`. -/
def count (q : K → V → Bool) : Nat := m.pairs.countP fun x => q x.1 x.2

variable {m k v}

theorem perm_cons_erase (h : m.get? k = some v) : m.pairs.Perm ((k, v) :: (m.erase k).pairs) := by
  have hrest : (m.pairs.filter fun x => !decide (x.1 ≠ k)) = [(k, v)] := by
    have hmem : (k, v) ∈ m.pairs := (get?_eq_some_iff m k v).mp h
    have hnodup : m.pairs.Nodup := .of_map Prod.fst m.nodup
    refine List.perm_singleton.mp ((List.perm_ext_iff_of_nodup (hnodup.filter _)
      (List.nodup_singleton _)).mpr fun x => ?_)
    simp only [decide_not, Bool.not_not, List.mem_filter, decide_eq_true_eq, List.mem_singleton]
    constructor
    · rintro ⟨hx, rfl⟩
      have hget := (get?_eq_some_iff m x.1 x.2).mpr hx
      rw [h] at hget
      cases hget
      rfl
    · rintro rfl
      exact ⟨hmem, rfl⟩
  have hsplit := List.filter_append_perm (fun x => decide (x.1 ≠ k)) m.pairs
  rw [hrest] at hsplit
  exact hsplit.symm.trans List.perm_append_comm

theorem pairs_erase_of_none (h : m.get? k = none) : (m.erase k).pairs = m.pairs := by
  refine List.filter_eq_self.mpr fun x hx => decide_eq_true ?_
  rintro rfl
  rw [(get?_eq_some_iff m x.1 x.2).mpr hx] at h
  cases h

theorem pairs_insert_of_none (h : m.get? k = none) : (m.insert k v).pairs = m.pairs ++ [(k, v)] := by
  show (m.erase k).pairs ++ [(k, v)] = _
  rw [pairs_erase_of_none h]

variable {q : K → V → Bool}

theorem count_erase (h : m.get? k = some v) :
    m.count q = (m.erase k).count q + if q k v = true then 1 else 0 := by
  rw [count, (perm_cons_erase h).countP_eq, List.countP_cons]
  rfl

theorem count_insert :
    (m.insert k v).count q = (m.erase k).count q + if q k v = true then 1 else 0 := by
  rw [count, insert, List.countP_append, List.countP_singleton]
  rfl

theorem count_insert_of_none (h : m.get? k = none) :
    (m.insert k v).count q = m.count q + if q k v = true then 1 else 0 := by
  rw [count_insert, count, pairs_erase_of_none h]
  rfl

theorem count_modify {f : V → V} (h : m.get? k = some v) :
    ((m.modify k f).count q + if q k v = true then 1 else 0) =
      m.count q + if q k (f v) = true then 1 else 0 := by
  have hmodify : m.modify k f = m.insert k (f v) := by
    rw [modify, h]
  rw [hmodify, count_insert, count_erase h]
  omega

end

/-! ### What the values of a map hold -/

variable [DecidableEq K] {m : Dict K V} {k : K} {v : V}

theorem pairs_perm {m m' : Dict K V} (h : ∀ k, m.get? k = m'.get? k) : m.pairs.Perm m'.pairs := by
  refine (List.perm_ext_iff_of_nodup (.of_map Prod.fst m.nodup) (.of_map Prod.fst m'.nodup)).2 ?_
  rintro ⟨k, v⟩
  rw [← get?_eq_some_iff, ← get?_eq_some_iff, h]

variable {α : Type} {f : V → List α}

/-- Everything that `f` finds in the values of the map. -/
def collect (f : V → List α) (m : Dict K V) : Multiset α := m.pairs.flatMap fun x => f x.2

theorem collect_congr {m m' : Dict K V} (h : ∀ k, (m.get? k).map f = (m'.get? k).map f) :
    m.collect f = m'.collect f := by
  have hperm : (m.mapVal f).pairs.Perm (m'.mapVal f).pairs := pairs_perm fun k => by
    rw [get?_mapVal, get?_mapVal, h]
  have hflat := hperm.flatMap_right Prod.snd
  simp only [mapVal, List.flatMap_map] at hflat
  exact Quot.sound hflat

theorem collect_insert : (m.insert k v).collect f = f v + (m.erase k).collect f := by
  rw [collect, insert, List.flatMap_append, add_comm]
  simp [collect]

theorem collect_erase (h : m.get? k = some v) : m.collect f = f v + (m.erase k).collect f := by
  rw [← collect_insert]
  refine collect_congr fun k' => ?_
  rw [get?_insert]
  split_ifs with hk
  · rw [hk, h]
  · rfl

theorem collect_erase_of_none (h : m.get? k = none) : (m.erase k).collect f = m.collect f := by
  refine collect_congr fun k' => ?_
  rw [get?_erase]
  split_ifs with hk
  · rw [hk, h]
  · rfl

theorem collect_modify {g : V → V} (h : m.get? k = some v) :
    (m.modify k g).collect f + f v = m.collect f + f (g v) := by
  rw [modify, h]
  dsimp only
  rw [collect_insert, collect_erase h]
  abel

end Dict

end Lib
