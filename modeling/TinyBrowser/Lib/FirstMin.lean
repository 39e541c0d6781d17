import Mathlib.Data.List.Basic

/-!
# The first minimum of a list

`firstMin cmp l` scans `l` and keeps the element that no later one is strictly below. It needs no
law of `cmp`: the scan returns a member, and a class of elements that `cmp` always prefers is
returned whenever it occurs (`firstMin_of_preferred`).
-/

namespace Lib

variable {α : Type}

def minStep (cmp : α → α → Ordering) (m x : α) : α := if cmp m x = .gt then x else m

def firstMin (cmp : α → α → Ordering) : List α → Option α
  | [] => none
  | x :: l => some (l.foldl (minStep cmp) x)

theorem foldl_minStep_mem (cmp : α → α → Ordering) (l : List α) (x : α) :
    l.foldl (minStep cmp) x ∈ x :: l := by
  induction l generalizing x with
  | nil => simp
  | cons y l ih =>
    have h := ih (minStep cmp x y)
    rw [List.foldl_cons]
    rcases List.mem_cons.1 h with h | h
    · rw [h]; unfold minStep; split <;> simp
    · simp [h]

theorem firstMin_mem {cmp : α → α → Ordering} {l : List α} {m : α} (h : firstMin cmp l = some m) :
    m ∈ l := by
  cases l with
  | nil => simp [firstMin] at h
  | cons x l =>
    obtain rfl := Option.some.inj h
    exact foldl_minStep_mem cmp l x

theorem firstMin_isSome (cmp : α → α → Ordering) {l : List α} (h : l ≠ []) :
    ∃ m, firstMin cmp l = some m := by
  cases l with
  | nil => exact absurd rfl h
  | cons x l => exact ⟨_, rfl⟩

section
variable {cmp : α → α → Ordering} {l : List α} {a c m : α}

theorem firstMin_concat (h : firstMin cmp l = some m) :
    firstMin cmp (l ++ [a]) = some (minStep cmp m a) := by
  cases l with
  | nil => cases h
  | cons x l =>
    obtain rfl := Option.some.inj h
    rw [List.cons_append, firstMin, List.foldl_append]
    rfl

theorem firstMin_concat_of_gt (h : ∀ c ∈ l, cmp c a = .gt) : firstMin cmp (l ++ [a]) = some a := by
  cases l with
  | nil => rfl
  | cons x l =>
    obtain ⟨m, hm⟩ := firstMin_isSome cmp (List.cons_ne_nil x l)
    rw [firstMin_concat hm, minStep, if_pos (h m (firstMin_mem hm))]

variable [Std.TransCmp cmp]

theorem foldl_minStep_isLE (l : List α) (x : α) :
    ∀ c ∈ x :: l, (cmp (l.foldl (minStep cmp) x) c).isLE := by
  induction l generalizing x with
  | nil =>
    intro c hc
    rw [List.mem_singleton.1 hc, List.foldl_nil]
    exact Ordering.isLE_of_eq_eq Std.ReflCmp.compare_self
  | cons y l ih =>
    intro c hc
    have hx : (cmp (minStep cmp x y) x).isLE ∧ (cmp (minStep cmp x y) y).isLE := by
      unfold minStep
      split
      · rename_i hgt
        exact ⟨Ordering.isLE_of_eq_lt (Std.OrientedCmp.lt_of_gt hgt),
          Ordering.isLE_of_eq_eq Std.ReflCmp.compare_self⟩
      · rename_i hle
        exact ⟨Ordering.isLE_of_eq_eq Std.ReflCmp.compare_self, Ordering.isLE_iff_ne_gt.2 hle⟩
    have hmin := ih (minStep cmp x y) _ List.mem_cons_self
    rw [List.foldl_cons]
    rcases List.mem_cons.1 hc with rfl | hc
    · exact Std.TransCmp.isLE_trans hmin hx.1
    · rcases List.mem_cons.1 hc with rfl | hc
      · exact Std.TransCmp.isLE_trans hmin hx.2
      · exact ih (minStep cmp x y) c (List.mem_cons_of_mem _ hc)

theorem firstMin_isLE (h : firstMin cmp l = some m) (hc : c ∈ l) : (cmp m c).isLE := by
  cases l with
  | nil => cases hc
  | cons x l =>
    obtain rfl := Option.some.inj h
    exact foldl_minStep_isLE l x c hc

theorem firstMin_concat_of_not_gt (hc : c ∈ l) (h : cmp c a ≠ .gt) :
    firstMin cmp (l ++ [a]) = firstMin cmp l := by
  obtain ⟨m, hm⟩ := firstMin_isSome cmp (List.ne_nil_of_mem hc)
  rw [firstMin_concat hm, hm, minStep, if_neg]
  exact Ordering.isLE_iff_ne_gt.1
    (Std.TransCmp.isLE_trans (firstMin_isLE hm hc) (Ordering.isLE_iff_ne_gt.2 h))

end

/-- `cmp` prefers the elements that satisfy `p` to those that do not. -/
structure Prefers (cmp : α → α → Ordering) (p : α → Prop) : Prop where
  keep : ∀ {a b}, p a → ¬ p b → cmp a b ≠ .gt
  take : ∀ {a b}, ¬ p a → p b → cmp a b = .gt

theorem foldl_minStep_of_preferred {cmp : α → α → Ordering} {p : α → Prop} (hp : Prefers cmp p)
    (l : List α) (x : α) (h : p x ∨ ∃ y ∈ l, p y) : p (l.foldl (minStep cmp) x) := by
  induction l generalizing x with
  | nil => simpa using h
  | cons y l ih =>
    rw [List.foldl_cons]
    refine ih _ ?_
    by_cases hx : p x
    · left
      unfold minStep
      split
      · rename_i hgt
        by_contra hy
        exact hp.keep hx hy hgt
      · exact hx
    · by_cases hy : p y
      · left; rw [minStep, if_pos (hp.take hx hy)]; exact hy
      · right
        rcases h with h | ⟨z, hz, hpz⟩
        · exact absurd h hx
        · rcases List.mem_cons.1 hz with rfl | hz
          · exact absurd hpz hy
          · exact ⟨z, hz, hpz⟩

/-- If a preferred element occurs, the minimum is preferred. -/
theorem firstMin_of_preferred {cmp : α → α → Ordering} {p : α → Prop} (hp : Prefers cmp p)
    {l : List α} {m : α} (h : firstMin cmp l = some m) (hex : ∃ y ∈ l, p y) : p m := by
  cases l with
  | nil => simp [firstMin] at h
  | cons x l =>
    obtain rfl := Option.some.inj h
    refine foldl_minStep_of_preferred hp l x ?_
    obtain ⟨y, hy, hpy⟩ := hex
    rcases List.mem_cons.1 hy with rfl | hy
    · exact .inl hpy
    · exact .inr ⟨y, hy, hpy⟩

end Lib
