import Mathlib.Algebra.Group.Action.Defs
import Mathlib.Algebra.Order.Group.Abs
import Mathlib.Algebra.Order.Group.Int
import Mathlib.Algebra.Group.Int.Defs
import Mathlib.Algebra.Group.Hom.Defs
import Mathlib.Tactic.Ring
import Mathlib.Tactic.Linarith
import Mathlib.Data.Int.ConditionallyCompleteOrder
import Mathlib.Order.Monotone.Basic

/-!
# Grids and consecutive blocks of integers

A value is aligned to a grid inside an interval by taking the nearest point of the grid that is there,
the greater of two, and where the interval has none by clamping. Over the integers the point is found by
rounding and going back over the end of the interval.

Block `k` holds `len k` integers and starts at `start k`, where the one before it ends. Then the pairs
of a block and a place in it, in lexicographic order, are the integers from the first start on.
-/

namespace Lib

section
variable {α β : Type} [AddCommGroup α] [LinearOrder α] [AddCommGroup β] [LinearOrder β]

/-- `point` is nearer to `value` than the points of the grid in the interval, or the greater of two. -/
structure NearestInside (lower upper base step value point : α) : Prop where
  onGrid : ∃ k : ℤ, point = base + k • step
  nearest : ∀ k : ℤ, lower ≤ base + k • step → base + k • step ≤ upper →
    |point - value| < |base + k • step - value| ∨
      |point - value| = |base + k • step - value| ∧ base + k • step ≤ point

structure Aligned (lower upper base step value point : α) : Prop where
  inside : lower ≤ point ∧ point ≤ upper
  nearest : (∃ k : ℤ, lower ≤ base + k • step ∧ base + k • step ≤ upper) →
    NearestInside lower upper base step value point
  clamped : (¬∃ k : ℤ, lower ≤ base + k • step ∧ base + k • step ≤ upper) →
    point = max lower (min value upper)

variable {lower upper base step value point : α}

/-- Alignment does not depend on the unit. -/
theorem Aligned.map {f : α →+ β} (hf : StrictMono f) (h : Aligned lower upper base step value point) :
    Aligned (f lower) (f upper) (f base) (f step) (f value) (f point) := by
  have hpoint : ∀ k : ℤ, f base + k • f step = f (base + k • step) := by
    intro k
    rw [map_add, map_zsmul]
  have hdist : ∀ a : α, |f a - f value| = f |a - value| := by
    intro a
    rw [← map_sub, abs, abs, hf.monotone.map_max, map_neg]
  refine ⟨by simpa only [hf.le_iff_le] using h.inside, fun hgrid => ?_, fun hgrid => ?_⟩
  · simp only [hpoint, hf.le_iff_le] at hgrid
    obtain ⟨⟨k, hk⟩, hnearest⟩ := h.nearest hgrid
    refine ⟨⟨k, by rw [hpoint, hk]⟩, fun k => ?_⟩
    simp only [hpoint, hdist, hf.le_iff_le, hf.lt_iff_lt, hf.injective.eq_iff]
    exact hnearest k
  · simp only [hpoint, hf.le_iff_le] at hgrid
    rw [h.clamped hgrid, hf.monotone.map_max, hf.monotone.map_min]

/-- The nearest point is taken when it is in the interval, and otherwise none is. -/
theorem NearestInside.aligned (h : NearestInside lower upper base step value point)
    (hle : lower ≤ upper) (hnone : point < lower ∨ upper < point →
      ¬∃ k : ℤ, lower ≤ base + k • step ∧ base + k • step ≤ upper) :
    Aligned lower upper base step value
      (if point < lower ∨ upper < point then max lower (min value upper) else point) := by
  split_ifs with hout
  · exact ⟨⟨le_max_left _ _, max_le hle (min_le_right _ _)⟩, fun hgrid => absurd hgrid (hnone hout),
      fun _ => rfl⟩
  · rw [not_or, not_lt, not_lt] at hout
    obtain ⟨k, hk⟩ := h.onGrid
    exact ⟨hout, fun _ => h, fun hgrid => absurd ⟨k, hk ▸ hout⟩ hgrid⟩

end

/-! ### Rounding -/

section
variable {lower upper base step value k l : ℤ}

theorem round_bounds (base value : ℤ) (hstep : 0 < step) {q : ℤ}
    (hq : q = ((value - base) * 2 + step) / (step * 2)) :
    -step ≤ 2 * (value - (base + q * step)) ∧ 2 * (value - (base + q * step)) < step := by
  have hle := Int.ediv_mul_le ((value - base) * 2 + step) (by omega : step * 2 ≠ 0)
  have hlt := Int.lt_ediv_add_one_mul_self ((value - base) * 2 + step) (by omega : 0 < step * 2)
  rw [← hq] at hle hlt
  constructor <;> linarith

theorem step_le_of_lt (hstep : 0 < step) (hkl : k < l) : k * step + step ≤ l * step := by
  have hmul := Int.mul_le_mul_of_nonneg_right (Int.add_one_le_of_lt hkl) hstep.le
  linarith

/-- Steps that cover a distance, and no more than needed. -/
theorem cover_bounds (hstep : 0 < step) {n d : ℤ} (hd : 0 < d) (hn : n = (d + step - 1) / step) :
    d ≤ n * step ∧ n * step < d + step ∧ step ≤ n * step := by
  have hle := Int.ediv_mul_le (d + step - 1) (by omega : step ≠ 0)
  have hlt := Int.lt_ediv_add_one_mul_self (d + step - 1) hstep
  have hone : 0 < n := by
    rw [hn, Int.lt_iff_add_one_le, Int.le_ediv_iff_mul_le hstep]
    omega
  have hmul := step_le_of_lt hstep hone
  rw [← hn] at hle hlt
  refine ⟨?_, ?_, ?_⟩ <;> linarith

variable {q : ℤ} (hstep : 0 < step)
include hstep

theorem nearest_of_round (hlower : -step ≤ 2 * (value - (base + q * step)))
    (hupper : 2 * (value - (base + q * step)) < step) :
    NearestInside lower upper base step value (base + q * step) := by
  refine ⟨⟨q, by rw [zsmul_eq_mul, Int.cast_id]⟩, fun k _ _ => ?_⟩
  rw [zsmul_eq_mul, Int.cast_id, Int.abs_eq_natAbs, Int.abs_eq_natAbs]
  rcases Int.lt_trichotomy k q with hkq | rfl | hkq
  · have hmul := step_le_of_lt hstep hkq
    omega
  · omega
  · have hmul := step_le_of_lt hstep hkq
    omega

theorem last_le (hnext : upper < base + q * step + step) (hk : base + k * step ≤ upper) :
    base + k * step ≤ base + q * step := by
  rcases Int.lt_trichotomy k q with hkq | rfl | hkq
  · have hmul := step_le_of_lt hstep hkq
    omega
  · exact le_rfl
  · have hmul := step_le_of_lt hstep hkq
    omega

theorem first_le (hnext : base + q * step - step < lower) (hk : lower ≤ base + k * step) :
    base + q * step ≤ base + k * step := by
  rcases Int.lt_trichotomy k q with hkq | rfl | hkq
  · have hmul := step_le_of_lt hstep hkq
    omega
  · exact le_rfl
  · have hmul := step_le_of_lt hstep hkq
    omega

theorem nearest_of_last (hvalue : base + q * step ≤ value) (hnext : upper < base + q * step + step) :
    NearestInside lower upper base step value (base + q * step) := by
  refine ⟨⟨q, by rw [zsmul_eq_mul, Int.cast_id]⟩, fun k _ hk => ?_⟩
  rw [zsmul_eq_mul, Int.cast_id] at hk ⊢
  have hle := last_le hstep hnext hk
  rw [Int.abs_eq_natAbs, Int.abs_eq_natAbs]
  omega

theorem nearest_of_first (hvalue : value < base + q * step) (hnext : base + q * step - step < lower) :
    NearestInside lower upper base step value (base + q * step) := by
  refine ⟨⟨q, by rw [zsmul_eq_mul, Int.cast_id]⟩, fun k hk _ => ?_⟩
  rw [zsmul_eq_mul, Int.cast_id] at hk ⊢
  have hle := first_le hstep hnext hk
  rw [Int.abs_eq_natAbs, Int.abs_eq_natAbs]
  omega

theorem none_of_last (hnext : upper < base + q * step + step) (hout : base + q * step < lower) :
    ¬∃ k : ℤ, lower ≤ base + k • step ∧ base + k • step ≤ upper := by
  rintro ⟨k, hk, hkupper⟩
  rw [zsmul_eq_mul, Int.cast_id] at hk hkupper
  have hle := last_le hstep hnext hkupper
  omega

theorem none_of_first (hnext : base + q * step - step < lower) (hout : upper < base + q * step) :
    ¬∃ k : ℤ, lower ≤ base + k • step ∧ base + k • step ≤ upper := by
  rintro ⟨k, hk, hkupper⟩
  rw [zsmul_eq_mul, Int.cast_id] at hk hkupper
  have hle := first_le hstep hnext hk
  omega

end

/-! ### Integers in consecutive blocks -/

structure Blocks (start : Nat → Int) (len : Nat → Nat) : Prop where
  pos : ∀ k, 0 < len k
  next : ∀ k, start (k + 1) = start k + len k

namespace Blocks
variable {start : Nat → Int} {len : Nat → Nat} {k l i j : Nat} {n : Int}

theorem strictMono (h : Blocks start len) : StrictMono start := by
  refine strictMono_nat_of_lt_succ fun k => ?_
  have hpos := h.pos k
  rw [h.next]
  omega

theorem lt_of_lt (h : Blocks start len) (hi : i < len k) (hkl : k < l) : start k + i < start l := by
  have hle := h.strictMono.monotone (Nat.succ_le_of_lt hkl)
  have hnext := h.next k
  rw [Nat.succ_eq_add_one] at hle
  omega

theorem lt_iff (h : Blocks start len) (hi : i < len k) (hj : j < len l) :
    start k + i < start l + j ↔ k < l ∨ k = l ∧ i < j := by
  rcases Nat.lt_trichotomy k l with hlt | rfl | hlt
  · have hblock := h.lt_of_lt hi hlt
    omega
  · omega
  · have hblock := h.lt_of_lt hj hlt
    omega

theorem eq_iff (h : Blocks start len) (hi : i < len k) (hj : j < len l) :
    start k + i = start l + j ↔ k = l ∧ i = j := by
  have hlt := h.lt_iff hi hj
  have hgt := h.lt_iff hj hi
  omega

theorem le (h : Blocks start len) (k i : Nat) : start 0 ≤ start k + i := by
  have hle := h.strictMono.monotone (Nat.zero_le k)
  omega

theorem exists_eq (h : Blocks start len) (hn : start 0 ≤ n) :
    ∃ k i, i < len k ∧ start k + i = n := by
  obtain ⟨d, rfl⟩ := Int.le.dest hn
  induction d with
  | zero => exact ⟨0, 0, h.pos 0, by simp⟩
  | succ d ih =>
    obtain ⟨k, i, hi, heq⟩ := ih (by omega)
    by_cases hlast : i + 1 < len k
    · exact ⟨k, i + 1, hlast, by omega⟩
    · have hnext := h.next k
      exact ⟨k + 1, 0, h.pos _, by omega⟩

theorem start_eq (h : Blocks start len) (k : Nat) : start k = start 0 + ((List.range k).map len).sum := by
  induction k with
  | zero => simp
  | succ k ih =>
    rw [h.next, ih, List.range_succ, List.map_append, List.sum_append]
    simp
    omega

end Blocks

end Lib
