import TinyBrowser.Forms.Decimals
import TinyBrowser.Lib.Grid

/-!
# The value of a range

The value is aligned to the steps inside the interval of the range. The arithmetic on the mantissas is
right wherever it fits, and where it does not there is no value; so the alignment fails only for operands
whose digits cannot be read.
-/

namespace TinyBrowser.Forms
open Lib Lib.Text

/-! ### The arithmetic -/

/-- The results of `nearestStep`, the last of which is the step. -/
def roundingTerms (base step value : Int) : List Int :=
  let quotient := ((value - base) * 2 + step) / (step * 2)
  [value - base, (value - base) * 2, (value - base) * 2 + step, step * 2, quotient * step,
    base + quotient * step]

def roundedStep (base step value : Int) : Int :=
  base + ((value - base) * 2 + step) / (step * 2) * step

/-- The results of `stepsOver`. -/
def coverTerms (step distance : Int) : List Int :=
  [distance, distance + step, distance + step - 1, (distance + step - 1) / step * step]

/-- The results of `bringBack`. -/
def backTerms (minimum maximum step aligned : Int) : List Int :=
  if maximum < aligned then
    coverTerms step (aligned - maximum) ++ [aligned - (aligned - maximum + step - 1) / step * step]
  else if aligned < minimum then
    coverTerms step (minimum - aligned) ++ [aligned + (minimum - aligned + step - 1) / step * step]
  else []

/-- The intermediate results on the mantissas. -/
def alignTerms (minimum maximum step base value : Int) : List Int :=
  roundingTerms base step value ++ backTerms minimum maximum step (roundedStep base step value)

def FitsAll (terms : List Int) : Prop := ∀ n ∈ terms, fitsI128 n

instance (terms : List Int) : Decidable (FitsAll terms) :=
  inferInstanceAs (Decidable (∀ n ∈ terms, fitsI128 n))

/-- The value of a computation whose intermediate results are `terms`. -/
def fitting {α : Type} (terms : List Int) (a : α) : Except Stop α :=
  if FitsAll terms then .ok a else .error .unfit

section
variable {α β : Type} {a : α} {b : β} {n d : Int} {terms after : List Int}

@[simp] theorem fitsAll_cons : FitsAll (n :: terms) ↔ fitsI128 n ∧ FitsAll terms := List.forall_mem_cons

@[simp] theorem fitsAll_nil : FitsAll [] := List.forall_mem_nil _

@[simp] theorem fitsAll_append : FitsAll (terms ++ after) ↔ FitsAll terms ∧ FitsAll after :=
  List.forall_mem_append

theorem fitting_of_fits (h : FitsAll terms) : fitting terms a = .ok a := if_pos h

theorem fitting_ne_panic : fitting terms a ≠ .error .panic := by
  rw [fitting]
  split_ifs <;> rintro ⟨⟩

theorem orUnfit_bind_ne_panic {o : Option α} {k : α → Except Stop β}
    (h : ∀ a, o = some a → k a ≠ .error .panic) : orUnfit o >>= k ≠ .error .panic := by
  cases o with
  | none => rintro ⟨⟩
  | some a => exact h a rfl

theorem checked_eq (n : Int) : orUnfit (checkedI128 n) = fitting [n] n := by
  by_cases hn : fitsI128 n <;> simp [checkedI128, fitting, orUnfit, hn]

theorem fitting_bind {k : α → Except Stop β} (h : FitsAll terms → k a = fitting after b) :
    fitting terms a >>= k = fitting (terms ++ after) b := by
  by_cases hterms : FitsAll terms
  · rw [fitting_of_fits hterms]
    refine (h hterms).trans ?_
    simp [fitting, hterms]
  · rw [fitting, if_neg hterms, fitting, if_neg fun hall => hterms (fitsAll_append.1 hall).1]
    rfl

theorem fitting_map (f : α → β) : (fitting terms a >>= fun x => .ok (f x)) = fitting terms (f a) := by
  by_cases hterms : FitsAll terms
  · rw [fitting_of_fits hterms, fitting_of_fits hterms]
    rfl
  · rw [fitting, if_neg hterms, fitting, if_neg hterms]
    rfl

theorem divEuclid_of_pos (hn : fitsI128 n) (hd : 0 < d) : divEuclid n d = .ok (n / d) := by
  rw [divEuclid, if_neg]
  rw [not_or, not_not]
  obtain ⟨hlower, hupper⟩ := hn
  rw [i128Min] at hlower
  rw [i128Max] at hupper
  refine ⟨by omega, ?_, ?_⟩
  · rw [i128Min, Int.le_ediv_iff_mul_le hd]
    omega
  · rw [i128Max, Int.le_sub_one_iff, Int.ediv_lt_iff_lt_mul hd]
    omega

end

section
variable {minimum maximum step base value aligned : Int} (hstep : 0 < step)
include hstep

theorem nearestStep_eq :
    nearestStep base step value =
      fitting (roundingTerms base step value) (roundedStep base step value) := by
  simp only [nearestStep, checked_eq]
  refine fitting_bind fun _ => fitting_bind fun _ => fitting_bind fun hnumerator =>
    fitting_bind fun _ => ?_
  rw [divEuclid_of_pos (fitsAll_cons.1 hnumerator).1 (by omega)]
  exact fitting_bind fun _ => rfl

theorem stepsOver_eq (distance : Int) : stepsOver step distance =
    fitting (coverTerms step distance) ((distance + step - 1) / step * step) := by
  simp only [stepsOver, checked_eq]
  refine fitting_bind fun _ => fitting_bind fun _ => fitting_bind fun hsum => ?_
  rw [divEuclid_of_pos (fitsAll_cons.1 hsum).1 hstep]
  rfl

/-- The step inside the interval, when there is one. -/
def backStep (minimum maximum step aligned : Int) : Int :=
  if maximum < aligned then aligned - (aligned - maximum + step - 1) / step * step
  else if aligned < minimum then aligned + (minimum - aligned + step - 1) / step * step
  else aligned

theorem bringBack_eq : bringBack minimum maximum step aligned =
    fitting (backTerms minimum maximum step aligned) (backStep minimum maximum step aligned) := by
  rw [bringBack, backTerms, backStep]
  split_ifs
  · rw [stepsOver_eq hstep]
    exact fitting_bind fun _ => checked_eq _
  · rw [stepsOver_eq hstep]
    exact fitting_bind fun _ => checked_eq _
  · exact (fitting_of_fits fitsAll_nil).symm

end

/-- The step, or the value at the end of an interval without steps. -/
def alignedStep (minimum maximum step base value : Int) : Int :=
  let aligned := backStep minimum maximum step (roundedStep base step value)
  if aligned < minimum ∨ maximum < aligned then max minimum (min value maximum) else aligned

theorem alignMantissa_eq {minimum maximum step : Int} (base value : Int) (hstep : 0 < step)
    (hle : minimum ≤ maximum) : alignMantissa minimum maximum step base value =
      fitting (alignTerms minimum maximum step base value)
        (alignedStep minimum maximum step base value) := by
  rw [alignMantissa, nearestStep_eq hstep]
  refine fitting_bind fun _ => ?_
  rw [bringBack_eq hstep, ← List.append_nil (backTerms _ _ _ _), fitting_bind fun _ => ?_,
    List.append_nil]
  rw [alignedStep, fitting_of_fits fitsAll_nil]
  split_ifs
  · exact if_neg (by omega)
  · rfl

/-- Rounding and going back find the nearest step inside the interval. -/
theorem nearest_backStep (minimum maximum : Int) {base step value : Int} (hstep : 0 < step) :
    NearestInside minimum maximum base step value
        (backStep minimum maximum step (roundedStep base step value)) ∧
      (backStep minimum maximum step (roundedStep base step value) < minimum ∨
          maximum < backStep minimum maximum step (roundedStep base step value) →
        ¬∃ k : Int, minimum ≤ base + k • step ∧ base + k • step ≤ maximum) := by
  obtain ⟨hlower, hupper⟩ := round_bounds base value hstep rfl
  rw [roundedStep]
  generalize ((value - base) * 2 + step) / (step * 2) = q at *
  rw [backStep]
  split_ifs with hmax hmin
  · generalize hn : (base + q * step - maximum + step - 1) / step = n
    obtain ⟨hcover, hless, hone⟩ := cover_bounds hstep (by omega) hn.symm
    have hpoint : base + q * step - n * step = base + (q - n) * step := by ring
    rw [hpoint]
    exact ⟨nearest_of_last hstep (by omega) (by omega),
      fun hout => none_of_last hstep (by omega) (hout.resolve_right (by omega))⟩
  · generalize hn : (minimum - (base + q * step) + step - 1) / step = n
    obtain ⟨hcover, hless, hone⟩ := cover_bounds hstep (by omega) hn.symm
    have hpoint : base + q * step + n * step = base + (q + n) * step := by ring
    rw [hpoint]
    exact ⟨nearest_of_first hstep (by omega) (by omega),
      fun hout => none_of_first hstep (by omega) (hout.resolve_left (by omega))⟩
  · exact ⟨nearest_of_round hstep hlower hupper, by omega⟩

theorem aligned_alignedStep {minimum maximum step : Int} (base value : Int) (hstep : 0 < step)
    (hle : minimum ≤ maximum) :
    Aligned minimum maximum base step value (alignedStep minimum maximum step base value) := by
  obtain ⟨hnearest, hnone⟩ := nearest_backStep minimum maximum hstep
  exact hnearest.aligned hle hnone

/-! ### The operands -/

namespace Decimal
variable {d e : Decimal} {s t : Nat}

theorem units_le_iff (hd : d.scale ≤ t) (he : e.scale ≤ t) :
    d.units t ≤ e.units t ↔ d.toRat ≤ e.toRat := by
  have hpos : (0 : ℚ) < 10 ^ t := by positivity
  rw [← Int.cast_le (R := ℚ), units_cast hd, units_cast he, mul_le_mul_iff_left₀ hpos]

theorem compare_eq_some (hd : Digits d.digits) (he : Digits e.digits) {o : Ordering}
    (h : d.compare e = some o) : o = cmp d.toRat e.toRat := by
  obtain ⟨_, hleft, h⟩ := Option.bind_eq_some_iff.1 h
  obtain ⟨_, hright, ho⟩ := Option.bind_eq_some_iff.1 h
  obtain ⟨hdle, rfl⟩ := mantissaAt_eq_some hd hleft
  obtain ⟨hele, rfl⟩ := mantissaAt_eq_some he hright
  rw [cmp_units hdle hele] at ho
  exact (Option.some.inj ho).symm

theorem fits_of_le (hs : d.scale ≤ s) (hst : s ≤ t) (h : fitsI128 (d.units t)) :
    fitsI128 (d.units s) := by
  obtain ⟨k, rfl⟩ := Nat.exists_eq_add_of_le hst
  have hunits : d.units (s + k) = d.units s * 10 ^ k := by
    rw [units, units, Nat.sub_add_comm hs, pow_add]
    push_cast
    ring
  have hpow : (1 : Int) ≤ 10 ^ k := one_le_pow₀ (by omega)
  obtain ⟨hlower, hupper⟩ := h
  rw [hunits] at hlower hupper
  rw [i128Min] at hlower
  rw [i128Max] at hupper
  rcases lt_or_ge (d.units s) 0 with hneg | hpos
  · have hle : d.units s * 10 ^ k ≤ d.units s := by nlinarith
    exact ⟨hlower.trans hle, by rw [i128Max]; omega⟩
  · have hle : d.units s ≤ d.units s * 10 ^ k := by nlinarith
    exact ⟨by rw [i128Min]; omega, hle.trans hupper⟩

/-- A multiple of the unit of a scale. -/
def ofUnits (scale : Nat) : ℤ →+ ℚ :=
  (AddMonoidHom.mulRight ((10 : ℚ) ^ scale)⁻¹).comp (Int.castAddHom ℚ)

theorem ofUnits_apply (scale : Nat) (n : Int) : ofUnits scale n = n / 10 ^ scale := rfl

theorem ofUnits_strictMono (scale : Nat) : StrictMono (ofUnits scale) := by
  intro m n hmn
  have hpos : (0 : ℚ) < 10 ^ scale := by positivity
  rw [ofUnits_apply, ofUnits_apply, div_lt_div_iff_of_pos_right hpos]
  exact_mod_cast hmn

theorem ofUnits_units (h : d.scale ≤ t) : ofUnits t (d.units t) = d.toRat := by
  have hpos : (0 : ℚ) < 10 ^ t := by positivity
  rw [ofUnits_apply, units_cast h, mul_div_cancel_right₀ _ hpos.ne']

theorem toRat_fromMantissa (mantissa : Int) (scale : Nat) :
    (fromMantissa mantissa scale).toRat = ofUnits scale mantissa := by
  by_cases hzero : mantissa = 0
  · subst hzero
    rw [map_zero]
    cases scale with
    | zero => simp [fromMantissa, normalize, toRat, popZeros, dropLeading, Text.digitsValue]
    | succ scale => simp [fromMantissa_zero, toRat, Text.digitsValue]
  · have hmade := madeOf_fromMantissa hzero scale
    have hle : (fromMantissa mantissa scale).scale ≤ scale := by
      obtain ⟨n, -, hscale⟩ := hmade.value
      omega
    rw [← ofUnits_units hle, mul_right_cancel₀ (by positivity) (hmade.units_eq hle)]

theorem toRat_fromInteger (n : Int) : (fromInteger n).toRat = n := by
  rw [fromInteger, toRat, digitsValue_toDigits]
  rcases lt_or_ge n 0 with hneg | hpos
  · rw [decide_eq_true hneg, if_pos rfl, Nat.cast_natAbs, abs_of_neg hneg]
    simp
  · rw [decide_eq_false hpos.not_gt, if_neg (by simp), Nat.cast_natAbs, abs_of_nonneg hpos]
    simp

end Decimal

/-! ### Alignment -/

section
variable {minimum maximum step base value : Decimal}

/-- Where the digits of every operand are read, the alignment is that of the mantissas. -/
theorem alignAt_eq {scale : Nat} {minimumAt maximumAt stepAt baseAt valueAt : Int}
    (hmin : minimum.mantissaAt scale = some minimumAt) (hmax : maximum.mantissaAt scale = some maximumAt)
    (hstep : step.mantissaAt scale = some stepAt) (hbase : base.mantissaAt scale = some baseAt)
    (hvalue : value.mantissaAt scale = some valueAt) (hpos : 0 < stepAt) (hle : minimumAt ≤ maximumAt) :
    alignAt scale minimum maximum step base value =
      fitting (alignTerms minimumAt maximumAt stepAt baseAt valueAt)
        (.fromMantissa (alignedStep minimumAt maximumAt stepAt baseAt valueAt) scale) := by
  simp only [alignAt, hmin, hmax, hstep, hbase, hvalue]
  change (if stepAt ≤ 0 then Except.error Stop.unfit else _) = _
  rw [if_neg (by omega), alignMantissa_eq baseAt valueAt hpos hle, fitting_map]

theorem le_of_compare (hmin : Digits minimum.digits) (hmax : Digits maximum.digits) {o : Ordering}
    (h : maximum.compare minimum = some o) (hlt : o ≠ .lt) : minimum.toRat ≤ maximum.toRat := by
  rw [Decimal.compare_eq_some hmax hmin h, Ne, cmp_eq_lt_iff] at hlt
  exact not_lt.1 hlt

/-- No operands make the arithmetic panic. -/
theorem alignRange_ne_panic (hmin : Digits minimum.digits) (hmax : Digits maximum.digits) :
    alignRange minimum maximum step base value ≠ .error .panic := by
  rw [alignRange]
  split
  · rintro ⟨⟩
  · rintro ⟨⟩
  next o hcompare hlt =>
    have hrat := le_of_compare hmin hmax hlt fun heq => hcompare (heq ▸ rfl)
    generalize commonScale minimum maximum step base value = scale
    refine orUnfit_bind_ne_panic fun valueAt _ => orUnfit_bind_ne_panic fun minimumAt hminAt =>
      orUnfit_bind_ne_panic fun maximumAt hmaxAt => orUnfit_bind_ne_panic fun baseAt _ =>
      orUnfit_bind_ne_panic fun stepAt _ => ?_
    split_ifs with hstep
    · rintro ⟨⟩
    obtain ⟨hminle, rfl⟩ := Decimal.mantissaAt_eq_some hmin hminAt
    obtain ⟨hmaxle, rfl⟩ := Decimal.mantissaAt_eq_some hmax hmaxAt
    rw [alignMantissa_eq _ _ (Int.not_le.1 hstep) ((Decimal.units_le_iff hminle hmaxle).2 hrat),
      fitting_map]
    exact fitting_ne_panic

/-- The operands of an alignment are read at the common scale, and its ends also at their own. -/
def Legible (minimum maximum step base value : Decimal) : Prop :=
  (∀ d ∈ [minimum, maximum], d.Readable (max maximum.scale minimum.scale)) ∧
    ∀ d ∈ [minimum, maximum, step, base, value],
      d.Readable (commonScale minimum maximum step base value)

/-- The scaled mantissas of the operands and the intermediate results fit. -/
structure Fitting (minimum maximum step base value : Decimal) : Prop where
  mantissas : ∀ d ∈ [minimum, maximum, step, base, value],
    fitsI128 (d.units (commonScale minimum maximum step base value))
  terms : FitsAll (alignTerms (minimum.units (commonScale minimum maximum step base value))
    (maximum.units (commonScale minimum maximum step base value))
    (step.units (commonScale minimum maximum step base value))
    (base.units (commonScale minimum maximum step base value))
    (value.units (commonScale minimum maximum step base value)))

theorem scale_le_commonScale :
    ∀ d ∈ [minimum, maximum, step, base, value],
      d.scale ≤ commonScale minimum maximum step base value := by
  simp only [commonScale, List.forall_mem_cons, List.not_mem_nil, false_implies, implies_true, and_true]
  omega

theorem of_orUnfit_ok {α : Type} {o : Option α} {a : α} (h : orUnfit o = .ok a) : o = some a := by
  cases o <;> cases h
  rfl

theorem Decimal.readable_of_mantissaAt {d : Decimal} {t : Nat} {n : Int} (h : Digits d.digits)
    (hfits : fitsI128 (d.units t)) (hn : d.mantissaAt t = some n) : d.Readable t := by
  by_contra hread
  rw [mantissaAt_eq h (mantissaAt_eq_some h hn).1 hfits, if_neg hread] at hn
  cases hn

theorem readable_of_compare {d e : Decimal} {o : Ordering} (hd : Digits d.digits)
    (he : Digits e.digits) (hdfits : fitsI128 (d.units (max d.scale e.scale)))
    (hefits : fitsI128 (e.units (max d.scale e.scale))) (h : d.compare e = some o) :
    d.Readable (max d.scale e.scale) ∧ e.Readable (max d.scale e.scale) := by
  rw [Decimal.compare_eq_some hd he h] at h
  exact (Decimal.compare_eq_cmp_iff hd he hdfits hefits).1 h

theorem alignRange_of_compare {o : Ordering} (h : maximum.compare minimum = some o) (hlt : o ≠ .lt) :
    alignRange minimum maximum step base value =
      alignAt (commonScale minimum maximum step base value) minimum maximum step base value := by
  rw [alignRange, h]
  cases o with
  | lt => exact absurd rfl hlt
  | eq => rfl
  | gt => rfl

theorem fits_ends (hfits : Fitting minimum maximum step base value) :
    ∀ d ∈ [minimum, maximum], fitsI128 (d.units (max maximum.scale minimum.scale)) := by
  have hcommon : max maximum.scale minimum.scale ≤ commonScale minimum maximum step base value := by
    rw [commonScale]
    omega
  have hmin := Decimal.fits_of_le (Nat.le_max_right _ _) hcommon (hfits.mantissas minimum (by simp))
  have hmax := Decimal.fits_of_le (Nat.le_max_left _ _) hcommon (hfits.mantissas maximum (by simp))
  simp [hmin, hmax]

variable (hdigits : ∀ d ∈ [minimum, maximum, step, base, value], Digits d.digits)
  (hle : minimum.toRat ≤ maximum.toRat) (hfits : Fitting minimum maximum step base value)
include hdigits hle hfits

theorem alignRange_of_legible (hstep : 0 < step.toRat) (h : Legible minimum maximum step base value) :
    ∃ r, alignRange minimum maximum step base value = .ok r ∧ Aligned minimum.toRat maximum.toRat
      base.toRat step.toRat value.toRat r.toRat := by
  have hends := fits_ends hfits
  have hscale : ∀ d ∈ [minimum, maximum, step, base, value],
      d.scale ≤ commonScale minimum maximum step base value := scale_le_commonScale
  have hcompare := (Decimal.compare_eq_cmp_iff (hdigits maximum (by simp)) (hdigits minimum (by simp))
    (hends maximum (by simp)) (hends minimum (by simp))).2 ⟨h.1 maximum (by simp), h.1 minimum (by simp)⟩
  have hat : ∀ d ∈ [minimum, maximum, step, base, value],
      d.mantissaAt (commonScale minimum maximum step base value) =
        some (d.units (commonScale minimum maximum step base value)) := by
    intro d hd
    rw [Decimal.mantissaAt_eq (hdigits d hd) (hscale d hd) (hfits.mantissas d hd),
      if_pos (h.2 d hd)]
  have hunits : ∀ d ∈ [minimum, maximum, step, base, value],
      Decimal.ofUnits (commonScale minimum maximum step base value)
        (d.units (commonScale minimum maximum step base value)) = d.toRat :=
    fun d hd => Decimal.ofUnits_units (hscale d hd)
  have hmono := Decimal.ofUnits_strictMono (commonScale minimum maximum step base value)
  have hpos : 0 < step.units (commonScale minimum maximum step base value) := by
    rw [← hmono.lt_iff_lt, map_zero, hunits step (by simp)]
    exact hstep
  have hordered := (Decimal.units_le_iff (hscale minimum (by simp)) (hscale maximum (by simp))).2 hle
  rw [alignRange_of_compare hcompare fun hlt => absurd ((cmp_eq_lt_iff _ _).1 hlt) (not_lt.2 hle),
    alignAt_eq (hat minimum (by simp)) (hat maximum (by simp)) (hat step (by simp))
      (hat base (by simp)) (hat value (by simp)) hpos hordered, fitting_of_fits hfits.terms]
  refine ⟨_, rfl, ?_⟩
  rw [Decimal.toRat_fromMantissa, ← hunits minimum (by simp), ← hunits maximum (by simp),
    ← hunits step (by simp), ← hunits base (by simp), ← hunits value (by simp)]
  exact (aligned_alignedStep _ _ hpos hordered).map hmono

theorem legible_of_alignRange {r : Decimal} (h : alignRange minimum maximum step base value = .ok r) :
    Legible minimum maximum step base value := by
  have hends := fits_ends hfits
  have hread : ∀ d ∈ [minimum, maximum, step, base, value], ∀ n,
      orUnfit (d.mantissaAt (commonScale minimum maximum step base value)) = .ok n →
        d.Readable (commonScale minimum maximum step base value) := fun d hd n hn =>
    Decimal.readable_of_mantissaAt (hdigits d hd) (hfits.mantissas d hd) (of_orUnfit_ok hn)
  rw [alignRange] at h
  split at h
  · cases h
  next hcompare =>
    have hlt := Decimal.compare_eq_some (hdigits maximum (by simp)) (hdigits minimum (by simp)) hcompare
    exact absurd ((cmp_eq_lt_iff _ _).1 hlt.symm) (not_lt.2 hle)
  next hcompare hlt =>
    obtain ⟨hmax, hmin⟩ := readable_of_compare (hdigits maximum (by simp)) (hdigits minimum (by simp))
      (hends maximum (by simp)) (hends minimum (by simp)) hlt
    obtain ⟨_, hvalueAt, h⟩ := Except.of_bind_ok h
    obtain ⟨_, hminAt, h⟩ := Except.of_bind_ok h
    obtain ⟨_, hmaxAt, h⟩ := Except.of_bind_ok h
    obtain ⟨_, hbaseAt, h⟩ := Except.of_bind_ok h
    obtain ⟨_, hstepAt, h⟩ := Except.of_bind_ok h
    refine ⟨by simp [hmin, hmax], ?_⟩
    simp only [List.forall_mem_cons, List.not_mem_nil, false_implies, implies_true, and_true] at hread ⊢
    obtain ⟨hread1, hread2, hread3, hread4, hread5⟩ := hread
    exact ⟨hread1 _ hminAt, hread2 _ hmaxAt, hread3 _ hstepAt, hread4 _ hbaseAt, hread5 _ hvalueAt⟩

end

/-- The value of a range is aligned just when the digits of the operands can be read, with an inverted
interval the value is its lower end just when those of the ends can, and nothing overflows. -/
theorem alignRange_aligned_iff {minimum maximum step base value : Decimal}
    (hbuilt : ∀ d ∈ [minimum, maximum, step, base, value], Built d) (hstep : 0 < step.toRat) :
    (minimum.toRat ≤ maximum.toRat → Fitting minimum maximum step base value →
      ((∃ r, alignRange minimum maximum step base value = .ok r ∧ Aligned minimum.toRat maximum.toRat
          base.toRat step.toRat value.toRat r.toRat) ↔
        Legible minimum maximum step base value)) ∧
    (maximum.toRat < minimum.toRat →
      (∀ d ∈ [minimum, maximum], fitsI128 (d.units (max maximum.scale minimum.scale))) →
      (alignRange minimum maximum step base value = .ok minimum ↔
        ∀ d ∈ [minimum, maximum], d.Readable (max maximum.scale minimum.scale))) ∧
    alignRange minimum maximum step base value ≠ .error .panic := by
  have hdigits : ∀ d ∈ [minimum, maximum, step, base, value], Digits d.digits :=
    fun d hd => (hbuilt d hd).digits
  have hmin := hdigits minimum (by simp)
  have hmax := hdigits maximum (by simp)
  refine ⟨fun hle hfits => ⟨?_, alignRange_of_legible hdigits hle hfits hstep⟩, fun hlt hfits => ?_,
    alignRange_ne_panic hmin hmax⟩
  · rintro ⟨r, hr, -⟩
    exact legible_of_alignRange hdigits hle hfits hr
  · have hiff := Decimal.compare_eq_cmp_iff hmax hmin (hfits maximum (by simp)) (hfits minimum (by simp))
    rw [(cmp_eq_lt_iff _ _).2 hlt] at hiff
    constructor
    · intro hok
      cases hcompare : maximum.compare minimum with
      | none => rw [alignRange, hcompare] at hok; cases hok
      | some o =>
        obtain ⟨hmaxRead, hminRead⟩ := readable_of_compare hmax hmin (hfits maximum (by simp))
          (hfits minimum (by simp)) hcompare
        simp [hmaxRead, hminRead]
    · intro hread
      rw [alignRange, hiff.2 ⟨hread maximum (by simp), hread minimum (by simp)⟩]

/-- A value of 10 is brought back to 8 on the steps of 3 from -1. -/
theorem alignRange_aligned_ten : ∃ r, alignRange (.fromInteger 0) (.fromInteger 10) (.fromInteger 3)
    (.fromInteger (-1)) (.fromInteger 10) = .ok r ∧ Aligned (Decimal.fromInteger 0).toRat
      (Decimal.fromInteger 10).toRat (Decimal.fromInteger (-1)).toRat (Decimal.fromInteger 3).toRat
      (Decimal.fromInteger 10).toRat r.toRat := by
  have hbuilt : ∀ d ∈ [Decimal.fromInteger 0, .fromInteger 10, .fromInteger 3, .fromInteger (-1),
      .fromInteger 10], Built d := by
    have hinteger : ∀ n ∈ [(0 : Int), 10, 3, -1, 10], Built (.fromInteger n) :=
      fun n hn => .integer ((by decide : ∀ n ∈ [(0 : Int), 10, 3, -1, 10], fitsI128 n) n hn)
    simpa using hinteger
  have hstep : 0 < (Decimal.fromInteger 3).toRat := by
    rw [Decimal.toRat_fromInteger]
    norm_num
  refine ((alignRange_aligned_iff hbuilt hstep).1 ?_ ⟨?_, ?_⟩).2 ⟨?_, ?_⟩
  · rw [Decimal.toRat_fromInteger, Decimal.toRat_fromInteger]
    norm_num
  · decide
  · decide
  · decide
  · decide

/-- The default of the range from -1 to 1 is not read back, and so not aligned. -/
theorem not_aligned_rangeDefault :
    Built (rangeDefault (.fromInteger (-1)) (.fromInteger 1)) ∧
      Fitting (.fromInteger (-1)) (.fromInteger 1) (.fromInteger 1) (.fromInteger 0)
        (rangeDefault (.fromInteger (-1)) (.fromInteger 1)) ∧
      alignRange (.fromInteger (-1)) (.fromInteger 1) (.fromInteger 1) (.fromInteger 0)
        (rangeDefault (.fromInteger (-1)) (.fromInteger 1)) = .error .unfit :=
  ⟨.default (.integer (by decide)) (.integer (by decide)), ⟨by decide, by decide⟩, by decide⟩

end TinyBrowser.Forms
