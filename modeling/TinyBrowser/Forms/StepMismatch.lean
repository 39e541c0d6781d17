import TinyBrowser.Forms.Controls
import TinyBrowser.Forms.Decimals

/-!
# Step mismatch

`step_mismatch` of the number and range states computes with the mantissas of the value, the step
base and the step at their common scale. It is exact but for one thing: the difference of the first
two is not checked (`stepMismatch_exact_iff`).
-/

namespace TinyBrowser.Forms
open Lib Text

/-- The tests in floating point: of operands that do not fit, and of the date-like states. -/
structure FloatTests where
  stepMismatchF64 : Decimal → Decimal → Decimal → Bool
  unitsMismatch : InputType → Option Text → Option Text → Option Text → Text → Bool

/-- The states with a default step. -/
def hasDefaultStep : InputType → Bool
  | .number | .range | .date | .month | .week | .time | .datetimeLocal => true
  | _ => false

def Decimal.isNegative (d : Decimal) : Bool := d.negative && decide (d.digits ≠ ['0'])

def Decimal.isZero (d : Decimal) : Bool := decide (d.digits = ['0'])

def stepOf (rawStep : Option Text) : Decimal :=
  ((rawStep.bind parseDecimal).filter fun step => !step.isNegative && !step.isZero).getD
    (.fromInteger 1)

/-- The step base is the `min` attribute, else the `value` attribute, else zero. -/
def stepBaseOf (min value : Option Text) : Decimal :=
  ((min.bind parseDecimal).or (value.bind parseDecimal)).getD .zero

def stepScale (value stepBase step : Decimal) : Nat := max (max value.scale stepBase.scale) step.scale

/-- The test on mantissas. The subtraction panics when it overflows, and so would the remainder. -/
def mantissaMismatch (value stepBase step : Int) : Except Stop Bool :=
  if step = 0 then .ok false
  else if ¬fitsI128 (value - stepBase) then .error .panic
  else if step = -1 ∧ value - stepBase = i128Min then .error .panic
  else .ok (decide ((value - stepBase).tmod step ≠ 0))

def decimalMismatch (floats : FloatTests) (value stepBase step : Decimal) : Except Stop Bool :=
  let scale := stepScale value stepBase step
  match value.mantissaAt scale, stepBase.mantissaAt scale, step.mantissaAt scale with
  | some valueAt, some stepBaseAt, some stepAt => mantissaMismatch valueAt stepBaseAt stepAt
  | _, _, _ => .ok (floats.stepMismatchF64 value step stepBase)

namespace Parsed
variable (floats : FloatTests) (doc : Parsed)

def valueSlot (n : BlitzId) : Text :=
  match doc.element n with
  | some e => e.value
  | none => []

/-- Whether the input suffers from a step mismatch. -/
def stepMismatch (n : BlitzId) : Except Stop Bool :=
  match doc.inputType n with
  | none => .ok false
  | some kind =>
    let rawStep := doc.attr n "step"
    if !hasDefaultStep kind then .ok false
    else if rawStep.any fun step => eqIgnoreAsciiCase step "any".toList then .ok false
    else if kind = .number ∨ kind = .range then
      match parseDecimal (doc.valueSlot n) with
      | none => .ok false
      | some value => decimalMismatch floats value
          (stepBaseOf (doc.attr n "min") (doc.attr n "value")) (stepOf rawStep)
    else .ok (floats.unitsMismatch kind rawStep (doc.attr n "min") (doc.attr n "value")
      (doc.valueSlot n))

end Parsed

/-! ### Steps are positive -/

theorem mem_dropLeading {digits : Text} {c : Char} (h : c ∈ digits) (hc : c ≠ '0') :
    c ∈ dropLeading digits := by
  fun_induction dropLeading digits with
  | case1 d digits ih => exact ih ((List.mem_cons.1 h).resolve_left hc)
  | case2 => exact h

theorem digitsValue_normalize_pos {d : Decimal} {c : Char} (h : Digits d.digits)
    (hc : c ∈ d.digits) (hne : c ≠ '0') : 0 < Text.digitsValue d.normalize.digits := by
  refine digitsValue_pos (Decimal.digits_normalize h) ?_ hne
  obtain ⟨n, hdigits, -⟩ := popZeros_spec (dropLeading d.digits) d.scale
  have hmem := mem_dropLeading hc hne
  rw [hdigits, List.mem_append] at hmem
  have hfirst := hmem.resolve_right fun h => hne (List.eq_of_mem_replicate h)
  rw [Decimal.normalize]
  dsimp only
  split <;> exact hfirst

theorem zero_or_pos_of_expandDecimal {negative : Bool} {digits : Text} {scale : Int} {d : Decimal}
    {c : Char} (hdigits : Digits digits) (hc : c ∈ digits) (hne : c ≠ '0')
    (h : expandDecimal negative digits scale = some d) : d = .zero ∨ 0 < Text.digitsValue d.digits := by
  rw [expandDecimal] at h
  split_ifs at h <;> cases h
  · exact .inl rfl
  · exact .inr (digitsValue_normalize_pos (digits_append_zeros hdigits _)
      (List.mem_append_left _ hc) hne)
  · exact .inl rfl
  · exact .inr (digitsValue_normalize_pos hdigits hc hne)

theorem zero_or_pos_of_parseDecimal {input : Text} {d : Decimal} (h : parseDecimal input = some d) :
    d = .zero ∨ 0 < Text.digitsValue d.digits := by
  simp only [parseDecimal] at h
  split_ifs at h with hdigits hsignificant hlarge hsmall
  · exact .inl (Option.some.inj h).symm
  · exact .inl (Option.some.inj h).symm
  · obtain ⟨c, rest, hdrop⟩ := List.exists_cons_of_ne_nil hsignificant
    have hc : c ≠ '0' := by
      have hnot := List.head?_dropWhile_not (fun c => decide (c = '0'))
        ((((takeSign (input.dropWhile isAsciiWhitespace)).2.span isAsciiDigit).1) ++
          (readFraction ((takeSign (input.dropWhile isAsciiWhitespace)).2.span isAsciiDigit).2).1)
      rw [hdrop] at hnot
      simpa using hnot
    refine zero_or_pos_of_expandDecimal (fun c hc => ?_)
      ((List.dropWhile_sublist _).subset (hdrop ▸ List.mem_cons_self)) hc h
    obtain hc | hc := List.mem_append.1 hc
    · exact digits_span _ c hc
    · exact digits_readFraction _ c hc

theorem digits_stepBaseOf (min value : Option Text) : Digits (stepBaseOf min value).digits := by
  rw [stepBaseOf]
  cases hmin : min.bind parseDecimal with
  | some d =>
    obtain ⟨text, -, hd⟩ := Option.bind_eq_some_iff.1 hmin
    exact digits_parseDecimal hd
  | none =>
    cases hvalue : value.bind parseDecimal with
    | some d =>
      obtain ⟨text, -, hd⟩ := Option.bind_eq_some_iff.1 hvalue
      exact digits_parseDecimal hd
    | none => exact digits_toDigits 0

theorem stepOf_spec (rawStep : Option Text) : Digits (stepOf rawStep).digits ∧
    (stepOf rawStep).negative = false ∧ 0 < Text.digitsValue (stepOf rawStep).digits := by
  rw [stepOf]
  cases hstep : (rawStep.bind parseDecimal).filter fun step => !step.isNegative && !step.isZero with
  | none => exact ⟨digits_toDigits 1, by decide, by decide⟩
  | some d =>
    obtain ⟨hbind, hkeep⟩ := Option.filter_eq_some_iff.1 hstep
    obtain ⟨text, -, hd⟩ := Option.bind_eq_some_iff.1 hbind
    simp only [Decimal.isNegative, Decimal.isZero, Bool.and_eq_true, Bool.not_eq_true',
      decide_eq_false_iff_not] at hkeep
    refine ⟨digits_parseDecimal hd, by simpa [hkeep.2] using hkeep.1, ?_⟩
    refine (zero_or_pos_of_parseDecimal hd).resolve_left ?_
    rintro rfl
    exact hkeep.2 rfl

/-! ### The test -/

/-- A number or range input with a value and a step, whose operands fit at their common scale. -/
structure StepTest (doc : Parsed) (n : BlitzId) (value stepBase step : Decimal)
    (valueAt stepBaseAt stepAt : Int) : Prop where
  state : doc.inputType n = some .number ∨ doc.inputType n = some .range
  notAny : ((doc.attr n "step").any fun step => eqIgnoreAsciiCase step "any".toList) = false
  value_eq : parseDecimal (doc.valueSlot n) = some value
  stepBase_eq : stepBaseOf (doc.attr n "min") (doc.attr n "value") = stepBase
  step_eq : stepOf (doc.attr n "step") = step
  valueAt_eq : value.mantissaAt (stepScale value stepBase step) = some valueAt
  stepBaseAt_eq : stepBase.mantissaAt (stepScale value stepBase step) = some stepBaseAt
  stepAt_eq : step.mantissaAt (stepScale value stepBase step) = some stepAt

variable {doc : Parsed} {n : BlitzId} {value stepBase step : Decimal}
  {valueAt stepBaseAt stepAt : Int}

theorem StepTest.stepMismatch_eq (h : StepTest doc n value stepBase step valueAt stepBaseAt stepAt)
    (floats : FloatTests) :
    doc.stepMismatch floats n = mantissaMismatch valueAt stepBaseAt stepAt := by
  have hdecimal : decimalMismatch floats value stepBase step =
      mantissaMismatch valueAt stepBaseAt stepAt := by
    simp only [decimalMismatch, h.valueAt_eq, h.stepBaseAt_eq, h.stepAt_eq]
  rw [Parsed.stepMismatch]
  have hany := h.notAny
  rcases h.state with hkind | hkind <;>
    simp only [hkind, hany, hasDefaultStep, h.value_eq, h.stepBase_eq, h.step_eq, hdecimal,
      Bool.not_true, Bool.false_eq_true, if_false, true_or, or_true, if_true]

theorem StepTest.cast_eq (h : StepTest doc n value stepBase step valueAt stepBaseAt stepAt) :
    (valueAt : ℚ) = value.toRat * 10 ^ stepScale value stepBase step ∧
      (stepBaseAt : ℚ) = stepBase.toRat * 10 ^ stepScale value stepBase step ∧
      (stepAt : ℚ) = step.toRat * 10 ^ stepScale value stepBase step := by
  have hvalue := Decimal.mantissaAt_eq_some (digits_parseDecimal h.value_eq) h.valueAt_eq
  have hstepBase := Decimal.mantissaAt_eq_some (h.stepBase_eq ▸ digits_stepBaseOf _ _)
    h.stepBaseAt_eq
  have hstep := Decimal.mantissaAt_eq_some (h.step_eq ▸ (stepOf_spec _).1) h.stepAt_eq
  rw [hvalue.2, hstepBase.2, hstep.2]
  exact ⟨Decimal.units_cast hvalue.1, Decimal.units_cast hstepBase.1, Decimal.units_cast hstep.1⟩

theorem StepTest.stepAt_pos (h : StepTest doc n value stepBase step valueAt stepBaseAt stepAt) :
    0 < stepAt := by
  obtain ⟨hdigits, hnegative, hpos⟩ := stepOf_spec (doc.attr n "step")
  rw [h.step_eq] at hdigits hnegative hpos
  obtain ⟨-, hstep⟩ := Decimal.mantissaAt_eq_some hdigits h.stepAt_eq
  have hmul : 0 < Text.digitsValue step.digits * 10 ^ (stepScale value stepBase step - step.scale) :=
    Nat.mul_pos hpos (by positivity)
  rw [hstep, Decimal.units, hnegative, if_neg Bool.false_ne_true, one_mul]
  exact Int.natCast_pos.2 hmul

theorem StepTest.dvd_iff (h : StepTest doc n value stepBase step valueAt stepBaseAt stepAt) :
    stepAt ∣ valueAt - stepBaseAt ↔
      ∃ k : ℤ, value.toRat - stepBase.toRat = k * step.toRat := by
  obtain ⟨hvalue, hstepBase, hstep⟩ := h.cast_eq
  have hpow : (10 : ℚ) ^ stepScale value stepBase step ≠ 0 := by positivity
  refine exists_congr fun k => ?_
  rw [← Int.cast_inj (α := ℚ)]
  push_cast
  rw [hvalue, hstepBase, hstep, ← sub_mul, mul_right_comm, mul_left_inj' hpow, mul_comm step.toRat]

/-- The test is exact, and no operation overflows, just when the difference fits. -/
theorem stepMismatch_exact_iff (floats : FloatTests)
    (h : StepTest doc n value stepBase step valueAt stepBaseAt stepAt) :
    (∃ mismatch, doc.stepMismatch floats n = .ok mismatch ∧
      (mismatch = true ↔ ¬∃ k : ℤ, value.toRat - stepBase.toRat = k * step.toRat)) ↔
      fitsI128 (valueAt - stepBaseAt) := by
  have hpos := h.stepAt_pos
  rw [h.stepMismatch_eq, mantissaMismatch, if_neg (by omega), ← h.dvd_iff,
    Int.dvd_iff_tmod_eq_zero]
  split
  · rename_i hfits
    simp [hfits]
  · rename_i hfits
    rw [if_neg (by omega)]
    simp only [Except.ok.injEq, not_not.1 hfits, iff_true]
    exact ⟨_, rfl, decide_eq_true_iff⟩

/-- A number input with a value and a minimum. -/
def numberInput (value min : Text) : Parsed where
  id := 0
  tree := Forest.empty
  data
    | 0 => some (.element ⟨Parsed.htmlNamespace, "input",
        [⟨"", "type", "number".toList⟩, ⟨"", "min", min⟩], value, false, false⟩)
    | _ => none
  nodes := [0]
  mem_nodes n h := by
    match n with
    | 0 => simp
    | _ + 1 => cases h
  data_of_parent _ _ h := by cases h
  rootNode := 0
  disabledByFieldset _ := false

theorem stepMismatch_exact_three : ∃ mismatch,
    (numberInput "3".toList "1".toList).stepMismatch ⟨fun _ _ _ => false, fun _ _ _ _ _ => false⟩ 0 =
        .ok mismatch ∧
      (mismatch = true ↔ ¬∃ k : ℤ, (⟨false, ['3'], 0⟩ : Decimal).toRat -
        (⟨false, ['1'], 0⟩ : Decimal).toRat = k * (⟨false, ['1'], 0⟩ : Decimal).toRat) :=
  (stepMismatch_exact_iff _ (show StepTest (numberInput "3".toList "1".toList) 0
      ⟨false, ['3'], 0⟩ ⟨false, ['1'], 0⟩ ⟨false, ['1'], 0⟩ 3 1 1 from
    ⟨.inl (by decide +kernel), by decide +kernel, by decide +kernel, by decide +kernel,
      by decide +kernel, by decide +kernel, by decide +kernel, by decide +kernel⟩)).2 (by decide)

/-- Operands near the two ends of the range, each of which fits. -/
theorem stepMismatch_panics : (∃ value stepBase step,
      StepTest (numberInput "1e38".toList "-1e38".toList) 0 value stepBase step (10 ^ 38)
        (-10 ^ 38) 1) ∧
    ∀ floats, (numberInput "1e38".toList "-1e38".toList).stepMismatch floats 0 =
      .error .panic := by
  have htest : StepTest (numberInput "1e38".toList "-1e38".toList) 0
      ⟨false, '1' :: List.replicate 38 '0', 0⟩ ⟨true, '1' :: List.replicate 38 '0', 0⟩
      ⟨false, ['1'], 0⟩ (10 ^ 38) (-10 ^ 38) 1 :=
    ⟨.inl (by decide +kernel), by decide +kernel, by decide +kernel, by decide +kernel,
      by decide +kernel, by decide +kernel, by decide +kernel, by decide +kernel⟩
  refine ⟨⟨_, _, _, htest⟩, fun floats => ?_⟩
  rw [htest.stepMismatch_eq]
  decide +kernel

end TinyBrowser.Forms
