import Mathlib.Data.Rat.Cast.Order
import Mathlib.Tactic.FieldSimp
import Mathlib.Tactic.Positivity
import TinyBrowser.Lib.Lines
import TinyBrowser.Protocol
import TinyBrowser.Lib.Wp

/-!
# Exact decimals

`crates/renderer/src/dom/microsyntaxes.rs`: the decimals of floating-point attributes as strings of
digits, and the arithmetic of the range state on their mantissas, which are of 128 bits.

A mantissa and a scale make the canonical decimal of their quotient, and decimals are compared as
rationals. The exceptions are a zero with a scale, which loses its last digit, and the least mantissa,
whose digits are not read back.
-/

namespace TinyBrowser.Forms
open Lib

def i128Min : Int := -2 ^ 127

def i128Max : Int := 2 ^ 127 - 1

def fitsI128 (n : Int) : Prop := i128Min ≤ n ∧ n ≤ i128Max

instance (n : Int) : Decidable (fitsI128 n) := inferInstanceAs (Decidable (_ ∧ _))

/-- A checked operation on `i128` with the exact result `n`. -/
def checkedI128 (n : Int) : Option Int := if fitsI128 n then some n else none

/-- `str::parse::<i128>` of a run of digits. -/
def readI128 (text : Text) : Option Int :=
  ((Text.readNat text).filter fun n => n ≤ 2 ^ 127 - 1).map fun n : Nat => (n : Int)

def u32Max : Nat := 2 ^ 32 - 1

structure Decimal where
  negative : Bool
  digits : Text
  scale : Nat
deriving DecidableEq, Repr

/-- The digits without leading zeros, as long as more than one is left. -/
def dropLeading : Text → Text
  | '0' :: d :: digits => dropLeading (d :: digits)
  | digits => digits

/-- The digits without trailing zeros, one less in the scale for each. -/
def popZeros (digits : Text) : Nat → Text × Nat
  | 0 => (digits, 0)
  | scale + 1 =>
    if digits.getLast? = some '0' then popZeros digits.dropLast scale else (digits, scale + 1)

namespace Decimal

def zero : Decimal := ⟨false, ['0'], 0⟩

def fromInteger (value : Int) : Decimal := ⟨decide (value < 0), Nat.toDigits 10 value.natAbs, 0⟩

/-- The signed mantissa at `scale`, or `none` when it does not fit. -/
def mantissaAt (d : Decimal) (scale : Nat) : Option Int :=
  if scale < d.scale then none
  else
    let zeros := scale - d.scale
    (readI128 (d.digits ++ List.replicate zeros '0')).map fun magnitude =>
      if d.negative then -magnitude else magnitude

def normalize (d : Decimal) : Decimal :=
  let (digits, scale) := popZeros (dropLeading d.digits) d.scale
  if digits = ['0'] then ⟨false, digits, 0⟩ else ⟨d.negative, digits, scale⟩

def fromMantissa (mantissa : Int) (scale : Nat) : Decimal :=
  normalize ⟨decide (mantissa < 0), Nat.toDigits 10 mantissa.natAbs, scale⟩

/-- `to_f64` is infinite. It rounds to nearest, and halfway to an even mantissa. -/
def isInfinite (d : Decimal) : Bool :=
  (2 ^ 1024 - 2 ^ 970) * 10 ^ d.scale ≤ Text.digitsValue d.digits

/-- `to_f64` is zero. -/
def roundsToZero (d : Decimal) : Bool := Text.digitsValue d.digits * 2 ^ 1075 ≤ 10 ^ d.scale

def compare (d other : Decimal) : Option Ordering := do
  let scale := max d.scale other.scale
  let left ← d.mantissaAt scale
  let right ← other.mantissaAt scale
  some (cmp left right)

end Decimal

/-! ### Parsing -/

/-- An optional sign, and what follows it. -/
def takeSign : Text → Bool × Text
  | '-' :: rest => (true, rest)
  | '+' :: rest => (false, rest)
  | rest => (false, rest)

/-- The `i64` nearest to a number. -/
def saturate (n : Int) : Int := max (-2 ^ 63) (min n (2 ^ 63 - 1))

/-- The exponent of a literal. One without digits is zero. -/
def readExponent : Text → Int
  | [] => 0
  | c :: rest =>
    if c = 'e' ∨ c = 'E' then
      let (negative, rest) := takeSign rest
      let exponent := (rest.takeWhile Text.isAsciiDigit).foldl
        (fun exponent c => saturate (saturate (exponent * 10) + (c.toNat - 48 : Nat))) 0
      if negative then -exponent else exponent
    else 0

/-- The digits after a decimal point, and what follows them. -/
def readFraction : Text → Text × Text
  | '.' :: rest => rest.span Text.isAsciiDigit
  | rest => ([], rest)

/-- The decimal of a run of digits, an exponent bounded before. -/
def expandDecimal (negative : Bool) (digits : Text) (scale : Int) : Option Decimal :=
  let decimal : Decimal :=
    if scale < 0 then ⟨negative, digits ++ List.replicate (-scale).toNat '0', 0⟩
    else ⟨negative, digits, scale.toNat⟩
  if u32Max < decimal.scale then none
  else if decimal.normalize.isInfinite then none
  else if decimal.normalize.roundsToZero then some .zero
  else some decimal.normalize

/-- The longest prefix that is a floating-point number. -/
def parseDecimal (input : Text) : Option Decimal :=
  let (negative, rest) := takeSign (input.dropWhile Text.isAsciiWhitespace)
  let (whole, rest) := rest.span Text.isAsciiDigit
  let (fraction, rest) := readFraction rest
  let digits := whole ++ fraction
  -- the counter of the fraction digits wraps around
  let fractionDigits : Nat := fraction.length % 2 ^ 32
  if digits = [] then none
  else
    let exponent := readExponent rest
    let significant := digits.dropWhile (· = '0')
    if significant = [] then some .zero
    else
      let magnitude := saturate (saturate (significant.length - 1 + exponent) - fractionDigits)
      if 309 < magnitude then none
      else if magnitude < -324 then some .zero
      else expandDecimal negative digits (fractionDigits - exponent)

/-! ### The range state -/

/-- Why an arithmetic result is missing: it does not fit, or the operation panics. -/
inductive Stop where
  | unfit
  | panic
deriving DecidableEq, Repr

def orUnfit {α : Type} : Option α → Except Stop α
  | some a => .ok a
  | none => .error .unfit

/-- `i128::div_euclid`. -/
def divEuclid (n d : Int) : Except Stop Int :=
  if d = 0 ∨ ¬fitsI128 (n / d) then .error .panic else .ok (n / d)

/-- `Ord::clamp`. -/
def clampTo (n lower upper : Int) : Except Stop Int :=
  if upper < lower then .error .panic else .ok (max lower (min n upper))

/-- The step nearest to a value, ties upward. -/
def nearestStep (base step value : Int) : Except Stop Int := do
  let offset ← orUnfit (checkedI128 (value - base))
  let doubled ← orUnfit (checkedI128 (offset * 2))
  let numerator ← orUnfit (checkedI128 (doubled + step))
  let denominator ← orUnfit (checkedI128 (step * 2))
  let quotient ← divEuclid numerator denominator
  let product ← orUnfit (checkedI128 (quotient * step))
  orUnfit (checkedI128 (base + product))

/-- How many steps cover a distance. -/
def stepsOver (step distance : Int) : Except Stop Int := do
  let distance ← orUnfit (checkedI128 distance)
  let sum ← orUnfit (checkedI128 (distance + step))
  let sum ← orUnfit (checkedI128 (sum - 1))
  let steps ← divEuclid sum step
  orUnfit (checkedI128 (steps * step))

/-- Back over the end that was overshot. -/
def bringBack (minimum maximum step aligned : Int) : Except Stop Int :=
  if maximum < aligned then do
    let back ← stepsOver step (aligned - maximum)
    orUnfit (checkedI128 (aligned - back))
  else if aligned < minimum then do
    let on ← stepsOver step (minimum - aligned)
    orUnfit (checkedI128 (aligned + on))
  else .ok aligned

/-- The mantissa of the range state. -/
def alignMantissa (minimum maximum step base value : Int) : Except Stop Int := do
  let aligned ← nearestStep base step value
  let aligned ← bringBack minimum maximum step aligned
  if aligned < minimum ∨ maximum < aligned then clampTo value minimum maximum else .ok aligned

/-- The scale of the operands. -/
def commonScale (minimum maximum step base value : Decimal) : Nat :=
  max (max (max (max value.scale maximum.scale) minimum.scale) step.scale) base.scale

def alignAt (scale : Nat) (minimum maximum step base value : Decimal) : Except Stop Decimal := do
  let valueAt ← orUnfit (value.mantissaAt scale)
  let minimumAt ← orUnfit (minimum.mantissaAt scale)
  let maximumAt ← orUnfit (maximum.mantissaAt scale)
  let baseAt ← orUnfit (base.mantissaAt scale)
  let stepAt ← orUnfit (step.mantissaAt scale)
  if stepAt ≤ 0 then .error .unfit
  else
    let mantissa ← alignMantissa minimumAt maximumAt stepAt baseAt valueAt
    .ok (.fromMantissa mantissa scale)

/-- The exact range state value: the nearest step that stays inside `[minimum, maximum]`. -/
def alignRange (minimum maximum step base value : Decimal) : Except Stop Decimal :=
  match maximum.compare minimum with
  | none => .error .unfit
  | some .lt => .ok minimum
  | some _ => alignAt (commonScale minimum maximum step base value) minimum maximum step base value

/-- The midpoint at one more place, when it fits. -/
def midpoint (minimum maximum : Decimal) : Option Decimal := do
  let scale := max minimum.scale maximum.scale
  let minimumAt ← minimum.mantissaAt scale
  let maximumAt ← maximum.mantissaAt scale
  let difference ← checkedI128 (maximumAt - minimumAt)
  let tenfold ← checkedI128 (minimumAt * 10)
  let half ← checkedI128 (difference * 5)
  let halfScaled ← checkedI128 (tenfold + half)
  if u32Max < scale + 1 then none else some (.fromMantissa halfScaled (scale + 1))

/-- The default of the range state: the midpoint, or `minimum` when the interval is inverted. -/
def rangeDefault (minimum maximum : Decimal) : Decimal :=
  match maximum.compare minimum with
  | none => minimum
  | some .lt => minimum
  | some _ => (midpoint minimum maximum).getD minimum

open Lib.Text

/-! ### Normal form -/

theorem popZeros_spec (digits : Text) (scale : Nat) :
    ∃ n, digits = (popZeros digits scale).1 ++ List.replicate n '0' ∧
      (popZeros digits scale).2 + n = scale ∧
      (0 < (popZeros digits scale).2 → (popZeros digits scale).1.getLast? ≠ some '0') := by
  induction scale generalizing digits with
  | zero => exact ⟨0, by simp [popZeros], rfl, by simp [popZeros]⟩
  | succ scale ih =>
    rw [popZeros]
    split
    next hlast =>
      obtain ⟨n, hdigits, hscale, hend⟩ := ih digits.dropLast
      refine ⟨n + 1, ?_, by omega, hend⟩
      rw [List.replicate_succ', ← List.append_assoc, ← hdigits]
      exact (List.dropLast_append_getLast? _ hlast).symm
    next hlast => exact ⟨0, by simp, rfl, fun _ => hlast⟩

theorem dropLeading_suffix (digits : Text) : dropLeading digits <:+ digits := by
  fun_induction dropLeading digits with
  | case1 d digits ih => exact ih.trans (List.suffix_cons _ _)
  | case2 => exact List.suffix_refl _

theorem dropLeading_of_head {digits : Text} (h : digits.head? ≠ some '0') :
    dropLeading digits = digits := by
  unfold dropLeading
  split
  · simp at h
  · rfl

theorem digits_popZeros {digits : Text} (h : Digits digits) (scale : Nat) :
    Digits (popZeros digits scale).1 := by
  obtain ⟨n, hdigits, -⟩ := popZeros_spec digits scale
  intro c hc
  refine h c ?_
  rw [hdigits]
  exact List.mem_append_left _ hc

namespace Decimal
variable {d : Decimal}

theorem digits_normalize (h : Digits d.digits) : Digits d.normalize.digits := by
  have hdigits := digits_popZeros (fun c hc => h c ((dropLeading_suffix d.digits).subset hc)) d.scale
  rw [normalize]
  dsimp only
  split <;> exact hdigits

theorem digits_fromMantissa (mantissa : Int) (scale : Nat) :
    Digits (fromMantissa mantissa scale).digits :=
  digits_normalize (digits_toDigits _)

/-! ### Reading back -/

/-- The number of units of a scale that a decimal stands for. -/
def units (d : Decimal) (scale : Nat) : Int :=
  (if d.negative then -1 else 1) * (Text.digitsValue d.digits * 10 ^ (scale - d.scale) : Nat)

/-- The digits at a scale can be read: there is one, and they are not those of the least number. -/
def Readable (d : Decimal) (scale : Nat) : Prop :=
  (d.scale = scale → d.digits ≠ []) ∧ d.units scale ≠ i128Min

instance (scale : Nat) : Decidable (d.Readable scale) := inferInstanceAs (Decidable (_ ∧ _))

theorem readable_iff {scale : Nat} (hscale : d.scale ≤ scale)
    (hfits : fitsI128 (d.units scale)) :
    d.Readable scale ↔ d.digits ++ List.replicate (scale - d.scale) '0' ≠ [] ∧
      Text.digitsValue d.digits * 10 ^ (scale - d.scale) ≤ 2 ^ 127 - 1 := by
  have hzeros : d.digits ++ List.replicate (scale - d.scale) '0' ≠ [] ↔
      (d.scale = scale → d.digits ≠ []) := by
    rw [Ne, List.append_eq_nil_iff, List.replicate_eq_nil_iff]
    constructor
    · intro hne heq hnil
      exact hne ⟨hnil, by omega⟩
    · rintro hne ⟨hnil, hzero⟩
      exact hne (by omega) hnil
  rw [Readable, hzeros]
  refine and_congr_right fun _ => ?_
  obtain ⟨hlower, hupper⟩ := hfits
  rw [units] at hlower hupper ⊢
  rw [i128Min] at hlower ⊢
  rw [i128Max] at hupper
  split_ifs at hlower hupper ⊢ <;> omega

theorem readI128_of_digits {text : Text} (h : Digits text) : readI128 text =
    if text ≠ [] ∧ Text.digitsValue text ≤ 2 ^ 127 - 1 then some (Text.digitsValue text : Int) else none := by
  by_cases hnil : text = []
  · rw [hnil]
    rfl
  · rw [readI128, readNat_of_digits h hnil]
    split_ifs with hle
    · simpa [Option.filter] using hle.2
    · simp [Option.filter, hnil] at hle ⊢
      omega

theorem mantissaAt_of_digits (h : Digits d.digits) {scale : Nat} (hscale : d.scale ≤ scale) :
    d.mantissaAt scale =
      if d.digits ++ List.replicate (scale - d.scale) '0' ≠ [] ∧
        Text.digitsValue d.digits * 10 ^ (scale - d.scale) ≤ 2 ^ 127 - 1
      then some (d.units scale) else none := by
  rw [mantissaAt, if_neg (by omega)]
  simp only [readI128_of_digits (digits_append_zeros h _), digitsValue_append_zeros]
  split_ifs with hneg hle hle <;> simp [units, hneg]

theorem mantissaAt_eq (h : Digits d.digits) {scale : Nat} (hscale : d.scale ≤ scale)
    (hfits : fitsI128 (d.units scale)) :
    d.mantissaAt scale = if d.Readable scale then some (d.units scale) else none := by
  rw [mantissaAt_of_digits h hscale]
  simp only [readable_iff hscale hfits]

theorem mantissaAt_eq_some (h : Digits d.digits) {scale : Nat} {n : Int}
    (hn : d.mantissaAt scale = some n) : d.scale ≤ scale ∧ n = d.units scale := by
  have hscale : d.scale ≤ scale := by
    rw [mantissaAt] at hn
    split at hn
    · cases hn
    · omega
  rw [mantissaAt_of_digits h hscale] at hn
  split at hn <;> cases hn
  exact ⟨hscale, rfl⟩

/-! ### The canonical form -/

structure Canonical (d : Decimal) : Prop where
  digits : Digits d.digits
  nonempty : d.digits ≠ []
  no_leading_zero : d.digits ≠ ['0'] → d.digits.head? ≠ some '0'
  no_trailing_zero : 0 < d.scale → d.digits.getLast? ≠ some '0'
  zero : Text.digitsValue d.digits = 0 → d.digits = ['0'] ∧ d.scale = 0 ∧ d.negative = false

/-- The decimal stands for `mantissa * 10 ^ -scale`, at every scale where that is a mantissa. -/
def Denotes (d : Decimal) (mantissa : Int) (scale : Nat) : Prop :=
  ∀ t n, d.scale ≤ t → fitsI128 n → n * 10 ^ scale = mantissa * 10 ^ t → d.mantissaAt t = some n

/-- What the mantissa and the scale of a decimal with a value are. -/
structure MadeOf (d : Decimal) (mantissa : Int) (scale : Nat) : Prop where
  zeros : ∃ n, Nat.toDigits 10 mantissa.natAbs = d.digits ++ List.replicate n '0' ∧ d.scale + n = scale
  last : 0 < d.scale → d.digits.getLast? ≠ some '0'
  sign : d.negative = decide (mantissa < 0)

theorem head?_toDigits {n : Nat} (hn : 0 < n) : (Nat.toDigits 10 n).head? ≠ some '0' :=
  IpAddr.head?_toDigits (by omega) IpAddr.toDigit_digitChar_ten n hn

theorem madeOf_fromMantissa {mantissa : Int} (hne : mantissa ≠ 0) (scale : Nat) :
    (fromMantissa mantissa scale).MadeOf mantissa scale := by
  have hhead := head?_toDigits (n := mantissa.natAbs) (by omega)
  obtain ⟨n, hdigits, hscale, hlast⟩ := popZeros_spec (Nat.toDigits 10 mantissa.natAbs) scale
  have hzero : (popZeros (Nat.toDigits 10 mantissa.natAbs) scale).1 ≠ ['0'] := by
    intro heq
    rw [hdigits, heq] at hhead
    simp at hhead
  have heq : fromMantissa mantissa scale = ⟨decide (mantissa < 0),
      (popZeros (Nat.toDigits 10 mantissa.natAbs) scale).1,
      (popZeros (Nat.toDigits 10 mantissa.natAbs) scale).2⟩ := by
    rw [fromMantissa, normalize]
    simp only [dropLeading_of_head hhead]
    rw [if_neg hzero]
  rw [heq]
  exact ⟨⟨n, hdigits, hscale⟩, hlast, rfl⟩

namespace MadeOf
variable {mantissa : Int} {scale : Nat}

theorem value (h : d.MadeOf mantissa scale) :
    ∃ n, Text.digitsValue d.digits * 10 ^ n = mantissa.natAbs ∧ d.scale + n = scale := by
  obtain ⟨n, hdigits, hscale⟩ := h.zeros
  have hvalue := congrArg Text.digitsValue hdigits
  rw [digitsValue_toDigits, digitsValue_append_zeros] at hvalue
  exact ⟨n, hvalue.symm, hscale⟩

theorem canonical (h : d.MadeOf mantissa scale) (hne : mantissa ≠ 0) : d.Canonical := by
  obtain ⟨n, hdigits, hscale⟩ := h.zeros
  obtain ⟨k, hvalue, -⟩ := h.value
  have hpos : Text.digitsValue d.digits ≠ 0 := by
    intro hzero
    rw [hzero, Nat.zero_mul] at hvalue
    omega
  have hnil : d.digits ≠ [] := by
    rintro hnil
    rw [hnil] at hpos
    exact hpos rfl
  refine ⟨fun c hc => ?_, hnil, fun _ => ?_, h.last, fun hzero => absurd hzero hpos⟩
  · refine digits_toDigits mantissa.natAbs c ?_
    rw [hdigits]
    exact List.mem_append_left _ hc
  · have hhead := head?_toDigits (n := mantissa.natAbs) (by omega)
    rwa [hdigits, List.head?_append_of_ne_nil _ hnil] at hhead

theorem units_eq (h : d.MadeOf mantissa scale) {t : Nat} (ht : d.scale ≤ t) :
    d.units t * 10 ^ scale = mantissa * 10 ^ t := by
  obtain ⟨n, hvalue, rfl⟩ := h.value
  obtain ⟨k, rfl⟩ := Nat.exists_eq_add_of_le ht
  have hmantissa : mantissa = (if d.negative then -1 else 1) * (mantissa.natAbs : Int) := by
    rw [h.sign]
    split_ifs with hneg <;> rw [decide_eq_true_eq] at hneg <;> omega
  rw [hmantissa, ← hvalue, units, Nat.add_sub_cancel_left]
  push_cast
  ring

end MadeOf

theorem denotes_zero : zero.Denotes 0 0 := by
  intro t n _ _ heq
  have hzero : n = 0 := by simpa using heq
  have hunits : zero.units t = 0 := by simp [units, zero, Text.digitsValue]
  have hread : zero.Readable t := ⟨fun _ => by simp [zero], by rw [hunits]; decide⟩
  have hfits : fitsI128 (zero.units t) := by rw [hunits]; decide
  rw [mantissaAt_eq (by decide : Digits zero.digits) (Nat.zero_le t) hfits, if_pos hread, hunits, hzero]

theorem canonical_zero : zero.Canonical where
  digits := by decide
  nonempty := by decide
  no_leading_zero := by decide
  no_trailing_zero := by decide
  zero _ := by decide

/-- Only the least mantissa itself stands for its number, as that has no factor ten. -/
theorem eq_i128Min {mantissa : Int} {s t : Nat} (hfits : fitsI128 mantissa)
    (h : i128Min * 10 ^ s = mantissa * 10 ^ t) : mantissa = i128Min := by
  obtain ⟨hlower, hupper⟩ := hfits
  rw [i128Min] at h hlower ⊢
  rw [i128Max] at hupper
  rcases Nat.lt_or_ge s t with hst | hst
  · obtain ⟨k, rfl⟩ := Nat.exists_eq_add_of_lt hst
    have hcancel : (-2 ^ 127 : Int) = mantissa * 10 ^ (k + 1) := by
      refine mul_right_cancel₀ (b := 10 ^ s) (by positivity) ?_
      rw [h]
      ring
    have hdvd : (5 : Int) ∣ -2 ^ 127 := ⟨mantissa * 10 ^ k * 2, by rw [hcancel]; ring⟩
    exact absurd hdvd (by decide)
  · obtain ⟨k, rfl⟩ := Nat.exists_eq_add_of_le hst
    have hcancel : (-2 ^ 127 : Int) * 10 ^ k = mantissa := by
      refine mul_right_cancel₀ (b := 10 ^ t) (by positivity) ?_
      rw [← h]
      ring
    have hpow : (1 : Int) ≤ 10 ^ k := one_le_pow₀ (by omega)
    omega

/-- The digit of a zero with a scale is dropped. -/
theorem fromMantissa_zero (scale : Nat) : fromMantissa 0 (scale + 1) = ⟨false, [], scale⟩ := by
  have hnil : popZeros [] scale = ([], scale) := by cases scale <;> rfl
  have hzero : popZeros ['0'] (scale + 1) = ([], scale) := hnil
  rw [fromMantissa, normalize]
  simp [dropLeading, hzero]

/-- A mantissa and a scale are kept, but for a zero with a scale and the least mantissa. -/
theorem exact_iff {mantissa : Int} (scale : Nat) (hfits : fitsI128 mantissa) :
    (fromMantissa mantissa scale).Canonical ∧ (fromMantissa mantissa scale).Denotes mantissa scale ↔
      (mantissa = 0 → scale = 0) ∧ mantissa ≠ i128Min := by
  by_cases hzero : mantissa = 0
  · subst hzero
    cases scale with
    | zero => exact iff_of_true ⟨canonical_zero, denotes_zero⟩ (by decide)
    | succ scale =>
      refine iff_of_false (fun h => h.1.nonempty ?_) fun h => nomatch h.1 rfl
      rw [fromMantissa_zero]
  have hmade := madeOf_fromMantissa hzero scale
  have hcanonical := hmade.canonical hzero
  constructor
  · rintro ⟨-, hdenotes⟩
    refine ⟨fun heq => absurd heq hzero, fun hmin => ?_⟩
    have hle : (fromMantissa mantissa scale).scale ≤ scale := by
      obtain ⟨n, -, hscale⟩ := hmade.value
      omega
    have hunits := mul_right_cancel₀ (by positivity) (hmade.units_eq hle)
    have hread := hdenotes scale mantissa hle hfits rfl
    rw [mantissaAt_eq hcanonical.digits hle (by rwa [hunits]),
      if_neg fun hread => hread.2 (hunits.trans hmin)] at hread
    cases hread
  · rintro ⟨-, hmin⟩
    refine ⟨hcanonical, fun t n ht hn heq => ?_⟩
    have hunits : (fromMantissa mantissa scale).units t = n := by
      refine mul_right_cancel₀ (b := 10 ^ scale) (by positivity) ?_
      rw [hmade.units_eq ht, heq]
    have hread : (fromMantissa mantissa scale).Readable t := by
      refine ⟨fun _ => hcanonical.nonempty, fun hleast => hmin ?_⟩
      rw [hunits] at hleast
      rw [hleast] at heq
      exact eq_i128Min hfits heq
    rw [mantissaAt_eq hcanonical.digits ht (by rwa [hunits]), if_pos hread, hunits]

/-! ### Comparison -/

/-- The rational that a decimal stands for. -/
def toRat (d : Decimal) : ℚ :=
  (if d.negative then -1 else 1) * Text.digitsValue d.digits / 10 ^ d.scale

theorem units_cast {scale : Nat} (h : d.scale ≤ scale) : (d.units scale : ℚ) = d.toRat * 10 ^ scale := by
  obtain ⟨k, rfl⟩ := Nat.exists_eq_add_of_le h
  rw [units, toRat, Nat.add_sub_cancel_left, pow_add]
  push_cast
  field_simp

theorem cmp_units {e : Decimal} {scale : Nat} (hd : d.scale ≤ scale) (he : e.scale ≤ scale) :
    cmp (d.units scale) (e.units scale) = cmp d.toRat e.toRat := by
  have hpos : (0 : ℚ) < 10 ^ scale := by positivity
  rw [← (Int.cast_strictMono (R := ℚ)).cmp_map_eq, units_cast hd, units_cast he, cmp_mul_pos_right hpos]

/-- Decimals are compared as rationals just when both can be read at the common scale. -/
theorem compare_eq_cmp_iff {e : Decimal} (hd : Digits d.digits) (he : Digits e.digits)
    (hdfits : fitsI128 (d.units (max d.scale e.scale)))
    (hefits : fitsI128 (e.units (max d.scale e.scale))) :
    d.compare e = some (cmp d.toRat e.toRat) ↔
      d.Readable (max d.scale e.scale) ∧ e.Readable (max d.scale e.scale) := by
  have hdle := Nat.le_max_left d.scale e.scale
  have hele := Nat.le_max_right d.scale e.scale
  rw [← cmp_units hdle hele]
  show (d.mantissaAt _).bind (fun left => (e.mantissaAt _).bind fun right => some (cmp left right)) =
    _ ↔ _
  rw [mantissaAt_eq hd hdle hdfits, mantissaAt_eq he hele hefits]
  by_cases hdread : d.Readable (max d.scale e.scale)
  · by_cases heread : e.Readable (max d.scale e.scale)
    · rw [if_pos hdread, if_pos heread]
      exact iff_of_true rfl ⟨hdread, heread⟩
    · rw [if_neg heread, if_pos hdread]
      exact iff_of_false (by rintro ⟨⟩) fun h => heread h.2
  · rw [if_neg hdread]
    exact iff_of_false (by rintro ⟨⟩) fun h => hdread h.1

end Decimal

/-! ### Built decimals -/

/-- The decimals that the functions build. -/
inductive Built : Decimal → Prop where
  | parsed {input d} : parseDecimal input = some d → Built d
  | integer {value} : fitsI128 value → Built (.fromInteger value)
  | mantissa {mantissa scale} : fitsI128 mantissa → scale ≤ u32Max → Built (.fromMantissa mantissa scale)
  | aligned {minimum maximum step base value d} : Built minimum → Built maximum → Built step →
      Built base → Built value → alignRange minimum maximum step base value = .ok d → Built d
  | default {minimum maximum} : Built minimum → Built maximum → Built (rangeDefault minimum maximum)

theorem digits_expandDecimal {negative : Bool} {digits : Text} {scale : Int} {d : Decimal}
    (h : Digits digits) (hd : expandDecimal negative digits scale = some d) : Digits d.digits := by
  rw [expandDecimal] at hd
  split_ifs at hd <;> cases hd
  · decide
  · exact Decimal.digits_normalize (digits_append_zeros h _)
  · decide
  · exact Decimal.digits_normalize h

theorem digits_span (rest : Text) : Digits (rest.span isAsciiDigit).1 := by
  rw [List.span_eq_takeWhile_dropWhile]
  exact List.all_eq_true.1 List.all_takeWhile

theorem digits_readFraction (rest : Text) : Digits (readFraction rest).1 := by
  unfold readFraction
  split
  · exact digits_span _
  · exact fun c hc => absurd hc List.not_mem_nil

theorem digits_parseDecimal {input : Text} {d : Decimal} (h : parseDecimal input = some d) :
    Digits d.digits := by
  simp only [parseDecimal] at h
  split_ifs at h <;> try cases h
  · decide
  · decide
  · refine digits_expandDecimal (fun c hc => ?_) h
    obtain hc | hc := List.mem_append.1 hc
    · exact digits_span _ c hc
    · exact digits_readFraction _ c hc

theorem digits_alignRange {minimum maximum step base value d : Decimal} (hmin : Digits minimum.digits)
    (h : alignRange minimum maximum step base value = .ok d) : Digits d.digits := by
  rw [alignRange] at h
  split at h
  · cases h
  · cases h
    exact hmin
  · simp only [alignAt] at h
    iterate 5 obtain ⟨_, _, h⟩ := Except.of_bind_ok h
    split_ifs at h
    obtain ⟨_, _, h⟩ := Except.of_bind_ok h
    cases h
    exact Decimal.digits_fromMantissa _ _

theorem digits_rangeDefault {minimum maximum : Decimal} (hmin : Digits minimum.digits) :
    Digits (rangeDefault minimum maximum).digits := by
  rw [rangeDefault]
  split
  · exact hmin
  · exact hmin
  · cases hmid : midpoint minimum maximum with
    | none => exact hmin
    | some d =>
      simp only [midpoint, Option.bind_eq_bind, Option.bind_eq_some_iff] at hmid
      obtain ⟨_, _, _, _, _, _, _, _, _, _, _, _, hmid⟩ := hmid
      split_ifs at hmid
      cases hmid
      exact Decimal.digits_fromMantissa _ _

theorem Built.digits {d : Decimal} (h : Built d) : Digits d.digits := by
  induction h with
  | parsed h => exact digits_parseDecimal h
  | integer _ => exact digits_toDigits _
  | mantissa _ _ => exact Decimal.digits_fromMantissa _ _
  | aligned _ _ _ _ _ h hmin => exact digits_alignRange hmin h
  | default _ _ hmin => exact digits_rangeDefault hmin

/-- Decimals are exact and compared as rationals, but for a zero whose last digit was dropped and the
least mantissa. -/
theorem decimals_exact_iff (mantissa : Int) (scale : Nat) (d e : Decimal) :
    (fitsI128 mantissa →
      ((Decimal.fromMantissa mantissa scale).Canonical ∧
          (Decimal.fromMantissa mantissa scale).Denotes mantissa scale ↔
        (mantissa = 0 → scale = 0) ∧ mantissa ≠ i128Min)) ∧
    (Built d → Built e → fitsI128 (d.units (max d.scale e.scale)) →
      fitsI128 (e.units (max d.scale e.scale)) →
      (d.compare e = some (cmp d.toRat e.toRat) ↔
        d.Readable (max d.scale e.scale) ∧ e.Readable (max d.scale e.scale))) :=
  ⟨fun hfits => Decimal.exact_iff scale hfits,
    fun hd he hdfits hefits => Decimal.compare_eq_cmp_iff hd.digits he.digits hdfits hefits⟩

/-- A mantissa with zeros to drop, and two decimals of different signs and scales. -/
theorem decimals_exact_iff_signed :
    ((Decimal.fromMantissa (-1250) 3).Canonical ∧ (Decimal.fromMantissa (-1250) 3).Denotes (-1250) 3) ∧
      ∃ d, parseDecimal "-1.25".toList = some d ∧
        d.compare (.fromMantissa 5 1) = some (cmp d.toRat (Decimal.fromMantissa 5 1).toRat) := by
  have hd : parseDecimal "-1.25".toList = some ⟨true, "125".toList, 2⟩ := by decide +kernel
  obtain ⟨hexact, hcompare⟩ :=
    decimals_exact_iff (-1250) 3 ⟨true, "125".toList, 2⟩ (.fromMantissa 5 1)
  refine ⟨(hexact (by decide)).2 ⟨by decide, by decide⟩, _, hd, ?_⟩
  exact (hcompare (.parsed hd) (.mantissa (by decide) (by decide)) (by decide) (by decide)).2
    (by decide)

theorem not_canonical_zero_one :
    fitsI128 0 ∧ ¬(Decimal.fromMantissa 0 1).Canonical ∧
      (Decimal.fromMantissa 0 1).compare (.fromInteger 0) = none :=
  ⟨by decide, fun h => h.nonempty (by decide), by decide⟩

end TinyBrowser.Forms
