import Mathlib.Data.List.Induction
import Mathlib.Tactic.Ring
import TinyBrowser.Lib.IpAddr

/-!
# Lines, fields and decimal integers

`Text.lines` cuts a text after every newline and drops the newline and one carriage return before
it; `Text.split` cuts a line at a separator. A text put together from lines that hold neither comes
apart into the same lines, and so do fields. Signed integers are written and read in base ten.

The number that a run of digits stands for, and what zeros at its ends do to it.
-/

namespace Lib
namespace Text

/-- The pieces of a text, each with the `c` that ends it. -/
def splitInclusive (c : Char) : Text → List Text
  | [] => []
  | x :: s =>
    if x = c then [x] :: splitInclusive c s
    else match splitInclusive c s with
      | [] => [[x]]
      | piece :: rest => (x :: piece) :: rest

/-- `strip_suffix` of one character. -/
def stripSuffix (c : Char) (s : Text) : Option Text :=
  if s.getLast? = some c then some s.dropLast else none

def lineOf (piece : Text) : Text :=
  match stripSuffix '\n' piece with
  | none => piece
  | some line => (stripSuffix '\r' line).getD line

/-- `str::lines`. -/
def lines (s : Text) : List Text := (splitInclusive '\n' s).map lineOf

example : lines "a\r\nb\n\n\rc\r".toList = ["a".toList, "b".toList, [], "\rc\r".toList] := by decide

theorem splitInclusive_append (c : Char) {line : Text} (s : Text) (h : c ∉ line) :
    splitInclusive c (line ++ c :: s) = (line ++ [c]) :: splitInclusive c s := by
  induction line with
  | nil => simp [splitInclusive]
  | cons x line ih =>
    rw [List.mem_cons, not_or] at h
    rw [List.cons_append, splitInclusive, if_neg (Ne.symm h.1), ih h.2]
    rfl

theorem lineOf_newline {line : Text} (h : line.getLast? ≠ some '\r') :
    lineOf (line ++ ['\n']) = line := by
  have hstrip : stripSuffix '\n' (line ++ ['\n']) = some line := by
    simp [stripSuffix]
  have hkeep : stripSuffix '\r' line = none := by
    rw [stripSuffix, if_neg h]
  rw [lineOf, hstrip]
  dsimp only
  rw [hkeep, Option.getD_none]

theorem lines_append {line : Text} (s : Text) (hn : '\n' ∉ line) (hr : '\r' ∉ line) :
    lines (line ++ '\n' :: s) = line :: lines s := by
  have hlast : line.getLast? ≠ some '\r' := fun h => hr (List.mem_of_getLast? h)
  rw [lines, splitInclusive_append _ _ hn, List.map_cons, lineOf_newline hlast]
  rfl

/-- A text of whole lines comes apart into them. -/
theorem lines_flatMap {α : Type} (f : α → Text) (xs : List α)
    (h : ∀ x ∈ xs, '\n' ∉ f x ∧ '\r' ∉ f x) :
    lines (xs.flatMap fun x => f x ++ ['\n']) = xs.map f := by
  induction xs with
  | nil => rfl
  | cons x xs ih =>
    have hx := h x List.mem_cons_self
    rw [List.flatMap_cons, List.append_assoc, List.singleton_append, lines_append _ hx.1 hx.2,
      ih fun y hy => h y (List.mem_cons_of_mem _ hy)]
    rfl

theorem split_of_not_mem {c : Char} {field : Text} (h : c ∉ field) : split c field = [field] := by
  induction field with
  | nil => rfl
  | cons x field ih =>
    rw [List.mem_cons, not_or] at h
    have hrest : splitBy (· = c) field = [field] := ih h.2
    rw [split, splitBy, if_neg (by simpa using Ne.symm h.1), hrest]

theorem split_append {c : Char} {field : Text} (s : Text) (h : c ∉ field) :
    split c (field ++ c :: s) = field :: split c s := by
  induction field with
  | nil => simp [split, splitBy]
  | cons x field ih =>
    rw [List.mem_cons, not_or] at h
    have hrest : splitBy (· = c) (field ++ c :: s) = field :: splitBy (· = c) s := ih h.2
    rw [split, List.cons_append, splitBy, if_neg (by simpa using Ne.symm h.1), hrest]
    rfl

/-- Decimal display of an integer. -/
def ofInt (n : Int) : Text :=
  if n < 0 then '-' :: Nat.toDigits 10 n.natAbs else Nat.toDigits 10 n.natAbs

/-- A run of decimal digits that is the whole text. -/
def readNat (s : Text) : Option Nat :=
  let (value, count, rest) := IpAddr.readDigits 10 0 0 s
  if count = 0 ∨ rest ≠ [] then none else some value

/-- `str::parse::<i64>`. -/
def parseI64 (s : Text) : Option Int :=
  let signed := match s with
    | '-' :: digits => (readNat digits).map fun n : Nat => -(n : Int)
    | '+' :: digits => (readNat digits).map fun n : Nat => (n : Int)
    | digits => (readNat digits).map fun n : Nat => (n : Int)
  signed.filter fun n => -2 ^ 63 ≤ n ∧ n < 2 ^ 63

example : parseI64 "-42".toList = some (-42) := by decide

theorem readNat_toDigits (n : Nat) : readNat (Nat.toDigits 10 n) = some n := by
  have h := IpAddr.readDigits_toDigits (by decide) IpAddr.toDigit_digitChar_ten n 0 0 []
  have hpos : 0 < (Nat.toDigits 10 n).length := Nat.length_toDigits_pos
  rw [List.append_nil] at h
  simp only [readNat, h, IpAddr.readDigits]
  rw [if_neg (by simp), Nat.zero_mul, Nat.zero_add]

theorem not_mem_toDigits {c : Char} (h : ∀ d < 10, c ≠ Nat.digitChar d) (n : Nat) :
    c ∉ Nat.toDigits 10 n := by
  have hdigits := IpAddr.forall_mem_toDigits (P := (c ≠ ·)) (by decide) h n
  exact fun hmem => hdigits c hmem rfl

theorem not_mem_ofInt {c : Char} (hsign : c ≠ '-') (h : ∀ d < 10, c ≠ Nat.digitChar d) (n : Int) :
    c ∉ ofInt n := by
  unfold ofInt
  split_ifs
  · rw [List.mem_cons, not_or]
    exact ⟨hsign, not_mem_toDigits h _⟩
  · exact not_mem_toDigits h _

theorem ofInt_ne_nil (n : Int) : ofInt n ≠ [] := by
  unfold ofInt
  split_ifs
  · exact List.cons_ne_nil _ _
  · exact Nat.toDigits_ne_nil

/-- Integers in the range of an `i64` are read back. -/
theorem parseI64_ofInt {n : Int} (hlow : -2 ^ 63 ≤ n) (hhigh : n < 2 ^ 63) :
    parseI64 (ofInt n) = some n := by
  have hrange : (-2 ^ 63 ≤ n ∧ n < 2 ^ 63) := ⟨hlow, hhigh⟩
  unfold parseI64 ofInt
  by_cases hneg : n < 0
  · rw [if_pos hneg]
    show Option.filter _ ((readNat (Nat.toDigits 10 n.natAbs)).map fun n : Nat => -(n : Int)) = _
    rw [readNat_toDigits]
    have habs : -(n.natAbs : Int) = n := by omega
    simp only [Option.map_some, habs, Option.filter_some, decide_eq_true hrange, if_true]
  · rw [if_neg hneg]
    have habs : (n.natAbs : Int) = n := by omega
    have hread := readNat_toDigits n.natAbs
    split
    · rename_i digits heq
      have := not_mem_toDigits (c := '-') (by decide) n.natAbs
      rw [heq] at this
      simp at this
    · rename_i digits heq
      have := not_mem_toDigits (c := '+') (by decide) n.natAbs
      rw [heq] at this
      simp at this
    · rw [hread]
      simp only [Option.map_some, habs, Option.filter_some, decide_eq_true hrange, if_true]

/-! ### Decimal digits -/

variable {s t : Text} {c : Char}

/-- The digits are the whole text. -/
def Digits (s : Text) : Prop := ∀ c ∈ s, isAsciiDigit c = true

instance (s : Text) : Decidable (Digits s) :=
  List.decidableBAll _ s

def digitsValue (s : Text) : Nat := s.foldl (fun value c => value * 10 + (c.toNat - 48)) 0

theorem toDigit_of_isAsciiDigit (h : isAsciiDigit c = true) :
    IpAddr.toDigit 10 c = some (c.toNat - 48) := by
  rw [isAsciiDigit, Bool.and_eq_true, decide_eq_true_eq, decide_eq_true_eq] at h
  have hlower : 48 ≤ c.toNat := h.1
  have hupper : c.toNat ≤ 57 := h.2
  rw [IpAddr.toDigit]
  simp only [hlower, hupper, and_self, if_true, Option.filter_some]
  rw [if_pos (by simp; omega)]

theorem readDigits_of_digits (h : Digits s) (value count : Nat) :
    IpAddr.readDigits 10 value count s =
      (s.foldl (fun value c => value * 10 + (c.toNat - 48)) value, count + s.length, []) := by
  induction s generalizing value count with
  | nil => rfl
  | cons c s ih =>
    rw [IpAddr.readDigits, toDigit_of_isAsciiDigit (h c List.mem_cons_self)]
    simp only
    rw [ih (fun d hd => h d (List.mem_cons_of_mem _ hd)), List.foldl_cons, List.length_cons]
    congr 2
    omega

theorem readNat_of_digits (h : Digits s) (hne : s ≠ []) : readNat s = some (digitsValue s) := by
  have hlen : s.length ≠ 0 := by simpa using hne
  rw [readNat, readDigits_of_digits h]
  simp only
  rw [if_neg (by simp; omega), digitsValue]

theorem foldl_digits (s : Text) (value : Nat) :
    s.foldl (fun value c => value * 10 + (c.toNat - 48)) value =
      value * 10 ^ s.length + digitsValue s := by
  induction s generalizing value with
  | nil => simp [digitsValue]
  | cons c s ih =>
    have hcons : digitsValue (c :: s) = (0 * 10 + (c.toNat - 48)) * 10 ^ s.length + digitsValue s :=
      ih _
    rw [List.foldl_cons, ih, hcons, List.length_cons, pow_succ]
    ring

theorem digitsValue_append (s t : Text) :
    digitsValue (s ++ t) = digitsValue s * 10 ^ t.length + digitsValue t := by
  rw [digitsValue, List.foldl_append, foldl_digits]
  rfl

theorem digitsValue_lt (h : Digits s) : digitsValue s < 10 ^ s.length := by
  induction s using List.reverseRecOn with
  | nil => exact Nat.one_pos
  | append_singleton s c ih =>
    have hc := isAsciiDigit_iff.1 (h c (List.mem_append_right _ (List.mem_singleton_self c)))
    have hs := ih fun d hd => h d (List.mem_append_left _ hd)
    have hone : digitsValue [c] = c.toNat - 48 := by simp [digitsValue]
    rw [digitsValue_append, hone, List.length_append, List.length_singleton, Nat.pow_succ]
    omega

theorem digitsValue_zeros (n : Nat) : digitsValue (List.replicate n '0') = 0 := by
  induction n with
  | zero => rfl
  | succ n ih => rw [List.replicate_succ', digitsValue_append, ih]; rfl

theorem digitsValue_append_zeros (s : Text) (n : Nat) :
    digitsValue (s ++ List.replicate n '0') = digitsValue s * 10 ^ n := by
  rw [digitsValue_append, digitsValue_zeros, List.length_replicate, Nat.add_zero]

theorem digits_append_zeros (h : Digits s) (n : Nat) : Digits (s ++ List.replicate n '0') := by
  intro c hc
  obtain hc | hc := List.mem_append.1 hc
  · exact h c hc
  · rw [List.eq_of_mem_replicate hc]
    decide

theorem digits_toDigits (n : Nat) : Digits (Nat.toDigits 10 n) :=
  IpAddr.forall_mem_toDigits (by decide) (by decide) n

theorem digitsValue_toDigits (n : Nat) : digitsValue (Nat.toDigits 10 n) = n := by
  have hread := readNat_toDigits n
  rw [readNat_of_digits (digits_toDigits n) Nat.toDigits_ne_nil] at hread
  exact Option.some.inj hread

/-- Only zeros have the value zero. -/
theorem digitsValue_pos (h : Digits s) (hc : c ∈ s) (hne : c ≠ '0') : 0 < digitsValue s := by
  obtain ⟨before, after, rfl⟩ := List.append_of_mem hc
  have hdigit := h c hc
  rw [isAsciiDigit, Bool.and_eq_true, decide_eq_true_eq, decide_eq_true_eq] at hdigit
  have hlower : 48 ≤ c.toNat := hdigit.1
  have hvalue : 48 ≠ c.toNat := fun heq => hne (Char.toNat_inj.1 heq.symm)
  rw [digitsValue, List.foldl_append, List.foldl_cons, foldl_digits]
  have hpow : 0 < 10 ^ after.length := Nat.pow_pos (by omega)
  have hprod := Nat.mul_pos (show 0 < digitsValue before * 10 + (c.toNat - 48) by omega) hpow
  exact Nat.add_pos_left hprod _

end Text

end Lib
