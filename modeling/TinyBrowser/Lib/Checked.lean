import Mathlib.Data.List.Basic

/-!
# Checked operations

Code that can stop in two ways: it returns without a value (`none`), or it panics. The operators of a
fixed-width type panic where the exact result does not fit, and so do accesses past the end of a
list; `checked_` operations and conversions return instead.
-/

namespace Lib.Checked

inductive Exit where
  | none
  | panic
deriving DecidableEq, Repr

/-- The question mark operator. -/
def orReturn {α : Type} : Option α → Except Exit α
  | some a => .ok a
  | .none => .error .none

/-- A call whose caller goes on where it returns without a value. -/
def attempt {α : Type} : Except Exit α → Except Exit (Option α)
  | .ok a => .ok (some a)
  | .error .none => .ok .none
  | .error .panic => .error .panic

@[simp] theorem attempt_orReturn {α : Type} (o : Option α) : attempt (orReturn o) = .ok o := by
  cases o <;> rfl

@[simp] theorem orReturn_some {α : Type} (a : α) : orReturn (some a) = .ok a := rfl

@[simp] theorem orReturn_none {α : Type} : orReturn (.none : Option α) = .error .none := rfl

@[simp] theorem ok_bind {α β : Type} (a : α) (f : α → Except Exit β) : (Except.ok a >>= f) = f a := by
  cases h : f a <;> exact h

@[simp] theorem error_bind {α β : Type} (e : Exit) (f : α → Except Exit β) :
    (Except.error e >>= f) = .error e := rfl

/-! ### Integers -/

/-- The least and the greatest integer of a type. -/
structure Width where
  min : Int
  max : Int

def i32 : Width := ⟨-2147483648, 2147483647⟩

def u32 : Width := ⟨0, 4294967295⟩

def i64 : Width := ⟨-9223372036854775808, 9223372036854775807⟩

def u64 : Width := ⟨0, 18446744073709551615⟩

namespace Width
variable {w : Width} {n : Int}

def Fits (w : Width) (n : Int) : Prop := w.min ≤ n ∧ n ≤ w.max

instance (w : Width) (n : Int) : Decidable (w.Fits n) :=
  inferInstanceAs (Decidable (_ ∧ _))

/-- An operator whose exact result is `n`. -/
def op (w : Width) (n : Int) : Except Exit Int := if w.Fits n then .ok n else .error .panic

/-- A `checked_` operator, or a conversion. -/
def checked (w : Width) (n : Int) : Except Exit Int := if w.Fits n then .ok n else .error .none

theorem op_eq (hmin : w.min ≤ n) (hmax : n ≤ w.max) : w.op n = .ok n := if_pos ⟨hmin, hmax⟩

theorem checked_eq (hmin : w.min ≤ n) (hmax : n ≤ w.max) : w.checked n = .ok n :=
  if_pos ⟨hmin, hmax⟩

end Width

section Widths
variable {n : Int}

theorem i32_op (hmin : -2147483648 ≤ n) (hmax : n ≤ 2147483647) : i32.op n = .ok n :=
  Width.op_eq hmin hmax

theorem i32_checked (hmin : -2147483648 ≤ n) (hmax : n ≤ 2147483647) : i32.checked n = .ok n :=
  Width.checked_eq hmin hmax

theorem u32_op (hmin : 0 ≤ n) (hmax : n ≤ 4294967295) : u32.op n = .ok n := Width.op_eq hmin hmax

theorem u32_checked (hmin : 0 ≤ n) (hmax : n ≤ 4294967295) : u32.checked n = .ok n :=
  Width.checked_eq hmin hmax

theorem i64_op (hmin : -9223372036854775808 ≤ n) (hmax : n ≤ 9223372036854775807) :
    i64.op n = .ok n := Width.op_eq hmin hmax

theorem i64_checked (hmin : -9223372036854775808 ≤ n) (hmax : n ≤ 9223372036854775807) :
    i64.checked n = .ok n := Width.checked_eq hmin hmax

theorem u64_op (hmin : 0 ≤ n) (hmax : n ≤ 18446744073709551615) : u64.op n = .ok n :=
  Width.op_eq hmin hmax

theorem u64_checked (hmin : 0 ≤ n) (hmax : n ≤ 18446744073709551615) : u64.checked n = .ok n :=
  Width.checked_eq hmin hmax

end Widths

/-! ### Lists -/

section Lists
variable {α : Type} {l : List α} {n : Nat}

def index (l : List α) (i : Nat) : Except Exit α :=
  match l[i]? with
  | some a => .ok a
  | .none => .error .panic

def sliceTo (l : List α) (n : Nat) : Except Exit (List α) :=
  if n ≤ l.length then .ok (l.take n) else .error .panic

def sliceFrom (l : List α) (n : Nat) : Except Exit (List α) :=
  if n ≤ l.length then .ok (l.drop n) else .error .panic

theorem index_eq (h : n < l.length) : index l n = .ok (l.get ⟨n, h⟩) := by
  rw [index, List.getElem?_eq_getElem h]
  rfl

theorem sliceTo_eq (h : n ≤ l.length) : sliceTo l n = .ok (l.take n) := if_pos h

theorem sliceFrom_eq (h : n ≤ l.length) : sliceFrom l n = .ok (l.drop n) := if_pos h

end Lists
end Lib.Checked
