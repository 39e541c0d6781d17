import Mathlib.Data.List.Basic

/-!
# Loops that emit

Each turn of the loop emits a list of items, and either goes on from a next state or ends with a
result. An invariant may speak of everything emitted so far: what every turn keeps, holds at every
turn of a run (`of_emitted`) and at its end (`of_run`).
-/

namespace Lib.EmitLoop

variable {σ ρ β : Type}

inductive Flow (σ β : Type) where
  | next (s : σ)
  | done (result : β)

/-- At most `fuel` turns after the first; `stuck` is the result when they run out. -/
def run (turn : σ → List ρ × Flow σ β) (stuck : β) : Nat → σ → β × List ρ
  | fuel, s => match turn s with
    | (out, .done result) => (result, out)
    | (out, .next s) => match fuel with
      | 0 => (stuck, out)
      | fuel + 1 =>
        let (result, rest) := run turn stuck fuel s
        (result, out ++ rest)

variable {turn : σ → List ρ × Flow σ β} {stuck result : β} {s s' : σ} {out past : List ρ}

theorem run_done (fuel : Nat) (h : turn s = (out, .done result)) :
    run turn stuck fuel s = (result, out) := by
  cases fuel <;> rw [run, h]

theorem run_zero (h : turn s = (out, .next s')) : run turn stuck 0 s = (stuck, out) := by
  rw [run, h]

theorem run_succ (fuel : Nat) (h : turn s = (out, .next s')) :
    run turn stuck (fuel + 1) s =
      ((run turn stuck fuel s').1, out ++ (run turn stuck fuel s').2) := by
  rw [run, h]

section Invariant
variable {I : List ρ → σ → Prop}
  (hnext : ∀ past s out s', I past s → turn s = (out, .next s') → I (past ++ out) s')

include hnext

/-- Every item is emitted by a turn that meets the invariant. -/
theorem of_emitted {P : List ρ → ρ → Prop}
    (hemit : ∀ past s before item after, I past s → (turn s).1 = before ++ item :: after →
      P (past ++ before) item)
    (fuel : Nat) (hI : I past s) {before after : List ρ} {item : ρ}
    (h : (run turn stuck fuel s).2 = before ++ item :: after) : P (past ++ before) item := by
  induction fuel generalizing s past before with
  | zero =>
    refine hemit past s before item after hI ?_
    rcases hturn : turn s with ⟨out, s' | result⟩
    · rwa [run_zero hturn] at h
    · rwa [run_done 0 hturn] at h
  | succ fuel ih =>
    rcases hturn : turn s with ⟨out, s' | result⟩
    · rw [run_succ fuel hturn] at h
      rcases List.append_eq_append_iff.1 h with ⟨mid, hbefore, hrest⟩ | ⟨mid, hout, hitem⟩
      · -- emitted after the first turn
        rw [hbefore, ← List.append_assoc]
        exact ih (hnext past s out s' hI hturn) hrest
      · cases mid with
        | nil =>
          rw [List.append_nil] at hout
          have hfirst : P (past ++ out ++ []) item :=
            ih (hnext past s out s' hI hturn) hitem.symm
          rwa [List.append_nil, hout] at hfirst
        | cons first mid =>
          obtain ⟨rfl, -⟩ := List.cons.inj hitem
          exact hemit past s before item mid hI (by rw [hturn]; exact hout)
    · rw [run_done (fuel + 1) hturn] at h
      exact hemit past s before item after hI (by rw [hturn]; exact h)

theorem of_run {R : List ρ → β → Prop}
    (hdone : ∀ past s out result, I past s → turn s = (out, .done result) → R (past ++ out) result)
    (fuel : Nat) (hI : I past s) (h : run turn stuck fuel s = (result, out))
    (hstuck : result ≠ stuck) : R (past ++ out) result := by
  induction fuel generalizing s past out with
  | zero =>
    rcases hturn : turn s with ⟨first, s' | last⟩
    · rw [run_zero hturn] at h
      exact absurd (Prod.mk.inj h).1.symm hstuck
    · rw [run_done 0 hturn] at h
      obtain ⟨rfl, rfl⟩ := Prod.mk.inj h
      exact hdone past s _ _ hI hturn
  | succ fuel ih =>
    rcases hturn : turn s with ⟨first, s' | last⟩
    · rw [run_succ fuel hturn] at h
      obtain ⟨hresult, rfl⟩ := Prod.mk.inj h
      rw [← List.append_assoc]
      exact ih (hnext past s first s' hI hturn) (Prod.ext hresult rfl)
    · rw [run_done (fuel + 1) hturn] at h
      obtain ⟨rfl, rfl⟩ := Prod.mk.inj h
      exact hdone past s _ _ hI hturn

end Invariant

/-- Turns that go on lead from the first state to the second, and emit the list in between. -/
inductive Reached (turn : σ → List ρ × Flow σ β) (s : σ) : List ρ → σ → Prop where
  | start : Reached turn s [] s
  | next {out : List ρ} {s₁ : σ} {more : List ρ} {s₂ : σ} (h : Reached turn s out s₁)
      (hturn : turn s₁ = (more, .next s₂)) : Reached turn s (out ++ more) s₂

theorem of_reached {I : List ρ → σ → Prop}
    (hnext : ∀ past s out s', I past s → turn s = (out, .next s') → I (past ++ out) s')
    (h : Reached turn s out s') (hI : I [] s) : I out s' := by
  induction h with
  | start => exact hI
  | next _ hturn ih => exact hnext _ _ _ _ ih hturn

end Lib.EmitLoop
