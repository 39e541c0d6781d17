import Mathlib.Data.List.Induction

/-!
# Step machines

A machine is a partial step function `step : σ → ι → Option σ`; `none` says that the step cannot be
taken in that state. `run` takes the steps of a list one after another, and `Along C s l` says that
each step of that run meets the condition `C` in the state before it. What one step keeps, a whole
run keeps (`inv_run`). `Throughout P s l` says that every state the run passes through satisfies
`P`, and `Passed P s l` that one of them does; `throughout_iff_along` is the rule for conditions on
steps that are exact for the first.
-/

namespace Lib.Machine

variable {σ ι : Type} (step : σ → ι → Option σ)

def run : σ → List ι → Option σ
  | s, [] => some s
  | s, i :: l => (step s i).bind fun s' => run s' l

/-- Every step of the run meets `C`. -/
def Along (C : σ → ι → Prop) : σ → List ι → Prop
  | _, [] => True
  | s, i :: l => C s i ∧ ∀ s' ∈ step s i, Along C s' l

instance decidableAlong (C : σ → ι → Prop) [∀ s i, Decidable (C s i)] (s : σ) (l : List ι) :
    Decidable (Along step C s l) :=
  match l with
  | [] => inferInstanceAs (Decidable True)
  | i :: l =>
    have : ∀ s', Decidable (Along step C s' l) := fun s' => decidableAlong C s' l
    inferInstanceAs (Decidable (C s i ∧ ∀ s' ∈ step s i, Along step C s' l))

variable {step} {C : σ → ι → Prop} {I : σ → Prop} {s s' : σ} {l : List ι}

theorem run_cons {i : ι} (h : run step s (i :: l) = some s') :
    ∃ s₁, step s i = some s₁ ∧ run step s₁ l = some s' := Option.bind_eq_some_iff.1 h

theorem run_append {s'' : σ} {l' : List ι} (h : run step s l = some s')
    (h' : run step s' l' = some s'') : run step s (l ++ l') = some s'' := by
  induction l generalizing s with
  | nil => exact Option.some.inj h ▸ h'
  | cons i l ih =>
    obtain ⟨s₁, hstep, hrun⟩ := run_cons h
    rw [List.cons_append, run, hstep]
    exact ih hrun

theorem along_of_forall (h : ∀ s i, C s i) : Along step C s l := by
  induction l generalizing s with
  | nil => trivial
  | cons i l ih => exact ⟨h s i, fun _ _ => ih⟩

theorem inv_run_along (hstep : ∀ s i s', I s → C s i → step s i = some s' → I s') (hs : I s)
    (hc : Along step C s l) (h : run step s l = some s') : I s' := by
  induction l generalizing s with
  | nil => exact Option.some.inj h ▸ hs
  | cons i l ih =>
    obtain ⟨s₁, h₁, h⟩ := run_cons h
    exact ih (hstep s i s₁ hs hc.1 h₁) (hc.2 s₁ h₁) h

theorem inv_run (hstep : ∀ s i s', I s → step s i = some s' → I s') (hs : I s)
    (h : run step s l = some s') : I s' :=
  inv_run_along (C := fun _ _ => True) (fun s i s' hi _ => hstep s i s' hi) hs
    (along_of_forall fun _ _ => trivial) h

theorem run_concat {i : ι} (h : run step s (l ++ [i]) = some s') :
    ∃ s₁, run step s l = some s₁ ∧ step s₁ i = some s' := by
  induction l generalizing s with
  | nil =>
    obtain ⟨s₁, hstep, hrun⟩ := run_cons h
    exact ⟨s, rfl, hstep.trans hrun⟩
  | cons j l ih =>
    obtain ⟨s₁, hstep, hrun⟩ := run_cons h
    obtain ⟨s₂, hl, hi⟩ := ih hrun
    exact ⟨s₂, by rw [run, hstep]; exact hl, hi⟩

theorem inv_run_past {J : List ι → σ → Prop}
    (hstep : ∀ l s₁ i s₂, run step s l = some s₁ → J l s₁ → step s₁ i = some s₂ → J (l ++ [i]) s₂)
    (hs : J [] s) (h : run step s l = some s') : J l s' := by
  induction l using List.reverseRecOn generalizing s' with
  | nil => exact Option.some.inj h ▸ hs
  | append_singleton l i ih =>
    obtain ⟨s₁, hl, hi⟩ := run_concat h
    exact hstep l s₁ i s' hl (ih hl) hi

variable (step) in
/-- Some state that the run passes through satisfies `P`. -/
def Passed (P : σ → Prop) (s : σ) (l : List ι) : Prop :=
  ∃ pre post s', l = pre ++ post ∧ run step s pre = some s' ∧ P s'

variable {P : σ → Prop}

theorem passed_of_run (h : run step s l = some s') (hp : P s') :
    Passed step P s l := ⟨l, [], s', (List.append_nil l).symm, h, hp⟩

theorem Passed.append (h : Passed step P s l) (l' : List ι) :
    Passed step P s (l ++ l') := by
  obtain ⟨pre, post, s', rfl, hrun, hp⟩ := h
  exact ⟨pre, post ++ l', s', List.append_assoc .., hrun, hp⟩

theorem Passed.imp {P Q : σ → Prop} (h : Passed step P s l) (himp : ∀ s', P s' → Q s') :
    Passed step Q s l := by
  obtain ⟨pre, post, s', hl, hrun, hp⟩ := h
  exact ⟨pre, post, s', hl, hrun, himp s' hp⟩

theorem along_append_left {l' : List ι} (h : Along step C s (l ++ l')) : Along step C s l := by
  induction l generalizing s with
  | nil => trivial
  | cons i l ih => exact ⟨h.1, fun s' hs' => ih (h.2 s' hs')⟩

theorem along_append_right {l' : List ι} (h : Along step C s (l ++ l'))
    (hrun : run step s l = some s') : Along step C s' l' := by
  induction l generalizing s with
  | nil => exact Option.some.inj hrun ▸ h
  | cons i l ih =>
    obtain ⟨s₁, h₁, hrun⟩ := run_cons hrun
    exact ih (h.2 s₁ h₁) hrun

variable (step) in
/-- Every state that the run passes through satisfies `P`. -/
def Throughout (P : σ → Prop) (s : σ) (l : List ι) : Prop :=
  ∀ pre post s', l = pre ++ post → run step s pre = some s' → P s'

theorem Throughout.tail {i : ι} {s₁ : σ} (h : Throughout step P s (i :: l))
    (hstep : step s i = some s₁) : Throughout step P s₁ l := by
  intro pre post s' hl hrun
  apply h (i :: pre) post s' (by rw [hl]; rfl)
  rw [run, hstep]
  exact hrun

theorem Throughout.next {i : ι} {s₁ : σ} (h : Throughout step P s (i :: l))
    (hstep : step s i = some s₁) : P s₁ :=
  h [i] l s₁ rfl (by rw [run, hstep]; rfl)

theorem throughout_of_along (hP : ∀ s, I s → P s)
    (hstep : ∀ s i s', I s → C s i → step s i = some s' → I s') (hs : I s)
    (h : Along step C s l) : Throughout step P s l := by
  rintro pre post s' rfl hrun
  exact hP s' (inv_run_along hstep hs (along_append_left h) hrun)

theorem Along.imp_of_inv {C' : σ → ι → Prop} (hC : ∀ s i, I s → C s i → C' s i)
    (hstep : ∀ s i s', I s → C s i → step s i = some s' → I s') (hs : I s)
    (h : Along step C s l) : Along step C' s l := by
  induction l generalizing s with
  | nil => trivial
  | cons i l ih =>
    exact ⟨hC s i hs h.1, fun s' hs' => ih (hstep s i s' hs h.1 hs') (h.2 s' hs')⟩

/-- Two conditions that agree on the steps that can be taken hold along the same runs. -/
theorem along_iff_of_run {C' : σ → ι → Prop}
    (hC : ∀ s i s', I s → step s i = some s' → (C s i ↔ C' s i))
    (hstep : ∀ s i s', I s → C s i → step s i = some s' → I s') (hs : I s)
    (hrun : run step s l = some s') : Along step C s l ↔ Along step C' s l := by
  induction l generalizing s with
  | nil => exact Iff.rfl
  | cons i l ih =>
    obtain ⟨s₁, h₁, hrun⟩ := run_cons hrun
    have htail : C s i → ((∀ s' ∈ step s i, Along step C s' l) ↔
        ∀ s' ∈ step s i, Along step C' s' l) := fun hc => by
      rw [h₁]
      simp only [Option.mem_def, Option.some.injEq, forall_eq']
      exact ih (hstep s i s₁ hs hc h₁) hrun
    constructor
    · exact fun h => ⟨(hC s i s₁ hs h₁).1 h.1, (htail h.1).1 h.2⟩
    · intro h
      have hc := (hC s i s₁ hs h₁).2 h.1
      exact ⟨hc, (htail hc).2 h.2⟩

/-- The rule for an exact condition: steps that meet it keep the invariant, and where a step keeps
`P` it met the condition. -/
theorem throughout_iff_along (hP : ∀ s, I s → P s)
    (hstep : ∀ s i s', I s → C s i → step s i = some s' → I s')
    (hexact : ∀ s i, I s → (∀ s', step s i = some s' → P s') → C s i) (hs : I s) :
    Throughout step P s l ↔ Along step C s l := by
  constructor
  · intro h
    induction l generalizing s with
    | nil => trivial
    | cons i l ih =>
      have hc : C s i := hexact s i hs fun _ hs' => h.next hs'
      exact ⟨hc, fun s' hs' => ih (hstep s i s' hs hc hs') (h.tail hs')⟩
  · exact throughout_of_along hP hstep hs

/-- The same rule for a run that goes through. -/
theorem throughout_iff_along_of_run (hP : ∀ s, I s → P s)
    (hstep : ∀ s i s', I s → C s i → step s i = some s' → I s')
    (hexact : ∀ s i s', I s → step s i = some s' → P s' → C s i) (hs : I s)
    (hrun : run step s l = some s') : Throughout step P s l ↔ Along step C s l := by
  constructor
  · intro h
    induction l generalizing s with
    | nil => trivial
    | cons i l ih =>
      obtain ⟨s₁, h₁, hrun⟩ := run_cons hrun
      have hc : C s i := hexact s i s₁ hs h₁ (h.next h₁)
      refine ⟨hc, fun s₂ hs₂ => ?_⟩
      rw [Option.mem_def, h₁, Option.some.injEq] at hs₂
      subst hs₂
      exact ih (hstep s i s₁ hs hc h₁) hrun (h.tail h₁)
  · exact throughout_of_along hP hstep hs

end Lib.Machine
