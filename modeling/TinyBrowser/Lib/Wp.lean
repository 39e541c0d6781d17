import Mathlib.Data.List.Basic
import Mathlib.Order.Defs.Unbundled

/-!
# Weakest preconditions for state monads

`wp m Q s` says that `m`, run from `s`, ends with a result and a state that satisfy `Q`. The simp
lemmas push `wp` through the primitives of a state monad; calls are replaced by their
specifications with `wp_mono`, and loops are cut at an invariant with `wp_forM`. `Stays R m` says
that every run of `m` moves the state along the preorder `R`; it follows the structure of `m`.

A `Trial` may fail, and what it has done to the state by then stays done.
`Stays R m` says that every run of `m` moves the state along the preorder `R`, whether it fails or not;
it follows the structure of `m`.
-/

namespace Lib

section
variable {σ α β : Type}

/-- The first step of a computation that succeeds. -/
theorem Except.of_bind_ok {ε : Type} {x : Except ε α} {k : α → Except ε β} {b : β}
    (h : x >>= k = .ok b) :
    ∃ a, x = .ok a ∧ k a = .ok b := by
  cases x with
  | error e => cases h
  | ok a => exact ⟨a, rfl, h⟩

def wp (m : StateM σ α) (Q : α → σ → Prop) (s : σ) : Prop := Q (m.run s).1 (m.run s).2

section
variable {Q : α → σ → Prop} {s : σ}

@[simp] theorem wp_pure (a : α) : wp (pure a) Q s = Q a s := rfl

@[simp] theorem wp_bind (m : StateM σ β) (f : β → StateM σ α) :
    wp (m >>= f) Q s = wp m (fun b => wp (f b) Q) s := rfl

@[simp] theorem wp_get {Q : σ → σ → Prop} : wp get Q s = Q s s := rfl

@[simp] theorem wp_ite (c : Prop) [Decidable c] (m m' : StateM σ α) :
    wp (if c then m else m') Q s = if c then wp m Q s else wp m' Q s := by
  split_ifs <;> rfl

theorem wp_of_run {m : StateM σ α} {a : α} {s' : σ} (h : m.run s = (a, s')) :
    wp m Q s = Q a s' := by
  rw [wp, h]

theorem wp_mono {Q' : α → σ → Prop} {m : StateM σ α} (h : wp m Q s)
    (hQ : ∀ a s', Q a s' → Q' a s') : wp m Q' s := hQ _ _ h

end

/-- A loop over a list keeps what its body keeps. -/
theorem wp_forM {I : σ → Prop} {f : β → StateM σ PUnit} {l : List β}
    (hf : ∀ b ∈ l, ∀ s, I s → wp (f b) (fun _ => I) s) {s : σ} (h : I s) :
    wp (l.forM f) (fun _ => I) s := by
  induction l generalizing s with
  | nil => exact h
  | cons b l ih =>
    obtain ⟨hb, hl⟩ := List.forall_mem_cons.1 hf
    show wp (f b) (fun _ => wp (l.forM f) fun _ => I) s
    exact wp_mono (hb s h) fun _ _ h' => ih hl h'

/-! ### Moves along a preorder -/

def Stays (R : σ → σ → Prop) (m : StateM σ α) : Prop := ∀ s, R s (m.run s).2

namespace Stays
variable {R : σ → σ → Prop}

theorem pure [Std.Refl R] (a : α) : Stays R (pure a : StateM σ α) := fun s => Std.Refl.refl s

theorem get [Std.Refl R] : Stays R (get : StateM σ σ) := fun s => Std.Refl.refl s

theorem bind [IsTrans σ R] {m : StateM σ β} {f : β → StateM σ α} (hm : Stays R m)
    (hf : ∀ b, Stays R (f b)) : Stays R (m >>= f) :=
  fun s => IsTrans.trans _ _ _ (hm s) (hf _ _)

theorem map {m : StateM σ β} {f : β → α} (hm : Stays R m) : Stays R (f <$> m) := hm

theorem ite {c : Prop} [Decidable c] {m m' : StateM σ α} (hm : Stays R m) (hm' : Stays R m') :
    Stays R (if c then m else m') := by
  split_ifs
  · exact hm
  · exact hm'

theorem forM [Std.Refl R] [IsTrans σ R] {f : β → StateM σ PUnit} (hf : ∀ b, Stays R (f b))
    (l : List β) : Stays R (l.forM f) := by
  intro s
  refine wp_forM (I := R s) (fun b _ s' hs => ?_) (Std.Refl.refl s)
  exact IsTrans.trans _ _ _ hs (hf b s')

theorem mono {R' : σ → σ → Prop} {m : StateM σ α} (hm : Stays R m)
    (h : ∀ s s', R s s' → R' s s') : Stays R' m := fun s => h _ _ (hm s)

theorem of_run {m : StateM σ α} (hm : Stays R m) {s s' : σ} {a : α} (h : m.run s = (a, s')) :
    R s s' := by
  have hs := hm s
  rwa [h] at hs

theorem wp {m : StateM σ α} (hm : Stays R m) (s : σ) : wp m (fun _ s' => R s s') s := hm s

end Stays

end

/-! ### Computations that may fail -/

/-- A computation that may fail, over a state that outlives the failure. -/
abbrev Trial (ε σ : Type) : Type → Type := ExceptT ε (StateM σ)

namespace Trial

variable {ε σ τ α β : Type}

def runOn (m : Trial ε σ α) (s : σ) : Except ε α × σ := m s

/-- Looks at the state, and may fail. -/
def look (f : σ → Except ε α) : Trial ε σ α := fun s => (f s, s)

def change (f : σ → σ) : Trial ε σ Unit := fun s => (.ok (), f s)

def make (f : σ → σ × α) : Trial ε σ α := fun s => (.ok (f s).2, (f s).1)

/-- A step that leaves the state as it is when it fails. -/
def attempt (f : σ → Except ε (σ × α)) : Trial ε σ α := fun s =>
  match f s with
  | .ok (s', a) => (.ok a, s')
  | .error e => (.error e, s)

/-- A computation on a part of the state, which may be missing. -/
def inside (get : σ → Option τ) (set : σ → τ → σ) (missing : ε) (m : Trial ε τ α) : Trial ε σ α :=
  fun s => match get s with
    | none => (.error missing, s)
    | some t => ((m t).1, set s (m t).2)

/-! ### Successful runs -/

section
variable {s s' : σ} {a a' : α}

theorem runOn_bind (m : Trial ε σ β) (f : β → Trial ε σ α) (s : σ) : (m >>= f).runOn s =
    match m.runOn s with
    | (.ok b, s₁) => (f b).runOn s₁
    | (.error e, s₁) => (.error e, s₁) := by
  show ExceptT.bindCont f (m s).1 (m s).2 = _
  rw [runOn]
  rcases m s with ⟨e | b, s₁⟩
  · rfl
  · rfl

end

/-! ### Moves along a preorder -/

/-- Every run of `m` moves the state along `R`, whether it fails or not. -/
def Stays (R : σ → σ → Prop) (m : Trial ε σ α) : Prop := ∀ s, R s (m.runOn s).2

namespace Stays
variable {R : σ → σ → Prop}

theorem pure [Std.Refl R] (a : α) : Stays R (pure a : Trial ε σ α) := fun s => Std.Refl.refl s

theorem throw [Std.Refl R] (e : ε) : Stays R (throw e : Trial ε σ α) := fun s => Std.Refl.refl s

theorem look [Std.Refl R] (f : σ → Except ε α) : Stays R (look f) := fun s => Std.Refl.refl s

theorem change {f : σ → σ} (h : ∀ s, R s (f s)) : Stays R (change f : Trial ε σ Unit) := h

theorem make {f : σ → σ × α} (h : ∀ s, R s (f s).1) : Stays R (make f : Trial ε σ α) := h

theorem attempt [Std.Refl R] {f : σ → Except ε (σ × α)} (h : ∀ s s' a, f s = .ok (s', a) → R s s') :
    Stays R (attempt f) := by
  intro s
  rw [runOn, Trial.attempt]
  rcases hf : f s with e | ⟨s', a⟩
  · exact Std.Refl.refl s
  · exact h s s' a hf

theorem bind [IsTrans σ R] {m : Trial ε σ β} {f : β → Trial ε σ α} (hm : Stays R m)
    (hf : ∀ b, Stays R (f b)) : Stays R (m >>= f) := by
  intro s
  have hs := hm s
  rw [runOn_bind]
  rcases hrun : m.runOn s with ⟨e | b, s₁⟩
  · rw [hrun] at hs
    exact hs
  · rw [hrun] at hs
    exact IsTrans.trans _ _ _ hs (hf b s₁)

theorem ite {c : Prop} [Decidable c] {m m' : Trial ε σ α} (hm : Stays R m) (hm' : Stays R m') :
    Stays R (if c then m else m') := by
  split_ifs
  · exact hm
  · exact hm'

theorem forM [Std.Refl R] [IsTrans σ R] {f : β → Trial ε σ PUnit} (hf : ∀ b, Stays R (f b))
    (l : List β) : Stays R (l.forM f) := by
  induction l with
  | nil => exact Stays.pure _
  | cons b l ih => exact Stays.bind (hf b) fun _ => ih

theorem inside [Std.Refl R] {R' : τ → τ → Prop} {get : σ → Option τ} {set : σ → τ → σ} {missing : ε}
    {m : Trial ε τ α} (hm : Stays R' m) (h : ∀ s t t', get s = some t → R' t t' → R s (set s t')) :
    Stays R (inside get set missing m) := by
  intro s
  rw [runOn, Trial.inside]
  rcases hget : get s with - | t
  · exact Std.Refl.refl s
  · exact h s t _ hget (hm t)

end Stays

/-! ### What a run gives -/

/-- From `s`, `m` succeeds with a result and a state that satisfy `ok`, or fails in a state that
satisfies `err`. -/
def Yields (m : Trial ε σ α) (ok : α → σ → Prop) (err : σ → Prop) (s : σ) : Prop :=
  match m.runOn s with
  | (.ok a, s') => ok a s'
  | (.error _, s') => err s'

section
variable {ok : α → σ → Prop} {err : σ → Prop} {s : σ}

theorem yields_pure {a : α} : (pure a : Trial ε σ α).Yields ok err s ↔ ok a s := Iff.rfl

theorem yields_throw {e : ε} : (throw e : Trial ε σ α).Yields ok err s ↔ err s := Iff.rfl

theorem yields_bind {m : Trial ε σ β} {f : β → Trial ε σ α} : (m >>= f).Yields ok err s ↔
    m.Yields (fun b s' => (f b).Yields ok err s') err s := by
  rw [Yields, Yields, runOn_bind]
  rcases m.runOn s with ⟨e | b, s'⟩
  · rfl
  · rfl

theorem yields_look {f : σ → Except ε α} : (look f).Yields ok err s ↔
    (∀ a, f s = .ok a → ok a s) ∧ (∀ e, f s = .error e → err s) := by
  rw [Yields, runOn, look]
  rcases f s with e | a
  · simp
  · simp

theorem Yields.mono {m : Trial ε σ α} {ok' : α → σ → Prop} {err' : σ → Prop} (h : m.Yields ok err s)
    (hok : ∀ a s', ok a s' → ok' a s') (herr : ∀ s', err s' → err' s') : m.Yields ok' err' s := by
  rw [Yields] at h ⊢
  rcases hrun : m.runOn s with ⟨e | a, s'⟩
  · rw [hrun] at h
    exact herr s' h
  · rw [hrun] at h
    exact hok a s' h

theorem Stays.yields {R : σ → σ → Prop} {m : Trial ε σ α} (h : Stays R m) (s : σ) :
    m.Yields (fun _ s' => R s s') (R s) s := by
  have hs := h s
  rw [Yields]
  rcases hrun : m.runOn s with ⟨e | a, s'⟩
  · rw [hrun] at hs
    exact hs
  · rw [hrun] at hs
    exact hs

theorem Yields.of_runOn {m : Trial ε σ α} (h : m.Yields ok err s) {r : Except ε α} {s' : σ}
    (hrun : m.runOn s = (r, s')) : (∀ a, r = .ok a → ok a s') ∧ (∀ e, r = .error e → err s') := by
  rw [Yields, hrun] at h
  cases r with
  | ok a => exact ⟨fun _ ha => Except.ok.inj ha ▸ h, nofun⟩
  | error e => exact ⟨nofun, fun _ _ => h⟩

end

/-! ### What every step keeps -/

/-- From a state that satisfies `P`, `m` ends in one that does, whether it fails or not. -/
def Keeps (P : σ → Prop) (m : Trial ε σ α) : Prop := ∀ s, P s → m.Yields (fun _ => P) P s

namespace Keeps
variable {P : σ → Prop}

theorem pure (a : α) : Keeps P (pure a : Trial ε σ α) := fun _ hs => hs

theorem look (f : σ → Except ε α) : Keeps P (look f) :=
  fun _ hs => yields_look.2 ⟨fun _ _ => hs, fun _ _ => hs⟩

theorem bind {m : Trial ε σ β} {f : β → Trial ε σ α} (hm : Keeps P m) (hf : ∀ b, Keeps P (f b)) :
    Keeps P (m >>= f) :=
  fun s hs => yields_bind.2 ((hm s hs).mono (fun b s' hs' => hf b s' hs') fun _ hs' => hs')

theorem ite {c : Prop} [Decidable c] {m m' : Trial ε σ α} (hm : Keeps P m) (hm' : Keeps P m') :
    Keeps P (if c then m else m') := by
  split_ifs
  · exact hm
  · exact hm'

end Keeps

end Trial

end Lib
