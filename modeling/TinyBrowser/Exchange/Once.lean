import TinyBrowser.Exchange.Places

/-!
# Blocking calls are settled once

A call is entered before its send and the flag is set before the drain, so after the drain every
entry is of a call whose send fails, and which takes its entry back itself. What remains open is a
`deliver` that has taken an entry out; and an id that comes round again while its first call waits.
-/

namespace TinyBrowser.Exchange
open Lib

/-! ### The flag, and callbacks that are dropped -/

section
variable {R : Type} {s s' : BlockingState R}

theorem BlockingState.finish_rest (s : BlockingState R) (token : Token) (kind : BlockingKind)
    (result : Except Error R) :
    (s.finish token kind result).calls = (s.setPhase token .returned).calls ∧
      (s.finish token kind result).closing = s.closing ∧
      (s.finish token kind result).closed = s.closed := by
  unfold BlockingState.finish
  cases kind <;> exact ⟨rfl, rfl, rfl⟩

theorem BlockingState.Acted.flags {token : Token} {c : BlockingCall R} (h : s.Acted token c s') :
    s'.closing = s.closing ∧ s'.closed = s.closed := by
  have hdrop : ∀ w, (s.dropEntry w).closing = s.closing ∧ (s.dropEntry w).closed = s.closed := by
    intro w
    cases w <;> exact ⟨rfl, rfl⟩
  cases h with
  | moved => exact ⟨rfl, rfl⟩
  | entered id hphase => exact hdrop (s.pending.get? id)
  | took id hphase =>
    unfold BlockingState.takeBack
    cases s.pending.get? id <;> exact ⟨rfl, rfl⟩
  | failed waiting hphase =>
    obtain ⟨-, hclosing, hclosed⟩ := BlockingState.finish_rest (s.release waiting) token c.kind
      (.error .closed)
    have hrelease : (s.release waiting).closing = s.closing ∧
        (s.release waiting).closed = s.closed := by
      match waiting with
      | none => exact ⟨rfl, rfl⟩
      | some ⟨.wait, t⟩ => exact ⟨rfl, rfl⟩
      | some ⟨.callback, t⟩ => exact ⟨rfl, rfl⟩
    exact ⟨hclosing.trans hrelease.1, hclosed.trans hrelease.2⟩
  | received id result hphase hplace =>
    obtain ⟨-, hclosing, hclosed⟩ := BlockingState.finish_rest s token c.kind result
    exact ⟨hclosing, hclosed⟩

/-- The invariant, with what `close` has done so far. -/
structure BlockingRunInv (s : BlockingState R) : Prop extends BlockingInv s where
  closing : s.closing ≠ 0 → s.closed = true

theorem BlockingRunInv.step (h : BlockingRunInv s) {i : BlockingStep R}
    (hstep : s.step i = some s') : BlockingRunInv s' := by
  refine ⟨h.toBlockingInv.step h.closing hstep, ?_⟩
  cases i with
  | start token kind =>
    simp only [BlockingState.step] at hstep
    split_ifs at hstep
    exact Option.some.inj hstep ▸ h.closing
  | client token action =>
    obtain ⟨c, -, hact⟩ := Option.bind_eq_some_iff.1 hstep
    obtain ⟨hclosing, hclosed⟩ := (BlockingState.acted_of_act s hact).flags
    rw [hclosing, hclosed]
    exact h.closing
  | deliver id body =>
    rw [← Option.some.inj hstep]
    unfold BlockingState.deliver
    cases s.pending.get? id <;> exact h.closing
  | settle i =>
    obtain ⟨⟨w, body⟩, hi, rfl⟩ := Option.map_eq_some_iff.1 hstep
    obtain ⟨kind, token⟩ := w
    cases kind <;> exact h.closing
  | disconnect => exact Option.some.inj hstep ▸ fun _ => rfl
  | drain =>
    simp only [BlockingState.step] at hstep
    split_ifs at hstep with hzero
    rw [← Option.some.inj hstep]
    exact fun _ => (BlockingInv.drain_rest s).1.trans (h.closing hzero)

/-- No callback is dropped. -/
def NoDrop (s : BlockingState R) : Prop :=
  ∀ t c, s.calls.get? t = some c → c.kind = .callback → c.place ≠ .dropped

/-- No call is entered under an id that another call still waits for. -/
def FreshId (s : BlockingState R) : BlockingStep R → Prop
  | .client token .insert => ∀ c ∈ s.calls.get? token, ∀ id ∈ c.phase.mintedId,
      s.pending.get? id = none
  | _ => True

instance (s : BlockingState R) (i : BlockingStep R) : Decidable (FreshId s i) :=
  match i with
  | .client token .insert => inferInstanceAs (Decidable (∀ c ∈ s.calls.get? token,
      ∀ id ∈ c.phase.mintedId, s.pending.get? id = none))
  | .client _ .nextId | .client _ .send | .client _ (.sent _) | .client _ .remove | .client _ .fail
  | .client _ .receive | .start .. | .deliver .. | .settle _ | .disconnect | .drain =>
    inferInstanceAs (Decidable True)

namespace NoDrop

theorem congr (h : NoDrop s) (hc : s'.calls = s.calls) : NoDrop s' := by
  unfold NoDrop
  rw [hc]
  exact h

theorem setPhase (h : NoDrop s) (token : Token) (phase : BlockingPhase) :
    NoDrop (s.setPhase token phase) := by
  intro t c hc hkind
  rw [BlockingState.setPhase, Dict.get?_modify] at hc
  split_ifs at hc
  · obtain ⟨c', hc', rfl⟩ := Option.map_eq_some_iff.1 hc
    exact h t c' hc' hkind
  · exact h t c hc hkind

theorem setPlace (h : NoDrop s) (token : Token) (place : Place R)
    (hplace : ∀ c, s.calls.get? token = some c → c.kind = .callback → place ≠ .dropped) :
    NoDrop (s.setPlace token place) := by
  intro t c hc hkind
  rw [BlockingState.setPlace, Dict.get?_modify] at hc
  split_ifs at hc with ht
  · subst ht
    obtain ⟨c', hc', rfl⟩ := Option.map_eq_some_iff.1 hc
    exact hplace c' hc' hkind
  · exact h t c hc hkind

theorem settle (h : NoDrop s) (w : BlockingPending) (result : Except Error R) :
    NoDrop (s.settle w result) :=
  (h.setPlace w.token _ (by simp)).congr (BlockingInv.settle_rest s w result).1

theorem acted (h : NoDrop s) (hinv : BlockingInv s) {token : Token} {c : BlockingCall R}
    (hc : s.calls.get? token = some c) (hacted : s.Acted token c s')
    (hfresh : ∀ id ∈ c.phase.mintedId, s.pending.get? id = none) : NoDrop s' := by
  cases hacted with
  | moved phase next =>
    have h' : NoDrop { s with next } := h
    exact h'.setPhase token phase
  | entered id hphase =>
    have hfree : s.pending.get? id = none := hfresh id (by rw [hphase]; rfl)
    unfold BlockingState.enter
    rw [hfree]
    have h' : NoDrop { s with pending := s.pending.insert id ⟨c.kind, token⟩ } := h
    exact (h'.setPlace token _ (by simp)).setPhase token _
  | took id hphase =>
    have h' : NoDrop { s with pending := s.pending.erase id } := h
    unfold BlockingState.takeBack
    cases s.pending.get? id with
    | none => exact h'.setPhase token _
    | some w => exact (h'.setPlace w.token _ (by simp)).setPhase token _
  | failed waiting hphase =>
    refine NoDrop.congr ?_ (BlockingState.finish_rest ..).1
    refine NoDrop.setPhase ?_ token _
    cases waiting with
    | none => exact h
    | some w =>
      refine (h.setPlace w.token _ fun c' hc' hkind => ?_).congr (BlockingInv.release_rest s w).1
      -- a sender is dropped, a callback is invoked
      obtain ⟨cw, hcw, hw, -⟩ := (hinv.held token w).1 ⟨c, hc, hphase⟩
      rw [Option.some.inj (hcw.symm.trans hc'), hkind] at hw
      simp [BlockingInv.released, ← hw]
  | received id result hphase hplace =>
    exact (h.setPhase token .returned).congr (BlockingState.finish_rest ..).1

theorem step (h : NoDrop s) (hinv : BlockingInv s) {i : BlockingStep R} (hfresh : FreshId s i)
    (hstep : s.step i = some s') : NoDrop s' := by
  cases i with
  | start token kind =>
    simp only [BlockingState.step] at hstep
    split_ifs at hstep
    rw [← Option.some.inj hstep]
    intro t c hc hkind
    have hc : (s.calls.insert token ⟨kind, .starting, .unregistered⟩).get? t = some c := hc
    rw [Dict.get?_insert] at hc
    split_ifs at hc
    · rw [← Option.some.inj hc]
      simp
    · exact h t c hc hkind
  | client token action =>
    obtain ⟨c, hc, hact⟩ := Option.bind_eq_some_iff.1 hstep
    refine h.acted hinv hc (BlockingState.acted_of_act s hact) fun id hid => ?_
    have hphase : c.phase = .minted id := by
      cases hp : c.phase <;> simp_all [BlockingPhase.mintedId]
    rw [hphase] at hact
    cases action with
    | insert => exact hfresh c hc id hid
    | _ => cases hact
  | deliver id body =>
    rw [← Option.some.inj hstep]
    unfold BlockingState.deliver
    split
    · next w he => exact (h.setPlace w.token .delivering (by simp)).congr rfl
    · exact h
  | settle i =>
    obtain ⟨⟨w, body⟩, hi, rfl⟩ := Option.map_eq_some_iff.1 hstep
    exact (h.settle w (.ok body)).congr rfl
  | disconnect => exact Option.some.inj hstep ▸ h
  | drain =>
    simp only [BlockingState.step] at hstep
    split_ifs at hstep
    rw [← Option.some.inj hstep]
    have hfold : ∀ (l : List (RequestId × BlockingPending)) (s : BlockingState R), NoDrop s →
        NoDrop (l.foldl (fun s entry => s.settle entry.2 (.error .closed)) s) := by
      intro l
      induction l with
      | nil => exact fun s h => h
      | cons x l ih => exact fun s h => ih _ (h.settle x.2 _)
    exact (hfold s.pending.pairs s h).congr rfl

end NoDrop

/-- The call has returned, or has no step to take: a `call_with` whose frame was sent, or a `call`
that finds nothing in its channel. -/
def BlockingCall.idle (c : BlockingCall R) : Bool :=
  match c.phase, c.kind, c.place with
  | .returned, _, _ => true
  | .sent _, .wait, .settled _ | .sent _, .wait, .dropped => false
  | .sent _, _, _ => true
  | _, _, _ => false

/-- `close` has completed, every `start` and `deliver` has returned, and no caller that was woken
has still to run. -/
structure Quiet (s : BlockingState R) : Prop where
  completed : s.completed = true
  delivered : s.delivering = []
  idle : ∀ t c, s.calls.get? t = some c → c.idle = true

theorem Quiet.started (hq : Quiet s) {t : Token} {c : BlockingCall R}
    (hc : s.calls.get? t = some c) : c.phase = .returned ∨ ∃ id, c.phase = .sent id := by
  have hidle := hq.idle t c hc
  unfold BlockingCall.idle at hidle
  cases hp : c.phase <;> simp_all

theorem BlockingInv.place_of_quiet (h : BlockingInv s) (hq : Quiet s) {t : Token}
    {c : BlockingCall R} (hc : s.calls.get? t = some c) :
    c.place = .dropped ∨ ∃ result, c.place = .settled result := by
  cases hplace : c.place with
  | unregistered =>
    have hbegun := (h.begun t c hc).1 hplace
    rcases hq.started hc with hp | ⟨id, hp⟩ <;> rw [hp] at hbegun <;> cases hbegun
  | table id =>
    have hearly := (h.completed hq.completed).2 t c id hc hplace
    rcases hq.started hc with hp | ⟨id, hp⟩ <;> rw [hp] at hearly <;> cases hearly
  | delivering =>
    have hmem := (h.delivering ⟨c.kind, t⟩).2 ⟨c, hc, rfl, hplace⟩
    rw [hq.delivered] at hmem
    cases hmem
  | held starter =>
    obtain ⟨c', hc', hp'⟩ := (h.held starter ⟨c.kind, t⟩).2 ⟨c, hc, rfl, hplace⟩
    rcases hq.started hc' with hp | ⟨id, hp⟩ <;> rw [hp] at hp' <;> cases hp'
  | settled result => exact .inr ⟨result, rfl⟩
  | dropped => exact .inl rfl

theorem blockingRunInv_of_run {steps : List (BlockingStep R)}
    (hrun : Machine.run BlockingState.step .new steps = some s) : BlockingRunInv s :=
  Machine.inv_run (fun _ _ _ h hstep => h.step hstep) ⟨.new, fun h => absurd rfl h⟩ hrun

/-- In every interleaving of starts, deliveries and closes a callback is invoked and a blocking call
returns at most once. Once `close` has completed and every `start`, `deliver` and woken caller has
run, every blocking call has returned once, and, when no call was entered under an id that another
one still waited for, every callback has been invoked once. -/
theorem blocking_of_run {steps : List (BlockingStep R)}
    (hrun : Machine.run BlockingState.step .new steps = some s) :
    (∀ t, s.log.countP (BlockingEvent.isInvoked t) ≤ 1 ∧
      s.log.countP (BlockingEvent.isReturned t) ≤ 1) ∧
    (Quiet s → ∀ t c, s.calls.get? t = some c →
      (c.kind = .wait → s.log.countP (BlockingEvent.isReturned t) = 1) ∧
      (c.kind = .callback → Machine.Along BlockingState.step FreshId .new steps →
        s.log.countP (BlockingEvent.isInvoked t) = 1)) := by
  have hinv := (blockingRunInv_of_run hrun).toBlockingInv
  refine ⟨fun t => ⟨?_, ?_⟩, fun hq t c hc => ⟨fun hkind => ?_, fun hkind hfresh => ?_⟩⟩
  · rw [hinv.invoked]
    exact Bool.toNat_le _
  · rw [hinv.returned]
    exact Bool.toNat_le _
  · have hphase : c.phase = .returned := by
      rcases hq.started hc with hp | ⟨id, hp⟩
      · exact hp
      · have hidle := hq.idle t c hc
        rcases hinv.place_of_quiet hq hc with hplace | ⟨result, hplace⟩ <;>
          simp [BlockingCall.idle, hp, hkind, hplace] at hidle
    rw [hinv.returned, hc]
    simp [BlockingCall.hasReturned, hkind, hphase]
  · have hnodrop : NoDrop s :=
      (Machine.inv_run_along (I := fun s => BlockingRunInv s ∧ NoDrop s)
        (fun _ _ _ h hfresh hstep => ⟨h.1.step hstep, h.2.step h.1.toBlockingInv hfresh hstep⟩)
        ⟨⟨.new, fun h => absurd rfl h⟩, fun t c hc => by simp [BlockingState.new] at hc⟩ hfresh hrun).2
    obtain ⟨result, hplace⟩ := (hinv.place_of_quiet hq hc).resolve_left (hnodrop t c hc hkind)
    rw [hinv.invoked, hc]
    simp [BlockingCall.invoked, hkind, hplace]

/-- The steps of a `start` up to its send. -/
def startSteps (token : Token) (kind : BlockingKind) : List (BlockingStep Nat) :=
  [.start token kind, .client token .nextId, .client token .insert, .client token .send]

/-- A callback and a blocking call: the call gets its reply, the callback the close. -/
def sampleBlocking : List (BlockingStep Nat) :=
  startSteps 0 .callback ++ [.client 0 (.sent true)] ++ startSteps 1 .wait ++
    [.client 1 (.sent true), .deliver 2 7, .settle 0, .client 1 .receive, .disconnect, .drain]

theorem blocking_of_run_close :
    ∃ s, Machine.run BlockingState.step .new sampleBlocking = some s ∧
      s.log.countP (BlockingEvent.isInvoked 0) = 1 ∧ s.log.countP (BlockingEvent.isReturned 1) = 1 := by
  obtain ⟨s, hrun, hcompleted, hdelivered, hidle, ⟨c₀, h₀, hk₀⟩, ⟨c₁, h₁, hk₁⟩⟩ : ∃ s,
      Machine.run BlockingState.step .new sampleBlocking = some s ∧ s.completed = true ∧
      s.delivering = [] ∧ (∀ x ∈ s.calls.pairs, x.2.idle = true) ∧
      (∃ c, s.calls.get? 0 = some c ∧ c.kind = .callback) ∧
      ∃ c, s.calls.get? 1 = some c ∧ c.kind = .wait := by
    refine ⟨_, rfl, rfl, rfl, ?_, ⟨_, rfl, rfl⟩, ⟨_, rfl, rfl⟩⟩
    decide +kernel
  have hq : Quiet s := ⟨hcompleted, hdelivered, fun t c hc =>
    hidle (t, c) ((Dict.get?_eq_some_iff ..).1 hc)⟩
  have hfresh : Machine.Along BlockingState.step FreshId .new sampleBlocking := by decide +kernel
  have hsettled := (blocking_of_run hrun).2 hq
  exact ⟨s, hrun, (hsettled 0 c₀ h₀).2 hk₀ hfresh, (hsettled 1 c₁ h₁).1 hk₁⟩

/-! ### Where the callbacks are not settled -/

/-- A whole `start` whose send fails. -/
def spin (token : Token) : List (BlockingStep Nat) :=
  startSteps token .callback ++ [.client token (.sent false), .client token .remove, .client token .fail]

/-- It takes the next id, and leaves the calls and entries of the others as they were. -/
theorem run_spin {s : BlockingState Nat} {k : Token} (hnew : s.calls.get? k = none)
    (hclosed : s.closed = false) (hfree : s.pending.get? s.next = none) :
    ∃ s', Machine.run BlockingState.step s (spin k) = some s' ∧
      s'.next = (s.next + 1) % (u64Max + 1) ∧ s'.closed = false ∧ s'.delivering = s.delivering ∧
      s'.pending.get? s.next = none ∧ (∀ id, id ≠ s.next → s'.pending.get? id = s.pending.get? id) ∧
      (∀ t, t ≠ k → s'.calls.get? t = s.calls.get? t) ∧
      ∃ c, s'.calls.get? k = some c ∧ c.kind = .callback ∧ c.phase = .returned := by
  have hcontains : s.calls.contains k = false := by simp [Dict.contains, hnew]
  have hrun : ∃ s', Machine.run BlockingState.step s (spin k) = some s' ∧
      s' = ((((((({ s with calls := s.calls.insert k ⟨.callback, .starting, .unregistered⟩
                           next := (s.next + 1) % (u64Max + 1) } : BlockingState Nat).setPhase k
        (.minted s.next)).enter k .callback s.next).setPhase k (.sending s.next)).setPhase k
        (.failed s.next)).takeBack k s.next).release (some ⟨.callback, k⟩)).finish k .callback
        (.error .closed) := by
    refine ⟨_, ?_, rfl⟩
    simp [spin, startSteps, Machine.run, BlockingState.step, hcontains, BlockingState.act,
      BlockingState.setPhase, BlockingState.enter, BlockingState.setPlace, hfree,
      BlockingState.dropEntry, hclosed, BlockingState.takeBack]
  obtain ⟨s', hrun, hs'⟩ := hrun
  refine ⟨s', hrun, ?_, ?_, ?_, ?_, fun id hid => ?_, fun t ht => ?_, ?_⟩ <;>
    simp [BlockingState.finish, BlockingState.release, BlockingState.settle, BlockingState.record,
      BlockingState.setPhase, BlockingState.enter, BlockingState.setPlace,
      BlockingState.dropEntry, BlockingState.takeBack, *]

/-- A callback of the first call waits under id 1, and the calls 1 to `n` have come and gone. -/
structure Parked (n : Nat) (s : BlockingState Nat) : Prop where
  reached : ∃ steps, Machine.run BlockingState.step .new steps = some s
  next : s.next = (n + 2) % (u64Max + 1)
  closed : s.closed = false
  delivering : s.delivering = []
  entry : s.pending.get? 1 = some ⟨.callback, 0⟩
  others : ∀ id, id ≠ 1 → s.pending.get? id = none
  call : ∃ c, s.calls.get? 0 = some c ∧ c.kind = .callback
  fresh : ∀ t, n < t → s.calls.get? t = none
  callbacks : ∀ t c, s.calls.get? t = some c → c.kind = .callback ∧
    (c.phase = .returned ∨ ∃ id, c.phase = .sent id)

theorem exists_parked (n : Nat) (hn : n ≤ u64Max) : ∃ s, Parked n s := by
  have hmax : u64Max = 18446744073709551615 := rfl
  induction n with
  | zero =>
    let s : BlockingState Nat := { (.new : BlockingState Nat) with
      next := 2, pending := .singleton 1 ⟨.callback, 0⟩,
      calls := .singleton 0 ⟨.callback, .sent 1, .table 1⟩ }
    refine ⟨s, ⟨startSteps 0 .callback ++ [.client 0 (.sent true)], ?_⟩, ?_, rfl, rfl, ?_, fun id hid => ?_,
      ⟨_, rfl, rfl⟩, fun t ht => ?_, fun t c hc => ?_⟩
    · rfl
    · rfl
    · rfl
    · simp [s, hid]
    · have hne : t ≠ 0 := Nat.ne_of_gt ht
      simp [s, hne]
    · simp only [s, Dict.get?_singleton] at hc
      split_ifs at hc
      rw [← Option.some.inj hc]
      exact ⟨rfl, .inr ⟨1, rfl⟩⟩
  | succ n ih =>
    obtain ⟨s, h⟩ := ih (Nat.le_of_succ_le hn)
    have hcount : ∀ m : Nat, m = (n + 2) % (u64Max + 1) →
        m ≠ 1 ∧ (m + 1) % (u64Max + 1) = (n + 1 + 2) % (u64Max + 1) := by
      intro m hm
      rw [hmax] at hm hn ⊢
      constructor <;> omega
    obtain ⟨hne, hsucc⟩ := hcount s.next h.next
    obtain ⟨s', hrun, hnext', hclosed, hdelivering, hself, hpending, hcalls, c, hc, hkind, hphase⟩ :=
      run_spin (h.fresh (n + 1) (Nat.lt_succ_self n)) h.closed (h.others _ hne)
    obtain ⟨steps, hsteps⟩ := h.reached
    refine ⟨s', ⟨steps ++ spin (n + 1), Machine.run_append hsteps hrun⟩, hnext'.trans hsucc, hclosed,
      hdelivering.trans h.delivering, (hpending 1 (Ne.symm hne)).trans h.entry, fun id hid => ?_, ?_,
      fun t ht => ?_, fun t c' hc' => ?_⟩
    · by_cases heq : id = s.next
      · rw [heq, hself]
      · rw [hpending id heq, h.others id hid]
    · rw [hcalls 0 (Nat.succ_ne_zero n).symm]
      exact h.call
    · rw [hcalls t (Nat.ne_of_gt ht)]
      exact h.fresh t (Nat.lt_of_succ_lt ht)
    · by_cases ht : t = n + 1
      · rw [ht, hc] at hc'
        rw [← Option.some.inj hc']
        exact ⟨hkind, .inl hphase⟩
      · exact h.callbacks t c' ((hcalls t ht).symm.trans hc')

theorem get?_drain (s : BlockingState R) (t : Token) :
    s.drain.calls.get? t = if t ∈ s.pending.pairs.map (·.2.token) then
      (s.calls.get? t).map fun c => { c with place := .settled (.error .closed) }
    else s.calls.get? t := by
  have hfold : ∀ (l : List (RequestId × BlockingPending)) (s : BlockingState R),
      (l.foldl (fun s entry => s.settle entry.2 (.error .closed)) s).calls.get? t =
        if t ∈ l.map (·.2.token) then
          (s.calls.get? t).map fun c => { c with place := .settled (.error .closed) }
        else s.calls.get? t := by
    intro l
    induction l with
    | nil => exact fun s => rfl
    | cons x l ih =>
      intro s
      rw [List.foldl_cons, ih, (BlockingInv.settle_rest s x.2 _).1, BlockingState.setPlace,
        Dict.get?_modify, List.map_cons]
      by_cases hx : t = x.2.token <;> by_cases hl : t ∈ l.map (·.2.token) <;>
        simp only [hx, hl, List.mem_cons, true_or, or_true, false_or, if_true, if_false,
          Option.map_map, Function.comp_def, ite_self]
  exact hfold _ s

/-- The next call takes the id of the callback that waits, and drops it. -/
theorem run_reuse {s : BlockingState Nat} {k : Token} (hk : k ≠ 0) (hnew : s.calls.get? k = none)
    (hclosed : s.closed = false) (hnext : s.next = 1)
    (hentry : s.pending.get? 1 = some ⟨.callback, 0⟩) {c : BlockingCall Nat}
    (hc : s.calls.get? 0 = some c) :
    ∃ s', Machine.run BlockingState.step s
        (startSteps k .callback ++ [.client k (.sent true), .disconnect]) = some s' ∧
      s'.closing ≠ 0 ∧ s'.delivering = s.delivering ∧
      s'.calls.get? 0 = some { c with place := .dropped } ∧
      (∀ t, t ≠ k → t ≠ 0 → s'.calls.get? t = s.calls.get? t) ∧
      s'.calls.get? k = some ⟨.callback, .sent 1, .table 1⟩ := by
  have hcontains : s.calls.contains k = false := by simp [Dict.contains, hnew]
  have hrun : ∃ s', Machine.run BlockingState.step s
        (startSteps k .callback ++ [.client k (.sent true), .disconnect]) = some s' ∧
      s' = { (((({ s with calls := s.calls.insert k ⟨.callback, .starting, .unregistered⟩
                          next := (s.next + 1) % (u64Max + 1) } : BlockingState Nat).setPhase k
        (.minted 1)).enter k .callback 1).setPhase k (.sending 1)).setPhase k (.sent 1) with
          closed := true, closing := s.closing + 1 } := by
    refine ⟨_, ?_, rfl⟩
    simp [startSteps, Machine.run, BlockingState.step, hcontains, BlockingState.act,
      BlockingState.setPhase, BlockingState.enter, BlockingState.setPlace, hentry, hnext,
      hk, BlockingState.dropEntry, hclosed]
  obtain ⟨s', hrun, hs'⟩ := hrun
  refine ⟨s', hrun, ?_, ?_, ?_, fun t ht ht₀ => ?_, ?_⟩ <;>
    simp [BlockingState.setPhase, BlockingState.enter, BlockingState.setPlace,
      BlockingState.dropEntry, Ne.symm hk, *]

/-- `close` has completed and every `start` has returned, but not every callback has been invoked:
a `deliver` has taken one out and not invoked it yet; or, after all ids were used, a call was entered
under the id of a callback that still waited. -/
theorem exists_run_not_invoked :
    (∃ s, Machine.run BlockingState.step .new (startSteps 0 .callback ++
        [.client 0 (.sent true), .deliver 1 7, .disconnect, .drain]) = some s ∧ s.completed = true ∧
      (∃ c, s.calls.get? 0 = some c ∧ c.kind = .callback ∧ c.phase = .sent 1) ∧
      s.log.countP (BlockingEvent.isInvoked 0) = 0) ∧
    ∃ steps s, Machine.run BlockingState.step (.new : BlockingState Nat) steps = some s ∧ Quiet s ∧
      (∃ c, s.calls.get? 0 = some c ∧ c.kind = .callback) ∧
      s.log.countP (BlockingEvent.isInvoked 0) = 0 := by
  constructor
  · refine ⟨_, rfl, rfl, ⟨_, rfl, rfl, rfl⟩, ?_⟩
    decide +kernel
  · obtain ⟨s, h⟩ := exists_parked u64Max (Nat.le_refl _)
    obtain ⟨steps, hsteps⟩ := h.reached
    obtain ⟨c, hc, hkind⟩ := h.call
    obtain ⟨s₁, hrun₁, hclosing, hdelivering, hc₁, hothers, hnew⟩ := run_reuse (Nat.succ_ne_zero u64Max)
      (h.fresh (u64Max + 1) (Nat.lt_succ_self _)) h.closed h.next h.entry hc
    have hinv₁ := (blockingRunInv_of_run (Machine.run_append hsteps hrun₁)).toBlockingInv
    have hrun : Machine.run BlockingState.step s₁ [.drain] =
        some { s₁.drain with closing := s₁.closing - 1, completed := true } := by
      simp [Machine.run, BlockingState.step, hclosing]
    have hrun := Machine.run_append (Machine.run_append hsteps hrun₁) hrun
    have hinv := (blockingRunInv_of_run hrun).toBlockingInv
    -- the dropped callback is in no entry, so the drain passes it by
    have hdrop : s₁.drain.calls.get? 0 = some { c with place := .dropped } := by
      rw [get?_drain, if_neg, hc₁]
      intro hmem
      obtain ⟨⟨id, w⟩, hpair, hw⟩ := List.mem_map.1 hmem
      obtain ⟨c', hc', -, hplace⟩ := hinv₁.call_of_entry ((Dict.get?_eq_some_iff ..).2 hpair)
      rw [show w.token = 0 from hw, hc₁] at hc'
      rw [← Option.some.inj hc'] at hplace
      cases hplace
    have hcallbacks : ∀ t c, s₁.calls.get? t = some c → c.kind = .callback ∧
        (c.phase = .returned ∨ ∃ id, c.phase = .sent id) := by
      intro t c' hc'
      by_cases ht : t = u64Max + 1
      · rw [ht, hnew] at hc'
        exact Option.some.inj hc' ▸ ⟨rfl, .inr ⟨1, rfl⟩⟩
      · by_cases ht₀ : t = 0
        · rw [ht₀, hc₁] at hc'
          exact Option.some.inj hc' ▸ h.callbacks 0 c hc
        · exact h.callbacks t c' ((hothers t ht ht₀).symm.trans hc')
    refine ⟨_, _, hrun, ⟨rfl, ?_, fun t c' hc' => ?_⟩, ⟨_, hdrop, hkind⟩, ?_⟩
    · exact (BlockingInv.drain_rest s₁).2.trans (hdelivering.trans h.delivering)
    · have hc' : s₁.drain.calls.get? t = some c' := hc'
      obtain ⟨hk, hp⟩ : c'.kind = .callback ∧ (c'.phase = .returned ∨ ∃ id, c'.phase = .sent id) := by
        rw [get?_drain] at hc'
        split_ifs at hc'
        · obtain ⟨c₂, hc₂, rfl⟩ := Option.map_eq_some_iff.1 hc'
          exact hcallbacks t c₂ hc₂
        · exact hcallbacks t c' hc'
      rcases hp with hp | ⟨id, hp⟩ <;> simp [BlockingCall.idle, hp, hk]
    · rw [hinv.invoked 0]
      show ((s₁.drain.calls.get? 0).any _).toNat = 0
      rw [hdrop]
      simp [BlockingCall.invoked]

end

end TinyBrowser.Exchange
