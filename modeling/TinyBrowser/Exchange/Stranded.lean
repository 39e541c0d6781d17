import TinyBrowser.Exchange.Basic

/-!
# Calls at the end of the router

The router task ends with `fail_pending`, which answers the calls of the table, and sets the closed
flag two steps later. A call whose place in the lane was granted before enters the table without
looking at the flag again: after the drain nobody is left to answer it. The calls that entered
before are all answered.
-/

namespace TinyBrowser.Exchange
open Lib

variable {C R N : Type} {s s' : State R}

/-- The router task has drained the table. -/
def RouterPhase.Drained : RouterPhase R → Prop
  | .failed | .disconnected | .finished => True
  | .running | .replying .. | .closing => False

instance (r : RouterPhase R) : Decidable r.Drained :=
  match r with
  | .failed | .disconnected | .finished => inferInstanceAs (Decidable True)
  | .running | .replying .. | .closing => inferInstanceAs (Decidable False)

/-- The call is not between two steps of its own code. -/
def Phase.resting : Phase → Bool
  | calling | reserving | uploading _ | waiting _ | done => true
  | permitted | minted _ | inserted _ | endFailed _ | abandoned _ | cancelling .. => false

/-- No call enters the table that was drained. -/
def InsertInTime (s : State R) : Step C R N → Prop
  | .client _ .insert => ¬ s.router.Drained
  | _ => True

instance (s : State R) (i : Step C R N) : Decidable (InsertInTime s i) :=
  match i with
  | .client _ .insert => inferInstanceAs (Decidable (¬ s.router.Drained))
  | .client _ .reserve | .client _ .granted | .client _ .refused | .client _ .nextId
  | .client _ .send | .client _ .receive | .client _ (.endUpload _) | .client _ .removePending
  | .client _ .drop | .client _ (.cancel _) | .start .. | .router _ | .failElsewhere
  | .closeElsewhere | .closeServerElsewhere => inferInstanceAs (Decidable True)

/-- A call that has no answer is in the table, or the router is about to answer it. -/
def Awaited (s : State R) : Prop :=
  ∀ token c id, s.calls.get? token = some c → c.phase.holds = some id → c.slot = .empty →
    (∃ entry, s.pending.get? id = some entry ∧ entry.reply = token) ∨
      ∃ waiting body, s.router = .replying waiting body ∧ waiting.reply = token

namespace Awaited

theorem update (h : Awaited s) (token : Token) (phase : Phase) (hrouter : s'.router = s.router)
    (hphase : ∀ c, s'.calls.get? token = some c → c.phase = phase)
    (hself : ∀ id, phase.holds = some id → ∀ c, s'.calls.get? token = some c → c.slot = .empty →
      (∃ entry, s'.pending.get? id = some entry ∧ entry.reply = token) ∨
        ∃ waiting body, s.router = .replying waiting body ∧ waiting.reply = token)
    (hcalls : ∀ t c, t ≠ token → s'.calls.get? t = some c → c.slot = .empty →
      s.calls.get? t = some c)
    (hpending : ∀ t c id entry, t ≠ token → s'.calls.get? t = some c → c.slot = .empty →
      s.pending.get? id = some entry → entry.reply = t → s'.pending.get? id = some entry) :
    Awaited s' := by
  intro t c id hc hid hslot
  rw [hrouter]
  by_cases ht : t = token
  · subst ht
    rw [hphase c hc] at hid
    exact hself id hid c hc hslot
  · rcases h t c id (hcalls t c ht hc hslot) hid hslot with ⟨entry, he, hreply⟩ | hw
    · exact .inl ⟨entry, hpending t c id entry ht hc hslot he hreply, hreply⟩
    · exact .inr hw

theorem get?_of_dropSender {id : RequestId} {t : Token} {c : Call R}
    (hc : (s.dropSender (s.pending.get? id)).calls.get? t = some c) (hslot : c.slot = .empty) :
    s.calls.get? t = some c ∧ ∀ entry, s.pending.get? id = some entry → entry.reply ≠ t := by
  rw [State.get?_dropSender] at hc
  split_ifs at hc with ht
  · obtain ⟨c', -, rfl⟩ := Option.map_eq_some_iff.1 hc
    cases hslot
  · refine ⟨hc, fun entry he hreply => ht ?_⟩
    rw [he, Option.map_some, hreply]

theorem acted (h : Awaited s) {token : Token} {c : Call R} (hc : s.calls.get? token = some c)
    (hacted : s.Acted token c s') : Awaited s' := by
  have hself : ∀ (s₁ : State R) (phase : Phase) c', s₁.calls.get? token = some c →
      (s₁.setPhase token phase).calls.get? token = some c' → c' = { c with phase } := by
    intro s₁ phase c' hc₁ hc'
    rw [State.get?_setPhase, if_pos rfl, hc₁] at hc'
    exact (Option.some.inj hc').symm
  cases hacted with
  | moved phase closed next hholds hbegun hdone =>
    refine h.update token phase rfl
      (fun c' hc' => by rw [hself { s with closed, next } phase c' hc hc']) ?_ ?_
      fun _ _ _ _ _ _ _ he _ => he
    · intro id hid c' hc' hslot
      rw [hself { s with closed, next } phase c' hc hc'] at hslot
      exact h token c id hc (hholds ▸ hid) hslot
    · intro t c' ht hc' _
      rwa [State.get?_setPhase, if_neg ht] at hc'
  | finished outcome closed hout hdone =>
    refine h.update token .done rfl
      (fun c' hc' => by rw [hself { s with closed } .done c' hc hc']) (by simp [Phase.holds]) ?_
      fun _ _ _ _ _ _ _ he _ => he
    intro t c' ht hc' _
    rwa [show (State.finish _ _ _).calls.get? t = _ from State.get?_setPhase .., if_neg ht] at hc'
  | inserted id hphase =>
    have hget : ∀ t, t ≠ token → ∀ {c'}, ((s.insertPending id (c.kind.pending token)).setPhase token
        (.inserted id)).calls.get? t = some c' →
        (s.dropSender (s.pending.get? id)).calls.get? t = some c' := by
      intro t ht c' hc'
      rwa [State.get?_setPhase, if_neg ht] at hc'
    refine h.update token (.inserted id) (State.dropSender_router ..) ?_ ?_ ?_ ?_
    · intro c' hc'
      have hcalls := (State.get?_setPhase ..).symm.trans hc'
      rw [if_pos rfl] at hcalls
      obtain ⟨c₁, -, rfl⟩ := Option.map_eq_some_iff.1 hcalls
      rfl
    · intro id' hid' c' _ _
      obtain rfl : id = id' := Option.some.inj hid'
      refine .inl ⟨c.kind.pending token, ?_, by cases c.kind <;> rfl⟩
      exact (Dict.get?_insert ..).trans (if_pos rfl)
    · intro t c' ht hc' hslot
      exact (get?_of_dropSender (hget t ht hc') hslot).1
    · intro t c' id' entry ht hc' hslot he hreply
      have hne : id' ≠ id := by
        rintro rfl
        exact (get?_of_dropSender (hget t ht hc') hslot).2 entry he hreply
      exact (Dict.get?_insert ..).trans ((if_neg hne).trans he)
  | removed id phase hid hphase hbegun hdone =>
    have hget : ∀ t, t ≠ token → ∀ {c'}, ((s.removePending id).setPhase token phase).calls.get? t =
        some c' → (s.dropSender (s.pending.get? id)).calls.get? t = some c' := by
      intro t ht c' hc'
      rwa [State.get?_setPhase, if_neg ht] at hc'
    refine h.update token phase (State.dropSender_router ..) ?_ ?_ ?_ ?_
    · intro c' hc'
      rw [State.get?_setPhase, if_pos rfl] at hc'
      obtain ⟨c₁, -, rfl⟩ := Option.map_eq_some_iff.1 hc'
      rfl
    · intro id' hid'
      rw [hphase] at hid'
      cases hid'
    · intro t c' ht hc' hslot
      exact (get?_of_dropSender (hget t ht hc') hslot).1
    · intro t c' id' entry ht hc' hslot he hreply
      have hne : id' ≠ id := by
        rintro rfl
        exact (get?_of_dropSender (hget t ht hc') hslot).2 entry he hreply
      exact (Dict.get?_erase ..).trans ((if_neg hne).trans he)

theorem failPending (h : Awaited s) {token : Token} {c : Call R} {id : RequestId}
    (hc : s.failPending.calls.get? token = some c) (hid : c.phase.holds = some id)
    (hslot : c.slot = .empty) :
    ∃ waiting body, s.router = .replying waiting body ∧ waiting.reply = token := by
  rw [State.get?_failPending] at hc
  split_ifs at hc with hmem
  · obtain ⟨c', -, rfl⟩ := Option.map_eq_some_iff.1 hc
    cases hslot
  · rcases h token c id hc hid hslot with ⟨entry, he, hreply⟩ | hw
    · exact absurd ((s.mem_replies_iff token).2 ⟨id, entry, he, hreply⟩) hmem
    · exact hw

/-- Outside `route_reply` every unanswered call is in the table; a later router that keeps the
entries and the calls keeps them awaited. -/
theorem congr (h : Awaited s) (hw : ∀ waiting body, s.router ≠ .replying waiting body)
    (hc : s'.calls = s.calls)
    (hp : ∀ id entry, s.pending.get? id = some entry →
      (∃ entry', s'.pending.get? id = some entry' ∧ entry'.reply = entry.reply) ∨
        ∃ waiting body, s'.router = .replying waiting body ∧ waiting.reply = entry.reply) :
    Awaited s' := by
  intro token c id hget hid hslot
  rw [hc] at hget
  rcases h token c id hget hid hslot with ⟨entry, he, rfl⟩ | ⟨waiting, body, hr, -⟩
  · exact hp id entry he
  · exact absurd hr (hw waiting body)

/-- A frame that does not end the loop moves a call from the table to the router at most. -/
theorem routed (h : Awaited s) (hrunning : s.router = .running) {target : Option RequestId}
    {result : Except Error Unit} (hrouted : s.Routed target result s') :
    (result = .ok () → Awaited s' ∧ ¬ s'.router.Drained) ∧
      (result ≠ .ok () → Awaited { s' with router := .closing }) := by
  have hw : ∀ waiting body, s.router ≠ .replying waiting body := by simp [hrunning]
  have hsame : ∀ {s₁ : State R}, s₁.calls = s.calls → s₁.pending = s.pending → Awaited s₁ :=
    fun hc hp => h.congr hw hc fun id entry he => .inl ⟨entry, hp ▸ he, rfl⟩
  have hnot : ¬ s.router.Drained := by
    rw [hrunning]
    exact not_false
  cases hrouted with
  | served result serverClosed => exact ⟨fun _ => ⟨hsame rfl rfl, hnot⟩, fun _ => hsame rfl rfl⟩
  | unknown id event hevent he => exact ⟨fun _ => ⟨hsame rfl rfl, hnot⟩, fun _ => hsame rfl rfl⟩
  | taken id body waiting he =>
    refine ⟨fun _ => ⟨h.congr hw rfl fun id' entry he' => ?_, not_false⟩, fun hne => absurd rfl hne⟩
    by_cases hid : id' = id
    · subst hid
      refine .inr ⟨waiting, body, rfl, ?_⟩
      rw [Option.some.inj (he.symm.trans he')]
    · exact .inl ⟨entry, (Dict.get?_erase ..).trans ((if_neg hid).trans he'), rfl⟩
  | appended id bytes buffer limit reply he hlimit =>
    refine ⟨fun _ => ⟨h.congr hw rfl fun id' entry he' => .inl ?_, hnot⟩, fun hne => absurd rfl hne⟩
    by_cases hid : id' = id
    · subst hid
      refine ⟨_, (Dict.get?_insert ..).trans (if_pos rfl), ?_⟩
      rw [← Option.some.inj (he.symm.trans he')]
      rfl
    · exact ⟨entry, (Dict.get?_insert ..).trans ((if_neg hid).trans he'), rfl⟩
  | refused id bytes => exact ⟨fun hok => (by cases hok), fun _ => hsame rfl rfl⟩

end Awaited

/-- The invariant of the drain. -/
structure DrainInv (s : State R) : Prop where
  awaited : Awaited s
  drained : s.router.Drained → ∀ id, s.pending.get? id = none

namespace DrainInv

theorem new : DrainInv (State.new : State R) :=
  ⟨fun token c id hc => by simp [State.new] at hc, fun h => h.elim⟩

theorem routerStep (h : DrainInv s) {i : RouterStep C R N} (hstep : s.routerStep i = some s') :
    DrainInv s' := by
  unfold State.routerStep at hstep
  cases i with
  | route frame before lane =>
    dsimp only at hstep
    split at hstep
    · next hrunning =>
      split at hstep <;> rename_i hroute <;> rw [← Option.some.inj hstep] <;>
        have hrouted := h.awaited.routed hrunning (State.routed_of_route s hroute)
      · obtain ⟨hawaited, hnot⟩ := hrouted.1 rfl
        exact ⟨hawaited, fun hd => absurd hd hnot⟩
      · exact ⟨hrouted.2 (by simp), fun hd => hd.elim⟩
    · cases hstep
  | settle =>
    dsimp only at hstep
    split at hstep
    · next waiting body hw =>
      rw [← Option.some.inj hstep]
      refine ⟨?_, fun hd => hd.elim⟩
      intro token c id hc hid hslot
      have hc : (s.setSlot waiting.reply (.sent (waiting.answer body))).calls.get? token = some c := hc
      rw [State.get?_setSlot] at hc
      split_ifs at hc with ht
      · obtain ⟨c', -, rfl⟩ := Option.map_eq_some_iff.1 hc
        cases hslot
      · rcases h.awaited token c id hc hid hslot with he | ⟨waiting', body', hw', hreply⟩
        · exact .inl he
        · obtain ⟨rfl, rfl⟩ := RouterPhase.replying.inj (hw.symm.trans hw')
          exact absurd hreply.symm ht
    · cases hstep
  | hangUp =>
    dsimp only at hstep
    split at hstep
    · next hrunning =>
      rw [← Option.some.inj hstep]
      refine ⟨h.awaited.congr (by simp [hrunning]) rfl fun id entry he => .inl ⟨entry, he, rfl⟩, ?_⟩
      exact fun hd => hd.elim
    · cases hstep
  | failPending =>
    dsimp only at hstep
    split at hstep
    · next hclosing =>
      rw [← Option.some.inj hstep]
      refine ⟨fun token c id hc hid hslot => ?_, fun _ id => rfl⟩
      obtain ⟨waiting, body, hw, -⟩ := h.awaited.failPending hc hid hslot
      cases hclosing.symm.trans hw
    · cases hstep
  | disconnect =>
    dsimp only at hstep
    split at hstep
    · next hfailed =>
      rw [← Option.some.inj hstep]
      refine ⟨h.awaited.congr (by simp [hfailed]) rfl fun id entry he => .inl ⟨entry, he, rfl⟩, ?_⟩
      exact fun _ => h.drained (by rw [hfailed]; trivial)
    · cases hstep
  | finish =>
    dsimp only at hstep
    split at hstep
    · next hdisconnected =>
      rw [← Option.some.inj hstep]
      refine ⟨h.awaited.congr (by simp [hdisconnected]) rfl fun id entry he => .inl ⟨entry, he, rfl⟩, ?_⟩
      exact fun _ => h.drained (by rw [hdisconnected]; trivial)
    · cases hstep

theorem client (h : DrainInv s) {token : Token} {c : Call R} (hc : s.calls.get? token = some c)
    {action : Action} (hact : s.act token c action c.phase = some s')
    (hin : action = .insert → ¬ s.router.Drained) : DrainInv s' := by
  have hacted := State.acted_of_act s hact
  refine ⟨h.awaited.acted hc hacted, ?_⟩
  cases hacted with
  | moved => exact h.drained
  | finished => exact h.drained
  | inserted id hphase =>
    have haction : action = .insert := by
      rw [hphase] at hact
      cases action with
      | insert => rfl
      | _ => cases hact
    intro hd
    have hd : s.router.Drained := (State.dropSender_router s (s.pending.get? id)) ▸ hd
    exact absurd hd (hin haction)
  | removed id phase =>
    intro hd id'
    have hd : s.router.Drained := (State.dropSender_router s (s.pending.get? id)) ▸ hd
    refine (Dict.get?_erase ..).trans ?_
    split_ifs
    · rfl
    · exact h.drained hd id'

theorem step (h : DrainInv s) {i : Step C R N} (hin : InsertInTime s i)
    (hstep : s.step i = some s') : DrainInv s' := by
  cases i with
  | start token kind =>
    simp only [State.step, State.start] at hstep
    split_ifs at hstep
    rw [← Option.some.inj hstep]
    refine ⟨fun t c id hc hid hslot => ?_, h.drained⟩
    have hc : (s.calls.insert token ⟨kind, .calling, .empty⟩).get? t = some c := hc
    rw [Dict.get?_insert] at hc
    split_ifs at hc
    · rw [← Option.some.inj hc] at hid
      cases hid
    · exact h.awaited t c id hc hid hslot
  | client token action =>
    obtain ⟨c, hc, hact⟩ := Option.bind_eq_some_iff.1 hstep
    refine h.client hc hact ?_
    rintro rfl
    exact hin
  | router i => exact h.routerStep hstep
  | failElsewhere =>
    rw [← Option.some.inj hstep]
    refine ⟨fun token c id hc hid hslot => .inr ?_, fun _ id => rfl⟩
    obtain ⟨waiting, body, hw, hreply⟩ := h.awaited.failPending hc hid hslot
    exact ⟨waiting, body, s.failPending_rest.1.trans hw, hreply⟩
  | closeElsewhere => exact Option.some.inj hstep ▸ ⟨h.awaited, h.drained⟩
  | closeServerElsewhere => exact Option.some.inj hstep ▸ ⟨h.awaited, h.drained⟩

end DrainInv

/-- In a run where no call enters the table after the router task has drained it: once the task has
finished, the table is empty, every call that entered it has its answer, and one that waits returns
with it. -/
theorem answered_of_run {steps : List (Step C R N)}
    (hin : Machine.Along State.step InsertInTime State.new steps)
    (hrun : Machine.run State.step State.new steps = some s) (hfinished : s.router = .finished) :
    (∀ id, s.pending.get? id = none) ∧
      ∀ token c id, s.calls.get? token = some c → c.phase.holds = some id → c.slot ≠ .empty ∧
        (c.phase = .waiting id → (s.step (.client token .receive : Step C R N)).isSome = true) := by
  have hinv : DrainInv s :=
    Machine.inv_run_along (fun _ _ _ h hin hstep => h.step hin hstep) DrainInv.new hin hrun
  have hempty : ∀ id, s.pending.get? id = none := hinv.drained (by rw [hfinished]; trivial)
  refine ⟨hempty, fun token c id hc hid => ?_⟩
  have hslot : c.slot ≠ .empty := by
    intro hslot
    rcases hinv.awaited token c id hc hid hslot with ⟨entry, he, -⟩ | ⟨waiting, body, hw, -⟩
    · rw [hempty] at he
      cases he
    · cases hfinished.symm.trans hw
  refine ⟨hslot, fun hphase => ?_⟩
  simp only [State.step, hc, Option.bind_some, hphase, State.act]
  cases hs : c.slot with
  | empty => exact absurd hs hslot
  | sent outcome => rfl
  | dropped => rfl

/-- The end of the router task. -/
def shutdown : List (Step Nat Nat Nat) :=
  [.router .hangUp, .router .failPending, .router .disconnect, .router .finish]

/-- A call that waits when the router ends. -/
theorem answered_of_run_waiting :
    ∃ s c, Machine.run State.step State.new ([.start 0 .unary, .client 0 .reserve, .client 0 .granted,
        .client 0 .nextId, .client 0 .insert, .client 0 .send] ++ shutdown) = some s ∧
      s.calls.get? 0 = some c ∧ c.phase = .waiting 1 ∧ c.slot ≠ .empty := by
  obtain ⟨s, c, hrun, hfinished, hc, hphase⟩ : ∃ s c, Machine.run State.step State.new
      ([.start 0 .unary, .client 0 .reserve, .client 0 .granted, .client 0 .nextId,
        .client 0 .insert, .client 0 .send] ++ shutdown) = some s ∧ s.router = .finished ∧
      s.calls.get? 0 = some c ∧ c.phase = .waiting 1 := by
    refine ⟨_, _, rfl, rfl, rfl, rfl⟩
  have hanswered := (answered_of_run (by decide +kernel) hrun hfinished).2 0 c 1 hc (by rw [hphase]; rfl)
  exact ⟨s, c, hrun, hc, hphase, hanswered.1⟩

/-- A call with its permit in hand enters the table after the drain: the router task has finished,
the call waits, and nothing is left that would answer it. -/
theorem exists_run_stranded :
    ∃ s c, Machine.run State.step State.new ([.start 0 .unary, .client 0 .reserve,
        .client 0 .granted] ++ shutdown ++ [.client 0 .nextId, .client 0 .insert, .client 0 .send]) =
        some s ∧
      s.router = .finished ∧ (∀ x ∈ s.calls.pairs, x.2.phase.resting = true) ∧
      s.pending.get? 1 = some (.unary 0) ∧ s.calls.get? 0 = some c ∧ c.phase = .waiting 1 ∧
      c.slot = .empty := by
  refine ⟨_, _, rfl, rfl, ?_, rfl, rfl, rfl, rfl⟩
  decide +kernel

end TinyBrowser.Exchange
