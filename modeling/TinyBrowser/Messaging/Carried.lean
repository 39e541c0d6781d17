import TinyBrowser.Messaging.Order

/-!
# The endpoints that messages carry

A message that transfers endpoints owns them until it is received. The messages in play are those
in the queues of the table, in the batch, in the shared deliveries and in the tasks of the frames;
a step discards the ones that it neither leaves in play nor hands to a realm. `Tidy` is a part of a
step after which no endpoint of a discarded message is left in the table.
-/

namespace TinyBrowser
open Lib Machine

def Delivery.messages : Delivery → List QueuedPortMessage
  | .windowMessage _ _ _ _ _ payload ports => [⟨payload, ports⟩]
  | .portMessage _ payload ports => [⟨payload, ports⟩]
  | .portClosed _ => []

def MessageTask.messages : MessageTask → List QueuedPortMessage
  | .windowMessage message => [⟨message.payload, message.ports⟩]
  | .portMessage _ payload ports => [⟨payload, ports⟩]
  | .portClosed _ => []

namespace PortTable

variable {t : PortTable} {a b e : Nat} {port old : PortEndpoint}

/-- The messages in the queue of an endpoint. -/
def queueOf (t : PortTable) (e : Nat) : List QueuedPortMessage :=
  ((t.ports.get? e).map PortEndpoint.queue).getD []

def queued (t : PortTable) : Multiset QueuedPortMessage := t.ports.collect PortEndpoint.queue

/-- The messages that wait at the endpoints of `l` carry only endpoints of `l`, and such as are in
the table no more. -/
def ClearOf (t : PortTable) (l : List Nat) : Prop :=
  ∀ e ∈ l, ∀ message ∈ t.queueOf e, ∀ p ∈ message.ports, p ∈ l ∨ p ∉ t.ports.keys

/-- None of the endpoints is in the table. -/
def Bare (t : PortTable) (l : List Nat) : Prop := ∀ p ∈ l, p ∉ t.ports.keys

instance (t : PortTable) (l : List Nat) : Decidable (t.ClearOf l) :=
  inferInstanceAs (Decidable (∀ e ∈ l, ∀ message ∈ t.queueOf e, ∀ p ∈ message.ports, _))

instance (t : PortTable) (l : List Nat) : Decidable (t.Bare l) :=
  inferInstanceAs (Decidable (∀ p ∈ l, _))

theorem queueOf_eq (h : t.ports.get? e = some port) : t.queueOf e = port.queue := by
  rw [queueOf, h]
  rfl

theorem mem_keys (h : t.ports.get? e = some port) : e ∈ t.ports.keys :=
  (Dict.mem_keys_iff _ _).2 ⟨port, h⟩

theorem queued_set (h : t.ports.get? a = some old) :
    (t.set a port).queued + old.queue = t.queued + port.queue := by
  rw [queued, queued, set, Dict.collect_insert, Dict.collect_erase h]
  abel

theorem queued_set_of_queue (h : t.ports.get? a = some old) (hqueue : port.queue = old.queue) :
    (t.set a port).queued = t.queued := by
  refine add_right_cancel (b := (old.queue : Multiset QueuedPortMessage)) ?_
  rw [queued_set h, hqueue]

/-- A table in which the row of `a` is gone and every other queue is what it was. -/
theorem queued_of_gone {t' : PortTable} (h : t.ports.get? a = some port)
    (hgone : t'.ports.get? a = none)
    (hrest : ∀ c, c ≠ a → (t'.ports.get? c).map PortEndpoint.queue =
      (t.ports.get? c).map PortEndpoint.queue) : t'.queued + port.queue = t.queued := by
  have hsame : t'.queued = (t.ports.erase a).collect PortEndpoint.queue := by
    refine Dict.collect_congr fun c => ?_
    rw [Dict.get?_erase]
    split_ifs with hc
    · rw [hc, hgone]
    · exact hrest c hc
  rw [hsame, queued, Dict.collect_erase h, add_comm]

theorem Cut.queue {r : PortTable × List Delivery} (ht : t.Matched) (h : Cut t a r) (hba : b ≠ a) :
    (r.1.ports.get? b).map PortEndpoint.queue = (t.ports.get? b).map PortEndpoint.queue := by
  by_cases hpeer : t.peer a = some b
  · obtain ⟨other, hother, -⟩ := exists_of_peer (ht.entangled a b hpeer).2
    rw [(h.notice b other hpeer hother).1, hother]
    rfl
  · rw [h.rest b hba hpeer]

end PortTable

namespace PageEngine

variable {s s' s'' : PageEngine} {a b e : Nat}

def inPlay (s : PageEngine) : Multiset QueuedPortMessage :=
  s.ports.queued + s.batch.flatMap Delivery.messages + s.deliveries.flatMap Delivery.messages +
    s.frames.collect fun document => document.tasks.flatMap MessageTask.messages

/-- Every endpoint in transit is named by at most one message in play. -/
def NamedOnce (s : PageEngine) : Prop :=
  ∀ e port, s.ports.ports.get? e = some port → port.detached = true →
    s.inPlay.countP (fun message => e ∈ message.ports) ≤ 1

/-- The end has lost its peer, and its `close` event is under way or pending. -/
def Closing (s : PageEngine) (b : Nat) : Prop :=
  ∃ port, s.ports.ports.get? b = some port ∧ port.peer = none ∧
    (port.closePending = true ∨ .portClosed b ∈ s.deliveries)

/-- The endpoint is not in the table any more, and its other end, if it is, is told so. -/
def Forgotten (s s' : PageEngine) (e : Nat) : Prop :=
  e ∉ s'.ports.ports.keys ∧
    ∀ b, s.ports.peer e = some b → b ∉ s'.ports.ports.keys ∨ s'.Closing b

/-- The message that an operation sends, if it lets it through. -/
def sent (s : PageEngine) : Op → Multiset QueuedPortMessage
  | .portPost frame endpoint payload ports =>
    if s.postAdmitted frame endpoint payload ports then {⟨payload, ports⟩} else 0
  | .postWindowMessage source _ _ _ payload ports =>
    if s.windowPostAdmitted source payload ports then {⟨payload, ports⟩} else 0
  | _ => 0

/-- The message that an operation hands to a realm. -/
def received (s : PageEngine) : Op → Multiset QueuedPortMessage
  | .runTask frame realm =>
    match s.frames.get? frame with
    | none => 0
    | some document =>
      match document.tasks with
      | [] => 0
      | task :: _ =>
        if realm && s.reaches frame document.origin task then ↑task.messages else 0
  | _ => 0

/-- Copies of the message were in play or sent that are neither in play nor received after. -/
def Discards (s : PageEngine) (op : Op) (s' : PageEngine) (message : QueuedPortMessage) : Prop :=
  (s'.inPlay + s.received op).count message < (s.inPlay + s.sent op).count message

/-- Every endpoint of every message that the step discards is forgotten. -/
def ForgetsDiscarded (s : PageEngine) (op : Op) : Prop :=
  ∀ s', s.step op = some s' → ∀ message, s.Discards op s' message →
    ∀ e ∈ message.ports, s.Forgotten s' e

/-! ### Parts of a step -/

/-- A later state of the same step: rows are only cut, and what was told stays told. -/
structure Later (s s' : PageEngine) : Prop where
  matched : s'.ports.Matched
  next : s'.ports.next = s.ports.next
  keys : ∀ e, e ∈ s'.ports.ports.keys → e ∈ s.ports.ports.keys
  peer : ∀ e b, s.ports.peer e = some b → e ∈ s'.ports.ports.keys → b ∈ s'.ports.ports.keys →
    s'.ports.peer e = some b
  closing : ∀ b, s.Closing b → b ∈ s'.ports.ports.keys → s'.Closing b
  ends : ∀ e b, s.ports.peer e = some b → e ∉ s'.ports.ports.keys →
    b ∉ s'.ports.ports.keys ∨ s'.Closing b

theorem Later.refl (h : s.ports.Matched) : Later s s := by
  refine ⟨h, rfl, fun _ he => he, fun _ _ hp _ _ => hp, fun _ hc _ => hc, fun e b hp he => ?_⟩
  obtain ⟨port, hport, -⟩ := PortTable.exists_of_peer hp
  exact absurd (PortTable.mem_keys hport) he

theorem Later.trans (h : Later s s') (h' : Later s' s'') : Later s s'' := by
  refine ⟨h'.matched, h'.next.trans h.next, fun e he => h.keys e (h'.keys e he),
    fun e b hp he hb => ?_, fun b hc hb => ?_, fun e b hp he => ?_⟩
  · exact h'.peer e b (h.peer e b hp (h'.keys e he) (h'.keys b hb)) he hb
  · exact h'.closing b (h.closing b hc (h'.keys b hb)) hb
  · by_cases hb : b ∈ s''.ports.ports.keys
    · by_cases he' : e ∈ s'.ports.ports.keys
      · exact h'.ends e b (h.peer e b hp he' (h'.keys b hb)) he
      · rcases h.ends e b hp he' with hb' | hc
        · exact absurd (h'.keys b hb) hb'
        · exact .inr (h'.closing b hc hb)
    · exact .inl hb

theorem Later.forgotten (h : Later s s') (he : e ∉ s'.ports.ports.keys) : s.Forgotten s' e :=
  ⟨he, fun b hb => h.ends e b hb he⟩

theorem inPlay_push (r : PortTable × List Delivery) :
    (s.push r).inPlay + s.ports.queued =
      s.inPlay + r.1.queued + r.2.flatMap Delivery.messages := by
  simp only [inPlay, push, SharedPorts.push, List.flatMap_append, ← Multiset.coe_add]
  abel

theorem later_set {port old : PortEndpoint} {deliveries : List Delivery}
    (hold : s.ports.ports.get? a = some old) (hpeer : port.peer = old.peer)
    (hpending : old.closePending = true → port.closePending = true)
    (hmatched : (s.ports.set a port).Matched) :
    Later s (s.push (s.ports.set a port, deliveries)) := by
  have hkeys : ∀ e, e ∈ (s.ports.set a port).ports.keys ↔ e ∈ s.ports.ports.keys := by
    intro e
    rw [PortTable.set, Dict.mem_keys_insert]
    constructor
    · rintro (rfl | he)
      · exact PortTable.mem_keys hold
      · exact he
    · exact .inr
  refine ⟨hmatched, rfl, fun e he => (hkeys e).1 he, fun e b hp _ _ => ?_, fun b hc _ => ?_,
    fun e b hp he => ?_⟩
  · exact (PortTable.peer_set hold hpeer).trans hp
  · obtain ⟨row, hrow, hnone, hnotice⟩ := hc
    by_cases hba : b = a
    · subst hba
      rw [hold] at hrow
      cases hrow
      refine ⟨port, by simp [push, SharedPorts.push], hpeer.trans hnone, hnotice.imp hpending fun hd => ?_⟩
      exact List.mem_append_left _ hd
    · refine ⟨row, by simp [push, SharedPorts.push, hba, hrow], hnone, hnotice.imp_right fun hd => ?_⟩
      exact List.mem_append_left _ hd
  · obtain ⟨row, hrow, -⟩ := PortTable.exists_of_peer hp
    exact absurd ((hkeys e).2 (PortTable.mem_keys hrow)) he

variable {r : PortTable × List Delivery}

theorem later_cut (h : s.ports.Matched)
    (hcut : PortTable.Cut s.ports a r) : Later s (s.push r) := by
  have hrow : ∀ e, e ∈ r.1.ports.keys → e ≠ a ∧ e ∈ s.ports.ports.keys := by
    intro e he
    obtain ⟨port, hport⟩ := (Dict.mem_keys_iff _ _).1 he
    obtain ⟨hne, old, hold, -⟩ := hcut.row h hport
    exact ⟨hne, PortTable.mem_keys hold⟩
  refine ⟨h.of_cut hcut, hcut.next, fun e he => (hrow e he).2, fun e b hp he hb => ?_,
    fun b hc hb => ?_, fun e b hp he => ?_⟩
  · show r.1.peer e = some b
    rw [hcut.peer h, if_neg, hp]
    rintro (rfl | hpeer)
    · exact (hrow e he).1 rfl
    · -- then the other end of `e` is the row that went
      have hback := (h.entangled a e hpeer).2
      rw [hp] at hback
      exact (hrow b hb).1 (Option.some.inj hback)
  · obtain ⟨row, hrow', hnone, hnotice⟩ := hc
    have hrest : r.1.ports.get? b = s.ports.ports.get? b := by
      refine hcut.rest b (hrow b hb).1 fun hpeer => ?_
      have hback := (h.entangled a b hpeer).2
      rw [PortTable.peer_eq hrow', hnone] at hback
      cases hback
    exact ⟨row, hrest.trans hrow', hnone, hnotice.imp_right fun hd => List.mem_append_left _ hd⟩
  · obtain ⟨row, hrow', -⟩ := PortTable.exists_of_peer hp
    have hea : e = a := by
      by_contra hne
      refine he ?_
      by_cases hpeer : s.ports.peer a = some e
      · exact PortTable.mem_keys (hcut.notice e row hpeer hrow').1
      · exact PortTable.mem_keys ((hcut.rest e hne hpeer).trans hrow')
    subst hea
    obtain ⟨other, hother, -⟩ := PortTable.exists_of_peer (h.entangled e b hp).2
    obtain ⟨hget, hsent⟩ := hcut.notice b other hp hother
    refine .inr ⟨_, hget, rfl, ?_⟩
    cases hd : other.detached with
    | true => exact .inl (by simp)
    | false => exact .inr (List.mem_append_right _ (by simp [hsent, hd]))

/-- A part of a step: the messages in `hand` come into play, and the endpoints of what goes out of
play are not in the table after it. -/
def Tidy (hand : Multiset QueuedPortMessage) (s s' : PageEngine) : Prop :=
  Later s s' ∧ ∃ dropped, s'.inPlay + dropped = hand + s.inPlay ∧
    ∀ message ∈ dropped, s'.ports.Bare message.ports

variable {hand : Multiset QueuedPortMessage}

theorem Tidy.of_same (h : Later s s')
    (hplay : s'.inPlay = hand + s.inPlay) : Tidy hand s s' :=
  ⟨h, 0, by rw [hplay, add_zero], by simp⟩

theorem Tidy.refl (h : s.ports.Matched) : Tidy 0 s s := .of_same (.refl h) (zero_add _).symm

theorem Tidy.trans {hand hand' : Multiset QueuedPortMessage} (h : Tidy hand s s')
    (h' : Tidy hand' s' s'') : Tidy (hand + hand') s s'' := by
  obtain ⟨hlater, dropped, hplay, hbare⟩ := h
  obtain ⟨hlater', dropped', hplay', hbare'⟩ := h'
  refine ⟨hlater.trans hlater', dropped + dropped', ?_, fun message hm => ?_⟩
  · calc s''.inPlay + (dropped + dropped')
        = (s''.inPlay + dropped') + dropped := by abel
      _ = hand' + (s'.inPlay + dropped) := by rw [hplay', add_assoc]
      _ = hand + hand' + s.inPlay := by rw [hplay]; abel
  · rcases Multiset.mem_add.1 hm with hm | hm
    · exact fun p hp hkey => hbare message hm p hp (hlater'.keys p hkey)
    · exact hbare' message hm

/-- The message in hand is not delivered, and its endpoints are not in the table. -/
theorem Tidy.drop (hand : Multiset QueuedPortMessage) (h : Tidy 0 s s')
    (hbare : ∀ message ∈ hand, s'.ports.Bare message.ports) : Tidy hand s s' := by
  obtain ⟨hlater, dropped, hplay, hrest⟩ := h
  refine ⟨hlater, hand + dropped, ?_, fun message hm => ?_⟩
  · rw [← add_assoc, add_comm s'.inPlay, add_assoc, hplay, zero_add]
  · rcases Multiset.mem_add.1 hm with hm | hm
    · exact hbare message hm
    · exact hrest message hm

/-- Writing a row back with `hand` in its queue, and turning the queue into deliveries if it is
enabled. -/
theorem tidy_drain {port old : PortEndpoint}
    (h : s.ports.Matched) (hold : s.ports.ports.get? a = some old) (hplace : port.place = old.place)
    (hpending : old.closePending = true → port.closePending = true)
    (hqueue : (port.queue : Multiset QueuedPortMessage) = hand + old.queue) :
    Tidy hand s (s.push (s.ports.drain a port)) := by
  have hpeer : port.peer = old.peer := congrArg Prod.fst hplace
  have hmessages : (port.queue.map fun message =>
      Delivery.portMessage a message.payload message.ports).flatMap Delivery.messages =
        port.queue := by
    rw [List.flatMap_map]
    induction port.queue with
    | nil => rfl
    | cons message queue ih => rw [List.flatMap_cons, ih]; rfl
  have hmatched : ∀ queue, (s.ports.set a { port with queue := queue }).Matched := fun queue =>
    h.congr (PortTable.samePlaces_set hold hplace)
  have hplay := inPlay_push (s := s) (s.ports.drain a port)
  refine .of_same ?_ ?_
  · unfold PortTable.drain
    split_ifs
    · exact later_set hold hpeer hpending (hmatched [])
    · exact later_set hold hpeer hpending (hmatched port.queue)
  · have hset : ∀ port : PortEndpoint, (s.ports.set a port).queued + old.queue =
        s.ports.queued + port.queue := fun port => PortTable.queued_set hold
    refine add_right_cancel (b := s.ports.queued + old.queue) ?_
    rw [← add_assoc, hplay]
    unfold PortTable.drain
    split_ifs
    · have := hset { port with queue := [] }
      dsimp only at this ⊢
      rw [hmessages, hqueue]
      calc s.inPlay + (s.ports.set a { port with queue := [] }).queued + (hand + old.queue) +
            old.queue
          = s.inPlay + ((s.ports.set a { port with queue := [] }).queued + old.queue) + hand +
            old.queue := by abel
        _ = hand + s.inPlay + (s.ports.queued + old.queue) := by
          rw [this, Multiset.coe_nil, add_zero]; abel
    · have := hset port
      dsimp only at this ⊢
      rw [List.flatMap_nil, Multiset.coe_nil, add_zero, add_assoc, this, hqueue]
      abel

theorem tidy_same (deliveries : List Delivery) {port old : PortEndpoint}
    (hold : s.ports.ports.get? a = some old) (hpeer : port.peer = old.peer)
    (hpending : old.closePending = true → port.closePending = true)
    (hqueue : port.queue = old.queue) (hmatched : (s.ports.set a port).Matched)
    (hsilent : deliveries.flatMap Delivery.messages = []) :
    Tidy 0 s (s.push (s.ports.set a port, deliveries)) := by
  refine .of_same (later_set hold hpeer hpending hmatched) ?_
  have hplay := inPlay_push (s := s) (s.ports.set a port, deliveries)
  rw [PortTable.queued_set_of_queue hold hqueue, hsilent, Multiset.coe_nil, add_zero] at hplay
  rw [add_right_cancel hplay, zero_add]

theorem tidy_requeue (h : s.ports.Matched) (payload : Text) (ports : List Nat)
    (hfound : e ∈ s.ports.ports.keys ∨ s.ports.Bare ports) :
    Tidy {⟨payload, ports⟩} s (s.push (s.ports.requeue e payload ports)) := by
  cases he : s.ports.ports.get? e with
  | none =>
    have hsame : s.push (s.ports.requeue e payload ports) = s := by
      simp [PortTable.requeue, he, push, SharedPorts.push]
    rw [hsame]
    refine (Tidy.refl h).drop _ fun message hm => ?_
    rw [Multiset.mem_singleton.1 hm]
    refine hfound.resolve_left fun hkey => ?_
    obtain ⟨port, hport⟩ := (Dict.mem_keys_iff _ _).1 hkey
    rw [he] at hport
    cases hport
  | some port =>
    have hrequeue : s.ports.requeue e payload ports =
        s.ports.drain e { port with queue := ⟨payload, ports⟩ :: port.queue } := by
      simp [PortTable.requeue, he, h.opened e port he]
    rw [hrequeue]
    exact tidy_drain h he rfl id (by simp)

variable {frame : FrameId}

theorem tidy_post {source : Nat} (h : s.ports.Matched)
    (howned : s.ports.owner source = some frame) (payload : Text) (ports : List Nat)
    (hfound : ports = [] ∨ (s.ports.peer source).isSome = true) :
    Tidy {⟨payload, ports⟩} s (s.push (s.ports.post source payload ports)) := by
  have hrow : ∃ port, s.ports.ports.get? source = some port ∧ port.owner = some frame := by
    simpa [PortTable.owner, Option.bind_eq_some_iff] using howned
  obtain ⟨port, hport, howner⟩ := hrow
  have hopen := h.opened source port hport
  have hplaced : port.detached = false := (h.placed source port hport).1 (by rw [howner]; rfl)
  cases hpeer : port.peer with
  | none =>
    have hsame : s.push (s.ports.post source payload ports) = s := by
      simp [PortTable.post, hport, hopen, hplaced, hpeer, push, SharedPorts.push]
    rw [hsame]
    refine (Tidy.refl h).drop _ fun message hm => ?_
    rw [Multiset.mem_singleton.1 hm]
    rcases hfound with rfl | hsome
    · exact fun p hp => absurd hp List.not_mem_nil
    · rw [PortTable.peer_eq hport, hpeer] at hsome
      cases hsome
  | some b =>
    obtain ⟨other, hother, -⟩ := PortTable.exists_of_peer
      (h.entangled source b (by rw [PortTable.peer_eq hport, hpeer])).2
    have hpost : s.ports.post source payload ports =
        s.ports.drain b { other with queue := other.queue ++ [⟨payload, ports⟩] } := by
      simp [PortTable.post, hport, hopen, hplaced, hpeer, hother, h.opened b other hother]
    rw [hpost]
    refine tidy_drain h hother rfl id ?_
    rw [← Multiset.coe_add, add_comm]
    rfl

theorem tidy_start (h : s.ports.Matched) (e : Nat) : Tidy 0 s (s.push (s.ports.start e)) := by
  rcases s.ports.start_cases e with hs | ⟨port, he, hs⟩
  · rw [hs, show s.push (s.ports, []) = s from by simp [push, SharedPorts.push]]
    exact .refl h
  · rw [hs]
    exact tidy_drain h he rfl id (zero_add _).symm

theorem tidy_requeueClose (h : s.ports.Matched) (e : Nat) :
    Tidy 0 s (s.push (s.ports.requeueClose e)) := by
  have hnone : Tidy 0 s (s.push (s.ports, [])) := by
    rw [show s.push (s.ports, []) = s from by simp [push, SharedPorts.push]]
    exact .refl h
  unfold PortTable.requeueClose
  cases he : s.ports.ports.get? e with
  | none => exact hnone
  | some port =>
    dsimp only
    split_ifs
    · exact hnone
    · exact tidy_same [] he rfl (fun _ => rfl) rfl (h.set he rfl (h.opened e port he)
        (h.placed e port he)) rfl
    · refine .of_same ⟨h, rfl, fun _ hk => hk, fun _ _ hp _ _ => hp, fun b hc _ => ?_,
        fun e' b hp hk => ?_⟩ ?_
      · obtain ⟨row, hrow, hnone, hnotice⟩ := hc
        exact ⟨row, hrow, hnone, hnotice.imp_right fun hd => List.mem_append_left _ hd⟩
      · obtain ⟨row, hrow, -⟩ := PortTable.exists_of_peer hp
        exact absurd (PortTable.mem_keys hrow) hk
      · simp [inPlay, push, SharedPorts.push, Delivery.messages]

theorem tidy_routeEndpoints (h : s.ports.Matched) (l : List Nat) (frame : FrameId) :
    Tidy 0 s (s.routeEndpoints l frame) := by
  induction l generalizing s with
  | nil => exact .refl h
  | cons e rest ih =>
    have hroute : Tidy 0 s { s with ports := s.ports.route e frame } := by
      cases he : s.ports.ports.get? e with
      | none =>
        rw [PortTable.route_of_none he]
        exact .refl h
      | some port =>
        have hmatched := h.route e frame
        rw [PortTable.route_eq_set he] at hmatched ⊢
        have hpush := tidy_same [] he (by split_ifs <;> rfl)
          (fun hp => by split_ifs <;> exact hp) (by split_ifs <;> rfl) hmatched rfl
        unfold push SharedPorts.push at hpush
        rwa [List.append_nil] at hpush
    exact (add_zero (0 : Multiset QueuedPortMessage)) ▸ hroute.trans (ih hroute.1.matched)

theorem tidy_pushTask (h : s.ports.Matched) (task : MessageTask)
    (hlive : s.frames.contains frame = true) : Tidy task.messages s (s.pushTask frame task) := by
  obtain ⟨document, hdocument⟩ := Option.isSome_iff_exists.1 hlive
  refine .of_same ⟨h, rfl, fun _ hk => hk, fun _ _ hp _ _ => hp, fun _ hc _ => hc,
    fun e b hp hk => ?_⟩ ?_
  · obtain ⟨row, hrow, -⟩ := PortTable.exists_of_peer hp
    exact absurd (PortTable.mem_keys hrow) hk
  · have hmodify := Dict.collect_modify
      (f := fun document : FrameDocument => document.tasks.flatMap MessageTask.messages)
      (g := fun document => { document with tasks := document.tasks ++ [task] }) hdocument
    simp only [List.flatMap_append, List.flatMap_cons, List.flatMap_nil, List.append_nil,
      ← Multiset.coe_add] at hmodify
    have htasks := add_right_cancel (hmodify.trans (add_left_comm _ _ _ |>.trans
      (add_comm _ _)))
    simp only [inPlay, pushTask]
    rw [htasks]
    abel

/-! ### Endpoints that go -/

/-- The endpoints of `l` are taken out of the table, and the messages in their queues with them. -/
structure Sheds (l : List Nat) (s s' : PageEngine) : Prop where
  later : Later s s'
  gone : ∀ e ∈ l, e ∉ s'.ports.ports.keys
  queues : ∀ e, ∀ message ∈ s'.ports.queueOf e, message ∈ s.ports.queueOf e
  dropped : ∃ dropped, s'.inPlay + dropped = s.inPlay ∧
    ∀ message ∈ dropped, ∃ e ∈ l, message ∈ s.ports.queueOf e

theorem Sheds.nil (h : s.ports.Matched) : Sheds [] s s :=
  ⟨.refl h, by simp, fun _ _ hm => hm, 0, add_zero _, by simp⟩

theorem Sheds.append {l l' : List Nat} (h : Sheds l s s') (h' : Sheds l' s' s'') :
    Sheds (l ++ l') s s'' := by
  obtain ⟨dropped, hplay, hmem⟩ := h.dropped
  obtain ⟨dropped', hplay', hmem'⟩ := h'.dropped
  refine ⟨h.later.trans h'.later, fun e he hk => ?_,
    fun e message hm => h.queues e message (h'.queues e message hm), dropped' + dropped, ?_,
    fun message hm => ?_⟩
  · rcases List.mem_append.1 he with he | he
    · exact h.gone e he (h'.later.keys e hk)
    · exact h'.gone e he hk
  · rw [← add_assoc, hplay', hplay]
  · rcases Multiset.mem_add.1 hm with hm | hm
    · obtain ⟨e, he, hq⟩ := hmem' message hm
      exact ⟨e, List.mem_append_right _ he, h.queues e message hq⟩
    · obtain ⟨e, he, hq⟩ := hmem message hm
      exact ⟨e, List.mem_append_left _ he, hq⟩

/-- What they carried went with them. -/
theorem Sheds.tidy {l : List Nat} (h : Sheds l s s') (hclear : s.ports.ClearOf l) :
    Tidy 0 s s' := by
  obtain ⟨dropped, hplay, hmem⟩ := h.dropped
  refine ⟨h.later, dropped, by rw [hplay, zero_add], fun message hm p hp hk => ?_⟩
  obtain ⟨e, he, hq⟩ := hmem message hm
  rcases hclear e he message hq p hp with hl | hgone
  · exact h.gone p hl hk
  · exact hgone (h.later.keys p hk)

theorem sheds_of_none (h : s.ports.Matched) (ha : s.ports.ports.get? a = none) : Sheds [a] s s := by
  refine ⟨.refl h, fun e he hk => ?_, fun _ _ hm => hm, 0, add_zero _, by simp⟩
  rw [List.mem_singleton.1 he] at hk
  exact (Dict.get?_eq_none_iff _ _).1 ha hk

theorem sheds_cut {port : PortEndpoint} (h : s.ports.Matched)
    (ha : s.ports.ports.get? a = some port) (hcut : PortTable.Cut s.ports a r) :
    Sheds [a] s (s.push r) := by
  have hqueue : ∀ c, c ≠ a → r.1.queueOf c = s.ports.queueOf c := by
    intro c hc
    rw [PortTable.queueOf, hcut.queue h hc, PortTable.queueOf]
  refine ⟨later_cut h hcut, fun e he hk => ?_, fun e message hm => ?_, port.queue, ?_,
    fun message hm => ⟨a, List.mem_singleton.2 rfl, ?_⟩⟩
  · rw [List.mem_singleton.1 he] at hk
    exact (Dict.get?_eq_none_iff _ _).1 hcut.gone hk
  · by_cases hea : e = a
    · subst hea
      rw [PortTable.queueOf, show (s.push r).ports.ports.get? e = none from hcut.gone] at hm
      cases hm
    · exact hqueue e hea ▸ hm
  · have hsilent : r.2.flatMap Delivery.messages = [] := by
      cases hp : s.ports.peer a with
      | none => rw [hcut.silent hp]; rfl
      | some b =>
        obtain ⟨other, hother, -⟩ := PortTable.exists_of_peer (h.entangled a b hp).2
        rw [(hcut.notice b other hp hother).2]
        split_ifs <;> rfl
    have hgone := PortTable.queued_of_gone ha hcut.gone fun c hc => hcut.queue h hc
    have hplay := inPlay_push (s := s) r
    rw [hsilent, Multiset.coe_nil, add_zero, ← hgone] at hplay
    refine add_right_cancel (b := r.1.queued) ?_
    rw [← hplay]
    abel
  · rw [PortTable.queueOf_eq ha]
    exact Multiset.mem_coe.1 hm

theorem sheds_forget (h : s.ports.Matched) (e : Nat) : Sheds [e] s (s.push (s.ports.forget e)) := by
  cases he : s.ports.ports.get? e with
  | none =>
    rw [PortTable.forget_of_none he, show s.push (s.ports, []) = s from by simp [push, SharedPorts.push]]
    exact sheds_of_none h he
  | some port => exact sheds_cut h he (h.cut_forget he)

theorem sheds_close (h : s.ports.Matched) (e : Nat) : Sheds [e] s (s.push (s.ports.close e)) := by
  cases he : s.ports.ports.get? e with
  | none =>
    rw [PortTable.close_of_none he, show s.push (s.ports, []) = s from by simp [push, SharedPorts.push]]
    exact sheds_of_none h he
  | some port => exact sheds_cut h he (h.cut_close he)

theorem sheds_forgetEndpoints (h : s.ports.Matched) (l : List Nat) :
    Sheds l s (s.forgetEndpoints l) := by
  induction l generalizing s with
  | nil => exact .nil h
  | cons e rest ih =>
    have hone := sheds_forget h e
    exact hone.append (ih hone.later.matched)

theorem sheds_forgetTasks (h : s.ports.Matched) (tasks : List MessageTask) :
    Sheds (tasks.flatMap MessageTask.ports) s (s.forgetTasks tasks) := by
  induction tasks generalizing s with
  | nil => exact .nil h
  | cons task rest ih =>
    have hone := sheds_forgetEndpoints h task.ports
    exact hone.append (ih hone.later.matched)

theorem push_closeAll (l : List Nat) :
    (s.push r).push ((s.push r).ports.closeAll l) =
      s.push ((r.1.closeAll l).1, r.2 ++ (r.1.closeAll l).2) := by
  simp [push, SharedPorts.push]

theorem sheds_closeAll (h : s.ports.Matched) (l : List Nat) :
    Sheds l s (s.push (s.ports.closeAll l)) := by
  induction l generalizing s with
  | nil =>
    rw [PortTable.closeAll, show s.push (s.ports, []) = s from by simp [push, SharedPorts.push]]
    exact .nil h
  | cons e rest ih =>
    have hone := sheds_close h e
    have hrest := ih hone.later.matched
    rw [push_closeAll] at hrest
    exact hone.append hrest

variable {order : List Nat}

theorem sheds_closeFramePorts (h : s.ports.Matched)
    (hperm : order.Perm (s.ports.owned frame)) : Sheds order s (s.closeFramePorts frame order) := by
  rw [closeFramePorts, SharedPorts.closeFramePorts, PortTable.closeFramePorts, if_pos hperm]
  exact sheds_closeAll h order

/-! ### Steps that lose no endpoint -/

/-- No message in play names any of the endpoints. -/
def Unnamed (s : PageEngine) (l : List Nat) : Prop :=
  ∀ p ∈ l, s.inPlay.countP (fun message => p ∈ message.ports) = 0

/-- A delivery is routed, or its endpoints go and nothing waits at them that carries others. -/
def DeliverySpares (s : PageEngine) : Delivery → Prop
  | .windowMessage target document _ _ _ _ ports =>
    s.runnable target document = true ∨ s.ports.ClearOf ports
  | .portMessage endpoint _ ports =>
    match s.ports.owner endpoint with
    | some frame => s.frames.contains frame = true ∨ s.ports.ClearOf ports
    | none => endpoint ∈ s.ports.ports.keys ∨ s.ports.Bare ports
  | .portClosed _ => True

def BatchSpares (s : PageEngine) : List Delivery → Prop
  | [] => True
  | delivery :: rest => s.DeliverySpares delivery ∧ (s.applyDelivery delivery).BatchSpares rest

/-- A task reaches its realm, or goes back to a queue that is there, or its endpoints go. -/
def TaskSpares (s : PageEngine) (frame : FrameId) (document : FrameDocument) (realm : Bool) :
    MessageTask → Prop
  | .windowMessage message =>
    if message.targetOrigin.admits document.origin then
      realm = true ∨ s.ports.Bare message.ports
    else s.ports.ClearOf message.ports
  | .portMessage endpoint _ ports =>
    if s.endpointMoved frame endpoint then
      endpoint ∈ s.ports.ports.keys ∨ s.ports.Bare ports
    else realm = true ∨ s.ports.Bare ports
  | .portClosed _ => True

/-- The branches that drop a message do not meet one that carries an endpoint still in the table,
and a transfer names no endpoint that a message in play carries. -/
def Spares (s : PageEngine) : Op → Prop
  | .portNew _ => s.ports.next < u64Max
  | .portPost frame endpoint payload ports =>
    s.postAdmitted frame endpoint payload ports = true →
      ports = [] ∨ (s.ports.peer endpoint).isSome = true ∧ s.Unnamed ports
  | .postWindowMessage source target _ targetOrigin payload ports =>
    s.windowPostAdmitted source payload ports = true →
      if targetOrigin.isSome && (s.documentIds.get? target).isSome then s.Unnamed ports
      else s.ports.ClearOf ports
  | .portClose frame endpoint => s.endpointOwned frame endpoint = true → s.ports.ClearOf [endpoint]
  | .applyDeliveries => { s with batch := [] }.BatchSpares s.batch
  | .runTask frame realm =>
    ∀ document ∈ s.frames.get? frame, ∀ task ∈ document.tasks.head?,
      s.TaskSpares frame document realm task
  | .resetRealm frame _ order =>
    ∀ document ∈ s.frames.get? frame,
      s.ports.ClearOf (document.tasks.flatMap MessageTask.ports ++ order)
  | .detachFrame _ order => s.ports.ClearOf order
  | .dropFrame frame order => s.ports.ClearOf order ∧
      ∀ document ∈ s.frames.get? frame, ∀ p ∈ document.tasks.flatMap MessageTask.ports,
        p ∈ order ∨ p ∉ s.ports.ports.keys
  | _ => True

instance (s : PageEngine) (l : List Nat) : Decidable (s.Unnamed l) :=
  inferInstanceAs (Decidable (∀ p ∈ l, _))

instance (s : PageEngine) (d : Delivery) : Decidable (s.DeliverySpares d) :=
  match d with
  | .windowMessage _ _ _ _ _ _ _ => inferInstanceAs (Decidable (_ ∨ _))
  | .portMessage endpoint _ ports =>
    match h : s.ports.owner endpoint with
    | some frame =>
      decidable_of_iff (s.frames.contains frame = true ∨ s.ports.ClearOf ports)
        (by simp only [DeliverySpares, h])
    | none =>
      decidable_of_iff (endpoint ∈ s.ports.ports.keys ∨ s.ports.Bare ports)
        (by simp only [DeliverySpares, h])
  | .portClosed _ => .isTrue trivial

instance decidableBatchSpares (s : PageEngine) (l : List Delivery) : Decidable (s.BatchSpares l) :=
  match l with
  | [] => .isTrue trivial
  | d :: rest =>
    have := decidableBatchSpares (s.applyDelivery d) rest
    inferInstanceAs (Decidable (_ ∧ _))

instance (s : PageEngine) (frame : FrameId) (document : FrameDocument) (realm : Bool)
    (task : MessageTask) : Decidable (s.TaskSpares frame document realm task) :=
  match task with
  | .windowMessage _ | .portMessage _ _ _ => by unfold TaskSpares; infer_instance
  | .portClosed _ => .isTrue trivial

instance (s : PageEngine) (op : Op) : Decidable (s.Spares op) := by
  cases op <;> unfold Spares <;> infer_instance

instance (s : PageEngine) (op : Op) (s' : PageEngine) (message : QueuedPortMessage) :
    Decidable (s.Discards op s' message) := Nat.decLt _ _

theorem ports_of_mem_messages {d : MessageTask} {message : QueuedPortMessage}
    (h : message ∈ d.messages) : message.ports = d.ports := by
  cases d with
  | portClosed => cases h
  | _ =>
    rw [List.mem_singleton.1 h]
    rfl

/-- A message whose endpoints are all forgotten is accounted for. -/
theorem tidy_forgetEndpoints (h : s.ports.Matched) {l : List Nat} (hclear : s.ports.ClearOf l)
    (hhand : ∀ message ∈ hand, message.ports = l) :
    Tidy hand s (s.forgetEndpoints l) := by
  have hsheds := sheds_forgetEndpoints h l
  refine (hsheds.tidy hclear).drop hand fun message hm p hp => ?_
  rw [hhand message hm] at hp
  exact hsheds.gone p hp

theorem tidy_routed (h : s.ports.Matched) (ports : List Nat) (task : MessageTask)
    (hlive : s.frames.contains frame = true) :
    Tidy task.messages s ((s.routeEndpoints ports frame).pushTask frame task) := by
  have hroute := tidy_routeEndpoints h ports frame
  have hpush := tidy_pushTask (s := s.routeEndpoints ports frame) hroute.1.matched task hlive
  have hboth := hroute.trans hpush
  rwa [zero_add] at hboth

theorem tidy_applies {d : Delivery} (h : s.ports.Matched) (hd : s.Applies d s')
    (hspares : s.DeliverySpares d) : Tidy d.messages s s' := by
  cases hd with
  | window target document source origin targetOrigin payload ports hlive =>
    simp only [runnable, Bool.and_eq_true] at hlive
    exact tidy_routed h ports (.windowMessage ⟨source, origin, targetOrigin, payload, ports⟩) hlive.1
  | windowGone target document source origin targetOrigin payload ports hgone =>
    refine tidy_forgetEndpoints h (hspares.resolve_left ?_) fun message hm => ?_
    · rw [hgone]
      decide
    · rw [Multiset.mem_singleton.1 hm]
  | port endpoint payload ports frame howner hlive =>
    exact tidy_routed h ports (.portMessage endpoint payload ports) hlive
  | portGone endpoint payload ports frame howner hgone =>
    simp only [DeliverySpares, howner, hgone, Bool.false_eq_true, false_or] at hspares
    refine tidy_forgetEndpoints h hspares fun message hm => ?_
    rw [Multiset.mem_singleton.1 hm]
  | requeued endpoint payload ports howner =>
    simp only [DeliverySpares, howner] at hspares
    exact tidy_requeue h payload ports hspares
  | closed endpoint frame howner hlive => exact tidy_pushTask h _ hlive
  | closedGone => exact .refl h
  | closeRequeued endpoint => exact tidy_requeueClose h endpoint

theorem tidy_applyAll (h : s.ports.Matched) {l : List Delivery} (hspares : s.BatchSpares l) :
    Tidy (l.flatMap Delivery.messages : List QueuedPortMessage) s (s.applyAll l) := by
  induction l generalizing s with
  | nil => exact .refl h
  | cons d rest ih =>
    have hone := tidy_applies h (s.applies_applyDelivery d) hspares.1
    rw [List.flatMap_cons, ← Multiset.coe_add]
    exact hone.trans (ih hone.1.matched hspares.2)

/-! ### Whole steps -/

structure Inv (s : PageEngine) : Prop where
  matched : s.ports.Matched
  fresh : s.ports.next < u64Max → ∀ e ∈ s.ports.ports.keys, e < s.ports.next
  once : ∀ e, s.inPlay.countP (fun message => e ∈ message.ports) ≤ 1

/-- Every message in play before the step, or sent by it, is in play after it or received, but for
some whose endpoints are forgotten. -/
def Accounted (s : PageEngine) (op : Op) (s' : PageEngine) : Prop :=
  ∃ dropped, s'.inPlay + s.received op + dropped = s.inPlay + s.sent op ∧
    ∀ message ∈ dropped, ∀ p ∈ message.ports, s.Forgotten s' p

variable {op : Op}

theorem Accounted.forgets (h : s.Accounted op s') (hstep : s.step op = some s') :
    s.ForgetsDiscarded op := by
  intro s'' hs'' message hless e he
  rw [hstep, Option.some.injEq] at hs''
  subst hs''
  obtain ⟨dropped, hplay, hall⟩ := h
  refine hall message (Multiset.count_pos.1 ?_) e he
  unfold Discards at hless
  rw [← hplay, Multiset.count_add _ _ dropped] at hless
  omega

theorem Forgotten.of_ports {s₁ : PageEngine} (hports : s₁.ports = s.ports)
    (h : s₁.Forgotten s' e) : s.Forgotten s' e := by
  refine ⟨h.1, fun b hb => h.2 b ?_⟩
  rw [hports]
  exact hb

/-- What a step that spares endpoints does: the table stays sound and no message gets lost. -/
structure Steps (s : PageEngine) (op : Op) (s' : PageEngine) : Prop where
  matched : s'.ports.Matched
  fresh : s'.ports.next < u64Max → ∀ e ∈ s'.ports.ports.keys, e < s'.ports.next
  accounted : s.Accounted op s'

/-- A step in which `hand` went out of play first, or is sent. -/
theorem Tidy.steps {s₁ : PageEngine} (hs : s.Inv)
    (h : Tidy hand s₁ s') (hports : s₁.ports = s.ports) (hreceived : s.received op = 0)
    (hplay : hand + s₁.inPlay = s.inPlay + s.sent op) : s.Steps op s' := by
  obtain ⟨hlater, dropped, hdropped, hbare⟩ := h
  refine ⟨hlater.matched, fun hlt e he => ?_, dropped, ?_, fun message hm p hp => ?_⟩
  · rw [hlater.next, hports] at hlt ⊢
    exact hs.fresh hlt e (hports ▸ hlater.keys e he)
  · rw [hreceived, add_zero, hdropped, hplay]
  · exact (hlater.forgotten (hbare message hm p hp)).of_ports hports

theorem steps_of_eq (hmatched : s'.ports.Matched)
    (hfresh : s'.ports.next < u64Max → ∀ e ∈ s'.ports.ports.keys, e < s'.ports.next)
    (hreceived : s.received op = 0) (hsent : s.sent op = 0) (hplay : s'.inPlay = s.inPlay) :
    s.Steps op s' :=
  ⟨hmatched, hfresh, 0, by rw [hreceived, hsent, hplay, add_zero], by simp⟩

theorem Accounted.once (h : s.Accounted op s') (hs : s.Inv)
    (hunnamed : ∀ message ∈ s.sent op, s.Unnamed message.ports)
    (hcard : Multiset.card (s.sent op) ≤ 1) (e : Nat) :
    s'.inPlay.countP (fun message => e ∈ message.ports) ≤ 1 := by
  obtain ⟨dropped, hplay, -⟩ := h
  have hcount := congrArg (Multiset.countP fun message => e ∈ message.ports) hplay
  simp only [Multiset.countP_add] at hcount
  have honce := hs.once e
  by_cases hnone : (s.sent op).countP (fun message => e ∈ message.ports) = 0
  · omega
  · obtain ⟨message, hm, he⟩ := Multiset.countP_pos.1 (Nat.pos_of_ne_zero hnone)
    have hzero := hunnamed message hm e he
    have hle := Multiset.countP_le_card (fun message : QueuedPortMessage => e ∈ message.ports)
      (s.sent op)
    omega

theorem inPlay_setTasks {document : FrameDocument}
    (h : s.frames.get? frame = some document) (tasks : List MessageTask) :
    (s.setTasks frame tasks).inPlay + document.tasks.flatMap MessageTask.messages =
      s.inPlay + tasks.flatMap MessageTask.messages := by
  have hmodify := Dict.collect_modify
    (f := fun document : FrameDocument => document.tasks.flatMap MessageTask.messages)
    (g := fun document => { document with tasks := tasks }) h
  simp only [inPlay, setTasks]
  rw [add_assoc, hmodify]
  abel

/-- The engine with other document identities: nothing that messages or ports depend on. -/
theorem sheds_of_eq (h : s.ports.Matched) (hports : s'.ports = s.ports)
    (hdeliveries : s'.deliveries = s.deliveries) (hplay : s'.inPlay = s.inPlay) : Sheds [] s s' := by
  refine ⟨⟨hports ▸ h, by rw [hports], fun e he => hports ▸ he, fun e b hp _ _ => ?_,
    fun b hc _ => ?_, fun e b hp he => ?_⟩, by simp, fun e m hm => hports ▸ hm, 0,
    by rw [hplay, add_zero], by simp⟩
  · rw [hports]
    exact hp
  · unfold Closing
    rw [hports, hdeliveries]
    exact hc
  · obtain ⟨port, hport, -⟩ := PortTable.exists_of_peer hp
    rw [hports] at he
    exact absurd (PortTable.mem_keys hport) he

theorem steps_portPost {endpoint : Nat} {payload : Text} {ports : List Nat}
    (h : s.Inv) (hspares : s.Spares (.portPost frame endpoint payload ports)) :
    s.Steps (.portPost frame endpoint payload ports)
      (s.portPost frame endpoint payload ports) := by
  unfold portPost
  cases hadmitted : s.postAdmitted frame endpoint payload ports with
  | false =>
    exact steps_of_eq h.matched h.fresh rfl (by simp [sent, hadmitted]) (by simp)
  | true =>
    have howned : s.ports.owner endpoint = some frame := by
      simp only [postAdmitted, endpointOwned, Bool.and_eq_true, decide_eq_true_eq] at hadmitted
      exact hadmitted.1.2
    have htidy := tidy_post h.matched howned payload ports ((hspares hadmitted).imp_right And.left)
    simp only [if_true]
    exact htidy.steps h rfl rfl (by simp [sent, hadmitted, add_comm])

theorem steps_postWindowMessage {source target : FrameId} {origin : Text}
    {targetOrigin : Option TargetOrigin} {payload : Text} {ports : List Nat} (h : s.Inv)
    (hspares : s.Spares (.postWindowMessage source target origin targetOrigin payload ports)) :
    s.Steps (.postWindowMessage source target origin targetOrigin payload ports)
      (s.postWindowMessage source target origin targetOrigin payload ports) := by
  unfold postWindowMessage
  cases hadmitted : s.windowPostAdmitted source payload ports with
  | false => exact steps_of_eq h.matched h.fresh rfl (by simp [sent, hadmitted]) (by simp)
  | true =>
    simp only [if_true]
    have hspares := hspares hadmitted
    have hgone : s.ports.ClearOf ports → Tidy {⟨payload, ports⟩} s (s.forgetEndpoints ports) :=
      fun hclear => tidy_forgetEndpoints h.matched hclear fun message hm => by
        rw [Multiset.mem_singleton.1 hm]
    have hsent : {⟨payload, ports⟩} + s.inPlay = s.inPlay +
        s.sent (.postWindowMessage source target origin targetOrigin payload ports) := by
      simp [sent, hadmitted, add_comm]
    cases htarget : targetOrigin with
    | none =>
      subst htarget
      exact (hgone (by simpa using hspares)).steps h rfl rfl hsent
    | some admitted =>
      subst htarget
      cases hdocument : s.documentIds.get? target with
      | none => exact (hgone (by simpa [hdocument] using hspares)).steps h rfl rfl hsent
      | some document =>
        refine ⟨h.matched, h.fresh, 0, ?_, by simp⟩
        simp only [received, sent, hadmitted, if_true, add_zero, inPlay, List.flatMap_append,
          ← Multiset.coe_add]
        rw [show ([Delivery.windowMessage target document source origin admitted payload ports].flatMap
          Delivery.messages : Multiset QueuedPortMessage) = {⟨payload, ports⟩} from rfl]
        abel

theorem step_runTask {realm : Bool}
    (hstep : s.step (.runTask frame realm) = some s') :
    ∃ document task rest, s.frames.get? frame = some document ∧ document.tasks = task :: rest ∧
      s' = (s.setTasks frame rest).deliver frame document.origin task := by
  simp only [step] at hstep
  cases hdocument : s.frames.get? frame with
  | none =>
    rw [hdocument] at hstep
    cases hstep
  | some document =>
    rw [hdocument] at hstep
    cases htasks : document.tasks with
    | nil =>
      simp only [htasks] at hstep
      cases hstep
    | cons task rest =>
      simp only [htasks, Option.some.injEq] at hstep
      exact ⟨document, task, rest, rfl, htasks, hstep.symm⟩

theorem steps_runTask {realm : Bool} (h : s.Inv)
    (hspares : s.Spares (.runTask frame realm)) (hstep : s.step (.runTask frame realm) = some s') :
    s.Steps (.runTask frame realm) s' := by
  obtain ⟨document, task, rest, hdocument, htasks, rfl⟩ := step_runTask hstep
  have hplay : (task.messages : Multiset QueuedPortMessage) + (s.setTasks frame rest).inPlay =
      s.inPlay := by
    have hset := inPlay_setTasks hdocument rest
    rw [htasks, List.flatMap_cons, ← Multiset.coe_add, ← add_assoc] at hset
    rw [add_comm]
    exact add_right_cancel hset
  have hplay' : (task.messages : Multiset QueuedPortMessage) + (s.setTasks frame rest).inPlay =
      s.inPlay + s.sent (.runTask frame realm) := hplay.trans (add_zero _).symm
  have hspares : s.TaskSpares frame document realm task :=
    hspares document hdocument task (by rw [htasks]; rfl)
  have hreceived : s.received (.runTask frame realm) =
      if realm && s.reaches frame document.origin task then ↑task.messages else 0 := by
    simp [received, hdocument, htasks]
  have hmatched : (s.setTasks frame rest).ports.Matched := h.matched
  cases hreaches : s.reaches frame document.origin task with
  | false =>
    rw [hreaches, Bool.and_false] at hreceived
    refine (?_ : Tidy task.messages (s.setTasks frame rest) _).steps h rfl hreceived hplay'
    cases task with
    | windowMessage message =>
      simp only [reaches] at hreaches
      simp only [TaskSpares, hreaches, Bool.false_eq_true, if_false] at hspares
      simp only [deliver, hreaches, Bool.false_eq_true, if_false]
      refine tidy_forgetEndpoints hmatched hspares fun m hm => ?_
      rw [List.mem_singleton.1 (Multiset.mem_coe.1 hm)]
    | portMessage endpoint payload ports =>
      simp only [reaches, Bool.not_eq_false'] at hreaches
      simp only [TaskSpares, hreaches, if_true] at hspares
      have hmoved : (s.setTasks frame rest).endpointMoved frame endpoint = true := hreaches
      simp only [deliver, hmoved, if_true]
      exact tidy_requeue hmatched payload ports hspares
    | portClosed endpoint =>
      simp only [reaches, Bool.not_eq_false'] at hreaches
      have hmoved : (s.setTasks frame rest).endpointMoved frame endpoint = true := hreaches
      simp only [deliver, hmoved, if_true]
      exact tidy_requeueClose hmatched endpoint
  | true =>
    rw [hreaches, Bool.and_true] at hreceived
    have hsame : (s.setTasks frame rest).deliver frame document.origin task =
        s.setTasks frame rest := by
      cases task with
      | windowMessage message =>
        simp only [reaches] at hreaches
        simp only [deliver, hreaches, if_true]
      | portMessage endpoint payload ports =>
        simp only [reaches, Bool.not_eq_true'] at hreaches
        have hmoved : (s.setTasks frame rest).endpointMoved frame endpoint = false := hreaches
        simp only [deliver, hmoved, Bool.false_eq_true, if_false]
      | portClosed endpoint =>
        simp only [reaches, Bool.not_eq_true'] at hreaches
        have hmoved : (s.setTasks frame rest).endpointMoved frame endpoint = false := hreaches
        simp only [deliver, hmoved, Bool.false_eq_true, if_false]
    rw [hsame]
    cases realm with
    | true =>
      refine ⟨hmatched, h.fresh, 0, ?_, by simp⟩
      rw [hreceived, if_pos rfl, add_zero, add_comm]
      exact hplay'
    | false =>
      -- the realm could not be made, so the message is lost
      have hbare : s.ports.Bare task.ports := by
        cases task with
        | windowMessage message =>
          simp only [reaches] at hreaches
          show s.ports.Bare message.ports
          simpa [TaskSpares, hreaches] using hspares
        | portMessage endpoint payload ports =>
          simp only [reaches, Bool.not_eq_true'] at hreaches
          show s.ports.Bare ports
          simpa [TaskSpares, hreaches] using hspares
        | portClosed endpoint => exact fun p hp => absurd hp List.not_mem_nil
      refine (Tidy.drop _ (.refl hmatched) fun m hm => ?_ :
        Tidy task.messages (s.setTasks frame rest) _).steps h rfl hreceived hplay'
      rw [ports_of_mem_messages (Multiset.mem_coe.1 hm)]
      exact hbare

theorem ports_of_mem_tasks {tasks : List MessageTask} {message : QueuedPortMessage}
    (h : message ∈ tasks.flatMap MessageTask.messages) {p : Nat} (hp : p ∈ message.ports) :
    p ∈ tasks.flatMap MessageTask.ports := by
  obtain ⟨task, htask, hm⟩ := List.mem_flatMap.1 h
  rw [ports_of_mem_messages hm] at hp
  exact List.mem_flatMap.2 ⟨task, htask, hp⟩

theorem sheds_resetRealm (reason : RealmReset) {tasks : List MessageTask} (h : s.Inv)
    (hperm : order.Perm ((s.resetTasks frame tasks).ports.owned frame)) :
    Sheds (tasks.flatMap MessageTask.ports ++ order) (s.setTasks frame [])
      (s.resetRealm frame reason tasks order) := by
  have htasks := sheds_forgetTasks (s := s.setTasks frame []) h.matched tasks
  have hmatched := htasks.later.matched
  cases reason with
  | reopen => exact htasks.append (sheds_closeFramePorts hmatched hperm)
  | navigation =>
    have hdocument : Sheds [] (s.resetTasks frame tasks)
        ((s.resetTasks frame tasks).beginDocument frame) := sheds_of_eq hmatched rfl rfl rfl
    have hboth := htasks.append hdocument
    rw [List.append_nil] at hboth
    exact hboth.append (sheds_closeFramePorts hdocument.later.matched hperm)

theorem steps_resetRealm {reason : RealmReset}
    (h : s.Inv) (hspares : s.Spares (.resetRealm frame reason order))
    (hstep : s.step (.resetRealm frame reason order) = some s') :
    s.Steps (.resetRealm frame reason order) s' := by
  simp only [step] at hstep
  cases hdocument : s.frames.get? frame with
  | none =>
    rw [hdocument] at hstep
    cases hstep
  | some document =>
    simp only [hdocument] at hstep
    split_ifs at hstep with hperm
    cases hstep
    have hsheds := sheds_resetRealm reason h hperm
    have hclear := hspares document hdocument
    refine ((hsheds.tidy hclear).drop
      (document.tasks.flatMap MessageTask.messages : List QueuedPortMessage) fun message hm p hp => ?_).steps
      h rfl rfl ?_
    · refine hsheds.gone p (List.mem_append_left _ ?_)
      exact ports_of_mem_tasks (Multiset.mem_coe.1 hm) hp
    · rw [add_comm, inPlay_setTasks hdocument]
      rfl

theorem steps_detachFrame (h : s.Inv)
    (hspares : s.Spares (.detachFrame frame order))
    (hstep : s.step (.detachFrame frame order) = some s') :
    s.Steps (.detachFrame frame order) s' := by
  simp only [step] at hstep
  split_ifs at hstep with hperm
  cases hstep
  have hsheds := sheds_closeFramePorts (s := s.forgetDocument frame) h.matched hperm
  refine (hsheds.tidy hspares).steps h rfl rfl ?_
  rw [zero_add]
  exact (add_zero _).symm

theorem steps_dropFrame (h : s.Inv)
    (hspares : s.Spares (.dropFrame frame order))
    (hstep : s.step (.dropFrame frame order) = some s') :
    s.Steps (.dropFrame frame order) s' := by
  simp only [step] at hstep
  split_ifs at hstep with hperm
  cases hstep
  obtain ⟨hclear, htasks⟩ := hspares
  have hsheds := sheds_closeFramePorts
    (s := { s.forgetDocument frame with frames := s.frames.erase frame }) h.matched hperm
  cases hdocument : s.frames.get? frame with
  | none =>
    refine (hsheds.tidy hclear).steps h rfl rfl ?_
    rw [zero_add]
    simp only [inPlay, Dict.collect_erase_of_none hdocument]
    exact (add_zero _).symm
  | some document =>
    refine ((hsheds.tidy hclear).drop
      (document.tasks.flatMap MessageTask.messages : List QueuedPortMessage)
      fun message hm p hp hk => ?_).steps h rfl rfl ?_
    · rcases htasks document hdocument p (ports_of_mem_tasks (Multiset.mem_coe.1 hm) hp) with ho | hg
      · exact hsheds.gone p ho hk
      · exact hg (hsheds.later.keys p hk)
    · have herase := Dict.collect_erase
        (f := fun document : FrameDocument => document.tasks.flatMap MessageTask.messages) hdocument
      simp only [inPlay, forgetDocument, SharedPorts.forgetDocument, sent, herase]
      abel

theorem queued_newPair {t : PortTable} (owner : FrameId) (hlt : t.next < u64Max)
    (hfresh : ∀ e ∈ t.ports.keys, e < t.next) : (t.newPair owner).2.queued = t.queued := by
  obtain ⟨-, -, hget⟩ := PortTable.newPair_eq owner hlt
  have hnone : ∀ e, t.next ≤ e → t.ports.get? e = none := by
    intro e he
    rw [Dict.get?_eq_none_iff]
    intro hk
    have := hfresh e hk
    omega
  -- two rows with empty queues come in
  have hsame : (t.newPair owner).2.queued =
      ((t.ports.insert t.next {}).insert (t.next + 1) {}).collect PortEndpoint.queue := by
    refine Dict.collect_congr fun e => ?_
    rw [hget, Dict.get?_insert, Dict.get?_insert]
    by_cases h1 : e = t.next
    · simp [h1]
    · by_cases h2 : e = t.next + 1 <;> simp [h1, h2]
  rw [hsame, Dict.collect_insert, Dict.collect_erase_of_none, Dict.collect_insert,
    Dict.collect_erase_of_none (hnone _ (Nat.le_refl _))]
  · exact (zero_add _).trans (zero_add _)
  · rw [Dict.get?_insert, if_neg (by omega), hnone _ (by omega)]

/-- Rewriting the row of one endpoint, with the queue it has. -/
theorem steps_transfer {port old : PortEndpoint} (h : s.Inv)
    (hold : s.ports.ports.get? e = some old) (hqueue : port.queue = old.queue)
    (hmatched : (s.ports.set e port).Matched) (hreceived : s.received op = 0)
    (hsent : s.sent op = 0) : s.Steps op { s with ports := s.ports.set e port } := by
  refine steps_of_eq hmatched (fun hlt e' he => ?_) hreceived hsent ?_
  · refine h.fresh hlt e' ?_
    rcases (Dict.mem_keys_insert _ _ _ _).1 he with rfl | he
    · exact PortTable.mem_keys hold
    · exact he
  · simp only [inPlay, PortTable.queued_set_of_queue hold hqueue]

theorem steps_step (h : s.Inv) (hspares : s.Spares op) (hstep : s.step op = some s') :
    s.Steps op s' := by
  have hm := h.matched
  cases op with
  | openFrame frame origin =>
    simp only [step] at hstep
    split_ifs at hstep with hlive
    cases hstep
    have hnone : s.frames.get? frame = none := by
      simpa [Dict.contains] using hlive
    refine steps_of_eq h.matched h.fresh rfl rfl ?_
    simp only [inPlay, beginDocument, SharedPorts.beginDocument, Dict.collect_insert,
      Dict.collect_erase_of_none hnone]
    rw [List.flatMap_nil, Multiset.coe_nil, zero_add]
  | portNew frame =>
    cases hstep
    have hfresh := h.fresh hspares
    obtain ⟨-, hnext, hget⟩ := PortTable.newPair_eq frame hspares
    refine steps_of_eq (hm.newPair frame hspares fun e port he => hfresh e (PortTable.mem_keys he))
      (fun hlt e he => ?_) rfl rfl ?_
    · rw [show (s.portNew frame).ports = (s.ports.newPair frame).2 from rfl] at hlt he ⊢
      rw [hnext] at hlt ⊢
      rw [saturatingSucc_eq hlt]
      obtain ⟨port, hport⟩ := (Dict.mem_keys_iff _ _).1 he
      rw [hget] at hport
      split_ifs at hport
      · omega
      · omega
      · have := hfresh e (PortTable.mem_keys hport)
        omega
    · simp only [inPlay, portNew, queued_newPair frame hspares hfresh]
  | portPost frame endpoint payload ports =>
    cases hstep
    exact steps_portPost h hspares
  | postWindowMessage source target origin targetOrigin payload ports =>
    cases hstep
    exact steps_postWindowMessage h hspares
  | portStart frame endpoint =>
    cases hstep
    unfold portStart
    split_ifs
    · exact (tidy_start hm endpoint).steps h rfl rfl (add_comm _ _)
    · exact steps_of_eq h.matched h.fresh rfl rfl rfl
  | portClose frame endpoint =>
    cases hstep
    unfold portClose
    split_ifs with howned
    · exact ((sheds_close hm endpoint).tidy (hspares howned)).steps h rfl rfl (add_comm _ _)
    · exact steps_of_eq h.matched h.fresh rfl rfl rfl
  | portDetach frame endpoint =>
    cases hstep
    have hmatched := hm.detach endpoint frame
    unfold portDetach
    rcases s.ports.detach_cases endpoint frame with hd | ⟨port, he, -, -, hd⟩
    · rw [hd]
      exact steps_of_eq hm h.fresh rfl rfl rfl
    · rw [hd] at hmatched ⊢
      exact steps_transfer h he rfl hmatched rfl rfl
  | portAdopt frame endpoint =>
    cases hstep
    have hmatched := hm.adopt endpoint frame
    unfold portAdopt
    rcases s.ports.adopt_cases endpoint frame with hd | ⟨port, he, -, -, hd⟩
    · rw [hd]
      exact steps_of_eq hm h.fresh rfl rfl rfl
    · rw [hd] at hmatched ⊢
      exact steps_transfer h he rfl hmatched rfl rfl
  | takeDeliveries =>
    cases hstep
    refine steps_of_eq h.matched h.fresh rfl rfl ?_
    simp only [inPlay, takeDeliveries, List.flatMap_append, List.flatMap_nil, Multiset.coe_nil,
      add_zero, ← Multiset.coe_add, add_assoc]
  | applyDeliveries =>
    cases hstep
    have htidy := tidy_applyAll (s := { s with batch := [] }) hm hspares
    refine htidy.steps h rfl rfl ?_
    simp only [inPlay, sent, List.flatMap_nil, Multiset.coe_nil]
    abel
  | runTask frame realm => exact steps_runTask h hspares hstep
  | resetRealm frame reason order => exact steps_resetRealm h hspares hstep
  | detachFrame frame order => exact steps_detachFrame h hspares hstep
  | dropFrame frame order => exact steps_dropFrame h hspares hstep

/-! ### Runs -/

theorem inv_empty : ({} : PageEngine).Inv :=
  ⟨PortLog.inv_empty.matched, fun _ _ he => absurd he List.not_mem_nil, fun _ => Nat.zero_le 1⟩

theorem Inv.namedOnce (h : s.Inv) : s.NamedOnce := fun e _ _ _ => h.once e

theorem sent_le_one (op : Op) : Multiset.card (s.sent op) ≤ 1 := by
  unfold sent
  split
  · split_ifs <;> simp
  · split_ifs <;> simp
  · simp

theorem Sheds.once {l : List Nat} (h : Sheds l s s') (hs : s.Inv) (e : Nat) :
    s'.inPlay.countP (fun message => e ∈ message.ports) ≤ 1 := by
  obtain ⟨dropped, hplay, -⟩ := h.dropped
  have honce := hs.once e
  rw [← hplay, Multiset.countP_add] at honce
  omega

/-- A transfer that goes through names endpoints that no message in play named. -/
theorem once_step (h : s.Inv) (hspares : s.Spares op) (hstep : s.step op = some s')
    (e : Nat) : s'.inPlay.countP (fun message => e ∈ message.ports) ≤ 1 := by
  have haccounted := (steps_step h hspares hstep).accounted
  by_cases hunnamed : ∀ message ∈ s.sent op, s.Unnamed message.ports
  · exact haccounted.once h hunnamed (sent_le_one op) e
  · cases op with
    | portPost frame endpoint payload ports =>
      refine absurd (fun message hm => ?_) hunnamed
      cases hadmitted : s.postAdmitted frame endpoint payload ports with
      | false =>
        rw [sent, hadmitted] at hm
        exact absurd hm (Multiset.notMem_zero _)
      | true =>
        rw [sent, hadmitted, if_pos rfl, Multiset.mem_singleton] at hm
        subst hm
        rcases hspares hadmitted with rfl | ⟨-, hun⟩
        · exact fun p hp => absurd hp List.not_mem_nil
        · exact hun
    | postWindowMessage source target origin targetOrigin payload ports =>
      cases hstep
      unfold postWindowMessage
      cases hadmitted : s.windowPostAdmitted source payload ports with
      | false => simpa using h.once e
      | true =>
        simp only [if_true]
        split
        · refine absurd (fun message hm => ?_) hunnamed
          rename_i hdocument
          rw [sent, hadmitted, if_pos rfl, Multiset.mem_singleton] at hm
          subst hm
          simpa [hdocument] using hspares hadmitted
        · exact (sheds_forgetEndpoints h.matched ports).once h e
    | _ => exact absurd (fun message hm => absurd hm (Multiset.notMem_zero _)) hunnamed

theorem inv_step (h : s.Inv) (hspares : s.Spares op) (hstep : s.step op = some s') :
    s'.Inv :=
  ⟨(steps_step h hspares hstep).matched, (steps_step h hspares hstep).fresh,
    once_step h hspares hstep⟩

theorem forgetsDiscarded_of_spares (h : s.Inv) (hspares : s.Spares op) :
    s.ForgetsDiscarded op := by
  intro s' hstep
  exact (steps_step h hspares hstep).accounted.forgets hstep s' hstep

/-- No transferred endpoint is stranded or carried twice. -/
theorem carried_of_spares {ops : List Op} (h : Along step Spares {} ops) :
    Throughout step NamedOnce {} ops ∧ Along step ForgetsDiscarded {} ops :=
  ⟨throughout_of_along (fun _ hs => hs.namedOnce) (fun _ _ _ hs hc hstep => inv_step hs hc hstep)
      inv_empty h,
    h.imp_of_inv (fun _ _ hs hc => forgetsDiscarded_of_spares hs hc)
      (fun _ _ _ hs hc hstep => inv_step hs hc hstep) inv_empty⟩

/-- A frame hands one end of a channel to another frame, which takes it and closes it. -/
def transferOps : List Op :=
  [.openFrame 0 (.opaqueOrigin 0), .openFrame 1 (.opaqueOrigin 1), .portNew 0, .portDetach 0 1,
    .postWindowMessage 0 1 [] (some .any) payloadVersion [1], .takeDeliveries, .applyDeliveries,
    .runTask 1 true, .portAdopt 1 1, .portClose 1 1]

theorem carried_of_spares_transfer :
    (run step {} transferOps).isSome = true ∧ Throughout step NamedOnce {} transferOps ∧
      Along step ForgetsDiscarded {} transferOps := by
  have hspares : Along step Spares {} transferOps := by decide +kernel
  exact ⟨by decide +kernel, carried_of_spares hspares⟩

/-- A message waits at the end `1` and carries the end `2`. -/
def waitingOps : List Op :=
  [.openFrame 0 (.opaqueOrigin 0), .portNew 0, .portNew 0, .portDetach 0 2,
    .portPost 0 0 payloadVersion [2]]

/-- Closing the end at which a message waits loses the endpoint that the message carries, and a
frame can put one endpoint into two messages. -/
theorem not_carried_of_close_or_twice :
    ¬ Along step ForgetsDiscarded {} (waitingOps ++ [.portClose 0 1]) ∧
      ¬ Throughout step NamedOnce {} (waitingOps ++ [.portPost 0 0 payloadVersion [2]]) := by
  have hruns : (run step {} waitingOps).isSome = true := by decide +kernel
  obtain ⟨s, hs⟩ := Option.isSome_iff_exists.1 hruns
  refine ⟨fun h => ?_, fun h => ?_⟩
  · have hlost : ∀ s ∈ run step {} waitingOps, ∀ s' ∈ s.step (.portClose 0 1),
        s.Discards (.portClose 0 1) s' ⟨payloadVersion, [2]⟩ ∧ 2 ∈ s'.ports.ports.keys := by
      decide +kernel
    obtain ⟨hdiscards, hkept⟩ := hlost s hs _ rfl
    exact ((along_append_right h hs).1 _ rfl _ hdiscards 2 (List.mem_singleton.2 rfl)).1 hkept
  · have htwice : ∀ s ∈ run step {} (waitingOps ++ [.portPost 0 0 payloadVersion [2]]),
        (∃ port ∈ s.ports.ports.get? 2, port.detached = true) ∧
          s.inPlay.countP (fun message => 2 ∈ message.ports) = 2 := by
      decide +kernel
    have hrun : run step {} (waitingOps ++ [.portPost 0 0 payloadVersion [2]]) =
        some (s.portPost 0 0 payloadVersion [2]) := run_append hs rfl
    obtain ⟨⟨port, hport, hdetached⟩, hcount⟩ := htwice _ hrun
    have hle := h _ [] _ (List.append_nil _).symm hrun 2 port hport hdetached
    omega

end PageEngine

end TinyBrowser
