import TinyBrowser.Messaging.Channels
import TinyBrowser.Messaging.Engine

/-!
# Messages of a port arrive in the order of their posts

`ChannelRun` follows one channel through an engine: the payloads posted on the end `a`, and those
handed to the frames that own the end `b`. What is under way stands in three places, the engine's
batch, the shared deliveries and the queue of `b`, in this order (`InOrder`). A delivery that finds
`b` in transit goes back to the front of the queue, one delivery at a time, so several of them come
back in reverse; `inOrder_iff` says when that shows.
-/

namespace TinyBrowser
open Lib Machine

/-- The payloads of the messages for the endpoint `e` among the deliveries. -/
def payloadsFor (e : Nat) (l : List Delivery) : List Text :=
  l.filterMap fun
    | .portMessage endpoint payload _ => if endpoint = e then some payload else none
    | _ => none

@[simp] theorem payloadsFor_nil (e : Nat) : payloadsFor e [] = [] := rfl

@[simp] theorem payloadsFor_append (e : Nat) (l l' : List Delivery) :
    payloadsFor e (l ++ l') = payloadsFor e l ++ payloadsFor e l' := List.filterMap_append

theorem payloadsFor_cons (e : Nat) (d : Delivery) (l : List Delivery) :
    payloadsFor e (d :: l) = payloadsFor e [d] ++ payloadsFor e l :=
  payloadsFor_append e [d] l

theorem reverse_payloadsFor_singleton (e : Nat) (d : Delivery) :
    (payloadsFor e [d]).reverse = payloadsFor e [d] := by
  cases d with
  | portMessage endpoint payload ports =>
    by_cases he : endpoint = e <;> simp [payloadsFor, he]
  | _ => rfl

theorem payloadsFor_queue (e : Nat) (queue : List QueuedPortMessage) :
    payloadsFor e (queue.map fun message => .portMessage e message.payload message.ports) =
      queue.map QueuedPortMessage.payload := by
  induction queue with
  | nil => rfl
  | cons message queue ih => simp [payloadsFor]

theorem payloadsFor_eq_nil {e : Nat} {l : List Delivery}
    (h : ∀ d ∈ l, ∀ payload ports, d ≠ .portMessage e payload ports) : payloadsFor e l = [] := by
  refine List.filterMap_eq_nil_iff.2 fun d hd => ?_
  cases d with
  | portMessage endpoint payload ports =>
    dsimp only
    rw [if_neg]
    rintro rfl
    exact h _ hd payload ports rfl
  | _ => rfl

namespace PortTable

variable {t t' : PortTable} {a b c e : Nat} {port other : PortEndpoint}

/-- The payloads in the queue of the endpoint. -/
def waiting (t : PortTable) (e : Nat) : List Text :=
  ((t.ports.get? e).elim [] PortEndpoint.queue).map QueuedPortMessage.payload

theorem waiting_eq (h : t.ports.get? e = some port) :
    t.waiting e = port.queue.map QueuedPortMessage.payload := by
  rw [waiting, h]
  rfl

theorem owner_eq (h : t.ports.get? e = some port) : t.owner e = port.owner := by
  simp [owner, h]

/-- The operation leaves the queue and the owner of `b` alone and delivers nothing to it. -/
structure Aside (b : Nat) (t : PortTable) (r : PortTable × List Delivery) : Prop where
  waiting : r.1.waiting b = t.waiting b
  owner : r.1.owner b = t.owner b
  silent : payloadsFor b r.2 = []

theorem Aside.of_row {r : PortTable × List Delivery} (h : r.1.ports.get? b = t.ports.get? b)
    (hs : payloadsFor b r.2 = []) : Aside b t r := by
  refine ⟨?_, ?_, hs⟩
  · rw [PortTable.waiting, h, PortTable.waiting]
  · rw [PortTable.owner, h, PortTable.owner]

theorem aside_drain (he : b ≠ e) : Aside b t (t.drain e port) := by
  refine .of_row (drain_get?_of_ne port he) (payloadsFor_eq_nil fun d hd => ?_)
  obtain ⟨message, -, rfl⟩ := mem_drain hd
  rintro payload ports h
  cases h
  exact he rfl

theorem aside_requeue (he : b ≠ e) (payload : Text) (ports : List Nat) :
    Aside b t (t.requeue e payload ports) := by
  rcases t.requeue_cases e payload ports with h | ⟨port, -, h⟩
  · rw [h]
    exact ⟨rfl, rfl, rfl⟩
  · rw [h]
    exact aside_drain he

theorem aside_set (ha : t.ports.get? a = some other) (hqueue : port.queue = other.queue)
    (howner : port.owner = other.owner) : Aside b t (t.set a port, []) := by
  refine ⟨?_, ?_, rfl⟩
  · rw [waiting, waiting, get?_set]
    split_ifs with hb
    · subst hb
      rw [ha, Option.elim_some, Option.elim_some, hqueue]
    · rfl
  · rw [owner, owner, get?_set]
    split_ifs with hb
    · subst hb
      rw [ha, Option.bind_some, Option.bind_some, howner]
    · rfl

theorem aside_requeueClose (e : Nat) : Aside b t (t.requeueClose e) := by
  unfold requeueClose
  split
  · exact ⟨rfl, rfl, rfl⟩
  · rename_i he
    split_ifs
    · exact ⟨rfl, rfl, rfl⟩
    · exact aside_set he rfl rfl
    · exact ⟨rfl, rfl, rfl⟩

theorem aside_route (e : Nat) (frame : FrameId) : Aside b t (t.route e frame, []) := by
  cases he : t.ports.get? e with
  | none =>
    rw [route_of_none he]
    exact ⟨rfl, rfl, rfl⟩
  | some port =>
    rw [route_eq_set he]
    split_ifs
    · exact aside_set he rfl rfl
    · exact aside_set he rfl rfl

/-- Forgetting an endpoint that is on neither end of the channel. -/
theorem Matched.aside_forget (ht : t.Matched) (hb : t.peer b = some a) (hea : e ≠ a)
    (heb : e ≠ b) : Aside b t (t.forget e) := by
  cases he : t.ports.get? e with
  | none =>
    rw [forget_of_none he]
    exact ⟨rfl, rfl, rfl⟩
  | some port =>
    have hcut := ht.cut_forget he
    refine .of_row (hcut.rest b (Ne.symm heb) fun hpeer => ?_) (payloadsFor_eq_nil fun d hd => ?_)
    · have hback := (ht.entangled e b hpeer).2
      rw [hb] at hback
      exact hea (Option.some.inj hback).symm
    · rintro payload ports rfl
      cases hpeer : t.peer e with
      | none =>
        rw [hcut.silent hpeer] at hd
        cases hd
      | some c =>
        obtain ⟨other, hother, -⟩ := exists_of_peer (ht.entangled e c hpeer).2
        rw [(hcut.notice c other hpeer hother).2] at hd
        split_ifs at hd <;> simp at hd

theorem Matched.peer_forget (ht : t.Matched) (h : (t.forget e).1.peer b = some c) :
    e ≠ b ∧ t.peer b = some c := by
  cases he : t.ports.get? e with
  | none =>
    rw [forget_of_none he] at h
    refine ⟨?_, h⟩
    rintro rfl
    simp [peer, he] at h
  | some port =>
    rw [(ht.cut_forget he).peer ht] at h
    split_ifs at h with hcond
    exact ⟨fun heb => hcond (.inl heb.symm), h⟩

end PortTable

namespace PageEngine

variable {s s' : PageEngine} {a b : Nat}

/-- The two ends are entangled, and the frames that own them are alive. -/
structure Channel (s : PageEngine) (a b : Nat) : Prop where
  matched : s.ports.Matched
  peer : s.ports.peer a = some b
  live : ∀ frame, s.ports.owner b = some frame → s.frames.contains frame = true
  liveBack : ∀ frame, s.ports.owner a = some frame → s.frames.contains frame = true

theorem Channel.back (h : s.Channel a b) : s.ports.peer b = some a :=
  (h.matched.entangled a b h.peer).2

theorem Channel.symm (h : s.Channel a b) : s.Channel b a :=
  ⟨h.matched, h.back, h.liveBack, h.live⟩

/-- What one delivery pushes to the owner of `b`. -/
def pushes (s : PageEngine) (b : Nat) (d : Delivery) : List Text :=
  match s.ports.owner b with
  | some frame => if s.frames.contains frame then payloadsFor b [d] else []
  | none => []

def pushesAll (s : PageEngine) (b : Nat) : List Delivery → List Text
  | [] => []
  | d :: rest => s.pushes b d ++ (s.applyDelivery d).pushesAll b rest

/-- The step keeps the owner of `b`, delivers nothing to it, and puts `front` before its queue. -/
structure Puts (b : Nat) (front : List Text) (s s' : PageEngine) : Prop where
  matched : s'.ports.Matched
  owner : s'.ports.owner b = s.ports.owner b
  waiting : s'.ports.waiting b = front ++ s.ports.waiting b
  deliveries : payloadsFor b s'.deliveries = payloadsFor b s.deliveries
  batch : s'.batch = s.batch
  frames : ∀ frame, s'.frames.contains frame = s.frames.contains frame

theorem Puts.refl (h : s.ports.Matched) : Puts b [] s s := ⟨h, rfl, rfl, rfl, rfl, fun _ => rfl⟩

theorem Puts.trans {s'' : PageEngine} {front front' : List Text} (h : Puts b front s s')
    (h' : Puts b front' s' s'') : Puts b (front' ++ front) s s'' := by
  refine ⟨h'.matched, h'.owner.trans h.owner, ?_, h'.deliveries.trans h.deliveries,
    h'.batch.trans h.batch, fun frame => (h'.frames frame).trans (h.frames frame)⟩
  rw [h'.waiting, h.waiting, List.append_assoc]

theorem puts_push {r : PortTable × List Delivery} (h : PortTable.Aside b s.ports r)
    (hr : r.1.Matched) : Puts b [] s (s.push r) := by
  refine ⟨hr, h.owner, h.waiting, ?_, rfl, fun _ => rfl⟩
  dsimp only [push, SharedPorts.push]
  rw [payloadsFor_append, h.silent, List.append_nil]

theorem contains_pushTask (frame f : FrameId) (task : MessageTask) :
    (s.pushTask frame task).frames.contains f = s.frames.contains f := by
  simp only [pushTask, Dict.contains, Dict.get?_modify]
  split_ifs
  · rw [Option.isSome_map]
  · rfl

theorem puts_pushTask (h : s.ports.Matched) (frame : FrameId) (task : MessageTask) :
    Puts b [] s (s.pushTask frame task) :=
  ⟨h, rfl, rfl, rfl, rfl, fun _ => contains_pushTask ..⟩

theorem puts_routeEndpoints (h : s.ports.Matched) (endpoints : List Nat) (frame : FrameId) :
    Puts b [] s (s.routeEndpoints endpoints frame) := by
  induction endpoints generalizing s with
  | nil => exact .refl h
  | cons e rest ih =>
    have haside := PortTable.aside_route (t := s.ports) (b := b) e frame
    have hroute : Puts b [] s { s with ports := s.ports.route e frame } :=
      ⟨h.route e frame, haside.owner, haside.waiting, rfl, rfl, fun _ => rfl⟩
    exact hroute.trans (ih hroute.matched)

theorem peer_routeEndpoints (endpoints : List Nat) (frame : FrameId) (e : Nat) :
    (s.routeEndpoints endpoints frame).ports.peer e = s.ports.peer e := by
  induction endpoints generalizing s with
  | nil => rfl
  | cons e' rest ih =>
    exact (ih (s := { s with ports := s.ports.route e' frame })).trans (PortTable.peer_route e' frame)

theorem matched_forgetEndpoints (h : s.ports.Matched) (l : List Nat) :
    (s.forgetEndpoints l).ports.Matched := by
  induction l generalizing s with
  | nil => exact h
  | cons e rest ih => exact ih (s := s.push (s.ports.forget e)) (h.forget e)

theorem peer_forgetEndpoints (h : s.ports.Matched) {l : List Nat} {e c : Nat}
    (hpeer : (s.forgetEndpoints l).ports.peer e = some c) : e ∉ l ∧ s.ports.peer e = some c := by
  induction l generalizing s with
  | nil => exact ⟨List.not_mem_nil, hpeer⟩
  | cons e' rest ih =>
    obtain ⟨hrest, hpeer⟩ := ih (s := s.push (s.ports.forget e')) (h.forget e') hpeer
    obtain ⟨hne, hpeer⟩ := h.peer_forget hpeer
    refine ⟨?_, hpeer⟩
    rw [List.mem_cons, not_or]
    exact ⟨Ne.symm hne, hrest⟩

theorem puts_forgetEndpoints (h : s.ports.Matched) (hpeer : s.ports.peer b = some a) {l : List Nat}
    (ha : a ∉ l) (hb : b ∉ l) : Puts b [] s (s.forgetEndpoints l) := by
  induction l generalizing s with
  | nil => exact .refl h
  | cons e rest ih =>
    rw [List.mem_cons, not_or] at ha hb
    have hput := puts_push (h.aside_forget hpeer (Ne.symm ha.1) (Ne.symm hb.1)) (h.forget e)
    refine hput.trans (ih hput.matched ?_ ha.2 hb.2)
    -- the channel is not the one that was cut
    show (s.ports.forget e).1.peer b = some a
    cases he : s.ports.ports.get? e with
    | none =>
      rw [PortTable.forget_of_none he]
      exact hpeer
    | some port =>
      rw [(h.cut_forget he).peer h, if_neg, hpeer]
      rintro (rfl | hcut)
      · exact hb.1 rfl
      · have hback := (h.entangled e b hcut).2
        rw [hpeer] at hback
        exact ha.1 (Option.some.inj hback)

theorem peer_applies {d : Delivery} (h : s.ports.Matched) (hd : s.Applies d s') {e c : Nat}
    (hpeer : s'.ports.peer e = some c) : s.ports.peer e = some c := by
  cases hd with
  | window target document source origin targetOrigin payload ports =>
    exact (peer_routeEndpoints ports target e).symm.trans hpeer
  | port endpoint payload ports frame =>
    exact (peer_routeEndpoints ports frame e).symm.trans hpeer
  | windowGone | portGone => exact (peer_forgetEndpoints h hpeer).2
  | requeued endpoint payload ports =>
    exact ((PortTable.samePlaces_requeue endpoint payload ports).peer e).symm.trans hpeer
  | closeRequeued endpoint =>
    exact ((PortTable.samePlaces_requeueClose endpoint).peer e).symm.trans hpeer
  | closed | closedGone => exact hpeer

theorem matched_applies {d : Delivery} (h : s.ports.Matched) (hd : s.Applies d s') :
    s'.ports.Matched := by
  cases hd with
  | window target document source origin targetOrigin payload ports =>
    exact (puts_routeEndpoints (b := 0) h ports target).matched
  | port endpoint payload ports frame =>
    exact (puts_routeEndpoints (b := 0) h ports frame).matched
  | windowGone | portGone => exact matched_forgetEndpoints h _
  | requeued endpoint payload ports =>
    exact h.congr (PortTable.samePlaces_requeue endpoint payload ports)
  | closeRequeued endpoint => exact h.congr (PortTable.samePlaces_requeueClose endpoint)
  | closed | closedGone => exact h

/-- The deliveries that go back to the queue of `b`: those that find it in transit. -/
def returned (s : PageEngine) (b : Nat) (l : List Delivery) : List Text :=
  if s.ports.owner b = none then payloadsFor b l else []

theorem payloadsFor_message_of_ne {e : Nat} (he : e ≠ b) (payload : Text) (ports : List Nat) :
    payloadsFor b [.portMessage e payload ports] = [] := by
  simp [payloadsFor, he]

theorem puts_requeue (h : s.Channel a b) (howner : s.ports.owner b = none) (payload : Text)
    (ports : List Nat) : Puts b [payload] s (s.push (s.ports.requeue b payload ports)) := by
  obtain ⟨port, hport, -⟩ := PortTable.exists_of_peer h.back
  have hopen := h.matched.opened b port hport
  have hdetached : port.detached = true := by
    rw [PortTable.owner_eq hport] at howner
    have hplaced := h.matched.placed b port hport
    rw [howner] at hplaced
    simpa using hplaced
  have hrequeue : s.ports.requeue b payload ports =
      (s.ports.set b { port with queue := ⟨payload, ports⟩ :: port.queue }, []) := by
    simp [PortTable.requeue, PortTable.drain, hport, hopen, hdetached]
  rw [hrequeue]
  refine ⟨h.matched.set hport rfl hopen (h.matched.placed b port hport), ?_, ?_, ?_, rfl,
    fun _ => rfl⟩
  · dsimp only [push, SharedPorts.push]
    rw [PortTable.owner_eq hport, PortTable.owner, PortTable.get?_set, if_pos rfl]
    rfl
  · dsimp only [push, SharedPorts.push]
    rw [PortTable.waiting_eq hport, PortTable.waiting, PortTable.get?_set, if_pos rfl]
    rfl
  · dsimp only [push, SharedPorts.push]
    rw [List.append_nil]

theorem returned_of_nil {l : List Delivery} (h : payloadsFor b l = []) : s.returned b l = [] := by
  rw [returned, h, ite_self]

/-- What one delivery does to the channel, if the channel outlives it. -/
theorem puts_applies {d : Delivery} (h : s.Channel a b) (hd : s.Applies d s')
    (ha : s'.ports.peer a = some b) : Puts b (s.returned b [d]) s s' := by
  have hb := ((matched_applies h.matched hd).entangled a b ha).2
  cases hd with
  | window target document source origin targetOrigin payload ports =>
    rw [returned_of_nil rfl]
    have hroute := puts_routeEndpoints (b := b) h.matched ports target
    exact hroute.trans (puts_pushTask hroute.matched _ _)
  | windowGone target document source origin targetOrigin payload ports =>
    rw [returned_of_nil rfl]
    exact puts_forgetEndpoints h.matched h.back (peer_forgetEndpoints h.matched ha).1
      (peer_forgetEndpoints h.matched hb).1
  | port endpoint payload ports frame howner =>
    have hnone : s.returned b [.portMessage endpoint payload ports] = [] := by
      by_cases heb : endpoint = b
      · subst heb
        simp [returned, howner]
      · exact returned_of_nil (payloadsFor_message_of_ne heb payload ports)
    rw [hnone]
    have hroute := puts_routeEndpoints (b := b) h.matched ports frame
    exact hroute.trans (puts_pushTask hroute.matched _ _)
  | portGone endpoint payload ports frame howner hgone =>
    have heb : endpoint ≠ b := by
      rintro rfl
      rw [h.live frame howner] at hgone
      cases hgone
    rw [returned_of_nil (payloadsFor_message_of_ne heb payload ports)]
    exact puts_forgetEndpoints h.matched h.back (peer_forgetEndpoints h.matched ha).1
      (peer_forgetEndpoints h.matched hb).1
  | requeued endpoint payload ports howner =>
    by_cases heb : endpoint = b
    · subst heb
      have hone : s.returned endpoint [.portMessage endpoint payload ports] = [payload] := by
        simp [returned, howner, payloadsFor]
      rw [hone]
      exact puts_requeue h howner payload ports
    · rw [returned_of_nil (payloadsFor_message_of_ne heb payload ports)]
      exact puts_push (PortTable.aside_requeue (Ne.symm heb) payload ports)
        (h.matched.congr (PortTable.samePlaces_requeue endpoint payload ports))
  | closed endpoint frame =>
    rw [returned_of_nil rfl]
    exact puts_pushTask h.matched _ _
  | closedGone endpoint frame =>
    rw [returned_of_nil rfl]
    exact .refl h.matched
  | closeRequeued endpoint =>
    rw [returned_of_nil rfl]
    exact puts_push (PortTable.aside_requeueClose endpoint)
      (h.matched.congr (PortTable.samePlaces_requeueClose endpoint))

theorem pushes_eq (h : s.Channel a b) (d : Delivery) :
    s.pushes b d = if s.ports.owner b = none then [] else payloadsFor b [d] := by
  unfold pushes
  cases howner : s.ports.owner b with
  | none => simp
  | some frame => simp [h.live frame howner]

theorem Channel.applies {d : Delivery} (h : s.Channel a b) (hd : s.Applies d s')
    (ha : s'.ports.peer a = some b) : s'.Channel a b := by
  have hput := puts_applies h hd ha
  have hback := puts_applies h.symm hd ((hput.matched.entangled a b ha).2)
  refine ⟨hput.matched, ha, fun frame hframe => ?_, fun frame hframe => ?_⟩
  · rw [hput.frames]
    exact h.live frame (hput.owner ▸ hframe)
  · rw [hput.frames]
    exact h.liveBack frame (hback.owner ▸ hframe)

theorem peer_applyAll (h : s.ports.Matched) {l : List Delivery} {e c : Nat}
    (hpeer : (s.applyAll l).ports.peer e = some c) : s.ports.peer e = some c := by
  induction l generalizing s with
  | nil => exact hpeer
  | cons d rest ih =>
    have hd := s.applies_applyDelivery d
    exact peer_applies h hd (ih (matched_applies h hd) hpeer)

/-- Several deliveries that find `b` in transit come back in reverse. -/
theorem puts_applyAll (h : s.Channel a b) {l : List Delivery}
    (ha : (s.applyAll l).ports.peer a = some b) :
    Puts b (if s.ports.owner b = none then (payloadsFor b l).reverse else []) s (s.applyAll l) ∧
      s.pushesAll b l = if s.ports.owner b = none then [] else payloadsFor b l := by
  induction l generalizing s with
  | nil =>
    simp only [payloadsFor_nil, List.reverse_nil, ite_self]
    exact ⟨.refl h.matched, rfl⟩
  | cons d rest ih =>
    have hd := s.applies_applyDelivery d
    have hput := puts_applies h hd (peer_applyAll (matched_applies h.matched hd) ha)
    have hchannel := h.applies hd (peer_applyAll hput.matched ha)
    obtain ⟨hrest, hpushes⟩ := ih hchannel ha
    rw [hput.owner] at hrest hpushes
    have hall := hput.trans hrest
    refine ⟨?_, ?_⟩
    · rw [payloadsFor_cons]
      unfold returned at hall
      split_ifs at hall ⊢
      · rw [List.reverse_append]
        rw [reverse_payloadsFor_singleton]
        exact hall
      · exact hall
    · rw [pushesAll, pushes_eq h, hpushes, payloadsFor_cons b d rest]
      split_ifs <;> rfl

end PageEngine

/-! ### Runs of a channel -/

inductive ChannelOp where
  | post (payload : Text) (ports : List Nat)
  | start
  | detach (frame : FrameId)
  | route (frame : FrameId)
  | adopt (frame : FrameId)
  | take
  | apply
deriving DecidableEq, Repr

/-- `posted` are the payloads given to `a`, `pushed` those given to the frames that own `b`. -/
structure ChannelRun where
  engine : PageEngine
  posted : List Text := []
  pushed : List Text := []
deriving DecidableEq

namespace ChannelRun

/-- One operation on the channel from `a` to `b`. A frame that is not alive adopts nothing, and
the run ends where an end of the channel is forgotten. -/
def step (a b : Nat) (s : ChannelRun) : ChannelOp → Option ChannelRun
  | .post payload ports =>
    some { s with engine := s.engine.push (s.engine.ports.post a payload ports),
                  posted := s.posted ++ [payload] }
  | .start => some { s with engine := s.engine.push (s.engine.ports.start b) }
  | .detach frame => some { s with engine := s.engine.portDetach frame b }
  | .route frame => some { s with engine := s.engine.routeEndpoints [b] frame }
  | .adopt frame =>
    if s.engine.frames.contains frame then some { s with engine := s.engine.portAdopt frame b }
    else none
  | .take => some { s with engine := s.engine.takeDeliveries }
  | .apply =>
    if s.engine.applyDeliveries.ports.peer a = some b then
      some { s with engine := s.engine.applyDeliveries,
                    pushed := s.pushed ++ { s.engine with batch := [] }.pushesAll b s.engine.batch }
    else none

/-- What is under way to `b`, in the order in which it was posted. -/
def underWay (b : Nat) (s : ChannelRun) : List Text :=
  payloadsFor b s.engine.batch ++ payloadsFor b s.engine.deliveries ++ s.engine.ports.waiting b

/-- Everything that was posted arrived or is under way, in the order of the posts. -/
def InOrder (b : Nat) (s : ChannelRun) : Prop := s.pushed ++ s.underWay b = s.posted

/-- Before the first post: the ends are entangled, `a` is in a realm, nothing is under way. -/
structure Fresh (a b : Nat) (s : ChannelRun) : Prop where
  channel : s.engine.Channel a b
  placed : s.engine.ports.owner a ≠ none
  underWay : s.underWay b = []
  posted : s.posted = []
  pushed : s.pushed = []

/-- Where `b` is in transit when the engine applies a batch, what goes back to the front of the
queue, one delivery at a time and behind the deliveries made since, stands as it was posted. -/
def Ordered (b : Nat) (s : ChannelRun) : ChannelOp → Prop
  | .apply => s.engine.ports.owner b = none →
      payloadsFor b s.engine.deliveries ++ (payloadsFor b s.engine.batch).reverse =
        payloadsFor b s.engine.batch ++ payloadsFor b s.engine.deliveries
  | _ => True

instance (b : Nat) (s : ChannelRun) (op : ChannelOp) : Decidable (Ordered b s op) :=
  match op with
  | .apply => inferInstanceAs (Decidable (_ → _))
  | .post _ _ | .start | .detach _ | .route _ | .adopt _ | .take => .isTrue trivial

instance (b : Nat) (s : ChannelRun) : Decidable (s.InOrder b) :=
  inferInstanceAs (Decidable (_ = _))

variable {a b : Nat} {s s' : ChannelRun}

structure Inv (a b : Nat) (s : ChannelRun) : Prop where
  channel : s.engine.Channel a b
  placed : s.engine.ports.owner a ≠ none
  inOrder : s.InOrder b

theorem Fresh.inv (h : Fresh a b s) : Inv a b s := by
  refine ⟨h.channel, h.placed, ?_⟩
  rw [InOrder, h.underWay, h.posted, h.pushed]
  rfl

/-- Writing the row of `b` back, with `extra` behind its queue, and turning the queue into
deliveries if it is enabled: nothing is lost and nothing overtakes. -/
theorem Inv.drain {port old : PortEndpoint} {posted : List Text} (extra : List Text) (h : Inv a b s)
    (hold : s.engine.ports.ports.get? b = some old) (hplace : port.place = old.place)
    (hqueue : port.queue.map QueuedPortMessage.payload =
      old.queue.map QueuedPortMessage.payload ++ extra)
    (hposted : posted = s.posted ++ extra) :
    Inv a b { s with engine := s.engine.push (s.engine.ports.drain b port), posted := posted } := by
  have hsame := PortTable.samePlaces_drain hold hplace
  refine ⟨⟨h.channel.matched.congr hsame, (hsame.peer a).trans h.channel.peer, ?_, ?_⟩, ?_, ?_⟩
  · intro frame hframe
    exact h.channel.live frame ((hsame.owner b).symm.trans hframe)
  · intro frame hframe
    exact h.channel.liveBack frame ((hsame.owner a).symm.trans hframe)
  · intro hnone
    exact h.placed ((hsame.owner a).symm.trans hnone)
  · have hin := h.inOrder
    unfold InOrder underWay at hin ⊢
    rw [hposted, ← hin, PortTable.waiting_eq hold]
    dsimp only [PageEngine.push, SharedPorts.push]
    unfold PortTable.drain
    split_ifs
    · simp [payloadsFor_queue, PortTable.waiting, hqueue]
    · simp [PortTable.waiting, hqueue]

/-- Rewriting the row of `b` in a transfer. -/
theorem Inv.transfer {port old : PortEndpoint} (h : Inv a b s)
    (hold : s.engine.ports.ports.get? b = some old) (hpeer : port.peer = old.peer)
    (hqueue : port.queue = old.queue)
    (hmatched : (s.engine.ports.set b port).Matched)
    (hlive : ∀ frame, port.owner = some frame → s.engine.frames.contains frame = true) :
    Inv a b { s with engine := { s.engine with ports := s.engine.ports.set b port } } := by
  have hne := (h.channel.matched.entangled a b h.channel.peer).1
  have howner : (s.engine.ports.set b port).owner a = s.engine.ports.owner a := by
    rw [PortTable.owner, PortTable.get?_set, if_neg hne, PortTable.owner]
  refine ⟨⟨hmatched, (PortTable.peer_set hold hpeer).trans h.channel.peer, ?_, ?_⟩, ?_, ?_⟩
  · intro frame hframe
    dsimp only at hframe
    rw [PortTable.owner, PortTable.get?_set, if_pos rfl] at hframe
    exact hlive frame hframe
  · intro frame hframe
    exact h.channel.liveBack frame (howner.symm.trans hframe)
  · intro hnone
    exact h.placed (howner.symm.trans hnone)
  · have hin := h.inOrder
    unfold InOrder underWay at hin ⊢
    dsimp only
    rw [← hin, PortTable.waiting_eq hold, PortTable.waiting, PortTable.get?_set, if_pos rfl,
      Option.elim_some, hqueue]

/-- The channel after a batch was applied. -/
theorem Inv.applied (h : Inv a b s) (ha : s.engine.applyDeliveries.ports.peer a = some b) :
    s.engine.applyDeliveries.Channel a b ∧
      s.engine.applyDeliveries.ports.owner a = s.engine.ports.owner a := by
  have hstart : { s.engine with batch := [] }.Channel a b :=
    ⟨h.channel.matched, h.channel.peer, h.channel.live, h.channel.liveBack⟩
  obtain ⟨hput, -⟩ := PageEngine.puts_applyAll hstart ha
  obtain ⟨hback, -⟩ := PageEngine.puts_applyAll hstart.symm (hput.matched.entangled a b ha).2
  refine ⟨⟨hput.matched, ha, fun frame hframe => ?_, fun frame hframe => ?_⟩, hback.owner⟩
  · rw [PageEngine.applyDeliveries, hput.frames]
    exact h.channel.live frame (hput.owner.symm.trans hframe)
  · rw [PageEngine.applyDeliveries, hput.frames]
    exact h.channel.liveBack frame (hback.owner.symm.trans hframe)

theorem Inv.arrived (h : Inv a b s) (ha : s.engine.applyDeliveries.ports.peer a = some b)
    (hstep : s.step a b .apply = some s') :
    s'.pushed ++ s'.underWay b = s.pushed ++ if s.engine.ports.owner b = none then
      payloadsFor b s.engine.deliveries ++ (payloadsFor b s.engine.batch).reverse ++
        s.engine.ports.waiting b
    else s.underWay b := by
  have hstart : { s.engine with batch := [] }.Channel a b :=
    ⟨h.channel.matched, h.channel.peer, h.channel.live, h.channel.liveBack⟩
  obtain ⟨hput, hpushes⟩ := PageEngine.puts_applyAll hstart ha
  rw [step, if_pos ha, Option.some.injEq] at hstep
  subst hstep
  unfold underWay PageEngine.applyDeliveries
  dsimp only
  rw [hpushes, hput.waiting, hput.deliveries, hput.batch]
  split_ifs <;> simp

theorem inv_step {op : ChannelOp} (h : Inv a b s) (hc : Ordered b s op)
    (hstep : s.step a b op = some s') : Inv a b s' := by
  obtain ⟨old, hold, hpeer⟩ := PortTable.exists_of_peer h.channel.back
  have hopen := h.channel.matched.opened b old hold
  cases op with
  | post payload ports =>
    cases hstep
    obtain ⟨port, hport, hpeera⟩ := PortTable.exists_of_peer h.channel.peer
    have hopena := h.channel.matched.opened a port hport
    have hplaced : port.detached = false := by
      refine (h.channel.matched.placed a port hport).1 ?_
      rw [Option.isSome_iff_ne_none, ← PortTable.owner_eq hport]
      exact h.placed
    have hpost : s.engine.ports.post a payload ports = s.engine.ports.drain b
        { old with queue := old.queue ++ [⟨payload, ports⟩] } := by
      simp [PortTable.post, hport, hopena, hplaced, hpeera, hold, hopen]
    rw [hpost]
    exact h.drain [payload] hold rfl (by simp) rfl
  | start =>
    cases hstep
    have hstart : s.engine.ports.start b = s.engine.ports.drain b { old with enabled := true } := by
      simp [PortTable.start, hold, hopen]
    rw [hstart]
    exact h.drain [] hold rfl (by simp) (by simp)
  | detach frame =>
    cases hstep
    have hmatched := h.channel.matched.detach b frame
    unfold PageEngine.portDetach
    rcases s.engine.ports.detach_cases b frame with hd | ⟨port, hport, -, -, hd⟩
    · rw [hd]
      exact h
    · rw [hold] at hport
      cases hport
      rw [hd] at hmatched ⊢
      exact h.transfer hold rfl rfl hmatched (by simp)
  | route frame =>
    cases hstep
    have hmatched := h.channel.matched.route b frame
    unfold PageEngine.routeEndpoints
    rw [List.foldl_cons, List.foldl_nil]
    rw [PortTable.route_eq_set hold] at hmatched ⊢
    refine h.transfer hold ?_ ?_ hmatched fun f hf => h.channel.live f ?_
    · split_ifs <;> rfl
    · split_ifs <;> rfl
    · rw [PortTable.owner_eq hold, ← hf]
      split_ifs <;> rfl
  | adopt frame =>
    simp only [step] at hstep
    split_ifs at hstep with hlive
    cases hstep
    have hmatched := h.channel.matched.adopt b frame
    unfold PageEngine.portAdopt
    rcases s.engine.ports.adopt_cases b frame with hd | ⟨port, hport, -, -, hd⟩
    · rw [hd]
      exact h
    · rw [hold] at hport
      cases hport
      rw [hd] at hmatched ⊢
      refine h.transfer hold rfl rfl hmatched fun f hf => ?_
      cases hf
      exact hlive
  | take =>
    cases hstep
    refine ⟨⟨h.channel.matched, h.channel.peer, h.channel.live, h.channel.liveBack⟩, h.placed, ?_⟩
    have hin := h.inOrder
    unfold InOrder underWay PageEngine.takeDeliveries at *
    simpa using hin
  | apply =>
    have ha : s.engine.applyDeliveries.ports.peer a = some b := by
      by_contra hne
      rw [step, if_neg hne] at hstep
      cases hstep
    have hin := h.arrived ha hstep
    obtain ⟨hchannel, howner⟩ := h.applied ha
    refine ⟨?_, ?_, ?_⟩
    · rw [step, if_pos ha] at hstep
      cases hstep
      exact hchannel
    · rw [step, if_pos ha] at hstep
      cases hstep
      exact fun hnone => h.placed (howner.symm.trans hnone)
    · rw [InOrder, hin]
      rw [step, if_pos ha] at hstep
      cases hstep
      have hbefore := h.inOrder
      unfold InOrder underWay at hbefore
      unfold underWay
      split_ifs with howned
      · rw [hc howned]
        exact hbefore
      · exact hbefore

theorem ordered_of_inOrder {op : ChannelOp} (h : Inv a b s) (hstep : s.step a b op = some s')
    (hnext : s'.InOrder b) : Ordered b s op := by
  cases op with
  | apply =>
    intro howner
    have ha : s.engine.applyDeliveries.ports.peer a = some b := by
      by_contra hne
      rw [step, if_neg hne] at hstep
      cases hstep
    have hin := h.arrived ha hstep
    have hposted : s'.posted = s.posted := by
      rw [step, if_pos ha] at hstep
      cases hstep
      rfl
    rw [hnext, hposted, ← h.inOrder, if_pos howner, underWay] at hin
    have := List.append_cancel_left hin
    exact (List.append_cancel_right this).symm
  | _ => trivial

theorem inOrder_iff {ops : List ChannelOp} (hs : Fresh a b s)
    (hrun : run (step a b) s ops = some s') :
    Throughout (step a b) (InOrder b) s ops ↔ Along (step a b) (Ordered b) s ops :=
  throughout_iff_along_of_run (fun _ h => h.inOrder) (fun _ _ _ h hc hstep => inv_step h hc hstep)
    (fun _ _ _ h hstep hnext => ordered_of_inOrder h hstep hnext) hs.inv hrun

/-- Two frames, the first with a channel of its own. -/
def sample : ChannelRun where
  engine :=
    { ports := ((({} : PortTable).newPair 0).2)
      frames := (Dict.singleton 0 { origin := .opaqueOrigin 0 }).insert 1
        { origin := .opaqueOrigin 1 } }

theorem fresh_sample : Fresh 0 1 sample := by
  have hinv := PortLog.inv_empty.newPair 0 (by decide)
  refine ⟨⟨hinv.matched, by decide, ?_, ?_⟩, by decide, by decide, rfl, rfl⟩
  · intro frame hframe
    have : sample.engine.ports.owner 1 = some 0 := by decide
    rw [this] at hframe
    cases hframe
    decide
  · intro frame hframe
    have : sample.engine.ports.owner 0 = some 0 := by decide
    rw [this] at hframe
    cases hframe
    decide

/-- The delivery of the first message finds the port in transit. -/
def transferOps : List ChannelOp :=
  [.post "a".toList [], .start, .take, .detach 0, .apply, .post "b".toList [], .route 1, .adopt 1,
    .start, .post "c".toList [], .take, .apply]

theorem inOrder_iff_transfer :
    (run (step 0 1) sample transferOps).isSome = true ∧
      Throughout (step 0 1) (InOrder 1) sample transferOps := by
  have hrun : (run (step 0 1) sample transferOps).isSome = true := by decide
  obtain ⟨s', hs'⟩ := Option.isSome_iff_exists.1 hrun
  exact ⟨hrun, (inOrder_iff fresh_sample hs').2 (by decide)⟩

/-- Two messages are delivered, but not yet routed, when the port is detached. -/
theorem not_inOrder_of_two : ∃ s', run (step 0 1) sample
    [.start, .post "a".toList [], .post "b".toList [], .detach 0, .take, .apply] = some s' ∧
      Fresh 0 1 sample ∧ s'.posted = ["a".toList, "b".toList] ∧
      s'.pushed ++ s'.underWay 1 = ["b".toList, "a".toList] := by
  have hrun : ∃ s', run (step 0 1) sample
      [.start, .post "a".toList [], .post "b".toList [], .detach 0, .take, .apply] = some s' ∧
        s'.posted = ["a".toList, "b".toList] ∧
        s'.pushed ++ s'.underWay 1 = ["b".toList, "a".toList] := ⟨_, rfl, by decide, by decide⟩
  obtain ⟨s', h, hposted, hpushed⟩ := hrun
  exact ⟨s', h, fresh_sample, hposted, hpushed⟩

end ChannelRun

end TinyBrowser
