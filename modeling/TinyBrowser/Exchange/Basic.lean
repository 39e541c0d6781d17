import TinyBrowser.Lib.Dict
import TinyBrowser.Lib.Machine
import TinyBrowser.Protocol

/-!
# Calls over a framed transport

`Client` starts calls: it reserves a place in the outgoing lane, takes an id, enters the call in the
pending table and sends the frame; the answer comes back through a oneshot channel. The router task
takes the incoming frames and settles the calls of the table. Both run on threads of their own, so
`step` takes one step of one of them that the others can see: an atomic operation, a critical section
of the pending table, or a send.

A call of the program is named by a token; its id comes from a counter that wraps. The oneshot
sender in the table is the token of the call that waits on it.
-/

namespace TinyBrowser.Exchange
open Lib

abbrev RequestId := Nat
abbrev Token := Nat
abbrev Bytes := List UInt8

inductive Error where
  | closed
  | protocol
  | subscriberLimit
deriving DecidableEq

/-- One decoded message. -/
inductive Frame (C R N : Type) where
  | call (id : RequestId) (body : C)
  | reply (id : RequestId) (body : R)
  | notify (notice : N)
  | requestChunk (id : RequestId) (bytes : Bytes)
  | requestEnd (id : RequestId) (error : Option Text)
  | responseChunk (id : RequestId) (bytes : Bytes)
  | cancel (id : RequestId)
deriving DecidableEq

/-- The call that a frame of the answering side is for. -/
def Frame.target {C R N : Type} : Frame C R N → Option RequestId
  | .reply id _ | .responseChunk id _ => some id
  | .call .. | .notify _ | .requestChunk .. | .requestEnd .. | .cancel _ => none

/-- `call`, `call_download` and `begin_upload`. -/
inductive Kind where
  | unary
  | download (limit : Nat)
  | upload
deriving DecidableEq

/-- What a call returns. -/
inductive Outcome (R : Type) where
  | reply (body : R)
  | download (body : R) (bytes : Bytes)
  | failed (error : Error)
deriving DecidableEq

/-- A oneshot channel, as its receiver finds it. -/
inductive Slot (R : Type) where
  | empty
  | sent (outcome : Outcome R)
  | dropped
deriving DecidableEq

/-- Where a call stands in its own code. -/
inductive Phase where
  /-- `reserve` has not looked at the closed flag yet. -/
  | calling
  | reserving
  | permitted
  | minted (id : RequestId)
  | inserted (id : RequestId)
  | uploading (id : RequestId)
  | waiting (id : RequestId)
  /-- `RequestEnd` could not be sent. -/
  | endFailed (id : RequestId)
  | abandoned (id : RequestId)
  /-- The entry is removed and the `Cancel` frame not sent yet. -/
  | cancelling (id : RequestId) (failed : Bool)
  | done
deriving DecidableEq

namespace Phase

/-- The id under which the call's entry may stand in the table. -/
def holds : Phase → Option RequestId
  | inserted id | uploading id | waiting id | endFailed id => some id
  | calling | reserving | permitted | minted _ | abandoned _ | cancelling .. | done => none

/-- The call is past its entry in the table. -/
def begun : Phase → Bool
  | calling | reserving | permitted | minted _ => false
  | inserted _ | uploading _ | waiting _ | endFailed _ | abandoned _ | cancelling .. | done => true

end Phase

structure Call (R : Type) where
  kind : Kind
  phase : Phase
  slot : Slot R
deriving DecidableEq

/-- An entry of the pending table, with its oneshot sender. -/
inductive Pending where
  | unary (reply : Token)
  | download (bytes : Bytes) (limit : Nat) (reply : Token)
deriving DecidableEq

namespace Pending

def reply : Pending → Token
  | unary reply => reply
  | download _ _ reply => reply

/-- What the entry's call is sent for a reply. -/
def answer {R : Type} (body : R) : Pending → Outcome R
  | unary _ => .reply body
  | download bytes _ _ => .download body bytes

end Pending

def Kind.pending (token : Token) : Kind → Pending
  | .unary | .upload => .unary token
  | .download limit => .download [] limit token

inductive RouterPhase (R : Type) where
  | running
  /-- `route_reply` has taken the entry and not answered it yet. -/
  | replying (waiting : Pending) (body : R)
  /-- The loop has ended. -/
  | closing
  | failed
  | disconnected
  | finished
deriving DecidableEq

/-- What the parties did, in order. -/
inductive Event (R : Type) where
  | started (token : Token) (kind : Kind) (id : RequestId)
  | reply (id : RequestId) (body : R)
  | chunk (id : RequestId) (bytes : Bytes)
  | returned (token : Token) (outcome : Outcome R)
deriving DecidableEq

structure State (R : Type) where
  /-- The closed flag of the outgoing lanes. -/
  closed : Bool
  next : RequestId
  pending : Dict RequestId Pending
  calls : Dict Token (Call R)
  /-- The closed flag of the server's input lanes. -/
  serverClosed : Bool
  router : RouterPhase R
  log : List (Event R)
deriving DecidableEq

/-- A lane as `try_send` finds it. -/
inductive LaneState where
  | open
  | full
  | closed
deriving DecidableEq

/-- `try_send` over a closed flag: the answer, and the flag after it. A full lane disconnects. -/
def trySend (closed : Bool) (lane : LaneState) : Except Error Unit × Bool :=
  if closed then (.error .closed, closed)
  else match lane with
    | .open => (.ok (), closed)
    | .closed => (.error .closed, closed)
    | .full => (.error .closed, true)

namespace State
variable {R : Type}

def new : State R := ⟨false, 1, .empty, .empty, false, .running, []⟩

variable (s : State R)

def setPhase (token : Token) (phase : Phase) : State R :=
  { s with calls := s.calls.modify token fun c => { c with phase } }

def setSlot (token : Token) (slot : Slot R) : State R :=
  { s with calls := s.calls.modify token fun c => { c with slot } }

def record (event : Event R) : State R := { s with log := s.log ++ [event] }

/-- The call returns to its caller. -/
def finish (token : Token) (outcome : Outcome R) : State R :=
  (s.setPhase token .done).record (.returned token outcome)

/-! ### The pending table -/

/-- Drops the sender of an entry that leaves the table unanswered. -/
def dropSender : Option Pending → State R
  | some entry => s.setSlot entry.reply .dropped
  | none => s

/-- Enters a call; the entry it replaces is dropped. -/
def insertPending (id : RequestId) (entry : Pending) : State R :=
  { s.dropSender (s.pending.get? id) with pending := s.pending.insert id entry }

def removePending (id : RequestId) : State R :=
  { s.dropSender (s.pending.get? id) with pending := s.pending.erase id }

/-- Answers every pending call, in the critical section that drains the table. -/
def failPending : State R :=
  { s.pending.pairs.foldl (fun s entry => s.setSlot entry.2.reply (.sent (.failed .closed))) s with
    pending := .empty }

/-! What each of these writes. -/

@[simp] theorem get?_setPhase (token : Token) (phase : Phase) (t : Token) :
    (s.setPhase token phase).calls.get? t =
      if t = token then (s.calls.get? t).map fun c => { c with phase } else s.calls.get? t :=
  Dict.get?_modify ..

@[simp] theorem get?_setSlot (token : Token) (slot : Slot R) (t : Token) :
    (s.setSlot token slot).calls.get? t =
      if t = token then (s.calls.get? t).map fun c => { c with slot } else s.calls.get? t :=
  Dict.get?_modify ..

@[simp] theorem pending_setPhase (token : Token) (phase : Phase) :
    (s.setPhase token phase).pending = s.pending := rfl

@[simp] theorem router_setPhase (token : Token) (phase : Phase) :
    (s.setPhase token phase).router = s.router := rfl

@[simp] theorem log_setPhase (token : Token) (phase : Phase) :
    (s.setPhase token phase).log = s.log := rfl

@[simp] theorem dropSender_pending (entry : Option Pending) :
    (s.dropSender entry).pending = s.pending := by cases entry <;> rfl

@[simp] theorem dropSender_router (entry : Option Pending) :
    (s.dropSender entry).router = s.router := by cases entry <;> rfl

@[simp] theorem dropSender_log (entry : Option Pending) :
    (s.dropSender entry).log = s.log := by cases entry <;> rfl

@[simp] theorem get?_dropSender (entry : Option Pending) (t : Token) :
    (s.dropSender entry).calls.get? t =
      if entry.map Pending.reply = some t then
        (s.calls.get? t).map fun c => { c with slot := .dropped }
      else s.calls.get? t := by
  cases entry with
  | none => rfl
  | some entry => simp [dropSender, eq_comm]

/-- `failPending` answers the calls of the table and no other. -/
theorem get?_failPending (t : Token) :
    s.failPending.calls.get? t =
      if t ∈ s.pending.pairs.map (·.2.reply) then
        (s.calls.get? t).map fun c => { c with slot := .sent (.failed .closed) }
      else s.calls.get? t := by
  have hfold : ∀ (l : List (RequestId × Pending)) (s : State R),
      (l.foldl (fun s entry => s.setSlot entry.2.reply (.sent (.failed .closed))) s).calls.get? t =
        if t ∈ l.map (·.2.reply) then
          (s.calls.get? t).map fun c => { c with slot := .sent (.failed .closed) }
        else s.calls.get? t := by
    intro l
    induction l with
    | nil => exact fun s => rfl
    | cons x l ih =>
      intro s
      rw [List.foldl_cons, ih, get?_setSlot, List.map_cons]
      by_cases hx : t = x.2.reply <;> by_cases hl : t ∈ l.map (·.2.reply) <;>
        simp only [hx, hl, List.mem_cons, true_or, or_true, false_or, if_true, if_false,
          Option.map_map, Function.comp_def, ite_self]
  exact hfold _ s

theorem mem_replies_iff (t : Token) : t ∈ s.pending.pairs.map (·.2.reply) ↔
    ∃ id entry, s.pending.get? id = some entry ∧ entry.reply = t := by
  simp [Dict.get?_eq_some_iff]

theorem failPending_rest : s.failPending.router = s.router ∧ s.failPending.log = s.log := by
  have hfold : ∀ (l : List (RequestId × Pending)) (s : State R),
      (l.foldl (fun s entry => s.setSlot entry.2.reply (.sent (.failed .closed))) s).router =
        s.router ∧
      (l.foldl (fun s entry => s.setSlot entry.2.reply (.sent (.failed .closed))) s).log = s.log := by
    intro l
    induction l with
    | nil => exact fun s => ⟨rfl, rfl⟩
    | cons x l ih => exact fun s => ih _
  exact hfold _ s

end State

/-! ### Client -/

inductive Action where
  | reserve
  | granted
  | refused
  | nextId
  | insert
  | send
  | receive
  | endUpload (sent : Bool)
  | removePending
  | drop
  | cancel (lane : LaneState)
deriving DecidableEq

namespace State
variable {R : Type} (s : State R)

/-- One step of a call. `reserve` looks at the closed flag once and then waits for a permit or for
the flag; `receive` is `receiver.await`, where a dropped sender is `Closed`; `drop` drops the future
or the upload, and after `abandoned` it is `Upload`'s own destructor. -/
def act (token : Token) (c : Call R) : Action → Phase → Option (State R)
  | .reserve, .calling =>
    some (if s.closed then s.finish token (.failed .closed) else s.setPhase token .reserving)
  | .granted, .reserving => some (s.setPhase token .permitted)
  | .refused, .reserving => some (s.finish token (.failed .closed))
  | .nextId, .permitted =>
    some { s.setPhase token (.minted s.next) with next := (s.next + 1) % (u64Max + 1) }
  | .insert, .minted id =>
    some (((s.insertPending id (c.kind.pending token)).setPhase token (.inserted id)).record
      (.started token c.kind id))
  | .send, .inserted id =>
    some (s.setPhase token (if c.kind = .upload then .uploading id else .waiting id))
  | .receive, .waiting _ => match c.slot with
    | .empty => none
    | .sent outcome => some (s.finish token outcome)
    | .dropped => some (s.finish token (.failed .closed))
  | .endUpload sent, .uploading id =>
    some (s.setPhase token (if sent then .waiting id else .endFailed id))
  | .removePending, .endFailed id => some ((s.removePending id).setPhase token (.abandoned id))
  | .drop, .calling => some (s.setPhase token .done)
  | .drop, .reserving => some (s.setPhase token .done)
  | .drop, .uploading id => some ((s.removePending id).setPhase token (.cancelling id false))
  | .drop, .waiting id => some ((s.removePending id).setPhase token (.cancelling id false))
  | .drop, .abandoned id => some ((s.removePending id).setPhase token (.cancelling id true))
  | .cancel lane, .cancelling _ failed =>
    let s := { s with closed := (trySend s.closed lane).2 }
    some (if failed then s.finish token (.failed .closed) else s.setPhase token .done)
  | _, _ => none

/-- What a step of a call does to the state: it moves on, it returns to the caller, it enters the
table, or it removes what is under its id. -/
inductive Acted (token : Token) (c : Call R) : State R → Prop where
  | moved (phase : Phase) (closed : Bool) (next : RequestId) (hholds : phase.holds = c.phase.holds)
      (hbegun : phase.begun = false → c.phase.begun = false) (hdone : c.phase ≠ .done) :
      Acted token c ({ s with closed, next }.setPhase token phase)
  | finished (outcome : Outcome R) (closed : Bool)
      (h : c.phase.holds = none ∧ outcome = .failed .closed ∨ c.slot = .sent outcome ∨
        c.slot = .dropped ∧ outcome = .failed .closed) (hdone : c.phase ≠ .done) :
      Acted token c ({ s with closed }.finish token outcome)
  | inserted (id : RequestId) (h : c.phase = .minted id) :
      Acted token c (((s.insertPending id (c.kind.pending token)).setPhase token
        (.inserted id)).record (.started token c.kind id))
  | removed (id : RequestId) (phase : Phase)
      (hid : c.phase.holds = some id ∨ c.phase.holds = none) (hphase : phase.holds = none)
      (hbegun : phase.begun = true) (hdone : c.phase ≠ .done) :
      Acted token c ((s.removePending id).setPhase token phase)

theorem acted_of_act {token : Token} {c : Call R} {action : Action} {s' : State R}
    (h : s.act token c action c.phase = some s') : s.Acted token c s' := by
  generalize hp : c.phase = phase at h
  have hholds : c.phase.holds = phase.holds := congrArg Phase.holds hp
  unfold act at h
  -- in the order of the definition
  split at h
  · split_ifs at h
    · exact Option.some.inj h ▸ .finished _ s.closed (.inl ⟨hholds, rfl⟩) (by simp [hp])
    · exact Option.some.inj h ▸ .moved .reserving s.closed s.next hholds.symm (by simp [hp, Phase.begun])
        (by simp [hp])
  · exact Option.some.inj h ▸ .moved .permitted s.closed s.next hholds.symm (by simp [hp, Phase.begun])
      (by simp [hp])
  · exact Option.some.inj h ▸ .finished _ s.closed (.inl ⟨hholds, rfl⟩) (by simp [hp])
  · exact Option.some.inj h ▸ .moved (.minted s.next) s.closed _ hholds.symm (by simp [hp, Phase.begun])
      (by simp [hp])
  · exact Option.some.inj h ▸ .inserted _ hp
  · rw [← Option.some.inj h]
    split_ifs
    · exact .moved (.uploading _) s.closed s.next hholds.symm (by simp [Phase.begun]) (by simp [hp])
    · exact .moved (.waiting _) s.closed s.next hholds.symm (by simp [Phase.begun]) (by simp [hp])
  · split at h
    · cases h
    · next hslot => exact Option.some.inj h ▸ .finished _ s.closed (.inr (.inl hslot)) (by simp [hp])
    · next hslot =>
      exact Option.some.inj h ▸ .finished _ s.closed (.inr (.inr ⟨hslot, rfl⟩)) (by simp [hp])
  · rw [← Option.some.inj h]
    split_ifs
    · exact .moved (.waiting _) s.closed s.next hholds.symm (by simp [Phase.begun]) (by simp [hp])
    · exact .moved (.endFailed _) s.closed s.next hholds.symm (by simp [Phase.begun]) (by simp [hp])
  · exact Option.some.inj h ▸ .removed _ _ (.inl hholds) rfl rfl (by simp [hp])
  · exact Option.some.inj h ▸ .moved .done s.closed s.next hholds.symm (by simp [Phase.begun])
      (by simp [hp])
  · exact Option.some.inj h ▸ .moved .done s.closed s.next hholds.symm (by simp [Phase.begun])
      (by simp [hp])
  · exact Option.some.inj h ▸ .removed _ _ (.inl hholds) rfl rfl (by simp [hp])
  · exact Option.some.inj h ▸ .removed _ _ (.inl hholds) rfl rfl (by simp [hp])
  · exact Option.some.inj h ▸ .removed _ _ (.inr hholds) rfl rfl (by simp [hp])
  · rw [← Option.some.inj h]
    split_ifs
    · exact .finished _ _ (.inl ⟨hholds, rfl⟩) (by simp [hp])
    · exact .moved .done _ s.next hholds.symm (by simp [Phase.begun]) (by simp [hp])
  · cases h

def start (token : Token) (kind : Kind) : Option (State R) :=
  if s.calls.contains token then none
  else some { s with calls := s.calls.insert token ⟨kind, .calling, .empty⟩ }

/-! ### Router -/

/-- The first half of `route_reply`: the critical section. -/
def routeReply (id : RequestId) (body : R) : State R :=
  let s := s.record (.reply id body)
  match s.pending.get? id with
  | some waiting => { s with pending := s.pending.erase id, router := .replying waiting body }
  | none => s

def routeChunk (id : RequestId) (bytes : Bytes) : Except Error Unit × State R :=
  let s := s.record (.chunk id bytes)
  match s.pending.get? id with
  | some (.download buffer limit reply) =>
    if buffer.length + bytes.length > limit then (.error .protocol, s)
    else (.ok (), { s with pending := s.pending.insert id (.download (buffer ++ bytes) limit reply) })
  | some (.unary _) => (.error .protocol, s)
  | none => (.ok (), s)

def sendServer (lane : LaneState) : Except Error Unit × State R :=
  let (result, serverClosed) := trySend s.serverClosed lane
  (result, { s with serverClosed })

/-- Routes one frame. `before` and `lane` are the server's lane when `Notify` asks whether it is
closed and when the frame is sent to it. -/
def route {C N : Type} (frame : Frame C R N) (before lane : LaneState) :
    Except Error Unit × State R :=
  match frame with
  | .reply id body => (.ok (), s.routeReply id body)
  | .responseChunk id bytes => s.routeChunk id bytes
  | .notify _ =>
    let closedBefore := s.serverClosed || before = .closed
    match s.sendServer lane with
    | (.ok (), s) => (.ok (), s)
    | (.error error, s) => (if closedBefore then .ok () else .error error, s)
  | .call .. | .requestChunk .. | .requestEnd .. | .cancel .. => s.sendServer lane

/-- The log entry of a frame for the id. -/
def IsFrame (id : RequestId) (event : Event R) : Prop :=
  (∃ body, event = .reply id body) ∨ ∃ bytes, event = .chunk id bytes

/-- What routing a frame does to the state: it goes to the server's lane, it is for nobody, it takes
an entry out to answer it, it adds to a download, or it ends the loop. -/
inductive Routed : Option RequestId → Except Error Unit → State R → Prop where
  | served (result : Except Error Unit) (serverClosed : Bool) :
      Routed none result { s with serverClosed }
  | unknown (id : RequestId) (event : Event R) (hevent : IsFrame id event)
      (he : s.pending.get? id = none) : Routed (some id) (.ok ()) (s.record event)
  | taken (id : RequestId) (body : R) (waiting : Pending) (he : s.pending.get? id = some waiting) :
      Routed (some id) (.ok ()) { s.record (.reply id body) with
        pending := s.pending.erase id, router := .replying waiting body }
  | appended (id : RequestId) (bytes buffer : Bytes) (limit : Nat) (reply : Token)
      (he : s.pending.get? id = some (.download buffer limit reply))
      (hlimit : ¬ buffer.length + bytes.length > limit) :
      Routed (some id) (.ok ()) { s.record (.chunk id bytes) with
        pending := s.pending.insert id (.download (buffer ++ bytes) limit reply) }
  | refused (id : RequestId) (bytes : Bytes) :
      Routed (some id) (.error .protocol) (s.record (.chunk id bytes))

theorem routed_of_route {C N : Type} {frame : Frame C R N} {before lane : LaneState}
    {result : Except Error Unit} {s' : State R} (h : s.route frame before lane = (result, s')) :
    s.Routed frame.target result s' := by
  have hserver : ∀ {answer : Except Error Unit} {s₁ : State R}, s.sendServer lane = (answer, s₁) →
      ∀ result, s.Routed none result s₁ := by
    intro answer s₁ hsend result
    rw [← (Prod.mk.inj hsend).2]
    exact .served result _
  cases frame with
  | reply id body =>
    simp only [route, routeReply] at h
    split at h <;> rename_i he <;> obtain ⟨rfl, rfl⟩ := Prod.mk.inj h
    · exact .taken id body _ he
    · exact .unknown id _ (.inl ⟨body, rfl⟩) he
  | responseChunk id bytes =>
    simp only [route, routeChunk] at h
    split at h
    · next buffer limit reply he =>
      split_ifs at h with hlimit <;> obtain ⟨rfl, rfl⟩ := Prod.mk.inj h
      · exact .refused id bytes
      · exact .appended id bytes buffer limit reply he hlimit
    · obtain ⟨rfl, rfl⟩ := Prod.mk.inj h
      exact .refused id bytes
    · next he =>
      obtain ⟨rfl, rfl⟩ := Prod.mk.inj h
      exact .unknown id _ (.inr ⟨bytes, rfl⟩) he
  | notify notice =>
    simp only [route] at h
    split at h <;> rename_i hsend <;> obtain ⟨rfl, rfl⟩ := Prod.mk.inj h
    · exact hserver hsend _
    · exact hserver hsend _
  | call id body => exact hserver h result
  | requestChunk id bytes => exact hserver h result
  | requestEnd id error => exact hserver h result
  | cancel id => exact hserver h result

end State

/-- The steps of the router task, in the order it takes them when its loop ends. -/
inductive RouterStep (C R N : Type) where
  | route (frame : Frame C R N) (before lane : LaneState)
  | settle
  | hangUp
  | failPending
  | disconnect
  | finish
deriving DecidableEq

inductive Step (C R N : Type) where
  | start (token : Token) (kind : Kind)
  | client (token : Token) (action : Action)
  | router (step : RouterStep C R N)
  /-- Another owner of the router closes it: `fail_pending`. -/
  | failElsewhere
  /-- Another owner of a sender disconnects it. -/
  | closeElsewhere
  | closeServerElsewhere
deriving DecidableEq

namespace State
variable {C R N : Type} (s : State R)

def routerStep : RouterStep C R N → Option (State R)
  | .route frame before lane => match s.router with
    | .running => match s.route frame before lane with
      | (.ok (), s) => some s
      | (.error _, s) => some { s with router := .closing }
    | _ => none
  | .settle => match s.router with
    | .replying waiting body =>
      some { s.setSlot waiting.reply (.sent (waiting.answer body)) with router := .running }
    | _ => none
  | .hangUp => match s.router with
    | .running => some { s with router := .closing }
    | _ => none
  | .failPending => match s.router with
    | .closing => some { s.failPending with router := .failed }
    | _ => none
  | .disconnect => match s.router with
    | .failed => some { s with serverClosed := true, router := .disconnected }
    | _ => none
  | .finish => match s.router with
    | .disconnected => some { s with closed := true, router := .finished }
    | _ => none

def step : Step C R N → Option (State R)
  | .start token kind => s.start token kind
  | .client token action => (s.calls.get? token).bind fun c => s.act token c action c.phase
  | .router i => s.routerStep i
  | .failElsewhere => some s.failPending
  | .closeElsewhere => some { s with closed := true }
  | .closeServerElsewhere => some { s with serverClosed := true }

end State

end TinyBrowser.Exchange
