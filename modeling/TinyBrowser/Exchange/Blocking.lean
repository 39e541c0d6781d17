import TinyBrowser.Exchange.Basic

/-!
# Blocking calls

`BlockingClient` is the synchronous call side of the renderer process: `call` blocks until its reply
is delivered, `call_with` leaves a callback. A call is entered in the pending table before its frame
is sent, and taken out again when the send fails; `deliver` takes an entry out and then settles it;
`close` disconnects the sender first and settles what the table holds after that.

A reply sender or a callback is in one place at a time; `Place` says where.
-/

namespace TinyBrowser.Exchange
open Lib

inductive BlockingKind where
  | wait
  | callback
deriving DecidableEq

/-- An entry of the table: the reply sender, or the callback, of the call named by the token. -/
structure BlockingPending where
  kind : BlockingKind
  token : Token
deriving DecidableEq

inductive BlockingPhase where
  | starting
  | minted (id : RequestId)
  | inserted (id : RequestId)
  | sending (id : RequestId)
  | failed (id : RequestId)
  /-- `start` has taken out what it found under its id. -/
  | removed (waiting : Option BlockingPending)
  /-- `start` has returned the id; `call` waits for its reply. -/
  | sent (id : RequestId)
  | returned
deriving DecidableEq

def BlockingPhase.begun : BlockingPhase → Bool
  | .starting | .minted _ => false
  | .inserted _ | .sending _ | .failed _ | .removed _ | .sent _ | .returned => true

/-- The id under which the call's entry may stand in the table. -/
def BlockingPhase.holds : BlockingPhase → Option RequestId
  | .inserted id | .sending id | .failed id | .sent id => some id
  | .starting | .minted _ | .removed _ | .returned => none

def BlockingPhase.mintedId : BlockingPhase → Option RequestId
  | .minted id => some id
  | .starting | .inserted _ | .sending _ | .failed _ | .removed _ | .sent _ | .returned => none

/-- `send` has not seen the flag open. -/
def BlockingPhase.early : BlockingPhase → Bool
  | .inserted _ | .failed _ => true
  | .starting | .minted _ | .sending _ | .removed _ | .sent _ | .returned => false

inductive Place (R : Type) where
  | unregistered
  | table (id : RequestId)
  /-- In the hands of a `deliver`. -/
  | delivering
  /-- In the hands of a `start` that failed. -/
  | held (starter : Token)
  | settled (result : Except Error R)
  | dropped

structure BlockingCall (R : Type) where
  kind : BlockingKind
  phase : BlockingPhase
  place : Place R

inductive BlockingEvent (R : Type) where
  | invoked (token : Token) (result : Except Error R)
  | returned (token : Token) (result : Except Error R)

structure BlockingState (R : Type) where
  closed : Bool
  next : RequestId
  pending : Dict RequestId BlockingPending
  calls : Dict Token (BlockingCall R)
  /-- Entries that a `deliver` has taken out and not settled yet. -/
  delivering : List (BlockingPending × R)
  /-- How many `close` calls have disconnected and not drained yet. -/
  closing : Nat
  completed : Bool
  log : List (BlockingEvent R)

namespace BlockingState
variable {R : Type}

def new : BlockingState R := ⟨false, 1, .empty, .empty, [], 0, false, []⟩

variable (s : BlockingState R)

def setPhase (token : Token) (phase : BlockingPhase) : BlockingState R :=
  { s with calls := s.calls.modify token fun c => { c with phase } }

def setPlace (token : Token) (place : Place R) : BlockingState R :=
  { s with calls := s.calls.modify token fun c => { c with place } }

def record (event : BlockingEvent R) : BlockingState R := { s with log := s.log ++ [event] }

/-- Sends the result to a waiting call, or invokes a callback with it. -/
def settle (waiting : BlockingPending) (result : Except Error R) : BlockingState R :=
  let s := s.setPlace waiting.token (.settled result)
  match waiting.kind with
  | .wait => s
  | .callback => s.record (.invoked waiting.token result)

/-- An entry leaves the table without being settled. -/
def dropEntry : Option BlockingPending → BlockingState R
  | some waiting => s.setPlace waiting.token .dropped
  | none => s

/-- What a failed `start` does with what it took out: it invokes a callback and drops a sender. -/
def release : Option BlockingPending → BlockingState R
  | some ⟨.callback, token⟩ => s.settle ⟨.callback, token⟩ (.error .closed)
  | waiting => s.dropEntry waiting

/-- The call returns its result; a `call_with` only ends. -/
def finish (token : Token) (kind : BlockingKind) (result : Except Error R) : BlockingState R :=
  let s := s.setPhase token .returned
  match kind with
  | .wait => s.record (.returned token result)
  | .callback => s

/-- The critical section of `close`. -/
def drain : BlockingState R :=
  { s.pending.pairs.foldl (fun s entry => s.settle entry.2 (.error .closed)) s with
    pending := .empty }

end BlockingState

inductive BlockingAction where
  | nextId
  | insert
  /-- `send` looks at the closed flag. -/
  | send
  | sent (ok : Bool)
  | remove
  | fail
  | receive
deriving DecidableEq

namespace BlockingState
variable {R : Type} (s : BlockingState R)

/-- `start` enters its call; what was under the id is dropped. -/
def enter (token : Token) (kind : BlockingKind) (id : RequestId) : BlockingState R :=
  let s := { s.dropEntry (s.pending.get? id) with pending := s.pending.insert id ⟨kind, token⟩ }
  (s.setPlace token (.table id)).setPhase token (.inserted id)

/-- A failed `start` takes out what is under its id. -/
def takeBack (token : Token) (id : RequestId) : BlockingState R :=
  let waiting := s.pending.get? id
  let s := { s with pending := s.pending.erase id }
  let s := match waiting with
    | some waiting => s.setPlace waiting.token (.held token)
    | none => s
  s.setPhase token (.removed waiting)

/-- One step of `start`, or of the `call` around it. -/
def act (token : Token) (c : BlockingCall R) : BlockingAction → BlockingPhase →
    Option (BlockingState R)
  | .nextId, .starting =>
    some { s.setPhase token (.minted s.next) with next := (s.next + 1) % (u64Max + 1) }
  | .insert, .minted id => some (s.enter token c.kind id)
  | .send, .inserted id => some (s.setPhase token (if s.closed then .failed id else .sending id))
  | .sent ok, .sending id => some (s.setPhase token (if ok then .sent id else .failed id))
  | .remove, .failed id => some (s.takeBack token id)
  | .fail, .removed waiting =>
    some ((s.release waiting).finish token c.kind (.error .closed))
  | .receive, .sent _ => match c.kind, c.place with
    | .wait, .settled result => some (s.finish token .wait result)
    | .wait, .dropped => some (s.finish token .wait (.error .closed))
    | _, _ => none
  | _, _ => none

/-- What a step of a call does to the state. -/
inductive Acted (token : Token) (c : BlockingCall R) : BlockingState R → Prop where
  | moved (phase : BlockingPhase) (next : RequestId) (hbegun : phase.begun = c.phase.begun)
      (hholds : phase.holds = c.phase.holds) (hremoved : ∀ w, phase ≠ .removed w)
      (hremoved' : ∀ w, c.phase ≠ .removed w) (hreturned : phase ≠ .returned)
      (hreturned' : c.phase ≠ .returned)
      (hearly : s.closed = true → c.phase.early = true → phase.early = true) :
      Acted token c ({ s with next }.setPhase token phase)
  | entered (id : RequestId) (h : c.phase = .minted id) : Acted token c (s.enter token c.kind id)
  | took (id : RequestId) (h : c.phase = .failed id) : Acted token c (s.takeBack token id)
  | failed (waiting : Option BlockingPending) (h : c.phase = .removed waiting) :
      Acted token c ((s.release waiting).finish token c.kind (.error .closed))
  | received (id : RequestId) (result : Except Error R) (h : c.phase = .sent id)
      (hplace : ∀ id, c.place ≠ .table id) : Acted token c (s.finish token c.kind result)

theorem acted_of_act {token : Token} {c : BlockingCall R} {action : BlockingAction}
    {s' : BlockingState R} (h : s.act token c action c.phase = some s') : s.Acted token c s' := by
  generalize hp : c.phase = phase at h
  unfold act at h
  split at h
  · exact Option.some.inj h ▸ .moved (.minted s.next) _ (by rw [hp]; rfl) (by rw [hp]; rfl) (by simp)
      (by simp [hp]) (by simp) (by simp [hp]) (by simp [hp, BlockingPhase.early])
  · exact Option.some.inj h ▸ .entered _ hp
  · rw [← Option.some.inj h]
    split_ifs with hclosed
    · exact .moved (.failed _) s.next (by rw [hp]; rfl) (by rw [hp]; rfl) (by simp)
        (by simp [hp]) (by simp) (by simp [hp]) (by simp [BlockingPhase.early])
    · exact .moved (.sending _) s.next (by rw [hp]; rfl) (by rw [hp]; rfl) (by simp)
        (by simp [hp]) (by simp) (by simp [hp]) (by simp [hclosed])
  · rw [← Option.some.inj h]
    split_ifs
    · exact .moved (.sent _) s.next (by rw [hp]; rfl) (by rw [hp]; rfl) (by simp)
        (by simp [hp]) (by simp) (by simp [hp]) (by simp [hp, BlockingPhase.early])
    · exact .moved (.failed _) s.next (by rw [hp]; rfl) (by rw [hp]; rfl) (by simp)
        (by simp [hp]) (by simp) (by simp [hp]) (by simp [BlockingPhase.early])
  · exact Option.some.inj h ▸ .took _ hp
  · exact Option.some.inj h ▸ .failed _ hp
  · split at h
    · next hkind hplace => exact Option.some.inj h ▸ hkind ▸ .received _ _ hp (by simp [hplace])
    · next hkind hplace => exact Option.some.inj h ▸ hkind ▸ .received _ _ hp (by simp [hplace])
    · cases h
  · cases h

/-- The critical section of `deliver`. -/
def deliver (id : RequestId) (body : R) : BlockingState R :=
  match s.pending.get? id with
  | some waiting =>
    { s.setPlace waiting.token .delivering with
      pending := s.pending.erase id
      delivering := s.delivering ++ [(waiting, body)] }
  | none => s

end BlockingState

inductive BlockingStep (R : Type) where
  | start (token : Token) (kind : BlockingKind)
  | client (token : Token) (action : BlockingAction)
  | deliver (id : RequestId) (body : R)
  /-- One of the `deliver` calls settles the entry it took out. -/
  | settle (i : Nat)
  | disconnect
  | drain
deriving DecidableEq

namespace BlockingState
variable {R : Type} (s : BlockingState R)

def step : BlockingStep R → Option (BlockingState R)
  | .start token kind =>
    if s.calls.contains token then none
    else some { s with calls := s.calls.insert token ⟨kind, .starting, .unregistered⟩ }
  | .client token action => (s.calls.get? token).bind fun c => s.act token c action c.phase
  | .deliver id body => some (s.deliver id body)
  | .settle i => s.delivering[i]?.map fun (waiting, body) =>
    { s.settle waiting (.ok body) with delivering := s.delivering.eraseIdx i }
  | .disconnect => some { s with closed := true, closing := s.closing + 1 }
  | .drain =>
    if s.closing = 0 then none
    else some { s.drain with closing := s.closing - 1, completed := true }

end BlockingState

end TinyBrowser.Exchange
