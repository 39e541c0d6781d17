import TinyBrowser.Crates
import TinyBrowser.Lib.Dict
import TinyBrowser.Protocol

/-!
# Message ports

`PortTable` of `crates/renderer/src/messaging.rs`: the endpoints of every channel of a renderer
process. An endpoint has a row while it is open; its messages wait in the row's queue until the
queue is enabled and the endpoint is in a realm. The operations that hand work to the engine return
the deliveries they push.
-/

namespace TinyBrowser
open Lib

/-- Identity of one document instance in a frame. -/
abbrev DocumentId := Nat

structure QueuedPortMessage where
  payload : Text
  ports : List Nat
deriving DecidableEq, Repr

structure PortEndpoint where
  peer : Option Nat := none
  owner : Option FrameId := none
  enabled : Bool := false
  closed : Bool := false
  detached : Bool := false
  recipient : Option FrameId := none
  closePending : Bool := false
  queue : List QueuedPortMessage := []
deriving DecidableEq, Repr

inductive Delivery where
  | windowMessage (target : FrameId) (document : DocumentId) (source : FrameId) (origin : Text)
      (targetOrigin : TargetOrigin) (payload : Text) (ports : List Nat)
  | portMessage (endpoint : Nat) (payload : Text) (ports : List Nat)
  | portClosed (endpoint : Nat)
deriving DecidableEq, Repr

structure PortTable where
  next : Nat := 0
  ports : Dict Nat PortEndpoint := .empty
deriving DecidableEq

namespace PortTable

def set (t : PortTable) (endpoint : Nat) (port : PortEndpoint) : PortTable :=
  { t with ports := t.ports.insert endpoint port }

def modify (t : PortTable) (endpoint : Nat) (f : PortEndpoint → PortEndpoint) : PortTable :=
  { t with ports := t.ports.modify endpoint f }

def remove (t : PortTable) (endpoint : Nat) : PortTable :=
  { t with ports := t.ports.erase endpoint }

def alloc (t : PortTable) : Nat × PortTable :=
  (t.next, { next := saturatingSucc t.next, ports := t.ports.insert t.next {} })

/-- A fresh entangled pair owned by `owner`. -/
def newPair (t : PortTable) (owner : FrameId) : (Nat × Nat) × PortTable :=
  let (port1, t) := t.alloc
  let (port2, t) := t.alloc
  let t := t.modify port1 fun first =>
    { first with peer := some port2, owner := some owner, recipient := some owner }
  let t := t.modify port2 fun second =>
    { second with peer := some port1, owner := some owner, recipient := some owner }
  ((port1, port2), t)

/-- Aims a detached endpoint at the frame whose realm will receive it. -/
def route (t : PortTable) (endpoint : Nat) (recipient : FrameId) : PortTable :=
  t.modify endpoint fun port =>
    if port.detached then { port with recipient := some recipient } else port

/-- Writes the row back and, when its queue is enabled in a realm, turns everything that waits in
the queue into deliveries. -/
def drain (t : PortTable) (endpoint : Nat) (port : PortEndpoint) : PortTable × List Delivery :=
  if port.enabled && !port.detached then
    (t.set endpoint { port with queue := [] },
      port.queue.map fun message => .portMessage endpoint message.payload message.ports)
  else
    (t.set endpoint port, [])

def post (t : PortTable) (source : Nat) (payload : Text) (ports : List Nat) :
    PortTable × List Delivery :=
  match t.ports.get? source with
  | none => (t, [])
  | some port =>
    if port.closed || port.detached then
      (t, [])
    else
      match port.peer with
      | none => (t, [])
      | some peerId =>
        match t.ports.get? peerId with
        | none => (t, [])
        | some peer =>
          if peer.closed then (t, [])
          else t.drain peerId { peer with queue := peer.queue ++ [⟨payload, ports⟩] }

/-- Puts a delivery back at the front of `endpoint`'s queue. -/
def requeue (t : PortTable) (endpoint : Nat) (payload : Text) (ports : List Nat) :
    PortTable × List Delivery :=
  match t.ports.get? endpoint with
  | none => (t, [])
  | some port =>
    if port.closed then (t, [])
    else t.drain endpoint { port with queue := ⟨payload, ports⟩ :: port.queue }

/-- Re-aims a `close` event at an endpoint that moved realms. -/
def requeueClose (t : PortTable) (endpoint : Nat) : PortTable × List Delivery :=
  match t.ports.get? endpoint with
  | none => (t, [])
  | some port =>
    if port.closed then (t, [])
    else if port.detached then (t.set endpoint { port with closePending := true }, [])
    else (t, [.portClosed endpoint])

def start (t : PortTable) (endpoint : Nat) : PortTable × List Delivery :=
  match t.ports.get? endpoint with
  | none => (t, [])
  | some port =>
    if port.closed then (t, []) else t.drain endpoint { port with enabled := true }

/-- What `close` and `forget` do to the surviving end: it loses its peer, and its `close` event is
delivered now or, in transit, left for when it is received. -/
def disentangle (t : PortTable) (peerId : Nat) : PortTable × List Delivery :=
  match t.ports.get? peerId with
  | none => (t, [])
  | some peer =>
    let peer := { peer with peer := none }
    if peer.closed then (t.set peerId peer, [])
    else if peer.detached then (t.set peerId { peer with closePending := true }, [])
    else if peer.owner.isSome then (t.set peerId peer, [.portClosed peerId])
    else (t.set peerId peer, [])

def close (t : PortTable) (endpoint : Nat) : PortTable × List Delivery :=
  match t.ports.get? endpoint with
  | none => (t, [])
  | some port =>
    if port.closed then
      (t, [])
    else
      let t := t.set endpoint
        { port with closed := true, enabled := false, queue := [], peer := none }
      let (t, deliveries) := match port.peer with
        | none => (t, [])
        | some peerId => t.disentangle peerId
      (t.remove endpoint, deliveries)

/-- Takes `endpoint` out of its realm for a transfer. -/
def detach (t : PortTable) (endpoint : Nat) (frame : FrameId) : Bool × PortTable :=
  match t.ports.get? endpoint with
  | none => (false, t)
  | some port =>
    if port.closed || port.detached || port.owner != some frame then
      (false, t)
    else
      (true, t.set endpoint
        { port with owner := none, detached := true, recipient := some frame, enabled := false })

/-- Materializes a transferred `endpoint` in `frame`'s realm; the answer is whether the received
port must fire `close` at once. -/
def adopt (t : PortTable) (endpoint : Nat) (frame : FrameId) : Option Bool × PortTable :=
  match t.ports.get? endpoint with
  | none => (none, t)
  | some port =>
    if !port.detached || port.recipient != some frame then
      (none, t)
    else
      (some port.closePending, t.set endpoint
        { port with detached := false, owner := some frame, recipient := none,
                    closePending := false })

def peer (t : PortTable) (endpoint : Nat) : Option Nat :=
  (t.ports.get? endpoint).bind fun port => port.peer

/-- Whether `frame` detached the endpoint and may still hand it on. -/
def inTransitFrom (t : PortTable) (endpoint : Nat) (frame : FrameId) : Bool :=
  (t.ports.get? endpoint).any fun port =>
    port.detached && !port.closed && port.recipient = some frame

def allInTransitFrom (t : PortTable) (endpoints : List Nat) (frame : FrameId) : Bool :=
  endpoints.all fun endpoint => t.inTransitFrom endpoint frame

def owner (t : PortTable) (endpoint : Nat) : Option FrameId :=
  (t.ports.get? endpoint).bind fun port => port.owner

/-- The endpoints a frame owns, in the order of the table. -/
def owned (t : PortTable) (frame : FrameId) : List Nat :=
  (t.ports.pairs.filter fun row => row.2.owner = some frame && !row.2.closed).map Prod.fst

/-- `close` on one endpoint after the other. -/
def closeAll (t : PortTable) : List Nat → PortTable × List Delivery
  | [] => (t, [])
  | endpoint :: rest =>
    let (t, deliveries) := t.close endpoint
    let (t, others) := t.closeAll rest
    (t, deliveries ++ others)

/-- Closes every endpoint the frame owns. `order` is the order in which the hash map of the table
yields them; any other list closes nothing. -/
def closeFramePorts (t : PortTable) (frame : FrameId) (order : List Nat) :
    PortTable × List Delivery :=
  if order.Perm (t.owned frame) then t.closeAll order else (t, [])

/-- Drops an endpoint that no realm can receive any more. -/
def forget (t : PortTable) (endpoint : Nat) : PortTable × List Delivery :=
  match t.ports.get? endpoint with
  | none => (t, [])
  | some port =>
    let t := t.remove endpoint
    match port.peer with
    | none => (t, [])
    | some peerId => t.disentangle peerId

end PortTable

/-- What `Shared` keeps of ports and documents: the engine's part and the frame tree come on top. -/
structure SharedPorts where
  ports : PortTable := {}
  deliveries : List Delivery := []
  documentIds : Dict FrameId DocumentId := .empty
  nextDocument : DocumentId := 0
deriving DecidableEq

namespace SharedPorts

def push (s : SharedPorts) (r : PortTable × List Delivery) : SharedPorts :=
  { s with ports := r.1, deliveries := s.deliveries ++ r.2 }

def beginDocument (s : SharedPorts) (frame : FrameId) : SharedPorts :=
  { s with documentIds := s.documentIds.insert frame s.nextDocument,
           nextDocument := saturatingSucc s.nextDocument }

def forgetDocument (s : SharedPorts) (frame : FrameId) : SharedPorts :=
  { s with documentIds := s.documentIds.erase frame }

def closeFramePorts (s : SharedPorts) (frame : FrameId) (order : List Nat) : SharedPorts :=
  s.push (s.ports.closeFramePorts frame order)

end SharedPorts

end TinyBrowser
