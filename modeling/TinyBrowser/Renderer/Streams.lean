import TinyBrowser.Dial.Opaque
import TinyBrowser.Renderer.Assignment

/-!
# Body streams and the documents that own them

`route_service_call` answers a dial from a worker of its own, which may still wait for the network
when the document that asked is dropped: `Drop` sweeps the streams of the document, and a worker
that comes later looks the document up again and gives its stream up. The machine here runs the
workers, the calls that read a stream or cancel one, the body tasks and the statements of `Drop`
in any order.
-/

namespace TinyBrowser
open Lib

/-- Where a dial worker is in its code. -/
inductive WorkerPhase where
  | starting
  | begun (mode : RequestCache) (stored : Option CachedResponse) (etag : Option Text)
  | sent (mode : RequestCache) (stored : Option CachedResponse) (outbound : Request)
  /-- Before the look at the status of the first dial. -/
  | judging (result : Except DialFailure DialOutcome)
  /-- Before the document is looked up again. -/
  | settling (result : Except DialFailure DialOutcome)
  /-- The document is gone. -/
  | givingUp (id : StreamId)

structure DialWorker where
  call : Call
  retried : Bool
  phase : WorkerPhase

inductive WorkerStep where
  | start (world : DialWorld)
  | send (world : DialWorld)
  | answer (world : DialWorld)
  /-- The kill switch of the process, or a `CancelDial`. -/
  | cut
  | judge
  | settle
  | giveUp

/-- The stream that a dial answers with. -/
def streamOf : Except DialFailure DialOutcome → Option StreamId
  | .error _ => none
  | .ok outcome => match outcome.body with
    | .streamed id => some id
    | .bytes _ | .undecodable => none

def cancelOutcome (network : Network) (owner : RendererAssignmentId)
    (result : Except DialFailure DialOutcome) : Network :=
  match streamOf result with
  | none => network
  | some id => cancelStream network owner id

namespace DialWorker

/-- The worker after its dial. -/
def answered (worker : DialWorker) (result : Except DialFailure DialOutcome) : DialWorker :=
  let result := result.map (orbFilter worker.call.request)
  { worker with phase := if worker.retried then .settling result else .judging result }

/-- A 421 asks for another connection, and only an idempotent request may be replayed. -/
def replays (worker : DialWorker) : Except DialFailure DialOutcome → Bool
  | .error _ => false
  | .ok outcome => worker.call.request.method.isIdempotent && outcome.status = 421

/-- One step of a worker: the registry and the network after it, and the worker while it runs. -/
def step (x : DialCrates) (assignments : Assignments) (network : Network) (worker : DialWorker)
    (i : WorkerStep) : Option (Assignments × Network × Option DialWorker) :=
  match worker.phase, i with
  | .starting, .start world => match beginDial x network.cache worker.call world with
    | .error failure => some (assignments, network, some (worker.answered (.error failure)))
    | .ok (.hit hit) => some (assignments, network, some (worker.answered (.ok hit)))
    | .ok (.miss mode stored etag) =>
      some (assignments, network, some { worker with phase := .begun mode stored etag })
  | .begun mode stored etag, .send world => match sendDial x network worker.call etag world with
    | .error failure => some (assignments, network, some (worker.answered (.error failure)))
    | .ok outbound =>
      some (assignments, network, some { worker with phase := .sent mode stored outbound })
  | .sent mode stored outbound, .answer world =>
    let (result, network) := answerDial x network worker.call mode stored outbound world
    some (assignments, network, some (worker.answered result))
  | .starting, .cut | .begun .., .cut | .sent .., .cut =>
    some (assignments, network, some (worker.answered (.error .cancelled)))
  | .judging result, .judge =>
    if worker.replays result then
      some (assignments, cancelOutcome network worker.call.owner result,
        some { worker with retried := true, phase := .starting })
    else some (assignments, network, some { worker with phase := .settling result })
  | .settling result, .settle => match streamOf result with
    | none => some (assignments, network, none)
    | some id => match assignments.resolve worker.call.owner with
      | (some _, assignments) => some (assignments, network, none)
      | (none, assignments) =>
        some (assignments, network, some { worker with phase := .givingUp id })
  | .givingUp id, .giveUp => some (assignments, cancelStream network worker.call.owner id, none)
  | _, _ => none

/-- The stream the worker knows of. -/
def stream (worker : DialWorker) : Option StreamId :=
  match worker.phase with
  | .starting | .begun .. | .sent .. => none
  | .judging result | .settling result => streamOf result
  | .givingUp id => some id

end DialWorker

/-- A `read_stream` that has found its entry and waits for the next message. -/
structure StreamReader where
  owner : RendererAssignmentId
  id : StreamId
deriving DecidableEq

/-- What a reader gets that waits: `none` while there is no message. A channel whose entry is gone
may have one left. A message that ends the stream removes the entry under the id. -/
def receiveStream (network : Network) (id : StreamId) (left : Option StreamMessage) :
    Option (Except DialFailure (Option Bytes) × Network) :=
  let ended := { network with streams := network.streams.erase id }
  match network.streams.get? id with
  | some entry => match entry.queue with
    | [] => none
    | .chunk bytes :: rest => some (.ok (some bytes),
        { network with streams := network.streams.insert id { entry with queue := rest } })
    | .finish :: _ => some (.ok none, ended)
    | .error failure :: _ => some (.error failure, ended)
  | none => match left with
    | some (.chunk bytes) => some (.ok (some bytes), network)
    | some .finish | none => some (.ok none, ended)
    | some (.error failure) => some (.error failure, ended)

structure StreamState where
  assignments : Assignments
  network : Network
  workers : Dict Nat DialWorker
  readers : Dict Nat StreamReader

namespace StreamState

def new : StreamState := ⟨.new, .new, Dict.empty, Dict.empty⟩

def putWorker (s : StreamState) (key : Nat) : Option DialWorker → Dict Nat DialWorker
  | some worker => s.workers.insert key worker
  | none => s.workers.erase key

/-- The document's drop has come to the sweep of its streams. -/
def sweeps (s : StreamState) : AssignmentStep → Option RendererAssignmentId
  | .drop id => match s.assignments.heap.get? id with
    | some (_, .dropping .releaseStreams) => some id
    | _ => none
  | _ => none

end StreamState

inductive StreamStep where
  | assignment (i : AssignmentStep)
  | spawn (key : Nat) (call : Call)
  | worker (key : Nat) (i : WorkerStep)
  | pump (id : StreamId) (storedAt : Instant)
  | read (key : Nat) (owner : RendererAssignmentId) (id : StreamId)
  | receive (key : Nat) (left : Option StreamMessage)
  | cancel (owner : RendererAssignmentId) (id : StreamId)

def streamStep (x : DialCrates) (s : StreamState) : StreamStep → Option StreamState
  | .assignment i => (assignmentStep s.assignments i).map fun assignments =>
      { s with
        assignments := assignments
        network := match s.sweeps i with
          | some owner => releaseStreams s.network owner
          | none => s.network }
  | .spawn key call =>
    -- the call was admitted: its document is alive
    if (s.assignments.upgrade call.owner).isSome ∧ s.workers.get? key = none then
      some { s with workers := s.workers.insert key ⟨call, false, .starting⟩ }
    else none
  | .worker key i => (s.workers.get? key).bind fun worker =>
      (worker.step x s.assignments s.network i).map fun (assignments, network, worker) =>
        { s with assignments := assignments, network := network, workers := s.putWorker key worker }
  | .pump id storedAt => (pumpStream x s.network id storedAt).map fun network =>
      { s with network := network }
  | .read key owner id =>
    if s.readers.get? key = none then
      match (s.network.streams.get? id).filter (·.owner = owner) with
      | none => some s
      | some _ => some { s with readers := s.readers.insert key ⟨owner, id⟩ }
    else none
  | .receive key left => (s.readers.get? key).bind fun reader =>
      (receiveStream s.network reader.id left).map fun (_, network) =>
        { s with network := network, readers := s.readers.erase key }
  | .cancel owner id => some { s with network := cancelStream s.network owner id }

end TinyBrowser
