import TinyBrowser.Dial.Basic
import TinyBrowser.Exchange.Basic
import TinyBrowser.Tab.Basic
import Mathlib.Data.Finset.Card

/-!
# The loop of a renderer child

`handle_host` takes one frame of the browser. A streamed response is a call whose body comes in
chunks: `ResponseStreams` keeps the streams that are open and the ids that later frames must not
wake, the newest 256 of them. The documents change between two frames, so each step of the loop
carries what is around it: which frames the engines host, whether the browser still takes replies,
and the order in which the hash map of open streams is iterated. The session also keeps its past,
the frames it heard with the calls on engines and the replies they led to.
-/

namespace TinyBrowser.Child
open Lib
open Exchange (RequestId Frame)

def maxCancelledStreams : Nat := 256

/-! ### Messages -/

structure ResponseStart where
  assignment : RendererAssignmentId
  frame : FrameId
deriving DecidableEq

inductive RendererCall where
  | response (response : ResponseStart)
deriving DecidableEq

inductive HostNotice where
  | assign (assignment : RendererAssignmentId)
  | release (assignment : RendererAssignmentId)
  | shutdown
deriving DecidableEq

structure RendererReply where
  assignment : RendererAssignmentId
  reply : Reply

abbrev ToRenderer := Frame RendererCall RendererReply HostNotice

/-! ### The state of the loop -/

structure ActiveResponse where
  assignment : RendererAssignmentId
  frame : FrameId
  bytes : Nat
deriving DecidableEq

structure ResponseStreams where
  active : Dict RequestId ActiveResponse
  cancelled : Finset RequestId
  cancelledOrder : List RequestId

/-- What is around the loop while it handles one frame. -/
structure Around where
  /-- The frames that the engine of an assignment hosts. -/
  hosts : RendererAssignmentId → FrameId → Bool
  main : ∀ assignment, hosts assignment FrameId.main = true
  /-- The browser takes replies. -/
  up : Bool
  /-- The order in which a hash map is iterated. -/
  iter : List (RequestId × ActiveResponse) → List (RequestId × ActiveResponse)
  iter_perm : ∀ l, (iter l).Perm l

inductive BodyOp where
  | openBody
  | writeBody (len : Nat)
  | endBody
  | abortBody
deriving DecidableEq

inductive Event where
  | heard (frame : ToRenderer)
  /-- A call on the engine for the body of a stream, with whether the engine took it. -/
  | body (id : RequestId) (response : ActiveResponse) (op : BodyOp) (taken : Bool)
  | sent (id : RequestId) (assignment : RendererAssignmentId) (result : Except TabError Unit)

structure Session where
  engines : Finset RendererAssignmentId
  responses : ResponseStreams
  past : List Event

/-! ### `ResponseStreams` -/

def streamError (message : String) : TabError := .rendererUnavailable message.toList

def saturatingAdd (a b : Nat) : Nat := min (a + b) u64Max

namespace ResponseStreams

def new : ResponseStreams := ⟨.empty, ∅, []⟩

/-- The loop that forgets the oldest ids. -/
def evict (cancelled : Finset RequestId) : List RequestId → Finset RequestId × List RequestId
  | [] => (cancelled, [])
  | oldest :: order =>
    if maxCancelledStreams < cancelled.card then evict (cancelled.erase oldest) order
    else (cancelled, oldest :: order)

def tombstone (r : ResponseStreams) (id : RequestId) : ResponseStreams :=
  let order := if id ∈ r.cancelled then r.cancelledOrder else r.cancelledOrder ++ [id]
  let kept := evict (insert id r.cancelled) order
  { r with cancelled := kept.1, cancelledOrder := kept.2 }

/-- `self.active.remove` and `self.tombstone`. -/
def bury (r : ResponseStreams) (id : RequestId) : ResponseStreams :=
  ({ r with active := r.active.erase id } : ResponseStreams).tombstone id

end ResponseStreams

namespace Session

def new : Session := ⟨∅, .new, []⟩

variable (w : Around) (s : Session) (id : RequestId)

def record (event : Event) : Session := { s with past := s.past ++ [event] }

def setActive (response : ActiveResponse) : Session :=
  { s with responses := { s.responses with active := s.responses.active.insert id response } }

def removeActive : Session :=
  { s with responses := { s.responses with active := s.responses.active.erase id } }

def bury : Session := { s with responses := s.responses.bury id }

/-- `Engine::open_body` and its siblings, which fail where the engine does not host the frame. -/
def callBody (response : ActiveResponse) (op : BodyOp) : Except TabError Unit × Session :=
  if w.hosts response.assignment response.frame then
    (.ok (), s.record (.body id response op true))
  else
    (.error (.unknownFrame response.frame), s.record (.body id response op false))

def abortBody (response : ActiveResponse) : Session :=
  if response.assignment ∈ s.engines then (s.callBody w id response .abortBody).2 else s

def start (response : ResponseStart) : Except TabError Unit × Session :=
  if id ∈ s.responses.cancelled then (.ok (), s)
  else if s.responses.active.contains id then (.error (streamError "duplicate response start"), s)
  else
    let opened : ActiveResponse := ⟨response.assignment, response.frame, 0⟩
    match s.callBody w id opened .openBody with
    | (.error error, s) => (.error error, s)
    | (.ok (), s) => (.ok (), s.setActive id opened)

def push (len : Nat) : Except (RendererAssignmentId × TabError) Unit × Session :=
  if id ∈ s.responses.cancelled then (.ok (), s)
  else match s.responses.active.get? id with
    | none => (.ok (), s)
    | some response =>
      let response := { response with bytes := saturatingAdd response.bytes len }
      let s := s.setActive id response
      if maxResponseBodyBytes < response.bytes then
        (.error (response.assignment, streamError "streamed response exceeds body limit"),
          (s.bury id).abortBody w id response)
      else if response.assignment ∈ s.engines then
        match s.callBody w id response (.writeBody len) with
        | (.ok (), s) => (.ok (), s)
        | (.error error, s) =>
          (.error (response.assignment, error), (s.bury id).abortBody w id response)
      else
        (.error (response.assignment, streamError "response assignment is gone"), s.bury id)

/-- `take`, with the assignment that stands for a missing start. -/
def take (missingStart : String) :
    Except (RendererAssignmentId × TabError) ActiveResponse × Session :=
  match s.responses.active.get? id with
  | none => (.error (0, streamError missingStart), s)
  | some response => (.ok response, s.removeActive id)

def finish : (RendererAssignmentId × Except TabError Unit) × Session :=
  match s.take id "response end without start" with
  | (.error (assignment, error), s) => ((assignment, .error error), s)
  | (.ok response, s) =>
    if response.assignment ∈ s.engines then
      let (result, s) := s.callBody w id response .endBody
      ((response.assignment, result), s)
    else ((response.assignment, .error (streamError "response assignment is gone")), s)

def abort (failure : Text) : (RendererAssignmentId × Except TabError Unit) × Session :=
  match s.take id "response error without start" with
  | (.error (assignment, error), s) => ((assignment, .error error), s)
  | (.ok response, s) =>
    ((response.assignment,
      .error (.rendererUnavailable ("streamed response failed: ".toList ++ failure))),
      s.abortBody w id response)

def cancel : Session :=
  let aborted := match s.responses.active.get? id with
    | none => s
    | some response => (s.removeActive id).abortBody w id response
  { aborted with responses := aborted.responses.tombstone id }

/-- The loop over the streams of a released assignment. -/
def releaseStale : List (RequestId × ActiveResponse) → Session → Session
  | [], s => s
  | (id, response) :: stale, s => releaseStale stale ((s.bury id).abortBody w id response)

def release (assignment : RendererAssignmentId) : Session :=
  releaseStale w ((w.iter s.responses.active.pairs).filter fun x => x.2.assignment = assignment) s

/-! ### `handle_host` -/

/-- `reply_result`; `false` stops the loop. -/
def replyResult (result : RendererAssignmentId × Except TabError Unit) : Bool × Session :=
  if w.up then (true, s.record (.sent id result.1 result.2)) else (false, s)

def handleHost : ToRenderer → Bool × Session
  | .notify (.assign assignment) =>
    if assignment ∈ s.engines then (false, s)
    else (true, { s with engines := insert assignment s.engines })
  | .notify (.release assignment) =>
    let s := s.release w assignment
    (true, { s with engines := s.engines.erase assignment })
  | .call id (.response response) =>
    if response.assignment ∈ s.engines then
      match s.start w id response with
      | (.ok (), s) => (true, s)
      | (.error error, s) => s.replyResult w id (response.assignment, .error error)
    else
      (s.cancel w id).replyResult w id
        (response.assignment, .error (streamError "response assignment is gone"))
  | .requestChunk id bytes =>
    match s.push w id bytes.length with
    | (.ok (), s) => (true, s)
    | (.error (assignment, error), s) => s.replyResult w id (assignment, .error error)
  | .requestEnd id none =>
    if id ∈ s.responses.cancelled then (true, s)
    else
      let (result, s) := s.finish w id
      s.replyResult w id result
  | .requestEnd id (some error) =>
    if id ∈ s.responses.cancelled then (true, s)
    else
      let (result, s) := s.abort w id error
      s.replyResult w id result
  | .cancel id => (true, s.cancel w id)
  | .notify .shutdown | .reply .. | .responseChunk .. => (false, s)

end Session

/-! ### Runs -/

/-- One turn of the loop: the frame and what is around it. -/
structure Turn where
  frame : ToRenderer
  around : Around

def Event.calls (id : RequestId) : Event → Bool
  | .heard (.call id' _) => id' = id
  | _ => false

def Event.ends (id : RequestId) : Event → Bool
  | .heard (.requestEnd id' _) => id' = id
  | _ => false

/-- The browser gives each call an id of its own and ends an upload once. -/
def Session.admits (s : Session) : ToRenderer → Bool
  | .call id _ => !s.past.any (Event.calls id)
  | .requestEnd id _ => !s.past.any (Event.ends id)
  | _ => true

/-- The loop goes on after the frame. -/
def step (s : Session) (turn : Turn) : Option Session :=
  if s.admits turn.frame then
    match (s.record (.heard turn.frame)).handleHost turn.around turn.frame with
    | (true, s') => some s'
    | (false, _) => none
  else none

end TinyBrowser.Child
