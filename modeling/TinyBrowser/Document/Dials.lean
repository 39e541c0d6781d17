import TinyBrowser.Csp.Policy
import TinyBrowser.Lib.Machine
import TinyBrowser.Sandbox

/-!
# The dials of a document

The ledger of `crates/renderer/src/document/dials.rs` and what `drain.rs` does with it. A dial is
queued, then started, then answered by a completion that another thread runs: it counts itself and
sends its result into the ledger's channel, in two steps. Adoption makes tasks of the results and a
task settles its dial. A navigation replaces the ledger; a completion of the old one then sends into
a channel that nobody reads.

The dials of a document are numbered in the order in which they are queued. The numbers and the log
of what was done with each dial are for the statements; no function reads them.
-/

namespace TinyBrowser
open Lib

abbrev JsFetchId := Nat

abbrev DialId := Nat

/-- A node of one of the realm's documents. -/
structure ElementId where
  document : Nat
  node : Nat
deriving DecidableEq, Repr

inductive DialContext where
  | jsFetch (id : JsFetchId)
  | classicScript (element : ElementId)
  | frameLoad (embedder : Option FrameId) (sandbox : SandboxFlags)
  | blitzResource (id : Nat) (destination : Option Csp.Destination)
  | cspReport

structure QueuedDial where
  context : DialContext
  req : DialRequest
  ancestors : List Url
  integrity : Option Text

structure CompletedDial where
  context : DialContext
  outcome : DialOutcome
  req : DialRequest
  ancestors : List Url
  integrity : Option Text

def complete (dial : QueuedDial) :
    Except DialFailure DialOutcome → Except DialContext CompletedDial
  | .error _ => .error dial.context
  | .ok outcome => .ok {
      context := dial.context
      outcome := outcome
      req := dial.req
      ancestors := dial.ancestors
      integrity := dial.integrity }

/-- The DOM waiter of an image holds `load`, so its dial does not. -/
def delaysLoad : DialContext → Bool
  | .jsFetch _ | .cspReport | .blitzResource _ (some .img) => false
  | .classicScript _ | .frameLoad .. | .blitzResource .. => true

def ResponseBody.stream : ResponseBody → Option StreamId
  | .streamed id => some id
  | .bytes _ | .undecodable => none

/-- The stream of a result. -/
def resultStream : Except DialContext CompletedDial → Option StreamId
  | .error _ => none
  | .ok done => done.outcome.body.stream

/-! ### Load delays -/

/-- The guards that dials hold. The source counts them; here a guard is the number of its dial. -/
structure LoadDelay where
  guards : List Nat

namespace LoadDelay

def new : LoadDelay := ⟨[]⟩

def guard (delay : LoadDelay) (dial : Nat) : LoadDelay := ⟨delay.guards ++ [dial]⟩

def drop (delay : LoadDelay) (guard : Option Nat) : LoadDelay :=
  match guard with
  | none => delay
  | some dial => ⟨delay.guards.erase dial⟩

end LoadDelay

/-! ### The ledger -/

structure QueuedEntry where
  number : Nat
  dial : QueuedDial
  delay : Option Nat

structure InFlightDial where
  number : Nat
  context : DialContext
  delay : Option Nat

/-- What a queued dial holds already. -/
def QueuedEntry.held (entry : QueuedEntry) : InFlightDial :=
  ⟨entry.number, entry.dial.context, entry.delay⟩

/-- A result in the channel. -/
structure DialMessage where
  number : Nat
  id : DialId
  result : Except DialContext CompletedDial

structure AdoptedDials where
  settled : List DialMessage
  abandoned : List DialMessage

structure DialLedger where
  channel : List DialMessage
  queued : List QueuedEntry
  inFlight : Dict DialId InFlightDial
  nextId : DialId
  /-- Completions counted and not adopted. -/
  pending : Nat

namespace DialLedger

def new : DialLedger where
  channel := []
  queued := []
  inFlight := .empty
  nextId := 0
  pending := 0

def queue (ledger : DialLedger) (number : Nat) (dial : QueuedDial) (delay : LoadDelay) :
    DialLedger × LoadDelay :=
  let held := delaysLoad dial.context
  let entry := ⟨number, dial, if held then some number else none⟩
  ({ ledger with queued := ledger.queued ++ [entry] }, if held then delay.guard number else delay)

def popQueued (ledger : DialLedger) : Option (QueuedEntry × DialLedger) :=
  match ledger.queued with
  | [] => none
  | entry :: queued => some (entry, { ledger with queued := queued })

def hasPending (ledger : DialLedger) : Bool :=
  ledger.queued ≠ [] || ledger.inFlight.pairs ≠ [] || 0 < ledger.pending

/-- Takes every message of the channel, oldest first. -/
def adopt (ledger : DialLedger) : AdoptedDials × DialLedger :=
  ({ settled := ledger.channel.filter fun message => ledger.inFlight.contains message.id
     abandoned := ledger.channel.filter fun message => !ledger.inFlight.contains message.id },
   { ledger with channel := [], pending := ledger.pending - ledger.channel.length })

def settle (ledger : DialLedger) (id : DialId) : Option InFlightDial × DialLedger :=
  (ledger.inFlight.get? id, { ledger with inFlight := ledger.inFlight.erase id })

/-- The queued and the started dials that match, and the ledger without them. -/
def cancelWhere (ledger : DialLedger) (matches_ : DialContext → Bool) :
    List InFlightDial × DialLedger :=
  let queued := ledger.queued.filter fun entry => matches_ entry.dial.context
  let started := ledger.inFlight.filter fun _ dial => matches_ dial.context
  (queued.map QueuedEntry.held ++ started.pairs.map Prod.snd,
   { ledger with
      queued := ledger.queued.filter fun entry => !matches_ entry.dial.context
      inFlight := ledger.inFlight.filter fun _ dial => !matches_ dial.context })

/-- Every queued and every started dial. -/
def terminate (ledger : DialLedger) : List InFlightDial :=
  ledger.queued.map QueuedEntry.held ++ ledger.inFlight.pairs.map Prod.snd

end DialLedger

/-! ### The document -/

inductive DialTask where
  | dialFinished (number : Nat) (id : DialId) (done : CompletedDial)
  | dialFailed (number : Nat) (id : DialId) (fail : DialContext)

def DialMessage.task (message : DialMessage) : DialTask :=
  match message.result with
  | .ok done => .dialFinished message.number message.id done
  | .error fail => .dialFailed message.number message.id fail

def DialTask.message : DialTask → DialMessage
  | .dialFinished number id done => ⟨number, id, .ok done⟩
  | .dialFailed number id fail => ⟨number, id, .error fail⟩

/-- The completion of a started dial: the ledger it was started by, and the result once it has
counted itself. -/
structure Flight where
  generation : Nat
  id : DialId
  dial : QueuedDial
  counted : Option (Except DialContext CompletedDial)

inductive DialEvent where
  | queued (dial : Nat) (context : DialContext)
  | completed (dial : Nat) (stream : Option StreamId)
  | finished (dial : Nat) (stream : Option StreamId)
  | failed (dial : Nat)
  | cancelled (dial : Nat)
  | streamCancelled (dial : Nat) (stream : StreamId)

structure DocumentDials where
  dials : DialLedger
  loadDelay : LoadDelay
  tasks : List DialTask
  stop : Bool
  /-- How many ledgers were replaced. -/
  generation : Nat
  /-- The completions that have not sent yet, by the number of their dial. -/
  flights : Dict Nat Flight
  /-- How many dials were queued. -/
  count : Nat
  log : List DialEvent

namespace DocumentDials

def new : DocumentDials where
  dials := .new
  loadDelay := .new
  tasks := []
  stop := false
  generation := 0
  flights := .empty
  count := 0
  log := []

variable (s : DocumentDials)

def finishDial (number : Nat) (done : CompletedDial) : DocumentDials :=
  { s with log := s.log ++ [.finished number done.outcome.body.stream] }

def failDial (number : Nat) (_context : DialContext) : DocumentDials :=
  { s with log := s.log ++ [.failed number] }

/-- Cancels the stream of a completion that no task will read. -/
def abandonDial (message : DialMessage) : DocumentDials :=
  match resultStream message.result with
  | none => s
  | some stream => { s with log := s.log ++ [.streamCancelled message.number stream] }

def queueDial (dial : QueuedDial) : DocumentDials :=
  let (dials, loadDelay) := s.dials.queue s.count dial s.loadDelay
  { s with
    dials := dials
    loadDelay := loadDelay
    count := s.count + 1
    log := s.log ++ [.queued s.count dial.context] }

/-- The completion is called: it counts itself, unless the frame is shutting down. -/
def completeDial (number : Nat) (outcome : Except DialFailure DialOutcome) :
    Option DocumentDials :=
  match s.flights.get? number with
  | none | some ⟨_, _, _, some _⟩ => none
  | some ⟨generation, id, dial, none⟩ =>
    if s.stop then some { s with flights := s.flights.erase number }
    else
      let result := complete dial outcome
      let dials := if generation = s.generation then
        { s.dials with pending := s.dials.pending + 1 } else s.dials
      some { s with
        dials := dials
        flights := s.flights.insert number ⟨generation, id, dial, some result⟩
        log := s.log ++ [.completed number (resultStream result)] }

/-- Then it sends; the channel of a ledger that was replaced has no receiver. -/
def sendDial (number : Nat) : Option DocumentDials :=
  match s.flights.get? number with
  | none | some ⟨_, _, _, none⟩ => none
  | some ⟨generation, id, _, some result⟩ =>
    let dials := if generation = s.generation then
      { s.dials with channel := s.dials.channel ++ [⟨number, id, result⟩] } else s.dials
    some { s with dials := dials, flights := s.flights.erase number }

/-- Starts a dial. The host may run the completion, with the outcome `inside`, before the dial is
filed. -/
def start (entry : QueuedEntry) (inside : Option (Except DialFailure DialOutcome)) :
    DocumentDials :=
  let id := s.dials.nextId
  let flight := ⟨s.generation, id, entry.dial, none⟩
  let s := { s with
    dials := { s.dials with nextId := id + 1 }
    flights := s.flights.insert entry.number flight }
  let s := match inside with
    | none => s
    | some outcome =>
      let s := (s.completeDial entry.number outcome).getD s
      (s.sendDial entry.number).getD s
  { s with dials := { s.dials with inFlight := s.dials.inFlight.insert id entry.held } }

/-- The outcome of a `data:` URL. -/
def dataOutcome (url : Url) (contentType : Text) (body : Bytes) : DialOutcome where
  status := 200
  statusText := "OK".toList
  finalUrl := url
  contentType := some contentType
  headers := [("content-type".toList, contentType)]
  body := .bytes body
  responseType := .basic
  crossedOrigin := false
  redirectCount := 0
  referrer := none

/-- One turn of the loop of `launch_queued_dials`: a `data:` URL, which decodes to `decoded`, is
settled at once and any other dial is started. -/
def launchQueuedDial (decoded : Option (Text × Bytes))
    (inside : Option (Except DialFailure DialOutcome)) : Option DocumentDials :=
  match s.dials.popQueued with
  | none => none
  | some (entry, dials) =>
    let s := { s with dials := dials }
    if entry.dial.req.url.scheme = "data".toList then
      let s := { s with loadDelay := s.loadDelay.drop entry.delay }
      match decoded with
      | none => some (s.failDial entry.number entry.dial.context)
      | some (contentType, body) => some (s.finishDial entry.number {
          context := entry.dial.context
          outcome := dataOutcome entry.dial.req.url contentType body
          req := entry.dial.req
          ancestors := entry.dial.ancestors
          integrity := entry.dial.integrity })
    else some (s.start entry inside)

def adoptDialCompletions : DocumentDials :=
  let (adopted, dials) := s.dials.adopt
  let s := { s with dials := dials, tasks := s.tasks ++ adopted.settled.map DialMessage.task }
  adopted.abandoned.foldl abandonDial s

/-- Whether the dial was filed; its guard goes with the entry. -/
def settle (id : DialId) : Bool × DocumentDials :=
  match s.dials.settle id with
  | (none, dials) => (false, { s with dials := dials })
  | (some dial, dials) =>
    (true, { s with dials := dials, loadDelay := s.loadDelay.drop dial.delay })

def runTask : Option DocumentDials :=
  match s.tasks with
  | [] => none
  | .dialFinished number id done :: tasks =>
    match { s with tasks := tasks }.settle id with
    | (true, s) => some (s.finishDial number done)
    | (false, s) => some (s.abandonDial ⟨number, id, .ok done⟩)
  | .dialFailed number id fail :: tasks =>
    match { s with tasks := tasks }.settle id with
    | (true, s) => some (s.failDial number fail)
    | (false, s) => some s

/-- Runs the cancellation handles and drops the guards. -/
def cancelAll (gone : List InFlightDial) : DocumentDials :=
  { s with
    loadDelay := gone.foldl (fun delay dial => delay.drop dial.delay) s.loadDelay
    log := s.log ++ gone.map fun dial => .cancelled dial.number }

def cancelWhere (matches_ : DialContext → Bool) : DocumentDials :=
  let (gone, dials) := s.dials.cancelWhere matches_
  { s with dials := dials }.cancelAll gone

def cancelFetch (id : JsFetchId) : DocumentDials :=
  s.cancelWhere fun
    | .jsFetch fetchId => fetchId = id
    | _ => false

def cancelFrameLoads : DocumentDials :=
  s.cancelWhere fun
    | .frameLoad .. => true
    | _ => false

/-- What `reset_js_realm` does to the dials: the tasks go, the ledger is replaced and the old one
terminated, and the new document delays its own `load`. The end of a document does the same. -/
def reset : DocumentDials :=
  { s.cancelAll s.dials.terminate with
    dials := .new
    loadDelay := .new
    tasks := []
    generation := s.generation + 1 }

end DocumentDials

/-- The steps of the document's thread, and of the threads that run completions (`complete` and
`send`). -/
inductive LedgerStep where
  | queue (dial : QueuedDial)
  | launch (decoded : Option (Text × Bytes)) (inside : Option (Except DialFailure DialOutcome))
  | complete (number : Nat) (outcome : Except DialFailure DialOutcome)
  | send (number : Nat)
  | adopt
  | runTask
  | cancelFetch (id : JsFetchId)
  | cancelFrameLoads
  | reset

def DocumentDials.step (s : DocumentDials) : LedgerStep → Option DocumentDials
  | .queue dial => some (s.queueDial dial)
  | .launch decoded inside => s.launchQueuedDial decoded inside
  | .complete number outcome => s.completeDial number outcome
  | .send number => s.sendDial number
  | .adopt => some s.adoptDialCompletions
  | .runTask => s.runTask
  | .cancelFetch id => some (s.cancelFetch id)
  | .cancelFrameLoads => some s.cancelFrameLoads
  | .reset => some s.reset

end TinyBrowser
