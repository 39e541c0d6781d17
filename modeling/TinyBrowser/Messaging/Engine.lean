import TinyBrowser.Messaging.Table

/-!
# Messages between the frames of an engine

What scripts ask of the port table through the host functions of
`crates/renderer/src/js/bindings/messaging.rs`, and how the engine routes the deliveries: it takes
the shared list, hands each delivery to the task queue of its frame, and the frame runs the task
later. An endpoint that is not where a delivery expects it gets the message back on its queue. A
target origin comes parsed, and only tasks that carry messages are kept.
-/

namespace TinyBrowser
open Lib

structure WindowMessage where
  source : FrameId
  origin : Text
  targetOrigin : TargetOrigin
  payload : Text
  ports : List Nat
deriving DecidableEq, Repr

inductive MessageTask where
  | windowMessage (message : WindowMessage)
  | portMessage (endpoint : Nat) (payload : Text) (ports : List Nat)
  | portClosed (endpoint : Nat)
deriving DecidableEq, Repr

def MessageTask.ports : MessageTask → List Nat
  | .windowMessage message => message.ports
  | .portMessage _ _ ports => ports
  | .portClosed _ => []

/-- The document of a live frame: its origin and the tasks that wait on it. -/
structure FrameDocument where
  origin : Origin
  tasks : List MessageTask := []
deriving DecidableEq

inductive RealmReset where
  | navigation
  | reopen
deriving DecidableEq, Repr

/-- `batch` is what the engine took from the shared deliveries and has not applied yet. -/
structure PageEngine extends SharedPorts where
  batch : List Delivery := []
  frames : Dict FrameId FrameDocument := .empty
deriving DecidableEq

namespace PageEngine

/-- Every payload of this build starts with it. -/
def payloadVersion : Text := "tb1:".toList

def push (s : PageEngine) (r : PortTable × List Delivery) : PageEngine :=
  ⟨s.toSharedPorts.push r, s.batch, s.frames⟩

def beginDocument (s : PageEngine) (frame : FrameId) : PageEngine :=
  ⟨s.toSharedPorts.beginDocument frame, s.batch, s.frames⟩

def forgetDocument (s : PageEngine) (frame : FrameId) : PageEngine :=
  ⟨s.toSharedPorts.forgetDocument frame, s.batch, s.frames⟩

def closeFramePorts (s : PageEngine) (frame : FrameId) (order : List Nat) : PageEngine :=
  ⟨s.toSharedPorts.closeFramePorts frame order, s.batch, s.frames⟩

/-- Drops transferred endpoints whose message will never be delivered. -/
def forgetEndpoints (s : PageEngine) : List Nat → PageEngine
  | [] => s
  | endpoint :: rest => (s.push (s.ports.forget endpoint)).forgetEndpoints rest

/-! ### Host functions -/

/-- Whether the calling realm's frame owns `endpoint`. -/
def endpointOwned (s : PageEngine) (frame : FrameId) (endpoint : Nat) : Bool :=
  s.ports.owner endpoint = some frame

def portNew (s : PageEngine) (frame : FrameId) : PageEngine :=
  { s with ports := (s.ports.newPair frame).2 }

/-- A post is let through from the frame that owns the port and detached every endpoint it
transfers. -/
def postAdmitted (s : PageEngine) (frame : FrameId) (endpoint : Nat) (payload : Text)
    (ports : List Nat) : Bool :=
  payloadVersion.isPrefixOf payload && s.endpointOwned frame endpoint &&
    s.ports.allInTransitFrom ports frame

def portPost (s : PageEngine) (frame : FrameId) (endpoint : Nat) (payload : Text)
    (ports : List Nat) : PageEngine :=
  if s.postAdmitted frame endpoint payload ports then s.push (s.ports.post endpoint payload ports)
  else s

def windowPostAdmitted (s : PageEngine) (source : FrameId) (payload : Text) (ports : List Nat) :
    Bool :=
  payloadVersion.isPrefixOf payload && s.ports.allInTransitFrom ports source

def postWindowMessage (s : PageEngine) (source target : FrameId) (origin : Text)
    (targetOrigin : Option TargetOrigin) (payload : Text) (ports : List Nat) : PageEngine :=
  if s.windowPostAdmitted source payload ports then
    match targetOrigin, s.documentIds.get? target with
    | some targetOrigin, some document =>
      { s with deliveries := s.deliveries ++
          [.windowMessage target document source origin targetOrigin payload ports] }
    | _, _ => s.forgetEndpoints ports
  else s

def portStart (s : PageEngine) (frame : FrameId) (endpoint : Nat) : PageEngine :=
  if s.endpointOwned frame endpoint then s.push (s.ports.start endpoint) else s

def portClose (s : PageEngine) (frame : FrameId) (endpoint : Nat) : PageEngine :=
  if s.endpointOwned frame endpoint then s.push (s.ports.close endpoint) else s

def portDetach (s : PageEngine) (frame : FrameId) (endpoint : Nat) : PageEngine :=
  { s with ports := (s.ports.detach endpoint frame).2 }

def portAdopt (s : PageEngine) (frame : FrameId) (endpoint : Nat) : PageEngine :=
  { s with ports := (s.ports.adopt endpoint frame).2 }

/-! ### Routing -/

def pushTask (s : PageEngine) (frame : FrameId) (task : MessageTask) : PageEngine :=
  { s with frames := s.frames.modify frame fun document =>
      { document with tasks := document.tasks ++ [task] } }

/-- Aims every transferred endpoint at `target`. -/
def routeEndpoints (s : PageEngine) (endpoints : List Nat) (target : FrameId) : PageEngine :=
  { s with ports := endpoints.foldl (fun t endpoint => t.route endpoint target) s.ports }

/-- Whether `document` is still the document of the live frame `target`. -/
def runnable (s : PageEngine) (target : FrameId) (document : DocumentId) : Bool :=
  s.frames.contains target && s.documentIds.get? target = some document

def applyDelivery (s : PageEngine) : Delivery → PageEngine
  | .windowMessage target document source origin targetOrigin payload ports =>
    if s.runnable target document then
      (s.routeEndpoints ports target).pushTask target
        (.windowMessage ⟨source, origin, targetOrigin, payload, ports⟩)
    else s.forgetEndpoints ports
  | .portMessage endpoint payload ports =>
    match s.ports.owner endpoint with
    | some frame =>
      if s.frames.contains frame then
        (s.routeEndpoints ports frame).pushTask frame (.portMessage endpoint payload ports)
      else s.forgetEndpoints ports
    -- the port is in transit; the received realm flushes its queue when the port is enabled
    | none => s.push (s.ports.requeue endpoint payload ports)
  | .portClosed endpoint =>
    match s.ports.owner endpoint with
    | some frame =>
      if s.frames.contains frame then s.pushTask frame (.portClosed endpoint) else s
    | none => s.push (s.ports.requeueClose endpoint)

/-- What one delivery can do. -/
inductive Applies (s : PageEngine) : Delivery → PageEngine → Prop where
  | window (target : FrameId) (document : DocumentId) (source : FrameId) (origin : Text)
      (targetOrigin : TargetOrigin) (payload : Text) (ports : List Nat)
      (live : s.runnable target document = true) :
      Applies s (.windowMessage target document source origin targetOrigin payload ports)
        ((s.routeEndpoints ports target).pushTask target
          (.windowMessage ⟨source, origin, targetOrigin, payload, ports⟩))
  | windowGone (target : FrameId) (document : DocumentId) (source : FrameId) (origin : Text)
      (targetOrigin : TargetOrigin) (payload : Text) (ports : List Nat)
      (gone : s.runnable target document = false) :
      Applies s (.windowMessage target document source origin targetOrigin payload ports)
        (s.forgetEndpoints ports)
  | port (endpoint : Nat) (payload : Text) (ports : List Nat) (frame : FrameId)
      (owner : s.ports.owner endpoint = some frame) (live : s.frames.contains frame = true) :
      Applies s (.portMessage endpoint payload ports)
        ((s.routeEndpoints ports frame).pushTask frame (.portMessage endpoint payload ports))
  | portGone (endpoint : Nat) (payload : Text) (ports : List Nat) (frame : FrameId)
      (owner : s.ports.owner endpoint = some frame) (gone : s.frames.contains frame = false) :
      Applies s (.portMessage endpoint payload ports) (s.forgetEndpoints ports)
  | requeued (endpoint : Nat) (payload : Text) (ports : List Nat)
      (owner : s.ports.owner endpoint = none) :
      Applies s (.portMessage endpoint payload ports)
        (s.push (s.ports.requeue endpoint payload ports))
  | closed (endpoint : Nat) (frame : FrameId) (owner : s.ports.owner endpoint = some frame)
      (live : s.frames.contains frame = true) :
      Applies s (.portClosed endpoint) (s.pushTask frame (.portClosed endpoint))
  | closedGone (endpoint : Nat) (frame : FrameId) (owner : s.ports.owner endpoint = some frame)
      (gone : s.frames.contains frame = false) : Applies s (.portClosed endpoint) s
  | closeRequeued (endpoint : Nat) (owner : s.ports.owner endpoint = none) :
      Applies s (.portClosed endpoint) (s.push (s.ports.requeueClose endpoint))

theorem applies_applyDelivery (s : PageEngine) (d : Delivery) : s.Applies d (s.applyDelivery d) := by
  cases d with
  | windowMessage target document source origin targetOrigin payload ports =>
    cases hlive : s.runnable target document with
    | true =>
      simp only [applyDelivery, hlive, if_true]
      exact .window _ _ _ _ _ _ _ hlive
    | false =>
      simp only [applyDelivery, hlive, Bool.false_eq_true, if_false]
      exact .windowGone _ _ _ _ _ _ _ hlive
  | portMessage endpoint payload ports =>
    cases howner : s.ports.owner endpoint with
    | none =>
      simp only [applyDelivery, howner]
      exact .requeued _ _ _ howner
    | some frame =>
      cases hlive : s.frames.contains frame with
      | true =>
        simp only [applyDelivery, howner, hlive, if_true]
        exact .port _ _ _ _ howner hlive
      | false =>
        simp only [applyDelivery, howner, hlive, Bool.false_eq_true, if_false]
        exact .portGone _ _ _ _ howner hlive
  | portClosed endpoint =>
    cases howner : s.ports.owner endpoint with
    | none =>
      simp only [applyDelivery, howner]
      exact .closeRequeued _ howner
    | some frame =>
      cases hlive : s.frames.contains frame with
      | true =>
        simp only [applyDelivery, howner, hlive, if_true]
        exact .closed _ _ howner hlive
      | false =>
        simp only [applyDelivery, howner, hlive, Bool.false_eq_true, if_false]
        exact .closedGone _ _ howner hlive

def takeDeliveries (s : PageEngine) : PageEngine :=
  { s with batch := s.batch ++ s.deliveries, deliveries := [] }

def applyAll (s : PageEngine) : List Delivery → PageEngine
  | [] => s
  | delivery :: rest => (s.applyDelivery delivery).applyAll rest

def applyDeliveries (s : PageEngine) : PageEngine :=
  { s with batch := [] }.applyAll s.batch

/-! ### Tasks and teardown -/

/-- Whether `endpoint` no longer belongs to `frame`. -/
def endpointMoved (s : PageEngine) (frame : FrameId) (endpoint : Nat) : Bool :=
  s.ports.owner endpoint ≠ some frame

/-- Runs a task of a frame: what the realm of the frame does with the message is up to its
scripts. -/
def deliver (s : PageEngine) (frame : FrameId) (origin : Origin) : MessageTask → PageEngine
  | .windowMessage message =>
    if message.targetOrigin.admits origin then s else s.forgetEndpoints message.ports
  | .portMessage endpoint payload ports =>
    if s.endpointMoved frame endpoint then s.push (s.ports.requeue endpoint payload ports) else s
  | .portClosed endpoint =>
    if s.endpointMoved frame endpoint then s.push (s.ports.requeueClose endpoint) else s

/-- Whether the message of a task is for the realm of its frame. -/
def reaches (s : PageEngine) (frame : FrameId) (origin : Origin) : MessageTask → Bool
  | .windowMessage message => message.targetOrigin.admits origin
  | .portMessage endpoint _ _ => !s.endpointMoved frame endpoint
  | .portClosed endpoint => !s.endpointMoved frame endpoint

def setTasks (s : PageEngine) (frame : FrameId) (tasks : List MessageTask) : PageEngine :=
  { s with frames := s.frames.modify frame fun document => { document with tasks := tasks } }

def forgetTasks (s : PageEngine) : List MessageTask → PageEngine
  | [] => s
  | task :: rest => (s.forgetEndpoints task.ports).forgetTasks rest

/-- The tasks of the frame go, with the endpoints they carry. -/
def resetTasks (s : PageEngine) (frame : FrameId) (tasks : List MessageTask) : PageEngine :=
  (s.setTasks frame []).forgetTasks tasks

/-- `reset_js_realm`: the tasks of the frame go, and then the ports that it owns. -/
def resetRealm (s : PageEngine) (frame : FrameId) (reason : RealmReset) (tasks : List MessageTask)
    (order : List Nat) : PageEngine :=
  let s := s.resetTasks frame tasks
  let s := match reason with
    | .navigation => s.beginDocument frame
    | .reopen => s
  s.closeFramePorts frame order

/-- What the tree of frames does first when a frame goes: its document identity and ports. -/
def detachFrame (s : PageEngine) (frame : FrameId) (order : List Nat) : PageEngine :=
  (s.forgetDocument frame).closeFramePorts frame order

/-- The document of a frame is dropped, with its tasks, and closes the ports of the frame. -/
def dropFrame (s : PageEngine) (frame : FrameId) (order : List Nat) : PageEngine :=
  let s := s.forgetDocument frame
  { s with frames := s.frames.erase frame }.closeFramePorts frame order

/-! ### Steps -/

inductive Op where
  | openFrame (frame : FrameId) (origin : Origin)
  | portNew (frame : FrameId)
  | portPost (frame : FrameId) (endpoint : Nat) (payload : Text) (ports : List Nat)
  | postWindowMessage (source target : FrameId) (origin : Text)
      (targetOrigin : Option TargetOrigin) (payload : Text) (ports : List Nat)
  | portStart (frame : FrameId) (endpoint : Nat)
  | portClose (frame : FrameId) (endpoint : Nat)
  | portDetach (frame : FrameId) (endpoint : Nat)
  | portAdopt (frame : FrameId) (endpoint : Nat)
  | takeDeliveries
  | applyDeliveries
  | runTask (frame : FrameId) (realm : Bool)
  | resetRealm (frame : FrameId) (reason : RealmReset) (order : List Nat)
  | detachFrame (frame : FrameId) (order : List Nat)
  | dropFrame (frame : FrameId) (order : List Nat)

/-- One step of the engine or of a script. A task runs with a realm or fails to get one, and
`order` is the order in which the table yields the ports of a frame. -/
def step (s : PageEngine) : Op → Option PageEngine
  | .openFrame frame origin =>
    if s.frames.contains frame then none
    else some ({ s with frames := s.frames.insert frame { origin := origin } }.beginDocument frame)
  | .portNew frame => some (s.portNew frame)
  | .portPost frame endpoint payload ports => some (s.portPost frame endpoint payload ports)
  | .postWindowMessage source target origin targetOrigin payload ports =>
    some (s.postWindowMessage source target origin targetOrigin payload ports)
  | .portStart frame endpoint => some (s.portStart frame endpoint)
  | .portClose frame endpoint => some (s.portClose frame endpoint)
  | .portDetach frame endpoint => some (s.portDetach frame endpoint)
  | .portAdopt frame endpoint => some (s.portAdopt frame endpoint)
  | .takeDeliveries => some s.takeDeliveries
  | .applyDeliveries => some s.applyDeliveries
  | .runTask frame _ =>
    match s.frames.get? frame with
    | none => none
    | some document =>
      match document.tasks with
      | [] => none
      | task :: rest => some ((s.setTasks frame rest).deliver frame document.origin task)
  | .resetRealm frame reason order =>
    match s.frames.get? frame with
    | none => none
    | some document =>
      if order.Perm ((s.resetTasks frame document.tasks).ports.owned frame) then
        some (s.resetRealm frame reason document.tasks order)
      else none
  | .detachFrame frame order =>
    if order.Perm (s.ports.owned frame) then some (s.detachFrame frame order) else none
  | .dropFrame frame order =>
    if order.Perm (s.ports.owned frame) then some (s.dropFrame frame order) else none

end PageEngine

end TinyBrowser
