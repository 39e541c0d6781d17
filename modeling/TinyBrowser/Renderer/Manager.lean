import TinyBrowser.Renderer.Assignment

/-!
# The renderer process manager

Which process hosts a new document, and when a process is shut down. `acquire_reserved` and the
shutdown check run under the state lock and are one step each; the statements of `Drop` that count
an assignment down and send its release notice, the release loop and the tasks that fill the spare
interleave with them and with each other.
-/

namespace TinyBrowser
open Lib

structure RendererHandle where
  /-- The site lock. -/
  site : Option Site
  /-- Live assignments counted against the process. -/
  assignments : Nat
  alive : Bool
  /-- No strong handle is left: weak ones do not upgrade any more. -/
  freed : Bool
  /-- `shutdown` was called. -/
  stopped : Bool
deriving DecidableEq

structure ManagerState where
  spare : Option RendererId
  sites : Dict Site (List RendererId)
  spawningSpare : Bool
deriving DecidableEq

/-- How the spawn of a process goes. -/
inductive SpawnResult where
  | spawned
  | failed
  /-- No slot of the process budget is free. -/
  | exhausted
deriving DecidableEq

/-- Where the release loop is with the notice it took. -/
inductive LoopPhase where
  | waiting
  | evaluating (process : RendererId) (site : Option Site)
  | stopping (process : RendererId)
deriving DecidableEq

/-- Where the task that fills the spare is. -/
inductive FillPhase where
  | waiting
  | spawning
  | spawned (result : Option RendererId)
deriving DecidableEq

structure ProcessManager where
  assignments : Assignments
  handles : Dict RendererId RendererHandle
  next : Nat
  state : ManagerState
  releases : List RendererId
  loop : LoopPhase
  filling : FillPhase
deriving DecidableEq

namespace ProcessManager

def new : ProcessManager :=
  ⟨.new, Dict.empty, 1, ⟨none, Dict.empty, false⟩, [], .waiting, .waiting⟩

def siteOf (m : ProcessManager) (process : RendererId) : Option Site :=
  (m.handles.get? process).bind (·.site)

def count (m : ProcessManager) (process : RendererId) : Nat :=
  ((m.handles.get? process).map (·.assignments)).getD 0

def isStopped (m : ProcessManager) (process : RendererId) : Bool :=
  (m.handles.get? process).any (·.stopped)

/-- `Weak::upgrade`. -/
def upgrades (m : ProcessManager) (process : RendererId) : Bool :=
  (m.handles.get? process).any (!·.freed)

def isAlive (m : ProcessManager) (process : RendererId) : Bool :=
  (m.handles.get? process).any fun handle => !handle.freed && handle.alive

def pool (m : ProcessManager) (site : Site) : List RendererId := (m.state.sites.get? site).getD []

def setPool (m : ProcessManager) (site : Site) (processes : List RendererId) : ProcessManager :=
  { m with state := { m.state with sites := m.state.sites.insert site processes } }

def modifyHandle (m : ProcessManager) (process : RendererId) (f : RendererHandle → RendererHandle) :
    ProcessManager :=
  { m with handles := m.handles.modify process f }

def lock (m : ProcessManager) (process : RendererId) (site : Site) : ProcessManager :=
  m.modifyHandle process fun handle => { handle with site := some site }

/-- Locks a process to a site; a different lock stays. -/
def bind (m : ProcessManager) (process : RendererId) (site : Site) : Option ProcessManager :=
  match m.siteOf process with
  | some existing => if existing = site then some m else none
  | none => some (m.lock process site)

def takeSpare (m : ProcessManager) : ProcessManager :=
  { m with state := { m.state with spare := none } }

/-- Takes a slot and spawns a process into it. An error is `none`, an exhausted budget `some none`. -/
def spawnSlot (m : ProcessManager) (site : Option Site) :
    SpawnResult → Option (Option RendererId) × ProcessManager
  | .exhausted => (some none, m)
  | .failed => (none, { m with next := m.next + 1 })
  | .spawned => (some (some m.next), { m with
      next := m.next + 1
      handles := m.handles.insert m.next ⟨site, 0, true, false, false⟩ })

/-- `reserve`: the assignment is recorded and counted against its process. -/
def reserve (m : ProcessManager) (process : RendererId) (tab : TabId) (site : Site) :
    Assignment × ProcessManager :=
  let id := m.assignments.registry.next
  (⟨id, process, tab, site⟩, { m with
    assignments := (m.assignments.mint process tab site).register id
    handles := m.handles.modify process fun handle =>
      { handle with assignments := handle.assignments + 1 } })

/-- The process is put in the pool of the site, unless it is there, and the assignment reserved. -/
def reserveIn (m : ProcessManager) (process : RendererId) (tab : TabId) (site : Site) :
    Assignment × ProcessManager :=
  let processes := m.pool site
  let m := m.setPool site
    (if processes.any (fun candidate => m.upgrades candidate && candidate = process) then processes
      else processes ++ [process])
  m.reserve process tab site

def acquireReserved (m : ProcessManager) (tab : TabId) (site : Site) (spawn : SpawnResult) :
    Option Assignment × ProcessManager :=
  match m.state.spare with
  | some spare => match m.takeSpare.bind spare site with
    | none => (none, m.takeSpare)
    | some m =>
      let (assignment, m) := m.reserveIn spare tab site
      (some assignment, m)
  | none => match m.spawnSlot (some site) spawn with
    | (none, m) => (none, m)
    | (some (some process), m) =>
      let (assignment, m) := m.reserveIn process tab site
      (some assignment, m)
    | (some none, m) =>
      let m := m.setPool site ((m.pool site).filter m.isAlive)
      match (m.pool site).find? m.upgrades with
      | none => (none, m)
      | some process =>
        let (assignment, m) := m.reserveIn process tab site
        (some assignment, m)

/-- The pools without the process, which is looked for in that of `site`. -/
def leavePool (m : ProcessManager) (process : RendererId) :
    Option Site → Dict Site (List RendererId)
  | none => m.state.sites
  | some site => match m.state.sites.get? site with
    | none => m.state.sites
    | some processes =>
      let rest := processes.filter fun candidate => m.upgrades candidate && candidate ≠ process
      if rest.isEmpty then m.state.sites.erase site else m.state.sites.insert site rest

/-- The part of the release loop under the state lock. -/
def evaluate (m : ProcessManager) (process : RendererId) (site : Option Site) : ProcessManager :=
  if m.count process = 0 then
    { m with
      state := { m.state with sites := m.leavePool process site }
      loop := .stopping process }
  else { m with loop := .waiting }

/-- What a statement of `Drop` does to the process of the assignment. -/
def dropEffect (m : ProcessManager) (process : RendererId) : DropStep → ProcessManager
  | .countDown => m.modifyHandle process fun handle =>
      { handle with assignments := handle.assignments - 1 }
  | .sendNotice => { m with releases := m.releases ++ [process] }
  | .noteReleased | .releaseStreams | .removeLive | .notifyRelease => m

/-- A strong handle to the process is held somewhere in the manager or by an assignment. -/
def isHeld (m : ProcessManager) (process : RendererId) : Bool :=
  m.state.spare = some process || process ∈ m.releases || m.filling = .spawned (some process) ||
    (match m.loop with
      | .waiting => false
      | .evaluating p _ | .stopping p => p = process) ||
    m.assignments.heap.pairs.any fun (_, assignment, lifetime) =>
      assignment.process = process && lifetime ≠ .dropped

end ProcessManager

inductive ManagerStep where
  | acquire (tab : TabId) (site : Site) (spawn : SpawnResult)
  | lastHandle (id : RendererAssignmentId)
  | drop (id : RendererAssignmentId)
  | resolve (id : RendererAssignmentId)
  /-- The release loop takes a notice and reads the site lock. -/
  | receive
  | evaluate
  | shutdown
  /-- A `fill_spare` task checks whether a spare is wanted. -/
  | fill
  | spawnSpare (spawn : SpawnResult)
  | setSpare
  /-- The transport of the process breaks down. -/
  | fail (process : RendererId)
  | free (process : RendererId)

def managerStep (m : ProcessManager) : ManagerStep → Option ProcessManager
  | .acquire tab site spawn => some (m.acquireReserved tab site spawn).2
  | .lastHandle id => (assignmentStep m.assignments (.lastHandle id)).map fun assignments =>
      { m with assignments := assignments }
  | .drop id => match m.assignments.heap.get? id with
    | some (assignment, .dropping next) =>
      (assignmentStep m.assignments (.drop id)).map fun assignments =>
        { m with assignments := assignments }.dropEffect assignment.process next
    | _ => none
  | .resolve id => some { m with assignments := (m.assignments.resolve id).2 }
  | .receive => match m.loop, m.releases with
    | .waiting, process :: releases =>
      some { m with releases := releases, loop := .evaluating process (m.siteOf process) }
    | _, _ => none
  | .evaluate => match m.loop with
    | .evaluating process site => some (m.evaluate process site)
    | _ => none
  | .shutdown => match m.loop with
    | .stopping process =>
      some { m.modifyHandle process (fun handle => { handle with stopped := true }) with
        loop := .waiting }
    | _ => none
  | .fill =>
    if m.state.spare.isSome || m.state.spawningSpare then some m
    else some { m with state := { m.state with spawningSpare := true }, filling := .spawning }
  | .spawnSpare spawn => match m.filling with
    | .spawning =>
      let (result, m) := m.spawnSlot none spawn
      some { m with filling := .spawned (result.bind id) }
    | _ => none
  | .setSpare => match m.filling with
    | .spawned result => some { m with
        state := { m.state with
          spare := result.or m.state.spare
          spawningSpare := false }
        filling := .waiting }
    | _ => none
  | .fail process => some (m.modifyHandle process fun handle => { handle with alive := false })
  | .free process =>
    if m.isHeld process then none
    else some (m.modifyHandle process fun handle => { handle with freed := true })

end TinyBrowser
