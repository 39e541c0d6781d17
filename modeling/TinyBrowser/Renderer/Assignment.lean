import TinyBrowser.Dial.Basic
import TinyBrowser.Lib.Machine
import TinyBrowser.Renderer.Site

/-!
# Assignments and their registry

An assignment is one document that a renderer process hosts. The registry keeps a weak handle to
each live one; when the last strong handle goes, the statements of `Drop` run one by one
(`DropStep`), between steps of every other thread. Release is recorded as the highest id released
so far.
-/

namespace TinyBrowser
open Lib

abbrev RendererId := Nat

structure Assignment where
  id : RendererAssignmentId
  process : RendererId
  tab : TabId
  site : Site
deriving DecidableEq

def Assignment.hostedBy (assignment : Assignment) (renderer : RendererId) : Bool :=
  assignment.process = renderer

/-- The statements of `Drop for Assignment`, in their order. -/
inductive DropStep where
  | noteReleased
  | releaseStreams
  | removeLive
  | notifyRelease
  | countDown
  | sendNotice
deriving DecidableEq, Repr

/-- Alive while a strong handle is left; after the last one, the next statement of `Drop`. -/
inductive Lifetime where
  | alive
  | dropping (next : DropStep)
  | dropped
deriving DecidableEq, Repr

def DropStep.after : DropStep → Lifetime
  | noteReleased => .dropping releaseStreams
  | releaseStreams => .dropping removeLive
  | removeLive => .dropping notifyRelease
  | notifyRelease => .dropping countDown
  | countDown => .dropping sendNotice
  | sendNotice => .dropped

structure AssignmentRegistry where
  /-- The ids whose weak handle is in the table. -/
  live : List RendererAssignmentId
  next : Nat
  maxReleased : Nat
deriving DecidableEq

/-- The assignments ever made, each with its lifetime, and the registry. -/
structure Assignments where
  heap : Dict RendererAssignmentId (Assignment × Lifetime)
  registry : AssignmentRegistry
deriving DecidableEq

namespace AssignmentRegistry

def new : AssignmentRegistry := ⟨[], 1, 0⟩

def wasReleased (registry : AssignmentRegistry) (id : Nat) : Bool :=
  id ≠ 0 && id ≤ registry.maxReleased

def noteReleased (registry : AssignmentRegistry) (id : Nat) : AssignmentRegistry :=
  { registry with maxReleased := max registry.maxReleased id }

def removeLive (registry : AssignmentRegistry) (id : RendererAssignmentId) : AssignmentRegistry :=
  { registry with live := registry.live.erase id }

end AssignmentRegistry

namespace Assignments

def new : Assignments := ⟨Dict.empty, .new⟩

def wasReleased (s : Assignments) (id : RendererAssignmentId) : Bool := s.registry.wasReleased id

/-- The first part of `reserve`: an id and its assignment. -/
def mint (s : Assignments) (process : RendererId) (tab : TabId) (site : Site) : Assignments where
  heap := s.heap.insert s.registry.next (⟨s.registry.next, process, tab, site⟩, .alive)
  registry := { s.registry with next := s.registry.next + 1 }

/-- The second part of `reserve`: the weak handle is put in the table. -/
def register (s : Assignments) (id : RendererAssignmentId) : Assignments :=
  { s with registry := { s.registry with live := id :: s.registry.live.erase id } }

/-- A weak handle upgrades as long as a strong one is left. -/
def upgrade (s : Assignments) (id : RendererAssignmentId) : Option Assignment :=
  match s.heap.get? id with
  | some (assignment, .alive) => some assignment
  | _ => none

def resolve (s : Assignments) (id : RendererAssignmentId) : Option Assignment × Assignments :=
  if id ∈ s.registry.live then
    match s.upgrade id with
    | some assignment => (some assignment, s)
    | none => (none, { s with registry := (s.registry.removeLive id).noteReleased id })
  else (none, s)

def setLifetime (s : Assignments) (id : RendererAssignmentId) (lifetime : Lifetime) : Assignments :=
  { s with heap := s.heap.modify id fun (assignment, _) => (assignment, lifetime) }

/-- What one statement of `Drop` does to the registry. -/
def dropStatement (s : Assignments) (id : RendererAssignmentId) : DropStep → Assignments
  | .noteReleased => { s with registry := s.registry.noteReleased id }
  | .removeLive => { s with registry := s.registry.removeLive id }
  | .releaseStreams | .notifyRelease | .countDown | .sendNotice => s

variable {s : Assignments}

theorem dropStatement_heap (id : Nat) (next : DropStep) :
    (s.dropStatement id next).heap = s.heap := by
  cases next <;> rfl

theorem resolve_heap (id : RendererAssignmentId) : (s.resolve id).2.heap = s.heap := by
  unfold resolve
  split_ifs
  · cases s.upgrade id <;> rfl
  · rfl

theorem upgrade_of_resolve {s' : Assignments} {id : RendererAssignmentId} {assignment : Assignment}
    (h : s.resolve id = (some assignment, s')) : s.upgrade id = some assignment := by
  unfold resolve at h
  split_ifs at h
  · cases hup : s.upgrade id with
    | none => rw [hup] at h; cases h
    | some found => rw [hup] at h; cases h; rfl
  · cases h

end Assignments

/-- The answer to a message that names an assignment. -/
inductive Admission where
  | admitted (assignment : Assignment)
  | stale
  | violation
deriving DecidableEq

/-- What `live_assignment` and `route_service_call` make of a resolved id: a document that the
caller hosts, or a look at whether the id was released. -/
def admission (caller : RendererId) (found : Option Assignment) (released : Bool) : Admission :=
  match found.filter (·.hostedBy caller) with
  | some assignment => .admitted assignment
  | none => if released then .stale else .violation

def liveAssignment (s : Assignments) (caller : RendererId) (id : RendererAssignmentId) :
    Admission × Assignments :=
  let (found, s) := s.resolve id
  (admission caller found (s.wasReleased id), s)

/-- A step of some thread on the registry. -/
inductive AssignmentStep where
  | mint (process : RendererId) (tab : TabId) (site : Site)
  | register (id : RendererAssignmentId)
  | lastHandle (id : RendererAssignmentId)
  | drop (id : RendererAssignmentId)
  | resolve (id : RendererAssignmentId)
deriving DecidableEq

def assignmentStep (s : Assignments) : AssignmentStep → Option Assignments
  | .mint process tab site => some (s.mint process tab site)
  | .register id => if (s.upgrade id).isSome then some (s.register id) else none
  | .lastHandle id =>
    -- whoever reserves it holds a handle until it is registered
    if (s.upgrade id).isSome ∧ id ∈ s.registry.live then
      some (s.setLifetime id (.dropping .noteReleased))
    else none
  | .drop id =>
    match s.heap.get? id with
    | some (_, .dropping next) => some ((s.dropStatement id next).setLifetime id next.after)
    | _ => none
  | .resolve id => some (s.resolve id).2

end TinyBrowser
