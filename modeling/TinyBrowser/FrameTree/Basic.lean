import TinyBrowser.Document.Dials
import TinyBrowser.Lib.Preorder
import TinyBrowser.Messaging.Channels
import TinyBrowser.Tabs.Browser

/-!
# The frames of an engine

`FrameTree` of `crates/renderer/src/messaging.rs` keeps the browsing contexts of a tab in five maps,
and `Shared` adds the ports, the document identities and the frames that the engine has yet to drop.
The loops over the tree are given a turn for every frame and one more; `none` stands for a loop that
has not ended by then. Hash maps are iterated in any order, which an operation takes with it.
-/

namespace TinyBrowser
open Lib

inductive FrameOrigin where
  | container (parent : FrameId) (container : ElementId)
  | auxiliary (opener : FrameId) (openerVisible : Bool)
deriving DecidableEq, Repr

def FrameOrigin.containerOf : FrameOrigin → Option ElementId
  | .container _ element => some element
  | .auxiliary _ _ => none

structure FrameTree where
  origins : Dict FrameId FrameOrigin := .empty
  /-- In container tree order. -/
  children : Dict FrameId (List FrameId) := .empty
  owners : Dict ElementId FrameId := .empty
  names : Dict FrameId Text := .empty
  popupSandbox : Dict FrameId SandboxFlags := .empty
deriving DecidableEq

namespace FrameTree

variable (t : FrameTree)

/-! ### Queries -/

def contains (frame : FrameId) : Bool := t.origins.contains frame

/-- The main frame has no entry. -/
def isAlive (frame : FrameId) : Bool := frame = FrameId.main || t.contains frame

def parent (frame : FrameId) : Option FrameId :=
  match t.origins.get? frame with
  | some (.container parent _) => some parent
  | some (.auxiliary _ _) | none => none

def container (frame : FrameId) : Option ElementId :=
  match t.origins.get? frame with
  | some (.container _ container) => some container
  | some (.auxiliary _ _) | none => none

def opener (frame : FrameId) : Option FrameId :=
  match t.origins.get? frame with
  | some (.auxiliary opener true) => some opener
  | some (.auxiliary _ false) | some (.container _ _) | none => none

def childrenOf (frame : FrameId) : List FrameId := (t.children.get? frame).getD []

def name (frame : FrameId) : Text := (t.names.get? frame).getD []

/-! ### Updates -/

/-- The siblings with `child` before `before`, or last. -/
def placeChild (siblings : List FrameId) (child : FrameId) (before : Option FrameId) :
    List FrameId :=
  match before.bind fun target => siblings.findIdx? fun frame => frame = target with
  | some index => siblings.insertIdx index child
  | none => siblings ++ [child]

/-- `names.entry(child).or_default()`. -/
def defaultName (child : FrameId) : FrameTree :=
  if t.names.contains child then t else { t with names := t.names.insert child [] }

def addContainer (parent child : FrameId) (container : ElementId) (before : Option FrameId) :
    FrameTree :=
  { t with origins := t.origins.insert child (.container parent container)
           owners := t.owners.insert container child
           children := t.children.insert parent (placeChild (t.childrenOf parent) child before)
    : FrameTree }.defaultName child

/-- An empty set drops the entry. -/
def setPopupSandbox (frame : FrameId) (sandbox : SandboxFlags) : FrameTree :=
  if sandbox = .empty then { t with popupSandbox := t.popupSandbox.erase frame }
  else { t with popupSandbox := t.popupSandbox.insert frame sandbox }

def addAuxiliary (opener child : FrameId) (openerVisible : Bool) (sandbox : SandboxFlags) :
    FrameTree :=
  ({ t with origins := t.origins.insert child (.auxiliary opener openerVisible)
     : FrameTree }.defaultName child).setPopupSandbox child sandbox

/-- Re-sorts an existing child; `rows` are the entries of `children` in the order of the scan. -/
def reposition (rows : List (FrameId × List FrameId)) (child : FrameId) (before : Option FrameId) :
    FrameTree :=
  match rows.find? fun row => child ∈ row.2 with
  | none => t
  | some (parent, siblings) =>
    { t with children :=
        t.children.insert parent (placeChild (siblings.erase child) child before) }

def setName (frame : FrameId) (name : Text) : FrameTree :=
  { t with names := t.names.insert frame name }

def remove (child : FrameId) : Option FrameOrigin × FrameTree :=
  match t.origins.get? child with
  | none => (none, t)
  | some origin =>
    let t := { t with origins := t.origins.erase child }
    let t := match origin with
      | .container parent container =>
        { t with children := t.children.modify parent fun siblings => siblings.filter (· ≠ child)
                 owners := t.owners.erase container }
      | .auxiliary _ _ => t
    (some origin, { t with children := t.children.erase child
                           names := t.names.erase child
                           popupSandbox := t.popupSandbox.erase child })

/-! ### Loops -/

def turns : Nat := t.origins.keys.length + 1

def topLevel (frame : FrameId) : Option FrameId := climb t.parent t.turns frame

def isInclusiveDescendant (ancestor frame : FrameId) : Option Bool :=
  climbsTo t.parent ancestor t.turns frame

def findByTargetName (target : Text) (subtree : FrameId) : Option (Option FrameId) :=
  search t.childrenOf (fun frame => t.name frame = target) t.turns subtree

/-- The auxiliary contexts, sorted. -/
def auxiliaries : List FrameId :=
  (t.origins.pairs.filterMap fun row => match row.2 with
    | .auxiliary _ _ => some row.1
    | .container _ _ => none).mergeSort

def findByAuxiliaryName (current : FrameId) (target : Text) : Option (Option FrameId) :=
  firstOf (t.findByTargetName target) (t.auxiliaries.filter (· ≠ current))

def chooseNavigable (target : TargetName) (current : FrameId) : Option (Option FrameId) :=
  match target with
  | .current => some (some current)
  | .parent => some (some ((t.parent current).getD current))
  | .top => (t.topLevel current).map some
  | .blank => some none
  | .named name =>
    match t.topLevel current with
    | none => none
    | some top =>
      match firstOf (t.findByTargetName name.text) [current, top] with
      | none => none
      | some (some frame) => some (some frame)
      | some none => t.findByAuxiliaryName top name.text

end FrameTree

/-! ### What the realms of an engine share -/

structure Shared extends SharedPorts where
  tree : FrameTree := {}
  nextFrame : FrameId := 1
  removedFrames : List (FrameId × Option ElementId) := []

/-- An order in which a hash map can be iterated. -/
abbrev Iteration (α : Type) := { iter : List α → List α // ∀ l, (iter l).Perm l }

namespace Shared

variable (s : Shared)

def push (r : PortTable × List Delivery) : Shared :=
  ⟨s.toSharedPorts.push r, s.tree, s.nextFrame, s.removedFrames⟩

/-- Ids are never reused, as long as there are any. -/
def allocateFrame : FrameId × Shared :=
  (s.nextFrame, { s with nextFrame := saturatingSucc s.nextFrame })

def beginDocument (frame : FrameId) : Shared :=
  ⟨s.toSharedPorts.beginDocument frame, s.tree, s.nextFrame, s.removedFrames⟩

def forgetDocument (frame : FrameId) : Shared :=
  ⟨s.toSharedPorts.forgetDocument frame, s.tree, s.nextFrame, s.removedFrames⟩

def closeFramePorts (order : Iteration Nat) (frame : FrameId) : Shared :=
  ⟨s.toSharedPorts.closeFramePorts frame (order.1 (s.ports.owned frame)), s.tree, s.nextFrame,
    s.removedFrames⟩

/-- Forgets a frame that left the tree, and reports it to the engine. -/
def dropFrame (order : Iteration Nat) (frame : FrameId) (container : Option ElementId) : Shared :=
  let s := (s.forgetDocument frame).closeFramePorts order frame
  { s with removedFrames := s.removedFrames ++ [(frame, container)] }

/-- The second loop of `detach_child_frames`. -/
def removeAll (order : Iteration Nat) : List FrameId → Shared → Shared
  | [], s => s
  | child :: removed, s =>
    let (origin, tree) := s.tree.remove child
    removeAll order removed
      ({ s with tree := tree }.dropFrame order child (origin.bind FrameOrigin.containerOf))

def detachChildFrames (order : Iteration Nat) (frame : FrameId) : Option Shared :=
  (collect s.tree.childrenOf s.tree.turns (s.tree.childrenOf frame).reverse []).map fun removed =>
    s.removeAll order removed

def removeChildNavigable (order : Iteration Nat) (frame : FrameId) (container : ElementId) :
    Option Shared :=
  (s.detachChildFrames order frame).map fun s =>
    { s with tree := (s.tree.remove frame).2 }.dropFrame order frame (some container)

def closeAuxiliary (order : Iteration Nat) (frame : FrameId) : Option Shared :=
  match s.tree.opener frame with
  | none => some s
  | some _ => (s.detachChildFrames order frame).map fun s =>
    { s with tree := (s.tree.remove frame).2 }.dropFrame order frame none

def takeRemovedFrames : List (FrameId × Option ElementId) × Shared :=
  (s.removedFrames, { s with removedFrames := [] })

/-- What the realms and the engine do with the ports. -/
def applyPort : PortOp → Shared
  | .newPair owner => { s with ports := (s.ports.newPair owner).2 }
  | .route endpoint recipient => { s with ports := s.ports.route endpoint recipient }
  | .post source payload ports => s.push (s.ports.post source payload ports)
  | .requeue endpoint payload ports => s.push (s.ports.requeue endpoint payload ports)
  | .requeueClose endpoint => s.push (s.ports.requeueClose endpoint)
  | .start endpoint => s.push (s.ports.start endpoint)
  | .close endpoint => s.push (s.ports.close endpoint)
  | .detach endpoint frame => { s with ports := (s.ports.detach endpoint frame).2 }
  | .adopt endpoint frame => { s with ports := (s.ports.adopt endpoint frame).2 }
  | .closeFramePorts frame order =>
    ⟨s.toSharedPorts.closeFramePorts frame order, s.tree, s.nextFrame, s.removedFrames⟩
  | .forget endpoint => s.push (s.ports.forget endpoint)

end Shared

/-! ### Runs -/

/-- A run also keeps the frames that were added and the reports that were taken. -/
structure FrameRun where
  shared : Shared := {}
  added : List FrameId := []
  taken : List (FrameId × Option ElementId) := []

inductive FrameOp where
  | addContainer (parent : FrameId) (container : ElementId) (before : Option FrameId)
  | addAuxiliary (opener : FrameId) (openerVisible : Bool) (sandbox : SandboxFlags)
  | reposition (rows : Iteration (FrameId × List FrameId)) (child : FrameId)
      (before : Option FrameId)
  | setName (frame : FrameId) (name : Text)
  | setPopupSandbox (frame : FrameId) (sandbox : SandboxFlags)
  | beginDocument (frame : FrameId)
  | detachChildFrames (order : Iteration Nat) (frame : FrameId)
  | removeChildNavigable (order : Iteration Nat) (frame : FrameId) (container : ElementId)
  | closeAuxiliary (order : Iteration Nat) (frame : FrameId)
  | takeRemovedFrames
  | port (op : PortOp)

/-- The frame whose realm comes to own a port. -/
def PortOp.newOwner : PortOp → Option FrameId
  | .newPair owner => some owner
  | .adopt _ frame => some frame
  | _ => none

namespace FrameRun

variable (r : FrameRun)

/-- A new frame has an id of its own, and under a container a live parent; every other operation is
on a live frame, and only the realm of a live frame comes to own a port. -/
def admits : FrameOp → Bool
  | .addContainer parent container _ => r.shared.tree.isAlive parent &&
    (r.shared.tree.owners.get? container).isNone && r.shared.nextFrame ∉ r.added
  | .addAuxiliary _ _ _ => r.shared.nextFrame ∉ r.added
  | .reposition _ frame _ | .setName frame _ | .setPopupSandbox frame _ | .beginDocument frame
  | .detachChildFrames _ frame | .closeAuxiliary _ frame => r.shared.tree.isAlive frame
  | .removeChildNavigable _ frame container => r.shared.tree.container frame = some container
  | .takeRemovedFrames => true
  | .port op => op.newOwner.all fun frame => r.shared.tree.isAlive frame

/-- `none` where a loop does not end. -/
def apply : FrameOp → Option FrameRun
  | .addContainer parent container before =>
    let (child, s) := r.shared.allocateFrame
    let tree := s.tree.addContainer parent child container before
    some { r with shared := { s with tree := tree }, added := r.added ++ [child] }
  | .addAuxiliary opener openerVisible sandbox =>
    let (child, s) := r.shared.allocateFrame
    let tree := s.tree.addAuxiliary opener child openerVisible sandbox
    some { r with shared := { s with tree := tree }, added := r.added ++ [child] }
  | .reposition rows child before =>
    let tree := r.shared.tree
    some { r with shared := { r.shared with
      tree := tree.reposition (rows.1 tree.children.pairs) child before } }
  | .setName frame name =>
    some { r with shared := { r.shared with tree := r.shared.tree.setName frame name } }
  | .setPopupSandbox frame sandbox =>
    some { r with shared := { r.shared with tree := r.shared.tree.setPopupSandbox frame sandbox } }
  | .beginDocument frame => some { r with shared := r.shared.beginDocument frame }
  | .detachChildFrames order frame =>
    (r.shared.detachChildFrames order frame).map fun s => { r with shared := s }
  | .removeChildNavigable order frame container =>
    (r.shared.removeChildNavigable order frame container).map fun s => { r with shared := s }
  | .closeAuxiliary order frame =>
    (r.shared.closeAuxiliary order frame).map fun s => { r with shared := s }
  | .takeRemovedFrames =>
    let (frames, s) := r.shared.takeRemovedFrames
    some { r with shared := s, taken := r.taken ++ frames }
  | .port op => some { r with shared := r.shared.applyPort op }

def step (op : FrameOp) : Option FrameRun := if r.admits op then r.apply op else none

end FrameRun

end TinyBrowser
