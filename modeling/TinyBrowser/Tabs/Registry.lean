import TinyBrowser.Lib.Chain
import TinyBrowser.Sandbox

/-!
# The tab table

`TabRegistry` is the state that the browser task, the tab coordinators and the renderer service
tasks share: which tabs are open, their openers and target names, and the sandboxing flags of their
frames. Each function here runs in one critical section of the source.
-/

namespace TinyBrowser
open Lib

abbrev TabId := Nat

/-- A tab's target names: of the browsing context, and of its active document. -/
structure TabNames where
  live : Option ContextName
  document : Option ContextName
deriving DecidableEq

namespace TabNames

def default : TabNames := ⟨none, none⟩

/-- The pair a commit installs. -/
def fromName (name : Option ContextName) : TabNames := ⟨name, name⟩

end TabNames

inductive NameChange where
  | assigned (name : Option ContextName)
  | reset
deriving DecidableEq

inductive FrameKind where
  | child
  | auxiliary
deriving DecidableEq, Repr

/-- A frame's flags at creation, and those its document runs under. -/
structure FrameSandbox where
  creation : SandboxFlags
  active : SandboxFlags
deriving DecidableEq, Repr

structure TabRegistry where
  tabs : List TabId
  openers : Dict TabId TabId
  names : Dict TabId TabNames
  sandboxes : Dict TabId SandboxFlags
  frames : Dict (TabId × FrameId) FrameSandbox
  mainCsps : Dict TabId SandboxFlags
deriving DecidableEq

/-- Writes a name pair, dropping the entry when the tab has no names at all. -/
def setNames (map : Dict TabId TabNames) (id : TabId) (names : TabNames) : Dict TabId TabNames :=
  if names.live.isNone && names.document.isNone then map.erase id else map.insert id names

/-- The top-level tab of a browsing context group: the end of the opener chain. -/
def groupRoot (openers : Dict TabId TabId) (tab : TabId) : TabId :=
  openers.follow (openers.len + 1) tab

namespace TabRegistry

def new : TabRegistry where
  tabs := []
  openers := Dict.empty
  names := Dict.empty
  sandboxes := Dict.empty
  frames := Dict.empty
  mainCsps := Dict.empty

variable (r : TabRegistry) (id : TabId)

/-! ### Tabs and names -/

def insert : TabRegistry := { r with tabs := id :: r.tabs.erase id }

/-- Closes a tab: it leaves the table with its names. -/
def remove : TabRegistry :=
  if id ∈ r.tabs then { r with tabs := r.tabs.filter (· ≠ id), names := r.names.erase id } else r

def opener : Option TabId := r.openers.get? id

def setOpener (opener : TabId) : TabRegistry := { r with openers := r.openers.insert id opener }

def removeOpener : TabRegistry := { r with openers := r.openers.erase id }

/-- Closes every tab: the first of the two critical sections of `drain`. -/
def drainTabs : TabRegistry := { r with tabs := [] }

/-- The second one, which clears the names. -/
def drainNames : TabRegistry := { r with names := Dict.empty }

/-- The name pair of a tab; a tab without names has no entry. -/
def namesOf : TabNames := (r.names.get? id).getD .default

def name : Option ContextName := (r.names.get? id).bind TabNames.live

def documentName : Option ContextName := (r.names.get? id).bind TabNames.document

/-- The tab that `caller`'s browsing context group has under a name. -/
def findByName (caller : TabId) (name : ContextName) : Option TabId :=
  (r.names.pairs.find? fun (id, named) =>
    named.live.any (fun live => live.text = name.text) &&
      decide (groupRoot r.openers id = groupRoot r.openers caller)).map Prod.fst

def insertName (name : Option ContextName) : TabRegistry :=
  { r with names := match name with
    | some name => r.names.insert id (.fromName (some name))
    | none => r.names.erase id }

def rename (change : NameChange) : TabRegistry :=
  if id ∈ r.tabs then
    match change with
    | .assigned name => { r with names := setNames r.names id (.fromName name) }
    | .reset => match r.names.get? id with
      | some entry => { r with names := r.names.insert id { entry with live := none } }
      | none => r
  else r

/-- Installs the document's name of a commit that the renderer drove, unless the tab was renamed
since. -/
def settleDocumentName (outgoing name : Option ContextName) : TabRegistry :=
  if id ∉ r.tabs then r
  else if r.documentName id ≠ outgoing then r
  else match name with
    | some name =>
      { r with names := r.names.insert id { r.namesOf id with document := some name } }
    | none => match r.names.get? id with
      | none => r
      | some entry =>
        { r with names := if entry.live.isNone then r.names.erase id
            else r.names.insert id { entry with document := none } }

/-- Installs the names of a commit that the browser drives; returns the pair it replaced, or `none`
when the tab has closed. -/
def installCommit (name : Option ContextName) : Option TabNames × TabRegistry :=
  if id ∈ r.tabs then
    (some (r.namesOf id), { r with names := setNames r.names id (.fromName name) })
  else (none, r)

/-- Puts back the pair `installCommit` replaced, unless the names have changed since. -/
def restoreCommit (previous : Option TabNames) (installed : TabNames) : TabRegistry :=
  match previous with
  | none => r
  | some previous =>
    if id ∈ r.tabs ∧ r.namesOf id = installed then
      { r with names := setNames r.names id previous }
    else r

/-! ### Sandboxing flags -/

def setSandbox (sandbox : SandboxFlags) : TabRegistry :=
  { r with sandboxes := r.sandboxes.insert id sandbox }

def sandbox : SandboxFlags := (r.sandboxes.get? id).getD .empty

def mainCsp : SandboxFlags := (r.mainCsps.get? id).getD .empty

/-- The flags a frame is created with under `parent`. -/
def creationFlags (tab : TabId) (parent : FrameId) (kind : FrameKind) (reported : SandboxFlags) :
    SandboxFlags :=
  let parentActive := match r.frames.get? (tab, parent) with
    | some record => record.active
    | none => if parent = FrameId.main then r.sandbox tab else .parse (some [])
  match kind with
  | .child => parentActive.union reported
  | .auxiliary => parentActive.auxiliaryFlags

/-- Records a frame the renderer created; the answer is whether the report was accepted. -/
def registerFrame (tab : TabId) (frame parent : FrameId) (kind : FrameKind)
    (reported : SandboxFlags) : Bool × TabRegistry :=
  if frame = FrameId.main then (false, r)
  else if r.frames.contains (tab, frame) then (false, r)
  else
    let creation := r.creationFlags tab parent kind reported
    (true, { r with frames := r.frames.insert (tab, frame) ⟨creation, creation⟩ })

/-- The flags a frame's document runs under, as the browser reports them. -/
def frameSandbox (tab : TabId) (frame : FrameId) : Option SandboxFlags :=
  if frame = FrameId.main then some ((r.sandbox tab).union (r.mainCsp tab))
  else (r.frames.get? (tab, frame)).map FrameSandbox.active

def resetMainSandbox (tab : TabId) (csp : SandboxFlags) : TabRegistry :=
  { r with mainCsps := r.mainCsps.insert tab csp }

/-- Rebuilds a frame's active set for the response it navigated to. -/
def commitFrameSandbox (tab : TabId) (frame : FrameId) (csp : SandboxFlags) : TabRegistry :=
  if frame = FrameId.main then r.resetMainSandbox tab csp
  else match r.frames.get? (tab, frame) with
    | some record =>
      let record := { record with active := record.creation.union csp }
      { r with frames := r.frames.insert (tab, frame) record }
    | none => r

def removeFrame (tab : TabId) (frame : FrameId) : Bool × TabRegistry :=
  if frame = FrameId.main then (false, r)
  else (true, { r with frames := r.frames.erase (tab, frame) })

/-- Drops the child records of a tab whose renderer is being replaced. -/
def clearFrames (tab : TabId) : TabRegistry :=
  { r with frames := r.frames.retain fun k => k.1 ≠ tab }

def removeSandbox : TabRegistry :=
  { r with
    sandboxes := r.sandboxes.erase id
    mainCsps := r.mainCsps.erase id }.clearFrames id

end TabRegistry

/-- The operations on sandboxing flags. -/
inductive SandboxOp where
  | setSandbox (tab : TabId) (sandbox : SandboxFlags)
  | resetMainSandbox (tab : TabId) (csp : SandboxFlags)
  | registerFrame (tab : TabId) (frame parent : FrameId) (kind : FrameKind) (reported : SandboxFlags)
  | commitFrameSandbox (tab : TabId) (frame : FrameId) (csp : SandboxFlags)
  | removeFrame (tab : TabId) (frame : FrameId)
  | clearFrames (tab : TabId)
deriving DecidableEq

def TabRegistry.applySandbox (r : TabRegistry) : SandboxOp → TabRegistry
  | .setSandbox tab sandbox => r.setSandbox tab sandbox
  | .resetMainSandbox tab csp => r.resetMainSandbox tab csp
  | .registerFrame tab frame parent kind reported =>
    (r.registerFrame tab frame parent kind reported).2
  | .commitFrameSandbox tab frame csp => r.commitFrameSandbox tab frame csp
  | .removeFrame tab frame => (r.removeFrame tab frame).2
  | .clearFrames tab => r.clearFrames tab

end TinyBrowser
