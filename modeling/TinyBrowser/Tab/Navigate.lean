import TinyBrowser.Tab.Basic

/-!
# Navigations, renderer events and traversals

The coordinator's operations: starting and committing navigations, applying what the renderer
reports, and moving through the joint session history. `TabOp` lists what one turn of the
coordinator's loop can do; `World.run` is a run of the loop.
-/

namespace TinyBrowser
open Lib

namespace TabM
variable {me : TabId} (p : Platform)

/-! ### Starting a navigation -/

def resolveUrl (spec : Text) (base : Url) : Except TabError Url :=
  match (p.crates.urlParse spec).or (p.crates.urlJoin base spec) with
  | none => .error (.invalidUrl spec)
  | some url =>
    if url.scheme ∈ ["http".toList, "https".toList, "data".toList] then .ok url
    else .error (.invalidUrl spec)

def goto (spec : Text) : TabM me (Except TabError Unit) := do
  match resolveUrl p spec (← getTab).documentUrl with
  | .error e => return .error e
  | .ok url =>
    modifyTab fun t =>
      let epoch := saturatingSucc t.navEpoch
      { t with
        traversal := none
        navEpoch := epoch
        navigationFailed := false
        nav := some ⟨url, epoch, false⟩ }
    return .ok ()

/-- Hands the navigation to the network. -/
def launchNavigation : TabM me Unit := modifyTab fun t =>
  { t with nav := t.nav.map fun nav => { nav with submitted := true } }

/-- Takes a `data:` navigation that has not been handed to the network. -/
def takeDataNavigation : TabM me (Option Url) := do
  match (← getTab).nav with
  | some nav =>
    if !nav.submitted && nav.url.scheme = "data".toList then
      modifyTab fun t => { t with nav := none }
      return some nav.url
    else
      return none
  | none => return none

/-- Replaces the virtual document, or the mounted one at the same URL. -/
def loadHtml : TabM me (Except TabError Unit) := do
  let t ← getTab
  let document : Mount := ⟨t.documentUrl, t.history.rendererSnapshot, ← currentTabState⟩
  if !t.renderer && t.documentUrl.scheme = "about".toList then
    modifyTab fun t => { t with pendingMount := some document, documentLoaded := true }
    recordEvent .domContentLoaded
    recordEvent .load
    modifyHistory (·.setTitle FrameId.main [])
    return .ok ()
  else
    match ← mount (((Site.forUrl p.crates t.documentUrl).or t.site).getD (.opaqueTab me)) document with
    | .error e => return .error e
    | .ok () =>
      let title ← documentTitle p
      modifyHistory (·.setTitle FrameId.main title)
      return .ok ()

/-! ### Commits -/

/-- A commit that fails gives the CSP record back. -/
def failCommit (previousCsp : SandboxFlags) : TabM me Bool := do
  writes (·.resetMainSandbox me previousCsp)
  modifyTab fun t => { t with navigationFailed := true }
  return false

/-- The document is mounted: the prepared history takes effect. -/
def finishCommit (url : Url) (history : SessionHistory) (settle : Bool → Bool) : TabM me Bool := do
  modifyHistory fun _ => history
  advanceDocumentUrl url
  modifyTab fun t => { t with navigationFailed := settle t.navigationFailed }
  let title ← documentTitle p
  modifyHistory (·.setTitle FrameId.main title)
  return true

/-- Commits a document at `url` under the CSP flags `csp`. The history is prepared on a copy, which
takes effect when `mountAt` succeeds; `settle` says what success makes of the failure flag. -/
def commitDocument (url : Url) (csp : SandboxFlags)
    (mountAt : Site → Mount → TabM me (Except TabError Unit)) (settle : Bool → Bool) :
    TabM me Bool := do
  -- the commit starts here: no other task comes between it and this read
  let previousCsp := (← get).tabs.mainCsp me
  writes (·.resetMainSandbox me csp)
  syncOutgoingName
  let state ← commitState url
  let commit ← historyCommit url state
  let committed := (← getTab).history.commit commit
  if committed.1 then
    let names ← beginCommit state
    match ← mountAt (siteOf p.crates me url) ⟨url, committed.2.rendererSnapshot, state⟩ with
    | .error _ =>
      abortCommit names
      failCommit previousCsp
    | .ok () => finishCommit p url committed.2 settle
  else
    failCommit previousCsp

def commitNavigation (outcome : NavOutcome) : TabM me Bool :=
  commitDocument p outcome.url outcome.csp (fun site m => mountStream site m outcome.body) id

def dataUrlPrefixAllowance : Nat := 1024

def decodeDataUrlBounded (raw : Text) : Option (Text × List UInt8) :=
  if maxResponseBodyBytes * 3 + dataUrlPrefixAllowance < Text.len raw then none
  else match p.decodeDataUrl raw with
    | none => none
    | some (contentType, body) =>
      if maxResponseBodyBytes < body.length then none else some (contentType, body)

def commitDataNavigation (url : Url) : TabM me Bool := do
  match decodeDataUrlBounded p url.asStr with
  | none =>
    modifyTab fun t => { t with navigationFailed := true }
    return false
  | some _ =>
    commitDocument p url .empty mount fun _ => false

def commitEvent (mounted : Bool) : TabEvent := if mounted then .navigated else .navigationFailed

/-- The end of a dial; a stale one is ignored. -/
def handleNavigation (epoch : Nat) (result : Option NavOutcome) : TabM me Unit := do
  if (← getTab).nav.any (·.epoch = epoch) then
    modifyTab fun t => { t with nav := none, documentLoaded := false }
    match result with
    | some outcome =>
      let mounted ← commitNavigation p outcome
      recordEvent (commitEvent mounted)
    | none =>
      modifyTab fun t => { t with traversal := none, navigationFailed := true }
      recordEvent .navigationFailed
  else
    return ()

/-- The head of the loop: a `data:` navigation needs no dial. -/
def dataNavigation : TabM me Unit := do
  match ← takeDataNavigation with
  | some url =>
    let mounted ← commitDataNavigation p url
    recordEvent (commitEvent mounted)
  | none => return ()

/-! ### Traversals -/

/-- How the joint step moves one frame: its entry there, and whether the document stays. -/
def moveOf (h : SessionHistory) (targetStep : Nat) (frame : FrameId) : Option (EntryId × Bool) :=
  match h.activeEntryAt frame targetStep with
  | none => none
  | some target =>
    let current := h.activeEntryAt frame h.currentStep
    if current = some target then none
    else some (target, current.any fun current => h.sameDocument current target)

/-- Reloads a child frame's entry, or moves the frame to it. -/
def traverseFrame (frame : FrameId) (entry : EntryId) (sameDocument reload : Bool) : TabM me Unit := do
  let h := (← getTab).history
  match h.entryUrl entry, h.localIndex entry, h.rendererSnapshotForEntry entry with
  | some url, some index, some history =>
    modifyHistory (·.discardPending frame)
    let _ ← rendererRequest p
      (.historyTraverseFrame frame index url.asStr history sameDocument reload)
  | _, _, _ => return ()

/-- Starts a navigation to `url` that will commit `entry`. -/
def gotoEntry (url : Url) (entry : EntryId) : TabM me Unit := do
  match ← goto p url.asStr with
  | .ok () => modifyTab fun t => { t with traversal := some entry }
  | .error _ => return ()

def reloadFrame (frame : FrameId) : TabM me Unit := do
  let t ← getTab
  if frame = FrameId.main then
    gotoEntry p t.documentUrl t.history.currentEntry
  else
    match t.history.activeEntry frame with
    | some entry => traverseFrame p frame entry false true
    | none => return ()

/-- Moves the main frame to another state of its document, if the renderer agrees. -/
def traverseMainSameDocument (entry : EntryId) (url : Url) (history : RendererHistorySnapshot) :
    TabM me Unit := do
  match ← rendererRequest p (.historyTraverse url.asStr history) with
  | .ok (.unit (.ok ())) =>
    let moved := (← getTab).history.traverseSameDocument entry
    modifyHistory fun _ => moved.2
    if moved.1 then
      modifyTab fun t => { t with documentUrl := url }
      recordEvent .sameDocumentNavigation
    else
      return ()
  | _ => return ()

def moveChildren (moves : List (FrameId × EntryId × Bool)) : TabM me Unit :=
  moves.forM fun (frame, entry, sameDocument) => traverseFrame p frame entry sameDocument false

/-- The last part of a step that reloads no main document. -/
def finishTraversal (targetStep : Nat) : TabM me (Except TabError Unit) := do
  modifyHistory (·.setCurrentStep targetStep)
  syncHistories p
  return .ok ()

def traverseTo (targetStep : Nat) : TabM me (Except TabError Unit) := do
  let h := (← getTab).history
  let children := ((p.frameOrder h).filter (· ≠ FrameId.main)).filterMap fun frame =>
    (moveOf h targetStep frame).map (frame, ·)
  let mainMove := if FrameId.main ∈ p.frameOrder h then moveOf h targetStep FrameId.main else none
  match mainMove with
  | none =>
    moveChildren p children
    finishTraversal p targetStep
  | some (entry, sameDocument) =>
    match h.entryUrl entry with
    | none => return .error (.unknownHistoryEntry entry)
    | some url =>
      if sameDocument then
        match h.rendererSnapshotForEntry entry with
        | none => return .ok ()
        | some history =>
          traverseMainSameDocument p entry url history
          moveChildren p children
          finishTraversal p targetStep
      else
        gotoEntry p url entry
        -- the step becomes current when the response commits
        moveChildren p children
        return .ok ()

def syncCallerName (caller : FrameId) : TabM me Unit :=
  if caller = FrameId.main then syncOutgoingName else pure ()

def traverse (step : HistoryStep) (caller : FrameId) : TabM me (Except TabError Unit) := do
  syncCallerName caller
  if step = .delta 0 then
    reloadFrame p caller
    return .ok ()
  else
    match (← getTab).history.targetStep step with
    | none => return match step with
      | .entry entry => .error (.unknownHistoryEntry entry)
      | .delta _ => .ok ()
    | some targetStep => traverseTo p targetStep

/-! ### Renderer events -/

/-- The tab shows the URL of an update of its main frame. -/
def showUpdate (frame : FrameId) (url : Url) : TabM me Unit :=
  if frame = FrameId.main then do
    modifyTab fun t => { t with documentUrl := url }
    recordEvent .sameDocumentNavigation
  else pure ()

/-- A same-document update from `frame`; one that leaves the frame's origin is ignored. -/
def applyHistoryUpdate (frame : FrameId) (url : Text) (state : Text) (handling : HistoryHandling) :
    TabM me Unit := do
  match p.crates.urlParse url with
  | none => return ()
  | some url =>
    let t ← getTab
    let expected := if frame = FrameId.main then some t.documentUrl
      else (t.history.activeEntry frame).bind t.history.entryUrl
    if expected.any fun expected => hasOrigin url expected.origin then
      modifyHistory (·.update frame url state handling)
      showUpdate frame url
      syncHistories p
    else
      return ()

/-- A document that the renderer committed in the main frame. -/
def navigatedMain (url : Url) (outgoingName : Option ContextName) : TabM me Unit := do
  modifyHistory (·.syncCurrentName outgoingName)
  let name ← reads (·.name me)
  modifyHistory fun h => (h.commit (.push url name)).2
  writes (·.settleDocumentName me outgoingName name)
  advanceDocumentUrl url
  modifyTab fun t => { t with documentLoaded := false, navigationFailed := false }
  syncHistories p
  recordEvent .navigated

/-- A `load` counts when it is of the document the tab is at, or is navigating to. -/
def handleLoad : TabM me Unit := do
  let t ← getTab
  let expected := (t.nav.map ActiveNavigation.url).getD t.documentUrl
  match ← rendererDocumentState p with
  | none => return ()
  | some (ready, current) =>
    if ready = "complete".toList ∧ current = expected.asStr then
      modifyTab fun t => { t with documentLoaded := true }
      recordEvent .load
    else
      return ()

def handleRendererEvent (frame : FrameId) : BrowserEvent → TabM me Unit
  | .navigated url outgoingName => do
    match p.crates.urlParse url with
    | none => return ()
    | some url =>
      if frame = FrameId.main then
        navigatedMain p url outgoingName
      else
        modifyHistory (·.commitUrl frame url)
        syncHistories p
  | .load => if frame = FrameId.main then handleLoad p else pure ()
  | .domContentLoaded => if frame = FrameId.main then recordEvent .domContentLoaded else pure ()
  | .navigationStarted url replace localIndex pending => do
    match p.crates.urlParse url with
    | none => return ()
    | some url =>
      modifyHistory fun h => (h.begin frame url replace localIndex none pending).2
      if pending then pure () else syncHistories p
  | .frameAdded url => do
    modifyHistory (·.addFrame frame ((p.crates.urlParse url).getD aboutBlank) none)
    syncHistories p
  | .frameRemoved => do
    modifyHistory (·.removeFrame frame)
    syncHistories p
  | .historyUpdated url state handling => applyHistoryUpdate p frame url state handling
  | .historyTraversal delta => do
    let _ ← traverse p (.delta delta) frame

end TabM

/-! ### Runs -/

/-- One turn of the coordinator's loop. -/
inductive TabOp where
  | goto (spec : Text)
  | loadHtml
  | documentTitle
  | request (command : ClientCommand)
  | traverseHistory (step : HistoryStep)
  | dataNavigation
  | launchNavigation
  | navigation (epoch : Nat) (result : Option NavOutcome)
  | rendererEvent (frame : FrameId) (event : BrowserEvent)
  | rendererLost

namespace World
variable {me : TabId}

def perform (p : Platform) : TabOp → TabM me Unit
  | .goto spec => discard (TabM.goto p spec)
  | .loadHtml => discard (TabM.loadHtml p)
  | .documentTitle => discard (TabM.documentTitle p)
  | .request command => discard (TabM.rendererRequest p (.client command))
  | .traverseHistory step => discard (TabM.traverse p step FrameId.main)
  | .dataNavigation => TabM.dataNavigation p
  | .launchNavigation => TabM.launchNavigation
  | .navigation epoch result => TabM.handleNavigation p epoch result
  | .rendererEvent frame event => TabM.handleRendererEvent p frame event
  | .rendererLost => TabM.dropRenderer

def step (p : Platform) (w : World me) (op : TabOp) : World me := ((perform p op).run w).2

def run (p : Platform) (w : World me) (ops : List TabOp) : World me := ops.foldl (step p) w

/-- A new tab: a virtual blank document under the name the table holds. -/
def new (tabs : TabRegistry) (documentOrigin : Origin) (popupSandbox : SandboxFlags)
    (secureContext : Option Bool) (script : List (Turn me)) : World me where
  tab :=
    { renderer := false
      pendingMount := some (TabM.blankMount
        { id := some me, name := tabs.name me, auxiliaryWithOpener := (tabs.opener me).isSome,
          popupSandbox, secureContext })
      documentOrigin
      popupSandbox
      site := none
      documentUrl := TabM.aboutBlank
      history := SessionHistory.new TabM.aboutBlank (tabs.name me)
      traversal := none
      documentLoaded := false
      navigationFailed := false
      nav := none
      navEpoch := 0 }
  tabs
  script
  past := []
  mounts := []
  requests := []
  emitted := []

end World

end TinyBrowser
