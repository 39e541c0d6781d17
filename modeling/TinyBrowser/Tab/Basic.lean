import TinyBrowser.History.Basic
import TinyBrowser.Renderer.Site
import TinyBrowser.Tabs.Interleave

/-!
# The tab coordinator

A `Tab` is the state one coordinator task owns; the table of tabs is shared. The coordinator runs in
`TabM`, over a `World` whose `script` says what happens around it: before each access to the table
and at each wait, one `Turn` gives the events of the other tasks and the answer that arrives. A
script that has run out stands for a connection that is gone. The world also keeps what happened:
the events of other tasks with the begin and abort of commits between them, the documents and
requests sent to the renderer, the latter with their results, and the tab events that were sent.
-/

namespace TinyBrowser
open Lib

/-! ### Values -/

inductive TabError where
  | invalidUrl (spec : Text)
  | unknownFrame (frame : FrameId)
  | unknownHistoryEntry (entry : EntryId)
  | script (message : Text)
  | actorStopped
  | rendererUnavailable (message : Text)
  | resourceLimit
  | render (message : Text)
  | dom (message : Text)
deriving DecidableEq, Repr

inductive RemoteValue where
  | string (s : Text)
  | other
deriving DecidableEq, Repr

/-- The answers of a renderer that the coordinator looks into. -/
inductive Reply where
  | unit (result : Except TabError Unit)
  | value (result : Except TabError RemoteValue)
  | other

def replyUnit : Reply → Except TabError Unit
  | .unit result => result
  | _ => .error .actorStopped

def replyValue : Reply → Except TabError RemoteValue
  | .value result => result
  | _ => .error .actorStopped

/-- The browsing-context state a mount carries. -/
structure TabState where
  id : Option TabId
  name : Option ContextName
  auxiliaryWithOpener : Bool
  popupSandbox : SandboxFlags
  secureContext : Option Bool
deriving DecidableEq

structure Mount where
  url : Url
  history : RendererHistorySnapshot
  tab : TabState
deriving DecidableEq

/-- A response body as it is read: chunks of some length, then the end or a failure. -/
inductive Body where
  | chunk (len : Nat) (rest : Body)
  | finished
  | failed (message : Text)

/-- A completed dial: the final URL, the CSP flags of the response and its body. -/
structure NavOutcome where
  url : Url
  csp : SandboxFlags
  body : Body

inductive ScriptSource where
  | page (source : Text)
  | browser (source : Text)
deriving DecidableEq, Repr

/-- Requests on behalf of a client, which the coordinator only passes on. -/
inductive ClientCommand where
  | execute (frame : FrameId) (source : ScriptSource)
  | contentSize (frame : FrameId)
  | dom (frame : FrameId)
  | screenshot (frame : FrameId)
  | setViewport (frame : FrameId) (width height : Nat)
  | addInitScript (source : Text)
  | removeInitScript (id : Nat)
  | waitForJs (id : Nat) (frame : FrameId) (source : ScriptSource)
  | cancelWait (id : Nat)
  | windowMessage
deriving DecidableEq, Repr

inductive RendererCommand where
  | executeScript (frame : FrameId) (source : ScriptSource) (timeoutMs : Option Nat)
  | setHistory (frame : FrameId) (history : RendererHistorySnapshot)
  | historyTraverse (url : Text) (history : RendererHistorySnapshot)
  | historyTraverseFrame (frame : FrameId) (index : Nat) (url : Text)
      (history : RendererHistorySnapshot) (sameDocument reload : Bool)
  | client (command : ClientCommand)
deriving DecidableEq, Repr

inductive BrowserEvent where
  | load
  | domContentLoaded
  | navigated (url : Text) (outgoingName : Option ContextName)
  | navigationStarted (url : Text) (replace : Bool) (localIndex : Nat) (pending : Bool)
  | frameAdded (url : Text)
  | frameRemoved
  | historyUpdated (url state : Text) (handling : HistoryHandling)
  | historyTraversal (delta : Int)

inductive TabEvent where
  | navigated
  | sameDocumentNavigation
  | load
  | domContentLoaded
  | navigationFailed
deriving DecidableEq, Repr

structure ActiveNavigation where
  url : Url
  epoch : Nat
  submitted : Bool
deriving DecidableEq, Repr

structure Tab where
  /-- Whether the tab holds a renderer. -/
  renderer : Bool
  pendingMount : Option Mount
  documentOrigin : Origin
  popupSandbox : SandboxFlags
  site : Option Site
  documentUrl : Url
  history : SessionHistory
  traversal : Option EntryId
  documentLoaded : Bool
  navigationFailed : Bool
  nav : Option ActiveNavigation
  navEpoch : Nat

/-- What lies outside the coordinator: the crates, the decoder of `data:` URLs, and the order in
which the frames of a history are visited. -/
structure Platform where
  crates : Crates
  decodeDataUrl : Text → Option (Text × List UInt8)
  frameOrder : SessionHistory → List FrameId
  frameOrder_perm : ∀ h, (frameOrder h).Perm h.frames.keys

/-- A page over https at the default port. -/
def Url.page (host path : Text) : Url where
  scheme := "https".toList
  host := some (.domain host)
  path := '/' :: path
  origin := .tuple "https".toList (.domain host) 443
  asStr := "https://".toList ++ host ++ '/' :: path

/-- A small instance: the pages of `example.com` and `example.org`, and frames in map order. -/
def Platform.sample : Platform where
  crates := { Crates.sample with
    urlParse := fun s => ["example.com".toList, "example.org".toList].findSome? fun host =>
      let base := (Url.page host []).asStr
      if base.isPrefixOf s then some (Url.page host (s.drop base.length)) else none }
  decodeDataUrl _ := none
  frameOrder h := h.frames.keys
  frameOrder_perm _ := .refl _

/-! ### The world of a coordinator -/

/-- What other tasks do, and the answer that arrives: an error is the one the tab makes of it. -/
structure Turn (me : TabId) where
  events : List (TaskEvent me)
  answer : Except TabError Reply

/-- What bears on the tab's names: an event of another task, or a commit that installs a pair or
takes it back. -/
inductive Moment (me : TabId) where
  | event (event : TaskEvent me)
  | begin (installed : TabNames)
  | abort
deriving DecidableEq

structure World (me : TabId) where
  tab : Tab
  tabs : TabRegistry
  script : List (Turn me)
  past : List (Moment me)
  mounts : List Mount
  requests : List (RendererCommand × Except TabError Reply)
  emitted : List TabEvent

/-- The other tasks take their turn; the answer is the one that arrives meanwhile. -/
def World.turn {me : TabId} (w : World me) : Except TabError Reply × World me :=
  match w.script with
  | [] => (.error .actorStopped, w)
  | turn :: script =>
    (turn.answer, { w with
      script
      tabs := turn.events.foldl TabRegistry.applyEvent w.tabs
      past := w.past ++ turn.events.map .event })

abbrev TabM (me : TabId) := StateM (World me)

namespace TabM
variable {me : TabId} {α : Type}

def nextTurn : TabM me (Except TabError Reply) := modifyGet World.turn

/-- One critical section on the table. -/
def critical (f : TabRegistry → α × TabRegistry) : TabM me α := do
  let _ ← nextTurn
  modifyGet fun w => ((f w.tabs).1, { w with tabs := (f w.tabs).2 })

def reads (f : TabRegistry → α) : TabM me α := critical fun r => (f r, r)

def writes (f : TabRegistry → TabRegistry) : TabM me Unit := critical fun r => ((), f r)

def mark (moment : Moment me) : TabM me Unit := modify fun w => { w with past := w.past ++ [moment] }

def getTab : TabM me Tab := World.tab <$> get

def modifyTab (f : Tab → Tab) : TabM me Unit := modify fun w => { w with tab := f w.tab }

def modifyHistory (f : SessionHistory → SessionHistory) : TabM me Unit :=
  modifyTab fun t => { t with history := f t.history }

def recordEvent (event : TabEvent) : TabM me Unit := do
  let _ ← nextTurn
  modify fun w => { w with emitted := w.emitted ++ [event] }

/-! ### Renderers -/

def dropRenderer : TabM me Unit := do
  modifyTab fun t => { t with site := none }
  writes (·.clearFrames me)
  modifyHistory SessionHistory.clearChildren
  modifyTab fun t => { t with renderer := false }

def ensureRenderer (site : Site) : TabM me (Except TabError Unit) := do
  let t ← getTab
  if t.renderer ∧ t.site = some site then
    return .ok ()
  else
    match ← nextTurn with
    | .error e => return .error e
    | .ok _ =>
      dropRenderer
      modifyTab fun t => { t with site := some site, renderer := true }
      return .ok ()

/-- Drops the renderer when the result is an error. -/
def dropOnError (result : Except TabError α) : TabM me (Except TabError α) := do
  match result with
  | .error e =>
    dropRenderer
    return .error e
  | .ok a => return .ok a

/-- A renderer of `site` is there and waits for the next document. -/
def prepareMount (site : Site) : TabM me (Except TabError Unit) := do
  match ← ensureRenderer site with
  | .error e => return .error e
  | .ok () =>
    modifyTab fun t => { t with pendingMount := none, documentLoaded := false }
    return if (← getTab).renderer then .ok () else .error .actorStopped

/-- Sends a document, or the head of one; the answer is the renderer's. -/
def sendMount (mount : Mount) : TabM me (Except TabError Reply) := do
  modify fun w => { w with mounts := w.mounts ++ [mount] }
  nextTurn

def mount (site : Site) (mount : Mount) : TabM me (Except TabError Unit) := do
  match ← prepareMount site with
  | .error e => return .error e
  | .ok () =>
    let result ← sendMount mount
    dropOnError (result.bind replyUnit)

def maxResponseBodyBytes : Nat := 8 * 1024 * 1024

def maxBodyChunkBytes : Nat := 64 * 1024

/-- Writes the pieces of a chunk to the renderer's stream. -/
def writePieces : Nat → TabM me (Except TabError Unit)
  | 0 => return .ok ()
  | n + 1 => do
    match ← nextTurn with
    | .error e => return .error e
    | .ok _ => writePieces n

def bodyLimitMessage (received : Nat) : Text :=
  "navigation body exceeds ".toList ++ (toString maxResponseBodyBytes).toList ++ " bytes (".toList ++
    (toString received).toList ++ " received)".toList

/-- Streams the body to the renderer, with `received` bytes read so far. -/
def streamBody : Body → Nat → TabM me (Except TabError Unit)
  | .chunk len rest, received => do
    let _ ← nextTurn
    let received := received + len
    if maxResponseBodyBytes < received then
      let _ ← nextTurn
      dropOnError (.error (.rendererUnavailable (bodyLimitMessage received)))
    else
      match ← writePieces ((len + maxBodyChunkBytes - 1) / maxBodyChunkBytes) with
      | .error e => dropOnError (.error e)
      | .ok () => streamBody rest received
  | .finished, _ => do
    let _ ← nextTurn
    let result ← nextTurn
    dropOnError (result.bind replyUnit)
  | .failed message, _ => do
    let _ ← nextTurn
    let _ ← nextTurn
    dropOnError (.error (.rendererUnavailable message))

/-- Mounts a response while its body arrives. A renderer that refuses the head is kept. -/
def mountStream (site : Site) (mount : Mount) (body : Body) : TabM me (Except TabError Unit) := do
  match ← prepareMount site with
  | .error e => return .error e
  | .ok () =>
    match ← sendMount mount with
    | .error e => return .error e
    | .ok _ => streamBody body 0

/-! ### Browsing-context state -/

variable (p : Platform)

/-- The site a document at `url` runs in. -/
def siteOf (x : Crates) (me : TabId) (url : Url) : Site := (Site.forUrl x url).getD (.opaqueTab me)

def auxiliaryWithOpener : TabM me Bool := do
  match ← reads (·.opener me) with
  | none => return false
  | some opener => reads (decide <| opener ∈ ·.tabs)

/-- The state a mount carries when no document is committed. -/
def currentTabState : TabM me TabState := do
  let name ← reads (·.name me)
  let auxiliaryWithOpener ← auxiliaryWithOpener
  return { id := some me, name, auxiliaryWithOpener, popupSandbox := (← getTab).popupSandbox,
           secureContext := none }

/-- `url.origin() == origin`. A URL without a tuple origin has a fresh one each time. -/
def hasOrigin (url : Url) (origin : Origin) : Bool :=
  match url.origin with
  | .opaqueOrigin _ => false
  | .tuple scheme host port => origin = .tuple scheme host port

/-- Whether a commit at `url` keeps the tab's target name. -/
def keepsTargetNameAt (url : Url) : TabM me Bool := do
  let auxiliary ← auxiliaryWithOpener
  if auxiliary ∨ url.scheme = "about".toList then
    return true
  else
    let active ← reads (·.frameSandbox me FrameId.main)
    let t ← getTab
    return !(active.getD t.popupSandbox).originIsOpaque && hasOrigin url t.documentOrigin

def tabStateAt (url : Url) : TabM me TabState := do
  let state ← currentTabState
  return if ← keepsTargetNameAt url then state else { state with name := none }

/-- The state a commit of `url` installs; a traversal takes the name stored with its entry. -/
def commitState (url : Url) : TabM me TabState := do
  let t ← getTab
  match t.traversal with
  | some entry => return { ← currentTabState with name := t.history.name entry }
  | none => tabStateAt url

def advanceDocumentUrl (url : Url) : TabM me Unit := modifyTab fun t =>
  { t with
    documentOrigin := if url.scheme = "about".toList then t.documentOrigin else url.origin
    documentUrl := url }

/-- The document's name moves to the entry that is about to be left. -/
def syncOutgoingName : TabM me Unit := do
  let name ← reads (·.documentName me)
  modifyHistory (·.syncCurrentName name)

/-- The commit a navigation makes: a traversal commits the entry it selected. -/
def commitOf (tab : Tab) (url : Url) (state : TabState) : Commit :=
  match tab.traversal with
  | some entry => .traverse entry url
  | none => .push url state.name

/-- Takes the traversal for the commit. -/
def historyCommit (url : Url) (state : TabState) : TabM me Commit := do
  let t ← getTab
  modifyTab fun t => { t with traversal := none }
  return commitOf t url state

/-- What a commit replaced in the table of names. -/
structure CommitNames where
  previous : Option TabNames
  installed : TabNames

def beginCommit (state : TabState) : TabM me CommitNames := do
  let previous ← critical (·.installCommit me state.name)
  mark (.begin (.fromName state.name))
  return ⟨previous, .fromName state.name⟩

def abortCommit (names : CommitNames) : TabM me Unit := do
  writes (·.restoreCommit me names.previous names.installed)
  mark .abort

/-! ### Requests -/

def aboutBlank : Url where
  scheme := "about".toList
  host := none
  path := "blank".toList
  origin := .opaqueOrigin 0
  asStr := "about:blank".toList

def blankMount (tab : TabState) : Mount := ⟨aboutBlank, ⟨0, 0, 0, 0, none⟩, tab⟩

/-- The document a tab without a renderer carries. -/
def virtualDocument : Option Mount → TabM me Mount
  | some document => return document
  | none => blankMount <$> currentTabState

def mountVirtual : TabM me (Except TabError Unit) := do
  let t ← getTab
  modifyTab fun t => { t with pendingMount := none }
  let document ← virtualDocument t.pendingMount
  mount (((Site.forUrl p.crates t.documentUrl).or t.site).getD (.opaqueTab me)) document

def ensureMounted : TabM me (Except TabError Unit) := do
  if (← getTab).renderer then return .ok () else mountVirtual p

/-- A renderer is there: the tab's own, or one with the virtual document. -/
def requireRenderer : TabM me (Except TabError Unit) := do
  match ← ensureMounted p with
  | .error e => return .error e
  | .ok () => return if (← getTab).renderer then .ok () else .error .actorStopped

def requestAnswer : Except TabError Unit → TabM me (Except TabError Reply)
  | .error e => return .error e
  | .ok () => do dropOnError (← nextTurn)

def rendererRequest (command : RendererCommand) : TabM me (Except TabError Reply) := do
  let mounted ← requireRenderer p
  let result ← requestAnswer mounted
  modify fun w => { w with requests := w.requests ++ [(command, result)] }
  return result

def executeScript (frame : FrameId) (source : ScriptSource) (timeoutMs : Option Nat) :
    TabM me (Except TabError RemoteValue) := do
  let result ← rendererRequest p (.executeScript frame source timeoutMs)
  return result.bind replyValue

def documentTitle : TabM me Text := do
  if (← getTab).renderer then
    match ← executeScript p FrameId.main (.browser "String(document.title)".toList) none with
    | .ok (.string title) => return title
    | _ => return []
  else
    return []

/-- The readiness and URL of the renderer's document. -/
def rendererDocumentState : TabM me (Option (Text × Text)) := do
  if (← getTab).renderer then
    let result ← rendererRequest p (.executeScript FrameId.main
      (.page "document.readyState + '\\n' + document.URL".toList) (some 1000))
    return match result with
      | .ok (.value (.ok (.string state))) => Text.splitOnce '\n' state
      | _ => none
  else
    return none

/-- Republishes every frame's position after the list moved. -/
def syncHistories : TabM me Unit := do
  let t ← getTab
  if t.renderer then
    let snapshots := (p.frameOrder t.history).filterMap fun frame =>
      (t.history.rendererSnapshotFor frame).map (frame, ·)
    snapshots.forM fun (frame, history) => do
      let _ ← rendererRequest p (.setHistory frame history)
  else
    return ()

end TabM

end TinyBrowser
