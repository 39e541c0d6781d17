import TinyBrowser.Exchange.Basic
import TinyBrowser.Renderer.Streams
import TinyBrowser.Tabs.Browser

/-!
# Service calls

`route_service_call` of `crates/browser/src/link.rs`: what the browser does for a call of a renderer
process. A call names an assignment, and whatever else it claims (origins, URLs, window ids) comes
from the process. `Routed` is the answer together with the tables after the call and the acts it led
to; an act carries the authority it is done with. The worker of a dial goes on in `DialWorker`.
-/

namespace TinyBrowser
open Lib

/-! ### Calls and replies -/

/-- The calling document of a `window.open`. -/
structure NavigationSource where
  origin : SerializedOrigin
  referrer : Url
  referrerPolicy : ReferrerPolicy
  frame : FrameId
  secureContext : Bool

structure PostedMessage where
  origin : SerializedOrigin
  targetOrigin : TargetOrigin
  payload : Text

inductive StorageKind where
  | local
  | session
deriving DecidableEq, Repr

inductive NetworkCall where
  | dial (request : DialRequest) (initiator : SerializedOrigin) (frame : Option FrameId)
  | cancelDial (id : Exchange.RequestId)
  | dialRead (id : StreamId)
  | cancelStream (id : StreamId)
  | cookieGet (url : Text)
  | cookieSet (value url : Text)

inductive StorageCall where
  | get (kind : StorageKind) (origin : SerializedOrigin) (key : Text)
  | keys (kind : StorageKind) (origin : SerializedOrigin)
  | set (kind : StorageKind) (origin : SerializedOrigin) (url key value : Text) (source : FrameId)
  | remove (kind : StorageKind) (origin : SerializedOrigin) (url key : Text) (source : FrameId)
  | clear (kind : StorageKind) (origin : SerializedOrigin) (url : Text) (source : FrameId)

inductive BrowsingContextCall where
  | windowOpen (url : Option Url) (target : TargetName) (opener : OpenerPolicy)
      (source : NavigationSource)
  | windowName (change : NameChange)
  | navigateNamed (name : ContextName) (url : Option Url) (opener : OpenerPolicy)
      (source : NavigationSource)
  | frameCreated (frame parent : FrameId) (kind : FrameKind) (sandbox : SandboxFlags)
  | frameDestroyed (frame : FrameId)
  | windowClose (window : TabId)
  | opener
  | windowMessage (window : TabId) (message : PostedMessage)
  | remoteSessionGet (window : TabId) (origin : SerializedOrigin) (key : Text)

inductive MessagingCall where
  | broadcastPost (origin : SerializedOrigin) (name payload : Text) (channel : Nat)

inductive ServiceCall where
  | network (call : NetworkCall)
  | storage (call : StorageCall)
  | browsingContext (call : BrowsingContextCall)
  | messaging (call : MessagingCall)

inductive ServiceReply where
  | dial (result : Except DialFailure DialOutcome)
  | streamChunk (result : Except DialFailure (Option Bytes))
  | cookie (text : Text)
  | storageValue (value : Option Text)
  | storageKeys (keys : List Text)
  | storageChanged (result : Except StorageError (Option StorageChange))
  | window (window : Option TabId)
  | unit

namespace ServiceReply

/-- The empty answer to a call. -/
def benign : ServiceCall → ServiceReply
  | .network (.dial ..) => .dial (.error .connect)
  | .network (.dialRead _) => .streamChunk (.error .connect)
  | .network (.cookieGet _) => .cookie []
  | .network (.cancelDial _) | .network (.cancelStream _) | .network (.cookieSet ..)
  | .messaging (.broadcastPost ..) | .browsingContext (.windowClose _)
  | .browsingContext (.windowMessage ..) | .browsingContext (.windowName _)
  | .browsingContext (.frameCreated ..) | .browsingContext (.frameDestroyed _) => .unit
  | .storage (.get ..) | .browsingContext (.remoteSessionGet ..) => .storageValue none
  | .storage (.keys ..) => .storageKeys []
  | .storage (.set ..) | .storage (.remove ..) | .storage (.clear ..) => .storageChanged (.ok none)
  | .browsingContext (.windowOpen ..) | .browsingContext (.navigateNamed ..)
  | .browsingContext .opener => .window none

/-- The answer of `send_released_reply`. -/
def released : ServiceCall → ServiceReply
  | .network (.dial ..) => .dial (.error .cancelled)
  | call => benign call

end ServiceReply

/-! ### Acts -/

/-- The document that a navigation starts from. -/
structure NavigationInitiator where
  origin : Origin
  referrer : Option Url
  referrerPolicy : ReferrerPolicy
  secureContext : Bool

structure BroadcastMessage where
  origin : StorageKey
  name : Text
  payload : Text
  source : RendererAssignmentId × Nat

structure StorageBroadcast where
  origin : StorageKey
  kind : StorageKind
  key : Option Text
  oldValue : Option Text
  newValue : Option Text
  url : Text
  source : RendererAssignmentId × FrameId

inductive ContextEvent where
  | storage (event : StorageBroadcast)
  | broadcast (message : BroadcastMessage)

/-- What the browser does for a call beyond reading the tab table. -/
inductive ServiceAct where
  | dial (call : Call) (frame : Option FrameId)
  | cancelDial (owner : RendererAssignmentId) (id : Exchange.RequestId)
  | readStream (owner : RendererAssignmentId) (id : StreamId)
  | cancelStream (owner : RendererAssignmentId) (id : StreamId)
  | cookiesFor (url : Url)
  | setCookie (value : Text) (url : Url)
  | localStorage (origin : StorageKey)
  | sessionStorage (tab : TabId) (origin : StorageKey)
  | broadcast (event : ContextEvent)
  | openWindow (request : OpenWindowOptions) (url : Option Url) (initiator : NavigationInitiator)
  | navigate (tab : TabId) (url : Url) (initiator : NavigationInitiator)
  | rename (tab : TabId)
  | registerFrame (tab : TabId) (frame : FrameId)
  | removeFrame (tab : TabId) (frame : FrameId)
  | closeTab (tab : TabId)
  | deliver (tab : TabId) (message : PostedMessage)

/-! ### Targets -/

namespace TargetName

def keyword (raw : Text) : Option TargetName :=
  if Text.eqIgnoreAsciiCase raw "_self".toList then some .current
  else if Text.eqIgnoreAsciiCase raw "_parent".toList then some .parent
  else if Text.eqIgnoreAsciiCase raw "_top".toList then some .top
  else if Text.eqIgnoreAsciiCase raw "_blank".toList then some .blank
  else none

theorem keyword_eq_none {raw : Text} (h : keyword raw = none) : isTargetKeyword raw = false := by
  unfold keyword at h
  split_ifs at h
  simp_all [isTargetKeyword]

def parse (raw : Text) : TargetName :=
  if hempty : raw = [] then .current
  else match hkeyword : keyword raw with
    | some target => target
    | none => .named ⟨raw, hempty, keyword_eq_none hkeyword⟩

/-- Whether the value is what its own name parses to. -/
def isCanonical : TargetName → Bool
  | .named name => parse name.text = .named name
  | .current | .parent | .top | .blank => true

end TargetName

/-! ### The tables and the answers from outside -/

structure ActiveDial where
  assignment : RendererAssignmentId
  cancelled : Bool
deriving DecidableEq

/-- The tables that the service task of one process works on. -/
structure ServiceContext where
  renderer : RendererId
  assignments : Assignments
  tabs : TabRegistry
  openerFrames : Dict TabId FrameId
  scriptCreated : List TabId
  localStorage : LocalStorage
  sessions : SessionStorage
  dials : Dict Exchange.RequestId ActiveDial

/-- What a call gets from outside: the number of a new opaque origin, the cookies of the jar, the next
message of a body stream, the tab that a `window.open` created, which tabs the browser task finds,
and the length of their history. -/
structure ServiceWorld where
  opaqueId : Nat
  cookies : Url → Text
  chunk : Except DialFailure (Option Bytes)
  opened : Option TabId
  hasTab : TabId → Bool
  historyLength : TabId → Option Nat

/-- `none` as a reply says that the answer comes later. -/
structure Routed where
  result : Option (Option ServiceReply)
  context : ServiceContext
  acts : List ServiceAct

namespace Routed

/-- `Err(RendererViolation)`. -/
def violation (context : ServiceContext) : Routed := ⟨none, context, []⟩

def reply (context : ServiceContext) (reply : ServiceReply) : Routed := ⟨some (some reply), context, []⟩

def acting (context : ServiceContext) (acts : List ServiceAct) (reply : ServiceReply) : Routed :=
  ⟨some (some reply), context, acts⟩

end Routed

/-! ### Network and messaging -/

/-- The origin that a dial or a `window.open` runs under: the claimed one, when the lock authorizes
it, or a new opaque one. -/
def claimedOrigin (x : Crates) (lock : Site) (claim : SerializedOrigin) (opaqueId : Nat) :
    Option Origin :=
  match lock.authorizeOrigin x claim with
  | some origin => some origin
  | none => if claim = .opaqueOrigin then some (.opaqueOrigin opaqueId) else none

section Routes
variable (x : Crates) (world : ServiceWorld) (context : ServiceContext) (request : Exchange.RequestId)
  (assignmentId : RendererAssignmentId) (assignment : Assignment)

def routeNetworkCall : NetworkCall → Routed
  | .dial dialed claim frame =>
    match claimedOrigin x assignment.site claim world.opaqueId with
    | none => .violation context
    | some initiator =>
      { result := some none
        context := { context with dials := context.dials.insert request ⟨assignmentId, false⟩ }
        acts := [.dial ⟨assignment.tab, dialed, initiator, assignmentId⟩ frame] }
  | .dialRead stream => .acting context [.readStream assignmentId stream] (.streamChunk world.chunk)
  | .cancelStream stream => .acting context [.cancelStream assignmentId stream] .unit
  | .cancelDial target => match context.dials.get? target with
    | none => .reply context .unit
    | some dial =>
      if dial.assignment ≠ assignmentId then .violation context
      else
        let dials := context.dials.insert target { dial with cancelled := true }
        .acting { context with dials := dials } [.cancelDial assignmentId target] .unit
  | .cookieGet url => match assignment.site.authorizeUrl x url with
    | none => .violation context
    | some url => .acting context [.cookiesFor url] (.cookie (world.cookies url))
  | .cookieSet value url => match assignment.site.authorizeUrl x url with
    | none => .violation context
    | some url => .acting context [.setCookie value url] .unit

def routeMessagingCall : MessagingCall → Routed
  | .broadcastPost origin name payload channel => match assignment.site.storageKey x origin with
    | none => .violation context
    | some origin =>
      .acting context [.broadcast (.broadcast ⟨origin, name, payload, (assignmentId, channel)⟩)] .unit

/-! ### Storage -/

/-- `authorize` with a URL. -/
def authorizesUrl (url : Text) : Bool := (assignment.site.authorizeUrl x url).isSome

/-- The act on one storage area. -/
def storageAct (kind : StorageKind) (origin : StorageKey) : ServiceAct :=
  match kind with
  | .local => .localStorage origin
  | .session => .sessionStorage assignment.tab origin

/-- Only changes of local storage are told to other documents. -/
def publish (source : FrameId) (kind : StorageKind) (origin : StorageKey) (url : Text) :
    Option StorageChange → List ServiceAct
  | none => []
  | some change =>
    if kind = .local then
      [.broadcast (.storage ⟨origin, .local, change.key, change.oldValue, change.newValue, url,
        (assignmentId, source)⟩)]
    else []

/-- A call that changes an area: `change` is what it does to each kind of storage. -/
def routeStorageChange (kind : StorageKind) (claim : SerializedOrigin) (url : Text) (source : FrameId)
    (onLocal : StorageKey → Except StorageError (Option StorageChange) × LocalStorage)
    (onSession : StorageKey → Except StorageError (Option StorageChange) × SessionStorage) : Routed :=
  match assignment.site.storageKey x claim with
  | none => .violation context
  | some origin =>
    if !authorizesUrl x assignment url then .violation context
    else
      let (change, context) := match kind with
        | .local =>
          let (change, storage) := onLocal origin
          (change, { context with localStorage := storage })
        | .session =>
          let (change, sessions) := onSession origin
          (change, { context with sessions := sessions })
      .acting context (storageAct assignment kind origin ::
        publish assignmentId source kind origin url change.toOption.join)
        (.storageChanged change)

def routeStorageCall : StorageCall → Routed
  | .get kind claim key => match assignment.site.storageKey x claim with
    | none => .violation context
    | some origin => .acting context [storageAct assignment kind origin] (.storageValue (match kind with
      | .local => context.localStorage.get origin key
      | .session => context.sessions.get assignment.tab origin key))
  | .keys kind claim => match assignment.site.storageKey x claim with
    | none => .violation context
    | some origin => .acting context [storageAct assignment kind origin] (.storageKeys (match kind with
      | .local => context.localStorage.keys origin
      | .session => context.sessions.keys assignment.tab origin))
  | .set kind claim url key value source =>
    routeStorageChange x context assignmentId assignment kind claim url source
      (fun origin => context.localStorage.set origin key value)
      (fun origin => context.sessions.set assignment.tab origin key value)
  | .remove kind claim url key source =>
    routeStorageChange x context assignmentId assignment kind claim url source
      (fun origin => (context.localStorage.remove origin key).map .ok id)
      (fun origin => (context.sessions.remove assignment.tab origin key).map .ok id)
  | .clear kind claim url source =>
    routeStorageChange x context assignmentId assignment kind claim url source
      (fun origin => (context.localStorage.clear origin).map .ok id)
      (fun origin => (context.sessions.clear assignment.tab origin).map .ok id)

/-! ### Windows -/

def navigablePopupUrl (url : Url) : Bool :=
  url.scheme = "about".toList || url.scheme = "http".toList || url.scheme = "https".toList

/-- `message_related`: itself, its opener, or a tab it opened. -/
def messageRelated (target : TabId) : Bool :=
  target = assignment.tab || context.tabs.opener target = some assignment.tab ||
    context.tabs.opener assignment.tab = some target

/-- A referrer that is not the claimed document's own is dropped. -/
def windowInitiator (source : NavigationSource) (opener : OpenerPolicy) :
    Option NavigationInitiator :=
  (claimedOrigin x assignment.site source.origin world.opaqueId).map fun origin =>
    { origin := origin
      referrer := if assignment.site.allowsUrl x source.referrer && source.referrer.origin = origin
        then some source.referrer else none
      referrerPolicy := if opener = .noReferrer then .noReferrer else source.referrerPolicy
      secureContext := source.secureContext }

/-- `WindowRouter::open`. -/
def windowOpen (url : Option Url) (target : TargetName) (opener : OpenerPolicy)
    (source : NavigationSource) : Routed :=
  if target = .current || target = .parent || target = .top || !target.isCanonical then
    .violation context
  else match context.tabs.frameSandbox assignment.tab source.frame with
    | none => .violation context
    | some active =>
      if active.contains .auxiliaryNavigation then .violation context
      else if url.any (!navigablePopupUrl ·) then .reply context (.window none)
      else match windowInitiator x world assignment source opener with
        | none => .violation context
        | some initiator =>
          .acting context [.openWindow ⟨target, some assignment.tab, source.frame, opener,
            active.auxiliaryFlags⟩ url initiator] (.window world.opened)

/-- `WindowRouter::navigate`. A refused navigation still selects the tab. -/
def windowNavigate (name : ContextName) (url : Option Url) (opener : OpenerPolicy)
    (source : NavigationSource) : Routed :=
  match context.tabs.findByName assignment.tab name with
  | none => .reply context (.window none)
  | some target => match url.filter navigablePopupUrl with
    | none => .reply context (.window (some target))
    | some url => match context.tabs.frameSandbox assignment.tab source.frame with
      | none => .violation context
      | some active =>
        let createdByCaller := context.tabs.opener target = some assignment.tab &&
          context.openerFrames.get? target = some source.frame
        if target ≠ assignment.tab && active.contains .navigation && !createdByCaller then
          .reply context (.window (some target))
        else match windowInitiator x world assignment source opener with
          | none => .violation context
          | some initiator =>
            .acting context (if world.hasTab target then [.navigate target url initiator] else [])
              (.window (some target))

/-- What the task of `spawn_window_close` does. -/
def windowClose (target : TabId) : List ServiceAct :=
  if target ≠ assignment.tab && context.tabs.opener target ≠ some assignment.tab then []
  else if target ∈ context.scriptCreated || world.historyLength target = some 1 then
    [.closeTab target]
  else []

def routeWindowCall : BrowsingContextCall → Routed
  | .windowOpen url target opener source =>
    windowOpen x world context assignment url target opener source
  | .windowName change =>
    .acting { context with tabs := context.tabs.rename assignment.tab change } [.rename assignment.tab]
      .unit
  | .navigateNamed name url opener source =>
    windowNavigate x world context assignment name url opener source
  | .frameCreated frame parent kind sandbox =>
    let (accepted, tabs) := context.tabs.registerFrame assignment.tab frame parent kind sandbox
    if accepted then
      .acting { context with tabs := tabs } [.registerFrame assignment.tab frame] .unit
    else .violation context
  | .frameDestroyed frame =>
    let (accepted, tabs) := context.tabs.removeFrame assignment.tab frame
    if accepted then .acting { context with tabs := tabs } [.removeFrame assignment.tab frame] .unit
    else .violation context
  | .windowClose target =>
    .acting context (windowClose world context assignment target) .unit
  | .opener => .reply context (.window (context.tabs.opener assignment.tab))
  | .windowMessage target message =>
    if !assignment.site.allowsMessageOrigin x message.origin then .violation context
    else
      .acting context (if messageRelated context assignment target then [.deliver target message]
        else []) .unit
  | .remoteSessionGet target claim key => match assignment.site.storageKey x claim with
    | none => .violation context
    | some origin =>
      if messageRelated context assignment target then
        .acting context [.sessionStorage target origin]
          (.storageValue (context.sessions.get target origin key))
      else .reply context (.storageValue none)

/-! ### The dispatch -/

/-- A call that was admitted. -/
def routeAdmitted : ServiceCall → Routed
  | .network call => routeNetworkCall x world context request assignmentId assignment call
  | .messaging call => routeMessagingCall x context assignmentId assignment call
  | .storage call => routeStorageCall x context assignmentId assignment call
  | .browsingContext call => routeWindowCall x world context assignment call

end Routes

/-- A call of the process for one of its assignments. -/
def routeServiceCall (x : Crates) (world : ServiceWorld) (context : ServiceContext)
    (request : Exchange.RequestId) (assignmentId : RendererAssignmentId) (call : ServiceCall) : Routed :=
  let (answer, assignments) := liveAssignment context.assignments context.renderer assignmentId
  let context := { context with assignments := assignments }
  match answer with
  | .violation => .violation context
  | .stale => .reply context (.released call)
  | .admitted assignment => routeAdmitted x world context request assignmentId assignment call

end TinyBrowser
