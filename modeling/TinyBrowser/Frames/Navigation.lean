import TinyBrowser.History.Payload
import TinyBrowser.Tab.Basic

/-!
# Navigating child frames

`crates/renderer/src/engine.rs`: `apply_navigations` and `adopt_pending_frames` navigate a frame
(`navigate_frame`, which dispatches on the scheme) and then record the navigation in the frame's
replay store. Of a `Document` the model has what these functions read and write
(`crates/renderer/src/document/mod.rs`).
-/

namespace TinyBrowser.Frames
open Lib

abbrev ContainerId := Nat

inductive NavigationTarget where
  | container (container : ContainerId)
  | frame (frame : FrameId)
  | target (name : Text)
deriving DecidableEq

inductive NavigationReferrer where
  | client (policy : Option Text)
  | noReferrer
deriving DecidableEq

structure FrameNavigation where
  target : NavigationTarget
  spec : Text
  srcdoc : Option Text
  method : Text
  body : Bytes
  contentType : Option Text
  referrer : NavigationReferrer
  sandbox : SandboxFlags
  source : Option FrameId
deriving DecidableEq

def FrameNavigation.get (target : NavigationTarget) (spec : Text) : FrameNavigation :=
  ⟨target, spec, none, "GET".toList, [], none, .client none, .empty, none⟩

/-- An `iframe` without a URL to load. -/
def FrameNavigation.isBlank (navigation : FrameNavigation) : Bool :=
  navigation.spec = [] && match navigation.target with
    | .container _ => true
    | _ => false

/-- The request of an HTTP frame load. -/
structure FrameLoad where
  embedder : Option FrameId
  url : Url
  origin : Origin
  method : Text
  body : Bytes
  contentType : Option Text
  ancestors : List Url
  sandbox : SandboxFlags
deriving DecidableEq

/-- What the engine uses of a frame's `Document`. -/
structure Page (Policy : Type) where
  /-- How many documents the frame had before this one: `begin_document` counts them. -/
  document : Nat
  url : Url
  baseUrl : Option Url
  referrer : Option Url
  referrerUrl : Url
  origin : Origin
  policy : Policy
  sandbox : SandboxFlags
  userActivated : Bool
  initialBlank : Bool
  /-- The frame loads this document has queued, the cancelled ones included. -/
  frameLoads : List FrameLoad

structure LocalDocumentState (Policy : Type) where
  url : Url
  baseUrl : Option Url
  referrer : Option Url
  referrerUrl : Url
  origin : Origin
  policy : Policy
  sandbox : SandboxFlags

def Page.localDocumentState {Policy : Type} (page : Page Policy) : LocalDocumentState Policy :=
  ⟨page.url, page.baseUrl, page.referrer, page.referrerUrl, page.origin, page.policy, page.sandbox⟩

/-- The frame tree, as far as it is asked. -/
structure FrameTree where
  frameForContainer : ContainerId → Option FrameId
  container : FrameId → Option ContainerId
  parent : FrameId → Option FrameId
  contains : FrameId → Bool
  chooseNavigable : Text → FrameId → Option FrameId
  isInclusiveDescendant : FrameId → FrameId → Bool
  auxiliaryOpener : FrameId → Option FrameId
  topLevel : FrameId → FrameId
  popupSandbox : FrameId → SandboxFlags

/-- The documents of the engine and what they share: all that a script can change. -/
structure Pages (Policy Runtime : Type) where
  frames : Dict FrameId (Page Policy)
  tree : FrameTree
  runtime : Runtime

/-- What surrounds the engine's navigation: the crates, the policy checks, what a page reads of its
tree, and what scripts do. -/
structure Surroundings (Policy Runtime Violation : Type) where
  crates : Crates
  withoutFragment : Url → Url
  percentDecode : Text → Text
  decodeDataUrl : Text → Option (Text × Bytes)
  noPolicy : Policy
  blank : Url
  srcdocUrl : Url
  /-- `check_request` for a frame. -/
  checkFrame : Page Policy → Url → List Violation
  /-- `navigation_script_violations`. -/
  checkScript : Policy → Url → Text → List Violation
  blocks : List Violation → Bool
  newOpaque : Runtime → Origin
  /-- `base_url`, which reads the document's `base` element. -/
  base : Runtime → FrameId → Page Policy → Url
  frameSrc : Runtime → FrameId → ContainerId → Option Text
  frameSrcdoc : Runtime → FrameId → ContainerId → Option Text
  frameReferrerPolicy : Runtime → FrameId → ContainerId → Option Text
  sandboxingFlags : Runtime → Page Policy → ContainerId → SandboxFlags
  /-- The contents, the type and the creator of an object URL that a document of an origin may use. -/
  objectUrl : Runtime → Origin → Text → Option (Bytes × Option Text × Origin)
  /-- `local_frame_referrer`. -/
  localReferrer : Option (Page Policy) → FrameNavigation → Url → Option Url
  /-- Runs a script in a frame: its result as a string, none when it throws. -/
  eval : FrameId → Text → Pages Policy Runtime → Option Text × Pages Policy Runtime
  /-- Dispatches violation events in a frame, at the container or the document. -/
  fireViolations : FrameId → List Violation → Pages Policy Runtime → Pages Policy Runtime
  /-- Parses the document that a frame was just given, with the scripts in it. -/
  parse : FrameId → Text → Pages Policy Runtime → Pages Policy Runtime
  /-- The text of a response body. -/
  decode : Option Text → Bytes → Text

variable {Policy Runtime Violation : Type} (x : Surroundings Policy Runtime Violation)

/-! ### Documents -/

namespace Pages
variable (s : Pages Policy Runtime)

def modify (frame : FrameId) (f : Page Policy → Page Policy) : Pages Policy Runtime :=
  { s with frames := s.frames.modify frame f }

/-- `resolve_frame_url`. -/
def resolveFrameUrl (frame : FrameId) (page : Page Policy) (spec : Text) : Option Url :=
  (x.crates.urlParse spec).orElse fun _ => x.crates.urlJoin (x.base s.runtime frame page) spec

/-- A URL in the terms of the initiator's document. -/
def resolve (initiator : FrameId) (spec : Text) : Option Url :=
  (s.frames.get? initiator).bind fun page => s.resolveFrameUrl x initiator page spec

def sandboxedOrigin (page : Page Policy) (origin : Option Origin) : Option Origin :=
  if page.sandbox.originIsOpaque then some (x.newOpaque s.runtime) else origin

/-- `load_html`: a new document, which is then parsed. -/
def loadHtml (frame : FrameId) (input : Text) : Pages Policy Runtime :=
  if s.frames.contains frame then
    x.parse frame input (s.modify frame fun page =>
      { page with document := page.document + 1, frameLoads := [] })
  else s

/-- `commit_document_url`. -/
def commitUrl (url : Url) (origin : Option Origin) (page : Page Policy) : Page Policy :=
  { page with url, referrerUrl := url, origin := origin.getD url.origin }

def loadAboutBlank (frame : FrameId) (inheritedUrl : Option Url) (inheritedOrigin : Option Origin) :
    Pages Policy Runtime :=
  let s := s.modify frame fun page =>
    let page := match inheritedUrl with
      | none => page
      | some base =>
        { commitUrl x.blank (s.sandboxedOrigin x page inheritedOrigin) page with baseUrl := some base }
    { page with referrer := inheritedUrl }
  s.loadHtml x frame []

def loadFrameSrcdoc (frame : FrameId) (base referrerUrl : Url) (origin : Origin) (policy : Policy)
    (markup : Text) : Pages Policy Runtime :=
  let s := s.modify frame fun page =>
    { commitUrl x.srcdocUrl (s.sandboxedOrigin x page (some origin)) page with
      baseUrl := some base
      referrerUrl
      referrer := some referrerUrl
      policy
      initialBlank := false }
  s.loadHtml x frame markup

/-- `install_frame_response` of a local response. -/
def installFrameResponse (frame : FrameId) (url : Url) (contentType : Option Text) (policy : Policy)
    (body : Bytes) (origin : Option Origin) : Pages Policy Runtime :=
  let s := s.modify frame fun page =>
    { commitUrl url (s.sandboxedOrigin x page origin) page with
      baseUrl := none
      policy
      initialBlank := false }
  s.loadHtml x frame (x.decode contentType body)

/-- `eval_frame_script`: a string result replaces the document. -/
def evalFrameScript (frame : FrameId) (script source : Text) (policy : Policy) :
    Pages Policy Runtime :=
  match s.frames.get? frame with
  | none => s
  | some page =>
    if script = [] || page.sandbox.contains .scripts then s
    else
      let violations := x.checkScript policy page.url source
      let s := if violations.isEmpty then s else x.fireViolations frame violations s
      if x.blocks violations then s
      else
        let (result, s) := x.eval frame script s
        match result with
        | some result => if result = [] then s else s.loadHtml x frame result
        | none => s

/-- `navigate`: queues the request of the frame's next document. -/
def navigate (frame : FrameId) (load : FrameLoad) : Pages Policy Runtime :=
  s.modify frame fun page =>
    { page with initialBlank := false, frameLoads := page.frameLoads ++ [load] }

def isInitialBlank (frame : FrameId) : Bool := (s.frames.get? frame).any Page.initialBlank

/-! ### Loading one URL -/

def installSandbox (child : FrameId) (navigation : FrameNavigation) : Pages Policy Runtime :=
  s.modify child fun page =>
    { page with sandbox := navigation.sandbox.union (s.tree.popupSandbox child) }

def inheritedPolicy (parent : FrameId) : Policy :=
  ((s.frames.get? parent).map Page.policy).getD x.noPolicy

def inheritPolicy (child parent : FrameId) : Pages Policy Runtime :=
  s.modify child fun page => { page with policy := s.inheritedPolicy x parent }

def keepInitialBlank (child parent : FrameId) : Pages Policy Runtime :=
  if s.isInitialBlank child then s.inheritPolicy x child parent
  else
    let s := match s.frames.get? parent with
      | some creator =>
        (s.loadAboutBlank x child (some creator.url) (some creator.origin)).modify child fun page =>
          { page with referrer := some creator.referrerUrl }
      | none => s.loadAboutBlank x child (some x.blank) none
    s.inheritPolicy x child parent

def frameSrcApplies (child : FrameId) (url : Url) : Bool :=
  (s.tree.parent child).isSome &&
    url.scheme ∈ ["http".toList, "https".toList, "data".toList, "blob".toList] &&
    (s.frames.get? child).any fun page => x.withoutFragment page.url ≠ x.withoutFragment url

/-- What `frame_src_blocked` reports: the violations, if there is a document to check. -/
def frameViolations (embedder : FrameId) (url : Url) : List Violation :=
  ((s.frames.get? embedder).map fun page => x.checkFrame page url).getD []

/-- `frame_src_blocked`: the pages after the report, and whether the policy refuses the URL. -/
def frameSrcBlocked (embedder : FrameId) (url : Url) : Bool × Pages Policy Runtime :=
  let violations := s.frameViolations x embedder url
  if violations.isEmpty then (false, s)
  else (x.blocks violations, x.fireViolations embedder violations s)

def loadJavascriptFrameUrl (child initiator : FrameId) (url : Url) : Pages Policy Runtime :=
  match s.frames.get? initiator, s.frames.get? child with
  | some source, some target =>
    if source.origin = target.origin then
      let script := x.percentDecode url.asStr
      let script := if Text.startsWith script "javascript:".toList then script.drop 11 else script
      s.evalFrameScript x child script url.asStr source.policy
    else s
  | _, _ => s

def loadDataFrame (child parent : FrameId) (url : Url) (navigation : FrameNavigation) :
    Pages Policy Runtime :=
  let policy := s.inheritedPolicy x parent
  let referrer := x.localReferrer (s.frames.get? parent) navigation url
  match x.decodeDataUrl url.asStr with
  | none =>
    let s := (s.loadAboutBlank x child none none).modify child fun page => { page with referrer }
    s.inheritPolicy x child parent
  | some (contentType, body) =>
    let s := s.modify child fun page => { page with referrer }
    s.installFrameResponse x child url (some contentType) policy body none

/-- The entry of the Blob URL Store that the parent may use. -/
def blobEntry (parent : FrameId) (url : Url) : Option (Bytes × Option Text × Origin) :=
  (s.frames.get? parent).bind fun page =>
    x.objectUrl s.runtime page.origin (x.withoutFragment url).asStr

def loadBlobFrame (child parent : FrameId) (url : Url) (navigation : FrameNavigation) :
    Pages Policy Runtime :=
  match s.blobEntry x parent url with
  | none => s
  | some (contents, contentType, origin) =>
    let policy := s.inheritedPolicy x parent
    let referrer := x.localReferrer (s.frames.get? parent) navigation url
    let s := s.modify child fun page => { page with referrer }
    s.installFrameResponse x child url contentType policy contents (some origin)

/-- The URLs of the embedder and of its ancestors, at most `fuel` of them. -/
def ancestorUrls : Nat → Option FrameId → List Url
  | 0, _ => []
  | _, none => []
  | fuel + 1, some frame =>
    match s.frames.get? frame with
    | none => []
    | some page => page.url :: ancestorUrls fuel (s.tree.parent frame)

/-- The branch of `load_frame_url` for an HTTP URL. -/
def loadHttpFrame (child initiator : FrameId) (url : Url) (gated : Bool)
    (navigation : FrameNavigation) : Pages Policy Runtime :=
  let origin := ((s.frames.get? initiator).map Page.origin).getD url.origin
  let embedder := (s.tree.parent child).filter fun embedder => gated && s.frames.contains embedder
  s.navigate child {
    embedder, url, origin
    method := navigation.method
    body := navigation.body
    contentType := navigation.contentType
    ancestors := if embedder.isSome then s.ancestorUrls s.frames.pairs.length embedder else []
    sandbox := navigation.sandbox }

/-- The dispatch on the scheme, once the embedder's policy has been asked. -/
def loadAdmitted (child initiator : FrameId) (url : Url) (gated : Bool)
    (navigation : FrameNavigation) : Pages Policy Runtime :=
  if url.scheme = "about".toList then
    (s.installSandbox child navigation).keepInitialBlank x child initiator
  else if url.scheme = "data".toList then
    (s.installSandbox child navigation).loadDataFrame x child initiator url navigation
  else if url.scheme = "javascript".toList then s.loadJavascriptFrameUrl x child initiator url
  else if url.scheme = "blob".toList then
    (s.installSandbox child navigation).loadBlobFrame x child initiator url navigation
  else if url.scheme = "http".toList ∨ url.scheme = "https".toList then
    s.loadHttpFrame child initiator url gated navigation
  else
    (s.loadAboutBlank x child none none).inheritPolicy x child initiator

/-- Whether the embedder's `frame-src` refuses the URL, and the pages after its report. -/
def checkFrameSrc (child : FrameId) (url : Url) : Bool × Pages Policy Runtime :=
  match s.tree.parent child with
  | some embedder =>
    if s.frameSrcApplies x child url then s.frameSrcBlocked x embedder url else (false, s)
  | none => (false, s)

def loadFrameUrl (child initiator : FrameId) (url : Url) (navigation : FrameNavigation) :
    Pages Policy Runtime :=
  let gated := s.frameSrcApplies x child url
  let (refused, s) := s.checkFrameSrc x child url
  if refused then s else s.loadAdmitted x child initiator url gated navigation

/-- `load_frame_srcdoc` of the engine: the creator supplies the base URL, the origin and the policy. -/
def loadSrcdoc (child parent : FrameId) (markup : Text) : Pages Policy Runtime :=
  match s.frames.get? parent with
  | some creator =>
    s.loadFrameSrcdoc x child (x.base s.runtime parent creator) creator.referrerUrl creator.origin
      creator.policy markup
  | none => s.loadFrameSrcdoc x child x.blank x.blank (x.newOpaque s.runtime) x.noPolicy markup

def navigateFrame (child initiator : FrameId) (navigation : FrameNavigation) :
    Pages Policy Runtime :=
  match navigation.srcdoc with
  | some markup => (s.installSandbox child navigation).loadSrcdoc x child initiator markup
  | none =>
    if navigation.isBlank then (s.installSandbox child navigation).keepInitialBlank x child initiator
    else match s.resolve x initiator navigation.spec with
      | none => s
      | some url => s.loadFrameUrl x child initiator url navigation

/-- Whether the initiator's sandboxing flags let it navigate `chosen`. -/
def sandboxAllowsNavigation (initiator chosen : FrameId) : Bool :=
  if initiator = chosen then true
  else match s.frames.get? initiator with
    | none => true
    | some source =>
      if s.tree.isInclusiveDescendant initiator chosen ||
          s.tree.auxiliaryOpener chosen = some initiator then true
      else if s.tree.topLevel initiator = chosen then
        !source.sandbox.contains (if source.userActivated then
          .topLevelNavigationWithUserActivation else .topLevelNavigationWithoutUserActivation)
      else !source.sandbox.contains .navigation

end Pages

/-! ### Recording -/

structure Engine (Policy Runtime : Type) where
  pages : Pages Policy Runtime
  frameHistory : Dict FrameId (FrameHistory FrameNavigation (LocalDocumentState Policy))
  pendingEvents : List (FrameId × BrowserEvent)
  /-- No browser owns the joint history. -/
  standaloneHistory : Bool

namespace Engine
variable (e : Engine Policy Runtime)

/-- The replay store of a frame. -/
def historyOf (frame : FrameId) : FrameHistory FrameNavigation (LocalDocumentState Policy) :=
  (e.frameHistory.get? frame).getD .empty

def recordFrameHistory (frame : FrameId) (navigation : Option FrameNavigation)
    (snapshot replace : Bool) (url : Option Url) : Engine Policy Runtime :=
  if frame = .main then e
  else
    let state := if snapshot then (e.pages.frames.get? frame).map Page.localDocumentState else none
    let entry := ⟨navigation, state⟩
    let pending := !e.standaloneHistory &&
      url.any fun url => url.scheme = "http".toList || url.scheme = "https".toList
    let history := e.historyOf frame
    let history := if pending then history.stage entry replace
      else if replace then history.discardPending.replace entry
      else history.discardPending.push entry
    let event := match url with
      | some url => .navigationStarted url.asStr replace history.index pending
      | none => .frameAdded (((e.pages.frames.get? frame).map Page.url).getD x.blank).asStr
    if e.standaloneHistory then
      let snapshot := {
        length := history.entries.length
        index := history.index
        localLength := history.entries.length
        localIndex := history.index
        state := none }
      { e with frameHistory := e.frameHistory.insert frame (history.setFrameHistory snapshot) }
    else { e with
      frameHistory := e.frameHistory.insert frame history
      pendingEvents := e.pendingEvents ++ [(frame, event)] }

/-- The URL that `record_navigation` records. -/
def recordedUrl (initiator : FrameId) (navigation : FrameNavigation) : Option Url :=
  if navigation.srcdoc.isNone && navigation.isBlank then none
  else if navigation.srcdoc.isSome then some x.srcdocUrl
  else e.pages.resolve x initiator navigation.spec

def recordNavigation (frame initiator : FrameId) (navigation : FrameNavigation) (replace : Bool) :
    Engine Policy Runtime :=
  match e.recordedUrl x initiator navigation with
  | none => e
  | some url =>
    let snapshot := url.scheme = "about".toList && url.path ∈ ["blank".toList, "srcdoc".toList]
    e.recordFrameHistory x frame (some navigation) snapshot replace (some url)

/-- Navigates a frame and records that. -/
def perform (frame initiator : FrameId) (navigation : FrameNavigation) (replace : Bool) :
    Engine Policy Runtime :=
  { e with pages := e.pages.navigateFrame x frame initiator navigation }.recordNavigation x frame
    initiator navigation replace

/-- The frame a queued navigation is for, with its container. -/
def chosen (queuedOn : FrameId) (target : NavigationTarget) :
    Option (FrameId × Option ContainerId) :=
  let tree := e.pages.tree
  match target with
  | .container container => (tree.frameForContainer container).map (·, some container)
  | .frame frame => if tree.contains frame then some (frame, tree.container frame) else none
  | .target name => (tree.chooseNavigable name queuedOn).map fun frame => (frame, tree.container frame)

/-- The frame that a queued navigation is performed on, and the navigation with the flags it gets. -/
def performed (queuedOn : FrameId) (navigation : FrameNavigation) :
    Option (FrameId × FrameNavigation) :=
  match e.chosen queuedOn navigation.target with
  | none => none
  | some (chosen, container) =>
    if !e.pages.sandboxAllowsNavigation (navigation.source.getD queuedOn) chosen then none
    else
      let flags := do
        let container ← container
        let embedder ← e.pages.tree.parent chosen
        let page ← e.pages.frames.get? embedder
        some (x.sandboxingFlags e.pages.runtime page container)
      some (chosen, { navigation with sandbox := flags.getD navigation.sandbox })

/-- The turn of one navigation in `apply_navigations`. -/
def applyNavigation (queuedOn : FrameId) (navigation : FrameNavigation) : Engine Policy Runtime :=
  match e.performed x queuedOn navigation with
  | none => e
  | some (chosen, navigation) =>
    e.perform x chosen (navigation.source.getD queuedOn) navigation (e.pages.isInitialBlank chosen)

def applyNavigations (navigations : List (FrameId × FrameNavigation)) : Engine Policy Runtime :=
  navigations.foldl (fun e (queuedOn, navigation) => e.applyNavigation x queuedOn navigation) e

/-- A child frame with its page and the entry of its own. -/
def adopted (frame : FrameId) (page : Page Policy) : Engine Policy Runtime :=
  { e with pages := { e.pages with frames := e.pages.frames.insert frame page } }.recordFrameHistory
    x frame none false false none

/-- What the container of a child frame asks for: `srcdoc`, else `src`. -/
def firstNavigation (parent : FrameId) (container : ContainerId) (sandbox : SandboxFlags) :
    Option FrameNavigation :=
  if e.pages.frames.contains parent then
    match x.frameSrcdoc e.pages.runtime parent container with
    | some markup =>
      some { FrameNavigation.get (.container container) [] with srcdoc := some markup, sandbox }
    | none => (x.frameSrc e.pages.runtime parent container).map fun src =>
      { FrameNavigation.get (.container container) src with
        referrer := .client (x.frameReferrerPolicy e.pages.runtime parent container), sandbox }
  else none

/-- The turn of one child frame in `adopt_pending_frames`. -/
def adoptChild (parent frame : FrameId) (container : ContainerId) (page : Page Policy) :
    Engine Policy Runtime :=
  let sandbox := ((e.pages.frames.get? parent).map fun page =>
    x.sandboxingFlags e.pages.runtime page container).getD .empty
  let e := e.adopted x frame page
  match e.firstNavigation x parent container sandbox with
  | none => e
  | some navigation => e.perform x frame parent navigation true

end Engine

end TinyBrowser.Frames
