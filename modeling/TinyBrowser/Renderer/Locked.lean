import TinyBrowser.Renderer.Pools
import TinyBrowser.Renderer.Service

/-!
# Calls stay inside the process lock

`ServiceCall.Claims` says what a call asks for belongs to the lock, `ServiceAct.Authorized` that an
act uses no other authority. Every act of a routed call is authorized, and a call that claims more is
turned away before it touches anything (`Routed.Refused`).
-/

namespace TinyBrowser
open Lib

/-! ### What belongs to a lock -/

namespace Site
variable (x : Crates) (lock : Site)

/-- An origin that a request or a navigation may start from. -/
def Initiates (origin : Origin) : Prop := origin.isTuple = false ∨ lock.Holds x origin

/-- A claimed origin that names a storage area of the locked site. -/
def ClaimsKey (claim : SerializedOrigin) : Prop :=
  ∃ origin h, claim = .tuple origin h ∧ lock.Holds x origin

/-- A claimed origin that is opaque or of the locked site. -/
def ClaimsOrigin (claim : SerializedOrigin) : Prop := claim = .opaqueOrigin ∨ lock.ClaimsKey x claim

def ClaimsUrl (spec : Text) : Prop := ∃ url, x.urlParse spec = some url ∧ lock.HoldsUrl x url

end Site

/-- What the call claims belongs to the lock. -/
def ServiceCall.Claims (x : Crates) (lock : Site) : ServiceCall → Prop
  | .network (.dial _ claim _) => lock.ClaimsOrigin x claim
  | .network (.cookieGet url) | .network (.cookieSet _ url) => lock.ClaimsUrl x url
  | .network (.cancelDial _) | .network (.dialRead _) | .network (.cancelStream _) => True
  | .storage (.get _ claim _) | .storage (.keys _ claim) => lock.ClaimsKey x claim
  | .storage (.set _ claim url _ _ _) | .storage (.remove _ claim url _ _)
  | .storage (.clear _ claim url _) => lock.ClaimsKey x claim ∧ lock.ClaimsUrl x url
  | .browsingContext (.windowOpen _ _ _ source)
  | .browsingContext (.navigateNamed _ _ _ source) => lock.ClaimsOrigin x source.origin
  | .browsingContext (.windowMessage _ message) => lock.ClaimsOrigin x message.origin
  | .browsingContext (.remoteSessionGet _ claim _) => lock.ClaimsKey x claim
  | .browsingContext (.windowName _) | .browsingContext (.frameCreated ..)
  | .browsingContext (.frameDestroyed _) | .browsingContext (.windowClose _)
  | .browsingContext .opener => True
  | .messaging (.broadcastPost claim _ _ _) => lock.ClaimsKey x claim

/-- The initiator is of the lock, and its referrer is a document of the lock and of its origin. -/
structure NavigationInitiator.Authorized (x : Crates) (lock : Site) (initiator : NavigationInitiator) :
    Prop where
  origin : lock.Initiates x initiator.origin
  referrer : ∀ referrer ∈ initiator.referrer,
    lock.HoldsUrl x referrer ∧ referrer.origin = initiator.origin

/-- The act is done for the assignment `owner` with an authority of its lock. -/
def ServiceAct.Authorized (x : Crates) (owner : RendererAssignmentId) (assignment : Assignment) :
    ServiceAct → Prop
  | .dial call _ =>
    call.owner = owner ∧ call.tab = assignment.tab ∧ assignment.site.Initiates x call.initiator
  | .cancelDial id _ | .readStream id _ | .cancelStream id _ => id = owner
  | .cookiesFor url | .setCookie _ url => assignment.site.HoldsUrl x url
  | .localStorage origin | .sessionStorage _ origin => assignment.site.Holds x origin.origin
  | .broadcast (.broadcast message) =>
    message.source.1 = owner ∧ assignment.site.Holds x message.origin.origin
  | .broadcast (.storage event) =>
    event.source.1 = owner ∧ assignment.site.Holds x event.origin.origin ∧
      assignment.site.ClaimsUrl x event.url
  | .openWindow request _ initiator =>
    request.source = some assignment.tab ∧ initiator.Authorized x assignment.site
  | .navigate _ _ initiator => initiator.Authorized x assignment.site
  | .rename tab | .registerFrame tab _ | .removeFrame tab _ => tab = assignment.tab
  | .closeTab _ => True
  | .deliver _ message => assignment.site.ClaimsOrigin x message.origin

/-! ### The checks -/

section Checks
variable {x : Crates} {lock : Site} {claim : SerializedOrigin}

theorem Site.not_claimsKey_opaque {tab : TabId} : ¬ (Site.opaqueTab tab).ClaimsKey x claim := by
  rintro ⟨origin, h, -, hholds⟩
  exact Site.not_holds_opaque hholds

theorem storageKey_eq_none : lock.storageKey x claim = none ↔ ¬ lock.ClaimsKey x claim := by
  rw [← not_iff_not, not_not, ← ne_eq, Option.ne_none_iff_exists']
  constructor
  · rintro ⟨key, hkey⟩
    obtain ⟨hclaim, hholds⟩ := Site.storageKey_eq_some.mp hkey
    exact ⟨key.origin, key.tuple, hclaim, hholds⟩
  · rintro ⟨origin, h, hclaim, hholds⟩
    exact ⟨⟨origin, h⟩, Site.storageKey_eq_some.mpr ⟨hclaim, hholds⟩⟩

theorem authorizeUrl_eq_none {spec : Text} :
    lock.authorizeUrl x spec = none ↔ ¬ lock.ClaimsUrl x spec := by
  rw [← not_iff_not, not_not, ← ne_eq, Option.ne_none_iff_exists']
  simp only [Site.authorizeUrl_eq_some, Site.ClaimsUrl]

theorem authorizesUrl_iff {assignment : Assignment} {spec : Text} :
    authorizesUrl x assignment spec = true ↔ assignment.site.ClaimsUrl x spec := by
  rw [authorizesUrl, Option.isSome_iff_ne_none, ne_eq, authorizeUrl_eq_none, not_not]

theorem initiates_claimedOrigin {opaqueId : Nat} {origin : Origin}
    (h : claimedOrigin x lock claim opaqueId = some origin) : lock.Initiates x origin := by
  unfold claimedOrigin at h
  split at h
  · rename_i found hfound
    cases h
    exact .inr (Site.authorizeOrigin_eq_some.mp hfound).2
  · split_ifs at h
    cases h
    exact .inl rfl

theorem claimedOrigin_eq_none {opaqueId : Nat} (h : ¬ lock.ClaimsOrigin x claim) :
    claimedOrigin x lock claim opaqueId = none := by
  unfold claimedOrigin
  split
  · rename_i found hfound
    obtain ⟨⟨htuple, hclaim⟩, hholds⟩ := Site.authorizeOrigin_eq_some.mp hfound
    exact absurd (.inr ⟨found, htuple, hclaim, hholds⟩) h
  · rw [if_neg fun hopaq => h (.inl hopaq)]

theorem allowsMessageOrigin_iff :
    lock.allowsMessageOrigin x claim = true ↔ lock.ClaimsOrigin x claim := by
  cases claim with
  | opaqueOrigin => exact ⟨fun _ => .inl rfl, fun _ => rfl⟩
  | tuple origin h =>
    rw [Site.allowsMessageOrigin, Site.allowsOrigin_iff h]
    constructor
    · exact fun hholds => .inr ⟨origin, h, rfl, hholds⟩
    · rintro (hopaq | ⟨found, hfound, hclaim, hholds⟩)
      · cases hopaq
      · cases hclaim
        exact hholds

theorem authorized_windowInitiator {world : ServiceWorld} {assignment : Assignment}
    {source : NavigationSource} {opener : OpenerPolicy} {initiator : NavigationInitiator}
    (h : windowInitiator x world assignment source opener = some initiator) :
    initiator.Authorized x assignment.site := by
  obtain ⟨origin, horigin, rfl⟩ := Option.map_eq_some_iff.mp h
  refine ⟨initiates_claimedOrigin horigin, ?_⟩
  intro referrer hreferrer
  dsimp only at hreferrer ⊢
  split_ifs at hreferrer with hown
  · rw [Bool.and_eq_true, decide_eq_true_eq] at hown
    rw [← Option.mem_some.mp hreferrer]
    exact ⟨Site.allowsUrl_iff.mp hown.1, hown.2⟩
  · cases hreferrer

theorem windowInitiator_eq_none {world : ServiceWorld} {assignment : Assignment}
    {source : NavigationSource} {opener : OpenerPolicy}
    (h : ¬ assignment.site.ClaimsOrigin x source.origin) :
    windowInitiator x world assignment source opener = none := by
  rw [windowInitiator, claimedOrigin_eq_none h]
  rfl

end Checks

/-! ### Acts are authorized -/

def Routed.Authorized (x : Crates) (owner : RendererAssignmentId) (assignment : Assignment)
    (routed : Routed) : Prop :=
  ∀ act ∈ routed.acts, act.Authorized x owner assignment

section Acts
variable {x : Crates} {world : ServiceWorld} {context : ServiceContext} {request : Exchange.RequestId}
  {owner : RendererAssignmentId} {assignment : Assignment}

theorem authorized_violation : (Routed.violation context).Authorized x owner assignment :=
  fun _ h => absurd h List.not_mem_nil

theorem authorized_reply {reply : ServiceReply} :
    (Routed.reply context reply).Authorized x owner assignment :=
  fun _ h => absurd h List.not_mem_nil

theorem authorized_acting {acts : List ServiceAct} {reply : ServiceReply}
    (h : ∀ act ∈ acts, act.Authorized x owner assignment) :
    (Routed.acting context acts reply).Authorized x owner assignment := h

/-- A call that leads to one act. -/
theorem authorized_act {act : ServiceAct} {reply : ServiceReply}
    (h : act.Authorized x owner assignment) :
    (Routed.acting context [act] reply).Authorized x owner assignment :=
  authorized_acting fun found hfound => by rwa [List.mem_singleton.mp hfound]

theorem authorized_routeNetworkCall (call : NetworkCall) :
    (routeNetworkCall x world context request owner assignment call).Authorized x owner
      assignment := by
  cases call with
  | dial dialed claim frame =>
    rw [routeNetworkCall]
    split
    · exact authorized_violation
    · rename_i initiator hinitiator
      intro act hact
      rw [List.mem_singleton.mp hact]
      exact ⟨rfl, rfl, initiates_claimedOrigin hinitiator⟩
  | cancelDial target =>
    rw [routeNetworkCall]
    split
    · exact authorized_reply
    · split_ifs
      · exact authorized_violation
      · exact authorized_act rfl
  | dialRead stream => exact authorized_act rfl
  | cancelStream stream => exact authorized_act rfl
  | cookieGet url =>
    rw [routeNetworkCall]
    split
    · exact authorized_violation
    · rename_i parsed hparsed
      exact authorized_act (Site.authorizeUrl_eq_some.mp hparsed).2
  | cookieSet value url =>
    rw [routeNetworkCall]
    split
    · exact authorized_violation
    · rename_i parsed hparsed
      exact authorized_act (Site.authorizeUrl_eq_some.mp hparsed).2

theorem authorized_routeMessagingCall (call : MessagingCall) :
    (routeMessagingCall x context owner assignment call).Authorized x owner assignment := by
  cases call with
  | broadcastPost claim name payload channel =>
    rw [routeMessagingCall]
    split
    · exact authorized_violation
    · rename_i origin horigin
      exact authorized_act ⟨rfl, (Site.storageKey_eq_some.mp horigin).2⟩

theorem authorized_storageAct {kind : StorageKind} {origin : StorageKey}
    (h : assignment.site.Holds x origin.origin) :
    (storageAct assignment kind origin).Authorized x owner assignment := by
  rcases kind
  · exact h
  · exact h

theorem authorized_publish {source : FrameId} {kind : StorageKind} {origin : StorageKey} {url : Text}
    {change : Option StorageChange} (h : assignment.site.Holds x origin.origin)
    (hurl : assignment.site.ClaimsUrl x url) :
    ∀ act ∈ publish owner source kind origin url change, act.Authorized x owner assignment := by
  intro act hact
  unfold publish at hact
  split at hact
  · cases hact
  · split_ifs at hact
    · rw [List.mem_singleton.mp hact]
      exact ⟨rfl, h, hurl⟩
    · cases hact

theorem authorized_routeStorageChange {kind : StorageKind} {claim : SerializedOrigin} {url : Text}
    {source : FrameId}
    {onLocal : StorageKey → Except StorageError (Option StorageChange) × LocalStorage}
    {onSession : StorageKey → Except StorageError (Option StorageChange) × SessionStorage} :
    (routeStorageChange x context owner assignment kind claim url source onLocal onSession).Authorized
      x owner assignment := by
  rw [routeStorageChange]
  split
  · exact authorized_violation
  · rename_i origin horigin
    have hholds := (Site.storageKey_eq_some.mp horigin).2
    split_ifs with hurl
    · exact authorized_violation
    · rw [Bool.not_eq_true', Bool.not_eq_false, authorizesUrl_iff] at hurl
      refine authorized_acting fun act hact => ?_
      rcases List.mem_cons.mp hact with rfl | hact
      · exact authorized_storageAct hholds
      · exact authorized_publish hholds hurl act hact

theorem authorized_routeStorageCall (call : StorageCall) :
    (routeStorageCall x context owner assignment call).Authorized x owner assignment := by
  cases call with
  | get kind claim key =>
    rw [routeStorageCall]
    split
    · exact authorized_violation
    · rename_i origin horigin
      exact authorized_act (authorized_storageAct (Site.storageKey_eq_some.mp horigin).2)
  | keys kind claim =>
    rw [routeStorageCall]
    split
    · exact authorized_violation
    · rename_i origin horigin
      exact authorized_act (authorized_storageAct (Site.storageKey_eq_some.mp horigin).2)
  | set | remove | clear => exact authorized_routeStorageChange

theorem authorized_windowOpen {url : Option Url} {target : TargetName} {opener : OpenerPolicy}
    {source : NavigationSource} :
    (windowOpen x world context assignment url target opener source).Authorized x owner
      assignment := by
  rw [windowOpen]
  split
  · exact authorized_violation
  · split
    · exact authorized_violation
    · split_ifs
      · exact authorized_violation
      · exact authorized_reply
      · split
        · exact authorized_violation
        · rename_i initiator hinitiator
          exact authorized_act ⟨rfl, authorized_windowInitiator hinitiator⟩

theorem authorized_windowNavigate {name : ContextName} {url : Option Url} {opener : OpenerPolicy}
    {source : NavigationSource} :
    (windowNavigate x world context assignment name url opener source).Authorized x owner
      assignment := by
  rw [windowNavigate]
  split
  · exact authorized_reply
  · split
    · exact authorized_reply
    · split
      · exact authorized_violation
      · dsimp only
        split
        · exact authorized_reply
        · split
          · exact authorized_violation
          · rename_i initiator hinitiator
            refine authorized_acting fun act hact => ?_
            split_ifs at hact
            · rw [List.mem_singleton.mp hact]
              exact authorized_windowInitiator hinitiator
            · cases hact

theorem authorized_windowClose {target : TabId} :
    ∀ act ∈ windowClose world context assignment target, act.Authorized x owner assignment := by
  intro act hact
  unfold windowClose at hact
  split_ifs at hact
  · cases hact
  · rw [List.mem_singleton.mp hact]
    exact trivial
  · cases hact

theorem authorized_routeWindowCall (call : BrowsingContextCall) :
    (routeWindowCall x world context assignment call).Authorized x owner assignment := by
  cases call with
  | windowOpen => exact authorized_windowOpen
  | windowName => exact authorized_act rfl
  | navigateNamed => exact authorized_windowNavigate
  | frameCreated frame parent kind sandbox =>
    rw [routeWindowCall]
    dsimp only
    split_ifs
    · exact authorized_act rfl
    · exact authorized_violation
  | frameDestroyed frame =>
    rw [routeWindowCall]
    dsimp only
    split_ifs
    · exact authorized_act rfl
    · exact authorized_violation
  | windowClose => exact authorized_acting authorized_windowClose
  | opener => exact authorized_reply
  | windowMessage target message =>
    rw [routeWindowCall]
    split_ifs with hallows
    · exact authorized_violation
    · refine authorized_acting fun act hact => ?_
      rw [Bool.not_eq_true', Bool.not_eq_false, allowsMessageOrigin_iff] at hallows
      rw [List.mem_singleton.mp hact]
      exact hallows
    · exact authorized_acting fun act hact => absurd hact List.not_mem_nil
  | remoteSessionGet target claim key =>
    rw [routeWindowCall]
    split
    · exact authorized_violation
    · rename_i origin horigin
      split_ifs
      · exact authorized_act (Site.storageKey_eq_some.mp horigin).2
      · exact authorized_reply

theorem authorized_routeAdmitted (call : ServiceCall) :
    (routeAdmitted x world context request owner assignment call).Authorized x owner assignment := by
  cases call with
  | network call => exact authorized_routeNetworkCall call
  | storage call => exact authorized_routeStorageCall call
  | browsingContext call => exact authorized_routeWindowCall call
  | messaging call => exact authorized_routeMessagingCall call

end Acts

/-! ### Calls that claim too much -/

/-- The call selects `target` by its name and leaves it where it is. -/
def ServiceCall.Selects (context : ServiceContext) (assignment : Assignment) (target : TabId) :
    ServiceCall → Prop
  | .browsingContext (.navigateNamed name url _ source) =>
    context.tabs.findByName assignment.tab name = some target ∧
      (url.filter navigablePopupUrl = none ∨ target ≠ assignment.tab ∧
        (∃ active, context.tabs.frameSandbox assignment.tab source.frame = some active ∧
          active.contains .navigation = true) ∧
        ¬ (context.tabs.opener target = some assignment.tab ∧
          context.openerFrames.get? target = some source.frame))
  | _ => False

/-- The call is turned away: nothing is touched, and the answer is a violation, the call's empty
answer, or the tab that the call selects. -/
structure Routed.Refused (context : ServiceContext) (assignment : Assignment) (call : ServiceCall)
    (routed : Routed) : Prop where
  acts : routed.acts = []
  untouched : routed.context = context
  answer : routed.result = none ∨ routed.result = some (some (.benign call)) ∨
    ∃ target, call.Selects context assignment target ∧
      routed.result = some (some (.window (some target)))

section Refusals
variable {x : Crates} {world : ServiceWorld} {context : ServiceContext} {request : Exchange.RequestId}
  {owner : RendererAssignmentId} {assignment : Assignment} {call : ServiceCall}

theorem refused_violation : (Routed.violation context).Refused context assignment call :=
  ⟨rfl, rfl, .inl rfl⟩

theorem refused_benign : (Routed.reply context (.benign call)).Refused context assignment call :=
  ⟨rfl, rfl, .inr (.inl rfl)⟩

theorem refused_select {target : TabId} (h : call.Selects context assignment target) :
    (Routed.reply context (.window (some target))).Refused context assignment call :=
  ⟨rfl, rfl, .inr (.inr ⟨target, h, rfl⟩)⟩

theorem routeNetworkCall_of_not {call : NetworkCall}
    (h : ¬ (ServiceCall.network call).Claims x assignment.site) :
    routeNetworkCall x world context request owner assignment call = .violation context := by
  cases call with
  | dial dialed claim frame => rw [routeNetworkCall, claimedOrigin_eq_none h]
  | cookieGet url => rw [routeNetworkCall, authorizeUrl_eq_none.mpr h]
  | cookieSet value url => rw [routeNetworkCall, authorizeUrl_eq_none.mpr h]
  | cancelDial | dialRead | cancelStream => exact absurd trivial h

theorem routeMessagingCall_of_not {call : MessagingCall}
    (h : ¬ (ServiceCall.messaging call).Claims x assignment.site) :
    routeMessagingCall x context owner assignment call = .violation context := by
  cases call with
  | broadcastPost claim name payload channel => rw [routeMessagingCall, storageKey_eq_none.mpr h]

theorem routeStorageChange_of_not {kind : StorageKind} {claim : SerializedOrigin} {url : Text}
    {source : FrameId}
    {onLocal : StorageKey → Except StorageError (Option StorageChange) × LocalStorage}
    {onSession : StorageKey → Except StorageError (Option StorageChange) × SessionStorage}
    (h : ¬ (assignment.site.ClaimsKey x claim ∧ assignment.site.ClaimsUrl x url)) :
    routeStorageChange x context owner assignment kind claim url source onLocal onSession =
      .violation context := by
  rw [routeStorageChange]
  split
  · rfl
  · rename_i origin horigin
    have hkey : assignment.site.ClaimsKey x claim := by
      by_contra hno
      rw [storageKey_eq_none.mpr hno] at horigin
      cases horigin
    have hurl : authorizesUrl x assignment url = false := by
      rw [← Bool.not_eq_true, authorizesUrl_iff]
      exact fun hurl => h ⟨hkey, hurl⟩
    rw [hurl]
    rfl

theorem routeStorageCall_of_not {call : StorageCall}
    (h : ¬ (ServiceCall.storage call).Claims x assignment.site) :
    routeStorageCall x context owner assignment call = .violation context := by
  cases call with
  | get kind claim key => rw [routeStorageCall, storageKey_eq_none.mpr h]
  | keys kind claim => rw [routeStorageCall, storageKey_eq_none.mpr h]
  | set | remove | clear =>
    rw [routeStorageCall]
    exact routeStorageChange_of_not h

theorem refused_windowOpen {url : Option Url} {target : TargetName} {opener : OpenerPolicy}
    {source : NavigationSource} (h : ¬ assignment.site.ClaimsOrigin x source.origin) :
    (windowOpen x world context assignment url target opener source).Refused context assignment
      (.browsingContext (.windowOpen url target opener source)) := by
  rw [windowOpen, windowInitiator_eq_none h]
  split
  · exact refused_violation
  · split
    · exact refused_violation
    · split_ifs
      · exact refused_violation
      · exact refused_benign
      · exact refused_violation

theorem refused_windowNavigate {name : ContextName} {url : Option Url} {opener : OpenerPolicy}
    {source : NavigationSource} (h : ¬ assignment.site.ClaimsOrigin x source.origin) :
    (windowNavigate x world context assignment name url opener source).Refused context assignment
      (.browsingContext (.navigateNamed name url opener source)) := by
  rw [windowNavigate, windowInitiator_eq_none h]
  split
  · exact refused_benign
  · rename_i target htarget
    split
    · rename_i hurl
      exact refused_select ⟨htarget, .inl hurl⟩
    · split
      · exact refused_violation
      · rename_i active hactive
        dsimp only
        split_ifs with hblocked
        · rw [Bool.and_eq_true, Bool.and_eq_true, decide_eq_true_eq, Bool.not_eq_true',
            ← Bool.not_eq_true, Bool.and_eq_true, decide_eq_true_eq, decide_eq_true_eq] at hblocked
          obtain ⟨⟨hother, hflag⟩, hcreated⟩ := hblocked
          exact refused_select ⟨htarget, .inr ⟨hother, ⟨active, hactive, hflag⟩, hcreated⟩⟩
        · exact refused_violation

theorem refused_routeWindowCall {call : BrowsingContextCall}
    (h : ¬ (ServiceCall.browsingContext call).Claims x assignment.site) :
    (routeWindowCall x world context assignment call).Refused context assignment
      (.browsingContext call) := by
  cases call with
  | windowOpen => exact refused_windowOpen h
  | navigateNamed => exact refused_windowNavigate h
  | windowMessage target message =>
    have hrefused : assignment.site.allowsMessageOrigin x message.origin = false := by
      rw [← Bool.not_eq_true, allowsMessageOrigin_iff]
      exact h
    rw [routeWindowCall, hrefused]
    exact refused_violation
  | remoteSessionGet target claim key =>
    rw [routeWindowCall, storageKey_eq_none.mpr h]
    exact refused_violation
  | windowName | frameCreated | frameDestroyed | windowClose | opener => exact absurd trivial h

theorem refused_routeAdmitted (h : ¬ call.Claims x assignment.site) :
    (routeAdmitted x world context request owner assignment call).Refused context assignment
      call := by
  cases call with
  | network call =>
    rw [routeAdmitted, routeNetworkCall_of_not h]
    exact refused_violation
  | storage call =>
    rw [routeAdmitted, routeStorageCall_of_not h]
    exact refused_violation
  | browsingContext call => exact refused_routeWindowCall h
  | messaging call =>
    rw [routeAdmitted, routeMessagingCall_of_not h]
    exact refused_violation

end Refusals

/-! ### Calls of a locked process -/

/-- The registry after the call's id was looked up. -/
def ServiceContext.resolved (context : ServiceContext) (id : RendererAssignmentId) : ServiceContext :=
  { context with assignments := (context.assignments.resolve id).2 }

/-- What the call's id is answered with. -/
def ServiceContext.answer (context : ServiceContext) (id : RendererAssignmentId) : Admission :=
  (liveAssignment context.assignments context.renderer id).1

/-- What a process locked to `lock` gets done by a call for the assignment `id`. -/
structure LockedCall (x : Crates) (lock : Site) (context : ServiceContext) (id : RendererAssignmentId)
    (call : ServiceCall) (routed : Routed) : Prop where
  hosted : ∀ assignment, context.answer id = .admitted assignment →
    assignment.process = context.renderer ∧ assignment.site = lock ∧
      routed.Authorized x id assignment
  turnedAway : ∀ assignment, context.answer id = .admitted assignment → ¬ call.Claims x lock →
    routed.Refused (context.resolved id) assignment call
  stale : context.answer id = .stale → routed = .reply (context.resolved id) (.released call)
  violation : context.answer id = .violation → routed = .violation (context.resolved id)

theorem routeServiceCall_eq (x : Crates) (world : ServiceWorld) (context : ServiceContext)
    (request : Exchange.RequestId) (id : RendererAssignmentId) (call : ServiceCall) :
    routeServiceCall x world context request id call = match context.answer id with
      | .violation => .violation (context.resolved id)
      | .stale => .reply (context.resolved id) (.released call)
      | .admitted assignment =>
        routeAdmitted x world (context.resolved id) request id assignment call := rfl

/-- An admitted assignment is in the table, alive, and hosted by the caller. -/
theorem answer_admitted {context : ServiceContext} {id : RendererAssignmentId}
    {assignment : Assignment} (h : context.answer id = .admitted assignment) :
    context.assignments.heap.get? id = some (assignment, .alive) ∧
      assignment.process = context.renderer := by
  unfold ServiceContext.answer liveAssignment admission at h
  dsimp only at h
  split at h
  · rename_i found hfound
    cases h
    obtain ⟨hfound, hhosted⟩ := Option.filter_eq_some_iff.mp hfound
    have hup := Assignments.upgrade_of_resolve (Prod.ext hfound rfl)
    refine ⟨?_, of_decide_eq_true hhosted⟩
    unfold Assignments.upgrade at hup
    split at hup
    · rename_i hheap
      cases hup
      exact hheap
    · cases hup
  · split_ifs at h

theorem Site.opaque_grants_nothing {x : Crates} {tab : TabId} (claim : SerializedOrigin) :
    (Site.opaqueTab tab).authorizeOrigin x claim = none ∧
      (Site.opaqueTab tab).storageKey x claim = none := by
  refine ⟨?_, storageKey_eq_none.mpr Site.not_claimsKey_opaque⟩
  rw [Option.eq_none_iff_forall_ne_some]
  intro origin horigin
  exact Site.not_holds_opaque (Site.authorizeOrigin_eq_some.mp horigin).2

/-- Whatever a process calls: its acts stay inside the lock of the process and are for assignments it
hosts, and a call that claims more is turned away. -/
theorem lockedCall_of_run (x : Crates) (world : ServiceWorld) {steps : List ManagerStep}
    {m : ProcessManager} {process : RendererId} {lock : Site} {context : ServiceContext}
    (hrun : Machine.run managerStep .new steps = some m) (hlock : m.siteOf process = some lock)
    (hassignments : context.assignments = m.assignments) (hrenderer : context.renderer = process)
    (request : Exchange.RequestId) (id : RendererAssignmentId) (call : ServiceCall) :
    LockedCall x lock context id call (routeServiceCall x world context request id call) ∧
      ∀ tab, lock = .opaqueTab tab → ∀ claim,
        lock.authorizeOrigin x claim = none ∧ lock.storageKey x claim = none := by
  have hinv : m.Inv := Machine.inv_run (fun _ _ _ h hstep => h.step hstep) ProcessManager.inv_new hrun
  have hsite : ∀ assignment, context.answer id = .admitted assignment → assignment.site = lock := by
    intro assignment hanswer
    obtain ⟨hheap, hprocess⟩ := answer_admitted hanswer
    rw [hassignments] at hheap
    have hbound := hinv.hosts _ _ _ hheap
    rw [hprocess, hrenderer, hlock] at hbound
    exact (Option.some.inj hbound).symm
  rw [routeServiceCall_eq]
  refine ⟨{
    hosted := fun assignment hanswer => ?_
    turnedAway := fun assignment hanswer hclaims => ?_
    stale := fun hanswer => by rw [hanswer]
    violation := fun hanswer => by rw [hanswer] }, ?_⟩
  · rw [hanswer]
    exact ⟨(answer_admitted hanswer).2, hsite assignment hanswer, authorized_routeAdmitted call⟩
  · rw [hanswer]
    rw [← hsite assignment hanswer] at hclaims
    exact refused_routeAdmitted hclaims
  · rintro tab rfl claim
    exact Site.opaque_grants_nothing claim

/-! ### A small instance -/

/-- `https://example.com`. -/
def Site.sample : Site := .tuple "https://example.com".toList

/-- One process, with one document of tab 1. -/
def ProcessManager.sample : ProcessManager := (ProcessManager.new.acquireReserved 1 .sample .spawned).2

/-- The tab has the name `a`. -/
def ServiceContext.sample : ServiceContext where
  renderer := 1
  assignments := ProcessManager.sample.assignments
  tabs := (TabRegistry.new.insert 1).rename 1 (.assigned (some ⟨"a".toList, by decide, by decide⟩))
  openerFrames := Dict.empty
  scriptCreated := []
  localStorage := .default
  sessions := ⟨Dict.empty⟩
  dials := Dict.empty

def ServiceWorld.sample : ServiceWorld where
  opaqueId := 0
  cookies _ := []
  chunk := .ok none
  opened := none
  hasTab _ := true
  historyLength _ := none

/-- A call that claims to come from `https://other.test`. -/
def ServiceCall.forged : ServiceCall :=
  .browsingContext (.navigateNamed ⟨"a".toList, by decide, by decide⟩ none .keep
    { origin := .tuple (.tuple "https".toList (.domain "other.test".toList) 443) rfl
      referrer := .sample
      referrerPolicy := .noReferrer
      frame := FrameId.main
      secureContext := true })

theorem ServiceCall.forged_not_claims : ¬ forged.Claims .sample .sample := by
  rintro (hopaq | ⟨origin, h, hclaim, -, locked, hlock, hsite⟩)
  · cases hopaq
  · cases hclaim
    cases hlock
    exact absurd hsite (by decide)

theorem lockedCall_of_run_forged :
    (routeServiceCall .sample .sample .sample 1 1 .forged).acts = [] ∧
      (routeServiceCall .sample .sample .sample 1 1 .forged).context = .sample := by
  have hrun : Machine.run managerStep .new [.acquire 1 .sample .spawned] = some .sample := rfl
  have hlock : ProcessManager.sample.siteOf 1 = some .sample := rfl
  have hassignments : ServiceContext.sample.assignments = ProcessManager.sample.assignments := rfl
  have hcall := (lockedCall_of_run .sample .sample hrun hlock hassignments rfl 1 1 .forged).1
  have hrefused := hcall.turnedAway ⟨1, 1, 1, .sample⟩ rfl ServiceCall.forged_not_claims
  exact ⟨hrefused.acts, hrefused.untouched⟩

/-- A forged origin is not looked at when nothing is navigated: the call learns the tab it selects. -/
theorem exists_forged_selection :
    ¬ ∀ call : ServiceCall, ¬ call.Claims Crates.sample .sample →
      (routeServiceCall .sample .sample .sample 1 1 call).result = none ∨
        (routeServiceCall .sample .sample .sample 1 1 call).result = some (some (.released call)) ∨
        (routeServiceCall .sample .sample .sample 1 1 call).result = some (some (.benign call)) := by
  intro h
  have hresult : (routeServiceCall .sample .sample .sample 1 1 .forged).result =
      some (some (.window (some 1))) := rfl
  rcases h .forged ServiceCall.forged_not_claims with hno | hno | hno
  all_goals
    rw [hresult] at hno
    cases hno

end TinyBrowser
