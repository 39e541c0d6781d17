import Mathlib.Order.Bounds.Basic
import Mathlib.Order.MinMax
import TinyBrowser.Net.Turn

/-!
# Chains of redirects

What a fetch keeps along its chain: the tainting is that of every URL so far (`chainType`),
`Sec-Fetch-Site` is the widest relation of the initiator to them, and a chain that has left an origin
no longer carries the fields of `originFields`. `ChainInv` states it before each turn, `HopRules` of
each hop that went out, `ChainResult` of the response (`chain_of_send`).
-/

namespace TinyBrowser
open Lib Lib.EmitLoop

/-! ### Properties of a list of URLs -/

/-- The tainting of a request that has gone through `urls`. -/
def chainType (cors : CorsSettings) (urls : List Url) : ResponseType :=
  if cors.mode = .navigate ∨ ∀ url ∈ urls, url.origin = cors.origin then .basic
  else if cors.mode = .cors then .cors
  else .opaqueType

variable {urls : List Url}

theorem chainType_eq_basic {cors : CorsSettings} :
    chainType cors urls = .basic ↔
      cors.mode = .navigate ∨ ∀ url ∈ urls, url.origin = cors.origin := by
  unfold chainType
  split_ifs with hbasic hmode
  · exact ⟨fun _ => hbasic, fun _ => rfl⟩
  · constructor
    · intro h
      cases h
    · intro h
      exact absurd h hbasic
  · constructor
    · intro h
      cases h
    · intro h
      exact absurd h hbasic

theorem chainType_ne_basic {cors : CorsSettings}
    (hpassed : ∀ url ∈ urls, ∃ taint, hopTaint cors url = .ok taint)
    (hne : chainType cors urls ≠ .basic) :
    (cors.mode = .cors ∧ chainType cors urls = .cors) ∨
      (cors.mode = .noCors ∧ chainType cors urls = .opaqueType) := by
  have hleft : ¬ (cors.mode = .navigate ∨ ∀ url ∈ urls, url.origin = cors.origin) :=
    fun hbasic => hne (chainType_eq_basic.2 hbasic)
  obtain ⟨hnavigate, hall⟩ := not_or.1 hleft
  obtain ⟨url, hurl, hcross⟩ : ∃ url ∈ urls, url.origin ≠ cors.origin := by
    by_contra hno
    refine hall fun url hurl => ?_
    by_contra hcross
    exact hno ⟨url, hurl, hcross⟩
  obtain ⟨taint, htaint⟩ := hpassed url hurl
  unfold chainType
  rw [if_neg hleft]
  rcases hopTaint_of_ne (Ne.symm hcross) htaint with ⟨hmode, -⟩ | ⟨hmode, -⟩ | ⟨hmode, -⟩
  · exact absurd hmode hnavigate
  · exact .inl ⟨hmode, if_pos hmode⟩
  · refine .inr ⟨hmode, if_neg ?_⟩
    rw [hmode]
    decide

theorem chainType_concat {cors : CorsSettings} {url : Url} {taint : ResponseType}
    (h : hopTaint cors url = .ok taint) :
    (if taint = .basic then chainType cors urls else taint) = chainType cors (urls ++ [url]) := by
  by_cases heq : cors.origin = url.origin
  · -- back at, or still at, the request's origin
    rw [hopTaint_of_eq heq] at h
    cases h
    have hall : (∀ u ∈ urls ++ [url], u.origin = cors.origin) ↔
        ∀ u ∈ urls, u.origin = cors.origin := by
      constructor
      · intro hall u hu
        exact hall u (List.mem_append_left _ hu)
      · intro hall u hu
        rcases List.mem_append.1 hu with hu | hu
        · exact hall u hu
        · rw [List.mem_singleton.1 hu, heq]
    unfold chainType
    simp only [hall, if_true]
  · have hleft : ¬ ∀ u ∈ urls ++ [url], u.origin = cors.origin := fun hall =>
      heq (hall url (by simp)).symm
    unfold chainType
    simp only [hleft, or_false]
    rcases hopTaint_of_ne heq h with ⟨hmode, rfl⟩ | ⟨hmode, rfl⟩ | ⟨hmode, rfl⟩
    · simp [hmode]
    · simp [hmode]
    · simp [hmode]

/-- All the URLs have one origin. -/
def OneOrigin (urls : List Url) : Prop := ∀ a ∈ urls, ∀ b ∈ urls, a.origin = b.origin

theorem OneOrigin.concat {url next : Url} (h : OneOrigin (urls ++ [url]))
    (heq : url.origin = next.origin) : OneOrigin (urls ++ [url] ++ [next]) := by
  have hnext : ∀ a ∈ urls ++ [url] ++ [next], a.origin = url.origin := by
    intro a ha
    rcases List.mem_append.1 ha with ha | ha
    · exact h a ha url (by simp)
    · rw [List.mem_singleton.1 ha, heq]
  intro a ha b hb
  rw [hnext a ha, hnext b hb]

/-- `site` is what `Sec-Fetch-Site` says of a request that has gone through `urls`: none without an
initiator, and else the widest of the initiator's relations to them. -/
def SiteOf (x : Crates) (initiator : Option Origin) (urls : List Url) (site : Option FetchSite) :
    Prop :=
  match initiator with
  | none => site = none
  | some origin => ∃ widest, site = some widest ∧
      IsGreatest {relation | ∃ url ∈ urls, FetchSite.between x origin url = relation} widest

theorem SiteOf.start (x : Crates) (initiator : Option Origin) (url : Url) :
    SiteOf x initiator [url] (initiator.map fun origin => FetchSite.between x origin url) := by
  cases initiator with
  | none => rfl
  | some origin =>
    refine ⟨_, rfl, ⟨url, by simp, rfl⟩, ?_⟩
    rintro relation ⟨u, hu, rfl⟩
    rw [List.mem_singleton.1 hu]

theorem SiteOf.widen {x : Crates} {initiator : Option Origin}
    {site : Option FetchSite} (h : SiteOf x initiator urls site) (next : Url) :
    SiteOf x initiator (urls ++ [next]) (FetchSite.widen x site initiator next) := by
  cases initiator with
  | none =>
    have hnone : site = none := h
    rw [hnone]
    rfl
  | some origin =>
    obtain ⟨widest, rfl, ⟨url, hurl, hwidest⟩, hupper⟩ := h
    refine ⟨_, rfl, ?_, ?_⟩
    · rcases max_choice widest (FetchSite.between x origin next) with hmax | hmax
      · exact ⟨url, List.mem_append_left _ hurl, hwidest.trans hmax.symm⟩
      · exact ⟨next, by simp, hmax.symm⟩
    · rintro relation ⟨u, hu, rfl⟩
      rcases List.mem_append.1 hu with hu | hu
      · exact le_max_of_le_left (hupper ⟨u, hu, rfl⟩)
      · rw [List.mem_singleton.1 hu]
        exact le_max_right _ _

/-! ### The invariant -/

/-- The URLs of a chain up to the one the loop stands at. -/
def urlsTo (past : List HopRecord) (url : Url) : List Url := past.map HopRecord.url ++ [url]

/-- What holds before each turn; `past` are the hops that went out. -/
structure ChainInv (x : AgentCrates) (dial : Dial) (start : Url) (past : List HopRecord)
    (state : SendState) : Prop where
  followed : state.followed = past.length
  head : (urlsTo past state.url).head? = some start
  link : ∀ previous ∈ past.getLast?, ∃ location,
    resolveLocation x.toNetCrates previous.url location = .ok state.url
  responseType : state.hop.responseType = chainType dial.cors (past.map HopRecord.url)
  passed : ∀ record ∈ past, ∃ taint, hopTaint dial.cors record.url = .ok taint
  site : SiteOf x.toCrates dial.initiator (urlsTo past state.url) state.fetchSite
  siteField : state.hop.headers.getAll "sec-fetch-site".toList =
    [Bytes.ofText (fetchSiteToken state.fetchSite)]
  originFields : ¬ OneOrigin (urlsTo past state.url) →
    ∀ name ∈ originFields, state.hop.headers.getAll name = []

/-- What holds of each hop that went out after those of `past`. -/
structure HopRules (x : AgentCrates) (dial : Dial) (start : Url) (worlds : Nat → HopWorld)
    (past : List HopRecord) (record : HopRecord) : Prop where
  head : (urlsTo past record.url).head? = some start
  link : ∀ previous ∈ past.getLast?, ∃ location,
    resolveLocation x.toNetCrates previous.url location = .ok record.url
  responseType : record.hop.responseType = chainType dial.cors (urlsTo past record.url)
  sameOrigin : dial.cors.mode = .sameOrigin → record.wire.url.origin = dial.cors.origin
  site : ∃ site, SiteOf x.toCrates dial.initiator (urlsTo past record.url) site ∧
    record.wire.headers.getAll "sec-fetch-site".toList = [Bytes.ofText (fetchSiteToken site)]
  cookie : record.cookie =
    ((worlds past.length).jar.cookieString x.toCrates record.operation).1
  ownHost : ¬ OneOrigin (urlsTo past record.url) → record.wire.headers.getAll "host".toList = []
  ownAuthorization : ¬ OneOrigin (urlsTo past record.url) →
    record.wire.headers.getAll "authorization".toList = [] ∨
      record.wire.headers.getAll "authorization".toList =
        [Bytes.ofText (urlCredentials x.toNetCrates record.url)]
  ownCookie : ¬ OneOrigin (urlsTo past record.url) →
    record.wire.headers.getAll "cookie".toList = [] ∨
      record.wire.headers.getAll "cookie".toList = [Bytes.ofText record.cookie]

section Steps
variable {x : AgentCrates} {agent : Agent} {dial : Dial} {deadline : Option Instant}
  {worlds : Nat → HopWorld} {start : Url} {past : List HopRecord} {state state' : SendState}
  {record : HopRecord}

theorem ChainInv.tainted (hI : ChainInv x dial start past state) {hop : Hop}
    (h : applyTainting dial state.url state.hop = .ok hop) :
    hop.responseType = chainType dial.cors (urlsTo past state.url) := by
  obtain ⟨taint, htaint, htype, -, -⟩ := applyTainting_ok h
  rw [htype, hI.responseType]
  exact chainType_concat htaint

theorem ChainInv.sent (laws : x.UrlLaws) (hI : ChainInv x dial start past state)
    {answer : Except NetError Response}
    (h : exchange x agent dial state.url state.hop state.crossSiteRedirect deadline
      (worlds state.followed) = .ok (record, answer)) :
    HopRules x dial start worlds past record := by
  obtain ⟨hp, hurl, -, -, -⟩ := exchange_ok h
  refine {
    head := by rw [hurl]; exact hI.head
    link := by rw [hurl]; exact hI.link
    responseType := by rw [hurl]; exact hI.tainted hp.tainted
    sameOrigin := ?_
    site := ?_
    cookie := by rw [← hI.followed]; exact hp.cookie
    ownHost := ?_
    ownAuthorization := ?_
    ownCookie := ?_ }
  · intro hmode
    rw [hp.wireUrl, laws.fragmentOrigin]
    obtain ⟨taint, htaint, -, -, -⟩ := applyTainting_ok hp.tainted
    by_contra hne
    rcases hopTaint_of_ne (Ne.symm hne) htaint with ⟨hm, -⟩ | ⟨hm, -⟩ | ⟨hm, -⟩
    all_goals
      rw [hmode] at hm
      cases hm
  · rw [hurl]
    refine ⟨state.fetchSite, hI.site, ?_⟩
    rw [hp.others _ (by decide), hI.siteField]
  · intro hleft
    rw [hurl] at hleft
    rw [hp.others _ (by decide)]
    exact hI.originFields hleft _ (by decide)
  · intro hleft
    rw [hurl] at hleft ⊢
    have hnone := hI.originFields hleft "authorization".toList (by decide)
    rcases hp.authorization with ⟨hsame, -⟩ | ⟨-, -, -, hset⟩
    · exact .inl (hsame.trans hnone)
    · exact .inr hset
  · intro hleft
    rw [hurl] at hleft
    have hnone := hI.originFields hleft "cookie".toList (by decide)
    cases hsend : record.sendCredentials with
    | false => exact .inl (hp.refusedCookie hsend)
    | true =>
      rw [hp.jarCookie hnone hsend]
      split_ifs
      · exact .inl rfl
      · exact .inr rfl

/-- Each turn that goes on keeps the invariant. -/
theorem ChainInv.next (hI : ChainInv x dial start past state) {out : List HopRecord}
    (h : hopTurn x agent dial deadline worlds state = (out, .next state')) :
    ChainInv x dial start (past ++ out) state' := by
  obtain ⟨record, answer, status, location, policy, next, rfl, -, hsent, hlocation, hredirect⟩ :=
    hopTurn_next h
  obtain ⟨hp, hurl, -, -, -⟩ := exchange_ok hsent
  have hr := redirect_ok hredirect
  have hurls : urlsTo (past ++ [record]) state'.url = urlsTo past state.url ++ [next] := by
    unfold urlsTo
    rw [hr.url, List.map_append, List.map_singleton, hurl]
  refine {
    followed := by rw [hr.followed, hI.followed, List.length_append, List.length_singleton]
    head := ?_
    link := ?_
    responseType := ?_
    passed := ?_
    site := ?_
    siteField := hr.siteField
    originFields := ?_ }
  · rw [hurls, List.head?_append, hI.head]
    rfl
  · intro previous hprevious
    rw [List.getLast?_concat] at hprevious
    cases hprevious
    rw [hurl, hr.url]
    exact ⟨location, hlocation⟩
  · rw [hr.responseType, hI.tainted hp.tainted, List.map_append, List.map_singleton, hurl]
    rfl
  · intro passed hpassed
    rcases List.mem_append.1 hpassed with hpassed | hpassed
    · exact hI.passed passed hpassed
    · obtain ⟨taint, htaint, -⟩ := applyTainting_ok hp.tainted
      rw [List.mem_singleton.1 hpassed, hurl]
      exact ⟨taint, htaint⟩
  · rw [hurls, hr.fetchSite]
    exact hI.site.widen next
  · rw [hurls]
    intro hleft name hname
    refine hr.originFields name hname ?_
    by_cases heq : state.url.origin = next.origin
    · -- the chain had left an origin before
      have hbefore : ¬ OneOrigin (urlsTo past state.url) := fun hone => hleft (hone.concat heq)
      obtain ⟨-, -, -, hheaders, -⟩ := applyTainting_ok hp.tainted
      rw [hheaders]
      exact .inl (hI.originFields hbefore name hname)
    · exact .inr heq

end Steps

theorem ChainInv.start {x : AgentCrates} {agent : Agent} {request : Request} {state : SendState}
    (h : request.start x.toNetCrates agent = .ok state) :
    ChainInv x (request.dial agent) request.url [] state := by
  unfold Request.start at h
  obtain ⟨headers, hheaders, h⟩ := bind_eq_ok.1 h
  have hreferer := orReject_eq_ok.1 hheaders
  cases h
  refine {
    followed := rfl
    head := rfl
    link := fun previous hprevious => by cases hprevious
    responseType := ?_
    passed := fun record hrecord => by cases hrecord
    site := SiteOf.start x.toCrates request.initiator request.url
    siteField := ?_
    originFields := ?_ }
  · exact (chainType_eq_basic.2 (.inr fun url hurl => by cases hurl)).symm
  · dsimp only
    rw [getAll_writeReferer hreferer (by decide)]
    exact HeaderMap.getAll_set _ .secFetchSite _
  · intro hleft
    refine absurd ?_ hleft
    intro a ha b hb
    rw [List.mem_singleton.1 ha, List.mem_singleton.1 hb]

/-! ### The response -/

/-- What the URLs of a chain say about the response at its end. -/
structure ChainResult (agent : Agent) (cors : CorsSettings) (urls : List Url)
    (response : Response) : Prop where
  last : urls.getLast? = some response.finalUrl
  stopped : StopsAtRedirect agent cors response.status → response.filtering = .opaqueRedirect
  basic : ¬ StopsAtRedirect agent cors response.status → (response.filtering = .basic ↔
    cors.mode = .navigate ∨ ∀ url ∈ urls, url.origin = cors.origin)
  tainted : ¬ StopsAtRedirect agent cors response.status → response.filtering ≠ .basic →
    (cors.mode = .cors ∧ response.filtering = .cors cors.credentials.includes) ∨
      (cors.mode = .noCors ∧ response.filtering = .opaqueFilter)

theorem exchange_response {x : AgentCrates} {agent : Agent} {dial : Dial} {url : Url} {hop : Hop}
    {crossSiteRedirect : Bool} {deadline : Option Instant} {world : HopWorld} {record : HopRecord}
    {response : Response}
    (h : exchange x agent dial url hop crossSiteRedirect deadline world =
      .ok (record, .ok response)) :
    response.finalUrl = url ∧ response.filtering = record.hop.filtering dial := by
  obtain ⟨-, -, hanswer, -, -⟩ := exchange_ok h
  unfold Except.map at hanswer
  split at hanswer
  · cases hanswer
  · cases hanswer
    exact ⟨rfl, rfl⟩

theorem ChainInv.done {x : AgentCrates} {agent : Agent} {dial : Dial} {deadline : Option Instant}
    {worlds : Nat → HopWorld} {start : Url} {past out : List HopRecord} {state : SendState}
    {response : Response} (hI : ChainInv x dial start past state)
    (h : hopTurn x agent dial deadline worlds state = (out, .done (.ok response))) :
    ChainResult agent dial.cors ((past ++ out).map HopRecord.url) response := by
  obtain ⟨record, answer, rfl, hsent, hturn⟩ := hopTurn_done h
  obtain ⟨hp, hurl, -, -, -⟩ := exchange_ok hsent
  obtain ⟨hurl', hown⟩ := exchange_response hsent
  obtain ⟨hfinal, hstops, hgoes⟩ := answerTurn_done hturn
  have hurls : (past ++ [record]).map HopRecord.url = urlsTo past state.url := by
    rw [List.map_append, List.map_singleton, hurl]
    rfl
  have htype := hI.tainted hp.tainted
  have hpassed : ∀ url ∈ urlsTo past state.url, ∃ taint, hopTaint dial.cors url = .ok taint := by
    intro url hurl
    rcases List.mem_append.1 hurl with hurl | hurl
    · obtain ⟨passed, hmem, rfl⟩ := List.mem_map.1 hurl
      exact hI.passed passed hmem
    · obtain ⟨taint, htaint, -⟩ := applyTainting_ok hp.tainted
      rw [List.mem_singleton.1 hurl]
      exact ⟨taint, htaint⟩
  rw [hurls]
  refine {
    last := ?_
    stopped := hstops
    basic := ?_
    tainted := ?_ }
  · unfold urlsTo
    rw [List.getLast?_concat, hfinal, hurl']
  · intro hgo
    rw [hgoes hgo, hown, ← chainType_eq_basic, ← htype]
    unfold Hop.filtering
    cases record.hop.responseType <;> simp
  · intro hgo hne
    rw [hgoes hgo, hown] at hne ⊢
    unfold Hop.filtering at hne ⊢
    rw [htype] at hne ⊢
    have hbasic : chainType dial.cors (urlsTo past state.url) ≠ .basic := by
      intro hbasic
      rw [hbasic] at hne
      exact hne rfl
    rcases chainType_ne_basic hpassed hbasic with ⟨hmode, hcors⟩ | ⟨hmode, hopaq⟩
    · rw [hcors]
      exact .inl ⟨hmode, rfl⟩
    · rw [hopaq]
      exact .inr ⟨hmode, rfl⟩

section Runs
variable {x : AgentCrates} {agent : Agent} {request : Request} {started : Instant}
  {worlds : Nat → HopWorld}

theorem of_sent {P : List HopRecord → HopRecord → Prop}
    (hsent : ∀ past state record answer,
      ChainInv x (request.dial agent) request.url past state →
      exchange x agent (request.dial agent) state.url state.hop state.crossSiteRedirect
        (callDeadline agent request started) (worlds state.followed) = .ok (record, answer) →
      P past record)
    {past after : List HopRecord} {record : HopRecord}
    (h : (send x agent request started worlds).2 = past ++ record :: after) : P past record :=
  emitted_of_send (fun _ _ => ChainInv.start) (fun _ _ _ _ hI hnext => hI.next hnext) hsent h

theorem chainResult_of_send {response : Response}
    (h : (send x agent request started worlds).1 = .ok response) :
    ChainResult agent request.cors
      ((send x agent request started worlds).2.map HopRecord.url) response := by
  refine returned_of_send (R := fun past => ChainResult agent request.cors (past.map HopRecord.url))
    (fun state => ChainInv.start) (fun past s out s' hI hnext => hI.next hnext) ?_ h
  intro past s out response hI hdone
  exact hI.done hdone

end Runs

/-- Along every chain, whatever the answers: each hop obeys the rules, and the response is filtered
by the chain it went through. -/
theorem chain_of_send (x : AgentCrates) (laws : x.UrlLaws) (agent : Agent) (request : Request)
    (started : Instant) (worlds : Nat → HopWorld) :
    (∀ past record after, (send x agent request started worlds).2 = past ++ record :: after →
      HopRules x (request.dial agent) request.url worlds past record) ∧
    ∀ response, (send x agent request started worlds).1 = .ok response →
      ChainResult agent request.cors
        ((send x agent request started worlds).2.map HopRecord.url) response := by
  refine ⟨fun past record after h => ?_, fun response h => chainResult_of_send h⟩
  exact of_sent (fun past state record answer hI hsent => hI.sent laws hsent) h

/-! ### A small instance -/

/-- `https://other.test/`. -/
def Url.other : Url where
  scheme := "https".toList
  host := some (.domain "other.test".toList)
  path := "/".toList
  origin := .tuple "https".toList (.domain "other.test".toList) 443
  asStr := "https://other.test/".toList

/-- Locations lead to `https://other.test/` when they say so, and else to `https://example.com/`. -/
def AgentCrates.sample : AgentCrates where
  toNetCrates :=
    { NetCrates.sample with
      urlJoin := fun _ location =>
        if location = Url.other.asStr then some Url.other else some Url.sample }
  canonicalReason _ := none

theorem AgentCrates.sample_laws : AgentCrates.sample.UrlLaws := ⟨fun _ _ => rfl⟩

def Agent.sample (maxRedirects : Nat) : Agent where
  identity := ⟨Bytes.ofText "Agent".toList, Bytes.ofText "en".toList, ⟨[], [], []⟩⟩
  maxRedirects := maxRedirects
  timeoutGlobal := none

theorem lower_allowOrigin : Text.toAsciiLowercase "access-control-allow-origin".toList =
    "access-control-allow-origin".toList := by decide

/-- An answer that lets every origin read it. -/
def WireResponse.sample (status : Nat) (fields : List (HeaderName × Bytes)) : WireResponse where
  status := status
  headers := ⟨(⟨"access-control-allow-origin".toList, lower_allowOrigin⟩, Bytes.ofText "*".toList) :: fields⟩
  body := ⟨[], none⟩
  http2 := true

/-- A redirect to `url`. -/
def WireResponse.redirect (url : Url) : WireResponse :=
  .sample 302 [(⟨"location".toList, by decide⟩, Bytes.ofText url.asStr)]

def HopWorld.sample (jar : CookieJar) (answer : WireResponse) : HopWorld where
  clock := ⟨0, 0⟩
  preflight := .error .rejectedRequest
  jar := jar
  answer := .ok answer
  storeTime := 0
  storeJar := jar

/-- A script's `fetch` of `https://example.com/` from its own origin. -/
def Request.sample (mode : RequestMode) (redirect : RedirectMode) : Request :=
  { Request.new .get .sample with
    initiatorKind := .fetch
    initiator := some Url.sample.origin
    cors := ⟨mode, .sameOrigin, redirect, Url.sample.origin⟩ }

/-- The answers of a chain that leaves the origin of the request and comes back. -/
def HopWorld.return (jar : CookieJar) (last : WireResponse) : Nat → HopWorld
  | 0 => .sample jar (.redirect .other)
  | 1 => .sample jar (.redirect .sample)
  | _ => .sample jar last

/-- A chain that comes back stays tainted. -/
theorem chain_of_send_return : ∃ response,
    (send .sample (.sample 5) (.sample .cors .follow) 0
      (HopWorld.return .default (.sample 200 []))).1 = .ok response ∧
    response.filtering = .cors false := by
  have hrun : ((send .sample (.sample 5) (.sample .cors .follow) 0
      (HopWorld.return .default (.sample 200 []))).1.toOption.map Response.status) = some 200 := by
    decide +kernel
  have hleft : Url.other ∈ (send .sample (.sample 5) (.sample .cors .follow) 0
      (HopWorld.return .default (.sample 200 []))).2.map HopRecord.url := by decide +kernel
  have hresult := (chain_of_send .sample AgentCrates.sample_laws (.sample 5)
    (.sample .cors .follow) 0 (.return .default (.sample 200 []))).2
  generalize send .sample (.sample 5) (.sample .cors .follow) 0
    (HopWorld.return .default (.sample 200 [])) = run at hrun hleft hresult ⊢
  obtain ⟨result, records⟩ := run
  cases result with
  | error error => cases hrun
  | ok response =>
    have hchain := hresult response rfl
    have hgoes : ¬ StopsAtRedirect (.sample 5) (Request.sample .cors .follow).cors
        response.status := by
      rintro ⟨-, hmanual, -⟩
      cases hmanual
    have hne : response.filtering ≠ .basic := by
      intro hbasic
      rcases (hchain.basic hgoes).1 hbasic with hmode | hall
      · cases hmode
      · exact absurd (hall .other hleft) (by decide)
    refine ⟨response, rfl, ?_⟩
    rcases hchain.tainted hgoes hne with ⟨-, hcors⟩ | ⟨hmode, -⟩
    · exact hcors
    · cases hmode

/-- An agent that follows no redirect hands the redirect over as it is. -/
theorem exists_send_manual_basic : ¬ ∀ response,
    (send .sample (.sample 0) (.sample .cors .manual) 0
      (HopWorld.return .default (.sample 200 []))).1 = .ok response →
    isRedirectStatus response.status = true → response.filtering = .opaqueRedirect := by
  have hrun : ((send .sample (.sample 0) (.sample .cors .manual) 0
      (HopWorld.return .default (.sample 200 []))).1.toOption.map
        fun response => (response.status, response.filtering)) = some (302, .basic) := by
    decide +kernel
  generalize send .sample (.sample 0) (.sample .cors .manual) 0
    (HopWorld.return .default (.sample 200 [])) = run at hrun ⊢
  obtain ⟨result, records⟩ := run
  cases result with
  | error error => cases hrun
  | ok response =>
    obtain ⟨hstatus, hfiltering⟩ := Prod.mk.inj (Option.some.inj hrun)
    intro h
    have hopaq := h response rfl (by rw [hstatus]; decide)
    rw [hfiltering] at hopaq
    cases hopaq

end TinyBrowser
