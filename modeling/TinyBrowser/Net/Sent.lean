import TinyBrowser.Net.Agent

/-!
# What a hop sends

The inversion lemmas of one hop: how its tainting comes about, and which fields of its wire request
are the request's own (`PreparedHop`). Between the request's header list and the wire stand only the
fields of `writtenFields`; `Authorization` and `Cookie` among them are the credentials of the URL and
the cookies of the jar.
-/

namespace TinyBrowser
open Lib Lib.EmitLoop

theorem orReject_eq_ok {α : Type} {o : Option α} {a : α} : orReject o = .ok a ↔ o = some a := by
  cases o <;> simp [orReject]

theorem bind_eq_ok {α β : Type} {r : Except NetError α} {f : α → Except NetError β} {b : β} :
    (r >>= f) = .ok b ↔ ∃ a, r = .ok a ∧ f a = .ok b := by
  cases r with
  | error error =>
    constructor
    · intro h
      cases h
    · rintro ⟨a, h, -⟩
      cases h
  | ok a =>
    constructor
    · intro h
      exact ⟨a, rfl, h⟩
    · rintro ⟨_, ha, h⟩
      cases ha
      exact h

/-! ### Tainting -/

theorem applyTainting_ok {dial : Dial} {url : Url} {hop hop' : Hop}
    (h : applyTainting dial url hop = .ok hop') :
    ∃ taint, hopTaint dial.cors url = .ok taint ∧
      hop'.responseType = (if taint = .basic then hop.responseType else taint) ∧
      hop'.headers = hop.headers ∧ hop'.method = hop.method := by
  unfold applyTainting at h
  split at h
  · cases h
  · rename_i taint htaint
    cases h
    exact ⟨taint, htaint, rfl, rfl, rfl⟩

theorem hopTaint_of_eq {cors : CorsSettings} {url : Url} (h : cors.origin = url.origin) :
    hopTaint cors url = .ok .basic := if_pos h

/-- Across an origin boundary the mode decides, and it may refuse. -/
theorem hopTaint_of_ne {cors : CorsSettings} {url : Url} {taint : ResponseType}
    (hne : cors.origin ≠ url.origin) (h : hopTaint cors url = .ok taint) :
    (cors.mode = .navigate ∧ taint = .basic) ∨ (cors.mode = .cors ∧ taint = .cors) ∨
      (cors.mode = .noCors ∧ taint = .opaqueType) := by
  unfold hopTaint at h
  rw [if_neg hne] at h
  cases hmode : cors.mode with
  | navigate =>
    rw [hmode] at h
    cases h
    exact .inl ⟨rfl, rfl⟩
  | sameOrigin =>
    rw [hmode] at h
    cases h
  | cors =>
    rw [hmode] at h
    cases h
    exact .inr (.inl ⟨rfl, rfl⟩)
  | noCors =>
    rw [hmode] at h
    cases hredirect : cors.redirect with
    | manual =>
      rw [hredirect] at h
      cases h
    | follow | error =>
      rw [hredirect] at h
      cases h
      exact .inr (.inr ⟨rfl, rfl⟩)

/-! ### The fields of the wire request -/

/-- The fields a hop may write into its wire request. -/
def writtenFields : List HeaderName :=
  [.origin, .cookie, .userAgent, .authorization, .secChUa, .secChUaMobile, .secChUaPlatform]

section Fields
variable {x : NetCrates} {agent : Agent} {headers headers' : HeaderMap} {name : Text}

theorem getAll_applyCorsRequest {cors : CorsSettings} {hop : Hop} {wire : Url}
    {answer : Except NetError (Nat × HeaderMap)} {preflight : Option Preflight}
    (h : applyCorsRequest x agent cors hop wire headers answer = .ok (headers', preflight))
    (hname : HeaderName.origin.is name = false) : headers'.getAll name = headers.getAll name := by
  unfold applyCorsRequest at h
  obtain ⟨origin, -, h⟩ := bind_eq_ok.1 h
  obtain ⟨_, -, h⟩ := bind_eq_ok.1 h
  cases h
  split_ifs
  · exact HeaderMap.getAll_set_of_not headers origin hname
  · rfl

theorem mergeCookie_eq_some {cookie : Text} (h : mergeCookie x headers cookie = some headers') :
    (cookie = [] ∧ headers' = headers) ∨ ∃ value, headers' = headers.set .cookie value ∧
      (headers.getAll "cookie".toList = [] → value = Bytes.ofText cookie) ∧ cookie ≠ [] := by
  unfold mergeCookie at h
  split_ifs at h with hcookie
  · exact .inl ⟨hcookie, (Option.some.inj h).symm⟩
  · right
    obtain ⟨value, hvalue, rfl⟩ := Option.map_eq_some_iff.1 h
    refine ⟨value, rfl, ?_, hcookie⟩
    intro hnone
    have hno : headers.value "cookie".toList = none := by
      rw [HeaderMap.value_eq_get, HeaderMap.get, hnone]
      rfl
    rw [hno] at hvalue
    unfold headerFromStr at hvalue
    split_ifs at hvalue
    exact (Option.some.inj hvalue).symm

theorem prepareOutbound_ok {cookie : Text}
    (h : prepareOutbound x agent headers cookie = .ok headers') :
    ∃ merged, mergeCookie x headers cookie = some merged ∧
      (headers' = merged ∨ headers' = merged.append .userAgent agent.identity.userAgent) := by
  unfold prepareOutbound at h
  obtain ⟨merged, hmerged, h⟩ := bind_eq_ok.1 h
  refine ⟨merged, orReject_eq_ok.1 hmerged, ?_⟩
  split_ifs at h
  · cases h
    exact .inr rfl
  · cases h
    exact .inl rfl

theorem getAll_prepareOutbound {cookie : Text}
    (h : prepareOutbound x agent headers cookie = .ok headers')
    (hcookie : HeaderName.cookie.is name = false) (hagent : HeaderName.userAgent.is name = false) :
    headers'.getAll name = headers.getAll name := by
  obtain ⟨merged, hmerged, hheaders⟩ := prepareOutbound_ok h
  have hkeep : merged.getAll name = headers.getAll name := by
    rcases mergeCookie_eq_some hmerged with ⟨-, rfl⟩ | ⟨value, rfl, -, -⟩
    · rfl
    · exact HeaderMap.getAll_set_of_not headers value hcookie
  rcases hheaders with rfl | rfl
  · exact hkeep
  · rw [HeaderMap.getAll_append_of_not merged _ hagent, hkeep]

theorem getAll_cookie_prepareOutbound {cookie : Text}
    (h : prepareOutbound x agent headers cookie = .ok headers')
    (hnone : headers.getAll "cookie".toList = []) :
    headers'.getAll "cookie".toList = if cookie = [] then [] else [Bytes.ofText cookie] := by
  obtain ⟨merged, hmerged, hheaders⟩ := prepareOutbound_ok h
  have hcookie : merged.getAll "cookie".toList = if cookie = [] then [] else
      [Bytes.ofText cookie] := by
    rcases mergeCookie_eq_some hmerged with ⟨hcookie, rfl⟩ | ⟨value, rfl, hvalue, hcookie⟩
    · rw [if_pos hcookie, hnone]
    · rw [if_neg hcookie, ← hvalue hnone]
      exact HeaderMap.getAll_set headers .cookie value
  rcases hheaders with rfl | rfl
  · exact hcookie
  · rw [HeaderMap.getAll_append_of_not merged _ (by decide), hcookie]

theorem getAll_write {hints : ClientHints} (headers : HeaderMap) (url : Url)
    (hname : ∀ field ∈ [HeaderName.secChUa, .secChUaMobile, .secChUaPlatform],
      field.is name = false) :
    (hints.write x.toCrates headers url).getAll name = headers.getAll name := by
  unfold ClientHints.write
  split_ifs
  · rw [HeaderMap.getAll_append_of_not _ _ (hname _ (by simp)),
      HeaderMap.getAll_append_of_not _ _ (hname _ (by simp)),
      HeaderMap.getAll_append_of_not _ _ (hname _ (by simp))]
  · rfl

theorem prepareCredentials_ok {dial : Dial} {url : Url} {crossOrigin : Bool}
    (h : prepareCredentials x dial url crossOrigin headers = .ok headers') :
    ∃ gated, gateCredentials x dial.cors.credentials url crossOrigin headers = some gated ∧
      headers' = dial.clientHints.write x.toCrates gated url := by
  unfold prepareCredentials at h
  obtain ⟨gated, hgated, h⟩ := bind_eq_ok.1 h
  cases h
  exact ⟨gated, orReject_eq_ok.1 hgated, rfl⟩

theorem applyUrlCredentials_eq_some {url : Url}
    (h : applyUrlCredentials x headers url = some headers') :
    (headers' = headers ∧ (headers.getAll "authorization".toList = [] → x.username url = [])) ∨
      (headers.getAll "authorization".toList = [] ∧ x.username url ≠ [] ∧
        headers' = headers.set .authorization (Bytes.ofText (urlCredentials x url))) := by
  unfold applyUrlCredentials at h
  split_ifs at h with hkeep
  · refine .inl ⟨(Option.some.inj h).symm, fun hnone => ?_⟩
    rw [Bool.or_eq_true, decide_eq_true_eq, decide_eq_true_eq] at hkeep
    refine hkeep.resolve_left fun hsome => hsome ?_
    rw [HeaderMap.value_eq_get, HeaderMap.get, hnone]
    rfl
  · right
    rw [Bool.or_eq_true, decide_eq_true_eq, decide_eq_true_eq, not_or, not_not] at hkeep
    obtain ⟨value, hvalue, rfl⟩ := Option.map_eq_some_iff.1 h
    unfold headerFromStr at hvalue
    split_ifs at hvalue
    refine ⟨?_, hkeep.2, by rw [Option.some.inj hvalue]⟩
    have hnone := hkeep.1
    rw [HeaderMap.value_eq_get, HeaderMap.get, List.head?_eq_none_iff] at hnone
    exact hnone

variable {credentials : CredentialsMode} {url : Url} {crossOrigin : Bool}

theorem getAll_gateCredentials
    (h : gateCredentials x credentials url crossOrigin headers = some headers')
    (hauth : HeaderName.authorization.is name = false)
    (hcookie : HeaderName.cookie.is name = false) :
    headers'.getAll name = headers.getAll name := by
  unfold gateCredentials at h
  split_ifs at h
  · rcases applyUrlCredentials_eq_some h with ⟨rfl, -⟩ | ⟨-, -, rfl⟩
    · rfl
    · exact HeaderMap.getAll_set_of_not headers _ hauth
  · rw [← Option.some.inj h]
    exact HeaderMap.getAll_remove_of_not headers hcookie

theorem getAll_cookie_gateCredentials
    (h : gateCredentials x credentials url crossOrigin headers = some headers') :
    headers'.getAll "cookie".toList =
      if Cors.credentialsAdmitted credentials crossOrigin then headers.getAll "cookie".toList
      else [] := by
  unfold gateCredentials at h
  split_ifs at h ⊢
  · rcases applyUrlCredentials_eq_some h with ⟨rfl, -⟩ | ⟨-, -, rfl⟩
    · rfl
    · exact HeaderMap.getAll_set_of_not headers _ (by decide)
  · rw [← Option.some.inj h]
    exact HeaderMap.getAll_remove headers _

/-- Only admitted credentials of the URL are written, and only where no `Authorization` was. -/
theorem getAll_authorization_gateCredentials
    (h : gateCredentials x credentials url crossOrigin headers = some headers') :
    (headers'.getAll "authorization".toList = headers.getAll "authorization".toList ∧
      (Cors.credentialsAdmitted credentials crossOrigin = true →
        headers.getAll "authorization".toList = [] → x.username url = [])) ∨
      (Cors.credentialsAdmitted credentials crossOrigin = true ∧
        headers.getAll "authorization".toList = [] ∧ x.username url ≠ [] ∧
        headers'.getAll "authorization".toList = [Bytes.ofText (urlCredentials x url)]) := by
  unfold gateCredentials at h
  split_ifs at h with hadmitted
  · rcases applyUrlCredentials_eq_some h with ⟨rfl, huser⟩ | ⟨hnone, huser, rfl⟩
    · exact .inl ⟨rfl, fun _ => huser⟩
    · exact .inr ⟨hadmitted, hnone, huser, HeaderMap.getAll_set headers .authorization _⟩
  · rw [← Option.some.inj h]
    refine .inl ⟨HeaderMap.getAll_remove_of_not headers (by decide), fun hadmitted' => ?_⟩
    exact absurd hadmitted' hadmitted

end Fields

/-! ### A prepared hop -/

/-- What the request of a hop is made of: `hop` is the state before it. -/
structure PreparedHop (x : AgentCrates) (dial : Dial) (url : Url) (hop : Hop) (world : HopWorld)
    (out : Outbound) : Prop where
  tainted : applyTainting dial url hop = .ok out.hop
  wireUrl : out.wire.url = x.setFragment url none
  sendCredentials : out.sendCredentials =
    Cors.credentialsAdmitted dial.cors.credentials (decide (dial.cors.origin ≠ out.wire.url.origin))
  cookie : out.cookie = (world.jar.cookieString x.toCrates out.operation).1
  others : ∀ name, (∀ field ∈ writtenFields, field.is name = false) →
    out.wire.headers.getAll name = hop.headers.getAll name
  refusedCookie : out.sendCredentials = false → out.wire.headers.getAll "cookie".toList = []
  jarCookie : hop.headers.getAll "cookie".toList = [] → out.sendCredentials = true →
    out.wire.headers.getAll "cookie".toList =
      if out.cookie = [] then [] else [Bytes.ofText out.cookie]
  authorization : (out.wire.headers.getAll "authorization".toList =
      hop.headers.getAll "authorization".toList ∧ (out.sendCredentials = true →
        hop.headers.getAll "authorization".toList = [] → x.username url = [])) ∨
    (out.sendCredentials = true ∧ hop.headers.getAll "authorization".toList = [] ∧
      x.username url ≠ [] ∧ out.wire.headers.getAll "authorization".toList =
        [Bytes.ofText (urlCredentials x.toNetCrates url)])

theorem prepareHop_ok {x : AgentCrates} {agent : Agent} {dial : Dial} {url : Url} {hop : Hop}
    {crossSiteRedirect : Bool} {deadline : Option Instant} {world : HopWorld} {out : Outbound}
    (h : prepareHop x agent dial url hop crossSiteRedirect deadline world = .ok out) :
    PreparedHop x dial url hop world out := by
  unfold prepareHop at h
  obtain ⟨tainted, htainted, h⟩ := bind_eq_ok.1 h
  obtain ⟨-, -, h⟩ := bind_eq_ok.1 h
  obtain ⟨⟨fromCors, preflight⟩, hcors, h⟩ := bind_eq_ok.1 h
  obtain ⟨outbound, houtbound, h⟩ := bind_eq_ok.1 h
  obtain ⟨final, hfinal, h⟩ := bind_eq_ok.1 h
  cases h
  obtain ⟨gated, hgated, rfl⟩ := prepareCredentials_ok hfinal
  obtain ⟨-, -, -, hheaders, -⟩ := applyTainting_ok htainted
  have hkeep : ∀ {name}, HeaderName.origin.is name = false →
      fromCors.getAll name = hop.headers.getAll name := by
    intro name hname
    rw [getAll_applyCorsRequest hcors hname, hheaders]
  have hhints : ∀ field ∈ [HeaderName.secChUa, .secChUaMobile, .secChUaPlatform],
      field ∈ writtenFields := by decide
  refine {
    tainted := htainted
    wireUrl := rfl
    sendCredentials := rfl
    cookie := rfl
    others := ?_
    refusedCookie := ?_
    jarCookie := ?_
    authorization := ?_ }
  · intro name hname
    dsimp only
    rw [getAll_write gated url fun field hfield => hname field (hhints field hfield),
      getAll_gateCredentials hgated (hname _ (by decide)) (hname _ (by decide)),
      getAll_prepareOutbound houtbound (hname _ (by decide)) (hname _ (by decide)),
      hkeep (hname _ (by decide))]
  · intro hrefused
    dsimp only at hrefused ⊢
    rw [getAll_write gated url (by decide), getAll_cookie_gateCredentials hgated, hrefused]
    rfl
  · intro hnone hadmitted
    dsimp only at hadmitted ⊢
    rw [getAll_write gated url (by decide), getAll_cookie_gateCredentials hgated, if_pos hadmitted]
    exact getAll_cookie_prepareOutbound houtbound ((hkeep (by decide)).trans hnone)
  · dsimp only
    rw [getAll_write gated url (by decide)]
    have hauth : outbound.getAll "authorization".toList =
        hop.headers.getAll "authorization".toList := by
      rw [getAll_prepareOutbound houtbound (by decide) (by decide), hkeep (by decide)]
    rcases getAll_authorization_gateCredentials hgated with
      ⟨hsame, huser⟩ | ⟨hadmitted, hnone, huser, hset⟩
    · refine .inl ⟨hsame.trans hauth, fun hadmitted hnone => ?_⟩
      exact huser hadmitted (hauth.trans hnone)
    · exact .inr ⟨hadmitted, hauth.symm.trans hnone, huser, hset⟩

theorem exchange_ok {x : AgentCrates} {agent : Agent} {dial : Dial} {url : Url} {hop : Hop}
    {crossSiteRedirect : Bool} {deadline : Option Instant} {world : HopWorld} {record : HopRecord}
    {answer : Except NetError Response}
    (h : exchange x agent dial url hop crossSiteRedirect deadline world = .ok (record, answer)) :
    PreparedHop x dial url hop world record.toOutbound ∧ record.url = url ∧
      answer = world.answer.map (record.hop.response x dial url) ∧
      record.stored = (if record.sendCredentials then world.setCookieLines else []) ∧
      record.jar = storeSetCookieLines x.toCrates world.storeJar world.storeTime record.operation
        record.stored := by
  unfold exchange at h
  obtain ⟨outbound, houtbound, h⟩ := bind_eq_ok.1 h
  cases h
  exact ⟨prepareHop_ok houtbound, rfl, rfl, rfl, rfl⟩

end TinyBrowser
