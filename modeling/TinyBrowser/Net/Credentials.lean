import TinyBrowser.Net.Chain

/-!
# Same-origin credentials along a chain

Under the credentials mode `same-origin` a hop is admitted credentials by its own URL alone, while
its tainting remembers the whole chain. The two differ on the hops that return to the origin of the
request after the chain has left it, so only basic hops send and store credentials exactly when the
hops that return have none to send and none to store (`credentials_of_send`).
-/

namespace TinyBrowser
open Lib Lib.EmitLoop

/-- The hop is back at the request's origin after an earlier one was not there. -/
def Returns (cors : CorsSettings) (past : List HopRecord) (record : HopRecord) : Prop :=
  record.url.origin = cors.origin ∧ ∃ earlier ∈ past, earlier.url.origin ≠ cors.origin

/-- No credentials went out with the hop or came in: no `Cookie` field, no `Authorization` field
but the request's own, no `Set-Cookie` line handed to the jar, be it one that the jar refuses. -/
structure Withheld (record : HopRecord) : Prop where
  cookie : record.wire.headers.getAll "cookie".toList = []
  authorization : record.wire.headers.getAll "authorization".toList =
    record.hop.headers.getAll "authorization".toList
  stored : record.stored = []

/-- The hop has no credentials to send and none to store: no cookie in the jar, no user name in the
URL, no `Set-Cookie` line in the answer. -/
structure Bare (x : AgentCrates) (world : HopWorld) (record : HopRecord) : Prop where
  cookies : (world.jar.cookieString x.toCrates record.operation).1 = []
  username : x.username record.url = []
  lines : world.setCookieLines = []

/-- What decides about the credentials of a hop. -/
structure CredentialRules (x : AgentCrates) (cors : CorsSettings) (world : HopWorld)
    (past : List HopRecord) (record : HopRecord) : Prop where
  admitted : record.sendCredentials = true ↔ record.url.origin = cors.origin
  basic : record.hop.responseType = .basic ↔
    ∀ url ∈ urlsTo past record.url, url.origin = cors.origin
  refused : record.sendCredentials = false → Withheld record
  returned : Returns cors past record → (Withheld record ↔ Bare x world record)

section Rules
variable {x : AgentCrates} {agent : Agent} {request : Request} {started : Instant}
  {worlds : Nat → HopWorld} {past after : List HopRecord} {record : HopRecord} {cors : CorsSettings}

theorem Returns.leaves (h : Returns cors past record) : ¬ OneOrigin (urlsTo past record.url) := by
  obtain ⟨hhere, earlier, hmem, hleft⟩ := h
  intro hone
  have hearlier : earlier.url ∈ urlsTo past record.url :=
    List.mem_append_left _ (List.mem_map_of_mem hmem)
  refine hleft ((hone earlier.url hearlier record.url ?_).trans hhere)
  exact List.mem_append_right _ (List.mem_singleton_self _)

/-- A hop whose chain has left an origin has no fields of its own left that could hide what the jar
and the URL give. -/
theorem withheld_iff {dial : Dial} {start : Url} {state : SendState} {world : HopWorld}
    (hI : ChainInv x dial start past state)
    (hp : PreparedHop x dial state.url state.hop world record.toOutbound)
    (hleft : ¬ OneOrigin (urlsTo past state.url)) (hurl : record.url = state.url)
    (hadmitted : record.sendCredentials = true)
    (hstored : record.stored = if record.sendCredentials then world.setCookieLines else []) :
    Withheld record ↔ Bare x world record := by
  have hheaders : record.hop.headers = state.hop.headers := by
    obtain ⟨-, -, -, hheaders, -⟩ := applyTainting_ok hp.tainted
    exact hheaders
  have hauth : state.hop.headers.getAll "authorization".toList = [] :=
    hI.originFields hleft _ (by decide)
  have hcookie := hp.jarCookie (hI.originFields hleft _ (by decide)) hadmitted
  rw [hp.cookie] at hcookie
  rw [hadmitted, if_pos rfl] at hstored
  constructor
  · intro h
    refine ⟨?_, ?_, hstored.symm.trans h.stored⟩
    · by_contra hsome
      rw [if_neg hsome, h.cookie] at hcookie
      cases hcookie
    · rw [hurl]
      rcases hp.authorization with ⟨-, huser⟩ | ⟨-, -, -, hset⟩
      · exact huser hadmitted hauth
      · have hown := h.authorization
        rw [hheaders, hauth, hset] at hown
        cases hown
  · intro h
    refine ⟨?_, ?_, hstored.trans h.lines⟩
    · rw [hcookie, if_pos h.cookies]
    · rw [hheaders]
      rcases hp.authorization with ⟨hsame, -⟩ | ⟨-, -, huser, -⟩
      · exact hsame
      · exact absurd (hurl ▸ h.username) huser

theorem credentialRules_of_send (laws : x.UrlLaws)
    (hcredentials : request.cors.credentials = .sameOrigin)
    (hmode : request.cors.mode = .cors ∨ request.cors.mode = .noCors)
    (h : (send x agent request started worlds).2 = past ++ record :: after) :
    CredentialRules x request.cors (worlds past.length) past record := by
  refine of_sent (P := fun past record =>
    CredentialRules x request.cors (worlds past.length) past record) ?_ h
  intro past state record answer hI hsent
  obtain ⟨hp, hurl, -, hstored, -⟩ := exchange_ok hsent
  rw [hI.followed] at hp hstored
  have hnavigate : request.cors.mode ≠ .navigate := by
    rcases hmode with hmode | hmode
    all_goals
      rw [hmode]
      decide
  have hadmitted : record.sendCredentials = true ↔ record.url.origin = request.cors.origin := by
    have hsend : record.sendCredentials = Cors.credentialsAdmitted request.cors.credentials
        (decide (request.cors.origin ≠ record.wire.url.origin)) := hp.sendCredentials
    rw [hsend, hcredentials, hp.wireUrl, laws.fragmentOrigin, hurl]
    unfold Cors.credentialsAdmitted
    rw [Bool.not_eq_true', decide_eq_false_iff_not, not_not]
    exact eq_comm
  refine {
    admitted := hadmitted
    basic := ?_
    refused := fun hrefused => ⟨hp.refusedCookie hrefused, ?_, ?_⟩
    returned := ?_ }
  · have htype : record.hop.responseType = chainType request.cors (urlsTo past state.url) :=
      hI.tainted hp.tainted
    rw [htype, chainType_eq_basic, hurl]
    exact or_iff_right hnavigate
  · obtain ⟨-, -, -, hheaders, -⟩ := applyTainting_ok hp.tainted
    rw [hheaders]
    rcases hp.authorization with ⟨hsame, -⟩ | ⟨hsend, -, -, -⟩
    · exact hsame
    · rw [hrefused] at hsend
      cases hsend
  · rw [hstored, hrefused]
    rfl
  · intro hreturns
    have hleft := hreturns.leaves
    rw [hurl] at hleft
    exact withheld_iff hI hp hleft hurl (hadmitted.2 hreturns.1) hstored

theorem CredentialRules.returns {world : HopWorld} (h : CredentialRules x cors world past record)
    (hadmitted : record.sendCredentials = true) (htainted : record.hop.responseType ≠ .basic) :
    Returns cors past record := by
  have hhere := h.admitted.1 hadmitted
  refine ⟨hhere, ?_⟩
  by_contra hno
  refine htainted (h.basic.2 ?_)
  intro url hurl
  rcases List.mem_append.1 hurl with hurl | hurl
  · obtain ⟨earlier, hmem, rfl⟩ := List.mem_map.1 hurl
    by_contra hleft
    exact hno ⟨earlier, hmem, hleft⟩
  · rw [List.mem_singleton.1 hurl, hhere]

theorem CredentialRules.tainted {world : HopWorld} (h : CredentialRules x cors world past record)
    (hreturns : Returns cors past record) : record.hop.responseType ≠ .basic := by
  obtain ⟨-, earlier, hmem, hleft⟩ := hreturns
  intro hbasic
  exact hleft (h.basic.1 hbasic earlier.url (List.mem_append_left _ (List.mem_map_of_mem hmem)))

end Rules

/-- Every hop that is not basic goes without credentials exactly when the hops that return to the
origin of the request have none. -/
theorem credentials_of_send (x : AgentCrates) (laws : x.UrlLaws) (agent : Agent)
    (request : Request) (started : Instant) (worlds : Nat → HopWorld)
    (hcredentials : request.cors.credentials = .sameOrigin)
    (hmode : request.cors.mode = .cors ∨ request.cors.mode = .noCors) :
    (∀ record ∈ (send x agent request started worlds).2,
        record.hop.responseType ≠ .basic → Withheld record) ↔
      ∀ past record after, (send x agent request started worlds).2 = past ++ record :: after →
        Returns request.cors past record → Bare x (worlds past.length) record := by
  have hrules : ∀ {past record after},
      (send x agent request started worlds).2 = past ++ record :: after →
        CredentialRules x request.cors (worlds past.length) past record :=
    fun h => credentialRules_of_send laws hcredentials hmode h
  constructor
  · intro h past record after hsplit hreturns
    have hrule := hrules hsplit
    have hmem : record ∈ (send x agent request started worlds).2 := by
      rw [hsplit]
      exact List.mem_append_right _ List.mem_cons_self
    exact (hrule.returned hreturns).1 (h record hmem (hrule.tainted hreturns))
  · intro h record hrecord htainted
    obtain ⟨past, after, hsplit⟩ := List.append_of_mem hrecord
    have hrule := hrules hsplit
    cases hsend : record.sendCredentials with
    | false => exact hrule.refused hsend
    | true =>
      have hreturns := hrule.returns hsend htainted
      exact (hrule.returned hreturns).2 (h past record after hsplit hreturns)

/-- A store for `https://example.com/` from any site. -/
def CookieOp.crossSite : CookieOp where
  url := .sample
  now := 0
  kind := .http
  initiatorKind := .navigation
  methodIsSafe := true
  initiator := none
  crossSiteRedirect := false

/-- A jar with one cookie for `https://example.com/`, for requests from any site. -/
def CookieJar.crossSite : CookieJar :=
  (CookieJar.default.store .sample "a=1; Secure; SameSite=None".toList .crossSite).2

theorem lower_location : Text.toAsciiLowercase "location".toList = "location".toList := by decide

theorem lower_setCookie : Text.toAsciiLowercase "set-cookie".toList = "set-cookie".toList := by decide

def crossSiteLine : Text := "b=2; Secure; SameSite=None".toList

def WireResponse.settingCookie : WireResponse :=
  .sample 200 [(⟨"set-cookie".toList, lower_setCookie⟩, Bytes.ofText crossSiteLine)]

/-- The same cookie for five seconds. -/
def CookieJar.brief : CookieJar :=
  (CookieJar.default.store .sample "a=1; Max-Age=5; Secure; SameSite=None".toList .crossSite).2

def briefLine : Text := "b=2; Max-Age=5; Secure; SameSite=None".toList

def CookieJar.briefTwo : CookieJar := (CookieJar.brief.store .sample briefLine .crossSite).2

/-- The answers of a chain that sets a cookie at the origin of the request, stays there for a hop,
leaves it and comes back when its cookies have expired. -/
def HopWorld.expired : Nat → HopWorld
  | 0 => .sample .brief (.sample 302 [(⟨"location".toList, lower_location⟩,
      Bytes.ofText Url.sample.asStr), (⟨"set-cookie".toList, lower_setCookie⟩, Bytes.ofText briefLine)])
  | 1 => .sample .briefTwo (.redirect .other)
  | 2 => .sample .briefTwo (.redirect .sample)
  | _ => { HopWorld.sample .briefTwo (.sample 200 []) with clock := ⟨10 * nanosPerSec, 0⟩ }

/-- The basic hops send and set cookies, and the one that comes back has none left. -/
theorem credentials_of_send_expired :
    ((send .sample (.sample 5) (.sample .cors .follow) 0 .expired).2.map fun record =>
      (record.hop.responseType, record.wire.headers.getAll "cookie".toList, record.stored)) =
      [(.basic, [Bytes.ofText "a=1".toList], [briefLine]),
        (.basic, [Bytes.ofText "a=1; b=2".toList], []), (.cors, [], []), (.cors, [], [])] ∧
    ∀ record ∈ (send .sample (.sample 5) (.sample .cors .follow) 0 .expired).2,
      record.hop.responseType ≠ .basic → Withheld record := by
  refine ⟨by decide +kernel, ?_⟩
  refine (credentials_of_send .sample AgentCrates.sample_laws (.sample 5) (.sample .cors .follow) 0
    .expired rfl (.inl rfl)).2 ?_
  have hurls : (send .sample (.sample 5) (.sample .cors .follow) 0 .expired).2.map HopRecord.url =
      [.sample, .sample, .other, .sample] := by decide +kernel
  have hlast : ∀ record ∈ (send .sample (.sample 5) (.sample .cors .follow) 0 .expired).2.drop 3,
      (CookieJar.briefTwo.cookieString .sample record.operation).1 = [] := by decide +kernel
  intro past record after hsplit hreturns
  rw [hsplit] at hurls hlast
  have hleft : ¬ ∀ earlier ∈ past, earlier.url = .sample := by
    obtain ⟨-, earlier, hmem, hne⟩ := hreturns
    intro hall
    exact hne (congrArg Url.origin (hall earlier hmem))
  rcases past with _ | ⟨first, _ | ⟨second, _ | ⟨third, past⟩⟩⟩
  · simp at hleft
  · simp_all
  · simp_all
  · refine ⟨hlast record ?_, rfl, rfl⟩
    simp

/-- The hop that comes back carries the jar's cookie and hands the jar another, though it is tainted. -/
theorem exists_send_returned_credentials : ¬ ∀ record ∈
    (send .sample (.sample 5) (.sample .cors .follow) 0 (HopWorld.return .crossSite .settingCookie)).2,
    record.hop.responseType ≠ .basic → Withheld record := by
  have hrun : ((send .sample (.sample 5) (.sample .cors .follow) 0
      (HopWorld.return .crossSite .settingCookie)).2.map fun record =>
        (record.hop.responseType, record.wire.headers.getAll "cookie".toList, record.stored)) =
      [(.basic, [Bytes.ofText "a=1".toList], []), (.cors, [], []),
        (.cors, [Bytes.ofText "a=1".toList], [crossSiteLine])] := by decide +kernel
  have hlast : (ResponseType.cors, [Bytes.ofText "a=1".toList], [crossSiteLine]) ∈
      [(ResponseType.basic, [Bytes.ofText "a=1".toList], ([] : List Text)), (.cors, [], []),
        (.cors, [Bytes.ofText "a=1".toList], [crossSiteLine])] := by simp
  intro h
  rw [← hrun] at hlast
  obtain ⟨record, hmem, hrecord⟩ := List.mem_map.1 hlast
  obtain ⟨htype, hfields⟩ := Prod.mk.inj hrecord
  obtain ⟨-, hstored⟩ := Prod.mk.inj hfields
  have hwithheld := h record hmem (by rw [htype]; decide)
  rw [hwithheld.stored] at hstored
  cases hstored

end TinyBrowser
