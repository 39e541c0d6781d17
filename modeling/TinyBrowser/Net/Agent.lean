import TinyBrowser.Lib.EmitLoop
import TinyBrowser.Net.Hop

/-!
# Following redirects

`Agent::send` of `crates/net/src/client.rs`. One turn of its loop exchanges one hop and ends the
fetch or goes on to the redirect target; `sendFrom` takes turn after turn. Next to its result a
fetch leaves one record for each hop that went out.
-/

namespace TinyBrowser
open Lib Lib.EmitLoop

/-! ### Redirect targets -/

def isRedirectStatus (status : Nat) : Bool :=
  status = 301 || status = 302 || status = 303 || status = 307 || status = 308

def followableLocation (status : Nat) (headers : HeaderMap) : Option Bytes :=
  if isRedirectStatus status then headers.get "location".toList else none

def hexDigitUpper (n : Nat) : Char := if n < 10 then Char.ofNat (48 + n) else Char.ofNat (55 + n)

/-- A location as text, with every byte that is not ASCII percent-encoded. -/
def locationText (location : Bytes) : Text :=
  location.flatMap fun b =>
    if b < 0x80 then [Char.ofNat b.toNat]
    else ['%', hexDigitUpper (b.toNat / 16), hexDigitUpper (b.toNat % 16)]

example : locationText [0x2F, 0xFF] = "/%FF".toList := by decide

def isHttp (url : Url) : Bool := url.scheme = "http".toList || url.scheme = "https".toList

/-- A target without a fragment takes the one of the current URL. -/
def resolveLocation (x : NetCrates) (current : Url) (location : Bytes) : Except NetError Url :=
  match x.urlJoin current (locationText location) with
  | none => .error .rejectedRequest
  | some next =>
    if !isHttp next then .error .rejectedRequest
    else if x.fragment next = none && (x.fragment current).isSome then
      .ok (x.setFragment next (x.fragment current))
    else .ok next

/-! ### What a redirect does to a hop -/

/-- The fields that describe a body, dropped when a redirect turns the request into a `GET`. -/
def bodyFields : List Text :=
  ["content-encoding".toList, "content-language".toList, "content-location".toList,
    "content-type".toList, "content-length".toList, "transfer-encoding".toList]

/-- The fields that do not leave an origin. -/
def originFields : List Text := ["authorization".toList, "cookie".toList, "host".toList]

def HeaderMap.removeAll (map : HeaderMap) (names : List Text) : HeaderMap :=
  names.foldl HeaderMap.remove map

def becomesGet (status : Nat) (method : Method) : Bool :=
  ((status = 301 || status = 302) && method = Method.post) ||
    (status = 303 && method ≠ Method.get && method ≠ Method.head)

def Hop.toGet (status : Nat) (hop : Hop) : Hop :=
  if becomesGet status hop.method then
    { hop with
      method := .get
      body := none
      headers := hop.headers.removeAll bodyFields }
  else hop

def dropOriginFields (current next : Url) (headers : HeaderMap) : HeaderMap :=
  if current.origin ≠ next.origin then headers.removeAll originFields else headers

/-- A hint of the caller's own is for trustworthy origins only. -/
def dropUntrusted (x : Crates) (next : Url) (headers : HeaderMap) : HeaderMap :=
  if isPotentiallyTrustworthy x next then headers
  else headers.remove "sec-ch-prefers-color-scheme".toList

def applyRedirectPolicy (x : Crates) (status : Nat) (current next : Url) (hop : Hop) : Hop :=
  let hop := hop.toGet status
  { hop with headers := dropUntrusted x next (dropOriginFields current next hop.headers) }

/-! ### The answer of a hop -/

def corsGate (x : NetCrates) (response : Response) (dial : Dial) (hop : Hop) :
    Except NetError Unit :=
  if hop.responseType ≠ .cors then .ok ()
  else if Cors.corsCheck response.headers (hop.serializedOrigin x dial.cors)
      dial.credentialsInclude then .ok ()
  else .error .rejectedRequest

inductive HopOutcome where
  | final (response : Response)
  | redirect (next : Url)

/-- A redirect to a URL with credentials is refused once the request is `cors`-tainted or would
cross an origin. -/
def refusesCredentials (x : NetCrates) (dial : Dial) (hop : Hop) (next : Url) : Bool :=
  (x.username next ≠ [] || (x.password next).isSome) &&
    (hop.responseType = .cors || (dial.cors.mode = .cors && dial.cors.origin ≠ next.origin))

def followRedirect (x : NetCrates) (current : Url) (dial : Dial) (hop : Hop) (location : Bytes) :
    Except NetError HopOutcome := do
  let next ← resolveLocation x current location
  if refusesCredentials x dial hop next || dial.cors.redirect = .error then .error .rejectedRequest
  else .ok (.redirect next)

def classifyResponse (x : NetCrates) (response : Response) (current : Url) (dial : Dial)
    (hop : Hop) : Except NetError HopOutcome := do
  corsGate x response dial hop
  if dial.cors.redirect = .manual && isRedirectStatus response.status then
    .ok (.final { response with filtering := .opaqueRedirect })
  else match followableLocation response.status response.headers with
    | none => .ok (.final response)
    | some location => followRedirect x current dial hop location

/-! ### The loop -/

/-- `Referer` holds the determined referrer; a value from before never survives. -/
def writeReferer (x : NetCrates) (headers : HeaderMap) (referrer : Option Url) :
    Option HeaderMap :=
  match referrer with
  | some referrer => (headerFromStr x.http referrer.asStr).map fun value =>
      headers.set .referer value
  | none => some (headers.remove "referer".toList)

/-- The variables of the loop. -/
structure SendState where
  url : Url
  hop : Hop
  fetchSite : Option FetchSite
  referrerPolicy : ReferrerPolicy
  determined : Option Url
  crossSiteRedirect : Bool
  followed : Nat

def schemefulSameSite (x : Crates) (a b : Url) : Bool :=
  match siteTuple x a, siteTuple x b with
  | some left, some right => left = right
  | _, _ => false

/-- The state for the hop to `next`. -/
def SendState.redirect (x : NetCrates) (dial : Dial) (state : SendState) (hop : Hop)
    (status : Nat) (policy : Option ReferrerPolicy) (next : Url) : Except NetError SendState := do
  let hop := applyRedirectPolicy x.toCrates status state.url next hop
  let fetchSite := FetchSite.widen x.toCrates state.fetchSite dial.initiator next
  let referrerPolicy := policy.getD state.referrerPolicy
  let referrer := match state.determined with
    | some url => Referrer.url url
    | none => .noReferrer
  let determined := determineReferrer x referrerPolicy referrer next
  let headers ← orReject (writeReferer x (writeFetchSite hop.headers fetchSite) determined)
  return {
    url := next
    hop := { hop with headers := headers }
    fetchSite := fetchSite
    referrerPolicy := referrerPolicy
    determined := determined
    crossSiteRedirect :=
      state.crossSiteRedirect || !schemefulSameSite x.toCrates state.url next
    followed := state.followed + 1 }

/-- The policy that a response sets for the hops after it. -/
def redirectPolicy (response : Response) : Option ReferrerPolicy :=
  ReferrerPolicy.fromHeader ((response.headers.getAll "referrer-policy".toList).filterMap Bytes.toText?)

/-- Whether the redirect gate lets the fetch go on to `next`. -/
def Dial.admits (dial : Dial) (next : Url) (count : Nat) : Bool :=
  dial.onRedirect.all fun gate => gate next count

/-- Where a turn of the loop leads. -/
abbrev HopFlow := Flow SendState (Except NetError Response)

/-- The turn after its hop was answered. -/
def answerTurn (x : NetCrates) (agent : Agent) (dial : Dial) (state : SendState) (hop : Hop)
    (response : Response) : HopFlow :=
  let response :=
    { response with redirectCount := state.followed, referrer := state.determined }
  if agent.maxRedirects = 0 then .done ((corsGate x response dial hop).map fun _ => response)
  else match classifyResponse x response state.url dial hop with
    | .error error => .done (.error error)
    | .ok (.final response) => .done (.ok response)
    | .ok (.redirect next) =>
      if state.followed = agent.maxRedirects then .done (.error .redirectLimit)
      else if !dial.admits next (state.followed + 1) then .done (.error .rejectedRequest)
      else match state.redirect x dial hop response.status (redirectPolicy response) next with
        | .error error => .done (.error error)
        | .ok state => .next state

/-- One turn of the loop, and the record of its hop if that was sent. -/
def hopTurn (x : AgentCrates) (agent : Agent) (dial : Dial) (deadline : Option Instant)
    (worlds : Nat → HopWorld) (state : SendState) : List HopRecord × HopFlow :=
  match exchange x agent dial state.url state.hop state.crossSiteRedirect deadline
      (worlds state.followed) with
  | .error error => ([], .done (.error error))
  | .ok (record, .error error) => ([record], .done (.error error))
  | .ok (record, .ok response) =>
    ([record], answerTurn x.toNetCrates agent dial state record.hop response)

/-- Every turn that goes on follows one more redirect, so as many turns as the limit allows are
enough (`sendFrom_stable`). -/
def sendFrom (x : AgentCrates) (agent : Agent) (dial : Dial) (deadline : Option Instant)
    (worlds : Nat → HopWorld) (fuel : Nat) (state : SendState) :
    Except NetError Response × List HopRecord :=
  EmitLoop.run (hopTurn x agent dial deadline worlds) (.error .redirectLimit) fuel state

/-! ### The start -/

def HeaderMap.appendIfNone (map : HeaderMap) (name : HeaderName) (value : Bytes) : HeaderMap :=
  if map.value name.text = none then map.append name value else map

/-- The fields every request carries: `Accept`, `Accept-Language`, and the length of an empty
body. -/
def defaultHeaders (agent : Agent) (request : Request) : HeaderMap :=
  let headers := request.headers.appendIfNone .accept (Bytes.ofText "*/*".toList)
  let headers := headers.appendIfNone .acceptLanguage agent.identity.acceptLanguage
  if request.body.getD [] = [] &&
      (request.method = .post || request.method = .put || request.method = .patch) then
    headers.appendIfNone .contentLength (Bytes.ofText "0".toList)
  else headers

def Request.dial (agent : Agent) (request : Request) : Dial where
  cors := request.cors
  clientHints := agent.identity.hints
  initiatorKind := request.initiatorKind
  initiator := request.initiator
  onRedirect := request.onRedirect

def Request.start (x : NetCrates) (agent : Agent) (request : Request) :
    Except NetError SendState := do
  let fetchSite := request.initiator.map fun origin =>
    FetchSite.between x.toCrates origin request.url
  let determined := determineReferrer x request.referrerPolicy request.referrer request.url
  let headers := writeFetchSite (defaultHeaders agent request) fetchSite
  let headers ← orReject (writeReferer x headers determined)
  return {
    url := request.url
    hop := {
      method := request.method
      headers := headers
      body := request.body
      responseType := .basic
      previousUrl := none
      originTainted := false
      crossedOrigin := false }
    fetchSite := fetchSite
    referrerPolicy := request.referrerPolicy
    determined := determined
    crossSiteRedirect := false
    followed := 0 }

/-- The deadline of the call: the request's own only tightens the agent's. -/
def callDeadline (agent : Agent) (request : Request) (started : Instant) : Option Instant :=
  match agent.timeoutGlobal.map (started + ·), request.deadline with
  | some own, some deadline => some (min own deadline)
  | some own, none => some own
  | none, deadline => deadline

/-- `send`, started at `started`; hop `k` happens in `worlds k`. -/
def send (x : AgentCrates) (agent : Agent) (request : Request) (started : Instant)
    (worlds : Nat → HopWorld) : Except NetError Response × List HopRecord :=
  if !isHttp request.url then (.error .rejectedRequest, [])
  else match request.start x.toNetCrates agent with
    | .error error => (.error error, [])
    | .ok state => sendFrom x agent (request.dial agent) (callDeadline agent request started)
        worlds agent.maxRedirects state

end TinyBrowser
