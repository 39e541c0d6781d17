import TinyBrowser.Net.ReferrerPolicy

/-!
# One hop of a fetch

`Agent::exchange` of `crates/net/src/client.rs`: the tainting a hop acquires, the CORS rules for its
request, its cookies and credentials, and the cookies it stores. `HopWorld` is what a hop gets from
outside: clocks, the shared jar each time it is locked, the answers of the transport. A hop whose
request is handed to the transport leaves a `HopRecord`.
-/

namespace TinyBrowser
open Lib

/-- Adds to `NetCrates` the reason phrases of the `http` crate. -/
structure AgentCrates extends NetCrates where
  canonicalReason : Nat → Option Text

/-- What the standard says of a URL's setters: the fragment is not part of the origin. -/
structure NetCrates.UrlLaws (x : NetCrates) : Prop where
  fragmentOrigin : ∀ url fragment, (x.setFragment url fragment).origin = url.origin

def orReject {α : Type} : Option α → Except NetError α
  | some a => .ok a
  | none => .error .rejectedRequest

/-! ### Client hints and `Sec-Fetch-Site` -/

structure ClientHints where
  ua : Bytes
  mobile : Bytes
  platform : Bytes

def ClientHints.write (x : Crates) (hints : ClientHints) (headers : HeaderMap) (url : Url) :
    HeaderMap :=
  if isPotentiallyTrustworthy x url then
    ((headers.append .secChUa hints.ua).append .secChUaMobile hints.mobile).append
      .secChUaPlatform hints.platform
  else headers

/-- From narrowest to widest. -/
inductive FetchSite where
  | sameOrigin
  | sameSite
  | crossSite
deriving DecidableEq, Repr

namespace FetchSite

def rank : FetchSite → Nat
  | .sameOrigin => 0
  | .sameSite => 1
  | .crossSite => 2

theorem rank_injective : Function.Injective rank := by
  intro a b h
  cases a <;> cases b <;> first | rfl | cases h

instance : LinearOrder FetchSite := LinearOrder.lift' rank rank_injective

def between (x : Crates) (origin : Origin) (target : Url) : FetchSite :=
  if origin = target.origin then .sameOrigin
  else if originsSameSite x origin target.origin then .sameSite
  else .crossSite

def widen (x : Crates) (current : Option FetchSite) (initiator : Option Origin) (target : Url) :
    Option FetchSite :=
  current.map fun current => match initiator with
    | some origin => max current (between x origin target)
    | none => current

def token : FetchSite → Text
  | .sameOrigin => "same-origin".toList
  | .sameSite => "same-site".toList
  | .crossSite => "cross-site".toList

end FetchSite

def fetchSiteToken : Option FetchSite → Text
  | some site => site.token
  | none => "none".toList

def writeFetchSite (headers : HeaderMap) (site : Option FetchSite) : HeaderMap :=
  headers.set .secFetchSite (Bytes.ofText (fetchSiteToken site))

/-! ### The state of a hop -/

structure WireRequest where
  method : Method
  url : Url
  headers : HeaderMap
  body : Option Bytes

structure WireResponse where
  status : Nat
  headers : HeaderMap
  body : DecodedBody
  http2 : Bool

structure Identity where
  userAgent : Bytes
  acceptLanguage : Bytes
  hints : ClientHints

structure Agent where
  identity : Identity
  maxRedirects : Nat
  timeoutGlobal : Option Nat

/-- What every hop of one `send` shares. -/
structure Dial where
  cors : CorsSettings
  clientHints : ClientHints
  initiatorKind : InitiatorKind
  initiator : Option Origin
  onRedirect : Option (Url → Nat → Bool)

def Dial.credentialsInclude (dial : Dial) : Bool := dial.cors.credentials.includes

structure Hop where
  method : Method
  headers : HeaderMap
  body : Option Bytes
  responseType : ResponseType
  previousUrl : Option Url
  originTainted : Bool
  crossedOrigin : Bool

def Hop.serializedOrigin (x : NetCrates) (settings : CorsSettings) (hop : Hop) : Text :=
  if hop.originTainted then "null".toList else x.asciiSerialization settings.origin

def hopTaint (settings : CorsSettings) (url : Url) : Except NetError ResponseType :=
  if settings.origin = url.origin then .ok .basic
  else match settings.mode with
    | .navigate => .ok .basic
    | .sameOrigin => .error .rejectedRequest
    | .cors => .ok .cors
    | .noCors => match settings.redirect with
      | .manual => .error .rejectedRequest
      | .follow | .error => .ok .opaqueType

/-- Tainting never resets: a hop that is basic by itself keeps the one it has. -/
def applyTainting (dial : Dial) (url : Url) (hop : Hop) : Except NetError Hop :=
  match hopTaint dial.cors url with
  | .error error => .error error
  | .ok taint => .ok { hop with
      responseType := if taint = .basic then hop.responseType else taint
      crossedOrigin := hop.crossedOrigin || url.origin ≠ dial.cors.origin
      originTainted := hop.originTainted || hop.previousUrl.any fun previous =>
        previous.origin ≠ url.origin && dial.cors.origin ≠ previous.origin
      previousUrl := some url }

/-! ### The request of a hop -/

/-- A preflight that was sent and passed. -/
structure Preflight where
  request : WireRequest
  status : Nat
  headers : HeaderMap

/-- The `Referer` of a preflight has no slash after its origin. -/
def preflightReferer (x : NetCrates) (headers preflight : HeaderMap) : Option HeaderMap :=
  match headers.value "referer".toList with
  | none => some preflight
  | some referrer => do
    let referrer ← headerToStr referrer
    let referrer := if referrer.getLast? = some '/' then referrer.dropLast else referrer
    let referrer ← headerFromStr x.http referrer
    return preflight.append .referer referrer

def corsPreflight (x : NetCrates) (agent : Agent) (settings : CorsSettings) (originHeader : Bytes)
    (hop : Hop) (headers : HeaderMap) (wire : Url)
    (answer : Except NetError (Nat × HeaderMap)) : Except NetError (Option Preflight) :=
  let unsafeNames := Cors.unsafeRequestHeaderNames headers
  if !Cors.needsPreflight hop.method unsafeNames then .ok none
  else do
    let preflight := Cors.preflightHeaders hop.method unsafeNames originHeader
    let origin ← orReject (headerToStr originHeader)
    let preflight ← orReject (preflightReferer x headers preflight)
    let preflight := preflight.append .userAgent agent.identity.userAgent
    let (status, answered) ← answer
    if Cors.preflightOk x.http status answered origin settings.credentials.includes hop.method
        unsafeNames then
      return some ⟨⟨.options, wire, preflight, none⟩, status, answered⟩
    else throw .rejectedRequest

/-- `Origin` rides on a `cors`-tainted hop, and on every request that is neither GET nor HEAD. -/
def sendsOrigin (hop : Hop) : Bool :=
  hop.responseType = .cors || !(hop.method = Method.get || hop.method = Method.head)

/-- Only a `cors`-tainted hop can need a preflight. -/
def hopPreflight (x : NetCrates) (agent : Agent) (settings : CorsSettings) (originHeader : Bytes)
    (hop : Hop) (headers : HeaderMap) (wire : Url)
    (answer : Except NetError (Nat × HeaderMap)) : Except NetError (Option Preflight) :=
  if hop.responseType = .cors then
    corsPreflight x agent settings originHeader hop headers wire answer
  else .ok none

def applyCorsRequest (x : NetCrates) (agent : Agent) (settings : CorsSettings) (hop : Hop)
    (wire : Url) (headers : HeaderMap) (answer : Except NetError (Nat × HeaderMap)) :
    Except NetError (HeaderMap × Option Preflight) := do
  let originHeader ← orReject (headerFromStr x.http (hop.serializedOrigin x settings))
  let preflight ← hopPreflight x agent settings originHeader hop headers wire answer
  return (if sendsOrigin hop then headers.set .origin originHeader else headers, preflight)

/-- The jar's cookies go after a `Cookie` field that is there already. -/
def mergeCookie (x : NetCrates) (headers : HeaderMap) (cookie : Text) : Option HeaderMap :=
  if cookie = [] then some headers
  else
    let value := match headers.value "cookie".toList with
      | some existing => Bytes.toTextLossy existing ++ "; ".toList ++ cookie
      | none => cookie
    (headerFromStr x.http value).map fun value => headers.set .cookie value

/-- Adds the jar's cookie string and the default `User-Agent`. -/
def prepareOutbound (x : NetCrates) (agent : Agent) (headers : HeaderMap) (cookie : Text) :
    Except NetError HeaderMap := do
  let headers ← orReject (mergeCookie x headers cookie)
  if headers.value "user-agent".toList = none then
    return headers.append .userAgent agent.identity.userAgent
  else return headers

def basicAuthorization (x : NetCrates) (username password : Text) : Text :=
  "Basic ".toList ++ x.base64 (Bytes.ofText (username ++ ':' :: password))

/-- The `Authorization` value of the credentials in `url`. -/
def urlCredentials (x : NetCrates) (url : Url) : Text :=
  let decode := fun text => Bytes.toTextLossy (x.percentDecode text)
  basicAuthorization x (decode (x.username url)) (((x.password url).map decode).getD [])

def applyUrlCredentials (x : NetCrates) (headers : HeaderMap) (url : Url) : Option HeaderMap :=
  if headers.value "authorization".toList ≠ none || x.username url = [] then some headers
  else (headerFromStr x.http (urlCredentials x url)).map fun value =>
    headers.set .authorization value

/-- The credentials mode gates `Cookie` and the `Authorization` of the URL. -/
def gateCredentials (x : NetCrates) (credentials : CredentialsMode) (url : Url)
    (crossOrigin : Bool) (headers : HeaderMap) : Option HeaderMap :=
  if Cors.credentialsAdmitted credentials crossOrigin then applyUrlCredentials x headers url
  else some (headers.remove "cookie".toList)

def prepareCredentials (x : NetCrates) (dial : Dial) (url : Url) (crossOrigin : Bool)
    (headers : HeaderMap) : Except NetError HeaderMap := do
  let headers ← orReject (gateCredentials x dial.cors.credentials url crossOrigin headers)
  return dial.clientHints.write x.toCrates headers url

/-! ### The exchange -/

/-- What one hop gets from outside: the clock when it starts, the transport's answer to its
preflight, the jar it reads, the transport's answer to its request, and the jar and the time when
the `Set-Cookie` lines are stored. -/
structure HopWorld where
  clock : Clock
  preflight : Except NetError (Nat × HeaderMap)
  jar : CookieJar
  answer : Except NetError WireResponse
  storeTime : SystemTime
  storeJar : CookieJar

/-- A hop whose request is ready. `cookie` is what the jar gave for it, `read` the jar after that. -/
structure Outbound where
  hop : Hop
  wire : WireRequest
  preflight : Option Preflight
  operation : CookieOp
  cookie : Text
  read : CookieJar
  sendCredentials : Bool

def Hop.operation (dial : Dial) (url : Url) (hop : Hop) (crossSiteRedirect : Bool)
    (now : SystemTime) : CookieOp where
  url := url
  now := now
  kind := .http
  initiatorKind := dial.initiatorKind
  methodIsSafe := hop.method.isSafe
  initiator := dial.initiator
  crossSiteRedirect := crossSiteRedirect

/-- The call must not be past its deadline. -/
def checkBudget (deadline : Option Instant) (now : Instant) : Except NetError Unit :=
  if deadline.any fun deadline => deadline ≤ now then .error (.transport .timeout) else .ok ()

/-- The part of `exchange` before the transport is asked. -/
def prepareHop (x : AgentCrates) (agent : Agent) (dial : Dial) (url : Url) (hop : Hop)
    (crossSiteRedirect : Bool) (deadline : Option Instant) (world : HopWorld) :
    Except NetError Outbound := do
  let hop ← applyTainting dial url hop
  checkBudget deadline world.clock.monotonic
  let wire := x.setFragment url none
  let crossOrigin : Bool := dial.cors.origin ≠ wire.origin
  let operation := hop.operation dial url crossSiteRedirect world.clock.now
  let (headers, preflight) ←
    applyCorsRequest x.toNetCrates agent dial.cors hop wire hop.headers world.preflight
  let (cookie, read) := world.jar.cookieString x.toCrates operation
  let headers ← prepareOutbound x.toNetCrates agent headers cookie
  let headers ← prepareCredentials x.toNetCrates dial url crossOrigin headers
  return {
    hop := hop
    wire := ⟨hop.method, wire, headers, hop.body⟩
    preflight := preflight
    operation := operation
    cookie := cookie
    read := read
    sendCredentials := Cors.credentialsAdmitted dial.cors.credentials crossOrigin }

def reasonPhrase (x : AgentCrates) (status : Nat) (http2 : Bool) : Text :=
  if http2 then [] else (x.canonicalReason status).getD []

/-- The filtered view is decided by the tainting the hop reached. -/
def Hop.filtering (dial : Dial) (hop : Hop) : Filtering :=
  match hop.responseType with
  | .basic => .basic
  | .cors => .cors dial.credentialsInclude
  | .opaqueType => .opaqueFilter
  | .opaqueRedirect => .opaqueRedirect

def Hop.response (x : AgentCrates) (dial : Dial) (url : Url) (hop : Hop) (answer : WireResponse) :
    Response where
  status := answer.status
  statusText := reasonPhrase x answer.status answer.http2
  headers := answer.headers
  finalUrl := url
  body := answer.body
  redirectCount := 0
  filtering := hop.filtering dial
  referrer := none
  crossedOrigin := hop.crossedOrigin

/-- The `Set-Cookie` lines of the answer. -/
def HopWorld.setCookieLines (world : HopWorld) : List Text :=
  match world.answer with
  | .ok answer => (answer.headers.getAll "set-cookie".toList).filterMap Bytes.toText?
  | .error _ => []

def storeSetCookieLines (x : Crates) (jar : CookieJar) (now : SystemTime) (operation : CookieOp)
    (lines : List Text) : CookieJar :=
  lines.foldl (fun jar line => (jar.store x line { operation with now := now }).2) jar

/-- A hop whose request was handed to the transport, the `Set-Cookie` lines it handed to the jar, which
may refuse them, and the jar it left. -/
structure HopRecord extends Outbound where
  url : Url
  stored : List Text
  jar : CookieJar

def exchange (x : AgentCrates) (agent : Agent) (dial : Dial) (url : Url) (hop : Hop)
    (crossSiteRedirect : Bool) (deadline : Option Instant) (world : HopWorld) :
    Except NetError (HopRecord × Except NetError Response) := do
  let outbound ← prepareHop x agent dial url hop crossSiteRedirect deadline world
  let stored := if outbound.sendCredentials then world.setCookieLines else []
  return ({
    toOutbound := outbound
    url := url
    stored := stored
    jar := storeSetCookieLines x.toCrates world.storeJar world.storeTime outbound.operation stored },
    world.answer.map (outbound.hop.response x dial url))

end TinyBrowser
