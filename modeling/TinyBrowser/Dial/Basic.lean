import TinyBrowser.Lib.Dict
import TinyBrowser.Net.Message
import TinyBrowser.Protocol

/-!
# Dials

What the renderer asks of the browser's network and what it is answered: the request types of
`crates/renderer/src/protocol.rs`, subresource integrity from `csp.rs`, and the adapter in
`crates/dial` between them and the fetch core. The digests of integrity metadata are the parameter
`Digests`.
-/

namespace TinyBrowser
open Lib

abbrev RendererAssignmentId := Nat

abbrev StreamId := Nat

/-- 8 MiB. -/
def maxResponseBodyBytes : Nat := 8 * 1024 * 1024

inductive DialFailure where
  | dns
  | connect
  | tls
  | timeout
  | limit
  | queueFull
  | cancelled
deriving DecidableEq, Repr

inductive DialKind where
  | jsFetch
  | classicScript
  | moduleScript
  | stylesheet
  | image
  | font
  | frameLoad
  | cspReport
deriving DecidableEq, Repr

inductive BodyDelivery where
  | buffer
  | stream
deriving DecidableEq, Repr

inductive RequestCache where
  | default
  | noStore
  | reload
  | noCache
  | forceCache
  | onlyIfCached
deriving DecidableEq, Repr

inductive CorsMode where
  | noCors
  | sameOrigin
  | cors
deriving DecidableEq, Repr

def CorsMode.requestMode : CorsMode → RequestMode
  | .noCors => .noCors
  | .sameOrigin => .sameOrigin
  | .cors => .cors

structure CorsRequest where
  mode : CorsMode
  credentials : CredentialsMode
  redirect : RedirectMode
deriving DecidableEq, Repr

inductive RequestPolicy where
  | fetch (cors : CorsRequest)
  | classicScript (crossorigin : Option CrossOrigin)
  | moduleScript (crossorigin : Option CrossOrigin)
  | stylesheet (crossorigin : Option CrossOrigin)
  | image (crossorigin : Option CrossOrigin)
  | font
  | frameLoad
  | cspReportTo
  | cspReportUri
deriving DecidableEq, Repr

def corsProtocol (credentials : CredentialsMode) : CorsParameters := ⟨.cors, credentials, .follow⟩

def potentialCors : Option CrossOrigin → CorsParameters
  | none => ⟨.noCors, .include, .follow⟩
  | some cross => corsProtocol cross.credentials

def crossOriginCredentials : Option CrossOrigin → CredentialsMode
  | none => .sameOrigin
  | some cross => cross.credentials

namespace RequestPolicy

def kind : RequestPolicy → DialKind
  | .fetch _ => .jsFetch
  | .classicScript _ => .classicScript
  | .moduleScript _ => .moduleScript
  | .stylesheet _ => .stylesheet
  | .image _ => .image
  | .font => .font
  | .frameLoad => .frameLoad
  | .cspReportTo | .cspReportUri => .cspReport

def cors : RequestPolicy → CorsParameters
  | .fetch cors => ⟨cors.mode.requestMode, cors.credentials, cors.redirect⟩
  | .classicScript crossorigin | .stylesheet crossorigin | .image crossorigin =>
    potentialCors crossorigin
  | .moduleScript crossorigin => corsProtocol (crossOriginCredentials crossorigin)
  | .font | .cspReportTo => corsProtocol .sameOrigin
  | .cspReportUri => ⟨.noCors, .sameOrigin, .error⟩
  | .frameLoad => ⟨.navigate, .include, .follow⟩

/-- Whether the response goes back to page script. -/
def exposesResponse : RequestPolicy → Bool
  | .fetch _ => true
  | _ => false

end RequestPolicy

inductive ReferrerRequest where
  | noReferrer
  | client (url : Url)
  | url (url : Url)
deriving DecidableEq, Repr

structure DialRequest where
  policy : RequestPolicy
  url : Url
  delivery : BodyDelivery
  method : Method
  body : Bytes
  contentType : Option Text
  headers : HeaderList
  referrer : ReferrerRequest
  timeoutMs : Nat
  /-- The enforced policy's answer for a document URL, a redirect target and its number. -/
  csp : Option (Url → Url → Nat → Bool)
  keepalive : Bool
  bodyLen : Nat
  integrity : Option Text
  cache : RequestCache
  referrerPolicy : ReferrerPolicy

/-- A GET with nothing else to say. -/
def DialRequest.new (policy : RequestPolicy) (url : Url) : DialRequest where
  policy := policy
  url := url
  delivery := .buffer
  method := Method.get
  body := []
  contentType := none
  headers := []
  referrer := .noReferrer
  timeoutMs := 0
  csp := none
  keepalive := false
  bodyLen := 0
  integrity := none
  cache := .default
  referrerPolicy := .strictOriginWhenCrossOrigin

inductive ResponseBody where
  | bytes (bytes : Bytes)
  | undecodable
  | streamed (id : StreamId)
deriving DecidableEq, Repr

structure DialOutcome where
  status : Nat
  statusText : Text
  finalUrl : Url
  contentType : Option Text
  headers : HeaderList
  body : ResponseBody
  responseType : ResponseType
  crossedOrigin : Bool
  redirectCount : Nat
  referrer : Option Url
deriving DecidableEq, Repr

/-! ### Subresource integrity -/

inductive HashAlgorithm where
  | sha256
  | sha384
  | sha512
deriving DecidableEq, Repr

/-- The base64 text of the SHA-2 digest of a byte string. -/
abbrev Digests := HashAlgorithm → Bytes → Text

def HashAlgorithm.strength : HashAlgorithm → Nat
  | .sha512 => 2
  | .sha384 => 1
  | .sha256 => 0

def HashAlgorithm.parse (name : Text) : Option HashAlgorithm :=
  if Text.eqIgnoreAsciiCase name "sha256".toList then some .sha256
  else if Text.eqIgnoreAsciiCase name "sha384".toList then some .sha384
  else if Text.eqIgnoreAsciiCase name "sha512".toList then some .sha512
  else none

def isBase64Char (c : Char) : Bool :=
  Text.isAsciiDigit c || Text.isAsciiUpper c || ('a' ≤ c && c ≤ 'z') || c ∈ "+/-_".toList

/-- The loop of `is_base64_value`: data first, then at most two `=`. -/
def isBase64From : Bool → Nat → Text → Bool
  | sawData, _, [] => sawData
  | sawData, padding, c :: cs =>
    if 0 < padding then
      if c = '=' then if 2 < padding + 1 then false else isBase64From sawData (padding + 1) cs
      else false
    else if c = '=' then if !sawData then false else isBase64From sawData 1 cs
    else if isBase64Char c then isBase64From true padding cs
    else false

def isBase64Value (value : Text) : Bool := isBase64From false 0 value

def parseIntegrityMetadata (metadata : Text) : List (HashAlgorithm × Text) :=
  (Text.splitAsciiWhitespace metadata).filterMap fun entry => do
    let (algorithm, rest) ← Text.splitOnce '-' entry
    let value := ((Text.splitOnce '?' rest).map Prod.fst).getD rest
    let algorithm ← HashAlgorithm.parse algorithm
    if isBase64Value value then some (algorithm, value) else none

def normalizeBase64 (value : Text) : Text :=
  let normalized := value.map fun c => if c = '-' then '+' else if c = '_' then '/' else c
  normalized ++ List.replicate ((4 - Text.len normalized % 4) % 4) '='

def strongest (sources : List (HashAlgorithm × Text)) : Option HashAlgorithm :=
  sources.foldl (fun best source =>
    match best with
    | none => some source.1
    | some best => if best.strength ≤ source.1.strength then some source.1 else some best) none

def integrityVerifies (digests : Digests) (integrity : Text) (bytes : Bytes) : Bool :=
  let integrity := Text.trim integrity
  if integrity = [] then true
  else
    let sources := parseIntegrityMetadata integrity
    match strongest sources with
    | none => true
    | some algorithm => sources.any fun source =>
        source.1 = algorithm && digests algorithm bytes = normalizeBase64 source.2

/-! ### The adapter -/

def contentTypeHeader (headers : List (Text × Bytes)) : Option Text :=
  combinedHeader ((headers.filter fun field =>
    Text.eqIgnoreAsciiCase field.1 "content-type".toList).map fun field => isomorphicDecode field.2)

def decodeHeaders (headers : List (Text × Bytes)) : HeaderList :=
  headers.map fun field => (field.1, isomorphicDecode field.2)

def internalHeaders (response : Response) : HeaderList :=
  decodeHeaders (response.headers.iter.filter fun field => !Cors.isForbiddenResponseHeader field.1)

/-- Everything an outcome reports except its body. -/
structure DialHead where
  status : Nat
  statusText : Text
  finalUrl : Url
  contentType : Option Text
  headers : HeaderList
  responseType : ResponseType
  crossedOrigin : Bool
  redirectCount : Nat
  referrer : Option Url
  nullBody : Bool

namespace DialHead

/-- The head an engine consumer reads. -/
def internal (response : Response) : DialHead where
  status := response.status
  statusText := response.statusText
  finalUrl := response.finalUrl
  contentType := contentTypeHeader response.headers.iter
  headers := internalHeaders response
  responseType := response.responseType
  crossedOrigin := response.crossedOrigin
  redirectCount := response.redirectCount
  referrer := response.referrer
  nullBody := false

/-- The head page script reads. -/
def filtered (response : Response) : DialHead where
  status := response.filteredStatus
  statusText := response.filteredStatusText
  finalUrl := response.finalUrl
  contentType := contentTypeHeader response.filteredHeaders
  headers := decodeHeaders response.filteredHeaders
  responseType := response.responseType
  crossedOrigin := response.crossedOrigin
  redirectCount := if response.responseType.isOpaque then 0 else response.redirectCount
  referrer := response.referrer
  nullBody := response.responseType.isOpaque

def read (request : DialRequest) (response : Response) : DialHead :=
  if request.policy.exposesResponse then filtered response else internal response

def intoOutcome (head : DialHead) (body : ResponseBody) : DialOutcome where
  status := head.status
  statusText := head.statusText
  finalUrl := head.finalUrl
  contentType := head.contentType
  headers := head.headers
  body := body
  responseType := head.responseType
  crossedOrigin := head.crossedOrigin
  redirectCount := head.redirectCount
  referrer := head.referrer

end DialHead

def dialFailure : NetError → DialFailure
  | .transport .dns => .dns
  | .transport .tls => .tls
  | .transport .timeout => .timeout
  | .redirectLimit => .limit
  | .transport .connect | .transport .io | .rejectedRequest | .decode => .connect

/-- The style sheets each document origin loaded, fragments stripped. -/
abbrev Sheets := Dict Origin (List Url)

def referrerAuthorized (x : NetCrates) (referrer : Url) (initiator : Origin) (sheets : Sheets) :
    Bool :=
  referrer.origin = initiator ||
    match sheets.get? initiator with
    | none => false
    | some loaded => x.setFragment referrer none ∈ loaded

/-- The request's own fields, each encoded, checked and appended in turn. -/
def insertHeaders (http : Http) (kind : DialKind) (pageNoCors : Bool) :
    HeaderMap → HeaderList → Option HeaderMap
  | map, [] => some map
  | map, (name, value) :: rest => do
    let encoded ← isomorphicEncode value
    if kind = .jsFetch && Cors.isForbiddenRequestHeader http name encoded then
      insertHeaders http kind pageNoCors map rest
    else if pageNoCors && !Cors.isNoCorsSafelistedRequestHeader name encoded then
      insertHeaders http kind pageNoCors map rest
    else
      let map ← map.insert http name encoded
      insertHeaders http kind pageNoCors map rest

def insertContentType (http : Http) (pageNoCors : Bool) (map : HeaderMap) :
    Option Text → Option HeaderMap
  | none => some map
  | some contentType => do
    let contentType ← isomorphicEncode contentType
    if !pageNoCors || Cors.isNoCorsSafelistedRequestHeader "content-type".toList contentType then
      map.insert http "Content-Type".toList contentType
    else some map

def destination : DialKind → Text
  | .jsFetch => "empty".toList
  | .classicScript | .moduleScript => "script".toList
  | .stylesheet => "style".toList
  | .image => "image".toList
  | .font => "font".toList
  | .frameLoad => "iframe".toList
  | .cspReport => "report".toList

def HeaderName.secFetchDest : HeaderName := ⟨"sec-fetch-dest".toList, by decide⟩

def HeaderName.secFetchMode : HeaderName := ⟨"sec-fetch-mode".toList, by decide⟩

/-- A referrer that is neither of the initiator's origin nor an authorized one is dropped. -/
def resolveReferrer (x : NetCrates) (initiator : Origin) (sheets : Sheets) :
    ReferrerRequest → Referrer
  | .client url => if url.origin = initiator then .client initiator url else .noReferrer
  | .url url => if referrerAuthorized x url initiator sheets then .url url else .noReferrer
  | .noReferrer => .noReferrer

/-- The `net` request of one dial; every way to fail is `DialFailure::Connect`. -/
def outboundRequest (x : NetCrates) (request : DialRequest) (initiator : Origin)
    (deadline : Instant) (sheets : Sheets) : Option Request := do
  let kind := request.policy.kind
  let cors := request.policy.cors
  let pageNoCors := request.policy.exposesResponse && cors.mode = .noCors
  if kind = .jsFetch && request.method.isForbidden then none
  else if pageNoCors && !Cors.isCorsSafelistedMethod request.method then none
  else
    let headers ← insertContentType x.http pageNoCors HeaderMap.new request.contentType
    let headers ← insertHeaders x.http kind pageNoCors headers request.headers
    let headers := headers.append HeaderName.secFetchDest (Bytes.ofText (destination kind))
    let headers := headers.append HeaderName.secFetchMode (Bytes.ofText cors.mode.asStr)
    some {
      method := request.method
      url := request.url
      headers := headers
      initiatorKind := .fetch
      initiator := some initiator
      body := if request.body = [] then none else some request.body
      deadline := some deadline
      cors := cors.withOrigin initiator
      onRedirect := none
      referrer := resolveReferrer x initiator sheets request.referrer
      referrerPolicy := request.referrerPolicy }

end TinyBrowser
