import TinyBrowser.Dial.Basic
import TinyBrowser.Lib.FirstMin

/-!
# The HTTP cache

The response cache of `crates/browser/src/network.rs`: its keys, when an entry answers a request
(`varyMatches`, `cacheUsable`, `fresh`), what a 304 makes of a stored response, and which responses
are stored. The cache is a map; among entries stored at the same time the first one in its order is
the oldest.
-/

namespace TinyBrowser
open Lib

/-- What the cache and the dials use of other crates: the digests, the parser of HTTP dates, and
`about:blank`. -/
structure DialCrates extends NetCrates where
  digests : Digests
  parseHttpDate : Text → Option SystemTime
  aboutBlank : Url

structure CacheKey where
  method : Method
  url : Url
  mode : RequestMode
  credentials : CredentialsMode
  initiator : Origin
  partition : RendererAssignmentId
deriving DecidableEq

structure CachedResponse where
  outcome : DialOutcome
  storedAt : Instant
  requestHeaders : HeaderList
deriving DecidableEq

abbrev ResponseCache := Dict CacheKey CachedResponse

def cacheMaxEntries : Nat := 64

/-- 64 MiB. -/
def cacheMaxBytes : Nat := 64 * 1024 * 1024

def storedBytes (outcome : DialOutcome) : Nat :=
  match outcome.body with
  | .bytes bytes => bytes.length
  | .undecodable | .streamed _ => 0

def oldest (cache : ResponseCache) : Option (CacheKey × CachedResponse) :=
  firstMin (fun a b => compare a.2.storedAt b.2.storedAt) cache.pairs

/-- The eviction loop of `insert_cached`; it removes an entry each time, so it ends. -/
def evictCached (bodyLen : Nat) : Nat → Nat → ResponseCache → ResponseCache
  | 0, _, cache => cache
  | fuel + 1, total, cache =>
    if cacheMaxEntries ≤ cache.pairs.length || cacheMaxBytes < total + bodyLen then
      match oldest cache with
      | none => cache
      | some (key, entry) =>
        evictCached bodyLen fuel (total - storedBytes entry.outcome) (cache.erase key)
    else cache

def insertCached (cache : ResponseCache) (key : CacheKey) (entry : CachedResponse) :
    ResponseCache :=
  let bodyLen := storedBytes entry.outcome
  if maxResponseBodyBytes < bodyLen then cache
  else
    let total := (cache.pairs.map fun (_, entry) => storedBytes entry.outcome).sum
    (evictCached bodyLen cache.pairs.length total cache).insert key entry

def cacheKey (request : DialRequest) (initiator : Origin) (partition : RendererAssignmentId) :
    CacheKey where
  method := request.method
  url := request.url
  mode := request.policy.cors.mode
  credentials := request.policy.cors.credentials
  initiator := initiator
  partition := partition

def hasPageConditional (request : DialRequest) : Bool :=
  request.headers.any fun field =>
    ["if-none-match".toList, "if-modified-since".toList, "if-match".toList,
      "if-unmodified-since".toList, "if-range".toList].any fun name =>
      Text.eqIgnoreAsciiCase field.1 name

/-- The name of a cache directive, before its `=`. -/
def directiveName (directive : Text) : Text :=
  trimHttp (((Text.splitOnce '=' directive).map Prod.fst).getD directive)

def cacheControl (outcome : DialOutcome) : List Text :=
  (getDecodeSplitDecoded outcome.headers "cache-control".toList).getD []

def hasDirective (outcome : DialOutcome) (name : Text) : Bool :=
  (cacheControl outcome).any fun directive => Text.eqIgnoreAsciiCase (directiveName directive) name

def responseForbidsStorage (outcome : DialOutcome) : Bool := hasDirective outcome "no-store".toList

/-- The members of the stored `Vary` list that are not empty. -/
def varyFields (entry : CachedResponse) : List Text :=
  ((getDecodeSplitDecoded entry.outcome.headers "vary".toList).getD []).filter (· ≠ [])

def varyMatches (entry : CachedResponse) (request : DialRequest) : Bool :=
  (varyFields entry).all fun field =>
    field ≠ "*".toList &&
      combinedHeaderIn entry.requestHeaders field = combinedHeaderIn request.headers field

/-- `str::parse::<u64>`: an optional `+`, then decimal digits, within the range. -/
def parseU64 (s : Text) : Option Nat :=
  let digits := Text.stripPrefix '+' s
  if digits = [] || !digits.all Text.isAsciiDigit then none
  else
    let n := digits.foldl (fun n c => 10 * n + (c.toNat - '0'.toNat)) 0
    if n ≤ u64Max then some n else none

/-- The values of the `max-age` directives. -/
def maxAges (outcome : DialOutcome) : List Text :=
  (cacheControl outcome).filterMap fun directive => do
    let (name, value) ← Text.splitOnce '=' directive
    if Text.eqIgnoreAsciiCase (trimHttp name) "max-age".toList then some (trimHttp value) else none

/-- Whole seconds since the entry was stored. -/
def CachedResponse.age (entry : CachedResponse) (clock : Clock) : Nat :=
  (clock.monotonic - entry.storedAt) / 1000000000

def fresh (x : DialCrates) (entry : CachedResponse) (clock : Clock) : Bool :=
  let ages := maxAges entry.outcome
  if ages.any fun value => (parseU64 value).any fun maxAge => entry.age clock < maxAge then true
  else if ages ≠ [] then false
  else entry.outcome.headers.any fun field =>
    Text.eqIgnoreAsciiCase field.1 "expires".toList &&
      (x.parseHttpDate field.2).any fun expires => clock.now < expires

def etag (outcome : DialOutcome) : Option Text :=
  (outcome.headers.find? fun field => Text.eqIgnoreAsciiCase field.1 "etag".toList).map Prod.snd

/-- Replaces the value of the first field of the name, or appends the field. -/
def updateHeader (headers : HeaderList) (name value : Text) : HeaderList :=
  match headers with
  | [] => [(name, value)]
  | field :: rest =>
    if Text.eqIgnoreAsciiCase field.1 name then (field.1, value) :: rest
    else field :: updateHeader rest name value

def mergeNotModified (cached : DialOutcome) (response : Response) : DialOutcome :=
  { cached with
    status := 200
    finalUrl := response.finalUrl
    referrer := response.referrer
    crossedOrigin := response.crossedOrigin
    headers := response.filteredHeaders.foldl (fun headers field =>
      updateHeader headers field.1 (isomorphicDecode field.2)) cached.headers }

def shouldStore (request : DialRequest) (outcome : DialOutcome) (mode : RequestCache) : Bool :=
  request.policy.exposesResponse && !hasPageConditional request && request.method = Method.get &&
    outcome.body ≠ .undecodable && (200 ≤ outcome.status && outcome.status < 300) &&
    !outcome.responseType.isOpaque && mode ≠ .noStore && !responseForbidsStorage outcome

def cacheUsable (request : DialRequest) (initiator : Origin) (entry : CachedResponse) : Bool :=
  if entry.outcome.responseType.isOpaque then false
  else match request.policy with
    | .fetch cors => match cors.mode with
      | .sameOrigin => request.url.origin = initiator
      | .noCors => entry.outcome.responseType ≠ .cors
      | .cors => true
    | _ => false

/-! ### Reading the cache -/

inductive CacheDecision where
  | hit (outcome : DialOutcome)
  | miss (mode : RequestCache) (stored : Option CachedResponse) (etag : Option Text)

def cachedHit (cache : ResponseCache) (request : DialRequest) (initiator : Origin)
    (partition : RendererAssignmentId) : Option CachedResponse :=
  if !request.policy.exposesResponse then none
  else (cache.get? (cacheKey request initiator partition)).filter fun entry =>
    varyMatches entry request && cacheUsable request initiator entry

def cachedIntegrityOk (digests : Digests) (request : DialRequest) (entry : CachedResponse) : Bool :=
  match request.integrity with
  | none => true
  | some integrity => match entry.outcome.body with
    | .bytes body => integrityVerifies digests integrity body
    | .undecodable | .streamed _ => false

/-- The stored entry that answers the request without a dial, if the cache mode lets it. -/
def servedEntry (x : DialCrates) (request : DialRequest) (mode : RequestCache)
    (cached : Option CachedResponse) (clock : Clock) :
    Except DialFailure (Option CachedResponse) :=
  match mode, cached with
  | .onlyIfCached, none => .error .connect
  | .onlyIfCached, some cached =>
    if request.url.origin ≠ cached.outcome.finalUrl.origin then .error .connect
    else .ok (some cached)
  | .forceCache, some cached => .ok (some cached)
  | .default, some cached => if fresh x cached clock then .ok (some cached) else .ok none
  | _, _ => .ok none

def cachedResponse (x : DialCrates) (request : DialRequest) (mode : RequestCache)
    (cached : Option CachedResponse) (clock : Clock) : Except DialFailure (Option DialOutcome) :=
  if !request.policy.exposesResponse then .ok none
  else do
    match ← servedEntry x request mode cached clock with
    | none => .ok none
    | some hit =>
      if !cachedIntegrityOk x.digests request hit then .error .connect
      else .ok (some hit.outcome)

/-- The entry the request may use: none when the page made the request conditional itself. -/
def usableEntry (cache : ResponseCache) (request : DialRequest) (initiator : Origin)
    (owner : RendererAssignmentId) : Option CachedResponse :=
  if hasPageConditional request then none else cachedHit cache request initiator owner

/-- The validator a stored entry is revalidated with. -/
def validator (request : DialRequest) (cached : Option CachedResponse) : Option Text :=
  if request.cache = .default || request.cache = .noCache then
    cached.bind fun entry => etag entry.outcome
  else none

def cacheRead (x : DialCrates) (cache : ResponseCache) (request : DialRequest) (initiator : Origin)
    (owner : RendererAssignmentId) (clock : Clock) : Except DialFailure CacheDecision := do
  let cached := usableEntry cache request initiator owner
  match ← cachedResponse x request request.cache cached clock with
  | some hit => .ok (.hit hit)
  | none => .ok (.miss request.cache cached (validator request cached))

end TinyBrowser
