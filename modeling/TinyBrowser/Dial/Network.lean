import TinyBrowser.Dial.Cache
import TinyBrowser.Net.Orb

/-!
# Dialling

`dial_request` of `crates/browser/src/network.rs`, in the three stretches between its awaits: the
cache is read (`beginDial`), the request is built and handed to the agent (`sendDial`), and the
response head is answered (`answerDial`), with a buffered body read to its end. `DialWorld` is what a
dial gets from outside: clocks, permits, and the agent's answer. A streamed body is left to a task
that takes one read at a time (`StreamTask.step`) and writes the cache when the body ends.
-/

namespace TinyBrowser
open Lib

def keepaliveQuota : Nat := 65536

/-- One `read_chunk`: a chunk, the end of the body, or an error. -/
abbrev Read := Except NetError (Option Bytes)

/-- The reads of a body: its chunks, and then its end. -/
def DecodedBody.reads (body : DecodedBody) : List Read :=
  body.chunks.map (fun chunk => .ok (some chunk)) ++
    [match body.error with
    | none => .ok none
    | some error => .error error]

/-! ### Bodies -/

inductive BodyEvent where
  | chunk (bytes : Bytes)
  | done (bytes : Bytes)
  | decodeError
  | failed (failure : DialFailure)

structure BodyReader where
  integrity : Option Text
  collect : Bool
  collected : Bytes
  total : Nat

def BodyReader.new (integrity : Option Text) (collect : Bool) : BodyReader :=
  ⟨integrity, collect, [], 0⟩

def BodyReader.next (digests : Digests) (reader : BodyReader) : Read → BodyEvent × BodyReader
  | .ok (some chunk) =>
    let total := reader.total + chunk.length
    if maxResponseBodyBytes < total then (.failed .limit, { reader with total := total })
    else (.chunk chunk, { reader with
      total := total
      collected := if reader.collect then reader.collected ++ chunk else reader.collected })
  | .ok none =>
    if (reader.integrity.any fun integrity =>
        !integrityVerifies digests integrity reader.collected) then (.failed .connect, reader)
    else (.done reader.collected, { reader with collected := [] })
  | .error .decode => (.decodeError, reader)
  | .error error => (.failed (dialFailure error), reader)

/-- Reads a body to its end. A list of reads that does not end the body is not one a body has. -/
def bufferBody (digests : Digests) : BodyReader → List Read → Except DialFailure ResponseBody
  | _, [] => .error .cancelled
  | reader, read :: rest =>
    match reader.next digests read with
    | (.chunk _, reader) => bufferBody digests reader rest
    | (.done body, _) => .ok (.bytes body)
    | (.decodeError, _) => .ok .undecodable
    | (.failed failure, _) => .error failure

inductive StreamMessage where
  | chunk (bytes : Bytes)
  | finish
  | error (failure : DialFailure)
deriving DecidableEq

/-- The cache write a streamed body performs once its bytes are complete. -/
structure PendingStore where
  outcome : DialOutcome
  key : CacheKey
  requestHeaders : HeaderList

/-- The task of one streamed body, with the reads that are still to come. -/
structure StreamTask where
  reader : BodyReader
  store : Option PendingStore
  reads : List Read

/-- One turn of the task's loop: the message it sends, the task after it, and the response it
stores. -/
def StreamTask.step (digests : Digests) (task : StreamTask) :
    Option (StreamMessage × StreamTask × Option PendingStore) :=
  match task.reads with
  | [] => none
  | read :: rest =>
    match task.reader.next digests read with
    | (.chunk chunk, reader) => some (.chunk chunk, { task with reader := reader, reads := rest }, none)
    | (.done body, reader) => some (.finish, { task with reader := reader, reads := [] },
        task.store.map fun store => { store with outcome := { store.outcome with body := .bytes body } })
    | (.decodeError, reader) => some (.error .connect, { task with reader := reader, reads := [] }, none)
    | (.failed failure, reader) =>
      some (.error failure, { task with reader := reader, reads := [] }, none)

structure StreamEntry where
  owner : RendererAssignmentId
  /-- Sent by the task and not yet received. -/
  queue : List StreamMessage
  task : StreamTask

/-! ### The state -/

/-- The live network of one storage partition, with the style sheets each tab has loaded. -/
structure Network where
  cache : ResponseCache
  streams : Dict StreamId StreamEntry
  nextStream : StreamId
  sheets : Dict Nat Sheets

def Network.new : Network := ⟨Dict.empty, Dict.empty, 1, Dict.empty⟩

/-- One `dial_request` of a tab. -/
structure Call where
  tab : Nat
  request : DialRequest
  initiator : Origin
  owner : RendererAssignmentId

/-- What a dial gets from outside: the keepalive bytes in flight, the clock when the cache is read,
the time it starts and its permits, the agent's answer with the redirect targets it asked about,
and the time of the cache write. -/
structure DialWorld where
  inFlight : Nat
  clock : Clock
  started : Instant
  globalPermit : Except DialFailure Unit
  tabPermit : Except DialFailure Unit
  redirects : List Url
  answer : Except NetError Response
  storedAt : Instant

def storeResponse (network : Network) (store : PendingStore) (storedAt : Instant) : Network :=
  { network with
    cache := insertCached network.cache store.key ⟨store.outcome, storedAt, store.requestHeaders⟩ }

/-! ### A dial -/

/-- The bytes a keepalive request reserves. -/
def acquireKeepalive (request : DialRequest) (inFlight : Nat) : Except DialFailure (Option Nat) :=
  if !request.keepalive then .ok none
  else if keepaliveQuota < request.bodyLen then .error .limit
  else if u64Max < inFlight + request.bodyLen then .error .limit
  else if keepaliveQuota < inFlight + request.bodyLen then .error .limit
  else .ok (some request.bodyLen)

def beginDial (x : DialCrates) (cache : ResponseCache) (call : Call) (world : DialWorld) :
    Except DialFailure CacheDecision := do
  let _keepalive ← acquireKeepalive call.request world.inFlight
  cacheRead x cache call.request call.initiator call.owner world.clock

/-- The budget of one dial in milliseconds. -/
def dialBudget (request : DialRequest) : Nat :=
  if request.timeoutMs = 0 then 30000 else min 30000 request.timeoutMs

def documentUrl (x : DialCrates) : Origin → Url
  | .opaqueOrigin _ => x.aboutBlank
  | origin => (x.urlParse (x.asciiSerialization origin)).getD x.aboutBlank

def watchRedirects (x : DialCrates) (request : DialRequest) (initiator : Origin)
    (outbound : Request) : Request :=
  match request.csp with
  | none => outbound
  | some csp => { outbound with onRedirect := some (csp (documentUrl x initiator)) }

/-- The redirect target the policy refused, as the outcome the renderer reports. -/
def refusedRedirect (outbound : Request) (redirects : List Url) : Option DialOutcome := do
  let gate ← outbound.onRedirect
  let (url, _) ← (redirects.zipIdx 1).find? fun (url, count) => !gate url count
  return {
    status := 0
    statusText := []
    finalUrl := url
    contentType := none
    headers := []
    body := .bytes []
    responseType := .basic
    crossedOrigin := false
    redirectCount := 0
    referrer := none }

/-- The request handed to the agent, with the stored entry's validator when it can be encoded. -/
def sendDial (x : DialCrates) (network : Network) (call : Call) (etag : Option Text)
    (world : DialWorld) : Except DialFailure Request :=
  match world.globalPermit, world.tabPermit with
  | .error failure, _ => .error failure
  | .ok _, .error failure => .error failure
  | .ok _, .ok _ =>
    let deadline := world.started + dialBudget call.request * 1000000
    match outboundRequest x.toNetCrates call.request call.initiator deadline
        ((network.sheets.get? call.tab).getD Dict.empty) with
    | none => .error .connect
    | some outbound =>
      match etag.bind isomorphicEncode with
      | none => .ok (watchRedirects x call.request call.initiator outbound)
      | some validator =>
        match outbound.headers.insert x.http "If-None-Match".toList validator with
        | none => .error .connect
        | some headers =>
          .ok (watchRedirects x call.request call.initiator { outbound with headers := headers })

inductive DialProgress where
  | done (outcome : DialOutcome)
  | response (response : Response)

/-- What `send_head` makes of the agent's answer. -/
def readHead (request : DialRequest) (stored : Option CachedResponse) (outbound : Request)
    (world : DialWorld) : Except DialFailure DialProgress :=
  match world.answer with
  | .error error => match refusedRedirect outbound world.redirects with
    | some outcome => .ok (.done outcome)
    | none => .error (dialFailure error)
  | .ok response =>
    if request.integrity.isSome && response.responseType.isOpaque then .error .connect
    else match stored with
      | some stored =>
        if response.status = 304 then .ok (.done (mergeNotModified stored.outcome response))
        else .ok (.response response)
      | none => .ok (.response response)

def pendingStore (call : Call) (outcome : DialOutcome) : PendingStore :=
  ⟨outcome, cacheKey call.request call.initiator call.owner, call.request.headers⟩

def rememberResponse (network : Network) (call : Call) (mode : RequestCache) (outcome : DialOutcome)
    (storedAt : Instant) : Network :=
  if shouldStore call.request outcome mode then
    storeResponse network (pendingStore call outcome) storedAt
  else network

/-- Registers the body stream with its task. -/
def startStream (network : Network) (call : Call) (mode : RequestCache) (response : Response) :
    DialOutcome × Network :=
  let head := DialHead.read call.request response
  let outcome := head.intoOutcome (.bytes [])
  if head.nullBody then (outcome, network)
  else
    let store := if shouldStore call.request outcome mode then some (pendingStore call outcome)
      else none
    let task : StreamTask :=
      { reader := BodyReader.new call.request.integrity
          (store.isSome || call.request.integrity.isSome)
        store := store
        reads := response.body.reads }
    let id := network.nextStream
    ({ outcome with body := .streamed id }, { network with
      nextStream := (id + 1) % 2 ^ 64
      streams := network.streams.insert id ⟨call.owner, [], task⟩ })

/-- The buffered delivery of a response. -/
def bufferResponse (x : DialCrates) (network : Network) (call : Call) (mode : RequestCache)
    (response : Response) (storedAt : Instant) : Except DialFailure DialOutcome × Network :=
  let head := DialHead.read call.request response
  let body := if head.nullBody then .ok (.bytes [])
    else bufferBody x.digests (BodyReader.new call.request.integrity true) response.body.reads
  match body with
  | .error failure => (.error failure, network)
  | .ok body =>
    let outcome := head.intoOutcome body
    (.ok outcome, rememberResponse network call mode outcome storedAt)

/-- Records the URLs of a style sheet that arrived. -/
def rememberSheet (x : DialCrates) (network : Network) (call : Call) (outcome : DialOutcome) :
    Network :=
  if call.request.policy.kind ≠ .stylesheet || !(200 ≤ outcome.status && outcome.status < 300) then
    network
  else match call.initiator with
    | .opaqueOrigin _ => network
    | .tuple .. =>
      let sheets := (network.sheets.get? call.tab).getD Dict.empty
      let loaded := (sheets.get? call.initiator).getD []
      let urls := [x.setFragment call.request.url none, x.setFragment outcome.finalUrl none]
      { network with
        sheets := network.sheets.insert call.tab
          (sheets.insert call.initiator (loaded ++ urls.filter (· ∉ loaded))) }

/-- What a dial that read a miss makes of the agent's answer. -/
def answerDial (x : DialCrates) (network : Network) (call : Call) (mode : RequestCache)
    (stored : Option CachedResponse) (outbound : Request) (world : DialWorld) :
    Except DialFailure DialOutcome × Network :=
  let answered : Except DialFailure DialOutcome × Network :=
    match readHead call.request stored outbound world with
    | .error failure => (.error failure, network)
    | .ok (.done outcome) =>
      (.ok outcome, rememberResponse network call mode outcome world.storedAt)
    | .ok (.response response) => match call.request.delivery with
      | .buffer => bufferResponse x network call mode response world.storedAt
      | .stream =>
        let (outcome, network) := startStream network call mode response
        (.ok outcome, network)
  match answered with
  | (.ok outcome, network) => (.ok outcome, rememberSheet x network call outcome)
  | (.error failure, network) => (.error failure, network)

/-- One dial. The cache is read in `before`, the request is built in `sent` and the answer arrives
in `after`: other dials and body tasks run in between. -/
def dialRequestUnfiltered (x : DialCrates) (before sent after : Network) (call : Call)
    (world : DialWorld) : Except DialFailure DialOutcome × Network :=
  match beginDial x before.cache call world with
  | .error failure => (.error failure, after)
  | .ok (.hit hit) => (.ok hit, after)
  | .ok (.miss mode stored etag) => match sendDial x sent call etag world with
    | .error failure => (.error failure, after)
    | .ok outbound => answerDial x after call mode stored outbound world

/-! ### What leaves the browser -/

def nosniff (headers : HeaderList) : Bool :=
  headers.any fun field =>
    Text.eqIgnoreAsciiCase field.1 "x-content-type-options".toList &&
      (Text.split ',' field.2).any fun option =>
        Text.eqIgnoreAsciiCase (Text.trim option) "nosniff".toList

/-- Whether the Opaque Response Blocking rules block an outcome. -/
def orbBlocks (outcome : DialOutcome) : Bool :=
  Orb.blocks outcome.contentType (nosniff outcome.headers) (match outcome.body with
    | .bytes bytes => some bytes
    | .undecodable | .streamed _ => none)

def orbFilter (request : DialRequest) (outcome : DialOutcome) : DialOutcome :=
  if request.policy.exposesResponse || !outcome.responseType.isOpaque then outcome
  else if orbBlocks outcome then { outcome with contentType := none, headers := [], body := .bytes [] }
  else { outcome with headers := outcome.headers.filter fun field =>
    Text.eqIgnoreAsciiCase field.1 "content-type".toList ||
      Text.eqIgnoreAsciiCase field.1 "x-content-type-options".toList }

def dialRequest (x : DialCrates) (before sent after : Network) (call : Call) (world : DialWorld) :
    Except DialFailure DialOutcome × Network :=
  let (result, network) := dialRequestUnfiltered x before sent after call world
  (result.map (orbFilter call.request), network)

/-! ### Streams -/

/-- One turn of a stream's body task. -/
def pumpStream (x : DialCrates) (network : Network) (id : StreamId) (storedAt : Instant) :
    Option Network := do
  let entry ← network.streams.get? id
  let (message, task, store) ← entry.task.step x.digests
  let network := match store with
    | some store => storeResponse network store storedAt
    | none => network
  return { network with
    streams := network.streams.insert id { entry with queue := entry.queue ++ [message], task := task } }

/-- `read_stream`: `none` while the next message has not been sent. A message that ends the stream
removes it. -/
def readStream (network : Network) (owner : RendererAssignmentId) (id : StreamId) :
    Option (Except DialFailure (Option Bytes) × Network) :=
  match (network.streams.get? id).filter (·.owner = owner) with
  | none => some (.ok none, network)
  | some entry => match entry.queue with
    | [] => none
    | .chunk bytes :: rest => some (.ok (some bytes),
        { network with streams := network.streams.insert id { entry with queue := rest } })
    | .finish :: _ => some (.ok none, { network with streams := network.streams.erase id })
    | .error failure :: _ => some (.error failure, { network with streams := network.streams.erase id })

def cancelStream (network : Network) (owner : RendererAssignmentId) (id : StreamId) : Network :=
  match (network.streams.get? id).filter (·.owner = owner) with
  | none => network
  | some _ => { network with streams := network.streams.erase id }

def releaseStreams (network : Network) (owner : RendererAssignmentId) : Network :=
  let abandoned := (network.streams.pairs.filter fun (_, entry) => entry.owner = owner).map Prod.fst
  { network with streams := network.streams.retain (· ∉ abandoned) }

/-! ### A small instance -/

/-- Crates that know the SHA-256 digests of the sample's bodies, the empty one and `a`. -/
def DialCrates.sample : DialCrates where
  toNetCrates := NetCrates.sample
  digests _ bytes :=
    if bytes = [] then "47DEQpj8HBSa+/TImW+5JCeuQeRkm5NMpJWZG3hSuFU=".toList
    else "ypeBEsobvcr6wjGzmiPcTaeG7/gUfE5yuYB3ha/uSLs=".toList
  parseHttpDate _ := none
  aboutBlank := { Url.sample with asStr := "about:blank".toList }

/-- A same-origin page `fetch` of `https://example.com/`. -/
def Call.sample : Call where
  tab := 0
  request := DialRequest.new (.fetch ⟨.cors, .sameOrigin, .follow⟩) Url.sample
  initiator := Url.sample.origin
  owner := 1

/-- A basic response with the given status, fields and body. -/
def Response.sample (status : Nat) (fields : List (HeaderName × Bytes)) (body : Bytes) : Response where
  status := status
  statusText := []
  headers := ⟨fields⟩
  finalUrl := Url.sample
  body := ⟨[body], none⟩
  redirectCount := 0
  filtering := .basic
  referrer := none
  crossedOrigin := false

/-- A dial that gets its permits and the given answer. -/
def DialWorld.sample (answer : Response) : DialWorld where
  inFlight := 0
  clock := ⟨0, 0⟩
  started := 0
  globalPermit := .ok ()
  tabPermit := .ok ()
  redirects := []
  answer := .ok answer
  storedAt := 0

/-- The network after one dial of an empty network. -/
def Network.sample (call : Call) (answer : Response) : Network :=
  (dialRequestUnfiltered DialCrates.sample .new .new .new call (.sample answer)).2

end TinyBrowser
