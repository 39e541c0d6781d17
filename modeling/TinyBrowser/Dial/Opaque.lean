import TinyBrowser.Dial.Answer

/-!
# Opaque responses and delivery

A buffered opaque response is filtered by its declared type and by its first bytes, a streamed one
by its declared type only: its bytes are not there yet when the filter runs, and nothing looks at
them later. `streamBlocked_iff` compares the two deliveries of one response.
-/

namespace TinyBrowser
open Lib

variable {x : DialCrates} {before sent after : Network} {call : Call} {world : DialWorld}

/-- The same call with the body delivered as `delivery` says. -/
def Call.deliver (call : Call) (delivery : BodyDelivery) : Call :=
  { call with request := { call.request with delivery := delivery } }

/-- What the renderer receives of a stream in some turns of its body task, reading each message as
it is sent. -/
def drainStream (x : DialCrates) (owner : RendererAssignmentId) (id : StreamId) (storedAt : Instant) :
    Nat → Network → Bytes
  | 0, _ => []
  | turns + 1, network => match pumpStream x network id storedAt with
    | none => []
    | some network => match readStream network owner id with
      | some (.ok (some bytes), network) =>
        bytes ++ drainStream x owner id storedAt turns network
      | _ => []

/-- The body bytes that reach the renderer which made the dial. -/
def deliveredBytes (x : DialCrates) (owner : RendererAssignmentId) (turns : Nat)
    (storedAt : Instant) : Except DialFailure DialOutcome × Network → Bytes
  | (.error _, _) => []
  | (.ok outcome, network) => match outcome.body with
    | .bytes bytes => bytes
    | .undecodable => []
    | .streamed id => drainStream x owner id storedAt turns network

/-! ### A stream delivers what a buffered read collects -/

variable {owner : RendererAssignmentId}

theorem drainStream_chunk {id : StreamId} {storedAt : Instant}
    {network : Network} {task task' : StreamTask} {chunk : Bytes} {store : Option PendingStore}
    (turns : Nat) (hentry : network.streams.get? id = some ⟨owner, [], task⟩)
    (hstep : task.step x.digests = some (.chunk chunk, task', store)) :
    ∃ network', drainStream x owner id storedAt (turns + 1) network =
        chunk ++ drainStream x owner id storedAt turns network' ∧
      network'.streams.get? id = some ⟨owner, [], task'⟩ := by
  rw [drainStream]
  cases store <;>
    simp only [pumpStream, hentry, hstep, bind, Option.bind_some, pure, readStream,
      Dict.get?_insert, if_true, Option.filter_some, decide_true, List.nil_append]
  all_goals
    refine ⟨_, rfl, ?_⟩
    rw [Dict.get?_insert, if_pos rfl]

theorem drainStream_last {id : StreamId} {storedAt : Instant}
    {network : Network} {task task' : StreamTask} {message : StreamMessage}
    {store : Option PendingStore} (turns : Nat)
    (hentry : network.streams.get? id = some ⟨owner, [], task⟩)
    (hstep : task.step x.digests = some (message, task', store))
    (hlast : ∀ chunk, message ≠ .chunk chunk) :
    drainStream x owner id storedAt (turns + 1) network = [] := by
  rw [drainStream]
  cases store <;>
    simp only [pumpStream, hentry, hstep, bind, Option.bind_some, pure, readStream,
      Dict.get?_insert, if_true, Option.filter_some, decide_true, List.nil_append]
  all_goals
    cases message with
    | chunk chunk => exact absurd rfl (hlast chunk)
    | finish => rfl
    | error failure => rfl

/-- The bytes a buffered read returns are those it had collected and those a stream of the same
reads delivers. -/
theorem drainStream_reads {id : StreamId} (storedAt : Instant)
    {reads : List Read} {reader : BodyReader} {body : Bytes} {network : Network} {task : StreamTask}
    (hbuffer : bufferBody x.digests reader reads = .ok (.bytes body))
    (hcollect : reader.collect = true) (htotal : task.reader.total = reader.total)
    (hreads : task.reads = reads) (hentry : network.streams.get? id = some ⟨owner, [], task⟩) :
    body = reader.collected ++ drainStream x owner id storedAt reads.length network := by
  induction reads generalizing reader network task with
  | nil => cases hbuffer
  | cons read rest ih =>
    rcases read with error | chunk
    · cases error <;> cases hbuffer
    · cases chunk with
      | some chunk =>
        by_cases hlimit : maxResponseBodyBytes < reader.total + chunk.length
        · simp [bufferBody, BodyReader.next, hlimit] at hbuffer
        · simp only [bufferBody, BodyReader.next, hlimit, if_false] at hbuffer
          have hstep : ∃ task', task.step x.digests = some (.chunk chunk, task', none) ∧
              task'.reader.total = reader.total + chunk.length ∧ task'.reads = rest := by
            simp only [StreamTask.step, hreads, BodyReader.next, htotal, hlimit, if_false]
            exact ⟨_, rfl, rfl, rfl⟩
          obtain ⟨task', hstep, htotal', hreads'⟩ := hstep
          obtain ⟨network', hdrain, hentry'⟩ := drainStream_chunk rest.length hentry hstep
          have hrest := ih hbuffer hcollect htotal' hreads' hentry'
          rw [List.length_cons, hdrain, hrest, hcollect, if_pos rfl, List.append_assoc]
      | none =>
        have hdone : body = reader.collected := by
          simp only [bufferBody, BodyReader.next] at hbuffer
          split_ifs at hbuffer
          cases hbuffer
          rfl
        have hlast : ∃ message task' store, task.step x.digests = some (message, task', store) ∧
            ∀ chunk, message ≠ .chunk chunk := by
          simp only [StreamTask.step, hreads, BodyReader.next]
          split_ifs
          · exact ⟨_, _, _, rfl, fun _ h => by cases h⟩
          · exact ⟨_, _, _, rfl, fun _ h => by cases h⟩
        obtain ⟨message, task', store, hstep, hlast⟩ := hlast
        rw [hdone, List.length_cons, drainStream_last rest.length hentry hstep hlast,
          List.append_nil]

/-! ### Engine dials -/

theorem engine_entry (hengine : call.request.policy.exposesResponse = false) :
    call.entry before = none := by
  unfold Call.entry usableEntry cachedHit
  simp [hengine]

theorem engine_begin {reserved : Option Nat}
    (hengine : call.request.policy.exposesResponse = false)
    (hk : acquireKeepalive call.request world.inFlight = .ok reserved) :
    beginDial x before.cache call world = .ok (.miss call.request.cache none none) := by
  have hvalidator : validator call.request none = none := by
    unfold validator
    split_ifs <;> rfl
  have hc : cachedResponse x call.request call.request.cache none world.clock = .ok none := by
    unfold cachedResponse
    rw [hengine]
    rfl
  rw [beginDial_eq reserved hk, engine_entry hengine, hc, hvalidator]
  rfl

theorem engine_sends {outcome : DialOutcome} (hengine : call.request.policy.exposesResponse = false)
    (h : (dialRequestUnfiltered x before sent after call world).1 = .ok outcome) :
    ∃ reserved outbound, acquireKeepalive call.request world.inFlight = .ok reserved ∧
      sendDial x sent call none world = .ok outbound := by
  cases hk : acquireKeepalive call.request world.inFlight with
  | error failure =>
    simp [dialRequestUnfiltered, beginDial, hk, bind, Except.bind] at h
  | ok reserved =>
    rw [dialRequestUnfiltered, engine_begin hengine hk] at h
    simp only at h
    cases hs : sendDial x sent call none world with
    | error failure =>
      rw [hs] at h
      cases h
    | ok outbound => exact ⟨reserved, outbound, rfl, rfl⟩

/-- The streamed dial of an engine request: its outcome and the streams after it. -/
theorem engine_stream (before after : Network) {reserved : Option Nat} {outbound : Request}
    {response : Response}
    (hengine : call.request.policy.exposesResponse = false)
    (hk : acquireKeepalive call.request world.inFlight = .ok reserved)
    (hs : sendDial x sent call none world = .ok outbound) (ha : world.answer = .ok response)
    (hread : ¬ (call.request.integrity.isSome = true ∧ response.responseType.isOpaque = true))
    (hd : call.request.delivery = .stream) :
    (dialRequestUnfiltered x before sent after call world).1 =
        .ok { (DialHead.internal response).intoOutcome (.bytes []) with
          body := .streamed after.nextStream } ∧
      ∃ task, (dialRequestUnfiltered x before sent after call world).2.streams.get?
          after.nextStream = some ⟨call.owner, [], task⟩ ∧
        task.reader.total = 0 ∧ task.reads = response.body.reads := by
  have hr : readHead call.request none outbound world = .ok (.response response) := by
    unfold readHead
    rw [ha]
    have hread' : (call.request.integrity.isSome && response.responseType.isOpaque) = false := by
      simpa using hread
    simp [hread']
  have hhead : DialHead.read call.request response = DialHead.internal response := by
    rw [DialHead.read, hengine]
    rfl
  have hnull : (DialHead.internal response).nullBody = false := rfl
  rw [dialRequestUnfiltered, engine_begin hengine hk]
  simp only [hs, answerDial, hr, hd, startStream, hhead, hnull, rememberSheet_streams]
  refine ⟨rfl, ?_⟩
  simp only [Bool.false_eq_true, if_false, Dict.get?_insert, if_true]
  exact ⟨_, rfl, rfl, rfl⟩

/-! ### The two deliveries -/

/-- Whether the declared type alone blocks a response. -/
def typeBlocks (response : Response) : Bool :=
  Orb.blocks (contentTypeHeader response.headers.iter) (nosniff (internalHeaders response)) none

theorem deliveredBytes_stream (before after : Network) {reserved : Option Nat}
    {outbound : Request} {response : Response}
    (hengine : call.request.policy.exposesResponse = false)
    (hk : acquireKeepalive call.request world.inFlight = .ok reserved)
    (hs : sendDial x sent call none world = .ok outbound) (ha : world.answer = .ok response)
    (hread : ¬ (call.request.integrity.isSome = true ∧ response.responseType.isOpaque = true))
    (hd : call.request.delivery = .stream) (hfiltered : response.responseType.isOpaque = true)
    (turns : Nat) (storedAt : Instant) :
    deliveredBytes x call.owner turns storedAt (dialRequest x before sent after call world) =
      if typeBlocks response then []
      else drainStream x call.owner after.nextStream storedAt turns
        (dialRequestUnfiltered x before sent after call world).2 := by
  obtain ⟨hout, -⟩ := engine_stream before after hengine hk hs ha hread hd
  have hblocks : orbBlocks { (DialHead.internal response).intoOutcome (.bytes []) with
      body := .streamed after.nextStream } = typeBlocks response := rfl
  have hfilter : (!((DialHead.internal response).intoOutcome (.bytes [])).responseType.isOpaque) =
      false := by
    show (!response.responseType.isOpaque) = false
    rw [hfiltered]
    rfl
  simp only [dialRequest, hout, Except.map, orbFilter, hengine, hfilter, Bool.or_false,
    Bool.false_eq_true, if_false, hblocks]
  split_ifs <;> rfl

/-- The buffered outcome of an opaque engine response: its head, with the body read to its end. -/
theorem engine_buffer {response : Response} {outcome : DialOutcome}
    (hengine : call.request.policy.exposesResponse = false) (ha : world.answer = .ok response)
    (hd : call.request.delivery = .buffer)
    (h : (dialRequestUnfiltered x before sent after call world).1 = .ok outcome) :
    ¬ (call.request.integrity.isSome = true ∧ response.responseType.isOpaque = true) ∧
      ∃ body, outcome = (DialHead.internal response).intoOutcome body ∧
        bufferBody x.digests (BodyReader.new call.request.integrity true) response.body.reads =
          .ok body := by
  rcases dial_cases h with ⟨entry, hserved, -⟩ | ⟨entry, answer, hnot, -⟩ | hdelivered
  · have husable := hserved.usable
    rw [engine_entry hengine] at husable
    cases husable
  · have husable := hnot.usable
    rw [engine_entry hengine] at husable
    cases husable
  · cases hdelivered with
    | refused outbound error ha' h =>
      rw [ha] at ha'
      cases ha'
    | streamed answer ha' hread hd' h =>
      rw [hd] at hd'
      cases hd'
    | buffered answer ha' hread hd' h =>
      rw [ha] at ha'
      cases ha'
      refine ⟨hread, ?_⟩
      have hhead : DialHead.read call.request response = DialHead.internal response := by
        rw [DialHead.read, hengine]
        rfl
      have hnull : (DialHead.internal response).nullBody = false := rfl
      simp only [bufferResponse, hhead, hnull, Bool.false_eq_true, if_false] at h
      split at h
      · cases h
      · rename_i body hbody
        cases h
        exact ⟨body, rfl, hbody⟩

/-- If the buffered delivery of an opaque engine response is blocked, the streamed delivery gives
the renderer no byte of it exactly when the declared type alone blocks it. -/
theorem streamBlocked_iff (x : DialCrates) (before sent after : Network) (call : Call)
    (world : DialWorld) (response : Response) (outcome : DialOutcome)
    (hengine : call.request.policy.exposesResponse = false) (ha : world.answer = .ok response)
    (hfiltered : response.responseType.isOpaque = true)
    (hok : (dialRequestUnfiltered x before sent after (call.deliver .buffer) world).1 = .ok outcome)
    (hblocked : orbBlocks outcome = true) :
    (∀ turns storedAt, deliveredBytes x call.owner turns storedAt
        (dialRequest x before sent after (call.deliver .stream) world) = []) ↔
      typeBlocks response = true := by
  have hbuffer : (call.deliver .buffer).request.policy.exposesResponse = false := hengine
  have hstream : (call.deliver .stream).request.policy.exposesResponse = false := hengine
  obtain ⟨hread, body, rfl, hbody⟩ := engine_buffer hbuffer ha rfl hok
  obtain ⟨reserved, outbound, hk, hs⟩ := engine_sends hbuffer hok
  -- what the agent is sent does not depend on the delivery
  have hk' : acquireKeepalive (call.deliver .stream).request world.inFlight = .ok reserved := hk
  have hs' : sendDial x sent (call.deliver .stream) none world = .ok outbound := hs
  have hdelivered : ∀ turns storedAt, deliveredBytes x call.owner turns storedAt
      (dialRequest x before sent after (call.deliver .stream) world) = _ :=
    deliveredBytes_stream before after hstream hk' hs' ha hread rfl hfiltered
  constructor
  · intro hnone
    by_contra htype
    -- the type does not decide, so the buffered bytes did, and there are some
    have hbytes : ∃ bytes, body = .bytes bytes ∧ bytes ≠ [] := by
      cases body with
      | undecodable => exact absurd hblocked htype
      | streamed id => exact absurd hblocked htype
      | bytes bytes =>
        refine ⟨bytes, rfl, ?_⟩
        rintro rfl
        have hnil : typeBlocks response = true := (Orb.blocks_nil _ _).symm.trans hblocked
        exact htype hnil
    obtain ⟨bytes, rfl, hne⟩ := hbytes
    obtain ⟨-, task, hentry, htotal, hreads⟩ :=
      engine_stream before after hstream hk' hs' ha hread rfl
    have hdrain := drainStream_reads 0 hbody rfl htotal hreads hentry
    have hempty := hnone response.body.reads.length 0
    rw [hdelivered, if_neg htype] at hempty
    exact hne (hdrain.trans hempty)
  · intro htype turns storedAt
    rw [hdelivered, if_pos htype]

/-- An `<img>` of another site's document. -/
def Call.crossImage : Call :=
  { Call.sample with
    request := DialRequest.new (.image none) Url.sample
    initiator := .tuple "https".toList (.domain "other.test".toList) 443 }

theorem lower_contentType : Text.toAsciiLowercase "content-type".toList = "content-type".toList := by
  decide

/-- An opaque response of the given type. -/
def Response.opaqueSample (contentType : Text) (body : Bytes) : Response :=
  { Response.sample 200 [(⟨"content-type".toList, lower_contentType⟩, Bytes.ofText contentType)] body with
    filtering := .opaqueFilter }

/-- A PDF is blocked by its type, so it is not streamed either. -/
theorem streamBlocked_iff_pdf : typeBlocks (.opaqueSample "application/pdf".toList [0x25]) = true ∧
    ∀ turns storedAt, deliveredBytes .sample 1 turns storedAt
      (dialRequest .sample .new .new .new (Call.crossImage.deliver .stream)
        (.sample (.opaqueSample "application/pdf".toList [0x25]))) = [] := by
  have htype : typeBlocks (.opaqueSample "application/pdf".toList [0x25]) = true := by
    decide +kernel
  exact ⟨htype, (streamBlocked_iff .sample .new .new .new .crossImage _
    (.opaqueSample "application/pdf".toList [0x25]) _ rfl rfl rfl rfl (by decide +kernel)).2 htype⟩

/-- An HTML document is blocked when it is buffered and reaches the renderer when it is streamed. -/
theorem exists_stream_unblocked :
    (∃ outcome, (dialRequestUnfiltered .sample .new .new .new (Call.crossImage.deliver .buffer)
        (.sample (.opaqueSample "text/html".toList (Bytes.ofText "<html>".toList)))).1 = .ok outcome ∧
      orbBlocks outcome = true) ∧
    deliveredBytes .sample 1 1 0 (dialRequest .sample .new .new .new
        (Call.crossImage.deliver .stream)
        (.sample (.opaqueSample "text/html".toList (Bytes.ofText "<html>".toList)))) =
      Bytes.ofText "<html>".toList := by
  refine ⟨⟨_, rfl, ?_⟩, ?_⟩
  · decide +kernel
  · decide +kernel

end TinyBrowser
