import TinyBrowser.Dial.Answer
import TinyBrowser.Lib.Machine

/-!
# What the cache holds

Dials as a machine: any number of them are between their three stretches at once, body tasks take
their turns, and the renderer reads and gives up streams. In every reachable state each cache key,
also one that a body task is still to write, is the key of a GET (`get_of_run`).
-/

namespace TinyBrowser
open Lib

/-- A dial between two of its stretches. -/
inductive PendingDial where
  | begun (call : Call) (mode : RequestCache) (stored : Option CachedResponse) (etag : Option Text)
  | sent (call : Call) (mode : RequestCache) (stored : Option CachedResponse) (outbound : Request)

structure DialState where
  network : Network
  pending : Dict Nat PendingDial

def DialState.new : DialState := ⟨Network.new, Dict.empty⟩

inductive DialStep where
  | start (token : Nat) (call : Call) (world : DialWorld)
  | send (token : Nat) (world : DialWorld)
  | answer (token : Nat) (world : DialWorld)
  | pump (id : StreamId) (storedAt : Instant)
  | read (owner : RendererAssignmentId) (id : StreamId)
  | cancel (owner : RendererAssignmentId) (id : StreamId)
  | release (owner : RendererAssignmentId)

def dialStep (x : DialCrates) (s : DialState) : DialStep → Option DialState
  | .start token call world =>
    if s.pending.contains token then none
    else match beginDial x s.network.cache call world with
      | .error _ | .ok (.hit _) => some s
      | .ok (.miss mode stored etag) =>
        some { s with pending := s.pending.insert token (.begun call mode stored etag) }
  | .send token world => match s.pending.get? token with
    | some (.begun call mode stored etag) => match sendDial x s.network call etag world with
      | .error _ => some { s with pending := s.pending.erase token }
      | .ok outbound =>
        some { s with pending := s.pending.insert token (.sent call mode stored outbound) }
    | _ => none
  | .answer token world => match s.pending.get? token with
    | some (.sent call mode stored outbound) =>
      some ⟨(answerDial x s.network call mode stored outbound world).2, s.pending.erase token⟩
    | _ => none
  | .pump id storedAt => (pumpStream x s.network id storedAt).map fun network =>
      { s with network := network }
  | .read owner id => (readStream s.network owner id).map fun answer =>
      { s with network := answer.2 }
  | .cancel owner id => some { s with network := cancelStream s.network owner id }
  | .release owner => some { s with network := releaseStreams s.network owner }

/-! ### The invariant -/

/-- Only GETs are stored, and only GETs are waiting to be. -/
structure Network.OnlyGet (network : Network) : Prop where
  cache : ∀ key entry, network.cache.get? key = some entry → key.method = Method.get
  streams : ∀ id entry store, network.streams.get? id = some entry →
    entry.task.store = some store → store.key.method = Method.get

variable {x : DialCrates} {network : Network} {call : Call} {world : DialWorld}

theorem evictCached_get? {bodyLen fuel total : Nat} {cache : ResponseCache} {key : CacheKey}
    {entry : CachedResponse} (h : (evictCached bodyLen fuel total cache).get? key = some entry) :
    cache.get? key = some entry := by
  induction fuel generalizing total cache with
  | zero => exact h
  | succ fuel ih =>
    rw [evictCached] at h
    split_ifs at h
    · cases ho : oldest cache with
      | none =>
        rw [ho] at h
        exact h
      | some removed =>
        rw [ho] at h
        have hkept := ih h
        rw [Dict.get?_erase] at hkept
        split_ifs at hkept
        exact hkept
    · exact h

theorem insertCached_get? {cache : ResponseCache} {key key' : CacheKey}
    {entry entry' : CachedResponse} (h : (insertCached cache key entry).get? key' = some entry') :
    key' = key ∨ cache.get? key' = some entry' := by
  unfold insertCached at h
  simp only at h
  split_ifs at h
  · exact .inr h
  · rw [Dict.get?_insert] at h
    split_ifs at h with hkey
    · exact .inl hkey
    · exact .inr (evictCached_get? h)

namespace Network.OnlyGet

variable {storedAt : Instant}

theorem storeResponse {store : PendingStore} (h : network.OnlyGet)
    (hstore : store.key.method = Method.get) :
    (storeResponse network store storedAt).OnlyGet := by
  refine ⟨?_, h.streams⟩
  intro key entry hget
  rcases insertCached_get? hget with rfl | hget
  · exact hstore
  · exact h.cache key entry hget

variable {mode : RequestCache}

theorem of_shouldStore {outcome : DialOutcome}
    (h : shouldStore call.request outcome mode = true) :
    (pendingStore call outcome).key.method = Method.get := by
  simp only [shouldStore, Bool.and_eq_true, decide_eq_true_eq] at h
  exact h.1.1.1.1.1.2

theorem rememberResponse {outcome : DialOutcome}
    (h : network.OnlyGet) : (rememberResponse network call mode outcome storedAt).OnlyGet := by
  unfold TinyBrowser.rememberResponse
  split_ifs with hstore
  · exact h.storeResponse (of_shouldStore hstore)
  · exact h

theorem rememberSheet {outcome : DialOutcome} (h : network.OnlyGet) :
    (rememberSheet x network call outcome).OnlyGet := by
  unfold TinyBrowser.rememberSheet
  split_ifs
  · exact h
  · cases call.initiator with
    | opaqueOrigin id => exact h
    | tuple scheme host port => exact ⟨h.cache, h.streams⟩

theorem bufferResponse {response : Response}
    (h : network.OnlyGet) : (bufferResponse x network call mode response storedAt).2.OnlyGet := by
  unfold TinyBrowser.bufferResponse
  simp only
  split
  · exact h
  · exact h.rememberResponse

variable {network' : Network}

/-- A change of the streams keeps the invariant when each stream after it is an old one or may be
stored. -/
theorem of_streams (h : network.OnlyGet)
    (hcache : network'.cache = network.cache)
    (hstreams : ∀ id entry, network'.streams.get? id = some entry →
      network.streams.get? id = some entry ∨
        ∀ store, entry.task.store = some store → store.key.method = Method.get) :
    network'.OnlyGet := by
  refine ⟨?_, ?_⟩
  · rw [hcache]
    exact h.cache
  · intro id entry store hget hstore
    rcases hstreams id entry hget with hold | hnew
    · exact h.streams id entry store hold hstore
    · exact hnew store hstore

theorem of_insert {id : StreamId} {entry : StreamEntry}
    (h : network.OnlyGet) (hcache : network'.cache = network.cache)
    (hstreams : network'.streams = network.streams.insert id entry)
    (hentry : ∀ store, entry.task.store = some store → store.key.method = Method.get) :
    network'.OnlyGet := by
  refine h.of_streams hcache ?_
  intro id' entry' hget
  rw [hstreams, Dict.get?_insert] at hget
  split_ifs at hget with hid
  · cases hget
    exact .inr hentry
  · exact .inl hget

theorem of_retain {p : StreamId → Bool} (h : network.OnlyGet)
    (hcache : network'.cache = network.cache)
    (hstreams : network'.streams = network.streams.retain p) : network'.OnlyGet := by
  refine h.of_streams hcache ?_
  intro id entry hget
  rw [hstreams, Dict.get?_retain] at hget
  split_ifs at hget
  exact .inl hget

theorem startStream {response : Response} (h : network.OnlyGet) :
    (startStream network call mode response).2.OnlyGet := by
  unfold TinyBrowser.startStream
  simp only
  split_ifs with hnull hstore
  · exact h
  · refine h.of_insert rfl rfl ?_
    intro store heq
    cases heq
    exact of_shouldStore hstore
  · refine h.of_insert rfl rfl ?_
    intro store heq
    cases heq

theorem answerDial {stored : Option CachedResponse} {outbound : Request}
    (h : network.OnlyGet) : (answerDial x network call mode stored outbound world).2.OnlyGet := by
  unfold TinyBrowser.answerDial
  simp only
  cases readHead call.request stored outbound world with
  | error failure => exact h
  | ok progress =>
    cases progress with
    | done outcome => exact h.rememberResponse.rememberSheet
    | response response =>
      cases call.request.delivery with
      | stream => exact h.startStream.rememberSheet
      | buffer =>
        have hbuffer : (TinyBrowser.bufferResponse x network call mode response
          world.storedAt).2.OnlyGet := h.bufferResponse
        simp only
        split
        · rename_i hb
          rw [hb] at hbuffer
          exact hbuffer.rememberSheet
        · rename_i hb
          rw [hb] at hbuffer
          exact hbuffer

/-- A turn of a body task stores under the task's own key, and keeps that key. -/
theorem step_store {digests : Digests} {task task' : StreamTask} {message : StreamMessage}
    {store : Option PendingStore} (h : task.step digests = some (message, task', store)) :
    task'.store = task.store ∧ ∀ written, store = some written →
      ∃ planned, task.store = some planned ∧ written.key = planned.key := by
  unfold StreamTask.step at h
  split at h
  · cases h
  · split at h
    all_goals
      cases h
      refine ⟨rfl, ?_⟩
      intro written hwritten
    · cases hwritten
    · obtain ⟨planned, hplanned, heq⟩ := Option.map_eq_some_iff.1 hwritten
      refine ⟨planned, hplanned, ?_⟩
      rw [← heq]
    · cases hwritten
    · cases hwritten

theorem pumpStream {id : StreamId} (h : network.OnlyGet)
    (hpump : pumpStream x network id storedAt = some network') : network'.OnlyGet := by
  simp only [TinyBrowser.pumpStream, bind, Option.bind_eq_some_iff] at hpump
  obtain ⟨entry, hentry, ⟨message, task, store⟩, hstep, hnet⟩ := hpump
  obtain ⟨hsame, hwritten⟩ := step_store hstep
  cases hnet
  have hentry' : ∀ planned, task.store = some planned → planned.key.method = Method.get := by
    intro planned hplanned
    exact h.streams id entry planned hentry (hsame ▸ hplanned)
  cases store with
  | none => exact h.of_insert rfl rfl hentry'
  | some written =>
    obtain ⟨planned, hplanned, hkey⟩ := hwritten written rfl
    have hget : written.key.method = Method.get := by
      rw [hkey]
      exact h.streams id entry planned hentry hplanned
    exact (h.storeResponse hget).of_insert rfl rfl hentry'

variable {owner : RendererAssignmentId}

theorem readStream {id : StreamId}
    {answer : Except DialFailure (Option Bytes) × Network} (h : network.OnlyGet)
    (hread : readStream network owner id = some answer) : answer.2.OnlyGet := by
  unfold TinyBrowser.readStream at hread
  split at hread
  · cases hread
    exact h
  · rename_i entry hentry
    have hget : network.streams.get? id = some entry := (Option.filter_eq_some_iff.1 hentry).1
    split at hread
    · cases hread
    · cases hread
      refine h.of_insert rfl rfl ?_
      intro store hstore
      exact h.streams id entry store hget hstore
    · cases hread
      exact h.of_retain (p := fun id' => id' ≠ id) rfl rfl
    · cases hread
      exact h.of_retain (p := fun id' => id' ≠ id) rfl rfl

theorem cancelStream {id : StreamId} (h : network.OnlyGet) :
    (cancelStream network owner id).OnlyGet := by
  unfold TinyBrowser.cancelStream
  split
  · exact h
  · exact h.of_retain (p := fun id' => id' ≠ id) rfl rfl

theorem releaseStreams (h : network.OnlyGet) :
    (releaseStreams network owner).OnlyGet := by
  unfold TinyBrowser.releaseStreams
  refine h.of_streams rfl ?_
  intro id entry hget
  rw [Dict.get?_retain] at hget
  split_ifs at hget
  exact .inl hget

end Network.OnlyGet

theorem onlyGet_step {s s' : DialState} {i : DialStep} (h : s.network.OnlyGet)
    (hstep : dialStep x s i = some s') : s'.network.OnlyGet := by
  cases i with
  | start token call world =>
    simp only [dialStep] at hstep
    split_ifs at hstep
    split at hstep
    all_goals
      cases hstep
      exact h
  | send token world =>
    simp only [dialStep] at hstep
    split at hstep
    · split at hstep
      all_goals
        cases hstep
        exact h
    · cases hstep
  | answer token world =>
    simp only [dialStep] at hstep
    split at hstep
    · cases hstep
      exact h.answerDial
    · cases hstep
  | pump id storedAt =>
    obtain ⟨network, hpump, rfl⟩ := Option.map_eq_some_iff.1 hstep
    exact h.pumpStream hpump
  | read owner id =>
    obtain ⟨answer, hread, rfl⟩ := Option.map_eq_some_iff.1 hstep
    exact h.readStream hread
  | cancel owner id =>
    cases hstep
    exact h.cancelStream
  | release owner =>
    cases hstep
    exact h.releaseStreams

/-- Every key in the cache of a reachable state is the key of a GET. -/
theorem get_of_run {s : DialState} {steps : List DialStep}
    (h : Machine.run (dialStep x) DialState.new steps = some s) {key : CacheKey}
    {entry : CachedResponse} (hget : s.network.cache.get? key = some entry) :
    key.method = Method.get := by
  have hnew : DialState.new.network.OnlyGet := by
    refine ⟨?_, ?_⟩
    · intro key entry hget
      cases hget
    · intro id entry store hget
      cases hget
  have hinv := Machine.inv_run (I := fun s => s.network.OnlyGet)
    (fun _ _ _ hs hstep => onlyGet_step hs hstep) hnew h
  exact hinv.cache key entry hget

end TinyBrowser
