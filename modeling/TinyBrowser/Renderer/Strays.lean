import TinyBrowser.Renderer.Streams

/-!
# No stream outlives its document

An entry whose owner's sweep is over is known to a dial worker of that owner, which gives it up as
soon as it looks the owner up. One dial escapes: `orb_filter` empties the body of a response that it
blocks by its type, the id of the stream it has just started with it, so no worker knows that stream,
and if the sweep is over, nothing removes it (`exists_stray`).
-/

namespace TinyBrowser
open Lib

/-- The drop is past the sweep of the document's streams. -/
def Lifetime.pastSweep : Lifetime → Bool
  | .alive | .dropping .noteReleased | .dropping .releaseStreams => false
  | .dropping .removeLive | .dropping .notifyRelease | .dropping .countDown
  | .dropping .sendNotice | .dropped => true

/-- The dial streams an opaque response to the engine that its declared type blocks. -/
def Call.losesStream (call : Call) (response : Response) : Bool :=
  call.request.delivery = .stream && !call.request.policy.exposesResponse &&
    response.responseType.isOpaque && typeBlocks response

/-- The same of the answer that the worker waits for. -/
def DialWorker.losesStream (worker : DialWorker) (world : DialWorld) : Bool :=
  match worker.phase with
  | .sent _ stored outbound => match readHead worker.call.request stored outbound world with
    | .ok (.response response) => worker.call.losesStream response
    | .ok (.done _) | .error _ => false
  | _ => false

def Assignments.Swept (s : Assignments) (owner : RendererAssignmentId) : Prop :=
  ∃ entry ∈ s.heap.get? owner, entry.2.pastSweep = true

instance (s : Assignments) (owner : RendererAssignmentId) : Decidable (s.Swept owner) :=
  inferInstanceAs (Decidable (∃ entry ∈ s.heap.get? owner, entry.2.pastSweep = true))

namespace StreamState

/-- A stream whose owner was dropped belongs to a dial that is still running. -/
def NoStray (s : StreamState) : Prop :=
  ∀ id entry, s.network.streams.get? id = some entry → s.assignments.Swept entry.owner →
    ∃ key worker, s.workers.get? key = some worker ∧ worker.call.owner = entry.owner

/-- The document that a step acts for. -/
def actor (s : StreamState) : StreamStep → Option RendererAssignmentId
  | .assignment i => s.sweeps i
  | .worker key _ => (s.workers.get? key).map (·.call.owner)
  | .receive key _ => (s.readers.get? key).map (·.owner)
  | .cancel owner _ => some owner
  | .spawn .. | .pump .. | .read .. => none

/-- A step removes an entry or takes a message from it only on behalf of its owner. -/
def OwnerOnly (x : DialCrates) (s : StreamState) (i : StreamStep) : Prop :=
  ∀ s', streamStep x s i = some s' → ∀ id entry, s.network.streams.get? id = some entry →
    (∃ entry', s'.network.streams.get? id = some entry' ∧ entry'.owner = entry.owner ∧
      entry.queue <+: entry'.queue) ∨ s.actor i = some entry.owner

/-- The counter of stream ids has not come around to one in use. -/
def FreshId (s : StreamState) : Prop :=
  (s.network.streams.get? s.network.nextStream).isNone = true ∧
    ∀ reader ∈ s.readers.pairs, reader.2.id ≠ s.network.nextStream

instance (s : StreamState) : Decidable s.FreshId :=
  inferInstanceAs (Decidable (_ ∧ _))

/-- A dial that starts a stream takes a fresh id, and one that loses its stream is answered before
the sweep of its owner. -/
def InTime (s : StreamState) : StreamStep → Prop
  | .worker key (.answer world) => ∀ worker ∈ s.workers.get? key,
      worker.call.request.delivery = .stream →
        s.FreshId ∧ (worker.losesStream world = true → ¬ s.assignments.Swept worker.call.owner)
  | _ => True

instance (s : StreamState) : (i : StreamStep) → Decidable (s.InTime i)
  | .worker key (.answer world) =>
    inferInstanceAs (Decidable (∀ worker ∈ s.workers.get? key,
      worker.call.request.delivery = .stream →
        s.FreshId ∧ (worker.losesStream world = true → ¬ s.assignments.Swept worker.call.owner)))
  | .worker _ (.start _) | .worker _ (.send _) | .worker _ .cut | .worker _ .judge
  | .worker _ .settle | .worker _ .giveUp | .assignment _ | .spawn .. | .pump .. | .read ..
  | .receive .. | .cancel .. => inferInstanceAs (Decidable True)

/-- Every stream of a swept owner is known to one of its workers, and a reader waits for a stream
of its own. -/
structure Inv (s : StreamState) : Prop where
  known : ∀ id entry, s.network.streams.get? id = some entry → s.assignments.Swept entry.owner →
    ∃ key worker, s.workers.get? key = some worker ∧ worker.call.owner = entry.owner ∧
      worker.stream = some id
  own : ∀ key reader entry, s.readers.get? key = some reader →
    s.network.streams.get? reader.id = some entry → entry.owner = reader.owner

theorem inv_new : Inv new where
  known _ _ h := by cases h
  own _ _ _ h := by cases h

theorem Inv.noStray {s : StreamState} (h : s.Inv) : s.NoStray := by
  intro id entry hentry hswept
  obtain ⟨key, worker, hworker, howner, -⟩ := h.known id entry hentry hswept
  exact ⟨key, worker, hworker, howner⟩

end StreamState

/-! ### What happens to a table of streams -/

/-- No entry is added, and only those of `actor` are removed or read. -/
structure Touches (network network' : Network) (actor : Option RendererAssignmentId) : Prop where
  old : ∀ id entry', network'.streams.get? id = some entry' →
    ∃ entry, network.streams.get? id = some entry ∧ entry.owner = entry'.owner
  others : ∀ id entry, network.streams.get? id = some entry →
    (∃ entry', network'.streams.get? id = some entry' ∧ entry'.owner = entry.owner ∧
      entry.queue <+: entry'.queue) ∨ actor = some entry.owner

section touches
variable {network : Network} {actor : Option RendererAssignmentId}

theorem Touches.of_streams {network' : Network} (h : network'.streams = network.streams) :
    Touches network network' actor where
  old _ entry' hentry := ⟨entry', h ▸ hentry, rfl⟩
  others _ entry hentry := .inl ⟨entry, h ▸ hentry, rfl, List.prefix_refl _⟩

variable {id : StreamId}

theorem Touches.erase
    (h : ∀ entry, network.streams.get? id = some entry → actor = some entry.owner) :
    Touches network { network with streams := network.streams.erase id } actor where
  old j entry' hentry := by
    rw [Dict.get?_erase] at hentry
    split_ifs at hentry
    exact ⟨entry', hentry, rfl⟩
  others j entry hentry := by
    by_cases hj : j = id
    · exact .inr (h entry (hj ▸ hentry))
    · exact .inl ⟨entry, by rw [Dict.get?_erase, if_neg hj]; exact hentry, rfl, List.prefix_refl _⟩

theorem Touches.insert {entry entry' : StreamEntry}
    (hentry : network.streams.get? id = some entry) (howner : entry'.owner = entry.owner)
    (h : entry.queue <+: entry'.queue ∨ actor = some entry.owner) :
    Touches network { network with streams := network.streams.insert id entry' } actor where
  old j e hj := by
    rw [Dict.get?_insert] at hj
    split_ifs at hj with hid
    · cases hj
      exact ⟨entry, hid ▸ hentry, howner.symm⟩
    · exact ⟨e, hj, rfl⟩
  others j e hj := by
    by_cases hid : j = id
    · subst hid
      rw [hentry] at hj
      cases hj
      rcases h with hqueue | hactor
      · exact .inl ⟨entry', by rw [Dict.get?_insert, if_pos rfl], howner, hqueue⟩
      · exact .inr hactor
    · exact .inl ⟨e, by rw [Dict.get?_insert, if_neg hid]; exact hj, rfl, List.prefix_refl _⟩

theorem touches_cancelStream (network : Network) (owner : RendererAssignmentId) (id : StreamId) :
    Touches network (cancelStream network owner id) (some owner) := by
  unfold cancelStream
  cases hfound : (network.streams.get? id).filter (·.owner = owner) with
  | none => exact .of_streams rfl
  | some entry =>
    obtain ⟨hentry, howner⟩ := Option.filter_eq_some_iff.mp hfound
    apply Touches.erase
    intro entry' hentry'
    rw [hentry] at hentry'
    cases hentry'
    rw [of_decide_eq_true howner]

theorem touches_cancelOutcome (network : Network) (owner : RendererAssignmentId)
    (result : Except DialFailure DialOutcome) :
    Touches network (cancelOutcome network owner result) (some owner) := by
  unfold cancelOutcome
  split
  · exact .of_streams rfl
  · exact touches_cancelStream ..

variable {owner : RendererAssignmentId}

theorem mem_abandoned :
    id ∈ (network.streams.pairs.filter fun (_, entry) => entry.owner = owner).map Prod.fst ↔
      ∃ entry, network.streams.get? id = some entry ∧ entry.owner = owner := by
  simp [Dict.get?_eq_some_iff]

theorem get?_releaseStreams {entry : StreamEntry} :
    (releaseStreams network owner).streams.get? id = some entry ↔
      network.streams.get? id = some entry ∧ entry.owner ≠ owner := by
  rw [releaseStreams]
  simp only [Dict.get?_retain, decide_not, Bool.not_eq_true', decide_eq_false_iff_not,
    mem_abandoned]
  constructor
  · intro h
    split_ifs at h with hid
    exact ⟨h, fun howner => hid ⟨entry, h, howner⟩⟩
  · rintro ⟨hentry, hother⟩
    rw [if_pos, hentry]
    rintro ⟨entry', hentry', howner⟩
    rw [hentry] at hentry'
    cases hentry'
    exact hother howner

theorem touches_releaseStreams (network : Network) (owner : RendererAssignmentId) :
    Touches network (releaseStreams network owner) (some owner) where
  old id entry' hentry := ⟨entry', (get?_releaseStreams.mp hentry).1, rfl⟩
  others id entry hentry := by
    by_cases howner : entry.owner = owner
    · exact .inr (by rw [howner])
    · exact .inl ⟨entry, get?_releaseStreams.mpr ⟨hentry, howner⟩, rfl, List.prefix_refl _⟩

theorem touches_pumpStream {x : DialCrates} {network' : Network}
    {storedAt : Instant} (h : pumpStream x network id storedAt = some network') :
    Touches network network' actor := by
  obtain ⟨entry, hentry, h⟩ := Option.bind_eq_some_iff.mp h
  obtain ⟨⟨message, task, store⟩, -, h⟩ := Option.bind_eq_some_iff.mp h
  cases h
  let entry' : StreamEntry := { entry with queue := entry.queue ++ [message], task := task }
  have hinsert : Touches network { network with streams := network.streams.insert id entry' } actor :=
    .insert hentry rfl (.inl (List.prefix_append ..))
  -- the write to the cache leaves the streams alone
  cases store with
  | none => exact hinsert
  | some store => exact ⟨hinsert.old, hinsert.others⟩

theorem touches_receiveStream {network' : Network} {left : Option StreamMessage}
    {answer : Except DialFailure (Option Bytes)}
    (hown : ∀ entry, network.streams.get? id = some entry → entry.owner = owner)
    (h : receiveStream network id left = some (answer, network')) :
    Touches network network' (some owner) := by
  have herase : Touches network { network with streams := network.streams.erase id } (some owner) :=
    .erase fun entry hentry => by rw [hown entry hentry]
  unfold receiveStream at h
  split at h
  · rename_i entry hentry
    split at h
    · cases h
    · cases h
      exact .insert hentry rfl (.inr (by rw [hown entry hentry]))
    · cases h; exact herase
    · cases h; exact herase
  · split at h
    · cases h; exact .of_streams rfl
    · cases h; exact herase
    · cases h; exact herase
    · cases h; exact herase

end touches

/-! ### Dials -/

theorem startStream_cases (network : Network) (call : Call) (mode : RequestCache)
    (response : Response) :
    (startStream network call mode response).2.streams = network.streams ∨
      (startStream network call mode response).1 =
          { (DialHead.read call.request response).intoOutcome (.bytes []) with
            body := .streamed network.nextStream } ∧
        ∃ task, (startStream network call mode response).2.streams =
          network.streams.insert network.nextStream ⟨call.owner, [], task⟩ := by
  unfold startStream
  simp only
  split_ifs with hnull hstore
  · exact .inl rfl
  · exact .inr ⟨rfl, _, rfl⟩
  · exact .inr ⟨rfl, _, rfl⟩

theorem stream_orbFilter {call : Call} (response : Response) (id : StreamId)
    (hd : call.request.delivery = .stream) (hkept : call.losesStream response = false) :
    streamOf (.ok (orbFilter call.request
      { (DialHead.read call.request response).intoOutcome (.bytes []) with
        body := .streamed id })) = some id := by
  rw [orbFilter]
  split_ifs with hfilter hblocks
  · rfl
  · exfalso
    simp only [Bool.or_eq_true, Bool.not_eq_true', not_or, Bool.not_eq_true,
      Bool.not_eq_false] at hfilter
    obtain ⟨hengine, hfiltered⟩ := hfilter
    have hhead : DialHead.read call.request response = DialHead.internal response := by
      rw [DialHead.read, hengine]
      rfl
    rw [hhead] at hblocks hfiltered
    have htype : typeBlocks response = true := hblocks
    have htab : response.responseType.isOpaque = true := hfiltered
    rw [Call.losesStream, hd, hengine, htab, htype] at hkept
    cases hkept
  · rfl

theorem answerDial_registers (x : DialCrates) (network : Network) (call : Call) (world : DialWorld)
    (mode : RequestCache) (stored : Option CachedResponse) (outbound : Request) :
    (answerDial x network call mode stored outbound world).2.streams = network.streams ∨
      ∃ response task, readHead call.request stored outbound world = .ok (.response response) ∧
        call.request.delivery = .stream ∧
        (answerDial x network call mode stored outbound world).2.streams =
          network.streams.insert network.nextStream ⟨call.owner, [], task⟩ ∧
        (call.losesStream response = false →
          streamOf ((answerDial x network call mode stored outbound world).1.map
            (orbFilter call.request)) = some network.nextStream) := by
  have hcases : (answerDial x network call mode stored outbound world).2.streams = network.streams ∨ _ :=
    answerDial_streams
  rcases hcases with h | ⟨response, hread, hd, hout, h⟩
  · exact .inl h
  rw [h, hout]
  rcases startStream_cases network call mode response with hsame | ⟨hout, task, hstreams⟩
  · exact .inl hsame
  · refine .inr ⟨response, task, hread, hd, hstreams, fun hkept => ?_⟩
    rw [hout]
    exact stream_orbFilter response network.nextStream hd hkept

/-! ### One step -/

theorem get?_cancelStream_self {network : Network} {owner : RendererAssignmentId} {id : StreamId}
    {entry : StreamEntry} (h : (cancelStream network owner id).streams.get? id = some entry) :
    entry.owner ≠ owner := by
  unfold cancelStream at h
  cases hfound : (network.streams.get? id).filter (·.owner = owner) with
  | none =>
    rw [hfound] at h
    intro howner
    rw [Option.filter_eq_none_iff] at hfound
    exact hfound entry h (decide_eq_true howner)
  | some found =>
    rw [hfound] at h
    simp only [Dict.get?_erase, if_pos] at h
    cases h

theorem Assignments.not_swept_of_upgrade {s : Assignments} {id : RendererAssignmentId}
    {assignment : Assignment} (h : s.upgrade id = some assignment) : ¬ s.Swept id := by
  rintro ⟨⟨a, lifetime⟩, hget, hpast⟩
  unfold Assignments.upgrade at h
  rw [Option.mem_def.mp hget] at h
  cases lifetime with
  | alive => cases hpast
  | dropping next => cases h
  | dropped => cases h

/-- What a step does that is not the end of a dial: a stream that the worker knew of it still knows
of, unless it is cancelled or its document is alive. -/
structure WorkerKeeps (assignments : Assignments) (network network' : Network)
    (worker : DialWorker) (worker' : Option DialWorker) : Prop where
  touches : Touches network network' (some worker.call.owner)
  known : ∀ id, worker.stream = some id →
    (∃ w, worker' = some w ∧ w.stream = some id) ∨
      (∀ entry, network'.streams.get? id = some entry → entry.owner ≠ worker.call.owner) ∨
      ¬ assignments.Swept worker.call.owner

theorem DialWorker.step_cases {x : DialCrates} {assignments assignments' : Assignments}
    {network network' : Network} {worker : DialWorker} {worker' : Option DialWorker} {i : WorkerStep}
    (h : worker.step x assignments network i = some (assignments', network', worker')) :
    assignments'.heap = assignments.heap ∧ (∀ w ∈ worker', w.call = worker.call) ∧
      (WorkerKeeps assignments network network' worker worker' ∨
        ∃ world mode stored outbound, i = .answer world ∧
          worker.phase = .sent mode stored outbound ∧
          network' = (answerDial x network worker.call mode stored outbound world).2 ∧
          worker' = some (worker.answered
            (answerDial x network worker.call mode stored outbound world).1)) := by
  unfold DialWorker.step at h
  have hdialing {w : Option DialWorker} (hnone : worker.stream = none) :
      WorkerKeeps assignments network network worker w :=
    ⟨.of_streams rfl, fun id hid => by rw [hnone] at hid; cases hid⟩
  cases hphase : worker.phase with
  | starting =>
    have hnone : worker.stream = none := by rw [DialWorker.stream, hphase]
    rw [hphase] at h
    cases i with
    | start world =>
      simp only at h
      split at h
      all_goals
        cases h
        exact ⟨rfl, by rintro w ⟨⟩; rfl, .inl (hdialing hnone)⟩
    | cut =>
      cases h
      exact ⟨rfl, by rintro w ⟨⟩; rfl, .inl (hdialing hnone)⟩
    | send | answer | judge | settle | giveUp => cases h
  | begun mode stored etag =>
    have hnone : worker.stream = none := by rw [DialWorker.stream, hphase]
    rw [hphase] at h
    cases i with
    | send world =>
      simp only at h
      split at h
      all_goals
        cases h
        exact ⟨rfl, by rintro w ⟨⟩; rfl, .inl (hdialing hnone)⟩
    | cut =>
      cases h
      exact ⟨rfl, by rintro w ⟨⟩; rfl, .inl (hdialing hnone)⟩
    | start | answer | judge | settle | giveUp => cases h
  | sent mode stored outbound =>
    have hnone : worker.stream = none := by rw [DialWorker.stream, hphase]
    rw [hphase] at h
    cases i with
    | answer world =>
      cases h
      exact ⟨rfl, by rintro w ⟨⟩; rfl, .inr ⟨world, mode, stored, outbound, rfl, rfl, rfl, rfl⟩⟩
    | cut =>
      cases h
      exact ⟨rfl, by rintro w ⟨⟩; rfl, .inl (hdialing hnone)⟩
    | start | send | judge | settle | giveUp => cases h
  | judging result =>
    have hstream : worker.stream = streamOf result := by rw [DialWorker.stream, hphase]
    rw [hphase] at h
    cases i with
    | judge =>
      simp only at h
      split_ifs at h with hreplay
      · cases h
        refine ⟨rfl, by rintro w ⟨⟩; rfl, .inl ⟨touches_cancelOutcome .., fun id hid => ?_⟩⟩
        refine .inr (.inl fun entry hentry => ?_)
        rw [hstream] at hid
        rw [cancelOutcome, hid] at hentry
        exact get?_cancelStream_self hentry
      · cases h
        refine ⟨rfl, by rintro w ⟨⟩; rfl, .inl ⟨.of_streams rfl, fun id hid => ?_⟩⟩
        rw [hstream] at hid
        exact .inl ⟨_, rfl, hid⟩
    | start | send | answer | cut | settle | giveUp => cases h
  | settling result =>
    have hstream : worker.stream = streamOf result := by rw [DialWorker.stream, hphase]
    rw [hphase] at h
    cases i with
    | settle =>
      simp only at h
      split at h
      · rename_i hnone
        cases h
        exact ⟨rfl, by rintro w ⟨⟩, .inl (hdialing (hstream.trans hnone))⟩
      · rename_i id hsome
        have hheap : (assignments.resolve worker.call.owner).2.heap = assignments.heap :=
          Assignments.resolve_heap _
        split at h
        · rename_i a assignments' hresolve
          cases h
          rw [hresolve] at hheap
          have halive : ¬ assignments.Swept worker.call.owner :=
            Assignments.not_swept_of_upgrade (Assignments.upgrade_of_resolve hresolve)
          exact ⟨hheap, by rintro w ⟨⟩, .inl ⟨.of_streams rfl, fun _ _ => .inr (.inr halive)⟩⟩
        · rename_i assignments' hresolve
          cases h
          rw [hresolve] at hheap
          refine ⟨hheap, by rintro w ⟨⟩; rfl, .inl ⟨.of_streams rfl, fun id' hid => ?_⟩⟩
          rw [hstream, hsome] at hid
          exact .inl ⟨_, rfl, hid⟩
    | start | send | answer | cut | judge | giveUp => cases h
  | givingUp id =>
    have hstream : worker.stream = some id := by rw [DialWorker.stream, hphase]
    rw [hphase] at h
    cases i with
    | giveUp =>
      cases h
      refine ⟨rfl, by rintro w ⟨⟩, .inl ⟨touches_cancelStream .., fun id' hid => ?_⟩⟩
      rw [hstream] at hid
      cases hid
      exact .inr (.inl fun entry hentry => get?_cancelStream_self hentry)
    | start | send | answer | cut | judge | settle => cases h

theorem swept_assignmentStep {s s' : Assignments} {i : AssignmentStep} {owner : RendererAssignmentId}
    (h : assignmentStep s i = some s') (hswept : s'.Swept owner) :
    s.Swept owner ∨ ∃ assignment, i = .drop owner ∧
      s.heap.get? owner = some (assignment, .dropping .releaseStreams) := by
  obtain ⟨⟨a, lifetime⟩, hget, hpast⟩ := hswept
  rw [Option.mem_def] at hget
  cases i with
  | mint process tab site =>
    cases h
    rw [Assignments.mint, Dict.get?_insert] at hget
    split_ifs at hget with howner
    · cases hget; cases hpast
    · exact .inl ⟨(a, lifetime), hget, hpast⟩
  | register id =>
    simp only [assignmentStep] at h
    split_ifs at h
    cases h
    exact .inl ⟨(a, lifetime), hget, hpast⟩
  | lastHandle id =>
    simp only [assignmentStep] at h
    split_ifs at h
    cases h
    rw [Assignments.setLifetime, Dict.get?_modify] at hget
    split_ifs at hget with howner
    · obtain ⟨⟨a', lifetime'⟩, -, hmap⟩ := Option.map_eq_some_iff.mp hget
      cases hmap; cases hpast
    · exact .inl ⟨(a, lifetime), hget, hpast⟩
  | drop id =>
    simp only [assignmentStep] at h
    split at h
    · rename_i a' next hdrop
      cases h
      simp only [Assignments.setLifetime, Dict.get?_modify, Assignments.dropStatement_heap] at hget
      split_ifs at hget with howner
      · subst howner
        rw [hdrop] at hget
        cases hget
        cases next with
        | noteReleased => cases hpast
        | releaseStreams => exact .inr ⟨a', rfl, hdrop⟩
        | removeLive | notifyRelease | countDown | sendNotice =>
          exact .inl ⟨_, hdrop, rfl⟩
      · exact .inl ⟨(a, lifetime), hget, hpast⟩
    · cases h
  | resolve id =>
    cases h
    rw [Assignments.resolve_heap] at hget
    exact .inl ⟨(a, lifetime), hget, hpast⟩

namespace StreamState
variable {x : DialCrates} {s s' : StreamState}

theorem sweeps_eq_some {i : AssignmentStep} {owner : RendererAssignmentId} :
    s.sweeps i = some owner ↔ i = .drop owner ∧
      ∃ assignment, s.assignments.heap.get? owner = some (assignment, .dropping .releaseStreams) := by
  constructor
  · intro h
    unfold sweeps at h
    split at h
    · split at h
      · rename_i id a hget
        cases h
        exact ⟨rfl, a, hget⟩
      · cases h
    · cases h
  · rintro ⟨rfl, a, hget⟩
    unfold sweeps
    simp only [hget]

theorem touches_assignment (i : AssignmentStep) :
    Touches s.network
      (match s.sweeps i with
        | some owner => releaseStreams s.network owner
        | none => s.network) (s.sweeps i) := by
  cases s.sweeps i with
  | none => exact .of_streams rfl
  | some owner => exact touches_releaseStreams ..

theorem Inv.own_of_touches (h : s.Inv) {network : Network} {actor : Option RendererAssignmentId}
    (htouches : Touches s.network network actor) {key : Nat} {reader : StreamReader}
    {entry : StreamEntry} (hreader : s.readers.get? key = some reader)
    (hentry : network.streams.get? reader.id = some entry) : entry.owner = reader.owner := by
  obtain ⟨entry₀, hentry₀, howner⟩ := htouches.old _ _ hentry
  rw [← howner]
  exact h.own key reader entry₀ hreader hentry₀

theorem Inv.known_of_touches (h : s.Inv) {network : Network} {actor : Option RendererAssignmentId}
    (htouches : Touches s.network network actor) {id : StreamId} {entry : StreamEntry}
    (hentry : network.streams.get? id = some entry) (hswept : s.assignments.Swept entry.owner) :
    ∃ key worker, s.workers.get? key = some worker ∧ worker.call.owner = entry.owner ∧
      worker.stream = some id := by
  obtain ⟨entry₀, hentry₀, howner⟩ := htouches.old _ _ hentry
  rw [← howner]
  exact h.known id entry₀ hentry₀ (howner ▸ hswept)

theorem Inv.assignment (h : s.Inv) {i : AssignmentStep}
    (hstep : streamStep x s (.assignment i) = some s') : s'.Inv := by
  obtain ⟨assignments, hassign, rfl⟩ := Option.map_eq_some_iff.mp hstep
  have htouches := touches_assignment (s := s) i
  refine ⟨fun id entry hentry hswept => ?_, fun key reader entry hreader hentry =>
    h.own_of_touches htouches hreader hentry⟩
  rcases swept_assignmentStep hassign hswept with hbefore | ⟨a, rfl, hget⟩
  · exact h.known_of_touches htouches hentry hbefore
  · -- the sweep has just taken the streams of this owner
    have hsweeps : s.sweeps (.drop entry.owner) = some entry.owner := sweeps_eq_some.mpr ⟨rfl, a, hget⟩
    simp only [hsweeps] at hentry
    exact absurd rfl (get?_releaseStreams.mp hentry).2

/-- What a worker that kept its call still knows of, the state after its step has on record. -/
theorem Inv.worker_known (h : s.Inv) {key : Nat} {worker : DialWorker} {worker' : Option DialWorker}
    {network : Network} {id : StreamId} {entry : StreamEntry}
    (hworker : s.workers.get? key = some worker) (hcall : ∀ w ∈ worker', w.call = worker.call)
    (hkeeps : WorkerKeeps s.assignments s.network network worker worker')
    (hentry : network.streams.get? id = some entry) (hswept : s.assignments.Swept entry.owner) :
    ∃ k w, (s.putWorker key worker').get? k = some w ∧ w.call.owner = entry.owner ∧
      w.stream = some id := by
  obtain ⟨k, w, hw, howner, hstream⟩ := h.known_of_touches hkeeps.touches hentry hswept
  by_cases hk : k = key
  · -- the worker that takes the step is the one that knows the stream
    subst hk
    rw [hworker] at hw
    cases hw
    rcases hkeeps.known id hstream with ⟨w', rfl, hstream'⟩ | hgone | halive
    · refine ⟨k, w', by rw [putWorker, Dict.get?_insert, if_pos rfl], ?_, hstream'⟩
      rw [hcall w' rfl, howner]
    · exact absurd howner.symm (hgone entry hentry)
    · exact absurd (howner ▸ hswept) halive
  · refine ⟨k, w, ?_, howner, hstream⟩
    cases worker' with
    | none => rw [putWorker, Dict.get?_erase, if_neg hk]; exact hw
    | some w' => rw [putWorker, Dict.get?_insert, if_neg hk]; exact hw

theorem Inv.worker (h : s.Inv) {key : Nat} {i : WorkerStep} (hsafe : s.InTime (.worker key i))
    (hstep : streamStep x s (.worker key i) = some s') : s'.Inv := by
  obtain ⟨worker, hworker, hstep⟩ := Option.bind_eq_some_iff.mp hstep
  obtain ⟨⟨assignments, network, worker'⟩, hcase, rfl⟩ := Option.map_eq_some_iff.mp hstep
  obtain ⟨hheap, hcall, hcase⟩ := DialWorker.step_cases hcase
  have hswept {owner} : assignments.Swept owner ↔ s.assignments.Swept owner := by
    rw [Assignments.Swept, Assignments.Swept, hheap]
  rcases hcase with hkeeps | ⟨world, mode, stored, outbound, rfl, hphase, rfl, rfl⟩
  · exact ⟨fun id entry hentry hpast => h.worker_known hworker hcall hkeeps hentry (hswept.mp hpast),
      fun k reader entry hreader hentry => h.own_of_touches hkeeps.touches hreader hentry⟩
  have hnone : worker.stream = none := by rw [DialWorker.stream, hphase]
  rcases answerDial_registers x s.network worker.call world mode stored outbound with
    hsame | ⟨response, task, hread, hd, hinsert, hknown⟩
  · have hkeeps : WorkerKeeps s.assignments s.network
        (answerDial x s.network worker.call mode stored outbound world).2 worker (some
          (worker.answered (answerDial x s.network worker.call mode stored outbound world).1)) :=
      ⟨.of_streams hsame, fun id hid => by rw [hnone] at hid; cases hid⟩
    exact ⟨fun id entry hentry hpast => h.worker_known hworker hcall hkeeps hentry (hswept.mp hpast),
      fun k reader entry hreader hentry => h.own_of_touches hkeeps.touches hreader hentry⟩
  · obtain ⟨⟨hfresh, hreaders⟩, hlost⟩ := hsafe worker hworker hd
    have hother {k : Nat} {w : DialWorker} {id : StreamId} (hw : s.workers.get? k = some w)
        (hstream : w.stream = some id) : k ≠ key := by
      rintro rfl
      rw [hworker] at hw
      cases hw
      rw [hnone] at hstream
      cases hstream
    refine ⟨fun id entry hentry hpast => ?_, fun k reader entry hreader hentry => ?_⟩
    · rw [hinsert, Dict.get?_insert] at hentry
      split_ifs at hentry with hid
      · -- the stream that was just started
        cases hentry
        have hkept : worker.call.losesStream response = false := by
          rw [← Bool.not_eq_true]
          intro hloses
          refine hlost ?_ (hswept.mp hpast)
          rw [DialWorker.losesStream, hphase]
          simp only [hread]
          exact hloses
        refine ⟨key, worker.answered _, (Dict.get?_insert ..).trans (if_pos rfl), rfl, ?_⟩
        rw [hid, ← hknown hkept]
        unfold DialWorker.answered DialWorker.stream
        cases worker.retried <;> rfl
      · obtain ⟨k, w, hw, howner, hstream⟩ := h.known id entry hentry (hswept.mp hpast)
        refine ⟨k, w, ?_, howner, hstream⟩
        exact (Dict.get?_insert ..).trans ((if_neg (hother hw hstream)).trans hw)
    · rw [hinsert, Dict.get?_insert,
        if_neg (hreaders (k, reader) ((Dict.get?_eq_some_iff _ _ _).mp hreader))] at hentry
      exact h.own k reader entry hreader hentry

theorem Inv.step (h : s.Inv) {i : StreamStep} (hsafe : s.InTime i)
    (hstep : streamStep x s i = some s') : s'.Inv := by
  cases i with
  | assignment i => exact h.assignment hstep
  | worker key i => exact h.worker hsafe hstep
  | spawn key call =>
    simp only [streamStep] at hstep
    split_ifs at hstep with hspawn
    cases hstep
    refine ⟨fun id entry hentry hswept => ?_, h.own⟩
    obtain ⟨k, w, hw, howner, hstream⟩ := h.known id entry hentry hswept
    have hk : k ≠ key := by
      rintro rfl
      rw [hspawn.2] at hw
      cases hw
    exact ⟨k, w, by rw [Dict.get?_insert, if_neg hk]; exact hw, howner, hstream⟩
  | pump id storedAt =>
    obtain ⟨network, hpump, rfl⟩ := Option.map_eq_some_iff.mp hstep
    have htouches : Touches s.network network none := touches_pumpStream hpump
    exact ⟨fun id entry hentry hswept => h.known_of_touches htouches hentry hswept,
      fun k reader entry hreader hentry => h.own_of_touches htouches hreader hentry⟩
  | read key owner id =>
    simp only [streamStep] at hstep
    split_ifs at hstep with hfree
    cases hfound : (s.network.streams.get? id).filter (·.owner = owner) with
    | none =>
      rw [hfound] at hstep
      cases hstep
      exact h
    | some found =>
      rw [hfound] at hstep
      cases hstep
      obtain ⟨hget, howner⟩ := Option.filter_eq_some_iff.mp hfound
      refine ⟨h.known, fun k reader entry hreader hentry => ?_⟩
      rw [Dict.get?_insert] at hreader
      split_ifs at hreader with hk
      · cases hreader
        rw [hget] at hentry
        cases hentry
        exact of_decide_eq_true howner
      · exact h.own k reader entry hreader hentry
  | receive key left =>
    obtain ⟨reader, hreader, hstep⟩ := Option.bind_eq_some_iff.mp hstep
    obtain ⟨⟨answer, network⟩, hreceive, rfl⟩ := Option.map_eq_some_iff.mp hstep
    have htouches : Touches s.network network (some reader.owner) :=
      touches_receiveStream (fun entry hentry => h.own key reader entry hreader hentry) hreceive
    refine ⟨fun id entry hentry hswept => h.known_of_touches htouches hentry hswept,
      fun k other entry hother hentry => ?_⟩
    rw [Dict.get?_erase] at hother
    split_ifs at hother
    exact h.own_of_touches htouches hother hentry
  | cancel owner id =>
    cases hstep
    have htouches := touches_cancelStream s.network owner id
    exact ⟨fun id entry hentry hswept => h.known_of_touches htouches hentry hswept,
      fun k reader entry hreader hentry => h.own_of_touches htouches hreader hentry⟩

theorem Inv.ownerOnly (h : s.Inv) {i : StreamStep} (hsafe : s.InTime i) : s.OwnerOnly x i := by
  intro s' hstep id entry hentry
  cases i with
  | assignment i =>
    obtain ⟨assignments, hassign, rfl⟩ := Option.map_eq_some_iff.mp hstep
    exact (touches_assignment i).others id entry hentry
  | worker key i =>
    obtain ⟨worker, hworker, hstep⟩ := Option.bind_eq_some_iff.mp hstep
    obtain ⟨⟨assignments, network, worker'⟩, hcase, rfl⟩ := Option.map_eq_some_iff.mp hstep
    have hactor : s.actor (.worker key i) = some worker.call.owner := by rw [actor, hworker]; rfl
    rw [hactor]
    obtain ⟨-, -, hkeeps | ⟨world, mode, stored, outbound, rfl, hphase, rfl, rfl⟩⟩ :=
      DialWorker.step_cases hcase
    · exact hkeeps.touches.others id entry hentry
    · rcases answerDial_registers x s.network worker.call world mode stored outbound with
        hsame | ⟨response, task, hread, hd, hinsert, -⟩
      · exact .inl ⟨entry, hsame ▸ hentry, rfl, List.prefix_refl _⟩
      · have hid : id ≠ s.network.nextStream := by
          rintro rfl
          rw [Option.isNone_iff_eq_none.mp (hsafe worker hworker hd).1.1] at hentry
          cases hentry
        refine .inl ⟨entry, ?_, rfl, List.prefix_refl _⟩
        rw [hinsert, Dict.get?_insert, if_neg hid]
        exact hentry
  | spawn key call =>
    simp only [streamStep] at hstep
    split_ifs at hstep
    cases hstep
    exact .inl ⟨entry, hentry, rfl, List.prefix_refl _⟩
  | pump id' storedAt =>
    obtain ⟨network, hpump, rfl⟩ := Option.map_eq_some_iff.mp hstep
    exact (touches_pumpStream hpump).others id entry hentry
  | read key owner id' =>
    have hsame : s'.network = s.network := by
      simp only [streamStep] at hstep
      split_ifs at hstep
      split at hstep <;> cases hstep <;> rfl
    exact .inl ⟨entry, hsame ▸ hentry, rfl, List.prefix_refl _⟩
  | receive key left =>
    obtain ⟨reader, hreader, hstep⟩ := Option.bind_eq_some_iff.mp hstep
    obtain ⟨⟨answer, network⟩, hreceive, rfl⟩ := Option.map_eq_some_iff.mp hstep
    have hactor : s.actor (.receive key left) = some reader.owner := by rw [actor, hreader]; rfl
    rw [hactor]
    exact (touches_receiveStream (fun entry hentry => h.own key reader entry hreader hentry)
      hreceive).others id entry hentry
  | cancel owner id' =>
    cases hstep
    exact (touches_cancelStream s.network owner id').others id entry hentry

/-- In a run that loses no stream of a swept owner, a dropped document has streams only while a dial
of its own is running, and entries are read and removed only for their owners. -/
theorem owned_of_inTime (x : DialCrates) (steps : List StreamStep)
    (h : Machine.Along (streamStep x) InTime new steps) :
    Machine.Throughout (streamStep x) NoStray new steps ∧
      Machine.Along (streamStep x) (OwnerOnly x) new steps :=
  ⟨Machine.throughout_of_along (fun _ => Inv.noStray) (fun _ _ _ h hsafe hstep => h.step hsafe hstep)
      inv_new h,
    h.imp_of_inv (fun _ _ h hsafe => h.ownerOnly hsafe)
      (fun _ _ _ h hsafe hstep => h.step hsafe hstep) inv_new⟩

/-- A document makes a dial whose answer comes after the sweep of its streams, and is dropped. -/
def lateAnswer (site : String) (call : Call) (answer : Response) : List StreamStep :=
  [.assignment (.mint 1 0 (.tuple site.toList)), .assignment (.register 1), .spawn 7 call,
    .worker 7 (.start (.sample answer)), .worker 7 (.send (.sample answer)),
    .assignment (.lastHandle 1), .assignment (.drop 1), .assignment (.drop 1),
    .worker 7 (.answer (.sample answer)), .worker 7 .judge, .worker 7 .settle]

/-- The stream of a late `fetch` is given up. -/
theorem owned_of_inTime_fetch :
    (∃ s, Machine.run (streamStep .sample) new
        (lateAnswer "https://example.com" (Call.sample.deliver .stream) (.sample 200 [] [1]) ++
          [.worker 7 .giveUp]) = some s ∧
      s.network.streams.keys = []) ∧
    Machine.Throughout (streamStep .sample) NoStray new
      (lateAnswer "https://example.com" (Call.sample.deliver .stream) (.sample 200 [] [1]) ++
        [.worker 7 .giveUp]) := by
  have hrun : ((Machine.run (streamStep .sample) new (lateAnswer "https://example.com"
      (Call.sample.deliver .stream) (.sample 200 [] [1]) ++ [.worker 7 .giveUp])).map fun s =>
        s.network.streams.keys) = some [] := by
    decide +kernel
  exact ⟨Option.map_eq_some_iff.mp hrun, (owned_of_inTime .sample _ (by decide +kernel)).1⟩

/-- The stream of a late image is blocked by its type: its dial does not know of it any more, and it
is there for good when its document has been dropped and nothing of it runs. -/
theorem exists_stray : ∃ s, Machine.run (streamStep .sample) new
      (lateAnswer "https://other.test" (Call.crossImage.deliver .stream)
        (.opaqueSample "application/pdf".toList [0x25]) ++
          List.replicate 4 (.assignment (.drop 1))) = some s ∧
    s.workers.keys = [] ∧ s.readers.keys = [] ∧
    (s.assignments.heap.get? 1).map Prod.snd = some .dropped ∧
    (s.network.streams.get? 1).map (·.owner) = some 1 ∧ ¬ s.NoStray := by
  have hrun : ((Machine.run (streamStep .sample) new (lateAnswer "https://other.test"
      (Call.crossImage.deliver .stream) (.opaqueSample "application/pdf".toList [0x25]) ++
        List.replicate 4 (.assignment (.drop 1)))).map fun s => (s.workers.keys, s.readers.keys,
          (s.assignments.heap.get? 1).map Prod.snd, (s.network.streams.get? 1).map (·.owner))) =
      some ([], [], some .dropped, some 1) := by
    decide +kernel
  obtain ⟨s, hrun, hfinal⟩ := Option.map_eq_some_iff.mp hrun
  simp only [Prod.mk.injEq] at hfinal
  obtain ⟨hworkers, hreaders, hdropped, hstream⟩ := hfinal
  refine ⟨s, hrun, hworkers, hreaders, hdropped, hstream, fun h => ?_⟩
  obtain ⟨entry, hentry, howner⟩ := Option.map_eq_some_iff.mp hstream
  obtain ⟨document, hdocument, hlifetime⟩ := Option.map_eq_some_iff.mp hdropped
  have hswept : s.assignments.Swept entry.owner := by
    rw [howner]
    exact ⟨document, hdocument, by rw [hlifetime]; rfl⟩
  obtain ⟨key, worker, hworker, -⟩ := h 1 entry hentry hswept
  have hkey : key ∈ s.workers.keys := (Dict.mem_keys_iff _ _).mpr ⟨worker, hworker⟩
  rw [hworkers] at hkey
  cases hkey

end StreamState
end TinyBrowser
