import TinyBrowser.Dial.Network

/-!
# Where an outcome comes from

A dial that succeeds answers with a stored entry (`Served`), with a stored entry brought up to date
by a 304 (`NotModified`), or with what the agent answered (`Delivered`): `dial_cases`. Whether it is
one of the first two is a matter of the cache, the request and the answer only.
-/

namespace TinyBrowser
open Lib

variable {x : DialCrates} {before sent after : Network} {call : Call} {world : DialWorld}

/-- The stored entry the cache would hand to the dial. -/
abbrev Call.entry (call : Call) (before : Network) : Option CachedResponse :=
  usableEntry before.cache call.request call.initiator call.owner

/-- The cache answers the dial with `entry`. -/
structure Served (x : DialCrates) (before : Network) (call : Call) (world : DialWorld)
    (entry : CachedResponse) : Prop where
  keepalive : ∃ reserved, acquireKeepalive call.request world.inFlight = .ok reserved
  usable : call.entry before = some entry
  served : servedEntry x call.request call.request.cache (some entry) world.clock = .ok (some entry)
  integrity : cachedIntegrityOk x.digests call.request entry = true

/-- `entry` is stored, the cache does not answer with it, and the agent answers with a 304. -/
structure NotModified (x : DialCrates) (before sent : Network) (call : Call) (world : DialWorld)
    (entry : CachedResponse) (response : Response) : Prop where
  keepalive : ∃ reserved, acquireKeepalive call.request world.inFlight = .ok reserved
  usable : call.entry before = some entry
  unserved : servedEntry x call.request call.request.cache (some entry) world.clock = .ok none
  sendable : ∃ outbound, sendDial x sent call (validator call.request (some entry)) world =
    .ok outbound
  answered : world.answer = .ok response
  status : response.status = 304
  readable : ¬ (call.request.integrity.isSome = true ∧ response.responseType.isOpaque = true)

/-- The outcome is made of the agent's answer: the redirect that the policy refused, or the
response, buffered or streamed. -/
inductive Delivered (x : DialCrates) (after : Network) (call : Call) (world : DialWorld)
    (outcome : DialOutcome) : Prop where
  | refused (outbound : Request) (error : NetError) (answered : world.answer = .error error)
      (h : refusedRedirect outbound world.redirects = some outcome)
  | buffered (response : Response) (answered : world.answer = .ok response)
      (readable : ¬ (call.request.integrity.isSome = true ∧ response.responseType.isOpaque = true))
      (delivery : call.request.delivery = .buffer)
      (h : (bufferResponse x after call call.request.cache response world.storedAt).1 = .ok outcome)
  | streamed (response : Response) (answered : world.answer = .ok response)
      (readable : ¬ (call.request.integrity.isSome = true ∧ response.responseType.isOpaque = true))
      (delivery : call.request.delivery = .stream)
      (h : (startStream after call call.request.cache response).1 = outcome)

/-! ### What a dial leaves alone -/

@[simp] theorem rememberResponse_streams (network : Network) (mode : RequestCache)
    (outcome : DialOutcome) (storedAt : Instant) :
    (rememberResponse network call mode outcome storedAt).streams = network.streams := by
  unfold rememberResponse
  split_ifs <;> rfl

@[simp] theorem rememberSheet_streams (network : Network) (outcome : DialOutcome) :
    (rememberSheet x network call outcome).streams = network.streams := by
  unfold rememberSheet
  split_ifs
  · rfl
  · cases call.initiator <;> rfl

@[simp] theorem bufferResponse_streams (network : Network) (mode : RequestCache)
    (response : Response) (storedAt : Instant) :
    (bufferResponse x network call mode response storedAt).2.streams = network.streams := by
  unfold bufferResponse
  simp only
  split
  · rfl
  · exact rememberResponse_streams ..

/-! ### Reading the cache -/

variable {entry : CachedResponse}

theorem exposes_of_entry (h : call.entry before = some entry) :
    call.request.policy.exposesResponse = true := by
  unfold Call.entry usableEntry cachedHit at h
  split_ifs at h with hcond hexp
  simpa using hexp

theorem beginDial_eq (reserved : Option Nat)
    (h : acquireKeepalive call.request world.inFlight = .ok reserved) :
    beginDial x before.cache call world =
      (cachedResponse x call.request call.request.cache (call.entry before) world.clock).bind
        fun
        | some hit => .ok (.hit hit)
        | none => .ok (.miss call.request.cache (call.entry before)
            (validator call.request (call.entry before))) := by
  unfold beginDial
  rw [h]
  rfl

theorem keepalive_of_beginDial {decision : CacheDecision}
    (h : beginDial x before.cache call world = .ok decision) :
    ∃ reserved, acquireKeepalive call.request world.inFlight = .ok reserved := by
  unfold beginDial at h
  cases hk : acquireKeepalive call.request world.inFlight with
  | ok reserved => exact ⟨reserved, rfl⟩
  | error failure =>
    rw [hk] at h
    cases h

variable {cached : Option CachedResponse} {mode : RequestCache}

theorem servedEntry_eq
    {clock : Clock} (h : servedEntry x call.request mode cached clock = .ok (some entry)) :
    cached = some entry := by
  unfold servedEntry at h
  split at h
  · cases h
  · split_ifs at h
    exact Except.ok.inj h
  · exact Except.ok.inj h
  · split_ifs at h
    · exact Except.ok.inj h
    · cases h
  · cases h

theorem cachedResponse_some {hit : DialOutcome} {clock : Clock}
    (h : cachedResponse x call.request call.request.cache cached clock = .ok (some hit)) :
    ∃ entry, cached = some entry ∧ hit = entry.outcome ∧
      servedEntry x call.request call.request.cache (some entry) clock = .ok (some entry) ∧
      cachedIntegrityOk x.digests call.request entry = true := by
  unfold cachedResponse at h
  split_ifs at h with hexp
  · cases h
  · cases hs : servedEntry x call.request call.request.cache cached clock with
    | error failure =>
      rw [hs] at h
      cases h
    | ok served =>
      rw [hs] at h
      cases served with
      | none => cases h
      | some entry =>
        have hc := servedEntry_eq hs
        simp only [bind, Except.bind] at h
        split_ifs at h with hint
        cases h
        exact ⟨entry, hc, rfl, hc ▸ hs, by simpa using hint⟩

theorem cachedResponse_none {clock : Clock}
    (hexp : call.request.policy.exposesResponse = true)
    (h : cachedResponse x call.request call.request.cache cached clock = .ok none) :
    servedEntry x call.request call.request.cache cached clock = .ok none := by
  unfold cachedResponse at h
  rw [hexp] at h
  cases hs : servedEntry x call.request call.request.cache cached clock with
  | error failure =>
    rw [hs] at h
    cases h
  | ok served =>
    rw [hs] at h
    cases served with
    | none => rfl
    | some entry =>
      simp only [bind, Except.bind] at h
      split_ifs at h with hnot
      all_goals simp_all

theorem beginDial_hit {hit : DialOutcome} (h : beginDial x before.cache call world = .ok (.hit hit)) :
    ∃ entry, Served x before call world entry ∧ hit = entry.outcome := by
  obtain ⟨reserved, hk⟩ := keepalive_of_beginDial h
  rw [beginDial_eq reserved hk] at h
  cases hc : cachedResponse x call.request call.request.cache (call.entry before) world.clock with
  | error failure =>
    rw [hc] at h
    cases h
  | ok served =>
    rw [hc] at h
    cases served with
    | none => cases h
    | some outcome =>
      cases h
      obtain ⟨entry, hentry, hout, hserved, hint⟩ := cachedResponse_some hc
      exact ⟨entry, ⟨⟨reserved, hk⟩, hentry, hserved, hint⟩, hout⟩

variable {stored : Option CachedResponse}

/-- What a miss hands on: the request's own mode, the usable entry and its validator. The entry, if
there is one, is not served. -/
theorem beginDial_miss {etag : Option Text}
    (h : beginDial x before.cache call world = .ok (.miss mode stored etag)) :
    mode = call.request.cache ∧ stored = call.entry before ∧
      etag = validator call.request (call.entry before) ∧
      ∀ entry, stored = some entry →
        servedEntry x call.request call.request.cache (some entry) world.clock = .ok none := by
  obtain ⟨reserved, hk⟩ := keepalive_of_beginDial h
  rw [beginDial_eq reserved hk] at h
  cases hc : cachedResponse x call.request call.request.cache (call.entry before) world.clock with
  | error failure =>
    rw [hc] at h
    cases h
  | ok served =>
    rw [hc] at h
    cases served with
    | some outcome => cases h
    | none =>
      cases h
      refine ⟨rfl, rfl, rfl, ?_⟩
      intro entry hentry
      have hserved := cachedResponse_none (exposes_of_entry hentry) hc
      rw [show call.entry before = some entry from hentry] at hserved
      exact hserved

theorem beginDial_of_unserved {reserved : Option Nat}
    (hk : acquireKeepalive call.request world.inFlight = .ok reserved)
    (husable : call.entry before = some entry)
    (h : servedEntry x call.request call.request.cache (some entry) world.clock = .ok none) :
    beginDial x before.cache call world =
      .ok (.miss call.request.cache (some entry) (validator call.request (some entry))) := by
  have hc : cachedResponse x call.request call.request.cache (call.entry before) world.clock =
      .ok none := by
    unfold cachedResponse
    rw [exposes_of_entry husable, husable, h]
    rfl
  rw [beginDial_eq reserved hk, hc, husable]
  rfl

/-! ### Whole dials -/

variable {outbound : Request}

theorem answerDial_fst :
    (answerDial x after call mode stored outbound world).1 =
      match readHead call.request stored outbound world with
      | .error failure => .error failure
      | .ok (.done outcome) => .ok outcome
      | .ok (.response response) => match call.request.delivery with
        | .buffer => (bufferResponse x after call mode response world.storedAt).1
        | .stream => .ok (startStream after call mode response).1 := by
  unfold answerDial
  cases readHead call.request stored outbound world with
  | error failure => rfl
  | ok progress =>
    cases progress with
    | done outcome => rfl
    | response response =>
      cases call.request.delivery with
      | stream => rfl
      | buffer =>
        simp only
        split
        · rename_i hb
          rw [hb]
        · rename_i hb
          rw [hb]

/-- The only streams that an answer adds are those of `startStream`. -/
theorem answerDial_streams :
    (answerDial x after call mode stored outbound world).2.streams = after.streams ∨
      ∃ response, readHead call.request stored outbound world = .ok (.response response) ∧
        call.request.delivery = .stream ∧
        (answerDial x after call mode stored outbound world).1 =
          .ok (startStream after call mode response).1 ∧
        (answerDial x after call mode stored outbound world).2.streams =
          (startStream after call mode response).2.streams := by
  unfold answerDial
  cases readHead call.request stored outbound world with
  | error failure => exact .inl rfl
  | ok progress =>
    cases progress with
    | done outcome =>
      refine .inl ?_
      simp only [rememberSheet_streams, rememberResponse_streams]
    | response response =>
      cases hd : call.request.delivery with
      | stream => exact .inr ⟨response, rfl, rfl, rfl, by simp only [rememberSheet_streams]⟩
      | buffer =>
        have hnet : (bufferResponse x after call mode response world.storedAt).2.streams =
            after.streams := bufferResponse_streams ..
        simp only
        split
        · rename_i hb
          rw [hb] at hnet
          exact .inl (by rw [rememberSheet_streams]; exact hnet)
        · rename_i hb
          rw [hb] at hnet
          exact .inl hnet

theorem readHead_done {outcome : DialOutcome}
    (h : readHead call.request stored outbound world = .ok (.done outcome)) :
    (∃ error, world.answer = .error error ∧
      refusedRedirect outbound world.redirects = some outcome) ∨
      ∃ entry response, stored = some entry ∧ world.answer = .ok response ∧
        response.status = 304 ∧
        ¬ (call.request.integrity.isSome = true ∧ response.responseType.isOpaque = true) ∧
        outcome = mergeNotModified entry.outcome response := by
  unfold readHead at h
  cases ha : world.answer with
  | error error =>
    rw [ha] at h
    simp only at h
    split at h
    · rename_i refused hrefused
      cases h
      exact .inl ⟨error, rfl, hrefused⟩
    · cases h
  | ok response =>
    rw [ha] at h
    cases stored with
    | none =>
      simp only at h
      split_ifs at h with hint
      cases h
    | some entry =>
      simp only at h
      split_ifs at h with hint hstatus
      · cases h
        exact .inr ⟨entry, response, rfl, rfl, hstatus, by simpa using hint, rfl⟩
      · cases h

theorem readHead_response {response : Response}
    (h : readHead call.request stored outbound world = .ok (.response response)) :
    world.answer = .ok response ∧
      ¬ (call.request.integrity.isSome = true ∧ response.responseType.isOpaque = true) := by
  unfold readHead at h
  cases ha : world.answer with
  | error error =>
    rw [ha] at h
    simp only at h
    split at h
    · cases h
    · cases h
  | ok answer =>
    rw [ha] at h
    cases stored with
    | none =>
      simp only at h
      split_ifs at h with hint
      cases h
      exact ⟨rfl, by simpa using hint⟩
    | some entry =>
      simp only at h
      split_ifs at h with hint hstatus
      · cases h
      · cases h
        exact ⟨rfl, by simpa using hint⟩

/-- Every outcome is a served entry, a merged one, or made of the agent's answer. -/
theorem dial_cases {outcome : DialOutcome}
    (h : (dialRequestUnfiltered x before sent after call world).1 = .ok outcome) :
    (∃ entry, Served x before call world entry ∧ outcome = entry.outcome) ∨
      (∃ entry response, NotModified x before sent call world entry response ∧
        outcome = mergeNotModified entry.outcome response) ∨
      Delivered x after call world outcome := by
  unfold dialRequestUnfiltered at h
  cases hb : beginDial x before.cache call world with
  | error failure =>
    rw [hb] at h
    cases h
  | ok decision =>
    rw [hb] at h
    cases decision with
    | hit hit =>
      cases h
      exact .inl (beginDial_hit hb)
    | miss mode stored etag =>
      obtain ⟨rfl, rfl, rfl, hunserved⟩ := beginDial_miss hb
      simp only at h
      cases hs : sendDial x sent call (validator call.request (call.entry before)) world with
      | error failure =>
        rw [hs] at h
        cases h
      | ok outbound =>
        rw [hs] at h
        rw [answerDial_fst] at h
        cases hr : readHead call.request (call.entry before) outbound world with
        | error failure =>
          rw [hr] at h
          cases h
        | ok progress =>
          rw [hr] at h
          cases progress with
          | done done =>
            cases h
            rcases readHead_done hr with ⟨error, ha, hr⟩ |
              ⟨entry, response, hentry, ha, hstatus, hread, hout⟩
            · exact .inr (.inr (.refused outbound error ha hr))
            · refine .inr (.inl ⟨entry, response, ?_, hout⟩)
              refine ⟨keepalive_of_beginDial hb, hentry, hunserved entry hentry, ?_, ha, hstatus,
                hread⟩
              exact ⟨outbound, hentry ▸ hs⟩
          | response response =>
            obtain ⟨ha, hread⟩ := readHead_response hr
            right
            right
            cases hd : call.request.delivery with
            | buffer =>
              rw [hd] at h
              exact .buffered response ha hread hd h
            | stream =>
              rw [hd] at h
              exact .streamed response ha hread hd (Except.ok.inj h)

theorem dial_of_notModified {response : Response}
    (h : NotModified x before sent call world entry response) :
    (dialRequestUnfiltered x before sent after call world).1 =
      .ok (mergeNotModified entry.outcome response) := by
  obtain ⟨reserved, hk⟩ := h.keepalive
  obtain ⟨outbound, hs⟩ := h.sendable
  have hr : readHead call.request (some entry) outbound world =
      .ok (.done (mergeNotModified entry.outcome response)) := by
    unfold readHead
    rw [h.answered]
    have hread : (call.request.integrity.isSome && response.responseType.isOpaque) = false := by
      simpa using h.readable
    simp [hread, h.status]
  unfold dialRequestUnfiltered
  rw [beginDial_of_unserved hk h.usable h.unserved]
  simp only [hs]
  rw [answerDial_fst, hr]

end TinyBrowser
