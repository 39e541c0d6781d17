import TinyBrowser.Dial.Stored

/-!
# When stored bytes are reused

A dial reuses a stored entry when the cache answers with it or when it merges a 304 into it. The
rules of HTTP caching and of the request's cache mode (`ReuseAllowed`) hold of every reuse exactly
when two cases do not come up: a fresh entry marked `no-cache` in the default mode, and a 304 that
no validator of the entry has asked for (`reuse_iff`).
-/

namespace TinyBrowser
open Lib

variable {x : DialCrates} {before sent after : Network} {call : Call} {world : DialWorld}

/-- The dial answers with the bytes of `entry`. -/
def Reuses (x : DialCrates) (before sent : Network) (call : Call) (world : DialWorld)
    (entry : CachedResponse) : Prop :=
  Served x before call world entry ∨ ∃ response, NotModified x before sent call world entry response

variable {entry : CachedResponse}

/-- A 304 answers a request that carries the entry's own validator. -/
def Revalidated (x : DialCrates) (before sent : Network) (call : Call) (world : DialWorld)
    (entry : CachedResponse) : Prop :=
  ∃ response, NotModified x before sent call world entry response ∧
    ∃ tag bytes, etag entry.outcome = some tag ∧ isomorphicEncode tag = some bytes ∧
      ∀ outbound, sendDial x sent call (validator call.request (some entry)) world = .ok outbound →
        bytes ∈ outbound.headers.getAll "if-none-match".toList

/-- The rules under which the bytes of `entry` may answer the dial. -/
structure ReuseAllowed (x : DialCrates) (before sent : Network) (call : Call) (world : DialWorld)
    (entry : CachedResponse) : Prop where
  fetch : call.request.policy.exposesResponse = true
  get : call.request.method = Method.get
  key : before.cache.get? (cacheKey call.request call.initiator call.owner) = some entry
  vary : ∀ field ∈ varyFields entry, field ≠ "*".toList ∧
    combinedHeaderIn entry.requestHeaders field = combinedHeaderIn call.request.headers field
  mode : (call.request.cache = .default ∧ Served x before call world entry ∧
      fresh x entry world.clock = true ∧ hasDirective entry.outcome "no-cache".toList = false) ∨
    (call.request.cache = .forceCache ∨ call.request.cache = .onlyIfCached) ∨
    ((call.request.cache = .default ∨ call.request.cache = .noCache) ∧
      Revalidated x before sent call world entry)

/-! ### What a usable entry satisfies -/

theorem entry_spec (h : call.entry before = some entry) :
    before.cache.get? (cacheKey call.request call.initiator call.owner) = some entry ∧
      varyMatches entry call.request = true := by
  unfold Call.entry usableEntry cachedHit at h
  split_ifs at h
  obtain ⟨hget, hcond⟩ := Option.filter_eq_some_iff.1 h
  rw [Bool.and_eq_true] at hcond
  exact ⟨hget, hcond.1⟩

theorem vary_of_entry (h : call.entry before = some entry) :
    ∀ field ∈ varyFields entry, field ≠ "*".toList ∧
      combinedHeaderIn entry.requestHeaders field = combinedHeaderIn call.request.headers field := by
  intro field hfield
  have hmatch := List.all_eq_true.1 (entry_spec h).2 field hfield
  rw [Bool.and_eq_true, decide_eq_true_eq, decide_eq_true_eq] at hmatch
  exact hmatch

theorem Served.mode (h : Served x before call world entry) :
    (call.request.cache = .default ∧ fresh x entry world.clock = true) ∨
      call.request.cache = .forceCache ∨ call.request.cache = .onlyIfCached := by
  have hserved := h.served
  unfold servedEntry at hserved
  cases hc : call.request.cache with
  | default =>
    rw [hc] at hserved
    simp only at hserved
    split_ifs at hserved with hfresh
    · exact .inl ⟨rfl, hfresh⟩
    · cases hserved
  | forceCache => exact .inr (.inl rfl)
  | onlyIfCached => exact .inr (.inr rfl)
  | noStore =>
    rw [hc] at hserved
    cases hserved
  | reload =>
    rw [hc] at hserved
    cases hserved
  | noCache =>
    rw [hc] at hserved
    cases hserved

theorem NotModified.not_served {response : Response}
    (h : NotModified x before sent call world entry response) :
    ¬ Served x before call world entry := by
  intro hserved
  have heq := h.unserved.symm.trans hserved.served
  cases heq

theorem NotModified.not_stored_only {response : Response}
    (h : NotModified x before sent call world entry response) :
    ¬ (call.request.cache = .forceCache ∨ call.request.cache = .onlyIfCached) := by
  have hunserved := h.unserved
  unfold servedEntry at hunserved
  rintro (hc | hc)
  · rw [hc] at hunserved
    cases hunserved
  · rw [hc] at hunserved
    simp only at hunserved
    split_ifs at hunserved
    cases hunserved

/-! ### The validator -/

theorem HeaderMap.mem_getAll_insert {http : Http} {map map' : HeaderMap} {name : Text}
    {value : Bytes} (h : map.insert http name value = some map') :
    value ∈ map'.getAll name.toAsciiLowercase := by
  unfold HeaderMap.insert HeaderName.fromBytes at h
  split_ifs at h with hname hvalue
  · cases h
    simp [HeaderMap.getAll, HeaderMap.append, HeaderName.is, Text.eqIgnoreAsciiCase]

theorem sendDial_carries {tag : Text} {bytes : Bytes} {outbound : Request}
    (hbytes : isomorphicEncode tag = some bytes)
    (h : sendDial x sent call (some tag) world = .ok outbound) :
    bytes ∈ outbound.headers.getAll "if-none-match".toList := by
  unfold sendDial at h
  split at h
  · cases h
  · cases h
  · simp only at h
    split at h
    · cases h
    · rename_i request hrequest
      rw [Option.bind_some, hbytes] at h
      simp only at h
      split at h
      · cases h
      · rename_i headers hheaders
        cases h
        have hmem := HeaderMap.mem_getAll_insert hheaders
        unfold watchRedirects
        cases call.request.csp with
        | none => exact hmem
        | some csp => exact hmem

/-! ### The rules -/

/-- The two cases the code gets wrong: the default mode serves no entry marked `no-cache`, and a 304
meets an entry only in the modes that revalidate and only when the entry has a validator that can be
sent. -/
def ReuseCondition (x : DialCrates) (before sent : Network) (call : Call) (world : DialWorld) : Prop :=
  (∀ entry, Served x before call world entry → call.request.cache = .default →
    hasDirective entry.outcome "no-cache".toList = false) ∧
  ∀ entry response, NotModified x before sent call world entry response →
    (call.request.cache = .default ∨ call.request.cache = .noCache) ∧
      ∃ tag bytes, etag entry.outcome = some tag ∧ isomorphicEncode tag = some bytes

/-- In every reachable state, for every request and answer: the stored bytes a dial reuses are ones
it may reuse exactly when the condition holds. -/
theorem reuse_iff (x : DialCrates) (steps : List DialStep) (s : DialState)
    (hrun : Machine.run (dialStep x) DialState.new steps = some s) (sent : Network) (call : Call)
    (world : DialWorld) :
    (∀ entry, Reuses x s.network sent call world entry →
        ReuseAllowed x s.network sent call world entry) ↔
      ReuseCondition x s.network sent call world := by
  constructor
  · intro h
    refine ⟨?_, ?_⟩
    · intro entry hserved hdefault
      rcases (h entry (.inl hserved)).mode with ⟨-, -, -, hno⟩ | hmode | ⟨-, response, hnot, -⟩
      · exact hno
      · rw [hdefault] at hmode
        rcases hmode with hmode | hmode <;> cases hmode
      · exact absurd hserved hnot.not_served
    · intro entry response hnot
      rcases (h entry (.inr ⟨response, hnot⟩)).mode with ⟨-, hserved, -⟩ | hmode |
        ⟨hmode, -, -, tag, bytes, htag, hbytes, -⟩
      · exact absurd hserved hnot.not_served
      · exact absurd hmode hnot.not_stored_only
      · exact ⟨hmode, tag, bytes, htag, hbytes⟩
  · intro hcond entry hreuse
    have husable : call.entry s.network = some entry := by
      rcases hreuse with hserved | ⟨response, hnot⟩
      · exact hserved.usable
      · exact hnot.usable
    have hget := (entry_spec husable).1
    refine ⟨exposes_of_entry husable, get_of_run hrun hget, hget, vary_of_entry husable, ?_⟩
    rcases hreuse with hserved | ⟨response, hnot⟩
    · rcases hserved.mode with ⟨hdefault, hfresh⟩ | hmode
      · exact .inl ⟨hdefault, hserved, hfresh, hcond.1 entry hserved hdefault⟩
      · exact .inr (.inl hmode)
    · obtain ⟨hmode, tag, bytes, htag, hbytes⟩ := hcond.2 entry response hnot
      refine .inr (.inr ⟨hmode, response, hnot, tag, bytes, htag, hbytes, ?_⟩)
      intro outbound hsend
      have hvalidator : validator call.request (some entry) = some tag := by
        unfold validator
        rw [if_pos (by simpa using hmode)]
        exact htag
      rw [hvalidator] at hsend
      exact sendDial_carries hbytes hsend

/-- One whole dial of the sample request. -/
def dialSteps (answer : Response) : List DialStep :=
  [.start 0 .sample (.sample answer), .send 0 (.sample answer), .answer 0 (.sample answer)]

/-- A response with the entry tag `"v"` and the body `a`. -/
def Response.tagged : Response :=
  .sample 200 [(⟨"etag".toList, by decide⟩, Bytes.ofText "\"v\"".toList)] [0x61]

/-- A response that is fresh for a minute and marked `no-cache`. -/
def Response.noCache : Response :=
  .sample 200 [(⟨"cache-control".toList, by decide⟩,
    Bytes.ofText "max-age=60, no-cache".toList)] [0x61]

/-- The sample request in another cache mode. -/
def Call.inMode (mode : RequestCache) : Call :=
  { Call.sample with request := { Call.sample.request with cache := mode } }

/-- The revalidation of a stored entry in the default mode is allowed. -/
theorem reuse_iff_tagged : ∃ s, Machine.run (dialStep .sample) .new (dialSteps .tagged) = some s ∧
    ∀ entry, Reuses .sample s.network s.network .sample (.sample (.sample 304 [] [])) entry →
      ReuseAllowed .sample s.network s.network .sample (.sample (.sample 304 [] [])) entry := by
  refine ⟨_, rfl, (reuse_iff _ (dialSteps .tagged) _ rfl _ _ _).2 ⟨?_, ?_⟩⟩
  · intro entry hserved _
    have hdirective := congrArg (Option.map fun entry =>
      hasDirective entry.outcome "no-cache".toList) hserved.usable
    exact (Option.some.inj hdirective).symm
  · intro entry response hnot
    have htag := congrArg (Option.map fun entry => etag entry.outcome) hnot.usable
    exact ⟨.inl rfl, "\"v\"".toList, Bytes.ofText "\"v\"".toList,
      (Option.some.inj htag).symm, by decide⟩

/-- Two reuses that are not allowed: a reload whose answer is a 304, and a fresh entry marked
`no-cache`. -/
theorem exists_run_reuse_unallowed :
    (∃ s, Machine.run (dialStep .sample) .new (dialSteps .tagged) = some s ∧
      ¬ ∀ entry, Reuses .sample s.network s.network (.inMode .reload)
          (.sample (.sample 304 [] [])) entry →
        ReuseAllowed .sample s.network s.network (.inMode .reload)
          (.sample (.sample 304 [] [])) entry) ∧
    ∃ s, Machine.run (dialStep .sample) .new (dialSteps .noCache) = some s ∧
      ¬ ∀ entry, Reuses .sample s.network s.network .sample (.sample (.sample 200 [] [])) entry →
        ReuseAllowed .sample s.network s.network .sample (.sample (.sample 200 [] [])) entry := by
  refine ⟨⟨_, rfl, fun h => ?_⟩, ⟨_, rfl, fun h => ?_⟩⟩
  · have hnot := h _ (.inr ⟨_, ⟨_, rfl⟩, rfl, rfl, ⟨_, rfl⟩, rfl, rfl, by decide⟩)
    rcases hnot.mode with ⟨hmode, -⟩ | (hmode | hmode) | ⟨hmode | hmode, -⟩
    all_goals cases hmode
  · have hserved := h _ (.inl ⟨⟨_, rfl⟩, rfl, rfl, rfl⟩)
    rcases hserved.mode with ⟨-, -, -, hno⟩ | (hmode | hmode) | ⟨-, response, hnot, -⟩
    · revert hno
      decide +kernel
    · cases hmode
    · cases hmode
    · exact hnot.not_served ⟨⟨_, rfl⟩, rfl, rfl, rfl⟩

end TinyBrowser
