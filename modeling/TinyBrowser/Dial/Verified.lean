import TinyBrowser.Dial.Answer

/-!
# Subresource integrity

The buffered read, the streamed read and the cache hit each check integrity metadata against the
bytes they deliver. The merge of a 304 does not: `verified_iff` says that a dial delivers only
verified bytes exactly when no 304 is answered against a stored body that does not verify.
-/

namespace TinyBrowser
open Lib

variable {x : DialCrates} {before sent after : Network} {call : Call} {world : DialWorld}

/-! ### Buffered bodies -/

variable {metadata : Text}

theorem bufferBody_verifies {digests : Digests} {reads : List Read}
    {reader : BodyReader} {body : Bytes} (hm : reader.integrity = some metadata)
    (h : bufferBody digests reader reads = .ok (.bytes body)) :
    integrityVerifies digests metadata body = true := by
  induction reads generalizing reader with
  | nil => cases h
  | cons read rest ih =>
    rcases read with error | chunk
    · cases error <;> cases h
    · cases chunk with
      | some chunk =>
        by_cases hlimit : maxResponseBodyBytes < reader.total + chunk.length
        · simp [bufferBody, BodyReader.next, hlimit] at h
        · simp only [bufferBody, BodyReader.next, hlimit, if_false] at h
          exact ih (by exact hm) h
      | none =>
        by_cases hbad : integrityVerifies digests metadata reader.collected = true
        · simp only [bufferBody, BodyReader.next, hm, Option.any_some, hbad, Bool.not_true,
            Bool.false_eq_true, if_false, Except.ok.injEq, ResponseBody.bytes.injEq] at h
          rw [← h]
          exact hbad
        · simp [bufferBody, BodyReader.next, hm, hbad] at h

/-! ### Streamed bodies -/

/-- What a body task sends in its first turns. -/
def StreamTask.sends (digests : Digests) : Nat → StreamTask → List StreamMessage
  | 0, _ => []
  | turns + 1, task => match task.step digests with
    | none => []
    | some (message, task, _) => message :: sends digests turns task

def StreamMessage.bytes : StreamMessage → Bytes
  | .chunk bytes => bytes
  | .finish | .error _ => []

/-- The bytes of the chunks among some messages. -/
def sentBytes (messages : List StreamMessage) : Bytes := messages.flatMap StreamMessage.bytes

theorem StreamTask.sends_nil {digests : Digests} (turns : Nat) {task : StreamTask}
    (h : task.reads = []) : task.sends digests turns = [] := by
  cases turns with
  | zero => rfl
  | succ turns =>
    rw [sends, step, h]

theorem StreamTask.sends_verifies {digests : Digests} (turns : Nat)
    {task : StreamTask} (hm : task.reader.integrity = some metadata)
    (hcollect : task.reader.collect = true) (h : .finish ∈ task.sends digests turns) :
    integrityVerifies digests metadata
      (task.reader.collected ++ sentBytes (task.sends digests turns)) = true := by
  induction turns generalizing task with
  | zero => cases h
  | succ turns ih =>
    rw [sends] at h ⊢
    cases hr : task.reads with
    | nil =>
      simp only [step, hr] at h
      cases h
    | cons read rest =>
      simp only [step, hr] at h ⊢
      rcases read with error | chunk
      · -- an error is the last message
        cases error <;> simp [BodyReader.next, sends_nil] at h
      · cases chunk with
        | some chunk =>
          by_cases hlimit : maxResponseBodyBytes < task.reader.total + chunk.length
          · simp [BodyReader.next, hlimit, sends_nil] at h
          · simp only [BodyReader.next, hlimit, if_false, List.mem_cons, reduceCtorEq,
              false_or] at h ⊢
            have hrest := ih (by exact hm) (by exact hcollect) h
            simpa [hcollect, sentBytes, StreamMessage.bytes] using hrest
        | none =>
          by_cases hok : integrityVerifies digests metadata task.reader.collected = true
          · simp [BodyReader.next, hm, hok, sends_nil, sentBytes, StreamMessage.bytes]
          · simp [BodyReader.next, hm, hok, sends_nil] at h

theorem startStream_task {network : Network} {mode : RequestCache} {response : Response}
    {id : StreamId} {entry : StreamEntry}
    (h : (startStream network call mode response).2.streams.get? id = some entry) :
    network.streams.get? id = some entry ∨
      (entry.task.reader.integrity = call.request.integrity ∧ entry.task.reader.collected = [] ∧
        (call.request.integrity.isSome = true → entry.task.reader.collect = true)) := by
  unfold startStream at h
  simp only at h
  split_ifs at h with hnull hstore
  · exact .inl h
  all_goals
    rw [Dict.get?_insert] at h
    split_ifs at h with hid
    · cases h
      exact .inr ⟨rfl, rfl, fun hsome => by simp [BodyReader.new, hsome]⟩
    · exact .inl h

theorem dial_streams {id : StreamId} {entry : StreamEntry}
    (h : (dialRequestUnfiltered x before sent after call world).2.streams.get? id = some entry) :
    after.streams.get? id = some entry ∨
      (entry.task.reader.integrity = call.request.integrity ∧ entry.task.reader.collected = [] ∧
        (call.request.integrity.isSome = true → entry.task.reader.collect = true)) := by
  unfold dialRequestUnfiltered at h
  split at h
  · exact .inl h
  · exact .inl h
  · split at h
    · exact .inl h
    · rcases answerDial_streams (x := x) with hsame | ⟨response, -, -, -, hstarted⟩
      · rw [hsame] at h
        exact .inl h
      · rw [hstarted] at h
        exact startStream_task h

/-! ### Dials -/

/-- What a dial under `metadata` delivers verifies: a buffered body that is not empty, and the bytes
of every stream it starts that ends. -/
def VerifiedDial (x : DialCrates) (before sent after : Network) (call : Call) (world : DialWorld)
    (metadata : Text) : Prop :=
  (∀ outcome body, (dialRequestUnfiltered x before sent after call world).1 = .ok outcome →
    outcome.body = .bytes body → body ≠ [] →
      integrityVerifies x.digests metadata body = true) ∧
  ∀ id entry, (dialRequestUnfiltered x before sent after call world).2.streams.get? id = some entry →
    after.streams.get? id = some entry ∨
      ∀ turns, .finish ∈ entry.task.sends x.digests turns →
        integrityVerifies x.digests metadata (sentBytes (entry.task.sends x.digests turns)) = true

theorem refusedRedirect_body {outbound : Request} {redirects : List Url} {outcome : DialOutcome}
    (h : refusedRedirect outbound redirects = some outcome) : outcome.body = .bytes [] := by
  simp only [refusedRedirect, bind, Option.bind_eq_some_iff] at h
  obtain ⟨gate, hgate, target, htarget, hout⟩ := h
  cases hout
  rfl

theorem Delivered.verifies {outcome : DialOutcome} {body : Bytes}
    (h : Delivered x after call world outcome) (hm : call.request.integrity = some metadata)
    (hbody : outcome.body = .bytes body) (hne : body ≠ []) :
    integrityVerifies x.digests metadata body = true := by
  cases h with
  | refused outbound error ha h =>
    rw [refusedRedirect_body h] at hbody
    cases hbody
    exact absurd rfl hne
  | buffered response ha hread hd h =>
    unfold bufferResponse at h
    simp only at h
    split at h
    · cases h
    · rename_i read hread
      cases h
      split_ifs at hread with hnull
      · cases hread
        cases hbody
        exact absurd rfl hne
      · have : read = .bytes body := hbody
        rw [this] at hread
        exact bufferBody_verifies (by exact hm) hread
  | streamed response ha hread hd h =>
    unfold startStream at h
    simp only at h
    split_ifs at h with hnull
    all_goals
      rw [← h] at hbody
      cases hbody
    exact absurd rfl hne

theorem Served.verifies {entry : CachedResponse} {body : Bytes}
    (h : Served x before call world entry) (hm : call.request.integrity = some metadata)
    (hbody : entry.outcome.body = .bytes body) :
    integrityVerifies x.digests metadata body = true := by
  have hok := h.integrity
  unfold cachedIntegrityOk at hok
  rwa [hm, hbody] at hok

/-- Integrity holds on every path but one: a 304 answered against a stored body that does not
verify. -/
theorem verified_iff (x : DialCrates) (before sent after : Network) (call : Call) (world : DialWorld)
    (metadata : Text) (hm : call.request.integrity = some metadata) :
    VerifiedDial x before sent after call world metadata ↔
      ∀ entry response body, NotModified x before sent call world entry response →
        entry.outcome.body = .bytes body → body ≠ [] →
          integrityVerifies x.digests metadata body = true := by
  constructor
  · intro h entry response body hnot hbody hne
    exact h.1 _ body (dial_of_notModified hnot) hbody hne
  · intro h
    refine ⟨?_, ?_⟩
    · intro outcome body hout hbody hne
      rcases dial_cases hout with ⟨entry, hserved, rfl⟩ | ⟨entry, response, hnot, rfl⟩ | hdelivered
      · exact hserved.verifies hm hbody
      · exact h entry response body hnot hbody hne
      · exact hdelivered.verifies hm hbody hne
    · intro id entry hentry
      rcases dial_streams hentry with hold | ⟨hint, hempty, hcollect⟩
      · exact .inl hold
      · right
        intro turns hfinish
        have hsome : call.request.integrity.isSome = true := by rw [hm]; rfl
        have hv := StreamTask.sends_verifies turns (hint.trans hm) (hcollect hsome) hfinish
        rwa [hempty, List.nil_append] at hv

theorem lower_etag : Text.toAsciiLowercase "etag".toList = "etag".toList := by decide

/-- The network after a page fetched the body `a` without metadata. -/
def Network.storedA : Network :=
  .sample .sample (.sample 200 [(⟨"etag".toList, lower_etag⟩, Bytes.ofText "\"v\"".toList)] [0x61])

/-- The same `fetch`, under metadata. -/
def Call.checked (metadata : Text) : Call :=
  { Call.sample with request := { Call.sample.request with integrity := some metadata } }

/-- The SHA-256 digests of `a` and of the empty string, as metadata. -/
def metadataA : Text := "sha256-ypeBEsobvcr6wjGzmiPcTaeG7/gUfE5yuYB3ha/uSLs=".toList

def metadataEmpty : Text := "sha256-47DEQpj8HBSa+/TImW+5JCeuQeRkm5NMpJWZG3hSuFU=".toList

/-- A page that fetches the stored body again under its own digest gets verified bytes, also when
the server answers with a 304. -/
theorem verified_iff_same_digest : VerifiedDial .sample .storedA .storedA .storedA
    (.checked metadataA) (.sample (.sample 304 [] [])) metadataA := by
  refine (verified_iff _ _ _ _ _ _ _ rfl).2 ?_
  intro entry response body hnot hbody _
  have hstored : ((Call.checked metadataA).entry .storedA).map (·.outcome.body) =
      some (.bytes [0x61]) := by decide +kernel
  rw [hnot.usable, Option.map_some, hbody] at hstored
  cases hstored
  decide +kernel

/-- A page that fetches it again under the digest of another body gets the stored bytes from a
304. -/
theorem exists_dial_unverified : ¬ VerifiedDial .sample .storedA .storedA .storedA
    (.checked metadataEmpty) (.sample (.sample 304 [] [])) metadataEmpty := by
  intro h
  have hfalse := h.1 _ [0x61] rfl rfl (by decide)
  revert hfalse
  decide +kernel

end TinyBrowser
