import TinyBrowser.Child.Calls

/-!
# What each frame does to a session

One outcome lemma for each frame of the browser: the start of a stream (`Called`), a chunk
(`Pushed`), the end of an upload (`Ended`), a cancel and the streams that a release sweeps. An open
stream has an engine, so the branches that miss one are those of a start.
-/

namespace TinyBrowser.Child
open Lib
open Exchange (RequestId Frame)

variable {w : Around} {s s' : Session} {id id' : RequestId} {e : Event}

namespace Session

attribute [simp] log_record

@[simp] theorem responses_record : (s.record e).responses = s.responses := rfl
@[simp] theorem engines_record : (s.record e).engines = s.engines := rfl

variable {response : ActiveResponse}

@[simp] theorem log_setActive : (s.setActive id response).log id' = s.log id' := rfl
@[simp] theorem engines_setActive : (s.setActive id response).engines = s.engines := rfl
@[simp] theorem cancelled_setActive :
    (s.setActive id response).responses.cancelled = s.responses.cancelled := rfl
@[simp] theorem active_setActive :
    (s.setActive id response).responses.active = s.responses.active.insert id response := rfl

@[simp] theorem log_bury : (s.bury id).log id' = s.log id' := rfl
@[simp] theorem engines_bury : (s.bury id).engines = s.engines := rfl
@[simp] theorem active_bury : (s.bury id).responses.active = s.responses.active.erase id := rfl

@[simp] theorem log_removeActive : (s.removeActive id).log id' = s.log id' := rfl
@[simp] theorem engines_removeActive : (s.removeActive id).engines = s.engines := rfl
@[simp] theorem cancelled_removeActive :
    (s.removeActive id).responses.cancelled = s.responses.cancelled := rfl
@[simp] theorem active_removeActive :
    (s.removeActive id).responses.active = s.responses.active.erase id := rfl

/-- `self.tombstone` of the session's streams. -/
def tombstone (s : Session) (id : RequestId) : Session :=
  { s with responses := s.responses.tombstone id }

@[simp] theorem log_tombstone : (s.tombstone id).log id' = s.log id' := rfl
@[simp] theorem engines_tombstone : (s.tombstone id).engines = s.engines := rfl
@[simp] theorem active_tombstone : (s.tombstone id).responses.active = s.responses.active := rfl

theorem callBody_eq (op : BodyOp) :
    s.callBody w id response op =
      (if w.hosts response.assignment response.frame then .ok () else
        .error (.unknownFrame response.frame),
      s.record (.body id response op (w.hosts response.assignment response.frame))) := by
  unfold callBody
  split_ifs with h
  · rw [h]
  · rw [Bool.not_eq_true] at h
    rw [h]

theorem abortBody_eq (h : response.assignment ∈ s.engines) :
    s.abortBody w id response =
      s.record (.body id response .abortBody (w.hosts response.assignment response.frame)) := by
  rw [abortBody, if_pos h, callBody_eq]

theorem replyResult_eq {result : RendererAssignmentId × Except TabError Unit}
    (h : s.replyResult w id result = (true, s')) : s' = s.record (.sent id result.1 result.2) := by
  unfold replyResult at h
  split_ifs at h
  · exact (congrArg Prod.snd h).symm
  · cases congrArg Prod.fst h

end Session

/-! ### One call is touched -/

/-- The step leaves every other call as it was, save for tombstones that are forgotten. -/
structure Touches (id : RequestId) (s s' : Session) : Prop where
  log : ∀ id' ≠ id, s'.log id' = s.log id'
  active : ∀ id' ≠ id, s'.responses.active.get? id' = s.responses.active.get? id'
  buried : ∀ id' ≠ id, id' ∈ s'.responses.cancelled → id' ∈ s.responses.cancelled
  engines : s'.engines = s.engines
  tombstones : Tombstones s.responses → Tombstones s'.responses

namespace Touches

theorem refl : Touches id s s :=
  ⟨fun _ _ => rfl, fun _ _ => rfl, fun _ _ => (·), rfl, (·)⟩

theorem trans {s'' : Session} (h : Touches id s s') (h' : Touches id s' s'') : Touches id s s'' :=
  ⟨fun i hi => (h'.log i hi).trans (h.log i hi), fun i hi => (h'.active i hi).trans (h.active i hi),
    fun i hi hb => h.buried i hi (h'.buried i hi hb), h'.engines.trans h.engines,
    fun ht => h'.tombstones (h.tombstones ht)⟩

/-- The event is about the call. -/
theorem record (h : Touches id s s') (he : ∀ i ≠ id, ∀ c : CallLog, c.next i e = c) :
    Touches id s (s'.record e) :=
  h.trans ⟨fun i hi => by rw [Session.log_record, he i hi], fun _ _ => rfl, fun _ _ => (·), rfl, (·)⟩

theorem heard {frame : ToRenderer} (h : ∀ i ≠ id, ∀ c : CallLog, c.next i (.heard frame) = c) :
    Touches id s (s.record (.heard frame)) := refl.record h

theorem body (h : Touches id s s') (response : ActiveResponse) (op : BodyOp) (taken : Bool) :
    Touches id s (s'.record (.body id response op taken)) :=
  h.record fun _ hi _ => if_neg hi.symm

theorem sent (h : Touches id s s') (assignment : RendererAssignmentId)
    (result : Except TabError Unit) : Touches id s (s'.record (.sent id assignment result)) :=
  h.record fun _ hi _ => if_neg hi.symm

theorem setActive (h : Touches id s s') (response : ActiveResponse) :
    Touches id s (s'.setActive id response) :=
  h.trans ⟨fun _ _ => rfl, fun i hi => by simp [hi], fun _ _ => (·), rfl, (·.setActive _)⟩

theorem removeActive (h : Touches id s s') : Touches id s (s'.removeActive id) :=
  h.trans ⟨fun _ _ => rfl, fun i hi => by simp [hi], fun _ _ => (·), rfl, (·.setActive _)⟩

theorem tombstone (h : Touches id s s') : Touches id s (s'.tombstone id) :=
  h.trans ⟨fun _ _ => rfl, fun _ _ => rfl,
    fun _ hi hb => (ResponseStreams.mem_tombstone hb).resolve_left hi, rfl, (·.tombstone id)⟩

theorem bury (h : Touches id s s') : Touches id s (s'.bury id) := h.removeActive.tombstone

end Touches

/-! ### What each frame does -/

def ResponseStart.opened (response : ResponseStart) : ActiveResponse :=
  ⟨response.assignment, response.frame, 0⟩

/-- What becomes of a session at the start of a stream that is not open. -/
inductive Called (w : Around) (id : RequestId) (response : ResponseStart) (s : Session) :
    Session → Prop where
  | ignored (hengine : response.assignment ∈ s.engines) (hburied : id ∈ s.responses.cancelled) :
    Called w id response s s
  | opened (hengine : response.assignment ∈ s.engines) (hburied : id ∉ s.responses.cancelled)
    (hhosts : w.hosts response.assignment response.frame = true) :
    Called w id response s
      ((s.record (.body id response.opened .openBody true)).setActive id response.opened)
  | refused (hburied : id ∉ s.responses.cancelled)
    (hhosts : w.hosts response.assignment response.frame = false)
    (result : Except TabError Unit) :
    Called w id response s ((s.record (.body id response.opened .openBody false)).record
      (.sent id response.assignment result))
  | missing (hengine : response.assignment ∉ s.engines) (result : Except TabError Unit) :
    Called w id response s ((s.tombstone id).record (.sent id response.assignment result))

theorem called_of_handleHost {response : ResponseStart}
    (hactive : s.responses.active.get? id = none)
    (h : s.handleHost w (.call id (.response response)) = (true, s')) :
    Called w id response s s' := by
  rw [Session.handleHost] at h
  split_ifs at h with hengine
  · unfold Session.start at h
    rw [Dict.contains, hactive] at h
    simp only [Session.callBody_eq] at h
    split_ifs at h with hburied hopen hhosts
    · cases h
      exact .ignored hengine hburied
    · cases hopen
    · cases h
      rw [hhosts]
      exact .opened hengine hburied hhosts
    · obtain rfl := Session.replyResult_eq h
      rw [Bool.not_eq_true] at hhosts
      rw [hhosts]
      exact .refused hburied hhosts _
  · unfold Session.cancel at h
    rw [hactive] at h
    obtain rfl := Session.replyResult_eq h
    exact .missing hengine _

def ActiveResponse.grown (r : ActiveResponse) (len : Nat) : ActiveResponse :=
  { r with bytes := r.bytes + len }

/-- What becomes of a session at a chunk. -/
inductive Pushed (w : Around) (id : RequestId) (len : Nat) (s : Session) : Session → Prop where
  | ignored (hactive : s.responses.active.get? id = none) : Pushed w id len s s
  | wrote {r : ActiveResponse} (hactive : s.responses.active.get? id = some r)
    (hfits : r.bytes + len ≤ maxResponseBodyBytes) (hhosts : w.hosts r.assignment r.frame = true) :
    Pushed w id len s
      ((s.setActive id (r.grown len)).record (.body id (r.grown len) (.writeBody len) true))
  | overflowed {r : ActiveResponse} (hactive : s.responses.active.get? id = some r)
    (hfits : maxResponseBodyBytes < r.bytes + len) (r' : ActiveResponse) (taken : Bool)
    (result : Except TabError Unit) :
    Pushed w id len s ((((s.setActive id r').bury id).record (.body id r' .abortBody taken)).record
      (.sent id r.assignment result))
  | failed {r : ActiveResponse} (hactive : s.responses.active.get? id = some r)
    (hfits : r.bytes + len ≤ maxResponseBodyBytes) (hhosts : w.hosts r.assignment r.frame = false)
    (result : Except TabError Unit) :
    Pushed w id len s (((((s.setActive id (r.grown len)).record
      (.body id (r.grown len) (.writeBody len) false)).bury id).record
        (.body id (r.grown len) .abortBody false)).record (.sent id r.assignment result))

theorem saturatingAdd_eq {a b : Nat} (h : a + b ≤ maxResponseBodyBytes) :
    saturatingAdd a b = a + b := min_eq_left (h.trans (by decide))

theorem lt_saturatingAdd_iff {a b : Nat} :
    maxResponseBodyBytes < saturatingAdd a b ↔ maxResponseBodyBytes < a + b := by
  rw [saturatingAdd, lt_min_iff]
  exact and_iff_left (by decide)

theorem pushed_of_handleHost {bytes : Exchange.Bytes}
    (hopen : ∀ r, s.responses.active.get? id = some r →
      id ∉ s.responses.cancelled ∧ r.assignment ∈ s.engines)
    (h : s.handleHost w (.requestChunk id bytes) = (true, s')) : Pushed w id bytes.length s s' := by
  rw [Session.handleHost, Session.push] at h
  cases hactive : s.responses.active.get? id with
  | none =>
    rw [hactive, ite_self] at h
    cases h
    exact .ignored hactive
  | some r =>
    obtain ⟨hburied, hengine⟩ := hopen r hactive
    rw [hactive, if_neg hburied] at h
    dsimp only at h
    by_cases hfits : maxResponseBodyBytes < r.bytes + bytes.length
    · rw [if_pos (lt_saturatingAdd_iff.2 hfits), Session.abortBody_eq (by exact hengine)] at h
      obtain rfl := Session.replyResult_eq h
      exact .overflowed hactive hfits _ _ _
    · rw [not_lt] at hfits
      rw [saturatingAdd_eq hfits, if_neg (not_lt.2 hfits), if_pos (by exact hengine),
        Session.callBody_eq] at h
      dsimp only at h
      cases hhosts : w.hosts r.assignment r.frame with
      | true =>
        rw [hhosts] at h
        cases h
        exact .wrote hactive hfits hhosts
      | false =>
        rw [hhosts] at h
        simp only [Bool.false_eq_true, if_false] at h
        rw [Session.abortBody_eq (by exact hengine)] at h
        dsimp only at h
        rw [hhosts] at h
        obtain rfl := Session.replyResult_eq h
        exact .failed hactive hfits hhosts _

/-- What becomes of a session at the end of an upload. -/
inductive Ended (id : RequestId) (s : Session) : Session → Prop where
  | silenced (hburied : id ∈ s.responses.cancelled) : Ended id s s
  | unstarted (hburied : id ∉ s.responses.cancelled) (hactive : s.responses.active.get? id = none)
    (assignment : RendererAssignmentId) (result : Except TabError Unit) :
    Ended id s (s.record (.sent id assignment result))
  | closed {r : ActiveResponse} (hburied : id ∉ s.responses.cancelled)
    (hactive : s.responses.active.get? id = some r) (op : BodyOp)
    (hop : op = .endBody ∨ op = .abortBody) (taken : Bool) (result : Except TabError Unit) :
    Ended id s (((s.removeActive id).record (.body id r op taken)).record
      (.sent id r.assignment result))

theorem ended_of_handleHost {error : Option Text}
    (hopen : ∀ r, s.responses.active.get? id = some r → r.assignment ∈ s.engines)
    (h : s.handleHost w (.requestEnd id error) = (true, s')) : Ended id s s' := by
  cases error with
  | none =>
    rw [Session.handleHost] at h
    split_ifs at h with hburied
    · cases h
      exact .silenced hburied
    · unfold Session.finish Session.take at h
      cases hactive : s.responses.active.get? id with
      | none =>
        rw [hactive] at h
        obtain rfl := Session.replyResult_eq h
        exact .unstarted hburied hactive _ _
      | some r =>
        rw [hactive] at h
        dsimp only at h
        rw [if_pos (by exact hopen r hactive), Session.callBody_eq] at h
        obtain rfl := Session.replyResult_eq h
        exact .closed hburied hactive .endBody (.inl rfl) _ _
  | some error =>
    rw [Session.handleHost] at h
    split_ifs at h with hburied
    · cases h
      exact .silenced hburied
    · unfold Session.abort Session.take at h
      cases hactive : s.responses.active.get? id with
      | none =>
        rw [hactive] at h
        obtain rfl := Session.replyResult_eq h
        exact .unstarted hburied hactive _ _
      | some r =>
        rw [hactive] at h
        dsimp only at h
        rw [Session.abortBody_eq (by exact hopen r hactive)] at h
        obtain rfl := Session.replyResult_eq h
        exact .closed hburied hactive .abortBody (.inr rfl) _ _

/-- A cancelled call loses its stream. -/
theorem cancel_eq (hopen : ∀ r, s.responses.active.get? id = some r → r.assignment ∈ s.engines) :
    (s.responses.active.get? id = none ∧ s.cancel w id = s.tombstone id) ∨
    ∃ r taken, s.responses.active.get? id = some r ∧
      s.cancel w id = (s.bury id).record (.body id r .abortBody taken) := by
  unfold Session.cancel
  cases hactive : s.responses.active.get? id with
  | none => exact .inl ⟨rfl, rfl⟩
  | some r =>
    refine .inr ⟨r, w.hosts r.assignment r.frame, rfl, ?_⟩
    dsimp only
    rw [Session.abortBody_eq (by exact hopen r hactive)]
    rfl

/-- A release takes the streams of its list, each once. -/
structure Swept (stale : List RequestId) (s s' : Session) : Prop where
  taken : ∀ id ∈ stale, s'.responses.active.get? id = none ∧ s'.log id = (s.log id).abort
  kept : ∀ id ∉ stale, s'.responses.active.get? id = s.responses.active.get? id ∧
    s'.log id = s.log id ∧ (id ∈ s'.responses.cancelled → id ∈ s.responses.cancelled)
  engines : s'.engines = s.engines
  tombstones : Tombstones s.responses → Tombstones s'.responses

theorem swept_releaseStale (stale : List (RequestId × ActiveResponse)) (s : Session)
    (hnodup : (stale.map Prod.fst).Nodup) (hengine : ∀ x ∈ stale, x.2.assignment ∈ s.engines) :
    Swept (stale.map Prod.fst) s (Session.releaseStale w stale s) := by
  induction stale generalizing s with
  | nil => exact ⟨nofun, fun _ _ => ⟨rfl, rfl, (·)⟩, rfl, (·)⟩
  | cons x stale ih =>
    obtain ⟨id, r⟩ := x
    obtain ⟨hid, hrest⟩ := List.nodup_cons.1 hnodup
    have habort : (s.bury id).abortBody w id r = (s.bury id).record
        (.body id r .abortBody (w.hosts r.assignment r.frame)) :=
      Session.abortBody_eq (hengine _ (List.mem_cons_self ..))
    have htouch : Touches id s ((s.bury id).abortBody w id r) := by
      rw [habort]
      exact Touches.refl.bury.body r _ _
    have hswept := ih ((s.bury id).abortBody w id r) hrest fun y hy => by
      rw [htouch.engines]
      exact hengine y (List.mem_cons_of_mem _ hy)
    rw [Session.releaseStale]
    refine ⟨?_, ?_, hswept.engines.trans htouch.engines,
      fun ht => hswept.tombstones (htouch.tombstones ht)⟩
    · intro i hi
      rcases List.mem_cons.1 hi with rfl | hi
      · obtain ⟨hactive, hlog, -⟩ := hswept.kept i hid
        rw [hactive, hlog, habort, Session.log_record, CallLog.next_abort, Session.log_bury]
        exact ⟨by simp, rfl⟩
      · have hne : i ≠ id := fun heq => hid (heq ▸ hi)
        obtain ⟨hactive, hlog⟩ := hswept.taken i hi
        exact ⟨hactive, by rw [hlog, htouch.log i hne]⟩
    · intro i hi
      obtain ⟨hne, hi⟩ := not_or.1 (mt List.mem_cons.2 hi)
      obtain ⟨hactive, hlog, hburied⟩ := hswept.kept i hi
      exact ⟨hactive.trans (htouch.active i hne), hlog.trans (htouch.log i hne),
        fun hb => htouch.buried i hne (hburied hb)⟩

end TinyBrowser.Child
