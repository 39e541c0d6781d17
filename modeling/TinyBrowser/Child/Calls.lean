import TinyBrowser.Child.Session

/-!
# What a response call lives through

`CallLog` reads off the events of a session what happened to one call: its assignment, the frames
that ended it or gave it up, its replies, and how its body was fed. A reply is late once the call is
cancelled or its assignment released. `Standing` is what a call's log and its entries in
`ResponseStreams` say of each other between two frames.
-/

namespace TinyBrowser.Child
open Lib
open Exchange (RequestId Frame)

/-! ### The log of a call -/

inductive BodyPhase where
  | unopened
  | feeding (bytes : Nat)
  | closed
deriving DecidableEq

/-- A body is fed between its opening and its single end or abort, and never too much. -/
def BodyPhase.next : BodyPhase → BodyOp → Bool → Option BodyPhase
  | .unopened, .openBody, taken => some (if taken then .feeding 0 else .closed)
  | .feeding bytes, .writeBody len, _ =>
    if bytes + len ≤ maxResponseBodyBytes then some (.feeding (bytes + len)) else none
  | .feeding _, .endBody, _ | .feeding _, .abortBody, _ => some .closed
  | _, _, _ => none

structure CallLog where
  assignment : Option RendererAssignmentId
  ended : Bool
  cancelled : Bool
  released : Bool
  replies : Nat
  lateReplies : Nat
  /-- `none` once the body was fed out of turn. -/
  body : Option BodyPhase
deriving DecidableEq

namespace CallLog

def new : CallLog := ⟨none, false, false, false, 0, 0, some .unopened⟩

def givenUp (c : CallLog) : Bool := c.cancelled || c.released

def next (id : RequestId) (c : CallLog) : Event → CallLog
  | .heard (.call id' (.response response)) =>
    if id' = id then { c with assignment := some response.assignment } else c
  | .heard (.requestEnd id' _) => if id' = id then { c with ended := true } else c
  | .heard (.cancel id') => if id' = id then { c with cancelled := true } else c
  -- a release is of the calls that were handed to the assignment before it
  | .heard (.notify (.release assignment)) =>
    if c.assignment = some assignment then { c with released := true } else c
  | .heard _ => c
  | .body id' _ op taken =>
    if id' = id then { c with body := c.body.bind fun phase => phase.next op taken } else c
  | .sent id' _ _ =>
    if id' = id then
      { c with replies := c.replies + 1, lateReplies := c.lateReplies + c.givenUp.toNat }
    else c

@[simp] theorem next_body (id : RequestId) (c : CallLog) (r : ActiveResponse) (op : BodyOp)
    (taken : Bool) : c.next id (.body id r op taken) =
      { c with body := c.body.bind fun phase => phase.next op taken } := if_pos rfl

@[simp] theorem next_sent (id : RequestId) (c : CallLog) (assignment : RendererAssignmentId)
    (result : Except TabError Unit) : c.next id (.sent id assignment result) =
      { c with replies := c.replies + 1, lateReplies := c.lateReplies + c.givenUp.toNat } :=
  if_pos rfl

/-- A body that is aborted. -/
def abort (c : CallLog) : CallLog :=
  { c with body := c.body.bind fun phase => phase.next .abortBody true }

theorem next_abort (id : RequestId) (c : CallLog) (r : ActiveResponse) (taken : Bool) :
    c.next id (.body id r .abortBody taken) = c.abort := by
  rw [next, if_pos rfl, abort]
  congr 2
  funext phase
  cases phase <;> rfl

/-- A reply now is neither a second one nor a late one. -/
def Answerable (c : CallLog) : Prop := c.replies = 0 ∧ c.givenUp = false

theorem next_assignment (id : RequestId) (c : CallLog) (e : Event) :
    (c.next id e).assignment = none ↔ c.assignment = none ∧ e.calls id = false := by
  unfold next
  split <;> simp only [Event.calls, decide_eq_false_iff_not] <;> (try split_ifs) <;> simp_all

theorem next_ended (id : RequestId) (c : CallLog) (e : Event) :
    (c.next id e).ended = (c.ended || e.ends id) := by
  unfold next
  split <;> simp only [Event.ends] <;> (try split_ifs) <;> simp_all

end CallLog

def Session.log (s : Session) (id : RequestId) : CallLog := s.past.foldl (CallLog.next id) .new

theorem Session.log_record (s : Session) (id : RequestId) (e : Event) :
    (s.record e).log id = (s.log id).next id e := by
  rw [log, record, List.foldl_append]
  rfl

/-- The calls that a session admits have not started, and the uploads have not ended. -/
theorem Session.log_fresh (s : Session) (id : RequestId) :
    ((s.log id).assignment = none ↔ s.past.any (Event.calls id) = false) ∧
      (s.log id).ended = s.past.any (Event.ends id) := by
  unfold log
  induction s.past using List.reverseRecOn with
  | nil => exact ⟨by simp [CallLog.new], rfl⟩
  | append_singleton past e ih =>
    rw [List.foldl_append, List.any_append, List.any_append]
    simp only [List.foldl_cons, List.foldl_nil, List.any_cons, List.any_nil, Bool.or_false]
    rw [CallLog.next_assignment, CallLog.next_ended, ih.1, ih.2]
    simp

/-- A call that is neither given up nor left open has its one reply, and its body was fed in turn. -/
structure AnsweredOnce (c : CallLog) : Prop where
  once : c.replies ≤ 1
  quiet : c.lateReplies = 0
  answered : c.ended = true → c.givenUp = false → c.replies = 1
  fed : c.body ≠ none

/-- The tombstones and their queue hold the same ids, at most 256. -/
structure Tombstones (r : ResponseStreams) : Prop where
  nodup : r.cancelledOrder.Nodup
  same : r.cancelled = r.cancelledOrder.toFinset
  few : r.cancelled.card ≤ maxCancelledStreams

structure StreamsSound (s : Session) : Prop where
  calls : ∀ id, AnsweredOnce (s.log id)
  tombstones : Tombstones s.responses

/-! ### The tombstones -/

namespace ResponseStreams

variable {r : ResponseStreams} {id id' : RequestId}

theorem evict_subset (cancelled : Finset RequestId) (order : List RequestId) :
    (evict cancelled order).1 ⊆ cancelled := by
  induction order generalizing cancelled with
  | nil => exact subset_rfl
  | cons oldest order ih =>
    unfold evict
    split_ifs
    · exact (ih _).trans (Finset.erase_subset _ _)
    · exact subset_rfl

theorem evict_spec (cancelled : Finset RequestId) (order : List RequestId) (hnodup : order.Nodup)
    (hsame : cancelled = order.toFinset) :
    let kept := evict cancelled order
    kept.2.Nodup ∧ kept.1 = kept.2.toFinset ∧ kept.1.card ≤ maxCancelledStreams := by
  induction order generalizing cancelled with
  | nil =>
    subst hsame
    exact ⟨.nil, rfl, Nat.zero_le _⟩
  | cons oldest order ih =>
    obtain ⟨hmem, hrest⟩ := List.nodup_cons.1 hnodup
    unfold evict
    split_ifs with hfull
    · apply ih _ hrest
      rw [hsame, List.toFinset_cons, Finset.erase_insert]
      rwa [List.mem_toFinset]
    · exact ⟨hnodup, hsame, not_lt.1 hfull⟩

theorem mem_tombstone (h : id' ∈ (r.tombstone id).cancelled) : id' = id ∨ id' ∈ r.cancelled :=
  Finset.mem_insert.1 (evict_subset _ _ h)

@[simp] theorem active_tombstone : (r.tombstone id).active = r.active := rfl

end ResponseStreams

namespace Tombstones

variable {r : ResponseStreams}

theorem new : Tombstones .new := ⟨.nil, rfl, Nat.zero_le _⟩

theorem tombstone (h : Tombstones r) (id : RequestId) : Tombstones (r.tombstone id) := by
  have hqueue : (if id ∈ r.cancelled then r.cancelledOrder else r.cancelledOrder ++ [id]).Nodup ∧
      insert id r.cancelled =
        (if id ∈ r.cancelled then r.cancelledOrder else r.cancelledOrder ++ [id]).toFinset := by
    by_cases hid : id ∈ r.cancelled
    · rw [if_pos hid]
      exact ⟨h.nodup, by rw [Finset.insert_eq_of_mem hid, h.same]⟩
    · have hnot : id ∉ r.cancelledOrder := by rwa [h.same, List.mem_toFinset] at hid
      rw [if_neg hid]
      constructor
      · rw [← List.concat_eq_append]
        exact h.nodup.concat hnot
      · rw [List.toFinset_append, ← h.same, Finset.union_comm]
        rfl
  obtain ⟨h1, h2, h3⟩ := ResponseStreams.evict_spec _ _ hqueue.1 hqueue.2
  exact ⟨h1, h2, h3⟩

theorem setActive (h : Tombstones r) (active : Dict RequestId ActiveResponse) :
    Tombstones { r with active := active } := ⟨h.nodup, h.same, h.few⟩

end Tombstones

/-! ### A call between two frames -/

/-- What a call's log and its entries in the maps of `ResponseStreams` say of each other. -/
structure Standing (c : CallLog) (active : Option ActiveResponse) (buried : Prop) : Prop where
  fed : c.body ≠ none
  answered : c.ended = true → 0 < c.replies ∨ c.givenUp = true
  silenced : buried → 0 < c.replies ∨ c.givenUp = true
  /-- Before its start. -/
  pending : c.assignment = none → active = none ∧ c.released = false ∧ c.body = some .unopened ∧
    (0 < c.replies → c.ended = true)
  streaming : ∀ r, active = some r → ¬buried ∧ c.assignment = some r.assignment ∧
    c.released = false ∧ c.body = some (.feeding r.bytes) ∧ (0 < c.replies → c.ended = true)
  /-- After its stream. -/
  done : active = none → c.assignment ≠ none → 0 < c.replies ∨ c.givenUp = true

namespace Standing

variable {c : CallLog} {active : Option ActiveResponse} {buried buried' : Prop}

theorem new : Standing .new none False := by
  constructor <;> simp [CallLog.new]

theorem forget (h : Standing c active buried) (hsub : buried' → buried) :
    Standing c active buried' :=
  ⟨h.fed, h.answered, fun hb => h.silenced (hsub hb), h.pending,
    fun r hr => ⟨fun hb => (h.streaming r hr).1 (hsub hb), (h.streaming r hr).2⟩, h.done⟩

theorem ignore (h : Standing c active buried) (hc : c.assignment = none) (hb : buried)
    (assignment : RendererAssignmentId) :
    Standing { c with assignment := some assignment } none buried := by
  obtain ⟨rfl, -, -, -⟩ := h.pending hc
  exact ⟨h.fed, h.answered, h.silenced, nofun, nofun, fun _ _ => h.silenced hb⟩

theorem opened (h : Standing c active buried) (hc : c.assignment = none) (hb : ¬buried)
    (assignment : RendererAssignmentId) (frame : FrameId) :
    Standing { c with assignment := some assignment, body := some (.feeding 0) }
      (some ⟨assignment, frame, 0⟩) buried := by
  obtain ⟨rfl, hrel, -, hrep⟩ := h.pending hc
  refine ⟨nofun, h.answered, h.silenced, nofun, ?_, nofun⟩
  rintro r ⟨⟩
  exact ⟨hb, rfl, hrel, rfl, hrep⟩

theorem wrote {r : ActiveResponse} (h : Standing c (some r) buried) (bytes : Nat) :
    Standing { c with body := some (.feeding bytes) } (some { r with bytes := bytes }) buried := by
  obtain ⟨hb, hc, hrel, -, hrep⟩ := h.streaming r rfl
  refine ⟨nofun, h.answered, h.silenced, ?_, ?_, nofun⟩
  · intro hnone
    exact nomatch hc.symm.trans hnone
  · rintro _ ⟨⟩
    exact ⟨hb, hc, hrel, rfl, hrep⟩

/-- A call with a reply, or one that was given up, whose stream is gone. -/
theorem closed (hfed : c.body ≠ none) (hc : c.assignment = none → c.released = false ∧
    c.body = some .unopened ∧ (0 < c.replies → c.ended = true))
    (hsettled : 0 < c.replies ∨ c.givenUp = true) : Standing c none buried :=
  ⟨hfed, fun _ => hsettled, fun _ => hsettled, fun hnone => ⟨rfl, hc hnone⟩, nofun,
    fun _ _ => hsettled⟩

theorem released (h : Standing c none buried) (hc : c.assignment ≠ none) :
    Standing { c with released := true } none buried :=
  closed h.fed (fun hnone => absurd hnone hc) (.inr (Bool.or_true _))

theorem endSilently (h : Standing c active buried) (hb : buried) :
    Standing { c with ended := true } active buried :=
  ⟨h.fed, fun _ => h.silenced hb, h.silenced, fun hc => ⟨(h.pending hc).1, (h.pending hc).2.1,
    (h.pending hc).2.2.1, fun _ => rfl⟩,
    fun r hr => absurd hb (h.streaming r hr).1, h.done⟩

/-! ### Where a reply is the first one -/

theorem answerable_iff (h : Standing c active buried) (hrel : c.released = false)
    (hrep : 0 < c.replies → c.ended = true) :
    c.Answerable ↔ c.ended = false ∧ c.cancelled = false := by
  have hanswered := h.answered
  unfold CallLog.Answerable
  rw [CallLog.givenUp, hrel, Bool.or_false] at hanswered ⊢
  constructor
  · rintro ⟨hzero, hcancel⟩
    refine ⟨?_, hcancel⟩
    by_contra hended
    rcases hanswered (by simpa using hended) with hpos | hcancelled
    · omega
    · exact absurd hcancelled (by simp [hcancel])
  · rintro ⟨hended, hcancel⟩
    refine ⟨?_, hcancel⟩
    by_contra hpos
    exact absurd (hrep (by omega)) (by simp [hended])

/-- The end of an upload is its first reply where its stream is still open, or did not start. -/
theorem answerable_end_iff (h : Standing c active buried) (hended : c.ended = false) :
    c.Answerable ↔ c.cancelled = false ∧ (c.assignment = none ∨ active ≠ none) := by
  rcases hactive : active with _ | r
  · by_cases hc : c.assignment = none
    · obtain ⟨-, hrel, -, hrep⟩ := h.pending hc
      rw [h.answerable_iff hrel hrep]
      simp [hended, hc]
    · have hdone := h.done hactive hc
      simp only [CallLog.Answerable, hc, ne_eq, not_true, or_self, and_false, iff_false]
      rintro ⟨hzero, hgiven⟩
      rcases hdone with hpos | hgone
      · omega
      · exact absurd hgone (by simp [hgiven])
  · obtain ⟨-, -, hrel, -, hrep⟩ := h.streaming r hactive
    rw [h.answerable_iff hrel hrep]
    simp [hended]

end Standing

end TinyBrowser.Child
