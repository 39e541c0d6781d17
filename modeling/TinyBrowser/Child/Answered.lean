import TinyBrowser.Child.Outcomes

/-!
# A streamed response is answered once

Each frame of the browser is a move of one call, and a release is one of every call of its
assignment. A reply is the only one of its call, and in time, exactly where the frame that led to it
is `Clear`: where a call that cannot be started or fed was neither cancelled nor ended before, and
where the end of an upload without a tombstone finds its stream. The stream of a call that failed to
open is missing there, and so is one whose tombstone 256 later ones pushed out.
-/

namespace TinyBrowser.Child
open Lib
open Exchange (RequestId Frame)

variable {w : Around} {s s' : Session} {id : RequestId}

/-! ### One call moves -/

/-- The invariant of every run. -/
structure Steady (s : Session) : Prop where
  standing : ∀ id, Standing (s.log id) (s.responses.active.get? id) (id ∈ s.responses.cancelled)
  tombstones : Tombstones s.responses
  assigned : ∀ id r, s.responses.active.get? id = some r → r.assignment ∈ s.engines

/-- Every reply was the only one of its call, and in time. -/
structure InTime (s : Session) : Prop where
  once : ∀ id, (s.log id).replies ≤ 1
  quiet : ∀ id, (s.log id).lateReplies = 0

/-- A frame moves one call, with a reply where `replies` holds. -/
structure Moved (id : RequestId) (s s' : Session) (replies : Prop) : Prop where
  touches : Touches id s s'
  standing : Standing (s'.log id) (s'.responses.active.get? id) (id ∈ s'.responses.cancelled)
  assigned : ∀ r, s'.responses.active.get? id = some r → r.assignment ∈ s.engines
  replied : replies → (s'.log id).replies = (s.log id).replies + 1 ∧
    (s'.log id).lateReplies = (s.log id).lateReplies + (s.log id).givenUp.toNat
  silent : ¬replies → (s'.log id).replies = (s.log id).replies ∧
    (s'.log id).lateReplies = (s.log id).lateReplies

theorem Moved.steady {replies : Prop} (h : Moved id s s' replies) (hk : Steady s) : Steady s' := by
  refine ⟨fun i => ?_, h.touches.tombstones hk.tombstones, fun i r hr => ?_⟩ <;>
    rcases eq_or_ne i id with rfl | hi
  · exact h.standing
  · rw [h.touches.log i hi, h.touches.active i hi]
    exact (hk.standing i).forget (h.touches.buried i hi)
  · rw [h.touches.engines]
    exact h.assigned r hr
  · rw [h.touches.engines]
    rw [h.touches.active i hi] at hr
    exact hk.assigned i r hr

theorem Moved.inTime {replies : Prop} (h : Moved id s s' replies) (ht : InTime s)
    (hans : replies → (s.log id).Answerable) : InTime s' := by
  have hreplies : (s'.log id).replies ≤ 1 ∧ (s'.log id).lateReplies = 0 := by
    by_cases hrep : replies
    · obtain ⟨hzero, hgiven⟩ := hans hrep
      obtain ⟨h1, h2⟩ := h.replied hrep
      rw [h1, h2, hzero, hgiven, ht.quiet]
      exact ⟨le_rfl, rfl⟩
    · obtain ⟨h1, h2⟩ := h.silent hrep
      rw [h1, h2]
      exact ⟨ht.once id, ht.quiet id⟩
  constructor <;> intro i <;> rcases eq_or_ne i id with rfl | hi
  · exact hreplies.1
  · rw [h.touches.log i hi]
    exact ht.once i
  · exact hreplies.2
  · rw [h.touches.log i hi]
    exact ht.quiet i

theorem Moved.answerable {replies : Prop} (h : Moved id s s' replies)
    (hsound : StreamsSound s') (hr : replies) : (s.log id).Answerable := by
  obtain ⟨h1, h2⟩ := h.replied hr
  have honce := (hsound.calls id).once
  have hquiet := (hsound.calls id).quiet
  rw [h1] at honce
  rw [h2] at hquiet
  refine ⟨by omega, ?_⟩
  cases hgiven : (s.log id).givenUp with
  | false => rfl
  | true =>
    rw [hgiven, Bool.toNat_true] at hquiet
    omega

theorem Steady.sound (hk : Steady s) (ht : InTime s) : StreamsSound s := by
  refine ⟨fun i => ⟨ht.once i, ht.quiet i, fun hended hgiven => ?_, (hk.standing i).fed⟩,
    hk.tombstones⟩
  rcases (hk.standing i).answered hended with hpos | hgone
  · have := ht.once i
    omega
  · rw [hgiven] at hgone
    cases hgone

theorem step_eq_some {frame : ToRenderer} (h : step s ⟨frame, w⟩ = some s') :
    s.admits frame = true ∧ (s.record (.heard frame)).handleHost w frame = (true, s') := by
  unfold step at h
  split_ifs at h with hadmits
  refine ⟨hadmits, ?_⟩
  split at h
  · next hhandle =>
    rw [hhandle, Option.some.inj h]
  · cases h

theorem moved_call {response : ResponseStart} (hk : Steady s)
    (h : step s ⟨.call id (.response response), w⟩ = some s') :
    (s.log id).assignment = none ∧ Moved id s s' (response.assignment ∉ s.engines ∨
      id ∉ s.responses.cancelled ∧ w.hosts response.assignment response.frame = false) := by
  obtain ⟨hadmits, h⟩ := step_eq_some h
  have hnew : (s.log id).assignment = none := by
    rw [(s.log_fresh id).1]
    exact Bool.not_eq_true' _ ▸ hadmits
  obtain ⟨hactive, hrel, hbody, hrep⟩ := (hk.standing id).pending hnew
  have hheard : Touches id s (s.record (.heard (.call id (.response response)))) :=
    Touches.heard fun i hi c => if_neg hi.symm
  have hlog : (s.record (.heard (.call id (.response response)))).log id =
      { s.log id with assignment := some response.assignment } := by
    rw [Session.log_record]
    exact if_pos rfl
  refine ⟨hnew, ?_⟩
  cases called_of_handleHost (s := s.record _) hactive h with
  | ignored hengine hburied =>
    refine ⟨hheard, ?_, by simp [hactive], ?_, ?_⟩
    · rw [hlog, Session.responses_record, hactive]
      exact (hk.standing id).ignore hnew hburied response.assignment
    · rintro (hnone | ⟨hnot, -⟩)
      · exact absurd hengine hnone
      · exact absurd hburied hnot
    · intro _
      rw [hlog]
      exact ⟨rfl, rfl⟩
  | opened hengine hburied hhosts =>
    have hstand := (hk.standing id).opened hnew hburied response.assignment response.frame
    refine ⟨(hheard.body response.opened _ _).setActive _, ?_, ?_, ?_, ?_⟩
    · simpa [hlog, BodyPhase.next, hbody, ResponseStart.opened] using hstand
    · rintro r hr
      simp only [Session.active_setActive, Dict.get?_insert, if_true, Option.some.injEq] at hr
      exact hr ▸ hengine
    · rintro (hnone | ⟨-, hgone⟩)
      · exact absurd hengine hnone
      · exact absurd hhosts (by simp [hgone])
    · simp [hlog]
  | refused hburied hhosts result =>
    refine ⟨(hheard.body response.opened _ _).sent _ _, ?_, by simp [hactive], ?_, ?_⟩
    · rw [Session.log_record, Session.log_record, hlog]
      simp only [Session.responses_record, CallLog.next_body, CallLog.next_sent, hactive, hbody]
      exact .closed (by rintro ⟨⟩) (by rintro ⟨⟩) (.inl (Nat.succ_pos _))
    · intro _
      rw [Session.log_record, Session.log_record, hlog]
      simp [CallLog.givenUp]
    · exact fun hnot => absurd (.inr ⟨hburied, hhosts⟩) hnot
  | missing hengine result =>
    refine ⟨hheard.tombstone.sent _ _, ?_, by simp [hactive], ?_, ?_⟩
    · rw [Session.log_record, Session.log_tombstone, hlog]
      simp only [Session.responses_record, Session.active_tombstone, CallLog.next_sent, hactive]
      exact .closed (hk.standing id).fed (by rintro ⟨⟩) (.inl (Nat.succ_pos _))
    · intro _
      rw [Session.log_record, Session.log_tombstone, hlog]
      simp [CallLog.givenUp]
    · exact fun hnot => absurd (.inl hengine) hnot

theorem moved_chunk {bytes : Exchange.Bytes} (hk : Steady s)
    (h : step s ⟨.requestChunk id bytes, w⟩ = some s') :
    Moved id s s' (∃ r, s.responses.active.get? id = some r ∧
      (maxResponseBodyBytes < r.bytes + bytes.length ∨ w.hosts r.assignment r.frame = false)) := by
  obtain ⟨-, h⟩ := step_eq_some h
  have hheard : Touches id s (s.record (.heard (.requestChunk id bytes))) :=
    Touches.heard fun _ _ _ => rfl
  have hlog : (s.record (.heard (.requestChunk id bytes))).log id = s.log id := Session.log_record ..
  have hopen : ∀ r, s.responses.active.get? id = some r →
      id ∉ s.responses.cancelled ∧ r.assignment ∈ s.engines := fun r hr =>
    ⟨((hk.standing id).streaming r hr).1, hk.assigned id r hr⟩
  cases pushed_of_handleHost (s := s.record _) hopen h with
  | ignored hactive =>
    rw [Session.responses_record] at hactive
    refine ⟨hheard, ?_, hk.assigned id, ?_, ?_⟩
    · rw [hlog]
      exact hk.standing id
    · rintro ⟨r, hr, -⟩
      cases hactive.symm.trans hr
    · intro _
      rw [hlog]
      exact ⟨rfl, rfl⟩
  | @wrote r hactive hfits hhosts =>
    rw [Session.responses_record] at hactive
    obtain ⟨-, -, -, hbody, -⟩ := (hk.standing id).streaming r hactive
    have hstand : Standing (s.log id) (some r) (id ∈ s.responses.cancelled) :=
      hactive ▸ hk.standing id
    refine ⟨(hheard.setActive _).body _ _ _, ?_, ?_, ?_, ?_⟩
    · rw [Session.log_record, Session.log_setActive, hlog, CallLog.next_body, hbody]
      simp only [Option.bind_some, BodyPhase.next, if_pos hfits, Session.responses_record,
        Session.active_setActive, Session.cancelled_setActive, Dict.get?_insert, if_true]
      exact hstand.wrote (r.bytes + bytes.length)
    · intro r' hr'
      simp only [Session.responses_record, Session.active_setActive, Dict.get?_insert, if_true,
        Option.some.injEq] at hr'
      exact hr' ▸ (hopen r hactive).2
    · rintro ⟨r', hr', hfails⟩
      obtain rfl := Option.some.inj (hactive.symm.trans hr')
      rcases hfails with hover | hgone
      · exact absurd hover (not_lt.2 hfits)
      · exact absurd hhosts (by simp [hgone])
    · intro _
      rw [Session.log_record, Session.log_setActive, hlog]
      exact ⟨by rw [CallLog.next_body], by rw [CallLog.next_body]⟩
  | @overflowed r hactive hfits r' taken result =>
    rw [Session.responses_record] at hactive
    obtain ⟨-, hc, -, hbody, -⟩ := (hk.standing id).streaming r hactive
    refine ⟨((hheard.setActive _).bury.body _ _ _).sent _ _, ?_, by simp, ?_, ?_⟩
    · rw [Session.log_record, Session.log_record, Session.log_bury, Session.log_setActive, hlog,
        CallLog.next_body, hbody]
      simp only [CallLog.next_sent, Session.responses_record, Session.active_bury, Dict.get?_erase,
        if_true]
      exact .closed (by rintro ⟨⟩) (fun hnone => by cases hc.symm.trans hnone) (.inl (Nat.succ_pos _))
    · intro _
      rw [Session.log_record, Session.log_record, Session.log_bury, Session.log_setActive, hlog]
      simp [CallLog.givenUp]
    · exact fun hnot => absurd ⟨r, hactive, .inl hfits⟩ hnot
  | @failed r hactive hfits hhosts result =>
    rw [Session.responses_record] at hactive
    obtain ⟨-, hc, -, hbody, -⟩ := (hk.standing id).streaming r hactive
    refine ⟨(((hheard.setActive _).body _ _ _).bury.body _ _ _).sent _ _, ?_, by simp, ?_, ?_⟩
    · rw [Session.log_record, Session.log_record, Session.log_bury, Session.log_record,
        Session.log_setActive, hlog, CallLog.next_body, CallLog.next_body, hbody]
      simp only [Option.bind_some, BodyPhase.next, if_pos hfits, CallLog.next_sent,
        Session.responses_record, Session.active_bury, Dict.get?_erase, if_true]
      exact .closed (by rintro ⟨⟩) (fun hnone => by cases hc.symm.trans hnone) (.inl (Nat.succ_pos _))
    · intro _
      rw [Session.log_record, Session.log_record, Session.log_bury, Session.log_record,
        Session.log_setActive, hlog]
      simp [CallLog.givenUp]
    · exact fun hnot => absurd ⟨r, hactive, .inr hhosts⟩ hnot

theorem moved_end {error : Option Text} (hk : Steady s)
    (h : step s ⟨.requestEnd id error, w⟩ = some s') :
    (s.log id).ended = false ∧ Moved id s s' (id ∉ s.responses.cancelled) := by
  obtain ⟨hadmits, h⟩ := step_eq_some h
  have hopen : (s.log id).ended = false := by
    rw [(s.log_fresh id).2]
    exact Bool.not_eq_true' _ ▸ hadmits
  have hheard : Touches id s (s.record (.heard (.requestEnd id error))) :=
    Touches.heard fun i hi c => if_neg hi.symm
  have hlog : (s.record (.heard (.requestEnd id error))).log id = { s.log id with ended := true } := by
    rw [Session.log_record]
    exact if_pos rfl
  refine ⟨hopen, ?_⟩
  cases ended_of_handleHost (s := s.record _) (fun r hr => hk.assigned id r hr) h with
  | silenced hburied =>
    refine ⟨hheard, ?_, hk.assigned id, fun hnot => absurd hburied hnot, fun _ => ?_⟩
    · rw [hlog]
      exact (hk.standing id).endSilently hburied
    · rw [hlog]
      exact ⟨rfl, rfl⟩
  | unstarted hburied hactive assignment result =>
    rw [Session.responses_record] at hactive
    refine ⟨hheard.sent _ _, ?_, hk.assigned id, fun _ => ?_, fun hnot => absurd hburied hnot⟩
    · rw [Session.log_record, hlog, CallLog.next_sent, Session.responses_record,
        Session.responses_record, hactive]
      refine .closed (hk.standing id).fed (fun hnone => ?_) (.inl (Nat.succ_pos _))
      obtain ⟨-, hrel, hbody, -⟩ := (hk.standing id).pending hnone
      exact ⟨hrel, hbody, fun _ => rfl⟩
    · rw [Session.log_record, hlog, CallLog.next_sent]
      exact ⟨rfl, rfl⟩
  | @closed r hburied hactive op hop taken result =>
    rw [Session.responses_record] at hactive
    obtain ⟨-, hc, -, hbody, -⟩ := (hk.standing id).streaming r hactive
    refine ⟨(hheard.removeActive.body _ _ _).sent _ _, ?_, by simp, fun _ => ?_,
      fun hnot => absurd hburied hnot⟩
    · rw [Session.log_record, Session.log_record, Session.log_removeActive, hlog, CallLog.next_body,
        hbody]
      simp only [CallLog.next_sent, Session.responses_record, Session.active_removeActive,
        Dict.get?_erase, if_true]
      refine .closed ?_ (fun hnone => nomatch hc.symm.trans hnone) (.inl (Nat.succ_pos _))
      rcases hop with rfl | rfl <;> exact nofun
    · rw [Session.log_record, Session.log_record, Session.log_removeActive, hlog]
      simp [CallLog.givenUp]

theorem moved_cancel (hk : Steady s) (h : step s ⟨.cancel id, w⟩ = some s') : Moved id s s' False := by
  obtain ⟨-, h⟩ := step_eq_some h
  have hheard : Touches id s (s.record (.heard (.cancel id))) :=
    Touches.heard fun i hi c => if_neg hi.symm
  have hlog : (s.record (.heard (.cancel id))).log id = { s.log id with cancelled := true } := by
    rw [Session.log_record]
    exact if_pos rfl
  obtain rfl : (s.record (.heard (.cancel id))).cancel w id = s' := congrArg Prod.snd h
  have hopen : ∀ r, (s.record (.heard (.cancel id))).responses.active.get? id = some r →
      r.assignment ∈ (s.record (.heard (.cancel id))).engines := fun r hr => hk.assigned id r hr
  rcases cancel_eq (w := w) hopen with ⟨hactive, heq⟩ | ⟨r, taken, hactive, heq⟩
  · rw [Session.responses_record] at hactive
    rw [heq]
    refine ⟨hheard.tombstone, ?_, by simp [hactive], False.elim, fun _ => ?_⟩
    · rw [Session.log_tombstone, hlog, Session.active_tombstone, Session.responses_record, hactive]
      refine .closed (hk.standing id).fed (fun hnone => ?_) (.inr rfl)
      obtain ⟨-, hrel, hbody, hrep⟩ := (hk.standing id).pending hnone
      exact ⟨hrel, hbody, hrep⟩
    · rw [Session.log_tombstone, hlog]
      exact ⟨rfl, rfl⟩
  · rw [Session.responses_record] at hactive
    obtain ⟨-, hc, -, hbody, -⟩ := (hk.standing id).streaming r hactive
    rw [heq]
    refine ⟨hheard.bury.body _ _ _, ?_, by simp, False.elim, fun _ => ?_⟩
    · rw [Session.log_record, Session.log_bury, hlog, CallLog.next_body, hbody]
      simp only [Session.responses_record, Session.active_bury, Dict.get?_erase, if_true]
      exact .closed nofun (fun hnone => nomatch hc.symm.trans hnone) (.inr rfl)
    · rw [Session.log_record, Session.log_bury, hlog, CallLog.next_body]
      exact ⟨rfl, rfl⟩

/-! ### Assignments -/

/-- No reply is sent. -/
def SameReplies (s s' : Session) : Prop :=
  ∀ id, (s'.log id).replies = (s.log id).replies ∧ (s'.log id).lateReplies = (s.log id).lateReplies

theorem InTime.of_same (ht : InTime s) (h : SameReplies s s') : InTime s' :=
  ⟨fun id => (h id).1 ▸ ht.once id, fun id => (h id).2 ▸ ht.quiet id⟩

theorem steady_assign {assignment : RendererAssignmentId} (hk : Steady s)
    (h : step s ⟨.notify (.assign assignment), w⟩ = some s') : Steady s' ∧ SameReplies s s' := by
  obtain ⟨-, h⟩ := step_eq_some h
  rw [Session.handleHost] at h
  split_ifs at h
  · cases h
  · obtain rfl : _ = s' := congrArg Prod.snd h
    have hlog (i : RequestId) : (s.record (.heard (.notify (.assign assignment)))).log i = s.log i :=
      Session.log_record ..
    refine ⟨⟨fun i => hlog i ▸ hk.standing i, hk.tombstones,
      fun i r hr => Finset.mem_insert_of_mem (hk.assigned i r hr)⟩, fun i => ?_⟩
    exact ⟨congrArg _ (hlog i), congrArg _ (hlog i)⟩

theorem steady_release {assignment : RendererAssignmentId} (hk : Steady s)
    (h : step s ⟨.notify (.release assignment), w⟩ = some s') : Steady s' ∧ SameReplies s s' := by
  obtain ⟨-, h⟩ := step_eq_some h
  obtain rfl : _ = s' := congrArg Prod.snd h
  set heard := s.record (.heard (.notify (.release assignment))) with hheard
  set stale := (w.iter s.responses.active.pairs).filter fun x => x.2.assignment = assignment
    with hstale
  have hmem (i : RequestId) : i ∈ stale.map Prod.fst ↔
      ∃ r, s.responses.active.get? i = some r ∧ r.assignment = assignment := by
    simp only [hstale, List.mem_map, List.mem_filter, (w.iter_perm _).mem_iff, decide_eq_true_eq,
      Prod.exists, exists_and_right, exists_eq_right, Dict.get?_eq_some_iff]
  have hswept : Swept (stale.map Prod.fst) heard (heard.release w assignment) := by
    refine swept_releaseStale stale heard ?_ fun x hx => ?_
    · have hperm := (w.iter_perm s.responses.active.pairs).map Prod.fst
      exact (hperm.nodup_iff.2 s.responses.active.nodup).sublist (List.filter_sublist.map _)
    · have hx := (w.iter_perm _).mem_iff.1 (List.mem_of_mem_filter hx)
      exact hk.assigned x.1 x.2 ((Dict.get?_eq_some_iff ..).2 hx)
  have hlog (i : RequestId) : heard.log i =
      if (s.log i).assignment = some assignment then { s.log i with released := true }
      else s.log i := Session.log_record ..
  refine ⟨⟨fun i => ?_, hswept.tombstones hk.tombstones, fun i r hr => ?_⟩, fun i => ?_⟩
  · by_cases hi : i ∈ stale.map Prod.fst
    · obtain ⟨hnone, habort⟩ := hswept.taken i hi
      obtain ⟨r, hr, hr'⟩ := (hmem i).1 hi
      obtain ⟨-, hc, -, hbody, -⟩ := (hk.standing i).streaming r hr
      rw [hr'] at hc
      have hlog' : (heard.release w assignment).log i =
          { s.log i with released := true, body := some .closed } := by
        rw [habort, hlog, if_pos hc, CallLog.abort, hbody]
        rfl
      show Standing ((heard.release w assignment).log i)
        ((heard.release w assignment).responses.active.get? i) _
      rw [hlog', hnone]
      exact .closed (by rintro ⟨⟩) (fun hnone => by cases hc.symm.trans hnone) (.inr (Bool.or_true _))
    · obtain ⟨hactive, hsame, hburied⟩ := hswept.kept i hi
      show Standing ((heard.release w assignment).log i)
        ((heard.release w assignment).responses.active.get? i) _
      rw [hsame, hactive, hlog]
      refine Standing.forget ?_ hburied
      split_ifs with hc
      · cases hopen : s.responses.active.get? i with
        | none =>
          have hstand := hk.standing i
          rw [hopen] at hstand
          rw [show heard.responses.active.get? i = none from hopen]
          exact hstand.released (by simp [hc])
        | some r =>
          obtain ⟨-, hc', -⟩ := (hk.standing i).streaming r hopen
          exact absurd ((hmem i).2 ⟨r, hopen, Option.some.inj (hc'.symm.trans hc)⟩) hi
      · exact hk.standing i
  · have hi : i ∉ stale.map Prod.fst := fun hi => by cases (hswept.taken i hi).1.symm.trans hr
    have hopen : s.responses.active.get? i = some r := (hswept.kept i hi).1.symm.trans hr
    refine Finset.mem_erase.2 ⟨fun heq => hi ((hmem i).2 ⟨r, hopen, heq⟩), ?_⟩
    rw [hswept.engines]
    exact hk.assigned i r hopen
  · have hheard : (heard.log i).replies = (s.log i).replies ∧
        (heard.log i).lateReplies = (s.log i).lateReplies := by
      rw [hlog]
      split_ifs <;> exact ⟨rfl, rfl⟩
    show ((heard.release w assignment).log i).replies = _ ∧
      ((heard.release w assignment).log i).lateReplies = _
    by_cases hi : i ∈ stale.map Prod.fst
    · rw [(hswept.taken i hi).2]
      exact hheard
    · rw [(hswept.kept i hi).2.1]
      exact hheard

/-! ### Whole runs -/

theorem steady_new : Steady .new :=
  ⟨fun _ => by simpa [Session.log, Session.new, ResponseStreams.new] using Standing.new, .new, nofun⟩

theorem steady_step (hk : Steady s) {turn : Turn} (h : step s turn = some s') : Steady s' :=
  match turn with
  | ⟨.call _ (.response _), _⟩ => (moved_call hk h).2.steady hk
  | ⟨.requestChunk _ _, _⟩ => (moved_chunk hk h).steady hk
  | ⟨.requestEnd _ _, _⟩ => (moved_end hk h).2.steady hk
  | ⟨.cancel _, _⟩ => (moved_cancel hk h).steady hk
  | ⟨.notify (.assign _), _⟩ => (steady_assign hk h).1
  | ⟨.notify (.release _), _⟩ => (steady_release hk h).1
  | ⟨.notify .shutdown, _⟩ | ⟨.reply .., _⟩ | ⟨.responseChunk .., _⟩ => nomatch (step_eq_some h).2

/-- Neither the end of the call's upload nor its cancel was handled yet. -/
def Session.Untouched (s : Session) (id : RequestId) : Prop :=
  (s.log id).ended = false ∧ (s.log id).cancelled = false

/-- A start or a chunk that fails is not of a call that was ended or cancelled before, and the end
of an upload that no tombstone silences is not of a call that was cancelled before, or whose stream
was closed after its start. -/
def Clear (s : Session) : Turn → Prop
  | ⟨.call id (.response response), w⟩ =>
    response.assignment ∉ s.engines ∨
      id ∉ s.responses.cancelled ∧ w.hosts response.assignment response.frame = false →
    s.Untouched id
  | ⟨.requestChunk id bytes, w⟩ =>
    (∃ r ∈ s.responses.active.get? id, maxResponseBodyBytes < r.bytes + bytes.length ∨
      w.hosts r.assignment r.frame = false) →
    s.Untouched id
  | ⟨.requestEnd id _, _⟩ =>
    id ∉ s.responses.cancelled → (s.log id).cancelled = false ∧
      ((s.log id).assignment = none ∨ s.responses.active.get? id ≠ none)
  | _ => True

instance (s : Session) (id : RequestId) : Decidable (s.Untouched id) :=
  inferInstanceAs (Decidable (_ ∧ _))

instance (s : Session) : (turn : Turn) → Decidable (Clear s turn)
  | ⟨.call _ (.response _), _⟩ => inferInstanceAs (Decidable (_ → _))
  | ⟨.requestChunk _ _, _⟩ => inferInstanceAs (Decidable (_ → _))
  | ⟨.requestEnd _ _, _⟩ => inferInstanceAs (Decidable (_ → _))
  | ⟨.cancel _, _⟩ | ⟨.notify _, _⟩ | ⟨.reply .., _⟩ | ⟨.responseChunk .., _⟩ =>
    inferInstanceAs (Decidable True)

/-- A frame is clear where its reply is the first one and in time. -/
theorem clear_iff {turn : Turn} (hk : Steady s) (ht : InTime s) (h : step s turn = some s') :
    (Clear s turn → InTime s') ∧ (StreamsSound s' → Clear s turn) := by
  match turn with
  | ⟨.call id (.response response), w⟩ =>
    obtain ⟨hnew, hm⟩ := moved_call hk h
    obtain ⟨-, hrel, -, hrep⟩ := (hk.standing id).pending hnew
    have hiff := (hk.standing id).answerable_iff hrel hrep
    exact ⟨fun hc => hm.inTime ht fun hr => hiff.2 (hc hr),
      fun hs hr => hiff.1 (hm.answerable hs hr)⟩
  | ⟨.requestChunk id bytes, w⟩ =>
    have hm := moved_chunk hk h
    have hiff (r : ActiveResponse) (hr : s.responses.active.get? id = some r) :
        (s.log id).Answerable ↔ s.Untouched id :=
      let ⟨_, _, hrel, _, hrep⟩ := (hk.standing id).streaming r hr
      (hk.standing id).answerable_iff hrel hrep
    constructor
    · exact fun hc => hm.inTime ht fun hr => (hiff _ hr.choose_spec.1).2 (hc hr)
    · exact fun hs hr => (hiff _ hr.choose_spec.1).1 (hm.answerable hs hr)
  | ⟨.requestEnd id error, w⟩ =>
    obtain ⟨hopen, hm⟩ := moved_end hk h
    have hiff := (hk.standing id).answerable_end_iff hopen
    exact ⟨fun hc => hm.inTime ht fun hr => hiff.2 (hc hr),
      fun hs hr => hiff.1 (hm.answerable hs hr)⟩
  | ⟨.cancel id, w⟩ => exact ⟨fun _ => (moved_cancel hk h).inTime ht False.elim, fun _ => trivial⟩
  | ⟨.notify (.assign _), w⟩ => exact ⟨fun _ => ht.of_same (steady_assign hk h).2, fun _ => trivial⟩
  | ⟨.notify (.release _), w⟩ => exact ⟨fun _ => ht.of_same (steady_release hk h).2, fun _ => trivial⟩
  | ⟨.notify .shutdown, w⟩ | ⟨.reply .., w⟩ | ⟨.responseChunk .., w⟩ => cases (step_eq_some h).2

/-- A streamed response is answered once in all states of a run exactly where every frame of the
run is clear. -/
theorem streamsSound_iff (turns : List Turn) (s : Session)
    (h : Machine.run step Session.new turns = some s) :
    Machine.Throughout step StreamsSound Session.new turns ↔
      Machine.Along step Clear Session.new turns := by
  apply Machine.throughout_iff_along_of_run (I := fun s => Steady s ∧ InTime s) _ _ _ _ h
  · exact fun s hk => hk.1.sound hk.2
  · exact fun s turn s' hk hc hstep =>
      ⟨steady_step hk.1 hstep, (clear_iff hk.1 hk.2 hstep).1 hc⟩
  · exact fun s turn s' hk hstep hs => (clear_iff hk.1 hk.2 hstep).2 hs
  · exact ⟨steady_new, fun _ => Nat.zero_le _, fun _ => rfl⟩

/-- Engines that host their main frame alone. -/
def Around.mainOnly : Around :=
  ⟨fun _ frame => frame = FrameId.main, fun _ => rfl, true, fun l => l, fun _ => .rfl⟩

def answeredTurns : List Turn :=
  [.notify (.assign 1), .call 7 (.response ⟨1, FrameId.main⟩), .requestChunk 7 [60, 112],
    .requestEnd 7 none].map fun frame => ⟨frame, .mainOnly⟩

theorem streamsSound_iff_answered :
    Machine.Throughout step StreamsSound Session.new answeredTurns :=
  (streamsSound_iff answeredTurns _ rfl).2 (by decide)

/-- A response for a frame that is gone: its start is answered, and so is the end of its upload. -/
def refusedTurns : List Turn :=
  [.notify (.assign 1), .call 7 (.response ⟨1, 5⟩), .requestEnd 7 none].map fun frame =>
    ⟨frame, .mainOnly⟩

theorem not_streamsSound_refused :
    (∃ s, Machine.run step Session.new refusedTurns = some s ∧ (s.log 7).replies = 2) ∧
      ¬Machine.Throughout step StreamsSound Session.new refusedTurns := by
  have hrun : ∃ s, Machine.run step Session.new refusedTurns = some s ∧ (s.log 7).replies = 2 :=
    ⟨_, rfl, rfl⟩
  refine ⟨hrun, fun h => ?_⟩
  obtain ⟨s, hs, htwice⟩ := hrun
  have honce := ((h refusedTurns [] s (by simp) hs).calls 7).once
  omega

end TinyBrowser.Child
