import Mathlib.Data.List.InsertIdx
import TinyBrowser.Exchange.Blocking

/-!
# Every reply sender in its place

The invariant ties the place of a call's sender, or callback, to what the parties hold: an entry of
the table, the hands of a `deliver`, the hands of a `start` that failed. Since a call has one place,
its sender is in one of them, and the log counts its use.
-/

namespace TinyBrowser.Exchange
open Lib

namespace BlockingCall
variable {R : Type}

/-- The callback has been invoked. -/
def invoked (c : BlockingCall R) : Bool :=
  match c.kind, c.place with
  | .callback, .settled _ => true
  | _, _ => false

/-- `call` has returned. -/
def hasReturned (c : BlockingCall R) : Bool := c.kind = .wait ∧ c.phase = .returned

end BlockingCall

namespace BlockingEvent
variable {R : Type}

def isInvoked (token : Token) : BlockingEvent R → Bool
  | invoked t _ => t = token
  | returned .. => false

def isReturned (token : Token) : BlockingEvent R → Bool
  | returned t _ => t = token
  | invoked .. => false

end BlockingEvent

/-- Every reply sender and every callback is in its place, and the log counts what was done. -/
structure BlockingInv {R : Type} (s : BlockingState R) : Prop where
  table : ∀ id w, s.pending.get? id = some w ↔
    ∃ c, s.calls.get? w.token = some c ∧ c.kind = w.kind ∧ c.place = .table id
  delivering : ∀ w, w ∈ s.delivering.map Prod.fst ↔
    ∃ c, s.calls.get? w.token = some c ∧ c.kind = w.kind ∧ c.place = .delivering
  nodup : (s.delivering.map Prod.fst).Nodup
  held : ∀ t w, (∃ c, s.calls.get? t = some c ∧ c.phase = .removed (some w)) ↔
    ∃ c, s.calls.get? w.token = some c ∧ c.kind = w.kind ∧ c.place = .held t
  holds : ∀ t c id, s.calls.get? t = some c → c.place = .table id → c.phase.holds = some id
  begun : ∀ t c, s.calls.get? t = some c → (c.place = .unregistered ↔ c.phase.begun = false)
  invoked : ∀ t, s.log.countP (BlockingEvent.isInvoked t) =
    ((s.calls.get? t).any BlockingCall.invoked).toNat
  returned : ∀ t, s.log.countP (BlockingEvent.isReturned t) =
    ((s.calls.get? t).any BlockingCall.hasReturned).toNat
  completed : s.completed = true → s.closed = true ∧ ∀ t c id, s.calls.get? t = some c →
    c.place = .table id → c.phase.early = true

namespace BlockingInv
variable {R : Type} {s s' : BlockingState R}

theorem new : BlockingInv (BlockingState.new : BlockingState R) := by
  constructor <;> simp [BlockingState.new]

variable {c : BlockingCall R} {token : Token}

theorem get?_setPhase (hc : s.calls.get? token = some c)
    (phase : BlockingPhase) (t : Token) : (s.setPhase token phase).calls.get? t =
      if t = token then some { c with phase } else s.calls.get? t := by
  rw [BlockingState.setPhase, Dict.get?_modify]
  split_ifs with ht
  · rw [ht, hc]
    rfl
  · rfl

theorem get?_setPlace (hc : s.calls.get? token = some c)
    (place : Place R) (t : Token) : (s.setPlace token place).calls.get? t =
      if t = token then some { c with place } else s.calls.get? t := by
  rw [BlockingState.setPlace, Dict.get?_modify]
  split_ifs with ht
  · rw [ht, hc]
    rfl
  · rfl

/-- The calls count the same after the record of one becomes one that counts the same. -/
theorem any_of_changed {q : BlockingCall R → Bool} {calls calls' : Dict Token (BlockingCall R)}
    {c' : BlockingCall R} (hget : ∀ t, calls'.get? t = if t = token then some c' else calls.get? t)
    (hq : (calls.get? token).any q = q c') (t : Token) :
    ((calls.get? t).any q).toNat = ((calls'.get? t).any q).toNat := by
  rw [hget]
  split_ifs with ht
  · rw [ht, hq]
    rfl
  · rfl

theorem move (h : BlockingInv s)
    (hc : s.calls.get? token = some c) {phase : BlockingPhase}
    (hbegun : phase.begun = c.phase.begun) (hholds : phase.holds = c.phase.holds)
    (hremoved : ∀ w, phase ≠ .removed w)
    (hremoved' : ∀ w, c.phase ≠ .removed w) (hreturned : phase ≠ .returned)
    (hreturned' : c.phase ≠ .returned)
    (hearly : s.closed = true → c.phase.early = true → phase.early = true) :
    BlockingInv (s.setPhase token phase) := by
  have hget := get?_setPhase hc phase
  obtain ⟨htable, hdelivering, hnodup, hheld, hhold, hbeg, hinvoked, hret, hcompleted⟩ := h
  refine ⟨fun id w => (htable id w).trans ?_, fun w => (hdelivering w).trans ?_, hnodup,
    fun t w => ?_, fun t c' id hc' hp => ?_, fun t c' hc' => ?_,
    fun t => (hinvoked t).trans ?_, fun t => (hret t).trans ?_, fun hd => ?_⟩
  · rw [hget]
    grind
  · rw [hget]
    grind
  · rw [hget, hget]
    have hold := hheld t w
    grind
  · rw [hget] at hc'
    have hold := hhold t
    grind [BlockingPhase.holds]
  · rw [hget] at hc'
    have hold := hbeg t
    grind
  · refine any_of_changed hget ?_ t
    rw [hc]
    rfl
  · refine any_of_changed hget ?_ t
    rw [hc]
    simp [BlockingCall.hasReturned, hreturned, hreturned']
  · obtain ⟨hclosed, hall⟩ := hcompleted hd
    refine ⟨hclosed, fun t c' id hc' hp => ?_⟩
    rw [hget] at hc'
    grind

theorem start (h : BlockingInv s) (hnew : s.calls.get? token = none)
    (kind : BlockingKind) :
    BlockingInv { s with calls := s.calls.insert token ⟨kind, .starting, .unregistered⟩ } := by
  have hget : ∀ t, (s.calls.insert token ⟨kind, .starting, .unregistered⟩).get? t =
      if t = token then some ⟨kind, .starting, .unregistered⟩ else s.calls.get? t :=
    fun t => Dict.get?_insert ..
  obtain ⟨htable, hdelivering, hnodup, hheld, hhold, hbeg, hinvoked, hret, hcompleted⟩ := h
  refine ⟨fun id w => (htable id w).trans ?_, fun w => (hdelivering w).trans ?_, hnodup,
    fun t w => ?_, fun t c' id hc' hp => ?_, fun t c' hc' => ?_,
    fun t => (hinvoked t).trans ?_, fun t => (hret t).trans ?_, fun hd => ?_⟩
  · rw [hget]
    grind
  · rw [hget]
    grind
  · rw [hget, hget]
    have hold := hheld t w
    grind
  · rw [hget] at hc'
    have hold := hhold t
    grind [BlockingPhase.holds]
  · rw [hget] at hc'
    have hold := hbeg t
    grind [BlockingPhase.begun]
  · refine any_of_changed hget ?_ t
    rw [hnew]
    cases kind <;> rfl
  · refine any_of_changed hget ?_ t
    rw [hnew]
    cases kind <;> rfl
  · obtain ⟨hclosed, hall⟩ := hcompleted hd
    refine ⟨hclosed, fun t c' id hc' hp => ?_⟩
    rw [hget] at hc'
    grind

variable {w : BlockingPending} {id : RequestId}

theorem call_of_entry (h : BlockingInv s)
    (he : s.pending.get? id = some w) :
    ∃ c, s.calls.get? w.token = some c ∧ c.kind = w.kind ∧ c.place = .table id := (h.table id w).1 he

/-- The entry under an id is dropped. -/
theorem dropUnder (h : BlockingInv s) (id : RequestId) :
    BlockingInv { s.dropEntry (s.pending.get? id) with pending := s.pending.erase id } := by
  have herase : ∀ id' w, (s.pending.erase id).get? id' = some w ↔
      id' ≠ id ∧ s.pending.get? id' = some w := by
    intro id' w
    rw [Dict.get?_erase]
    split_ifs with hid <;> simp [hid]
  cases he : s.pending.get? id with
  | none =>
    refine ⟨fun id' w => (herase id' w).trans ?_, h.delivering, h.nodup, h.held, h.holds, h.begun, h.invoked,
      h.returned, h.completed⟩
    have hold := h.table id' w
    constructor
    · exact fun hw => hold.1 hw.2
    · intro hw
      refine ⟨?_, hold.2 hw⟩
      rintro rfl
      rw [hold.2 hw] at he
      cases he
  | some old =>
    obtain ⟨c, hc, hkind, hplace⟩ := h.call_of_entry he
    have hget : ∀ t, (s.setPlace old.token .dropped).calls.get? t =
        if t = old.token then some { c with place := .dropped } else s.calls.get? t :=
      get?_setPlace hc .dropped
    obtain ⟨htable, hdelivering, hnodup, hheld, hhold, hbeg, hinvoked, hret, hcompleted⟩ := h
    refine ⟨fun id' w => (herase id' w).trans ?_, fun w => (hdelivering w).trans ?_, hnodup,
      fun t w => ?_, fun t c' id hc' hp => ?_, fun t c' hc' => ?_,
      fun t => (hinvoked t).trans ?_, fun t => (hret t).trans ?_, fun hd => ?_⟩
    · have hold := htable id' w
      simp only [BlockingState.dropEntry, hget]
      grind
    · simp only [BlockingState.dropEntry, hget]
      grind
    · simp only [BlockingState.dropEntry, hget]
      have hold := hheld t w
      grind
    · simp only [BlockingState.dropEntry, hget] at hc'
      have hold := hhold t
      grind [BlockingPhase.holds]
    · simp only [BlockingState.dropEntry, hget] at hc'
      have hold := hbeg t
      grind
    · refine any_of_changed hget ?_ t
      rw [hc]
      simp [BlockingCall.invoked, hplace]
    · refine any_of_changed hget ?_ t
      rw [hc]
      rfl
    · obtain ⟨hclosed, hall⟩ := hcompleted hd
      refine ⟨hclosed, fun t c' id' hc' hp => ?_⟩
      simp only [BlockingState.dropEntry, hget] at hc'
      grind

/-- A call enters the table under a free id. -/
theorem enter (h : BlockingInv s)
    (hc : s.calls.get? token = some c) (hphase : c.phase = .minted id)
    (hfree : s.pending.get? id = none) :
    BlockingInv ((({ s with pending := s.pending.insert id ⟨c.kind, token⟩ } :
      BlockingState R).setPlace token (.table id)).setPhase token (.inserted id)) := by
  have hget : ∀ t, ((({ s with pending := s.pending.insert id ⟨c.kind, token⟩ } :
      BlockingState R).setPlace token (.table id)).setPhase token (.inserted id)).calls.get? t =
        if t = token then some ⟨c.kind, .inserted id, .table id⟩ else s.calls.get? t := by
    intro t
    simp only [BlockingState.setPhase, BlockingState.setPlace, Dict.get?_modify]
    split_ifs with ht
    · rw [ht, hc]
      rfl
    · rfl
  have hunreg : c.place = .unregistered := (h.begun token c hc).2 (by rw [hphase]; rfl)
  obtain ⟨htable, hdelivering, hnodup, hheld, hhold, hbeg, hinvoked, hret, hcompleted⟩ := h
  refine ⟨fun id' w => ?_, fun w => (hdelivering w).trans ?_, hnodup,
    fun t w => ?_, fun t c' id hc' hp => ?_, fun t c' hc' => ?_,
    fun t => (hinvoked t).trans ?_, fun t => (hret t).trans ?_, fun hd => ?_⟩
  · show (s.pending.insert id ⟨c.kind, token⟩).get? id' = some w ↔ _
    rw [Dict.get?_insert, hget]
    have hold := htable id' w
    obtain ⟨kind, t⟩ := w
    grind
  · rw [hget]
    grind
  · rw [hget, hget]
    have hold := hheld t w
    grind
  · rw [hget] at hc'
    have hold := hhold t
    grind [BlockingPhase.holds]
  · rw [hget] at hc'
    have hold := hbeg t
    grind [BlockingPhase.begun]
  · refine any_of_changed hget ?_ t
    rw [hc]
    simp [BlockingCall.invoked, hunreg]
  · refine any_of_changed hget ?_ t
    rw [hc]
    simp [BlockingCall.hasReturned, hphase]
  · obtain ⟨hclosed, hall⟩ := hcompleted hd
    refine ⟨hclosed, fun t c' id' hc' hp => ?_⟩
    rw [hget] at hc'
    grind [BlockingPhase.early]

theorem place_of_failed (h : BlockingInv s)
    (hc : s.calls.get? token = some c) (hphase : c.phase = .failed id)
    (he : ∀ w, s.pending.get? id = some w → w.token ≠ token) (id' : RequestId) :
    c.place ≠ .table id' := by
  intro hplace
  have hid := h.holds token c id' hc hplace
  rw [hphase] at hid
  obtain rfl : id = id' := Option.some.inj hid
  exact he ⟨c.kind, token⟩ ((h.table id ⟨c.kind, token⟩).2 ⟨c, hc, rfl, hplace⟩) rfl

/-- A failed `start` takes out what is under its id. -/
theorem hold (h : BlockingInv s)
    (hc : s.calls.get? token = some c) (hphase : c.phase = .failed id) (he : s.pending.get? id = some w) :
    BlockingInv ((({ s with pending := s.pending.erase id } : BlockingState R).setPlace w.token
      (.held token)).setPhase token (.removed (some w))) := by
  obtain ⟨cw, hcw, hkind, hplace⟩ := h.call_of_entry he
  have hown : w.token ≠ token → ∀ id', c.place ≠ .table id' := fun hne =>
    h.place_of_failed hc hphase fun w' he' => Option.some.inj (he.symm.trans he') ▸ hne
  have hget : ∀ t, ((({ s with pending := s.pending.erase id } : BlockingState R).setPlace w.token
      (.held token)).setPhase token (.removed (some w))).calls.get? t =
        if t = token then some ⟨c.kind, .removed (some w), if w.token = token then .held token else c.place⟩
        else if t = w.token then some { cw with place := .held token } else s.calls.get? t := by
    intro t
    simp only [BlockingState.setPhase, BlockingState.setPlace, Dict.get?_modify]
    split_ifs <;> simp_all
  obtain ⟨htable, hdelivering, hnodup, hheld, hhold, hbeg, hinvoked, hret, hcompleted⟩ := h
  refine ⟨fun id' w' => ?_, fun w => (hdelivering w).trans ?_, hnodup,
    fun t w' => ?_, fun t c' id hc' hp => ?_, fun t c' hc' => ?_, fun t => (hinvoked t).trans ?_,
    fun t => (hret t).trans ?_, fun hd => ?_⟩
  · show (s.pending.erase id).get? id' = some w' ↔ _
    rw [Dict.get?_erase, hget]
    have hold := htable id' w'
    grind
  · rw [hget]
    grind
  · rw [hget, hget]
    have hold := hheld t w'
    grind
  · rw [hget] at hc'
    have hold := hhold t
    grind
  · rw [hget] at hc'
    have hold := hbeg t
    grind [BlockingPhase.begun]
  · rw [hget]
    split_ifs with ht hw htw
    · subst ht
      rw [hc, Option.some.inj (hc.symm.trans (hw ▸ hcw))]
      simp [BlockingCall.invoked, hplace]
    · rw [ht, hc]
      rfl
    · rw [htw, hcw]
      simp [BlockingCall.invoked, hplace]
    · rfl
  · rw [hget]
    split_ifs with ht hw htw
    · rw [ht, hc]
      simp [BlockingCall.hasReturned, hphase]
    · rw [ht, hc]
      simp [BlockingCall.hasReturned, hphase]
    · rw [htw, hcw]
      rfl
    · rfl
  · obtain ⟨hclosed, hall⟩ := hcompleted hd
    refine ⟨hclosed, fun t c' id' hc' hp => ?_⟩
    rw [hget] at hc'
    grind

/-- A failed `start` finds its id empty. -/
theorem holdNothing (h : BlockingInv s)
    (hc : s.calls.get? token = some c) (hphase : c.phase = .failed id)
    (he : s.pending.get? id = none) :
    BlockingInv (({ s with pending := s.pending.erase id } : BlockingState R).setPhase token
      (.removed none)) := by
  have hown := h.place_of_failed hc hphase fun w he' => absurd (he.symm.trans he') (by simp)
  have herase : ∀ id', (s.pending.erase id).get? id' = s.pending.get? id' := by
    intro id'
    rw [Dict.get?_erase]
    split_ifs with hid
    · rw [hid, he]
    · rfl
  have hget : ∀ t, (({ s with pending := s.pending.erase id } : BlockingState R).setPhase token
      (.removed none)).calls.get? t =
        if t = token then some { c with phase := .removed none } else s.calls.get? t :=
    get?_setPhase (s := { s with pending := s.pending.erase id }) hc _
  obtain ⟨htable, hdelivering, hnodup, hheld, hhold, hbeg, hinvoked, hret, hcompleted⟩ := h
  refine ⟨fun id' w' => ?_, fun w => (hdelivering w).trans ?_, hnodup,
    fun t w' => ?_, fun t c' id hc' hp => ?_, fun t c' hc' => ?_, fun t => (hinvoked t).trans ?_,
    fun t => (hret t).trans ?_, fun hd => ?_⟩
  · show (s.pending.erase id).get? id' = some w' ↔ _
    rw [herase, hget, htable]
    grind
  · rw [hget]
    grind
  · rw [hget, hget]
    have hold := hheld t w'
    grind
  · rw [hget] at hc'
    have hold := hhold t
    grind
  · rw [hget] at hc'
    have hold := hbeg t
    grind [BlockingPhase.begun]
  · refine any_of_changed hget ?_ t
    rw [hc]
    rfl
  · refine any_of_changed hget ?_ t
    rw [hc]
    simp [BlockingCall.hasReturned, hphase]
  · obtain ⟨hclosed, hall⟩ := hcompleted hd
    refine ⟨hclosed, fun t c' id' hc' hp => ?_⟩
    rw [hget] at hc'
    grind

/-- The call ends, with nothing of its own in the table or in its hands. -/
theorem finish (h : BlockingInv s)
    (hc : s.calls.get? token = some c) (hplace : ∀ id, c.place ≠ .table id)
    (hremoved : ∀ w, c.phase ≠ .removed (some w)) (hbegun : c.phase.begun = true)
    (hreturned : c.phase ≠ .returned) (result : Except Error R) :
    BlockingInv (s.finish token c.kind result) := by
  have hget : ∀ t, (s.finish token c.kind result).calls.get? t =
      if t = token then some { c with phase := .returned } else s.calls.get? t := by
    intro t
    rw [← get?_setPhase hc .returned t]
    unfold BlockingState.finish
    cases c.kind <;> rfl
  have hrest : (s.finish token c.kind result).pending = s.pending ∧
      (s.finish token c.kind result).delivering = s.delivering ∧
      (s.finish token c.kind result).completed = s.completed ∧
      (s.finish token c.kind result).closed = s.closed := by
    unfold BlockingState.finish
    cases c.kind <;> exact ⟨rfl, rfl, rfl, rfl⟩
  have hlog : ∀ t, (s.finish token c.kind result).log.countP (BlockingEvent.isInvoked t) =
        s.log.countP (BlockingEvent.isInvoked t) ∧
      (s.finish token c.kind result).log.countP (BlockingEvent.isReturned t) =
        s.log.countP (BlockingEvent.isReturned t) +
          (if t = token ∧ c.kind = .wait then 1 else 0) := by
    intro t
    unfold BlockingState.finish
    cases c.kind <;> simp [BlockingState.record, BlockingState.setPhase, List.countP_append,
      List.countP_cons, BlockingEvent.isInvoked, BlockingEvent.isReturned, eq_comm]
  obtain ⟨hpending, hdeliv, hcomp, hclosed⟩ := hrest
  obtain ⟨htable, hdelivering, hnodup, hheld, hhold, hbeg, hinvoked, hret, hcompleted⟩ := h
  refine ⟨fun id' w' => ?_, fun w => ?_, hdeliv ▸ hnodup, fun t w' => ?_,
    fun t c' id hc' hp => ?_, fun t c' hc' => ?_, fun t => ?_, fun t => ?_, fun hd => ?_⟩
  · rw [hpending, hget, htable]
    grind
  · rw [hdeliv, hdelivering, hget]
    grind
  · rw [hget, hget]
    have hold := hheld t w'
    grind
  · rw [hget] at hc'
    have hold := hhold t
    grind
  · rw [hget] at hc'
    have hold := hbeg t
    grind [BlockingPhase.begun]
  · rw [(hlog t).1, hinvoked]
    refine any_of_changed hget ?_ t
    rw [hc]
    rfl
  · rw [(hlog t).2, hret, hget]
    by_cases ht : t = token
    · subst ht
      rw [hc]
      cases hk : c.kind <;> simp [BlockingCall.hasReturned, hk, hreturned]
    · simp [ht]
  · rw [hcomp] at hd
    obtain ⟨hcl, hall⟩ := hcompleted hd
    refine ⟨hclosed ▸ hcl, fun t c' id' hc' hp => ?_⟩
    rw [hget] at hc'
    grind

theorem congr (h : BlockingInv s) (hp : ∀ id, s'.pending.get? id = s.pending.get? id)
    (hc : ∀ t, s'.calls.get? t = s.calls.get? t) (hd : s'.delivering = s.delivering)
    (hl : s'.log = s.log) (hco : s'.completed = true → s.completed = true)
    (hcl : s.closed = true → s'.closed = true) : BlockingInv s' := by
  obtain ⟨htable, hdelivering, hnodup, hheld, hhold, hbeg, hinvoked, hret, hcompleted⟩ := h
  constructor
  · simpa only [hp, hc] using htable
  · simpa only [hd, hc] using hdelivering
  · rwa [hd]
  · simpa only [hc] using hheld
  · simpa only [hc] using hhold
  · simpa only [hc] using hbeg
  · simpa only [hl, hc] using hinvoked
  · simpa only [hl, hc] using hret
  · intro hdone
    obtain ⟨hclosed, hall⟩ := hcompleted (hco hdone)
    refine ⟨hcl hclosed, ?_⟩
    simpa only [hc] using hall

/-- Where `release` leaves a callback, or a sender. -/
def released (R : Type) (w : BlockingPending) : Place R :=
  match w.kind with
  | .callback => .settled (.error .closed)
  | .wait => .dropped

theorem release_rest (s : BlockingState R) (w : BlockingPending) :
    (s.release (some w)).calls = (s.setPlace w.token (released R w)).calls ∧
      (s.release (some w)).pending = s.pending ∧ (s.release (some w)).delivering = s.delivering ∧
      (s.release (some w)).completed = s.completed ∧ (s.release (some w)).closed = s.closed ∧
      ∀ t, (s.release (some w)).log.countP (BlockingEvent.isInvoked t) =
          s.log.countP (BlockingEvent.isInvoked t) +
            (if t = w.token ∧ w.kind = .callback then 1 else 0) ∧
        (s.release (some w)).log.countP (BlockingEvent.isReturned t) =
          s.log.countP (BlockingEvent.isReturned t) := by
  obtain ⟨kind, token⟩ := w
  cases kind with
  | wait => exact ⟨rfl, rfl, rfl, rfl, rfl, fun t => by simp [BlockingState.release,
      BlockingState.dropEntry, BlockingState.setPlace]⟩
  | callback =>
    refine ⟨rfl, rfl, rfl, rfl, rfl, fun t => ?_⟩
    simp [BlockingState.release, BlockingState.settle, BlockingState.record, BlockingState.setPlace,
      List.countP_append, List.countP_cons, BlockingEvent.isInvoked, BlockingEvent.isReturned, eq_comm]

theorem release (h : BlockingInv s)
    (hc : s.calls.get? token = some c) (hphase : c.phase = .removed (some w)) :
    BlockingInv ((s.release (some w)).setPhase token (.removed none)) := by
  obtain ⟨cw, hcw, hkind, hplace⟩ := (h.held token w).1 ⟨c, hc, hphase⟩
  obtain ⟨hcalls, hpending, hdeliv, hcomp, hclosed, hlog⟩ := release_rest s w
  have hget : ∀ t, ((s.release (some w)).setPhase token (.removed none)).calls.get? t =
      if t = token then
        some ⟨c.kind, .removed none, if w.token = token then released R w else c.place⟩
      else if t = w.token then some { cw with place := released R w } else s.calls.get? t := by
    intro t
    simp only [BlockingState.setPhase, hcalls, BlockingState.setPlace, Dict.get?_modify]
    split_ifs <;> simp_all
  have hplaces : (∀ id, released R w ≠ .table id) ∧ released R w ≠ .delivering ∧
      (∀ t, released R w ≠ .held t) ∧ released R w ≠ .unregistered := by
    unfold released
    cases w.kind <;> simp
  obtain ⟨htable, hdelivering, hnodup, hheld, hhold, hbeg, hinvoked, hret, hcompleted⟩ := h
  refine ⟨fun id' w' => ?_, fun w' => ?_, hdeliv ▸ hnodup, fun t w' => ?_,
    fun t c' id hc' hp => ?_, fun t c' hc' => ?_, fun t => ?_, fun t => ?_, fun hd => ?_⟩
  · show (s.release (some w)).pending.get? id' = some w' ↔ _
    rw [hpending, hget, htable]
    grind
  · show w' ∈ (s.release (some w)).delivering.map Prod.fst ↔ _
    rw [hdeliv, hdelivering, hget]
    grind
  · rw [hget, hget]
    have hold := hheld t w'
    have hself := hheld token
    grind
  · rw [hget] at hc'
    have hold := hhold t
    grind [BlockingPhase.holds]
  · rw [hget] at hc'
    have hold := hbeg t
    grind [BlockingPhase.begun]
  · refine (hlog t).1.trans ?_
    rw [hinvoked, hget]
    have hold : cw.invoked = false := by simp [BlockingCall.invoked, hplace]
    have hnew : ∀ phase, BlockingCall.invoked ⟨cw.kind, phase, released R w⟩ =
        decide (w.kind = .callback) := by
      intro phase
      rw [hkind]
      unfold BlockingCall.invoked released
      cases w.kind <;> rfl
    by_cases htw : t = w.token
    · subst htw
      by_cases hw : w.token = token
      · have heq : cw = c := Option.some.inj (hcw.symm.trans (hw ▸ hc))
        rw [if_pos hw, if_pos hw, hcw, Option.any_some, Option.any_some, hold, ← heq, hnew]
        cases w.kind <;> simp
      · rw [if_neg hw, if_pos rfl, hcw, Option.any_some, Option.any_some, hold, hnew]
        cases w.kind <;> simp
    · rw [if_neg (fun h => htw h.1), Nat.add_zero]
      by_cases ht : t = token
      · rw [if_pos ht, if_neg (fun h => htw (ht.trans h.symm)), ht, hc]
        rfl
      · rw [if_neg ht, if_neg htw]
  · refine (hlog t).2.trans ?_
    rw [hret, hget]
    split_ifs with ht hw htw
    · rw [ht, hc]
      simp [BlockingCall.hasReturned, hphase]
    · rw [ht, hc]
      simp [BlockingCall.hasReturned, hphase]
    · rw [htw, hcw]
      rfl
    · rfl
  · have hd : s.completed = true := hcomp ▸ hd
    obtain ⟨hcl, hall⟩ := hcompleted hd
    refine ⟨hclosed ▸ hcl, fun t c' id' hc' hp => ?_⟩
    rw [hget] at hc'
    have hself := hhold token c
    grind [BlockingPhase.holds]

theorem takeToDeliver (h : BlockingInv s)
    (he : s.pending.get? id = some w) (body : R) :
    BlockingInv { s.setPlace w.token .delivering with
      pending := s.pending.erase id
      delivering := s.delivering ++ [(w, body)] } := by
  obtain ⟨c, hc, hkind, hplace⟩ := h.call_of_entry he
  have hget : ∀ t, (s.setPlace w.token .delivering).calls.get? t =
      if t = w.token then some { c with place := .delivering } else s.calls.get? t :=
    get?_setPlace hc .delivering
  have hnot : w ∉ s.delivering.map Prod.fst := by
    intro hmem
    obtain ⟨c', hc', -, hplace'⟩ := (h.delivering w).1 hmem
    rw [hc] at hc'
    rw [← Option.some.inj hc', hplace] at hplace'
    cases hplace'
  obtain ⟨htable, hdelivering, hnodup, hheld, hhold, hbeg, hinvoked, hret, hcompleted⟩ := h
  refine ⟨fun id' w' => ?_, fun w' => ?_, ?_, fun t w' => ?_,
    fun t c' id hc' hp => ?_, fun t c' hc' => ?_, fun t => (hinvoked t).trans ?_,
    fun t => (hret t).trans ?_, fun hd => ?_⟩
  · show (s.pending.erase id).get? id' = some w' ↔ ∃ c, (s.setPlace w.token .delivering).calls.get? _ =
      some c ∧ _
    rw [Dict.get?_erase, hget]
    have hold := htable id' w'
    grind
  · show w' ∈ (s.delivering ++ [(w, body)]).map Prod.fst ↔
      ∃ c, (s.setPlace w.token .delivering).calls.get? _ = some c ∧ _
    rw [List.map_append, List.mem_append, hdelivering, hget]
    obtain ⟨kind, t⟩ := w
    obtain ⟨kind', t'⟩ := w'
    grind
  · rw [List.map_append]
    refine List.nodup_append.2 ⟨hnodup, by simp, fun a ha b hb => ?_⟩
    obtain rfl : b = w := by simpa using hb
    rintro rfl
    exact hnot ha
  · show (∃ c, (s.setPlace w.token .delivering).calls.get? _ = some c ∧ _) ↔
      ∃ c, (s.setPlace w.token .delivering).calls.get? _ = some c ∧ _
    rw [hget, hget]
    have hold := hheld t w'
    grind
  · have hc' := (hget t).symm.trans hc'
    have hold := hhold t
    grind
  · have hc' := (hget t).symm.trans hc'
    have hold := hbeg t
    grind
  · refine any_of_changed hget ?_ t
    rw [hc]
    simp [BlockingCall.invoked, hplace]
  · refine any_of_changed hget ?_ t
    rw [hc]
    rfl
  · obtain ⟨hclosed, hall⟩ := hcompleted hd
    refine ⟨hclosed, fun t c' id' hc' hp => ?_⟩
    have hc' := (hget t).symm.trans hc'
    grind

theorem settle_rest (s : BlockingState R) (w : BlockingPending) (result : Except Error R) :
    (s.settle w result).calls = (s.setPlace w.token (.settled result)).calls ∧
      (s.settle w result).pending = s.pending ∧ (s.settle w result).delivering = s.delivering ∧
      (s.settle w result).completed = s.completed ∧ (s.settle w result).closed = s.closed ∧
      ∀ t, (s.settle w result).log.countP (BlockingEvent.isInvoked t) =
          s.log.countP (BlockingEvent.isInvoked t) +
            (if t = w.token ∧ w.kind = .callback then 1 else 0) ∧
        (s.settle w result).log.countP (BlockingEvent.isReturned t) =
          s.log.countP (BlockingEvent.isReturned t) := by
  obtain ⟨kind, token⟩ := w
  cases kind with
  | wait => exact ⟨rfl, rfl, rfl, rfl, rfl, fun t => by simp [BlockingState.settle,
      BlockingState.setPlace]⟩
  | callback =>
    refine ⟨rfl, rfl, rfl, rfl, rfl, fun t => ?_⟩
    simp [BlockingState.settle, BlockingState.record, BlockingState.setPlace,
      List.countP_append, List.countP_cons, BlockingEvent.isInvoked, BlockingEvent.isReturned, eq_comm]

/-- What is in the table, or in the hands of a `deliver`, is settled and leaves. -/
theorem settle (h : BlockingInv s)
    (hc : s.calls.get? w.token = some c) (hkind : c.kind = w.kind)
    (hplace : (∃ id, c.place = .table id) ∨ c.place = .delivering) (result : Except Error R)
    (pending : Dict RequestId BlockingPending) (delivering : List (BlockingPending × R))
    (hpend : ∀ id w', pending.get? id = some w' ↔ w' ≠ w ∧ s.pending.get? id = some w')
    (hdel : ∀ w', w' ∈ delivering.map Prod.fst ↔ w' ≠ w ∧ w' ∈ s.delivering.map Prod.fst)
    (hnod : (delivering.map Prod.fst).Nodup) :
    BlockingInv { s.settle w result with pending, delivering } := by
  obtain ⟨hcalls, -, -, hcomp, hclosed, hlog⟩ := settle_rest s w result
  have hget : ∀ t, (s.settle w result).calls.get? t =
      if t = w.token then some { c with place := .settled result } else s.calls.get? t := by
    intro t
    rw [hcalls]
    exact get?_setPlace hc (.settled result) t
  obtain ⟨htable, hdelivering, hnodup, hheld, hhold, hbeg, hinvoked, hret, hcompleted⟩ := h
  refine ⟨fun id' w' => (hpend id' w').trans ?_, fun w' => (hdel w').trans ?_, hnod, fun t w' => ?_,
    fun t c' id hc' hp => ?_, fun t c' hc' => ?_, fun t => (hlog t).1.trans ?_,
    fun t => (hlog t).2.trans ?_, fun hd => ?_⟩
  · rw [hget]
    have hold := htable id' w'
    obtain ⟨kind, t⟩ := w
    obtain ⟨kind', t'⟩ := w'
    grind
  · rw [hget]
    have hold := hdelivering w'
    obtain ⟨kind, t⟩ := w
    obtain ⟨kind', t'⟩ := w'
    grind
  · rw [hget, hget]
    have hold := hheld t w'
    grind
  · rw [hget] at hc'
    have hold := hhold t
    grind
  · rw [hget] at hc'
    have hold := hbeg t
    grind
  · rw [hinvoked, hget]
    by_cases ht : t = w.token
    · have hold : c.invoked = false := by
        rcases hplace with ⟨id, hplace⟩ | hplace <;> simp [BlockingCall.invoked, hplace]
      subst ht
      rw [hc, if_pos rfl, Option.any_some, Option.any_some, hold]
      cases hk : w.kind <;> simp [BlockingCall.invoked, hkind, hk]
    · simp [ht]
  · rw [hret]
    refine any_of_changed hget ?_ t
    rw [hc]
    rfl
  · have hd : s.completed = true := hcomp ▸ hd
    obtain ⟨hcl, hall⟩ := hcompleted hd
    refine ⟨hclosed ▸ hcl, fun t c' id' hc' hp => ?_⟩
    rw [hget] at hc'
    grind

/-- Settling the entries of the table one after another. -/
theorem foldSettle (l : List (RequestId × BlockingPending)) (nodup : (l.map Prod.fst).Nodup)
    (h : BlockingInv { s with pending := ⟨l, nodup⟩ }) :
    BlockingInv { l.foldl (fun s entry => s.settle entry.2 (.error .closed)) s with
      pending := .empty } := by
  induction l generalizing s with
  | nil => exact h
  | cons x l ih =>
    obtain ⟨id, w⟩ := x
    obtain ⟨hid, hl⟩ := List.nodup_cons.1 nodup
    have hget : ∀ id' w', (⟨(id, w) :: l, nodup⟩ : Dict RequestId BlockingPending).get? id' = some w' ↔
        (id', w') = (id, w) ∨ (id', w') ∈ l := by
      intro id' w'
      rw [Dict.get?_eq_some_iff, List.mem_cons]
    obtain ⟨c, hc, hkind, hplace⟩ := h.call_of_entry ((hget id w).2 (.inl rfl))
    -- the entry's call is in the table once
    have honce : ∀ id', (id', w) ∉ l := by
      intro id' hmem
      obtain ⟨c', hc', -, hplace'⟩ := h.call_of_entry ((hget id' w).2 (.inr hmem))
      have heq : c = c' := Option.some.inj (hc.symm.trans hc')
      rw [← heq, hplace] at hplace'
      obtain rfl : id = id' := Place.table.inj hplace'
      exact hid (List.mem_map_of_mem hmem)
    have h' := h.settle hc hkind (.inl ⟨id, hplace⟩) (.error .closed) ⟨l, hl⟩
      s.delivering (fun id' w' => by
        rw [hget, Dict.get?_eq_some_iff]
        constructor
        · intro hmem
          refine ⟨?_, .inr hmem⟩
          rintro rfl
          exact honce id' hmem
        · rintro ⟨hne, heq | hmem⟩
          · exact absurd (Prod.mk.inj heq).2 hne
          · exact hmem)
      (fun w' => by
        refine ⟨fun hmem => ⟨?_, hmem⟩, fun hmem => hmem.2⟩
        rintro rfl
        obtain ⟨c', hc', -, hplace'⟩ := (h.delivering w').1 hmem
        have heq : c = c' := Option.some.inj (hc.symm.trans hc')
        rw [← heq, hplace] at hplace'
        cases hplace')
      h.nodup
    refine ih hl (s := s.settle w (.error .closed)) ?_
    obtain ⟨kind, token⟩ := w
    cases kind <;> exact h'

theorem drain (h : BlockingInv s) : BlockingInv s.drain :=
  foldSettle s.pending.pairs s.pending.nodup h

theorem drain_rest (s : BlockingState R) :
    s.drain.closed = s.closed ∧ s.drain.delivering = s.delivering := by
  have hfold : ∀ (l : List (RequestId × BlockingPending)) (s : BlockingState R),
      (l.foldl (fun s entry => s.settle entry.2 (.error .closed)) s).closed = s.closed ∧
      (l.foldl (fun s entry => s.settle entry.2 (.error .closed)) s).delivering = s.delivering := by
    intro l
    induction l with
    | nil => exact fun s => ⟨rfl, rfl⟩
    | cons x l ih =>
      intro s
      obtain ⟨-, -, hdelivering, -, hclosed, -⟩ := settle_rest s x.2 (.error .closed)
      exact ⟨(ih _).1.trans hclosed, (ih _).2.trans hdelivering⟩
  exact hfold _ s

theorem complete (h : BlockingInv s) (hclosed : s.closed = true) (closing : Nat) :
    BlockingInv { s.drain with closing, completed := true } := by
  have h' := h.drain
  refine ⟨h'.table, h'.delivering, h'.nodup, h'.held, h'.holds, h'.begun, h'.invoked, h'.returned, ?_⟩
  refine fun _ => ⟨(drain_rest s).1.trans hclosed, fun t c id hc hplace => ?_⟩
  have hentry := (h'.table id ⟨c.kind, t⟩).2 ⟨c, hc, rfl, hplace⟩
  cases hentry

theorem entered (h : BlockingInv s)
    (hc : s.calls.get? token = some c) (hphase : c.phase = .minted id) :
    BlockingInv (s.enter token c.kind id) := by
  have h' := h.dropUnder id
  have hunreg : c.place = .unregistered := (h.begun token c hc).2 (by rw [hphase]; rfl)
  have hc' : (s.dropEntry (s.pending.get? id)).calls.get? token = some c := by
    cases he : s.pending.get? id with
    | none => exact hc
    | some old =>
      obtain ⟨c', hold, -, hplace⟩ := h.call_of_entry he
      have hne : token ≠ old.token := by
        rintro rfl
        rw [← Option.some.inj (hc.symm.trans hold), hunreg] at hplace
        cases hplace
      exact (get?_setPlace hold .dropped token).trans ((if_neg hne).trans hc)
  have hfree : (s.pending.erase id).get? id = none := (Dict.get?_erase ..).trans (if_pos rfl)
  refine (h'.enter hc' hphase hfree).congr (fun id' => ?_) (fun _ => rfl) rfl rfl (fun hd => hd)
    fun hd => hd
  show (s.pending.insert id ⟨c.kind, token⟩).get? id' =
    ((s.pending.erase id).insert id ⟨c.kind, token⟩).get? id'
  rw [Dict.get?_insert, Dict.get?_insert, Dict.get?_erase]
  split_ifs <;> rfl

theorem failed (h : BlockingInv s)
    (hc : s.calls.get? token = some c) (hphase : c.phase = .removed (some w)) :
    BlockingInv ((s.release (some w)).finish token c.kind (.error .closed)) := by
  have h' := h.release hc hphase
  obtain ⟨c', hc', hkind⟩ : ∃ c', (s.release (some w)).calls.get? token = some c' ∧
      c'.kind = c.kind := by
    rw [(release_rest s w).1, BlockingState.setPlace, Dict.get?_modify, hc]
    split_ifs
    · exact ⟨_, rfl, rfl⟩
    · exact ⟨c, rfl, rfl⟩
  have hc₁ := get?_setPhase hc' (.removed none) token
  rw [if_pos rfl] at hc₁
  have hfinish := h'.finish hc₁ (fun id hplace => by
      have hid := h'.holds token _ id hc₁ hplace
      cases hid) (by simp) rfl (by simp) (.error .closed)
  rw [show (BlockingCall.mk ..).kind = c.kind from hkind] at hfinish
  have hcalls : ∀ (s : BlockingState R) t, (s.finish token c.kind (.error .closed)).calls.get? t =
      (s.setPhase token .returned).calls.get? t := by
    intro s t
    unfold BlockingState.finish
    cases c.kind <;> rfl
  refine hfinish.congr (fun _ => ?_) (fun t => ?_) ?_ ?_ ?_ ?_
  · unfold BlockingState.finish
    cases c.kind <;> rfl
  · rw [hcalls, hcalls]
    simp only [BlockingState.setPhase, Dict.get?_modify]
    split_ifs
    · rw [Option.map_map]
      rfl
    · rfl
  all_goals
    unfold BlockingState.finish
    cases c.kind
  all_goals first | rfl | exact id

theorem acted (h : BlockingInv s)
    (hc : s.calls.get? token = some c) (hacted : s.Acted token c s') : BlockingInv s' := by
  cases hacted with
  | moved phase next hbegun hholds hremoved hremoved' hreturned hreturned' hearly =>
    have h' : BlockingInv { s with next } :=
      h.congr (fun _ => rfl) (fun _ => rfl) rfl rfl (fun hd => hd) fun hd => hd
    exact h'.move hc hbegun hholds hremoved hremoved' hreturned hreturned' hearly
  | entered id hphase => exact h.entered hc hphase
  | took id hphase =>
    unfold BlockingState.takeBack
    cases he : s.pending.get? id with
    | none => exact h.holdNothing hc hphase he
    | some w => exact h.hold hc hphase he
  | failed waiting hphase =>
    cases waiting with
    | none =>
      refine h.finish hc (fun id hplace => ?_) (by simp [hphase]) (by rw [hphase]; rfl)
        (by simp [hphase]) _
      have hid := h.holds token c id hc hplace
      rw [hphase] at hid
      cases hid
    | some w => exact h.failed hc hphase
  | received id result hphase hplace =>
    exact h.finish hc hplace (by simp [hphase]) (by rw [hphase]; rfl) (by simp [hphase]) result

theorem deliverSettle (h : BlockingInv s) {i : Nat} {body : R}
    (hi : s.delivering[i]? = some (w, body)) :
    BlockingInv { s.settle w (.ok body) with delivering := s.delivering.eraseIdx i } := by
  have hmem : w ∈ s.delivering.map Prod.fst :=
    List.mem_map_of_mem (f := Prod.fst) (List.mem_of_getElem? hi)
  obtain ⟨c, hc, hkind, hplace⟩ := (h.delivering w).1 hmem
  have hi' : (s.delivering.map Prod.fst)[i]? = some w := by rw [List.getElem?_map, hi]; rfl
  have herase : (s.delivering.eraseIdx i).map Prod.fst = (s.delivering.map Prod.fst).eraseIdx i :=
    (List.eraseIdx_map ..).symm
  have hpending : (s.settle w (.ok body)).pending = s.pending := (settle_rest s w _).2.1
  rw [show ({ s.settle w (.ok body) with delivering := s.delivering.eraseIdx i } : BlockingState R) =
    { s.settle w (.ok body) with pending := s.pending, delivering := s.delivering.eraseIdx i } by
      rw [← hpending]]
  refine h.settle hc hkind (.inr hplace) (.ok body) _ _ (fun id w' => ?_) (fun w' => ?_) ?_
  · refine ⟨fun he => ⟨?_, he⟩, fun he => he.2⟩
    rintro rfl
    obtain ⟨c', hc', -, hplace'⟩ := h.call_of_entry he
    rw [← Option.some.inj (hc.symm.trans hc'), hplace] at hplace'
    cases hplace'
  · rw [herase, List.mem_eraseIdx_iff_getElem?]
    constructor
    · rintro ⟨j, hj, hw'⟩
      refine ⟨?_, List.mem_of_getElem? hw'⟩
      rintro rfl
      obtain ⟨hlt, -⟩ := List.getElem?_eq_some_iff.1 hi'
      exact hj ((List.getElem?_inj hlt h.nodup).1 (hi'.trans hw'.symm)).symm
    · rintro ⟨hne, hmem'⟩
      obtain ⟨j, hj⟩ := List.mem_iff_getElem?.1 hmem'
      refine ⟨j, ?_, hj⟩
      rintro rfl
      exact hne (Option.some.inj (hj.symm.trans hi'))
  · rw [herase]
    exact h.nodup.eraseIdx i

theorem step (h : BlockingInv s) (hclosing : s.closing ≠ 0 → s.closed = true) {i : BlockingStep R}
    (hstep : s.step i = some s') : BlockingInv s' := by
  cases i with
  | start token kind =>
    simp only [BlockingState.step] at hstep
    split_ifs at hstep with hnew
    rw [← Option.some.inj hstep]
    exact h.start (by simpa [Dict.contains] using hnew) kind
  | client token action =>
    obtain ⟨c, hc, hact⟩ := Option.bind_eq_some_iff.1 hstep
    exact h.acted hc (BlockingState.acted_of_act s hact)
  | deliver id body =>
    rw [← Option.some.inj hstep]
    unfold BlockingState.deliver
    split
    · next w he => exact h.takeToDeliver he body
    · exact h
  | settle i =>
    obtain ⟨⟨w, body⟩, hi, rfl⟩ := Option.map_eq_some_iff.1 hstep
    exact h.deliverSettle hi
  | disconnect =>
    exact Option.some.inj hstep ▸
      h.congr (fun _ => rfl) (fun _ => rfl) rfl rfl (fun hd => hd) fun _ => rfl
  | drain =>
    simp only [BlockingState.step] at hstep
    split_ifs at hstep with hzero
    exact Option.some.inj hstep ▸ h.complete (hclosing hzero) _

end BlockingInv

end TinyBrowser.Exchange
