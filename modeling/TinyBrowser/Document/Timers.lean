import TinyBrowser.Lib.Dict
import TinyBrowser.Lib.Machine
import TinyBrowser.Net.Message

/-!
# The timers of a document

The timers of `crates/renderer/src/document/drain.rs`. The realm queues requests in its outbox; a turn
applies them in order, picks the due timers one by one, earliest deadline first, and queues a task for
each, and runs one task. The map of the timers is a hash map, so among equal deadlines any may be picked.

A `TimerRun` also keeps the marks of what was done, the newest first. They are for the statements; no
function reads them.

`Sound` is what the marks and the maps of any run agree on: a timer that was scheduled and is gone was
cleared or has fired, a live timer is queued just when it is marked as fired, and a timer that has fired
is gone.
-/

namespace TinyBrowser
open Lib

abbrev TimerId := Nat

/-- The id of a timer that script holds. -/
abbrev PageTimerId := Int

structure Timer where
  /-- `none` when the delay overflows the clock: the timer never fires. -/
  when : Option Instant
  fired : Bool
  jsId : Option PageTimerId

/-- The requests of the realm. Only those about timers touch them. -/
inductive TimerRequest where
  | timer (jsId : PageTimerId) (delay : Nat)
  | clearTimer (jsId : PageTimerId)
  | other

inductive TimerTask where
  | timer (id : TimerId)
  | other

structure Timers where
  timers : Dict TimerId Timer
  nextTimerId : TimerId
  /-- Live timers by the id script holds. -/
  jsTimers : Dict PageTimerId TimerId
  /-- The timer a refresh is waiting on. -/
  refreshTimer : Option TimerId
  tasks : List TimerTask
  outbox : List TimerRequest

namespace Timers

def init : Timers := ⟨.empty, 0, .empty, none, [], []⟩

/-- `Instant::checked_add`, where `latest` is the last instant of the clock. -/
def checkedAdd (latest : Instant) (now : Instant) (delay : Nat) : Option Instant :=
  if now + delay ≤ latest then some (now + delay) else none

def scheduleTimer (latest now : Instant) (delay : Nat) (jsId : Option PageTimerId) (s : Timers) :
    Timers :=
  { s with
    timers := s.timers.insert s.nextTimerId ⟨checkedAdd latest now delay, false, jsId⟩
    nextTimerId := s.nextTimerId + 1 }

def applyRealmRequest (latest now : Instant) (s : Timers) : TimerRequest → Timers
  | .timer jsId delay =>
    { s.scheduleTimer latest now delay (some jsId) with
      jsTimers := s.jsTimers.insert jsId s.nextTimerId }
  | .clearTimer jsId =>
    match s.jsTimers.get? jsId with
    | some id => { s with jsTimers := s.jsTimers.erase jsId, timers := s.timers.erase id }
    | none => s
  | .other => s

/-- The timers that are due, with their deadlines. -/
def due (now : Instant) (s : Timers) : List (TimerId × Instant) :=
  s.timers.pairs.filterMap fun (id, timer) =>
    if timer.fired then none else (timer.when.filter (· ≤ now)).map (id, ·)

/-- `due_timer` may return `id`: it is due, and no due timer has an earlier deadline. -/
def MayPick (now : Instant) (s : Timers) (id : TimerId) : Prop :=
  ∃ x ∈ s.due now, x.1 = id ∧ ∀ y ∈ s.due now, x.2 ≤ y.2

instance (now : Instant) (s : Timers) (id : TimerId) : Decidable (s.MayPick now id) :=
  inferInstanceAs (Decidable (∃ x ∈ s.due now, _))

/-- A due timer is marked as fired and its task queued. -/
def pick (s : Timers) (id : TimerId) : Timers :=
  { s with
    timers := s.timers.modify id fun timer => { timer with fired := true }
    tasks := s.tasks ++ [.timer id] }

/-- The timer whose callback the task of `id` runs. -/
def firing (s : Timers) (id : TimerId) : Option PageTimerId := (s.timers.get? id).bind Timer.jsId

/-- `run_task` of a timer. What its callback asks for goes to the outbox later. -/
def runTimer (s : Timers) (id : TimerId) : Timers :=
  { s with
    refreshTimer := if s.refreshTimer = some id then none else s.refreshTimer
    jsTimers := (s.firing id).elim s.jsTimers s.jsTimers.erase
    timers := s.timers.erase id }

end Timers

/-! ### Runs -/

inductive TimerMark where
  | scheduled (id : TimerId) (jsId : PageTimerId) (now : Instant) (delay : Nat)
  | cleared (jsId : PageTimerId)
  | fired (id : TimerId) (jsId : PageTimerId)
deriving DecidableEq

inductive TimerEvent where
  /-- The realm queues a request. -/
  | request (request : TimerRequest)
  /-- The next request is applied. -/
  | adopt (now : Instant)
  | due (id : TimerId) (now : Instant)
  /-- Another task is queued. -/
  | queue
  /-- The next task runs. -/
  | run
  /-- A declarative refresh is armed. -/
  | armRefresh (delay : Nat) (now : Instant)

/-- The timers, the last reading of the clock, and the marks. -/
structure TimerRun where
  state : Timers
  now : Instant
  marks : List TimerMark

namespace TimerRun

def init : TimerRun := ⟨.init, 0, []⟩

/-- The mark of a request that is applied. -/
def requestMark (now : Instant) (id : TimerId) : TimerRequest → List TimerMark
  | .timer jsId delay => [.scheduled id jsId now delay]
  | .clearTimer jsId => [.cleared jsId]
  | .other => []

def adoptNext (latest now : Instant) (r : TimerRun) : Option TimerRun :=
  match r.state.outbox with
  | [] => none
  | request :: rest => some {
      state := { r.state with outbox := rest }.applyRealmRequest latest now request
      now := now
      marks := requestMark now r.state.nextTimerId request ++ r.marks }

def runTask (r : TimerRun) : Option TimerRun :=
  match r.state.tasks with
  | [] => none
  | .other :: rest => some { r with state := { r.state with tasks := rest } }
  | .timer id :: rest => some { r with
      state := { r.state with tasks := rest }.runTimer id
      marks := (r.state.firing id).elim r.marks fun jsId => .fired id jsId :: r.marks }

/-- One step of `drain_step`, or of what runs between two of them. The clock never goes back. -/
def step (latest : Instant) (r : TimerRun) : TimerEvent → Option TimerRun
  | .request request =>
    some { r with state := { r.state with outbox := r.state.outbox ++ [request] } }
  | .adopt now => if now < r.now then none else r.adoptNext latest now
  | .due id now =>
    if now < r.now ∨ ¬r.state.MayPick now id then none
    else some { r with state := r.state.pick id, now := now }
  | .queue => some { r with state := { r.state with tasks := r.state.tasks ++ [.other] } }
  | .run => r.runTask
  | .armRefresh delay now =>
    if now < r.now ∨ r.state.refreshTimer.isSome then none
    else some { r with
      state := { r.state.scheduleTimer latest now delay none with
        refreshTimer := some r.state.nextTimerId }
      now := now }

end TimerRun

open Lib.Machine Timers

/-! ### Marks, the newest first -/

section
variable {marks past : List TimerMark} {m : TimerMark} {id p q : TimerId}

/-- Every callback meets `P` in view of the marks before it. -/
def Callbacks (P : List TimerMark → TimerId → Prop) : List TimerMark → Prop
  | [] => True
  | .fired id _ :: past => P past id ∧ Callbacks P past
  | _ :: past => Callbacks P past

/-- The id of the timer was cleared after it was scheduled. -/
def Cleared (marks : List TimerMark) (id : TimerId) : Prop :=
  ∃ jsId now delay, [.cleared jsId, .scheduled id jsId now delay].Sublist marks

def Fired (marks : List TimerMark) (id : TimerId) : Prop := ∃ jsId, .fired id jsId ∈ marks

/-- `p` was scheduled before `q`, with a delay no longer than that of `q`. -/
def Precedes (marks : List TimerMark) (p q : TimerId) : Prop :=
  ∃ jsId now delay jsId' now' delay', delay ≤ delay' ∧
    [.scheduled q jsId' now' delay', .scheduled p jsId now delay].Sublist marks

/-- The timers that precede `id` have had their turn. -/
def InTurn (marks : List TimerMark) (id : TimerId) : Prop :=
  ∀ p, Precedes marks p id → Cleared marks p ∨ Fired marks p

/-- Later timers have later numbers and later readings of the clock. -/
def Later : TimerMark → TimerMark → Prop
  | .scheduled q _ now' _, .scheduled p _ now _ => p < q ∧ now ≤ now'
  | _, _ => True

theorem Cleared.cons (h : Cleared past id) : Cleared (m :: past) id := by
  obtain ⟨jsId, now, delay, hsub⟩ := h
  exact ⟨jsId, now, delay, hsub.cons m⟩

theorem Fired.cons (h : Fired past id) : Fired (m :: past) id := by
  obtain ⟨jsId, hmem⟩ := h
  exact ⟨jsId, List.mem_cons_of_mem _ hmem⟩

theorem pair_sublist_cons {a b : TimerMark} (h : [a, b].Sublist (m :: past)) (hne : a ≠ m) :
    [a, b].Sublist past := by
  cases h with
  | cons _ h => exact h
  | cons_cons _ h => exact absurd rfl hne

theorem Cleared.of_cons (h : Cleared (m :: past) id) :
    Cleared past id ∨ ∃ jsId now delay, m = .cleared jsId ∧ .scheduled id jsId now delay ∈ past := by
  obtain ⟨jsId, now, delay, hsub⟩ := h
  by_cases heq : .cleared jsId = m
  · subst heq
    cases hsub with
    | cons _ h => exact .inl ⟨jsId, now, delay, h⟩
    | cons_cons _ h => exact .inr ⟨jsId, now, delay, rfl, List.singleton_sublist.1 h⟩
  · exact .inl ⟨jsId, now, delay, pair_sublist_cons hsub heq⟩

theorem Precedes.of_cons (h : Precedes (m :: past) p q)
    (hm : ∀ jsId now delay, m ≠ .scheduled q jsId now delay) : Precedes past p q := by
  obtain ⟨jsId, now, delay, jsId', now', delay', hle, hsub⟩ := h
  exact ⟨jsId, now, delay, jsId', now', delay', hle, pair_sublist_cons hsub (hm _ _ _).symm⟩

end

/-- What holds of every run: the marks and the maps agree. -/
structure TimerRun.Sound (latest : Instant) (r : TimerRun) : Prop where
  number : ∀ {id timer}, r.state.timers.get? id = some timer → id < r.state.nextTimerId
  queued : ∀ {id timer}, r.state.timers.get? id = some timer →
    (timer.fired = true ↔ .timer id ∈ r.state.tasks)
  queued_number : ∀ {id}, .timer id ∈ r.state.tasks → id < r.state.nextTimerId
  mark : ∀ {id jsId now delay}, .scheduled id jsId now delay ∈ r.marks →
    id < r.state.nextTimerId ∧ now ≤ r.now
  sorted : r.marks.Pairwise Later
  timer : ∀ {id jsId now delay timer}, .scheduled id jsId now delay ∈ r.marks →
    r.state.timers.get? id = some timer →
      timer.jsId = some jsId ∧ timer.when = checkedAdd latest now delay
  fired : ∀ {id}, Fired r.marks id → r.state.timers.get? id = none ∧ id < r.state.nextTimerId
  gone : ∀ {id jsId now delay}, .scheduled id jsId now delay ∈ r.marks →
    r.state.timers.get? id = none → Cleared r.marks id ∨ Fired r.marks id
  named : ∀ {jsId id}, r.state.jsTimers.get? jsId = some id →
    ∃ now delay, .scheduled id jsId now delay ∈ r.marks

namespace TimerRun
variable {latest now : Instant} {r r' : TimerRun}

theorem sound_init : init.Sound latest := by
  constructor <;> simp [init, Timers.init, Fired]

/-- A timer with a new number, unmarked. -/
theorem Sound.scheduleTimer (h : r.Sound latest) (hnow : r.now ≤ now) (delay : Nat)
    (jsId : Option PageTimerId) :
    Sound latest { r with state := r.state.scheduleTimer latest now delay jsId, now := now } where
  number := by
    intro id timer htimer
    simp only [Timers.scheduleTimer, Dict.get?_insert] at htimer ⊢
    split at htimer
    next heq => exact heq ▸ Nat.lt_succ_self _
    · exact Nat.lt_succ_of_lt (h.number htimer)
  queued := by
    intro id timer htimer
    simp only [Timers.scheduleTimer, Dict.get?_insert] at htimer ⊢
    split at htimer
    next heq =>
      cases htimer
      simp only [Bool.false_eq_true, false_iff]
      exact fun hmem => (h.queued_number hmem).ne heq
    · exact h.queued htimer
  queued_number := fun hmem => Nat.lt_succ_of_lt (h.queued_number hmem)
  mark := fun hmem => ⟨Nat.lt_succ_of_lt (h.mark hmem).1, (h.mark hmem).2.trans hnow⟩
  sorted := h.sorted
  timer := by
    intro id jsId now delay timer hmem htimer
    simp only [Timers.scheduleTimer, Dict.get?_insert] at htimer
    split at htimer
    next heq => exact absurd heq (h.mark hmem).1.ne
    · exact h.timer hmem htimer
  fired := by
    intro id hfired
    obtain ⟨hnone, hlt⟩ := h.fired hfired
    simp only [Timers.scheduleTimer, Dict.get?_insert]
    rw [if_neg hlt.ne]
    exact ⟨hnone, Nat.lt_succ_of_lt hlt⟩
  gone := by
    intro id jsId now delay hmem hnone
    simp only [Timers.scheduleTimer, Dict.get?_insert] at hnone
    split at hnone
    · cases hnone
    · exact h.gone hmem hnone
  named := h.named

/-- A script timer is a new timer and its mark. -/
theorem Sound.adopt_timer (h : r.Sound latest) (hnow : r.now ≤ now) (jsId : PageTimerId) (delay : Nat) :
    Sound latest {
      state := r.state.applyRealmRequest latest now (.timer jsId delay)
      now := now
      marks := .scheduled r.state.nextTimerId jsId now delay :: r.marks } := by
  have hnew := h.scheduleTimer hnow delay (some jsId)
  refine {
    number := hnew.number, queued := hnew.queued, queued_number := hnew.queued_number
    mark := ?_, sorted := ?_, timer := ?_, fired := ?_, gone := ?_, named := ?_ }
  · intro id jsId' now' delay' hmem
    rcases List.mem_cons.1 hmem with heq | hmem
    · cases heq
      exact ⟨Nat.lt_succ_self _, le_rfl⟩
    · exact hnew.mark hmem
  · refine List.pairwise_cons.2 ⟨fun m hm => ?_, h.sorted⟩
    cases m with
    | scheduled id jsId' now' delay' => exact ⟨(h.mark hm).1, (h.mark hm).2.trans hnow⟩
    | cleared => trivial
    | fired => trivial
  · intro id jsId' now' delay' timer hmem htimer
    rcases List.mem_cons.1 hmem with heq | hmem
    · cases heq
      simp only [applyRealmRequest, Timers.scheduleTimer, Dict.get?_insert, if_true] at htimer
      cases htimer
      exact ⟨rfl, rfl⟩
    · exact hnew.timer hmem htimer
  · rintro id ⟨jsId', hmem⟩
    exact hnew.fired ⟨jsId', (List.mem_cons.1 hmem).resolve_left (by rintro ⟨⟩)⟩
  · intro id jsId' now' delay' hmem hnone
    rcases List.mem_cons.1 hmem with heq | hmem
    · cases heq
      simp [applyRealmRequest, Timers.scheduleTimer] at hnone
    · exact (hnew.gone hmem hnone).imp Cleared.cons Fired.cons
  · intro jsId' id hid
    simp only [applyRealmRequest, Dict.get?_insert] at hid
    split at hid
    next heq =>
      cases hid
      exact ⟨now, delay, heq ▸ List.mem_cons_self⟩
    · obtain ⟨now', delay', hmem⟩ := h.named hid
      exact ⟨now', delay', List.mem_cons_of_mem _ hmem⟩

theorem scheduled_of_cons {m : TimerMark} {marks : List TimerMark} {id : TimerId}
    {jsId : PageTimerId} {delay : Nat} (h : .scheduled id jsId now delay ∈ m :: marks)
    (hm : ∀ id jsId now delay, m ≠ .scheduled id jsId now delay) :
    .scheduled id jsId now delay ∈ marks :=
  (List.mem_cons.1 h).resolve_left fun heq => hm _ _ _ _ heq.symm

theorem sorted_cons {m : TimerMark} (h : r.Sound latest)
    (hm : ∀ id jsId now delay, m ≠ .scheduled id jsId now delay) : (m :: r.marks).Pairwise Later := by
  refine List.pairwise_cons.2 ⟨fun m' _ => ?_, h.sorted⟩
  cases m with
  | scheduled id jsId now delay => exact absurd rfl (hm id jsId now delay)
  | cleared => trivial
  | fired => trivial

theorem Sound.adopt_clearTimer (h : r.Sound latest) (hnow : r.now ≤ now) (jsId : PageTimerId) :
    Sound latest {
      state := r.state.applyRealmRequest latest now (.clearTimer jsId)
      now := now
      marks := .cleared jsId :: r.marks } := by
  have hmarks : ∀ {id : TimerId} {jsId' : PageTimerId} {now' : Instant} {delay : Nat},
      .scheduled id jsId' now' delay ∈ .cleared jsId :: r.marks →
        .scheduled id jsId' now' delay ∈ r.marks :=
    fun hmem => scheduled_of_cons hmem (by rintro _ _ _ _ ⟨⟩)
  have hfired : ∀ {id}, Fired (.cleared jsId :: r.marks) id → Fired r.marks id := by
    rintro id ⟨jsId', hmem⟩
    exact ⟨jsId', (List.mem_cons.1 hmem).resolve_left (by rintro ⟨⟩)⟩
  have hsorted := sorted_cons (m := .cleared jsId) h (by rintro _ _ _ _ ⟨⟩)
  rw [applyRealmRequest]
  cases hid : r.state.jsTimers.get? jsId with
  | none =>
    exact {
      number := h.number, queued := h.queued, queued_number := h.queued_number
      mark := fun hmem => ⟨(h.mark (hmarks hmem)).1, (h.mark (hmarks hmem)).2.trans hnow⟩
      sorted := hsorted
      timer := fun hmem => h.timer (hmarks hmem)
      fired := fun hf => h.fired (hfired hf)
      gone := fun hmem hnone => (h.gone (hmarks hmem) hnone).imp Cleared.cons Fired.cons
      named := fun hnamed => by
        obtain ⟨now', delay, hmem⟩ := h.named hnamed
        exact ⟨now', delay, List.mem_cons_of_mem _ hmem⟩ }
  | some id =>
    have hlive : ∀ {id' timer}, (r.state.timers.erase id).get? id' = some timer →
        r.state.timers.get? id' = some timer := by
      intro id' timer htimer
      rw [Dict.get?_erase] at htimer
      split at htimer
      · cases htimer
      · exact htimer
    exact {
      number := fun htimer => h.number (hlive htimer)
      queued := fun htimer => h.queued (hlive htimer)
      queued_number := h.queued_number
      mark := fun hmem => ⟨(h.mark (hmarks hmem)).1, (h.mark (hmarks hmem)).2.trans hnow⟩
      sorted := hsorted
      timer := fun hmem htimer => h.timer (hmarks hmem) (hlive htimer)
      fired := fun hf => ⟨by simp [(h.fired (hfired hf)).1], (h.fired (hfired hf)).2⟩
      gone := by
        intro id' jsId' now' delay hmem hnone
        by_cases heq : id' = id
        · obtain ⟨now'', delay', hnamed⟩ := h.named hid
          subst heq
          exact .inl ⟨jsId, now'', delay', (List.singleton_sublist.2 hnamed).cons_cons _⟩
        · rw [Dict.get?_erase, if_neg heq] at hnone
          exact (h.gone (hmarks hmem) hnone).imp Cleared.cons Fired.cons
      named := by
        intro jsId' id' hnamed
        rw [Dict.get?_erase] at hnamed
        split at hnamed
        · cases hnamed
        · obtain ⟨now', delay, hmem⟩ := h.named hnamed
          exact ⟨now', delay, List.mem_cons_of_mem _ hmem⟩ }

theorem get?_pick {id id' : TimerId} {timer : Timer} :
    (r.state.pick id).timers.get? id' = some timer ↔ ∃ timer', r.state.timers.get? id' = some timer' ∧
      timer = if id' = id then { timer' with fired := true } else timer' := by
  simp only [Timers.pick, Dict.get?_modify]
  split
  next heq =>
    subst heq
    rw [Option.map_eq_some_iff]
    exact exists_congr fun _ => and_congr_right fun _ => eq_comm
  · simp

theorem Sound.pick (h : r.Sound latest) (hnow : r.now ≤ now) {id : TimerId} {picked : Timer}
    (hpicked : r.state.timers.get? id = some picked) :
    Sound latest { r with state := r.state.pick id, now := now } where
  number := by
    intro id' timer htimer
    obtain ⟨timer', htimer', -⟩ := get?_pick.1 htimer
    exact h.number htimer'
  queued := by
    intro id' timer htimer
    obtain ⟨timer', htimer', rfl⟩ := get?_pick.1 htimer
    simp only [Timers.pick, List.mem_append, List.mem_singleton, TimerTask.timer.injEq]
    split
    next heq => simp [heq]
    next hne => simp [hne, h.queued htimer']
  queued_number := by
    intro id' hmem
    rcases List.mem_append.1 hmem with hmem | hmem
    · exact h.queued_number hmem
    · cases List.mem_singleton.1 hmem
      exact h.number hpicked
  mark := fun hmem => ⟨(h.mark hmem).1, (h.mark hmem).2.trans hnow⟩
  sorted := h.sorted
  timer := by
    intro id' jsId now delay timer hmem htimer
    obtain ⟨timer', htimer', rfl⟩ := get?_pick.1 htimer
    obtain ⟨hjsId, hwhen⟩ := h.timer hmem htimer'
    split <;> exact ⟨hjsId, hwhen⟩
  fired := by
    intro id' hfired
    refine ⟨Option.eq_none_iff_forall_ne_some.2 fun timer htimer => ?_, (h.fired hfired).2⟩
    obtain ⟨timer', htimer', -⟩ := get?_pick.1 htimer
    rw [(h.fired hfired).1] at htimer'
    cases htimer'
  gone := by
    intro id' jsId now delay hmem hnone
    refine h.gone hmem (Option.eq_none_iff_forall_ne_some.2 fun timer htimer => ?_)
    rw [get?_pick.2 ⟨timer, htimer, rfl⟩] at hnone
    cases hnone
  named := h.named

/-- The marks after the task of `id` has run. -/
def ranMarks (r : TimerRun) (id : TimerId) : List TimerMark :=
  (r.state.firing id).elim r.marks fun jsId => .fired id jsId :: r.marks

theorem mem_ranMarks {id : TimerId} {m : TimerMark} : m ∈ r.ranMarks id ↔
    m ∈ r.marks ∨ ∃ jsId, r.state.firing id = some jsId ∧ m = .fired id jsId := by
  rw [ranMarks]
  cases r.state.firing id with
  | none => simp
  | some jsId => simp [or_comm]

theorem Sound.runTimer (h : r.Sound latest) {id : TimerId} {rest : List TimerTask}
    (htasks : r.state.tasks = .timer id :: rest) :
    Sound latest { r with
      state := { r.state with tasks := rest }.runTimer id
      marks := r.ranMarks id } := by
  have hlive : ∀ {id' timer}, (r.state.timers.erase id).get? id' = some timer →
      id' ≠ id ∧ r.state.timers.get? id' = some timer := by
    intro id' timer htimer
    rw [Dict.get?_erase] at htimer
    split at htimer
    · cases htimer
    next hne => exact ⟨hne, htimer⟩
  have hscheduled : ∀ {id' : TimerId} {jsId : PageTimerId} {now : Instant} {delay : Nat},
      .scheduled id' jsId now delay ∈ r.ranMarks id → .scheduled id' jsId now delay ∈ r.marks :=
    fun hmem => (mem_ranMarks.1 hmem).resolve_right (by rintro ⟨_, _, ⟨⟩⟩)
  have hcons : r.ranMarks id = r.marks ∨ ∃ jsId, r.ranMarks id = .fired id jsId :: r.marks := by
    rw [ranMarks]
    cases r.state.firing id with
    | none => exact .inl rfl
    | some jsId => exact .inr ⟨jsId, rfl⟩
  have hrest : ∀ {id'}, id' ≠ id → (.timer id' ∈ r.state.tasks ↔ .timer id' ∈ rest) := by
    intro id' hne
    simp [htasks, hne]
  exact {
    number := fun htimer => h.number (hlive htimer).2
    queued := fun htimer => (h.queued (hlive htimer).2).trans (hrest (hlive htimer).1)
    queued_number := fun hmem => h.queued_number (htasks ▸ List.mem_cons_of_mem _ hmem)
    mark := fun hmem => h.mark (hscheduled hmem)
    sorted := by
      obtain heq | ⟨jsId, heq⟩ := hcons
      · rw [heq]
        exact h.sorted
      · rw [heq]
        exact sorted_cons h (by rintro _ _ _ _ ⟨⟩)
    timer := fun hmem htimer => h.timer (hscheduled hmem) (hlive htimer).2
    fired := by
      rintro id' ⟨jsId, hmem⟩
      simp only [Timers.runTimer, Dict.get?_erase]
      obtain hmem | ⟨jsId', -, heq⟩ := mem_ranMarks.1 hmem
      · obtain ⟨hnone, hlt⟩ := h.fired ⟨jsId, hmem⟩
        exact ⟨by rw [hnone, ite_self], hlt⟩
      · cases heq
        exact ⟨if_pos rfl, h.queued_number (htasks ▸ List.mem_cons_self)⟩
    gone := by
      intro id' jsId now delay hmem hnone
      have holder : Cleared r.marks id' ∨ Fired r.marks id' →
          Cleared (r.ranMarks id) id' ∨ Fired (r.ranMarks id) id' := by
        obtain heq | ⟨jsId, heq⟩ := hcons
        · rw [heq]
          exact fun h => h
        · rw [heq]
          exact Or.imp Cleared.cons Fired.cons
      cases htimer : r.state.timers.get? id' with
      | none => exact holder (h.gone (hscheduled hmem) htimer)
      | some timer =>
        have heq : id' = id := by
          by_contra hne
          simp only [Timers.runTimer, Dict.get?_erase, if_neg hne] at hnone
          rw [htimer] at hnone
          cases hnone
        subst heq
        refine .inr ⟨jsId, mem_ranMarks.2 (.inr ⟨jsId, ?_, rfl⟩)⟩
        rw [Timers.firing, htimer]
        exact (h.timer (hscheduled hmem) htimer).1
    named := by
      intro jsId id' hnamed
      have hold : r.state.jsTimers.get? jsId = some id' := by
        change ((r.state.firing id).elim r.state.jsTimers r.state.jsTimers.erase).get? jsId = _ at hnamed
        cases hfiring : r.state.firing id with
        | none => rwa [hfiring] at hnamed
        | some jsId' =>
          rw [hfiring, Option.elim_some, Dict.get?_erase] at hnamed
          split at hnamed
          · cases hnamed
          · exact hnamed
      obtain ⟨now, delay, hmem⟩ := h.named hold
      exact ⟨now, delay, mem_ranMarks.2 (.inl hmem)⟩ }

theorem Sound.runTask (h : r.Sound latest) (hrun : r.runTask = some r') : r'.Sound latest := by
  rw [TimerRun.runTask] at hrun
  split at hrun
  · cases hrun
  next rest htasks =>
    cases hrun
    exact { h with
      queued := fun htimer => by simpa [htasks] using h.queued htimer
      queued_number := fun hmem => h.queued_number (htasks ▸ List.mem_cons_of_mem _ hmem) }
  next id rest htasks =>
    cases hrun
    exact h.runTimer htasks

theorem adoptNext_eq {request : TimerRequest} {rest : List TimerRequest}
    (houtbox : r.state.outbox = request :: rest) (hadopt : r.adoptNext latest now = some r') :
    r' = { r with
      state := { r.state with outbox := rest }.applyRealmRequest latest now request
      now := now
      marks := requestMark now r.state.nextTimerId request ++ r.marks } := by
  rw [adoptNext, houtbox] at hadopt
  exact (Option.some.inj hadopt).symm

theorem Sound.adoptNext (h : r.Sound latest) (hnow : r.now ≤ now)
    (hadopt : r.adoptNext latest now = some r') : r'.Sound latest := by
  cases houtbox : r.state.outbox with
  | nil => rw [TimerRun.adoptNext, houtbox] at hadopt; cases hadopt
  | cons request rest =>
    obtain rfl := adoptNext_eq houtbox hadopt
    have hrest : Sound latest { r with state := { r.state with outbox := rest } } := { h with }
    cases request with
    | timer jsId delay => exact hrest.adopt_timer hnow jsId delay
    | clearTimer jsId => exact hrest.adopt_clearTimer hnow jsId
    | other => exact { hrest with mark := fun hmem => ⟨(h.mark hmem).1, (h.mark hmem).2.trans hnow⟩ }

theorem mem_due {s : Timers} {id : TimerId} {when : Instant} : (id, when) ∈ s.due now ↔
    ∃ timer, s.timers.get? id = some timer ∧ timer.fired = false ∧ timer.when = some when ∧
      when ≤ now := by
  rw [due, List.mem_filterMap]
  constructor
  · rintro ⟨⟨id', timer⟩, hmem, heq⟩
    dsimp only at heq
    rw [Option.ite_none_left_eq_some, Option.map_eq_some_iff] at heq
    obtain ⟨hfired, when', hwhen, heq⟩ := heq
    cases heq
    obtain ⟨hwhen, hle⟩ := Option.filter_eq_some_iff.1 hwhen
    exact ⟨timer, (Dict.get?_eq_some_iff _ _ _).2 hmem, by simpa using hfired, hwhen, by simpa using hle⟩
  · rintro ⟨timer, hget, hfired, hwhen, hle⟩
    exact ⟨(id, timer), (Dict.get?_eq_some_iff _ _ _).1 hget, by simp [hfired, hwhen, Option.filter, hle]⟩

theorem Sound.step (h : r.Sound latest) {event : TimerEvent}
    (hstep : step latest r event = some r') : r'.Sound latest := by
  cases event with
  | request request =>
    cases hstep
    exact { h with }
  | adopt now =>
    rw [TimerRun.step] at hstep
    split at hstep
    · cases hstep
    next hnow => exact h.adoptNext (Nat.not_lt.1 hnow) hstep
  | due id now =>
    rw [TimerRun.step] at hstep
    split at hstep
    · cases hstep
    next hpick =>
      rw [not_or, not_not, Nat.not_lt] at hpick
      cases hstep
      obtain ⟨⟨_, when⟩, hdue, rfl, -⟩ := hpick.2
      obtain ⟨timer, htimer, -⟩ := mem_due.1 hdue
      exact h.pick hpick.1 htimer
  | queue =>
    cases hstep
    exact { h with
      queued := fun htimer => by simpa using h.queued htimer
      queued_number := fun hmem => h.queued_number (by simpa using hmem) }
  | run => exact h.runTask hstep
  | armRefresh delay now =>
    rw [TimerRun.step] at hstep
    split at hstep
    · cases hstep
    next hnow =>
      rw [not_or, Nat.not_lt] at hnow
      cases hstep
      exact { h.scheduleTimer hnow.1 delay none with }

end TimerRun

end TinyBrowser
