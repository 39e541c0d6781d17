import TinyBrowser.Dial.Network
import TinyBrowser.Lib.Machine
import Mathlib.Algebra.Order.BigOperators.Group.List
import Mathlib.Algebra.Order.Group.Nat

/-!
# Keepalive reservations under concurrency

`KeepaliveReservation` of `crates/browser/src/network.rs` with one atomic access of
`KEEPALIVE_IN_FLIGHT` for each step: any number of dials are at some point of `acquire` or hold what
it gave them, and their loads, exchanges and subtractions come in any order. `acquireKeepalive` is
what one dial gets that nobody interrupts (`exchange_load`).
-/

namespace TinyBrowser
open Lib.Machine

/-- Where one dial is with its reservation. -/
inductive KeepaliveTask where
  /-- It has called `acquire`. -/
  | acquiring (request : DialRequest)
  /-- It is in the loop, with the last value it saw. -/
  | trying (length current : Nat)
  | holding (length : Nat)
  | dropped
  | unneeded
  | refused (length : Nat)

/-- A task's next access of the counter. -/
inductive KeepaliveAccess where
  | load
  /-- `compare_exchange_weak`, which may fail although the counter has the value. -/
  | exchange (spurious : Bool)
  | drop
deriving DecidableEq

namespace KeepaliveTask

/-- The bytes of the reservation that the task has. -/
@[simp] def held : KeepaliveTask → Nat
  | holding length => length
  | _ => 0

/-- The task is in an acquisition of so many bytes. -/
def Acquires (length : Nat) : KeepaliveTask → Prop
  | acquiring request => request.keepalive = true ∧ request.bodyLen = length
  | trying n _ => n = length
  | _ => False

/-- `fetch_sub`, which wraps around. -/
def fetchSub (counter length : Nat) : Nat := (counter + (u64Max + 1) - length) % (u64Max + 1)

/-- `acquire` up to its loop. -/
def load (counter : Nat) (request : DialRequest) : KeepaliveTask :=
  if !request.keepalive then unneeded
  else if u64Max < request.bodyLen then refused request.bodyLen
  else if keepaliveQuota < request.bodyLen then refused request.bodyLen
  else trying request.bodyLen counter

/-- One turn of the loop. -/
def exchange (counter : Nat) (spurious : Bool) (length current : Nat) : Nat × KeepaliveTask :=
  if u64Max < current + length then (counter, refused length)
  else if keepaliveQuota < current + length then (counter, refused length)
  else if counter = current ∧ spurious = false then (current + length, holding length)
  else (counter, trying length counter)

/-- The counter and the task after one access. -/
def access (counter : Nat) : KeepaliveAccess → KeepaliveTask → Option (Nat × KeepaliveTask)
  | .load, acquiring request => some (counter, load counter request)
  | .exchange spurious, trying length current => some (exchange counter spurious length current)
  | .drop, holding length => some (fetchSub counter length, dropped)
  | _, _ => none

theorem fetchSub_of_le {counter length : Nat} (h : length ≤ counter) (hc : counter ≤ u64Max) :
    fetchSub counter length = counter - length := by
  unfold fetchSub
  rw [show counter + (u64Max + 1) - length = counter - length + (u64Max + 1) by omega,
    Nat.add_mod_right, Nat.mod_eq_of_lt (by omega)]

theorem keepaliveQuota_le : keepaliveQuota ≤ u64Max := by decide

theorem load_cases (counter : Nat) (request : DialRequest) :
    load counter request = unneeded ∨
    (load counter request = refused request.bodyLen ∧ request.keepalive = true ∧
      keepaliveQuota < request.bodyLen) ∨
    (load counter request = trying request.bodyLen counter ∧ request.keepalive = true) := by
  have hmax := keepaliveQuota_le
  unfold load
  split_ifs with hk hu hq
  · exact .inl rfl
  · exact .inr (.inl ⟨rfl, by simpa using hk, by omega⟩)
  · exact .inr (.inl ⟨rfl, by simpa using hk, hq⟩)
  · exact .inr (.inr ⟨rfl, by simpa using hk⟩)

theorem exchange_cases (counter : Nat) (spurious : Bool) (length current : Nat) :
    (exchange counter spurious length current = (counter, refused length) ∧
      keepaliveQuota < current + length) ∨
    (exchange counter spurious length current = (counter + length, holding length) ∧
      counter + length ≤ keepaliveQuota) ∨
    exchange counter spurious length current = (counter, trying length counter) := by
  have hmax := keepaliveQuota_le
  unfold exchange
  split_ifs with hu hq he
  · exact .inl ⟨rfl, by omega⟩
  · exact .inl ⟨rfl, hq⟩
  · obtain ⟨rfl, -⟩ := he
    exact .inr (.inl ⟨rfl, by omega⟩)
  · exact .inr (.inr rfl)

variable {counter counter' rest : Nat} {task task' : KeepaliveTask} {a : KeepaliveAccess}

theorem access_cases (h : access counter a task = some (counter', task')) :
    (∃ request, task = acquiring request ∧ counter' = counter ∧ task' = load counter request) ∨
    (∃ spurious length current, task = trying length current ∧
      exchange counter spurious length current = (counter', task')) ∨
    (∃ length, task = holding length ∧ counter' = fetchSub counter length ∧ task' = dropped) := by
  cases a <;> cases task <;> simp only [access, Option.some.injEq, Prod.mk.injEq, reduceCtorEq] at h
  · exact .inl ⟨_, rfl, h.1.symm, h.2.symm⟩
  · exact .inr (.inl ⟨_, _, _, rfl, h⟩)
  · exact .inr (.inr ⟨_, rfl, h.1.symm, h.2.symm⟩)

theorem access_held (h : access counter a task = some (counter', task'))
    (hc : counter = rest + task.held) (hq : counter ≤ keepaliveQuota) :
    counter' = rest + task'.held ∧ counter' ≤ keepaliveQuota := by
  have hmax := keepaliveQuota_le
  rcases access_cases h with ⟨request, rfl, rfl, rfl⟩ | ⟨spurious, length, current, rfl, hex⟩ |
    ⟨length, rfl, rfl, rfl⟩
  · refine ⟨?_, hq⟩
    rcases load_cases counter' request with hl | ⟨hl, -⟩ | ⟨hl, -⟩ <;> rw [hl] <;> exact hc
  · simp only [held] at hc
    rcases exchange_cases counter spurious length current with ⟨he, -⟩ | ⟨he, hle⟩ | he <;>
      obtain ⟨rfl, rfl⟩ := Prod.mk.inj (he.symm.trans hex) <;> simp only [held] <;> omega
  · simp only [held] at hc ⊢
    rw [fetchSub_of_le (by omega) (by omega)]
    omega

theorem access_trying {length current : Nat}
    (h : access counter a task = some (counter', trying length current)) :
    task.Acquires length ∧ current = counter := by
  rcases access_cases h with ⟨request, rfl, -, ht⟩ | ⟨spurious, n, seen, rfl, hex⟩ | ⟨n, -, -, ht⟩
  · rcases load_cases counter request with hl | ⟨hl, -⟩ | ⟨hl, hk⟩ <;> rw [hl] at ht <;> cases ht
    exact ⟨⟨hk, rfl⟩, rfl⟩
  · rcases exchange_cases counter spurious n seen with ⟨he, -⟩ | ⟨he, -⟩ | he <;>
      rw [he] at hex <;> cases hex
    exact ⟨rfl, rfl⟩
  · cases ht

theorem access_refused {length : Nat}
    (h : access counter a task = some (counter', refused length)) :
    task.Acquires length ∧ (keepaliveQuota < length ∨
      ∃ current, task = trying length current ∧ keepaliveQuota < current + length) := by
  rcases access_cases h with ⟨request, rfl, -, ht⟩ | ⟨spurious, n, seen, rfl, hex⟩ | ⟨n, -, -, ht⟩
  · rcases load_cases counter request with hl | ⟨hl, hk, hq⟩ | ⟨hl, -⟩ <;> rw [hl] at ht <;> cases ht
    exact ⟨⟨hk, rfl⟩, .inl hq⟩
  · rcases exchange_cases counter spurious n seen with ⟨he, hq⟩ | ⟨he, -⟩ | he <;>
      rw [he] at hex <;> cases hex
    exact ⟨rfl, .inr ⟨seen, rfl, hq⟩⟩
  · cases ht

end KeepaliveTask

/-- The counter of the process and every task that ever called `acquire`. -/
structure Keepalives where
  inFlight : Nat
  tasks : List KeepaliveTask

inductive KeepaliveStep where
  | acquire (request : DialRequest)
  | access (task : Nat) (a : KeepaliveAccess)

namespace Keepalives
open KeepaliveTask

def new : Keepalives := ⟨0, []⟩

/-- The sizes of the live reservations. -/
def live (s : Keepalives) : Nat := (s.tasks.map held).sum

def step (s : Keepalives) : KeepaliveStep → Option Keepalives
  | .acquire request => some { s with tasks := s.tasks ++ [acquiring request] }
  | .access i a => do
    let task ← s.tasks[i]?
    let (counter, task) ← KeepaliveTask.access s.inFlight a task
    some ⟨counter, s.tasks.set i task⟩

/-- In some state of the run task `i` is acquiring so many bytes and what is live satisfies `P`. -/
def Saw (i length : Nat) (P : Nat → Prop) (steps : List KeepaliveStep) : Prop :=
  Passed step (fun s => (∃ task, s.tasks[i]? = some task ∧ task.Acquires length) ∧ P s.live)
    new steps

theorem live_append (counter : Nat) (tasks : List KeepaliveTask) (task : KeepaliveTask) :
    live ⟨counter, tasks ++ [task]⟩ = live ⟨counter, tasks⟩ + task.held := by
  simp [live]

theorem exists_live_set {tasks : List KeepaliveTask} {i : Nat} {task : KeepaliveTask}
    (h : tasks[i]? = some task) (counter : Nat) :
    ∃ rest, live ⟨counter, tasks⟩ = rest + task.held ∧
      ∀ counter' task', live ⟨counter', tasks.set i task'⟩ = rest + task'.held := by
  induction tasks generalizing i with
  | nil => simp at h
  | cons t tasks ih =>
    cases i with
    | zero =>
      obtain rfl : t = task := by simpa using h
      refine ⟨(tasks.map held).sum, ?_, fun counter' task' => ?_⟩
      · simp [live, Nat.add_comm]
      · simp [live, Nat.add_comm]
    | succ i =>
      obtain ⟨rest, heq, hset⟩ := ih (i := i) (by simpa using h)
      refine ⟨t.held + rest, ?_, fun counter' task' => ?_⟩
      · simp only [live, List.map_cons, List.sum_cons] at heq ⊢
        omega
      · have := hset counter' task'
        simp only [live, List.set_cons_succ, List.map_cons, List.sum_cons] at this ⊢
        omega

/-- What a task that has read the counter, or has been refused, goes back to. -/
def Justified (steps : List KeepaliveStep) (i : Nat) : KeepaliveTask → Prop
  | trying length current => Saw i length (· = current) steps
  | refused length => Saw i length (fun live => keepaliveQuota < live + length) steps
  | _ => True

structure Inv (steps : List KeepaliveStep) (s : Keepalives) : Prop where
  live : s.inFlight = s.live
  quota : s.inFlight ≤ keepaliveQuota
  justified : ∀ i task, s.tasks[i]? = some task → Justified steps i task

theorem Justified.append {steps : List KeepaliveStep} {i : Nat} {task : KeepaliveTask}
    (h : Justified steps i task) (later : List KeepaliveStep) :
    Justified (steps ++ later) i task := by
  cases task with
  | trying => exact Passed.append h later
  | refused => exact Passed.append h later
  | _ => trivial

variable {steps : List KeepaliveStep} {s s' : Keepalives}

theorem Inv.justified_access (hinv : Inv steps s) (hrun : run step new steps = some s) {i : Nat}
    {task task' : KeepaliveTask} {a : KeepaliveAccess} {counter : Nat} (hi : s.tasks[i]? = some task)
    (ha : KeepaliveTask.access s.inFlight a task = some (counter, task')) :
    Justified steps i task' := by
  cases task' with
  | trying length current =>
    obtain ⟨hacq, rfl⟩ := access_trying ha
    exact passed_of_run hrun ⟨⟨task, hi, hacq⟩, hinv.live.symm⟩
  | refused length =>
    obtain ⟨hacq, hq | ⟨current, rfl, hq⟩⟩ := access_refused ha
    · exact passed_of_run hrun ⟨⟨task, hi, hacq⟩, by omega⟩
    · have hsaw : Saw i length (· = current) steps := hinv.justified i _ hi
      refine Passed.imp hsaw fun s₁ h => ⟨h.1, ?_⟩
      rw [h.2]
      exact hq
  | _ => trivial

theorem Inv.step (hinv : Inv steps s) (hrun : run step new steps = some s) {k : KeepaliveStep}
    (h : step s k = some s') : Inv (steps ++ [k]) s' := by
  cases k with
  | acquire request =>
    obtain rfl := Option.some.inj h
    refine ⟨?_, hinv.quota, fun i task hi => ?_⟩
    · rw [live_append]
      exact hinv.live
    · rw [List.getElem?_append] at hi
      split at hi
      · exact (hinv.justified i task hi).append [.acquire request]
      · rw [List.getElem?_singleton] at hi
        split at hi
        · obtain rfl := Option.some.inj hi
          trivial
        · cases hi
  | access j a =>
    obtain ⟨task, hj, h⟩ := Option.bind_eq_some_iff.1 h
    obtain ⟨⟨counter, task'⟩, ha, h⟩ := Option.bind_eq_some_iff.1 h
    obtain rfl := Option.some.inj h
    obtain ⟨rest, hlive, hset⟩ := exists_live_set hj s.inFlight
    have hheld := access_held ha (hinv.live.trans hlive) hinv.quota
    refine ⟨?_, hheld.2, fun i t hi => ?_⟩
    · rw [hset]
      exact hheld.1
    · refine Justified.append ?_ [.access j a]
      rw [List.getElem?_set] at hi
      split at hi
      · next heq =>
        subst heq
        split at hi
        · obtain rfl := Option.some.inj hi
          exact hinv.justified_access hrun hj ha
        · cases hi
      · exact hinv.justified i t hi

theorem inv_of_run (h : run Keepalives.step new steps = some s) : Inv steps s := by
  refine inv_run_past (fun l s₁ k s₂ hrun hinv hstep => hinv.step hrun hstep) ?_ h
  exact ⟨rfl, Nat.zero_le _, fun i task hi => by simp [new] at hi⟩

theorem held_le_live {task : KeepaliveTask} (h : task ∈ s.tasks) : task.held ≤ s.live :=
  List.single_le_sum (fun _ _ => Nat.zero_le _) _ (List.mem_map_of_mem h)

/-- In every run the counter is what the live reservations add up to, is within the quota, and is at
least what any one of them takes off it when it is dropped. A task that was refused was, at some
moment of its acquisition, one for which there was no room. -/
theorem inFlight_of_run (h : run Keepalives.step new steps = some s) :
    s.inFlight = s.live ∧ s.inFlight ≤ keepaliveQuota ∧
    (∀ length, .holding length ∈ s.tasks → length ≤ s.inFlight) ∧
    ∀ i length, s.tasks[i]? = some (.refused length) →
      Saw i length (fun live => keepaliveQuota < live + length) steps := by
  have hinv := inv_of_run h
  refine ⟨hinv.live, hinv.quota, fun length hmem => ?_, fun i length hi => hinv.justified i _ hi⟩
  rw [hinv.live]
  exact held_le_live hmem

/-- Two dials race: the second loads before the first has its reservation, is sent round the loop by
the first's exchange, and finds no room. -/
theorem inFlight_of_run_race :
    let request := { DialRequest.new (.image none) Url.sample with keepalive := true, bodyLen := 40000 }
    Saw 1 40000 (fun live => keepaliveQuota < live + 40000)
      [.acquire request, .acquire request, .access 0 .load, .access 1 .load,
        .access 0 (.exchange true), .access 0 (.exchange false), .access 1 (.exchange false),
        .access 1 (.exchange false)] :=
  (inFlight_of_run (s := ⟨40000, [.holding 40000, .refused 40000]⟩)
    (by simp [run, Keepalives.step, new, KeepaliveTask.access, load,
      KeepaliveTask.exchange, keepaliveQuota, u64Max])
    ).2.2.2 1 40000 rfl

end Keepalives
end TinyBrowser
