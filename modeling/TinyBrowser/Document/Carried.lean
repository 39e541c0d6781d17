import Mathlib.Data.List.Perm.Basic
import TinyBrowser.Document.Dials

/-!
# Every dial is settled once

A dial that was queued is either held by the ledger, queued or in flight, or it was settled: finished,
failed or cancelled. `Accounted` says so with multiplicities, and that the guards of the load delay
are those of the dials held. What a step does to the dials is `Accounted.opens` for the one it queues
and `Accounted.closes` for those it settles.

The result of a started dial is in one place: with its completion, in the channel, or in a task
(`outstanding`). `Carried` says that each is the only one of its dial, belongs to the dial that is
filed under its id, and has not been handled; `Kept` that every stream that arrived is still on its
way to a reader, was handed to `finish_dial`, or was cancelled.
-/

namespace TinyBrowser
open Lib

namespace DialEvent

def settles : DialEvent → Option Nat
  | .finished dial _ | .failed dial | .cancelled dial => some dial
  | .queued .. | .completed .. | .streamCancelled .. => none

def opens : DialEvent → Option (Nat × DialContext)
  | .queued dial context => some (dial, context)
  | _ => none

end DialEvent

/-- The dials that were finished, failed or cancelled, in this order. -/
def settledDials (log : List DialEvent) : List Nat := log.filterMap DialEvent.settles

theorem settledDials_append (log events : List DialEvent) :
    settledDials (log ++ events) = settledDials log ++ settledDials events := List.filterMap_append

/-- Events that queue no dial. -/
def OpensNone (events : List DialEvent) : Prop := ∀ e ∈ events, e.opens = none

theorem OpensNone.queued_mem {events log : List DialEvent} (h : OpensNone events) {n : Nat}
    {context : DialContext} :
    .queued n context ∈ log ++ events ↔ .queued n context ∈ log := by
  rw [List.mem_append]
  refine or_iff_left fun hmem => ?_
  cases h _ hmem

theorem settledDials_cancelled (gone : List InFlightDial) :
    settledDials (gone.map fun dial => .cancelled dial.number) = gone.map InFlightDial.number := by
  induction gone with
  | nil => rfl
  | cons dial gone ih => exact congrArg (dial.number :: ·) ih

theorem opensNone_cancelled (gone : List InFlightDial) :
    OpensNone (gone.map fun dial => .cancelled dial.number) := by
  intro e he
  obtain ⟨dial, -, rfl⟩ := List.mem_map.1 he
  rfl

/-! ### Guards -/

namespace LoadDelay

theorem drop_all {gone live : List InFlightDial} (delay : LoadDelay)
    (h : delay.guards.Perm ((gone ++ live).filterMap InFlightDial.delay)) :
    (gone.foldl (fun delay dial => delay.drop dial.delay) delay).guards.Perm
      (live.filterMap InFlightDial.delay) := by
  induction gone generalizing delay with
  | nil => exact h
  | cons dial gone ih =>
    refine ih (delay.drop dial.delay) ?_
    rw [List.cons_append] at h
    cases hdelay : dial.delay with
    | none =>
      rw [List.filterMap_cons_none hdelay] at h
      exact h
    | some guard =>
      rw [List.filterMap_cons_some hdelay] at h
      have herase := h.erase guard
      rw [List.erase_cons_head] at herase
      exact herase

end LoadDelay

/-! ### The invariant -/

/-- `live` are the dials that the ledger holds. -/
structure Accounted (live : List InFlightDial) (delay : LoadDelay) (log : List DialEvent)
    (count : Nat) : Prop where
  nodup : (live.map InFlightDial.number ++ settledDials log).Nodup
  held : ∀ n context, .queued n context ∈ log →
    (∃ dial ∈ live, dial.number = n ∧ dial.context = context) ∨ n ∈ settledDials log
  known : ∀ dial ∈ live, .queued dial.number dial.context ∈ log
  lt : ∀ n context, .queued n context ∈ log → n < count
  settled_lt : ∀ n ∈ settledDials log, n < count
  guard : ∀ dial ∈ live,
    dial.delay = if delaysLoad dial.context then some dial.number else none
  guards : delay.guards.Perm (live.filterMap InFlightDial.delay)

namespace Accounted
variable {live live' : List InFlightDial} {delay : LoadDelay} {log : List DialEvent} {count : Nat}

theorem number_lt (h : Accounted live delay log count) {dial : InFlightDial} (hd : dial ∈ live) :
    dial.number < count := h.lt _ _ (h.known dial hd)

theorem opens (h : Accounted live delay log count) (context : DialContext) {dial : InFlightDial}
    (hdial : dial = ⟨count, context, if delaysLoad context then some count else none⟩)
    (hlive : live'.Perm (dial :: live)) :
    Accounted live' (if delaysLoad context then delay.guard count else delay)
      (log ++ [.queued count context]) (count + 1) := by
  have hsettled : settledDials (log ++ [.queued count context]) = settledDials log := by
    rw [settledDials_append]
    exact List.append_nil _
  have hmem : ∀ d, d ∈ live' ↔ d = dial ∨ d ∈ live := fun d => by rw [hlive.mem_iff, List.mem_cons]
  constructor
  · rw [hsettled]
    refine (List.Perm.nodup_iff ((hlive.map _).append_right _)).2 ?_
    rw [List.map_cons, List.cons_append, List.nodup_cons, List.mem_append, not_or]
    refine ⟨⟨fun hin => ?_, fun hin => ?_⟩, h.nodup⟩
    · obtain ⟨d, hd, hnumber⟩ := List.mem_map.1 hin
      have := h.number_lt hd
      rw [hnumber, hdial] at this
      exact Nat.lt_irrefl _ this
    · have := h.settled_lt _ hin
      rw [hdial] at this
      exact Nat.lt_irrefl _ this
  · intro n c hc
    rw [hsettled]
    rcases List.mem_append.1 hc with hc | hc
    · refine (h.held n c hc).imp_left fun ⟨d, hd, hn⟩ => ⟨d, (hmem d).2 (.inr hd), hn⟩
    · cases List.mem_singleton.1 hc
      exact .inl ⟨dial, (hmem dial).2 (.inl rfl), by rw [hdial], by rw [hdial]⟩
  · intro d hd
    rcases (hmem d).1 hd with rfl | hd
    · rw [hdial]
      exact List.mem_append_right _ List.mem_cons_self
    · exact List.mem_append_left _ (h.known d hd)
  · intro n c hc
    rcases List.mem_append.1 hc with hc | hc
    · exact Nat.lt_succ_of_lt (h.lt n c hc)
    · cases List.mem_singleton.1 hc
      exact Nat.lt_succ_self _
  · intro n hn
    rw [hsettled] at hn
    exact Nat.lt_succ_of_lt (h.settled_lt n hn)
  · intro d hd
    rcases (hmem d).1 hd with rfl | hd
    · rw [hdial]
    · exact h.guard d hd
  · have hperm := hlive.filterMap InFlightDial.delay
    refine List.Perm.trans ?_ hperm.symm
    cases hdelays : delaysLoad context with
    | false =>
      rw [List.filterMap_cons_none (by rw [hdial, hdelays]; rfl), if_neg Bool.false_ne_true]
      exact h.guards
    | true =>
      rw [List.filterMap_cons_some (b := count) (by rw [hdial, hdelays]; rfl), if_pos rfl]
      exact (List.perm_append_singleton _ _).trans (h.guards.cons _)

/-- The dials in `gone` are settled. -/
theorem closes (h : Accounted live delay log count) (gone : List InFlightDial)
    {events : List DialEvent} (hlive : live.Perm (gone ++ live'))
    (hsettled : settledDials events = gone.map InFlightDial.number) (hopens : OpensNone events) :
    Accounted live' (gone.foldl (fun delay dial => delay.drop dial.delay) delay) (log ++ events)
      count := by
  have hmem : ∀ d ∈ live', d ∈ live := fun d hd => hlive.mem_iff.2 (List.mem_append_right _ hd)
  constructor
  · have hperm : (live.map InFlightDial.number ++ settledDials log).Perm
        (live'.map InFlightDial.number ++ settledDials (log ++ events)) := by
      rw [settledDials_append, hsettled]
      refine ((hlive.map _).append_right _).trans ?_
      rw [List.map_append, List.append_assoc]
      refine List.perm_append_comm.trans ?_
      rw [List.append_assoc]
    exact hperm.nodup_iff.1 h.nodup
  · intro n c hc
    rw [settledDials_append, hsettled, List.mem_append]
    rcases h.held n c (hopens.queued_mem.1 hc) with ⟨d, hd, hn, hcontext⟩ | hn
    · rcases List.mem_append.1 (hlive.mem_iff.1 hd) with hgone | hd
      · exact .inr (.inr (hn ▸ List.mem_map_of_mem hgone))
      · exact .inl ⟨d, hd, hn, hcontext⟩
    · exact .inr (.inl hn)
  · exact fun d hd => List.mem_append_left _ (h.known d (hmem d hd))
  · exact fun n c hc => h.lt n c (hopens.queued_mem.1 hc)
  · intro n hn
    rw [settledDials_append, hsettled] at hn
    rcases List.mem_append.1 hn with hn | hn
    · exact h.settled_lt n hn
    · obtain ⟨d, hd, rfl⟩ := List.mem_map.1 hn
      exact h.number_lt (hlive.mem_iff.2 (List.mem_append_left _ hd))
  · exact fun d hd => h.guard d (hmem d hd)
  · exact LoadDelay.drop_all delay (h.guards.trans (hlive.filterMap _))

theorem logs (h : Accounted live delay log count) {events : List DialEvent}
    (hlive : live.Perm live') (hsettled : settledDials events = []) (hopens : OpensNone events) :
    Accounted live' delay (log ++ events) count := h.closes [] hlive hsettled hopens

theorem perm (h : Accounted live delay log count) (hlive : live.Perm live') :
    Accounted live' delay log count := by
  rw [← List.append_nil log]
  exact h.logs hlive rfl (by rintro _ ⟨⟩)

theorem delays_sublist (h : ∀ dial ∈ live,
      dial.delay = if delaysLoad dial.context then some dial.number else none) :
    (live.filterMap InFlightDial.delay).Sublist (live.map InFlightDial.number) := by
  induction live with
  | nil => exact List.Sublist.slnil
  | cons dial live ih =>
    obtain ⟨hdial, hlive⟩ := List.forall_mem_cons.1 h
    cases hdelays : delaysLoad dial.context with
    | false =>
      rw [List.filterMap_cons_none (by rw [hdial, hdelays]; rfl)]
      exact (ih hlive).cons _
    | true =>
      rw [List.filterMap_cons_some (b := dial.number) (by rw [hdial, hdelays]; rfl), List.map_cons]
      exact (ih hlive).cons_cons _

theorem nodup_guards (h : Accounted live delay log count) : delay.guards.Nodup := by
  exact h.guards.nodup_iff.2 ((List.nodup_append.1 h.nodup).1.sublist (delays_sublist h.guard))

theorem mem_guards (h : Accounted live delay log count) {n : Nat} :
    n ∈ delay.guards ↔
      ∃ context, .queued n context ∈ log ∧ delaysLoad context = true ∧ n ∉ settledDials log := by
  rw [h.guards.mem_iff, List.mem_filterMap]
  constructor
  · rintro ⟨dial, hdial, hdelay⟩
    rw [h.guard dial hdial] at hdelay
    split at hdelay
    · rename_i hdelays
      cases hdelay
      refine ⟨dial.context, h.known dial hdial, hdelays, fun hsettled => ?_⟩
      exact (List.nodup_append.1 h.nodup).2.2 _ (List.mem_map_of_mem hdial) _ hsettled rfl
    · cases hdelay
  · rintro ⟨context, hqueued, hdelays, hsettled⟩
    obtain ⟨dial, hdial, rfl, rfl⟩ := (h.held n context hqueued).resolve_right hsettled
    exact ⟨dial, hdial, by rw [h.guard dial hdial, if_pos hdelays]⟩

end Accounted

/-! ### Completions on their way -/

/-- A result that has not reached its end, of the present ledger or of one that was replaced. -/
structure Outstanding where
  number : Nat
  id : DialId
  current : Bool
  result : Option (Except DialContext CompletedDial)

def Outstanding.stream (o : Outstanding) : Option StreamId := o.result.bind resultStream

def DialMessage.outstanding (message : DialMessage) : Outstanding :=
  ⟨message.number, message.id, true, some message.result⟩

def Flight.outstanding (generation number : Nat) (flight : Flight) : Outstanding :=
  ⟨number, flight.id, flight.generation = generation, flight.counted⟩

def DocumentDials.outstanding (s : DocumentDials) : List Outstanding :=
  s.flights.pairs.map (fun (number, flight) => flight.outstanding s.generation number) ++
    (s.dials.channel ++ s.tasks.map DialTask.message).map DialMessage.outstanding

/-- The dial whose result reached its end. -/
def DialEvent.handles : DialEvent → Option Nat
  | .finished dial _ | .streamCancelled dial _ => some dial
  | .queued .. | .completed .. | .failed _ | .cancelled _ => none

def handledDials (log : List DialEvent) : List Nat := log.filterMap DialEvent.handles

theorem handledDials_append (log events : List DialEvent) :
    handledDials (log ++ events) = handledDials log ++ handledDials events := List.filterMap_append

/-! ### Each result once -/

structure Carried (outs : List Outstanding) (inFlight : Dict DialId InFlightDial)
    (queued : List Nat) (nextId count : Nat) (log : List DialEvent) : Prop where
  nodup : (outs.map Outstanding.number).Nodup
  lt : ∀ o ∈ outs, o.number < count
  unqueued : ∀ o ∈ outs, o.number ∉ queued
  unhandled : ∀ o ∈ outs, o.number ∉ handledDials log
  filed : ∀ o ∈ outs, o.current = true →
    o.id < nextId ∧ ∀ dial, inFlight.get? o.id = some dial → dial.number = o.number
  known : ∀ o ∈ outs, o.current = true → ∀ stream, o.stream = some stream →
    .completed o.number (some stream) ∈ log
  handled_lt : ∀ n ∈ handledDials log, n < count
  queued_unhandled : ∀ n ∈ queued, n ∉ handledDials log

namespace Carried
variable {outs outs' : List Outstanding} {inFlight inFlight' : Dict DialId InFlightDial}
  {queued queued' : List Nat} {nextId count count' : Nat} {log events : List DialEvent}

/-- Results reach their end, dials leave the ledger, others are queued. -/
theorem advance (h : Carried outs inFlight queued nextId count log) (gone : List Outstanding)
    (houts : outs.Perm (gone ++ outs'))
    (hinFlight : ∀ id dial, inFlight'.get? id = some dial → inFlight.get? id = some dial)
    (hqueued : ∀ n ∈ queued', n ∈ queued ∨ count ≤ n) (hcount : count ≤ count')
    (hevents : ∀ n ∈ handledDials events, n < count ∧ n ∉ queued' ∧ ∀ o ∈ outs', o.number ≠ n) :
    Carried outs' inFlight' queued' nextId count' (log ++ events) := by
  have hmem : ∀ o ∈ outs', o ∈ outs := fun o ho => houts.mem_iff.2 (List.mem_append_right _ ho)
  constructor
  · have hnodup := (houts.map Outstanding.number).nodup_iff.1 h.nodup
    rw [List.map_append] at hnodup
    exact (List.nodup_append.1 hnodup).2.1
  · exact fun o ho => Nat.lt_of_lt_of_le (h.lt o (hmem o ho)) hcount
  · intro o ho hin
    rcases hqueued _ hin with hin | hle
    · exact h.unqueued o (hmem o ho) hin
    · exact Nat.not_le.2 (h.lt o (hmem o ho)) hle
  · intro o ho hin
    rw [handledDials_append, List.mem_append] at hin
    rcases hin with hin | hin
    · exact h.unhandled o (hmem o ho) hin
    · exact (hevents _ hin).2.2 o ho rfl
  · intro o ho hcurrent
    obtain ⟨hid, hfiled⟩ := h.filed o (hmem o ho) hcurrent
    exact ⟨hid, fun dial hdial => hfiled dial (hinFlight _ dial hdial)⟩
  · intro o ho hcurrent stream hstream
    exact List.mem_append_left _ (h.known o (hmem o ho) hcurrent stream hstream)
  · intro n hn
    rw [handledDials_append, List.mem_append] at hn
    rcases hn with hn | hn
    · exact Nat.lt_of_lt_of_le (h.handled_lt n hn) hcount
    · exact Nat.lt_of_lt_of_le (hevents n hn).1 hcount
  · intro n hn hin
    rw [handledDials_append, List.mem_append] at hin
    rcases hin with hin | hin
    · rcases hqueued n hn with hn | hle
      · exact h.queued_unhandled n hn hin
      · exact Nat.not_le.2 (h.handled_lt n hin) hle
    · exact (hevents n hin).2.1 hn

theorem moves (h : Carried outs inFlight queued nextId count log) (gone : List Outstanding)
    (houts : outs.Perm (gone ++ outs')) : Carried outs' inFlight queued nextId count log := by
  rw [← List.append_nil log]
  exact h.advance gone houts (fun _ _ hd => hd) (fun _ hn => .inl hn) (Nat.le_refl _)
    (by rintro _ ⟨⟩)

theorem handled_gone {gone : List Outstanding} (h : Carried outs inFlight queued nextId count log)
    (houts : outs.Perm (gone ++ outs')) {n : Nat} (hn : n ∈ gone.map Outstanding.number) :
    n < count ∧ n ∉ queued ∧ ∀ o ∈ outs', o.number ≠ n := by
  obtain ⟨o, ho, rfl⟩ := List.mem_map.1 hn
  have hmem : o ∈ outs := houts.mem_iff.2 (List.mem_append_left _ ho)
  refine ⟨h.lt o hmem, h.unqueued o hmem, fun o' ho' heq => ?_⟩
  have hnodup := (houts.map Outstanding.number).nodup_iff.1 h.nodup
  rw [List.map_append] at hnodup
  exact (List.nodup_append.1 hnodup).2.2 _ hn _ (List.mem_map_of_mem ho') heq.symm

/-- A queued dial is started. -/
theorem starts (h : Carried outs inFlight queued nextId count log) (dial : InFlightDial)
    (hqueued : queued = dial.number :: queued') (hnodup : queued.Nodup) (hlt : dial.number < count)
    (houts : outs'.Perm (⟨dial.number, nextId, true, none⟩ :: outs)) :
    Carried outs' (inFlight.insert nextId dial) queued' (nextId + 1) count log := by
  subst hqueued
  obtain ⟨hnot, -⟩ := List.nodup_cons.1 hnodup
  have hmem : ∀ o, o ∈ outs' ↔ o = ⟨dial.number, nextId, true, none⟩ ∨ o ∈ outs := fun o => by
    rw [houts.mem_iff, List.mem_cons]
  constructor
  · refine (houts.map Outstanding.number).nodup_iff.2 ?_
    rw [List.map_cons, List.nodup_cons]
    refine ⟨fun hin => ?_, h.nodup⟩
    obtain ⟨o, ho, hnumber⟩ := List.mem_map.1 hin
    exact h.unqueued o ho (hnumber ▸ List.mem_cons_self)
  · intro o ho
    rcases (hmem o).1 ho with rfl | ho
    · exact hlt
    · exact h.lt o ho
  · intro o ho hin
    rcases (hmem o).1 ho with rfl | ho
    · exact hnot hin
    · exact h.unqueued o ho (List.mem_cons_of_mem _ hin)
  · intro o ho
    rcases (hmem o).1 ho with rfl | ho
    · exact h.queued_unhandled _ List.mem_cons_self
    · exact h.unhandled o ho
  · intro o ho hcurrent
    rcases (hmem o).1 ho with rfl | ho
    · refine ⟨Nat.lt_succ_self _, fun d hd => ?_⟩
      rw [Dict.get?_insert, if_pos rfl] at hd
      cases hd
      rfl
    · obtain ⟨hid, hfiled⟩ := h.filed o ho hcurrent
      refine ⟨Nat.lt_succ_of_lt hid, fun d hd => ?_⟩
      rw [Dict.get?_insert, if_neg (Nat.ne_of_lt hid)] at hd
      exact hfiled d hd
  · intro o ho hcurrent stream hstream
    rcases (hmem o).1 ho with rfl | ho
    · cases hstream
    · exact h.known o ho hcurrent stream hstream
  · exact h.handled_lt
  · exact fun n hn => h.queued_unhandled n (List.mem_cons_of_mem _ hn)

/-- A completion gets its result. -/
theorem completes {o : Outstanding} {rest : List Outstanding}
    {result : Except DialContext CompletedDial}
    (h : Carried outs inFlight queued nextId count log) (houts : outs.Perm (o :: rest))
    (houts' : outs'.Perm ({ o with result := some result } :: rest)) :
    Carried outs' inFlight queued nextId count
      (log ++ [.completed o.number (resultStream result)]) := by
  have hlog : handledDials (log ++ [.completed o.number (resultStream result)]) = handledDials log := by
    rw [handledDials_append]
    exact List.append_nil _
  have hmem : ∀ o' ∈ outs', o' = { o with result := some result } ∨ o' ∈ rest := fun o' ho' =>
    List.mem_cons.1 (houts'.mem_iff.1 ho')
  have hself : o ∈ outs := houts.mem_iff.2 List.mem_cons_self
  have hrest : ∀ o' ∈ rest, o' ∈ outs := fun o' ho' =>
    houts.mem_iff.2 (List.mem_cons_of_mem _ ho')
  constructor
  · have hnumbers : (outs'.map Outstanding.number).Perm (outs.map Outstanding.number) :=
      (houts'.map Outstanding.number).trans (houts.map Outstanding.number).symm
    exact hnumbers.nodup_iff.2 h.nodup
  · intro o' ho'
    rcases hmem o' ho' with rfl | ho'
    · exact h.lt o hself
    · exact h.lt o' (hrest o' ho')
  · intro o' ho'
    rcases hmem o' ho' with rfl | ho'
    · exact h.unqueued o hself
    · exact h.unqueued o' (hrest o' ho')
  · intro o' ho'
    rw [hlog]
    rcases hmem o' ho' with rfl | ho'
    · exact h.unhandled o hself
    · exact h.unhandled o' (hrest o' ho')
  · intro o' ho'
    rcases hmem o' ho' with rfl | ho'
    · exact h.filed o hself
    · exact h.filed o' (hrest o' ho')
  · intro o' ho' hcurrent stream hstream
    rcases hmem o' ho' with rfl | ho'
    · have hstream : resultStream result = some stream := hstream
      rw [hstream]
      exact List.mem_append_right _ List.mem_cons_self
    · exact List.mem_append_left _ (h.known o' (hrest o' ho') hcurrent stream hstream)
  · rw [hlog]
    exact h.handled_lt
  · rw [hlog]
    exact h.queued_unhandled

theorem resets (h : Carried outs inFlight queued nextId count log)
    (houts : (outs'.map Outstanding.number).Sublist (outs.map Outstanding.number))
    (hold : ∀ o ∈ outs', o.current = false) (hevents : handledDials events = []) :
    Carried outs' .empty [] 0 count (log ++ events) := by
  have hlog : handledDials (log ++ events) = handledDials log := by
    rw [handledDials_append, hevents, List.append_nil]
  have hnumber : ∀ o' ∈ outs', ∃ o ∈ outs, o.number = o'.number := fun o' ho' =>
    List.mem_map.1 (houts.subset (List.mem_map_of_mem ho'))
  constructor
  · exact h.nodup.sublist houts
  · intro o' ho'
    obtain ⟨o, ho, heq⟩ := hnumber o' ho'
    exact heq ▸ h.lt o ho
  · exact fun _ _ => List.not_mem_nil
  · intro o' ho'
    obtain ⟨o, ho, heq⟩ := hnumber o' ho'
    rw [hlog, ← heq]
    exact h.unhandled o ho
  · intro o' ho' hcurrent
    rw [hold o' ho'] at hcurrent
    cases hcurrent
  · intro o' ho' hcurrent
    rw [hold o' ho'] at hcurrent
    cases hcurrent
  · rw [hlog]
    exact h.handled_lt
  · rintro _ ⟨⟩

end Carried

/-! ### No stream is lost -/

/-- A stream that arrived is on its way to a reader, or `finish_dial` got it, or it was cancelled. -/
def Kept (outs : List Outstanding) (log : List DialEvent) : Prop :=
  ∀ n stream, .completed n (some stream) ∈ log →
    (∃ o ∈ outs, o.number = n ∧ o.current = true ∧ o.stream = some stream) ∨
      .finished n (some stream) ∈ log ∨ .streamCancelled n stream ∈ log

/-- Events that report no completion. -/
def CompletesNone (events : List DialEvent) : Prop := ∀ n stream, .completed n stream ∉ events

namespace Kept
variable {outs outs' : List Outstanding} {log events : List DialEvent}

theorem mono (h : Kept outs log) (houts : ∀ o ∈ outs, o ∈ outs') : Kept outs' log := by
  intro n stream hn
  refine (h n stream hn).imp_left ?_
  rintro ⟨o, ho, hrest⟩
  exact ⟨o, houts o ho, hrest⟩

theorem advance (h : Kept outs log) (gone : List Outstanding) (houts : outs.Perm (gone ++ outs'))
    (hnone : CompletesNone events)
    (hgone : ∀ o ∈ gone, o.current = true → ∀ stream, o.stream = some stream →
      .finished o.number (some stream) ∈ events ∨ .streamCancelled o.number stream ∈ events) :
    Kept outs' (log ++ events) := by
  intro n stream hn
  have hn : .completed n (some stream) ∈ log :=
    (List.mem_append.1 hn).resolve_right (hnone n (some stream))
  rcases h n stream hn with ⟨o, ho, rfl, hcurrent, hstream⟩ | hfinished | hcancelled
  · rcases List.mem_append.1 (houts.mem_iff.1 ho) with ho | ho
    · refine .inr ((hgone o ho hcurrent stream hstream).imp ?_ ?_)
      · exact List.mem_append_right _
      · exact List.mem_append_right _
    · exact .inl ⟨o, ho, rfl, hcurrent, hstream⟩
  · exact .inr (.inl (List.mem_append_left _ hfinished))
  · exact .inr (.inr (List.mem_append_left _ hcancelled))

theorem moves (h : Kept outs log) (gone : List Outstanding) (houts : outs.Perm (gone ++ outs'))
    (hgone : ∀ o ∈ gone, o.current = false) : Kept outs' log := by
  rw [← List.append_nil log]
  refine h.advance gone houts (by rintro _ _ ⟨⟩) fun o ho hcurrent => ?_
  rw [hgone o ho] at hcurrent
  cases hcurrent

theorem completes {o : Outstanding} {rest : List Outstanding}
    {result : Except DialContext CompletedDial} (h : Kept outs log) (houts : outs.Perm (o :: rest))
    (hnone : o.result = none) (houts' : outs'.Perm ({ o with result := some result } :: rest))
    (hread : o.current = true ∨ resultStream result = none) :
    Kept outs' (log ++ [.completed o.number (resultStream result)]) := by
  intro n stream hn
  rcases List.mem_append.1 hn with hn | hn
  · rcases h n stream hn with ⟨o', ho', hnumber, hcurrent, hstream⟩ | hfinished | hcancelled
    · rcases List.mem_cons.1 (houts.mem_iff.1 ho') with rfl | ho'
      · rw [Outstanding.stream, hnone] at hstream
        cases hstream
      · exact .inl ⟨o', houts'.mem_iff.2 (List.mem_cons_of_mem _ ho'), hnumber, hcurrent, hstream⟩
    · exact .inr (.inl (List.mem_append_left _ hfinished))
    · exact .inr (.inr (List.mem_append_left _ hcancelled))
  · obtain ⟨rfl, hstream⟩ := DialEvent.completed.inj (List.mem_singleton.1 hn)
    have hcurrent : o.current = true := hread.resolve_right fun hnone => by
      rw [hnone] at hstream
      cases hstream
    exact .inl ⟨_, houts'.mem_iff.2 List.mem_cons_self, rfl, hcurrent, hstream.symm⟩

theorem resets (h : Kept outs log) (hnone : ∀ o ∈ outs, o.current = true → o.stream = none)
    (hevents : CompletesNone events) : Kept outs' (log ++ events) := by
  intro n stream hn
  have hn : .completed n (some stream) ∈ log :=
    (List.mem_append.1 hn).resolve_right (hevents n (some stream))
  rcases h n stream hn with ⟨o, ho, -, hcurrent, hstream⟩ | hfinished | hcancelled
  · rw [hnone o ho hcurrent] at hstream
    cases hstream
  · exact .inr (.inl (List.mem_append_left _ hfinished))
  · exact .inr (.inr (List.mem_append_left _ hcancelled))

end Kept

end TinyBrowser
