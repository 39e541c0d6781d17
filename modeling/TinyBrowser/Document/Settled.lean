import TinyBrowser.Document.Carried

/-!
# Dials settle once

What each step of the document's thread and of the threads that run completions does to the dials
held, the results on their way and the log, and from it what holds in every state of a run: each dial
is settled at most once, its guard is dropped exactly then, and `has_pending` tells of every dial
that is owed. Streams are kept exactly in the runs that replace no ledger while a stream is on its
way to it and whose completions bring none to a ledger that was replaced (`KeepsStreams`).
-/

namespace TinyBrowser
open Lib Lib.Machine

/-- What a document promises about its dials. -/
structure DialsSettle (s : DocumentDials) : Prop where
  once : (settledDials s.log).Nodup
  guards : s.loadDelay.guards.Nodup
  delays : ∀ n, n ∈ s.loadDelay.guards ↔
    ∃ context, .queued n context ∈ s.log ∧ delaysLoad context = true ∧ n ∉ settledDials s.log
  pending : s.dials.hasPending = true ↔
    s.dials.queued ≠ [] ∨ s.dials.inFlight.pairs ≠ [] ∨ s.dials.channel ≠ [] ∨
      ∃ n flight, s.flights.get? n = some flight ∧ flight.generation = s.generation ∧
        flight.counted.isSome = true
  streams : Kept s.outstanding s.log

/-- A ledger is replaced only while no stream is on its way to it, and a completion whose ledger was
replaced brings no stream. -/
def KeepsStreams (s : DocumentDials) : LedgerStep → Prop
  | .reset => ∀ o ∈ s.outstanding, o.current = true → o.stream = none
  | .complete n outcome => ∀ flight, s.flights.get? n = some flight →
      flight.generation = s.generation ∨ resultStream (complete flight.dial outcome) = none
  | _ => True

namespace DocumentDials

/-- Counts itself and has not sent. -/
def isCounted (generation : Nat) (_number : Nat) (flight : Flight) : Bool :=
  flight.generation = generation && flight.counted.isSome

structure Inv (s : DocumentDials) : Prop where
  accounted : Accounted s.dials.terminate s.loadDelay s.log s.count
  carried : Carried s.outstanding s.dials.inFlight (s.dials.queued.map QueuedEntry.number)
    s.dials.nextId s.count s.log
  ids : ∀ id dial, s.dials.inFlight.get? id = some dial → id < s.dials.nextId
  pending : s.dials.pending = s.dials.channel.length + s.flights.count (isCounted s.generation)
  generation : ∀ n flight, s.flights.get? n = some flight → flight.generation ≤ s.generation
  stop : s.stop = false

theorem inv_new : new.Inv where
  accounted := ⟨List.nodup_nil, by rintro _ _ ⟨⟩, by rintro _ ⟨⟩, by rintro _ _ ⟨⟩, by rintro _ ⟨⟩,
    by rintro _ ⟨⟩, .nil⟩
  carried := ⟨List.nodup_nil, by rintro _ ⟨⟩, by rintro _ ⟨⟩, by rintro _ ⟨⟩, by rintro _ ⟨⟩,
    by rintro _ ⟨⟩, by rintro _ ⟨⟩, by rintro _ ⟨⟩⟩
  ids := by rintro _ _ ⟨⟩
  pending := rfl
  generation := by rintro _ _ ⟨⟩
  stop := rfl

variable {s s' : DocumentDials}

/-! ### Queueing and cancelling -/

theorem queueDial_inv (h : s.Inv) (dial : QueuedDial) : (s.queueDial dial).Inv where
  accounted := by
    refine h.accounted.opens dial.context rfl ?_
    show ((s.dials.queued ++ [_]).map QueuedEntry.held ++ _).Perm _
    rw [List.map_append, List.append_assoc]
    exact List.perm_middle
  carried := by
    refine h.carried.advance [] (List.Perm.refl _) (fun _ _ hd => hd) (fun n hn => ?_)
      (Nat.le_succ _) (by rintro _ ⟨⟩)
    rw [queueDial, DialLedger.queue, List.map_append, List.mem_append] at hn
    refine hn.imp_right fun hn => ?_
    rw [List.map_singleton, List.mem_singleton] at hn
    exact Nat.le_of_eq hn.symm
  ids := h.ids
  pending := h.pending
  generation := h.generation
  stop := h.stop

theorem completesNone_singleton {e : DialEvent} (h : ∀ n stream, e ≠ .completed n stream) :
    CompletesNone [e] := fun n stream hmem => h n stream (List.mem_singleton.1 hmem).symm

theorem queueDial_kept (h : Kept s.outstanding s.log) (dial : QueuedDial) :
    Kept (s.queueDial dial).outstanding (s.queueDial dial).log :=
  h.advance [] (List.Perm.refl _) (completesNone_singleton (by rintro _ _ ⟨⟩))
    (by rintro _ ⟨⟩)

theorem completesNone_cancelled (gone : List InFlightDial) :
    CompletesNone (gone.map fun dial => .cancelled dial.number) := by
  intro n stream hmem
  obtain ⟨dial, -, hdial⟩ := List.mem_map.1 hmem
  cases hdial

theorem handledDials_cancelled (gone : List InFlightDial) :
    handledDials (gone.map fun dial => .cancelled dial.number) = [] := by
  refine List.filterMap_eq_nil_iff.2 fun e he => ?_
  obtain ⟨dial, -, rfl⟩ := List.mem_map.1 he
  rfl

theorem terminate_perm_cancelWhere (dials : DialLedger) (matches_ : DialContext → Bool) :
    dials.terminate.Perm
      ((dials.cancelWhere matches_).1 ++ (dials.cancelWhere matches_).2.terminate) := by
  have hqueued := (List.filter_append_perm (fun entry => matches_ entry.dial.context)
    dials.queued).symm.map QueuedEntry.held
  have hstarted := (List.filter_append_perm (fun pair => matches_ pair.2.context)
    dials.inFlight.pairs).symm.map Prod.snd
  rw [List.map_append] at hqueued hstarted
  have hswap : ∀ a b c d : List InFlightDial, ((a ++ b) ++ (c ++ d)).Perm ((a ++ c) ++ (b ++ d)) := by
    intro a b c d
    rw [List.append_assoc, List.append_assoc, ← List.append_assoc b, ← List.append_assoc c]
    exact (List.perm_append_comm.append_right d).append_left a
  exact (hqueued.append hstarted).trans (hswap _ _ _ _)

theorem get?_filter {m : Dict DialId InFlightDial} {p : DialId → InFlightDial → Bool} {id : DialId}
    {dial : InFlightDial} (h : (m.filter p).get? id = some dial) : m.get? id = some dial :=
  (m.get?_eq_some_iff id dial).2 (List.mem_of_mem_filter (((m.filter p).get?_eq_some_iff id dial).1 h))

theorem cancelWhere_inv (h : s.Inv) (matches_ : DialContext → Bool) :
    (s.cancelWhere matches_).Inv where
  accounted := h.accounted.closes _ (terminate_perm_cancelWhere s.dials matches_)
    (settledDials_cancelled _) (opensNone_cancelled _)
  carried := by
    refine h.carried.advance [] (List.Perm.refl _) (fun _ _ hd => get?_filter hd)
      (fun n hn => ?_) (Nat.le_refl _) fun n hn => ?_
    · obtain ⟨entry, hentry, rfl⟩ := List.mem_map.1 hn
      exact .inl (List.mem_map_of_mem (List.mem_of_mem_filter hentry))
    · rw [handledDials_cancelled] at hn
      cases hn
  ids := fun id dial hd => h.ids id dial (get?_filter hd)
  pending := h.pending
  generation := h.generation
  stop := h.stop

theorem cancelWhere_kept (h : Kept s.outstanding s.log) (matches_ : DialContext → Bool) :
    Kept (s.cancelWhere matches_).outstanding (s.cancelWhere matches_).log :=
  h.advance [] (List.Perm.refl _) (completesNone_cancelled _) (by rintro _ ⟨⟩)

/-! ### Completions -/

/-- What is on its way besides the completion of dial `n`. -/
def others (s : DocumentDials) (n : Nat) : List Outstanding :=
  (s.flights.erase n).pairs.map (fun (number, flight) => flight.outstanding s.generation number) ++
    (s.dials.channel ++ s.tasks.map DialTask.message).map DialMessage.outstanding

theorem outstanding_perm {n : Nat} {flight : Flight} (h : s.flights.get? n = some flight) :
    s.outstanding.Perm (flight.outstanding s.generation n :: s.others n) :=
  ((Dict.perm_cons_erase h).map _).append_right _

/-- A completion that counts itself. -/
def completed (s : DocumentDials) (n : Nat) (flight : Flight)
    (result : Except DialContext CompletedDial) : DocumentDials :=
  { s with
    dials := { s.dials with
      pending := s.dials.pending + if flight.generation = s.generation then 1 else 0 }
    flights := s.flights.insert n { flight with counted := some result }
    log := s.log ++ [.completed n (resultStream result)] }

/-- A completion that sends. -/
def sent (s : DocumentDials) (n : Nat) (flight : Flight)
    (result : Except DialContext CompletedDial) : DocumentDials :=
  { s with
    dials := { s.dials with
      channel := s.dials.channel ++
        if flight.generation = s.generation then [⟨n, flight.id, result⟩] else [] }
    flights := s.flights.erase n }

section
variable (s) (n : Nat) (flight : Flight) (result : Except DialContext CompletedDial)

@[simp] theorem completed_generation : (s.completed n flight result).generation = s.generation := rfl

@[simp] theorem completed_flights : (s.completed n flight result).flights =
    s.flights.insert n { flight with counted := some result } := rfl

@[simp] theorem sent_generation : (s.sent n flight result).generation = s.generation := rfl

@[simp] theorem sent_flights : (s.sent n flight result).flights = s.flights.erase n := rfl

end

theorem completeDial_eq {n : Nat} {flight : Flight} (hget : s.flights.get? n = some flight)
    (hcounted : flight.counted = none) (hstop : s.stop = false)
    (outcome : Except DialFailure DialOutcome) :
    s.completeDial n outcome = some (s.completed n flight (complete flight.dial outcome)) := by
  obtain ⟨generation, id, dial, counted⟩ := flight
  subst hcounted
  unfold completeDial completed
  rw [hget]
  simp only [hstop, Bool.false_eq_true, if_false]
  split <;> rfl

theorem sendDial_eq {n : Nat} {flight : Flight} {result : Except DialContext CompletedDial}
    (hget : s.flights.get? n = some flight) (hcounted : flight.counted = some result) :
    s.sendDial n = some (s.sent n flight result) := by
  obtain ⟨generation, id, dial, counted⟩ := flight
  subst hcounted
  unfold sendDial sent
  rw [hget]
  by_cases hgeneration : generation = s.generation
  · simp only [if_pos hgeneration]
  · simp only [if_neg hgeneration, List.append_nil]

variable {outcome : Except DialFailure DialOutcome}

theorem completeDial_cases {n : Nat}
    (hstop : s.stop = false) (h : s.completeDial n outcome = some s') :
    ∃ flight, s.flights.get? n = some flight ∧ flight.counted = none ∧
      s' = s.completed n flight (complete flight.dial outcome) := by
  cases hget : s.flights.get? n with
  | none =>
    rw [completeDial, hget] at h
    cases h
  | some flight =>
    cases hcounted : flight.counted with
    | some result =>
      obtain ⟨generation, id, dial, counted⟩ := flight
      subst hcounted
      rw [completeDial, hget] at h
      cases h
    | none =>
      rw [completeDial_eq hget hcounted hstop] at h
      exact ⟨flight, rfl, hcounted, (Option.some.inj h).symm⟩

theorem sendDial_cases {n : Nat} (h : s.sendDial n = some s') :
    ∃ flight result, s.flights.get? n = some flight ∧ flight.counted = some result ∧
      s' = s.sent n flight result := by
  cases hget : s.flights.get? n with
  | none =>
    rw [sendDial, hget] at h
    cases h
  | some flight =>
    cases hcounted : flight.counted with
    | none =>
      obtain ⟨generation, id, dial, counted⟩ := flight
      subst hcounted
      rw [sendDial, hget] at h
      cases h
    | some result =>
      rw [sendDial_eq hget hcounted] at h
      exact ⟨flight, result, rfl, hcounted, (Option.some.inj h).symm⟩

theorem completed_outstanding (s : DocumentDials) (n : Nat) (flight : Flight)
    (result : Except DialContext CompletedDial) :
    (s.completed n flight result).outstanding.Perm
      (({ flight with counted := some result } : Flight).outstanding s.generation n :: s.others n) := by
  show (((s.flights.erase n).pairs ++ [_]).map _ ++ _).Perm _
  rw [List.map_append, List.append_assoc]
  exact List.perm_middle

theorem completeDial_inv {n : Nat} (h : s.Inv)
    (hs : s.completeDial n outcome = some s') : s'.Inv := by
  obtain ⟨flight, hget, hcounted, rfl⟩ := completeDial_cases h.stop hs
  constructor
  · refine h.accounted.logs (List.Perm.refl _) rfl ?_
    intro e he
    rw [List.mem_singleton.1 he]
    rfl
  · exact h.carried.completes (outstanding_perm hget) (completed_outstanding ..)
  · exact h.ids
  · show s.dials.pending + _ = s.dials.channel.length + (s.flights.insert n _).count _
    have herase := Dict.count_erase (q := isCounted s.generation) hget
    rw [isCounted, hcounted, Option.isSome_none, Bool.and_false] at herase
    rw [Dict.count_insert, h.pending, herase, completed_generation]
    by_cases hgeneration : flight.generation = s.generation
    · simp [isCounted, hgeneration, Nat.add_assoc]
    · simp [isCounted, hgeneration]
  · intro n' flight' hget'
    rw [completed_flights, Dict.get?_insert] at hget'
    split at hget'
    · cases hget'
      exact h.generation n flight hget
    · exact h.generation n' flight' hget'
  · exact h.stop

theorem completeDial_kept {n : Nat} (h : s.Inv)
    (hkept : Kept s.outstanding s.log) (hkeeps : KeepsStreams s (.complete n outcome))
    (hs : s.completeDial n outcome = some s') : Kept s'.outstanding s'.log := by
  obtain ⟨flight, hget, hcounted, rfl⟩ := completeDial_cases h.stop hs
  exact hkept.completes (outstanding_perm hget) hcounted (completed_outstanding ..)
    ((hkeeps flight hget).imp_left decide_eq_true)

theorem sendDial_outstanding {n : Nat} {flight : Flight} {result : Except DialContext CompletedDial}
    (hget : s.flights.get? n = some flight) (hcounted : flight.counted = some result) :
    s.outstanding.Perm
      ((if flight.generation = s.generation then [] else [flight.outstanding s.generation n]) ++
        (s.sent n flight result).outstanding) := by
  refine (outstanding_perm hget).trans ?_
  unfold sent
  by_cases hgeneration : flight.generation = s.generation
  · have hsent : flight.outstanding s.generation n =
        (⟨n, flight.id, result⟩ : DialMessage).outstanding := by
      rw [Flight.outstanding, hcounted, decide_eq_true hgeneration]
      rfl
    rw [if_pos hgeneration, List.nil_append]
    unfold outstanding
    simp only [if_pos hgeneration]
    rw [hsent, others, List.append_assoc, List.singleton_append]
    simp only [List.map_append, List.map_cons]
    rw [← List.append_assoc, ← List.append_assoc]
    exact List.perm_middle.symm
  · rw [if_neg hgeneration]
    unfold outstanding
    simp only [if_neg hgeneration, List.append_nil]
    exact List.Perm.refl _

theorem sendDial_inv {n : Nat} (h : s.Inv) (hs : s.sendDial n = some s') : s'.Inv := by
  obtain ⟨flight, result, hget, hcounted, rfl⟩ := sendDial_cases hs
  constructor
  · exact h.accounted
  · exact h.carried.moves _ (sendDial_outstanding hget hcounted)
  · exact h.ids
  · show s.dials.pending = (s.dials.channel ++ _).length +
      (s.flights.erase n).count (isCounted s.generation)
    have herase := Dict.count_erase (q := isCounted s.generation) hget
    simp only [isCounted, hcounted, Option.isSome_some, Bool.and_true, decide_eq_true_eq] at herase
    rw [h.pending, herase, List.length_append]
    split
    · rw [List.length_singleton]
      omega
    · rfl
  · intro n' flight' hget'
    rw [sent_flights, Dict.get?_erase] at hget'
    split at hget'
    · cases hget'
    · exact h.generation n' flight' hget'
  · exact h.stop

theorem sendDial_kept {n : Nat} (hkept : Kept s.outstanding s.log) (hs : s.sendDial n = some s') :
    Kept s'.outstanding s'.log := by
  obtain ⟨flight, result, hget, hcounted, rfl⟩ := sendDial_cases hs
  refine hkept.moves _ (sendDial_outstanding hget hcounted) fun o ho => ?_
  -- only the completion of a ledger that was replaced has no receiver
  split at ho
  · cases ho
  · rename_i hgeneration
    rw [List.mem_singleton.1 ho]
    exact decide_eq_false hgeneration

/-! ### Starting -/

/-- The dial at the head of the queue is filed, and its completion is on its way. -/
def started (s : DocumentDials) (entry : QueuedEntry) (queued : List QueuedEntry) : DocumentDials :=
  { s with
    dials := { s.dials with
      queued := queued
      inFlight := s.dials.inFlight.insert s.dials.nextId entry.held
      nextId := s.dials.nextId + 1 }
    flights := s.flights.insert entry.number ⟨s.generation, s.dials.nextId, entry.dial, none⟩ }

variable {entry : QueuedEntry} {queued : List QueuedEntry}

theorem Inv.get?_queued (h : s.Inv) (hq : s.dials.queued = entry :: queued) :
    s.flights.get? entry.number = none := by
  refine Option.eq_none_iff_forall_ne_some.2 fun flight hget => ?_
  have hmem := (outstanding_perm hget).mem_iff.2 List.mem_cons_self
  refine h.carried.unqueued _ hmem ?_
  rw [hq]
  exact List.mem_cons_self

theorem Inv.nodup_queued (h : s.Inv) : (s.dials.queued.map QueuedEntry.number).Nodup := by
  have hnodup := (List.nodup_append.1 h.accounted.nodup).1
  rw [DialLedger.terminate, List.map_append] at hnodup
  have hqueued := (List.nodup_append.1 hnodup).1
  rwa [List.map_map] at hqueued

theorem terminate_cons (hq : s.dials.queued = entry :: queued) :
    s.dials.terminate = entry.held :: (queued.map QueuedEntry.held ++
      s.dials.inFlight.pairs.map Prod.snd) := by
  rw [DialLedger.terminate, hq]
  rfl

theorem Inv.head_lt (h : s.Inv) (hq : s.dials.queued = entry :: queued) :
    entry.number < s.count := by
  have hheld : entry.held ∈ s.dials.terminate := by
    rw [terminate_cons hq]
    exact List.mem_cons_self
  exact h.accounted.number_lt hheld

theorem started_outstanding (h : s.Inv) (hq : s.dials.queued = entry :: queued) :
    (s.started entry queued).outstanding.Perm
      (⟨entry.number, s.dials.nextId, true, none⟩ :: s.outstanding) := by
  show ((s.flights.insert _ _).pairs.map _ ++ _).Perm _
  rw [Dict.pairs_insert_of_none (h.get?_queued hq), List.map_append, List.append_assoc]
  refine List.perm_middle.trans ?_
  have hnew : (⟨s.generation, s.dials.nextId, entry.dial, none⟩ : Flight).outstanding s.generation
      entry.number = ⟨entry.number, s.dials.nextId, true, none⟩ := by
    rw [Flight.outstanding, decide_eq_true rfl]
  exact List.Perm.of_eq (congrArg (· :: s.outstanding) hnew)

theorem started_inv (h : s.Inv) (hq : s.dials.queued = entry :: queued) :
    (s.started entry queued).Inv := by
  have hnone : s.dials.inFlight.get? s.dials.nextId = none :=
    Option.eq_none_iff_forall_ne_some.2 fun dial hget => Nat.lt_irrefl _ (h.ids _ dial hget)
  constructor
  · refine h.accounted.perm ?_
    rw [terminate_cons hq]
    show List.Perm _ (queued.map QueuedEntry.held ++ (s.dials.inFlight.insert _ _).pairs.map Prod.snd)
    rw [Dict.pairs_insert_of_none hnone, List.map_append, ← List.append_assoc]
    exact (List.perm_append_singleton _ _).symm
  · have hqueued : s.dials.queued.map QueuedEntry.number =
        entry.held.number :: queued.map QueuedEntry.number := by rw [hq]; rfl
    exact h.carried.starts entry.held hqueued h.nodup_queued (h.head_lt hq) (started_outstanding h hq)
  · intro id dial hget
    show id < s.dials.nextId + 1
    have hget : (s.dials.inFlight.insert s.dials.nextId entry.held).get? id = some dial := hget
    rw [Dict.get?_insert] at hget
    split at hget
    · rename_i hid
      exact hid ▸ Nat.lt_succ_self _
    · exact Nat.lt_succ_of_lt (h.ids id dial hget)
  · show s.dials.pending = _ + (s.flights.insert _ _).count _
    rw [Dict.count_insert_of_none (h.get?_queued hq), h.pending]
    simp [isCounted, started]
  · intro n flight hget
    have hget : (s.flights.insert entry.number ⟨s.generation, s.dials.nextId, entry.dial, none⟩).get?
      n = some flight := hget
    rw [Dict.get?_insert] at hget
    split at hget
    · cases hget
      exact Nat.le_refl _
    · exact h.generation n flight hget
  · exact h.stop

theorem started_kept (h : s.Inv) (hkept : Kept s.outstanding s.log)
    (hq : s.dials.queued = entry :: queued) :
    Kept (s.started entry queued).outstanding (s.started entry queued).log :=
  hkept.mono fun _ ho => (started_outstanding h hq).mem_iff.2 (List.mem_cons_of_mem _ ho)

theorem get?_completed {flight : Flight} {result : Except DialContext CompletedDial} {n : Nat} :
    (s.completed n flight result).flights.get? n = some { flight with counted := some result } := by
  rw [completed_flights, Dict.get?_insert, if_pos rfl]

/-- Inside `start`, before the dial is filed. -/
def starting (s : DocumentDials) (entry : QueuedEntry) (queued : List QueuedEntry) :
    DocumentDials :=
  { s with
    dials := { s.dials with queued := queued, nextId := s.dials.nextId + 1 }
    flights := s.flights.insert entry.number ⟨s.generation, s.dials.nextId, entry.dial, none⟩ }

/-- A completion that runs from beginning to end. -/
def answered (s : DocumentDials) (n : Nat) (outcome : Except DialFailure DialOutcome) :
    DocumentDials :=
  (((s.completeDial n outcome).getD s).sendDial n).getD ((s.completeDial n outcome).getD s)

theorem answered_eq {n : Nat} {flight : Flight} (hget : s.flights.get? n = some flight)
    (hcounted : flight.counted = none) (hstop : s.stop = false)
    (outcome : Except DialFailure DialOutcome) :
    s.answered n outcome =
      (s.completed n flight (complete flight.dial outcome)).sent n
        { flight with counted := some (complete flight.dial outcome) }
        (complete flight.dial outcome) := by
  rw [answered, completeDial_eq hget hcounted hstop, Option.getD_some, sendDial_eq get?_completed rfl,
    Option.getD_some]

/-- A completion inside `start` does what one right after it does. -/
theorem start_some (entry : QueuedEntry) (queued : List QueuedEntry) (hstop : s.stop = false)
    (outcome : Except DialFailure DialOutcome) :
    ∃ s₁, (s.started entry queued).completeDial entry.number outcome = some s₁ ∧
      s₁.sendDial entry.number =
        some (({ s with dials := { s.dials with queued := queued } } : DocumentDials).start entry
          (some outcome)) := by
  have hget : (s.flights.insert entry.number ⟨s.generation, s.dials.nextId, entry.dial, none⟩).get?
      entry.number = some ⟨s.generation, s.dials.nextId, entry.dial, none⟩ := by
    rw [Dict.get?_insert, if_pos rfl]
  refine ⟨_, completeDial_eq (s := s.started entry queued) hget rfl hstop outcome,
    (sendDial_eq get?_completed rfl).trans ?_⟩
  have hinside : ({ s with dials := { s.dials with queued := queued } } : DocumentDials).start entry
      (some outcome) =
      { (s.starting entry queued).answered entry.number outcome with
        dials := { ((s.starting entry queued).answered entry.number outcome).dials with
          inFlight := ((s.starting entry queued).answered entry.number
            outcome).dials.inFlight.insert s.dials.nextId entry.held } } := rfl
  rw [hinside, answered_eq (s := s.starting entry queued) hget rfl hstop]
  rfl

/-! ### Launching -/

variable {inside : Option (Except DialFailure DialOutcome)} {decoded : Option (Text × Bytes)}

theorem launchQueuedDial_cases
    (h : s.launchQueuedDial decoded inside = some s') :
    ∃ entry queued, s.dials.queued = entry :: queued ∧
      ((∃ e, (e = .failed entry.number ∨ e = .finished entry.number none) ∧
          s' = { s with
            dials := { s.dials with queued := queued }
            loadDelay := s.loadDelay.drop entry.delay
            log := s.log ++ [e] }) ∨
        s' = ({ s with dials := { s.dials with queued := queued } } : DocumentDials).start entry
          inside) := by
  unfold launchQueuedDial DialLedger.popQueued at h
  cases hq : s.dials.queued with
  | nil =>
    rw [hq] at h
    cases h
  | cons entry queued =>
    rw [hq] at h
    refine ⟨entry, queued, rfl, ?_⟩
    simp only [] at h
    split at h
    · left
      cases decoded with
      | none => exact ⟨_, .inl rfl, (Option.some.inj h).symm⟩
      | some data => exact ⟨_, .inr rfl, (Option.some.inj h).symm⟩
    · exact .inr (Option.some.inj h).symm

/-- A `data:` dial is settled without being started. -/
theorem settleQueued_inv {e : DialEvent} (h : s.Inv) (hq : s.dials.queued = entry :: queued)
    (he : e = .failed entry.number ∨ e = .finished entry.number none) :
    ({ s with
      dials := { s.dials with queued := queued }
      loadDelay := s.loadDelay.drop entry.delay
      log := s.log ++ [e] } : DocumentDials).Inv where
  accounted := by
    refine h.accounted.closes [entry.held] ?_ ?_ ?_
    · exact List.Perm.of_eq (terminate_cons hq)
    · rcases he with rfl | rfl <;> rfl
    · intro e' he'
      rw [List.mem_singleton.1 he']
      rcases he with rfl | rfl <;> rfl
  carried := by
    have hqueued : s.dials.queued.map QueuedEntry.number =
        entry.number :: queued.map QueuedEntry.number := by rw [hq]; rfl
    have hentry : entry.number ∈ s.dials.queued.map QueuedEntry.number :=
      hqueued ▸ List.mem_cons_self
    refine h.carried.advance [] (List.Perm.refl _) (fun _ _ hd => hd)
      (fun n hn => .inl (hqueued ▸ List.mem_cons_of_mem _ hn)) (Nat.le_refl _) fun n hn => ?_
    have hn : n = entry.number := by
      rcases he with rfl | rfl
      · cases hn
      · exact List.mem_singleton.1 hn
    subst hn
    refine ⟨h.head_lt hq, ?_, fun o ho heq => h.carried.unqueued o ho (heq ▸ hentry)⟩
    exact (List.nodup_cons.1 (hqueued ▸ h.nodup_queued)).1
  ids := h.ids
  pending := h.pending
  generation := h.generation
  stop := h.stop

theorem settleQueued_kept {e : DialEvent} (hkept : Kept s.outstanding s.log)
    (he : e = .failed entry.number ∨ e = .finished entry.number none) :
    Kept s.outstanding (s.log ++ [e]) :=
  hkept.advance [] (List.Perm.refl _)
    (completesNone_singleton (by rintro _ _ rfl; rcases he with he | he <;> cases he))
    (by rintro _ ⟨⟩)

theorem launchQueuedDial_inv (h : s.Inv)
    (hs : s.launchQueuedDial decoded inside = some s') : s'.Inv := by
  obtain ⟨entry, queued, hq, ⟨e, he, rfl⟩ | rfl⟩ := launchQueuedDial_cases hs
  · exact settleQueued_inv h hq he
  · have hstarted := started_inv h hq
    cases inside with
    | none => exact hstarted
    | some outcome =>
      obtain ⟨s₁, hcompleted, hsent⟩ := start_some entry queued h.stop outcome
      exact sendDial_inv (completeDial_inv hstarted hcompleted) hsent

theorem launchQueuedDial_kept (h : s.Inv)
    (hkept : Kept s.outstanding s.log) (hs : s.launchQueuedDial decoded inside = some s') :
    Kept s'.outstanding s'.log := by
  obtain ⟨entry, queued, hq, ⟨e, he, rfl⟩ | rfl⟩ := launchQueuedDial_cases hs
  · exact settleQueued_kept hkept he
  · have hstarted := started_kept h hkept hq
    cases inside with
    | none => exact hstarted
    | some outcome =>
      obtain ⟨s₁, hcompleted, hsent⟩ := start_some entry queued h.stop outcome
      refine sendDial_kept (completeDial_kept (started_inv h hq) hstarted ?_ hcompleted) hsent
      -- the dial was started by the present ledger
      intro flight hget
      have hget : (s.flights.insert entry.number
        ⟨s.generation, s.dials.nextId, entry.dial, none⟩).get? entry.number = some flight := hget
      rw [Dict.get?_insert, if_pos rfl] at hget
      cases hget
      exact .inl rfl

/-! ### Adopting -/

/-- What `abandonDial` reports. -/
def abandonedEvents (message : DialMessage) : List DialEvent :=
  ((resultStream message.result).map (.streamCancelled message.number)).toList

theorem abandonDial_eq (s : DocumentDials) (message : DialMessage) :
    s.abandonDial message = { s with log := s.log ++ abandonedEvents message } := by
  unfold abandonDial abandonedEvents
  cases resultStream message.result with
  | none => rw [Option.map_none, Option.toList_none, List.append_nil]
  | some stream => rfl

theorem foldl_abandonDial (s : DocumentDials) (messages : List DialMessage) :
    messages.foldl abandonDial s = { s with log := s.log ++ messages.flatMap abandonedEvents } := by
  induction messages generalizing s with
  | nil => rw [List.foldl_nil, List.flatMap_nil, List.append_nil]
  | cons message messages ih =>
    rw [List.foldl_cons, ih, abandonDial_eq, List.flatMap_cons, List.append_assoc]

theorem mem_abandonedEvents {messages : List DialMessage} {e : DialEvent}
    (h : e ∈ messages.flatMap abandonedEvents) :
    ∃ message ∈ messages, ∃ stream, resultStream message.result = some stream ∧
      e = .streamCancelled message.number stream := by
  obtain ⟨message, hmessage, he⟩ := List.mem_flatMap.1 h
  rw [abandonedEvents, Option.mem_toList, Option.map_eq_some_iff] at he
  obtain ⟨stream, hstream, rfl⟩ := he
  exact ⟨message, hmessage, stream, hstream, rfl⟩

section
variable {messages : List DialMessage}

theorem settledDials_abandoned : settledDials (messages.flatMap abandonedEvents) = [] := by
  refine List.filterMap_eq_nil_iff.2 fun e he => ?_
  obtain ⟨message, -, stream, -, rfl⟩ := mem_abandonedEvents he
  rfl

theorem opensNone_abandoned : OpensNone (messages.flatMap abandonedEvents) := by
  intro e he
  obtain ⟨message, -, stream, -, rfl⟩ := mem_abandonedEvents he
  rfl

theorem completesNone_abandoned : CompletesNone (messages.flatMap abandonedEvents) := by
  intro n stream hmem
  obtain ⟨message, -, stream', -, he⟩ := mem_abandonedEvents hmem
  cases he

theorem handledDials_abandoned {n : Nat}
    (h : n ∈ handledDials (messages.flatMap abandonedEvents)) :
    n ∈ (messages.map DialMessage.outstanding).map Outstanding.number := by
  obtain ⟨e, he, hn⟩ := List.mem_filterMap.1 h
  obtain ⟨message, hmessage, stream, -, rfl⟩ := mem_abandonedEvents he
  cases hn
  rw [List.map_map]
  exact List.mem_map_of_mem (f := Outstanding.number ∘ DialMessage.outstanding) hmessage

/-- The streams of the results that are dropped are cancelled. -/
theorem streamCancelled_abandoned {o : Outstanding} (ho : o ∈ messages.map DialMessage.outstanding)
    {stream : StreamId} (hstream : o.stream = some stream) :
    .streamCancelled o.number stream ∈ messages.flatMap abandonedEvents := by
  obtain ⟨message, hmessage, rfl⟩ := List.mem_map.1 ho
  refine List.mem_flatMap.2 ⟨message, hmessage, ?_⟩
  have hstream : resultStream message.result = some stream := hstream
  rw [abandonedEvents, hstream]
  exact List.mem_singleton_self _

end

theorem message_task (message : DialMessage) : message.task.message = message := by
  obtain ⟨number, id, result⟩ := message
  cases result <;> rfl

theorem adopt_eq (s : DocumentDials) :
    s.adoptDialCompletions = { s with
      dials := s.dials.adopt.2
      tasks := s.tasks ++ s.dials.adopt.1.settled.map DialMessage.task
      log := s.log ++ s.dials.adopt.1.abandoned.flatMap abandonedEvents } :=
  foldl_abandonDial _ _

theorem adopt_outstanding :
    s.outstanding.Perm (s.dials.adopt.1.abandoned.map DialMessage.outstanding ++
      s.adoptDialCompletions.outstanding) := by
  have hmessages : (s.dials.adopt.1.settled.map DialMessage.task).map DialTask.message =
      s.dials.adopt.1.settled := by
    rw [List.map_map]
    exact List.map_id'' message_task _
  have hchannel : s.dials.channel.Perm
      (s.dials.adopt.1.settled ++ s.dials.adopt.1.abandoned) :=
    (List.filter_append_perm _ _).symm
  have hmoved : (s.dials.channel ++ s.tasks.map DialTask.message).Perm
      (s.dials.adopt.1.abandoned ++ (s.tasks.map DialTask.message ++ s.dials.adopt.1.settled)) := by
    refine (hchannel.append_right _).trans ?_
    rw [List.append_assoc]
    refine (List.perm_append_comm_assoc _ _ _).trans (List.Perm.append_left _ ?_)
    exact List.perm_append_comm
  have hsplit := ((hmoved.map DialMessage.outstanding).trans
      (List.Perm.of_eq List.map_append)).append_left
    (s.flights.pairs.map fun (number, flight) => flight.outstanding s.generation number)
  refine hsplit.trans ((List.perm_append_comm_assoc _ _ _).trans ?_)
  rw [adopt_eq]
  unfold outstanding
  rw [show (s.tasks ++ s.dials.adopt.1.settled.map DialMessage.task).map DialTask.message =
    s.tasks.map DialTask.message ++ s.dials.adopt.1.settled from
      List.map_append.trans (congrArg _ hmessages)]
  exact List.Perm.refl _

theorem adopt_inv (h : s.Inv) : s.adoptDialCompletions.Inv := by
  have houts := adopt_outstanding (s := s)
  rw [adopt_eq] at houts ⊢
  constructor
  · exact h.accounted.logs (List.Perm.refl _) settledDials_abandoned opensNone_abandoned
  · exact h.carried.advance _ houts (fun _ _ hd => hd) (fun _ hn => .inl hn) (Nat.le_refl _)
      fun n hn => h.carried.handled_gone houts (handledDials_abandoned hn)
  · exact h.ids
  · show s.dials.pending - s.dials.channel.length = 0 + _
    rw [h.pending, Nat.add_sub_cancel_left, Nat.zero_add]
  · exact h.generation
  · exact h.stop

theorem adopt_kept (hkept : Kept s.outstanding s.log) :
    Kept s.adoptDialCompletions.outstanding s.adoptDialCompletions.log := by
  have houts := adopt_outstanding (s := s)
  rw [adopt_eq] at houts ⊢
  exact hkept.advance _ houts completesNone_abandoned
    fun o ho _ stream hstream => .inr (streamCancelled_abandoned ho hstream)

/-! ### Running a task -/

/-- What running the task of a dial that is filed reports. -/
def taskEvent : DialTask → DialEvent
  | .dialFinished number _ done => .finished number done.outcome.body.stream
  | .dialFailed number _ _ => .failed number

theorem settle_some {id : DialId} {dial : InFlightDial}
    (h : s.dials.inFlight.get? id = some dial) :
    s.settle id = (true, { s with
      dials := { s.dials with inFlight := s.dials.inFlight.erase id }
      loadDelay := s.loadDelay.drop dial.delay }) := by
  unfold settle DialLedger.settle
  rw [h]

theorem settle_none {id : DialId} (h : s.dials.inFlight.get? id = none) :
    s.settle id =
      (false, { s with dials := { s.dials with inFlight := s.dials.inFlight.erase id } }) := by
  unfold settle DialLedger.settle
  rw [h]

theorem runTask_cases (h : s.runTask = some s') :
    ∃ task tasks, s.tasks = task :: tasks ∧
      ((∃ dial, s.dials.inFlight.get? task.message.id = some dial ∧
          s' = { s with
            tasks := tasks
            dials := { s.dials with inFlight := s.dials.inFlight.erase task.message.id }
            loadDelay := s.loadDelay.drop dial.delay
            log := s.log ++ [taskEvent task] }) ∨
        s.dials.inFlight.get? task.message.id = none ∧
          s' = { s with
            tasks := tasks
            dials := { s.dials with inFlight := s.dials.inFlight.erase task.message.id }
            log := s.log ++ abandonedEvents task.message }) := by
  unfold runTask at h
  cases htasks : s.tasks with
  | nil =>
    rw [htasks] at h
    cases h
  | cons task tasks =>
    rw [htasks] at h
    refine ⟨task, tasks, rfl, ?_⟩
    cases task with
    | dialFinished number id done =>
      cases hget : s.dials.inFlight.get? id with
      | some dial =>
        simp only [settle_some (s := { s with tasks := tasks }) hget] at h
        exact .inl ⟨dial, hget, (Option.some.inj h).symm⟩
      | none =>
        simp only [settle_none (s := { s with tasks := tasks }) hget, abandonDial_eq] at h
        exact .inr ⟨hget, (Option.some.inj h).symm⟩
    | dialFailed number id fail =>
      cases hget : s.dials.inFlight.get? id with
      | some dial =>
        simp only [settle_some (s := { s with tasks := tasks }) hget] at h
        exact .inl ⟨dial, hget, (Option.some.inj h).symm⟩
      | none =>
        simp only [settle_none (s := { s with tasks := tasks }) hget] at h
        refine .inr ⟨hget, ?_⟩
        rw [show abandonedEvents (DialTask.dialFailed number id fail).message = [] from rfl,
          List.append_nil]
        exact (Option.some.inj h).symm

theorem runTask_outstanding {task : DialTask} {tasks : List DialTask} (loadDelay : LoadDelay)
    (log : List DialEvent) (htasks : s.tasks = task :: tasks) :
    s.outstanding.Perm ([task.message].map DialMessage.outstanding ++
      ({ s with
        tasks := tasks
        dials := { s.dials with inFlight := s.dials.inFlight.erase task.message.id }
        loadDelay := loadDelay
        log := log } : DocumentDials).outstanding) := by
  unfold outstanding
  rw [htasks]
  simp only [List.map_append, List.map_cons, List.map_nil, List.singleton_append]
  rw [← List.append_assoc, ← List.append_assoc]
  exact List.perm_middle

theorem get?_erase_some {m : Dict DialId InFlightDial} {id id' : DialId} {dial : InFlightDial}
    (h : (m.erase id).get? id' = some dial) : m.get? id' = some dial := by
  rw [Dict.get?_erase] at h
  split at h
  · cases h
  · exact h

theorem opens_taskEvent (task : DialTask) : OpensNone [taskEvent task] := by
  intro e he
  rw [List.mem_singleton.1 he]
  cases task <;> rfl

theorem settledDials_taskEvent (task : DialTask) :
    settledDials [taskEvent task] = [task.message.number] := by
  cases task <;> rfl

theorem handledDials_taskEvent {task : DialTask} {n : Nat} (h : n ∈ handledDials [taskEvent task]) :
    n = task.message.number := by
  cases task with
  | dialFinished number id done => exact List.mem_singleton.1 h
  | dialFailed number id fail => cases h

theorem runTask_inv (h : s.Inv) (hs : s.runTask = some s') : s'.Inv := by
  obtain ⟨task, tasks, htasks, ⟨dial, hget, rfl⟩ | ⟨hget, rfl⟩⟩ := runTask_cases hs
  · have houts := runTask_outstanding (s.loadDelay.drop dial.delay) (s.log ++ [taskEvent task]) htasks
    have hnumber : dial.number = task.message.number :=
      (h.carried.filed _ (houts.mem_iff.2 List.mem_cons_self) rfl).2 dial hget
    constructor
    · refine h.accounted.closes [dial] ?_ ?_ (opens_taskEvent task)
      · refine (((Dict.perm_cons_erase hget).map Prod.snd).append_left _).trans ?_
        exact List.perm_middle
      · rw [settledDials_taskEvent, ← hnumber]
        rfl
    · refine h.carried.advance _ houts (fun _ _ hd => get?_erase_some hd) (fun _ hn => .inl hn)
        (Nat.le_refl _) fun n hn => h.carried.handled_gone houts ?_
      rw [handledDials_taskEvent hn]
      exact List.mem_singleton_self _
    · exact fun id dial hd => h.ids id dial (get?_erase_some hd)
    · exact h.pending
    · exact h.generation
    · exact h.stop
  · have houts := runTask_outstanding s.loadDelay (s.log ++ abandonedEvents task.message) htasks
    have hevents : abandonedEvents task.message = [task.message].flatMap abandonedEvents :=
      (List.flatMap_singleton ..).symm
    rw [hevents] at houts ⊢
    constructor
    · refine h.accounted.logs ?_ settledDials_abandoned opensNone_abandoned
      refine List.Perm.of_eq ?_
      show _ = _ ++ (s.dials.inFlight.erase _).pairs.map _
      rw [Dict.pairs_erase_of_none hget]
      rfl
    · exact h.carried.advance _ houts (fun _ _ hd => get?_erase_some hd) (fun _ hn => .inl hn)
        (Nat.le_refl _) fun n hn => h.carried.handled_gone houts (handledDials_abandoned hn)
    · exact fun id dial hd => h.ids id dial (get?_erase_some hd)
    · exact h.pending
    · exact h.generation
    · exact h.stop

theorem runTask_kept (hkept : Kept s.outstanding s.log) (hs : s.runTask = some s') :
    Kept s'.outstanding s'.log := by
  obtain ⟨task, tasks, htasks, ⟨dial, hget, rfl⟩ | ⟨hget, rfl⟩⟩ := runTask_cases hs
  · refine hkept.advance _ (runTask_outstanding _ _ htasks) ?_ fun o ho _ stream hstream => ?_
    · refine completesNone_singleton fun n stream he => ?_
      cases task <;> cases he
    · rw [List.map_singleton, List.mem_singleton] at ho
      subst ho
      cases task with
      | dialFailed number id fail => cases hstream
      | dialFinished number id done =>
        have hstream : done.outcome.body.stream = some stream := hstream
        rw [taskEvent, hstream]
        exact .inl List.mem_cons_self
  · have hevents : abandonedEvents task.message = [task.message].flatMap abandonedEvents :=
      (List.flatMap_singleton ..).symm
    have houts := runTask_outstanding s.loadDelay (s.log ++ abandonedEvents task.message) htasks
    rw [hevents] at houts ⊢
    exact hkept.advance _ houts completesNone_abandoned
      fun o ho _ stream hstream => .inr (streamCancelled_abandoned ho hstream)

/-! ### Replacing the ledger -/

theorem map_number_outstanding (s : DocumentDials) :
    s.outstanding.map Outstanding.number = s.flights.keys ++
      (s.dials.channel ++ s.tasks.map DialTask.message).map DialMessage.number := by
  rw [outstanding, List.map_append, List.map_map, List.map_map]
  rfl

theorem mem_reset_outstanding {o : Outstanding} (h : s.Inv) (ho : o ∈ s.reset.outstanding) :
    o.current = false := by
  rcases List.mem_append.1 ho with ho | ho
  · obtain ⟨⟨n, flight⟩, hflight, rfl⟩ := List.mem_map.1 ho
    have hle := h.generation n flight ((s.flights.get?_eq_some_iff n flight).2 hflight)
    exact decide_eq_false (Nat.ne_of_lt (Nat.lt_succ_of_le hle))
  · cases ho

theorem reset_inv (h : s.Inv) : s.reset.Inv where
  accounted := by
    have hclosed : Accounted [] _ _ _ := h.accounted.closes s.dials.terminate
      (List.Perm.of_eq (List.append_nil _).symm) (settledDials_cancelled _) (opensNone_cancelled _)
    exact { hclosed with guards := .nil }
  carried := by
    refine h.carried.resets ?_ (fun o ho => mem_reset_outstanding h ho) (handledDials_cancelled _)
    rw [map_number_outstanding, map_number_outstanding]
    exact List.Sublist.append (List.Sublist.refl s.flights.keys) (List.nil_sublist _)
  ids := by rintro _ _ ⟨⟩
  pending := by
    symm
    refine (Nat.zero_add _).trans (List.countP_eq_zero.2 fun pair hpair hcounted => ?_)
    have hle := h.generation pair.1 pair.2 ((s.flights.get?_eq_some_iff _ _).2 hpair)
    rw [isCounted, Bool.and_eq_true, decide_eq_true_eq] at hcounted
    exact Nat.ne_of_lt (Nat.lt_succ_of_le hle) hcounted.1
  generation := fun n flight hget => Nat.le_succ_of_le (h.generation n flight hget)
  stop := h.stop

theorem reset_kept (hkept : Kept s.outstanding s.log) (hkeeps : KeepsStreams s .reset) :
    Kept s.reset.outstanding s.reset.log :=
  hkept.resets hkeeps (completesNone_cancelled _)

/-! ### Runs -/

theorem step_inv {i : LedgerStep} (h : s.Inv) (hs : s.step i = some s') : s'.Inv := by
  cases i with
  | queue dial =>
    cases hs
    exact queueDial_inv h dial
  | launch decoded inside => exact launchQueuedDial_inv h hs
  | complete n outcome => exact completeDial_inv h hs
  | send n => exact sendDial_inv h hs
  | adopt =>
    cases hs
    exact adopt_inv h
  | runTask => exact runTask_inv h hs
  | cancelFetch id =>
    cases hs
    exact cancelWhere_inv h _
  | cancelFrameLoads =>
    cases hs
    exact cancelWhere_inv h _
  | reset =>
    cases hs
    exact reset_inv h

theorem step_kept {i : LedgerStep} (h : s.Inv) (hkept : Kept s.outstanding s.log)
    (hkeeps : KeepsStreams s i) (hs : s.step i = some s') : Kept s'.outstanding s'.log := by
  cases i with
  | queue dial =>
    cases hs
    exact queueDial_kept hkept dial
  | launch decoded inside => exact launchQueuedDial_kept h hkept hs
  | complete n outcome => exact completeDial_kept h hkept hkeeps hs
  | send n => exact sendDial_kept hkept hs
  | adopt =>
    cases hs
    exact adopt_kept hkept
  | runTask => exact runTask_kept hkept hs
  | cancelFetch id =>
    cases hs
    exact cancelWhere_kept hkept _
  | cancelFrameLoads =>
    cases hs
    exact cancelWhere_kept hkept _
  | reset =>
    cases hs
    exact reset_kept hkept hkeeps

/-- A step after which every stream is kept met the condition. -/
theorem keepsStreams_of_kept {i : LedgerStep} (h : s.Inv) (hs : s.step i = some s')
    (hkept : Kept s'.outstanding s'.log) : KeepsStreams s i := by
  cases i with
  | queue dial => trivial
  | launch decoded inside => trivial
  | send n => trivial
  | adopt => trivial
  | runTask => trivial
  | cancelFetch id => trivial
  | cancelFrameLoads => trivial
  | complete n outcome =>
    intro flight hget
    obtain ⟨flight', hget', hcounted, rfl⟩ := completeDial_cases h.stop hs
    rw [hget] at hget'
    cases hget'
    by_contra hlost
    obtain ⟨hgeneration, hstream⟩ := not_or.1 hlost
    obtain ⟨stream, hstream⟩ := Option.ne_none_iff_exists'.1 hstream
    have houts := outstanding_perm hget
    have hself := houts.mem_iff.2 List.mem_cons_self
    have hunhandled := h.carried.unhandled _ hself
    have hmem : .completed n (some stream) ∈
        s.log ++ [.completed n (resultStream (complete flight.dial outcome))] := by
      rw [hstream]
      exact List.mem_append_right _ List.mem_cons_self
    have hlog : ∀ e, e ∈ s.log ++ [.completed n (resultStream (complete flight.dial outcome))] →
        e.handles = some n → n ∈ handledDials s.log := by
      intro e he hhandles
      rcases List.mem_append.1 he with he | he
      · exact List.mem_filterMap.2 ⟨e, he, hhandles⟩
      · rw [List.mem_singleton.1 he] at hhandles
        cases hhandles
    rcases hkept n stream hmem with ⟨o, ho, hnumber, hcurrent, -⟩ | hfinished | hcancelled
    · rcases List.mem_cons.1 ((completed_outstanding ..).mem_iff.1 ho) with rfl | ho
      · exact hgeneration (of_decide_eq_true hcurrent)
      · -- the result of the dial is nowhere else
        have hnodup := (houts.map Outstanding.number).nodup_iff.1 h.carried.nodup
        rw [List.map_cons, List.nodup_cons] at hnodup
        exact hnodup.1 (List.mem_map.2 ⟨o, ho, hnumber⟩)
    · exact hunhandled (hlog _ hfinished rfl)
    · exact hunhandled (hlog _ hcancelled rfl)
  | reset =>
    cases hs
    intro o ho hcurrent
    by_contra hsome
    obtain ⟨stream, hstream⟩ := Option.ne_none_iff_exists'.1 hsome
    have hknown := h.carried.known o ho hcurrent stream hstream
    have hlog : ∀ e, e ∈ s.reset.log → e.handles = some o.number → o.number ∈ handledDials s.log := by
      intro e he hhandles
      rcases List.mem_append.1 he with he | he
      · exact List.mem_filterMap.2 ⟨e, he, hhandles⟩
      · obtain ⟨dial, -, rfl⟩ := List.mem_map.1 he
        cases hhandles
    rcases hkept o.number stream (List.mem_append_left _ hknown) with
      ⟨o', ho', -, hcurrent', -⟩ | hfinished | hcancelled
    · rw [mem_reset_outstanding h ho'] at hcurrent'
      cases hcurrent'
    · exact h.carried.unhandled o ho (hlog _ hfinished rfl)
    · exact h.carried.unhandled o ho (hlog _ hcancelled rfl)

theorem Inv.hasPending (h : s.Inv) :
    s.dials.hasPending = true ↔
      s.dials.queued ≠ [] ∨ s.dials.inFlight.pairs ≠ [] ∨ s.dials.channel ≠ [] ∨
        ∃ n flight, s.flights.get? n = some flight ∧ flight.generation = s.generation ∧
          flight.counted.isSome = true := by
  have hcount : 0 < s.flights.count (isCounted s.generation) ↔
      ∃ n flight, s.flights.get? n = some flight ∧ flight.generation = s.generation ∧
        flight.counted.isSome = true := by
    rw [Dict.count, List.countP_pos_iff]
    constructor
    · rintro ⟨⟨n, flight⟩, hmem, hcounted⟩
      rw [isCounted, Bool.and_eq_true, decide_eq_true_eq] at hcounted
      exact ⟨n, flight, (s.flights.get?_eq_some_iff n flight).2 hmem, hcounted⟩
    · rintro ⟨n, flight, hget, hgeneration, hcounted⟩
      refine ⟨(n, flight), (s.flights.get?_eq_some_iff n flight).1 hget, ?_⟩
      rw [isCounted, hgeneration, hcounted, decide_eq_true rfl]
      rfl
  rw [DialLedger.hasPending, Bool.or_eq_true, Bool.or_eq_true, decide_eq_true_eq, decide_eq_true_eq,
    decide_eq_true_eq, or_assoc, h.pending, Nat.add_pos_iff_pos_or_pos, hcount, List.length_pos_iff]

theorem Inv.dialsSettle (h : s.Inv) (hkept : Kept s.outstanding s.log) : DialsSettle s where
  once := (List.nodup_append.1 h.accounted.nodup).2.1
  guards := h.accounted.nodup_guards
  delays := fun _ => h.accounted.mem_guards
  pending := h.hasPending
  streams := hkept

end DocumentDials

/-- In a run of a document its dials settle as promised in every state exactly when every step keeps
the streams. -/
theorem dialsSettle_iff {l : List LedgerStep} {s : DocumentDials}
    (h : run DocumentDials.step .new l = some s) :
    Throughout DocumentDials.step DialsSettle .new l ↔
      Along DocumentDials.step KeepsStreams .new l :=
  throughout_iff_along_of_run (I := fun s => s.Inv ∧ Kept s.outstanding s.log)
    (fun _ hs => hs.1.dialsSettle hs.2)
    (fun _ _ _ hs hkeeps hstep =>
      ⟨DocumentDials.step_inv hs.1 hstep, DocumentDials.step_kept hs.1 hs.2 hkeeps hstep⟩)
    (fun _ _ _ hs hstep hsettle =>
      DocumentDials.keepsStreams_of_kept hs.1 hstep hsettle.streams)
    ⟨DocumentDials.inv_new, by rintro _ _ ⟨⟩⟩ h

/-- A page `fetch`. -/
def QueuedDial.sample : QueuedDial where
  context := .jsFetch 0
  req := { DialRequest.new (.fetch ⟨.cors, .sameOrigin, .follow⟩) Url.sample with delivery := .stream }
  ancestors := []
  integrity := none

/-- Its answer, with the body to be read from stream 7. -/
def DialOutcome.streamed : DialOutcome where
  status := 200
  statusText := []
  finalUrl := Url.sample
  contentType := none
  headers := []
  body := .streamed 7
  responseType := .basic
  crossedOrigin := false
  redirectCount := 0
  referrer := none

/-- The answer is in the channel. -/
def answeredRun : List LedgerStep :=
  [.queue .sample, .launch none none, .complete 0 (.ok .streamed), .send 0]

theorem dialsSettle_iff_answeredRun :
    ∃ s, run DocumentDials.step .new (answeredRun ++ [.adopt, .runTask]) = some s ∧
      (Throughout DocumentDials.step DialsSettle .new (answeredRun ++ [.adopt, .runTask]) ↔
        Along DocumentDials.step KeepsStreams .new (answeredRun ++ [.adopt, .runTask])) :=
  ⟨_, rfl, dialsSettle_iff rfl⟩

/-- A navigation before the adoption: nobody reads the stream and nobody cancels it. -/
theorem not_dialsSettle_answeredRun :
    ¬ ∀ l s, run DocumentDials.step .new l = some s → DialsSettle s := by
  intro hall
  obtain ⟨s, hrun, houts, hlog⟩ : ∃ s, run DocumentDials.step .new (answeredRun ++ [.reset]) = some s ∧
      s.outstanding = [] ∧
      s.log = [.queued 0 (.jsFetch 0), .completed 0 (some 7), .cancelled 0] := ⟨_, rfl, rfl, rfl⟩
  have hkept := (hall _ s hrun).streams 0 7
  rw [houts, hlog] at hkept
  rcases hkept (List.mem_cons_of_mem _ List.mem_cons_self) with ⟨o, ho, -⟩ | hfinished | hcancelled
  · cases ho
  · simp at hfinished
  · simp at hcancelled

end TinyBrowser
