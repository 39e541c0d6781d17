import TinyBrowser.Exchange.Basic

/-!
# Replies go to their own call

What a call returns is read off the log: an `Ok` is the body of the first `Reply` for the call's id
after it started, and a download's bytes are the chunks for that id in between. The invariant says
the same of every place an answer passes on its way: the entry in the table, the entry the router
has taken out to answer, the oneshot channel, and the log.
-/

namespace TinyBrowser.Exchange
open Lib

variable {R : Type}

/-- The bytes of the chunks routed for an id. -/
def chunks (id : RequestId) : List (Event R) → Bytes
  | [] => []
  | .chunk id' bytes :: l => if id' = id then bytes ++ chunks id l else chunks id l
  | _ :: l => chunks id l

theorem chunks_append (id : RequestId) (l l' : List (Event R)) :
    chunks id (l ++ l') = chunks id l ++ chunks id l' := by
  induction l with
  | nil => rfl
  | cons e l ih =>
    cases e with
    | chunk id' bytes =>
      simp only [List.cons_append, chunks, ih]
      split_ifs
      · exact (List.append_assoc ..).symm
      · rfl
    | _ => exact ih

/-- No `Reply` for the id was routed. -/
def Unanswered (id : RequestId) (l : List (Event R)) : Prop := ∀ body, .reply id body ∉ l

/-- `since` is the log from the start of the call on. -/
def StartedAt (log : List (Event R)) (token : Token) (kind : Kind) (id : RequestId)
    (since : List (Event R)) : Prop := ∃ before, log = before ++ .started token kind id :: since

variable {id : RequestId}

theorem StartedAt.append {log since : List (Event R)} {token : Token} {kind : Kind}
    (h : StartedAt log token kind id since) (l : List (Event R)) :
    StartedAt (log ++ l) token kind id (since ++ l) := by
  obtain ⟨before, rfl⟩ := h
  exact ⟨before, by simp⟩

/-- An entry of the table: no reply yet, and the chunks so far. -/
def Collects (log : List (Event R)) (id : RequestId) (entry : Pending) : Prop :=
  ∃ kind since, StartedAt log entry.reply kind id since ∧ Unanswered id since ∧
    match entry with
    | .unary _ => kind = .unary ∨ kind = .upload
    | .download bytes limit _ => kind = .download limit ∧ bytes = chunks id since ∧
        bytes.length ≤ limit

/-- What the log says of a call that returned. -/
def Justified (log : List (Event R)) (token : Token) : Outcome R → Prop
  | .reply body => ∃ kind id since rest,
      StartedAt log token kind id (since ++ .reply id body :: rest) ∧ Unanswered id since ∧
        (kind = .unary ∨ kind = .upload)
  | .download body bytes => ∃ limit id since rest,
      StartedAt log token (.download limit) id (since ++ .reply id body :: rest) ∧
        Unanswered id since ∧ bytes = chunks id since ∧ bytes.length ≤ limit
  | .failed _ => True

variable {log : List (Event R)}

theorem Justified.append {token : Token} {outcome : Outcome R}
    (h : Justified log token outcome) (l : List (Event R)) : Justified (log ++ l) token outcome := by
  cases outcome with
  | reply body =>
    obtain ⟨kind, id, since, rest, hstart, hun, hkind⟩ := h
    exact ⟨kind, id, since, rest ++ l, by simpa using hstart.append l, hun, hkind⟩
  | download body bytes =>
    obtain ⟨limit, id, since, rest, hstart, hun, hbytes⟩ := h
    exact ⟨limit, id, since, rest ++ l, by simpa using hstart.append l, hun, hbytes⟩
  | failed error => trivial

theorem Collects.append {entry : Pending}
    (h : Collects log id entry) {event : Event R} (hreply : ∀ body, event ≠ .reply id body)
    (hchunk : ∀ bytes, event ≠ .chunk id bytes) : Collects (log ++ [event]) id entry := by
  obtain ⟨kind, since, hstart, hun, hentry⟩ := h
  have hnone : chunks id [event] = [] := by
    cases event with
    | chunk id' bytes =>
      have hne : id' ≠ id := fun heq => hchunk bytes (heq ▸ rfl)
      simp [chunks, hne]
    | _ => rfl
  refine ⟨kind, since ++ [event], hstart.append [event], ?_, ?_⟩
  · intro body hmem
    rcases List.mem_append.1 hmem with hmem | hmem
    · exact hun body hmem
    · exact hreply body (List.mem_singleton.1 hmem).symm
  · cases entry with
    | unary reply => exact hentry
    | download bytes limit reply =>
      obtain ⟨hkind, hbytes, hlimit⟩ := hentry
      exact ⟨hkind, by rw [chunks_append, hnone, List.append_nil, hbytes], hlimit⟩

theorem Collects.chunk {buffer bytes : Bytes} {limit : Nat}
    {reply : Token} (h : Collects log id (.download buffer limit reply))
    (hlimit : ¬ buffer.length + bytes.length > limit) :
    Collects (log ++ [.chunk id bytes]) id (.download (buffer ++ bytes) limit reply) := by
  obtain ⟨kind, since, hstart, hun, hkind, hbytes, -⟩ := h
  refine ⟨kind, since ++ [.chunk id bytes], hstart.append _, ?_, hkind, ?_, ?_⟩
  · intro body hmem
    rcases List.mem_append.1 hmem with hmem | hmem
    · exact hun body hmem
    · cases List.mem_singleton.1 hmem
  · rw [chunks_append, ← hbytes]
    simp [chunks]
  · rw [List.length_append]
    omega

theorem Collects.justified {entry : Pending}
    (h : Collects log id entry) (body : R) :
    Justified (log ++ [.reply id body]) entry.reply (entry.answer body) := by
  obtain ⟨kind, since, hstart, hun, hentry⟩ := h
  cases entry with
  | unary reply => exact ⟨kind, id, since, [], hstart.append _, hun, hentry⟩
  | download bytes limit reply =>
    obtain ⟨rfl, hbytes⟩ := hentry
    exact ⟨limit, id, since, [], hstart.append _, hun, hbytes⟩

def Event.isStarted (token : Token) : Event R → Bool
  | .started t _ _ => t = token
  | _ => false

def Event.isReturned (token : Token) : Event R → Bool
  | .returned t _ => t = token
  | _ => false

/-- The router task is still taking frames. -/
def RouterPhase.Routing : RouterPhase R → Prop
  | .running | .replying .. => True
  | .closing | .failed | .disconnected | .finished => False

/-- The invariant of the calls. -/
structure Inv (s : State R) : Prop where
  entry : ∀ id entry, s.pending.get? id = some entry →
    ∃ c, s.calls.get? entry.reply = some c ∧ c.slot = .empty ∧ c.phase.holds = some id
  collects : s.router.Routing → ∀ id entry, s.pending.get? id = some entry →
    Collects s.log id entry
  replying : ∀ waiting body, s.router = .replying waiting body →
    (∃ c, s.calls.get? waiting.reply = some c ∧ c.phase.begun = true) ∧
      (∀ id entry, s.pending.get? id = some entry → entry.reply ≠ waiting.reply) ∧
      Justified s.log waiting.reply (waiting.answer body)
  sent : ∀ token c outcome, s.calls.get? token = some c → c.slot = .sent outcome →
    Justified s.log token outcome
  returned : ∀ token outcome, .returned token outcome ∈ s.log → Justified s.log token outcome
  fresh : ∀ token, (∀ c, s.calls.get? token = some c → c.phase.begun = false) →
    s.log.countP (Event.isStarted token) = 0 ∧ ∀ c, s.calls.get? token = some c → c.slot = .empty
  unreturned : ∀ token, (∀ c, s.calls.get? token = some c → c.phase ≠ .done) →
    s.log.countP (Event.isReturned token) = 0
  startedOnce : ∀ token, s.log.countP (Event.isStarted token) ≤ 1
  returnedOnce : ∀ token, s.log.countP (Event.isReturned token) ≤ 1

namespace Inv
variable {s s' : State R}

theorem new : Inv (State.new : State R) where
  entry := fun id entry h => by simp [State.new] at h
  collects := fun _ id entry h => by simp [State.new] at h
  replying := fun waiting body h => by simp [State.new] at h
  sent := fun token c outcome h => by simp [State.new] at h
  returned := fun token outcome h => by simp [State.new] at h
  fresh := fun token _ => ⟨rfl, fun c h => by simp [State.new] at h⟩
  unreturned := fun _ _ => rfl
  startedOnce := fun _ => Nat.zero_le 1
  returnedOnce := fun _ => Nat.zero_le 1

theorem congr (h : Inv s) (hp : s'.pending = s.pending) (hc : s'.calls = s.calls)
    (hl : s'.log = s.log) (hr : s'.router = s.router ∨ ¬ s'.router.Routing) : Inv s' where
  entry := by rw [hp, hc]; exact h.entry
  collects := by
    intro hrouting
    rw [hp, hl]
    rcases hr with hr | hr
    · exact h.collects (hr ▸ hrouting)
    · exact absurd hrouting hr
  replying := by
    intro waiting body hw
    rw [hp, hc, hl]
    rcases hr with hr | hr
    · exact h.replying waiting body (hr ▸ hw)
    · exact absurd (show s'.router.Routing from hw ▸ trivial) hr
  sent := by rw [hc, hl]; exact h.sent
  returned := by rw [hl]; exact h.returned
  fresh := by rw [hc, hl]; exact h.fresh
  unreturned := by rw [hc, hl]; exact h.unreturned
  startedOnce := by rw [hl]; exact h.startedOnce
  returnedOnce := by rw [hl]; exact h.returnedOnce

theorem entry_inj (h : Inv s) {id id' : RequestId} {e e' : Pending}
    (he : s.pending.get? id = some e) (he' : s.pending.get? id' = some e')
    (hreply : e.reply = e'.reply) : id = id' := by
  obtain ⟨c, hc, -, hid⟩ := h.entry id e he
  obtain ⟨c', hc', -, hid'⟩ := h.entry id' e' he'
  rw [hreply, hc'] at hc
  rw [Option.some.inj hc, hid] at hid'
  exact Option.some.inj hid'

variable {token : Token} {id : RequestId} {c : Call R}

theorem entry_ne (h : Inv s) (hc : s.calls.get? token = some c) {e : Pending}
    (he : s.pending.get? id = some e) (hholds : c.phase.holds ≠ some id) : e.reply ≠ token := by
  rintro rfl
  obtain ⟨c', hc', -, hid⟩ := h.entry id e he
  rw [hc] at hc'
  exact hholds (Option.some.inj hc' ▸ hid)

theorem setPhase (h : Inv s) (hc : s.calls.get? token = some c)
    {phase : Phase}
    (hholds : ∀ id entry, s.pending.get? id = some entry → entry.reply = token →
      phase.holds = some id)
    (hbegun : phase.begun = false → c.phase.begun = false) (hdone : c.phase ≠ .done) :
    Inv (s.setPhase token phase) := by
  have hget : ∀ t, (s.setPhase token phase).calls.get? t =
      if t = token then some { c with phase } else s.calls.get? t := by
    intro t
    rw [State.get?_setPhase]
    split_ifs with ht
    · rw [ht, hc]
      rfl
    · rfl
  refine ⟨?_, h.collects, ?_, ?_, h.returned, ?_, ?_, h.startedOnce, h.returnedOnce⟩
  · intro id entry he
    obtain ⟨c', hc', hslot, hid⟩ := h.entry id entry he
    rw [hget]
    by_cases ht : entry.reply = token
    · rw [ht, hc] at hc'
      rw [if_pos ht]
      exact ⟨_, rfl, Option.some.inj hc' ▸ hslot, hholds id entry he ht⟩
    · rw [if_neg ht]
      exact ⟨c', hc', hslot, hid⟩
  · intro waiting body hw
    obtain ⟨⟨c', hc', hb⟩, hne, hj⟩ := h.replying waiting body hw
    refine ⟨?_, hne, hj⟩
    rw [hget]
    by_cases ht : waiting.reply = token
    · rw [ht, hc] at hc'
      rw [if_pos ht]
      refine ⟨_, rfl, ?_⟩
      by_contra hfalse
      have hold := hbegun (by simpa using hfalse)
      rw [Option.some.inj hc', hb] at hold
      cases hold
    · rw [if_neg ht]
      exact ⟨c', hc', hb⟩
  · intro t c' outcome hc' hslot
    rw [hget] at hc'
    split_ifs at hc' with ht
    · subst ht
      exact h.sent t c outcome hc ((congrArg Call.slot (Option.some.inj hc')).trans hslot)
    · exact h.sent t c' outcome hc' hslot
  · intro t hfresh
    simp only [hget] at hfresh ⊢
    by_cases ht : t = token
    · subst ht
      have hb := hbegun (hfresh { c with phase } (by rw [if_pos rfl]))
      obtain ⟨hzero, hslot⟩ := h.fresh t fun c' hc' => Option.some.inj (hc.symm.trans hc') ▸ hb
      refine ⟨hzero, fun c' hc' => ?_⟩
      rw [if_pos rfl] at hc'
      exact Option.some.inj hc' ▸ hslot c hc
    · simp only [if_neg ht] at hfresh ⊢
      exact h.fresh t hfresh
  · intro t hnot
    refine h.unreturned t fun c' hc' => ?_
    by_cases ht : t = token
    · rw [ht, hc] at hc'
      exact Option.some.inj hc' ▸ hdone
    · exact hnot c' (by rw [hget, if_neg ht, hc'])

/-- An event that neither starts nor settles a call, and is about no entry. -/
theorem record (h : Inv s) {event : Event R}
    (hentry : s.router.Routing → ∀ id, s.pending.get? id ≠ none →
      (∀ body, event ≠ .reply id body) ∧ ∀ bytes, event ≠ .chunk id bytes)
    (hstarted : ∀ token, Event.isStarted token event = false)
    (hreturned : ∀ token, Event.isReturned token event = false) : Inv (s.record event) where
  entry := h.entry
  collects := by
    intro hrouting id entry he
    obtain ⟨hreply, hchunk⟩ := hentry hrouting id (by simp [show s.pending.get? id = some entry from he])
    exact (h.collects hrouting id entry he).append hreply hchunk
  replying := by
    intro waiting body hw
    obtain ⟨hb, hne, hj⟩ := h.replying waiting body hw
    exact ⟨hb, hne, hj.append _⟩
  sent := fun token c outcome hc hslot => (h.sent token c outcome hc hslot).append _
  returned := by
    intro token outcome hmem
    rcases List.mem_append.1 hmem with hmem | hmem
    · exact (h.returned token outcome hmem).append _
    · have hfalse := hreturned token
      rw [← List.mem_singleton.1 hmem] at hfalse
      simp [Event.isReturned] at hfalse
  fresh := fun token hf => by
    simpa [State.record, List.countP_append, hstarted token] using h.fresh token hf
  unreturned := fun token hu => by
    simpa [State.record, List.countP_append, hreturned token] using h.unreturned token hu
  startedOnce := fun token => by
    simpa [State.record, List.countP_append, hstarted token] using h.startedOnce token
  returnedOnce := fun token => by
    simpa [State.record, List.countP_append, hreturned token] using h.returnedOnce token

/-- The call returns what its log entries say, for the first time. -/
theorem finish (h : Inv s) (hc : s.calls.get? token = some c)
    {outcome : Outcome R} (hnone : ∀ id entry, s.pending.get? id = some entry → entry.reply ≠ token)
    (hj : Justified s.log token outcome) (hdone : c.phase ≠ .done) :
    Inv (s.finish token outcome) := by
  have hzero := h.unreturned token fun c' hc' => Option.some.inj (hc.symm.trans hc') ▸ hdone
  have h' : Inv (s.setPhase token .done) :=
    h.setPhase hc (fun id entry he ht => absurd ht (hnone id entry he)) (by simp [Phase.begun]) hdone
  have hcount : ∀ t, (s.finish token outcome).log.countP (Event.isReturned t) =
      s.log.countP (Event.isReturned t) + if t = token then 1 else 0 := by
    intro t
    simp [State.finish, State.record, Event.isReturned, List.countP_append, List.countP_cons, eq_comm]
  have hstarted : ∀ t, (s.finish token outcome).log.countP (Event.isStarted t) =
      s.log.countP (Event.isStarted t) := by
    intro t
    simp [State.finish, State.record, Event.isStarted, List.countP_append]
  refine ⟨h'.entry, ?_, ?_, ?_, ?_, ?_, ?_, ?_, ?_⟩
  · intro hrouting id entry he
    exact (h.collects hrouting id entry he).append (by simp) (by simp)
  · intro waiting body hw
    obtain ⟨hb, hne, hj'⟩ := h'.replying waiting body hw
    exact ⟨hb, hne, hj'.append _⟩
  · exact fun t c' o hc' hslot => (h'.sent t c' o hc' hslot).append _
  · intro t o hmem
    rcases List.mem_append.1 hmem with hmem | hmem
    · exact (h.returned t o hmem).append _
    · obtain ⟨rfl, rfl⟩ := Event.returned.inj (List.mem_singleton.1 hmem)
      exact hj.append _
  · intro t hf
    rw [hstarted]
    exact h'.fresh t hf
  · intro t hu
    rw [hcount]
    have hne : t ≠ token := by
      rintro rfl
      refine hu { c with phase := .done } ?_ rfl
      show ((s.setPhase t .done).calls.get? t) = _
      rw [State.get?_setPhase, if_pos rfl, hc]
      rfl
    rw [if_neg hne, Nat.add_zero]
    exact h'.unreturned t hu
  · intro t
    rw [hstarted]
    exact h.startedOnce t
  · intro t
    rw [hcount]
    split_ifs with ht
    · refine Nat.le_of_eq ?_
      rw [ht, hzero]
    · exact h.returnedOnce t

/-- A step that writes only oneshot channels: of calls that are past their entry and have none
left, with answers the log justifies. -/
theorem slots (h : Inv s)
    (hsub : ∀ id entry, s'.pending.get? id = some entry → s.pending.get? id = some entry)
    (hlog : s'.log = s.log) (hrouting : s'.router.Routing → s.router.Routing)
    (hreplying : ∀ waiting body, s'.router = .replying waiting body →
      s.router = .replying waiting body)
    (hcalls : ∀ t, s'.calls.get? t = s.calls.get? t ∨
      ∃ slot, s'.calls.get? t = (s.calls.get? t).map (fun c => { c with slot }) ∧
        (∀ outcome, slot = .sent outcome → Justified s.log t outcome) ∧
        (∀ id entry, s'.pending.get? id = some entry → entry.reply ≠ t) ∧
        ∀ c, s.calls.get? t = some c → c.phase.begun = true) : Inv s' := by
  have hphase : ∀ {t : Token} {c : Call R}, s.calls.get? t = some c →
      ∃ c', s'.calls.get? t = some c' ∧ c'.phase = c.phase := by
    intro t c hc
    rcases hcalls t with heq | ⟨slot, heq, -⟩
    · exact ⟨c, heq.trans hc, rfl⟩
    · exact ⟨{ c with slot }, by rw [heq, hc]; rfl, rfl⟩
  refine ⟨?_, ?_, ?_, ?_, ?_, ?_, ?_, ?_, ?_⟩
  · intro id entry he
    obtain ⟨c, hc, hslot, hid⟩ := h.entry id entry (hsub id entry he)
    rcases hcalls entry.reply with heq | ⟨slot, -, -, hne, -⟩
    · exact ⟨c, heq.trans hc, hslot, hid⟩
    · exact absurd rfl (hne id entry he)
  · intro hr id entry he
    rw [hlog]
    exact h.collects (hrouting hr) id entry (hsub id entry he)
  · intro waiting body hw
    obtain ⟨⟨c, hc, hb⟩, hne, hj⟩ := h.replying waiting body (hreplying waiting body hw)
    obtain ⟨c', hc', hphase⟩ := hphase hc
    rw [hlog]
    exact ⟨⟨c', hc', hphase ▸ hb⟩, fun id entry he => hne id entry (hsub id entry he), hj⟩
  · intro t c outcome hc hslot
    rw [hlog]
    rcases hcalls t with heq | ⟨slot, heq, hj, -⟩
    · exact h.sent t c outcome (heq ▸ hc) hslot
    · rw [heq] at hc
      obtain ⟨c', -, rfl⟩ := Option.map_eq_some_iff.1 hc
      exact hj outcome hslot
  · rw [hlog]
    exact h.returned
  · intro t hf
    have hold : ∀ c, s.calls.get? t = some c → c.phase.begun = false := by
      intro c hc
      obtain ⟨c', hc', hphase⟩ := hphase hc
      exact hphase ▸ hf c' hc'
    obtain ⟨hzero, hslot⟩ := h.fresh t hold
    rw [hlog]
    refine ⟨hzero, fun c hc => ?_⟩
    rcases hcalls t with heq | ⟨slot, heq, -, -, hbegun⟩
    · exact hslot c (heq ▸ hc)
    · rw [heq] at hc
      obtain ⟨c', hc', -⟩ := Option.map_eq_some_iff.1 hc
      have hb := hbegun c' hc'
      rw [hold c' hc'] at hb
      cases hb
  · intro t hu
    rw [hlog]
    refine h.unreturned t fun c hc => ?_
    obtain ⟨c', hc', hphase⟩ := hphase hc
    exact hphase ▸ hu c' hc'
  · rw [hlog]
    exact h.startedOnce
  · rw [hlog]
    exact h.returnedOnce

theorem begun_of_entry (h : Inv s) {entry : Pending}
    (he : s.pending.get? id = some entry) (hc : s.calls.get? entry.reply = some c) :
    c.phase.begun = true := by
  obtain ⟨c', hc', -, hid⟩ := h.entry id entry he
  rw [hc] at hc'
  rw [← Option.some.inj hc'] at hid
  cases hp : c.phase <;> simp [hp, Phase.holds] at hid <;> rfl

theorem removePending (h : Inv s) (id : RequestId) : Inv (s.removePending id) := by
  have hget : ∀ id' entry, (s.removePending id).pending.get? id' = some entry →
      id' ≠ id ∧ s.pending.get? id' = some entry := by
    intro id' entry he
    rw [State.removePending, Dict.get?_erase] at he
    split_ifs at he with hid
    exact ⟨hid, he⟩
  have hrouter : (s.removePending id).router = s.router := State.dropSender_router ..
  refine h.slots (fun id' entry he => (hget id' entry he).2) (State.dropSender_log ..)
    (fun hr => hrouter ▸ hr) (fun _ _ hw => hrouter ▸ hw) fun t => ?_
  have hcalls := State.get?_dropSender s (s.pending.get? id) t
  by_cases ht : (s.pending.get? id).map Pending.reply = some t
  · rw [if_pos ht] at hcalls
    obtain ⟨old, hold, rfl⟩ := Option.map_eq_some_iff.1 ht
    refine .inr ⟨.dropped, hcalls, by simp, ?_, fun c hc => h.begun_of_entry hold hc⟩
    intro id' entry he heq
    obtain ⟨hne, he⟩ := hget id' entry he
    exact hne (h.entry_inj he hold heq)
  · rw [if_neg ht] at hcalls
    exact .inl hcalls

theorem failPending (h : Inv s) : Inv s.failPending := by
  obtain ⟨hrouter, hlog⟩ := s.failPending_rest
  have hempty : ∀ id entry, s.failPending.pending.get? id ≠ some entry := by
    intro id entry he
    cases he
  refine h.slots (fun id entry he => absurd he (hempty id entry)) hlog (fun hr => hrouter ▸ hr)
    (fun _ _ hw => hrouter ▸ hw) fun t => ?_
  have hcalls := s.get?_failPending t
  by_cases ht : t ∈ s.pending.pairs.map (·.2.reply)
  · rw [if_pos ht] at hcalls
    obtain ⟨id, entry, he, rfl⟩ := (s.mem_replies_iff t).1 ht
    refine .inr ⟨_, hcalls, ?_, fun id entry he => absurd he (hempty id entry),
      fun c hc => h.begun_of_entry he hc⟩
    rintro outcome hsent
    rw [← Slot.sent.inj hsent]
    trivial
  · rw [if_neg ht] at hcalls
    exact .inl hcalls

theorem settle (h : Inv s) {waiting : Pending} {body : R} (hw : s.router = .replying waiting body) :
    Inv { s.setSlot waiting.reply (.sent (waiting.answer body)) with router := .running } := by
  obtain ⟨⟨c, hc, hb⟩, hne, hj⟩ := h.replying waiting body hw
  have hrouting : s.router.Routing := by
    rw [hw]
    trivial
  refine h.slots (fun id entry he => he) rfl (fun _ => hrouting) (by simp) fun t => ?_
  have hcalls := s.get?_setSlot waiting.reply (.sent (waiting.answer body)) t
  by_cases ht : t = waiting.reply
  · rw [if_pos ht] at hcalls
    subst ht
    refine .inr ⟨_, hcalls, ?_, hne, ?_⟩
    · rintro outcome hsent
      exact Slot.sent.inj hsent ▸ hj
    · intro c' hc'
      exact Option.some.inj (hc.symm.trans hc') ▸ hb
  · rw [if_neg ht] at hcalls
    exact .inl hcalls

theorem start (h : Inv s) (hnew : s.calls.get? token = none) (kind : Kind) :
    Inv { s with calls := s.calls.insert token ⟨kind, .calling, .empty⟩ } := by
  have hold : ∀ {t : Token} {c : Call R}, s.calls.get? t = some c → t ≠ token := by
    rintro t c hc rfl
    rw [hnew] at hc
    cases hc
  have hget : ∀ t, (s.calls.insert token ⟨kind, .calling, .empty⟩).get? t =
      if t = token then some ⟨kind, .calling, .empty⟩ else s.calls.get? t := fun t => Dict.get?_insert ..
  refine ⟨?_, h.collects, ?_, ?_, h.returned, ?_, ?_, h.startedOnce, h.returnedOnce⟩
  · intro id entry he
    obtain ⟨c, hc, hslot⟩ := h.entry id entry he
    exact ⟨c, by rw [hget, if_neg (hold hc), hc], hslot⟩
  · intro waiting body hw
    obtain ⟨⟨c, hc, hb⟩, hrest⟩ := h.replying waiting body hw
    exact ⟨⟨c, by rw [hget, if_neg (hold hc), hc], hb⟩, hrest⟩
  · intro t c outcome hc hslot
    rw [hget] at hc
    split_ifs at hc with ht
    · rw [← Option.some.inj hc] at hslot
      cases hslot
    · exact h.sent t c outcome hc hslot
  · intro t hf
    by_cases ht : t = token
    · subst ht
      refine ⟨(h.fresh t (by simp [hnew])).1, fun c hc => ?_⟩
      rw [hget, if_pos rfl] at hc
      exact Option.some.inj hc ▸ rfl
    · simp only [hget, if_neg ht] at hf ⊢
      exact h.fresh t hf
  · intro t hu
    refine h.unreturned t fun c hc => hu c ?_
    rw [hget, if_neg (hold hc), hc]

/-- A call enters the table. -/
theorem insert (h : Inv s) (hc : s.calls.get? token = some c)
    (hbegun : c.phase.begun = false) (id : RequestId) (pending : Dict RequestId Pending)
    (hp : ∀ id', pending.get? id' =
      if id' = id then some (c.kind.pending token) else s.pending.get? id') :
    Inv (({ s with pending }.setPhase token (.inserted id)).record (.started token c.kind id)) := by
  have hfresh := h.fresh token fun c' hc' => Option.some.inj (hc.symm.trans hc') ▸ hbegun
  have hreply : (c.kind.pending token).reply = token := by cases c.kind <;> rfl
  have hholds : c.phase.holds = none := by
    cases hphase : c.phase <;> simp [hphase, Phase.begun] at hbegun <;> rfl
  have hdone : c.phase ≠ .done := by
    intro hphase
    rw [hphase] at hbegun
    cases hbegun
  -- the call's phase first; the table and the log then change together
  have h' : Inv (s.setPhase token (.inserted id)) := by
    refine h.setPhase hc (fun id' entry he ht => absurd ht (h.entry_ne hc he ?_)) ?_ hdone
    · simp [hholds]
    · simp [Phase.begun]
  have hcalls : (s.setPhase token (.inserted id)).calls.get? token =
      some { c with phase := .inserted id } := by
    rw [State.get?_setPhase, if_pos rfl, hc]
    rfl
  have hstarted : ∀ t, (s.log ++ [Event.started token c.kind id]).countP (Event.isStarted t) =
      s.log.countP (Event.isStarted t) + if token = t then 1 else 0 := by
    intro t
    simp [List.countP_append, List.countP_cons, Event.isStarted]
  have hreturned : ∀ t, (s.log ++ [Event.started token c.kind id]).countP (Event.isReturned t) =
      s.log.countP (Event.isReturned t) := by
    intro t
    simp [List.countP_append, Event.isReturned]
  refine ⟨?_, ?_, ?_, ?_, ?_, ?_, ?_, ?_, ?_⟩
  · intro id' entry he
    rw [show (State.record _ _).pending.get? id' = pending.get? id' from rfl, hp] at he
    split_ifs at he with hid
    · rw [← Option.some.inj he, hreply]
      exact ⟨_, hcalls, hfresh.2 c hc, hid ▸ rfl⟩
    · exact h'.entry id' entry he
  · intro hrouting id' entry he
    rw [show (State.record _ _).pending.get? id' = pending.get? id' from rfl, hp] at he
    split_ifs at he with hid
    · subst hid
      rw [← Option.some.inj he]
      refine ⟨c.kind, [], ?_, by simp [Unanswered], ?_⟩
      · rw [hreply]
        exact ⟨s.log, rfl⟩
      · cases c.kind <;> simp [Kind.pending, chunks]
    · exact (h.collects hrouting id' entry he).append (by simp) (by simp)
  · intro waiting body hw
    obtain ⟨hb, hne, hj⟩ := h'.replying waiting body hw
    refine ⟨hb, fun id' entry he => ?_, hj.append _⟩
    rw [show (State.record _ _).pending.get? id' = pending.get? id' from rfl, hp] at he
    split_ifs at he with hid
    · rw [← Option.some.inj he, hreply]
      obtain ⟨⟨c', hc', hb'⟩, -⟩ := h.replying waiting body hw
      rintro rfl
      rw [hc] at hc'
      rw [Option.some.inj hc', hb'] at hbegun
      cases hbegun
    · exact hne id' entry he
  · exact fun t c' outcome hc' hslot => (h'.sent t c' outcome hc' hslot).append _
  · intro t outcome hmem
    rcases List.mem_append.1 hmem with hmem | hmem
    · exact (h.returned t outcome hmem).append _
    · cases List.mem_singleton.1 hmem
  · intro t hf
    have hne : token ≠ t := by
      rintro rfl
      cases hf _ hcalls
    obtain ⟨hzero, hslot⟩ := h'.fresh t hf
    refine ⟨(hstarted t).trans ?_, hslot⟩
    rw [if_neg hne]
    exact hzero
  · exact fun t hu => (hreturned t).trans (h'.unreturned t hu)
  · intro t
    refine Nat.le_trans (Nat.le_of_eq (hstarted t)) ?_
    split_ifs with ht
    · refine Nat.le_of_eq ?_
      rw [← ht, hfresh.1]
    · exact h.startedOnce t
  · exact fun t => Nat.le_trans (Nat.le_of_eq (hreturned t)) (h.returnedOnce t)

theorem acted (h : Inv s) (hc : s.calls.get? token = some c)
    (hacted : s.Acted token c s') : Inv s' := by
  cases hacted with
  | moved phase closed next hholds hbegun hdone =>
    have h' : Inv { s with closed, next } := h.congr rfl rfl rfl (.inl rfl)
    refine h'.setPhase hc (fun id entry he ht => ?_) hbegun hdone
    obtain ⟨c', hc', -, hid⟩ := h.entry id entry he
    rw [ht, hc] at hc'
    rw [hholds, Option.some.inj hc', hid]
  | finished outcome closed hout hdone =>
    have h' : Inv { s with closed } := h.congr rfl rfl rfl (.inl rfl)
    have hj : Justified s.log token outcome := by
      rcases hout with ⟨-, rfl⟩ | hslot | ⟨-, rfl⟩
      · trivial
      · exact h.sent token c outcome hc hslot
      · trivial
    refine h'.finish hc (fun id entry he => ?_) hj hdone
    rintro rfl
    obtain ⟨c', hc', hslot, hid⟩ := h.entry id entry he
    rw [hc] at hc'
    rw [← Option.some.inj hc'] at hslot hid
    simp [hslot, hid] at hout
  | inserted id hphase =>
    have h' := h.removePending id
    obtain ⟨c', hc', hkind, hphase'⟩ : ∃ c', (s.removePending id).calls.get? token = some c' ∧
        c'.kind = c.kind ∧ c'.phase = c.phase := by
      rw [show (s.removePending id).calls.get? token = _ from State.get?_dropSender .., hc]
      split_ifs
      · exact ⟨_, rfl, rfl, rfl⟩
      · exact ⟨c, rfl, rfl, rfl⟩
    have hinsert := h'.insert hc' (by rw [hphase', hphase]; rfl) id
      (s.pending.insert id (c.kind.pending token)) (fun id' => by
        rw [hkind, Dict.get?_insert, State.removePending, Dict.get?_erase]
        split_ifs <;> rfl)
    rw [hkind] at hinsert
    exact hinsert
  | removed id phase hid hphase hbegun hdone =>
    have h' := h.removePending id
    obtain ⟨c', hc', hphase'⟩ : ∃ c', (s.removePending id).calls.get? token = some c' ∧
        c'.phase = c.phase := by
      rw [show (s.removePending id).calls.get? token = _ from State.get?_dropSender .., hc]
      split_ifs
      · exact ⟨_, rfl, rfl⟩
      · exact ⟨c, rfl, rfl⟩
    refine h'.setPhase hc' (fun id' entry he ht => ?_) (by simp [hbegun]) (hphase' ▸ hdone)
    obtain ⟨c₂, hc₂, -, hid'⟩ := h'.entry id' entry he
    rw [ht, hc'] at hc₂
    rw [← Option.some.inj hc₂, hphase'] at hid'
    -- the entry under the call's own id is gone
    rcases hid with hid | hid
    · rw [hid] at hid'
      rw [← Option.some.inj hid', State.removePending, Dict.get?_erase, if_pos rfl] at he
      cases he
    · rw [hid] at hid'
      cases hid'

theorem get?_erase_of (id : RequestId) {id' : RequestId} {entry : Pending}
    (he : (s.pending.erase id).get? id' = some entry) : id' ≠ id ∧ s.pending.get? id' = some entry := by
  rw [Dict.get?_erase] at he
  split_ifs at he with hid
  exact ⟨hid, he⟩

theorem recordFrame (h : Inv s) (id : RequestId) {event : Event R}
    (hevent : State.IsFrame id event) :
    Inv ({ s with pending := s.pending.erase id }.record event) := by
  have h' : Inv { s with pending := s.pending.erase id } :=
    h.slots (fun id' entry he => (get?_erase_of id he).2) rfl (fun hr => hr) (fun _ _ hw => hw)
      fun t => .inl rfl
  refine h'.record (fun _ id' hid' => ?_) ?_ ?_
  · obtain ⟨entry, he⟩ := Option.ne_none_iff_exists'.1 hid'
    have hne := (get?_erase_of id he).1
    rcases hevent with ⟨body, rfl⟩ | ⟨bytes, rfl⟩
    · exact ⟨by simp [Ne.symm hne], by simp⟩
    · exact ⟨by simp, by simp [Ne.symm hne]⟩
  · rcases hevent with ⟨body, rfl⟩ | ⟨bytes, rfl⟩ <;> exact fun _ => rfl
  · rcases hevent with ⟨body, rfl⟩ | ⟨bytes, rfl⟩ <;> exact fun _ => rfl

theorem recordUnknown (h : Inv s) (hnone : s.pending.get? id = none)
    {event : Event R} (hevent : State.IsFrame id event) : Inv (s.record event) := by
  have hget : ∀ id' entry, s.pending.get? id' = some entry →
      (s.pending.erase id).get? id' = some entry := by
    intro id' entry he
    rw [Dict.get?_erase, if_neg, he]
    rintro rfl
    rw [hnone] at he
    cases he
  have h' := h.recordFrame id hevent
  refine ⟨fun id' entry he => h'.entry id' entry (hget id' entry he),
    fun hr id' entry he => h'.collects hr id' entry (hget id' entry he), ?_, h'.sent, h'.returned,
    h'.fresh, h'.unreturned, h'.startedOnce, h'.returnedOnce⟩
  intro waiting body hw
  obtain ⟨hb, hne, hj⟩ := h'.replying waiting body hw
  exact ⟨hb, fun id' entry he => hne id' entry (hget id' entry he), hj⟩

theorem take (h : Inv s) (hrunning : s.router = .running) {waiting : Pending}
    (he : s.pending.get? id = some waiting) (body : R) :
    Inv { s.record (.reply id body) with
      pending := s.pending.erase id, router := .replying waiting body } := by
  have hrouting : s.router.Routing := by
    rw [hrunning]
    trivial
  have h' := h.recordFrame id (.inl ⟨body, rfl⟩)
  refine ⟨h'.entry, fun _ => h'.collects hrouting, ?_, h'.sent, h'.returned, h'.fresh, h'.unreturned,
    h'.startedOnce, h'.returnedOnce⟩
  rintro waiting' body' hw
  obtain ⟨rfl, rfl⟩ := RouterPhase.replying.inj hw
  obtain ⟨c, hc, -, hid⟩ := h.entry id waiting he
  refine ⟨⟨c, hc, h.begun_of_entry he hc⟩, fun id' entry he' heq => ?_,
    (h.collects hrouting id waiting he).justified body⟩
  obtain ⟨hne, he'⟩ := get?_erase_of id he'
  exact hne (h.entry_inj he' he heq)

theorem appendChunk (h : Inv s) (hrunning : s.router = .running)
    {buffer bytes : Bytes} {limit : Nat} {reply : Token}
    (he : s.pending.get? id = some (.download buffer limit reply))
    (hlimit : ¬ buffer.length + bytes.length > limit) :
    Inv { s.record (.chunk id bytes) with
      pending := s.pending.insert id (.download (buffer ++ bytes) limit reply) } := by
  have hrouting : s.router.Routing := by
    rw [hrunning]
    trivial
  have h' := h.recordFrame id (.inr ⟨bytes, rfl⟩)
  -- the entry is back with the bytes of the chunk
  have hget : ∀ id' entry,
      (s.pending.insert id (.download (buffer ++ bytes) limit reply)).get? id' = some entry →
        (s.pending.erase id).get? id' = some entry ∨
          id' = id ∧ entry = .download (buffer ++ bytes) limit reply := by
    intro id' entry he'
    rw [Dict.get?_insert] at he'
    rw [Dict.get?_erase]
    split_ifs at he' ⊢ with hid
    · exact .inr ⟨hid, (Option.some.inj he').symm⟩
    · exact .inl he'
  refine ⟨?_, ?_, ?_, h'.sent, h'.returned, h'.fresh, h'.unreturned, h'.startedOnce, h'.returnedOnce⟩
  · intro id' entry he'
    rcases hget id' entry he' with he' | ⟨rfl, rfl⟩
    · exact h'.entry id' entry he'
    · exact h.entry id' (.download buffer limit reply) he
  · intro _ id' entry he'
    rcases hget id' entry he' with he' | ⟨rfl, rfl⟩
    · exact h'.collects hrouting id' entry he'
    · exact (h.collects hrouting id' _ he).chunk hlimit
  · intro waiting body hw
    cases hrunning.symm.trans hw

theorem refuseChunk (h : Inv s) (id : RequestId) (bytes : Bytes) :
    Inv { s.record (.chunk id bytes) with router := .closing } := by
  have h' : Inv { s with router := .closing } := h.congr rfl rfl rfl (.inr not_false)
  exact h'.record (fun hr => hr.elim) (fun _ => rfl) fun _ => rfl

variable {C N : Type}

theorem routed (h : Inv s) (hrunning : s.router = .running) {target : Option RequestId}
    {result : Except Error Unit} (hrouted : s.Routed target result s') :
    (result = .ok () → Inv s') ∧ Inv { s' with router := .closing } := by
  have hboth : Inv s' → (result = .ok () → Inv s') ∧ Inv { s' with router := .closing } :=
    fun h' => ⟨fun _ => h', h'.congr rfl rfl rfl (.inr not_false)⟩
  cases hrouted with
  | served result serverClosed => exact hboth (h.congr rfl rfl rfl (.inl rfl))
  | unknown id event hevent he => exact hboth (h.recordUnknown he hevent)
  | taken id body waiting he => exact hboth (h.take hrunning he body)
  | appended id bytes buffer limit reply he hlimit => exact hboth (h.appendChunk hrunning he hlimit)
  | refused id bytes => exact ⟨fun hok => (by cases hok), h.refuseChunk id bytes⟩

theorem routerStep (h : Inv s) {i : RouterStep C R N} (hstep : s.routerStep i = some s') : Inv s' := by
  have hend : ∀ {s₁ : State R}, ¬ s₁.router.Routing → s₁.pending = s.pending → s₁.calls = s.calls →
      s₁.log = s.log → Inv s₁ := fun hr hp hc hl => h.congr hp hc hl (.inr hr)
  unfold State.routerStep at hstep
  cases i with
  | route frame before lane =>
    dsimp only at hstep
    split at hstep
    · next hrunning =>
      split at hstep <;> rename_i hroute
      · exact Option.some.inj hstep ▸ (h.routed hrunning (State.routed_of_route s hroute)).1 rfl
      · exact Option.some.inj hstep ▸ (h.routed hrunning (State.routed_of_route s hroute)).2
    · cases hstep
  | settle =>
    dsimp only at hstep
    split at hstep
    · next hw => exact Option.some.inj hstep ▸ h.settle hw
    · cases hstep
  | hangUp =>
    dsimp only at hstep
    split at hstep
    · exact Option.some.inj hstep ▸ hend not_false rfl rfl rfl
    · cases hstep
  | failPending =>
    dsimp only at hstep
    split at hstep
    · exact Option.some.inj hstep ▸
        h.failPending.congr rfl rfl rfl (.inr not_false)
    · cases hstep
  | disconnect =>
    dsimp only at hstep
    split at hstep
    · exact Option.some.inj hstep ▸ hend not_false rfl rfl rfl
    · cases hstep
  | finish =>
    dsimp only at hstep
    split at hstep
    · exact Option.some.inj hstep ▸ hend not_false rfl rfl rfl
    · cases hstep

theorem step (h : Inv s) {i : Step C R N} (hstep : s.step i = some s') : Inv s' := by
  cases i with
  | start token kind =>
    simp only [State.step, State.start] at hstep
    split_ifs at hstep with hnew
    rw [← Option.some.inj hstep]
    exact h.start (by simpa [Dict.contains] using hnew) kind
  | client token action =>
    obtain ⟨c, hc, hact⟩ := Option.bind_eq_some_iff.1 hstep
    exact h.acted hc (State.acted_of_act s hact)
  | router i => exact h.routerStep hstep
  | failElsewhere => exact Option.some.inj hstep ▸ h.failPending
  | closeElsewhere => exact Option.some.inj hstep ▸ h.congr rfl rfl rfl (.inl rfl)
  | closeServerElsewhere => exact Option.some.inj hstep ▸ h.congr rfl rfl rfl (.inl rfl)

end Inv

variable {C N : Type} {s s' : State R}

/-- The step routes a `Reply` or a `ResponseChunk` for the id. -/
def RouterStep.About (id : RequestId) : RouterStep C R N → Prop
  | .route frame _ _ => frame.target = some id
  | _ => False

theorem State.Routed.other {target : Option RequestId} {result : Except Error Unit}
    (hrouted : s.Routed target result s') (hid : target ≠ some id) :
    s'.pending.get? id = s.pending.get? id ∧ s'.calls = s.calls := by
  cases hrouted with
  | served result serverClosed => exact ⟨rfl, rfl⟩
  | unknown id' event hevent he => exact ⟨rfl, rfl⟩
  | taken id' body waiting he =>
    have hne : id ≠ id' := fun heq => hid (heq ▸ rfl)
    exact ⟨(Dict.get?_erase ..).trans (if_neg hne), rfl⟩
  | appended id' bytes buffer limit reply he hlimit =>
    have hne : id ≠ id' := fun heq => hid (heq ▸ rfl)
    exact ⟨(Dict.get?_insert ..).trans (if_neg hne), rfl⟩
  | refused id' bytes => exact ⟨rfl, rfl⟩

theorem Inv.untouched (h : Inv s) {i : RouterStep C R N} (hstep : s.routerStep i = some s')
    (hrouting : s'.router.Routing) {entry : Pending}
    (he : s.pending.get? id = some entry) (hid : ¬ i.About id) :
    s'.pending.get? id = some entry ∧ s'.calls.get? entry.reply = s.calls.get? entry.reply := by
  unfold State.routerStep at hstep
  cases i with
  | route frame before lane =>
    dsimp only at hstep
    split at hstep
    · split at hstep <;> rename_i hroute
      · obtain ⟨hpending, hcalls⟩ := (State.routed_of_route s hroute).other hid
        rw [← Option.some.inj hstep]
        exact ⟨hpending.trans he, by rw [hcalls]⟩
      · rw [← Option.some.inj hstep] at hrouting
        exact absurd hrouting not_false
    · cases hstep
  | settle =>
    dsimp only at hstep
    split at hstep
    · next waiting body hw =>
      rw [← Option.some.inj hstep]
      obtain ⟨-, hne, -⟩ := h.replying waiting body hw
      have hcalls := s.get?_setSlot waiting.reply (.sent (waiting.answer body)) entry.reply
      rw [if_neg (hne id entry he)] at hcalls
      exact ⟨he, hcalls⟩
    · cases hstep
  | _ =>
    dsimp only at hstep
    split at hstep
    · rw [← Option.some.inj hstep] at hrouting
      exact absurd hrouting not_false
    · cases hstep

/-- In every interleaving of calls, cancellations, frames and the end of the router: a call starts
and returns at most once; an `Ok` is the body of the first `Reply` for its id since it started, with
the chunks for its id in between and within its limit; and the router passes by a pending call unless
it routes a frame for its id or ends. -/
theorem replies_of_run {steps : List (Step C R N)}
    (hrun : Machine.run State.step State.new steps = some s) :
    (∀ token, s.log.countP (Event.isStarted token) ≤ 1 ∧
      s.log.countP (Event.isReturned token) ≤ 1) ∧
    (∀ token outcome, .returned token outcome ∈ s.log → Justified s.log token outcome) ∧
    ∀ (i : RouterStep C R N) (s' : State R), s.routerStep i = some s' → s'.router.Routing →
      ∀ id entry, s.pending.get? id = some entry → ¬ i.About id →
        s'.pending.get? id = some entry ∧
          s'.calls.get? entry.reply = s.calls.get? entry.reply := by
  have hinv : Inv s := Machine.inv_run (fun _ _ _ h hstep => h.step hstep) Inv.new hrun
  exact ⟨fun token => ⟨hinv.startedOnce token, hinv.returnedOnce token⟩, hinv.returned,
    fun i s' hstep hrouting id entry he hid => hinv.untouched hstep hrouting he hid⟩

/-- A download that gets two chunks, with frames for other ids in between. -/
def sampleDownload : List (Step Nat Nat Nat) :=
  [.start 0 (.download 4), .client 0 .reserve, .client 0 .granted, .client 0 .nextId,
    .client 0 .insert, .client 0 .send,
    .router (.route (.responseChunk 1 [10, 11]) .open .open),
    .router (.route (.responseChunk 9 [1, 1, 1, 1, 1]) .open .open),
    .router (.route (.reply 9 3) .open .open),
    .router (.route (.responseChunk 1 [12]) .open .open),
    .router (.route (.reply 1 7) .open .open), .router .settle,
    .router (.route (.reply 1 8) .open .open), .client 0 .receive]

theorem replies_of_run_download :
    ∃ s, Machine.run State.step State.new sampleDownload = some s ∧
      .returned 0 (.download 7 [10, 11, 12]) ∈ s.log ∧
      Justified s.log 0 (.download 7 [10, 11, 12]) := by
  obtain ⟨s, hrun, hmem⟩ : ∃ s, Machine.run State.step State.new sampleDownload = some s ∧
      .returned 0 (.download 7 [10, 11, 12]) ∈ s.log := by
    refine ⟨_, rfl, ?_⟩
    decide +kernel
  exact ⟨s, hrun, hmem, (replies_of_run hrun).2.1 _ _ hmem⟩

end TinyBrowser.Exchange
