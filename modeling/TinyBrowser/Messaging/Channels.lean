import TinyBrowser.Messaging.Matching

/-!
# Runs of the port table

`PortLog` is a run of the table's operations, with any endpoint ids and frames, that also keeps
what was pushed, the pairs it made, and for every endpoint the frame that it was last aimed at: the
one that detached it, or the one it was routed to since. The counter of endpoint ids saturates, so
a run keeps its invariant as long as it makes no more pairs than there are ids.
-/

namespace TinyBrowser
open Lib Machine

inductive PortOp where
  | newPair (owner : FrameId)
  | route (endpoint : Nat) (recipient : FrameId)
  | post (source : Nat) (payload : Text) (ports : List Nat)
  | requeue (endpoint : Nat) (payload : Text) (ports : List Nat)
  | requeueClose (endpoint : Nat)
  | start (endpoint : Nat)
  | close (endpoint : Nat)
  | detach (endpoint : Nat) (frame : FrameId)
  | adopt (endpoint : Nat) (frame : FrameId)
  | closeFramePorts (frame : FrameId) (order : List Nat)
  | forget (endpoint : Nat)
deriving DecidableEq, Repr

def PortOp.isNewPair : PortOp → Bool
  | .newPair _ => true
  | _ => false

structure PortLog where
  table : PortTable := {}
  deliveries : List Delivery := []
  pairs : List (Nat × Nat) := []
  aimed : Dict Nat FrameId := .empty

namespace PortLog

def push (s : PortLog) (r : PortTable × List Delivery) : PortLog :=
  { s with table := r.1, deliveries := s.deliveries ++ r.2 }

def step (s : PortLog) : PortOp → Option PortLog
  | .newPair owner =>
    let (pair, table) := s.table.newPair owner
    some { s with table := table, pairs := s.pairs ++ [pair] }
  | .route endpoint recipient =>
    some { s with table := s.table.route endpoint recipient,
                  aimed := s.aimed.insert endpoint recipient }
  | .post source payload ports => some (s.push (s.table.post source payload ports))
  | .requeue endpoint payload ports => some (s.push (s.table.requeue endpoint payload ports))
  | .requeueClose endpoint => some (s.push (s.table.requeueClose endpoint))
  | .start endpoint => some (s.push (s.table.start endpoint))
  | .close endpoint => some (s.push (s.table.close endpoint))
  | .detach endpoint frame =>
    let (taken, table) := s.table.detach endpoint frame
    some { s with table := table,
                  aimed := if taken then s.aimed.insert endpoint frame else s.aimed }
  | .adopt endpoint frame => some { s with table := (s.table.adopt endpoint frame).2 }
  | .closeFramePorts frame order =>
    if order.Perm (s.table.owned frame) then some (s.push (s.table.closeFramePorts frame order))
    else none
  | .forget endpoint => some (s.push (s.table.forget endpoint))

/-- The two ends were made together. -/
def Mates (s : PortLog) (a b : Nat) : Prop := (a, b) ∈ s.pairs ∨ (b, a) ∈ s.pairs

structure Inv (s : PortLog) : Prop where
  matched : s.table.Matched
  pairs : s.pairs = (List.range s.pairs.length).map fun k => (2 * k, 2 * k + 1)
  next : s.table.next = min (2 * s.pairs.length) u64Max
  rows : ∀ a port, s.table.ports.get? a = some port → a < 2 * s.pairs.length
  mates : ∀ a b, s.table.peer a = some b → s.Mates a b
  aims : ∀ a port, s.table.ports.get? a = some port → port.detached = true →
    port.recipient.isSome = true ∧ s.aimed.get? a = port.recipient

/-- The ids left are enough for the pairs made. -/
def Fits (s : PortLog) : Prop := s.pairs.length ≤ 2 ^ 63

variable {s s' : PortLog} {a b : Nat} {port : PortEndpoint}

/-! ### What a step keeps -/

/-- A step that makes no pair and keeps rows, up to their peers, where they stand. -/
theorem Inv.congr (hs : s.Inv) (hmatched : s'.table.Matched) (hpairs : s'.pairs = s.pairs)
    (haimed : s'.aimed = s.aimed) (hnext : s'.table.next = s.table.next)
    (hpeer : ∀ a b, s'.table.peer a = some b → s.table.peer a = some b)
    (hrow : ∀ a port, s'.table.ports.get? a = some port →
      ∃ old, s.table.ports.get? a = some old ∧ old.place.2 = port.place.2) : s'.Inv := by
  refine ⟨hmatched, ?_, ?_, fun a port ha => ?_, fun a b hab => ?_, fun a port ha hd => ?_⟩
  · rw [hpairs]
    exact hs.pairs
  · rw [hnext, hpairs]
    exact hs.next
  · obtain ⟨old, hold, -⟩ := hrow a port ha
    rw [hpairs]
    exact hs.rows a old hold
  · unfold Mates
    rw [hpairs]
    exact hs.mates a b (hpeer a b hab)
  · obtain ⟨old, hold, hplace⟩ := hrow a port ha
    simp only [PortEndpoint.place, Prod.mk.injEq] at hplace
    obtain ⟨-, -, hdetached, hrecipient⟩ := hplace
    rw [haimed, ← hrecipient]
    exact hs.aims a old hold (hdetached.trans hd)

theorem Inv.push_same {r : PortTable × List Delivery} (hs : s.Inv)
    (h : PortTable.SamePlaces s.table r.1) : (s.push r).Inv := by
  refine hs.congr (hs.matched.congr h) rfl rfl h.next (fun a b hab => ?_) fun a port ha => ?_
  · rw [← h.peer a]
    exact hab
  · obtain ⟨old, hold, hplace⟩ := h.row ha
    exact ⟨old, hold, congrArg Prod.snd hplace⟩

theorem Inv.push_cut {r : PortTable × List Delivery} (hs : s.Inv)
    (h : PortTable.Cut s.table a r) : (s.push r).Inv := by
  refine hs.congr (hs.matched.of_cut h) rfl rfl h.next (fun c d hcd => ?_) fun c port hc => ?_
  · have hpeer := h.peer hs.matched c
    rw [show r.1.peer c = some d from hcd] at hpeer
    split_ifs at hpeer
    exact hpeer.symm
  · exact (h.row hs.matched hc).2

theorem Inv.push_close (hs : s.Inv) (a : Nat) : (s.push (s.table.close a)).Inv := by
  cases ha : s.table.ports.get? a with
  | none =>
    rw [PortTable.close_of_none ha]
    exact hs.push_same (.refl _)
  | some port => exact hs.push_cut (hs.matched.cut_close ha)

theorem Inv.push_forget (hs : s.Inv) (a : Nat) : (s.push (s.table.forget a)).Inv := by
  cases ha : s.table.ports.get? a with
  | none =>
    rw [PortTable.forget_of_none ha]
    exact hs.push_same (.refl _)
  | some port => exact hs.push_cut (hs.matched.cut_forget ha)

theorem Inv.push_closeAll (hs : s.Inv) (l : List Nat) : (s.push (s.table.closeAll l)).Inv := by
  induction l generalizing s with
  | nil => exact hs.push_same (.refl _)
  | cons e rest ih =>
    have hrest := ih (hs.push_close e)
    refine hrest.congr hrest.matched rfl rfl rfl (fun _ _ h => h) fun _ port h => ⟨port, h, rfl⟩

/-- Rewriting one row with the same peer: only what it is aimed at when detached matters. -/
theorem Inv.set {aimed : Dict Nat FrameId} {old : PortEndpoint} (hs : s.Inv)
    (hmatched : (s.table.set a port).Matched) (ha : s.table.ports.get? a = some old)
    (hpeer : port.peer = old.peer)
    (hrest : ∀ c, c ≠ a → aimed.get? c = s.aimed.get? c)
    (haim : port.detached = true → port.recipient.isSome = true ∧ aimed.get? a = port.recipient) :
    Inv { s with table := s.table.set a port, aimed := aimed } := by
  refine ⟨hmatched, hs.pairs, hs.next, fun c row hc => ?_, fun c d hcd => ?_,
    fun c row hc hd => ?_⟩
  · dsimp only at hc
    rw [PortTable.get?_set] at hc
    split_ifs at hc with hca
    · subst hca
      exact hs.rows c old ha
    · exact hs.rows c row hc
  · refine hs.mates c d ?_
    dsimp only [PortTable.peer] at hcd
    rw [PortTable.get?_set] at hcd
    split_ifs at hcd with hca
    · subst hca
      rw [PortTable.peer_eq ha, ← hpeer]
      exact hcd
    · exact hcd
  · dsimp only at hc ⊢
    rw [PortTable.get?_set] at hc
    split_ifs at hc with hca
    · cases hc
      subst hca
      exact haim hd
    · rw [hrest c hca]
      exact hs.aims c row hc hd

theorem Inv.route (hs : s.Inv) (e : Nat) (frame : FrameId) :
    Inv { s with table := s.table.route e frame, aimed := s.aimed.insert e frame } := by
  have hmatched := hs.matched.route e frame
  cases he : s.table.ports.get? e with
  | none =>
    rw [PortTable.route_of_none he]
    refine ⟨hs.matched, hs.pairs, hs.next, hs.rows, hs.mates, fun c row hc hd => ?_⟩
    have hce : c ≠ e := by
      rintro rfl
      rw [he] at hc
      cases hc
    have := hs.aims c row hc hd
    simpa [hce] using this
  | some port =>
    rw [PortTable.route_eq_set he] at hmatched ⊢
    refine hs.set hmatched he (by split_ifs <;> rfl) (fun c hc => by simp [hc]) fun hd => ?_
    cases hdetached : port.detached <;> simp [hdetached] at hd ⊢

theorem Inv.detach (hs : s.Inv) (e : Nat) (frame : FrameId) :
    Inv { s with table := (s.table.detach e frame).2,
                 aimed := if (s.table.detach e frame).1 then s.aimed.insert e frame
                          else s.aimed } := by
  have hmatched := hs.matched.detach e frame
  rcases s.table.detach_cases e frame with h | ⟨port, he, -, -, h⟩
  · rw [h]
    exact hs
  · rw [h] at hmatched ⊢
    exact hs.set hmatched he rfl (fun c hc => by simp [hc]) fun _ => by simp

theorem Inv.adopt (hs : s.Inv) (e : Nat) (frame : FrameId) :
    Inv { s with table := (s.table.adopt e frame).2 } := by
  have hmatched := hs.matched.adopt e frame
  rcases s.table.adopt_cases e frame with h | ⟨port, he, -, -, h⟩
  · rw [h]
    exact hs
  · rw [h] at hmatched ⊢
    exact hs.set hmatched he rfl (fun c hc => rfl) fun hd => by simp at hd

/-! ### Making a pair -/

theorem Inv.length_lt (hs : s.Inv) (hs' : (s.pairs ++ [(a, b)]).length ≤ 2 ^ 63) :
    s.table.next = 2 * s.pairs.length ∧ 2 * s.pairs.length < u64Max := by
  have hnext := hs.next
  simp only [List.length_append, List.length_cons, List.length_nil] at hs'
  have hmax : u64Max = 2 ^ 64 - 1 := rfl
  omega

theorem Inv.newPair (hs : s.Inv) (owner : FrameId)
    (hs' : (s.pairs ++ [(s.table.newPair owner).1]).length ≤ 2 ^ 63) :
    Inv { s with table := (s.table.newPair owner).2,
                 pairs := s.pairs ++ [(s.table.newPair owner).1] } := by
  obtain ⟨hn, hlt⟩ := hs.length_lt hs'
  obtain ⟨hpair, hnext, hget⟩ := PortTable.newPair_eq owner (hn ▸ hlt)
  have hfresh : ∀ c port, s.table.ports.get? c = some port → c < s.table.next := by
    intro c port hc
    rw [hn]
    exact hs.rows c port hc
  have hmatched := hs.matched.newPair owner (hn ▸ hlt) hfresh
  have hpeer := PortTable.peer_newPair owner (hn ▸ hlt)
  rw [hn] at hpair hnext hget hpeer
  refine ⟨hmatched, ?_, ?_, fun c port hc => ?_, fun c d hcd => ?_, fun c port hc hd => ?_⟩
  · rw [List.length_append, List.length_singleton, List.range_succ, List.map_append, ← hs.pairs,
      hpair]
    rfl
  · dsimp only
    rw [hnext, List.length_append, List.length_singleton]
    unfold saturatingSucc
    split_ifs <;> omega
  · dsimp only at hc ⊢
    rw [hget] at hc
    rw [List.length_append, List.length_singleton]
    split_ifs at hc with h1 h2
    · omega
    · omega
    · have := hs.rows c port hc
      omega
  · have hmem : ∀ p, p ∈ s.pairs ++ [(s.table.newPair owner).1] ↔
        p ∈ s.pairs ∨ p = (2 * s.pairs.length, 2 * s.pairs.length + 1) := by
      intro p
      rw [hpair, List.mem_append, List.mem_singleton]
    dsimp only at hcd
    rw [hpeer] at hcd
    simp only [Mates, hmem]
    split_ifs at hcd with h1 h2
    · cases hcd
      subst h1
      exact .inl (.inr rfl)
    · cases hcd
      subst h2
      exact .inr (.inr rfl)
    · rcases hs.mates c d hcd with h | h
      · exact .inl (.inl h)
      · exact .inr (.inl h)
  · dsimp only at hc
    rw [hget] at hc
    split_ifs at hc
    · cases hc
      simp at hd
    · cases hc
      simp at hd
    · exact hs.aims c port hc hd

/-! ### Runs -/

theorem inv_empty : ({} : PortLog).Inv := by
  refine ⟨⟨?_, ?_, ?_⟩, rfl, rfl, ?_, ?_, ?_⟩
  · intro a b h
    cases h
  · intro a port h
    cases h
  · intro a port h
    cases h
  · intro a port h
    cases h
  · intro a b h
    cases h
  · intro a port h
    cases h

theorem pairs_step {op : PortOp} (h : s.step op = some s') :
    s'.pairs.length = s.pairs.length + if op.isNewPair then 1 else 0 := by
  cases op <;> simp only [step, Option.some.injEq] at h
  case newPair owner =>
    subst h
    simp [PortOp.isNewPair]
  case closeFramePorts frame order =>
    split_ifs at h
    cases h
    rfl
  all_goals
    subst h
    rfl

theorem inv_step {op : PortOp} (hs : s.Inv) (hs' : s'.Fits) (h : s.step op = some s') :
    s'.Inv := by
  cases op with
  | newPair owner =>
    cases h
    exact hs.newPair owner hs'
  | route e f =>
    cases h
    exact hs.route e f
  | post source payload ports =>
    cases h
    exact hs.push_same (PortTable.samePlaces_post source payload ports)
  | requeue e payload ports =>
    cases h
    exact hs.push_same (PortTable.samePlaces_requeue e payload ports)
  | requeueClose e =>
    cases h
    exact hs.push_same (PortTable.samePlaces_requeueClose e)
  | start e =>
    cases h
    exact hs.push_same (PortTable.samePlaces_start e)
  | close e =>
    cases h
    exact hs.push_close e
  | detach e f =>
    cases h
    exact hs.detach e f
  | adopt e f =>
    cases h
    exact hs.adopt e f
  | closeFramePorts f order =>
    simp only [step] at h
    split_ifs at h with hperm
    cases h
    rw [PortTable.closeFramePorts, if_pos hperm]
    exact hs.push_closeAll order
  | forget e =>
    cases h
    exact hs.push_forget e

theorem pairs_run {ops : List PortOp} (h : run step s ops = some s') :
    s'.pairs.length = s.pairs.length + ops.countP PortOp.isNewPair := by
  induction ops generalizing s with
  | nil =>
    cases h
    rfl
  | cons op ops ih =>
    obtain ⟨s₁, hstep, hrun⟩ := run_cons h
    rw [ih hrun, pairs_step hstep, List.countP_cons]
    omega

theorem inv_run {ops : List PortOp} (hs : s.Inv) (hs' : s'.Fits) (h : run step s ops = some s') :
    s'.Inv := by
  induction ops generalizing s with
  | nil =>
    cases h
    exact hs
  | cons op ops ih =>
    obtain ⟨s₁, hstep, hrun⟩ := run_cons h
    have hlen := pairs_run hrun
    exact ih (inv_step hs (by unfold Fits at *; omega) hstep) hrun

/-- What the table promises in a state of a run. -/
structure Sound (s : PortLog) : Prop where
  matched : s.table.Matched
  /-- No two channels share an end. -/
  disjoint : (s.pairs.flatMap fun pair => [pair.1, pair.2]).Nodup
  closed : ∀ a port, s.table.ports.get? a = some port →
    s.table.Cut a (s.table.close a) ∧ s.table.Cut a (s.table.forget a)
  posted : ∀ a payload ports,
    (∀ c, ¬ s.Mates a c → (s.table.post a payload ports).1.ports.get? c = s.table.ports.get? c) ∧
    ∀ d ∈ (s.table.post a payload ports).2, ∃ (b : Nat) (message : QueuedPortMessage),
      s.Mates a b ∧ d = .portMessage b message.payload message.ports
  adopted : ∀ e frame, (s.table.adopt e frame).1.isSome = true → s.aimed.get? e = some frame

theorem nodup_channels (n : Nat) :
    (((List.range n).map fun k => (2 * k, 2 * k + 1)).flatMap fun pair =>
      [pair.1, pair.2]).Nodup := by
  rw [List.flatMap_map, List.nodup_flatMap]
  refine ⟨fun k _ => by simp, List.nodup_range.imp fun {i j} hij => ?_⟩
  simp only [Function.onFun, List.disjoint_left, List.mem_cons, List.not_mem_nil, or_false]
  omega

theorem Inv.sound (hs : s.Inv) : s.Sound := by
  refine ⟨hs.matched, ?_, fun a port ha => ?_, fun a payload ports => ?_, fun e frame he => ?_⟩
  · rw [hs.pairs]
    exact nodup_channels _
  · exact ⟨hs.matched.cut_close ha, hs.matched.cut_forget ha⟩
  · rcases s.table.post_cases a payload ports with h | ⟨b, other, hpeer, -, h⟩
    · rw [h]
      exact ⟨fun _ _ => rfl, by simp⟩
    · rw [h]
      have hmates := hs.mates a b hpeer
      refine ⟨fun c hc => PortTable.drain_get?_of_ne _ ?_, fun d hd => ?_⟩
      · rintro rfl
        exact hc hmates
      · obtain ⟨message, -, rfl⟩ := PortTable.mem_drain hd
        exact ⟨b, message, hmates, rfl⟩
  · rcases s.table.adopt_cases e frame with h | ⟨port, hport, hdetached, hrecipient, -⟩
    · rw [h] at he
      cases he
    · rw [(hs.aims e port hport hdetached).2, hrecipient]

theorem sound_of_run {ops : List PortOp} (h : run step {} ops = some s)
    (hfew : ops.countP PortOp.isNewPair ≤ 2 ^ 63) : s.Sound := by
  have hlen := pairs_run h
  refine (inv_run inv_empty ?_ h).sound
  rw [Fits, hlen]
  simpa using hfew

/-- One pair is made, and the ids go on. -/
theorem sound_of_run_transfer : ∃ s : PortLog,
    run step {} [.newPair 0, .detach 1 0, .route 1 4, .adopt 1 4, .close 0] = some s ∧
      [PortOp.newPair 0, .detach 1 0, .route 1 4, .adopt 1 4, .close 0].countP
        PortOp.isNewPair ≤ 2 ^ 63 ∧ s.Sound := by
  have hrun : ∃ s : PortLog,
      run step {} [.newPair 0, .detach 1 0, .route 1 4, .adopt 1 4, .close 0] = some s :=
    Option.isSome_iff_exists.1 rfl
  obtain ⟨s, hs⟩ := hrun
  exact ⟨s, hs, by decide, sound_of_run hs (by decide)⟩

/-! ### When the ids run out -/

theorem run_newPairs {n : Nat} (hn : n ≤ 2 ^ 63) :
    ∃ s, run step {} (List.replicate n (PortOp.newPair 0)) = some s ∧ s.Inv ∧
      s.pairs.length = n := by
  induction n with
  | zero => exact ⟨{}, rfl, inv_empty, rfl⟩
  | succ n ih =>
    obtain ⟨s, hrun, hs, hlen⟩ := ih (by omega)
    have hstep : s.step (.newPair 0) = some
        { s with table := (s.table.newPair 0).2, pairs := s.pairs ++ [(s.table.newPair 0).1] } := rfl
    have hlen' : (s.pairs ++ [(s.table.newPair 0).1]).length = n + 1 := by
      rw [List.length_append, List.length_singleton, hlen]
    refine ⟨_, ?_, hs.newPair 0 (Nat.le_trans (Nat.le_of_eq hlen') hn), hlen'⟩
    rw [List.replicate_succ']
    refine run_append hrun ?_
    rw [run, hstep]
    rfl

theorem peer_newPair_of_exhausted {t : PortTable} (owner : FrameId) (h : t.next = u64Max) :
    (t.newPair owner).2.peer u64Max = some u64Max := by
  have hsucc : saturatingSucc u64Max = u64Max := by
    rw [saturatingSucc, if_neg (Nat.lt_irrefl _)]
  simp [PortTable.newPair, PortTable.alloc, PortTable.peer, h, hsucc]

theorem not_matched_of_exhausted :
    ∃ s, run step {} (List.replicate (2 ^ 63 + 1) (PortOp.newPair 0)) = some s ∧
      s.table.peer u64Max = some u64Max ∧ ¬ s.table.Matched := by
  obtain ⟨s, hrun, hs, hlen⟩ := run_newPairs (Nat.le_refl (2 ^ 63))
  have hnext : s.table.next = u64Max := by
    have := hs.next
    have hmax : u64Max = 2 ^ 64 - 1 := rfl
    omega
  have hpeer := peer_newPair_of_exhausted 0 hnext
  refine ⟨{ s with table := (s.table.newPair 0).2, pairs := s.pairs ++ [(s.table.newPair 0).1] },
    ?_, hpeer, fun hm => (hm.entangled _ _ hpeer).1 rfl⟩
  rw [List.replicate_succ']
  refine run_append hrun ?_
  rw [run]
  rfl

end PortLog

end TinyBrowser
