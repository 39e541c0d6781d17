import TinyBrowser.Lib.Machine
import TinyBrowser.Messaging.Table

/-!
# Channels stay channels

`Matched` is the invariant of the table: the ends of a channel name each other, a row in the table
is open, and it has an owner exactly when it is not in a transfer. What an operation does to a row
beside its queue is its `place` (peer, owner, closed, detached, recipient); most operations leave
every place as it is, and `Cut` says what `close` and `forget` do.
-/

namespace TinyBrowser
open Lib Machine

namespace PortEndpoint

/-- Where a row stands: what the invariant of the table reads of it. -/
def place (port : PortEndpoint) :
    Option Nat × Option FrameId × Bool × Bool × Option FrameId :=
  (port.peer, port.owner, port.closed, port.detached, port.recipient)

end PortEndpoint

namespace PortTable

variable {t t' : PortTable} {a b c : Nat} {port other : PortEndpoint}

@[simp] theorem get?_set (e : Nat) :
    (t.set e port).ports.get? a = if a = e then some port else t.ports.get? a := by
  simp [set]

@[simp] theorem get?_remove (e : Nat) :
    (t.remove e).ports.get? a = if a = e then none else t.ports.get? a := by
  simp [remove]

@[simp] theorem get?_modify (e : Nat) (f : PortEndpoint → PortEndpoint) :
    (t.modify e f).ports.get? a = if a = e then (t.ports.get? a).map f else t.ports.get? a := by
  simp [modify]

@[simp] theorem next_set (e : Nat) : (t.set e port).next = t.next := rfl

@[simp] theorem next_remove (e : Nat) : (t.remove e).next = t.next := rfl

@[simp] theorem next_modify (e : Nat) (f : PortEndpoint → PortEndpoint) :
    (t.modify e f).next = t.next := rfl

theorem peer_eq (h : t.ports.get? a = some port) : t.peer a = port.peer := by
  simp [peer, h]

theorem exists_of_peer (h : t.peer a = some b) :
    ∃ port, t.ports.get? a = some port ∧ port.peer = some b := by
  simpa [peer, Option.bind_eq_some_iff] using h

/-- The ends of a channel name each other; a row is open, and owned exactly when not detached. -/
structure Matched (t : PortTable) : Prop where
  entangled : ∀ a b, t.peer a = some b → a ≠ b ∧ t.peer b = some a
  opened : ∀ a port, t.ports.get? a = some port → port.closed = false
  placed : ∀ a port, t.ports.get? a = some port → (port.owner.isSome = true ↔ port.detached = false)

/-! ### Operations that leave every row in its place -/

/-- The two tables hold the same rows up to queues and the flags of queues. -/
structure SamePlaces (t t' : PortTable) : Prop where
  next : t'.next = t.next
  place : ∀ a, (t'.ports.get? a).map PortEndpoint.place = (t.ports.get? a).map PortEndpoint.place

theorem SamePlaces.refl (t : PortTable) : SamePlaces t t := ⟨rfl, fun _ => rfl⟩

theorem SamePlaces.peer (h : SamePlaces t t') (a : Nat) : t'.peer a = t.peer a := by
  have hp := congrArg (Option.bind · Prod.fst) (h.place a)
  simpa [PortTable.peer, Option.bind_map, PortEndpoint.place, Function.comp_def] using hp

theorem SamePlaces.owner (h : SamePlaces t t') (a : Nat) : t'.owner a = t.owner a := by
  have hp := congrArg (Option.bind · fun place => place.2.1) (h.place a)
  simpa [PortTable.owner, Option.bind_map, PortEndpoint.place, Function.comp_def] using hp

theorem SamePlaces.row (h : SamePlaces t t') (ha : t'.ports.get? a = some port) :
    ∃ old, t.ports.get? a = some old ∧ old.place = port.place := by
  have hp := h.place a
  rw [ha] at hp
  simpa [eq_comm] using hp

theorem Matched.congr (ht : t.Matched) (h : SamePlaces t t') : t'.Matched := by
  refine ⟨fun a b hab => ?_, fun a port ha => ?_, fun a port ha => ?_⟩
  · rw [h.peer] at hab ⊢
    exact ht.entangled a b hab
  · obtain ⟨old, hold, hplace⟩ := h.row ha
    have := ht.opened a old hold
    simp only [PortEndpoint.place, Prod.mk.injEq] at hplace
    rw [← hplace.2.2.1]
    exact this
  · obtain ⟨old, hold, hplace⟩ := h.row ha
    have := ht.placed a old hold
    simp only [PortEndpoint.place, Prod.mk.injEq] at hplace
    rw [← hplace.2.1, ← hplace.2.2.2.1]
    exact this

theorem samePlaces_set (ha : t.ports.get? a = some other) (hplace : port.place = other.place) :
    SamePlaces t (t.set a port) := by
  refine ⟨rfl, fun c => ?_⟩
  rw [get?_set]
  split_ifs with hc
  · subst hc
    simp [ha, hplace]
  · rfl

theorem samePlaces_drain (ha : t.ports.get? a = some other) (hplace : port.place = other.place) :
    SamePlaces t (t.drain a port).1 := by
  unfold drain
  split_ifs
  · exact samePlaces_set ha hplace
  · exact samePlaces_set ha hplace

/-- A message goes nowhere, or to the queue of the sender's peer. -/
theorem post_cases (t : PortTable) (source : Nat) (payload : Text) (ports : List Nat) :
    t.post source payload ports = (t, []) ∨
      ∃ b other, t.peer source = some b ∧ t.ports.get? b = some other ∧
        t.post source payload ports =
          t.drain b { other with queue := other.queue ++ [⟨payload, ports⟩] } := by
  unfold post
  cases hsource : t.ports.get? source with
  | none => exact .inl rfl
  | some port =>
    by_cases hgone : (port.closed || port.detached) = true
    · exact .inl (by simp only [hgone, if_true])
    · cases hpeer : port.peer with
      | none => exact .inl (by simp [hpeer])
      | some b =>
        simp only [hgone, hpeer]
        cases hb : t.ports.get? b with
        | none => exact .inl (by simp)
        | some other =>
          by_cases hclosed : other.closed = true
          · exact .inl (by simp [hclosed])
          · exact .inr ⟨b, other, by rw [peer_eq hsource, hpeer], hb, by simp [hclosed]⟩

theorem requeue_cases (t : PortTable) (e : Nat) (payload : Text) (ports : List Nat) :
    t.requeue e payload ports = (t, []) ∨
      ∃ port, t.ports.get? e = some port ∧ t.requeue e payload ports =
        t.drain e { port with queue := ⟨payload, ports⟩ :: port.queue } := by
  unfold requeue
  cases he : t.ports.get? e with
  | none => exact .inl rfl
  | some port =>
    dsimp only
    split_ifs
    · exact .inl rfl
    · exact .inr ⟨port, rfl, rfl⟩

theorem start_cases (t : PortTable) (e : Nat) :
    t.start e = (t, []) ∨
      ∃ port, t.ports.get? e = some port ∧ t.start e = t.drain e { port with enabled := true } := by
  unfold start
  cases he : t.ports.get? e with
  | none => exact .inl rfl
  | some port =>
    dsimp only
    split_ifs
    · exact .inl rfl
    · exact .inr ⟨port, rfl, rfl⟩

theorem samePlaces_post (source : Nat) (payload : Text) (ports : List Nat) :
    SamePlaces t (t.post source payload ports).1 := by
  rcases t.post_cases source payload ports with h | ⟨b, other, -, hb, h⟩
  · rw [h]
    exact .refl t
  · rw [h]
    exact samePlaces_drain hb rfl

theorem samePlaces_requeue (e : Nat) (payload : Text) (ports : List Nat) :
    SamePlaces t (t.requeue e payload ports).1 := by
  rcases t.requeue_cases e payload ports with h | ⟨port, he, h⟩
  · rw [h]
    exact .refl t
  · rw [h]
    exact samePlaces_drain he rfl

theorem samePlaces_requeueClose (e : Nat) : SamePlaces t (t.requeueClose e).1 := by
  unfold requeueClose
  split
  · exact .refl t
  · rename_i he
    split_ifs
    · exact .refl t
    · exact samePlaces_set he rfl
    · exact .refl t

theorem samePlaces_start (e : Nat) : SamePlaces t (t.start e).1 := by
  rcases t.start_cases e with h | ⟨port, he, h⟩
  · rw [h]
    exact .refl t
  · rw [h]
    exact samePlaces_drain he rfl

/-! ### Transfers -/

theorem peer_set (ha : t.ports.get? a = some other) (hpeer : port.peer = other.peer) :
    (t.set a port).peer c = t.peer c := by
  rw [peer, get?_set]
  split_ifs with hc
  · subst hc
    rw [peer_eq ha]
    exact hpeer
  · rfl

/-- Rewriting one row in place, with the same peer, keeps the table matched. -/
theorem Matched.set (ht : t.Matched) (ha : t.ports.get? a = some other)
    (hpeer : port.peer = other.peer) (hopen : port.closed = false)
    (hplaced : port.owner.isSome = true ↔ port.detached = false) : (t.set a port).Matched := by
  refine ⟨fun c d hcd => ?_, fun c row hc => ?_, fun c row hc => ?_⟩
  · rw [peer_set ha hpeer] at hcd ⊢
    exact ht.entangled c d hcd
  · rw [get?_set] at hc
    split_ifs at hc with hca
    · cases hc
      exact hopen
    · exact ht.opened c row hc
  · rw [get?_set] at hc
    split_ifs at hc with hca
    · cases hc
      exact hplaced
    · exact ht.placed c row hc

theorem route_eq_set (ha : t.ports.get? a = some port) (frame : FrameId) :
    t.route a frame =
      t.set a (if port.detached then { port with recipient := some frame } else port) := by
  unfold route modify set Dict.modify
  rw [ha]

theorem route_of_none (ha : t.ports.get? a = none) (frame : FrameId) : t.route a frame = t := by
  unfold route modify Dict.modify
  rw [ha]

theorem peer_route (e : Nat) (frame : FrameId) : (t.route e frame).peer c = t.peer c := by
  cases he : t.ports.get? e with
  | none => rw [route_of_none he]
  | some port =>
    rw [route_eq_set he]
    split_ifs
    · exact peer_set he rfl
    · exact peer_set he rfl

theorem Matched.route (ht : t.Matched) (e : Nat) (frame : FrameId) : (t.route e frame).Matched := by
  cases he : t.ports.get? e with
  | none => rwa [route_of_none he]
  | some port =>
    rw [route_eq_set he]
    have hopen := ht.opened e port he
    have hplaced := ht.placed e port he
    split_ifs
    · exact ht.set he rfl hopen hplaced
    · exact ht.set he rfl hopen hplaced

theorem detach_cases (t : PortTable) (e : Nat) (frame : FrameId) :
    t.detach e frame = (false, t) ∨
      ∃ port, t.ports.get? e = some port ∧ port.detached = false ∧ port.owner = some frame ∧
        t.detach e frame = (true, t.set e
          { port with owner := none, detached := true, recipient := some frame,
                      enabled := false }) := by
  unfold detach
  cases he : t.ports.get? e with
  | none => exact .inl rfl
  | some port =>
    dsimp only
    split_ifs with h
    · exact .inl rfl
    · simp only [Bool.or_eq_true, not_or, Bool.not_eq_true, bne_eq_false_iff_eq] at h
      exact .inr ⟨port, rfl, h.1.2, h.2, rfl⟩

theorem adopt_cases (t : PortTable) (e : Nat) (frame : FrameId) :
    t.adopt e frame = (none, t) ∨
      ∃ port, t.ports.get? e = some port ∧ port.detached = true ∧ port.recipient = some frame ∧
        t.adopt e frame = (some port.closePending, t.set e
          { port with detached := false, owner := some frame, recipient := none,
                      closePending := false }) := by
  unfold adopt
  cases he : t.ports.get? e with
  | none => exact .inl rfl
  | some port =>
    dsimp only
    split_ifs with h
    · exact .inl rfl
    · simp only [Bool.or_eq_true, not_or, Bool.not_eq_true, bne_eq_false_iff_eq,
        Bool.not_eq_eq_eq_not, Bool.not_true, Bool.not_eq_false] at h
      exact .inr ⟨port, rfl, h.1, h.2, rfl⟩

theorem Matched.detach (ht : t.Matched) (e : Nat) (frame : FrameId) :
    (t.detach e frame).2.Matched := by
  rcases t.detach_cases e frame with h | ⟨port, he, -, -, h⟩
  · rwa [h]
  · rw [h]
    exact ht.set he rfl (ht.opened e port he) (by simp)

theorem Matched.adopt (ht : t.Matched) (e : Nat) (frame : FrameId) :
    (t.adopt e frame).2.Matched := by
  rcases t.adopt_cases e frame with h | ⟨port, he, -, -, h⟩
  · rwa [h]
  · rw [h]
    exact ht.set he rfl (ht.opened e port he) (by simp)

/-! ### Closing -/

/-- The row of `a` goes, and its other end has no peer any more and one `close` notice: a delivery
where it is materialized, the pending flag in transit. -/
structure Cut (t : PortTable) (a : Nat) (r : PortTable × List Delivery) : Prop where
  next : r.1.next = t.next
  gone : r.1.ports.get? a = none
  rest : ∀ c, c ≠ a → t.peer a ≠ some c → r.1.ports.get? c = t.ports.get? c
  silent : t.peer a = none → r.2 = []
  notice : ∀ b other, t.peer a = some b → t.ports.get? b = some other →
    r.1.ports.get? b =
      some { other with peer := none, closePending := other.closePending || other.detached } ∧
    r.2 = if other.detached then [] else [.portClosed b]

theorem disentangle_eq (hb : t.ports.get? b = some other) (hopen : other.closed = false)
    (hplaced : other.owner.isSome = true ↔ other.detached = false) :
    t.disentangle b =
      (t.set b { other with peer := none, closePending := other.closePending || other.detached },
        if other.detached then [] else [.portClosed b]) := by
  unfold disentangle
  rw [hb]
  cases hd : other.detached with
  | true => simp [hopen, hd]
  | false =>
    have howner := hplaced.2 hd
    simp [hopen, hd, howner]

variable {r : PortTable × List Delivery}

/-- A result that takes the row of `a` out of `t₁`, a table that agrees with `t` elsewhere, and
disentangles its peer there. -/
theorem Matched.cut_of (t₁ : PortTable) (ht : t.Matched)
    (ha : t.ports.get? a = some port) (hrows : ∀ c, c ≠ a → t₁.ports.get? c = t.ports.get? c)
    (hnext : r.1.next = t.next)
    (hnone : port.peer = none → r.2 = [] ∧
      ∀ c, r.1.ports.get? c = if c = a then none else t₁.ports.get? c)
    (hsome : ∀ b, port.peer = some b → r.2 = (t₁.disentangle b).2 ∧
      ∀ c, r.1.ports.get? c = if c = a then none else (t₁.disentangle b).1.ports.get? c) :
    Cut t a r := by
  have hpeer := peer_eq ha
  cases hp : port.peer with
  | none =>
    obtain ⟨hsilent, hget⟩ := hnone hp
    rw [hp] at hpeer
    refine ⟨hnext, by rw [hget, if_pos rfl], fun c hc _ => ?_, fun _ => hsilent,
      fun b other hb => ?_⟩
    · rw [hget, if_neg hc, hrows c hc]
    · rw [hpeer] at hb
      cases hb
  | some b =>
    obtain ⟨hsent, hget⟩ := hsome b hp
    rw [hp] at hpeer
    obtain ⟨hne, hback⟩ := ht.entangled a b hpeer
    obtain ⟨other, hother, -⟩ := exists_of_peer hback
    have hb : t₁.ports.get? b = some other := by rw [hrows b (Ne.symm hne), hother]
    rw [disentangle_eq hb (ht.opened b other hother) (ht.placed b other hother)] at hsent hget
    refine ⟨hnext, by rw [hget, if_pos rfl], fun c hc hcb => ?_, fun h => ?_,
      fun b' other' hb' hother' => ?_⟩
    · have hcb' : c ≠ b := by
        rintro rfl
        exact hcb hpeer
      rw [hget, if_neg hc, get?_set, if_neg hcb', hrows c hc]
    · rw [hpeer] at h
      cases h
    · rw [hpeer] at hb'
      cases hb'
      rw [hother] at hother'
      cases hother'
      exact ⟨by rw [hget, if_neg (Ne.symm hne), get?_set, if_pos rfl], hsent⟩

@[simp] theorem next_disentangle (b : Nat) : (t.disentangle b).1.next = t.next := by
  unfold disentangle
  split
  · rfl
  · dsimp only
    split_ifs <;> rfl

theorem get?_disentangle (hc : c ≠ b) : (t.disentangle b).1.ports.get? c = t.ports.get? c := by
  unfold disentangle
  split
  · rfl
  · dsimp only
    split_ifs <;> simp [hc]

theorem Matched.cut_close (ht : t.Matched) (ha : t.ports.get? a = some port) :
    Cut t a (t.close a) := by
  have hopen := ht.opened a port ha
  refine ht.cut_of
    (t.set a { port with closed := true, enabled := false, queue := [], peer := none }) ha ?_ ?_ ?_ ?_
  · intro c hc
    rw [get?_set, if_neg hc]
  · cases hp : port.peer <;> simp [PortTable.close, ha, hopen, hp]
  · intro hp
    simp [PortTable.close, ha, hopen, hp]
  · intro b hp
    simp [PortTable.close, ha, hopen, hp]

theorem Matched.cut_forget (ht : t.Matched) (ha : t.ports.get? a = some port) :
    Cut t a (t.forget a) := by
  refine ht.cut_of (t.remove a) ha ?_ ?_ ?_ ?_
  · intro c hc
    rw [get?_remove, if_neg hc]
  · cases hp : port.peer <;> simp [PortTable.forget, ha, hp]
  · intro hp
    simp [PortTable.forget, ha, hp]
  · intro b hp
    have hne := (ht.entangled a b (by rw [peer_eq ha, hp])).1
    refine ⟨by simp [PortTable.forget, ha, hp], fun c => ?_⟩
    simp only [PortTable.forget, ha, hp]
    split_ifs with hc
    · -- the peer is another row, so the removed one stays away
      subst hc
      rw [get?_disentangle hne, get?_remove, if_pos rfl]
    · rfl

theorem close_of_none (ha : t.ports.get? a = none) : t.close a = (t, []) := by
  simp [close, ha]

theorem forget_of_none (ha : t.ports.get? a = none) : t.forget a = (t, []) := by
  simp [forget, ha]

theorem Cut.peer (ht : t.Matched) (h : Cut t a r) (c : Nat) :
    r.1.peer c = if c = a ∨ t.peer a = some c then none else t.peer c := by
  by_cases hca : c = a
  · subst hca
    simp [PortTable.peer, h.gone]
  · by_cases hpeer : t.peer a = some c
    · obtain ⟨other, hother, -⟩ := exists_of_peer (ht.entangled a c hpeer).2
      rw [if_pos (.inr hpeer), peer_eq (h.notice c other hpeer hother).1]
    · rw [if_neg (by simp [hca, hpeer]), PortTable.peer, h.rest c hca hpeer]
      rfl

/-- A row that is there after the cut was there before, in the same place but for its peer. -/
theorem Cut.row (ht : t.Matched) (h : Cut t a r)
    (hc : r.1.ports.get? c = some port) :
    c ≠ a ∧ ∃ old, t.ports.get? c = some old ∧ old.place.2 = port.place.2 := by
  have hca : c ≠ a := by
    rintro rfl
    rw [h.gone] at hc
    cases hc
  refine ⟨hca, ?_⟩
  by_cases hpeer : t.peer a = some c
  · obtain ⟨other, hother, -⟩ := exists_of_peer (ht.entangled a c hpeer).2
    rw [(h.notice c other hpeer hother).1] at hc
    cases hc
    exact ⟨other, hother, rfl⟩
  · rw [h.rest c hca hpeer] at hc
    exact ⟨port, hc, rfl⟩

theorem Matched.of_cut (ht : t.Matched) (h : Cut t a r) :
    r.1.Matched := by
  refine ⟨fun c d hcd => ?_, fun c row hc => ?_, fun c row hc => ?_⟩
  · rw [h.peer ht] at hcd ⊢
    split_ifs at hcd with hc
    obtain ⟨hne, hback⟩ := ht.entangled c d hcd
    refine ⟨hne, ?_⟩
    -- neither end of another channel is an end of the one that was cut
    rw [if_neg, hback]
    rintro (rfl | hd)
    · exact hc (.inr hback)
    · have := (ht.entangled a d hd).2
      rw [this] at hback
      exact hc (.inl (Option.some.inj hback).symm)
  · obtain ⟨-, old, hold, hplace⟩ := h.row ht hc
    simp only [PortEndpoint.place, Prod.mk.injEq] at hplace
    rw [← hplace.2.1]
    exact ht.opened c old hold
  · obtain ⟨-, old, hold, hplace⟩ := h.row ht hc
    simp only [PortEndpoint.place, Prod.mk.injEq] at hplace
    rw [← hplace.1, ← hplace.2.2.1]
    exact ht.placed c old hold

theorem Matched.forget (ht : t.Matched) (a : Nat) : (t.forget a).1.Matched := by
  cases ha : t.ports.get? a with
  | none => rwa [forget_of_none ha]
  | some port => exact ht.of_cut (ht.cut_forget ha)

/-! ### Making a pair -/

/-- A pair made while there are ids left. -/
theorem newPair_eq (owner : FrameId) (hlt : t.next < u64Max) :
    (t.newPair owner).1 = (t.next, t.next + 1) ∧
      (t.newPair owner).2.next = saturatingSucc (t.next + 1) ∧
      ∀ c, (t.newPair owner).2.ports.get? c =
        if c = t.next then
          some { peer := some (t.next + 1), owner := some owner, recipient := some owner }
        else if c = t.next + 1 then
          some { peer := some t.next, owner := some owner, recipient := some owner }
        else t.ports.get? c := by
  have hsucc : saturatingSucc t.next = t.next + 1 := by
    rw [saturatingSucc, if_pos hlt]
  refine ⟨by simp [newPair, alloc, hsucc], by simp [newPair, alloc, hsucc], fun c => ?_⟩
  simp only [newPair, alloc, hsucc, get?_modify, Dict.get?_insert]
  by_cases h1 : c = t.next
  · simp [h1]
  · by_cases h2 : c = t.next + 1 <;> simp [h1, h2]

theorem peer_newPair (owner : FrameId) (hlt : t.next < u64Max) (c : Nat) :
    (t.newPair owner).2.peer c = if c = t.next then some (t.next + 1)
      else if c = t.next + 1 then some t.next else t.peer c := by
  rw [peer, (newPair_eq owner hlt).2.2]
  split_ifs <;> rfl

theorem Matched.newPair (ht : t.Matched) (owner : FrameId) (hlt : t.next < u64Max)
    (hfresh : ∀ a port, t.ports.get? a = some port → a < t.next) :
    (t.newPair owner).2.Matched := by
  obtain ⟨-, -, hget⟩ := newPair_eq owner hlt
  refine ⟨fun c d hcd => ?_, fun c port hc => ?_, fun c port hc => ?_⟩
  · rw [peer_newPair owner hlt] at hcd ⊢
    split_ifs at hcd with h1 h2
    · cases hcd
      subst h1
      exact ⟨by omega, by simp⟩
    · cases hcd
      subst h2
      exact ⟨by omega, by simp⟩
    · obtain ⟨hne, hback⟩ := ht.entangled c d hcd
      obtain ⟨row, hrow, -⟩ := exists_of_peer hback
      have hd := hfresh d row hrow
      exact ⟨hne, by rw [if_neg (by omega), if_neg (by omega), hback]⟩
  · rw [hget] at hc
    split_ifs at hc
    · cases hc
      rfl
    · cases hc
      rfl
    · exact ht.opened c port hc
  · rw [hget] at hc
    split_ifs at hc
    · cases hc
      simp
    · cases hc
      simp
    · exact ht.placed c port hc

/-! ### Draining a queue -/

theorem drain_get?_of_ne {e c : Nat} (port : PortEndpoint) (hc : c ≠ e) :
    (t.drain e port).1.ports.get? c = t.ports.get? c := by
  unfold drain
  split_ifs <;> simp [hc]

theorem mem_drain {e : Nat} {port : PortEndpoint} {d : Delivery} (h : d ∈ (t.drain e port).2) :
    ∃ message ∈ port.queue, d = .portMessage e message.payload message.ports := by
  unfold drain at h
  split_ifs at h
  · simpa [eq_comm] using h
  · simp at h

end PortTable

end TinyBrowser
