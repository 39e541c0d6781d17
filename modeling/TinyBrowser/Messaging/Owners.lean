import TinyBrowser.Messaging.Channels

/-!
# The frames that own ports

A row of the table has an owner from `newPair` or `adopt`, and only those; the other operations keep
the owners of the rows they leave. `OwnedBy P` bounds the owners, and `closeFramePorts` takes a frame
out of the bound.
-/

namespace TinyBrowser
open Lib

namespace PortTable

variable {t t' t'' : PortTable} {P Q : FrameId → Prop} {e c : Nat} {port : PortEndpoint}

/-- Every row of the second table is a row of the first, with its owner. -/
def Keeps (t t' : PortTable) : Prop :=
  ∀ e port, t'.ports.get? e = some port →
    ∃ other, t.ports.get? e = some other ∧ port.owner = other.owner ∧ port.closed = other.closed

/-- The rows are open, and their owners are among `P`. -/
def OwnedBy (P : FrameId → Prop) (t : PortTable) : Prop :=
  ∀ e port, t.ports.get? e = some port →
    port.closed = false ∧ ∀ frame, port.owner = some frame → P frame

theorem Keeps.refl (t : PortTable) : Keeps t t := fun _ port h => ⟨port, h, rfl, rfl⟩

theorem Keeps.trans (h : Keeps t t') (h' : Keeps t' t'') : Keeps t t'' := by
  intro e port he
  obtain ⟨other, hother, howner, hclosed⟩ := h' e port he
  obtain ⟨first, hfirst, howner', hclosed'⟩ := h e other hother
  exact ⟨first, hfirst, howner.trans howner', hclosed.trans hclosed'⟩

theorem Keeps.of_same (h : SamePlaces t t') : Keeps t t' := by
  intro e port he
  obtain ⟨other, hother, hplace⟩ := h.row he
  simp only [PortEndpoint.place, Prod.mk.injEq] at hplace
  exact ⟨other, hother, hplace.2.1.symm, hplace.2.2.1.symm⟩

theorem keeps_set {other : PortEndpoint} (h : t.ports.get? e = some other)
    (howner : port.owner = other.owner) (hclosed : port.closed = other.closed) :
    Keeps t (t.set e port) := by
  intro c row hc
  rw [get?_set] at hc
  split_ifs at hc with hce
  · cases hc
    exact ⟨other, hce ▸ h, howner, hclosed⟩
  · exact ⟨row, hc, rfl, rfl⟩

theorem keeps_remove (e : Nat) : Keeps t (t.remove e) := by
  intro c row hc
  rw [get?_remove] at hc
  split_ifs at hc
  exact ⟨row, hc, rfl, rfl⟩

theorem keeps_route (e : Nat) (frame : FrameId) : Keeps t (t.route e frame) := by
  intro c row hc
  rw [route, get?_modify] at hc
  split_ifs at hc with hce
  · obtain ⟨other, hother, rfl⟩ := Option.map_eq_some_iff.1 hc
    refine ⟨other, hother, ?_⟩
    split_ifs <;> exact ⟨rfl, rfl⟩
  · exact ⟨row, hc, rfl, rfl⟩

theorem keeps_disentangle (e : Nat) : Keeps t (t.disentangle e).1 := by
  unfold disentangle
  cases he : t.ports.get? e with
  | none => exact .refl t
  | some other =>
    dsimp only
    split_ifs <;> exact keeps_set he rfl rfl

/-- A row that stays at a `close` is another one. -/
theorem keeps_close (e : Nat) : Keeps t (t.close e).1 := by
  unfold close
  cases he : t.ports.get? e with
  | none => exact .refl t
  | some other =>
    dsimp only
    split_ifs with hclosed
    · exact .refl t
    · intro c row hc
      rw [get?_remove] at hc
      split_ifs at hc with hce
      cases hpeer : other.peer with
      | none =>
        rw [hpeer, get?_set, if_neg hce] at hc
        exact ⟨row, hc, rfl, rfl⟩
      | some b =>
        rw [hpeer] at hc
        obtain ⟨row', hrow', hsame⟩ := keeps_disentangle b c row hc
        rw [get?_set, if_neg hce] at hrow'
        exact ⟨row', hrow', hsame⟩

theorem close_gone (hopen : port.closed = false) (h : t.ports.get? e = some port) :
    (t.close e).1.ports.get? e = none := by
  simp [close, h, hopen]

theorem keeps_forget (e : Nat) : Keeps t (t.forget e).1 := by
  unfold forget
  cases he : t.ports.get? e with
  | none => exact .refl t
  | some other =>
    dsimp only
    cases other.peer with
    | none => exact keeps_remove e
    | some b => exact (keeps_remove e).trans (keeps_disentangle b)

theorem keeps_closeAll (order : List Nat) : Keeps t (t.closeAll order).1 := by
  induction order generalizing t with
  | nil => exact .refl t
  | cons e order ih => exact (keeps_close e).trans ih

namespace OwnedBy

theorem keeps (h : OwnedBy P t) (hk : Keeps t t') : OwnedBy P t' := by
  intro e port he
  obtain ⟨other, hother, howner, hclosed⟩ := hk e port he
  obtain ⟨h1, h2⟩ := h e other hother
  exact ⟨hclosed.trans h1, fun frame hframe => h2 frame (howner ▸ hframe)⟩

theorem mono (h : OwnedBy P t) (hPQ : ∀ f, P f → Q f) : OwnedBy Q t :=
  fun e port he => ⟨(h e port he).1, fun f hf => hPQ f ((h e port he).2 f hf)⟩

/-- What is closed one by one is gone. -/
theorem closeAll_gone (h : OwnedBy P t) {order : List Nat} (he : e ∈ order) :
    (t.closeAll order).1.ports.get? e = none := by
  induction order generalizing t with
  | nil => cases he
  | cons c order ih =>
    have hclosed := h.keeps (keeps_close (t := t) c)
    show ((t.close c).1.closeAll order).1.ports.get? e = none
    by_cases hmem : e ∈ order
    · exact ih hclosed hmem
    · obtain rfl : e = c := (List.mem_cons.1 he).resolve_right hmem
      have hgone : (t.close e).1.ports.get? e = none := by
        cases hport : t.ports.get? e with
        | none => rw [close_of_none hport, hport]
        | some port => exact close_gone (h e port hport).1 hport
      cases hrow : ((t.close e).1.closeAll order).1.ports.get? e with
      | none => rfl
      | some row =>
        obtain ⟨other, hother, -⟩ := keeps_closeAll order e row hrow
        rw [hgone] at hother
        cases hother

/-- The frame whose ports are closed owns none any more. -/
theorem closeFramePorts (h : OwnedBy P t) (frame : FrameId) {order : List Nat}
    (horder : order.Perm (t.owned frame)) :
    OwnedBy (fun f => P f ∧ f ≠ frame) (t.closeFramePorts frame order).1 := by
  rw [PortTable.closeFramePorts, if_pos horder]
  intro e port he
  obtain ⟨h1, h2⟩ := h.keeps (keeps_closeAll order) e port he
  refine ⟨h1, fun f hf => ⟨h2 f hf, ?_⟩⟩
  rintro rfl
  obtain ⟨other, hother, howner, hclosed⟩ := keeps_closeAll order e port he
  have hmem : e ∈ t.owned f := by
    refine List.mem_map.2 ⟨(e, other), List.mem_filter.2 ⟨(Dict.get?_eq_some_iff ..).1 hother, ?_⟩, rfl⟩
    simp [← howner, hf, ← hclosed, h1]
  rw [h.closeAll_gone (horder.mem_iff.2 hmem)] at he
  cases he

theorem newPair (h : OwnedBy P t) {owner : FrameId} (ho : P owner) :
    OwnedBy P (t.newPair owner).2 := by
  have hfresh : ∀ f, some owner = some f → P f := by
    rintro f ⟨⟩
    exact ho
  intro e port he
  simp only [PortTable.newPair, alloc, PortTable.modify, Dict.get?_modify, Dict.get?_insert] at he
  split_ifs at he
  · cases he
    exact ⟨rfl, hfresh⟩
  · cases he
    exact ⟨rfl, hfresh⟩
  · cases he
    exact ⟨rfl, hfresh⟩
  · exact h e port he

theorem adopt (h : OwnedBy P t) {frame : FrameId} (hf : P frame) :
    OwnedBy P (t.adopt e frame).2 := by
  rcases t.adopt_cases e frame with heq | ⟨port, he, -, -, heq⟩
  · rwa [heq]
  · rw [heq]
    intro c row hc
    rw [get?_set] at hc
    split_ifs at hc with hce
    · cases hc
      refine ⟨(h e port he).1, ?_⟩
      rintro f ⟨⟩
      exact hf
    · exact h c row hc

theorem detach (h : OwnedBy P t) (frame : FrameId) : OwnedBy P (t.detach e frame).2 := by
  rcases t.detach_cases e frame with heq | ⟨port, he, -, -, heq⟩
  · rwa [heq]
  · rw [heq]
    intro c row hc
    rw [get?_set] at hc
    split_ifs at hc with hce
    · cases hc
      exact ⟨(h e port he).1, nofun⟩
    · exact h c row hc

end OwnedBy

end PortTable

end TinyBrowser
