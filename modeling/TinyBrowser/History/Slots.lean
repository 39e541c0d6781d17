import Mathlib.Data.List.InsertIdx
import Mathlib.Data.List.Perm.Basic
import TinyBrowser.History.Basic

/-!
# The positions of the entries

A `Slot` is what the joint list reads of an entry to place it: its id, its step and its position in
its own frame. `SlotInv` is the part of the history's invariant that speaks about slots and frame
lists only: the frame lists partition the ids, ids and steps are below the entry counter, and the
main frame's list starts at step 0, increases strictly and numbers its entries by position. The
three changes to the lists are adding an entry (`SlotInv.push`), dropping the forward branch
(`SlotInv.truncate`) and dropping a frame (`SlotInv.remove`).
-/

namespace TinyBrowser
open Lib

structure Slot where
  id : Nat
  step : Nat
  localIndex : Nat

def Entry.slot (e : Entry) : Slot := ⟨e.id, e.step, e.localIndex⟩

def SessionHistory.slots (h : SessionHistory) : List Slot := h.entries.map Entry.slot

variable {slots : List Slot} {frames : Dict FrameId (List EntryId)} {current next : Nat}
  {f : FrameId} {ids : List EntryId}

/-- `ms` are the main frame's slots in its own order. -/
structure MainList (slots : List Slot) (frames : Dict FrameId (List EntryId)) (ms : List Slot) :
    Prop where
  ids : frames.get? FrameId.main = some (ms.map Slot.id)
  mem : ∀ s ∈ ms, s ∈ slots
  first : (ms.map Slot.step).head? = some 0
  sorted : (ms.map Slot.step).Pairwise (· < ·)
  position : ms.map Slot.localIndex = List.range ms.length

structure SlotInv (slots : List Slot) (frames : Dict FrameId (List EntryId)) (current next : Nat) :
    Prop where
  nodup : (slots.map Slot.id).Nodup
  id_lt : ∀ s ∈ slots, s.id < next
  step_lt : ∀ s ∈ slots, s.step < next
  frame_nodup : ∀ {f ids}, frames.get? f = some ids → ids.Nodup
  disjoint : ∀ {f g ids ids' i}, frames.get? f = some ids → frames.get? g = some ids' → i ∈ ids →
    i ∈ ids' → f = g
  owned : ∀ {f ids i}, frames.get? f = some ids → i ∈ ids → ∃ s ∈ slots, s.id = i
  covered : ∀ s ∈ slots, ∃ f ids, frames.get? f = some ids ∧ s.id ∈ ids
  current_lt : current < next
  main : ∃ ms, MainList slots frames ms

theorem filter_le_isPrefixOf {ms : List Slot} (h : (ms.map Slot.step).Pairwise (· < ·)) (c : Nat) :
    ms.filter (·.step ≤ c) <+: ms := by
  induction ms with
  | nil => exact List.prefix_rfl
  | cons s ms ih =>
    rw [List.map_cons, List.pairwise_cons] at h
    by_cases hs : s.step ≤ c
    · rw [List.filter_cons_of_pos (by simpa using hs)]
      exact (List.cons_prefix_cons).2 ⟨rfl, ih h.2⟩
    · rw [List.filter_eq_nil_iff.2]
      · exact List.nil_prefix
      intro t ht
      rcases List.mem_cons.1 ht with rfl | ht
      · simpa using hs
      · have := h.1 t.step (List.mem_map_of_mem ht)
        simp only [decide_eq_true_eq]
        omega

theorem perm_insertAt (ids : List EntryId) (i : Nat) (id : EntryId) :
    (SessionHistory.insertAt ids i id).Perm (id :: ids) := by
  unfold SessionHistory.insertAt
  split_ifs with hi
  · exact List.perm_insertIdx id ids (Nat.le_of_lt hi)
  · exact List.perm_append_comm

theorem mem_insertAt {ids : List EntryId} {i : Nat} {id j : EntryId} :
    j ∈ SessionHistory.insertAt ids i id ↔ j = id ∨ j ∈ ids :=
  (perm_insertAt ids i id).mem_iff.trans List.mem_cons

namespace MainList
variable {ms : List Slot}

variable {frames' : Dict FrameId (List EntryId)}

theorem filter (h : MainList slots frames ms) (c : Nat) {slots' : List Slot}
    (hs : ∀ s ∈ slots, s.step ≤ c → s ∈ slots')
    (hf : frames'.get? FrameId.main = some ((ms.filter (·.step ≤ c)).map Slot.id)) :
    MainList slots' frames' (ms.filter (·.step ≤ c)) := by
  have hpre := filter_le_isPrefixOf h.sorted c
  refine ⟨hf, fun s hs' => ?_, ?_, ?_, ?_⟩
  · obtain ⟨hmem, hle⟩ := List.mem_filter.1 hs'
    exact hs s (h.mem s hmem) (by simpa using hle)
  · cases ms with
    | nil => exact absurd h.first (by simp)
    | cons s ms =>
      have h0 : s.step = 0 := by simpa using h.first
      rw [List.filter_cons_of_pos (by simp [h0])]
      simp [h0]
  · exact h.sorted.sublist (hpre.sublist.map _)
  · obtain ⟨t, ht⟩ := hpre
    have htake : ms.filter (·.step ≤ c) = ms.take (ms.filter (·.step ≤ c)).length := by
      conv_rhs => rw [← ht]
      rw [List.take_left']
      rw [ht]
    have hlen : (ms.filter (·.step ≤ c)).length ≤ ms.length := List.length_filter_le _ _
    rw [htake, List.map_take, h.position, List.take_range, List.length_take]

theorem push (h : MainList slots frames ms) {s : Slot} (hstep : ∀ t ∈ slots, t.step < s.step)
    (hidx : s.localIndex = ms.length)
    (hf : frames'.get? FrameId.main = some ((ms ++ [s]).map Slot.id)) :
    MainList (slots ++ [s]) frames' (ms ++ [s]) := by
  refine ⟨hf, fun t ht => ?_, ?_, ?_, ?_⟩
  · rcases List.mem_append.1 ht with ht | ht
    · exact List.mem_append_left _ (h.mem t ht)
    · exact List.mem_append_right _ ht
  · have hfirst := h.first
    cases ms with
    | nil => simp at hfirst
    | cons t ms => simpa using hfirst
  · rw [List.map_append, List.pairwise_append]
    refine ⟨h.sorted, by simp, ?_⟩
    intro a ha b hb
    obtain ⟨t, ht, rfl⟩ := List.mem_map.1 ha
    obtain rfl : b = s.step := by simpa using hb
    exact hstep t (h.mem t ht)
  · rw [List.map_append, h.position, List.length_append, List.length_singleton, List.range_succ]
    simp [hidx]

theorem mono (h : MainList slots frames ms) {slots' : List Slot} (hs : ∀ s ∈ ms, s ∈ slots')
    (hf : frames'.get? FrameId.main = frames.get? FrameId.main) : MainList slots' frames' ms :=
  ⟨hf.trans h.ids, hs, h.first, h.sorted, h.position⟩

end MainList

namespace SlotInv

theorem eq_of_id (h : SlotInv slots frames current next) {s t : Slot} (hs : s ∈ slots)
    (ht : t ∈ slots) (heq : s.id = t.id) : s = t :=
  List.inj_on_of_nodup_map h.nodup hs ht heq

/-- Adds a slot under the next id to the frame `f`. In the main frame it must be the newest step and
stand at the end. -/
theorem push (h : SlotInv slots frames current next) {s : Slot} (hid : s.id = next)
    (hstep : s.step ≤ next) (hf : (frames.get? f).getD [] = ids)
    (hmain : f = FrameId.main → s.localIndex = ids.length ∧ ∀ t ∈ slots, t.step < s.step) :
    SlotInv (slots ++ [s]) (frames.insert f (SessionHistory.insertAt ids s.localIndex s.id)) current
      (next + 1) := by
  -- the new id is in no list yet
  have hfresh : ∀ {g ids'}, frames.get? g = some ids' → s.id ∉ ids' := by
    intro g ids' hg hmem
    obtain ⟨t, ht, hti⟩ := h.owned hg hmem
    have := h.id_lt t ht
    omega
  have hids : ∀ i ∈ ids, frames.get? f = some ids := by
    intro i hi
    cases hg : frames.get? f with
    | none => rw [hg] at hf; subst hf; simp at hi
    | some ids' => rw [hg] at hf; rw [← hf]; rfl
  have hidsFresh : s.id ∉ ids := fun hi => hfresh (hids _ hi) hi
  have hidsNodup : ids.Nodup := by
    cases hg : frames.get? f with
    | none => rw [hg] at hf; subst hf; simp
    | some ids' => rw [hg] at hf; subst hf; exact h.frame_nodup hg
  refine ⟨?_, ?_, ?_, ?_, ?_, ?_, ?_, ?_, ?_⟩
  · rw [List.map_append, List.nodup_append]
    refine ⟨h.nodup, by simp, ?_⟩
    intro a ha b hb
    obtain ⟨t, ht, rfl⟩ := List.mem_map.1 ha
    obtain rfl : b = s.id := by simpa using hb
    have := h.id_lt t ht
    omega
  · intro t ht
    rcases List.mem_append.1 ht with ht | ht
    · have := h.id_lt t ht; omega
    · obtain rfl : t = s := by simpa using ht
      omega
  · intro t ht
    rcases List.mem_append.1 ht with ht | ht
    · have := h.step_lt t ht; omega
    · obtain rfl : t = s := by simpa using ht
      omega
  · intro g ids' hg
    rw [Dict.get?_insert] at hg
    split_ifs at hg
    · obtain rfl := Option.some.inj hg
      exact (perm_insertAt _ _ _).nodup_iff.2 (List.nodup_cons.2 ⟨hidsFresh, hidsNodup⟩)
    · exact h.frame_nodup hg
  · intro g g' l l' i hg hg' hi hi'
    rw [Dict.get?_insert] at hg hg'
    split_ifs at hg hg' with h1 h2 h2
    · rw [h1, h2]
    · obtain rfl := Option.some.inj hg
      rcases mem_insertAt.1 hi with rfl | hi
      · exact absurd hi' (hfresh hg')
      · exact h1.trans (h.disjoint (hids _ hi) hg' hi hi')
    · obtain rfl := Option.some.inj hg'
      rcases mem_insertAt.1 hi' with rfl | hi'
      · exact absurd hi (hfresh hg)
      · exact (h.disjoint hg (hids _ hi') hi hi').trans h2.symm
    · exact h.disjoint hg hg' hi hi'
  · intro g l i hg hi
    rw [Dict.get?_insert] at hg
    split_ifs at hg
    · obtain rfl := Option.some.inj hg
      rcases mem_insertAt.1 hi with rfl | hi
      · exact ⟨s, by simp, rfl⟩
      · obtain ⟨t, ht, hti⟩ := h.owned (hids _ hi) hi
        exact ⟨t, List.mem_append_left _ ht, hti⟩
    · obtain ⟨t, ht, hti⟩ := h.owned hg hi
      exact ⟨t, List.mem_append_left _ ht, hti⟩
  · intro t ht
    rcases List.mem_append.1 ht with ht | ht
    · obtain ⟨g, l, hg, hmem⟩ := h.covered t ht
      by_cases hgf : g = f
      · subst hgf
        rw [hg, Option.getD_some] at hf
        subst hf
        exact ⟨g, _, by rw [Dict.get?_insert, if_pos rfl], mem_insertAt.2 (.inr hmem)⟩
      · exact ⟨g, l, by rw [Dict.get?_insert, if_neg hgf, hg], hmem⟩
    · obtain rfl : t = s := by simpa using ht
      exact ⟨f, _, by rw [Dict.get?_insert, if_pos rfl], mem_insertAt.2 (.inl rfl)⟩
  · exact Nat.lt_succ_of_lt h.current_lt
  · obtain ⟨ms, hms⟩ := h.main
    by_cases hfm : f = FrameId.main
    · subst hfm
      obtain ⟨hidx, hlt⟩ := hmain rfl
      rw [hms.ids, Option.getD_some] at hf
      subst hf
      rw [List.length_map] at hidx
      refine ⟨ms ++ [s], hms.push hlt hidx ?_⟩
      rw [Dict.get?_insert, if_pos rfl, SessionHistory.insertAt, if_neg (by simp [hidx])]
      simp
    · refine ⟨ms, hms.mono (fun t ht => List.mem_append_left _ (hms.mem t ht)) ?_⟩
      rw [Dict.get?_insert, if_neg (Ne.symm hfm)]

/-- Keeping a set of slots, and in every list the ids that are kept. -/
theorem restrict (h : SlotInv slots frames current next) {p : Slot → Bool}
    {frames' : Dict FrameId (List EntryId)} {current' : Nat}
    (hsub : ∀ {g l}, frames'.get? g = some l → ∃ l', frames.get? g = some l' ∧ List.Sublist l l')
    (hown : ∀ {g l i}, frames'.get? g = some l → i ∈ l → ∃ s ∈ slots, p s = true ∧ s.id = i)
    (hcov : ∀ {g l s}, frames.get? g = some l → s ∈ slots → p s = true → s.id ∈ l →
      ∃ l', frames'.get? g = some l' ∧ s.id ∈ l')
    (hcur : current' < next) (hmain : ∃ ms, MainList (slots.filter p) frames' ms) :
    SlotInv (slots.filter p) frames' current' next := by
  refine ⟨?_, ?_, ?_, ?_, ?_, ?_, ?_, hcur, hmain⟩
  · exact h.nodup.sublist (List.filter_sublist.map _)
  · exact fun s hs => h.id_lt s (List.mem_filter.1 hs).1
  · exact fun s hs => h.step_lt s (List.mem_filter.1 hs).1
  · intro g l hg
    obtain ⟨l', hl', hsl⟩ := hsub hg
    exact (h.frame_nodup hl').sublist hsl
  · intro g g' l l' i hg hg' hi hi'
    obtain ⟨m, hm, hs⟩ := hsub hg
    obtain ⟨m', hm', hs'⟩ := hsub hg'
    exact h.disjoint hm hm' (hs.subset hi) (hs'.subset hi')
  · intro g l i hg hi
    obtain ⟨s, hs, hp, hsi⟩ := hown hg hi
    exact ⟨s, List.mem_filter.2 ⟨hs, hp⟩, hsi⟩
  · intro s hs
    obtain ⟨hs, hp⟩ := List.mem_filter.1 hs
    obtain ⟨g, l, hg, hmem⟩ := h.covered s hs
    obtain ⟨l', hl', hmem'⟩ := hcov hg hs hp hmem
    exact ⟨g, l', hl', hmem'⟩

theorem mem_map_id_filter (h : SlotInv slots frames current next) {p : Slot → Bool} {s : Slot}
    (hs : s ∈ slots) : s.id ∈ (slots.filter p).map Slot.id ↔ p s = true := by
  constructor
  · intro hmem
    obtain ⟨t, ht, hid⟩ := List.mem_map.1 hmem
    obtain ⟨ht, hp⟩ := List.mem_filter.1 ht
    rwa [h.eq_of_id ht hs hid] at hp
  · exact fun hp => List.mem_map.2 ⟨s, List.mem_filter.2 ⟨hs, hp⟩, rfl⟩

theorem truncate (h : SlotInv slots frames current next) {live : List EntryId}
    (hlive : live = (slots.filter (·.step ≤ current)).map Slot.id) :
    SlotInv (slots.filter (·.step ≤ current)) (frames.mapVal fun l => l.filter (· ∈ live)) current
      next := by
  have hmem : ∀ s ∈ slots, (s.id ∈ live ↔ s.step ≤ current) := by
    intro s hs
    rw [hlive, h.mem_map_id_filter hs, decide_eq_true_eq]
  refine h.restrict ?_ ?_ ?_ h.current_lt ?_
  · intro g l hg
    rw [Dict.get?_mapVal, Option.map_eq_some_iff] at hg
    obtain ⟨l', hl', rfl⟩ := hg
    exact ⟨l', hl', List.filter_sublist⟩
  · intro g l i hg hi
    rw [Dict.get?_mapVal, Option.map_eq_some_iff] at hg
    obtain ⟨l', hl', rfl⟩ := hg
    obtain ⟨hi, hli⟩ := List.mem_filter.1 hi
    obtain ⟨s, hs, rfl⟩ := h.owned hl' hi
    exact ⟨s, hs, decide_eq_true ((hmem s hs).1 (of_decide_eq_true hli)), rfl⟩
  · intro g l s hg hs hp hi
    refine ⟨_, by rw [Dict.get?_mapVal, hg]; rfl, List.mem_filter.2 ⟨hi, decide_eq_true ?_⟩⟩
    exact (hmem s hs).2 (of_decide_eq_true hp)
  · obtain ⟨ms, hms⟩ := h.main
    refine ⟨_, hms.filter current (fun s hs hle => List.mem_filter.2 ⟨hs, decide_eq_true hle⟩) ?_⟩
    rw [Dict.get?_mapVal, hms.ids, Option.map_some, List.filter_map]
    congr 2
    refine List.filter_congr fun s hs => ?_
    simp only [Function.comp_apply, decide_eq_decide]
    exact hmem s (hms.mem s hs)

theorem remove (h : SlotInv slots frames current next) (hf : frames.get? f = some ids)
    (hne : f ≠ FrameId.main) {current' : Nat} (hcur : current' < next) :
    SlotInv (slots.filter fun s => s.id ∉ ids) (frames.erase f) current' next := by
  refine h.restrict ?_ ?_ ?_ hcur ?_
  · intro g l hg
    rw [Dict.get?_erase] at hg
    split_ifs at hg
    exact ⟨l, hg, List.Sublist.refl _⟩
  · intro g l i hg hi
    rw [Dict.get?_erase] at hg
    split_ifs at hg with hgf
    obtain ⟨s, hs, rfl⟩ := h.owned hg hi
    exact ⟨s, hs, decide_eq_true fun hmem => hgf (h.disjoint hg hf hi hmem), rfl⟩
  · intro g l s hg hs hp hi
    have hgf : g ≠ f := by
      rintro rfl
      rw [hf] at hg
      obtain rfl := Option.some.inj hg
      exact of_decide_eq_true hp hi
    exact ⟨l, by rw [Dict.get?_erase, if_neg hgf, hg], hi⟩
  · obtain ⟨ms, hms⟩ := h.main
    refine ⟨ms, hms.mono (fun s hs => ?_) (by rw [Dict.get?_erase, if_neg (Ne.symm hne)])⟩
    refine List.mem_filter.2 ⟨hms.mem s hs, decide_eq_true fun hmem => ?_⟩
    exact hne (h.disjoint hf hms.ids hmem (List.mem_map_of_mem hs))

theorem setStep (h : SlotInv slots frames current next) {current' : Nat}
    (hcur : current' < next) : SlotInv slots frames current' next :=
  ⟨h.nodup, h.id_lt, h.step_lt, h.frame_nodup, h.disjoint, h.owned, h.covered, hcur, h.main⟩

end SlotInv

end TinyBrowser
