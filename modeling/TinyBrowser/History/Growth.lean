import TinyBrowser.History.Run

/-!
# The counters and the main frame's list

`Grows n h h'` bounds what a change does to the counters and the frame lists: each counter advances
by at most `n`, and a list only gains ids that are new. Every operation grows the history by at most
two, so a run of fewer than `2 ^ 63 - 1` operations leaves room in the counters (`fits_run`).

Under the invariant the main frame's entries are `mainEntries`, and its active entry is the last of
them at or before the current step (`Inv.activeEntry_main`). `Consistent` spells the invariant out
in terms of entries and of what `snapshot` projects; every run of the operations keeps it.
-/

namespace TinyBrowser
open Lib

namespace SessionHistory
section
variable {h h' h'' : SessionHistory} {f : FrameId} {id : EntryId} {url : Url}
  {name : Option ContextName} {n m : Nat}

structure Grows (n : Nat) (h h' : SessionHistory) : Prop where
  entry_le : h.nextEntry ≤ h'.nextEntry
  entry_ub : h'.nextEntry ≤ h.nextEntry + n
  document_ub : h'.nextDocument ≤ h.nextDocument + n
  old : ∀ g i, i ∈ h'.idsOf g → i < h.nextEntry → i ∈ h.idsOf g

namespace Grows

theorem refl (h : SessionHistory) : Grows n h h :=
  ⟨Nat.le_refl _, Nat.le_add_right _ _, Nat.le_add_right _ _, fun _ _ hi _ => hi⟩

theorem trans (h₁ : Grows n h h') (h₂ : Grows m h' h'') : Grows (n + m) h h'' := by
  have hub := h₁.entry_ub
  have hub' := h₂.entry_ub
  have hdoc := h₁.document_ub
  have hdoc' := h₂.document_ub
  refine ⟨Nat.le_trans h₁.entry_le h₂.entry_le, by omega, by omega, fun g i hi hlt => ?_⟩
  exact h₁.old g i (h₂.old g i hi (Nat.lt_of_lt_of_le hlt h₁.entry_le)) hlt

theorem mono (hg : Grows n h h') (hnm : n ≤ m) : Grows m h h' := by
  have hub := hg.entry_ub
  have hdoc := hg.document_ub
  exact ⟨hg.entry_le, by omega, by omega, hg.old⟩

theorem same (hg : Grows n h h') (he : h''.nextEntry = h'.nextEntry)
    (hd : h''.nextDocument = h'.nextDocument) (hf : h''.frames = h'.frames) : Grows n h h'' := by
  refine ⟨he ▸ hg.entry_le, he ▸ hg.entry_ub, hd ▸ hg.document_ub, fun g i hi hlt => ?_⟩
  rw [idsOf, hf] at hi
  exact hg.old g i hi hlt

theorem of_eq (he : h'.nextEntry = h.nextEntry) (hd : h'.nextDocument = h.nextDocument)
    (hf : h'.frames = h.frames) : Grows n h h' := (refl h).same he hd hf

theorem redocument (h : SessionHistory) (id : EntryId) (k : Nat → Entry → Entry)
    (name : Option ContextName) (e : Entry) : Grows 1 h (h.redocument id k name e) := by
  refine ⟨?_, ?_, ?_, fun g i hi _ => ?_⟩
  · rw [nextEntry_redocument]
  · rw [nextEntry_redocument]
    omega
  · rw [nextDocument_redocument]
    exact saturatingSucc_le _
  · rwa [idsOf, frames_redocument] at hi

theorem replaceEntry : Grows 1 h (h.replaceEntry id url name) := by
  rw [replaceEntry_eq]
  split
  · exact refl h
  · exact redocument _ _ _ _ _

/-- Adding an entry under the next id to a list. -/
theorem insert {frames : Dict FrameId (List EntryId)} {i : Nat}
    (he : h'.nextEntry = saturatingSucc h.nextEntry)
    (hd : h'.nextDocument = saturatingSucc h.nextDocument)
    (hsub : ∀ g j, j ∈ (frames.get? g).getD [] → j ∈ h.idsOf g)
    (hf : h'.frames = frames.insert f (insertAt ((frames.get? f).getD []) i h.nextEntry)) :
    Grows 1 h h' := by
  refine ⟨?_, ?_, ?_, fun g j hj hlt => ?_⟩
  · rw [he]
    exact le_saturatingSucc _
  · rw [he]
    exact saturatingSucc_le _
  · rw [hd]
    exact saturatingSucc_le _
  · rw [idsOf, hf, Dict.get?_insert] at hj
    split_ifs at hj with hgf
    · subst hgf
      rcases mem_insertAt.1 hj with rfl | hj
      · exact absurd hlt (Nat.lt_irrefl _)
      · exact hsub g j hj
    · exact hsub g j hj

theorem addFrame : Grows 1 h (h.addFrame f url name) := by
  unfold SessionHistory.addFrame
  split_ifs
  · exact refl h
  · exact insert (nextEntry_insertEntry _ _ _ _ _) (nextDocument_insertEntry _ _ _ _ _)
      (fun _ _ hj => hj) (frames_insertEntry _ _ _ _ _)

theorem withFrame (h : SessionHistory) (f : FrameId) (url : Url) :
    Grows 1 h (h.withFrame f url) := by
  unfold SessionHistory.withFrame
  split_ifs
  · exact refl h
  · exact addFrame

theorem mem_idsOf_truncateForward {i : EntryId} (hi : i ∈ h.truncateForward.idsOf f) :
    i ∈ h.idsOf f := by
  obtain ⟨ids, hids, hmem⟩ := mem_idsOf.1 hi
  have hids : (h.frames.mapVal fun ids => ids.filter
      (· ∈ (h.entries.filter fun e => e.step ≤ h.currentStep).map Entry.id)).get? f = some ids := hids
  rw [Dict.get?_mapVal, Option.map_eq_some_iff] at hids
  obtain ⟨ids', hids', rfl⟩ := hids
  exact mem_idsOf.2 ⟨ids', hids', (List.mem_filter.1 hmem).1⟩

theorem pushStep (h : SessionHistory) (f : FrameId) (localIndex : SessionHistory → Nat) (url : Url)
    (name : Option ContextName) (state : Option Text) :
    Grows 1 h (h.pushStep f localIndex url name state).2 :=
  insert (nextEntry_pushStep _ _ _ _) (nextDocument_pushStep _ _ _ _)
    (fun _ _ hj => mem_idsOf_truncateForward hj) (frames_pushStep _ _ _ _)

theorem removeFrame : Grows 0 h (h.removeFrame f) := by
  rw [removeFrame_eq]
  split_ifs
  · exact refl h
  · split
    · exact refl h
    · rename_i ids _
      have hdrop : Grows 0 h (h.dropFrame f ids) := by
        refine ⟨Nat.le_refl _, Nat.le_refl _, Nat.le_refl _, fun g i hi _ => ?_⟩
        have hi : i ∈ ((h.frames.erase f).get? g).getD [] := hi
        rw [Dict.get?_erase] at hi
        split_ifs at hi
        · simp at hi
        · exact hi
      unfold clampCurrentStep
      split <;> exact hdrop.same rfl rfl rfl

theorem clearChildren : Grows 0 h h.clearChildren := by
  unfold SessionHistory.clearChildren
  generalize h.frames.keys.filter (· ≠ FrameId.main) = fs
  induction fs generalizing h with
  | nil => exact refl h
  | cons f fs ih => exact removeFrame.trans ih

theorem begin {replace : Bool} {localIndex : Nat} {pending : Bool} :
    Grows 2 h (h.begin f url replace localIndex name pending).2 := by
  have hpend : ∀ p, Grows 1 h { h.withFrame f url with pending := p } :=
    fun p => (withFrame h f url).same rfl rfl rfl
  rcases begin_cases (h := h) (f := f) url replace localIndex name pending with
    heq | ⟨-, p, -, heq | ⟨target, -, heq⟩ | ⟨-, heq⟩⟩
  · rw [heq]
    exact refl h
  · rw [heq]
    exact (hpend p).mono (by omega)
  · rw [heq]
    exact (hpend p).trans replaceEntry
  · rw [heq]
    exact (hpend p).trans (pushStep _ _ _ _ _ _)

theorem commitUrl : Grows 1 h (h.commitUrl f url) := by
  have hpend : Grows 0 h { h with pending := h.pending.erase f } := of_eq rfl rfl rfl
  rcases commitUrl_cases (h := h) (f := f) url with
    heq | ⟨id, -, heq⟩ | ⟨id, name, -, heq⟩ | ⟨name, -, heq⟩
  · rw [heq]
    exact refl h
  · rw [heq]
    exact of_eq rfl rfl rfl
  · rw [heq]
    exact hpend.trans replaceEntry
  · rw [heq]
    exact hpend.trans (pushStep _ _ _ _ _ _)

theorem update {state : Text} {handling : HistoryHandling} :
    Grows 1 h (h.update f url state handling) := by
  rcases update_cases (h := h) (f := f) url state handling with
    heq | ⟨id, -, -, heq⟩ | ⟨e, -, -, -, heq⟩
  · rw [heq]
    exact refl h
  · rw [heq]
    exact of_eq rfl rfl rfl
  · rw [heq]
    exact (pushStep h f (·.frameLen f) url none (some state)).same rfl rfl rfl

theorem commit {c : Commit} : Grows 1 h (h.commit c).2 := by
  cases c with
  | push url name =>
    exact pushStep h FrameId.main (·.frameLen FrameId.main) url name none
  | traverse id url =>
    rw [commit_traverse]
    split
    · exact refl h
    · rename_i old _
      exact (redocument h id (fun n e => { e with url, document := n }) (h.names.get? old.document)
        old).same rfl rfl rfl

theorem syncCurrentName : Grows n h (h.syncCurrentName name) := by
  unfold SessionHistory.syncCurrentName
  split
  · exact refl h
  · cases name <;> exact of_eq rfl rfl rfl

theorem setTitle {title : Text} : Grows n h (h.setTitle f title) := by
  unfold SessionHistory.setTitle
  split <;> exact of_eq rfl rfl rfl

theorem apply (op : HistoryOp) : Grows 2 h (h.apply op) := by
  cases op with
  | addFrame f url name => exact addFrame.mono (by omega)
  | begin f url replace localIndex name pending => exact begin
  | commitUrl f url => exact commitUrl.mono (by omega)
  | discardPending f => exact of_eq rfl rfl rfl
  | update f url state handling => exact update.mono (by omega)
  | commit c => exact commit.mono (by omega)
  | syncCurrentName name => exact syncCurrentName
  | setTitle f title => exact setTitle
  | removeFrame f => exact removeFrame.mono (by omega)
  | clearChildren => exact clearChildren.mono (by omega)
  | traverseSameDocument id =>
    simp only [SessionHistory.apply, SessionHistory.traverseSameDocument]
    split <;> exact of_eq rfl rfl rfl
  | setCurrentStep target =>
    simp only [SessionHistory.apply]
    split <;> exact of_eq rfl rfl rfl

theorem run (ops : List HistoryOp) : Grows (2 * ops.length) h (h.run ops) := by
  induction ops generalizing h with
  | nil => exact refl h
  | cons op ops ih =>
    refine ((apply op).trans ih).mono ?_
    rw [List.length_cons]
    omega

end Grows

/-- A run of fewer than `2 ^ 63 - 1` operations leaves room in the counters. -/
theorem fits_run (blank : Url) (name : Option ContextName) {ops : List HistoryOp}
    (hlen : ops.length < 2 ^ 63 - 1) : ((new blank name).run ops).Fits := by
  have hg : Grows (2 * ops.length) (new blank name) ((new blank name).run ops) := Grows.run ops
  have he : ((new blank name).run ops).nextEntry ≤ 1 + 2 * ops.length := hg.entry_ub
  have hd : ((new blank name).run ops).nextDocument ≤ 1 + 2 * ops.length := hg.document_ub
  exact ⟨by rw [u64Max]; omega, by rw [u64Max]; omega⟩

end

/-! ### The main frame's list -/

variable {h : SessionHistory} {id : EntryId} {e : Entry} {f : FrameId}

/-- The main frame's entries in its own order. -/
def mainEntries (h : SessionHistory) : List Entry :=
  ((h.frames.get? FrameId.main).getD []).filterMap h.locate

theorem filterMap_locate (hi : h.Inv) {es : List Entry} (hes : ∀ e ∈ es, e ∈ h.entries) :
    (es.map Entry.id).filterMap h.locate = es := by
  induction es with
  | nil => rfl
  | cons e es ih =>
    obtain ⟨he, hes⟩ := List.forall_mem_cons.1 hes
    rw [List.map_cons, List.filterMap_cons_some (locate_of_mem hi he), ih hes]

theorem exists_entries {ms : List Slot} (hms : ∀ s ∈ ms, s ∈ h.slots) :
    ∃ es : List Entry, (∀ e ∈ es, e ∈ h.entries) ∧ es.map Entry.slot = ms := by
  induction ms with
  | nil => exact ⟨[], by simp, rfl⟩
  | cons s ms ih =>
    obtain ⟨hs, hms⟩ := List.forall_mem_cons.1 hms
    obtain ⟨es, hes, rfl⟩ := ih hms
    obtain ⟨e, he, rfl⟩ := List.mem_map.1 hs
    exact ⟨e :: es, List.forall_mem_cons.2 ⟨he, hes⟩, rfl⟩

/-- What the invariant says about the main frame's entries. -/
structure MainEntries (h : SessionHistory) : Prop where
  ids : h.frames.get? FrameId.main = some (h.mainEntries.map Entry.id)
  mem : ∀ e ∈ h.mainEntries, e ∈ h.entries
  first : (h.mainEntries.map Entry.step).head? = some 0
  sorted : (h.mainEntries.map Entry.step).Pairwise (· < ·)
  position : h.mainEntries.map Entry.localIndex = List.range h.mainEntries.length

theorem Inv.mainEntries (hi : h.Inv) : h.MainEntries := by
  obtain ⟨ms, hms⟩ := hi.slots.main
  obtain ⟨es, hes, rfl⟩ := exists_entries hms.mem
  have hids : h.frames.get? FrameId.main = some (es.map Entry.id) := by
    rw [hms.ids, List.map_map]
    rfl
  have heq : h.mainEntries = es := by
    rw [SessionHistory.mainEntries, hids, Option.getD_some, filterMap_locate hi hes]
  have hfirst := hms.first
  have hsorted := hms.sorted
  have hposition := hms.position
  rw [List.map_map] at hfirst hsorted hposition
  rw [List.length_map] at hposition
  exact ⟨heq ▸ hids, heq ▸ hes, heq ▸ hfirst, heq ▸ hsorted, heq ▸ hposition⟩

theorem MainEntries.getElem? (hm : h.MainEntries) (he : e ∈ h.mainEntries) :
    h.mainEntries[e.localIndex]? = some e := by
  obtain ⟨i, hi⟩ := List.mem_iff_getElem?.1 he
  obtain ⟨hlt, -⟩ := List.getElem?_eq_some_iff.1 hi
  have hpos : (h.mainEntries.map Entry.localIndex)[i]? = (List.range h.mainEntries.length)[i]? := by
    rw [hm.position]
  rw [List.getElem?_map, hi, List.getElem?_range hlt, Option.map_some, Option.some.injEq] at hpos
  rw [hpos, hi]

/-- In a list that increases strictly, the last element that satisfies a bound is the greatest. -/
theorem find?_reverse_le {es : List Entry} (hs : (es.map Entry.step).Pairwise (· < ·)) {c : Nat}
    (hf : es.reverse.find? (·.step ≤ c) = some e) :
    ∀ e' ∈ es, e'.step ≤ c → e'.step ≤ e.step := by
  intro e' he' hle
  obtain ⟨-, as, bs, heq, has⟩ := List.find?_eq_some_iff_append.1 hf
  have hes : es = bs.reverse ++ e :: as.reverse := by
    have := congrArg List.reverse heq
    simpa using this
  subst hes
  rw [List.map_append, List.map_cons, List.pairwise_append] at hs
  rcases List.mem_append.1 he' with hmem | hmem
  · exact Nat.le_of_lt (hs.2.2 _ (List.mem_map_of_mem hmem) _ (by simp))
  · rcases List.mem_cons.1 hmem with rfl | hmem
    · exact Nat.le_refl _
    · have := has e' (List.mem_reverse.1 hmem)
      simp only [Bool.not_eq_true', decide_eq_false_iff_not] at this
      exact absurd hle this

theorem find?_map_id (hi : h.Inv) {es : List Entry} (hes : ∀ e ∈ es, e ∈ h.entries)
    (p : Entry → Bool) :
    (es.map Entry.id).find? (fun id => (h.locate id).any p) = (es.find? p).map Entry.id := by
  induction es with
  | nil => rfl
  | cons e es ih =>
    obtain ⟨he, hes⟩ := List.forall_mem_cons.1 hes
    rw [List.map_cons, List.find?_cons, locate_of_mem hi he, Option.any_some, List.find?_cons, ih hes]
    cases p e <;> rfl

/-- The active entry of the main frame at `step`: the last one at or before it. -/
theorem Inv.activeEntryAt_main (hi : h.Inv) (step : Nat) :
    ∃ e ∈ h.mainEntries, h.activeEntryAt FrameId.main step = some e.id ∧ e.step ≤ step ∧
      ∀ e' ∈ h.mainEntries, e'.step ≤ step → e'.step ≤ e.step := by
  have hm := hi.mainEntries
  cases hf : h.mainEntries.reverse.find? (·.step ≤ step) with
  | none =>
    have hfirst := hm.first
    cases hes : h.mainEntries with
    | nil => rw [hes] at hfirst; simp at hfirst
    | cons e es =>
      rw [hes] at hfirst
      have h0 : e.step = 0 := by simpa using hfirst
      have := List.find?_eq_none.1 hf e (by rw [hes]; simp)
      simp [h0] at this
  | some e =>
    have hmem : e ∈ h.mainEntries := List.mem_reverse.1 (List.mem_of_find?_eq_some hf)
    refine ⟨e, hmem, ?_, by simpa using List.find?_some hf, find?_reverse_le hm.sorted hf⟩
    rw [activeEntryAt, hm.ids, Option.bind_some, ← List.map_reverse,
      find?_map_id hi (fun e he => hm.mem e (List.mem_reverse.1 he)), hf]
    rfl

theorem Inv.activeEntry_main (hi : h.Inv) :
    ∃ e ∈ h.mainEntries, h.activeEntry FrameId.main = some e.id ∧ e.step ≤ h.currentStep ∧
      ∀ e' ∈ h.mainEntries, e'.step ≤ h.currentStep → e'.step ≤ e.step :=
  hi.activeEntryAt_main h.currentStep

/-! ### How changes move the active entry -/

theorem map_slot_locate (id : EntryId) : (h.locate id).map Entry.slot = h.slots.find? (·.id = id) := by
  rw [slots, List.find?_map]
  rfl

theorem activeEntryAt_congr {h' : SessionHistory} (hs : h'.slots = h.slots)
    (hf : h'.frames.get? f = h.frames.get? f) (step : Nat) :
    h'.activeEntryAt f step = h.activeEntryAt f step := by
  have hany : ∀ (h : SessionHistory) id, (h.locate id).any (·.step ≤ step) =
      (h.slots.find? (·.id = id)).any (·.step ≤ step) := by
    intro h id
    rw [← map_slot_locate]
    cases h.locate id <;> rfl
  simp only [activeEntryAt, hf, hany, hs]

theorem activeEntry_modifyEntry {k : Entry → Entry} (hs : ∀ e, (k e).slot = e.slot) :
    (h.modifyEntry id k).activeEntry f = h.activeEntry f :=
  activeEntryAt_congr (slots_modifyEntry hs) rfl _

theorem locate_pushStep (hi : h.Inv) {localIndex : SessionHistory → Nat} {url : Url}
    {name : Option ContextName} {state : Option Text} :
    (h.pushStep f localIndex url name state).2.locate h.nextEntry =
      some (h.pushedEntry localIndex url state) := by
  have hnone : h.truncateForward.entries.find? (·.id = h.nextEntry) = none := by
    refine List.find?_eq_none.2 fun e he => ?_
    simpa using Nat.ne_of_lt (hi.id_lt (List.mem_filter.1 he).1)
  rw [locate, entries_pushStep, List.find?_append, hnone]
  simp [pushedEntry]

/-- A push at or past the end of the frame's list makes the new entry the frame's active one. -/
theorem activeEntry_pushStep_of_le (hi : h.Inv) {localIndex : SessionHistory → Nat} {url : Url}
    {name : Option ContextName} {state : Option Text}
    (hle : h.truncateForward.frameLen f ≤ localIndex h.truncateForward) :
    (h.pushStep f localIndex url name state).2.activeEntry f = some h.nextEntry := by
  have hlist : (h.pushStep f localIndex url name state).2.frames.get? f =
      some (((h.truncateForward.frames.get? f).getD []) ++ [h.nextEntry]) := by
    rw [frames_pushStep, Dict.get?_insert, if_pos rfl, insertAt, if_neg]
    rw [frameLen] at hle
    cases hf : h.truncateForward.frames.get? f with
    | none => exact Nat.not_lt_zero _
    | some ids =>
      rw [hf] at hle
      exact Nat.not_lt.2 hle
  rw [activeEntry, activeEntryAt, hlist, Option.bind_some, List.reverse_append,
    List.reverse_singleton, List.singleton_append, List.find?_cons, locate_pushStep hi,
    Option.any_some, currentStep_pushStep]
  simp [pushedEntry]

theorem activeEntry_pushStep (hi : h.Inv) {url : Url} {name : Option ContextName}
    {state : Option Text} :
    (h.pushStep f (·.frameLen f) url name state).2.activeEntry f = some h.nextEntry :=
  activeEntry_pushStep_of_le hi (Nat.le_refl _)

theorem snapshot_entries :
    h.snapshot.entries = h.mainEntries.map fun e => ⟨e.id, e.url, e.title⟩ := rfl

/-- The history's representation, in terms of entries. -/
structure Consistent (h : SessionHistory) : Prop where
  ids_distinct : (h.entries.map Entry.id).Nodup
  lists_nodup : ∀ {f ids}, h.frames.get? f = some ids → ids.Nodup
  lists_disjoint : ∀ {f g ids ids' i}, h.frames.get? f = some ids → h.frames.get? g = some ids' →
    i ∈ ids → i ∈ ids' → f = g
  lists_cover : ∀ i, i ∈ h.entries.map Entry.id ↔ ∃ f ids, h.frames.get? f = some ids ∧ i ∈ ids
  names_live : ∀ d ∈ h.names.keys, ∃ e ∈ h.entries, e.document = d
  ids_below : ∀ e ∈ h.entries, e.id < h.nextEntry
  documents_below : ∀ e ∈ h.entries, e.document < h.nextDocument
  current_used : ∃ e ∈ h.entries, e.step = h.currentStep
  main : h.MainEntries
  snapshot : ∃ e : Entry, h.activeEntry FrameId.main = some e.id ∧
    h.snapshot.entries[h.snapshot.currentIndex]? = some ⟨e.id, e.url, e.title⟩

theorem Inv.consistent (hi : h.Inv) (hu : h.CurrentUsed) : h.Consistent := by
  have hmap : h.entries.map Entry.id = h.slots.map Slot.id := by
    rw [SessionHistory.slots, List.map_map]
    rfl
  refine ⟨?_, hi.slots.frame_nodup, hi.slots.disjoint, fun i => ⟨fun hmem => ?_, ?_⟩, ?_, ?_, ?_, hu,
    hi.mainEntries, ?_⟩
  · rw [hmap]
    exact hi.slots.nodup
  · obtain ⟨e, he, rfl⟩ := List.mem_map.1 hmem
    exact hi.slots.covered e.slot (slot_mem he)
  · rintro ⟨f, ids, hf, hmem⟩
    obtain ⟨s, hs, rfl⟩ := hi.slots.owned hf hmem
    rw [hmap]
    exact List.mem_map_of_mem hs
  · exact fun d hd => List.mem_map.1 (hi.docs.live d hd)
  · exact fun e he => hi.id_lt he
  · exact fun e he => hi.docs.lt _ (List.mem_map_of_mem he)
  · obtain ⟨e, he, hact, -, -⟩ := hi.activeEntry_main
    refine ⟨e, hact, ?_⟩
    have hidx : h.snapshot.currentIndex = e.localIndex := by
      rw [SessionHistory.snapshot, hact, Option.bind_some,
        locate_of_mem hi (hi.mainEntries.mem e he)]
    rw [hidx, snapshot_entries, List.getElem?_map, hi.mainEntries.getElem? he]
    rfl

theorem CurrentUsed.new (blank : Url) (name : Option ContextName) :
    (new blank name).CurrentUsed :=
  ⟨_, List.mem_singleton_self _, rfl⟩

/-- Every run of the operations keeps the joint session history consistent, until a counter reaches
its maximum; by `fits_run` that takes `2 ^ 63 - 1` operations. -/
theorem consistent_run {blank : Url} {name : Option ContextName} {ops : List HistoryOp}
    (hfit : ((new blank name).run ops).Fits) : ((new blank name).run ops).Consistent :=
  ((Inv.new blank name).run hfit).consistent ((CurrentUsed.new blank name).run (Inv.new _ _) hfit)

/-- A push, a child frame with a navigation of its own, and a step back. -/
def sampleOps : List HistoryOp :=
  [.commit (.push .sample none), .addFrame 1 .sample none, .begin 1 .sample false 1 none false,
    .setCurrentStep (.delta (-1))]

theorem consistent_run_sampleOps :
    ((new .sample none).run sampleOps).entries.length = 4 ∧
      ((new .sample none).run sampleOps).Consistent :=
  ⟨by decide +kernel, consistent_run (fits_run _ _ (by decide))⟩

end SessionHistory

end TinyBrowser
