import TinyBrowser.History.Kept
import TinyBrowser.Lib.Machine

/-!
# The replay store follows the list

The store is as the browser's list says after every delivery, as long as no step is one that only
one side can make: a push while the tab stands before all entries of the frame, where the browser
drops the first entry and the store keeps it; and the commit of a replacement whose entry was
dropped, which the browser leaves undone.
-/

namespace TinyBrowser
open Lib Machine

section
variable {α β : Type} [DecidableEq α] {l : List α} {g : α → β} {a : α} {b : β} {i : Nat}

theorem map_update_of_notMem (h : a ∉ l) : l.map (Function.update g a b) = l.map g :=
  List.map_congr_left fun _ hx => Function.update_of_ne (ne_of_mem_of_not_mem hx h) ..

theorem map_update_eq_set (hl : l.Nodup) (h : l[i]? = some a) :
    l.map (Function.update g a b) = (l.map g).set i b := by
  refine List.ext_getElem? fun j => ?_
  rw [List.getElem?_map, List.getElem?_set, List.getElem?_map, List.length_map]
  by_cases hij : i = j
  · subst hij
    have hlt : i < l.length := (List.getElem?_eq_some_iff.1 h).1
    rw [h, if_pos rfl, if_pos hlt, Option.map_some, Function.update_self]
  · rw [if_neg hij]
    cases hj : l[j]? with
    | none => rfl
    | some x =>
      have hne : x ≠ a := by
        rintro rfl
        obtain ⟨hi, hx⟩ := List.getElem?_eq_some_iff.1 h
        obtain ⟨hj, hx'⟩ := List.getElem?_eq_some_iff.1 hj
        exact hij ((hl.getElem_inj_iff).1 (hx.trans hx'.symm))
      rw [Option.map_some, Option.map_some, Function.update_of_ne hne]

end

namespace SessionHistory
variable {h : SessionHistory} {f : FrameId} {ms : List Slot} {url : Url}
  {name : Option ContextName}

/-- The position of the frame's active entry in its list. -/
def position (h : SessionHistory) (f : FrameId) : Nat :=
  ((h.activeEntry f).bind (h.framePosition f)).getD 0

/-- The frame's active entry, if it has one, stands at or before the current step. -/
def Reached (h : SessionHistory) (f : FrameId) : Prop :=
  ∀ id ∈ h.activeEntry f, (h.locate id).any (·.step ≤ h.currentStep) = true

instance : Decidable (h.Reached f) :=
  inferInstanceAs (Decidable (∀ id ∈ h.activeEntry f, _))

theorem Rising.idsOf_eq (hr : h.Rising f ms) : h.idsOf f = ms.map Slot.id := by
  rw [idsOf, hr.ids, Option.getD_some]

theorem Rising.nodup (hr : h.Rising f ms) (hi : h.Inv) : (ms.map Slot.id).Nodup :=
  hi.slots.frame_nodup hr.ids

theorem framePosition_eq (hi : h.Inv) {ids before after : List EntryId} {id : EntryId}
    (hids : h.frames.get? f = some ids) (heq : ids = before ++ id :: after) :
    h.framePosition f id = some before.length := by
  have hnodup := hi.slots.frame_nodup hids
  rw [framePosition, hids, Option.bind_some, List.findIdx?_eq_some_iff_getElem]
  subst heq
  refine ⟨by simp, by simp, fun j hj => ?_⟩
  rw [List.getElem_append_left hj, decide_eq_true_eq]
  exact fun he => (List.nodup_append.1 hnodup).2.2 _ (List.getElem_mem hj) id
    List.mem_cons_self he

/-- What a push keeps of the list: the entries up to the active one. -/
theorem Rising.kept_eq (hr : h.Rising f ms) (hi : h.Inv) (hreach : h.Reached f) :
    (ms.filter (·.step ≤ h.currentStep)) = ms.take (h.position f + 1) := by
  obtain ⟨rest, hrest⟩ := filter_le_isPrefixOf hr.sorted h.currentStep
  have hmem : ∀ s ∈ ms, (h.locate s.id).any (·.step ≤ h.currentStep) =
      decide (s.step ≤ h.currentStep) := fun s hs => locate_any_step hi (hr.mem s hs) _
  have hlater : (rest.map Slot.id).reverse.find?
      (fun id => (h.locate id).any (·.step ≤ h.currentStep)) = none := by
    refine List.find?_eq_none.2 fun id hid => ?_
    obtain ⟨s, hs, rfl⟩ := List.mem_map.1 (List.mem_reverse.1 hid)
    have hin : s ∈ ms := hrest ▸ List.mem_append_right _ hs
    rw [hmem s hin]
    intro hle
    have hsorted := hr.sorted
    rw [← hrest, List.map_append] at hsorted
    have hlt := (List.pairwise_append.1 hsorted).2.2 _
      (List.mem_map_of_mem (List.mem_filter.2 ⟨hin, hle⟩)) _ (List.mem_map_of_mem hs)
    exact Nat.lt_irrefl _ hlt
  have hactive : h.activeEntry f = ((((ms.filter (·.step ≤ h.currentStep)).map Slot.id).reverse.find?
      fun id => (h.locate id).any (·.step ≤ h.currentStep)).or (ms.map Slot.id).head?) := by
    rw [activeEntry, activeEntryAt, hr.ids, Option.bind_some]
    congr 1
    conv_lhs => rw [← hrest]
    rw [List.map_append, List.reverse_append, List.find?_append, hlater, Option.none_or]
  rcases List.eq_nil_or_concat (ms.filter (·.step ≤ h.currentStep)) with hnil | ⟨k, s, hconcat⟩
  · -- nothing stands at or before the current step, so there is no entry at all
    cases ms with
    | nil => rw [List.take_nil, hnil]
    | cons s ms =>
      rw [hnil] at hactive
      have hstep := hreach s.id (by rw [hactive]; rfl)
      rw [hmem s List.mem_cons_self] at hstep
      have hin : s ∈ (s :: ms).filter (·.step ≤ h.currentStep) :=
        List.mem_filter.2 ⟨List.mem_cons_self, hstep⟩
      rw [hnil] at hin
      cases hin
  · rw [List.concat_eq_append] at hconcat
    have hs : s ∈ ms.filter (·.step ≤ h.currentStep) := by simp [hconcat]
    obtain ⟨hin, hle⟩ := List.mem_filter.1 hs
    rw [hconcat, List.map_append, List.reverse_append] at hactive
    simp only [List.map_cons, List.map_nil, List.reverse_singleton, List.singleton_append,
      List.find?_cons, hmem s hin, hle, Option.some_or] at hactive
    have hids : ms.map Slot.id = k.map Slot.id ++ s.id :: rest.map Slot.id := by
      rw [← hrest, hconcat, List.append_assoc, List.map_append]
      rfl
    have hposition : h.position f = k.length := by
      rw [position, hactive, Option.bind_some, framePosition_eq hi hr.ids hids, Option.getD_some,
        List.length_map]
    have htake : ((k ++ [s]) ++ rest).take (k.length + 1) = k ++ [s] :=
      List.take_left' (by rw [List.length_append, List.length_singleton])
    rw [hconcat, hposition, ← htake, ← hconcat, hrest]

theorem Rising.pushStep (hr : h.Rising f ms) (hi : h.Inv) (hlt : h.nextEntry < u64Max)
    {localIndex : SessionHistory → Nat} {state : Option Text}
    (hlast : (ms.filter (·.step ≤ h.currentStep)).length ≤ localIndex h.truncateForward) :
    (h.pushStep f localIndex url name state).2.Rising f
      (ms.filter (·.step ≤ h.currentStep) ++ [(h.pushedEntry localIndex url state).slot]) := by
  have hget := get?_frames_truncateForward hi hr.ids
  rw [hr.filter_eq hi] at hget
  refine ⟨?_, fun s hs => ?_, ?_⟩
  · rw [frames_pushStep, Dict.get?_insert, if_pos rfl, hget, Option.getD_some, insertAt,
      if_neg (by rw [List.length_map]; omega), List.map_append]
    rfl
  · rw [slots, entries_pushStep, List.map_append]
    rcases List.mem_append.1 hs with hs | hs
    · obtain ⟨hin, hle⟩ := List.mem_filter.1 hs
      obtain ⟨e, he, rfl⟩ := List.mem_map.1 (hr.mem s hin)
      exact List.mem_append_left _ (List.mem_map_of_mem (List.mem_filter.2 ⟨he, hle⟩))
    · rw [List.mem_singleton.1 hs]
      exact List.mem_append_right _ (List.mem_singleton_self _)
  · rw [List.map_append, List.pairwise_append]
    refine ⟨hr.sorted.sublist (List.filter_sublist.map _), List.pairwise_singleton _ _,
      fun a ha b hb => ?_⟩
    obtain ⟨s, hs, rfl⟩ := List.mem_map.1 ha
    have hle : s.step ≤ h.currentStep := by simpa using (List.mem_filter.1 hs).2
    have hcurrent := hi.slots.current_lt
    have hb' : b = saturatingSucc h.currentStep := by simpa [pushedEntry, Entry.slot] using hb
    have hsucc : saturatingSucc h.currentStep = h.currentStep + 1 := if_pos (by omega)
    omega

end SessionHistory

namespace SessionHistory
variable {h h' : SessionHistory} {f : FrameId} {ids : List EntryId}

theorem position_nil (hids : h.frames.get? f = some []) : h.position f = 0 := by
  rw [position, activeEntry, activeEntryAt, hids]
  rfl

theorem position_lt (hids : h.frames.get? f = some ids) (hne : ids ≠ []) :
    h.position f < ids.length := by
  obtain ⟨id, hid, hactive⟩ := exists_activeEntryAt hids hne h.currentStep
  rw [position, activeEntry, hactive, Option.bind_some, framePosition, hids, Option.bind_some]
  cases hfind : ids.findIdx? (· = id) with
  | none =>
    have hnone := List.findIdx?_eq_none_iff.1 hfind id hid
    simp at hnone
  | some i => exact (List.findIdx?_eq_some_iff_getElem.1 hfind).1

theorem getElem?_position (hi : h.Inv) {id : EntryId} (hactive : h.activeEntry f = some id) :
    (h.idsOf f)[h.position f]? = some id := by
  obtain ⟨ids, hids, hid⟩ := mem_idsOf.1 (mem_idsOf_of_activeEntryAt hactive)
  obtain ⟨before, after, heq⟩ := List.append_of_mem hid
  rw [position, hactive, Option.bind_some, framePosition_eq hi hids heq, Option.getD_some, idsOf,
    hids, Option.getD_some, heq, List.getElem?_append_right (Nat.le_refl _), Nat.sub_self]
  rfl

/-! ### A navigation of the frame itself -/

section
variable {url : Url} {name : Option ContextName}

theorem replaceTarget_position (hi : h.Inv) {id : EntryId} (hactive : h.activeEntry f = some id) :
    h.replaceTarget f (h.position f) id = some id := by
  have hget := getElem?_position hi hactive
  rw [replaceTarget, frameIdAt, frameLen]
  obtain ⟨ids, hids, -⟩ := mem_idsOf.1 (mem_idsOf_of_activeEntryAt hactive)
  rw [idsOf, hids, Option.getD_some] at hget
  rw [hids, Option.bind_some, hget, ite_self]

theorem begin_stage_push (hf : f ≠ FrameId.main) (hids : h.frames.get? f = some ids)
    (localIndex : Nat) : (h.begin f url false localIndex name true).2 =
      { h with pending := h.pending.insert f (.push name) } := by
  have hcontains : h.frames.contains f = true :=
    (Dict.contains_iff _ _).2 ((Dict.mem_keys_iff _ _).2 ⟨_, hids⟩)
  simp [SessionHistory.begin, hf, hcontains]

theorem begin_stage_replace (hi : h.Inv) (hf : f ≠ FrameId.main)
    (hids : h.frames.get? f = some ids) :
    (h.begin f url true (h.position f) name true).2 = match h.activeEntry f with
      | some id => { h with pending := h.pending.insert f (.replace id name) }
      | none => h := by
  have hcontains : h.frames.contains f = true :=
    (Dict.contains_iff _ _).2 ((Dict.mem_keys_iff _ _).2 ⟨_, hids⟩)
  simp only [SessionHistory.begin, hf, hcontains, if_true, if_false]
  cases hactive : h.activeEntry f with
  | none => rfl
  | some id =>
    rw [Option.bind_some, replaceTarget_position hi hactive]
    rfl

theorem begin_replace (hi : h.Inv) (hf : f ≠ FrameId.main) {id : EntryId}
    (hactive : h.activeEntry f = some id) :
    h.begin f url true (h.position f) name false =
      (some id, SessionHistory.replaceEntry { h with pending := h.pending.erase f } id url name) := by
  obtain ⟨ids, hids, -⟩ := mem_idsOf.1 (mem_idsOf_of_activeEntryAt hactive)
  have hcontains : h.frames.contains f = true :=
    (Dict.contains_iff _ _).2 ((Dict.mem_keys_iff _ _).2 ⟨_, hids⟩)
  have htarget : SessionHistory.replaceTarget { h with pending := h.pending.erase f } f
      (h.position f) id = some id := replaceTarget_position hi hactive
  simp only [SessionHistory.begin, hf, hcontains, if_true, if_false, Bool.false_eq_true, hactive,
    htarget]

theorem begin_push (hf : f ≠ FrameId.main) (hids : h.frames.get? f = some ids)
    {replace : Bool} (hreplace : replace = true → h.activeEntry f = none) (localIndex : Nat) :
    h.begin f url replace localIndex name false = (some h.nextEntry,
      (SessionHistory.pushStep { h with pending := h.pending.erase f } f (fun _ => localIndex) url
        name none).2) := by
  have hcontains : h.frames.contains f = true :=
    (Dict.contains_iff _ _).2 ((Dict.mem_keys_iff _ _).2 ⟨_, hids⟩)
  simp only [SessionHistory.begin, hf, hcontains, if_true, if_false, Bool.false_eq_true]
  cases replace with
  | false => cases h.activeEntry f <;> exact Prod.ext (congrArg some (fst_pushStep ..)) rfl
  | true =>
    rw [hreplace rfl]
    exact Prod.ext (congrArg some (fst_pushStep ..)) rfl

end

end SessionHistory

namespace Mirrored
open SessionHistory
variable {Nav Doc : Type} {f : FrameId} {s : Mirrored Nav Doc} {h h' : SessionHistory}
  {staged : Option (PendingEntry Nav Doc)} {ms : List Slot}

/-- The store's staged navigation and the history's pending change are one: a push, or the
replacement of one entry. A replacement in a frame without entries is staged on one side only. -/
def Paired (h : SessionHistory) (f : FrameId) : Option (PendingEntry Nav Doc) → Prop
  | none => h.pending.get? f = none
  | some ⟨_, none⟩ => ∃ name, h.pending.get? f = some (.push name)
  | some ⟨_, some i⟩ => h.idsOf f = [] ∨ ∃ id name, h.pending.get? f = some (.replace id name) ∧
      id < h.nextEntry ∧ (id ∈ h.idsOf f → (h.idsOf f)[i]? = some id)

/-- A list that loses its end and gains new entries keeps the position of an old one. -/
theorem Paired.of_ids (hp : Paired h f staged) (hpending : h'.pending.get? f = h.pending.get? f)
    (hnext : h.nextEntry ≤ h'.nextEntry) (hnodup : (h.idsOf f).Nodup) {n : Nat}
    {tail : List EntryId} (hids : h'.idsOf f = (h.idsOf f).take n ++ tail)
    (htail : ∀ id ∈ tail, h.nextEntry ≤ id) (hnil : h.idsOf f = [] → tail = []) :
    Paired h' f staged := by
  match staged with
  | none => exact hpending.trans hp
  | some ⟨_, none⟩ =>
    obtain ⟨name, hp⟩ := hp
    exact ⟨name, hpending.trans hp⟩
  | some ⟨_, some i⟩ =>
    rcases hp with hempty | ⟨id, name, hp, hlt, hposition⟩
    · left
      rw [hids, hempty, hnil hempty, List.take_nil, List.append_nil]
    · refine .inr ⟨id, name, hpending.trans hp, Nat.lt_of_lt_of_le hlt hnext, fun hid => ?_⟩
      rw [hids, List.mem_append] at hid
      rcases hid with hid | hid
      · obtain ⟨j, hj, hget⟩ := List.getElem_of_mem hid
        rw [List.getElem_take] at hget
        rw [List.length_take] at hj
        have hi := hposition (List.mem_of_mem_take hid)
        obtain ⟨hilt, higet⟩ := List.getElem?_eq_some_iff.1 hi
        obtain rfl : i = j := (hnodup.getElem_inj_iff).1 (higet.trans hget.symm)
        rw [hids, List.getElem?_append_left (by rw [List.length_take]; omega), List.getElem?_take,
          if_pos (by omega), hi]
      · exact absurd hlt (Nat.not_lt.2 (htail id hid))

/-- What holds before a delivery: the store begins with the payloads of the list. -/
structure Ready (f : FrameId) (s : Mirrored Nav Doc) : Prop where
  inv : s.history.Inv
  rising : ∃ ms, s.history.Rising f ms
  entries : s.store.entries.take (s.history.idsOf f).length =
    (s.history.idsOf f).map s.recorded
  paired : Paired s.history f s.store.pending

structure Follows (f : FrameId) (s : Mirrored Nav Doc) : Prop extends Ready f s where
  length : s.store.entries.length = (s.history.idsOf f).length
  index : s.store.index = s.history.position f

theorem Follows.entries_eq (hs : Follows f s) :
    s.store.entries = (s.history.idsOf f).map s.recorded := by
  rw [← hs.entries, List.take_of_length_le (Nat.le_of_eq hs.length)]

theorem Follows.aligned (hs : Follows f s) : Aligned f s := by
  obtain ⟨ms, hr⟩ := hs.rising
  refine ⟨⟨_, by rw [rendererSnapshotFor, hr.ids, Option.map_some], ?_, hs.index⟩, fun i => ?_⟩
  · rw [hs.length, hr.idsOf_eq]
    dsimp only
    rw [frameLen, hr.ids]
  · rw [hs.entries_eq, List.getElem?_map, hr.idsOf_eq, frameIdAt, hr.ids, Option.bind_some]

theorem Ready.deliver (hs : Ready f s) : Follows f (s.deliver f) := by
  obtain ⟨ms, hr⟩ := hs.rising
  have hids := hr.idsOf_eq
  obtain ⟨snapshot, hsnapshot, hlength, hindex⟩ : ∃ snapshot,
      s.history.rendererSnapshotFor f = some snapshot ∧
        snapshot.localLength = (s.history.idsOf f).length ∧
          snapshot.localIndex = s.history.position f := by
    refine ⟨_, by rw [rendererSnapshotFor, hr.ids, Option.map_some], ?_, rfl⟩
    rw [hids]
    dsimp only
    rw [frameLen, hr.ids]
  have hentries : (s.store.setFrameHistory snapshot).entries =
      (s.history.idsOf f).map s.recorded := by
    rw [← hs.entries, ← hlength]
    show (if _ then _ else _) = _
    split
    · rfl
    · rw [List.take_of_length_le (by omega)]
  have hdeliver : s.deliver f = { s with store := s.store.setFrameHistory snapshot } := by
    rw [Mirrored.deliver, hsnapshot]
  rw [hdeliver]
  refine ⟨⟨hs.inv, ⟨ms, hr⟩, ?_, hs.paired⟩, ?_, ?_⟩
  · dsimp only
    rw [hentries, List.take_of_length_le (by rw [List.length_map])]
  · dsimp only
    rw [hentries, List.length_map]
  · show (if (s.store.setFrameHistory snapshot).entries.isEmpty then 0
      else min snapshot.localIndex ((s.store.setFrameHistory snapshot).entries.length - 1)) = _
    rw [hentries, hindex, List.length_map]
    cases hms : ms.map Slot.id with
    | nil =>
      rw [hids, hms, position_nil (hms ▸ hr.ids)]
      rfl
    | cons id rest =>
      have hlt := position_lt (hms ▸ hr.ids) (List.cons_ne_nil id rest)
      rw [hids, hms]
      simp only [List.map_cons, List.isEmpty_cons, Bool.false_eq_true, if_false]
      simp only [List.length_cons] at hlt ⊢
      omega

/-! ### One change -/

section
variable {id : EntryId} {i : Nat} {entry : FrameHistoryEntry Nav Doc}

theorem Follows.push (hs : Follows f s) (store : FrameHistory Nav Doc)
    (hi : h'.Inv) (hrise : ∃ ms, h'.Rising f ms)
    (hids : h'.idsOf f = (s.history.idsOf f).take (s.history.position f + 1) ++
      [s.history.nextEntry])
    (hentries : store.entries = s.store.entries.take (s.store.index + 1) ++ [entry])
    (hpaired : Paired h' f store.pending) :
    Ready f ⟨store, h', Function.update s.recorded s.history.nextEntry entry⟩ := by
  refine ⟨hi, hrise, ?_, hpaired⟩
  have hfresh : s.history.nextEntry ∉ (s.history.idsOf f).take (s.history.position f + 1) :=
    fun hin => Nat.lt_irrefl _ (lt_of_mem_idsOf hs.inv (List.mem_of_mem_take hin))
  have heq : store.entries =
      (h'.idsOf f).map (Function.update s.recorded s.history.nextEntry entry) := by
    rw [hentries, hids, hs.entries_eq, hs.index, ← List.map_take, List.map_append,
      map_update_of_notMem hfresh]
    rw [List.map_singleton, Function.update_self]
  show store.entries.take _ = _
  rw [heq, List.take_of_length_le (by rw [List.length_map])]

theorem Follows.replace (hs : Follows f s) (store : FrameHistory Nav Doc)
    (hi : h'.Inv) (hframes : h'.frames = s.history.frames)
    (hslots : h'.slots = s.history.slots) (hid : (s.history.idsOf f)[i]? = some id)
    (hentries : store.entries = s.store.entries.set i entry)
    (hpaired : Paired h' f store.pending) :
    Ready f ⟨store, h', Function.update s.recorded id entry⟩ := by
  obtain ⟨ms, hr⟩ := hs.rising
  have hids : h'.idsOf f = s.history.idsOf f := by rw [idsOf, hframes, idsOf]
  refine ⟨hi, ⟨ms, hframes ▸ hr.ids, fun m hm => hslots ▸ hr.mem m hm, hr.sorted⟩, ?_, hpaired⟩
  have hnodup : (s.history.idsOf f).Nodup := hr.idsOf_eq ▸ hr.nodup hs.inv
  show store.entries.take (h'.idsOf f).length = _
  rw [hentries, hs.entries_eq, hids, map_update_eq_set hnodup hid,
    List.take_of_length_le (by rw [List.length_set, List.length_map])]

theorem Follows.keep (hs : Follows f s) (store : FrameHistory Nav Doc)
    (hi : h'.Inv) {p : Dict FrameId PendingChange}
    (hk : Keeps f { s.history with pending := p } h')
    (hentries : store.entries.take (h'.idsOf f).length =
      s.store.entries.take (h'.idsOf f).length)
    (hpaired : Paired h' f store.pending) : Ready f ⟨store, h', s.recorded⟩ := by
  obtain ⟨ms, hr⟩ := hs.rising
  have hrp : SessionHistory.Rising { s.history with pending := p } f ms := ⟨hr.ids, hr.mem, hr.sorted⟩
  obtain ⟨n, hr'⟩ := hrp.keeps hk
  refine ⟨hi, ⟨_, hr'⟩, ?_, hpaired⟩
  have hids : h'.idsOf f = (s.history.idsOf f).take n := by
    rw [hr'.idsOf_eq, hr.idsOf_eq, List.map_take]
  show store.entries.take _ = (h'.idsOf f).map s.recorded
  rw [hentries, hs.entries_eq, hids, ← List.map_take, List.length_take]
  rw [Nat.min_comm, ← List.take_take, List.take_of_length_le (List.length_take_le' ..)]

theorem Ready.note (hs : Ready f s) (hid : id ∉ s.history.idsOf f) :
    Ready f (s.note (some id) entry) := by
  refine ⟨hs.inv, hs.rising, ?_, hs.paired⟩
  exact hs.entries.trans (map_update_of_notMem hid).symm

/-- The frame's list after a push of its own. -/
theorem Follows.pushStep (hs : Follows f s) (hf : f ≠ FrameId.main)
    (hreach : s.history.Reached f) {p : Dict FrameId PendingChange}
    {localIndex : SessionHistory → Nat} {url : Url} {name : Option ContextName}
    {state : Option Text}
    (hfit : (SessionHistory.pushStep { s.history with pending := p } f localIndex url name
      state).2.Fits)
    (hlast : ∀ h' : SessionHistory, h'.frameLen f =
        ((s.history.idsOf f).take (s.history.position f + 1)).length →
      ((s.history.idsOf f).take (s.history.position f + 1)).length ≤ localIndex h') :
    let h' := (SessionHistory.pushStep { s.history with pending := p } f localIndex url name state).2
    h'.Inv ∧ (∃ ms, h'.Rising f ms) ∧ h'.idsOf f =
      (s.history.idsOf f).take (s.history.position f + 1) ++ [s.history.nextEntry] := by
  intro h'
  obtain ⟨ms, hr⟩ := hs.rising
  have hkept := hr.kept_eq hs.inv hreach
  have hrp : SessionHistory.Rising { s.history with pending := p } f ms := ⟨hr.ids, hr.mem, hr.sorted⟩
  have hi := hs.inv.setPending p
  have hlt : s.history.nextEntry < u64Max := lt_of_saturatingSucc_lt
    (nextEntry_pushStep (h := { s.history with pending := p }) localIndex url name state ▸ hfit.entry)
  have hids : (s.history.idsOf f).take (s.history.position f + 1) =
      (ms.filter (·.step ≤ s.history.currentStep)).map Slot.id := by
    rw [hkept, hr.idsOf_eq, List.map_take]
  have hlen : SessionHistory.frameLen (truncateForward { s.history with pending := p }) f =
      ((s.history.idsOf f).take (s.history.position f + 1)).length := by
    rw [frameLen, get?_frames_truncateForward hi hrp.ids, hrp.filter_eq hi, hids]
  have hpush : h'.Rising f _ := hrp.pushStep hi hlt (by simpa [hids] using hlast _ hlen)
  refine ⟨hi.pushStep hfit fun h0 => absurd h0 hf, ⟨_, hpush⟩, ?_⟩
  rw [hpush.idsOf_eq, hids, List.map_append]
  rfl

end

end Mirrored

end TinyBrowser
