import TinyBrowser.History.Kept

/-!
# Committed pushes of child frames

A child frame's `begin` puts the new entry where the renderer says it is. `activeEntryAt` reads the
list from its end, so the entry is the frame's active one only if that is at or past the end of the
list the truncation leaves. A history whose pushes all are so keeps every list in the order of the
steps (`Reaches.stepOrdered`).
-/

namespace TinyBrowser
open Lib

namespace SessionHistory
variable {h h' : SessionHistory} {f g : FrameId} {ids : List EntryId} {id : EntryId} {url : Url}
  {name : Option ContextName} {state : Option Text} {i step : Nat} {ms : List Slot}

/-- Every frame's list is in strictly increasing step order. -/
def StepOrdered (h : SessionHistory) : Prop :=
  ∀ g ids, h.frames.get? g = some ids → ∃ ms, h.Rising g ms

/-- `id` is active in `f` and last in its list, and all lists are in order. -/
structure PushedLast (h : SessionHistory) (f : FrameId) (id : EntryId) : Prop where
  active : h.activeEntry f = some id
  last : (h.idsOf f).getLast? = some id
  ordered : h.StepOrdered

/-- A committed child push names a position at or past the end of what the truncation leaves. -/
def PushesLast (h : SessionHistory) : HistoryOp → Prop
  | .begin frame url false localIndex _ false =>
    frame = FrameId.main ∨ (h.withFrame frame url).truncateForward.frameLen frame ≤ localIndex
  | _ => True

theorem frameLen_eq (h : SessionHistory) (f : FrameId) : h.frameLen f = (h.idsOf f).length := by
  rw [frameLen, idsOf]
  cases h.frames.get? f <;> rfl

theorem insertAt_of_le (hle : ids.length ≤ i) : insertAt ids i id = ids ++ [id] :=
  if_neg (Nat.not_lt.2 hle)

theorem getLast?_insertAt_of_lt (hlt : i < ids.length) :
    (insertAt ids i id).getLast? = ids.getLast? := by
  rw [insertAt, if_pos hlt, List.getLast?_eq_getElem?, List.getLast?_eq_getElem?,
    List.length_insertIdx_of_le_length (Nat.le_of_lt hlt), List.getElem?_insertIdx_of_gt]
  · rfl
  · omega

namespace StepOrdered

theorem congr (ho : h.StepOrdered) (hs : h'.slots = h.slots) (hf : h'.frames = h.frames) :
    h'.StepOrdered := by
  intro g ids hg
  rw [hf] at hg
  obtain ⟨ms, hr⟩ := ho g ids hg
  exact ⟨ms, by rw [hf, hr.ids], fun s hmem => hs ▸ hr.mem s hmem, hr.sorted⟩

theorem truncateForward (ho : h.StepOrdered) (hi : h.Inv) : h.truncateForward.StepOrdered := by
  intro g ids hg
  obtain ⟨ids', hids', -⟩ := Option.map_eq_some_iff.1 ((Dict.get?_mapVal ..).symm.trans hg)
  obtain ⟨ms, hr⟩ := ho g ids' hids'
  refine ⟨ms.filter (·.step ≤ h.currentStep), ?_, fun s hs => ?_, ?_⟩
  · rw [get?_frames_truncateForward hi hr.ids, hr.filter_eq hi]
  · obtain ⟨hs, hle⟩ := List.mem_filter.1 hs
    obtain ⟨e, he, rfl⟩ := List.mem_map.1 (hr.mem s hs)
    exact List.mem_map_of_mem (List.mem_filter.2 ⟨he, hle⟩)
  · exact hr.sorted.sublist ((List.filter_sublist ..).map _)

/-- An entry at the end of its frame's list, with a step after those of the list. -/
theorem insertEntry_iff (hi : h.Inv) (hle : h.frameLen f ≤ i)
    (hstep : ∀ s ∈ h.slots, s.id ∈ h.idsOf f → s.step < step) :
    (h.insertEntry f step i url name state).2.StepOrdered ↔ h.StepOrdered := by
  have hslots : (h.insertEntry f step i url name state).2.slots =
      h.slots ++ [⟨h.nextEntry, step, i⟩] := by
    rw [slots, entries_insertEntry, List.map_append]
    rfl
  have hframes : ∀ g, (h.insertEntry f step i url name state).2.frames.get? g =
      if g = f then some (h.idsOf f ++ [h.nextEntry]) else h.frames.get? g := fun g => by
    rw [frames_insertEntry, Dict.get?_insert]
    congr 2
    exact insertAt_of_le (frameLen_eq h f ▸ hle)
  constructor
  · intro ho g ids hg
    -- the list of `g` is the initial segment of the new one
    obtain ⟨more, hmore⟩ : ∃ more, (h.insertEntry f step i url name state).2.frames.get? g =
        some (ids ++ more) := by
      rw [hframes]
      split_ifs with hgf
      · exact ⟨[h.nextEntry], by rw [idsOf, ← hgf, hg, Option.getD_some]⟩
      · exact ⟨[], by rw [hg, List.append_nil]⟩
    obtain ⟨ms, hr⟩ := ho g _ hmore
    have hids : ms.map Slot.id = ids ++ more := Option.some.inj (hr.ids.symm.trans hmore)
    have htake : (ms.take ids.length).map Slot.id = ids := by
      rw [List.map_take, hids, List.take_left']
      rfl
    refine ⟨ms.take ids.length, by rw [htake, hg], fun s hs => ?_, ?_⟩
    · have hmem := hr.mem s (List.mem_of_mem_take hs)
      rw [hslots, List.mem_append, List.mem_singleton] at hmem
      refine hmem.resolve_right fun heq => ?_
      have hid : s.id ∈ ids := htake ▸ List.mem_map_of_mem hs
      have hlt : s.id < h.nextEntry := lt_of_mem_idsOf hi (mem_idsOf.2 ⟨ids, hg, hid⟩)
      rw [heq] at hlt
      exact Nat.lt_irrefl _ hlt
    · exact hr.sorted.sublist ((List.take_sublist ..).map _)
  · intro ho g ids hg
    rw [hframes] at hg
    split_ifs at hg with hgf
    · obtain ⟨ms, hids, hmem, hsorted⟩ : ∃ ms : List Slot, ms.map Slot.id = h.idsOf f ∧
          (∀ s ∈ ms, s ∈ h.slots) ∧ (ms.map Slot.step).Pairwise (· < ·) := by
        cases hf : h.frames.get? f with
        | none => exact ⟨[], by rw [idsOf, hf]; rfl, by simp, .nil⟩
        | some ids' =>
          obtain ⟨ms, hr⟩ := ho f ids' hf
          exact ⟨ms, by rw [idsOf, hr.ids, Option.getD_some], hr.mem, hr.sorted⟩
      refine ⟨ms ++ [⟨h.nextEntry, step, i⟩], ?_, ?_, ?_⟩
      · rw [hframes, if_pos hgf, List.map_append, hids]
        rfl
      · rw [hslots]
        exact List.forall_mem_append.2 ⟨fun s hs => List.mem_append_left _ (hmem s hs),
          fun s hs => List.mem_append_right _ hs⟩
      · rw [List.map_append, List.pairwise_append]
        refine ⟨hsorted, List.pairwise_singleton .., fun a ha b hb => ?_⟩
        obtain ⟨s, hs, rfl⟩ := List.mem_map.1 ha
        obtain rfl := List.mem_singleton.1 hb
        exact hstep s (hmem s hs) (hids ▸ List.mem_map_of_mem hs)
    · obtain ⟨ms, hr⟩ := ho g ids hg
      refine ⟨ms, by rw [hframes, if_neg hgf, hr.ids], fun s hs => ?_, hr.sorted⟩
      rw [hslots]
      exact List.mem_append_left _ (hr.mem s hs)

theorem addFrame (ho : h.StepOrdered) (hi : h.Inv) : (h.addFrame f url name).StepOrdered := by
  unfold SessionHistory.addFrame
  split_ifs with hf
  · exact ho
  · rw [Bool.or_eq_true, not_or] at hf
    have hnone : h.frames.get? f = none :=
      (Dict.get?_eq_none_iff ..).2 fun hkey => hf.2 ((Dict.contains_iff ..).2 hkey)
    have hnil : h.idsOf f = [] := by rw [idsOf, hnone, Option.getD_none]
    refine (insertEntry_iff hi (frameLen_eq h f ▸ hnil ▸ Nat.le_refl _) fun s _ hid => ?_).2 ho
    rw [hnil] at hid
    exact absurd hid List.not_mem_nil

theorem withFrame (ho : h.StepOrdered) (hi : h.Inv) : (h.withFrame f url).StepOrdered := by
  unfold SessionHistory.withFrame
  split_ifs
  · exact ho
  · exact ho.addFrame hi

theorem replaceEntry (ho : h.StepOrdered) : (h.replaceEntry id url name).StepOrdered :=
  ho.congr slots_replaceEntry frames_replaceEntry

theorem pushStep_iff (hi : h.Inv) (hlt : h.nextEntry < u64Max) {localIndex : SessionHistory → Nat}
    (hle : h.truncateForward.frameLen f ≤ localIndex h.truncateForward) :
    (h.pushStep f localIndex url name state).2.StepOrdered ↔ h.truncateForward.StepOrdered := by
  have hinsert : (h.truncateForward.insertEntry f (saturatingSucc h.currentStep)
      (localIndex h.truncateForward) url name state).2.StepOrdered ↔
        h.truncateForward.StepOrdered := by
    refine insertEntry_iff hi.truncateForward hle fun s hs _ => ?_
    obtain ⟨e, he, rfl⟩ := List.mem_map.1 hs
    rw [saturatingSucc_currentStep hi hlt]
    exact Nat.lt_succ_of_le (step_le_of_mem_truncateForward he)
  rw [← hinsert]
  exact ⟨fun ho => ho.congr rfl rfl, fun ho => ho.congr rfl rfl⟩

theorem pushStep (ho : h.StepOrdered) (hi : h.Inv) {localIndex : SessionHistory → Nat}
    (hfit : (h.pushStep f localIndex url name state).2.Fits)
    (hle : h.truncateForward.frameLen f ≤ localIndex h.truncateForward) :
    (h.pushStep f localIndex url name state).2.StepOrdered :=
  (pushStep_iff hi (lt_of_saturatingSucc_lt (nextEntry_pushStep _ _ _ _ ▸ hfit.entry)) hle).2
    (ho.truncateForward hi)

theorem removeFrame (ho : h.StepOrdered) (hi : h.Inv) : (h.removeFrame g).StepOrdered := by
  intro f ids hf
  by_cases hgf : g = f
  · rcases removeFrame_cases h g with heq | ⟨ids', step, -, -, heq⟩
    · rw [heq] at hf ⊢
      exact ho f ids hf
    · rw [heq] at hf
      have hnone : (h.frames.erase g).get? f = some ids := hf
      rw [Dict.get?_erase, if_pos hgf.symm] at hnone
      cases hnone
  · have hk : Keeps f h (h.removeFrame g) := .removeFrame hi hgf
    obtain ⟨n, hn⟩ := hk.ids
    obtain ⟨ids', hids', -⟩ := Option.map_eq_some_iff.1 (hn.symm.trans hf)
    obtain ⟨ms, hr⟩ := ho f ids' hids'
    obtain ⟨m, hr'⟩ := hr.keeps hk
    exact ⟨_, hr'⟩

theorem clearChildren (ho : h.StepOrdered) (hi : h.Inv) : h.clearChildren.StepOrdered := by
  unfold SessionHistory.clearChildren
  generalize h.frames.keys.filter (· ≠ FrameId.main) = fs
  induction fs generalizing h with
  | nil => exact ho
  | cons f fs ih => exact ih (ho.removeFrame hi) (hi.removeFrame f)

theorem frameLen_truncateForward_of_none (hact : h.activeEntry f = none) :
    h.truncateForward.frameLen f = 0 := by
  have hget : h.truncateForward.frames.get? f = (h.frames.get? f).map _ := Dict.get?_mapVal ..
  rw [frameLen, hget]
  cases hf : h.frames.get? f with
  | none => rfl
  | some ids =>
    by_cases hne : ids = []
    · rw [hne]
      rfl
    · obtain ⟨id, -, hid⟩ := exists_activeEntryAt hf hne h.currentStep
      rw [activeEntry, hid] at hact
      cases hact

theorem apply {op : HistoryOp} (ho : h.StepOrdered) (hi : h.Inv) (hop : h.PushesLast op)
    (hfit : (h.apply op).Fits) : (h.apply op).StepOrdered := by
  cases op with
  | addFrame g url name => exact ho.addFrame hi
  | begin g url replace localIndex name pending =>
    simp only [SessionHistory.apply] at hfit ⊢
    rcases begin_cases (h := h) (f := g) url replace localIndex name pending with
      heq | ⟨hmain, p, -, heq⟩
    · rwa [heq]
    · have hw : StepOrdered { h.withFrame g url with pending := p } :=
        (ho.withFrame hi).congr rfl rfl
      rcases heq with heq | ⟨target, -, heq⟩ | ⟨⟨rfl, hreplace⟩, heq⟩
      · rwa [heq]
      · rw [heq]
        exact hw.replaceEntry
      · rw [heq] at hfit ⊢
        refine hw.pushStep ((hi.withFrame hfit.of_pushStep.of_setPending).setPending p) hfit ?_
        cases replace with
        | false => exact hop.resolve_left hmain
        | true =>
          have hnone := hreplace.resolve_left (by decide)
          exact (frameLen_truncateForward_of_none hnone).trans_le (Nat.zero_le _)
  | commitUrl g url =>
    simp only [SessionHistory.apply] at hfit ⊢
    rcases commitUrl_cases (h := h) (f := g) url with
      heq | ⟨id, -, heq⟩ | ⟨id, name, -, heq⟩ | ⟨name, -, heq⟩
    · rwa [heq]
    · rw [heq]
      exact ho.congr (slots_modifyEntry fun _ => rfl) rfl
    · rw [heq]
      exact replaceEntry (h := { h with pending := h.pending.erase g }) (ho.congr rfl rfl)
    · rw [heq] at hfit ⊢
      exact pushStep (h := { h with pending := h.pending.erase g }) (ho.congr rfl rfl)
        (hi.setPending _) hfit (Nat.le_refl _)
  | discardPending g => exact ho.congr rfl rfl
  | update g url state handling =>
    simp only [SessionHistory.apply] at hfit ⊢
    rcases update_cases (h := h) (f := g) url state handling with
      heq | ⟨id, -, -, heq⟩ | ⟨e, -, -, -, heq⟩
    · rwa [heq]
    · rw [heq]
      exact ho.congr (slots_modifyEntry fun _ => rfl) rfl
    · rw [heq] at hfit ⊢
      have hpush : (h.pushStep g (·.frameLen g) url none (some state)).2.StepOrdered :=
        ho.pushStep hi ⟨hfit.entry, hfit.document⟩ (Nat.le_refl _)
      exact hpush.congr (slots_modifyEntry fun _ => rfl) rfl
  | commit c =>
    cases c with
    | push url name =>
      have hpush : (h.pushStep FrameId.main (·.frameLen FrameId.main) url name
          none).2.StepOrdered := ho.pushStep hi ⟨hfit.entry, hfit.document⟩ (Nat.le_refl _)
      exact hpush
    | traverse id url =>
      simp only [SessionHistory.apply, commit_traverse]
      split
      · exact ho
      · rename_i old hl
        have hdocument : (h.redocument id (fun n e => { e with url, document := n })
            (h.names.get? old.document) old).StepOrdered :=
          ho.congr (slots_redocument _ _ fun _ _ => rfl) (frames_redocument ..)
        exact hdocument.congr rfl rfl
  | syncCurrentName name =>
    simp only [SessionHistory.apply, SessionHistory.syncCurrentName]
    split
    · exact ho
    · cases name <;> exact ho.congr rfl rfl
  | setTitle g title =>
    simp only [SessionHistory.apply, SessionHistory.setTitle]
    split
    · exact ho
    · exact ho.congr (slots_modifyEntry fun _ => rfl) rfl
  | removeFrame g => exact ho.removeFrame hi
  | clearChildren => exact ho.clearChildren hi
  | traverseSameDocument id =>
    simp only [SessionHistory.apply, SessionHistory.traverseSameDocument]
    split
    · exact ho
    · exact ho.congr rfl rfl
  | setCurrentStep target =>
    simp only [SessionHistory.apply]
    split
    · exact ho.congr rfl rfl
    · exact ho

theorem new (blank : Url) (name : Option ContextName) : (new blank name).StepOrdered := by
  intro g ids hg
  simp only [SessionHistory.new, Dict.get?_singleton] at hg
  split_ifs at hg with hmain
  refine ⟨[⟨0, 0, 0⟩], ?_, fun s hs => hs, List.pairwise_singleton ..⟩
  rw [hmain]
  rfl

end StepOrdered

theorem Reaches.stepOrdered {blank : Url} {name : Option ContextName} {selected : List Nat}
    (hr : Reaches PushesLast blank name selected h) (hfit : h.Fits) : h.StepOrdered := by
  induction hr with
  | new => exact .new blank name
  | @apply selected h op hr hop ih =>
    exact (ih (Fits.of_apply hfit)).apply (hr.inv (Fits.of_apply hfit)).1 hop hfit
  | select _ _ _ ih => exact ih hfit
  | settle _ _ ih => exact (ih ⟨hfit.entry, hfit.document⟩).congr rfl rfl

/-! ### The push -/

theorem begin_pushStep (hf : f ≠ FrameId.main) (url : Url) (i : Nat) (name : Option ContextName) :
    ∃ p, h.begin f url false i name false =
      (some (h.withFrame f url).nextEntry,
        (pushStep { h.withFrame f url with pending := p } f (fun _ => i) url name none).2) :=
  ⟨(h.withFrame f url).pending.erase f, by
    simp only [SessionHistory.begin, if_neg hf, Bool.false_eq_true, ↓reduceIte, fst_pushStep]
    rfl⟩

theorem idsOf_pushStep : (h.pushStep f (fun _ => i) url name state).2.idsOf f =
    insertAt (h.truncateForward.idsOf f) i h.nextEntry := by
  rw [idsOf, frames_pushStep, Dict.get?_insert, if_pos rfl, Option.getD_some]
  rfl

theorem pushedLast_iff (hi : h.Inv) (hlt : h.nextEntry < u64Max) :
    PushedLast (h.pushStep f (fun _ => i) url name state).2 f h.nextEntry ↔
      h.truncateForward.StepOrdered ∧ h.truncateForward.frameLen f ≤ i := by
  constructor
  · intro hp
    have hle : h.truncateForward.frameLen f ≤ i := by
      rw [frameLen_eq]
      by_contra hnot
      have hlast := hp.last
      rw [idsOf_pushStep, getLast?_insertAt_of_lt (Nat.lt_of_not_le hnot)] at hlast
      exact Nat.lt_irrefl _ (lt_of_mem_idsOf hi.truncateForward (List.mem_of_getLast? hlast))
    exact ⟨(StepOrdered.pushStep_iff hi hlt hle).1 hp.ordered, hle⟩
  · rintro ⟨ho, hle⟩
    refine ⟨activeEntry_pushStep_of_le hi hle, ?_, (StepOrdered.pushStep_iff hi hlt hle).2 ho⟩
    rw [idsOf_pushStep, insertAt_of_le (frameLen_eq _ f ▸ hle)]
    exact List.getLast?_concat ..

/-- A committed push in a child frame, from any history and from one whose pushes went to the end. -/
theorem begin_pushedLast_iff {blank : Url} {blankName : Option ContextName} {selected : List Nat}
    (hr : Reachable blank blankName selected h) (hf : f ≠ FrameId.main) (url : Url) (i : Nat)
    (name : Option ContextName) (hfit : (h.begin f url false i name false).2.Fits) :
    ((∃ id, (h.begin f url false i name false).1 = some id ∧
        PushedLast (h.begin f url false i name false).2 f id) ↔
      (h.withFrame f url).truncateForward.StepOrdered ∧
        (h.withFrame f url).truncateForward.frameLen f ≤ i) ∧
    (Reaches PushesLast blank blankName selected h →
      ((∃ id, (h.begin f url false i name false).1 = some id ∧
          PushedLast (h.begin f url false i name false).2 f id) ↔
        (h.withFrame f url).truncateForward.frameLen f ≤ i)) := by
  obtain ⟨p, heq⟩ := begin_pushStep (h := h) hf url i name
  have hfits : Fits { h.withFrame f url with pending := p } := by
    rw [heq] at hfit
    have hpushed : (pushStep { h.withFrame f url with pending := p } f (fun _ => i) url name none).2.Fits :=
      hfit
    exact hpushed.of_pushStep
  have hi : (h.withFrame f url).Inv := (hr.inv hfit.of_begin).1.withFrame hfits.of_setPending
  have hiff : (∃ id, (h.begin f url false i name false).1 = some id ∧
        PushedLast (h.begin f url false i name false).2 f id) ↔
      (h.withFrame f url).truncateForward.StepOrdered ∧
        (h.withFrame f url).truncateForward.frameLen f ≤ i := by
    rw [heq]
    simp only [Option.some.injEq, exists_eq_left']
    refine (pushedLast_iff (hi.setPending p) hfits.entry).trans (and_congr_left' ?_)
    exact ⟨fun ho => ho.congr rfl rfl, fun ho => ho.congr rfl rfl⟩
  refine ⟨hiff, fun hgood => hiff.trans (and_iff_right ?_)⟩
  exact ((hgood.stepOrdered hfit.of_begin).withFrame (hr.inv hfit.of_begin).1).truncateForward hi

/-- A child frame with two entries, and the tab goes back and forward again. -/
def forwardOps : List HistoryOp :=
  [.addFrame 1 .sample none, .begin 1 .sample false 1 none false, .setCurrentStep (.delta (-1)),
    .setCurrentStep (.delta 1)]

theorem begin_pushedLast_iff_forwardOps :
    (∃ id, (((new .sample none).run forwardOps).begin 1 .sample false 2 none false).1 = some id ∧
      PushedLast (((new .sample none).run forwardOps).begin 1 .sample false 2 none false).2 1 id) ↔
    (((new .sample none).run forwardOps).withFrame 1 .sample).truncateForward.StepOrdered ∧
      (((new .sample none).run forwardOps).withFrame 1 .sample).truncateForward.frameLen 1 ≤ 2 :=
  (begin_pushedLast_iff (reachable_run .sample none forwardOps) (by decide) .sample 2 none
    ⟨by decide +kernel, by decide +kernel⟩).1

/-- The renderer still stands at the first entry: the new one goes between the two. -/
theorem not_begin_pushedLast_forwardOps :
    ¬ ∃ id, (((new .sample none).run forwardOps).begin 1 .sample false 1 none false).1 = some id ∧
      PushedLast (((new .sample none).run forwardOps).begin 1 .sample false 1 none false).2 1 id := by
  rintro ⟨id, hid, hp⟩
  have hnew : (((new .sample none).run forwardOps).begin 1 .sample false 1 none false).1 = some 3 := by
    decide +kernel
  have hactive : (((new .sample none).run forwardOps).begin 1 .sample false 1 none false).2.activeEntry
      1 = some 2 := by decide +kernel
  obtain rfl := Option.some.inj (hid.symm.trans hnew)
  exact absurd (hp.active.symm.trans hactive) (by decide)

end SessionHistory

end TinyBrowser
