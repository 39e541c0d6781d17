import TinyBrowser.History.Payload
import TinyBrowser.History.Sound

/-!
# What other frames leave of a frame

A change in another frame, or a traversal, may drop the last entries of a frame's list and does
nothing else to it (`Keeps`). The list stays in the order of the steps (`Rising`).
-/

namespace TinyBrowser
open Lib

namespace SessionHistory
variable {h h' h'' : SessionHistory} {f g : FrameId} {ids : List EntryId} {id : EntryId} {url : Url}
  {name : Option ContextName}

theorem frames_replaceEntry : (h.replaceEntry id url name).frames = h.frames := by
  rw [replaceEntry_eq]
  split
  · rfl
  · rw [frames_redocument]

theorem slots_replaceEntry : (h.replaceEntry id url name).slots = h.slots := by
  rw [replaceEntry_eq]
  split
  · rfl
  · exact slots_redocument _ _ fun _ _ => rfl

/-- The entries of `f`, in its own order, with their steps. -/
structure Rising (h : SessionHistory) (f : FrameId) (ms : List Slot) : Prop where
  ids : h.frames.get? f = some (ms.map Slot.id)
  mem : ∀ s ∈ ms, s ∈ h.slots
  sorted : (ms.map Slot.step).Pairwise (· < ·)

/-- Of `f`'s list an initial segment stays, with the same steps. -/
structure Keeps (f : FrameId) (h h' : SessionHistory) : Prop where
  ids : ∃ n, h'.frames.get? f = (h.frames.get? f).map (·.take n)
  slots : ∀ s ∈ h.slots, s.id ∈ h'.idsOf f → s ∈ h'.slots
  pending : h'.pending.get? f = h.pending.get? f

theorem Rising.keeps {ms : List Slot} (hr : h.Rising f ms) (hk : Keeps f h h') :
    ∃ n, h'.Rising f (ms.take n) := by
  obtain ⟨n, hn⟩ := hk.ids
  rw [hr.ids, Option.map_some, ← List.map_take] at hn
  refine ⟨n, hn, fun s hs => ?_, ?_⟩
  · refine hk.slots s (hr.mem s (List.mem_of_mem_take hs)) (mem_idsOf.2 ⟨_, hn, ?_⟩)
    exact List.mem_map_of_mem hs
  · exact hr.sorted.sublist ((List.take_sublist n ms).map _)

theorem Rising.modifyEntry {ms : List Slot} (hr : h.Rising f ms) {k : Entry → Entry}
    (hs : ∀ e, (k e).slot = e.slot) : (h.modifyEntry id k).Rising f ms := by
  refine ⟨hr.ids, fun s hmem => ?_, hr.sorted⟩
  rw [slots_modifyEntry hs]
  exact hr.mem s hmem

theorem locate_any_step (hi : h.Inv) {s : Slot} (hs : s ∈ h.slots) (c : Nat) :
    (h.locate s.id).any (·.step ≤ c) = decide (s.step ≤ c) := by
  obtain ⟨e, he, rfl⟩ := List.mem_map.1 hs
  have hl : h.locate e.slot.id = some e := locate_of_mem hi he
  rw [hl]
  rfl

theorem Rising.filter_eq {ms : List Slot} (hr : h.Rising f ms) (hi : h.Inv) (c : Nat) :
    ((ms.map Slot.id).filter fun i => (h.locate i).any (·.step ≤ c)) =
      (ms.filter (·.step ≤ c)).map Slot.id := by
  rw [List.filter_map]
  congr 1
  exact List.filter_congr fun s hs => locate_any_step hi (hr.mem s hs) c

namespace Keeps

theorem mem_idsOf (hk : Keeps f h h') (hid : id ∈ h'.idsOf f) : id ∈ h.idsOf f := by
  obtain ⟨n, hn⟩ := hk.ids
  rw [idsOf, hn] at hid
  rw [idsOf]
  cases hg : h.frames.get? f with
  | none =>
    rw [hg] at hid
    exact hid
  | some ids =>
    rw [hg] at hid
    exact List.mem_of_mem_take hid

/-- A change that leaves the frame's list. -/
theorem of_eq (hf : h'.frames.get? f = h.frames.get? f)
    (hs : ∀ s ∈ h.slots, s.id ∈ h.idsOf f → s ∈ h'.slots)
    (hp : h'.pending.get? f = h.pending.get? f) : Keeps f h h' := by
  refine ⟨⟨(h.idsOf f).length, ?_⟩, fun s hmem hid => hs s hmem ?_, hp⟩
  · rw [hf, idsOf]
    cases h.frames.get? f with
    | none => rfl
    | some ids => rw [Option.map_some, Option.getD_some, List.take_length]
  · rwa [idsOf, hf] at hid

theorem refl (f : FrameId) (h : SessionHistory) : Keeps f h h := of_eq rfl (fun _ hs _ => hs) rfl

theorem trans (hk : Keeps f h h') (hk' : Keeps f h' h'') : Keeps f h h'' := by
  refine ⟨?_, fun s hs hid => hk'.slots s (hk.slots s hs (hk'.mem_idsOf hid)) hid,
    hk'.pending.trans hk.pending⟩
  obtain ⟨n, hn⟩ := hk.ids
  obtain ⟨m, hm⟩ := hk'.ids
  refine ⟨min m n, ?_⟩
  rw [hm, hn, Option.map_map]
  exact congrArg (Option.map · _) (funext fun ids => List.take_take ..)

theorem setStep (hk : Keeps f h h') (step : Nat) : Keeps f h { h' with currentStep := step } :=
  hk.trans (of_eq rfl (fun _ hs _ => hs) rfl)

theorem modifyEntry {k : Entry → Entry} (hs : ∀ e, (k e).slot = e.slot) :
    Keeps f h (h.modifyEntry id k) :=
  of_eq rfl (fun s hmem _ => by rwa [slots_modifyEntry hs]) rfl

theorem redocument (k : Nat → Entry → Entry) (e : Entry) (hs : ∀ n e, (k n e).slot = e.slot) :
    Keeps f h (h.redocument id k name e) :=
  of_eq (by rw [frames_redocument]) (fun s hmem _ => by rwa [slots_redocument k name hs])
    (by rw [pending_redocument])

theorem replaceEntry : Keeps f h (h.replaceEntry id url name) := by
  rw [replaceEntry_eq]
  split
  · exact refl f h
  · exact redocument _ _ fun _ _ => rfl

theorem insertEntry (hgf : g ≠ f) {step localIndex : Nat} {state : Option Text} :
    Keeps f h (h.insertEntry g step localIndex url name state).2 := by
  refine of_eq ?_ (fun s hs _ => ?_) (by rw [pending_insertEntry])
  · rw [frames_insertEntry, Dict.get?_insert, if_neg (Ne.symm hgf)]
  · rw [SessionHistory.slots, entries_insertEntry, List.map_append]
    exact List.mem_append_left _ hs

theorem addFrame (hgf : g ≠ f) : Keeps f h (h.addFrame g url name) := by
  unfold SessionHistory.addFrame
  split_ifs
  · exact refl f h
  · exact insertEntry hgf

theorem withFrame (hgf : g ≠ f) : Keeps f h (h.withFrame g url) := by
  unfold SessionHistory.withFrame
  split_ifs
  · exact refl f h
  · exact addFrame hgf

theorem setPending {p : Dict FrameId PendingChange} (hp : p.get? f = h.pending.get? f) :
    Keeps f h { h with pending := p } :=
  of_eq rfl (fun _ hs _ => hs) hp

variable {ms : List Slot}

/-- A push in another frame drops the entries after the current step. -/
theorem pushStep (hr : h.Rising f ms) (hi : h.Inv) (hgf : g ≠ f)
    {localIndex : SessionHistory → Nat} {state : Option Text} :
    Keeps f h (h.pushStep g localIndex url name state).2 := by
  have hget := get?_frames_pushStep hi localIndex url name state hr.ids (Ne.symm hgf)
  rw [hr.filter_eq hi] at hget
  refine ⟨⟨(ms.filter (·.step ≤ h.currentStep)).length, ?_⟩, fun s hs hid => ?_, ?_⟩
  · rw [hget, hr.ids, Option.map_some, ← List.map_take,
      ← List.prefix_iff_eq_take.1 (filter_le_isPrefixOf hr.sorted h.currentStep)]
  · rw [idsOf, hget] at hid
    obtain ⟨t, ht, heq⟩ := List.mem_map.1 hid
    obtain ⟨ht, hle⟩ := List.mem_filter.1 ht
    obtain rfl := hi.slots.eq_of_id (hr.mem t ht) hs heq
    obtain ⟨e, he, rfl⟩ := List.mem_map.1 hs
    rw [SessionHistory.slots, entries_pushStep, List.map_append]
    exact List.mem_append_left _ (List.mem_map_of_mem (List.mem_filter.2 ⟨he, hle⟩))
  · rw [pending_pushStep]

theorem removeFrame (hi : h.Inv) (hgf : g ≠ f) : Keeps f h (h.removeFrame g) := by
  rw [removeFrame_eq]
  split_ifs with hg
  · exact refl f h
  · split
    · exact refl f h
    · rename_i gs hgs
      have hdrop : Keeps f h (h.dropFrame g gs) := by
        refine of_eq ?_ (fun s hs hid => ?_) ?_
        · show (h.frames.erase g).get? f = _
          rw [Dict.get?_erase, if_neg (Ne.symm hgf)]
        · obtain ⟨e, he, rfl⟩ := List.mem_map.1 hs
          refine List.mem_map_of_mem (List.mem_filter.2 ⟨he, decide_eq_true fun hin => ?_⟩)
          exact hgf (eq_of_mem_idsOf hi (SessionHistory.mem_idsOf.2 ⟨gs, hgs, hin⟩) hid)
        · show (h.pending.erase g).get? f = _
          rw [Dict.get?_erase, if_neg (Ne.symm hgf)]
      have hclamp : ∀ h : SessionHistory, Keeps f h h.clampCurrentStep := fun h => by
        unfold clampCurrentStep
        split <;> exact of_eq rfl (fun _ hs _ => hs) rfl
      exact hdrop.trans (hclamp _)

theorem erasePending (hgf : g ≠ f) : Keeps f h { h with pending := h.pending.erase g } :=
  setPending (by rw [Dict.get?_erase, if_neg (Ne.symm hgf)])

theorem begin (hr : h.Rising f ms) (hi : h.Inv) (hgf : g ≠ f) {replace : Bool}
    {localIndex : Nat} {pending : Bool}
    (hfit : (h.begin g url replace localIndex name pending).2.Fits) :
    Keeps f h (h.begin g url replace localIndex name pending).2 := by
  by_cases hg : g = FrameId.main
  · rw [SessionHistory.begin, if_pos hg]
    exact refl f h
  have hw : Keeps f h (h.withFrame g url) := withFrame hgf
  revert hfit
  simp only [SessionHistory.begin, if_neg hg]
  rw [show (if h.frames.contains g then h else h.addFrame g url none) = h.withFrame g url from rfl]
  cases pending with
  | true =>
    simp only [↓reduceIte]
    split
    · exact fun _ => hw
    · exact fun _ => hw.trans (setPending (by rw [Dict.get?_insert, if_neg (Ne.symm hgf)]))
  | false =>
    simp only [Bool.false_eq_true, ↓reduceIte]
    have hp := hw.trans (erasePending hgf)
    split
    · split
      · exact fun _ => hp
      · exact fun _ => hp.trans replaceEntry
    · -- the new entry is `g`'s
      suffices hpush : (SessionHistory.pushStep { h.withFrame g url with
          pending := (h.withFrame g url).pending.erase g } g (fun _ => localIndex) url name
            none).2.Fits → Keeps f h (SessionHistory.pushStep { h.withFrame g url with
          pending := (h.withFrame g url).pending.erase g } g (fun _ => localIndex) url name
            none).2 from hpush
      intro hfit
      have hi' := (hi.withFrame hfit.of_pushStep.of_setPending).setPending
        ((h.withFrame g url).pending.erase g)
      obtain ⟨n, hr'⟩ := hr.keeps hp
      exact hp.trans (pushStep hr' hi' hgf)

theorem commitUrl (hr : h.Rising f ms) (hi : h.Inv) (hgf : g ≠ f) :
    Keeps f h (h.commitUrl g url) := by
  have hp : Keeps f h { h with pending := h.pending.erase g } := erasePending hgf
  rcases commitUrl_cases (h := h) (f := g) url with
    heq | ⟨id, -, heq⟩ | ⟨id, name, -, heq⟩ | ⟨name, -, heq⟩
  · rw [heq]
    exact refl f h
  · rw [heq]
    exact modifyEntry fun _ => rfl
  · rw [heq]
    exact hp.trans replaceEntry
  · rw [heq]
    obtain ⟨n, hr'⟩ := hr.keeps hp
    exact hp.trans (pushStep hr' (hi.setPending _) hgf)

theorem update (hr : h.Rising f ms) (hi : h.Inv) (hgf : g ≠ f) {state : Text}
    {handling : HistoryHandling} : Keeps f h (h.update g url state handling) := by
  rcases update_cases (h := h) (f := g) url state handling with
    heq | ⟨id, -, -, heq⟩ | ⟨e, -, -, -, heq⟩
  · rw [heq]
    exact refl f h
  · rw [heq]
    exact modifyEntry fun _ => rfl
  · rw [heq]
    exact (pushStep hr hi hgf).trans (modifyEntry fun _ => rfl)

/-- What the tab commits is an entry of the main frame's or one that is there. -/
theorem commit (hr : h.Rising f ms) (hi : h.Inv) (hf : f ≠ FrameId.main)
    {c : Commit} : Keeps f h (h.commit c).2 := by
  cases c with
  | push url name =>
    have hpush : Keeps f h (h.pushStep FrameId.main (·.frameLen FrameId.main) url name none).2 :=
      pushStep hr hi (Ne.symm hf)
    exact hpush
  | traverse id url =>
    rw [commit_traverse]
    split
    · exact refl f h
    · rename_i old hl
      have hk : Keeps f h (h.redocument id (fun n e => { e with url, document := n })
          (h.names.get? old.document) old) := redocument _ old fun _ _ => rfl
      exact hk.setStep old.step

/-- One operation of the other frames. -/
theorem apply (hr : h.Rising f ms) (hi : h.Inv) (hf : f ≠ FrameId.main)
    {op : HistoryOp} (hop : op.spares f = true) (hfit : (h.apply op).Fits) :
    Keeps f h (h.apply op) := by
  have hne : ∀ g : FrameId, decide (g ≠ f) = true → g ≠ f := fun g => of_decide_eq_true
  cases op with
  | addFrame g url name => exact addFrame (hne g hop)
  | begin g url replace localIndex name pending => exact begin hr hi (hne g hop) hfit
  | commitUrl g url => exact commitUrl hr hi (hne g hop)
  | discardPending g => exact erasePending (hne g hop)
  | update g url state handling => exact update hr hi (hne g hop)
  | commit c => exact commit hr hi hf
  | syncCurrentName name =>
    simp only [SessionHistory.apply, SessionHistory.syncCurrentName]
    split
    · exact refl f h
    · cases name <;> exact of_eq rfl (fun _ hs _ => hs) rfl
  | setTitle g title =>
    simp only [SessionHistory.apply, SessionHistory.setTitle]
    split
    · exact refl f h
    · exact modifyEntry fun _ => rfl
  | removeFrame g => exact removeFrame hi (hne g hop)
  | clearChildren => cases hop
  | traverseSameDocument entry =>
    simp only [SessionHistory.apply, SessionHistory.traverseSameDocument]
    split
    · exact refl f h
    · exact (refl f h).setStep _
  | setCurrentStep target =>
    simp only [SessionHistory.apply]
    split
    · exact (refl f h).setStep _
    · exact refl f h

end Keeps

end SessionHistory

end TinyBrowser
