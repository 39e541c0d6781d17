import TinyBrowser.History.Growth

/-!
# Frames and their entries

A push drops every entry after the current step, in all frames. A frame whose entries all stand
there is left with none and navigates again from an empty list; this is the only way for a live
frame to lose its last entry. `AnchoredRun` excludes it: whenever a frame pushes, every other live
frame has an entry at or before the current step. Along such a run every live frame presents an
entry, its mirror has a valid position, and no same-document update is dropped.
-/

namespace TinyBrowser
open Lib

namespace SessionHistory
variable {h : SessionHistory} {f g : FrameId} {ids : List EntryId} {e : Entry}

/-- Every live frame other than `f` has an entry at or before the current step. -/
def Anchored (h : SessionHistory) (f : FrameId) : Prop :=
  ∀ x ∈ h.frames.pairs, x.1 ≠ f → ∃ e ∈ h.entries, e.id ∈ x.2 ∧ e.step ≤ h.currentStep

instance : Decidable (h.Anchored f) := List.decidableBAll _ _

theorem Anchored.exists_entry (ha : h.Anchored f) (hg : h.frames.get? g = some ids) (hgf : g ≠ f) :
    ∃ e ∈ h.entries, e.id ∈ ids ∧ e.step ≤ h.currentStep :=
  ha (g, ids) ((Dict.get?_eq_some_iff _ _ _).1 hg) hgf

def NonEmpty (h : SessionHistory) : Prop := ∀ g ids, h.frames.get? g = some ids → ids ≠ []

theorem get?_frames_truncateForward (hi : h.Inv) (hg : h.frames.get? g = some ids) :
    h.truncateForward.frames.get? g =
      some (ids.filter fun i => (h.locate i).any (·.step ≤ h.currentStep)) := by
  show (h.frames.mapVal _).get? g = _
  rw [Dict.get?_mapVal, hg, Option.map_some]
  congr 1
  refine List.filter_congr fun i hmem => ?_
  obtain ⟨s, hs, rfl⟩ := hi.slots.owned hg hmem
  obtain ⟨e, he, rfl⟩ := List.mem_map.1 hs
  have hl : h.locate e.slot.id = some e := locate_of_mem hi he
  rw [hl, Option.any_some, decide_eq_decide]
  constructor
  · intro hlive
    obtain ⟨e', he', hid⟩ := List.mem_map.1 hlive
    obtain ⟨he', hle⟩ := List.mem_filter.1 he'
    have hl' := locate_of_mem hi he'
    rw [hid] at hl'
    rw [Option.some.inj (hl'.symm.trans hl)] at hle
    exact of_decide_eq_true hle
  · exact fun hle => List.mem_map_of_mem (List.mem_filter.2 ⟨he, decide_eq_true hle⟩)

theorem get?_frames_pushStep (hi : h.Inv) (localIndex : SessionHistory → Nat) (url : Url)
    (name : Option ContextName) (state : Option Text) (hg : h.frames.get? g = some ids)
    (hgf : g ≠ f) : (h.pushStep f localIndex url name state).2.frames.get? g =
      some (ids.filter fun i => (h.locate i).any (·.step ≤ h.currentStep)) := by
  rw [frames_pushStep, Dict.get?_insert, if_neg hgf]
  exact get?_frames_truncateForward hi hg

namespace NonEmpty

variable {name : Option ContextName}

theorem insert (hn : h.NonEmpty) {step localIndex : Nat} {url : Url}
    {state : Option Text} : (h.insertEntry f step localIndex url name state).2.NonEmpty := by
  intro g ids hg
  rw [frames_insertEntry, Dict.get?_insert] at hg
  split_ifs at hg
  · obtain rfl := Option.some.inj hg
    exact List.ne_nil_of_mem (mem_insertAt.2 (.inl rfl))
  · exact hn g ids hg

theorem addFrame (hn : h.NonEmpty) {url : Url} :
    (h.addFrame f url name).NonEmpty := by
  unfold SessionHistory.addFrame
  split_ifs
  · exact hn
  · exact hn.insert

theorem withFrame (hn : h.NonEmpty) {url : Url} : (h.withFrame f url).NonEmpty := by
  unfold SessionHistory.withFrame
  split_ifs
  · exact hn
  · exact hn.addFrame

theorem replaceEntry (hn : h.NonEmpty) {id : EntryId} {url : Url} :
    (h.replaceEntry id url name).NonEmpty := by
  intro g ids hg
  rw [replaceEntry_eq] at hg
  split at hg
  · exact hn g ids hg
  · rw [frames_redocument] at hg
    exact hn g ids hg

/-- A push in `f` leaves an entry to every frame that has one at or before the current step. -/
theorem pushStep (hi : h.Inv) (ha : h.Anchored f) {localIndex : SessionHistory → Nat} {url : Url}
    {state : Option Text} :
    (h.pushStep f localIndex url name state).2.NonEmpty := by
  intro g ids hg
  by_cases hgf : g = f
  · rw [frames_pushStep, Dict.get?_insert, if_pos hgf] at hg
    obtain rfl := Option.some.inj hg
    exact List.ne_nil_of_mem (mem_insertAt.2 (.inl rfl))
  · cases hold : h.frames.get? g with
    | none =>
      rw [frames_pushStep, Dict.get?_insert, if_neg hgf] at hg
      change (h.frames.mapVal _).get? g = _ at hg
      rw [Dict.get?_mapVal, hold] at hg
      simp at hg
    | some old =>
      rw [get?_frames_pushStep hi localIndex url name state hold hgf] at hg
      obtain rfl := Option.some.inj hg
      obtain ⟨e, he, hid, hle⟩ := ha.exists_entry hold hgf
      refine List.ne_nil_of_mem (List.mem_filter.2 ⟨hid, ?_⟩)
      rw [locate_of_mem hi he, Option.any_some]
      exact decide_eq_true hle

theorem removeFrame (hn : h.NonEmpty) (f : FrameId) : (h.removeFrame f).NonEmpty := by
  intro g ids hg
  rw [removeFrame_eq] at hg
  split_ifs at hg
  · exact hn g ids hg
  · split at hg
    · exact hn g ids hg
    · have hframes : ∀ h' : SessionHistory, h'.clampCurrentStep.frames = h'.frames := by
        intro h'
        unfold clampCurrentStep
        split <;> rfl
      rw [hframes] at hg
      change (h.frames.erase f).get? g = _ at hg
      rw [Dict.get?_erase] at hg
      split_ifs at hg
      exact hn g ids hg

theorem clearChildren (hn : h.NonEmpty) : h.clearChildren.NonEmpty := by
  unfold SessionHistory.clearChildren
  generalize h.frames.keys.filter (· ≠ FrameId.main) = fs
  induction fs generalizing h with
  | nil => exact hn
  | cons f fs ih => exact ih (hn.removeFrame f)

end NonEmpty

theorem exists_activeEntryAt (hg : h.frames.get? g = some ids) (hne : ids ≠ []) (step : Nat) :
    ∃ id ∈ ids, h.activeEntryAt g step = some id := by
  rw [activeEntryAt, hg, Option.bind_some]
  cases hf : ids.reverse.find? fun id => (h.locate id).any (·.step ≤ step) with
  | some id => exact ⟨id, List.mem_reverse.1 (List.mem_of_find?_eq_some hf), rfl⟩
  | none =>
    cases ids with
    | nil => exact absurd rfl hne
    | cons i ids => exact ⟨i, by simp, rfl⟩

theorem exists_locate_activeEntry (hi : h.Inv) {id : EntryId}
    (hact : h.activeEntry g = some id) :
    ∃ e, h.locate id = some e := by
  obtain ⟨ids, hids, hid⟩ := mem_idsOf.1 (mem_idsOf_of_activeEntryAt hact)
  obtain ⟨s, hs, rfl⟩ := hi.slots.owned hids hid
  obtain ⟨e, he, rfl⟩ := List.mem_map.1 hs
  exact ⟨e, locate_of_mem hi he⟩

theorem Anchored.withFrame (ha : h.Anchored f) {url : Url} :
    (h.withFrame f url).Anchored f := by
  unfold SessionHistory.withFrame
  split_ifs
  · exact ha
  · unfold SessionHistory.addFrame
    split_ifs
    · exact ha
    · rintro ⟨g, ids⟩ hg hgf
      rw [← Dict.get?_eq_some_iff, frames_insertEntry, Dict.get?_insert, if_neg hgf] at hg
      obtain ⟨e, he, hid, hle⟩ := ha.exists_entry hg hgf
      refine ⟨e, ?_, hid, ?_⟩
      · rw [entries_insertEntry]
        exact List.mem_append_left _ he
      · rwa [currentStep_insertEntry]

end SessionHistory

/-- The frame in which the operation pushes an entry. -/
def HistoryOp.pushFrame (h : SessionHistory) : HistoryOp → Option FrameId
  | .begin frame _ false _ _ false => some frame
  | .commitUrl frame _ => match h.pending.get? frame with
    | some (.push _) => some frame
    | _ => none
  | .update frame _ _ .push => some frame
  | .commit (.push _ _) => some FrameId.main
  | _ => none

namespace SessionHistory
variable {h : SessionHistory} {f g : FrameId} {ids : List EntryId} {e : Entry}

/-- Whenever a step of the run pushes in a frame, the others are anchored. -/
def AnchoredRun (h : SessionHistory) : List HistoryOp → Prop
  | [] => True
  | op :: ops => (∀ f ∈ op.pushFrame h, h.Anchored f) ∧ (h.apply op).AnchoredRun ops

instance decidableAnchoredRun (h : SessionHistory) : ∀ ops, Decidable (h.AnchoredRun ops)
  | [] => .isTrue trivial
  | op :: ops => @instDecidableAnd _ _ inferInstance (decidableAnchoredRun (h.apply op) ops)

theorem contains_withFrame (hf : f ≠ FrameId.main) (url : Url) :
    ∃ ids, (h.withFrame f url).frames.get? f = some ids := by
  unfold withFrame
  split_ifs with hc
  · exact (Dict.mem_keys_iff _ _).1 ((Dict.contains_iff _ _).1 hc)
  · rw [addFrame, if_neg (by simp [hf, hc]), frames_insertEntry, Dict.get?_insert, if_pos rfl]
    exact ⟨_, rfl⟩

section
variable {url : Url}

theorem NonEmpty.begin (hi : h.Inv) (hn : h.NonEmpty) {replace : Bool} {localIndex : Nat}
    {name : Option ContextName} {pending : Bool}
    (hfit : (h.begin f url replace localIndex name pending).2.Fits)
    (ha : replace = false → pending = false → h.Anchored f) :
    (h.begin f url replace localIndex name pending).2.NonEmpty := by
  rcases begin_cases (h := h) (f := f) url replace localIndex name pending with
    heq | ⟨hf, p, -, heq | ⟨target, -, heq⟩ | ⟨⟨hp, hr⟩, heq⟩⟩
  · rw [heq]
    exact hn
  · rw [heq]
    exact hn.withFrame
  · rw [heq]
    exact NonEmpty.replaceEntry (h := { h.withFrame f url with pending := p }) hn.withFrame
  · rw [heq] at hfit ⊢
    have hi' := (hi.withFrame hfit.of_pushStep.of_setPending).setPending p
    rcases hr with hr | hr
    · exact NonEmpty.pushStep hi' (ha hr hp).withFrame
    · -- the frame has an entry, so a replacement does not fall back to a push
      obtain ⟨ids, hids⟩ := contains_withFrame (h := h) hf url
      obtain ⟨id, -, hact⟩ := exists_activeEntryAt hids (hn.withFrame _ _ hids)
        (h.withFrame f url).currentStep
      rw [activeEntry, hact] at hr
      simp at hr

theorem NonEmpty.commitUrl (hi : h.Inv) (hn : h.NonEmpty)
    (ha : ∀ name, h.pending.get? f = some (.push name) → h.Anchored f) :
    (h.commitUrl f url).NonEmpty := by
  rcases commitUrl_cases (h := h) (f := f) url with
    heq | ⟨id, -, heq⟩ | ⟨id, name, -, heq⟩ | ⟨name, hp, heq⟩
  · rw [heq]
    exact hn
  · rw [heq]
    exact hn
  · rw [heq]
    exact NonEmpty.replaceEntry (h := { h with pending := h.pending.erase f }) hn
  · rw [heq]
    exact NonEmpty.pushStep (hi.setPending (h.pending.erase f)) (ha name hp)

theorem NonEmpty.update (hi : h.Inv) (hn : h.NonEmpty) {state : Text} {handling : HistoryHandling}
    (ha : handling = .push → h.Anchored f) : (h.update f url state handling).NonEmpty := by
  rcases update_cases (h := h) (f := f) url state handling with
    heq | ⟨id, -, -, heq⟩ | ⟨e, -, -, hp, heq⟩
  · rw [heq]
    exact hn
  · rw [heq]
    exact hn
  · rw [heq]
    have hpush : (h.pushStep f (·.frameLen f) url none (some state)).2.NonEmpty :=
      NonEmpty.pushStep hi (ha hp)
    exact hpush

theorem NonEmpty.commit (hi : h.Inv) (hn : h.NonEmpty) {c : Commit}
    (ha : ∀ url name, c = .push url name → h.Anchored FrameId.main) : (h.commit c).2.NonEmpty := by
  cases c with
  | push url name =>
    have hpush : (h.pushStep FrameId.main (·.frameLen FrameId.main) url name none).2.NonEmpty :=
      NonEmpty.pushStep hi (ha url name rfl)
    exact hpush
  | traverse id url =>
    rw [commit_traverse]
    split
    · exact hn
    · intro g ids hg
      rw [show _ = (h.redocument _ _ _ _).frames from rfl, frames_redocument] at hg
      exact hn g ids hg

end

/-- One step keeps an entry in every live frame. -/
theorem NonEmpty.apply (hi : h.Inv) (hn : h.NonEmpty) {op : HistoryOp} (hfit : (h.apply op).Fits)
    (ha : ∀ f ∈ op.pushFrame h, h.Anchored f) : (h.apply op).NonEmpty := by
  cases op with
  | addFrame frame url name => exact hn.addFrame
  | begin frame url replace localIndex name pending =>
    refine NonEmpty.begin hi hn hfit ?_
    rintro rfl rfl
    exact ha _ rfl
  | commitUrl frame url =>
    refine NonEmpty.commitUrl hi hn fun name hp => ha _ ?_
    simp only [HistoryOp.pushFrame, hp, Option.mem_some]
  | discardPending frame => exact hn
  | update frame url state handling =>
    refine NonEmpty.update hi hn ?_
    rintro rfl
    exact ha _ rfl
  | commit commit =>
    refine NonEmpty.commit hi hn ?_
    rintro url name rfl
    exact ha _ rfl
  | syncCurrentName name =>
    simp only [SessionHistory.apply, syncCurrentName]
    split
    · exact hn
    · cases name <;> exact hn
  | setTitle frame title =>
    simp only [SessionHistory.apply, setTitle]
    split <;> exact hn
  | removeFrame frame => exact hn.removeFrame frame
  | clearChildren => exact hn.clearChildren
  | traverseSameDocument entry =>
    simp only [SessionHistory.apply, traverseSameDocument]
    split <;> exact hn
  | setCurrentStep target =>
    simp only [SessionHistory.apply]
    split <;> exact hn

theorem NonEmpty.run (hi : h.Inv) (hn : h.NonEmpty) {ops : List HistoryOp}
    (hfit : (h.run ops).Fits) (ha : h.AnchoredRun ops) : (h.run ops).NonEmpty := by
  induction ops generalizing h with
  | nil => exact hn
  | cons op ops ih =>
    have hfit' : (h.apply op).Fits := Fits.of_run hfit
    exact ih (hi.apply hfit') (hn.apply hi hfit' ha.1) hfit ha.2

/-! ### What an entry in every frame gives -/

/-- A live frame presents an entry, its mirror has a valid position, and an update is recorded on
the entry it presents afterwards. -/
structure FrameLive (h : SessionHistory) (f : FrameId) : Prop where
  active : (h.activeEntry f).isSome
  mirror : ∃ s, h.rendererSnapshotFor f = some s ∧ s.localIndex < s.localLength
  update : ∀ url state handling, ∃ e ∈ (h.update f url state handling).entries,
    (h.update f url state handling).activeEntry f = some e.id ∧ e.url = url ∧ e.state = some state

theorem update_recorded (hi : h.Inv) (hact : h.activeEntry f = some e.id) (he : e ∈ h.entries)
    (url : Url) (state : Text) (handling : HistoryHandling) :
    ∃ e' ∈ (h.update f url state handling).entries,
      (h.update f url state handling).activeEntry f = some e'.id ∧ e'.url = url ∧
        e'.state = some state := by
  have hl := locate_of_mem hi he
  cases handling with
  | replace =>
    have hact' : (h.modifyEntry e.id fun e => { e with url, state := some state }).activeEntry f =
        some e.id := by
      rw [activeEntry_modifyEntry]
      · exact hact
      · exact fun _ => rfl
    rw [update, hact]
    have hget : (h.modifyEntry e.id fun e => { e with url, state := some state }).entries[
        h.entries.findIdx (·.id = e.id)]? = some { e with url, state := some state } := by
      rw [modifyEntry, List.getElem?_modify_eq, getElem?_findIdx_of_locate hl]
      rfl
    exact ⟨_, List.mem_of_getElem? hget, hact', rfl, rfl⟩
  | push =>
    have heq : h.update f url state .push =
        (h.pushStep f (·.frameLen f) url none (some state)).2.modifyEntry h.nextEntry
          fun e' => { e' with document := e.document, title := e.title } := by
      rw [update, hact]
      simp only [hl, fst_pushStep]
    have hact' : (h.update f url state .push).activeEntry f = some h.nextEntry := by
      rw [heq, activeEntry_modifyEntry]
      · exact activeEntry_pushStep hi
      · exact fun _ => rfl
    rw [hact', heq, entries_modifyEntry_pushStep hi]
    exact ⟨_, List.mem_append_right _ (List.mem_singleton_self _), rfl, rfl, rfl⟩

theorem frameLive (hi : h.Inv) (hg : h.frames.get? f = some ids) (hne : ids ≠ []) :
    h.FrameLive f := by
  obtain ⟨id, hid, hact⟩ := exists_activeEntryAt hg hne h.currentStep
  have hact : h.activeEntry f = some id := hact
  refine ⟨by rw [hact]; rfl, ?_, ?_⟩
  · refine ⟨_, by rw [rendererSnapshotFor, hg, Option.map_some], ?_⟩
    simp only [hact, Option.bind_some, framePosition, frameLen, hg]
    cases hpos : ids.findIdx? (· = id) with
    | none =>
      have := List.findIdx?_eq_none_iff.1 hpos id hid
      simp at this
    | some i =>
      obtain ⟨hlt, -⟩ := List.findIdx?_eq_some_iff_getElem.1 hpos
      exact hlt
  · obtain ⟨s, hs, hsi⟩ := hi.slots.owned hg hid
    obtain ⟨e, he, rfl⟩ := List.mem_map.1 hs
    exact update_recorded hi (hact.trans (congrArg some hsi.symm)) he

/-- Along a run in which the other frames are anchored at every push, every live frame presents an
entry, has a valid position in its mirror and drops no update. -/
theorem live_run {blank : Url} {name : Option ContextName} {ops : List HistoryOp}
    (hfit : ((new blank name).run ops).Fits) (ha : (new blank name).AnchoredRun ops) :
    ∀ f ∈ ((new blank name).run ops).frames.keys, ((new blank name).run ops).FrameLive f := by
  intro f hf
  obtain ⟨ids, hids⟩ := (Dict.mem_keys_iff _ _).1 hf
  have hn : (new blank name).NonEmpty := by
    intro g ids hg
    simp only [new, Dict.get?_singleton] at hg
    split_ifs at hg
    obtain rfl := Option.some.inj hg
    simp
  exact frameLive ((Inv.new blank name).run hfit) hids
    (NonEmpty.run (Inv.new blank name) hn hfit ha f ids hids)

theorem live_run_sampleOps :
    ((new .sample none).run sampleOps).frames.keys = [FrameId.main, 1] ∧
      ∀ f ∈ ((new .sample none).run sampleOps).frames.keys,
        ((new .sample none).run sampleOps).FrameLive f :=
  ⟨by decide +kernel, live_run (fits_run _ _ (by decide)) (by decide +kernel)⟩

/-- A child frame is created at step 1, then the tab goes back and pushes elsewhere. -/
def abandonOps : List HistoryOp :=
  [.commit (.push .sample none), .addFrame 1 .sample none, .setCurrentStep (.delta (-1)),
    .commit (.push .sample none)]

/-- The child frame is live and has no entry. -/
theorem not_live_abandonOps :
    ¬ ∀ f ∈ ((new .sample none).run abandonOps).frames.keys,
      ((new .sample none).run abandonOps).FrameLive f := by
  intro hlive
  have hmem : 1 ∈ ((new .sample none).run abandonOps).frames.keys := by decide +kernel
  have hnone : ((new .sample none).run abandonOps).activeEntry 1 = none := by decide +kernel
  have := (hlive 1 hmem).active
  rw [hnone] at this
  simp at this

end SessionHistory

end TinyBrowser
