import TinyBrowser.History.Live
import TinyBrowser.History.Sound

/-!
# Pending changes and frames

Every operation but `removeFrame` keeps the frames that are there, and a pending change belongs to
one of them (`Framed.run`).
-/

namespace TinyBrowser
open Lib

namespace SessionHistory
variable {h h' h'' : SessionHistory} {id : EntryId} {f : FrameId} {url : Url}
  {name : Option ContextName}

/-- Every frame of `h` is one of `h'`. -/
def FramesStay (h h' : SessionHistory) : Prop :=
  ∀ g ids, h.frames.get? g = some ids → ∃ ids', h'.frames.get? g = some ids'

namespace FramesStay

theorem of_eq (hf : h'.frames = h.frames) : FramesStay h h' := fun _ ids hg => ⟨ids, hf ▸ hg⟩

theorem trans (hs : FramesStay h h') (hs' : FramesStay h' h'') : FramesStay h h'' := fun g ids hg =>
  let ⟨ids', hg'⟩ := hs g ids hg
  hs' g ids' hg'

theorem insert {frames : Dict FrameId (List EntryId)} (hs : FramesStay h { h with frames })
    {ids : List EntryId} (hf : h'.frames = frames.insert f ids) : FramesStay h h' := by
  intro g ids' hg
  obtain ⟨ids'', hg'⟩ := hs g ids' hg
  rw [hf, Dict.get?_insert]
  split_ifs
  · exact ⟨ids, rfl⟩
  · exact ⟨ids'', hg'⟩

theorem addFrame : FramesStay h (h.addFrame f url name) := by
  unfold SessionHistory.addFrame
  split_ifs
  · exact of_eq rfl
  · exact insert (of_eq rfl) (frames_insertEntry ..)

theorem withFrame : FramesStay h (h.withFrame f url) := by
  unfold SessionHistory.withFrame
  split_ifs
  · exact of_eq rfl
  · exact addFrame

theorem replaceEntry : FramesStay h (h.replaceEntry id url name) := by
  rw [replaceEntry_eq]
  split
  · exact of_eq rfl
  · exact of_eq (frames_redocument ..)

theorem pushStep {localIndex : SessionHistory → Nat} {state : Option Text} :
    FramesStay h (h.pushStep f localIndex url name state).2 := by
  refine insert (fun g ids hg => ?_) (frames_pushStep ..)
  exact ⟨_, (Dict.get?_mapVal ..).trans (congrArg _ hg)⟩

theorem update {state : Text} {handling : HistoryHandling} :
    FramesStay h (h.update f url state handling) := by
  rcases update_cases (h := h) (f := f) url state handling with
    heq | ⟨id, -, -, heq⟩ | ⟨e, -, -, -, heq⟩
  · exact of_eq (by rw [heq])
  · exact of_eq (by rw [heq]; rfl)
  · rw [heq]
    have hpush : FramesStay h (h.pushStep f (·.frameLen f) url none (some state)).2 := pushStep
    exact hpush.trans (of_eq rfl)

theorem commit {c : Commit} : FramesStay h (h.commit c).2 := by
  cases c with
  | push url name =>
    have hpush : FramesStay h (h.pushStep FrameId.main (·.frameLen FrameId.main) url name none).2 :=
      pushStep
    exact hpush
  | traverse id url =>
    rw [commit_traverse]
    split
    · exact of_eq rfl
    · rename_i old hl
      refine (of_eq ?_ : FramesStay h (h.redocument id (fun n e => { e with url, document := n })
        (h.names.get? old.document) old)).trans (of_eq rfl)
      exact frames_redocument ..

end FramesStay

/-- A pending change belongs to a frame that is there. -/
def Framed (h : SessionHistory) : Prop :=
  ∀ g c, h.pending.get? g = some c → ∃ ids, h.frames.get? g = some ids

namespace Framed

theorem stay (hf : h.Framed) (hs : FramesStay h h') (hp : PendingSub h h') : h'.Framed := by
  intro g c hc
  obtain ⟨ids, hids⟩ := hf g c (hp g c hc)
  exact hs g ids hids

theorem begin (hf : h.Framed) {replace pending : Bool} {localIndex : Nat} :
    (h.begin f url replace localIndex name pending).2.Framed := by
  rcases begin_cases (h := h) (f := f) url replace localIndex name pending with
    heq | ⟨hmain, p, hp, heq⟩
  · rwa [heq]
  · have hw : Framed { h.withFrame f url with pending := p } := by
      intro g c hc
      rcases hp g c hc with hc | ⟨rfl, -⟩
      · exact hf.stay FramesStay.withFrame (PendingSub.of_eq pending_withFrame) g c hc
      · exact contains_withFrame hmain url
    rcases heq with heq | ⟨target, -, heq⟩ | ⟨-, heq⟩
    · rwa [heq]
    · rw [heq]
      exact hw.stay FramesStay.replaceEntry (PendingSub.of_eq pending_replaceEntry)
    · rw [heq]
      exact hw.stay FramesStay.pushStep (PendingSub.of_eq (pending_pushStep ..))

theorem erase (hf : h.Framed) (f : FrameId) : Framed { h with pending := h.pending.erase f } := by
  intro g c hc
  have hc : (h.pending.erase f).get? g = some c := hc
  rw [Dict.get?_erase] at hc
  split_ifs at hc
  exact hf g c hc

theorem commitUrl (hf : h.Framed) : (h.commitUrl f url).Framed := by
  rcases commitUrl_cases (h := h) (f := f) url with
    heq | ⟨id, -, heq⟩ | ⟨id, name, -, heq⟩ | ⟨name, -, heq⟩
  · rwa [heq]
  · rw [heq]
    exact hf
  · rw [heq]
    exact (hf.erase f).stay FramesStay.replaceEntry (PendingSub.of_eq pending_replaceEntry)
  · rw [heq]
    exact (hf.erase f).stay FramesStay.pushStep (PendingSub.of_eq (pending_pushStep ..))

theorem removeFrame (hf : h.Framed) (f : FrameId) : (h.removeFrame f).Framed := by
  rcases removeFrame_cases h f with heq | ⟨ids, step, -, -, heq⟩
  · rwa [heq]
  · rw [heq]
    intro g c hc
    have hc : (h.pending.erase f).get? g = some c := hc
    rw [Dict.get?_erase] at hc
    split_ifs at hc with hgf
    obtain ⟨ids', hids'⟩ := hf g c hc
    exact ⟨ids', (Dict.get?_erase ..).trans ((if_neg hgf).trans hids')⟩

theorem clearChildren (hf : h.Framed) : h.clearChildren.Framed := by
  unfold SessionHistory.clearChildren
  generalize h.frames.keys.filter (· ≠ FrameId.main) = fs
  induction fs generalizing h with
  | nil => exact hf
  | cons f fs ih => exact ih (hf.removeFrame f)

theorem apply (hf : h.Framed) (op : HistoryOp) : (h.apply op).Framed := by
  cases op with
  | addFrame f url name => exact hf.stay FramesStay.addFrame (PendingSub.of_eq pending_addFrame)
  | begin f url replace localIndex name pending => exact hf.begin
  | commitUrl f url => exact hf.commitUrl
  | discardPending f => exact hf.erase f
  | update f url state handling =>
    exact hf.stay FramesStay.update (PendingSub.of_eq pending_update)
  | commit c => exact hf.stay FramesStay.commit (PendingSub.of_eq pending_commit)
  | syncCurrentName name =>
    refine hf.stay (FramesStay.of_eq ?_) (PendingSub.of_eq pending_syncCurrentName)
    simp only [SessionHistory.apply, SessionHistory.syncCurrentName]
    split
    · rfl
    · cases name <;> rfl
  | setTitle f title =>
    refine hf.stay (FramesStay.of_eq ?_) (PendingSub.of_eq pending_setTitle)
    simp only [SessionHistory.apply, SessionHistory.setTitle]
    split <;> rfl
  | removeFrame f => exact hf.removeFrame f
  | clearChildren => exact hf.clearChildren
  | traverseSameDocument entry =>
    simp only [SessionHistory.apply, SessionHistory.traverseSameDocument]
    split <;> exact hf
  | setCurrentStep target =>
    simp only [SessionHistory.apply]
    split <;> exact hf

theorem run (hf : h.Framed) (ops : List HistoryOp) : (h.run ops).Framed := by
  induction ops generalizing h with
  | nil => exact hf
  | cons op ops ih => exact ih (hf.apply op)

end Framed

end SessionHistory

end TinyBrowser
