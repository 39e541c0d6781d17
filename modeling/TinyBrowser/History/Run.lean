import TinyBrowser.History.Inv

/-!
# Runs of the joint session history

`HistoryOp` lists the mutating operations; `run` applies a list of them. A run keeps `Inv` as long as
the counters do not reach their maximum (`Inv.run`), and its current step is always the step of an
entry (`CurrentUsed.run`).
-/

namespace TinyBrowser
open Lib

/-- The mutating operations of the history. A traversal assigns the step that `targetStep` selects
on the same state. -/
inductive HistoryOp where
  | addFrame (frame : FrameId) (url : Url) (name : Option ContextName)
  | begin (frame : FrameId) (url : Url) (replace : Bool) (localIndex : Nat)
      (name : Option ContextName) (pending : Bool)
  | commitUrl (frame : FrameId) (url : Url)
  | discardPending (frame : FrameId)
  | update (frame : FrameId) (url : Url) (state : Text) (handling : HistoryHandling)
  | commit (commit : Commit)
  | syncCurrentName (name : Option ContextName)
  | setTitle (frame : FrameId) (title : Text)
  | removeFrame (frame : FrameId)
  | clearChildren
  | traverseSameDocument (entry : EntryId)
  | setCurrentStep (target : HistoryStep)

namespace SessionHistory
variable {h : SessionHistory}

def apply (h : SessionHistory) : HistoryOp → SessionHistory
  | .addFrame frame url name => h.addFrame frame url name
  | .begin frame url replace localIndex name pending =>
    (h.begin frame url replace localIndex name pending).2
  | .commitUrl frame url => h.commitUrl frame url
  | .discardPending frame => h.discardPending frame
  | .update frame url state handling => h.update frame url state handling
  | .commit commit => (h.commit commit).2
  | .syncCurrentName name => h.syncCurrentName name
  | .setTitle frame title => h.setTitle frame title
  | .removeFrame frame => h.removeFrame frame
  | .clearChildren => h.clearChildren
  | .traverseSameDocument entry => (h.traverseSameDocument entry).2
  | .setCurrentStep target => match h.targetStep target with
    | some step => h.setCurrentStep step
    | none => h

def run (h : SessionHistory) (ops : List HistoryOp) : SessionHistory := ops.foldl apply h

theorem Fits.of_clamp (hfit : h.clampCurrentStep.Fits) : h.Fits := by
  unfold clampCurrentStep at hfit
  split at hfit <;> exact ⟨hfit.entry, hfit.document⟩

theorem Fits.of_removeFrame {f : FrameId} (hfit : (h.removeFrame f).Fits) : h.Fits := by
  rw [removeFrame_eq] at hfit
  split_ifs at hfit
  · exact hfit
  · split at hfit
    · exact hfit
    · exact ⟨hfit.of_clamp.entry, hfit.of_clamp.document⟩

theorem Fits.of_clearChildren (hfit : h.clearChildren.Fits) : h.Fits := by
  unfold SessionHistory.clearChildren at hfit
  revert hfit
  generalize h.frames.keys.filter (· ≠ FrameId.main) = fs
  induction fs generalizing h with
  | nil => exact id
  | cons f fs ih => exact fun hfit => (ih hfit).of_removeFrame

/-- An operation leaves room in the counters only if there was some. -/
theorem Fits.of_apply {op : HistoryOp} (hfit : (h.apply op).Fits) : h.Fits := by
  cases op with
  | addFrame frame url name => exact hfit.of_addFrame
  | begin frame url replace localIndex name pending => exact hfit.of_begin
  | commitUrl frame url => exact hfit.of_commitUrl
  | discardPending frame => exact ⟨hfit.entry, hfit.document⟩
  | update frame url state handling => exact hfit.of_update
  | commit commit => exact hfit.of_commit
  | syncCurrentName name =>
    simp only [SessionHistory.apply, SessionHistory.syncCurrentName] at hfit
    split at hfit
    · exact hfit
    · cases name <;> exact ⟨hfit.entry, hfit.document⟩
  | setTitle frame title =>
    simp only [SessionHistory.apply, SessionHistory.setTitle] at hfit
    split at hfit <;> exact ⟨hfit.entry, hfit.document⟩
  | removeFrame frame => exact hfit.of_removeFrame
  | clearChildren => exact hfit.of_clearChildren
  | traverseSameDocument entry =>
    simp only [SessionHistory.apply, SessionHistory.traverseSameDocument] at hfit
    split at hfit <;> exact ⟨hfit.entry, hfit.document⟩
  | setCurrentStep target =>
    simp only [SessionHistory.apply] at hfit
    split at hfit <;> exact ⟨hfit.entry, hfit.document⟩

theorem Fits.of_run {ops : List HistoryOp} (hfit : (h.run ops).Fits) : h.Fits := by
  induction ops generalizing h with
  | nil => exact hfit
  | cons op ops ih => exact Fits.of_apply (ih hfit)

theorem Inv.apply (hi : h.Inv) {op : HistoryOp} (hfit : (h.apply op).Fits) : (h.apply op).Inv := by
  cases op with
  | addFrame frame url name => exact hi.addFrame hfit
  | begin frame url replace localIndex name pending => exact hi.begin hfit
  | commitUrl frame url => exact hi.commitUrl hfit
  | discardPending frame => exact hi.setPending _
  | update frame url state handling => exact hi.update hfit
  | commit commit => exact hi.commit hfit
  | syncCurrentName name => exact hi.syncCurrentName name
  | setTitle frame title => exact hi.setTitle title
  | removeFrame frame => exact hi.removeFrame frame
  | clearChildren => exact hi.clearChildren
  | traverseSameDocument entry => exact hi.traverseSameDocument
  | setCurrentStep target =>
    simp only [SessionHistory.apply]
    split
    · rename_i step ht
      obtain ⟨e, he, rfl⟩ := targetStep_used ht
      exact hi.setStep (hi.step_lt he)
    · exact hi

/-- A run that leaves room in the counters keeps the invariant. -/
theorem Inv.run (hi : h.Inv) {ops : List HistoryOp} (hfit : (h.run ops).Fits) : (h.run ops).Inv := by
  induction ops generalizing h with
  | nil => exact hi
  | cons op ops ih => exact ih (hi.apply (Fits.of_run hfit)) hfit

/-! ### The current step -/

/-- The current step is the step of an entry. -/
def CurrentUsed (h : SessionHistory) : Prop := ∃ e ∈ h.entries, e.step = h.currentStep

namespace CurrentUsed
variable {id : EntryId} {e : Entry} {f : FrameId} {url : Url} {name : Option ContextName}

theorem congr (hu : h.CurrentUsed) {h' : SessionHistory} (hs : h'.slots = h.slots)
    (hc : h'.currentStep = h.currentStep) : h'.CurrentUsed := by
  obtain ⟨e, he, hstep⟩ := hu
  have hmem : e.slot ∈ h'.slots := hs ▸ slot_mem he
  obtain ⟨e', he', hslot⟩ := List.mem_map.1 hmem
  have hstep' : e'.step = e.step := congrArg Slot.step hslot
  exact ⟨e', he', by rw [hstep', hstep, hc]⟩

theorem withFrame (hu : h.CurrentUsed) : (h.withFrame f url).CurrentUsed := by
  unfold SessionHistory.withFrame SessionHistory.addFrame
  split_ifs
  · exact hu
  · exact hu
  · obtain ⟨e, he, hstep⟩ := hu
    refine ⟨e, ?_, hstep.trans (currentStep_insertEntry _ _ _ _ _).symm⟩
    rw [entries_insertEntry]
    exact List.mem_append_left _ he

theorem pushStep (h : SessionHistory) (f : FrameId) (localIndex : SessionHistory → Nat) (url : Url)
    (name : Option ContextName) (state : Option Text) :
    (h.pushStep f localIndex url name state).2.CurrentUsed := by
  refine ⟨h.pushedEntry localIndex url state, ?_, rfl⟩
  rw [entries_pushStep]
  exact List.mem_append_right _ (List.mem_singleton_self _)

theorem replaceEntry (hu : h.CurrentUsed) : (h.replaceEntry id url name).CurrentUsed := by
  rw [replaceEntry_eq]
  split
  · exact hu
  · exact hu.congr (slots_redocument _ _ fun _ _ => rfl) (currentStep_redocument _ _)

theorem removeFrame (hi : h.Inv) (hu : h.CurrentUsed) (f : FrameId) :
    (h.removeFrame f).CurrentUsed := by
  rw [removeFrame_eq]
  split_ifs with hf
  · exact hu
  · split
    · exact hu
    · rename_i ids hids
      obtain ⟨e, he, hid, h0⟩ := hi.exists_main hids hf
      have hmem : e ∈ (h.dropFrame f ids).entries := List.mem_filter.2 ⟨he, decide_eq_true hid⟩
      obtain ⟨step, heq, -, hused, -⟩ := clampCurrentStep_spec ⟨e, hmem, by rw [h0]; omega⟩
      rw [heq]
      exact hused

theorem clearChildren (hi : h.Inv) (hu : h.CurrentUsed) : h.clearChildren.CurrentUsed := by
  unfold SessionHistory.clearChildren
  generalize h.frames.keys.filter (· ≠ FrameId.main) = fs
  induction fs generalizing h with
  | nil => exact hu
  | cons f fs ih => exact ih (hi.removeFrame f) (hu.removeFrame hi f)

theorem apply (hi : h.Inv) (hu : h.CurrentUsed) (op : HistoryOp) : (h.apply op).CurrentUsed := by
  cases op with
  | addFrame f url name =>
    simp only [SessionHistory.apply, SessionHistory.addFrame]
    split_ifs
    · exact hu
    · obtain ⟨e, he, hstep⟩ := hu
      refine ⟨e, ?_, hstep.trans (currentStep_insertEntry _ _ _ _ _).symm⟩
      rw [entries_insertEntry]
      exact List.mem_append_left _ he
  | begin f url replace localIndex name pending =>
    simp only [SessionHistory.apply]
    rcases begin_cases (h := h) (f := f) url replace localIndex name pending with
      heq | ⟨-, p, -, heq | ⟨target, -, heq⟩ | ⟨-, heq⟩⟩
    · rw [heq]
      exact hu
    · rw [heq]
      exact hu.withFrame.congr rfl rfl
    · rw [heq]
      refine replaceEntry ?_
      exact hu.withFrame.congr rfl rfl
    · rw [heq]
      exact pushStep _ _ _ _ _ _
  | commitUrl f url =>
    simp only [SessionHistory.apply]
    rcases commitUrl_cases (h := h) (f := f) url with
      heq | ⟨id, -, heq⟩ | ⟨id, name, -, heq⟩ | ⟨name, -, heq⟩
    · rw [heq]
      exact hu
    · rw [heq]
      exact hu.congr (slots_modifyEntry fun _ => rfl) rfl
    · rw [heq]
      refine replaceEntry ?_
      exact hu.congr rfl rfl
    · rw [heq]
      exact pushStep _ _ _ _ _ _
  | discardPending f => exact hu.congr rfl rfl
  | update f url state handling =>
    simp only [SessionHistory.apply]
    rcases update_cases (h := h) (f := f) url state handling with
      heq | ⟨id, -, -, heq⟩ | ⟨e, -, -, -, heq⟩
    · rw [heq]
      exact hu
    · rw [heq]
      exact hu.congr (slots_modifyEntry fun _ => rfl) rfl
    · rw [heq]
      exact (pushStep _ _ _ _ _ _).congr (slots_modifyEntry fun _ => rfl) rfl
  | commit c =>
    cases c with
    | push url name =>
      exact pushStep h FrameId.main (·.frameLen FrameId.main) url name none
    | traverse id url =>
      simp only [SessionHistory.apply, commit_traverse]
      split
      · exact hu
      · rename_i old hl
        have hslot : old.slot ∈ (h.redocument id (fun n e => { e with url, document := n })
            (h.names.get? old.document) old).slots := by
          rw [slots_redocument (fun n e => { e with url, document := n }) _ fun _ _ => rfl]
          exact slot_mem (locate_spec hl).1
        obtain ⟨e', he', heq⟩ := List.mem_map.1 hslot
        exact ⟨e', he', congrArg Slot.step heq⟩
  | syncCurrentName name =>
    simp only [SessionHistory.apply, SessionHistory.syncCurrentName]
    split
    · exact hu
    · cases name <;> exact hu
  | setTitle f title =>
    simp only [SessionHistory.apply, SessionHistory.setTitle]
    split
    · exact hu
    · exact hu.congr (slots_modifyEntry fun _ => rfl) rfl
  | removeFrame f => exact hu.removeFrame hi f
  | clearChildren => exact hu.clearChildren hi
  | traverseSameDocument id =>
    simp only [SessionHistory.apply, SessionHistory.traverseSameDocument]
    split
    · exact hu
    · rename_i e hl
      exact ⟨e, (locate_spec hl).1, rfl⟩
  | setCurrentStep target =>
    simp only [SessionHistory.apply]
    split
    · rename_i step ht
      obtain ⟨e, he, hstep⟩ := targetStep_used ht
      exact ⟨e, he, hstep⟩
    · exact hu

theorem run (hi : h.Inv) (hu : h.CurrentUsed) {ops : List HistoryOp} (hfit : (h.run ops).Fits) :
    (h.run ops).CurrentUsed := by
  induction ops generalizing h with
  | nil => exact hu
  | cons op ops ih => exact ih (hi.apply (Fits.of_run hfit)) (hu.apply hi op) hfit

end CurrentUsed

end SessionHistory

end TinyBrowser
