import TinyBrowser.History.Framed

/-!
# Navigations that do not commit

A pending change is read by `commit_url` of its own frame only. `SameBut f h h'` says that two
histories differ at most in the change that is pending for `f`; every operation keeps it, but a
commit of `f`. A pending `begin` on a frame that is there changes nothing else, so what is done in
between goes as if it had not been.
-/

namespace TinyBrowser
open Lib

/-- A navigation of `f` starts, and has not committed. -/
def HistoryOp.beginsPending (f : FrameId) : HistoryOp → Bool
  | .begin frame _ _ _ _ pending => frame = f && pending
  | _ => false

def HistoryOp.commits (f : FrameId) : HistoryOp → Bool
  | .commitUrl frame _ => frame = f
  | _ => false

/-- The operation removes `f`. -/
def HistoryOp.removes (f : FrameId) : HistoryOp → Bool
  | .removeFrame frame => frame = f
  | .clearChildren => f ≠ FrameId.main
  | _ => false

/-- What an operation tells its caller. -/
inductive Answer where
  | unit
  | entry (id : Option EntryId)
  | done (found : Bool)
  | step (target : Option Nat)
deriving DecidableEq

namespace SessionHistory
variable {h h' : SessionHistory} {f g : FrameId} {url : Url} {name : Option ContextName}
  {p : Dict FrameId PendingChange} {op : HistoryOp} {ops : List HistoryOp}

/-! ### Changes that do not read what is pending -/

def withPending (h : SessionHistory) (p : Dict FrameId PendingChange) : SessionHistory :=
  { h with pending := p }

theorem insertEntry_withPending (g : FrameId) (step i : Nat) (url : Url) (name : Option ContextName)
    (state : Option Text) : (h.withPending p).insertEntry g step i url name state =
      ((h.insertEntry g step i url name state).1,
        (h.insertEntry g step i url name state).2.withPending p) := by
  cases name <;> rfl

theorem addFrame_withPending (g : FrameId) (url : Url) (name : Option ContextName) :
    (h.withPending p).addFrame g url name = (h.addFrame g url name).withPending p := by
  unfold addFrame
  rw [show (h.withPending p).frames = h.frames from rfl]
  split_ifs
  · rfl
  · rw [show (h.withPending p).currentStep = h.currentStep from rfl, insertEntry_withPending]

theorem withFrame_withPending (g : FrameId) (url : Url) :
    (h.withPending p).withFrame g url = (h.withFrame g url).withPending p := by
  unfold withFrame
  rw [show (h.withPending p).frames = h.frames from rfl]
  split_ifs
  · rfl
  · exact addFrame_withPending g url none

theorem redocument_withPending (id : EntryId) (k : Nat → Entry → Entry) (name : Option ContextName)
    (e : Entry) : (h.withPending p).redocument id k name e =
      (h.redocument id k name e).withPending p := by
  cases name <;> rfl

theorem replaceEntry_withPending (id : EntryId) (url : Url) (name : Option ContextName) :
    (h.withPending p).replaceEntry id url name = (h.replaceEntry id url name).withPending p := by
  rw [replaceEntry_eq, replaceEntry_eq]
  rw [show (h.withPending p).locate id = h.locate id from rfl]
  cases h.locate id with
  | none => rfl
  | some old => exact redocument_withPending id _ name old

theorem pushStep_withPending (g : FrameId) {localIndex : SessionHistory → Nat}
    (hk : ∀ h p, localIndex (withPending h p) = localIndex h) (url : Url)
    (name : Option ContextName) (state : Option Text) :
    (h.withPending p).pushStep g localIndex url name state =
      ((h.pushStep g localIndex url name state).1,
        (h.pushStep g localIndex url name state).2.withPending p) := by
  have htruncate : (h.withPending p).truncateForward = h.truncateForward.withPending p := rfl
  simp only [pushStep, htruncate, hk, insertEntry_withPending]
  rfl

theorem commit_withPending (c : Commit) :
    (h.withPending p).commit c = ((h.commit c).1, (h.commit c).2.withPending p) := by
  cases c with
  | push url name =>
    have hpush := @pushStep_withPending h p FrameId.main (·.frameLen FrameId.main) (fun _ _ => rfl)
      url name none
    simp only [commit]
    rw [hpush]
  | traverse id url =>
    rw [commit_traverse, commit_traverse]
    rw [show (h.withPending p).locate id = h.locate id from rfl]
    cases h.locate id with
    | none => rfl
    | some old =>
      dsimp only
      rw [redocument_withPending]
      rfl

theorem update_withPending (g : FrameId) (url : Url) (state : Text) (handling : HistoryHandling) :
    (h.withPending p).update g url state handling =
      (h.update g url state handling).withPending p := by
  unfold update
  rw [show (h.withPending p).activeEntry g = h.activeEntry g from rfl]
  cases h.activeEntry g with
  | none => rfl
  | some active =>
    cases handling with
    | replace => rfl
    | push =>
      dsimp only
      rw [show (h.withPending p).locate active = h.locate active from rfl]
      cases h.locate active with
      | none => rfl
      | some e =>
        have hpush := @pushStep_withPending h p g (·.frameLen g) (fun _ _ => rfl) url none (some state)
        dsimp only
        rw [hpush]
        rfl

theorem setTitle_withPending (g : FrameId) (title : Text) :
    (h.withPending p).setTitle g title = (h.setTitle g title).withPending p := by
  unfold setTitle
  rw [show (h.withPending p).activeEntry g = h.activeEntry g from rfl]
  cases h.activeEntry g <;> rfl

theorem syncCurrentName_withPending (name : Option ContextName) :
    (h.withPending p).syncCurrentName name = (h.syncCurrentName name).withPending p := by
  unfold syncCurrentName
  rw [show ((h.withPending p).activeEntry FrameId.main).bind (h.withPending p).locate =
    (h.activeEntry FrameId.main).bind h.locate from rfl]
  cases (h.activeEntry FrameId.main).bind h.locate with
  | none => rfl
  | some e => cases name <;> rfl

theorem clampCurrentStep_withPending :
    (h.withPending p).clampCurrentStep = h.clampCurrentStep.withPending p := by
  unfold clampCurrentStep
  rw [show ((h.withPending p).entries.filter fun e => e.step ≤ (h.withPending p).currentStep) =
    h.entries.filter fun e => e.step ≤ h.currentStep from rfl]
  cases ((h.entries.filter fun e => e.step ≤ h.currentStep).map Entry.step).max? <;> rfl

theorem pending_clampCurrentStep : h.clampCurrentStep.pending = h.pending := by
  unfold clampCurrentStep
  split <;> rfl

/-! ### Histories that differ in one pending change -/

def SameBut (f : FrameId) (h h' : SessionHistory) : Prop :=
  ∃ p, h' = h.withPending p ∧ ∀ g, g ≠ f → p.get? g = h.pending.get? g

namespace SameBut

theorem refl (f : FrameId) (h : SessionHistory) : SameBut f h h := ⟨h.pending, rfl, fun _ _ => rfl⟩

theorem of_eq {k k' : SessionHistory} (hs : SameBut f h h')
    (heq : ∀ p, h' = h.withPending p → k' = k.withPending p) (hp : k.pending = h.pending) :
    SameBut f k k' := by
  obtain ⟨p, rfl, hsame⟩ := hs
  exact ⟨p, heq p rfl, fun g hg => (hsame g hg).trans (by rw [hp])⟩

theorem erase (hs : SameBut f h h') (g : FrameId) :
    SameBut f { h with pending := h.pending.erase g } { h' with pending := h'.pending.erase g } := by
  obtain ⟨p, rfl, hsame⟩ := hs
  refine ⟨p.erase g, rfl, fun g' hg' => ?_⟩
  show (p.erase g).get? g' = (h.pending.erase g).get? g'
  rw [Dict.get?_erase, Dict.get?_erase, hsame g' hg']

theorem insert (hs : SameBut f h h') (g : FrameId) (change : PendingChange) :
    SameBut f { h with pending := h.pending.insert g change }
      { h' with pending := h'.pending.insert g change } := by
  obtain ⟨p, rfl, hsame⟩ := hs
  refine ⟨p.insert g change, rfl, fun g' hg' => ?_⟩
  show (p.insert g change).get? g' = (h.pending.insert g change).get? g'
  rw [Dict.get?_insert, Dict.get?_insert, hsame g' hg']

theorem withFrame (hs : SameBut f h h') (g : FrameId) (url : Url) :
    SameBut f (h.withFrame g url) (h'.withFrame g url) :=
  hs.of_eq (fun _ heq => heq ▸ withFrame_withPending g url) pending_withFrame

theorem replaceEntry (hs : SameBut f h h') (id : EntryId) (url : Url) (name : Option ContextName) :
    SameBut f (h.replaceEntry id url name) (h'.replaceEntry id url name) :=
  hs.of_eq (fun _ heq => heq ▸ replaceEntry_withPending id url name) pending_replaceEntry

theorem pushStep (hs : SameBut f h h') (g : FrameId) {localIndex : SessionHistory → Nat}
    (hk : ∀ h p, localIndex (withPending h p) = localIndex h) (url : Url)
    (name : Option ContextName) (state : Option Text) :
    SameBut f (h.pushStep g localIndex url name state).2
      (h'.pushStep g localIndex url name state).2 :=
  hs.of_eq (fun _ heq => heq ▸ congrArg Prod.snd (pushStep_withPending g hk url name state))
    (pending_pushStep ..)

/-- A `begin` reads no pending change. -/
theorem begin (hs : SameBut f h h') (g : FrameId) (url : Url) (replace : Bool) (localIndex : Nat)
    (name : Option ContextName) (pending : Bool) :
    (h'.begin g url replace localIndex name pending).1 =
        (h.begin g url replace localIndex name pending).1 ∧
      SameBut f (h.begin g url replace localIndex name pending).2
        (h'.begin g url replace localIndex name pending).2 := by
  have hw := hs.withFrame g url
  by_cases hg : g = FrameId.main
  · simp only [SessionHistory.begin, if_pos hg]
    exact ⟨trivial, hs⟩
  · simp only [SessionHistory.begin, if_neg hg]
    rw [show (if h.frames.contains g then h else h.addFrame g url none) = h.withFrame g url from rfl,
      show (if h'.frames.contains g then h' else h'.addFrame g url none) = h'.withFrame g url from rfl]
    generalize h.withFrame g url = w, h'.withFrame g url = w' at hw
    have hactive : w'.activeEntry g = w.activeEntry g := by
      obtain ⟨p, rfl, -⟩ := hw
      rfl
    have htarget : w'.replaceTarget g localIndex = w.replaceTarget g localIndex := by
      obtain ⟨p, rfl, -⟩ := hw
      rfl
    cases pending with
    | true =>
      simp only [hactive, htarget, ↓reduceIte]
      generalize (if replace = true then Option.map (PendingChange.replace · name)
        ((w.activeEntry g).bind (w.replaceTarget g localIndex)) else some (.push name)) = change
      cases change with
      | none => exact ⟨rfl, hw⟩
      | some change => exact ⟨rfl, hw.insert g change⟩
    | false =>
      have he := hw.erase g
      have htarget' : ∀ current, SessionHistory.replaceTarget { w' with pending := w'.pending.erase g }
          g localIndex current = SessionHistory.replaceTarget { w with pending := w.pending.erase g }
            g localIndex current := fun current => congrFun htarget current
      simp only [hactive, htarget', Bool.false_eq_true, ↓reduceIte, fst_pushStep]
      have hnext : w'.nextEntry = w.nextEntry := by
        obtain ⟨p, rfl, -⟩ := hw
        rfl
      have hpush : SameBut f
          (SessionHistory.pushStep { w with pending := w.pending.erase g } g (fun _ => localIndex) url
            name none).2
          (SessionHistory.pushStep { w' with pending := w'.pending.erase g } g (fun _ => localIndex) url
            name none).2 := he.pushStep g (fun _ _ => rfl) url name none
      cases replace with
      | false => exact ⟨congrArg some hnext, hpush⟩
      | true =>
        cases w.activeEntry g with
        | none => exact ⟨congrArg some hnext, hpush⟩
        | some current =>
          dsimp only
          generalize SessionHistory.replaceTarget { w with pending := w.pending.erase g } g localIndex
            current = target
          cases target with
          | none => exact ⟨rfl, he⟩
          | some target => exact ⟨rfl, he.replaceEntry target url name⟩

/-- A commit reads the pending change of its own frame. -/
theorem commitUrl (hs : SameBut f h h') (hg : g ≠ f) (url : Url) :
    SameBut f (h.commitUrl g url) (h'.commitUrl g url) := by
  have he := hs.erase g
  have hget : h'.pending.get? g = h.pending.get? g := by
    obtain ⟨p, rfl, hsame⟩ := hs
    exact hsame g hg
  unfold SessionHistory.commitUrl
  rw [hget]
  cases h.pending.get? g with
  | none =>
    obtain ⟨p, rfl, hsame⟩ := hs
    refine SameBut.of_eq ⟨p, rfl, hsame⟩ (fun q heq => ?_) ?_
    · rw [heq]
      dsimp only
      rw [show (h.withPending q).activeEntry g = h.activeEntry g from rfl]
      cases h.activeEntry g <;> rfl
    · cases h.activeEntry g <;> rfl
  | some change =>
    cases change with
    | push name => exact he.pushStep g (fun _ _ => rfl) url name none
    | replace entry name => exact he.replaceEntry entry url name

theorem removeFrame (hs : SameBut f h h') (g : FrameId) :
    SameBut f (h.removeFrame g) (h'.removeFrame g) := by
  have hframes : h'.frames.get? g = h.frames.get? g := by
    obtain ⟨p, rfl, -⟩ := hs
    rfl
  rw [removeFrame_eq, removeFrame_eq, hframes]
  split_ifs
  · exact hs
  · cases h.frames.get? g with
    | none => exact hs
    | some ids =>
      have hdrop : SameBut f (h.dropFrame g ids) (h'.dropFrame g ids) := by
        obtain ⟨p, rfl, hsame⟩ := hs
        refine ⟨p.erase g, rfl, fun g' hg' => ?_⟩
        show (p.erase g).get? g' = (h.pending.erase g).get? g'
        rw [Dict.get?_erase, Dict.get?_erase, hsame g' hg']
      show SameBut f (h.dropFrame g ids).clampCurrentStep (h'.dropFrame g ids).clampCurrentStep
      exact hdrop.of_eq (fun _ heq => heq ▸ clampCurrentStep_withPending) pending_clampCurrentStep

theorem clearChildren (hs : SameBut f h h') : SameBut f h.clearChildren h'.clearChildren := by
  have hframes : h'.frames = h.frames := by
    obtain ⟨p, rfl, -⟩ := hs
    rfl
  unfold SessionHistory.clearChildren
  rw [hframes]
  generalize h.frames.keys.filter (· ≠ FrameId.main) = fs
  induction fs generalizing h h' with
  | nil => exact hs
  | cons g fs ih =>
    refine ih (hs.removeFrame g) ?_
    obtain ⟨p, heq, -⟩ := hs.removeFrame g
    rw [heq]
    rfl

theorem traverse (hs : SameBut f h h') (id : EntryId) :
    (h'.traverseSameDocument id).1 = (h.traverseSameDocument id).1 ∧
      SameBut f (h.traverseSameDocument id).2 (h'.traverseSameDocument id).2 := by
  obtain ⟨p, rfl, hsame⟩ := hs
  unfold SessionHistory.traverseSameDocument
  rw [show (h.withPending p).locate id = h.locate id from rfl]
  cases h.locate id <;> exact ⟨rfl, p, rfl, hsame⟩

/-- Every operation but a commit of `f`. -/
theorem apply (hs : SameBut f h h') (hop : op.commits f = false) :
    SameBut f (h.apply op) (h'.apply op) := by
  cases op with
  | addFrame g url name =>
    exact hs.of_eq (fun _ heq => heq ▸ addFrame_withPending g url name) pending_addFrame
  | begin g url replace localIndex name pending =>
    exact (hs.begin g url replace localIndex name pending).2
  | commitUrl g url => exact hs.commitUrl (of_decide_eq_false hop) url
  | discardPending g => exact hs.erase g
  | update g url state handling =>
    exact hs.of_eq (fun _ heq => heq ▸ update_withPending g url state handling) pending_update
  | commit c =>
    exact hs.of_eq (fun _ heq => heq ▸ congrArg Prod.snd (commit_withPending c)) pending_commit
  | syncCurrentName name =>
    exact hs.of_eq (fun _ heq => heq ▸ syncCurrentName_withPending name) pending_syncCurrentName
  | setTitle g title =>
    exact hs.of_eq (fun _ heq => heq ▸ setTitle_withPending g title) pending_setTitle
  | removeFrame g => exact hs.removeFrame g
  | clearChildren => exact hs.clearChildren
  | traverseSameDocument id => exact (hs.traverse id).2
  | setCurrentStep target =>
    obtain ⟨p, rfl, hsame⟩ := hs
    simp only [SessionHistory.apply]
    rw [show (h.withPending p).targetStep target = h.targetStep target from rfl]
    cases h.targetStep target <;> exact ⟨p, rfl, hsame⟩

end SameBut

/-! ### What an operation answers -/

def answer (h : SessionHistory) : HistoryOp → Answer
  | .begin frame url replace localIndex name pending =>
    .entry (h.begin frame url replace localIndex name pending).1
  | .commit commit => .done (h.commit commit).1
  | .traverseSameDocument entry => .done (h.traverseSameDocument entry).1
  | .setCurrentStep target => .step (h.targetStep target)
  | _ => .unit

theorem SameBut.answer (hs : SameBut f h h') (op : HistoryOp) : h'.answer op = h.answer op := by
  cases op with
  | begin g url replace localIndex name pending =>
    exact congrArg Answer.entry (hs.begin g url replace localIndex name pending).1
  | commit c =>
    obtain ⟨p, rfl, -⟩ := hs
    exact congrArg (Answer.done ·.1) (commit_withPending c)
  | traverseSameDocument id => exact congrArg Answer.done (hs.traverse id).1
  | setCurrentStep target =>
    obtain ⟨p, rfl, -⟩ := hs
    rfl
  | _ => rfl

/-! ### Runs -/

/-- The frame is the main one or has entries. -/
def Covers (h : SessionHistory) (f : FrameId) : Prop :=
  f = FrameId.main ∨ h.frames.contains f = true

/-- Each navigation of `f` that the run starts finds the frame covered. -/
def BeginsCovered (f : FrameId) : SessionHistory → List HistoryOp → Prop
  | _, [] => True
  | h, op :: ops =>
    (op.beginsPending f = true → h.Covers f) ∧ BeginsCovered f (h.apply op) ops

/-- Starting a navigation changes what is pending for its frame. -/
theorem SameBut.beginsPending (hcovers : h.Covers f) (hop : op.beginsPending f = true) :
    SameBut f h (h.apply op) := by
  cases op with
  | begin g url replace localIndex name pending =>
    simp only [HistoryOp.beginsPending, Bool.and_eq_true, decide_eq_true_eq] at hop
    obtain ⟨rfl, rfl⟩ := hop
    simp only [SessionHistory.apply, SessionHistory.begin]
    rcases hcovers with hmain | hf
    · rw [if_pos hmain]
      exact .refl g h
    · rw [if_pos hf]
      split_ifs
      · exact .refl g h
      all_goals
        split
        · exact .refl g h
        · exact ⟨_, rfl, fun g' hg' => (Dict.get?_insert ..).trans (if_neg hg')⟩
  | _ => cases hop

theorem SameBut.trans {h'' : SessionHistory} (hs : SameBut f h h') (hs' : SameBut f h' h'') :
    SameBut f h h'' := by
  obtain ⟨p, rfl, hsame⟩ := hs
  obtain ⟨q, rfl, hsame'⟩ := hs'
  exact ⟨q, rfl, fun g hg => (hsame' g hg).trans (hsame g hg)⟩

/-- The run without the navigations of `f` that start. -/
def others (f : FrameId) (ops : List HistoryOp) : List HistoryOp :=
  ops.filter fun op => !op.beginsPending f

theorem SameBut.run (hs : SameBut f h h') (hcommit : ∀ op ∈ ops, op.commits f = false)
    (hcovered : BeginsCovered f h' ops) : SameBut f (h.run (others f ops)) (h'.run ops) := by
  induction ops generalizing h h' with
  | nil => exact hs
  | cons op ops ih =>
    obtain ⟨hop, hrest⟩ := List.forall_mem_cons.1 hcommit
    by_cases hbegins : op.beginsPending f = true
    · rw [others, List.filter_cons_of_neg (by simp [hbegins])]
      exact ih (hs.trans (.beginsPending (hcovered.1 hbegins) hbegins)) hrest hcovered.2
    · rw [others, List.filter_cons_of_pos (by simpa using hbegins)]
      exact ih (hs.apply hop) hrest hcovered.2

theorem BeginsCovered.prefix_of_append {pre post : List HistoryOp}
    (hcovered : BeginsCovered f h (pre ++ post)) : BeginsCovered f h pre := by
  induction pre generalizing h with
  | nil => trivial
  | cons op pre ih => exact ⟨hcovered.1, ih hcovered.2⟩

/-! ### A frame that stays -/

theorem framesStay_begin {replace pending : Bool} {localIndex : Nat} :
    FramesStay h (h.begin g url replace localIndex name pending).2 := by
  rcases begin_cases (h := h) (f := g) url replace localIndex name pending with
    heq | ⟨-, p, -, heq⟩
  · exact .of_eq (by rw [heq])
  · have hw : FramesStay h ((h.withFrame g url).withPending p) :=
      FramesStay.withFrame.trans (.of_eq rfl)
    rcases heq with heq | ⟨target, -, heq⟩ | ⟨-, heq⟩
    · rw [heq]
      exact hw
    · rw [heq]
      exact hw.trans FramesStay.replaceEntry
    · rw [heq]
      exact hw.trans FramesStay.pushStep

theorem framesStay_commitUrl : FramesStay h (h.commitUrl g url) := by
  have hp : FramesStay h { h with pending := h.pending.erase g } := .of_eq rfl
  rcases commitUrl_cases (h := h) (f := g) url with
    heq | ⟨id, -, heq⟩ | ⟨id, name, -, heq⟩ | ⟨name, -, heq⟩
  · exact .of_eq (by rw [heq])
  · exact .of_eq (by rw [heq]; rfl)
  · rw [heq]
    exact hp.trans FramesStay.replaceEntry
  · rw [heq]
    exact hp.trans FramesStay.pushStep

theorem contains_iff_ids : h.frames.contains f = true ↔ ∃ ids, h.frames.get? f = some ids :=
  (Dict.contains_iff ..).trans (Dict.mem_keys_iff ..)

theorem FramesStay.contains (hs : FramesStay h h') (hf : h.frames.contains f = true) :
    h'.frames.contains f = true := by
  obtain ⟨ids, hids⟩ := contains_iff_ids.1 hf
  obtain ⟨ids', hids'⟩ := hs f ids hids
  exact contains_iff_ids.2 ⟨ids', hids'⟩

theorem contains_removeFrame (hf : h.frames.contains f = true) (hg : g ≠ f) :
    (h.removeFrame g).frames.contains f = true := by
  rcases removeFrame_cases h g with heq | ⟨ids, step, -, -, heq⟩
  · rwa [heq]
  · rw [heq]
    obtain ⟨ids', hids'⟩ := contains_iff_ids.1 hf
    exact contains_iff_ids.2 ⟨ids', (Dict.get?_erase ..).trans ((if_neg hg.symm).trans hids')⟩

/-- A frame that no operation removes stays covered. -/
theorem Covers.apply (hcovers : h.Covers f) (hop : op.removes f = false) : (h.apply op).Covers f := by
  refine hcovers.imp id fun hf => ?_
  cases op with
  | addFrame g url name => exact FramesStay.addFrame.contains hf
  | begin g url replace localIndex name pending => exact framesStay_begin.contains hf
  | commitUrl g url => exact framesStay_commitUrl.contains hf
  | discardPending g => exact hf
  | update g url state handling => exact FramesStay.update.contains hf
  | commit c => exact FramesStay.commit.contains hf
  | syncCurrentName name =>
    simp only [SessionHistory.apply, SessionHistory.syncCurrentName]
    split
    · exact hf
    · cases name <;> exact hf
  | setTitle g title =>
    simp only [SessionHistory.apply, SessionHistory.setTitle]
    split <;> exact hf
  | removeFrame g => exact contains_removeFrame hf (of_decide_eq_false hop)
  | clearChildren =>
    have hmain : f = FrameId.main := not_not.1 (of_decide_eq_false hop)
    simp only [SessionHistory.apply, SessionHistory.clearChildren]
    have hne : ∀ g ∈ h.frames.keys.filter (· ≠ FrameId.main), g ≠ f := fun g hg =>
      hmain ▸ of_decide_eq_true (List.mem_filter.1 hg).2
    revert hne
    generalize h.frames.keys.filter (· ≠ FrameId.main) = fs
    clear hcovers
    induction fs generalizing h with
    | nil => exact fun _ => hf
    | cons g fs ih =>
      intro hne
      obtain ⟨hg, hfs⟩ := List.forall_mem_cons.1 hne
      exact ih (contains_removeFrame hf hg) hfs
  | traverseSameDocument id =>
    simp only [SessionHistory.apply, SessionHistory.traverseSameDocument]
    split <;> exact hf
  | setCurrentStep target =>
    simp only [SessionHistory.apply]
    split <;> exact hf

theorem BeginsCovered.of_covers (hcovers : h.Covers f)
    (hops : ∀ op ∈ ops, op.removes f = false) : BeginsCovered f h ops := by
  induction ops generalizing h with
  | nil => trivial
  | cons op ops ih =>
    obtain ⟨hop, hrest⟩ := List.forall_mem_cons.1 hops
    exact ⟨fun _ => hcovers, ih (hcovers.apply hop) hrest⟩

/-! ### Navigations that leave no trace -/

/-- The histories have the same entries and show each frame the same. -/
structure SameTraversables (h h' : SessionHistory) : Prop where
  entries : h'.entries = h.entries
  frames : h'.frames = h.frames
  names : h'.names = h.names
  currentStep : h'.currentStep = h.currentStep
  nextEntry : h'.nextEntry = h.nextEntry
  nextDocument : h'.nextDocument = h.nextDocument
  snapshots : ∀ g, h'.rendererSnapshotFor g = h.rendererSnapshotFor g

theorem SameBut.discardPending (hs : SameBut f h h') :
    SameTraversables h (h'.discardPending f) := by
  obtain ⟨p, rfl, -⟩ := hs
  exact ⟨rfl, rfl, rfl, rfl, rfl, rfl, fun _ => rfl⟩

/-- A run in which navigations of `f` start and none commits, and then the last is discarded. -/
theorem discardPending_leaves_no_trace (h : SessionHistory) (f : FrameId) (ops : List HistoryOp)
    (hcommit : ∀ op ∈ ops, op.commits f = false) (hcovered : BeginsCovered f h ops) :
    SameTraversables (h.run (others f ops)) ((h.run ops).discardPending f) ∧
    (∀ g, ((h.run ops).discardPending f).pending.get? g =
      if g = f then none else (h.run (others f ops)).pending.get? g) ∧
    ((∀ op ∈ ops, op.beginsPending f = true) →
      SameTraversables h ((h.run ops).discardPending f)) ∧
    ∀ pre op post, ops = pre ++ op :: post →
      (h.run pre).answer op = (h.run (others f pre)).answer op := by
  have hs : SameBut f (h.run (others f ops)) (h.run ops) := (SameBut.refl f h).run hcommit hcovered
  refine ⟨hs.discardPending, fun g => ?_, fun hall => ?_, fun pre op post heq => ?_⟩
  · obtain ⟨p, heq, hsame⟩ := hs
    rw [heq]
    show (p.erase f).get? g = _
    rw [Dict.get?_erase]
    split_ifs with hg
    · rfl
    · exact hsame g hg
  · have hnone : others f ops = [] := List.filter_eq_nil_iff.2 fun op hop => by simp [hall op hop]
    have hdiscard := hs.discardPending
    rwa [hnone] at hdiscard
  · subst heq
    refine SameBut.answer (f := f) ?_ op
    exact (SameBut.refl f h).run (fun op hop => hcommit op (List.mem_append_left _ hop))
      hcovered.prefix_of_append

/-- A push and a replacement start in a frame, and the main frame navigates in between. -/
def abandonedOps : List HistoryOp :=
  [.begin 1 .sample false 1 none true, .commit (.push .sample none),
    .begin 1 .sample true 0 none true]

theorem discardPending_leaves_no_trace_abandonedOps :
    SameTraversables (((new .sample none).addFrame 1 .sample none).run (others 1 abandonedOps))
      ((((new .sample none).addFrame 1 .sample none).run abandonedOps).discardPending 1) :=
  (discardPending_leaves_no_trace _ 1 abandonedOps (by decide)
    (.of_covers (.inr (by decide +kernel)) (by decide))).1

end SessionHistory

end TinyBrowser
