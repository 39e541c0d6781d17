import TinyBrowser.History.Active

/-!
# Histories of a tab

A tab also relies on where its pending changes point: a child frame's replacement must never reach an
entry of the main frame. Ids are not reused and frame lists only gain new ones, so an id that is not
the main frame's never becomes its own. `Sound k h` is the invariant with this, and with both
counters at most `k`.

A traversal asks its documents to move before it settles on the step it selected, and other
operations may come in between. `Reaches P selected h` says that a tab gets to `h` by operations with
`P`, having selected the steps of `selected`. Such a history keeps the invariant.
-/

namespace TinyBrowser
open Lib

namespace SessionHistory
section
variable {h h' : SessionHistory} {id : EntryId} {e : Entry} {f : FrameId} {url : Url}
  {name : Option ContextName} {k n : Nat}

/-- An id that the main frame does not have, now or later. -/
def Child (h : SessionHistory) (id : EntryId) : Prop :=
  id < h.nextEntry ∧ id ∉ h.idsOf FrameId.main

theorem Child.grows (hc : h.Child id) (hg : Grows n h h') : h'.Child id :=
  ⟨Nat.lt_of_lt_of_le hc.1 hg.entry_le, fun hid => hc.2 (hg.old _ _ hid hc.1)⟩

theorem Mine.grows (hm : h.Mine id) (hg : Grows n h h') : h'.Mine id :=
  ⟨Nat.lt_of_lt_of_le hm.1 hg.entry_le, fun f hf hid => hm.2 f hf (hg.old f _ hid hm.1)⟩

theorem child_of_mem (hi : h.Inv) (hf : f ≠ FrameId.main) (hid : id ∈ h.idsOf f) : h.Child id :=
  ⟨lt_of_mem_idsOf hi hid, fun hmain => hf (eq_of_mem_idsOf hi hid hmain)⟩

/-- A pending change is a child frame's, and so is the entry it replaces. -/
def Pends (h : SessionHistory) (f : FrameId) (c : PendingChange) : Prop :=
  f ≠ FrameId.main ∧ ∀ target name, c = .replace target name → h.Child target

structure Sound (k : Nat) (h : SessionHistory) : Prop where
  inv : h.Inv
  entry : h.nextEntry ≤ k
  document : h.nextDocument ≤ k
  pending : ∀ f c, h.pending.get? f = some c → h.Pends f c

theorem Pends.grows {c : PendingChange} (hp : h.Pends f c) (hg : Grows n h h') : h'.Pends f c :=
  ⟨hp.1, fun target name heq => (hp.2 target name heq).grows hg⟩

/-- No change is pending that was not. -/
def PendingSub (h h' : SessionHistory) : Prop :=
  ∀ f c, h'.pending.get? f = some c → h.pending.get? f = some c

theorem PendingSub.of_eq (heq : h'.pending = h.pending) : PendingSub h h' :=
  fun _ _ hc => heq ▸ hc

theorem PendingSub.erase (hs : PendingSub { h with pending := h.pending.erase f } h') :
    PendingSub h h' := by
  intro g c hc
  have hg : (h.pending.erase f).get? g = some c := hs g c hc
  rw [Dict.get?_erase] at hg
  split_ifs at hg
  exact hg

namespace Sound

theorem mono (hs : h.Sound k) (hk : k ≤ n) : h.Sound n :=
  ⟨hs.inv, Nat.le_trans hs.entry hk, Nat.le_trans hs.document hk, hs.pending⟩

theorem fits (hs : h.Sound k) (hg : Grows n h h') (hk : k + n < u64Max) : h'.Fits := by
  have hentry := hs.entry
  have hdocument := hs.document
  have hentry' := hg.entry_ub
  have hdocument' := hg.document_ub
  exact ⟨by omega, by omega⟩

/-- A change that grows the history by `n`. -/
theorem grow (hs : h.Sound k) (hg : Grows n h h') (hi : h'.Inv) (hp : PendingSub h h') :
    h'.Sound (k + n) := by
  have hentry := hs.entry
  have hdocument := hs.document
  have hentry' := hg.entry_ub
  have hdocument' := hg.document_ub
  exact ⟨hi, by omega, by omega, fun f c hc => (hs.pending f c (hp f c hc)).grows hg⟩

theorem sheds (hs : h.Sound k) (hd : Sheds h h') : h'.Sound k := by
  refine ⟨hd.inv, hd.nextEntry ▸ hs.entry, hd.nextDocument ▸ hs.document, fun f c hc => ?_⟩
  obtain ⟨hf, htarget⟩ := hs.pending f c (hd.pending f c hc)
  refine ⟨hf, fun target name heq => ?_⟩
  obtain ⟨hlt, hmain⟩ := htarget target name heq
  exact ⟨hd.nextEntry.symm ▸ hlt, fun hid => hmain (hd.ids _ _ hid)⟩

theorem new (blank : Url) (name : Option ContextName) : (SessionHistory.new blank name).Sound 1 :=
  ⟨Inv.new blank name, Nat.le_refl 1, Nat.le_refl 1, fun f c hc => by simp [SessionHistory.new] at hc⟩

end Sound

theorem Mine.sheds (hm : h.Mine id) (hd : Sheds h h') : h'.Mine id :=
  ⟨hd.nextEntry.symm ▸ hm.1, fun f hf hid => hm.2 f hf (hd.ids f id hid)⟩

/-! ### Pending changes -/

section
variable {step : Nat} {state : Option Text}

theorem pending_redocument (w : Nat → Entry → Entry) :
    (h.redocument id w name e).pending = h.pending := by
  cases name <;> rfl

theorem pending_replaceEntry : (h.replaceEntry id url name).pending = h.pending := by
  rw [replaceEntry_eq]
  split
  · rfl
  · exact pending_redocument _

theorem pending_insertEntry {i : Nat} :
    (h.insertEntry f step i url name state).2.pending = h.pending := by
  cases name <;> rfl

theorem pending_pushStep (h : SessionHistory) (f : FrameId) (localIndex : SessionHistory → Nat)
    (url : Url) (name : Option ContextName) (state : Option Text) :
    (h.pushStep f localIndex url name state).2.pending = h.pending := by
  cases name <;> rfl

theorem pending_addFrame : (h.addFrame f url name).pending = h.pending := by
  unfold SessionHistory.addFrame
  split_ifs
  · rfl
  · exact pending_insertEntry

theorem pending_withFrame : (h.withFrame f url).pending = h.pending := by
  unfold SessionHistory.withFrame
  split_ifs
  · rfl
  · exact pending_addFrame

theorem pending_commit {c : Commit} : (h.commit c).2.pending = h.pending := by
  cases c with
  | push url name => exact pending_pushStep h FrameId.main (·.frameLen FrameId.main) url name none
  | traverse id url =>
    rw [commit_traverse]
    split
    · rfl
    · rename_i old _
      exact pending_redocument (h := h) (e := old) fun n e => { e with url, document := n }

theorem pending_update {text : Text} {handling : HistoryHandling} :
    (h.update f url text handling).pending = h.pending := by
  rcases update_cases (h := h) (f := f) url text handling with
    heq | ⟨id, -, -, heq⟩ | ⟨e, -, -, -, heq⟩
  · rw [heq]
  · rw [heq]
    rfl
  · rw [heq]
    exact pending_pushStep h f (·.frameLen f) url none (some text)

theorem pending_setTitle {title : Text} : (h.setTitle f title).pending = h.pending := by
  unfold SessionHistory.setTitle
  split <;> rfl

theorem pending_syncCurrentName : (h.syncCurrentName name).pending = h.pending := by
  unfold SessionHistory.syncCurrentName
  split
  · rfl
  · cases name <;> rfl

end

/-! ### Operations -/

namespace Sound

theorem addFrame (hs : h.Sound k) (hk : k + 1 < u64Max) : (h.addFrame f url name).Sound (k + 1) :=
  hs.grow Grows.addFrame (hs.inv.addFrame (hs.fits Grows.addFrame hk)) (.of_eq pending_addFrame)

theorem withFrame (hs : h.Sound k) (hk : k + 1 < u64Max) : (h.withFrame f url).Sound (k + 1) :=
  hs.grow (Grows.withFrame h f url) (hs.inv.withFrame (hs.fits (Grows.withFrame h f url) hk))
    (.of_eq pending_withFrame)

theorem commit (hs : h.Sound k) (hk : k + 1 < u64Max) {c : Commit} :
    (h.commit c).2.Sound (k + 1) :=
  hs.grow Grows.commit (hs.inv.commit (hs.fits Grows.commit hk)) (.of_eq pending_commit)

theorem update (hs : h.Sound k) (hk : k + 1 < u64Max) {state : Text} {handling : HistoryHandling} :
    (h.update f url state handling).Sound (k + 1) :=
  hs.grow Grows.update (hs.inv.update (hs.fits Grows.update hk)) (.of_eq pending_update)

theorem setTitle (hs : h.Sound k) {title : Text} : (h.setTitle f title).Sound k :=
  hs.grow (n := 0) Grows.setTitle (hs.inv.setTitle title) (.of_eq pending_setTitle)

theorem syncCurrentName (hs : h.Sound k) : (h.syncCurrentName name).Sound k :=
  hs.grow (n := 0) Grows.syncCurrentName (hs.inv.syncCurrentName name)
    (.of_eq pending_syncCurrentName)

theorem setStep (hs : h.Sound k) {step : Nat} (hstep : step < h.nextEntry) :
    (h.setCurrentStep step).Sound k :=
  ⟨hs.inv.setStep hstep, hs.entry, hs.document, hs.pending⟩

theorem commitUrl (hs : h.Sound k) (hk : k + 1 < u64Max) : (h.commitUrl f url).Sound (k + 1) := by
  refine hs.grow Grows.commitUrl (hs.inv.commitUrl (hs.fits Grows.commitUrl hk)) ?_
  rcases commitUrl_cases (h := h) (f := f) url with
    heq | ⟨id, -, heq⟩ | ⟨id, name, -, heq⟩ | ⟨name, -, heq⟩
  · rw [heq]
    exact .of_eq rfl
  · rw [heq]
    exact .of_eq rfl
  · rw [heq]
    exact PendingSub.erase (.of_eq pending_replaceEntry)
  · rw [heq]
    exact PendingSub.erase (.of_eq (pending_pushStep _ _ _ _ _ _))

/-- The pending changes that a navigation of a child frame stages are in order. -/
theorem staged (hs : h.Sound k) (hf : f ≠ FrameId.main) {p : Dict FrameId PendingChange}
    (hp : h.Staged f p) : Sound k { h with pending := p } := by
  refine ⟨hs.inv.setPending p, hs.entry, hs.document, fun g c hc => ?_⟩
  rcases hp g c hc with hold | ⟨rfl, htarget⟩
  · exact hs.pending g c hold
  · refine ⟨hf, fun target name heq => ?_⟩
    obtain ⟨hlt, hmain⟩ := child_of_mem hs.inv hf (htarget target name heq)
    exact ⟨hlt, hmain⟩

theorem begin (hs : h.Sound k) (hk : k + 2 < u64Max) {replace pending : Bool} {localIndex : Nat} :
    (h.begin f url replace localIndex name pending).2.Sound (k + 2) := by
  rcases begin_cases (h := h) (f := f) url replace localIndex name pending with
    heq | ⟨hf, p, hp, hcase⟩
  · rw [heq]
    exact hs.mono (by omega)
  · have hframe : Sound (k + 1) { h.withFrame f url with pending := p } :=
      (hs.withFrame (by omega)).staged hf hp
    rcases hcase with heq | ⟨target, -, heq⟩ | ⟨-, heq⟩
    · rw [heq]
      exact hframe.mono (by omega)
    · rw [heq]
      exact hframe.grow Grows.replaceEntry
        (hframe.inv.replaceEntry (hframe.fits Grows.replaceEntry hk)) (.of_eq pending_replaceEntry)
    · rw [heq]
      have hg := Grows.pushStep { h.withFrame f url with pending := p } f (fun _ => localIndex) url
        name none
      exact hframe.grow hg (hframe.inv.pushStep (hframe.fits hg hk) fun h0 => absurd h0 hf)
        (.of_eq (pending_pushStep _ _ _ _ _ _))

end Sound

/-! ### The main frame's URL -/

theorem Shows.begin {url' : Url} {replace pending : Bool} {localIndex : Nat} (hs : h.Shows url)
    (hi : h.Sound k) (hk : k + 1 < u64Max) :
    (h.begin f url' replace localIndex name pending).2.Shows url := by
  rcases begin_cases (h := h) (f := f) url' replace localIndex name pending with
    heq | ⟨hf, p, -, hcase⟩
  · rw [heq]
    exact hs
  · have hi' : (h.withFrame f url').Inv := (hi.withFrame hk).inv
    have hframe : Shows { h.withFrame f url' with pending := p } url :=
      (hs.withFrame hi.inv).setPending p
    rcases hcase with heq | ⟨target, htarget, heq⟩ | ⟨-, heq⟩
    · rw [heq]
      exact hframe
    · rw [heq]
      exact hframe.replaceEntry (hi'.setPending p) (child_of_mem hi' hf htarget).2
    · rw [heq]
      exact hframe.pushStep (hi'.setPending p) hf

theorem Shows.commitUrl {url' : Url} (hs : h.Shows url) (hi : h.Sound k) (hf : f ≠ FrameId.main) :
    (h.commitUrl f url').Shows url := by
  have hinv : Inv { h with pending := h.pending.erase f } := hi.inv.setPending _
  rcases commitUrl_cases (h := h) (f := f) url' with
    heq | ⟨id, hact, heq⟩ | ⟨id, name, hget, heq⟩ | ⟨name, -, heq⟩
  · rw [heq]
    exact hs
  · rw [heq]
    refine hs.modifyEntry hi.inv (fun _ => rfl) fun hmain => ?_
    exact absurd (eq_of_mem_idsOf hi.inv (mem_idsOf_of_activeEntryAt hact) hmain) hf
  · rw [heq]
    exact (hs.setPending _).replaceEntry hinv ((hi.pending f _ hget).2 id name rfl).2
  · rw [heq]
    exact (hs.setPending _).pushStep hinv hf

end

/-! ### The histories that a tab reaches -/

variable {P Q : SessionHistory → HistoryOp → Prop} {blank : Url} {name : Option ContextName}
  {selected : List Nat} {h : SessionHistory}

inductive Reaches (P : SessionHistory → HistoryOp → Prop) (blank : Url)
    (name : Option ContextName) : List Nat → SessionHistory → Prop
  | new : Reaches P blank name [] (new blank name)
  | apply {selected : List Nat} {h : SessionHistory} (op : HistoryOp) :
    Reaches P blank name selected h → P h op → Reaches P blank name selected (h.apply op)
  | select {selected : List Nat} {h : SessionHistory} {step : Nat} (target : HistoryStep) :
    Reaches P blank name selected h → h.targetStep target = some step →
      Reaches P blank name (step :: selected) h
  | settle {selected : List Nat} {h : SessionHistory} {step : Nat} :
    Reaches P blank name selected h → step ∈ selected →
      Reaches P blank name selected (h.setCurrentStep step)

/-- By any operations. -/
abbrev Reachable (blank : Url) (name : Option ContextName) (selected : List Nat)
    (h : SessionHistory) : Prop :=
  Reaches (fun _ _ => True) blank name selected h

/-- Selected steps stay below the counter of entries, so that settling on one keeps the invariant. -/
theorem Reaches.inv (hr : Reaches P blank name selected h) (hfit : h.Fits) :
    h.Inv ∧ ∀ step ∈ selected, step < h.nextEntry := by
  induction hr with
  | new => exact ⟨Inv.new blank name, nofun⟩
  | @apply selected h op _ _ ih =>
    obtain ⟨hi, hlt⟩ := ih (Fits.of_apply hfit)
    exact ⟨hi.apply hfit, fun step hstep => (hlt step hstep).trans_le (Grows.apply op).entry_le⟩
  | @select selected h step target _ ht ih =>
    obtain ⟨hi, hlt⟩ := ih hfit
    obtain ⟨e, he, hstep⟩ := targetStep_used ht
    exact ⟨hi, List.forall_mem_cons.2 ⟨hstep ▸ hi.step_lt he, hlt⟩⟩
  | @settle selected h step _ hstep ih =>
    obtain ⟨hi, hlt⟩ := ih ⟨hfit.entry, hfit.document⟩
    exact ⟨hi.setStep (hlt step hstep), hlt⟩

/-- A run that does not fork gets there. -/
theorem reachable_run (blank : Url) (name : Option ContextName) (ops : List HistoryOp) :
    Reachable blank name [] ((new blank name).run ops) := by
  suffices hrun : ∀ h, Reachable blank name [] h → Reachable blank name [] (h.run ops) from
    hrun _ .new
  induction ops with
  | nil => exact fun h hr => hr
  | cons op ops ih => exact fun h hr => ih (h.apply op) (.apply op hr trivial)

end SessionHistory

end TinyBrowser
