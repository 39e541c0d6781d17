import TinyBrowser.Tab.Link
import TinyBrowser.History.Sound

/-!
# The tab's URL and its history

A commit of a document has three exits: the history rejects it, the mount fails, or the document is
mounted. `CommitOutcome` says for each of them which code runs from which state, and a proof about
commits is a case analysis on it; `commitDocument_outcome` is the connection.

`TabInv k w` is the invariant of a tab: its history is `Sound`, a selected traversal is to an entry
of the main frame, and, as long as the renderer accepted every same-document traversal of the main
frame, the main frame's active entry has the tab's URL. A step of the loop keeps it and moves the
counters by at most two.
-/

namespace TinyBrowser
open Lib

/-- What a commit is of: a response, or a `data:` URL. -/
inductive Navigation where
  | response (outcome : NavOutcome)
  | data (url : Url)

def Navigation.url : Navigation → Url
  | .response outcome => outcome.url
  | .data url => url

def Navigation.commit {me : TabId} (p : Platform) : Navigation → TabM me Bool
  | .response outcome => TabM.commitNavigation p outcome
  | .data url => TabM.commitDataNavigation p url

/-- How the document of a navigation is mounted. -/
def Navigation.mountAt {me : TabId} : Navigation → Site → Mount → TabM me (Except TabError Unit)
  | .response outcome => fun site m => TabM.mountStream site m outcome.body
  | .data _ => TabM.mount

/-! ### The exits -/

section
variable {me : TabId} {p : Platform} {w w' : World me} {url : Url} {csp : SandboxFlags}
  {mountAt : Site → Mount → TabM me (Except TabError Unit)} {settle : Bool → Bool}

/-- The state in which a commit asks the history: the outgoing entry has the document's name, and the
traversal is taken. -/
structure Prepared (w w' : World me) : Prop where
  tab : ∃ name, w'.tab =
    { w.tab with history := w.tab.history.syncCurrentName name, traversal := none }
  requests : w'.requests = w.requests
  names : w.Follows w'

open TabM in
inductive CommitOutcome (p : Platform) (url : Url)
    (mountAt : Site → Mount → TabM me (Except TabError Unit)) (settle : Bool → Bool) (w : World me) :
    Bool → World me → Prop where
  | rejected (w₁ : World me) (state : TabState) (prepared : Prepared w w₁)
      (refused : (w₁.tab.history.commit (commitOf w.tab url state)).1 = false) :
      CommitOutcome p url mountAt settle w false
        ((failCommit (w.tabs.mainCsp me)).run w₁).2
  | failed (w₁ w₂ w₃ : World me) (state : TabState) (names : CommitNames) (m : Mount) (e : TabError)
      (prepared : Prepared w w₁) (begun : (beginCommit state).run w₁ = (names, w₂))
      (mounted : (mountAt (siteOf p.crates me url) m).run w₂ = (.error e, w₃)) :
      CommitOutcome p url mountAt settle w false
        ((do abortCommit names; failCommit (w.tabs.mainCsp me)).run w₃).2
  | done (w₁ w₂ w₃ : World me) (state : TabState) (names : CommitNames) (m : Mount)
      (prepared : Prepared w w₁) (begun : (beginCommit state).run w₁ = (names, w₂))
      (mounted : (mountAt (siteOf p.crates me url) m).run w₂ = (.ok (), w₃))
      (agreed : (w₁.tab.history.commit (commitOf w.tab url state)).1 = true) :
      CommitOutcome p url mountAt settle w true
        ((finishCommit p url (w₁.tab.history.commit (commitOf w.tab url state)).2 settle).run w₃).2

namespace TabM

section
variable {Q : Unit → World me → Prop}

@[simp] theorem wp_getTab {Q : Tab → World me → Prop} : wp getTab Q w = Q w.tab w := rfl

@[simp] theorem wp_modifyTab (f : Tab → Tab) :
    wp (modifyTab f) Q w = Q () { w with tab := f w.tab } := rfl

@[simp] theorem wp_modifyHistory (f : SessionHistory → SessionHistory) :
    wp (modifyHistory f) Q w =
      Q () { w with tab := { w.tab with history := f w.tab.history } } := rfl

end

theorem commitDocument_outcome : wp (commitDocument p url csp mountAt settle)
    (CommitOutcome p url mountAt settle w) w := by
  unfold commitDocument syncOutgoingName historyCommit
  rw [wp_bind, wp_get, wp_bind]
  refine wp_mono (Stays.wp (sees_critical fun _ => rfl) w) fun _ w₁ hw₁ => ?_
  rw [wp_bind, wp_bind]
  refine wp_mono (Stays.wp (sees_reads _) w₁) fun name w₂ hw₂ => ?_
  rw [wp_modifyHistory, wp_bind]
  refine wp_mono (Stays.wp (sees_commitState url) _) fun state w₃ hw₃ => ?_
  rw [wp_bind, wp_bind, wp_getTab, wp_bind, wp_modifyTab, wp_pure, wp_bind, wp_getTab]
  have ht₃ : w₃.tab = { w.tab with history := w.tab.history.syncCurrentName name } := by
    rw [hw₃.tab, hw₂.tab, hw₁.tab]
  have hprep : Prepared w { w₃ with tab := { w₃.tab with traversal := none } } := by
    refine ⟨⟨name, by rw [ht₃]⟩, ?_, ?_⟩
    · exact hw₃.requests.trans (hw₂.requests.trans hw₁.requests)
    · exact (hw₁.names.trans hw₂.names).trans hw₃.names
  have hcommit : commitOf w₃.tab url state = commitOf w.tab url state := by
    rw [ht₃]
    rfl
  rw [hcommit]
  generalize { w₃ with tab := { w₃.tab with traversal := none } } = w₄ at hprep ⊢
  dsimp only
  rw [wp_ite]
  split_ifs with hok
  · rcases hbegin : (beginCommit state).run w₄ with ⟨names, w₅⟩
    rw [wp_bind, wp_of_run hbegin, wp_bind]
    generalize hm : Mount.mk url _ state = m
    rcases hmount : (mountAt (siteOf p.crates me url) m).run w₅ with ⟨result, w₆⟩
    rw [wp_of_run hmount]
    cases result with
    | error e => exact .failed w₄ w₅ w₆ state names m e hprep hbegin hmount
    | ok _ => exact .done w₄ w₅ w₆ state names m hprep hbegin hmount hok
  · exact .rejected _ state hprep (by simpa using hok)

/-- A commit goes as `CommitOutcome` says, or the `data:` URL does not decode. -/
theorem commit_outcome (n : Navigation) : wp (n.commit p) (fun ok w' =>
    (ok = false ∧ w' = { w with tab := { w.tab with navigationFailed := true } }) ∨
      ∃ settle, CommitOutcome p n.url n.mountAt settle w ok w') w := by
  cases n with
  | response outcome =>
    show wp (commitNavigation p outcome) _ w
    unfold commitNavigation
    exact wp_mono commitDocument_outcome fun ok w' ho => .inr ⟨_, ho⟩
  | data url =>
    show wp (commitDataNavigation p url) _ w
    unfold commitDataNavigation
    split
    · exact .inl ⟨rfl, rfl⟩
    · exact wp_mono commitDocument_outcome fun ok w' ho => .inr ⟨_, ho⟩

end TabM

end

variable {me : TabId} {α β : Type} {p : Platform} {w w' : World me} {k n : Nat} {url : Url}

/-! ### Moves that keep the main frame -/

/-- A move that keeps the URL and the main frame's entries; child frames may go. -/
structure Calm (w w' : World me) : Prop where
  documentUrl : w'.tab.documentUrl = w.tab.documentUrl
  traversal : w'.tab.traversal = w.tab.traversal
  history : w.tab.history.Inv → w.tab.history.Sheds w'.tab.history
  requests : w.requests <+: w'.requests

namespace Calm

theorem trans {w'' : World me} (h : Calm w w') (h' : Calm w' w'') : Calm w w'' :=
  ⟨h'.documentUrl.trans h.documentUrl, h'.traversal.trans h.traversal,
    fun hi => (h.history hi).trans (h'.history (h.history hi).inv), h.requests.trans h'.requests⟩

instance : Std.Refl (@Calm me) :=
  ⟨fun _ => ⟨rfl, rfl, SessionHistory.Sheds.refl, List.prefix_rfl⟩⟩

instance : IsTrans (World me) Calm := ⟨fun _ _ _ => trans⟩

end Calm

theorem Linked.calm (h : Linked w w') : Calm w w' := by
  refine ⟨h.documentUrl, h.traversal, fun hi => ?_, h.requests⟩
  rcases h.history with heq | heq
  · rw [heq]
    exact SessionHistory.Sheds.refl hi
  · rw [heq]
    exact SessionHistory.Sheds.clearChildren hi

namespace TabM

theorem Links.calm {m : TabM me α} (hm : Links m) : Stays Calm m := hm.mono fun _ _ => Linked.calm

theorem calm_critical (f : TabRegistry → α × TabRegistry) : Stays Calm (critical f : TabM me α) :=
  Stays.bind sees_nextTurn.links.calm fun _ _ => ⟨rfl, rfl, SessionHistory.Sheds.refl, List.prefix_rfl⟩

theorem calm_mark (moment : Moment me) : Stays Calm (mark moment : TabM me Unit) :=
  fun _ => ⟨rfl, rfl, SessionHistory.Sheds.refl, List.prefix_rfl⟩

/-- A change of the tab's other fields. -/
theorem calm_modifyTab {f : Tab → Tab} (hu : ∀ t, (f t).documentUrl = t.documentUrl)
    (ht : ∀ t, (f t).traversal = t.traversal) (hh : ∀ t, (f t).history = t.history) :
    Stays Calm (modifyTab f : TabM me Unit) :=
  (links_modifyTab hu ht fun t => .inl (hh t)).calm

theorem calm_traverseFrame (frame : FrameId) (entry : EntryId) (sameDocument reload : Bool) :
    Stays Calm (traverseFrame p frame entry sameDocument reload : TabM me Unit) := by
  refine Stays.bind sees_getTab.links.calm fun t => ?_
  dsimp only
  split
  · refine Stays.bind (fun w => ⟨rfl, rfl, fun hi => ?_, List.prefix_rfl⟩) fun _ =>
      Stays.bind (links_rendererRequest _).calm fun _ => Stays.pure _
    exact SessionHistory.Sheds.discardPending hi frame
  · exact Stays.pure _

theorem calm_moveChildren (moves : List (FrameId × EntryId × Bool)) :
    Stays Calm (moveChildren p moves : TabM me Unit) :=
  Stays.forM (fun _ => calm_traverseFrame _ _ _ _) moves

end TabM

/-! ### The invariant -/

/-- A request that is no same-document traversal of the main frame, or one that the renderer
accepted. -/
def traversalAccepted : RendererCommand × Except TabError Reply → Bool
  | (.historyTraverse _ _, .ok (.unit (.ok ()))) => true
  | (.historyTraverse _ _, _) => false
  | _ => true

def TraversalsAccepted (requests : List (RendererCommand × Except TabError Reply)) : Prop :=
  ∀ request ∈ requests, traversalAccepted request = true

instance (requests : List (RendererCommand × Except TabError Reply)) :
    Decidable (TraversalsAccepted requests) :=
  inferInstanceAs (Decidable (∀ request ∈ requests, traversalAccepted request = true))

theorem TraversalsAccepted.of_prefix {requests requests' : List (RendererCommand × Except TabError Reply)}
    (ha : TraversalsAccepted requests') (hp : requests <+: requests') : TraversalsAccepted requests :=
  fun request hmem => ha request (hp.subset hmem)

structure TabInv (k : Nat) (w : World me) : Prop where
  sound : w.tab.history.Sound k
  traversal : ∀ entry, w.tab.traversal = some entry → w.tab.history.Mine entry
  shows : TraversalsAccepted w.requests → w.tab.history.Shows w.tab.documentUrl

/-- The history is at `url` already; the tab follows. -/
structure Presents (k : Nat) (url : Url) (w : World me) : Prop where
  sound : w.tab.history.Sound k
  traversal : ∀ entry, w.tab.traversal = some entry → w.tab.history.Mine entry
  shows : w.tab.history.Shows url

/-- The main frame will be at the tab's URL once `step` is current. -/
structure Aims (step : Nat) (w : World me) : Prop where
  lt : step < w.tab.history.nextEntry
  shows : TraversalsAccepted w.requests → w.tab.history.ShowsAt step w.tab.documentUrl

theorem TabInv.mono (hi : TabInv k w) (hk : k ≤ n) : TabInv n w :=
  ⟨hi.sound.mono hk, hi.traversal, hi.shows⟩

theorem TabInv.calm (hi : TabInv k w) (hc : Calm w w') : TabInv k w' := by
  have hd := hc.history hi.sound.inv
  refine ⟨hi.sound.sheds hd, fun entry heq => ?_, fun ha => ?_⟩
  · exact (hi.traversal entry (hc.traversal ▸ heq)).sheds hd
  · rw [hc.documentUrl]
    exact (hi.shows (ha.of_prefix hc.requests)).sheds hd

theorem TabInv.prepared (hi : TabInv k w) (hp : Prepared w w') : TabInv k w' := by
  obtain ⟨name, ht⟩ := hp.tab
  refine ⟨?_, fun entry heq => ?_, fun hacc => ?_⟩
  · rw [ht]
    exact hi.sound.syncCurrentName
  · simp [ht] at heq
  · rw [ht]
    exact (hi.shows (hp.requests ▸ hacc)).syncCurrentName

theorem Presents.calm (hp : Presents k url w) (hc : Calm w w') : Presents k url w' := by
  have hd := hc.history hp.sound.inv
  exact ⟨hp.sound.sheds hd, fun entry heq => (hp.traversal entry (hc.traversal ▸ heq)).sheds hd,
    hp.shows.sheds hd⟩

theorem Aims.calm {step : Nat} (ha : Aims step w) (hi : w.tab.history.Inv) (hc : Calm w w') :
    Aims step w' := by
  have hd := hc.history hi
  refine ⟨hd.nextEntry.symm ▸ ha.lt, fun hacc => ?_⟩
  rw [hc.documentUrl]
  exact (ha.shows (hacc.of_prefix hc.requests)).sheds hd

/-- A change that keeps the URL and what the main frame presents. -/
theorem TabInv.change (hi : TabInv k w) {t : Tab} (hs : t.history.Sound n)
    (hm : ∀ entry, t.traversal = some entry → t.history.Mine entry)
    (hu : t.documentUrl = w.tab.documentUrl)
    (hshow : w.tab.history.Shows w.tab.documentUrl → t.history.Shows w.tab.documentUrl) :
    TabInv n { w with tab := t } :=
  ⟨hs, hm, fun ha => hu ▸ hshow (hi.shows ha)⟩

theorem Presents.tabInv (hp : Presents k url w) {t : Tab} (hh : t.history = w.tab.history)
    (ht : t.traversal = w.tab.traversal) (hu : t.documentUrl = url) :
    TabInv k { w with tab := t } :=
  ⟨hh ▸ hp.sound, fun entry heq => hh ▸ hp.traversal entry (ht ▸ heq), fun _ => hh ▸ hu ▸ hp.shows⟩

namespace TabM

/-- The function keeps the invariant and moves the counters by at most `n`. -/
def Keeps (n : Nat) (m : TabM me α) : Prop :=
  ∀ k w, TabInv k w → k + n < u64Max → wp m (fun _ => TabInv (k + n)) w

namespace Keeps
variable {m : TabM me α} {f : α → TabM me β} {n' : Nat}

theorem of_calm (hm : Stays Calm m) : Keeps 0 m := fun _ w hi _ => hi.calm (hm w)

theorem of_links (hm : Links m) : Keeps 0 m := of_calm hm.calm

theorem of_sees (hm : Sees m) : Keeps 0 m := of_links hm.links

theorem pure (a : α) : Keeps 0 (pure a : TabM me α) := fun _ _ hi _ => hi

theorem bind (hm : Keeps 0 m) (hf : ∀ a, Keeps n (f a)) : Keeps n (m >>= f) := by
  intro k w hi hk
  rw [wp_bind]
  exact wp_mono (hm k w hi (by omega)) fun a w' hi' => hf a k w' hi' hk

theorem andThen (hm : Keeps n m) (hf : ∀ a, Keeps 0 (f a)) : Keeps n (m >>= f) := by
  intro k w hi hk
  rw [wp_bind]
  exact wp_mono (hm k w hi hk) fun a w' hi' => hf a (k + n) w' hi' hk

theorem mono (hm : Keeps n m) (hn : n ≤ n') : Keeps n' m := by
  intro k w hi hk
  exact wp_mono (hm k w hi (by omega)) fun _ _ hi' => hi'.mono (by omega)

theorem ite {c : Prop} [Decidable c] {m' : TabM me α} (hm : Keeps n m) (hm' : Keeps n m') :
    Keeps n (if c then m else m') := by
  split_ifs
  · exact hm
  · exact hm'

end Keeps

/-- A change of the history that keeps what the main frame presents. -/
theorem keeps_modifyHistory {f : SessionHistory → SessionHistory}
    (hg : ∀ h, SessionHistory.Grows n h (f h))
    (hf : ∀ h k, h.Sound k → k + n < u64Max →
      (f h).Sound (k + n) ∧ ∀ url, h.Shows url → (f h).Shows url) :
    Keeps n (modifyHistory f : TabM me Unit) := by
  intro k w hi hk
  obtain ⟨hs, hshow⟩ := hf _ k hi.sound hk
  refine hi.change hs ?_ rfl (hshow _)
  intro entry heq
  exact (hi.traversal entry heq).grows (hg _)

theorem keeps_setTitle (frame : FrameId) (title : Text) :
    Keeps 0 (modifyHistory (·.setTitle frame title) : TabM me Unit) := by
  refine keeps_modifyHistory (fun _ => SessionHistory.Grows.setTitle) ?_
  intro h k hs _
  exact ⟨hs.setTitle, fun _ hshow => hshow.setTitle hs.inv⟩

theorem keeps_syncCurrentName (name : Option ContextName) :
    Keeps 0 (modifyHistory (·.syncCurrentName name) : TabM me Unit) := by
  refine keeps_modifyHistory (fun _ => SessionHistory.Grows.syncCurrentName) ?_
  intro h k hs _
  exact ⟨hs.syncCurrentName, fun _ hshow => hshow.syncCurrentName⟩

theorem keeps_syncOutgoingName : Keeps 0 (syncOutgoingName : TabM me Unit) :=
  (Keeps.of_sees (sees_reads _)).bind fun name => keeps_syncCurrentName name

theorem keeps_goto (spec : Text) : Keeps 0 (goto p spec : TabM me _) := by
  intro k w hi _
  unfold goto
  rw [wp_bind, wp_getTab]
  cases resolveUrl p spec w.tab.documentUrl with
  | error e => exact hi
  | ok url =>
    rw [wp_bind, wp_modifyTab, wp_pure]
    exact hi.change hi.sound (fun entry heq => absurd heq (by simp)) rfl id

theorem keeps_loadHtml : Keeps 0 (loadHtml p : TabM me _) := by
  have hevent (event : TabEvent) : Keeps 0 (recordEvent event : TabM me Unit) :=
    .of_sees (sees_recordEvent event)
  refine (Keeps.of_sees sees_getTab).bind fun t => ?_
  refine (Keeps.of_sees sees_currentTabState).bind fun state => Keeps.ite ?_ ?_
  · -- no renderer: the document is kept to be mounted later
    refine Keeps.bind (.of_calm (calm_modifyTab ?_ ?_ ?_)) fun _ => ?_
    · exact fun _ => rfl
    · exact fun _ => rfl
    · exact fun _ => rfl
    · refine (hevent _).bind fun _ => (hevent _).bind fun _ => ?_
      exact (keeps_setTitle _ _).bind fun _ => Keeps.pure _
  · refine (Keeps.of_links (links_mount _ _)).bind fun result => ?_
    cases result with
    | error e => exact Keeps.pure _
    | ok _ =>
      refine (Keeps.of_links links_documentTitle).bind fun title => ?_
      exact (keeps_setTitle _ _).bind fun _ => Keeps.pure _

/-! ### Commits -/

theorem url_commitOf (tab : Tab) (state : TabState) : (commitOf tab url state).url = url := by
  unfold commitOf
  split <;> rfl

/-- A traversal's commit is to the entry that was selected. -/
theorem traversal_of_commitOf {tab : Tab} {state : TabState} {entry : EntryId} {url' : Url}
    (heq : commitOf tab url state = .traverse entry url') : tab.traversal = some entry := by
  unfold commitOf at heq
  split at heq
  · rename_i entry' ht
    obtain ⟨rfl, -⟩ := Commit.traverse.inj heq
    exact ht
  · simp at heq

theorem calm_beginCommit (state : TabState) : Stays Calm (beginCommit state : TabM me _) :=
  (calm_critical _).bind fun _ => (calm_mark _).bind fun _ => Stays.pure _

theorem calm_abortCommit (names : CommitNames) : Stays Calm (abortCommit names : TabM me Unit) :=
  (calm_critical _).bind fun _ => calm_mark _

theorem calm_failCommit (previousCsp : SandboxFlags) : Stays Calm (failCommit previousCsp : TabM me _) := by
  refine (calm_critical _).bind fun _ => Stays.bind ?_ fun _ => Stays.pure _
  exact calm_modifyTab (fun _ => rfl) (fun _ => rfl) fun _ => rfl

theorem wp_finishCommit {h : SessionHistory} {settle : Bool → Bool} (hs : h.Sound k)
    (hshow : h.Shows url) (ht : w.tab.traversal = none) (hk : k < u64Max) :
    wp (finishCommit p url h settle) (fun _ => TabInv k) w := by
  unfold finishCommit advanceDocumentUrl
  rw [wp_bind, wp_modifyHistory, wp_bind, wp_modifyTab, wp_bind, wp_modifyTab]
  have hrest : Keeps 0 (do
      let title ← documentTitle p
      modifyHistory (·.setTitle FrameId.main title)
      return true : TabM me Bool) := by
    refine (Keeps.of_links links_documentTitle).bind fun title => ?_
    exact (keeps_setTitle _ title).bind fun _ => Keeps.pure _
  refine hrest k _ ⟨hs, ?_, fun _ => hshow⟩ hk
  intro entry heq
  exact absurd (ht.symm.trans heq) (by simp)

theorem keeps_commitDocument {csp : SandboxFlags}
    {mountAt : Site → Mount → TabM me (Except TabError Unit)}
    (hm : ∀ site m, Links (mountAt site m)) (settle : Bool → Bool) :
    Keeps 1 (commitDocument p url csp mountAt settle) := by
  intro k w hi hk
  refine wp_mono commitDocument_outcome fun ok w' ho => ?_
  cases ho with
  | rejected w₁ state prepared refused =>
    exact ((hi.prepared prepared).calm (calm_failCommit _ w₁)).mono (Nat.le_succ k)
  | failed w₁ w₂ w₃ state names m e prepared begun mounted =>
    have hc₂ : Calm w₁ w₂ := (calm_beginCommit state).of_run begun
    have hc₃ : Calm w₂ w₃ := (hm _ m).calm.of_run mounted
    have hc₄ := (calm_abortCommit names).bind (fun _ => calm_failCommit (w.tabs.mainCsp me)) w₃
    exact ((hi.prepared prepared).calm (hc₂.trans (hc₃.trans hc₄))).mono (Nat.le_succ k)
  | done w₁ w₂ w₃ state names m prepared begun mounted agreed =>
    have hi₁ := hi.prepared prepared
    have hc₂ : Calm w₁ w₂ := (calm_beginCommit state).of_run begun
    have hc₃ : Calm w₂ w₃ := (hm _ m).calm.of_run mounted
    obtain ⟨name, ht⟩ := prepared.tab
    have hshow := SessionHistory.shows_commit hi₁.sound.inv (fun entry url' heq => ?_) agreed
    · rw [url_commitOf] at hshow
      refine wp_finishCommit (hi₁.sound.commit hk) hshow ?_ hk
      rw [hc₃.traversal, hc₂.traversal, ht]
    · rw [ht]
      exact (hi.traversal entry (traversal_of_commitOf heq)).grows (n := 0)
        SessionHistory.Grows.syncCurrentName

theorem keeps_commitNavigation (outcome : NavOutcome) :
    Keeps 1 (commitNavigation p outcome : TabM me Bool) :=
  keeps_commitDocument (fun _ _ => links_mountStream _ _ _) _

theorem keeps_commitDataNavigation : Keeps 1 (commitDataNavigation p url : TabM me Bool) := by
  unfold commitDataNavigation
  split
  · refine Keeps.bind (.of_calm (calm_modifyTab ?_ ?_ ?_)) fun _ => (Keeps.pure _).mono (Nat.zero_le 1)
    all_goals exact fun _ => rfl
  · exact keeps_commitDocument (fun _ _ => links_mount _ _) _

theorem keeps_dataNavigation : Keeps 1 (dataNavigation p : TabM me Unit) := by
  refine Keeps.bind (.of_links ?_) fun taken => ?_
  · refine sees_getTab.links.bind fun t => ?_
    split
    · refine Stays.ite (Stays.bind ?_ fun _ => Stays.pure _) (Stays.pure _)
      exact links_modifyTab (fun _ => rfl) (fun _ => rfl) fun _ => .inl rfl
    · exact Stays.pure _
  · cases taken with
    | none => exact (Keeps.pure _).mono (Nat.zero_le 1)
    | some url => exact keeps_commitDataNavigation.andThen fun _ => .of_sees (sees_recordEvent _)

theorem keeps_handleNavigation (epoch : Nat) (result : Option NavOutcome) :
    Keeps 1 (handleNavigation p epoch result : TabM me Unit) := by
  refine Keeps.bind (.of_sees sees_getTab) fun t => ?_
  refine Keeps.ite (Keeps.bind (.of_calm (calm_modifyTab ?_ ?_ ?_)) fun _ => ?_)
    ((Keeps.pure _).mono (Nat.zero_le 1))
  · exact fun _ => rfl
  · exact fun _ => rfl
  · exact fun _ => rfl
  · cases result with
    | some outcome =>
      exact (keeps_commitNavigation outcome).andThen fun _ => .of_sees (sees_recordEvent _)
    | none =>
      refine Keeps.mono (Keeps.bind ?_ fun _ => .of_sees (sees_recordEvent _)) (Nat.zero_le 1)
      exact fun k w hi _ => hi.change hi.sound (fun entry heq => absurd heq (by simp)) rfl id

/-! ### Traversals -/

open SessionHistory in
theorem moveOf_main_none {h : SessionHistory} (hi : h.Inv) {step : Nat} (hs : h.Shows url)
    (hm : moveOf h step FrameId.main = none) : h.ShowsAt step url := by
  obtain ⟨e, ha, hurl⟩ := hs
  obtain ⟨e', ha'⟩ := exists_activeMainAt hi step
  unfold moveOf at hm
  rw [ha'.activeEntryAt hi, ha.activeEntryAt hi] at hm
  dsimp only at hm
  split_ifs at hm with heq
  have hid : h.locate e.id = h.locate e'.id := by rw [Option.some.inj heq]
  rw [locate_of_mem hi ha.mem.1, locate_of_mem hi ha'.mem.1] at hid
  exact ⟨e', ha', Option.some.inj hid ▸ hurl⟩

open SessionHistory in
/-- The entry the main frame moves to is its own. -/
theorem moveOf_main_some {h : SessionHistory} (hi : h.Inv) {step : Nat} {entry : EntryId}
    {same : Bool} (hm : moveOf h step FrameId.main = some (entry, same)) :
    ∃ e, h.ActiveMainAt step e ∧ e.id = entry ∧ h.entryUrl entry = some e.url := by
  obtain ⟨e, ha⟩ := exists_activeMainAt hi step
  unfold moveOf at hm
  rw [ha.activeEntryAt hi] at hm
  dsimp only at hm
  split_ifs at hm
  obtain ⟨rfl, -⟩ := Prod.mk.inj (Option.some.inj hm)
  refine ⟨e, ha, rfl, ?_⟩
  rw [SessionHistory.entryUrl, locate_of_mem hi ha.mem.1, Option.map_some]

theorem main_mem_frameOrder {h : SessionHistory} (hi : h.Inv) : FrameId.main ∈ p.frameOrder h := by
  rw [(p.frameOrder_perm h).mem_iff, Dict.mem_keys_iff]
  obtain ⟨ms, hms⟩ := hi.slots.main
  exact ⟨_, hms.ids⟩

theorem wp_gotoEntry {entry : EntryId} (hi : TabInv k w) (hm : w.tab.history.Mine entry) :
    wp (gotoEntry p url entry) (fun _ => TabInv k) w := by
  unfold gotoEntry goto
  simp only [wp_bind, wp_getTab]
  cases resolveUrl p url.asStr w.tab.documentUrl with
  | error e => exact hi
  | ok url =>
    simp only [wp_bind, wp_modifyTab, wp_pure]
    refine hi.change hi.sound (fun entry' heq => ?_) rfl id
    exact Option.some.inj heq ▸ hm

theorem wp_rendererRequest (command : RendererCommand) :
    wp (rendererRequest p command) (fun result w' => Calm w w' ∧ (command, result) ∈ w'.requests) w :=
  ⟨(links_rendererRequest command).calm w, List.mem_append_right _ (List.mem_singleton_self _)⟩

/-- The main frame follows a same-document traversal that the renderer accepts. -/
theorem wp_traverseMainSameDocument {step : Nat} {e : Entry} {history : RendererHistorySnapshot}
    (hi : TabInv k w) (hlt : step < w.tab.history.nextEntry)
    (ha : w.tab.history.ActiveMainAt step e) :
    wp (traverseMainSameDocument p e.id e.url history)
      (fun _ w' => TabInv k w' ∧ Aims step w') w := by
  unfold traverseMainSameDocument
  rw [wp_bind]
  refine wp_mono (wp_rendererRequest _) fun result w' ⟨hc, hlog⟩ => ?_
  have hi' := hi.calm hc
  have hd := hc.history hi.sound.inv
  have ha' := ha.congr hd.atMain
  have hlt' : step < w'.tab.history.nextEntry := hd.nextEntry.symm ▸ hlt
  split
  · -- accepted: the history and the URL move together
    rw [wp_bind, wp_getTab]
    have hloc := SessionHistory.locate_of_mem hi'.sound.inv ha'.mem.1
    have hmove : w'.tab.history.traverseSameDocument e.id =
        (true, w'.tab.history.setCurrentStep e.step) := by
      unfold SessionHistory.traverseSameDocument
      rw [hloc]
      rfl
    rw [hmove]
    simp only [wp_bind, wp_modifyHistory, wp_modifyTab, if_true]
    refine wp_mono (Stays.wp (sees_recordEvent _).links.calm _) fun _ w'' hc'' => ?_
    have hs := hi'.sound.setStep (hi'.sound.inv.step_lt ha'.mem.1)
    have hshow : (w'.tab.history.setCurrentStep e.step).Shows e.url :=
      ⟨e, SessionHistory.ActiveMainAt.of_step ha'.mem rfl, rfl⟩
    refine ⟨TabInv.calm ?_ hc'', Aims.calm ?_ ?_ hc''⟩
    · exact ⟨hs, hi'.traversal, fun _ => hshow⟩
    · exact ⟨hlt', fun _ => SessionHistory.ShowsAt.setCurrentStep ⟨e, ha', rfl⟩ e.step⟩
    · exact hs.inv
  · -- refused: the run has left the hypothesis
    refine ⟨hi', hlt', fun hacc => absurd (hacc _ hlog) ?_⟩
    simp [traversalAccepted]

theorem keeps_finishTraversal {step : Nat} (hi : TabInv k w) (ha : Aims step w) :
    wp (finishTraversal p step) (fun _ => TabInv k) w := by
  unfold finishTraversal
  rw [wp_bind, wp_modifyHistory, wp_bind]
  refine wp_mono (Stays.wp links_syncHistories.calm _) fun _ w' hc => ?_
  refine TabInv.calm ?_ hc
  exact ⟨hi.sound.setStep ha.lt, hi.traversal, fun hacc => (ha.shows hacc).setCurrentStep step⟩

/-- What follows the main frame's part of a step. -/
theorem wp_moveChildren {step : Nat} (moves : List (FrameId × EntryId × Bool)) (hi : TabInv k w)
    (ha : Aims step w) : wp (moveChildren p moves) (fun _ w' => TabInv k w' ∧ Aims step w') w :=
  ⟨hi.calm (calm_moveChildren moves w), ha.calm hi.sound.inv (calm_moveChildren moves w)⟩

theorem keeps_traverseTo {step : Nat} (hi : TabInv k w) (hlt : step < w.tab.history.nextEntry) :
    wp (traverseTo p step) (fun _ => TabInv k) w := by
  unfold traverseTo
  simp only [wp_bind, wp_getTab]
  rw [if_pos (main_mem_frameOrder hi.sound.inv)]
  split
  · rename_i hmove
    have ha : Aims step w := ⟨hlt, fun hacc => moveOf_main_none hi.sound.inv (hi.shows hacc) hmove⟩
    rw [wp_bind]
    exact wp_mono (wp_moveChildren _ hi ha) fun _ w' ⟨hi', ha'⟩ => keeps_finishTraversal hi' ha'
  · rename_i entry same hmove
    obtain ⟨e, ha, rfl, hurl⟩ := moveOf_main_some hi.sound.inv hmove
    rw [hurl]
    dsimp only
    split_ifs
    · split
      · exact hi
      · rw [wp_bind]
        refine wp_mono (wp_traverseMainSameDocument hi hlt ha) fun _ w' ⟨hi', ha'⟩ => ?_
        rw [wp_bind]
        exact wp_mono (wp_moveChildren _ hi' ha') fun _ w'' ⟨hi'', ha''⟩ =>
          keeps_finishTraversal hi'' ha''
    · rw [wp_bind]
      refine wp_mono (wp_gotoEntry hi (ha.mem.mine hi.sound.inv)) fun _ w' hi' => ?_
      exact hi'.calm (calm_moveChildren _ w')

theorem keeps_reloadFrame (frame : FrameId) : Keeps 0 (reloadFrame p frame : TabM me Unit) := by
  intro k w hi hk
  unfold reloadFrame
  rw [wp_bind, wp_getTab, wp_ite]
  split_ifs
  · obtain ⟨e, ha⟩ := SessionHistory.exists_activeMainAt hi.sound.inv w.tab.history.currentStep
    have hcur : w.tab.history.currentEntry = e.id := by
      rw [SessionHistory.currentEntry, SessionHistory.activeEntry, ha.activeEntryAt hi.sound.inv,
        Option.getD_some]
    rw [hcur]
    exact wp_gotoEntry hi (ha.mem.mine hi.sound.inv)
  · split
    · exact hi.calm (calm_traverseFrame _ _ _ _ w)
    · exact hi

theorem keeps_syncCallerName (caller : FrameId) : Keeps 0 (syncCallerName caller : TabM me Unit) :=
  Keeps.ite keeps_syncOutgoingName (Keeps.pure _)

theorem keeps_traverse (step : HistoryStep) (caller : FrameId) :
    Keeps 0 (traverse p step caller : TabM me _) := by
  refine (keeps_syncCallerName caller).bind fun _ => ?_
  refine Keeps.ite ((keeps_reloadFrame caller).bind fun _ => Keeps.pure _) fun k w hi _ => ?_
  rw [wp_bind, wp_getTab]
  split
  · exact hi
  · rename_i target htarget
    obtain ⟨e, he, rfl⟩ := SessionHistory.targetStep_used htarget
    exact keeps_traverseTo hi (hi.sound.inv.step_lt he)

/-! ### Renderer events -/

theorem wp_updateMain {state : Text} {handling : HistoryHandling} (hi : TabInv k w)
    (hk : k + 1 < u64Max) (frame : FrameId) :
    wp (do modifyHistory (·.update frame url state handling); showUpdate frame url)
      (fun _ => TabInv (k + 1)) w := by
  have hs : (w.tab.history.update frame url state handling).Sound (k + 1) := hi.sound.update hk
  have hmine : ∀ entry, w.tab.traversal = some entry →
      (w.tab.history.update frame url state handling).Mine entry :=
    fun entry heq => (hi.traversal entry heq).grows SessionHistory.Grows.update
  rw [wp_bind, wp_modifyHistory]
  unfold showUpdate
  split_ifs with hf
  · subst hf
    rw [wp_bind, wp_modifyTab]
    refine TabInv.calm ?_ ((sees_recordEvent .sameDocumentNavigation).links.calm _)
    exact ⟨hs, hmine, fun _ => SessionHistory.shows_update hi.sound.inv⟩
  · exact hi.change hs hmine rfl fun hshow => hshow.update hi.sound.inv hf
      (hi.sound.fits SessionHistory.Grows.update hk)

theorem keeps_applyHistoryUpdate (frame : FrameId) (url state : Text) (handling : HistoryHandling) :
    Keeps 1 (applyHistoryUpdate p frame url state handling : TabM me Unit) := by
  intro k w hi hk
  unfold applyHistoryUpdate
  cases p.crates.urlParse url with
  | none => exact hi.mono (Nat.le_succ k)
  | some url =>
    dsimp only
    rw [wp_bind, wp_getTab, wp_ite]
    generalize Option.any _ _ = expected
    cases expected with
    | false => exact hi.mono (Nat.le_succ k)
    | true => exact (wp_updateMain hi hk frame).calm (links_syncHistories.calm _)

theorem keeps_navigatedMain (outgoingName : Option ContextName) :
    Keeps 1 (navigatedMain p url outgoingName : TabM me Unit) := by
  refine (keeps_syncCurrentName outgoingName).bind fun _ => Keeps.bind (.of_sees (sees_reads _))
    fun name k w hi hk => ?_
  rw [wp_bind, wp_modifyHistory, wp_bind]
  refine wp_mono (Stays.wp (calm_critical _) _) fun _ w' hc => ?_
  have hp : Presents (k + 1) url w' := by
    refine Presents.calm ?_ hc
    exact ⟨hi.sound.commit hk, fun entry heq =>
      (hi.traversal entry heq).grows SessionHistory.Grows.commit, SessionHistory.shows_pushStep⟩
  unfold advanceDocumentUrl
  rw [wp_bind, wp_modifyTab, wp_bind, wp_modifyTab]
  exact ((Keeps.of_links links_syncHistories).bind fun _ => .of_sees (sees_recordEvent _))
    (k + 1) _ (hp.tabInv rfl rfl rfl) hk

theorem links_handleLoad : Links (handleLoad p : TabM me Unit) := by
  refine sees_getTab.links.bind fun t => links_rendererDocumentState.bind fun state => ?_
  split
  · exact Stays.pure _
  · refine Stays.ite (Stays.bind ?_ fun _ => (sees_recordEvent _).links) (Stays.pure _)
    exact links_modifyTab (fun _ => rfl) (fun _ => rfl) fun _ => .inl rfl

theorem keeps_sync {f : SessionHistory → SessionHistory}
    (hf : Keeps n (modifyHistory f : TabM me Unit)) :
    Keeps n (do modifyHistory f; syncHistories p : TabM me Unit) :=
  hf.andThen fun _ => .of_links links_syncHistories

theorem keeps_handleRendererEvent (frame : FrameId) (event : BrowserEvent) :
    Keeps 2 (handleRendererEvent p frame event : TabM me Unit) := by
  cases event with
  | load => exact (Keeps.ite (.of_links links_handleLoad) (Keeps.pure _)).mono (by omega)
  | domContentLoaded =>
    exact (Keeps.ite (.of_sees (sees_recordEvent _)) (Keeps.pure _)).mono (by omega)
  | navigated url outgoingName =>
    simp only [handleRendererEvent]
    cases p.crates.urlParse url with
    | none => exact (Keeps.pure _).mono (by omega)
    | some url =>
      refine Keeps.mono (n := 1) ?_ (Nat.le_succ 1)
      dsimp only
      by_cases hf : frame = FrameId.main
      · rw [if_pos hf]
        exact keeps_navigatedMain outgoingName
      · rw [if_neg hf]
        refine keeps_sync (keeps_modifyHistory ?_ ?_)
        · exact fun _ => SessionHistory.Grows.commitUrl
        · exact fun h k hs hk => ⟨hs.commitUrl hk, fun _ hshow => hshow.commitUrl hs hf⟩
  | navigationStarted url replace localIndex pending =>
    simp only [handleRendererEvent]
    cases p.crates.urlParse url with
    | none => exact (Keeps.pure _).mono (by omega)
    | some url =>
      refine Keeps.andThen (keeps_modifyHistory ?_ ?_) fun _ =>
        Keeps.ite (Keeps.pure _) (.of_links links_syncHistories)
      · exact fun _ => SessionHistory.Grows.begin
      · exact fun h k hs hk => ⟨hs.begin hk, fun _ hshow => hshow.begin hs (by omega)⟩
  | frameAdded url =>
    refine (keeps_sync (keeps_modifyHistory ?_ ?_)).mono (Nat.le_succ 1)
    · exact fun _ => SessionHistory.Grows.addFrame
    · exact fun h k hs hk => ⟨hs.addFrame hk, fun _ hshow => hshow.addFrame hs.inv⟩
  | frameRemoved =>
    refine (keeps_sync (.of_calm fun w => ⟨rfl, rfl, fun hi => ?_, List.prefix_rfl⟩)).mono (by omega)
    exact SessionHistory.Sheds.removeFrame hi frame
  | historyUpdated url state handling =>
    exact (keeps_applyHistoryUpdate frame url state handling).mono (Nat.le_succ 1)
  | historyTraversal delta =>
    exact ((keeps_traverse _ frame).bind fun _ => Keeps.pure _).mono (by omega)

end TabM

/-! ### Runs -/

open TabM in
theorem keeps_perform (op : TabOp) : Keeps 2 (World.perform p op : TabM me Unit) := by
  cases op with
  | goto spec => exact (keeps_goto spec).mono (by omega)
  | loadHtml => exact keeps_loadHtml.mono (by omega)
  | documentTitle => exact (Keeps.of_links links_documentTitle).mono (by omega)
  | request command => exact (Keeps.of_links (links_rendererRequest _)).mono (by omega)
  | traverseHistory step => exact (keeps_traverse step FrameId.main).mono (by omega)
  | dataNavigation => exact keeps_dataNavigation.mono (by omega)
  | launchNavigation =>
    refine (Keeps.of_calm (calm_modifyTab ?_ ?_ ?_)).mono (Nat.zero_le 2)
    all_goals exact fun _ => rfl
  | navigation epoch result => exact (keeps_handleNavigation epoch result).mono (by omega)
  | rendererEvent frame event => exact keeps_handleRendererEvent frame event
  | rendererLost => exact (Keeps.of_links links_dropRenderer).mono (by omega)

theorem TabInv.step (hi : TabInv k w) (hk : k + 2 < u64Max) (op : TabOp) :
    TabInv (k + 2) (w.step p op) := keeps_perform op k w hi hk

theorem TabInv.run (hi : TabInv k w) (p : Platform) (ops : List TabOp)
    (hk : k + 2 * ops.length < u64Max) : TabInv (k + 2 * ops.length) (w.run p ops) := by
  induction ops generalizing k w with
  | nil => exact hi
  | cons op ops ih =>
    rw [List.length_cons] at hk ⊢
    rw [show k + 2 * (ops.length + 1) = k + 2 + 2 * ops.length by omega] at hk ⊢
    exact ih (hi.step (by omega) op) hk

theorem TabInv.new (tabs : TabRegistry) (documentOrigin : Origin) (popupSandbox : SandboxFlags)
    (secureContext : Option Bool) (script : List (Turn me)) :
    TabInv 1 (World.new tabs documentOrigin popupSandbox secureContext script) := by
  refine ⟨SessionHistory.Sound.new _ _, fun entry heq => absurd heq (by simp [World.new]), fun _ => ?_⟩
  obtain ⟨e, ha⟩ := SessionHistory.exists_activeMainAt
    (SessionHistory.Inv.new TabM.aboutBlank (tabs.name me)) 0
  refine ⟨e, ha, ?_⟩
  have hmem : e ∈ [_] := ha.mem.1
  rw [List.mem_singleton.1 hmem]
  rfl

/-- The tab's URL is that of the main frame's active entry. -/
def Agrees (w : World me) : Prop :=
  (w.tab.history.activeEntry FrameId.main).bind w.tab.history.entryUrl = some w.tab.documentUrl

/-- In a run of fewer than `2 ^ 63 - 1` operations in which the renderer accepts each same-document
traversal of the main frame, the URL and the history agree after every operation. -/
theorem World.agrees_run (p : Platform) (tabs : TabRegistry) (documentOrigin : Origin)
    (popupSandbox : SandboxFlags) (secureContext : Option Bool) (script : List (Turn me))
    {ops : List TabOp} (hlen : ops.length < 2 ^ 63 - 1)
    (hacc : TraversalsAccepted
      ((World.new tabs documentOrigin popupSandbox secureContext script).run p ops).requests) :
    Agrees ((World.new tabs documentOrigin popupSandbox secureContext script).run p ops) := by
  have hi := (TabInv.new tabs documentOrigin popupSandbox secureContext script).run p ops
    (by rw [u64Max]; omega)
  exact (hi.shows hacc).entryUrl hi.sound.inv

/-- The tab's history is one that a run of fewer than `2 ^ 63 - 1` operations leaves. -/
def World.Reached (p : Platform) (w : World me) : Prop :=
  ∃ tabs documentOrigin popupSandbox secureContext script, ∃ ops : List TabOp,
    ops.length < 2 ^ 63 - 1 ∧ w.tab.history =
      ((World.new tabs documentOrigin popupSandbox secureContext script : World me).run p ops).tab.history

theorem World.Reached.sound (hr : w.Reached p) :
    ∃ k, w.tab.history.Sound k ∧ k + 1 < u64Max := by
  obtain ⟨tabs, documentOrigin, popupSandbox, secureContext, script, ops, hlen, heq⟩ := hr
  have hi := (TabInv.new tabs documentOrigin popupSandbox secureContext script).run p ops
    (by rw [u64Max]; omega)
  exact ⟨_, heq ▸ hi.sound, by rw [u64Max]; omega⟩

/-- The first `n` turns are answered with success, those at `titles` with a title, and the next as
given. -/
def sampleScript (n : Nat) (titles : List Nat) (answer : Except TabError Reply) : List (Turn 1) :=
  (List.range n).map (fun i => ⟨[], .ok (if i ∈ titles then .value (.ok (.string "A".toList))
    else .unit (.ok ()))⟩) ++ [⟨[], answer⟩]

def World.sample (script : List (Turn 1)) : World 1 :=
  World.new (TabRegistry.new.insert 1) (.opaqueOrigin 0) .empty none script

theorem World.reached_sample (p : Platform) (script : List (Turn 1)) {ops : List TabOp}
    (hlen : ops.length < 2 ^ 63 - 1) : ((World.sample script).run p ops).Reached p :=
  ⟨TabRegistry.new.insert 1, .opaqueOrigin 0, .empty, none, script, ops, hlen, rfl⟩

/-- A run that goes to a page, lets it push a state, and goes back. -/
def backOps : List TabOp :=
  [.goto (Url.page "example.com".toList "a".toList).asStr, .launchNavigation,
    .navigation 1 (some ⟨Url.page "example.com".toList "a".toList, .empty, .finished⟩),
    .rendererEvent FrameId.main
      (.historyUpdated (Url.page "example.com".toList "b".toList).asStr [] .push),
    .traverseHistory (.delta (-1))]

/-- The tab after `backOps`, when the renderer answers the traversal as given. -/
def World.back (answer : Except TabError Reply) : World 1 :=
  (World.sample (sampleScript 17 [12] answer)).run Platform.sample backOps

theorem World.agrees_run_back : TraversalsAccepted (World.back (.ok (.unit (.ok ())))).requests ∧
    Agrees (World.back (.ok (.unit (.ok ())))) := by
  have hacc : TraversalsAccepted (World.back (.ok (.unit (.ok ())))).requests := by decide +kernel
  exact ⟨hacc, World.agrees_run Platform.sample _ _ _ _ _ (by decide) hacc⟩

/-- The renderer refuses to go back: the step moves all the same, and the URL stays. -/
theorem World.not_agrees_refused :
    ¬ Agrees (World.back (.ok (.unit (.error (.script []))))) := by
  unfold Agrees
  decide +kernel

end TinyBrowser
