import TinyBrowser.Tab.Agree

/-!
# Child history across a change of renderers

A commit prepares the history on a copy and mounts the document; a change of renderers drops the
child frames from the tab's own history only, and the copy then replaces it. So the history is the
main frame's alone after a commit when it was before, or when the renderer is lost again in the last
request of the commit, for the title.
-/

namespace TinyBrowser
open Lib

/-! ### Histories of one frame -/

namespace SessionHistory
variable {h : SessionHistory} {f : FrameId} {url : Url} {k : Nat}

/-- The history is the main frame's: a new frame gets a blank entry under a new id, and the length
counts the main frame's entries. -/
structure CoversMain (h : SessionHistory) : Prop where
  only : h.OnlyMain
  fresh : ∀ f url, f ≠ FrameId.main → (h.addFrame f url none).activeEntry f = some h.nextEntry ∧
    (h.addFrame f url none).locate h.nextEntry =
      some ⟨h.nextEntry, h.currentStep, 0, url, [], none, h.nextDocument⟩
  length : h.rendererSnapshot.length = h.mainEntries.length

theorem addFrame_eq (hf : f ≠ FrameId.main) (hno : f ∉ h.frames.keys) :
    h.addFrame f url none = (h.insertEntry f h.currentStep 0 url none none).2 := by
  refine if_neg ?_
  rw [Bool.or_eq_true, decide_eq_true_eq, Dict.contains_iff, not_or]
  exact ⟨hf, hno⟩

theorem activeEntry_addFrame (hf : f ≠ FrameId.main) (hno : f ∉ h.frames.keys) :
    (h.addFrame f url none).activeEntry f = some h.nextEntry := by
  have hids : (h.addFrame f url none).frames.get? f = some [h.nextEntry] := by
    rw [addFrame_eq hf hno, frames_insertEntry, Dict.get?_insert, if_pos rfl,
      (Dict.get?_eq_none_iff _ _).2 hno]
    rfl
  unfold activeEntry activeEntryAt
  rw [hids, Option.bind_some, List.reverse_singleton, List.find?_singleton]
  split_ifs <;> rfl

theorem locate_addFrame (hi : h.Inv) (hf : f ≠ FrameId.main) (hno : f ∉ h.frames.keys) :
    (h.addFrame f url none).locate h.nextEntry =
      some ⟨h.nextEntry, h.currentStep, 0, url, [], none, h.nextDocument⟩ := by
  have hold : h.entries.find? (·.id = h.nextEntry) = none := by
    rw [List.find?_eq_none]
    intro e he
    simpa using Nat.ne_of_lt (hi.id_lt he)
  rw [addFrame_eq hf hno, locate, entries_insertEntry, List.find?_append, hold, Option.none_or,
    List.find?_singleton]
  simp

theorem OnlyMain.atMain (ho : h.OnlyMain) (hi : h.Inv) {e : Entry} (he : e ∈ h.entries) :
    h.AtMain e := by
  obtain ⟨f, ids, hids, hid⟩ := hi.slots.covered e.slot (slot_mem he)
  have hf : f = FrameId.main := ho f ((Dict.mem_keys_iff _ _).2 ⟨ids, hids⟩)
  exact ⟨he, mem_idsOf.2 ⟨ids, hf ▸ hids, hid⟩⟩

theorem OnlyMain.length (ho : h.OnlyMain) (hi : h.Inv) :
    h.rendererSnapshot.length = h.mainEntries.length := by
  have hnodup : (h.mainEntries.map Entry.step).Nodup :=
    hi.mainEntries.sorted.imp fun hlt => Nat.ne_of_lt hlt
  have hperm : h.usedSteps.Perm (h.mainEntries.map Entry.step) := by
    refine (List.perm_ext_iff_of_nodup (List.nodup_dedup _) hnodup).2 fun step => ?_
    rw [← usedSteps, mem_usedSteps, List.mem_map]
    constructor
    · rintro ⟨e, he, rfl⟩
      exact ⟨e, (mem_mainEntries hi).2 (ho.atMain hi he), rfl⟩
    · rintro ⟨e, he, rfl⟩
      exact ⟨e, ((mem_mainEntries hi).1 he).1, rfl⟩
  have hlen := hperm.length_eq
  rwa [List.length_map] at hlen

theorem OnlyMain.coversMain (ho : h.OnlyMain) (hi : h.Inv) : h.CoversMain := by
  refine ⟨ho, ?_, ho.length hi⟩
  intro f url hf
  have hno : f ∉ h.frames.keys := fun hmem => hf (ho f hmem)
  exact ⟨activeEntry_addFrame hf hno, locate_addFrame hi hf hno⟩

theorem onlyMain_syncCurrentName {name : Option ContextName} :
    (h.syncCurrentName name).OnlyMain ↔ h.OnlyMain := by
  unfold OnlyMain SessionHistory.syncCurrentName
  split
  · rfl
  · cases name <;> rfl

theorem onlyMain_setTitle {title : Text} : (h.setTitle f title).OnlyMain ↔ h.OnlyMain := by
  unfold OnlyMain SessionHistory.setTitle
  split <;> rfl

theorem onlyMain_commit {c : Commit} : (h.commit c).2.OnlyMain ↔ h.OnlyMain := by
  cases c with
  | push url name =>
    have hkeys : ∀ f, f ∈ (h.commit (.push url name)).2.frames.keys ↔
        f = FrameId.main ∨ f ∈ h.frames.keys := by
      intro f
      show f ∈ (h.pushStep FrameId.main (·.frameLen FrameId.main) url name none).2.frames.keys ↔ _
      rw [frames_pushStep, Dict.mem_keys_insert]
      show _ ∨ f ∈ (h.frames.mapVal _).keys ↔ _
      rw [Dict.keys_mapVal]
    unfold OnlyMain
    constructor
    · intro ho f hf
      exact ho f ((hkeys f).2 (.inr hf))
    · intro ho f hf
      rcases (hkeys f).1 hf with hmain | hold
      · exact hmain
      · exact ho f hold
  | traverse id url =>
    rw [commit_traverse]
    split
    · rfl
    · unfold OnlyMain
      rw [frames_redocument]

end SessionHistory

variable {me : TabId} {p : Platform} {w w' : World me}

namespace TabM

/-! ### A mounted document has a renderer -/

theorem renderer_prepareMount (site : Site) :
    wp (prepareMount site) (fun r w' => r = .ok () → w'.tab.renderer = true) w := by
  unfold prepareMount
  rw [wp_bind]
  refine wp_mono (Q := fun _ _ => True) trivial fun r w₁ _ => ?_
  cases r with
  | error e =>
    intro hok
    simp at hok
  | ok _ =>
    simp only [wp_bind, wp_modifyTab, wp_getTab, wp_pure]
    intro h
    by_contra hr
    simp [hr] at h

theorem tab_dropOnError (result : Except TabError Unit) :
    wp (dropOnError result) (fun r w' => r = .ok () → w'.tab = w.tab) w := by
  cases result with
  | error e =>
    intro hok
    simp [dropOnError] at hok
  | ok _ => exact fun _ => rfl

theorem renderer_mount (site : Site) (m : Mount) :
    wp (mount site m) (fun r w' => r = .ok () → w'.tab.renderer = true) w := by
  unfold mount
  rw [wp_bind]
  refine wp_mono (renderer_prepareMount site) fun r w₁ hw₁ => ?_
  cases r with
  | error e =>
    intro hok
    simp at hok
  | ok _ =>
    rw [wp_bind]
    refine wp_mono (Stays.wp (sees_sendMount m) w₁) fun result w₂ hw₂ => ?_
    refine wp_mono (tab_dropOnError _) fun r w₃ hw₃ hok => ?_
    rw [hw₃ hok, hw₂.tab]
    exact hw₁ rfl

/-- A body that is streamed to its end leaves the tab alone. -/
theorem tab_streamBody (body : Body) (received : Nat) :
    wp (streamBody body received) (fun r w' => r = .ok () → w'.tab = w.tab) w := by
  induction body generalizing received w with
  | chunk len rest ih =>
    unfold streamBody
    rw [wp_bind]
    refine wp_mono (Stays.wp sees_nextTurn w) fun _ w₁ hw₁ => ?_
    dsimp only
    rw [wp_ite]
    split_ifs
    · rw [wp_bind]
      intro hok
      simp [dropOnError] at hok
    · rw [wp_bind]
      refine wp_mono (Stays.wp (sees_writePieces _) w₁) fun result w₂ hw₂ => ?_
      cases result with
      | error e =>
        intro hok
        simp [dropOnError] at hok
      | ok _ =>
        refine wp_mono (ih _) fun r w₃ hw₃ hok => ?_
        rw [hw₃ hok, hw₂.tab, hw₁.tab]
  | finished =>
    unfold streamBody
    rw [wp_bind]
    refine wp_mono (Stays.wp sees_nextTurn w) fun _ w₁ hw₁ => ?_
    rw [wp_bind]
    refine wp_mono (Stays.wp sees_nextTurn w₁) fun result w₂ hw₂ => ?_
    refine wp_mono (tab_dropOnError _) fun r w₃ hw₃ hok => ?_
    rw [hw₃ hok, hw₂.tab, hw₁.tab]
  | failed message =>
    intro hok
    simp [streamBody, dropOnError] at hok

theorem renderer_mountStream (site : Site) (m : Mount) (body : Body) :
    wp (mountStream site m body) (fun r w' => r = .ok () → w'.tab.renderer = true) w := by
  unfold mountStream
  rw [wp_bind]
  refine wp_mono (renderer_prepareMount site) fun r w₁ hw₁ => ?_
  cases r with
  | error e =>
    intro hok
    simp at hok
  | ok _ =>
    rw [wp_bind]
    refine wp_mono (Stays.wp (sees_sendMount m) w₁) fun result w₂ hw₂ => ?_
    cases result with
    | error e =>
      intro hok
      simp at hok
    | ok _ =>
      refine wp_mono (tab_streamBody body 0) fun r w₃ hw₃ hok => ?_
      rw [hw₃ hok, hw₂.tab]
      exact hw₁ rfl

theorem renderer_mountAt (n : Navigation) (site : Site) (m : Mount) :
    wp (n.mountAt site m) (fun r w' => r = .ok () → w'.tab.renderer = true) w := by
  cases n with
  | response outcome => exact renderer_mountStream site m outcome.body
  | data url => exact renderer_mount site m

/-! ### The title -/

/-- The request for the title of a mounted document. -/
def titleRequest : RendererCommand :=
  .executeScript FrameId.main (.browser "String(document.title)".toList) none

theorem history_dropRenderer : wp dropRenderer
    (fun _ w' => w'.tab.history = w.tab.history.clearChildren) w := by
  unfold dropRenderer
  rw [wp_bind, wp_modifyTab, wp_bind]
  refine wp_mono (Stays.wp (sees_critical fun _ => rfl) _) fun _ w₁ hw₁ => ?_
  rw [wp_bind, wp_modifyHistory, wp_modifyTab]
  show w₁.tab.history.clearChildren = _
  rw [hw₁.tab]

/-- What a request to a renderer that is there leaves of the history. -/
def AfterRequest (h h' : SessionHistory) : Except TabError Reply → Prop
  | .ok _ => h' = h
  | .error _ => h' = h.clearChildren

theorem wp_rendererRequest_mounted (hr : w.tab.renderer = true) (command : RendererCommand) :
    wp (rendererRequest p command) (fun result w' =>
      w'.requests.getLast? = some (command, result) ∧
        AfterRequest w.tab.history w'.tab.history result) w := by
  unfold rendererRequest requireRenderer ensureMounted
  rw [wp_bind, wp_bind, wp_bind, wp_getTab, wp_ite, if_pos hr, wp_pure, wp_bind, wp_getTab, wp_pure,
    if_pos hr, wp_bind]
  unfold requestAnswer
  rw [wp_bind]
  refine wp_mono (Stays.wp sees_nextTurn w) fun answer w₁ hw₁ => ?_
  cases answer with
  | ok reply => exact ⟨List.getLast?_concat, by show w₁.tab.history = _; rw [hw₁.tab]⟩
  | error e =>
    unfold dropOnError
    rw [wp_bind]
    refine wp_mono history_dropRenderer fun _ w₂ hw₂ => ⟨List.getLast?_concat, ?_⟩
    show w₂.tab.history = _
    rw [hw₂, hw₁.tab]

theorem wp_documentTitle (hr : w.tab.renderer = true) : wp (documentTitle p)
    (fun _ w' => ∃ result, w'.requests.getLast? = some (titleRequest, result) ∧
      AfterRequest w.tab.history w'.tab.history result) w := by
  unfold documentTitle executeScript
  rw [wp_bind, wp_getTab, wp_ite, if_pos hr, wp_bind, wp_bind]
  refine wp_mono (wp_rendererRequest_mounted hr _) fun result w₁ hw₁ => ?_
  rw [wp_pure]
  split <;> exact ⟨result, hw₁⟩

/-! ### Commits -/

/-- The title request that ends the commit was not answered. -/
def TitleLost (w : World me) : Prop := ∃ e, w.requests.getLast? = some (titleRequest, .error e)

theorem AfterRequest.inv {h h' : SessionHistory} {result : Except TabError Reply}
    (ha : AfterRequest h h' result) (hi : h.Inv) : h'.Inv := by
  cases result with
  | ok _ => exact ha ▸ hi
  | error _ => exact ha ▸ hi.clearChildren

theorem onlyMain_finishCommit (url : Url) {h : SessionHistory} (settle : Bool → Bool)
    (hr : w.tab.renderer = true) (hi : h.Inv) : wp (finishCommit p url h settle)
    (fun _ w' => w'.tab.history.Inv ∧ (w'.tab.history.OnlyMain ↔ h.OnlyMain ∨ TitleLost w')) w := by
  unfold finishCommit advanceDocumentUrl
  rw [wp_bind, wp_modifyHistory, wp_bind, wp_modifyTab, wp_bind, wp_modifyTab, wp_bind]
  refine wp_mono (wp_documentTitle ?_) fun title w₁ ⟨result, hlast, hafter⟩ => ?_
  · exact hr
  rw [wp_bind, wp_modifyHistory, wp_pure, SessionHistory.onlyMain_setTitle]
  refine ⟨(hafter.inv hi).setTitle title, ?_⟩
  cases result with
  | ok reply =>
    have hsame : w₁.tab.history = h := hafter
    have hkept : ¬ TitleLost w₁ := by
      rintro ⟨e, he⟩
      simp [hlast] at he
    rw [hsame]
    exact ⟨.inl, fun h => h.resolve_right hkept⟩
  | error e =>
    have hclear : w₁.tab.history = h.clearChildren := hafter
    rw [hclear]
    exact ⟨fun _ => .inr ⟨e, hlast⟩, fun _ => h.onlyMain_clearChildren⟩

/-- A successful commit, whether or not it takes a new renderer, leaves the main frame's history
alone if it was so before, or if the renderer is lost before it tells the title; and only then. -/
theorem coversMain_commit_iff (n : Navigation) (hr : w.Reached p)
    (hok : ((n.commit p).run w).1 = true) :
    ((n.commit p).run w).2.tab.history.CoversMain ↔
      w.tab.history.OnlyMain ∨ TitleLost ((n.commit p).run w).2 := by
  obtain ⟨k, hs, hk⟩ := hr.sound
  have hcases := commit_outcome (p := p) (w := w) n
  rw [wp, hok] at hcases
  generalize ((n.commit p).run w).2 = w' at hcases ⊢
  rcases hcases with ⟨hfalse, -⟩ | ⟨settle, hout⟩
  · exact absurd hfalse (by simp)
  · cases hout with
    | done w₁ w₂ w₃ state names m prepared begun mounted agreed =>
      obtain ⟨name, ht⟩ := prepared.tab
      have hs₁ : w₁.tab.history.Sound k := by
        rw [ht]
        exact hs.syncCurrentName
      have hrenderer : w₃.tab.renderer = true := by
        have hmount := renderer_mountAt (w := w₂) n (siteOf p.crates me n.url) m
        rw [wp_of_run mounted] at hmount
        exact hmount rfl
      obtain ⟨hinv, honly⟩ := onlyMain_finishCommit (p := p) n.url settle hrenderer
        (hs₁.commit (c := commitOf w.tab n.url state) hk).inv
      have hbefore : w₁.tab.history.OnlyMain ↔ w.tab.history.OnlyMain := by
        rw [ht]
        exact SessionHistory.onlyMain_syncCurrentName
      rw [SessionHistory.onlyMain_commit, hbefore] at honly
      rw [← honly]
      exact ⟨fun hcovers => hcovers.only, fun ho => ho.coversMain hinv⟩

/-- Goes to a page of `example.com` that adds a child frame. -/
def framedOps : List TabOp :=
  [.goto (Url.page "example.com".toList "a".toList).asStr, .launchNavigation,
    .navigation 1 (some ⟨Url.page "example.com".toList "a".toList, .empty, .finished⟩),
    .rendererEvent 1 (.frameAdded (Url.page "example.com".toList "f".toList).asStr)]

def framed : World 1 :=
  (World.sample (sampleScript 40 [12, 28] (.error .actorStopped))).run Platform.sample framedOps

/-- A response of another site. -/
def elsewhere : Navigation :=
  .response ⟨Url.page "example.org".toList "b".toList, .empty, .finished⟩

theorem commit_elsewhere : ((elsewhere.commit Platform.sample).run framed).1 = true := by
  decide +kernel

theorem coversMain_commit_framed :
    ((elsewhere.commit Platform.sample).run framed).2.tab.history.CoversMain ↔
      framed.tab.history.OnlyMain ∨ TitleLost ((elsewhere.commit Platform.sample).run framed).2 :=
  coversMain_commit_iff elsewhere (World.reached_sample Platform.sample _ (by decide)) commit_elsewhere

/-- The commit of the response replaces the renderer, and the child frame of the old one stays. -/
theorem not_coversMain_framed :
    ((elsewhere.commit Platform.sample).run framed).1 = true ∧
      framed.tab.site ≠ some (siteOf Platform.sample.crates 1 elsewhere.url) ∧
      ¬ ((elsewhere.commit Platform.sample).run framed).2.tab.history.CoversMain := by
  refine ⟨commit_elsewhere, by decide +kernel, fun hcovers => ?_⟩
  have hchild : (1 : FrameId) ∈
      ((elsewhere.commit Platform.sample).run framed).2.tab.history.frames.keys := by
    decide +kernel
  exact absurd (hcovers.only 1 hchild) (by decide)

end TabM

end TinyBrowser
