import TinyBrowser.History.Growth
import TinyBrowser.Lib.Wp
import TinyBrowser.Tab.Navigate

/-!
# What renderer traffic leaves alone

Most of the coordinator's code talks to the renderer or the table. Code that only waits and reads
moves along `Looks`: the tab stays, and the names follow the events of the other tasks. `Linked w w'`
is what code that talks to the renderer can do: the document's URL and the selected traversal stay,
the history stays or loses its child frames, and requests are only added. Each function up to
`syncHistories` moves along one of the two.
-/

namespace TinyBrowser
open Lib

/-! ### Dropping the child frames -/

namespace SessionHistory
variable {h : SessionHistory} {f : FrameId}

def OnlyMain (h : SessionHistory) : Prop := ∀ f ∈ h.frames.keys, f = FrameId.main

theorem frames_removeFrame (hf : f ≠ FrameId.main) :
    (h.removeFrame f).frames = if h.frames.contains f then h.frames.erase f else h.frames := by
  rw [removeFrame_eq, if_neg hf]
  unfold Dict.contains
  cases hids : h.frames.get? f with
  | none => rfl
  | some ids =>
    show (h.dropFrame f ids).clampCurrentStep.frames = h.frames.erase f
    unfold clampCurrentStep
    split <;> rfl

theorem mem_keys_removeFrame {g : FrameId} (hf : f ≠ FrameId.main) :
    g ∈ (h.removeFrame f).frames.keys ↔ g ≠ f ∧ g ∈ h.frames.keys := by
  rw [frames_removeFrame hf]
  split_ifs with hc
  · exact Dict.mem_keys_erase _ _ _
  · rw [Dict.contains_iff] at hc
    constructor
    · intro hg
      exact ⟨fun heq => hc (heq ▸ hg), hg⟩
    · exact fun hg => hg.2

theorem mem_keys_foldl_removeFrame {g : FrameId} {fs : List FrameId}
    (hfs : ∀ f ∈ fs, f ≠ FrameId.main) :
    g ∈ (fs.foldl removeFrame h).frames.keys ↔ g ∉ fs ∧ g ∈ h.frames.keys := by
  induction fs generalizing h with
  | nil => simp
  | cons f fs ih =>
    obtain ⟨hf, hfs⟩ := List.forall_mem_cons.1 hfs
    rw [List.foldl_cons, ih hfs, mem_keys_removeFrame hf, List.mem_cons, not_or]
    tauto

theorem onlyMain_clearChildren (h : SessionHistory) : h.clearChildren.OnlyMain := by
  intro f hf
  unfold clearChildren at hf
  rw [mem_keys_foldl_removeFrame (by simp)] at hf
  by_contra hne
  exact hf.1 (List.mem_filter.2 ⟨hf.2, decide_eq_true hne⟩)

theorem OnlyMain.clearChildren (ho : h.OnlyMain) : h.clearChildren = h := by
  have hnil : h.frames.keys.filter (· ≠ FrameId.main) = [] := by
    rw [List.filter_eq_nil_iff]
    intro f hf
    simpa using ho f hf
  rw [SessionHistory.clearChildren, hnil, List.foldl_nil]

end SessionHistory

/-! ### The relation -/

/-- The names moved as the events since say. -/
def World.Follows {me : TabId} (w w' : World me) : Prop :=
  ∃ events : List (TaskEvent me), w'.past = w.past ++ events.map .event ∧
    w'.tabs.view me = events.foldl TabView.play (w.tabs.view me)

/-- A move that only lets the other tasks go on. -/
structure Looks {me : TabId} (w w' : World me) : Prop where
  tab : w'.tab = w.tab
  requests : w'.requests = w.requests
  names : w.Follows w'

structure Linked {me : TabId} (w w' : World me) : Prop where
  documentUrl : w'.tab.documentUrl = w.tab.documentUrl
  traversal : w'.tab.traversal = w.tab.traversal
  history : w'.tab.history = w.tab.history ∨ w'.tab.history = w.tab.history.clearChildren
  requests : w.requests <+: w'.requests
  names : w.Follows w'

namespace World.Follows
variable {me : TabId} {w w' w'' : World me}

theorem of_eq (hp : w'.past = w.past) (hv : w'.tabs.view me = w.tabs.view me) : w.Follows w' :=
  ⟨[], by rw [hp, List.map_nil, List.append_nil], hv⟩

theorem trans (h : w.Follows w') (h' : w'.Follows w'') : w.Follows w'' := by
  obtain ⟨es, hp, hv⟩ := h
  obtain ⟨es', hp', hv'⟩ := h'
  exact ⟨es ++ es', by rw [hp', hp, List.append_assoc, List.map_append],
    by rw [hv', hv, List.foldl_append]⟩

end World.Follows

namespace Looks
variable {me : TabId} {w w' w'' : World me}

theorem trans (h : Looks w w') (h' : Looks w' w'') : Looks w w'' :=
  ⟨h'.tab.trans h.tab, h'.requests.trans h.requests, h.names.trans h'.names⟩

instance : Std.Refl (@Looks me) := ⟨fun _ => ⟨rfl, rfl, .of_eq rfl rfl⟩⟩

instance : IsTrans (World me) Looks := ⟨fun _ _ _ => trans⟩

theorem linked (h : Looks w w') : Linked w w' :=
  ⟨by rw [h.tab], by rw [h.tab], .inl (by rw [h.tab]), h.requests ▸ List.prefix_rfl, h.names⟩

end Looks

namespace Linked
variable {me : TabId} {w w' w'' : World me}

theorem refl (w : World me) : Linked w w :=
  ⟨rfl, rfl, .inl rfl, List.prefix_rfl, .of_eq rfl rfl⟩

theorem trans (h : Linked w w') (h' : Linked w' w'') : Linked w w'' := by
  refine ⟨h'.documentUrl.trans h.documentUrl, h'.traversal.trans h.traversal, ?_,
    h.requests.trans h'.requests, h.names.trans h'.names⟩
  rcases h.history with heq | heq
  · rw [← heq]
    exact h'.history
  · have hclear := (SessionHistory.onlyMain_clearChildren w.tab.history).clearChildren
    rcases h'.history with heq' | heq'
    · exact .inr (heq'.trans heq)
    · exact .inr (by rw [heq', heq, hclear])

instance : Std.Refl (@Linked me) := ⟨refl⟩

instance : IsTrans (World me) Linked := ⟨fun _ _ _ => trans⟩

end Linked

namespace TabM
variable {me : TabId} {α : Type} {p : Platform}

/-- The function moves along `Linked`. -/
abbrev Links (m : TabM me α) : Prop := Stays Linked m

/-- The function moves along `Looks`. -/
abbrev Sees (m : TabM me α) : Prop := Stays Looks m

theorem Sees.links {m : TabM me α} (hm : Sees m) : Links m := hm.mono fun _ _ => Looks.linked

/-! ### Waiting and reading -/

theorem sees_nextTurn : Sees (nextTurn : TabM me _) := by
  intro w
  show Looks w w.turn.2
  unfold World.turn
  cases w.script with
  | nil => exact Std.Refl.refl w
  | cons turn script =>
    exact ⟨rfl, rfl, turn.events, rfl, TabRegistry.view_applyEvents w.tabs turn.events⟩

/-- A critical section that leaves the tab's names alone. -/
theorem sees_critical {f : TabRegistry → α × TabRegistry}
    (hf : ∀ r, (f r).2.view me = r.view me) : Sees (critical f : TabM me α) :=
  sees_nextTurn.bind fun _ w => ⟨rfl, rfl, .of_eq rfl (hf w.tabs)⟩

theorem sees_reads (f : TabRegistry → α) : Sees (reads f : TabM me α) := sees_critical fun _ => rfl

theorem sees_recordEvent (event : TabEvent) : Sees (recordEvent event : TabM me Unit) :=
  sees_nextTurn.bind fun _ _ => ⟨rfl, rfl, .of_eq rfl rfl⟩

theorem sees_getTab : Sees (getTab : TabM me Tab) := Stays.get.map

theorem sees_sendMount (mount : Mount) : Sees (sendMount mount : TabM me _) :=
  Stays.bind (fun _ => ⟨rfl, rfl, .of_eq rfl rfl⟩) fun _ => sees_nextTurn

theorem sees_writePieces (n : Nat) : Sees (writePieces n : TabM me _) := by
  induction n with
  | zero => exact Stays.pure _
  | succ n ih =>
    refine sees_nextTurn.bind fun answer => ?_
    cases answer with
    | error e => exact Stays.pure _
    | ok _ => exact ih

theorem sees_auxiliaryWithOpener : Sees (auxiliaryWithOpener : TabM me Bool) := by
  refine (sees_reads _).bind fun opener => ?_
  cases opener with
  | none => exact Stays.pure _
  | some opener => exact sees_reads _

theorem sees_currentTabState : Sees (currentTabState : TabM me TabState) := by
  refine (sees_reads _).bind fun names => ?_
  refine sees_auxiliaryWithOpener.bind fun auxiliary => ?_
  exact sees_getTab.bind fun _ => Stays.pure _

theorem sees_keepsTargetNameAt (url : Url) : Sees (keepsTargetNameAt url : TabM me Bool) := by
  refine sees_auxiliaryWithOpener.bind fun auxiliary => ?_
  refine Stays.ite (Stays.pure _) ?_
  refine (sees_reads _).bind fun opener => ?_
  exact sees_getTab.bind fun _ => Stays.pure _

theorem sees_tabStateAt (url : Url) : Sees (tabStateAt url : TabM me TabState) :=
  sees_currentTabState.bind fun _ => (sees_keepsTargetNameAt url).bind fun _ => Stays.pure _

theorem sees_commitState (url : Url) : Sees (commitState url : TabM me TabState) := by
  refine sees_getTab.bind fun t => ?_
  cases t.traversal with
  | none => exact sees_tabStateAt url
  | some entry => exact sees_currentTabState.bind fun _ => Stays.pure _

theorem sees_virtualDocument (pending : Option Mount) :
    Sees (virtualDocument pending : TabM me Mount) := by
  cases pending with
  | none => exact sees_currentTabState.map
  | some document => exact Stays.pure _

/-- A change of the tab that keeps what `Linked` looks at. -/
theorem links_modifyTab {f : Tab → Tab} (hu : ∀ t, (f t).documentUrl = t.documentUrl)
    (ht : ∀ t, (f t).traversal = t.traversal)
    (hh : ∀ t, (f t).history = t.history ∨ (f t).history = t.history.clearChildren) :
    Links (modifyTab f : TabM me Unit) :=
  fun w => ⟨hu w.tab, ht w.tab, hh w.tab, List.prefix_rfl, World.Follows.of_eq rfl rfl⟩

/-! ### Renderers -/

theorem links_dropRenderer : Links (dropRenderer : TabM me Unit) := by
  have hsite : Links (modifyTab fun t => { t with site := none } : TabM me Unit) :=
    links_modifyTab (fun _ => rfl) (fun _ => rfl) fun _ => .inl rfl
  have hframes : Links (writes (·.clearFrames me) : TabM me Unit) :=
    (sees_critical fun _ => rfl).links
  have hclear : Links (modifyHistory SessionHistory.clearChildren : TabM me Unit) :=
    links_modifyTab (fun _ => rfl) (fun _ => rfl) fun _ => .inr rfl
  have hdrop : Links (modifyTab fun t => { t with renderer := false } : TabM me Unit) :=
    links_modifyTab (fun _ => rfl) (fun _ => rfl) fun _ => .inl rfl
  exact hsite.bind fun _ => hframes.bind fun _ => hclear.bind fun _ => hdrop

theorem links_dropOnError (result : Except TabError α) :
    Links (dropOnError result : TabM me (Except TabError α)) := by
  cases result with
  | error e => exact links_dropRenderer.bind fun _ => Stays.pure _
  | ok a => exact Stays.pure _

theorem links_ensureRenderer (site : Site) : Links (ensureRenderer site : TabM me _) := by
  have hset : Links (modifyTab fun t => { t with site := some site, renderer := true } : TabM me Unit) :=
    links_modifyTab (fun _ => rfl) (fun _ => rfl) fun _ => .inl rfl
  refine sees_getTab.links.bind fun t => Stays.ite (Stays.pure _) ?_
  refine sees_nextTurn.links.bind fun answer => ?_
  cases answer with
  | error e => exact Stays.pure _
  | ok reply => exact links_dropRenderer.bind fun _ => hset.bind fun _ => Stays.pure _

theorem links_prepareMount (site : Site) : Links (prepareMount site : TabM me _) := by
  refine (links_ensureRenderer site).bind fun result => ?_
  cases result with
  | error e => exact Stays.pure _
  | ok _ =>
    refine Stays.bind ?_ fun _ => sees_getTab.links.bind fun t => Stays.pure _
    exact links_modifyTab (fun _ => rfl) (fun _ => rfl) fun _ => .inl rfl

theorem links_mount (site : Site) (m : Mount) : Links (mount site m : TabM me _) := by
  refine (links_prepareMount site).bind fun result => ?_
  cases result with
  | error e => exact Stays.pure _
  | ok _ => exact (sees_sendMount m).links.bind fun _ => links_dropOnError _

theorem links_streamBody (body : Body) (received : Nat) :
    Links (streamBody body received : TabM me _) := by
  induction body generalizing received with
  | chunk len rest ih =>
    refine sees_nextTurn.links.bind fun _ => Stays.ite ?_ ?_
    · exact sees_nextTurn.links.bind fun _ => links_dropOnError _
    · refine (sees_writePieces _).links.bind fun result => ?_
      cases result with
      | error e => exact links_dropOnError _
      | ok _ => exact ih _
  | finished => exact sees_nextTurn.links.bind fun _ => sees_nextTurn.links.bind fun _ => links_dropOnError _
  | failed message =>
    exact sees_nextTurn.links.bind fun _ => sees_nextTurn.links.bind fun _ => links_dropOnError _

theorem links_mountStream (site : Site) (m : Mount) (body : Body) :
    Links (mountStream site m body : TabM me _) := by
  refine (links_prepareMount site).bind fun result => ?_
  cases result with
  | error e => exact Stays.pure _
  | ok _ =>
    refine (sees_sendMount m).links.bind fun answer => ?_
    cases answer with
    | error e => exact Stays.pure _
    | ok _ => exact links_streamBody body 0

/-! ### Requests -/

theorem links_mountVirtual : Links (mountVirtual p : TabM me _) := by
  refine sees_getTab.links.bind fun t => Stays.bind ?_ fun _ => ?_
  · exact links_modifyTab (fun _ => rfl) (fun _ => rfl) fun _ => .inl rfl
  · exact (sees_virtualDocument _).links.bind fun _ => links_mount _ _

theorem links_requireRenderer : Links (requireRenderer p : TabM me _) := by
  refine Stays.bind ?_ fun result => ?_
  · refine sees_getTab.links.bind fun t => ?_
    exact Stays.ite (Stays.pure _) links_mountVirtual
  · cases result with
    | error e => exact Stays.pure _
    | ok _ => exact sees_getTab.links.bind fun _ => Stays.pure _

theorem links_requestAnswer (mounted : Except TabError Unit) :
    Links (requestAnswer mounted : TabM me _) := by
  cases mounted with
  | error e => exact Stays.pure _
  | ok _ => exact sees_nextTurn.links.bind fun _ => links_dropOnError _

theorem links_rendererRequest (command : RendererCommand) :
    Links (rendererRequest p command : TabM me _) := by
  refine links_requireRenderer.bind fun mounted => ?_
  refine (links_requestAnswer mounted).bind fun result => Stays.bind ?_ fun _ => Stays.pure _
  intro w
  exact ⟨rfl, rfl, .inl rfl, List.prefix_append _ _, World.Follows.of_eq rfl rfl⟩

theorem links_documentTitle : Links (documentTitle p : TabM me Text) := by
  refine sees_getTab.links.bind fun t => Stays.ite ?_ (Stays.pure _)
  refine Stays.bind ((links_rendererRequest _).bind fun _ => Stays.pure _) fun result => ?_
  split <;> exact Stays.pure _

theorem links_rendererDocumentState : Links (rendererDocumentState p : TabM me _) := by
  refine sees_getTab.links.bind fun t => Stays.ite ?_ (Stays.pure _)
  exact (links_rendererRequest _).bind fun _ => Stays.pure _

theorem links_syncHistories : Links (syncHistories p : TabM me Unit) := by
  refine sees_getTab.links.bind fun t => Stays.ite (Stays.forM ?_ _) (Stays.pure _)
  intro frame
  exact (links_rendererRequest _).bind fun _ => Stays.pure _

end TabM

end TinyBrowser
