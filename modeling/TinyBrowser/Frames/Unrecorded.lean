import TinyBrowser.Frames.Navigation
import TinyBrowser.Lib.Machine

/-!
# Which navigations leave no entry

`navigate_frame` decides on many exits whether the frame gets another document, and says nothing
about it: `installs` is that decision, in terms of the state the navigation starts from
(`keeps_navigateFrame_iff`). `record_navigation` then only looks at the URL, so a navigation that
installs nothing is recorded all the same, unless it names no URL.
-/

namespace TinyBrowser.Frames
open Lib Machine

variable {Policy Runtime Violation : Type} {x : Surroundings Policy Runtime Violation}

namespace Pages
variable {s s' : Pages Policy Runtime} {f child initiator : FrameId}

/-- The document a frame has, and the loads that were started in it. -/
def stamp (s : Pages Policy Runtime) (f : FrameId) : Option (Nat × List FrameLoad) :=
  (s.frames.get? f).map fun page => (page.document, page.frameLoads)

/-- The frame still has its document, and no load of another was started. -/
def Keeps (s s' : Pages Policy Runtime) (f : FrameId) : Prop := s'.stamp f = s.stamp f

end Pages

/-- What scripts do: they give no frame another document and start no frame load, since the
navigations they ask for are only queued. -/
structure Surroundings.Quiet (x : Surroundings Policy Runtime Violation) : Prop where
  eval : ∀ s frame script f, ((x.eval frame script s).2).stamp f = s.stamp f
  fireViolations : ∀ s frame violations f, (x.fireViolations frame violations s).stamp f = s.stamp f
  parse : ∀ s frame input f, (x.parse frame input s).stamp f = s.stamp f

namespace Pages
variable {s s' : Pages Policy Runtime} {f child initiator : FrameId}

/-! ### What each operation does to the document -/

variable {change : Page Policy → Page Policy}

theorem keeps_modify
    (h : ∀ page, (change page).document = page.document ∧
      (change page).frameLoads = page.frameLoads) (s : Pages Policy Runtime) (f : FrameId) :
    Keeps s (s.modify f change) child := by
  rw [Keeps, stamp, modify, Dict.get?_modify]
  split
  · rw [Option.map_map]
    refine congrArg (fun g => (s.frames.get? child).map g) (funext fun page => ?_)
    exact Prod.ext (h page).1 (h page).2
  · rfl

theorem stamp_loadHtml (hx : x.Quiet) (input : Text) :
    (s.loadHtml x child input).stamp child = (s.stamp child).map fun stamp => (stamp.1 + 1, []) := by
  unfold loadHtml
  split
  · rw [hx.parse, stamp, modify, Dict.get?_modify, if_pos rfl, stamp, Option.map_map, Option.map_map]
    rfl
  · rename_i hmissing
    have hnone : s.frames.get? child = none := by simpa [Dict.contains] using hmissing
    rw [stamp, hnone]
    rfl

/-- Another document, or another load that is on its way. -/
def Renews (s s' : Pages Policy Runtime) (f : FrameId) : Prop :=
  ∃ renew : Nat × List FrameLoad → Nat × List FrameLoad, (∀ stamp, renew stamp ≠ stamp) ∧
    s'.stamp f = (s.stamp f).map renew

/-- Whether the frame is given another document, or a load of one. -/
def Decides (s s' : Pages Policy Runtime) (f : FrameId) (installed : Bool) : Prop :=
  if installed then Renews s s' f else Keeps s s' f

variable {installed : Bool}

theorem Decides.keeps_iff (h : Decides s s' f installed) :
    Keeps s s' f ↔ (s.frames.contains f && installed) = false := by
  cases installed with
  | false => exact iff_of_true h (Bool.and_false _)
  | true =>
    obtain ⟨renew, hne, hstamp⟩ := h
    rw [Bool.and_true, Keeps, hstamp, stamp, Dict.contains]
    cases s.frames.get? f with
    | none => exact iff_of_true rfl rfl
    | some page =>
      exact iff_of_false (fun hkeeps => hne _ (Option.some.inj hkeeps)) Bool.true_eq_false.mp

theorem Decides.of_keeps {s₁ : Pages Policy Runtime} (hkeeps : Keeps s s₁ f)
    (h : Decides s₁ s' f installed) : Decides s s' f installed := by
  unfold Decides at h ⊢
  unfold Keeps at hkeeps
  split
  · rename_i hinstalled
    rw [if_pos hinstalled] at h
    obtain ⟨renew, hne, hstamp⟩ := h
    exact ⟨renew, hne, hkeeps ▸ hstamp⟩
  · rename_i hinstalled
    rw [if_neg hinstalled] at h
    exact Eq.trans h hkeeps

theorem Decides.keeps_after {s₂ : Pages Policy Runtime}
    (h : Decides s s' f installed) (hkeeps : Keeps s' s₂ f) : Decides s s₂ f installed := by
  unfold Decides at h ⊢
  unfold Keeps at hkeeps
  split
  · rename_i hinstalled
    rw [if_pos hinstalled] at h
    obtain ⟨renew, hne, hstamp⟩ := h
    exact ⟨renew, hne, hkeeps.trans hstamp⟩
  · rename_i hinstalled
    rw [if_neg hinstalled] at h
    exact hkeeps.trans h

/-- A change of the page that leaves its document alone. -/
theorem Decides.of_modify
    (h : Decides (s.modify child change) s' f installed)
    (hchange : ∀ page, (change page).document = page.document ∧
      (change page).frameLoads = page.frameLoads) : Decides s s' f installed :=
  h.of_keeps (keeps_modify hchange s child)

theorem Decides.modify_after
    (h : Decides s s' f installed)
    (hchange : ∀ page, (change page).document = page.document ∧
      (change page).frameLoads = page.frameLoads) :
    Decides s (s'.modify child change) f installed :=
  h.keeps_after (keeps_modify hchange s' child)

theorem decides_loadHtml (hx : x.Quiet) (s : Pages Policy Runtime) (child : FrameId) (input : Text) :
    Decides s (s.loadHtml x child input) child true :=
  ⟨fun stamp => (stamp.1 + 1, []), fun stamp h => by
    have hsucc := congrArg Prod.fst h
    exact Nat.succ_ne_self _ hsucc, stamp_loadHtml hx input⟩

theorem decides_loadAboutBlank (hx : x.Quiet) (s : Pages Policy Runtime) (child : FrameId)
    (url : Option Url) (origin : Option Origin) :
    Decides s (s.loadAboutBlank x child url origin) child true := by
  unfold loadAboutBlank
  refine .of_modify (decides_loadHtml hx _ child []) fun page => ?_
  cases url <;> exact ⟨rfl, rfl⟩

theorem decides_installFrameResponse (hx : x.Quiet) (s : Pages Policy Runtime) (child : FrameId)
    (url : Url) (contentType : Option Text) (policy : Policy) (body : Bytes)
    (origin : Option Origin) :
    Decides s (s.installFrameResponse x child url contentType policy body origin) child true := by
  unfold installFrameResponse
  exact .of_modify (decides_loadHtml hx _ child _) fun _ => ⟨rfl, rfl⟩

theorem decides_loadSrcdoc (hx : x.Quiet) (s : Pages Policy Runtime) (child parent : FrameId)
    (markup : Text) : Decides s (s.loadSrcdoc x child parent markup) child true := by
  unfold loadSrcdoc loadFrameSrcdoc
  split
  · exact .of_modify (decides_loadHtml hx _ child _) fun _ => ⟨rfl, rfl⟩
  · exact .of_modify (decides_loadHtml hx _ child _) fun _ => ⟨rfl, rfl⟩

theorem keeps_inheritPolicy (s : Pages Policy Runtime) (child parent : FrameId) :
    Keeps s (s.inheritPolicy x child parent) child := by
  unfold inheritPolicy
  refine keeps_modify ?_ s child
  exact fun page => ⟨rfl, rfl⟩

theorem decides_keepInitialBlank (hx : x.Quiet) (s : Pages Policy Runtime) (child parent : FrameId) :
    Decides s (s.keepInitialBlank x child parent) child (!s.isInitialBlank child) := by
  unfold keepInitialBlank
  cases hblank : s.isInitialBlank child with
  | true => exact keeps_inheritPolicy s child parent
  | false =>
    refine .keeps_after ?_ (keeps_inheritPolicy _ child parent)
    split
    · exact (decides_loadAboutBlank hx s child _ _).modify_after fun _ => ⟨rfl, rfl⟩
    · exact decides_loadAboutBlank hx s child _ _

theorem decides_loadDataFrame (hx : x.Quiet) (s : Pages Policy Runtime) (child parent : FrameId)
    (url : Url) (navigation : FrameNavigation) :
    Decides s (s.loadDataFrame x child parent url navigation) child true := by
  unfold loadDataFrame
  dsimp only
  split
  · refine .keeps_after ?_ (keeps_inheritPolicy _ child parent)
    exact (decides_loadAboutBlank hx s child _ _).modify_after fun _ => ⟨rfl, rfl⟩
  · exact .of_modify (decides_installFrameResponse hx _ child ..) fun _ => ⟨rfl, rfl⟩

theorem decides_loadBlobFrame (hx : x.Quiet) (s : Pages Policy Runtime) (child parent : FrameId)
    (url : Url) (navigation : FrameNavigation) :
    Decides s (s.loadBlobFrame x child parent url navigation) child
      (s.blobEntry x parent url).isSome := by
  unfold loadBlobFrame
  cases s.blobEntry x parent url with
  | none => exact rfl
  | some entry =>
    exact .of_modify (decides_installFrameResponse hx _ child ..) fun _ => ⟨rfl, rfl⟩

theorem decides_navigate (s : Pages Policy Runtime) (child : FrameId) (load : FrameLoad) :
    Decides s (s.navigate child load) child true := by
  refine ⟨fun stamp => (stamp.1, stamp.2 ++ [load]), fun stamp h => ?_, ?_⟩
  · have hlen := congrArg List.length (congrArg Prod.snd h)
    simp at hlen
  · rw [stamp, navigate, modify, Dict.get?_modify, if_pos rfl, stamp, Option.map_map, Option.map_map]
    rfl

/-! ### What the navigation decides -/

/-- A `javascript:` script gives the frame a document: it runs, and its result is a string that is
not empty. -/
def scriptInstalls (x : Surroundings Policy Runtime Violation) (s : Pages Policy Runtime)
    (child : FrameId) (script source : Text) (policy : Policy) : Bool :=
  (s.frames.get? child).any fun page =>
    let violations := x.checkScript policy page.url source
    let reported := if violations.isEmpty then s else x.fireViolations child violations s
    !(script = [] || page.sandbox.contains .scripts) && !x.blocks violations &&
      (x.eval child script reported).1.any (· ≠ [])

theorem decides_evalFrameScript (hx : x.Quiet) (s : Pages Policy Runtime) (child : FrameId)
    (script source : Text) (policy : Policy) :
    Decides s (s.evalFrameScript x child script source policy) child
      (s.scriptInstalls x child script source policy) := by
  unfold evalFrameScript scriptInstalls
  cases s.frames.get? child with
  | none => exact rfl
  | some page =>
    simp only [Option.any_some]
    cases hskip : (decide (script = []) || page.sandbox.contains .scripts) with
    | true => exact rfl
    | false =>
      have hreported : Keeps s (if (x.checkScript policy page.url source).isEmpty then s
          else x.fireViolations child (x.checkScript policy page.url source) s) child := by
        split
        · rfl
        · exact hx.fireViolations ..
      simp only [Bool.false_eq_true, if_false, Bool.not_false, Bool.true_and]
      refine .of_keeps hreported ?_
      generalize (if (x.checkScript policy page.url source).isEmpty then s
        else x.fireViolations child (x.checkScript policy page.url source) s) = reported
      cases x.blocks (x.checkScript policy page.url source) with
      | true => exact rfl
      | false =>
        simp only [Bool.false_eq_true, if_false, Bool.not_false, Bool.true_and]
        refine .of_keeps (hx.eval reported child script child) ?_
        cases (x.eval child script reported).1 with
        | none => exact rfl
        | some result =>
          by_cases hempty : result = []
          · simp only [hempty, if_true]
            exact rfl
          · simp only [Option.any_some, hempty, ne_eq, not_false_eq_true, decide_true]
            exact decides_loadHtml hx _ child result

/-- A `javascript:` URL installs something when the initiator may run its script in the frame. -/
def javascriptInstalls (x : Surroundings Policy Runtime Violation) (s : Pages Policy Runtime)
    (child initiator : FrameId) (url : Url) : Bool :=
  match s.frames.get? initiator, s.frames.get? child with
  | some source, some target =>
    let script := x.percentDecode url.asStr
    let script := if Text.startsWith script "javascript:".toList then script.drop 11 else script
    source.origin = target.origin && s.scriptInstalls x child script url.asStr source.policy
  | _, _ => false

theorem decides_loadJavascriptFrameUrl (hx : x.Quiet) (s : Pages Policy Runtime)
    (child initiator : FrameId) (url : Url) :
    Decides s (s.loadJavascriptFrameUrl x child initiator url) child
      (s.javascriptInstalls x child initiator url) := by
  unfold loadJavascriptFrameUrl javascriptInstalls
  cases s.frames.get? initiator with
  | none => exact rfl
  | some source =>
    cases s.frames.get? child with
    | none => exact rfl
    | some target =>
      by_cases hsame : source.origin = target.origin
      · simp only [if_pos hsame, decide_eq_true hsame, Bool.true_and]
        exact decides_evalFrameScript hx s child _ _ _
      · simp only [if_neg hsame, decide_eq_false hsame, Bool.false_and]
        exact rfl

/-- What the scheme of an admitted URL decides. -/
def admittedInstalls (x : Surroundings Policy Runtime Violation) (s : Pages Policy Runtime)
    (child initiator : FrameId) (url : Url) : Bool :=
  if url.scheme = "about".toList then !s.isInitialBlank child
  else if url.scheme = "javascript".toList then s.javascriptInstalls x child initiator url
  else if url.scheme = "blob".toList then (s.blobEntry x initiator url).isSome
  else true

theorem isInitialBlank_installSandbox (s : Pages Policy Runtime) (child : FrameId)
    (navigation : FrameNavigation) :
    (s.installSandbox child navigation).isInitialBlank child = s.isInitialBlank child := by
  rw [isInitialBlank, installSandbox, modify, Dict.get?_modify, if_pos rfl, isInitialBlank,
    Option.any_map]

theorem blobEntry_installSandbox (s : Pages Policy Runtime) (child parent : FrameId)
    (navigation : FrameNavigation) (url : Url) :
    (s.installSandbox child navigation).blobEntry x parent url = s.blobEntry x parent url := by
  rw [blobEntry, installSandbox, modify, Dict.get?_modify, blobEntry]
  split
  · cases s.frames.get? parent <;> rfl
  · rfl

theorem keeps_installSandbox (s : Pages Policy Runtime) (child : FrameId)
    (navigation : FrameNavigation) : Keeps s (s.installSandbox child navigation) child := by
  unfold installSandbox
  refine keeps_modify ?_ s child
  exact fun page => ⟨rfl, rfl⟩

theorem decides_loadAdmitted (hx : x.Quiet) (s : Pages Policy Runtime) (child initiator : FrameId)
    (url : Url) (gated : Bool) (navigation : FrameNavigation) :
    Decides s (s.loadAdmitted x child initiator url gated navigation) child
      (s.admittedInstalls x child initiator url) := by
  have hsandbox := keeps_installSandbox s child navigation
  unfold loadAdmitted admittedInstalls
  by_cases habout : url.scheme = "about".toList
  · rw [if_pos habout, if_pos habout, ← isInitialBlank_installSandbox s child navigation]
    exact .of_keeps hsandbox (decides_keepInitialBlank hx _ child initiator)
  rw [if_neg habout, if_neg habout]
  by_cases hdata : url.scheme = "data".toList
  · have hother : url.scheme ≠ "javascript".toList ∧ url.scheme ≠ "blob".toList := by
      rw [hdata]
      decide
    rw [if_pos hdata, if_neg hother.1, if_neg hother.2]
    exact .of_keeps hsandbox (decides_loadDataFrame hx _ child initiator url navigation)
  rw [if_neg hdata]
  by_cases hscript : url.scheme = "javascript".toList
  · rw [if_pos hscript, if_pos hscript]
    exact decides_loadJavascriptFrameUrl hx s child initiator url
  rw [if_neg hscript, if_neg hscript]
  by_cases hblob : url.scheme = "blob".toList
  · rw [if_pos hblob, if_pos hblob, ← blobEntry_installSandbox s child initiator navigation]
    exact .of_keeps hsandbox (decides_loadBlobFrame hx _ child initiator url navigation)
  rw [if_neg hblob, if_neg hblob]
  split
  · exact decides_navigate s child _
  · exact (decides_loadAboutBlank hx s child none none).keeps_after
      (keeps_inheritPolicy _ child initiator)

theorem keeps_checkFrameSrc (hx : x.Quiet) (s : Pages Policy Runtime) (child : FrameId) (url : Url) :
    Keeps s (s.checkFrameSrc x child url).2 child := by
  unfold checkFrameSrc
  split
  · split
    · unfold frameSrcBlocked
      dsimp only
      split
      · rfl
      · exact hx.fireViolations ..
    · rfl
  · rfl

/-- Whether the navigation has a document to give: it is not refused by the embedder's `frame-src`,
and the scheme of its URL gives one. -/
def offers (x : Surroundings Policy Runtime Violation) (s : Pages Policy Runtime)
    (child initiator : FrameId) (navigation : FrameNavigation) : Bool :=
  if navigation.srcdoc.isSome then true
  else if navigation.isBlank then !s.isInitialBlank child
  else (s.resolve x initiator navigation.spec).any fun url =>
    let (refused, checked) := s.checkFrameSrc x child url
    !refused && checked.admittedInstalls x child initiator url

/-- Whether the navigation gives the frame a document, now or when its response arrives. -/
def installs (x : Surroundings Policy Runtime Violation) (s : Pages Policy Runtime)
    (child initiator : FrameId) (navigation : FrameNavigation) : Bool :=
  s.frames.contains child && s.offers x child initiator navigation

theorem decides_navigateFrame (hx : x.Quiet) (s : Pages Policy Runtime) (child initiator : FrameId)
    (navigation : FrameNavigation) :
    Decides s (s.navigateFrame x child initiator navigation) child
      (s.offers x child initiator navigation) := by
  have hsandbox := keeps_installSandbox s child navigation
  unfold navigateFrame offers
  cases navigation.srcdoc with
  | some markup => exact .of_keeps hsandbox (decides_loadSrcdoc hx _ child initiator markup)
  | none =>
    simp only [Option.isSome_none, Bool.false_eq_true, if_false]
    split
    · rw [← isInitialBlank_installSandbox s child navigation]
      exact .of_keeps hsandbox (decides_keepInitialBlank hx _ child initiator)
    cases s.resolve x initiator navigation.spec with
    | none => exact rfl
    | some url =>
      have hcheck := keeps_checkFrameSrc hx s child url
      simp only [Option.any_some]
      unfold loadFrameUrl
      cases hchecked : s.checkFrameSrc x child url with
      | mk refused checked =>
        rw [hchecked] at hcheck
        simp only
        refine .of_keeps hcheck ?_
        cases refused with
        | true => exact rfl
        | false =>
          simp only [Bool.false_eq_true, if_false, Bool.not_false, Bool.true_and]
          exact decides_loadAdmitted hx checked child initiator url _ navigation

theorem keeps_navigateFrame_iff (hx : x.Quiet) (s : Pages Policy Runtime) (child initiator : FrameId)
    (navigation : FrameNavigation) :
    Keeps s (s.navigateFrame x child initiator navigation) child ↔
      s.installs x child initiator navigation = false :=
  (decides_navigateFrame hx s child initiator navigation).keeps_iff

end Pages

/-! ### What is recorded -/

namespace Engine
variable {e e' : Engine Policy Runtime} {frame initiator : FrameId} {navigation : FrameNavigation}
  {replace : Bool} {url : Url}

/-- Nothing was recorded of the navigation: the frame's store is the same, up to a staged navigation
that was dropped, and the browser is told of no navigation that has committed. -/
structure Unrecorded (e e' : Engine Policy Runtime) (frame : FrameId) : Prop where
  entries : (e'.historyOf frame).entries = (e.historyOf frame).entries
  index : (e'.historyOf frame).index = (e.historyOf frame).index
  pending : (e'.historyOf frame).pending = (e.historyOf frame).pending ∨
    (e'.historyOf frame).pending = none
  events : ∃ queued, e'.pendingEvents = e.pendingEvents ++ queued ∧ ∀ event ∈ queued,
    ∀ url replace index, event ≠ (frame, .navigationStarted url replace index false)

/-- Whether the entry of a navigation to `url` is staged. -/
def stages (e : Engine Policy Runtime) (url : Url) : Bool :=
  !e.standaloneHistory && (url.scheme = "http".toList || url.scheme = "https".toList)

/-- The entry of a navigation to `url`: with the document's state where that is saved whole. -/
def entryFor (e : Engine Policy Runtime) (frame : FrameId) (navigation : FrameNavigation) (url : Url) :
    FrameHistoryEntry FrameNavigation (LocalDocumentState Policy) :=
  ⟨some navigation,
    if url.scheme = "about".toList && url.path ∈ ["blank".toList, "srcdoc".toList] then
      (e.pages.frames.get? frame).map Page.localDocumentState
    else none⟩

/-- The entry that would be recorded is the one that is there: it is staged already, or, where no
browser is told, it is the active one and would replace itself. -/
def InPlace (e : Engine Policy Runtime) (frame : FrameId) (navigation : FrameNavigation)
    (replace : Bool) (url : Url) : Prop :=
  let history := e.historyOf frame
  let entry := e.entryFor frame navigation url
  if e.stages url then
    history.pending = some ⟨entry, if replace then some history.index else none⟩
  else e.standaloneHistory = true ∧ replace = true ∧ history.entries[history.index]? = some entry

theorem setFrameHistory_self {s : FrameHistory FrameNavigation (LocalDocumentState Policy)}
    (h : s.index < s.entries.length) (state : Option Text) :
    s.setFrameHistory ⟨s.entries.length, s.index, s.entries.length, s.index, state⟩ = s := by
  have hnil : s.entries.isEmpty = false := by
    cases hentries : s.entries with
    | nil =>
      rw [hentries] at h
      cases h
    | cons entry entries => rfl
  have hindex : min s.index (s.entries.length - 1) = s.index := by omega
  rw [FrameHistory.setFrameHistory]
  simp only [Nat.lt_irrefl, if_false, hnil, Bool.false_eq_true, hindex]

end Engine

section
variable {s : FrameHistory FrameNavigation (LocalDocumentState Policy)}
  {entry : FrameHistoryEntry FrameNavigation (LocalDocumentState Policy)}

theorem push_index_lt : (s.push entry).index < (s.push entry).entries.length := by
  simp [FrameHistory.push]

theorem push_ne : ¬ ((s.push entry).entries = s.entries ∧ (s.push entry).index = s.index) := by
  rintro ⟨hentries, hindex⟩
  have hlen := congrArg List.length hentries
  simp only [FrameHistory.push, List.length_append, List.length_take,
    List.length_singleton] at hlen hindex
  omega

theorem replace_index_lt : (s.replace entry).index < (s.replace entry).entries.length := by
  unfold FrameHistory.replace
  split
  · rename_i hlt
    simpa using hlt
  · exact push_index_lt

/-- An entry that is replaced is seen, unless it replaces itself. -/
theorem replace_eq_iff : ((s.replace entry).entries = s.entries ∧ (s.replace entry).index = s.index) ↔
    s.entries[s.index]? = some entry := by
  unfold FrameHistory.replace
  split
  · rename_i hlt
    rw [List.getElem?_eq_getElem hlt, Option.some.injEq]
    constructor
    · rintro ⟨hset, -⟩
      replace hset : s.entries.set s.index entry = s.entries := hset
      have hat : (s.entries.set s.index entry)[s.index]? = some entry := List.getElem?_set_self hlt
      rw [hset, List.getElem?_eq_getElem hlt] at hat
      exact Option.some.inj hat
    · rintro rfl
      exact ⟨List.set_getElem_self hlt, rfl⟩
  · rename_i hge
    rw [List.getElem?_eq_none (Nat.le_of_not_lt hge)]
    exact iff_of_false push_ne (Option.some_ne_none entry).symm

end

namespace Engine
variable {e e' : Engine Policy Runtime} {frame initiator : FrameId} {navigation : FrameNavigation}
  {replace : Bool} {url : Url}

/-- The store after the entry of a navigation was recorded. -/
def recordedHistory (e : Engine Policy Runtime) (frame : FrameId) (navigation : FrameNavigation)
    (replace : Bool) (url : Url) : FrameHistory FrameNavigation (LocalDocumentState Policy) :=
  let entry := e.entryFor frame navigation url
  if e.stages url then (e.historyOf frame).stage entry replace
  else if replace then (e.historyOf frame).discardPending.replace entry
  else (e.historyOf frame).discardPending.push entry

theorem recordedHistory_index_lt (hstages : e.stages url = false) (frame : FrameId)
    (navigation : FrameNavigation) (replace : Bool) :
    (e.recordedHistory frame navigation replace url).index <
      (e.recordedHistory frame navigation replace url).entries.length := by
  unfold recordedHistory
  simp only [hstages, Bool.false_eq_true, if_false]
  split
  · exact replace_index_lt
  · exact push_index_lt

/-- What `record_navigation` does once there is a URL: the store has the entry, and the browser, if
there is one, is told whether it is staged. -/
theorem recordNavigation_eq (replace : Bool) (hframe : frame ≠ .main)
    (hurl : e.recordedUrl x initiator navigation = some url) :
    (e.recordNavigation x frame initiator navigation replace).historyOf frame =
        e.recordedHistory frame navigation replace url ∧
      (e.recordNavigation x frame initiator navigation replace).pendingEvents = e.pendingEvents ++
        if e.standaloneHistory then [] else [(frame, .navigationStarted url.asStr replace
          (e.recordedHistory frame navigation replace url).index (e.stages url))] := by
  rw [recordNavigation, hurl]
  simp only [recordFrameHistory, if_neg hframe]
  cases hmode : e.standaloneHistory with
  | false =>
    simp only [Bool.false_eq_true, if_false, historyOf, Dict.get?_insert, if_true, Option.getD_some]
    unfold recordedHistory stages
    rw [hmode]
    exact ⟨rfl, rfl⟩
  | true =>
    have hstages : e.stages url = false := by rw [stages, hmode, Bool.not_true, Bool.false_and]
    simp only [if_true, historyOf, Dict.get?_insert, Option.getD_some, List.append_nil, and_true]
    have hself := setFrameHistory_self (recordedHistory_index_lt hstages frame navigation replace) none
    unfold recordedHistory stages at hself ⊢
    rw [hmode] at hself ⊢
    exact hself

/-- A navigation that names a URL is recorded, unless its entry is in place. -/
theorem unrecorded_iff (hframe : frame ≠ .main)
    (hurl : e.recordedUrl x initiator navigation = some url) :
    Unrecorded e (e.recordNavigation x frame initiator navigation replace) frame ↔
      e.InPlace frame navigation replace url := by
  obtain ⟨hhistory, hevents⟩ := recordNavigation_eq replace hframe hurl
  unfold InPlace
  cases hstages : e.stages url with
  | true =>
    have hhosted : e.standaloneHistory = false := by
      rw [stages, Bool.and_eq_true, Bool.not_eq_true'] at hstages
      exact hstages.1
    have hstaged : e.recordedHistory frame navigation replace url =
        (e.historyOf frame).stage (e.entryFor frame navigation url) replace := by
      simp only [recordedHistory, hstages, if_true]
    rw [hstaged] at hhistory
    simp only [if_true]
    constructor
    · intro h
      have hpending := h.pending
      rw [hhistory] at hpending
      rcases hpending with hsame | hnone
      · exact hsame.symm
      · cases hnone
    · intro hplace
      refine ⟨by rw [hhistory]; rfl, by rw [hhistory]; rfl, .inl ?_, _, hevents, ?_⟩
      · rw [hhistory, hplace]
        rfl
      · intro event hevent url replace index heq
        rw [hhosted, if_neg Bool.false_ne_true, List.mem_singleton, heq] at hevent
        injection (Prod.mk.inj hevent).2 with _ _ _ hpending
        rw [hstages] at hpending
        cases hpending
  | false =>
    simp only [Bool.false_eq_true, if_false]
    cases hmode : e.standaloneHistory with
    | false =>
      refine iff_of_false (fun h => ?_) fun h => Bool.false_ne_true h.1
      obtain ⟨queued, hqueued, hnone⟩ := h.events
      rw [hmode, if_neg Bool.false_ne_true, hstages] at hevents
      rw [hevents] at hqueued
      rw [← List.append_cancel_left hqueued] at hnone
      exact hnone _ (List.mem_singleton.2 rfl) _ _ _ rfl
    | true =>
      rw [hmode, if_pos rfl] at hevents
      have hdropped : (e.recordedHistory frame navigation replace url).pending = none := by
        simp only [recordedHistory, hstages, Bool.false_eq_true, if_false]
        split
        · unfold FrameHistory.replace
          split <;> rfl
        · rfl
      have hsame : Unrecorded e (e.recordNavigation x frame initiator navigation replace) frame ↔
          ((e.recordedHistory frame navigation replace url).entries = (e.historyOf frame).entries ∧
            (e.recordedHistory frame navigation replace url).index = (e.historyOf frame).index) := by
        rw [← hhistory]
        refine ⟨fun h => ⟨h.entries, h.index⟩, fun h => ⟨h.1, h.2, .inr ?_, [], hevents, ?_⟩⟩
        · rw [hhistory, hdropped]
        · intro event hevent
          cases hevent
      rw [hsame]
      simp only [recordedHistory, hstages, Bool.false_eq_true, if_false, true_and]
      cases replace with
      | true =>
        simp only [if_true, true_and]
        exact replace_eq_iff (s := (e.historyOf frame).discardPending)
      | false =>
        simp only [Bool.false_eq_true, if_false, false_and, iff_false]
        exact push_ne (s := (e.historyOf frame).discardPending)

/-- The engine once the frame was navigated, before that is recorded. -/
def navigated (x : Surroundings Policy Runtime Violation) (e : Engine Policy Runtime)
    (child initiator : FrameId) (navigation : FrameNavigation) : Engine Policy Runtime :=
  { e with pages := e.pages.navigateFrame x child initiator navigation }

theorem pages_recordNavigation (e : Engine Policy Runtime) (frame initiator : FrameId)
    (navigation : FrameNavigation) (replace : Bool) :
    (e.recordNavigation x frame initiator navigation replace).pages = e.pages := by
  unfold recordNavigation
  split
  · rfl
  · unfold recordFrameHistory
    split
    · rfl
    · dsimp only
      split <;> rfl

theorem Unrecorded.refl (e : Engine Policy Runtime) (frame : FrameId) : Unrecorded e e frame :=
  ⟨rfl, rfl, .inl rfl, [], (List.append_nil _).symm, fun event hevent => by cases hevent⟩

/-- If the frame still has its document, it got no entry. -/
def LeavesNone (e e' : Engine Policy Runtime) (child : FrameId) : Prop :=
  Pages.Keeps e.pages e'.pages child → Unrecorded e e' child

/-- The navigation does install something, or names no URL, or its entry is in place. -/
def Accounted (x : Surroundings Policy Runtime Violation) (e : Engine Policy Runtime)
    (child initiator : FrameId) (navigation : FrameNavigation) (replace : Bool) : Prop :=
  e.pages.installs x child initiator navigation = true ∨
    ∀ url, (e.navigated x child initiator navigation).recordedUrl x initiator navigation = some url →
      (e.navigated x child initiator navigation).InPlace child navigation replace url

theorem leavesNone_perform_iff (hx : x.Quiet) (e : Engine Policy Runtime) {child : FrameId}
    (hchild : child ≠ .main) (initiator : FrameId) (navigation : FrameNavigation) (replace : Bool) :
    e.LeavesNone (e.perform x child initiator navigation replace) child ↔
      e.Accounted x child initiator navigation replace := by
  unfold LeavesNone Accounted
  have hperform : e.perform x child initiator navigation replace =
      (e.navigated x child initiator navigation).recordNavigation x child initiator navigation
        replace := rfl
  have hfrom : ∀ e', Unrecorded e e' child ↔
      Unrecorded (e.navigated x child initiator navigation) e' child := fun e' =>
    ⟨fun h => ⟨h.entries, h.index, h.pending, h.events⟩,
      fun h => ⟨h.entries, h.index, h.pending, h.events⟩⟩
  have hkeeps : Pages.Keeps e.pages (e.perform x child initiator navigation replace).pages child ↔
      e.pages.installs x child initiator navigation = false := by
    rw [hperform, pages_recordNavigation]
    exact Pages.keeps_navigateFrame_iff hx e.pages child initiator navigation
  have hrecorded : Unrecorded e (e.perform x child initiator navigation replace) child ↔
      ∀ url, (e.navigated x child initiator navigation).recordedUrl x initiator navigation = some url →
        (e.navigated x child initiator navigation).InPlace child navigation replace url := by
    rw [hperform, hfrom]
    cases hurl : (e.navigated x child initiator navigation).recordedUrl x initiator navigation with
    | none =>
      rw [recordNavigation, hurl]
      exact iff_of_true (.refl _ child) fun url hsome => by cases hsome
    | some url =>
      rw [unrecorded_iff hchild hurl]
      exact ⟨fun h url' hsame => Option.some.inj hsame ▸ h, fun h => h url rfl⟩
  rw [hkeeps, hrecorded]
  cases e.pages.installs x child initiator navigation <;> simp

/-- A navigation after which the frame still has its document leaves no entry exactly if it does
install something, or names no URL, or its entry is in place. -/
theorem unrecorded_perform_iff (hx : x.Quiet) (e : Engine Policy Runtime) {child : FrameId}
    (hchild : child ≠ .main) (initiator : FrameId) (navigation : FrameNavigation) (replace : Bool) :
    (Pages.Keeps e.pages (e.perform x child initiator navigation replace).pages child →
      Unrecorded e (e.perform x child initiator navigation replace) child) ↔
    (e.pages.installs x child initiator navigation = true ∨
      ∀ url, (e.navigated x child initiator navigation).recordedUrl x initiator navigation = some url →
        (e.navigated x child initiator navigation).InPlace child navigation replace url) :=
  leavesNone_perform_iff hx e hchild initiator navigation replace

/-! ### The turns -/

/-- The step of `apply_navigations`. -/
def turn (x : Surroundings Policy Runtime Violation) (e : Engine Policy Runtime)
    (queued : FrameId × FrameNavigation) : Option (Engine Policy Runtime) :=
  some (e.applyNavigation x queued.1 queued.2)

theorem run_turn (e : Engine Policy Runtime) (navigations : List (FrameId × FrameNavigation)) :
    run (turn x) e navigations = some (e.applyNavigations x navigations) := by
  induction navigations generalizing e with
  | nil => rfl
  | cons queued rest ih => exact ih (e.applyNavigation x queued.1 queued.2)

/-- Of all navigations of a queue, those performed on child frames that keep their documents leave no
entry exactly if each is accounted for in the state its turn comes in. -/
theorem leavesNone_applyNavigations_iff (hx : x.Quiet) (e : Engine Policy Runtime)
    (navigations : List (FrameId × FrameNavigation)) :
    Along (turn x) (fun e queued => ∀ child navigation,
        e.performed x queued.1 queued.2 = some (child, navigation) → child ≠ .main →
        e.LeavesNone (e.applyNavigation x queued.1 queued.2) child) e navigations ↔
      Along (turn x) (fun e queued => ∀ child navigation,
        e.performed x queued.1 queued.2 = some (child, navigation) → child ≠ .main →
        e.Accounted x child (navigation.source.getD queued.1) navigation
          (e.pages.isInitialBlank child)) e navigations := by
  refine along_iff_of_run (I := fun _ => True) (fun e queued e' _ _ => ?_) (fun _ _ _ _ _ _ => trivial)
    trivial (run_turn e navigations)
  refine forall_congr' fun child => forall_congr' fun navigation => forall_congr' fun hperformed =>
    forall_congr' fun hchild => ?_
  rw [applyNavigation, hperformed]
  exact leavesNone_perform_iff hx e hchild _ navigation _

/-- The same of the first navigation of a child frame, in the engine that has just adopted it. -/
theorem leavesNone_adoptChild_iff (hx : x.Quiet) (e : Engine Policy Runtime) {parent frame : FrameId}
    (hframe : frame ≠ .main) (container : ContainerId) (page : Page Policy) :
    (e.adopted x frame page).LeavesNone (e.adoptChild x parent frame container page) frame ↔
      ∀ navigation ∈ (e.adopted x frame page).firstNavigation x parent container
        (((e.pages.frames.get? parent).map fun page =>
          x.sandboxingFlags e.pages.runtime page container).getD .empty),
        (e.adopted x frame page).Accounted x frame parent navigation true := by
  unfold adoptChild
  dsimp only
  cases hfirst : (e.adopted x frame page).firstNavigation x parent container _ with
  | none => exact iff_of_true (fun _ => .refl _ frame) fun navigation h => by cases h
  | some navigation =>
    simp only [Option.mem_some_iff, forall_eq']
    exact leavesNone_perform_iff hx _ hframe parent navigation true

end Engine

/-! ### A refused navigation -/

/-- A browser without scripts, and URLs that are what their text says up to the colon. -/
def sampleSurroundings : Surroundings Unit Unit Unit where
  crates := { Crates.sample with
    urlParse := fun spec => some ⟨spec.takeWhile (· ≠ ':'), none, [], .opaqueOrigin 0, spec⟩ }
  withoutFragment url := url
  percentDecode text := text
  decodeDataUrl _ := some ("text/plain;charset=US-ASCII".toList, [])
  noPolicy := ()
  blank := ⟨"about".toList, none, "blank".toList, .opaqueOrigin 0, "about:blank".toList⟩
  srcdocUrl := ⟨"about".toList, none, "srcdoc".toList, .opaqueOrigin 0, "about:srcdoc".toList⟩
  checkFrame _ _ := []
  checkScript _ _ _ := []
  blocks _ := false
  newOpaque _ := .opaqueOrigin 0
  base _ _ page := page.url
  frameSrc _ _ _ := none
  frameSrcdoc _ _ _ := none
  frameReferrerPolicy _ _ _ := none
  sandboxingFlags _ _ _ := .empty
  objectUrl _ _ _ := none
  localReferrer _ _ _ := none
  eval _ _ s := (none, s)
  fireViolations _ _ s := s
  parse _ _ s := s
  decode _ _ := []

theorem quiet_sampleSurroundings : sampleSurroundings.Quiet :=
  ⟨fun _ _ _ _ => rfl, fun _ _ _ _ => rfl, fun _ _ _ _ => rfl⟩

/-- A page with an `iframe`, frame 1, still on its initial document. -/
def sampleEngine : Engine Unit Unit where
  pages := {
    frames := (Dict.singleton 0 samplePage).insert 1 samplePage
    tree := {
      frameForContainer := fun _ => some 1
      container := fun _ => none
      parent := fun frame => if frame = 1 then some 0 else none
      contains := fun frame => frame ≤ 1
      chooseNavigable := fun _ frame => some frame
      isInclusiveDescendant := fun _ _ => true
      auxiliaryOpener := fun _ => none
      topLevel := fun _ => 0
      popupSandbox := fun _ => .empty }
    runtime := () }
  frameHistory := .singleton 1 ⟨[.default], 0, none⟩
  pendingEvents := []
  standaloneHistory := false
where
  samplePage : Page Unit :=
    ⟨0, sampleSurroundings.blank, none, none, sampleSurroundings.blank, .opaqueOrigin 0, (), .empty,
      false, true, []⟩

/-- The `src` of the `iframe` is set to `spec`. -/
def sampleNavigation (spec : String) : FrameNavigation := .get (.container 7) spec.toList

theorem unrecorded_perform_empty :
    Engine.Unrecorded sampleEngine
      (sampleEngine.perform sampleSurroundings 1 0 (sampleNavigation "") true) 1 :=
  (Engine.unrecorded_perform_iff quiet_sampleSurroundings sampleEngine (by decide) 0
    (sampleNavigation "") true).2 (.inr fun url h => by cases h) rfl

/-- The URL of a blob that is not there. -/
theorem not_unrecorded_blob :
    ¬ ∀ (x : Surroundings Unit Unit Unit), x.Quiet → ∀ (e : Engine Unit Unit) (child : FrameId),
      child ≠ .main → ∀ (initiator : FrameId) (navigation : FrameNavigation) (replace : Bool),
      Pages.Keeps e.pages (e.perform x child initiator navigation replace).pages child →
      Engine.Unrecorded e (e.perform x child initiator navigation replace) child := by
  intro hall
  have hrecorded := hall sampleSurroundings quiet_sampleSurroundings sampleEngine 1 (by decide) 0
    (sampleNavigation "blob:a") true rfl
  have hevents : (sampleEngine.perform sampleSurroundings 1 0 (sampleNavigation "blob:a") true
      ).pendingEvents = [(1, .navigationStarted "blob:a".toList true 0 false)] := rfl
  obtain ⟨queued, hqueued, hnone⟩ := hrecorded.events
  rw [hevents] at hqueued
  have hmem : (1, BrowserEvent.navigationStarted "blob:a".toList true 0 false) ∈ queued := by
    rw [← (show [(1, BrowserEvent.navigationStarted "blob:a".toList true 0 false)] = queued from
      hqueued)]
    exact List.mem_singleton.2 rfl
  exact hnone _ hmem _ _ _ rfl

end TinyBrowser.Frames
