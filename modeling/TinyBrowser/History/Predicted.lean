import TinyBrowser.History.Delta
import TinyBrowser.History.Live

/-!
# Same-document pushes and the renderer's mirror

`update` with `Push` adds an entry that shares the document state of the frame's active entry. It
remembers the document before it drops the forward branch, which also drops the names that no entry
needs any more: the name stays if it has no name, or if an entry at or before the current step
presents the document too.

A script that pushes or replaces its state reads `history.length` and `history.state` before the
browser has heard of it. The renderer applies the update to its mirror (`HistorySnapshot::apply` in
`crates/renderer/src/protocol.rs`) with two numbers; the browser drops the forward entries of every
frame and counts the steps that are left.
-/

namespace TinyBrowser
open Lib

namespace SessionHistory
variable {h : SessionHistory} {f : FrameId} {a : EntryId} {e : Entry} {url : Url} {state : Text}

/-- What a same-document push of `url` and `state` leaves, when `f` presented `a`. -/
structure PushShares (h h' : SessionHistory) (f : FrameId) (a : EntryId) (url : Url)
    (state : Text) : Prop where
  active : ∃ e b, h.locate a = some e ∧ h'.activeEntry f = some b.id ∧ h'.locate b.id = some b ∧
    b.url = url ∧ b.state = some state ∧ b.title = e.title ∧ b.document = e.document ∧
      h'.name b.id = h.name a
  last : ∀ e ∈ h'.entries, e.step ≤ h'.currentStep
  mirrors : ∀ g m, h'.rendererSnapshotFor g = some m → m.length = m.index + 1

/-- `a` has no name, or its document is presented at or before the current step. -/
def NameStays (h : SessionHistory) (a : EntryId) : Prop :=
  h.name a = none ∨ ∃ e ∈ h.entries, e.step ≤ h.currentStep ∧
    (h.locate a).map Entry.document = some e.document

instance : Decidable (h.NameStays a) := inferInstanceAs (Decidable (_ ∨ _))

/-! ### Names -/

theorem get?_names_dropNames {documents : List Nat} (d : Nat) :
    (h.dropNames documents).names.get? d =
      if d ∈ documents ∧ d ∉ h.documents then none else h.names.get? d := by
  split_ifs with hgone
  · rw [Dict.get?_eq_none_iff, mem_keys_dropNames]
    exact fun hkey => hgone.2 (hkey.2 hgone.1)
  · by_cases hlive : d ∈ h.documents
    · obtain ⟨e, he, rfl⟩ := List.mem_map.1 hlive
      exact get?_dropNames documents he
    · have hd : d ∉ documents := fun hmem => hgone ⟨hmem, hlive⟩
      show (documents.foldl _ h.names).get? d = _
      generalize h.names = names
      induction documents generalizing names with
      | nil => rfl
      | cons d' documents ih =>
        rw [List.mem_cons, not_or] at hd
        rw [List.foldl_cons, ih (fun hgone => hd.2 hgone.1) hd.2]
        split_ifs
        · rfl
        · rw [Dict.get?_erase, if_neg hd.1]

theorem get?_names_truncateForward (he : e ∈ h.entries) :
    h.truncateForward.names.get? e.document =
      if ∃ e' ∈ h.entries, e'.step ≤ h.currentStep ∧ e'.document = e.document then
        h.names.get? e.document else none := by
  have hdrop : h.truncateForward.names.get? e.document =
      if e.document ∈ (h.entries.filter fun e => h.currentStep < e.step).map Entry.document ∧ _ then none
      else _ := get?_names_dropNames e.document
  refine hdrop.trans ?_
  have hlive : e.document ∈ documents { h with
      entries := h.entries.filter fun e => e.step ≤ h.currentStep
      frames := h.truncateForward.frames } ↔
      ∃ e' ∈ h.entries, e'.step ≤ h.currentStep ∧ e'.document = e.document := by
    simp [documents, and_assoc]
  by_cases hstays : ∃ e' ∈ h.entries, e'.step ≤ h.currentStep ∧ e'.document = e.document
  · rw [if_pos hstays, if_neg fun hgone => hgone.2 (hlive.2 hstays)]
  · rw [if_neg hstays, if_pos]
    refine ⟨List.mem_map_of_mem (List.mem_filter.2 ⟨he, decide_eq_true ?_⟩), mt hlive.1 hstays⟩
    exact Nat.lt_of_not_le fun hle => hstays ⟨e, he, hle, rfl⟩

/-! ### Steps -/

theorem currentStepIndex_last (hu : h.CurrentUsed) (hlast : ∀ e ∈ h.entries, e.step ≤ h.currentStep) :
    h.usedSteps.length = h.currentStepIndex h.usedSteps + 1 := by
  obtain ⟨hlt, hcurrent⟩ := List.getElem?_eq_some_iff.1 hu.getElem?_usedSteps
  by_contra hne
  have hnext : h.currentStepIndex h.usedSteps + 1 < h.usedSteps.length := by omega
  have hstep := List.pairwise_iff_getElem.1 h.sorted_usedSteps _ _ hlt hnext (Nat.lt_succ_self _)
  obtain ⟨e, he, heq⟩ := mem_usedSteps.1 (List.getElem_mem hnext)
  have hle := hlast e he
  rw [hcurrent] at hstep
  omega

/-! ### The push -/

/-- The entry that the push adds. -/
def sharedEntry (h : SessionHistory) (f : FrameId) (url : Url) (state : Text) (e : Entry) : Entry :=
  { h.pushedEntry (·.frameLen f) url (some state) with document := e.document, title := e.title }

section
variable (hi : h.Inv) (hact : h.activeEntry f = some a) (hl : h.locate a = some e)
include hact hl

theorem update_push_eq : h.update f url state .push =
    (h.pushStep f (·.frameLen f) url none (some state)).2.modifyEntry h.nextEntry
      fun e' => { e' with document := e.document, title := e.title } := by
  rw [update, hact]
  dsimp only
  rw [hl]
  dsimp only
  rw [fst_pushStep]

theorem activeEntry_update_push (hi : h.Inv) :
    (h.update f url state .push).activeEntry f = some h.nextEntry := by
  have hslot : ∀ e' : Entry, { e' with document := e.document, title := e.title }.slot = e'.slot :=
    fun _ => rfl
  rw [update_push_eq hact hl, activeEntry_modifyEntry hslot]
  exact activeEntry_pushStep hi

theorem entries_update_push (hi : h.Inv) : (h.update f url state .push).entries =
    h.truncateForward.entries ++ [h.sharedEntry f url state e] := by
  rw [update_push_eq hact hl]
  exact entries_modifyEntry_pushStep hi f (·.frameLen f) url (some state)

theorem locate_update_push (hi : h.Inv) :
    (h.update f url state .push).locate h.nextEntry = some (h.sharedEntry f url state e) := by
  have hnone : h.truncateForward.entries.find? (·.id = h.nextEntry) = none := by
    refine List.find?_eq_none.2 fun e he => ?_
    simpa using Nat.ne_of_lt (hi.id_lt (List.mem_filter.1 he).1)
  rw [locate, entries_update_push hact hl hi, List.find?_append, hnone, Option.none_or]
  exact List.find?_cons_of_pos (decide_eq_true rfl)

theorem name_update_push (hi : h.Inv) : (h.update f url state .push).name h.nextEntry =
    if ∃ e' ∈ h.entries, e'.step ≤ h.currentStep ∧ e'.document = e.document then h.name a
    else none := by
  have hname : h.name a = h.names.get? e.document := by rw [name, hl, Option.bind_some]
  rw [name, locate_update_push hact hl hi, Option.bind_some, hname,
    ← get?_names_truncateForward (locate_spec hl).1, update_push_eq hact hl]
  rfl

theorem last_update_push (hi : h.Inv) :
    ∀ e' ∈ (h.update f url state .push).entries,
      e'.step ≤ (h.update f url state .push).currentStep := by
  have hcurrent : (h.update f url state .push).currentStep = saturatingSucc h.currentStep := by
    rw [update_push_eq hact hl]
    rfl
  rw [hcurrent, entries_update_push hact hl hi]
  refine List.forall_mem_append.2 ⟨fun e' he' => ?_, List.forall_mem_singleton.2 (Nat.le_refl _)⟩
  exact (step_le_of_mem_truncateForward he').trans (le_saturatingSucc _)

theorem currentUsed_update_push (hi : h.Inv) : (h.update f url state .push).CurrentUsed := by
  refine ⟨h.sharedEntry f url state e, ?_, ?_⟩
  · rw [entries_update_push hact hl hi]
    exact List.mem_append_right _ (List.mem_singleton_self _)
  · rw [update_push_eq hact hl]
    rfl

end

theorem pushShares_iff_nameStays (hi : h.Inv) (hact : h.activeEntry f = some a) (url : Url)
    (state : Text) : PushShares h (h.update f url state .push) f a url state ↔ h.NameStays a := by
  obtain ⟨e, hl⟩ := exists_locate_activeEntry hi hact
  have hactive : (h.update f url state .push).activeEntry f = some h.nextEntry :=
    activeEntry_update_push hact hl hi
  have hname : (h.update f url state .push).name h.nextEntry = h.name a ↔ h.NameStays a := by
    rw [name_update_push hact hl hi, NameStays]
    simp only [hl, Option.map_some, Option.some.injEq, eq_comm (a := e.document)]
    split_ifs with hstays
    · exact iff_of_true rfl (.inr hstays)
    · rw [or_iff_left hstays, eq_comm]
  rw [← hname]
  constructor
  · rintro ⟨⟨e', b, -, hb, -, -, -, -, -, hsame⟩, -, -⟩
    rw [hactive, Option.some.injEq] at hb
    rw [hb, hsame]
  · intro hsame
    have hlast : ∀ e' ∈ (h.update f url state .push).entries, e'.step ≤ _ :=
      last_update_push hact hl hi
    refine ⟨⟨e, h.sharedEntry f url state e, hl, hactive, locate_update_push hact hl hi, rfl, rfl, rfl,
      rfl, hsame⟩, hlast, fun g m hm => ?_⟩
    obtain ⟨ids, -, rfl⟩ := Option.map_eq_some_iff.1 hm
    exact currentStepIndex_last (currentUsed_update_push hact hl hi) hlast

/-- A same-document push shares its document state exactly when the name stays. -/
theorem pushShares_iff {blank : Url} {blankName : Option ContextName} {selected : List Nat}
    (hr : Reachable blank blankName selected h) (hfit : h.Fits) (hact : h.activeEntry f = some a)
    (url : Url) (state : Text) :
    PushShares h (h.update f url state .push) f a url state ↔ h.NameStays a :=
  pushShares_iff_nameStays (hr.inv hfit).1 hact url state

/-- A child frame with a name is created at step 1, and the tab goes back. -/
def namedOps (name : Option ContextName) : List HistoryOp :=
  [.update FrameId.main .sample [] .push, .addFrame 1 .sample name, .setCurrentStep (.delta (-1))]

theorem pushShares_iff_namedOps :
    PushShares ((new .sample none).run (namedOps none))
      (((new .sample none).run (namedOps none)).update 1 .sample [] .push) 1 2 .sample [] ↔
        ((new .sample none).run (namedOps none)).NameStays 2 :=
  pushShares_iff (reachable_run .sample none (namedOps none)) (fits_run _ _ (by decide))
    (by decide +kernel) .sample []

def sampleName : ContextName := ⟨"n".toList, by decide, by decide⟩

/-- The push drops the frame's entry, and its name with it. -/
theorem not_pushShares_namedOps :
    ((new .sample none).run (namedOps (some sampleName))).activeEntry 1 = some 2 ∧
    ¬ PushShares ((new .sample none).run (namedOps (some sampleName)))
      (((new .sample none).run (namedOps (some sampleName))).update 1 .sample [] .push) 1 2
        .sample [] := by
  have hi : ((new .sample none).run (namedOps (some sampleName))).Inv :=
    (Inv.new .sample none).run (fits_run _ _ (by decide))
  have hact : ((new .sample none).run (namedOps (some sampleName))).activeEntry 1 = some 2 := by
    decide +kernel
  refine ⟨hact, fun hshares => ?_⟩
  have hstays := (pushShares_iff_nameStays hi hact .sample []).1 hshares
  exact absurd hstays (by decide +kernel)

end SessionHistory

/-! ### The renderer's mirror of an update -/

/-- Mirrors one same-document update: a push clears the forward branch and appends one step. -/
def RendererHistorySnapshot.apply (m : RendererHistorySnapshot) (state : Text) :
    HistoryHandling → RendererHistorySnapshot
  | .push =>
    let index := saturatingSucc m.index
    { m with state := some state, index, length := saturatingSucc index }
  | .replace => { m with state := some state }

namespace SessionHistory
variable {h : SessionHistory} {f : FrameId} {a : EntryId} {e : Entry} {url : Url} {state : Text}

/-! ### The steps after a push -/

theorem length_usedSteps_le (hi : h.Inv) : h.usedSteps.length ≤ h.nextEntry := by
  have hsub : h.usedSteps ⊆ List.range h.nextEntry := by
    intro step hstep
    obtain ⟨e, he, rfl⟩ := mem_usedSteps.1 hstep
    exact List.mem_range.2 (hi.step_lt he)
  have hnodup : h.usedSteps.Nodup := h.sorted_usedSteps.imp Nat.ne_of_lt
  have hle := (List.subperm_of_subset hnodup hsub).length_le
  rwa [List.length_range] at hle

theorem length_filter_usedSteps (hu : h.CurrentUsed) :
    (h.usedSteps.filter (· ≤ h.currentStep)).length = h.currentStepIndex h.usedSteps + 1 := by
  obtain ⟨hlt, hcurrent⟩ := List.getElem?_eq_some_iff.1 hu.getElem?_usedSteps
  have hsplit := List.take_append_drop (h.currentStepIndex h.usedSteps + 1) h.usedSteps
  have hsorted := h.sorted_usedSteps
  rw [← hsplit, List.take_succ_eq_append_getElem hlt, hcurrent, List.append_assoc] at hsorted
  obtain ⟨-, hrest, hbefore⟩ := List.pairwise_append.1 hsorted
  have hkept : ∀ step ∈ h.usedSteps.take (h.currentStepIndex h.usedSteps + 1),
      decide (step ≤ h.currentStep) = true := by
    intro step hstep
    rw [List.take_succ_eq_append_getElem hlt, hcurrent, List.mem_append, List.mem_singleton] at hstep
    rcases hstep with hstep | rfl
    · exact decide_eq_true (Nat.le_of_lt (hbefore step hstep _ List.mem_cons_self))
    · exact decide_eq_true (Nat.le_refl _)
  have hdropped : ∀ step ∈ h.usedSteps.drop (h.currentStepIndex h.usedSteps + 1),
      ¬ decide (step ≤ h.currentStep) = true := by
    intro step hstep
    have hlater := (List.pairwise_cons.1 hrest).1 step hstep
    simpa using hlater
  have hfilter := congrArg (List.filter (· ≤ h.currentStep)) hsplit
  rw [List.filter_append, List.filter_eq_self.2 hkept, List.filter_eq_nil_iff.2 hdropped,
    List.append_nil] at hfilter
  rw [← hfilter, List.length_take]
  omega

/-- A push leaves the steps up to the current one, and adds one. -/
theorem length_usedSteps_update_push (hi : h.Inv) (hfit : h.Fits) (hu : h.CurrentUsed)
    (hact : h.activeEntry f = some a) (hl : h.locate a = some e) :
    (h.update f url state .push).usedSteps.length = h.currentStepIndex h.usedSteps + 2 := by
  have hnext : saturatingSucc h.currentStep = h.currentStep + 1 :=
    saturatingSucc_currentStep hi hfit.entry
  have hmem : ∀ step, step ∈ (h.update f url state .push).usedSteps ↔
      step ∈ h.usedSteps.filter (· ≤ h.currentStep) ++ [h.currentStep + 1] := by
    intro step
    rw [mem_usedSteps, entries_update_push hact hl hi, List.mem_append, List.mem_filter,
      mem_usedSteps, List.mem_singleton, decide_eq_true_eq]
    constructor
    · rintro ⟨e', he', rfl⟩
      rcases List.mem_append.1 he' with he' | he'
      · exact .inl ⟨⟨e', (List.mem_filter.1 he').1, rfl⟩, step_le_of_mem_truncateForward he'⟩
      · rw [List.mem_singleton.1 he', ← hnext]
        exact .inr rfl
    · rintro (⟨⟨e', he', rfl⟩, hle⟩ | rfl)
      · exact ⟨e', List.mem_append_left _ (List.mem_filter.2 ⟨he', decide_eq_true hle⟩), rfl⟩
      · exact ⟨_, List.mem_append_right _ (List.mem_singleton_self _), hnext⟩
  have hnodup : (h.usedSteps.filter (· ≤ h.currentStep) ++ [h.currentStep + 1]).Nodup := by
    refine List.nodup_append.2 ⟨(h.sorted_usedSteps.imp Nat.ne_of_lt).filter _,
      List.nodup_singleton _, ?_⟩
    intro step hstep last hlast
    have hle : step ≤ h.currentStep := by simpa using (List.mem_filter.1 hstep).2
    rw [List.mem_singleton.1 hlast]
    omega
  have hperm := (List.perm_ext_iff_of_nodup
    ((h.update f url state .push).sorted_usedSteps.imp Nat.ne_of_lt) hnodup).2 hmem
  rw [hperm.length_eq, List.length_append, length_filter_usedSteps hu, List.length_singleton]

/-! ### The mirror -/

/-- The mirror after the update has what `apply` makes of the mirror before it. -/
structure Predicts (h : SessionHistory) (f : FrameId) (url : Url) (state : Text)
    (handling : HistoryHandling) (m m' : RendererHistorySnapshot) : Prop where
  before : h.rendererSnapshotFor f = some m
  after : (h.update f url state handling).rendererSnapshotFor f = some m'
  length_eq : (m.apply state handling).length = m'.length
  index_eq : (m.apply state handling).index = m'.index
  state_eq : (m.apply state handling).state = m'.state

theorem exists_rendererSnapshotFor (hact : h.activeEntry f = some a) (hl : h.locate a = some e) :
    ∃ m, h.rendererSnapshotFor f = some m ∧ m.length = h.usedSteps.length ∧
      m.index = h.currentStepIndex h.usedSteps ∧ m.state = e.state := by
  obtain ⟨ids, hids, -⟩ := Option.bind_eq_some_iff.1 hact
  refine ⟨_, Option.map_eq_some_iff.2 ⟨ids, hids, rfl⟩, rfl, rfl, ?_⟩
  dsimp only
  rw [hact, Option.bind_some, hl, Option.bind_some]

theorem predicts_replace (hi : h.Inv) (hact : h.activeEntry f = some a) (hl : h.locate a = some e)
    (url : Url) (state : Text) : ∃ m m', h.Predicts f url state .replace m m' := by
  have hslot : ∀ e : Entry, { e with url, state := some state }.slot = e.slot := fun _ => rfl
  have hstep : ∀ e : Entry, { e with url, state := some state }.step = e.step := fun _ => rfl
  have hupdate : h.update f url state .replace =
      h.modifyEntry a fun e => { e with url, state := some state } := by
    rw [update, hact]
  have hactive : (h.update f url state .replace).activeEntry f = some a := by
    rw [hupdate, activeEntry_modifyEntry hslot, hact]
  have hlocated : (h.update f url state .replace).locate a = some { e with url, state := some state } := by
    obtain ⟨-, rfl⟩ := locate_spec hl
    rw [hupdate]
    refine locate_of_mem (hi.modifyEntry hslot fun _ => rfl) (e := { e with url, state := some state }) ?_
    refine List.mem_of_getElem? (i := h.entries.findIdx (·.id = e.id)) ?_
    rw [SessionHistory.modifyEntry, List.getElem?_modify_eq, getElem?_findIdx_of_locate hl]
    rfl
  have hsteps : (h.update f url state .replace).usedSteps = h.usedSteps := by
    rw [hupdate, usedSteps, SessionHistory.modifyEntry]
    dsimp only
    rw [map_modify hstep]
    rfl
  have hindex : (h.update f url state .replace).currentStepIndex h.usedSteps =
      h.currentStepIndex h.usedSteps := by
    rw [hupdate]
    rfl
  obtain ⟨m, hm, hlength, hposition, -⟩ := exists_rendererSnapshotFor hact hl
  obtain ⟨m', hm', hlength', hposition', hstate'⟩ := exists_rendererSnapshotFor hactive hlocated
  rw [hsteps] at hlength' hposition'
  exact ⟨m, m', hm, hm', hlength.trans hlength'.symm,
    hposition.trans (hposition'.trans hindex).symm, hstate'.symm⟩

theorem predicts_push (hi : h.Inv) (hfit : h.Fits) (hu : h.CurrentUsed)
    (hact : h.activeEntry f = some a) (hl : h.locate a = some e) (url : Url) (state : Text) :
    ∃ m m', h.Predicts f url state .push m m' := by
  have hactive : (h.update f url state .push).activeEntry f = some h.nextEntry :=
    activeEntry_update_push hact hl hi
  have hused : (h.update f url state .push).CurrentUsed := currentUsed_update_push hact hl hi
  have hcount : (h.update f url state .push).usedSteps.length = _ :=
    length_usedSteps_update_push hi hfit hu hact hl
  have hlast := currentStepIndex_last hused (last_update_push hact hl hi)
  obtain ⟨hlt, -⟩ := List.getElem?_eq_some_iff.1 hu.getElem?_usedSteps
  have hbound := length_usedSteps_le hi
  have hentry := hfit.entry
  have hindex : saturatingSucc (h.currentStepIndex h.usedSteps) =
      h.currentStepIndex h.usedSteps + 1 := if_pos (by omega)
  have hindex' : saturatingSucc (h.currentStepIndex h.usedSteps + 1) =
      h.currentStepIndex h.usedSteps + 2 := if_pos (by omega)
  obtain ⟨m, hm, hlength, hposition, -⟩ := exists_rendererSnapshotFor hact hl
  obtain ⟨m', hm', hlength', hposition', hstate'⟩ :=
    exists_rendererSnapshotFor hactive (locate_update_push hact hl hi)
  refine ⟨m, m', hm, hm', ?_, ?_, hstate'.symm⟩
  · show saturatingSucc (saturatingSucc m.index) = m'.length
    rw [hposition, hindex, hindex', hlength', hcount]
  · show saturatingSucc m.index = m'.index
    rw [hposition, hindex, hposition']
    omega

/-- The renderer's mirror predicts what the browser reports after every update. -/
theorem predicts {blank : Url} {name : Option ContextName} {selected : List Nat}
    (hr : Reachable blank name selected h) (hfit : h.Fits) (hu : h.CurrentUsed)
    (hact : h.activeEntry f = some a) (url : Url) (state : Text) (handling : HistoryHandling) :
    ∃ m m', h.Predicts f url state handling m m' := by
  have hi := (hr.inv hfit).1
  obtain ⟨e, hl⟩ := exists_locate_activeEntry hi hact
  cases handling with
  | push => exact predicts_push hi hfit hu hact hl url state
  | replace => exact predicts_replace hi hact hl url state

/-- A tab that went back pushes in its child frame. -/
theorem predicts_namedOps :
    ∃ m m', ((new .sample none).run (namedOps none)).Predicts 1 .sample [] .push m m' :=
  predicts (reachable_run .sample none (namedOps none)) (fits_run _ _ (by decide))
    ((CurrentUsed.new .sample none).run (Inv.new _ _) (fits_run _ _ (by decide)))
    (a := 2) (by decide +kernel) .sample [] .push

end SessionHistory

end TinyBrowser
