import TinyBrowser.History.Growth

/-!
# The entry the main frame presents

`ActiveMainAt h step e` says, in terms of entries, that `e` is the main frame's entry at `step`; under
the invariant it is the one `activeEntryAt` returns. The lemmas here say what each change of the
history does to it: nothing, when the change is to a child frame, drops child frames, or moves to a
step with the same entry. `Shows h url` is the case of the current step.
-/

namespace TinyBrowser
open Lib

def Commit.url : Commit → Url
  | .push url _ => url
  | .traverse _ url => url

namespace SessionHistory
variable {h h' : SessionHistory} {id : EntryId} {e e' : Entry} {f : FrameId} {step : Nat} {url : Url}

/-- An entry of the main frame. -/
def AtMain (h : SessionHistory) (e : Entry) : Prop := e ∈ h.entries ∧ e.id ∈ h.idsOf FrameId.main

structure ActiveMainAt (h : SessionHistory) (step : Nat) (e : Entry) : Prop where
  mem : h.AtMain e
  le : e.step ≤ step
  max : ∀ e', h.AtMain e' → e'.step ≤ step → e'.step ≤ e.step

/-- The main frame presents `url` at `step`. -/
def ShowsAt (h : SessionHistory) (step : Nat) (url : Url) : Prop :=
  ∃ e, h.ActiveMainAt step e ∧ e.url = url

def Shows (h : SessionHistory) (url : Url) : Prop := h.ShowsAt h.currentStep url

theorem mem_mainEntries (hi : h.Inv) : e ∈ h.mainEntries ↔ h.AtMain e := by
  show e ∈ (h.idsOf FrameId.main).filterMap h.locate ↔ _
  rw [List.mem_filterMap]
  constructor
  · rintro ⟨id, hid, hl⟩
    obtain ⟨he, rfl⟩ := locate_spec hl
    exact ⟨he, hid⟩
  · rintro ⟨he, hid⟩
    exact ⟨e.id, hid, locate_of_mem hi he⟩

theorem exists_activeMainAt (hi : h.Inv) (step : Nat) : ∃ e, h.ActiveMainAt step e := by
  obtain ⟨e, he, -, hle, hmax⟩ := hi.activeEntryAt_main step
  exact ⟨e, (mem_mainEntries hi).1 he, hle, fun e' he' => hmax e' ((mem_mainEntries hi).2 he')⟩

/-- Entries of the main frame at one step are one entry. -/
theorem AtMain.eq_of_step (hi : h.Inv) (he : h.AtMain e) (he' : h.AtMain e')
    (hs : e.step = e'.step) : e = e' := by
  have hnodup : (h.mainEntries.map Entry.step).Nodup :=
    hi.mainEntries.sorted.imp fun hlt => Nat.ne_of_lt hlt
  exact List.inj_on_of_nodup_map hnodup ((mem_mainEntries hi).2 he) ((mem_mainEntries hi).2 he') hs

theorem ActiveMainAt.activeEntryAt (ha : h.ActiveMainAt step e) (hi : h.Inv) :
    h.activeEntryAt FrameId.main step = some e.id := by
  obtain ⟨e', he', hact, hle, hmax⟩ := hi.activeEntryAt_main step
  have hmem := (mem_mainEntries hi).1 he'
  have hstep : e.step = e'.step :=
    Nat.le_antisymm (hmax e ((mem_mainEntries hi).2 ha.mem) ha.le) (ha.max e' hmem hle)
  rw [hact, ha.mem.eq_of_step hi hmem hstep]

theorem Shows.entryUrl (hs : h.Shows url) (hi : h.Inv) :
    (h.activeEntry FrameId.main).bind h.entryUrl = some url := by
  obtain ⟨e, ha, rfl⟩ := hs
  rw [activeEntry, ha.activeEntryAt hi, Option.bind_some, SessionHistory.entryUrl,
    locate_of_mem hi ha.mem.1, Option.map_some]

theorem ActiveMainAt.of_step (he : h.AtMain e) (hs : e.step = step) : h.ActiveMainAt step e :=
  ⟨he, Nat.le_of_eq hs, fun _ _ hle => hs ▸ hle⟩

theorem ActiveMainAt.congr (ha : h.ActiveMainAt step e) (hm : ∀ e', h'.AtMain e' ↔ h.AtMain e') :
    h'.ActiveMainAt step e :=
  ⟨(hm e).2 ha.mem, ha.le, fun e' he' => ha.max e' ((hm e').1 he')⟩

theorem Shows.congr (hs : h.Shows url) (hm : ∀ e', h'.AtMain e' ↔ h.AtMain e')
    (hc : h'.currentStep = h.currentStep) : h'.Shows url := by
  obtain ⟨e, ha, hu⟩ := hs
  exact ⟨e, hc ▸ ha.congr hm, hu⟩

theorem ShowsAt.setCurrentStep (hs : h.ShowsAt step url) (current : Nat) :
    (h.setCurrentStep current).ShowsAt step url := by
  obtain ⟨e, ha, hu⟩ := hs
  exact ⟨e, ha.congr fun _ => Iff.rfl, hu⟩

/-! ### Rewriting an entry -/

variable {k : Entry → Entry}

theorem modify_findIdx_eq_map {l : List Entry}
    (hn : (l.map Entry.id).Nodup) : l.modify (l.findIdx (·.id = id)) k =
      l.map fun e => if e.id = id then k e else e := by
  induction l with
  | nil => rfl
  | cons e l ih =>
    rw [List.map_cons, List.nodup_cons] at hn
    rw [List.findIdx_cons, List.map_cons]
    by_cases he : e.id = id
    · have htail : (l.map fun e => if e.id = id then k e else e) = l := by
        refine (List.map_congr_left fun e' he' => if_neg fun heq => ?_).trans (List.map_id l)
        exact hn.1 (he.trans heq.symm ▸ List.mem_map_of_mem he')
      rw [htail]
      simp [he]
    · rw [← ih hn.2]
      simp [he]

theorem Inv.nodup_ids (hi : h.Inv) : (h.entries.map Entry.id).Nodup := by
  have := hi.slots.nodup
  rwa [SessionHistory.slots, List.map_map] at this

theorem atMain_modifyEntry (hi : h.Inv) (hk : ∀ e, (k e).slot = e.slot) :
    (h.modifyEntry id k).AtMain e' ↔ ∃ e, h.AtMain e ∧ e' = if e.id = id then k e else e := by
  have hid : ∀ e : Entry, (if e.id = id then k e else e).id = e.id := by
    intro e
    split_ifs
    · exact congrArg Slot.id (hk e)
    · rfl
  unfold AtMain
  rw [SessionHistory.modifyEntry, modify_findIdx_eq_map hi.nodup_ids]
  constructor
  · rintro ⟨hmem, hmain⟩
    obtain ⟨e, he, rfl⟩ := List.mem_map.1 hmem
    exact ⟨e, ⟨he, hid e ▸ hmain⟩, rfl⟩
  · rintro ⟨e, ⟨he, hmain⟩, rfl⟩
    refine ⟨List.mem_map_of_mem he, ?_⟩
    rw [hid e]
    exact hmain

theorem ActiveMainAt.modifyEntry (hi : h.Inv) (ha : h.ActiveMainAt step e)
    (hk : ∀ e, (k e).slot = e.slot) :
    (h.modifyEntry id k).ActiveMainAt step (if e.id = id then k e else e) := by
  have hstep : ∀ e : Entry, (if e.id = id then k e else e).step = e.step := by
    intro e
    split_ifs
    · exact congrArg Slot.step (hk e)
    · rfl
  refine ⟨(atMain_modifyEntry hi hk).2 ⟨e, ha.mem, rfl⟩, (hstep e).symm ▸ ha.le, fun e' he' hle => ?_⟩
  obtain ⟨e'', he'', rfl⟩ := (atMain_modifyEntry hi hk).1 he'
  rw [hstep e''] at hle ⊢
  rw [hstep e]
  exact ha.max e'' he'' hle

/-- Rewriting an entry of a child frame, or anything but the URL. -/
theorem Shows.modifyEntry (hi : h.Inv) (hs : h.Shows url)
    (hk : ∀ e, (k e).slot = e.slot)
    (hu : id ∈ h.idsOf FrameId.main → ∀ e, (k e).url = e.url) : (h.modifyEntry id k).Shows url := by
  obtain ⟨e, ha, hurl⟩ := hs
  refine ⟨_, ha.modifyEntry hi hk, ?_⟩
  split_ifs with hid
  · rw [hu (hid ▸ ha.mem.2), hurl]
  · exact hurl

variable {name : Option ContextName}

theorem atMain_redocument {k : Nat → Entry → Entry} :
    (h.redocument id k name e).AtMain e' ↔ (h.modifyEntry id (k h.nextDocument)).AtMain e' := by
  unfold AtMain idsOf
  rw [entries_redocument, frames_redocument]
  rfl

variable {url' : Url}

theorem Shows.replaceEntry (hi : h.Inv) (hs : h.Shows url)
    (hid : id ∉ h.idsOf FrameId.main) : (h.replaceEntry id url' name).Shows url := by
  rw [replaceEntry_eq]
  split
  · exact hs
  · refine Shows.congr (Shows.modifyEntry hi hs ?_ fun hmain => absurd hmain hid)
      (fun e' => atMain_redocument) (currentStep_redocument _ _)
    exact fun _ => rfl

/-! ### Entries of child frames -/

theorem lt_of_mem_idsOf (hi : h.Inv) (hid : id ∈ h.idsOf f) : id < h.nextEntry := by
  obtain ⟨ids, hids, hmem⟩ := mem_idsOf.1 hid
  obtain ⟨s, hs, rfl⟩ := hi.slots.owned hids hmem
  exact hi.slots.id_lt s hs

theorem eq_of_mem_idsOf (hi : h.Inv) {g : FrameId} (hf : id ∈ h.idsOf f) (hg : id ∈ h.idsOf g) :
    f = g := by
  obtain ⟨ids, hids, hmem⟩ := mem_idsOf.1 hf
  obtain ⟨ids', hids', hmem'⟩ := mem_idsOf.1 hg
  exact hi.slots.disjoint hids hids' hmem hmem'

theorem atMain_insertEntry (hi : h.Inv) (hf : f ≠ FrameId.main) {localIndex : Nat} {url : Url}
    {state : Option Text} :
    (h.insertEntry f step localIndex url name state).2.AtMain e' ↔ h.AtMain e' := by
  have hids : (h.insertEntry f step localIndex url name state).2.idsOf FrameId.main =
      h.idsOf FrameId.main := by
    rw [idsOf, frames_insertEntry, Dict.get?_insert, if_neg (Ne.symm hf), idsOf]
  unfold AtMain
  rw [hids, entries_insertEntry, List.mem_append, List.mem_singleton]
  constructor
  · rintro ⟨hmem | rfl, hid⟩
    · exact ⟨hmem, hid⟩
    · exact absurd (lt_of_mem_idsOf hi hid) (Nat.lt_irrefl _)
  · exact fun h => ⟨.inl h.1, h.2⟩

theorem Shows.addFrame (hi : h.Inv) (hs : h.Shows url) :
    (h.addFrame f url' name).Shows url := by
  unfold SessionHistory.addFrame
  split_ifs with hf
  · exact hs
  · simp only [Bool.or_eq_true, decide_eq_true_eq, not_or] at hf
    exact hs.congr (fun e' => atMain_insertEntry hi hf.1) (currentStep_insertEntry _ _ _ _ _)

theorem Shows.withFrame (hi : h.Inv) (hs : h.Shows url) :
    (h.withFrame f url').Shows url := by
  unfold SessionHistory.withFrame
  split_ifs
  · exact hs
  · exact hs.addFrame hi

theorem mem_idsOf_truncateForward_iff :
    e.id ∈ h.truncateForward.idsOf f ↔
      e.id ∈ h.idsOf f ∧ ∃ e' ∈ h.entries, e'.step ≤ h.currentStep ∧ e'.id = e.id := by
  have hget : h.truncateForward.frames.get? f = (h.frames.get? f).map fun ids => ids.filter
      (· ∈ (h.entries.filter fun e => e.step ≤ h.currentStep).map Entry.id) :=
    Dict.get?_mapVal _ _ _
  unfold idsOf
  rw [hget]
  cases h.frames.get? f with
  | none => simp
  | some ids => simp [and_assoc]

theorem atMain_truncateForward :
    h.truncateForward.AtMain e' ↔ h.AtMain e' ∧ e'.step ≤ h.currentStep := by
  unfold AtMain
  constructor
  · rintro ⟨hmem, hid⟩
    obtain ⟨hmem, hle⟩ := List.mem_filter.1 hmem
    exact ⟨⟨hmem, (mem_idsOf_truncateForward_iff.1 hid).1⟩, by simpa using hle⟩
  · rintro ⟨⟨hmem, hid⟩, hle⟩
    refine ⟨List.mem_filter.2 ⟨hmem, by simpa using hle⟩, ?_⟩
    exact mem_idsOf_truncateForward_iff.2 ⟨hid, e', hmem, hle, rfl⟩

/-- A push in a child frame drops the main frame's forward entries. -/
theorem Shows.pushStep (hi : h.Inv) (hs : h.Shows url) (hf : f ≠ FrameId.main)
    {localIndex : SessionHistory → Nat}
    {state : Option Text} : (h.pushStep f localIndex url' name state).2.Shows url := by
  obtain ⟨e, ha, hurl⟩ := hs
  have hm : ∀ e', (h.pushStep f localIndex url' name state).2.AtMain e' ↔
      h.AtMain e' ∧ e'.step ≤ h.currentStep := fun e' =>
    (atMain_insertEntry hi.truncateForward hf).trans atMain_truncateForward
  refine ⟨e, ⟨(hm e).2 ⟨ha.mem, ha.le⟩, ?_, fun e' he' _ => ?_⟩, hurl⟩
  · rw [currentStep_pushStep]
    exact Nat.le_trans ha.le (le_saturatingSucc _)
  · exact ha.max e' ((hm e').1 he').1 ((hm e').1 he').2

/-! ### Dropping child frames -/

theorem clampCurrentStep_eq (h : SessionHistory) :
    ∃ step, h.clampCurrentStep = { h with currentStep := step } := by
  unfold clampCurrentStep
  split <;> exact ⟨_, rfl⟩

/-- A removed frame: nothing for the main frame or one that is not there, else `dropFrame` and a
clamped step. -/
theorem removeFrame_cases (h : SessionHistory) (f : FrameId) : h.removeFrame f = h ∨
    ∃ ids step, f ≠ FrameId.main ∧ h.frames.get? f = some ids ∧
      h.removeFrame f = { h.dropFrame f ids with currentStep := step } := by
  rw [removeFrame_eq]
  split_ifs with hf
  · exact .inl rfl
  · split
    · exact .inl rfl
    · rename_i ids hids
      obtain ⟨step, heq⟩ := clampCurrentStep_eq (h.dropFrame f ids)
      exact .inr ⟨ids, step, hf, hids, heq⟩

theorem idsOf_main_removeFrame :
    (h.removeFrame f).idsOf FrameId.main = h.idsOf FrameId.main := by
  rcases removeFrame_cases h f with heq | ⟨ids, step, hf, -, heq⟩
  · rw [heq]
  · rw [heq]
    show ((h.frames.erase f).get? FrameId.main).getD [] = _
    rw [Dict.get?_erase, if_neg (Ne.symm hf), idsOf]

theorem nextDocument_removeFrame : (h.removeFrame f).nextDocument = h.nextDocument := by
  rcases removeFrame_cases h f with heq | ⟨ids, step, -, -, heq⟩ <;> rw [heq]
  rfl

theorem pending_removeFrame {g : FrameId} {c : PendingChange}
    (hc : (h.removeFrame f).pending.get? g = some c) : h.pending.get? g = some c := by
  rcases removeFrame_cases h f with heq | ⟨ids, step, -, -, heq⟩
  · rwa [heq] at hc
  · rw [heq] at hc
    have hc : (h.pending.erase f).get? g = some c := hc
    rw [Dict.get?_erase] at hc
    split_ifs at hc
    exact hc

theorem atMain_removeFrame (hi : h.Inv) : (h.removeFrame f).AtMain e' ↔ h.AtMain e' := by
  unfold AtMain
  rw [idsOf_main_removeFrame]
  rcases removeFrame_cases h f with heq | ⟨ids, step, hf, hids, heq⟩
  · rw [heq]
  · rw [heq]
    constructor
    · exact fun h => ⟨(List.mem_filter.1 h.1).1, h.2⟩
    · rintro ⟨hmem, hid⟩
      refine ⟨List.mem_filter.2 ⟨hmem, decide_eq_true fun hin => hf ?_⟩, hid⟩
      exact eq_of_mem_idsOf hi (mem_idsOf.2 ⟨ids, hids, hin⟩) hid

/-- Dropping the names of documents that nothing presents keeps the others. -/
theorem get?_dropNames (documents : List Nat) {e : Entry} (he : e ∈ h.entries) :
    (h.dropNames documents).names.get? e.document = h.names.get? e.document := by
  show (documents.foldl _ h.names).get? e.document = _
  generalize h.names = names
  induction documents generalizing names with
  | nil => rfl
  | cons d documents ih =>
    rw [List.foldl_cons, ih]
    split_ifs with hd
    · rfl
    · rw [Dict.get?_erase, if_neg]
      rintro rfl
      exact hd (List.any_eq_true.2 ⟨e, he, decide_eq_true rfl⟩)

theorem names_removeFrame (hi : h.Inv) (he : h.AtMain e) :
    (h.removeFrame f).names.get? e.document = h.names.get? e.document := by
  have hkept := ((atMain_removeFrame (f := f) hi).2 he).1
  rcases removeFrame_cases h f with heq | ⟨ids, step, -, -, heq⟩
  · rw [heq]
  · rw [heq] at hkept ⊢
    exact get?_dropNames _ hkept

/-- How a dropped frame moves the current step: back to the greatest step that is still used. -/
structure StepBack (h h' : SessionHistory) : Prop where
  sub : ∀ e ∈ h'.entries, e ∈ h.entries
  le : h'.currentStep ≤ h.currentStep
  max : ∀ e ∈ h'.entries, e.step ≤ h.currentStep → e.step ≤ h'.currentStep

theorem StepBack.refl (h : SessionHistory) : StepBack h h :=
  ⟨fun _ he => he, Nat.le_refl _, fun _ _ hle => hle⟩

theorem stepBack_removeFrame (hi : h.Inv) (f : FrameId) : StepBack h (h.removeFrame f) := by
  rw [removeFrame_eq]
  split_ifs with hf
  · exact StepBack.refl h
  · split
    · exact StepBack.refl h
    · rename_i ids hids
      obtain ⟨e, he, hid, h0⟩ := hi.exists_main hids hf
      have hmem : e ∈ (h.dropFrame f ids).entries := List.mem_filter.2 ⟨he, decide_eq_true hid⟩
      obtain ⟨step, heq, hle, -, hmax⟩ := clampCurrentStep_spec ⟨e, hmem, by rw [h0]; omega⟩
      rw [heq]
      exact ⟨fun e he => (List.mem_filter.1 he).1, hle, hmax⟩

/-- What a history loses with child frames and pending changes. The main frame keeps its entries. -/
structure Sheds (h h' : SessionHistory) : Prop where
  inv : h'.Inv
  nextEntry : h'.nextEntry = h.nextEntry
  nextDocument : h'.nextDocument = h.nextDocument
  main : h'.idsOf FrameId.main = h.idsOf FrameId.main
  atMain : ∀ e, h'.AtMain e ↔ h.AtMain e
  ids : ∀ f id, id ∈ h'.idsOf f → id ∈ h.idsOf f
  pending : ∀ f c, h'.pending.get? f = some c → h.pending.get? f = some c
  names : ∀ e, h.AtMain e → h'.names.get? e.document = h.names.get? e.document
  back : StepBack h h'

namespace Sheds
variable {h'' : SessionHistory}

theorem refl (hi : h.Inv) : Sheds h h :=
  ⟨hi, rfl, rfl, rfl, fun _ => Iff.rfl, fun _ _ h => h, fun _ _ h => h, fun _ _ => rfl, StepBack.refl h⟩

theorem trans (hs : Sheds h h') (hs' : Sheds h' h'') : Sheds h h'' where
  inv := hs'.inv
  nextEntry := hs'.nextEntry.trans hs.nextEntry
  nextDocument := hs'.nextDocument.trans hs.nextDocument
  main := hs'.main.trans hs.main
  atMain e := (hs'.atMain e).trans (hs.atMain e)
  ids f id hid := hs.ids f id (hs'.ids f id hid)
  pending f c hc := hs.pending f c (hs'.pending f c hc)
  names e he := (hs'.names e ((hs.atMain e).2 he)).trans (hs.names e he)
  back := {
    sub := fun e he => hs.back.sub e (hs'.back.sub e he)
    le := Nat.le_trans hs'.back.le hs.back.le
    max := fun e he hle => hs'.back.max e he (hs.back.max e (hs'.back.sub e he) hle) }

theorem discardPending (hi : h.Inv) (f : FrameId) : Sheds h (h.discardPending f) := by
  refine ⟨hi.setPending _, rfl, rfl, rfl, fun _ => Iff.rfl, fun _ _ h => h, fun g c hc => ?_,
    fun _ _ => rfl, ⟨fun _ he => he, Nat.le_refl _, fun _ _ hle => hle⟩⟩
  have hc : (h.pending.erase f).get? g = some c := hc
  rw [Dict.get?_erase] at hc
  split_ifs at hc
  exact hc

theorem removeFrame (hi : h.Inv) (f : FrameId) : Sheds h (h.removeFrame f) := by
  have hg : Grows 0 h (h.removeFrame f) := Grows.removeFrame
  refine ⟨hi.removeFrame f, ?_, ?_, ?_, fun e => atMain_removeFrame hi, fun g id hid => ?_,
    fun g c hc => ?_, fun e he => names_removeFrame hi he, stepBack_removeFrame hi f⟩
  · exact Nat.le_antisymm hg.entry_ub hg.entry_le
  · exact nextDocument_removeFrame
  · exact idsOf_main_removeFrame
  · exact hg.old g id hid (hg.entry_ub.trans' (lt_of_mem_idsOf (hi.removeFrame f) hid))
  · exact pending_removeFrame hc

theorem clearChildren (hi : h.Inv) : Sheds h h.clearChildren := by
  unfold SessionHistory.clearChildren
  generalize h.frames.keys.filter (· ≠ FrameId.main) = fs
  induction fs generalizing h with
  | nil => exact refl hi
  | cons f fs ih => exact (removeFrame hi f).trans (ih (hi.removeFrame f))

end Sheds

theorem ShowsAt.sheds (hs : h.ShowsAt step url) (hd : Sheds h h') : h'.ShowsAt step url := by
  obtain ⟨e, ha, hurl⟩ := hs
  exact ⟨e, ha.congr hd.atMain, hurl⟩

/-- The main frame's entry stays, whatever becomes of the current step. -/
theorem ActiveMainAt.sheds (ha : h.ActiveMainAt h.currentStep e) (hd : Sheds h h') :
    h'.ActiveMainAt h'.currentStep e := by
  have hmem := (hd.atMain e).2 ha.mem
  exact ⟨hmem, hd.back.max e hmem.1 ha.le,
    fun e' he' hle => ha.max e' ((hd.atMain e').1 he') (Nat.le_trans hle hd.back.le)⟩

theorem Shows.sheds (hs : h.Shows url) (hd : Sheds h h') : h'.Shows url := by
  obtain ⟨e, ha, hurl⟩ := hs
  exact ⟨e, ha.sheds hd, hurl⟩

/-! ### Operations -/

theorem Shows.setTitle (hi : h.Inv) (hs : h.Shows url) {title : Text} :
    (h.setTitle f title).Shows url := by
  unfold SessionHistory.setTitle
  split
  · exact hs
  · exact hs.modifyEntry hi (fun _ => rfl) fun _ _ => rfl

theorem Shows.syncCurrentName (hs : h.Shows url) :
    (h.syncCurrentName name).Shows url := by
  unfold SessionHistory.syncCurrentName
  split
  · exact hs
  · cases name <;> exact hs.congr (fun _ => Iff.rfl) rfl

theorem Shows.setPending (hs : h.Shows url) (p : Dict FrameId PendingChange) :
    Shows { h with pending := p } url := hs.congr (fun _ => Iff.rfl) rfl

/-- The main frame presents the entry a push adds to it. -/
theorem shows_pushStep {state : Option Text} :
    (h.pushStep FrameId.main (·.frameLen FrameId.main) url name state).2.Shows url := by
  refine ⟨h.pushedEntry (·.frameLen FrameId.main) url state, ActiveMainAt.of_step ⟨?_, ?_⟩ rfl, rfl⟩
  · rw [entries_pushStep]
    exact List.mem_append_right _ (List.mem_singleton_self _)
  · rw [idsOf, frames_pushStep, Dict.get?_insert, if_pos rfl]
    exact mem_insertAt.2 (.inl rfl)

/-- An id that no child frame has, now or later. -/
def Mine (h : SessionHistory) (id : EntryId) : Prop :=
  id < h.nextEntry ∧ ∀ f, f ≠ FrameId.main → id ∉ h.idsOf f

theorem Mine.atMain (hm : h.Mine e.id) (hi : h.Inv) (he : e ∈ h.entries) : h.AtMain e := by
  obtain ⟨f, ids, hids, hid⟩ := hi.slots.covered e.slot (slot_mem he)
  have hmem : e.id ∈ h.idsOf f := mem_idsOf.2 ⟨ids, hids, hid⟩
  by_cases hf : f = FrameId.main
  · exact ⟨he, hf ▸ hmem⟩
  · exact absurd hmem (hm.2 f hf)

theorem AtMain.mine (he : h.AtMain e) (hi : h.Inv) : h.Mine e.id :=
  ⟨hi.id_lt he.1, fun _ hf hmem => hf (eq_of_mem_idsOf hi hmem he.2)⟩

/-- The main frame presents the URL a commit gives it. -/
theorem shows_commit (hi : h.Inv) {c : Commit}
    (hc : ∀ id url, c = .traverse id url → h.Mine id) (hok : (h.commit c).1 = true) :
    (h.commit c).2.Shows c.url := by
  cases c with
  | push url name => exact shows_pushStep
  | traverse id url =>
    have hmine := hc id url rfl
    rw [commit_traverse] at hok ⊢
    split at hok
    · simp at hok
    · rename_i old hl
      obtain ⟨hmem, rfl⟩ := locate_spec hl
      have hold : (h.modifyEntry old.id fun e => { e with url, document := h.nextDocument }).AtMain
          { old with url, document := h.nextDocument } :=
        (atMain_modifyEntry hi (by exact fun _ => rfl)).2
          ⟨old, hmine.atMain hi hmem, by rw [if_pos rfl]⟩
      refine ⟨{ old with url, document := h.nextDocument }, ActiveMainAt.of_step ?_ rfl, rfl⟩
      exact (atMain_redocument (k := fun n e => { e with url, document := n }) (e := old)).2 hold

theorem shows_update (hi : h.Inv) {state : Text} {handling : HistoryHandling} :
    (h.update FrameId.main url state handling).Shows url := by
  obtain ⟨e, ha⟩ := exists_activeMainAt hi h.currentStep
  have hact : h.activeEntry FrameId.main = some e.id := ha.activeEntryAt hi
  unfold SessionHistory.update
  rw [hact]
  cases handling with
  | replace =>
    refine ⟨_, ha.modifyEntry hi fun _ => rfl, ?_⟩
    rw [if_pos rfl]
  | push =>
    simp only [locate_of_mem hi ha.mem.1, fst_pushStep]
    refine ⟨{ h.pushedEntry (·.frameLen FrameId.main) url (some state) with
        document := e.document, title := e.title }, ActiveMainAt.of_step ⟨?_, ?_⟩ rfl, rfl⟩
    · rw [entries_modifyEntry_pushStep hi]
      exact List.mem_append_right _ (List.mem_singleton_self _)
    · show h.nextEntry ∈ (h.pushStep FrameId.main (·.frameLen FrameId.main) url none
        (some state)).2.idsOf FrameId.main
      rw [idsOf, frames_pushStep, Dict.get?_insert, if_pos rfl]
      exact mem_insertAt.2 (.inl rfl)

theorem Shows.update (hi : h.Inv) (hs : h.Shows url) (hf : f ≠ FrameId.main)
    {state : Text} {handling : HistoryHandling} (hfit : (h.update f url' state handling).Fits) :
    (h.update f url' state handling).Shows url := by
  rcases update_cases (h := h) (f := f) url' state handling with
    heq | ⟨id, hact, -, heq⟩ | ⟨e, -, -, -, heq⟩
  · rw [heq]
    exact hs
  · rw [heq]
    refine hs.modifyEntry hi (fun _ => rfl) fun hmain => ?_
    exact absurd (eq_of_mem_idsOf hi (mem_idsOf_of_activeEntryAt hact) hmain) hf
  · rw [heq] at hfit ⊢
    have hpush : (h.pushStep f (·.frameLen f) url' none (some state)).2.Inv :=
      hi.pushStep ⟨hfit.entry, hfit.document⟩ fun h0 => absurd h0 hf
    exact (hs.pushStep hi hf).modifyEntry hpush (fun _ => rfl) fun _ _ => rfl

end SessionHistory

end TinyBrowser
