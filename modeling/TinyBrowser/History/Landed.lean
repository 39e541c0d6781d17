import TinyBrowser.History.Live

/-!
# What a commit leaves the frame with

`commitUrl` of a push makes the new entry the active one. A replacement names its entry when the
navigation starts: by the time of the commit the tab may present another entry of the frame, or a
push may have dropped that one, and then the URL goes elsewhere or nowhere.
-/

namespace TinyBrowser
open Lib

namespace SessionHistory
variable {h : SessionHistory} {f : FrameId} {id : EntryId} {url : Url}

/-- What stands for `f` at the commit of `url`: a push; a replacement of the entry that the frame
presents, or of another one while the URL is there already; or, without a started navigation, an
entry to put the URL on. -/
def CommitLands (h : SessionHistory) (f : FrameId) (url : Url) : Prop :=
  match h.pending.get? f with
  | some (.push _) => True
  | some (.replace entry _) =>
    ∃ active, h.activeEntry f = some active ∧ (active = entry ∨ h.entryUrl active = some url)
  | none => (h.activeEntry f).isSome

theorem entryUrl_modify (k : Entry → Entry) (url : Url) (hid : ∀ e, (k e).id = e.id)
    (hurl : ∀ e, (k e).url = url) (l : List Entry) (i : EntryId) :
    ((l.modify (l.findIdx (·.id = id)) k).find? (·.id = i)).map Entry.url =
      (l.find? (·.id = i)).map fun e => if i = id then url else e.url := by
  induction l with
  | nil => rfl
  | cons e l ih =>
    rw [List.findIdx_cons]
    by_cases he : e.id = id
    · have hhead : (e :: l).modify 0 k = k e :: l := rfl
      simp only [he, decide_true, cond_true, hhead, List.find?_cons, hid]
      by_cases hi : id = i
      · simp [hi, hurl]
      · simp [hi, Ne.symm hi]
    · have htail : (e :: l).modify (l.findIdx (·.id = id) + 1) k =
          e :: l.modify (l.findIdx (·.id = id)) k := rfl
      simp only [he, decide_false, cond_false, htail, List.find?_cons]
      by_cases hi : e.id = i
      · have hne : i ≠ id := fun heq => he (hi.trans heq)
        simp [hi, hne]
      · simp only [hi, decide_false]
        exact ih

theorem entryUrl_modifyEntry (k : Entry → Entry) (url : Url) (hid : ∀ e, (k e).id = e.id)
    (hurl : ∀ e, (k e).url = url) (i : EntryId) : (h.modifyEntry id k).entryUrl i =
      (h.locate i).map fun e => if i = id then url else e.url :=
  entryUrl_modify k url hid hurl h.entries i

theorem entryUrl_replaceEntry {e : Entry} (hl : h.locate id = some e) (url : Url)
    (name : Option ContextName) (i : EntryId) : (h.replaceEntry id url name).entryUrl i =
      (h.locate i).map fun e => if i = id then url else e.url := by
  rw [replaceEntry_eq, hl]
  dsimp only
  rw [entryUrl, locate, entries_redocument]
  exact entryUrl_modify (fun e =>
    { e with url, title := [], state := none, document := h.nextDocument }) url (fun _ => rfl)
    (fun _ => rfl) h.entries i

theorem activeEntry_replaceEntry (url : Url) (name : Option ContextName) :
    (h.replaceEntry id url name).activeEntry f = h.activeEntry f := by
  rw [replaceEntry_eq]
  split
  · rfl
  · rename_i old hl
    rw [activeEntry, activeEntry, currentStep_redocument]
    refine activeEntryAt_congr ?_ (by rw [frames_redocument]) _
    exact slots_redocument _ name fun _ _ => rfl

theorem replaceEntry_lands (hi : h.Inv) (entry : EntryId) (name : Option ContextName) :
    (∃ active, (h.replaceEntry entry url name).activeEntry f = some active ∧
        (h.replaceEntry entry url name).entryUrl active = some url) ↔
      ∃ active, h.activeEntry f = some active ∧ (active = entry ∨ h.entryUrl active = some url) := by
  rw [activeEntry_replaceEntry]
  refine exists_congr fun active => and_congr_right fun hact => ?_
  obtain ⟨e, hl⟩ := exists_locate_activeEntry hi hact
  have hown : h.entryUrl active = some e.url := by rw [entryUrl, hl, Option.map_some]
  cases hentry : h.locate entry with
  | none =>
    have hne : active ≠ entry := by
      rintro rfl
      rw [hl] at hentry
      cases hentry
    have hsame : h.replaceEntry entry url name = h := by rw [replaceEntry_eq, hentry]
    rw [hsame, or_iff_right hne]
  | some old =>
    rw [entryUrl_replaceEntry hentry, hl, Option.map_some, hown]
    split
    · rename_i heq
      exact iff_of_true rfl (.inl heq)
    · rename_i hne
      rw [or_iff_right hne]

theorem commitUrl_lands (hi : h.Inv) (f : FrameId) (url : Url) :
    (∃ active, (h.commitUrl f url).activeEntry f = some active ∧
      (h.commitUrl f url).entryUrl active = some url) ↔ h.CommitLands f url := by
  rw [commitUrl, CommitLands]
  cases hp : h.pending.get? f with
  | none =>
    dsimp only
    cases hact : h.activeEntry f with
    | none =>
      refine iff_of_false ?_ (by simp)
      rintro ⟨active, habsurd, -⟩
      rw [show h.activeEntry f = none from hact] at habsurd
      cases habsurd
    | some active =>
      obtain ⟨e, hl⟩ := exists_locate_activeEntry hi hact
      let k : Entry → Entry := fun e => { e with url }
      have hslot : ∀ e, (k e).slot = e.slot := fun _ => rfl
      have hactive : (h.modifyEntry active k).activeEntry f = some active :=
        (activeEntry_modifyEntry hslot).trans hact
      have hurl : (h.modifyEntry active k).entryUrl active = some url := by
        rw [entryUrl_modifyEntry k url (fun _ => rfl) fun _ => rfl, hl, Option.map_some, if_pos rfl]
      exact iff_of_true ⟨active, hactive, hurl⟩ rfl
  | some change =>
    have hi' := hi.setPending (h.pending.erase f)
    cases change with
    | push name =>
      refine iff_of_true ⟨h.nextEntry, activeEntry_pushStep hi', ?_⟩ trivial
      rw [entryUrl, show SessionHistory.locate _ h.nextEntry = _ from locate_pushStep hi']
      rfl
    | replace entry name => exact replaceEntry_lands hi' entry name

/-- After a commit the frame presents the URL exactly when the commit lands. -/
theorem commitUrl_shows_iff {blank : Url} {name : Option ContextName} {ops : List HistoryOp}
    (hfit : ((new blank name).run ops).Fits) (f : FrameId) (url : Url) :
    let h := (new blank name).run ops
    ((h.commitUrl f url).activeEntry f).bind (h.commitUrl f url).entryUrl = some url ↔
      h.CommitLands f url := by
  intro h
  rw [Option.bind_eq_some_iff]
  exact commitUrl_lands ((Inv.new blank name).run hfit) f url

/-- A child frame starts a navigation of its own, and one that replaces it. -/
def replaceOps : List HistoryOp :=
  [.addFrame 1 .sample none, .begin 1 .sample false 1 none false, .begin 1 .sample true 1 none true]

theorem commitUrl_shows_iff_replaceOps :
    ((new .sample none).run replaceOps).pending.get? 1 = some (.replace 2 none) ∧
      (((((new .sample none).run replaceOps).commitUrl 1 .sample).activeEntry 1).bind
          (((new .sample none).run replaceOps).commitUrl 1 .sample).entryUrl = some .sample ↔
        ((new .sample none).run replaceOps).CommitLands 1 .sample) :=
  ⟨by decide +kernel, commitUrl_shows_iff (fits_run _ _ (by decide)) 1 .sample⟩

/-- A child frame is created at step 1 and starts to load; the main document goes back and pushes a
state. -/
def overtakenOps : List HistoryOp :=
  [.update FrameId.main .sample [] .push, .addFrame 1 .sample none,
    .begin 1 .sample true 0 none true, .setCurrentStep (.delta (-1)),
    .update FrameId.main .sample [] .push]

/-- The frame is there, and its commit is lost. -/
theorem not_commitUrl_shows_overtakenOps :
    1 ∈ ((new .sample none).run overtakenOps).frames.keys ∧
      ((((new .sample none).run overtakenOps).commitUrl 1 .sample).activeEntry 1).bind
        (((new .sample none).run overtakenOps).commitUrl 1 .sample).entryUrl ≠ some .sample := by
  decide +kernel

end SessionHistory

end TinyBrowser
