import TinyBrowser.Tab.Agree

/-!
# Commits that fail

A commit that returns false has given back what it took: the CSP record, the pair of names, and the
main frame's part of the history. The names are taken back by a comparison with the installed pair,
while other tasks may have changed them; the log of the world says what they did between the begin
and the abort of the commit. The history loses its child frames when the mount dropped the renderer.
-/

namespace TinyBrowser
open Lib

/-! ### The history -/

namespace SessionHistory
variable {h h' : SessionHistory} {e : Entry}

theorem Sheds.mainEntries (hd : Sheds h h') (hi : h.Inv) : h'.mainEntries = h.mainEntries := by
  have hids : h'.idsOf FrameId.main = h.mainEntries.map Entry.id := by
    rw [hd.main, idsOf, hi.mainEntries.ids, Option.getD_some]
  show (h'.idsOf FrameId.main).filterMap h'.locate = _
  rw [hids]
  refine filterMap_locate hd.inv fun e he => ?_
  exact ((hd.atMain e).2 ((mem_mainEntries hi).1 he)).1

theorem Sheds.activeEntry (hd : Sheds h h') (hi : h.Inv) :
    h'.activeEntry FrameId.main = h.activeEntry FrameId.main := by
  obtain ⟨e, ha⟩ := exists_activeMainAt hi h.currentStep
  exact ((ha.sheds hd).activeEntryAt hd.inv).trans (ha.activeEntryAt hi).symm

/-- What a failed commit leaves of the history. Only the name stored with the outgoing document may
change; the current step moves back only when child frames are gone. -/
structure Kept (h h' : SessionHistory) : Prop where
  main : h'.mainEntries = h.mainEntries
  active : h'.activeEntry FrameId.main = h.activeEntry FrameId.main
  stored : ∀ e ∈ h.mainEntries, ∀ id, h.activeEntry FrameId.main = some id →
    h.sameDocument id e.id = false → h'.name e.id = h.name e.id
  step : h'.currentStep = h.currentStep ∨ h'.OnlyMain ∧ StepBack h h'

theorem syncCurrentName_eq (h : SessionHistory) (name : Option ContextName) :
    ∃ names, h.syncCurrentName name = { h with names } := by
  unfold SessionHistory.syncCurrentName
  split
  · exact ⟨h.names, rfl⟩
  · cases name <;> exact ⟨_, rfl⟩

/-- Only the document of the active entry gets another name. -/
theorem name_syncCurrentName (hi : h.Inv) {name : Option ContextName} (he : e ∈ h.entries)
    {id : EntryId} (hact : h.activeEntry FrameId.main = some id)
    (hdoc : h.sameDocument id e.id = false) : (h.syncCurrentName name).name e.id = h.name e.id := by
  have hl := locate_of_mem hi he
  unfold SessionHistory.syncCurrentName
  rw [hact, Option.bind_some]
  split
  · rfl
  · rename_i a ha
    have hne : e.document ≠ a.document := by
      intro heq
      simp [sameDocument, ha, hl, heq] at hdoc
    have hname : ∀ names : Dict Nat ContextName, names.get? e.document = h.names.get? e.document →
        SessionHistory.name { h with names } e.id = h.name e.id := by
      intro names hnames
      show (h.locate e.id).bind _ = (h.locate e.id).bind _
      rw [hl]
      exact hnames
    cases name with
    | some name => exact hname _ (by rw [Dict.get?_insert, if_neg hne])
    | none => exact hname _ (by rw [Dict.get?_erase, if_neg hne])

theorem Kept.syncCurrentName (hi : h.Inv) (name : Option ContextName) :
    Kept h (h.syncCurrentName name) := by
  have hstored : ∀ e ∈ h.mainEntries, ∀ id, h.activeEntry FrameId.main = some id →
      h.sameDocument id e.id = false → (h.syncCurrentName name).name e.id = h.name e.id :=
    fun e he id => name_syncCurrentName hi (hi.mainEntries.mem e he)
  obtain ⟨names, heq⟩ := syncCurrentName_eq h name
  rw [heq] at hstored ⊢
  exact ⟨rfl, rfl, hstored, .inl rfl⟩

theorem Sheds.name (hd : Sheds h h') (hi : h.Inv) (he : e ∈ h.mainEntries) :
    h'.name e.id = h.name e.id := by
  have hmain := (mem_mainEntries hi).1 he
  unfold SessionHistory.name
  rw [locate_of_mem hd.inv ((hd.atMain e).2 hmain).1, locate_of_mem hi hmain.1]
  exact hd.names e hmain

theorem Kept.clearChildren (hk : Kept h h') (hi' : h'.Inv) (hc : h'.currentStep = h.currentStep)
    (hs : ∀ e ∈ h'.entries, e ∈ h.entries) : Kept h h'.clearChildren := by
  have hd := Sheds.clearChildren hi'
  refine ⟨(hd.mainEntries hi').trans hk.main, (hd.activeEntry hi').trans hk.active,
    fun e he id hact hdoc => ?_, .inr ⟨onlyMain_clearChildren h', ?_⟩⟩
  · exact (hd.name hi' (hk.main.symm ▸ he)).trans (hk.stored e he id hact hdoc)
  · exact ⟨fun e he => hs e (hd.back.sub e he), hc ▸ hd.back.le, fun e he => hc ▸ hd.back.max e he⟩

end SessionHistory

/-! ### The names -/

variable {me : TabId}

namespace TabView

/-- The pair that a commit replaced. -/
def replaced (v : TabView) : Option TabNames := if v.live then some v.names else none

/-- The names an aborted commit takes back, if they are still the installed ones. -/
def restore (v : TabView) (previous : Option TabNames) (installed : TabNames) : TabView :=
  match previous with
  | none => v
  | some names => if v.live ∧ v.names = installed then { v with names } else v

end TabView

namespace TabRegistry
variable {r : TabRegistry}

end TabRegistry

namespace TabM
variable {p : Platform} {w : World me}

/-- A tab at a page with a child frame that has pushed an entry of its own. -/
def pushed : World 1 := (World.sample (sampleScript 60 [12] (.error .actorStopped))).run Platform.sample
  [.goto (Url.page "example.com".toList "a".toList).asStr, .launchNavigation,
    .navigation 1 (some ⟨Url.page "example.com".toList "a".toList, .empty, .finished⟩),
    .rendererEvent 1 (.frameAdded (Url.page "example.com".toList "f".toList).asStr),
    .rendererEvent 1
      (.navigationStarted (Url.page "example.com".toList "g".toList).asStr false 1 false)]

def popup : ContextName where
  text := "popup".toList
  nonempty := by decide
  notKeyword := by decide

/-- A named tab whose name is cleared while the eighth turn of its coordinator is on. -/
def renamed : World 1 :=
  World.new ((TabRegistry.new.insert 1).insertName 1 (some popup)) (.opaqueOrigin 0) .empty none
    (List.replicate 7 ⟨[], .ok (.unit (.ok ()))⟩ ++
      ⟨[.rename 1 (.assigned none)], .ok (.unit (.ok ()))⟩ ::
        List.replicate 9 ⟨[], .ok (.unit (.ok ()))⟩)

end TabM

end TinyBrowser
