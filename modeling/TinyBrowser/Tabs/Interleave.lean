import TinyBrowser.Tabs.Registry

/-!
# What other tasks do to a tab's names

While the coordinator of the tab `me` runs, renderer service tasks, the browser task and the
coordinators of the other tabs use the same table. `TaskEvent me` lists what they do; the
functions only a tab's own coordinator or its creation call stand for the other tabs. `TabView` is
what the table says about one tab's names, and `view_applyEvent` reduces an event to its effect on it.
-/

namespace TinyBrowser
open Lib

/-- The operations on a tab that its creation and its own coordinator perform. -/
inductive PeerOp where
  | insert
  | insertName (name : Option ContextName)
  | setOpener (opener : TabId)
  | installCommit (name : Option ContextName)
  | restoreCommit (previous : Option TabNames) (installed : TabNames)
  | settleDocumentName (outgoing name : Option ContextName)
deriving DecidableEq

inductive TaskEvent (me : TabId) where
  | rename (tab : TabId) (change : NameChange)
  | remove (tab : TabId)
  | removeOpener (tab : TabId)
  | removeSandbox (tab : TabId)
  | sandbox (op : SandboxOp)
  | drainTabs
  | drainNames
  | peer (tab : TabId) (other : tab ≠ me) (op : PeerOp)
deriving DecidableEq

namespace TabRegistry

def applyPeer (r : TabRegistry) (tab : TabId) : PeerOp → TabRegistry
  | .insert => r.insert tab
  | .insertName name => r.insertName tab name
  | .setOpener opener => r.setOpener tab opener
  | .installCommit name => (r.installCommit tab name).2
  | .restoreCommit previous installed => r.restoreCommit tab previous installed
  | .settleDocumentName outgoing name => r.settleDocumentName tab outgoing name

variable {me : TabId}

def applyEvent (r : TabRegistry) : TaskEvent me → TabRegistry
  | .rename tab change => r.rename tab change
  | .remove tab => r.remove tab
  | .removeOpener tab => r.removeOpener tab
  | .removeSandbox tab => r.removeSandbox tab
  | .sandbox op => r.applySandbox op
  | .drainTabs => r.drainTabs
  | .drainNames => r.drainNames
  | .peer tab _ op => r.applyPeer tab op

end TabRegistry

/-- Whether a tab is open, and its name pair. -/
structure TabView where
  live : Bool
  names : TabNames
deriving DecidableEq

/-- The name pair after a reported change. -/
def TabNames.change (names : TabNames) : NameChange → TabNames
  | .assigned name => .fromName name
  | .reset => { names with live := none }

/-- What an event does to the view of `me`. -/
def TabView.play {me : TabId} (v : TabView) : TaskEvent me → TabView
  | .rename tab change => if tab = me ∧ v.live then { v with names := v.names.change change } else v
  | .remove tab => if tab = me ∧ v.live then ⟨false, .default⟩ else v
  | .drainTabs => { v with live := false }
  | .drainNames => { v with names := .default }
  | _ => v

/-- The event changes the names of `me`. -/
def TaskEvent.Touches {me : TabId} : TaskEvent me → Prop
  | .rename tab _ => tab = me
  | .remove tab => tab = me
  | .drainTabs | .drainNames => True
  | _ => False

namespace TabRegistry
variable {me : TabId} {r : TabRegistry}

def view (r : TabRegistry) (id : TabId) : TabView := ⟨id ∈ r.tabs, r.namesOf id⟩

theorem namesOf_setNames (r : TabRegistry) (id tab : TabId) (names : TabNames) :
    ({ r with names := setNames r.names tab names } : TabRegistry).namesOf id =
      if id = tab then names else r.namesOf id := by
  unfold namesOf setNames
  split_ifs with hnone heq heq
  · subst heq
    rw [Dict.get?_erase, if_pos rfl, Option.getD_none]
    obtain ⟨live, document⟩ := names
    simp only [Bool.and_eq_true, Option.isNone_iff_eq_none] at hnone
    rw [hnone.1, hnone.2]
    rfl
  · rw [Dict.get?_erase, if_neg heq]
  · subst heq
    rw [Dict.get?_insert, if_pos rfl, Option.getD_some]
  · rw [Dict.get?_insert, if_neg heq]

theorem view_congr {r' : TabRegistry} (ht : me ∈ r'.tabs ↔ me ∈ r.tabs)
    (hn : r'.names.get? me = r.names.get? me) : r'.view me = r.view me := by
  simp only [view, namesOf, hn, ht]

theorem view_rename (r : TabRegistry) (tab : TabId) (change : NameChange) :
    (r.rename tab change).view me = (r.view me).play (.rename tab change : TaskEvent me) := by
  unfold rename
  by_cases hlive : tab ∈ r.tabs
  · rw [if_pos hlive]
    by_cases heq : tab = me
    · subst heq
      have hplay : (r.view tab).play (.rename tab change : TaskEvent tab) =
          ⟨true, (r.namesOf tab).change change⟩ := by
        simp [TabView.play, view, hlive]
      rw [hplay]
      cases change with
      | assigned name =>
        simp only [view, namesOf_setNames, if_pos]
        simp [hlive, TabNames.change]
      | reset =>
        cases hget : r.names.get? tab with
        | none => simp [view, namesOf, hget, hlive, TabNames.change, TabNames.default]
        | some entry => simp [view, namesOf, hget, hlive, TabNames.change]
    · have hplay : (r.view me).play (.rename tab change : TaskEvent me) = r.view me := by
        simp [TabView.play, heq]
      rw [hplay]
      cases change with
      | assigned name =>
        simp only [view, namesOf_setNames, if_neg (Ne.symm heq)]
      | reset =>
        cases r.names.get? tab with
        | none => rfl
        | some entry =>
          refine view_congr Iff.rfl ?_
          show (r.names.insert tab { entry with live := none }).get? me = _
          rw [Dict.get?_insert, if_neg (Ne.symm heq)]
  · rw [if_neg hlive]
    by_cases heq : tab = me
    · subst heq
      simp [TabView.play, view, hlive]
    · simp [TabView.play, heq]

theorem view_remove (r : TabRegistry) (tab : TabId) :
    (r.remove tab).view me = (r.view me).play (.remove tab : TaskEvent me) := by
  unfold remove
  by_cases hlive : tab ∈ r.tabs
  · rw [if_pos hlive]
    by_cases heq : tab = me
    · subst heq
      simp [TabView.play, view, namesOf, hlive]
    · rw [show (r.view me).play (.remove tab : TaskEvent me) = r.view me by
        simp [TabView.play, heq]]
      refine view_congr ?_ ?_
      · simp [Ne.symm heq]
      · rw [Dict.get?_erase, if_neg (Ne.symm heq)]
  · rw [if_neg hlive]
    by_cases heq : tab = me
    · subst heq
      simp [TabView.play, view, hlive]
    · simp [TabView.play, heq]

theorem view_applySandbox (r : TabRegistry) (op : SandboxOp) :
    (r.applySandbox op).view me = r.view me := by
  cases op with
  | setSandbox | resetMainSandbox | clearFrames => rfl
  | registerFrame tab frame parent kind reported =>
    simp only [applySandbox, registerFrame]
    split_ifs <;> rfl
  | commitFrameSandbox tab frame csp =>
    simp only [applySandbox, commitFrameSandbox]
    split_ifs
    · rfl
    · split <;> rfl
  | removeFrame tab frame =>
    simp only [applySandbox, removeFrame]
    split_ifs <;> rfl

/-- An operation on another tab leaves the tab alone. -/
theorem view_applyPeer (r : TabRegistry) {tab : TabId} (hne : tab ≠ me) (op : PeerOp) :
    (r.applyPeer tab op).view me = r.view me := by
  have hset : ∀ names, ({ r with names := setNames r.names tab names } : TabRegistry).view me =
      r.view me := by
    intro names
    simp only [view, namesOf_setNames, if_neg (Ne.symm hne)]
  have hins : ∀ names, (r.names.insert tab names).get? me = r.names.get? me := by
    intro names
    rw [Dict.get?_insert, if_neg (Ne.symm hne)]
  have hera : (r.names.erase tab).get? me = r.names.get? me := by
    rw [Dict.get?_erase, if_neg (Ne.symm hne)]
  cases op with
  | insert =>
    refine view_congr ?_ rfl
    simp [applyPeer, insert, List.mem_erase_of_ne (Ne.symm hne), Ne.symm hne]
  | insertName name =>
    refine view_congr Iff.rfl ?_
    cases name with
    | none => exact hera
    | some name => exact hins _
  | setOpener opener => rfl
  | installCommit name =>
    simp only [applyPeer, installCommit]
    split_ifs
    · exact hset _
    · rfl
  | restoreCommit previous installed =>
    simp only [applyPeer, restoreCommit]
    split
    · rfl
    · split_ifs
      · exact hset _
      · rfl
  | settleDocumentName outgoing name =>
    simp only [applyPeer, settleDocumentName]
    split_ifs
    · rfl
    · split
      · exact view_congr Iff.rfl (hins _)
      · split
        · rfl
        · refine view_congr Iff.rfl ?_
          dsimp only
          split_ifs
          · exact hera
          · exact hins _
    · rfl

theorem view_applyEvent (r : TabRegistry) (event : TaskEvent me) :
    (r.applyEvent event).view me = (r.view me).play event := by
  cases event with
  | rename tab change => exact view_rename r tab change
  | remove tab => exact view_remove r tab
  | removeOpener tab => rfl
  | removeSandbox tab => rfl
  | sandbox op => exact view_applySandbox r op
  | drainTabs => simp [applyEvent, drainTabs, view, namesOf, TabView.play]
  | drainNames => rfl
  | peer tab other op => exact view_applyPeer r other op

theorem view_applyEvents (r : TabRegistry) (events : List (TaskEvent me)) :
    (events.foldl applyEvent r).view me = events.foldl TabView.play (r.view me) := by
  induction events generalizing r with
  | nil => rfl
  | cons event events ih => rw [List.foldl_cons, ih, view_applyEvent, List.foldl_cons]

end TabRegistry

end TinyBrowser
