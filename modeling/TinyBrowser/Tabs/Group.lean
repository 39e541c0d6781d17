import Mathlib.Data.Nat.Basic
import TinyBrowser.Tabs.Names

/-!
# Browsing context groups

A tab's opener was created before it, so the opener links go down and `groupRoot` reaches the end of
the chain. A tab that closes takes its own link with it: the tabs whose chains passed it end there
from then on, and leave the group of those whose chains did not.
-/

namespace TinyBrowser
open Lib

/-- The effect of a critical section on the opener links. -/
def Section.applyOpeners (openers : Dict TabId TabId) : Section → Dict TabId TabId
  | .setOpener id opener => openers.insert id opener
  | .removeOpener id => openers.erase id
  | _ => openers

namespace TabRegistry

theorem openers_enter (r : TabRegistry) (c : Section) :
    (r.enter c).openers = c.applyOpeners r.openers := by
  cases c with
  | remove id =>
    simp only [enter, remove, Section.applyOpeners]
    split_ifs <;> rfl
  | _ => rfl

/-- Two tabs are in one browsing context group. -/
def SameGroup (r : TabRegistry) (a b : TabId) : Prop :=
  groupRoot r.openers a = groupRoot r.openers b

instance (r : TabRegistry) (a b : TabId) : Decidable (r.SameGroup a b) :=
  inferInstanceAs (Decidable (groupRoot r.openers a = groupRoot r.openers b))

/-- A lookup of the name from `a` may answer `b`. -/
def Answers (r : TabRegistry) (a : TabId) (name : ContextName) (b : TabId) : Prop :=
  r.name b = some name ∧ r.SameGroup b a

instance (r : TabRegistry) (a : TabId) (name : ContextName) (b : TabId) :
    Decidable (r.Answers a name b) :=
  inferInstanceAs (Decidable (r.name b = some name ∧ r.SameGroup b a))

/-- Removing the link of `c` separates two tabs of a group exactly when the chain of one of them
passes `c` and the chain of the other does not. -/
theorem sameGroup_erase_iff {openers : Dict TabId TabId} (hd : openers.Descends) (a b c : TabId) :
    ((groupRoot (openers.erase c) a = groupRoot (openers.erase c) b) ↔
        groupRoot openers a = groupRoot openers b) ↔
      (groupRoot openers a = groupRoot openers b → (openers.Leads a c ↔ openers.Leads b c)) := by
  have hthrough : ∀ x, openers.Leads x c → groupRoot (openers.erase c) x = c := fun x hx =>
    Dict.root_erase hd hx
  have hpast : ∀ x, ¬ openers.Leads x c → groupRoot (openers.erase c) x = groupRoot openers x :=
    fun x hx => Dict.root_erase_of_not hd hx
  have hroot : ∀ x y, openers.Leads x c → openers.Leads y c →
      groupRoot openers x = groupRoot openers y := by
    intro x y hx hy
    have hend := Dict.get?_root hd c
    have hc := Dict.leads_follow openers (openers.len + 1) c
    exact (Dict.root_eq hd (hx.trans hc) hend).trans (Dict.root_eq hd (hy.trans hc) hend).symm
  -- one chain passes `c`, the other ends elsewhere
  have hsplit : ∀ x y, openers.Leads x c → ¬ openers.Leads y c →
      groupRoot (openers.erase c) x ≠ groupRoot (openers.erase c) y := by
    intro x y hx hy heq
    rw [hthrough x hx, hpast y hy] at heq
    exact hy (heq ▸ Dict.leads_follow openers _ y)
  by_cases ha : openers.Leads a c
  · by_cases hb : openers.Leads b c
    · rw [hthrough a ha, hthrough b hb]
      simp [ha, hb, hroot a b ha hb]
    · simp [ha, hb, hsplit a b ha hb]
  · by_cases hb : openers.Leads b c
    · simp [ha, hb, (hsplit b a hb ha).symm]
    · rw [hpast a ha, hpast b hb]
      simp [ha, hb]

end TabRegistry

namespace BrowserTask
variable {t t' : BrowserTask}

/-- The id has been given to a tab. -/
def Issued (t : BrowserTask) (id : TabId) : Prop := ∀ next ∈ t.nextTab, id < next

/-- The opener of a new tab has been created before it. -/
def OpenerIssued (t : BrowserTask) : BrowserStep → Prop
  | .begin (.createTab tab) => ∀ opener ∈ tab.opener, t.Issued opener
  | .begin (.openWindow request) => ∀ source ∈ request.source, t.Issued source
  | _ => True

instance (t : BrowserTask) (id : TabId) : Decidable (t.Issued id) :=
  inferInstanceAs (Decidable (∀ next ∈ t.nextTab, id < next))

instance (t : BrowserTask) (i : BrowserStep) : Decidable (t.OpenerIssued i) :=
  match i with
  | .begin (.createTab tab) => inferInstanceAs (Decidable (∀ opener ∈ tab.opener, t.Issued opener))
  | .begin (.openWindow request) =>
    inferInstanceAs (Decidable (∀ source ∈ request.source, t.Issued source))
  | .begin (.closeTab _) | .begin .shutdown | .advance | .other _ =>
    inferInstanceAs (Decidable True)

/-! ### Openers -/

variable {steps : List BrowserStep}

/-- The invariant of the opener links: those that are set go down, and so do those to be set. -/
structure OpenersInv (t : BrowserTask) : Prop where
  descends : t.tabs.openers.Descends
  pending : ∀ id opener, .setOpener id opener ∈ t.pending → opener < id

theorem openersInv_new : OpenersInv .new :=
  ⟨fun k k' h => by simp [new, TabRegistry.new] at h, fun id opener h => by simp [new] at h⟩

theorem OpenersInv.begin (h : t.OpenersInv) {op : BrowserOp} (hissued : t.OpenerIssued (.begin op)) :
    (t.begin op).OpenersInv := by
  have hcreate : ∀ tab : NewTab, (∀ opener ∈ tab.opener, t.Issued opener) →
      (t.createTab tab).2.OpenersInv := by
    intro tab htab
    unfold createTab
    cases hnext : t.nextTab with
    | none => exact h
    | some raw =>
      refine ⟨h.descends, fun id opener hmem => ?_⟩
      obtain ⟨name, source, frame, sandbox⟩ := tab
      cases source with
      | none => simp [creation] at hmem
      | some source =>
        cases frame with
        | none => simp [creation] at hmem
        | some frame =>
          simp only [creation, List.cons_append, List.nil_append, List.mem_cons, List.not_mem_nil,
            or_false, reduceCtorEq, false_or, Section.setOpener.injEq] at hmem
          rw [hmem.1, hmem.2]
          exact htab source rfl raw hnext
  cases op with
  | createTab tab => exact hcreate tab hissued
  | closeTab id =>
    simp only [BrowserTask.begin, closeTab]
    split_ifs
    · exact ⟨h.descends, fun id opener hmem => by simp at hmem⟩
    · exact h
  | openWindow request =>
    refine hcreate _ fun opener hmem => hissued opener ?_
    exact (Option.mem_filter_iff.1 hmem).1
  | shutdown => exact ⟨h.descends, fun id opener hmem => by simp [BrowserTask.begin, shutdown] at hmem⟩

theorem OpenersInv.step {i : BrowserStep} (h : t.OpenersInv) (hissued : t.OpenerIssued i)
    (hstep : t.step i = some t') : t'.OpenersInv := by
  cases i with
  | begin op =>
    simp only [BrowserTask.step] at hstep
    split_ifs at hstep
    exact Option.some.inj hstep ▸ h.begin hissued
  | advance =>
    simp only [BrowserTask.step] at hstep
    split at hstep
    · cases hstep
    · next c rest hp =>
      rw [← Option.some.inj hstep]
      have hpending : ∀ id opener, .setOpener id opener ∈ rest → opener < id := by
        intro id opener hmem
        exact h.pending id opener (hp ▸ List.mem_cons_of_mem c hmem)
      refine ⟨?_, hpending⟩
      rw [TabRegistry.openers_enter]
      cases c with
      | setOpener id opener => exact h.descends.insert (h.pending id opener (hp ▸ List.mem_cons_self))
      | removeOpener id => exact h.descends.erase id
      | _ => exact h.descends
  | other op =>
    rw [← Option.some.inj hstep]
    obtain ⟨names, heq⟩ := TabRegistry.applyName_eq t.tabs op
    refine ⟨?_, h.pending⟩
    rw [heq]
    exact h.descends

theorem openers_of_run (hnone : ∀ op, .begin op ∉ steps)
    (hrun : Machine.run step t steps = some t') :
    ∃ done, t.pending = done ++ t'.pending ∧
      t'.tabs.openers = done.foldl Section.applyOpeners t.tabs.openers := by
  induction steps generalizing t with
  | nil => exact ⟨[], by rw [Option.some.inj hrun]; simp⟩
  | cons i steps ih =>
    obtain ⟨t₁, hstep, hrun⟩ := Machine.run_cons hrun
    obtain ⟨done, hpending, hopeners⟩ := ih (fun op hmem => hnone op (List.mem_cons_of_mem i hmem)) hrun
    cases i with
    | begin op => exact absurd List.mem_cons_self (hnone op)
    | advance =>
      simp only [step] at hstep
      split at hstep
      · cases hstep
      · next c rest hp =>
        rw [← Option.some.inj hstep] at hpending hopeners
        refine ⟨c :: done, by rw [hp, List.cons_append, ← hpending], ?_⟩
        rw [hopeners, List.foldl_cons, TabRegistry.openers_enter]
    | other op =>
      rw [← Option.some.inj hstep] at hpending hopeners
      obtain ⟨names, heq⟩ := TabRegistry.applyName_eq t.tabs op
      rw [heq] at hopeners
      exact ⟨done, hpending, hopeners⟩

theorem openers_of_close {c : TabId} (hc : c ∈ t.tabs.tabs)
    (hnone : ∀ op, .begin op ∉ steps)
    (hrun : Machine.run step t (.begin (.closeTab c) :: steps) = some t') (hdone : t'.pending = []) :
    t'.tabs.openers = t.tabs.openers.erase c := by
  obtain ⟨t₁, hstep, hrun⟩ := Machine.run_cons hrun
  simp only [step] at hstep
  split_ifs at hstep
  have ht₁ := (Option.some.inj hstep).symm
  simp only [BrowserTask.begin, closeTab, if_pos hc] at ht₁
  obtain ⟨done, hpending, hopeners⟩ := openers_of_run hnone hrun
  rw [hdone, List.append_nil, ht₁] at hpending
  rw [hopeners, ← hpending, ht₁]
  rfl

/-- In every state of a run whose openers were created before their tabs, `groupRoot` is the end of
the opener chain. Closing `c` then leaves two tabs in the group relation they were in exactly when
they were in different groups, or their chains both pass `c` or both miss it; and what one finds of
the other by name changes only with the name. -/
theorem group_of_run {steps : List BrowserStep}
    (hissued : Machine.Along step OpenerIssued .new steps)
    (hrun : Machine.run step .new steps = some t) :
    (∀ id opener, t.tabs.openers.get? id = some opener → opener < id) ∧
    (∀ tab, t.tabs.openers.Leads tab (groupRoot t.tabs.openers tab) ∧
      t.tabs.openers.get? (groupRoot t.tabs.openers tab) = none) ∧
    ∀ c ∈ t.tabs.tabs, ∀ (close : List BrowserStep) (t' : BrowserTask), (∀ op, .begin op ∉ close) →
      Machine.run step t (.begin (.closeTab c) :: close) = some t' → t'.pending = [] →
      ∀ a b, ((t'.tabs.SameGroup a b ↔ t.tabs.SameGroup a b) ↔
          (t.tabs.SameGroup a b → (t.tabs.openers.Leads a c ↔ t.tabs.openers.Leads b c))) ∧
        ((t.tabs.SameGroup a b → (t.tabs.openers.Leads a c ↔ t.tabs.openers.Leads b c)) →
          t'.tabs.name b = t.tabs.name b →
            ∀ name, t'.tabs.Answers a name b ↔ t.tabs.Answers a name b) := by
  have hinv : t.OpenersInv :=
    Machine.inv_run_along (fun _ _ _ h hc hstep => h.step hc hstep) openersInv_new hissued hrun
  refine ⟨hinv.descends, fun tab => ⟨Dict.leads_follow _ _ tab, Dict.get?_root hinv.descends tab⟩, ?_⟩
  intro c hc close t' hnone hclose hdone a b
  have hgroup : (t'.tabs.SameGroup a b ↔ t.tabs.SameGroup a b) ↔
      (t.tabs.SameGroup a b → (t.tabs.openers.Leads a c ↔ t.tabs.openers.Leads b c)) := by
    unfold TabRegistry.SameGroup
    rw [openers_of_close hc hnone hclose hdone]
    exact TabRegistry.sameGroup_erase_iff hinv.descends a b c
  refine ⟨hgroup, fun hcond hname name => ?_⟩
  unfold TabRegistry.Answers
  rw [hname]
  have hsame := hgroup.2 hcond
  exact and_congr_right fun _ => ⟨fun h => (hsame.1 h.symm).symm, fun h => (hsame.2 h.symm).symm⟩

/-- Tab 1 opens tab 2, and tab 2 opens tab 3 under a name. -/
def openChain : List BrowserStep :=
  [.begin (.createTab .browserCreated), .advance, .advance, .advance,
    .begin (.openWindow ⟨.blank, some 1, FrameId.main, .keep, .empty⟩), .advance, .advance, .advance,
    .advance,
    .begin (.openWindow ⟨.named sampleName, some 2, FrameId.main, .keep, .empty⟩), .advance, .advance,
    .advance, .advance]

def closeSteps : List BrowserStep := [.advance, .advance, .advance]

/-- The first tab of the chain closes: the other two stay together. -/
theorem group_of_run_first :
    ∃ t t', Machine.run step .new openChain = some t ∧
      Machine.run step t (.begin (.closeTab 1) :: closeSteps) = some t' ∧ t'.tabs.SameGroup 2 3 := by
  obtain ⟨t, t', hrun, hclose, hdone, hlive, h₂, h₃, hsame⟩ : ∃ t t',
      Machine.run step .new openChain = some t ∧
      Machine.run step t (.begin (.closeTab 1) :: closeSteps) = some t' ∧ t'.pending = [] ∧
      1 ∈ t.tabs.tabs ∧ t.tabs.openers.get? 2 = some 1 ∧ t.tabs.openers.get? 3 = some 2 ∧
      t.tabs.SameGroup 2 3 := by
    refine ⟨_, _, rfl, rfl, ?_⟩
    decide +kernel
  have hissued : Machine.Along step OpenerIssued .new openChain := by decide +kernel
  have hgroup := (group_of_run hissued hrun).2.2 1 hlive closeSteps t'
    (by simp [closeSteps]) hclose hdone 2 3
  have h₂₁ : t.tabs.openers.Leads 2 1 := .single h₂
  have h₃₁ : t.tabs.openers.Leads 3 1 := .head h₃ h₂₁
  exact ⟨t, t', hrun, hclose, (hgroup.1.2 fun _ => iff_of_true h₂₁ h₃₁).2 hsame⟩

/-- The tab in the middle closes: the first one no longer finds the last one by its name. -/
theorem exists_close_splits_group :
    ∃ t t', Machine.run step .new openChain = some t ∧
      Machine.run step t (.begin (.closeTab 2) :: closeSteps) = some t' ∧
      1 ∈ t'.tabs.tabs ∧ 3 ∈ t'.tabs.tabs ∧ t.tabs.SameGroup 1 3 ∧ ¬ t'.tabs.SameGroup 1 3 ∧
      t.tabs.findByName 1 sampleName = some 3 ∧ t'.tabs.findByName 1 sampleName = none := by
  refine ⟨_, _, rfl, rfl, ?_⟩
  decide +kernel

end BrowserTask

end TinyBrowser
