import TinyBrowser.Tabs.Browser

/-!
# Names and the tabs that carry them

A name in the table belongs to a tab that is open or being created, it is found from the tabs of its
group, and a tab without names has no entry. Two writers break this. The reset of a live name leaves
an entry with no name at all when the document had none; and `drain` empties the tab table in one
critical section and the names in the next.
-/

namespace TinyBrowser
open Lib

namespace TabRegistry
variable {r : TabRegistry} {id : TabId}

theorem get?_setNames (map : Dict TabId TabNames) (tab : TabId) (names : TabNames) (id : TabId) :
    (setNames map tab names).get? id =
      if id = tab then (if names = .default then none else some names) else map.get? id := by
  have hnone : (names.live.isNone && names.document.isNone) = decide (names = .default) := by
    obtain ⟨live, document⟩ := names
    cases live <;> cases document <;> simp [TabNames.default]
  unfold setNames
  rw [hnone]
  by_cases hn : names = .default <;> by_cases hid : id = tab <;> simp [hn, hid]

variable {map : Dict TabId TabNames}

theorem eq_of_get?_setNames {tab : TabId} {names written : TabNames}
    (h : (setNames map tab written).get? id = some names) :
    map.get? id = some names ∨ id = tab ∧ names ≠ .default := by
  rw [get?_setNames] at h
  split_ifs at h with hid hw
  · exact .inr ⟨hid, Option.some.inj h ▸ hw⟩
  · exact .inl h

theorem eq_of_get?_insert {tab : TabId} {names written : TabNames}
    (h : (map.insert tab written).get? id = some names) :
    map.get? id = some names ∨ id = tab ∧ names = written := by
  rw [Dict.get?_insert] at h
  split_ifs at h with hid
  · exact .inr ⟨hid, (Option.some.inj h).symm⟩
  · exact .inl h

theorem eq_of_get?_erase {tab : TabId} {names : TabNames}
    (h : (map.erase tab).get? id = some names) : map.get? id = some names ∧ id ≠ tab := by
  rw [Dict.get?_erase] at h
  split_ifs at h with hid
  exact ⟨h, hid⟩

/-- What a write of another task leaves under a tab: the old pair; a new one, of an open tab; or the
old one without its live name. -/
theorem get?_applyName {op : NameOp} {names : TabNames}
    (h : (r.applyName op).names.get? id = some names) :
    r.names.get? id = some names ∨ id ∈ r.tabs ∧ names ≠ .default ∨
      id ∈ r.tabs ∧ op = .rename id .reset ∧
        ∃ old, r.names.get? id = some old ∧ names = { old with live := none } := by
  cases op with
  | rename tab change =>
    simp only [applyName, rename] at h
    split_ifs at h with hlive
    · cases change with
      | assigned name =>
        rcases eq_of_get?_setNames h with h | ⟨rfl, hne⟩
        · exact .inl h
        · exact .inr (.inl ⟨hlive, hne⟩)
      | reset =>
        cases hold : r.names.get? tab with
        | none => exact .inl (by simpa [hold] using h)
        | some old =>
          rw [hold] at h
          rcases eq_of_get?_insert h with h | ⟨rfl, heq⟩
          · exact .inl h
          · exact .inr (.inr ⟨hlive, rfl, old, hold, heq⟩)
    · exact .inl h
  | settleDocumentName tab outgoing name =>
    simp only [applyName, settleDocumentName] at h
    split_ifs at h with hlive
    · exact .inl h
    · cases name with
      | some name =>
        rcases eq_of_get?_insert h with h | ⟨rfl, heq⟩
        · exact .inl h
        · exact .inr (.inl ⟨hlive, by simp [heq, TabNames.default]⟩)
      | none =>
        cases hold : r.names.get? tab with
        | none => exact .inl (by simpa [hold] using h)
        | some old =>
          simp only [hold] at h
          split_ifs at h with hnone
          · exact .inl (eq_of_get?_erase h).1
          · rcases eq_of_get?_insert h with h | ⟨rfl, heq⟩
            · exact .inl h
            · refine .inr (.inl ⟨hlive, ?_⟩)
              rintro rfl
              rw [(TabNames.mk.inj heq).1.symm] at hnone
              exact hnone rfl
    · exact .inl h
  | installCommit tab name =>
    simp only [applyName, installCommit] at h
    split_ifs at h with hlive
    · rcases eq_of_get?_setNames h with h | ⟨rfl, hne⟩
      · exact .inl h
      · exact .inr (.inl ⟨hlive, hne⟩)
    · exact .inl h
  | restoreCommit tab previous installed =>
    simp only [applyName, restoreCommit] at h
    cases previous with
    | none => exact .inl h
    | some previous =>
      dsimp only at h
      split_ifs at h with hlive
      · rcases eq_of_get?_setNames h with h | ⟨rfl, hne⟩
        · exact .inl h
        · exact .inr (.inl ⟨hlive.1, hne⟩)
      · exact .inl h

theorem applyName_eq (r : TabRegistry) (op : NameOp) :
    ∃ names, r.applyName op = { r with names := names } := by
  have hsame : ∃ names, r = { r with names := names } := ⟨r.names, rfl⟩
  cases op with
  | rename tab change =>
    simp only [applyName, rename]
    split_ifs
    · cases change with
      | assigned name => exact ⟨_, rfl⟩
      | reset =>
        dsimp only
        split
        · exact ⟨_, rfl⟩
        · exact hsame
    · exact hsame
  | settleDocumentName tab outgoing name =>
    simp only [applyName, settleDocumentName]
    split_ifs
    · exact hsame
    · split
      · exact ⟨_, rfl⟩
      · split
        · exact hsame
        · exact ⟨_, rfl⟩
    · exact hsame
  | installCommit tab name =>
    simp only [applyName, installCommit]
    split_ifs
    · exact ⟨_, rfl⟩
    · exact hsame
  | restoreCommit tab previous installed =>
    simp only [applyName, restoreCommit]
    split
    · exact hsame
    · split_ifs
      · exact ⟨_, rfl⟩
      · exact hsame

theorem findByName_isSome (r : TabRegistry) (caller : TabId) (name : ContextName) :
    (r.findByName caller name).isSome = true ↔
      ∃ id, r.name id = some name ∧ groupRoot r.openers id = groupRoot r.openers caller := by
  have htext : ∀ live : ContextName, live.text = name.text ↔ live = name := by
    rintro ⟨text, _, _⟩
    obtain ⟨text', _, _⟩ := name
    simp
  rw [findByName, Option.isSome_map, List.find?_isSome]
  constructor
  · rintro ⟨⟨id, names⟩, hmem, hfound⟩
    rw [Bool.and_eq_true, decide_eq_true_eq] at hfound
    obtain ⟨hlive, hroot⟩ := hfound
    refine ⟨id, ?_, hroot⟩
    obtain ⟨live, heq, hname⟩ := (Option.any_eq_true _ _).1 hlive
    rw [TabRegistry.name, (Dict.get?_eq_some_iff _ _ _).2 hmem, Option.bind_some, heq,
      (htext live).1 (of_decide_eq_true hname)]
  · rintro ⟨id, hname, hroot⟩
    rw [TabRegistry.name, Option.bind_eq_some_iff] at hname
    obtain ⟨names, hget, hlive⟩ := hname
    refine ⟨(id, names), (Dict.get?_eq_some_iff _ _ _).1 hget, ?_⟩
    simp [hlive, hroot]

end TabRegistry

namespace BrowserTask
variable {t t' : BrowserTask}

/-- Every name is of a tab that is open or being created. -/
def Owned (t : BrowserTask) : Prop := ∀ id ∈ t.tabs.names.keys, id ∈ t.tabs.tabs ∨ t.Creating id

/-- No entry is without a name. -/
def Named (t : BrowserTask) : Prop := ∀ id, t.tabs.names.get? id ≠ some .default

/-- A reset that leaves the tab a name: its document has one, or it has no entry to begin with. -/
def ResetSafe (t : BrowserTask) : BrowserStep → Prop
  | .other (.rename id .reset) =>
    id ∈ t.tabs.tabs → ∀ names ∈ t.tabs.names.get? id, names.document ≠ none
  | _ => True

instance (t : BrowserTask) (i : BrowserStep) : Decidable (t.ResetSafe i) :=
  match i with
  | .other (.rename id .reset) => inferInstanceAs (Decidable
      (id ∈ t.tabs.tabs → ∀ names ∈ t.tabs.names.get? id, names.document ≠ none))
  | .other (.rename _ (.assigned _)) | .other (.settleDocumentName ..)
  | .other (.installCommit ..) | .other (.restoreCommit ..) | .begin _ | .advance =>
    inferInstanceAs (Decidable True)

/-- What the operations of the browser task have in common: a name is written before its tab is
inserted, and the names are cleared right after the tabs. -/
def Shaped : List Section → Prop
  | [] => True
  | c :: rest => Shaped rest ∧ (∀ id name, c = .insertName id name → .insert id ∈ rest) ∧
      (c = .drainTabs ↔ rest.head? = some .drainNames) ∧ (c = .drainNames → rest = [])

/-- The invariant of the names. -/
structure NamesInv (t : BrowserTask) : Prop where
  shaped : Shaped t.pending
  named : t.Named
  owned : ¬ t.Draining → t.Owned
  drained : t.Draining → t.tabs.tabs = []

theorem shaped_creation (id : TabId) (tab : NewTab) : Shaped (creation id tab) := by
  obtain ⟨name, opener, frame, sandbox⟩ := tab
  cases opener with
  | none => simp [creation, Shaped]
  | some opener =>
    cases frame with
    | none => simp [creation, Shaped]
    | some frame => simp [creation, Shaped]

theorem begin_eq (t : BrowserTask) (op : BrowserOp) :
    (t.begin op).tabs = t.tabs ∧ (t.pending = [] → Shaped (t.begin op).pending ∧
      ¬ (t.begin op).Draining) := by
  have hcreate : ∀ tab, (t.createTab tab).2.tabs = t.tabs ∧ (t.pending = [] →
      Shaped (t.createTab tab).2.pending ∧ ¬ (t.createTab tab).2.Draining) := by
    intro tab
    unfold createTab
    cases t.nextTab with
    | none => exact ⟨rfl, fun hp => by simp [hp, Shaped, Draining]⟩
    | some raw => exact ⟨rfl, fun _ => ⟨shaped_creation raw tab, by simp [Draining, creation]⟩⟩
  cases op with
  | createTab tab => exact hcreate tab
  | closeTab id =>
    simp only [begin, closeTab]
    split_ifs
    · exact ⟨rfl, fun _ => by simp [Shaped, Draining]⟩
    · exact ⟨rfl, fun hp => by simp [hp, Shaped, Draining]⟩
  | openWindow request => exact hcreate _
  | shutdown => exact ⟨rfl, fun _ => by simp [begin, shutdown, Shaped, Draining]⟩

theorem namesInv_new : NamesInv .new where
  shaped := trivial
  named := fun id => by simp [new, TabRegistry.new]
  owned := fun _ id hid => by simp [new, TabRegistry.new, Dict.empty, Dict.keys] at hid
  drained := fun h => by simp [new, Draining] at h

theorem NamesInv.begin (h : t.NamesInv) (hp : t.pending = []) (op : BrowserOp) :
    (t.begin op).NamesInv := by
  obtain ⟨htabs, hpending⟩ := begin_eq t op
  obtain ⟨hshaped, hdrain⟩ := hpending hp
  refine ⟨hshaped, ?_, ?_, fun hd => absurd hd hdrain⟩
  · intro id
    rw [htabs]
    exact h.named id
  · intro _ id hid
    rw [htabs] at hid ⊢
    have hold : ¬ t.Draining := by simp [Draining, hp]
    rcases h.owned hold id hid with hlive | hcreating
    · exact .inl hlive
    · rw [Creating, hp] at hcreating
      cases hcreating

theorem NamesInv.other (h : t.NamesInv) {op : NameOp} (hsafe : t.ResetSafe (.other op)) :
    NamesInv { t with tabs := t.tabs.applyName op } := by
  have htabs : (t.tabs.applyName op).tabs = t.tabs.tabs := by
    obtain ⟨names, heq⟩ := TabRegistry.applyName_eq t.tabs op
    rw [heq]
  refine ⟨h.shaped, ?_, ?_, fun hd => htabs.trans (h.drained hd)⟩
  · intro id hid
    rcases TabRegistry.get?_applyName hid with hold | ⟨-, hne⟩ | ⟨hlive, rfl, old, hold, heq⟩
    · exact h.named id hold
    · exact hne rfl
    · have hdocument := hsafe hlive old hold
      exact hdocument (congrArg TabNames.document heq).symm
  · intro hd id hid
    obtain ⟨names, hget⟩ := (Dict.mem_keys_iff _ _).1 hid
    rw [htabs]
    rcases TabRegistry.get?_applyName hget with hold | ⟨hlive, -⟩ | ⟨hlive, -⟩
    · exact h.owned hd id ((Dict.mem_keys_iff _ _).2 ⟨names, hold⟩)
    · exact .inl hlive
    · exact .inl hlive

/-- The browser task enters its next section. -/
theorem NamesInv.advance (h : t.NamesInv) {c : Section} {rest : List Section}
    (hp : t.pending = c :: rest) : NamesInv { t with tabs := t.tabs.enter c, pending := rest } := by
  obtain ⟨hrest, hwrite, htabs, hnames⟩ := (hp ▸ h.shaped : Shaped (c :: rest))
  -- what was being created before the section still is, unless the section inserted it
  have hcreating : ∀ id, t.Creating id → c = .insert id ∨ .insert id ∈ rest := by
    intro id hid
    rw [Creating, hp] at hid
    rcases List.mem_cons.1 hid with heq | hmem
    · exact .inl heq.symm
    · exact .inr hmem
  have hdrain : t.Draining ↔ c = .drainNames := by simp [Draining, hp]
  have hdrain' : Draining { t with tabs := t.tabs.enter c, pending := rest } ↔ c = .drainTabs :=
    htabs.symm
  -- a section that leaves tabs and names alone
  have hquiet : (∀ id, c ≠ .insert id) → c ≠ .drainTabs → c ≠ .drainNames →
      (t.tabs.enter c).tabs = t.tabs.tabs → (t.tabs.enter c).names = t.tabs.names →
      NamesInv { t with tabs := t.tabs.enter c, pending := rest } := by
    intro hinsert hne hne' heqt heqn
    refine ⟨hrest, fun id => heqn ▸ h.named id, fun _ id hid => ?_, fun hd => absurd (hdrain'.1 hd) hne⟩
    rcases h.owned (fun hd => hne' (hdrain.1 hd)) id (heqn ▸ hid) with hlive | hc
    · exact .inl (heqt ▸ hlive)
    · exact .inr ((hcreating id hc).resolve_left (hinsert id))
  cases c with
  | insertName id name =>
    have hid := hwrite id name rfl
    have hd : ¬ t.Draining := fun hd => by cases hdrain.1 hd
    refine ⟨hrest, ?_, ?_, fun hd' => by cases hdrain'.1 hd'⟩
    · intro id' hget
      cases name with
      | none => exact h.named id' (TabRegistry.eq_of_get?_erase hget).1
      | some name =>
        rcases TabRegistry.eq_of_get?_insert hget with hold | ⟨-, heq⟩
        · exact h.named id' hold
        · cases heq
    · intro _ id' hkey
      have hold : id' = id ∨ id' ∈ t.tabs.names.keys := by
        cases name with
        | none => exact .inr ((Dict.mem_keys_erase _ _ _).1 hkey).2
        | some name => exact (Dict.mem_keys_insert _ _ _ _).1 hkey
      rcases hold with rfl | hold
      · exact .inr hid
      · rcases h.owned hd id' hold with hlive | hc
        · exact .inl hlive
        · exact .inr ((hcreating id' hc).resolve_left (by simp))
  | insert id =>
    have hd : ¬ t.Draining := fun hd => by cases hdrain.1 hd
    have hmem : ∀ id', id' ∈ t.tabs.tabs ∨ id' = id → id' ∈ (t.tabs.insert id).tabs := by
      intro id' hid'
      by_cases heq : id' = id
      · exact List.mem_cons.2 (.inl heq)
      · exact List.mem_cons.2 (.inr ((List.mem_erase_of_ne heq).2 (hid'.resolve_right heq)))
    refine ⟨hrest, h.named, ?_, fun hd' => by cases hdrain'.1 hd'⟩
    intro _ id' hkey
    rcases h.owned hd id' hkey with hlive | hc
    · exact .inl (hmem id' (.inl hlive))
    · rcases hcreating id' hc with heq | hin
      · exact .inl (hmem id' (.inr (Section.insert.inj heq).symm))
      · exact .inr hin
  | remove id =>
    have hd : ¬ t.Draining := fun hd => by cases hdrain.1 hd
    by_cases hlive : id ∈ t.tabs.tabs
    · refine ⟨hrest, ?_, ?_, fun hd' => by cases hdrain'.1 hd'⟩
      · intro id' hget
        simp only [TabRegistry.enter, TabRegistry.remove, if_pos hlive] at hget
        exact h.named id' (TabRegistry.eq_of_get?_erase hget).1
      · intro _ id' hkey
        simp only [TabRegistry.enter, TabRegistry.remove, if_pos hlive] at hkey ⊢
        obtain ⟨hne, hold⟩ := (Dict.mem_keys_erase _ _ _).1 hkey
        rcases h.owned hd id' hold with hlive' | hc
        · exact .inl (List.mem_filter.2 ⟨hlive', decide_eq_true hne⟩)
        · exact .inr ((hcreating id' hc).resolve_left (by simp))
    · exact hquiet (by simp) (by simp) (by simp) (by simp [TabRegistry.enter, TabRegistry.remove, hlive])
        (by simp [TabRegistry.enter, TabRegistry.remove, hlive])
  | drainTabs =>
    exact ⟨hrest, h.named, fun hd => absurd (hdrain'.2 rfl) hd, fun _ => rfl⟩
  | drainNames =>
    refine ⟨hrest, fun id => ?_, fun _ id hkey => ?_, fun hd' => by cases hdrain'.1 hd'⟩
    · simp [TabRegistry.enter, TabRegistry.drainNames]
    · simp [TabRegistry.enter, TabRegistry.drainNames, Dict.empty, Dict.keys] at hkey
  | setSandbox id sandbox => exact hquiet (by simp) (by simp) (by simp) rfl rfl
  | setOpener id opener => exact hquiet (by simp) (by simp) (by simp) rfl rfl
  | removeOpener id => exact hquiet (by simp) (by simp) (by simp) rfl rfl
  | removeSandbox id => exact hquiet (by simp) (by simp) (by simp) rfl rfl

theorem NamesInv.step {i : BrowserStep} (h : t.NamesInv) (hsafe : t.ResetSafe i)
    (hstep : t.step i = some t') : t'.NamesInv := by
  cases i with
  | begin op =>
    simp only [BrowserTask.step] at hstep
    split_ifs at hstep with hp
    exact Option.some.inj hstep ▸ h.begin hp op
  | advance =>
    simp only [BrowserTask.step] at hstep
    split at hstep
    · cases hstep
    · next c rest hp => exact Option.some.inj hstep ▸ h.advance hp
  | other op => exact Option.some.inj hstep ▸ h.other hsafe

theorem NamesInv.owned_iff (h : t.NamesInv) :
    t.Owned ↔ (t.Draining → t.tabs.names.keys = []) := by
  constructor
  · intro howned hd
    have hpending : t.pending = [.drainNames] := by
      obtain ⟨rest, hp⟩ : ∃ rest, t.pending = .drainNames :: rest := by
        unfold Draining at hd
        cases hp : t.pending with
        | nil => simp [hp] at hd
        | cons c rest =>
          rw [hp] at hd
          exact ⟨rest, by rw [Option.some.inj hd]⟩
      have hshaped := h.shaped
      rw [hp] at hshaped
      rw [hp, hshaped.2.2.2 rfl]
    rw [List.eq_nil_iff_forall_not_mem]
    intro id hid
    rcases howned id hid with hlive | hc
    · rw [h.drained hd] at hlive
      cases hlive
    · rw [Creating, hpending] at hc
      simp at hc
  · intro hempty
    by_cases hd : t.Draining
    · intro id hid
      rw [hempty hd] at hid
      cases hid
    · exact h.owned hd

/-- In a run without an unsafe reset no entry is empty, every name is found, and no name outlives
its tab except between the two sections of `drain`. -/
theorem names_of_run {steps : List BrowserStep} (hsafe : Machine.Along step ResetSafe .new steps)
    (hrun : Machine.run step .new steps = some t) :
    t.Named ∧ (t.Owned ↔ (t.Draining → t.tabs.names.keys = [])) ∧
      ∀ caller name, (t.tabs.findByName caller name).isSome = true ↔
        ∃ id, t.tabs.name id = some name ∧
          groupRoot t.tabs.openers id = groupRoot t.tabs.openers caller := by
  have hinv : t.NamesInv :=
    Machine.inv_run_along (fun _ _ _ h hsafe hstep => h.step hsafe hstep) namesInv_new hsafe hrun
  exact ⟨hinv.named, hinv.owned_iff, t.tabs.findByName_isSome⟩

def sampleName : ContextName := ⟨['a'], by decide, by decide⟩

/-- `window.open` with a name, up to the end of its creation. -/
def openNamed : List BrowserStep :=
  [.begin (.openWindow ⟨.named sampleName, none, FrameId.main, .keep, .empty⟩), .advance, .advance,
    .advance]

/-- Tab 1 is left by a cross-origin navigation while its document has a name, and closed. -/
def resetAndClose : List BrowserStep :=
  openNamed ++ [.other (.rename 1 .reset), .begin (.closeTab 1), .advance]

theorem names_of_run_reset :
    ∃ t, Machine.run step .new resetAndClose = some t ∧ t.Named ∧ t.Owned := by
  have hsafe : Machine.Along step ResetSafe .new resetAndClose := by decide +kernel
  obtain ⟨t, hrun, hdrain⟩ : ∃ t, Machine.run step .new resetAndClose = some t ∧ ¬ t.Draining :=
    ⟨_, rfl, by decide +kernel⟩
  obtain ⟨hnamed, howned, -⟩ := names_of_run hsafe hrun
  exact ⟨t, hrun, hnamed, howned.2 fun hd => absurd hd hdrain⟩

/-- The document's name is settled away, then the live one is reset: the tab keeps an entry without
a name. And a run that has stopped between the sections of `drain`: the closed tab is found. -/
theorem exists_run_unsound_names :
    (∃ t, Machine.run step .new (openNamed ++
        [.other (.settleDocumentName 1 (some sampleName) none), .other (.rename 1 .reset)]) = some t ∧
      ¬ t.Named) ∧
    ∃ t, Machine.run step .new (openNamed ++ [.begin .shutdown, .advance]) = some t ∧ ¬ t.Owned ∧
      t.tabs.findByName 1 sampleName = some 1 := by
  constructor
  · obtain ⟨t, hrun, hget⟩ : ∃ t, Machine.run step .new (openNamed ++
        [.other (.settleDocumentName 1 (some sampleName) none), .other (.rename 1 .reset)]) = some t ∧
        t.tabs.names.get? 1 = some .default := ⟨_, rfl, by decide +kernel⟩
    exact ⟨t, hrun, fun h => h 1 hget⟩
  · refine ⟨_, rfl, fun h => ?_, by decide +kernel⟩
    exact absurd (h 1 (by decide +kernel)) (by decide +kernel)

end BrowserTask

end TinyBrowser
