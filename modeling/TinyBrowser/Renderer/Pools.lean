import TinyBrowser.Renderer.Manager

/-!
# Process pools

A process is locked to the site of every assignment it hosts, and it is shut down only after the
last of them: an idle process leaves its pool under the state lock before it is shut down, so no
reservation can find it any more. The invariant says which processes are still unlocked (the spare
and one that is about to become it) and which are on their way out.
-/

namespace TinyBrowser
open Lib

/-- The assignment still counts against its process. -/
def Lifetime.counts : Lifetime → Bool
  | .alive | .dropping .noteReleased | .dropping .releaseStreams | .dropping .removeLive
  | .dropping .notifyRelease | .dropping .countDown => true
  | .dropping .sendNotice | .dropped => false

namespace ProcessManager

def countsFor (process : RendererId) (_ : RendererAssignmentId) (entry : Assignment × Lifetime) :
    Bool :=
  entry.1.process = process && entry.2.counts

/-- The assignments of a process that were not counted down. -/
def hosted (m : ProcessManager) (process : RendererId) : Nat :=
  m.assignments.heap.count (countsFor process)

/-- The process hosts nothing and nothing can find it. -/
structure Idle (m : ProcessManager) (process : RendererId) : Prop where
  hosts : m.count process = 0
  unpooled : ∀ site, process ∉ m.pool site
  notSpare : m.state.spare ≠ some process

structure Safe (m : ProcessManager) : Prop where
  hosts : ∀ id assignment lifetime, m.assignments.heap.get? id = some (assignment, lifetime) →
    m.siteOf assignment.process = some assignment.site
  counted : ∀ process, m.count process = m.hosted process
  retired : ∀ process, m.isStopped process = true → m.Idle process
  acquired : ∀ tab site spawn assignment, (m.acquireReserved tab site spawn).1 = some assignment →
    m.isStopped assignment.process = false
  apart : ∀ process site, m.state.spare = some process → process ∉ m.pool site

/-- A step leaves every lock where it is, and shuts down only idle processes, for good. -/
structure Proper (m m' : ProcessManager) : Prop where
  locked : ∀ process site, m.siteOf process = some site → m'.siteOf process = some site
  stopped : ∀ process, m.isStopped process = true → m'.isStopped process = true
  idle : ∀ process, m.isStopped process = false → m'.isStopped process = true → m.Idle process

/-- Locks stay, and no process is shut down. -/
structure Carries (m m' : ProcessManager) : Prop where
  locked : ∀ process site, m.siteOf process = some site → m'.siteOf process = some site
  stopped : ∀ process, m'.isStopped process = m.isStopped process

/-- The process exists and is not locked yet. -/
def Unlocked (m : ProcessManager) (process : RendererId) : Prop :=
  ∃ handle, m.handles.get? process = some handle ∧ handle.site = none

/-- The process is locked, hosts nothing and is in no pool. -/
structure Retired (m : ProcessManager) (process : RendererId) : Prop where
  bound : ∃ site, m.siteOf process = some site
  hosts : m.count process = 0
  unpooled : ∀ site, process ∉ m.pool site

/-- What the release loop relies on while it works on a notice. -/
def LoopInv (m : ProcessManager) : LoopPhase → Prop
  | .waiting => True
  | .evaluating process site => site.isSome = true ∧ m.siteOf process = site
  | .stopping process => m.Retired process

structure Inv (m : ProcessManager) : Prop where
  fresh : ∀ process : Nat, m.next ≤ process → m.handles.get? process = none
  minted : ∀ id : Nat, m.assignments.registry.next ≤ id → m.assignments.heap.get? id = none
  hosts : ∀ id assignment lifetime, m.assignments.heap.get? id = some (assignment, lifetime) →
    m.siteOf assignment.process = some assignment.site
  counted : ∀ process, m.count process = m.hosted process
  pooled : ∀ site, ∀ process ∈ m.pool site, m.siteOf process = some site
  spare : ∀ process, m.state.spare = some process → m.Unlocked process
  filling : ∀ process, m.filling = .spawned (some process) →
    m.Unlocked process ∧ m.state.spare ≠ some process
  noticed : ∀ process ∈ m.releases, ∃ site, m.siteOf process = some site
  loop : m.LoopInv m.loop
  retired : ∀ process, m.isStopped process = true → m.Retired process

variable {m : ProcessManager}

/-! ### The views of a handle -/

theorem siteOf_eq_some {process : RendererId} {site : Site} :
    m.siteOf process = some site ↔
      ∃ handle, m.handles.get? process = some handle ∧ handle.site = some site :=
  Option.bind_eq_some_iff

theorem Unlocked.siteOf {process : RendererId} (h : m.Unlocked process) : m.siteOf process = none := by
  obtain ⟨handle, hget, hsite⟩ := h
  rw [ProcessManager.siteOf, hget]
  exact hsite

theorem siteOf_modifyHandle {process p : RendererId} {f : RendererHandle → RendererHandle}
    (hf : ∀ handle, (f handle).site = handle.site) :
    (m.modifyHandle process f).siteOf p = m.siteOf p := by
  rw [siteOf, siteOf, modifyHandle, Dict.get?_modify]
  split_ifs with hp
  · cases m.handles.get? p with
    | none => rfl
    | some handle => exact hf handle
  · rfl

theorem count_modifyHandle {process p : RendererId} {f : RendererHandle → RendererHandle}
    (hf : ∀ handle, (f handle).assignments = handle.assignments) :
    (m.modifyHandle process f).count p = m.count p := by
  rw [count, count, modifyHandle, Dict.get?_modify]
  split_ifs with hp
  · cases m.handles.get? p with
    | none => rfl
    | some handle => exact hf handle
  · rfl

theorem isStopped_modifyHandle {process p : RendererId} {f : RendererHandle → RendererHandle}
    (hf : ∀ handle, (f handle).stopped = handle.stopped) :
    (m.modifyHandle process f).isStopped p = m.isStopped p := by
  rw [isStopped, isStopped, modifyHandle, Dict.get?_modify]
  split_ifs with hp
  · cases m.handles.get? p with
    | none => rfl
    | some handle => exact hf handle
  · rfl

theorem Carries.of_handles {m' : ProcessManager} (h : m'.handles = m.handles) : m.Carries m' where
  locked p site hp := by rw [siteOf, h]; exact hp
  stopped p := by rw [isStopped, h]; rfl

theorem Carries.trans {m₁ m₂ m₃ : ProcessManager} (h : m₁.Carries m₂) (h' : m₂.Carries m₃) :
    m₁.Carries m₃ :=
  ⟨fun p site hsite => h'.locked p site (h.locked p site hsite),
    fun p => (h'.stopped p).trans (h.stopped p)⟩

theorem Carries.proper {m' : ProcessManager} (h : m.Carries m') : m.Proper m' where
  locked := h.locked
  stopped p hp := (h.stopped p).trans hp
  idle p hp hp' := by
    rw [h.stopped, hp] at hp'
    cases hp'

theorem carries_modifyHandle {process : RendererId} {f : RendererHandle → RendererHandle}
    (hsite : ∀ handle, (f handle).site = handle.site)
    (hstopped : ∀ handle, (f handle).stopped = handle.stopped) :
    m.Carries (m.modifyHandle process f) :=
  ⟨fun _ _ hp => (siteOf_modifyHandle hsite).trans hp, fun _ => isStopped_modifyHandle hstopped⟩

theorem Retired.imp {m' : ProcessManager} {process : RendererId} (hcarries : m.Carries m')
    (hcount : m'.count process = m.count process)
    (hpool : ∀ site, process ∈ m'.pool site → process ∈ m.pool site) (h : m.Retired process) :
    m'.Retired process := by
  obtain ⟨site, hsite⟩ := h.bound
  exact ⟨⟨site, hcarries.locked process site hsite⟩, hcount.trans h.hosts,
    fun site' hmem => h.unpooled site' (hpool site' hmem)⟩

theorem unlocked_modifyHandle {process p : RendererId} {f : RendererHandle → RendererHandle}
    (hf : ∀ handle, (f handle).site = handle.site) (h : m.Unlocked p) :
    (m.modifyHandle process f).Unlocked p := by
  obtain ⟨handle, hget, hsite⟩ := h
  by_cases hp : p = process
  · refine ⟨f handle, ?_, (hf handle).trans hsite⟩
    rw [modifyHandle, Dict.get?_modify, if_pos hp, hget]
    rfl
  · exact ⟨handle, by rw [modifyHandle, Dict.get?_modify, if_neg hp]; exact hget, hsite⟩

theorem handles_modifyHandle {process p : RendererId} {f : RendererHandle → RendererHandle}
    (h : m.handles.get? p = none) : (m.modifyHandle process f).handles.get? p = none := by
  rw [modifyHandle, Dict.get?_modify, h]
  split_ifs <;> rfl

theorem pool_setPool {site site' : Site} {processes : List RendererId} :
    (m.setPool site processes).pool site' = if site' = site then processes else m.pool site' := by
  rw [pool, setPool, Dict.get?_insert]
  split_ifs <;> rfl

/-- Locks stay, and so does what the loop relies on unless its process comes back. -/
theorem LoopInv.imp {m' : ProcessManager} {phase : LoopPhase} (hcarries : m.Carries m')
    (hretired : ∀ process, phase = .stopping process → m.Retired process → m'.Retired process)
    (h : m.LoopInv phase) : m'.LoopInv phase := by
  cases phase with
  | waiting => trivial
  | evaluating process site =>
    obtain ⟨hsome, hlock⟩ := h
    obtain ⟨lock, rfl⟩ := Option.isSome_iff_exists.mp hsome
    exact ⟨rfl, hcarries.locked process lock hlock⟩
  | stopping process => exact hretired process rfl h

theorem inv_new : Inv new where
  fresh _ _ := rfl
  minted _ _ := rfl
  hosts _ _ _ h := by cases h
  counted _ := rfl
  pooled _ _ h := by cases h
  spare _ h := by cases h
  filling _ h := by cases h
  noticed _ h := by cases h
  loop := trivial
  retired _ h := by cases h

theorem Inv.idle (h : m.Inv) {process : RendererId} (hretired : m.Retired process) :
    m.Idle process where
  hosts := hretired.hosts
  unpooled := hretired.unpooled
  notSpare hspare := by
    obtain ⟨site, hsite⟩ := hretired.bound
    rw [(h.spare process hspare).siteOf] at hsite
    cases hsite

/-! ### Acquiring -/

/-- The process is locked to the site and not on its way out. -/
structure Available (m : ProcessManager) (process : RendererId) (site : Site) : Prop where
  bound : m.siteOf process = some site
  running : m.isStopped process = false
  kept : m.loop ≠ .stopping process

theorem Inv.available (h : m.Inv) {process : RendererId} {site : Site}
    (hpool : process ∈ m.pool site) : m.Available process site where
  bound := h.pooled site process hpool
  running := by
    rw [← Bool.not_eq_true]
    exact fun hstopped => (h.retired process hstopped).unpooled site hpool
  kept hloop := by
    have hretired := h.loop
    rw [hloop] at hretired
    exact hretired.unpooled site hpool

theorem Unlocked.not_retired {process : RendererId} (hunlocked : m.Unlocked process) :
    ¬ m.Retired process := by
  rintro ⟨⟨site, hsite⟩, -, -⟩
  rw [hunlocked.siteOf] at hsite
  cases hsite

theorem Inv.setPool (h : m.Inv) {site : Site} {processes : List RendererId}
    (hprocesses : ∀ process ∈ processes, m.Available process site) :
    (m.setPool site processes).Inv := by
  have hcarries : m.Carries (m.setPool site processes) := .of_handles rfl
  have hretired : ∀ process, m.Retired process →
      (m.isStopped process = true ∨ m.loop = .stopping process) →
        (m.setPool site processes).Retired process := by
    intro process hretired hout
    refine ⟨hretired.bound, hretired.hosts, fun site' hmem => ?_⟩
    rw [pool_setPool] at hmem
    split_ifs at hmem with hsite
    · rcases hout with hstopped | hloop
      · have hrunning := (hprocesses process hmem).running
        rw [hstopped] at hrunning
        cases hrunning
      · exact (hprocesses process hmem).kept hloop
    · exact hretired.unpooled site' hmem
  refine ⟨h.fresh, h.minted, h.hosts, h.counted, fun site' process hmem => ?_, h.spare, h.filling,
    h.noticed, h.loop.imp hcarries fun p hloop hp => hretired p hp (.inr hloop),
    fun p hstopped => hretired p (h.retired p hstopped) (.inl hstopped)⟩
  rw [pool_setPool] at hmem
  split_ifs at hmem with hsite
  · rw [hsite]
    exact (hprocesses process hmem).bound
  · exact h.pooled site' process hmem

theorem count_of_get? {process : RendererId} {handle : RendererHandle}
    (h : m.handles.get? process = some handle) : m.count process = handle.assignments := by
  rw [count, h]
  rfl

theorem count_reserve {process p : RendererId} {tab : TabId} {site site' : Site}
    (hbound : m.siteOf process = some site') :
    (m.reserve process tab site).2.count p = m.count p + if p = process then 1 else 0 := by
  obtain ⟨handle, hget, -⟩ := siteOf_eq_some.mp hbound
  have hget' : (m.reserve process tab site).2.handles.get? p =
      if p = process then (m.handles.get? p).map fun handle =>
        { handle with assignments := handle.assignments + 1 } else m.handles.get? p :=
    Dict.get?_modify ..
  split_ifs with hp
  · subst hp
    rw [if_pos rfl, hget] at hget'
    rw [count_of_get? hget', count_of_get? hget]
  · rw [if_neg hp] at hget'
    rw [count, count, hget']
    rfl

theorem hosted_reserve (h : m.Inv) {process p : RendererId} {tab : TabId} {site : Site} :
    (m.reserve process tab site).2.hosted p = m.hosted p + if p = process then 1 else 0 := by
  have hinsert : (m.reserve process tab site).2.hosted p = m.hosted p + _ :=
    Dict.count_insert_of_none (h.minted m.assignments.registry.next (le_refl _))
  rw [hinsert, countsFor, Lifetime.counts, Bool.and_true]
  by_cases hp : p = process
  · rw [if_pos hp, if_pos (decide_eq_true hp.symm)]
  · rw [if_neg hp, if_neg fun h => hp (of_decide_eq_true h).symm]

theorem carries_reserve (process : RendererId) (tab : TabId) (site : Site) :
    m.Carries (m.reserve process tab site).2 :=
  have hmodify : m.Carries (m.modifyHandle process fun handle =>
      { handle with assignments := handle.assignments + 1 }) :=
    carries_modifyHandle (fun _ => rfl) fun _ => rfl
  ⟨hmodify.locked, hmodify.stopped⟩

theorem carries_reserveIn (process : RendererId) (tab : TabId) (site : Site) :
    m.Carries (m.reserveIn process tab site).2 := by
  unfold reserveIn
  have hpool (processes : List RendererId) : m.Carries (m.setPool site processes) := .of_handles rfl
  exact (hpool _).trans (carries_reserve process tab site)

theorem Inv.reserve (h : m.Inv) {process : RendererId} {tab : TabId} {site : Site}
    (havailable : m.Available process site) : (m.reserve process tab site).2.Inv := by
  have hsite {p} : (m.reserve process tab site).2.siteOf p = m.siteOf p :=
    siteOf_modifyHandle fun _ => rfl
  have hcarries := carries_reserve process tab site (m := m)
  have hunlocked {p} (hp : m.Unlocked p) : (m.reserve process tab site).2.Unlocked p :=
    unlocked_modifyHandle (fun _ => rfl) hp
  -- the process it reserves is not on its way out
  have hretired {p} (hout : m.isStopped p = true ∨ m.loop = .stopping p) (hp : m.Retired p) :
      (m.reserve process tab site).2.Retired p := by
    refine hp.imp hcarries ?_ fun _ hmem => hmem
    rw [count_reserve havailable.bound, if_neg, Nat.add_zero]
    rintro rfl
    rcases hout with hstopped | hloop
    · rw [havailable.running] at hstopped
      cases hstopped
    · exact havailable.kept hloop
  refine ⟨fun p hp => handles_modifyHandle (h.fresh p hp), fun id hid => ?_,
    fun id a lifetime hget => ?_, fun p => ?_, fun site' p hp => by rw [hsite]; exact h.pooled site' p hp,
    fun p hp => hunlocked (h.spare p hp),
    fun p hp => ⟨hunlocked (h.filling p hp).1, (h.filling p hp).2⟩,
    fun p hp => by rw [hsite]; exact h.noticed p hp,
    h.loop.imp hcarries fun p hloop hp => hretired (.inr hloop) hp, fun p hp => ?_⟩
  · have hid' : m.assignments.registry.next + 1 ≤ id := hid
    have hne : id ≠ m.assignments.registry.next := by omega
    have hget : (m.reserve process tab site).2.assignments.heap.get? id = _ := Dict.get?_insert ..
    rw [hget, if_neg hne]
    exact h.minted id (by omega)
  · have hinsert : (m.reserve process tab site).2.assignments.heap.get? id = _ := Dict.get?_insert ..
    rw [hinsert] at hget
    rw [hsite]
    split_ifs at hget with hid
    · cases hget
      exact havailable.bound
    · exact h.hosts id a lifetime hget
  · rw [count_reserve havailable.bound, hosted_reserve h, h.counted]
  · rw [hcarries.stopped] at hp
    exact hretired (.inl hp) (h.retired p hp)

theorem Inv.reserveIn (h : m.Inv) {process : RendererId} {tab : TabId} {site : Site}
    (havailable : m.Available process site) : (m.reserveIn process tab site).2.Inv := by
  refine Inv.reserve (h.setPool fun p hp => ?_) ⟨havailable.bound, havailable.running, havailable.kept⟩
  split_ifs at hp
  · exact h.available hp
  · rcases List.mem_append.mp hp with hp | hp
    · exact h.available hp
    · rw [List.mem_singleton.mp hp]
      exact havailable

theorem carries_takeSpare (m : ProcessManager) : m.Carries m.takeSpare := .of_handles rfl

theorem Inv.takeSpare (h : m.Inv) : m.takeSpare.Inv where
  fresh := h.fresh
  minted := h.minted
  hosts := h.hosts
  counted := h.counted
  pooled := h.pooled
  spare _ hp := by cases hp
  filling p hp := ⟨(h.filling p hp).1, fun hspare => by cases hspare⟩
  noticed := h.noticed
  loop := h.loop.imp (carries_takeSpare m) fun _ _ hp => ⟨hp.bound, hp.hosts, hp.unpooled⟩
  retired p hp := ⟨(h.retired p hp).bound, (h.retired p hp).hosts, (h.retired p hp).unpooled⟩

theorem siteOf_lock {process p : RendererId} {site : Site} (hunlocked : m.Unlocked process) :
    (m.lock process site).siteOf p = if p = process then some site else m.siteOf p := by
  obtain ⟨handle, hget, -⟩ := hunlocked
  rw [siteOf, siteOf, lock, modifyHandle, Dict.get?_modify]
  split_ifs with hp
  · rw [hp, hget]
    rfl
  · rfl

theorem carries_lock {process : RendererId} {site : Site} (hunlocked : m.Unlocked process) :
    m.Carries (m.lock process site) := by
  refine ⟨fun p site' hp => ?_, fun p => isStopped_modifyHandle fun _ => rfl⟩
  rw [siteOf_lock hunlocked, if_neg, hp]
  rintro rfl
  rw [hunlocked.siteOf] at hp
  cases hp

/-- Locking a process that is neither the spare nor about to become it. -/
theorem Inv.lock (h : m.Inv) {process : RendererId} (site : Site) (hunlocked : m.Unlocked process)
    (hspare : m.state.spare ≠ some process) (hfilling : m.filling ≠ .spawned (some process)) :
    (m.lock process site).Inv ∧ (m.lock process site).Available process site := by
  have hcount {p} : (m.lock process site).count p = m.count p := count_modifyHandle fun _ => rfl
  have hcarries : m.Carries (m.lock process site) := carries_lock hunlocked
  have hretired (p) (hp : m.Retired p) : (m.lock process site).Retired p :=
    hp.imp hcarries hcount fun _ hmem => hmem
  have hother {p} (hne : p ≠ process) (hp : m.Unlocked p) : (m.lock process site).Unlocked p := by
    obtain ⟨handle, hget, hnone⟩ := hp
    refine ⟨handle, ?_, hnone⟩
    rw [ProcessManager.lock, modifyHandle, Dict.get?_modify, if_neg hne]
    exact hget
  constructor
  · refine ⟨fun p hp => handles_modifyHandle (h.fresh p hp), h.minted,
      fun id a lifetime hget => hcarries.locked _ _ (h.hosts id a lifetime hget),
      fun p => hcount.trans (h.counted p),
      fun site' p hp => hcarries.locked p site' (h.pooled site' p hp),
      fun p hp => hother ?_ (h.spare p hp), fun p hp => ⟨hother ?_ (h.filling p hp).1, (h.filling p hp).2⟩,
      fun p hp => ?_, h.loop.imp hcarries fun p _ hp => hretired p hp,
      fun p hp => hretired p (h.retired p (hcarries.stopped p ▸ hp))⟩
    · rintro rfl
      exact hspare hp
    · rintro rfl
      exact hfilling hp
    · obtain ⟨site', hsite⟩ := h.noticed p hp
      exact ⟨site', hcarries.locked p site' hsite⟩
  · refine ⟨(siteOf_lock hunlocked).trans (if_pos rfl), ?_, fun hloop => ?_⟩
    · rw [← Bool.not_eq_true]
      exact fun hp => hunlocked.not_retired (h.retired process (hcarries.stopped process ▸ hp))
    · have hstopping := h.loop
      rw [show m.loop = .stopping process from hloop] at hstopping
      exact hunlocked.not_retired hstopping

/-! ### Spawning -/

theorem get?_spawned {site : Option Site} {p : RendererId} :
    (m.spawnSlot site .spawned).2.handles.get? p =
      if p = m.next then some ⟨site, 0, true, false, false⟩ else m.handles.get? p :=
  Dict.get?_insert ..

theorem Inv.carries_spawned (h : m.Inv) (site : Option Site) :
    m.Carries (m.spawnSlot site .spawned).2 := by
  have hnew : m.handles.get? m.next = none := h.fresh m.next (le_refl _)
  refine ⟨fun p site' hp => ?_, fun p => ?_⟩
  · rw [siteOf, get?_spawned, if_neg]
    · exact hp
    · rintro rfl
      rw [siteOf, hnew] at hp
      cases hp
  · rw [isStopped, isStopped, get?_spawned]
    split_ifs with hp
    · rw [hp, hnew]
      rfl
    · rfl

theorem Inv.unlocked_spawned (h : m.Inv) (site : Option Site) {p : RendererId} (hp : m.Unlocked p) :
    p ≠ m.next ∧ (m.spawnSlot site .spawned).2.Unlocked p := by
  obtain ⟨handle, hhandle, hnone⟩ := hp
  have hne : p ≠ m.next := by
    rintro rfl
    rw [h.fresh m.next (le_refl _)] at hhandle
    cases hhandle
  exact ⟨hne, handle, by rw [get?_spawned, if_neg hne]; exact hhandle, hnone⟩

theorem Inv.spawned (h : m.Inv) (site : Option Site) : (m.spawnSlot site .spawned).2.Inv := by
  have hcarries := h.carries_spawned site
  have hcount {p} : (m.spawnSlot site .spawned).2.count p = m.count p := by
    rw [count, count, get?_spawned]
    split_ifs with hp
    · rw [hp, h.fresh m.next (le_refl _)]
      rfl
    · rfl
  have hretired (p) (hp : m.Retired p) : (m.spawnSlot site .spawned).2.Retired p :=
    hp.imp hcarries hcount fun _ hmem => hmem
  refine ⟨fun p hp => ?_, h.minted, fun id a lifetime hid => hcarries.locked _ _ (h.hosts id a lifetime hid),
    fun p => hcount.trans (h.counted p),
    fun site' p hp => hcarries.locked p site' (h.pooled site' p hp),
    fun p hp => (h.unlocked_spawned site (h.spare p hp)).2,
    fun p hp => ⟨(h.unlocked_spawned site (h.filling p hp).1).2, (h.filling p hp).2⟩, fun p hp => ?_,
    h.loop.imp hcarries fun p _ hp => hretired p hp,
    fun p hp => hretired p (h.retired p (hcarries.stopped p ▸ hp))⟩
  · have hp' : m.next + 1 ≤ p := hp
    have hne : p ≠ m.next := by omega
    rw [get?_spawned, if_neg hne]
    exact h.fresh p (by omega)
  · obtain ⟨site', hsite⟩ := h.noticed p hp
    exact ⟨site', hcarries.locked p site' hsite⟩

theorem carries_skip (m : ProcessManager) : m.Carries { m with next := m.next + 1 } := .of_handles rfl

theorem Inv.skip (h : m.Inv) : { m with next := m.next + 1 }.Inv where
  fresh p hp := h.fresh p (Nat.le_of_succ_le hp)
  minted := h.minted
  hosts := h.hosts
  counted := h.counted
  pooled := h.pooled
  spare := h.spare
  filling := h.filling
  noticed := h.noticed
  loop := h.loop.imp (carries_skip m) fun _ _ hp => ⟨hp.bound, hp.hosts, hp.unpooled⟩
  retired p hp := ⟨(h.retired p hp).bound, (h.retired p hp).hosts, (h.retired p hp).unpooled⟩

theorem Inv.available_spawned (h : m.Inv) (site : Site) :
    (m.spawnSlot (some site) .spawned).2.Available m.next site where
  bound := by rw [siteOf, get?_spawned, if_pos rfl]; rfl
  running := by rw [isStopped, get?_spawned, if_pos rfl]; rfl
  kept hloop := by
    have hstopping := h.loop
    rw [show m.loop = .stopping m.next from hloop] at hstopping
    obtain ⟨site', hsite⟩ := hstopping.bound
    rw [siteOf, h.fresh m.next (le_refl _)] at hsite
    cases hsite

/-- Every way an acquire ends: with an error, or with a reservation in an available process. -/
theorem Inv.acquire_cases (h : m.Inv) (tab : TabId) (site : Site) (spawn : SpawnResult) :
    ∃ m₁, m₁.Inv ∧ m.Carries m₁ ∧
      (m.acquireReserved tab site spawn = (none, m₁) ∨
        ∃ process, m₁.Available process site ∧
          m.acquireReserved tab site spawn =
            (some (m₁.reserveIn process tab site).1, (m₁.reserveIn process tab site).2)) := by
  unfold acquireReserved
  cases hspare : m.state.spare with
  | some spare =>
    have hunlocked : m.takeSpare.Unlocked spare := h.spare spare hspare
    have hfilling : m.takeSpare.filling ≠ .spawned (some spare) := by
      intro hfilling
      exact (h.filling spare hfilling).2 hspare
    have hbind : m.takeSpare.bind spare site = some (m.takeSpare.lock spare site) := by
      rw [ProcessManager.bind, hunlocked.siteOf]
    obtain ⟨hinv, havailable⟩ := h.takeSpare.lock site hunlocked (by rintro ⟨⟩) hfilling
    refine ⟨m.takeSpare.lock spare site, hinv, ?_, .inr ⟨spare, havailable, ?_⟩⟩
    · exact (carries_takeSpare m).trans (carries_lock hunlocked)
    · simp only [hbind]
  | none =>
    cases spawn with
    | failed => exact ⟨_, h.skip, Carries.of_handles rfl, .inl rfl⟩
    | spawned =>
      exact ⟨_, h.spawned (some site), h.carries_spawned (some site),
        .inr ⟨m.next, h.available_spawned site, rfl⟩⟩
    | exhausted =>
      have hfilter : (m.setPool site ((m.pool site).filter m.isAlive)).Inv :=
        h.setPool fun p hp => h.available (List.mem_filter.mp hp).1
      refine ⟨m.setPool site ((m.pool site).filter m.isAlive), hfilter, Carries.of_handles rfl, ?_⟩
      simp only [spawnSlot]
      cases hfind : ((m.setPool site ((m.pool site).filter m.isAlive)).pool site).find?
          (m.setPool site ((m.pool site).filter m.isAlive)).upgrades with
      | none => exact .inl rfl
      | some process =>
        exact .inr ⟨process, hfilter.available (List.mem_of_find?_eq_some hfind), rfl⟩

/-! ### Releases -/

/-- A step that adds no assignment and leaves the pools, the spare and the loop alone. -/
theorem Inv.of_views {m' : ProcessManager} (h : m.Inv) (hcarries : m.Carries m')
    (hunlocked : ∀ process, m.Unlocked process → m'.Unlocked process)
    (hfresh : ∀ process, m.handles.get? process = none → m'.handles.get? process = none)
    (hnext : m'.next = m.next) (hstate : m'.state = m.state) (hphase : m'.loop = m.loop)
    (hfilling : m'.filling = m.filling)
    (hnoticed : ∀ process ∈ m'.releases, process ∈ m.releases ∨ ∃ site, m.siteOf process = some site)
    (hminted : m'.assignments.registry.next = m.assignments.registry.next)
    (hheap : ∀ id assignment lifetime, m'.assignments.heap.get? id = some (assignment, lifetime) →
      ∃ lifetime, m.assignments.heap.get? id = some (assignment, lifetime))
    (hcount : ∀ process, m'.count process ≤ m.count process)
    (hcounted : ∀ process, m'.count process = m'.hosted process) : m'.Inv := by
  have hpool {site} : m'.pool site = m.pool site := by rw [pool, hstate]; rfl
  have hretired {process} (hp : m.Retired process) : m'.Retired process := by
    refine hp.imp hcarries ?_ fun site hmem => hpool ▸ hmem
    have hle := hcount process
    rw [hp.hosts] at hle ⊢
    omega
  refine ⟨fun p hp => hfresh p (h.fresh p (hnext ▸ hp)), fun id hid => ?_, fun id a lifetime hget => ?_,
    hcounted, fun site p hp => hcarries.locked p site (h.pooled site p (hpool ▸ hp)),
    fun p hp => hunlocked p (h.spare p (hstate ▸ hp)), fun p hp => ?_, fun p hp => ?_, ?_,
    fun p hp => hretired (h.retired p (hcarries.stopped p ▸ hp))⟩
  · cases hget : m'.assignments.heap.get? id with
    | none => rfl
    | some entry =>
      obtain ⟨lifetime, hold⟩ := hheap id entry.1 entry.2 hget
      rw [h.minted id (hminted ▸ hid)] at hold
      cases hold
  · obtain ⟨lifetime', hold⟩ := hheap id a lifetime hget
    exact hcarries.locked _ _ (h.hosts id a lifetime' hold)
  · obtain ⟨hunl, hne⟩ := h.filling p (hfilling ▸ hp)
    exact ⟨hunlocked p hunl, by rw [hstate]; exact hne⟩
  · have hbound : ∃ site, m.siteOf p = some site := by
      rcases hnoticed p hp with hold | hbound
      · exact h.noticed p hold
      · exact hbound
    obtain ⟨site, hsite⟩ := hbound
    exact ⟨site, hcarries.locked p site hsite⟩
  · rw [hphase]
    exact h.loop.imp hcarries fun p _ hp => hretired hp

/-- Only the lifetimes of assignments change, and none is counted down. -/
theorem Inv.setAssignments (h : m.Inv) {assignments : Assignments}
    (hminted : assignments.registry.next = m.assignments.registry.next)
    (hheap : ∀ id assignment lifetime, assignments.heap.get? id = some (assignment, lifetime) →
      ∃ lifetime, m.assignments.heap.get? id = some (assignment, lifetime))
    (hhosted : ∀ process, assignments.heap.count (countsFor process) = m.hosted process) :
    { m with assignments := assignments }.Inv :=
  h.of_views (.of_handles rfl) (fun _ hp => hp) (fun _ hp => hp) rfl rfl rfl rfl
    (fun _ hp => .inl hp) hminted hheap (fun _ => le_refl _)
    fun p => (h.counted p).trans (hhosted p).symm

theorem get?_setLifetime {s : Assignments} {id j : RendererAssignmentId} {assignment : Assignment}
    {lifetime next : Lifetime} (h : (s.setLifetime id next).heap.get? j = some (assignment, lifetime)) :
    ∃ lifetime, s.heap.get? j = some (assignment, lifetime) := by
  rw [Assignments.setLifetime, Dict.get?_modify] at h
  split_ifs at h
  · obtain ⟨⟨a, old⟩, hold, heq⟩ := Option.map_eq_some_iff.mp h
    cases heq
    exact ⟨old, hold⟩
  · exact ⟨lifetime, h⟩

theorem hosted_setLifetime {s : Assignments} {id : RendererAssignmentId} {assignment : Assignment}
    {lifetime : Lifetime} (next : Lifetime) (hget : s.heap.get? id = some (assignment, lifetime))
    (process : RendererId) :
    (s.setLifetime id next).heap.count (countsFor process) +
        (if assignment.process = process ∧ lifetime.counts = true then 1 else 0) =
      s.heap.count (countsFor process) +
        if assignment.process = process ∧ next.counts = true then 1 else 0 := by
  have hcount := Dict.count_modify (q := countsFor process) (f := fun (entry : Assignment × Lifetime) =>
    (entry.1, next)) hget
  simp only [countsFor, Bool.and_eq_true, decide_eq_true_eq] at hcount
  exact hcount

theorem Inv.lastHandle (h : m.Inv) {id : RendererAssignmentId} {assignments : Assignments}
    (hstep : assignmentStep m.assignments (.lastHandle id) = some assignments) :
    { m with assignments := assignments }.Inv := by
  simp only [assignmentStep] at hstep
  split_ifs at hstep with halive
  cases hstep
  obtain ⟨assignment, hup⟩ := Option.isSome_iff_exists.mp halive.1
  obtain ⟨a, hget⟩ : ∃ a, m.assignments.heap.get? id = some (a, .alive) := by
    unfold Assignments.upgrade at hup
    split at hup
    · rename_i a hget
      exact ⟨a, hget⟩
    · cases hup
  exact h.setAssignments rfl (fun _ _ _ => get?_setLifetime)
    fun p => Nat.add_right_cancel (hosted_setLifetime (.dropping .noteReleased) hget p)

theorem count_countDown {process p : RendererId} :
    (m.dropEffect process .countDown).count p = m.count p - if p = process then 1 else 0 := by
  rw [dropEffect, count, count, modifyHandle, Dict.get?_modify]
  split_ifs with hp
  · cases m.handles.get? p <;> rfl
  · rfl

theorem carries_countDown (process : RendererId) : m.Carries (m.dropEffect process .countDown) := by
  show m.Carries (m.modifyHandle process fun handle =>
    { handle with assignments := handle.assignments - 1 })
  exact carries_modifyHandle (fun _ => rfl) fun _ => rfl

theorem Inv.drop (h : m.Inv) {id : RendererAssignmentId} {assignment : Assignment} {next : DropStep}
    (hget : m.assignments.heap.get? id = some (assignment, .dropping next)) :
    ({ m with assignments := (m.assignments.dropStatement id next).setLifetime id next.after }.dropEffect
      assignment.process next).Inv := by
  have hbound : m.siteOf assignment.process = some assignment.site := h.hosts id assignment _ hget
  have hminted : ((m.assignments.dropStatement id next).setLifetime id next.after).registry.next =
      m.assignments.registry.next := by
    cases next <;> rfl
  have hheap : ∀ j a lifetime,
      ((m.assignments.dropStatement id next).setLifetime id next.after).heap.get? j = some (a, lifetime) →
        ∃ lifetime, m.assignments.heap.get? j = some (a, lifetime) := by
    intro j a lifetime hj
    obtain ⟨old, hold⟩ := get?_setLifetime hj
    exact ⟨old, by rw [Assignments.dropStatement_heap] at hold; exact hold⟩
  have hhosted (p) := hosted_setLifetime (s := m.assignments.dropStatement id next) next.after
    (by rw [Assignments.dropStatement_heap]; exact hget) p
  rw [Assignments.dropStatement_heap] at hhosted
  have hsame (hcounts : next.after.counts = (Lifetime.dropping next).counts) (p) :
      ((m.assignments.dropStatement id next).setLifetime id next.after).heap.count (countsFor p) =
        m.hosted p := by
    have hp := hhosted p
    rw [hcounts] at hp
    exact Nat.add_right_cancel hp
  cases next with
  | noteReleased | releaseStreams | removeLive | notifyRelease =>
    exact h.setAssignments hminted hheap (hsame rfl)
  | countDown =>
    have hcarries := carries_countDown assignment.process (m := m)
    refine h.of_views ⟨hcarries.locked, hcarries.stopped⟩
      (fun p hp => unlocked_modifyHandle (fun _ => rfl) hp) (fun p hp => handles_modifyHandle hp)
      rfl rfl rfl rfl (fun _ hp => .inl hp) hminted hheap (fun p => ?_) fun p => ?_
    · exact (count_countDown (m := m)).trans_le (Nat.sub_le ..)
    · -- one assignment less on both sides
      have hp := hhosted p
      have hcounted : m.count p = m.assignments.heap.count (countsFor p) := h.counted p
      refine (count_countDown (m := m)).trans ?_
      show m.count p - _ = ((m.assignments.dropStatement id .countDown).setLifetime id
        DropStep.countDown.after).heap.count (countsFor p)
      by_cases heq : assignment.process = p
      · rw [if_pos ⟨heq, rfl⟩, if_neg fun hafter => by cases hafter.2] at hp
        rw [if_pos heq.symm]
        omega
      · rw [if_neg fun hafter => heq hafter.1, if_neg fun hafter => heq hafter.1] at hp
        rw [if_neg fun hafter => heq hafter.symm]
        omega
  | sendNotice =>
    have hassign := h.setAssignments hminted hheap (hsame rfl)
    refine hassign.of_views (.of_handles rfl) (fun _ hp => hp) (fun _ hp => hp) rfl rfl rfl rfl
      (fun p hp => ?_) rfl (fun _ _ _ hj => ⟨_, hj⟩) (fun _ => le_refl _) hassign.counted
    rcases List.mem_append.mp hp with hp | hp
    · exact .inl hp
    · rw [List.mem_singleton.mp hp]
      exact .inr ⟨_, hbound⟩

theorem Inv.resolve (h : m.Inv) (id : RendererAssignmentId) :
    { m with assignments := (m.assignments.resolve id).2 }.Inv := by
  have hheap : (m.assignments.resolve id).2.heap = m.assignments.heap := Assignments.resolve_heap id
  refine h.setAssignments ?_ (fun j a lifetime hj => ⟨lifetime, hheap ▸ hj⟩) fun p => by rw [hheap]; rfl
  unfold Assignments.resolve
  split_ifs
  · cases m.assignments.upgrade id <;> rfl
  · rfl

theorem Inv.receive (h : m.Inv) {process : RendererId} {releases : List RendererId}
    (hreleases : m.releases = process :: releases) :
    { m with releases := releases, loop := .evaluating process (m.siteOf process) }.Inv := by
  have hold : ∀ p ∈ releases, p ∈ m.releases := by
    rw [hreleases]
    exact fun p hp => List.mem_cons_of_mem _ hp
  obtain ⟨site, hsite⟩ := h.noticed process (by rw [hreleases]; exact List.mem_cons_self)
  exact ⟨h.fresh, h.minted, h.hosts, h.counted, h.pooled, h.spare, h.filling,
    fun p hp => h.noticed p (hold p hp), ⟨by rw [hsite]; rfl, rfl⟩,
    fun p hp => ⟨(h.retired p hp).bound, (h.retired p hp).hosts, (h.retired p hp).unpooled⟩⟩

theorem Inv.wait (h : m.Inv) : { m with loop := .waiting }.Inv :=
  ⟨h.fresh, h.minted, h.hosts, h.counted, h.pooled, h.spare, h.filling, h.noticed, trivial,
    fun p hp => ⟨(h.retired p hp).bound, (h.retired p hp).hosts, (h.retired p hp).unpooled⟩⟩

/-- Leaving the pool of `site` takes the process from there and nothing else in. -/
theorem mem_leavePool {process p : RendererId} {site : Option Site} {site' : Site}
    (h : p ∈ ((m.leavePool process site).get? site').getD []) :
    p ∈ m.pool site' ∧ (site = some site' → p ≠ process) := by
  unfold leavePool at h
  cases site with
  | none => exact ⟨h, fun hsite => by cases hsite⟩
  | some site =>
    cases hget : m.state.sites.get? site with
    | none =>
      simp only [hget] at h
      refine ⟨h, fun hsite => ?_⟩
      cases hsite
      rw [hget] at h
      cases h
    | some processes =>
      simp only [hget] at h
      by_cases hsame : site' = site
      · subst hsame
        have hmem : p ∈ processes.filter fun candidate => m.upgrades candidate && candidate ≠ process := by
          split_ifs at h
          · rw [Dict.get?_erase, if_pos rfl] at h
            cases h
          · rw [Dict.get?_insert, if_pos rfl] at h
            exact h
        obtain ⟨hp, hcond⟩ := List.mem_filter.mp hmem
        rw [Bool.and_eq_true, decide_eq_true_eq] at hcond
        exact ⟨by rw [pool, hget]; exact hp, fun _ => hcond.2⟩
      · refine ⟨?_, fun hsite => absurd (Option.some.inj hsite).symm hsame⟩
        split_ifs at h
        · rw [Dict.get?_erase, if_neg hsame] at h
          exact h
        · rw [Dict.get?_insert, if_neg hsame] at h
          exact h

theorem Inv.evaluate (h : m.Inv) {process : RendererId} {site : Option Site}
    (hloop : m.loop = .evaluating process site) : (m.evaluate process site).Inv := by
  unfold ProcessManager.evaluate
  split_ifs with hcount
  · have hlock := h.loop
    rw [hloop] at hlock
    obtain ⟨hsome, hlock⟩ := hlock
    obtain ⟨lock, rfl⟩ := Option.isSome_iff_exists.mp hsome
    refine ⟨h.fresh, h.minted, h.hosts, h.counted,
      fun site' p hp => h.pooled site' p (mem_leavePool hp).1, h.spare, h.filling, h.noticed,
      ⟨⟨lock, hlock⟩, hcount, fun site' hp => ?_⟩, fun p hp => ⟨(h.retired p hp).bound,
        (h.retired p hp).hosts, fun site' hmem => (h.retired p hp).unpooled site' (mem_leavePool hmem).1⟩⟩
    -- it was in the pool of its own site only
    obtain ⟨hmem, hne⟩ := mem_leavePool hp
    have hsite := h.pooled site' process hmem
    rw [hlock] at hsite
    exact hne hsite rfl
  · exact h.wait

theorem Inv.shutdown (h : m.Inv) {process : RendererId} (hloop : m.loop = .stopping process) :
    { m.modifyHandle process (fun handle => { handle with stopped := true }) with
      loop := .waiting }.Inv := by
  let f : RendererHandle → RendererHandle := fun handle => { handle with stopped := true }
  have hsite {p} : (m.modifyHandle process f).siteOf p = m.siteOf p := siteOf_modifyHandle fun _ => rfl
  have hcount {p} : (m.modifyHandle process f).count p = m.count p := count_modifyHandle fun _ => rfl
  have hunlocked {p} (hp : m.Unlocked p) : (m.modifyHandle process f).Unlocked p :=
    unlocked_modifyHandle (fun _ => rfl) hp
  have hstopping := h.loop
  rw [hloop] at hstopping
  refine ⟨fun p hp => handles_modifyHandle (h.fresh p hp), h.minted,
    fun id a lifetime hget => hsite.trans (h.hosts id a lifetime hget), fun p => hcount.trans (h.counted p),
    fun site p hp => hsite.trans (h.pooled site p hp), fun p hp => hunlocked (h.spare p hp),
    fun p hp => ⟨hunlocked (h.filling p hp).1, (h.filling p hp).2⟩, fun p hp => ?_, trivial, fun p hp => ?_⟩
  · obtain ⟨site, hp⟩ := h.noticed p hp
    exact ⟨site, hsite.trans hp⟩
  · have hretired : m.Retired p := by
      by_cases hp' : p = process
      · rw [hp']
        exact hstopping
      · refine h.retired p ?_
        have hget : (m.modifyHandle process f).handles.get? p = m.handles.get? p := by
          rw [modifyHandle, Dict.get?_modify, if_neg hp']
        rw [isStopped] at hp ⊢
        rw [← hget]
        exact hp
    obtain ⟨site, hbound⟩ := hretired.bound
    exact ⟨⟨site, hsite.trans hbound⟩, hcount.trans hretired.hosts, hretired.unpooled⟩

/-! ### The spare -/

/-- The spare and what is about to become it change; the new ones are unlocked and distinct. -/
theorem Inv.setSpare (h : m.Inv) {spare : Option RendererId} (spawning : Bool) {filling : FillPhase}
    (hspare : ∀ process, spare = some process → m.Unlocked process)
    (hfilling : ∀ process, filling = .spawned (some process) →
      m.Unlocked process ∧ spare ≠ some process) :
    { m with state := { m.state with spare := spare, spawningSpare := spawning }
             filling := filling }.Inv := by
  have hcarries : m.Carries { m with
      state := { m.state with spare := spare, spawningSpare := spawning }
      filling := filling } := .of_handles rfl
  exact ⟨h.fresh, h.minted, h.hosts, h.counted, h.pooled, hspare, hfilling, h.noticed,
    h.loop.imp hcarries fun _ _ hp => ⟨hp.bound, hp.hosts, hp.unpooled⟩,
    fun p hp => ⟨(h.retired p hp).bound, (h.retired p hp).hosts, (h.retired p hp).unpooled⟩⟩

theorem Inv.spawnSpare (h : m.Inv) (spawn : SpawnResult) :
    { (m.spawnSlot none spawn).2 with
      filling := .spawned ((m.spawnSlot none spawn).1.bind id) }.Inv := by
  cases spawn with
  | exhausted =>
    exact h.setSpare m.state.spawningSpare h.spare fun p hp => by cases hp
  | failed =>
    exact h.skip.setSpare m.state.spawningSpare h.spare fun p hp => by cases hp
  | spawned =>
    have hunlocked := fun p hp => h.unlocked_spawned none (h.spare p hp)
    refine (h.spawned none).setSpare m.state.spawningSpare
      (fun p hp => (hunlocked p hp).2) fun p hp => ?_
    cases hp
    refine ⟨⟨_, get?_spawned.trans (if_pos rfl), rfl⟩, fun hspare => ?_⟩
    exact (hunlocked m.next hspare).1 rfl

/-- Marks on a handle that concern neither its lock nor its count. -/
theorem Inv.mark (h : m.Inv) (process : RendererId) {f : RendererHandle → RendererHandle}
    (hsite : ∀ handle, (f handle).site = handle.site)
    (hcount : ∀ handle, (f handle).assignments = handle.assignments)
    (hstopped : ∀ handle, (f handle).stopped = handle.stopped) : (m.modifyHandle process f).Inv :=
  h.of_views (carries_modifyHandle hsite hstopped) (fun _ hp => unlocked_modifyHandle hsite hp)
    (fun _ hp => handles_modifyHandle hp) rfl rfl rfl rfl (fun _ hp => .inl hp) rfl
    (fun _ _ lifetime hj => ⟨lifetime, hj⟩) (fun _ => (count_modifyHandle hcount).le)
    fun p => (count_modifyHandle hcount).trans (h.counted p)

/-! ### Every step -/

theorem Inv.step (h : m.Inv) {i : ManagerStep} {m' : ProcessManager}
    (hstep : managerStep m i = some m') : m'.Inv := by
  cases i with
  | acquire tab site spawn =>
    cases hstep
    obtain ⟨m₁, hinv, -, hnone | ⟨process, havailable, hsome⟩⟩ := h.acquire_cases tab site spawn
    · rw [hnone]
      exact hinv
    · rw [hsome]
      exact hinv.reserveIn havailable
  | lastHandle id =>
    obtain ⟨assignments, hassign, rfl⟩ := Option.map_eq_some_iff.mp hstep
    exact h.lastHandle hassign
  | drop id =>
    simp only [managerStep] at hstep
    split at hstep
    · rename_i assignment next hget
      simp only [assignmentStep, hget, Option.map_some, Option.some.injEq] at hstep
      subst hstep
      exact h.drop hget
    · cases hstep
  | resolve id =>
    cases hstep
    exact h.resolve id
  | receive =>
    simp only [managerStep] at hstep
    split at hstep
    · rename_i process releases hloop hreleases
      cases hstep
      exact h.receive hreleases
    · cases hstep
  | evaluate =>
    simp only [managerStep] at hstep
    split at hstep
    · rename_i process site hloop
      cases hstep
      exact h.evaluate hloop
    · cases hstep
  | shutdown =>
    simp only [managerStep] at hstep
    split at hstep
    · rename_i process hloop
      cases hstep
      exact h.shutdown hloop
    · cases hstep
  | fill =>
    simp only [managerStep] at hstep
    split_ifs at hstep
    · cases hstep
      exact h
    · cases hstep
      exact h.setSpare true h.spare fun p hp => by cases hp
  | spawnSpare spawn =>
    simp only [managerStep] at hstep
    split at hstep
    · cases hstep
      exact h.spawnSpare spawn
    · cases hstep
  | setSpare =>
    simp only [managerStep] at hstep
    split at hstep
    · rename_i result hfilling
      cases hstep
      refine h.setSpare false (fun p hp => ?_) fun p hp => by cases hp
      cases result with
      | none => exact h.spare p hp
      | some spare =>
        cases hp
        exact (h.filling p hfilling).1
    · cases hstep
  | fail process =>
    cases hstep
    exact h.mark process (fun _ => rfl) (fun _ => rfl) fun _ => rfl
  | free process =>
    simp only [managerStep] at hstep
    split_ifs at hstep
    cases hstep
    exact h.mark process (fun _ => rfl) (fun _ => rfl) fun _ => rfl

theorem Inv.proper (h : m.Inv) {i : ManagerStep} {m' : ProcessManager}
    (hstep : managerStep m i = some m') : m.Proper m' := by
  cases i with
  | acquire tab site spawn =>
    cases hstep
    obtain ⟨m₁, -, hcarries, hnone | ⟨process, -, hsome⟩⟩ := h.acquire_cases tab site spawn
    · rw [hnone]
      exact hcarries.proper
    · rw [hsome]
      exact (hcarries.trans (carries_reserveIn process tab site)).proper
  | lastHandle id =>
    obtain ⟨assignments, -, rfl⟩ := Option.map_eq_some_iff.mp hstep
    exact Carries.proper (.of_handles rfl)
  | drop id =>
    simp only [managerStep] at hstep
    split at hstep
    · rename_i assignment next hget
      obtain ⟨assignments, -, rfl⟩ := Option.map_eq_some_iff.mp hstep
      cases next with
      | countDown =>
        have hcarries := carries_countDown assignment.process (m := m)
        exact Carries.proper ⟨hcarries.locked, hcarries.stopped⟩
      | noteReleased | releaseStreams | removeLive | notifyRelease | sendNotice =>
        exact Carries.proper (.of_handles rfl)
    · cases hstep
  | resolve id =>
    cases hstep
    exact Carries.proper (.of_handles rfl)
  | receive =>
    simp only [managerStep] at hstep
    split at hstep
    · cases hstep
      exact Carries.proper (.of_handles rfl)
    · cases hstep
  | evaluate =>
    simp only [managerStep] at hstep
    split at hstep
    · cases hstep
      refine Carries.proper (.of_handles ?_)
      unfold ProcessManager.evaluate
      split_ifs <;> rfl
    · cases hstep
  | shutdown =>
    simp only [managerStep] at hstep
    split at hstep
    · rename_i process hloop
      cases hstep
      have hstopping := h.loop
      rw [hloop] at hstopping
      let f : RendererHandle → RendererHandle := fun handle => { handle with stopped := true }
      have hget {p} : (m.modifyHandle process f).handles.get? p =
          if p = process then (m.handles.get? p).map f else m.handles.get? p := Dict.get?_modify ..
      have hsite {p} : (m.modifyHandle process f).siteOf p = m.siteOf p :=
        siteOf_modifyHandle fun _ => rfl
      refine ⟨fun p site hp => hsite.trans hp, fun p hp => ?_, fun p hp hp' => ?_⟩
      · show (m.modifyHandle process f).isStopped p = true
        rw [isStopped, hget]
        split_ifs
        · cases hhandle : m.handles.get? p with
          | none => rw [isStopped, hhandle] at hp; cases hp
          | some handle => rfl
        · exact hp
      · -- only the process of the notice is shut down
        have hsame : p = process := by
          by_contra hne
          have hp'' : (m.modifyHandle process f).isStopped p = true := hp'
          rw [isStopped, hget, if_neg hne] at hp''
          rw [isStopped, hp''] at hp
          cases hp
        rw [hsame]
        exact h.idle hstopping
    · cases hstep
  | fill =>
    simp only [managerStep] at hstep
    split_ifs at hstep <;> cases hstep <;> exact Carries.proper (.of_handles rfl)
  | spawnSpare spawn =>
    simp only [managerStep] at hstep
    split at hstep
    · cases hstep
      cases spawn with
      | exhausted | failed => exact Carries.proper (.of_handles rfl)
      | spawned =>
        have hcarries := h.carries_spawned none
        exact Carries.proper ⟨hcarries.locked, hcarries.stopped⟩
    · cases hstep
  | setSpare =>
    simp only [managerStep] at hstep
    split at hstep
    · cases hstep
      exact Carries.proper (.of_handles rfl)
    · cases hstep
  | fail process =>
    cases hstep
    exact Carries.proper (carries_modifyHandle (fun _ => rfl) fun _ => rfl)
  | free process =>
    simp only [managerStep] at hstep
    split_ifs at hstep
    cases hstep
    exact Carries.proper (carries_modifyHandle (fun _ => rfl) fun _ => rfl)

theorem Inv.safe (h : m.Inv) : m.Safe where
  hosts := h.hosts
  counted := h.counted
  retired process hstopped := h.idle (h.retired process hstopped)
  acquired tab site spawn assignment hacquire := by
    obtain ⟨m₁, -, hcarries, hnone | ⟨process, havailable, hsome⟩⟩ := h.acquire_cases tab site spawn
    · rw [hnone] at hacquire
      cases hacquire
    · rw [hsome] at hacquire
      cases hacquire
      rw [← hcarries.stopped]
      exact havailable.running
  apart process site hspare hmem := by
    have hsite := h.pooled site process hmem
    rw [(h.spare process hspare).siteOf] at hsite
    cases hsite

/-- In every state of a run processes host only assignments of the site they are locked to, idle ones
are gone from the pools before they are shut down, and none that was shut down is acquired again. -/
theorem safe_of_run (steps : List ManagerStep) :
    Machine.Throughout managerStep Safe new steps ∧
      Machine.Along managerStep (fun m i => ∀ m', managerStep m i = some m' → m.Proper m') new steps := by
  have hstep : ∀ (m : ProcessManager) i m', m.Inv → True → managerStep m i = some m' → m'.Inv :=
    fun _ _ _ h _ hstep => h.step hstep
  have hall : Machine.Along managerStep (fun _ _ => True) new steps :=
    Machine.along_of_forall fun _ _ => trivial
  exact ⟨Machine.throughout_of_along (fun _ => Inv.safe) hstep inv_new hall,
    hall.imp_of_inv (fun _ _ h _ _ => h.proper) hstep inv_new⟩

/-- A process that is acquired again before its notice is looked at is not shut down. -/
example : ((Machine.run managerStep new
    ([.acquire 1 (.opaqueTab 1) .spawned, .lastHandle 1] ++ List.replicate 6 (.drop 1) ++
      [.receive, .acquire 1 (.opaqueTab 1) .exhausted, .evaluate])).map fun m =>
        (m.count 1, m.pool (.opaqueTab 1), m.loop)) = some (1, [1], .waiting) := by
  decide +kernel

end ProcessManager
end TinyBrowser
