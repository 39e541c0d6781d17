import TinyBrowser.Renderer.Assignment

/-!
# Who counts as released

`was_released` compares with the highest id released, so it speaks for every lower id too. It is
right, and with it the refusal of calls for documents of other processes, as long as assignments
are released in the order of their ids (`InOrder`); one release out of order and the older live
assignment counts as released (`exact_iff_inOrder`, `exists_live_released`).
-/

namespace TinyBrowser
open Lib

namespace Assignments

/-- The last handle of the assignment is gone. -/
def Gone (s : Assignments) (id : Nat) : Prop :=
  ∃ assignment next, s.heap.get? id = some (assignment, next) ∧ next ≠ .alive

/-- The drop of the assignment is past its first statement. -/
def PastNote (s : Assignments) (id : Nat) : Prop :=
  ∃ assignment next, s.heap.get? id = some (assignment, next) ∧ next ≠ .alive ∧
    next ≠ .dropping .noteReleased

/-- The id is that of a live document of another process, or of none at all. -/
def Foreign (s : Assignments) (caller : RendererId) (id : Nat) : Prop :=
  s.heap.get? id = none ∨
    ∃ assignment, s.heap.get? id = some (assignment, .alive) ∧ assignment.process ≠ caller

/-- What `resolve` may have answered for the id. -/
def MayResolve (s : Assignments) (id : Nat) (found : Option Assignment) : Prop :=
  ∀ assignment ∈ found, ∃ lifetime, s.heap.get? id = some (assignment, lifetime)

/-- An id counts as released exactly when its assignment was dropped, up to a drop that has just
begun, and a call for a foreign id is refused, whenever it was resolved. -/
structure Exact (s : Assignments) : Prop where
  sound : ∀ id : Nat, s.wasReleased id = true → s.Gone id
  complete : ∀ id : Nat, s.PastNote id → s.wasReleased id = true
  refused : ∀ caller (id : Nat) found, s.Foreign caller id → s.MayResolve id found →
    admission caller found (s.wasReleased id) = .violation

structure Inv (s : Assignments) : Prop where
  started : 0 < s.registry.next
  tabled : ∀ id ∈ s.registry.live, ∃ entry, s.heap.get? id = some entry
  minted : ∀ id : Nat, (0 < id ∧ id < s.registry.next) ↔ ∃ entry, s.heap.get? id = some entry
  marked : ∀ id : Nat, s.wasReleased id = true → s.Gone id
  noted : ∀ id : Nat, s.PastNote id → s.wasReleased id = true

/-- A release that is noted comes after those of all older assignments. -/
def InOrder (s : Assignments) : AssignmentStep → Prop
  | .drop id => ∀ assignment, s.heap.get? id = some (assignment, .dropping .noteReleased) →
      ∀ older : Nat, 0 < older → older < id → s.Gone older
  | .resolve id => id ∈ s.registry.live → s.upgrade id = none →
      ∀ older : Nat, 0 < older → older < id → s.Gone older
  | _ => True

theorem wasReleased_iff {s : Assignments} {id : Nat} :
    s.wasReleased id = true ↔ 0 < id ∧ id ≤ s.registry.maxReleased := by
  simp [wasReleased, AssignmentRegistry.wasReleased, Nat.pos_iff_ne_zero]

theorem inv_new : Inv new where
  started := Nat.one_pos
  tabled id hid := absurd hid List.not_mem_nil
  minted id := by
    constructor
    · rintro ⟨h0, h1⟩
      have hnext : new.registry.next = 1 := rfl
      omega
    · rintro ⟨entry, h⟩; cases h
  marked id h := by
    obtain ⟨h0, hle⟩ := wasReleased_iff.mp h
    have hmax : new.registry.maxReleased = 0 := rfl
    omega
  noted id h := by
    obtain ⟨_, _, h, -⟩ := h
    cases h

theorem Inv.exact {s : Assignments} (h : s.Inv) : s.Exact where
  sound := h.marked
  complete := h.noted
  refused caller id found hforeign hfound := by
    have hreleased : s.wasReleased id = false := by
      rw [← Bool.not_eq_true]
      intro hreleased
      obtain ⟨a, lifetime, hget, hgone⟩ := h.marked id hreleased
      rcases hforeign with hnone | ⟨a', halive, -⟩
      · rw [hget] at hnone; cases hnone
      · rw [hget] at halive; cases halive; exact hgone rfl
    have hfilter : found.filter (·.hostedBy caller) = none := by
      cases found with
      | none => rfl
      | some a =>
        obtain ⟨lifetime, hget⟩ := hfound a rfl
        rcases hforeign with hnone | ⟨a', halive, hother⟩
        · rw [hget] at hnone; cases hnone
        · rw [hget] at halive
          cases halive
          simp [Assignment.hostedBy, hother]
    rw [admission, hfilter, hreleased]
    rfl

section steps
variable {s : Assignments}

variable {id : Nat}

theorem gone_setLifetime {next : Lifetime} (hnext : next ≠ .alive) {j : Nat}
    (h : s.Gone j) : (s.setLifetime id next).Gone j := by
  obtain ⟨a, lifetime, hget, hgone⟩ := h
  simp only [Gone, setLifetime, Dict.get?_modify]
  split_ifs with hj
  · exact ⟨a, next, by rw [hget]; rfl, hnext⟩
  · exact ⟨a, lifetime, hget, hgone⟩

theorem exists_get?_setLifetime {id j : Nat} {next : Lifetime} :
    (∃ entry, (s.setLifetime id next).heap.get? j = some entry) ↔
      ∃ entry, s.heap.get? j = some entry := by
  simp only [setLifetime, Dict.get?_modify]
  split_ifs with hj
  · simp only [Option.map_eq_some_iff]
    constructor
    · rintro ⟨_, entry, hget, -⟩
      exact ⟨entry, hget⟩
    · rintro ⟨entry, hget⟩
      exact ⟨_, entry, hget, rfl⟩
  · rfl

theorem Inv.mint (h : s.Inv) (process : RendererId) (tab : TabId) (site : Site) :
    (s.mint process tab site).Inv := by
  have hfresh : s.heap.get? s.registry.next = none := by
    rw [Option.eq_none_iff_forall_ne_some]
    intro entry hentry
    have := (h.minted s.registry.next).mpr ⟨entry, hentry⟩
    omega
  have hold : ∀ {j : Nat} {entry}, s.heap.get? j = some entry →
      (s.mint process tab site).heap.get? j = some entry := by
    intro j entry hget
    have hne : j ≠ s.registry.next := by
      rintro rfl
      rw [hfresh] at hget
      cases hget
    simp only [Assignments.mint, Dict.get?_insert, if_neg hne, hget]
  refine ⟨Nat.succ_pos _, ?_, ?_, ?_, ?_⟩
  · intro id hid
    obtain ⟨entry, hget⟩ := h.tabled id hid
    exact ⟨entry, hold hget⟩
  · intro id
    have hid := h.minted id
    have hstarted := h.started
    simp only [Assignments.mint, Dict.get?_insert]
    split_ifs with heq
    · have heq : id = s.registry.next := heq
      simp only [heq, hstarted, Nat.lt_succ_self, and_self, Option.some.injEq, exists_eq']
    · have hne : id ≠ s.registry.next := heq
      rw [← hid]
      omega
  · intro id hreleased
    obtain ⟨a, next, hget, hgone⟩ := h.marked id hreleased
    exact ⟨a, next, hold hget, hgone⟩
  · rintro id ⟨a, next, hget, hgone, hpast⟩
    apply h.noted id
    simp only [Assignments.mint, Dict.get?_insert] at hget
    split_ifs at hget with heq
    · cases hget
      exact absurd rfl hgone
    · exact ⟨a, next, hget, hgone, hpast⟩

theorem wasReleased_noteReleased {id j : Nat} :
    (s.registry.noteReleased id).wasReleased j = true ↔
      s.wasReleased j = true ∨ 0 < j ∧ j ≤ id := by
  rw [wasReleased_iff]
  simp only [AssignmentRegistry.wasReleased, AssignmentRegistry.noteReleased, Bool.and_eq_true,
    decide_eq_true_eq, le_max_iff]
  omega

theorem marked_noteReleased (h : s.Inv) (hid : s.Gone id)
    (holder : ∀ older : Nat, 0 < older → older < id → s.Gone older) {j : Nat}
    (hj : (s.registry.noteReleased id).wasReleased j = true) : s.Gone j := by
  rcases wasReleased_noteReleased.mp hj with hj | ⟨hpos, hle⟩
  · exact h.marked j hj
  · rcases Nat.lt_or_eq_of_le hle with hlt | rfl
    · exact holder j hpos hlt
    · exact hid

theorem gone_of_upgrade {entry : Assignment × Lifetime} (hget : s.heap.get? id = some entry)
    (hup : s.upgrade id = none) : s.Gone id := by
  obtain ⟨a, lifetime⟩ := entry
  refine ⟨a, lifetime, hget, ?_⟩
  rintro rfl
  rw [upgrade, hget] at hup
  cases hup

theorem Inv.register (h : s.Inv) (hup : (s.upgrade id).isSome = true) :
    (s.register id).Inv := by
  refine ⟨h.started, ?_, h.minted, h.marked, h.noted⟩
  intro j hj
  rcases List.mem_cons.mp hj with rfl | hj
  · show ∃ entry, s.heap.get? j = some entry
    cases hget : s.heap.get? j with
    | some entry => exact ⟨entry, rfl⟩
    | none => rw [upgrade, hget] at hup; cases hup
  · exact h.tabled j (List.mem_of_mem_erase hj)

theorem Inv.lastHandle (h : s.Inv) (id : Nat) :
    (s.setLifetime id (.dropping .noteReleased)).Inv := by
  refine ⟨h.started, fun j hj => exists_get?_setLifetime.mpr (h.tabled j hj), ?_, ?_, ?_⟩
  · intro j
    rw [exists_get?_setLifetime]
    exact h.minted j
  · intro j hj
    exact gone_setLifetime (by simp) (h.marked j hj)
  · rintro j ⟨a, next, hget, hgone, hpast⟩
    apply h.noted j
    simp only [setLifetime, Dict.get?_modify] at hget
    split_ifs at hget with hj
    · obtain ⟨entry, -, hentry⟩ := Option.map_eq_some_iff.mp hget
      cases hentry
      exact absurd rfl hpast
    · exact ⟨a, next, hget, hgone, hpast⟩

theorem wasReleased_dropStatement {id j : Nat} {next : DropStep} :
    (s.dropStatement id next).wasReleased j = true ↔
      s.wasReleased j = true ∨ next = .noteReleased ∧ 0 < j ∧ j ≤ id := by
  cases next with
  | noteReleased =>
    rw [eq_self_iff_true, true_and]
    exact wasReleased_noteReleased
  | releaseStreams | removeLive | notifyRelease | countDown | sendNotice =>
    constructor
    · exact .inl
    · rintro (h | ⟨h, -⟩)
      · exact h
      · cases h

theorem DropStep.after_ne (next : DropStep) :
    next.after ≠ .alive ∧ next.after ≠ .dropping .noteReleased := by
  cases next <;> exact ⟨by simp [DropStep.after], by simp [DropStep.after]⟩

theorem Inv.drop (h : s.Inv) {assignment : Assignment} {next : DropStep}
    (hget : s.heap.get? id = some (assignment, .dropping next))
    (hsafe : next = .noteReleased → ∀ older : Nat, 0 < older → older < id → s.Gone older) :
    ((s.dropStatement id next).setLifetime id next.after).Inv := by
  have hgone : s.Gone id := ⟨assignment, .dropping next, hget, by simp⟩
  have hpos : 0 < id := ((h.minted id).mpr ⟨_, hget⟩).1
  have hheap : ∀ {j : Nat}, (s.dropStatement id next).Gone j ↔ s.Gone j := by
    intro j
    simp only [Gone, dropStatement_heap]
  refine ⟨?_, ?_, ?_, ?_, ?_⟩
  · cases next <;> exact h.started
  · intro j hj
    rw [exists_get?_setLifetime, dropStatement_heap]
    apply h.tabled j
    cases next with
    | removeLive => exact List.mem_of_mem_erase hj
    | noteReleased | releaseStreams | notifyRelease | countDown | sendNotice => exact hj
  · intro j
    rw [exists_get?_setLifetime, dropStatement_heap, ← h.minted j]
    cases next <;> rfl
  · intro j hj
    apply gone_setLifetime (DropStep.after_ne next).1
    rw [hheap]
    rcases wasReleased_dropStatement.mp hj with hj | ⟨hnote, hj, hle⟩
    · exact h.marked j hj
    · rcases Nat.lt_or_eq_of_le hle with hlt | rfl
      · exact hsafe hnote j hj hlt
      · exact hgone
  · rintro j ⟨a, lifetime, hget', hne, hpast⟩
    apply wasReleased_dropStatement.mpr
    simp only [setLifetime, Dict.get?_modify, dropStatement_heap] at hget'
    split_ifs at hget' with hj
    · cases hj
      by_cases hnote : next = .noteReleased
      · exact .inr ⟨hnote, hpos, le_refl _⟩
      · exact .inl (h.noted id ⟨assignment, .dropping next, hget, by simp, by simpa using hnote⟩)
    · exact .inl (h.noted j ⟨a, lifetime, hget', hne, hpast⟩)

theorem Inv.resolve (h : s.Inv) (hsafe : s.InOrder (.resolve id)) :
    (s.resolve id).2.Inv := by
  unfold Assignments.resolve
  split_ifs with hmem
  · cases hup : s.upgrade id with
    | some assignment => exact h
    | none =>
      obtain ⟨entry, hget⟩ := h.tabled id hmem
      refine ⟨h.started, fun j hj => h.tabled j (List.mem_of_mem_erase hj), h.minted, ?_, ?_⟩
      · intro j hj
        exact marked_noteReleased h (gone_of_upgrade hget hup) (hsafe hmem hup) hj
      · intro j hj
        exact wasReleased_noteReleased.mpr (.inl (h.noted j hj))
  · exact h

theorem Inv.step (h : s.Inv) {i : AssignmentStep} (hsafe : s.InOrder i) {s' : Assignments}
    (hstep : assignmentStep s i = some s') : s'.Inv := by
  cases i with
  | mint process tab site =>
    cases hstep
    exact h.mint process tab site
  | register id =>
    simp only [assignmentStep] at hstep
    split_ifs at hstep with hup
    cases hstep
    exact h.register hup
  | lastHandle id =>
    simp only [assignmentStep] at hstep
    split_ifs at hstep
    cases hstep
    exact h.lastHandle id
  | drop id =>
    simp only [assignmentStep] at hstep
    split at hstep
    · rename_i assignment next hget
      cases hstep
      apply h.drop hget
      rintro rfl
      exact hsafe assignment hget
    · cases hstep
  | resolve id =>
    cases hstep
    exact h.resolve hsafe

/-- A step after which released ids are right noted a release in order. -/
theorem inOrder_of_exact {i : AssignmentStep}
    (hexact : ∀ s', assignmentStep s i = some s' → s'.Exact) : s.InOrder i := by
  cases i with
  | mint | register | lastHandle => trivial
  | drop id =>
    intro assignment hget older hpos hlt
    have hafter := hexact ((s.dropStatement id .noteReleased).setLifetime id DropStep.noteReleased.after)
      (by simp only [assignmentStep, hget])
    obtain ⟨a, lifetime, hget', hgone⟩ :=
      hafter.sound older (wasReleased_dropStatement.mpr (.inr ⟨rfl, hpos, hlt.le⟩))
    simp only [setLifetime, Dict.get?_modify, dropStatement_heap, if_neg (Nat.ne_of_lt hlt)] at hget'
    exact ⟨a, lifetime, hget', hgone⟩
  | resolve id =>
    intro hmem hup older hpos hlt
    have hafter := hexact _ rfl
    unfold Assignments.resolve at hafter
    rw [if_pos hmem, hup] at hafter
    exact hafter.sound older (wasReleased_noteReleased.mpr (.inr ⟨hpos, hlt.le⟩))

end steps

/-- In every state of a run the released ids are exactly the dropped ones and foreign calls are
refused, if and only if every release of the run is noted after those of all older assignments. -/
theorem exact_iff_inOrder (steps : List AssignmentStep) :
    Machine.Throughout assignmentStep Exact new steps ↔
      Machine.Along assignmentStep InOrder new steps :=
  Machine.throughout_iff_along (fun _ => Inv.exact)
    (fun _ _ _ h hsafe hstep => h.step hsafe hstep) (fun _ _ _ => inOrder_of_exact) inv_new

/-- Documents of two processes; the younger one is closed first. -/
def closeYounger : List AssignmentStep :=
  [.mint 1 1 (.opaqueTab 1), .register 1, .mint 2 2 (.opaqueTab 2), .register 2, .lastHandle 2,
    .drop 2]

/-- The first document is alive and counts as released, and process 2, which does not host it, has
its call for it answered as stale. -/
theorem exists_live_released : ∃ s, Machine.run assignmentStep new closeYounger = some s ∧
    s.upgrade 1 = some ⟨1, 1, 1, .opaqueTab 1⟩ ∧ s.wasReleased 1 = true ∧
    (liveAssignment s 2 1).1 = .stale ∧ ¬ s.Exact := by
  refine ⟨_, rfl, rfl, rfl, rfl, fun h => ?_⟩
  obtain ⟨a, next, hget, hgone⟩ := h.sound 1 rfl
  cases hget
  exact hgone rfl

end Assignments
end TinyBrowser
