import TinyBrowser.Tabs.Registry

/-!
# Sandbox inheritance

The browser reports the main frame's flags as the tab's popup set together with the CSP flags of its
document, but `registerFrame` lets a child of the main frame inherit the popup set only. A child of
any other frame inherits what the browser reports of its parent (`creationFlags_child`), and the
creation flags of a frame survive every later operation that does not drop the frame
(`Keeps.run`).
-/

namespace TinyBrowser
open Lib

/-- The operation drops the record of `frame`. -/
def SandboxOp.Drops (tab : TabId) (frame : FrameId) : SandboxOp → Prop
  | .removeFrame tab' frame' => tab' = tab ∧ frame' = frame
  | .clearFrames tab' => tab' = tab
  | _ => False

namespace TabRegistry

def runSandbox (r : TabRegistry) (ops : List SandboxOp) : TabRegistry := ops.foldl applySandbox r

variable {r : TabRegistry} {tab : TabId} {frame parent : FrameId} {reported c : SandboxFlags}

/-! ### The child records -/

/-- What an operation makes of the record at `k`: it keeps it, drops it, recomputes the active set
from the same creation set, or adds it for a child frame. -/
theorem frames_applySandbox (r : TabRegistry) (op : SandboxOp) (k : TabId × FrameId) :
    (r.applySandbox op).frames.get? k = r.frames.get? k ∨
      (op.Drops k.1 k.2 ∧ (r.applySandbox op).frames.get? k = none) ∨
      (∃ record csp, r.frames.get? k = some record ∧
        (r.applySandbox op).frames.get? k = some ⟨record.creation, record.creation.union csp⟩) ∨
      (k.2 ≠ FrameId.main ∧ r.frames.get? k = none) := by
  obtain ⟨tab, frame⟩ := k
  cases op with
  | setSandbox | resetMainSandbox => exact .inl rfl
  | registerFrame tab' frame' parent kind reported =>
    simp only [applySandbox, registerFrame]
    split_ifs with hmain hmem
    · exact .inl rfl
    · exact .inl rfl
    · rw [Dict.get?_insert]
      split_ifs with heq
      · obtain ⟨rfl, rfl⟩ := Prod.mk.inj heq
        refine .inr (.inr (.inr ⟨hmain, ?_⟩))
        simpa [Dict.contains] using hmem
      · exact .inl rfl
  | commitFrameSandbox tab' frame' csp =>
    simp only [applySandbox, commitFrameSandbox]
    split_ifs with hmain
    · exact .inl rfl
    · split
      · rename_i record hrec
        rw [Dict.get?_insert]
        split_ifs with heq
        · obtain ⟨rfl, rfl⟩ := Prod.mk.inj heq
          exact .inr (.inr (.inl ⟨record, csp, hrec, rfl⟩))
        · exact .inl rfl
      · exact .inl rfl
  | removeFrame tab' frame' =>
    simp only [applySandbox, removeFrame]
    split_ifs with hmain
    · exact .inl rfl
    · rw [Dict.get?_erase]
      split_ifs with heq
      · obtain ⟨rfl, rfl⟩ := Prod.mk.inj heq
        exact .inr (.inl ⟨⟨rfl, rfl⟩, rfl⟩)
      · exact .inl rfl
  | clearFrames tab' =>
    simp only [applySandbox, clearFrames, Dict.get?_retain]
    by_cases heq : tab = tab'
    · subst heq
      exact .inr (.inl ⟨rfl, by simp⟩)
    · exact .inl (by simp [heq])

/-- No record stands for a main frame. -/
def ChildRecords (r : TabRegistry) : Prop := ∀ tab, r.frames.get? (tab, FrameId.main) = none

theorem ChildRecords.applySandbox (hr : r.ChildRecords) (op : SandboxOp) :
    (r.applySandbox op).ChildRecords := by
  intro tab
  rcases frames_applySandbox r op (tab, FrameId.main) with h | ⟨-, h⟩ | ⟨record, -, h, -⟩ | ⟨h, -⟩
  · rw [h, hr tab]
  · exact h
  · rw [hr tab] at h
    simp at h
  · exact absurd rfl h

theorem ChildRecords.runSandbox (hr : r.ChildRecords) (ops : List SandboxOp) :
    (r.runSandbox ops).ChildRecords := by
  induction ops generalizing r with
  | nil => exact hr
  | cons op ops ih => exact ih (hr.applySandbox op)

/-- The frame has a record, with `c` among its creation flags and among its active ones. -/
def Keeps (r : TabRegistry) (tab : TabId) (frame : FrameId) (c : SandboxFlags) : Prop :=
  ∃ record, r.frames.get? (tab, frame) = some record ∧ c ⊆ record.creation ∧ c ⊆ record.active

theorem Keeps.applySandbox (hk : r.Keeps tab frame c) {op : SandboxOp} (hop : ¬ op.Drops tab frame) :
    (r.applySandbox op).Keeps tab frame c := by
  obtain ⟨record, hrec, hcreation, hactive⟩ := hk
  rcases frames_applySandbox r op (tab, frame) with h | ⟨h, -⟩ | ⟨record', csp, h, h'⟩ | ⟨-, h⟩
  · exact ⟨record, h.trans hrec, hcreation, hactive⟩
  · exact absurd h hop
  · obtain rfl := Option.some.inj (hrec.symm.trans h)
    exact ⟨_, h', hcreation, SandboxFlags.subset_trans hcreation (SandboxFlags.subset_union_left _ _)⟩
  · rw [hrec] at h
    simp at h

theorem Keeps.runSandbox (hk : r.Keeps tab frame c) {ops : List SandboxOp}
    (hops : ∀ op ∈ ops, ¬ op.Drops tab frame) : (r.runSandbox ops).Keeps tab frame c := by
  induction ops generalizing r with
  | nil => exact hk
  | cons op ops ih =>
    obtain ⟨hop, hops⟩ := List.forall_mem_cons.1 hops
    exact ih (hk.applySandbox hop) hops

theorem Keeps.frameSandbox (hk : r.Keeps tab frame c) (hf : frame ≠ FrameId.main) :
    ∃ flags, r.frameSandbox tab frame = some flags ∧ c ⊆ flags := by
  obtain ⟨record, hrec, -, hactive⟩ := hk
  exact ⟨record.active, by rw [TabRegistry.frameSandbox, if_neg hf, hrec, Option.map_some], hactive⟩

/-! ### Registration -/

theorem registerFrame_true {kind : FrameKind}
    (hok : (r.registerFrame tab frame parent kind reported).1 = true) :
    frame ≠ FrameId.main ∧ (r.registerFrame tab frame parent kind reported).2.frames.get?
      (tab, frame) = some ⟨r.creationFlags tab parent kind reported,
        r.creationFlags tab parent kind reported⟩ := by
  unfold registerFrame at *
  split_ifs at hok ⊢ with hmain hmem
  refine ⟨hmain, ?_⟩
  rw [Dict.get?_insert, if_pos rfl]

/-- The flags a child should take from its embedder: those the browser reports of it, and every flag
when it reports nothing. -/
def embedderFlags (r : TabRegistry) (tab : TabId) (parent : FrameId) : SandboxFlags :=
  (r.frameSandbox tab parent).getD .all

theorem creationFlags_child (hr : r.ChildRecords) : r.creationFlags tab parent .child reported =
    (if parent = FrameId.main then r.sandbox tab else r.embedderFlags tab parent).union reported := by
  unfold creationFlags embedderFlags frameSandbox
  by_cases hp : parent = FrameId.main
  · subst hp
    simp [hr tab]
  · simp only [if_neg hp]
    cases r.frames.get? (tab, parent) with
    | none => rfl
    | some record => rfl

/-- Now and after any operations that do not drop the frame, the browser reports `c` for it. -/
def AlwaysReports (r : TabRegistry) (tab : TabId) (frame : FrameId) (c : SandboxFlags) : Prop :=
  ∀ later : List SandboxOp, (∀ op ∈ later, ¬ op.Drops tab frame) →
    ∃ flags, (r.runSandbox later).frameSandbox tab frame = some flags ∧ c ⊆ flags

theorem Keeps.alwaysReports (hk : r.Keeps tab frame c) (hf : frame ≠ FrameId.main) :
    r.AlwaysReports tab frame c :=
  fun _ hlater => (hk.runSandbox hlater).frameSandbox hf

/-- The law of inheritance for `r'`, the registry after a child was registered in `r`: the frame has
every flag the browser reported for the parent, every reported flag, every flag there is when the
parent is an unknown child, and it never loses one that it was created with. -/
structure Inherits (r r' : TabRegistry) (tab : TabId) (frame parent : FrameId)
    (reported : SandboxFlags) : Prop where
  parent_flags : ∀ flags, r.frameSandbox tab parent = some flags → r'.AlwaysReports tab frame flags
  reported_flags : r'.AlwaysReports tab frame reported
  unknown_parent : parent ≠ FrameId.main → r.frameSandbox tab parent = none →
    r'.AlwaysReports tab frame .all
  creation_flags : ∀ flags, r'.frameSandbox tab frame = some flags →
    r'.AlwaysReports tab frame flags

/-- A child that is registered inherits its parent's flags if and only if the parent is not the main
frame, or the CSP flags of the main document are among the popup set and the reported flags. -/
theorem inherits_iff (ops : List SandboxOp) (tab : TabId) (frame parent : FrameId)
    (reported : SandboxFlags)
    (hok : ((new.runSandbox ops).registerFrame tab frame parent .child reported).1 = true) :
    Inherits (new.runSandbox ops)
        ((new.runSandbox ops).registerFrame tab frame parent .child reported).2 tab frame parent
        reported ↔
      parent ≠ FrameId.main ∨
        (new.runSandbox ops).mainCsp tab ⊆ ((new.runSandbox ops).sandbox tab).union reported := by
  have hr : (new.runSandbox ops).ChildRecords := ChildRecords.runSandbox (fun _ => rfl) ops
  generalize new.runSandbox ops = r at *
  obtain ⟨hf, hrec⟩ := registerFrame_true hok
  generalize (r.registerFrame tab frame parent .child reported).2 = r' at *
  have hkeeps : ∀ {c}, c ⊆ r.creationFlags tab parent .child reported → r'.Keeps tab frame c :=
    fun hc => ⟨_, hrec, hc, hc⟩
  have hnow : r'.frameSandbox tab frame = some (r.creationFlags tab parent .child reported) := by
    rw [frameSandbox, if_neg hf, hrec, Option.map_some]
  rw [creationFlags_child hr] at hkeeps hnow
  constructor
  · intro h
    rw [or_iff_not_imp_left, not_not]
    rintro rfl
    -- nothing later: the report right after the registration
    obtain ⟨flags, hflags, hsub⟩ := h.parent_flags _ (by rw [frameSandbox, if_pos rfl]) [] (by simp)
    rw [runSandbox, List.foldl_nil, hnow, if_pos rfl] at hflags
    rw [Option.some.inj hflags]
    exact SandboxFlags.subset_trans (SandboxFlags.subset_union_right _ _) hsub
  · intro h
    refine ⟨fun flags hflags => ?_, ?_, fun hp hnone => ?_, fun flags hflags => ?_⟩
    · refine (hkeeps ?_).alwaysReports hf
      by_cases hp : parent = FrameId.main
      · subst hp
        rw [frameSandbox, if_pos rfl, Option.some.injEq] at hflags
        subst hflags
        rw [if_pos rfl]
        exact SandboxFlags.union_subset (SandboxFlags.subset_union_left _ _)
          (h.resolve_left (not_not.2 rfl))
      · rw [if_neg hp, embedderFlags, hflags]
        exact SandboxFlags.subset_union_left _ _
    · exact (hkeeps (SandboxFlags.subset_union_right _ _)).alwaysReports hf
    · refine (hkeeps ?_).alwaysReports hf
      rw [if_neg hp, embedderFlags, hnone]
      exact SandboxFlags.subset_union_left _ _
    · rw [hnow, Option.some.injEq] at hflags
      subst hflags
      exact (hkeeps (SandboxFlags.subset_refl _)).alwaysReports hf

/-- A child frame of a child frame, in a tab whose main document has no CSP flags. -/
theorem inherits_iff_nested :
    Inherits (new.runSandbox [.registerFrame 1 7 FrameId.main .child .all])
      ((new.runSandbox [.registerFrame 1 7 FrameId.main .child .all]).registerFrame 1 8 7 .child
        .empty).2 1 8 7 .empty :=
  (inherits_iff [.registerFrame 1 7 FrameId.main .child .all] 1 8 7 .empty (by decide)).2
    (.inl (by decide))

/-- A main document under a full CSP sandbox embeds a frame without flags. -/
theorem not_inherits_mainCsp :
    ((new.runSandbox [.setSandbox 1 .empty, .resetMainSandbox 1 .all]).registerFrame 1 7
        FrameId.main .child .empty).1 = true ∧
      ¬ Inherits (new.runSandbox [.setSandbox 1 .empty, .resetMainSandbox 1 .all])
        ((new.runSandbox [.setSandbox 1 .empty, .resetMainSandbox 1 .all]).registerFrame 1 7
          FrameId.main .child .empty).2 1 7 FrameId.main .empty := by
  refine ⟨by decide, fun h => ?_⟩
  obtain ⟨flags, hflags, hsub⟩ := h.parent_flags .all (by decide) [] (by simp)
  have hempty : flags = .empty := by
    have heval : (runSandbox ((new.runSandbox [.setSandbox 1 .empty, .resetMainSandbox 1
      .all]).registerFrame 1 7 FrameId.main .child .empty).2 []).frameSandbox 1 7 = some .empty := by
      decide
    exact Option.some.inj (hflags.symm.trans heval)
  subst hempty
  exact absurd hsub (by decide)

end TabRegistry

end TinyBrowser
