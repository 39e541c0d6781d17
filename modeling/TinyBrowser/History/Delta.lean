import TinyBrowser.History.Sound
import TinyBrowser.Lib.Upto

/-!
# Traversals by a delta

The steps that entries use, deduplicated and sorted, are what a delta counts. Going by `d` and then
by `-d` comes back, and a frame whose list is in the order of the steps never moves against `d`: the
position of its active entry only depends on how many of its entries stand at or before the step.
-/

namespace TinyBrowser
open Lib

namespace SessionHistory
variable {h : SessionHistory} {f : FrameId} {steps : List Nat} {i step : Nat} {d : Int}

/-! ### Used steps -/

theorem sorted_usedSteps (h : SessionHistory) : h.usedSteps.Pairwise (· < ·) := by
  have hle : h.usedSteps.Pairwise (· ≤ ·) :=
    (List.pairwise_insertionSort (· ≤ ·) _).sublist (List.dedup_sublist _)
  have hne : h.usedSteps.Pairwise (· ≠ ·) := List.nodup_dedup _
  exact (hle.and hne).imp fun hlt => Nat.lt_of_le_of_ne hlt.1 hlt.2

/-- The index of a current step that is used. -/
theorem currentStepIndex_eq (hs : steps.Pairwise (· < ·)) (hi : steps[i]? = some h.currentStep) :
    h.currentStepIndex steps = i := by
  obtain ⟨hlt, hget⟩ := List.getElem?_eq_some_iff.1 hi
  have hsplit : steps = steps.take i ++ h.currentStep :: steps.drop (i + 1) := by
    rw [← hget, List.getElem_cons_drop, List.take_append_drop]
  have hafter : ∀ s ∈ steps.drop (i + 1), h.currentStep < s := by
    rw [hsplit, List.pairwise_append, List.pairwise_cons] at hs
    exact hs.2.1.1
  have hnone : (steps.drop (i + 1)).reverse.findIdx? (· ≤ h.currentStep) = none := by
    rw [List.findIdx?_eq_none_iff]
    intro s hmem
    exact decide_eq_false (Nat.not_le.2 (hafter s (List.mem_reverse.1 hmem)))
  have hfind : steps.reverse.findIdx? (· ≤ h.currentStep) = some (steps.length - (i + 1)) := by
    conv_lhs => rw [hsplit]
    rw [List.reverse_append, List.reverse_cons, List.append_assoc, List.findIdx?_append, hnone,
      List.singleton_append, List.findIdx?_cons, if_pos (decide_eq_true (Nat.le_refl _))]
    simp
  rw [currentStepIndex, hfind]
  dsimp only
  omega

theorem CurrentUsed.getElem?_usedSteps (hu : h.CurrentUsed) :
    h.usedSteps[h.currentStepIndex h.usedSteps]? = some h.currentStep := by
  obtain ⟨i, hi⟩ := List.mem_iff_getElem?.1 (mem_usedSteps.2 hu)
  rwa [currentStepIndex_eq h.sorted_usedSteps hi]

theorem targetStep_delta : h.targetStep (.delta d) = some step ↔
    0 ≤ h.currentStepIndex h.usedSteps + d ∧
      h.usedSteps[(h.currentStepIndex h.usedSteps + d).toNat]? = some step := by
  simp only [targetStep]
  split_ifs with hneg
  · exact iff_of_false (by rintro ⟨⟩) fun hpos => absurd hpos.1 (by omega)
  · exact (and_iff_right (by omega)).symm

theorem currentStepIndex_setCurrentStep (ht : h.targetStep (.delta d) = some step) :
    ((h.setCurrentStep step).currentStepIndex h.usedSteps : Int) =
      h.currentStepIndex h.usedSteps + d := by
  obtain ⟨hpos, hget⟩ := targetStep_delta.1 ht
  have hindex : (h.setCurrentStep step).currentStepIndex h.usedSteps =
      (h.currentStepIndex h.usedSteps + d).toNat := currentStepIndex_eq h.sorted_usedSteps hget
  rw [hindex, Int.toNat_of_nonneg hpos]

theorem targetStep_back (hu : h.CurrentUsed) (ht : h.targetStep (.delta d) = some step) :
    (h.setCurrentStep step).targetStep (.delta (-d)) = some h.currentStep := by
  have hindex := currentStepIndex_setCurrentStep ht
  refine targetStep_delta.2 ?_
  show 0 ≤ ((h.setCurrentStep step).currentStepIndex h.usedSteps : Int) + -d ∧
    h.usedSteps[(((h.setCurrentStep step).currentStepIndex h.usedSteps : Int) + -d).toNat]? = _
  have hsum : ((h.setCurrentStep step).currentStepIndex h.usedSteps : Int) + -d =
      h.currentStepIndex h.usedSteps := by omega
  rw [hsum, Int.toNat_natCast]
  exact ⟨Int.natCast_nonneg _, hu.getElem?_usedSteps⟩

theorem le_of_targetStep (hu : h.CurrentUsed) (ht : h.targetStep (.delta d) = some step) :
    (0 ≤ d → h.currentStep ≤ step) ∧ (d ≤ 0 → step ≤ h.currentStep) := by
  have hindex := currentStepIndex_setCurrentStep ht
  obtain ⟨hlt, hcurrent⟩ := List.getElem?_eq_some_iff.1 hu.getElem?_usedSteps
  obtain ⟨hpos, hget⟩ := targetStep_delta.1 ht
  obtain ⟨hlt', hstep⟩ := List.getElem?_eq_some_iff.1 hget
  have hmono : ∀ i j (hi : i < h.usedSteps.length) (hj : j < h.usedSteps.length), i ≤ j →
      h.usedSteps[i] ≤ h.usedSteps[j] := fun i j hi hj hij => by
    rcases Nat.lt_or_eq_of_le hij with hij | rfl
    · exact Nat.le_of_lt (List.pairwise_iff_getElem.1 h.sorted_usedSteps i j hi hj hij)
    · exact Nat.le_refl _
  rw [← hcurrent, ← hstep]
  exact ⟨fun hd => hmono _ _ _ _ (by omega), fun hd => hmono _ _ _ _ (by omega)⟩

/-! ### Frames -/

/-- The list of `f` is in the order of the steps. -/
def InStepOrder (h : SessionHistory) (f : FrameId) : Prop :=
  (h.idsOf f).Pairwise fun i j =>
    ∀ e e', h.locate i = some e → h.locate j = some e' → e.step ≤ e'.step

/-- The position of the entry that `f` presents. -/
def activePosition (h : SessionHistory) (f : FrameId) : Option Nat :=
  (h.activeEntry f).bind (h.framePosition f)

theorem exists_locate_of_mem_idsOf (hi : h.Inv) {id : EntryId} (hid : id ∈ h.idsOf f) :
    ∃ e, h.locate id = some e := by
  obtain ⟨ids, hids, hmem⟩ := mem_idsOf.1 hid
  obtain ⟨s, hs, rfl⟩ := hi.slots.owned hids hmem
  obtain ⟨e, he, rfl⟩ := List.mem_map.1 hs
  exact ⟨e, locate_of_mem hi he⟩

/-- How many entries of `f` stand at or before a step. -/
def entriesUpto (h : SessionHistory) (f : FrameId) (step : Nat) : Nat :=
  (h.idsOf f).countP fun id => (h.locate id).any (·.step ≤ step)

theorem InStepOrder.activePosition_eq (ho : h.InStepOrder f) (hi : h.Inv) (step : Nat) :
    (h.setCurrentStep step).activePosition f =
      if h.idsOf f = [] then none else some (h.entriesUpto f step - 1) := by
  have hgood : (h.idsOf f).Pairwise fun i j =>
      (h.locate j).any (·.step ≤ step) = true → (h.locate i).any (·.step ≤ step) = true := by
    refine ho.imp_of_mem fun {i j} hi' hj' hle hj => ?_
    obtain ⟨e, he⟩ := exists_locate_of_mem_idsOf hi hi'
    obtain ⟨e', he'⟩ := exists_locate_of_mem_idsOf hi hj'
    have hstep := hle e e' he he'
    rw [he', Option.any_some, decide_eq_true_eq] at hj
    rw [he, Option.any_some, decide_eq_true_eq]
    omega
  have hn : (h.idsOf f).Nodup := by
    rw [idsOf]
    cases hf : h.frames.get? f with
    | none => exact .nil
    | some ids => exact hi.slots.frame_nodup hf
  have hlast := findIdx?_last hgood hn
  rw [entriesUpto, ← hlast, activePosition, activeEntry, activeEntryAt]
  show ((h.frames.get? f).bind _).bind (fun id => (h.frames.get? f).bind _) = _
  rw [idsOf]
  cases h.frames.get? f with
  | none => rfl
  | some ids => rfl

theorem entriesUpto_mono {step' : Nat} (hle : step ≤ step') :
    h.entriesUpto f step ≤ h.entriesUpto f step' := by
  refine List.countP_mono_left fun id _ hid => ?_
  cases hl : h.locate id with
  | none => rw [hl] at hid; cases hid
  | some e =>
    rw [hl, Option.any_some, decide_eq_true_eq] at hid
    exact decide_eq_true (hid.trans hle)

theorem InStepOrder.activePosition_mono (ho : h.InStepOrder f) (hi : h.Inv) {step' j : Nat}
    (hle : step ≤ step') (hp : (h.setCurrentStep step).activePosition f = some i)
    (hp' : (h.setCurrentStep step').activePosition f = some j) : i ≤ j := by
  rw [ho.activePosition_eq hi] at hp hp'
  split_ifs at hp hp'
  cases hp
  cases hp'
  exact Nat.sub_le_sub_right (entriesUpto_mono hle) 1

theorem InStepOrder.isSome_activePosition (ho : h.InStepOrder f) (hi : h.Inv) (step : Nat) :
    ((h.setCurrentStep step).activePosition f).isSome = decide (h.idsOf f ≠ []) := by
  rw [ho.activePosition_eq hi]
  split_ifs with hnil <;> simp [hnil]

/-! ### Traversals -/

/-- A traversal by `d`: `-d` comes back, every mirror's index moves by `d`, and a frame in step order
does not move against `d`. -/
theorem delta_moves {blank : Url} {name : Option ContextName} {selected : List Nat}
    (hr : Reachable blank name selected h) (hfit : h.Fits) (hu : h.CurrentUsed)
    (ht : h.targetStep (.delta d) = some step) :
    (h.setCurrentStep step).targetStep (.delta (-d)) = some h.currentStep ∧
    (∀ f m m', h.rendererSnapshotFor f = some m →
      (h.setCurrentStep step).rendererSnapshotFor f = some m' → (m'.index : Int) = m.index + d) ∧
    ∀ f, h.InStepOrder f →
      ((h.setCurrentStep step).activePosition f).isSome = (h.activePosition f).isSome ∧
      ∀ i j, h.activePosition f = some i → (h.setCurrentStep step).activePosition f = some j →
        (0 ≤ d → i ≤ j) ∧ (d ≤ 0 → j ≤ i) := by
  have hi := (hr.inv hfit).1
  obtain ⟨hforth, hback⟩ := le_of_targetStep hu ht
  refine ⟨targetStep_back hu ht, fun f m m' hm hm' => ?_, fun f ho => ⟨?_, fun i j hp hp' => ?_⟩⟩
  · obtain ⟨ids, -, rfl⟩ := Option.map_eq_some_iff.1 hm
    obtain ⟨ids', -, rfl⟩ := Option.map_eq_some_iff.1 hm'
    exact currentStepIndex_setCurrentStep ht
  · rw [ho.isSome_activePosition hi, ← ho.isSome_activePosition hi h.currentStep]
    rfl
  · exact ⟨fun hd => ho.activePosition_mono hi (hforth hd) hp hp',
      fun hd => ho.activePosition_mono hi (hback hd) hp' hp⟩

theorem delta_moves_sampleOps :
    (((new .sample none).run sampleOps).setCurrentStep 2).targetStep (.delta (-1)) = some 1 :=
  (delta_moves (reachable_run .sample none sampleOps) (fits_run _ _ (by decide))
    ((CurrentUsed.new .sample none).run (Inv.new _ _) (fits_run _ _ (by decide)))
    (by decide +kernel : ((new .sample none).run sampleOps).targetStep (.delta 1) = some 2)).1

end SessionHistory

end TinyBrowser
