import TinyBrowser.Lib.Machine
import TinyBrowser.Profile.Codec

/-!
# Saving local storage while it changes

A mutation changes the areas under their lock and stores the dirty flag afterwards; a save holds the
disk lock while it checks the flag, exports, writes and marks clean. `SaveStep` is one of these
steps, taken by any thread. The file lags behind the areas only while the flag is up or a mutation
has still to raise it, as long as no save marks clean what it did not export (`CleanSafe`);
`saved_iff_cleanSafe` says that this is exact.
-/

namespace TinyBrowser
open Lib

namespace Profile

/-- The calls that mutate local storage. -/
inductive StorageCall where
  | set (origin : StorageKey) (key value : Text)
  | remove (origin : StorageKey) (key : Text)
  | clear (origin : StorageKey)
deriving DecidableEq

/-- The part under the lock: whether the areas changed, and the areas after it. -/
def StorageCall.locked (areas : Areas) : StorageCall → Bool × Areas
  | set origin key value =>
    match areas.set origin key value with
    | (.ok (some _), areas) => (true, areas)
    | (_, areas) => (false, areas)
  | remove origin key => ((areas.remove origin key).1.isSome, (areas.remove origin key).2)
  | clear origin => ((areas.clear origin).1.isSome, (areas.clear origin).2)

theorem set_unchanged (area : StorageArea) (key value : Text)
    (h : ∀ change, (area.set key value).1 ≠ .ok (some change)) : (area.set key value).2 = area := by
  unfold StorageArea.set at *
  dsimp only at *
  split_ifs at * with hsame hover
  · rfl
  · rfl
  · exact absurd rfl (h _)

theorem StorageCall.entries_locked {areas : Areas} {call : StorageCall}
    (h : (call.locked areas).1 = false) (origin : StorageKey) :
    ((call.locked areas).2.entry origin).entries = (areas.entry origin).entries := by
  cases call with
  | set o key value =>
    have hset : areas.set o key value =
        (((areas.entry o).set key value).1, areas.insert o ((areas.entry o).set key value).2) := rfl
    have hsame : ((areas.entry o).set key value).2 = areas.entry o := by
      apply set_unchanged
      intro change hchange
      rw [locked, hset, hchange] at h
      cases h
    have hareas : (locked areas (.set o key value)).2 = areas.insert o (areas.entry o) := by
      rw [locked, hset, hsame]
      split <;> simp_all
    rw [hareas, Areas.entry_insert]
    split_ifs with ho
    · rw [ho]
    · rfl
  | remove o key =>
    simp only [locked, Areas.remove] at h ⊢
    cases hr : (areas.get? o).bind (·.remove key) with
    | none => rfl
    | some p => rw [hr] at h; cases h
  | clear o =>
    simp only [locked, Areas.clear] at h ⊢
    cases hc : (areas.get? o).bind (·.clear) with
    | none => rfl
    | some p => rw [hc] at h; cases h

/-- How far the save that holds the disk lock has come. -/
inductive SavePhase where
  | idle
  | checked
  | exported (rows : List Row)
  | written (rows : List Row)
deriving DecidableEq

structure SaveState where
  storage : LocalStorage
  pending : Nat
  phase : SavePhase
  file : Option Text
deriving DecidableEq

inductive WriteOutcome where
  | done
  | failed (renamed : Bool)
deriving DecidableEq

inductive SaveStep where
  | change (call : StorageCall)
  | storeFlag
  | check
  | giveUp
  | exportAreas
  | write (outcome : WriteOutcome)
  | markClean
deriving DecidableEq

/-- One step of some thread. A save without the flag is over after its check. -/
def saveStep (x : NetCrates) (s : SaveState) : SaveStep → Option SaveState
  | .change call =>
    let (changed, areas) := call.locked s.storage.areas
    some { s with
      storage := { s.storage with areas }
      pending := if changed then s.pending + 1 else s.pending }
  | .storeFlag =>
    if s.pending = 0 then none
    else some { s with storage := { s.storage with dirty := true }, pending := s.pending - 1 }
  | .check =>
    match s.phase with
    | .idle => some { s with phase := if s.storage.isDirty then .checked else .idle }
    | _ => none
  | .giveUp =>
    match s.phase with
    | .checked => some { s with phase := .idle }
    | _ => none
  | .exportAreas =>
    match s.phase with
    | .checked => some { s with phase := .exported (s.storage.exportRows x) }
    | _ => none
  | .write outcome =>
    match s.phase with
    | .exported rows =>
      let encoded := encodeLocalStorage rows
      match outcome with
      | .done => some { s with file := some encoded, phase := .written rows }
      | .failed true => some { s with file := some encoded, phase := .idle }
      | .failed false => some { s with phase := .idle }
    | _ => none
  | .markClean =>
    match s.phase with
    | .written _ => some { s with storage := s.storage.markClean, phase := .idle }
    | _ => none

/-- What the file holds; a missing file is loaded as one without rows. -/
def SaveState.content (s : SaveState) : Text := s.file.getD (encodeLocalStorage [])

/-- With the flag down and no mutation between its two steps, the file is the areas' export. -/
def SaveState.Saved (x : NetCrates) (s : SaveState) : Prop :=
  s.storage.dirty = false → s.pending = 0 → s.content = encodeLocalStorage (s.storage.exportRows x)

instance (x : NetCrates) (s : SaveState) : Decidable (s.Saved x) :=
  inferInstanceAs (Decidable (_ → _ → _))

/-- A profile that was just loaded: its areas are those of its file. -/
structure SaveState.Start (x : NetCrates) (s : SaveState) : Prop where
  clean : s.storage.dirty = false
  quiet : s.pending = 0
  idle : s.phase = .idle
  loaded : s.content = encodeLocalStorage (s.storage.exportRows x)

/-- A save marks clean only while some mutation has still to raise the flag, or when the areas
still export the rows it exported. -/
def CleanSafe (x : NetCrates) (s : SaveState) (step : SaveStep) : Prop :=
  step = .markClean → ∀ rows, s.phase = .written rows →
    0 < s.pending ∨ s.storage.exportRows x = rows

structure SaveInv (x : NetCrates) (s : SaveState) : Prop where
  fresh : s.storage.dirty = true ∨ 0 < s.pending ∨
    s.content = encodeLocalStorage (s.storage.exportRows x)
  /-- Only the save that holds the disk lock lowers the flag. -/
  held : s.phase ≠ .idle → s.storage.dirty = true
  wrote : ∀ rows, s.phase = .written rows → s.content = encodeLocalStorage rows

theorem encodeLocalStorage_injective {rows rows' : List Row}
    (h : encodeLocalStorage rows = encodeLocalStorage rows') : rows = rows' := by
  have hread := parseLocalStorage_encodeLocalStorage rows
  rw [h, parseLocalStorage_encodeLocalStorage] at hread
  exact (Except.ok.inj hread).symm

namespace SaveInv
variable {x : NetCrates} {s s' : SaveState}

theorem of_start (h : s.Start x) : SaveInv x s where
  fresh := .inr (.inr h.loaded)
  held hphase := absurd h.idle hphase
  wrote rows hphase := by rw [h.idle] at hphase; cases hphase

theorem saved (h : SaveInv x s) : s.Saved x := by
  intro hclean hquiet
  rcases h.fresh with hdirty | hpending | hcontent
  · rw [hclean] at hdirty; cases hdirty
  · omega
  · exact hcontent

theorem change (h : SaveInv x s) (call : StorageCall) (hstep : saveStep x s (.change call) = some s') :
    SaveInv x s' := by
  have hcase : (call.locked s.storage.areas).1 = false → ∀ origin : StorageKey,
      ((call.locked s.storage.areas).2.entry origin).entries = (s.storage.areas.entry origin).entries :=
    StorageCall.entries_locked
  simp only [saveStep, Option.some.injEq] at hstep
  generalize call.locked s.storage.areas = result at hstep hcase
  obtain ⟨changed, areas⟩ := result
  subst hstep
  refine ⟨?_, h.held, h.wrote⟩
  cases changed with
  | true => exact .inr (.inl (Nat.succ_pos _))
  | false =>
    have hexport : LocalStorage.exportRows x { s.storage with areas } = s.storage.exportRows x :=
      LocalStorage.exportRows_congr x fun origin => .of_eq (hcase rfl origin)
    show _ ∨ _ ∨ s.content = encodeLocalStorage (LocalStorage.exportRows x { s.storage with areas })
    rw [hexport]
    exact h.fresh

theorem storeFlag (h : SaveInv x s) (hstep : saveStep x s .storeFlag = some s') : SaveInv x s' := by
  simp only [saveStep] at hstep
  split_ifs at hstep with hpending
  cases hstep
  exact ⟨.inl rfl, fun _ => rfl, h.wrote⟩

theorem check (h : SaveInv x s) (hstep : saveStep x s .check = some s') : SaveInv x s' := by
  simp only [saveStep] at hstep
  split at hstep
  · cases hstep
    rcases Bool.eq_false_or_eq_true s.storage.isDirty with hdirty | hclean
    · rw [if_pos hdirty]
      exact ⟨.inl hdirty, fun _ => hdirty, fun rows hrows => by cases hrows⟩
    · rw [if_neg (by rw [hclean]; simp)]
      exact ⟨h.fresh, fun hphase => absurd rfl hphase, fun rows hrows => by cases hrows⟩
  · cases hstep

/-- Every other step of the save leaves the flag up. -/
theorem save (h : SaveInv x s) {step : SaveStep} (hstep : saveStep x s step = some s')
    (hkind : step = .giveUp ∨ step = .exportAreas ∨ ∃ outcome, step = .write outcome) :
    SaveInv x s' := by
  rcases hkind with rfl | rfl | ⟨outcome, rfl⟩
  · simp only [saveStep] at hstep
    split at hstep
    · rename_i hphase
      cases hstep
      have hdirty := h.held (by rw [hphase]; simp)
      exact ⟨.inl hdirty, fun _ => hdirty, fun rows hrows => by cases hrows⟩
    · cases hstep
  · simp only [saveStep] at hstep
    split at hstep
    · rename_i hphase
      cases hstep
      have hdirty := h.held (by rw [hphase]; simp)
      exact ⟨.inl hdirty, fun _ => hdirty, fun rows hrows => by cases hrows⟩
    · cases hstep
  · simp only [saveStep] at hstep
    split at hstep
    · rename_i rows hphase
      have hdirty := h.held (by rw [hphase]; simp)
      rcases outcome with _ | _ | _
      · cases hstep
        exact ⟨.inl hdirty, fun _ => hdirty, fun rows' hrows => by cases hrows; rfl⟩
      · cases hstep
        exact ⟨.inl hdirty, fun _ => hdirty, fun rows' hrows => by cases hrows⟩
      · cases hstep
        exact ⟨.inl hdirty, fun _ => hdirty, fun rows' hrows => by cases hrows⟩
    · cases hstep

theorem markClean (h : SaveInv x s) (hsafe : CleanSafe x s .markClean)
    (hstep : saveStep x s .markClean = some s') : SaveInv x s' := by
  simp only [saveStep] at hstep
  split at hstep
  · rename_i rows hphase
    cases hstep
    refine ⟨.inr ?_, fun hidle => absurd rfl hidle, fun rows hrows => by cases hrows⟩
    rcases hsafe rfl rows hphase with hpending | hsame
    · exact .inl hpending
    · right
      show s.content = encodeLocalStorage (s.storage.exportRows x)
      rw [hsame]
      exact h.wrote rows hphase
  · cases hstep

theorem step (h : SaveInv x s) {i : SaveStep} (hsafe : CleanSafe x s i)
    (hstep : saveStep x s i = some s') : SaveInv x s' := by
  cases i with
  | change call => exact h.change call hstep
  | storeFlag => exact h.storeFlag hstep
  | check => exact h.check hstep
  | giveUp => exact h.save hstep (.inl rfl)
  | exportAreas => exact h.save hstep (.inr (.inl rfl))
  | write outcome => exact h.save hstep (.inr (.inr ⟨outcome, rfl⟩))
  | markClean => exact h.markClean hsafe hstep

theorem cleanSafe (h : SaveInv x s) {i : SaveStep}
    (hsaved : ∀ s', saveStep x s i = some s' → s'.Saved x) : CleanSafe x s i := by
  rintro rfl rows hphase
  rcases Nat.eq_zero_or_pos s.pending with hquiet | hpending
  · right
    have hafter := hsaved { s with storage := s.storage.markClean, phase := .idle }
      (by simp only [saveStep, hphase]) rfl hquiet
    have hcontent : encodeLocalStorage rows = encodeLocalStorage (s.storage.exportRows x) :=
      (h.wrote rows hphase).symm.trans hafter
    exact (encodeLocalStorage_injective hcontent).symm
  · exact .inl hpending

end SaveInv

/-- The file keeps up in every state of a run exactly when every save of it marks clean only what
it exported, or while a mutation has still to raise the flag. -/
theorem saved_iff_cleanSafe (x : NetCrates) (s : SaveState) (hs : s.Start x) (steps : List SaveStep) :
    Machine.Throughout (saveStep x) (SaveState.Saved x) s steps ↔
      Machine.Along (saveStep x) (CleanSafe x) s steps :=
  Machine.throughout_iff_along (fun _ h => SaveInv.saved h)
    (fun _ _ _ h hsafe hstep => SaveInv.step h hsafe hstep) (fun _ _ h => SaveInv.cleanSafe h)
    (SaveInv.of_start hs)

/-- A profile without a file. -/
def SaveState.fresh : SaveState := ⟨.default, 0, .idle, none⟩

theorem SaveState.fresh_start : SaveState.fresh.Start sampleCrates :=
  ⟨rfl, rfl, rfl, by decide +kernel⟩

/-- A second `setItem` lands between the export and the end of the write. -/
def lostUpdate : List SaveStep :=
  [.change (.set sampleKey "a".toList "1".toList), .storeFlag, .check, .exportAreas,
    .change (.set sampleKey "a".toList "2".toList), .storeFlag, .write .done, .markClean]

/-- The condition, computed. -/
def cleanSafe (x : NetCrates) (s : SaveState) : SaveStep → Bool
  | .markClean => match s.phase with
    | .written rows => 0 < s.pending || s.storage.exportRows x == rows
    | _ => true
  | _ => true

theorem cleanSafe_iff {x : NetCrates} {s : SaveState} {step : SaveStep} :
    cleanSafe x s step = true ↔ CleanSafe x s step := by
  cases step with
  | markClean =>
    rw [cleanSafe, CleanSafe]
    cases s.phase <;> simp
  | _ => simp [cleanSafe, CleanSafe]

instance decidableCleanSafe (x : NetCrates) (s : SaveState) (step : SaveStep) :
    Decidable (CleanSafe x s step) := decidable_of_iff _ cleanSafe_iff

/-- A second `setItem` lands while the first is written, and raises the flag after the mark; the
next save takes it along. -/
def laterUpdate : List SaveStep :=
  [.change (.set sampleKey "a".toList "1".toList), .storeFlag, .check, .exportAreas, .write .done,
    .change (.set sampleKey "a".toList "2".toList), .markClean, .storeFlag, .check, .exportAreas,
    .write .done, .markClean]

theorem saved_iff_cleanSafe_later :
    Machine.Throughout (saveStep sampleCrates) (SaveState.Saved sampleCrates) .fresh laterUpdate ∧
    ∃ s, Machine.run (saveStep sampleCrates) .fresh laterUpdate = some s ∧
      s.storage.dirty = false ∧
      s.content = "tinybrowser-localstorage-v1\nhttps://example.com\ta\t2\n".toList := by
  refine ⟨(saved_iff_cleanSafe sampleCrates .fresh SaveState.fresh_start laterUpdate).2 ?_, _, rfl,
    ?_, ?_⟩ <;> decide +kernel

theorem exists_lost_update : SaveState.fresh.Start sampleCrates ∧
    ∃ s, Machine.run (saveStep sampleCrates) .fresh lostUpdate = some s ∧ ¬ s.Saved sampleCrates ∧
      s.storage.get sampleKey "a".toList = some "2".toList ∧
      s.content = "tinybrowser-localstorage-v1\nhttps://example.com\ta\t1\n".toList := by
  refine ⟨SaveState.fresh_start, _, rfl, ?_⟩
  decide +kernel

end Profile
end TinyBrowser
