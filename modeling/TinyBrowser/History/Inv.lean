import TinyBrowser.History.Slots

/-!
# The invariant of the joint session history

`SessionHistory.Inv` is `SlotInv` for the positions and `DocInv` for the document states. The
operations are sequences of a few primitive changes (`modifyEntry`, `dropNames`, `insertEntry`,
`truncateForward`, `removeFrame`, a step assignment), each of which has one lemma here. The counters
saturate, so the invariant of a run is stated for runs that leave room in them (`Fits`).
-/

namespace TinyBrowser
open Lib

/-- Document states are below the counter, and only those of an entry have a name. -/
structure DocInv (docs : List Nat) (names : Dict Nat ContextName) (next : Nat) : Prop where
  lt : ∀ d ∈ docs, d < next
  live : ∀ d ∈ names.keys, d ∈ docs

namespace SessionHistory

def documents (h : SessionHistory) : List Nat := h.entries.map Entry.document

structure Inv (h : SessionHistory) : Prop where
  slots : SlotInv h.slots h.frames h.currentStep h.nextEntry
  docs : DocInv h.documents h.names h.nextDocument

/-- Neither counter has reached its maximum. -/
structure Fits (h : SessionHistory) : Prop where
  entry : h.nextEntry < u64Max
  document : h.nextDocument < u64Max

variable {h : SessionHistory} {id : EntryId} {e : Entry} {f : FrameId}

theorem locate_spec (hl : h.locate id = some e) : e ∈ h.entries ∧ e.id = id :=
  ⟨List.mem_of_find?_eq_some hl, by simpa using List.find?_some hl⟩

theorem getElem?_findIdx_of_locate (hl : h.locate id = some e) :
    h.entries[h.entries.findIdx (·.id = id)]? = some e := by
  rw [locate, List.find?_eq_getElem?_findIdx] at hl
  exact hl

theorem slot_mem (he : e ∈ h.entries) : e.slot ∈ h.slots := List.mem_map_of_mem he

theorem Inv.id_lt (hi : h.Inv) (he : e ∈ h.entries) : e.id < h.nextEntry :=
  hi.slots.id_lt e.slot (slot_mem he)

/-! ### Rewriting an entry -/

theorem map_modify {β : Type} {g : Entry → β} {k : Entry → Entry} (hk : ∀ e, g (k e) = g e)
    (l : List Entry) (i : Nat) : (l.modify i k).map g = l.map g := by
  refine List.ext_getElem? fun j => ?_
  rw [List.getElem?_map, List.getElem?_map, List.getElem?_modify]
  cases l[j]? with
  | none => rfl
  | some e =>
    simp only [Option.map_eq_map, Option.map_some]
    split_ifs
    · rw [hk]
    · rfl

theorem documents_modifyEntry {k : Entry → Entry} {n : Nat} (hk : ∀ e, (k e).document = n) :
    (h.modifyEntry id k).documents = h.documents.set (h.entries.findIdx (·.id = id)) n := by
  refine List.ext_getElem? fun j => ?_
  simp only [documents, modifyEntry, List.getElem?_map, List.getElem?_modify, List.getElem?_set,
    List.length_map]
  by_cases hj : h.entries.findIdx (·.id = id) = j
  · subst hj
    simp only [↓reduceIte]
    split_ifs with hlt
    · rw [List.getElem?_eq_getElem hlt]
      simp [hk]
    · rw [List.getElem?_eq_none (Nat.le_of_not_lt hlt)]
      rfl
  · simp [hj]

theorem slots_modifyEntry {k : Entry → Entry} (hs : ∀ e, (k e).slot = e.slot) :
    (h.modifyEntry id k).slots = h.slots := map_modify hs _ _

/-- Rewriting the parts of an entry that no invariant reads. -/
theorem Inv.modifyEntry (hi : h.Inv) {k : Entry → Entry} (hs : ∀ e, (k e).slot = e.slot)
    (hd : ∀ e, (k e).document = e.document) : (h.modifyEntry id k).Inv := by
  have hslots : (h.modifyEntry id k).slots = h.slots := slots_modifyEntry hs
  have hdocs : (h.modifyEntry id k).documents = h.documents := map_modify hd _ _
  refine ⟨?_, ?_⟩
  · rw [hslots]
    exact hi.slots
  · rw [hdocs]
    exact hi.docs

/-! ### Names -/

theorem mem_keys_dropNames {documents : List Nat} {d : Nat} :
    d ∈ (h.dropNames documents).names.keys ↔
      d ∈ h.names.keys ∧ (d ∈ documents → d ∈ h.documents) := by
  have hany : ∀ d, (h.entries.any (·.document = d) = true ↔ d ∈ h.documents) := by
    intro d
    simp [SessionHistory.documents]
  suffices hfold : ∀ names : Dict Nat ContextName,
      d ∈ (documents.foldl (fun names d => if h.entries.any (·.document = d) then names
        else names.erase d) names).keys ↔ d ∈ names.keys ∧ (d ∈ documents → d ∈ h.documents) from
    hfold h.names
  induction documents with
  | nil => simp
  | cons d' documents ih =>
    intro names
    rw [List.foldl_cons, ih]
    split_ifs with hlive
    · rw [hany] at hlive
      refine and_congr_right fun _ => ?_
      rw [List.mem_cons]
      constructor
      · rintro h1 (rfl | h2)
        · exact hlive
        · exact h1 h2
      · exact fun h1 h2 => h1 (.inr h2)
    · rw [hany] at hlive
      rw [Dict.mem_keys_erase, List.mem_cons]
      constructor
      · rintro ⟨⟨h1, h2⟩, h3⟩
        exact ⟨h2, fun h4 => h4.elim (fun h5 => absurd h5 h1) h3⟩
      · rintro ⟨h1, h2⟩
        refine ⟨⟨?_, h1⟩, fun h3 => h2 (.inr h3)⟩
        rintro rfl
        exact hlive (h2 (.inl rfl))

/-- Dropping names restores `DocInv` when the names without an entry are among those dropped. -/
theorem docInv_dropNames {documents : List Nat} {next : Nat} (hlt : ∀ d ∈ h.documents, d < next)
    (hlive : ∀ d ∈ h.names.keys, d ∈ h.documents ∨ d ∈ documents) :
    DocInv (h.dropNames documents).documents (h.dropNames documents).names next := by
  refine ⟨hlt, fun d hd => ?_⟩
  obtain ⟨hkey, hdrop⟩ := mem_keys_dropNames.1 hd
  rcases hlive d hkey with hl | hl
  · exact hl
  · exact hdrop hl

theorem mem_keys_insertName {n d : Nat} {name : Option ContextName}
    (hd : d ∈ (h.insertName n name).names.keys) : d = n ∨ d ∈ h.names.keys := by
  cases name with
  | none => exact .inr hd
  | some name => exact (Dict.mem_keys_insert _ _ _ _).1 hd

/-! ### A fresh document state for an entry -/

/-- The entry `id` presents the next document state, under `name`. -/
def redocument (h : SessionHistory) (id : EntryId) (k : Nat → Entry → Entry)
    (name : Option ContextName) (old : Entry) : SessionHistory :=
  (((h.takeDocument.2).modifyEntry id (k h.nextDocument)).insertName h.nextDocument name).dropNames
    [old.document]

section
variable (k : Nat → Entry → Entry) (name : Option ContextName)

@[simp] theorem nextDocument_redocument :
    (h.redocument id k name e).nextDocument = saturatingSucc h.nextDocument := by
  cases name <;> rfl

@[simp] theorem nextEntry_redocument : (h.redocument id k name e).nextEntry = h.nextEntry := by
  cases name <;> rfl

@[simp] theorem frames_redocument : (h.redocument id k name e).frames = h.frames := by
  cases name <;> rfl

@[simp] theorem currentStep_redocument :
    (h.redocument id k name e).currentStep = h.currentStep := by
  cases name <;> rfl

@[simp] theorem entries_redocument : (h.redocument id k name e).entries =
    h.entries.modify (h.entries.findIdx (·.id = id)) (k h.nextDocument) := by
  cases name <;> rfl

theorem slots_redocument (hs : ∀ n e, (k n e).slot = e.slot) :
    (h.redocument id k name e).slots = h.slots := by
  rw [slots, entries_redocument]
  exact map_modify (hs _) _ _

end

theorem Inv.redocument (hi : h.Inv) (hl : h.locate id = some e) {k : Nat → Entry → Entry}
    (hs : ∀ n e, (k n e).slot = e.slot) (hd : ∀ n e, (k n e).document = n)
    {name : Option ContextName} (hfit : (h.redocument id k name e).Fits) :
    (h.redocument id k name e).Inv := by
  have hsucc : saturatingSucc h.nextDocument = h.nextDocument + 1 :=
    saturatingSucc_eq (nextDocument_redocument k name ▸ hfit.document)
  have hslots : (h.redocument id k name e).slots = h.slots := slots_redocument k name hs
  have hdocs : (h.redocument id k name e).documents =
      h.documents.set (h.entries.findIdx (·.id = id)) h.nextDocument := by
    rw [documents, entries_redocument]
    exact documents_modifyEntry (hd _)
  have hold : h.documents[h.entries.findIdx (·.id = id)]? = some e.document := by
    rw [documents, List.getElem?_map, getElem?_findIdx_of_locate hl]
    rfl
  refine ⟨?_, ?_⟩
  · rw [hslots, frames_redocument, currentStep_redocument, nextEntry_redocument]
    exact hi.slots
  · rw [nextDocument_redocument, hsucc]
    refine docInv_dropNames (fun d hmem => ?_) (fun d hkey => ?_)
    · have hmem : d ∈ (h.redocument id k name e).documents := hmem
      rw [hdocs] at hmem
      rcases List.mem_or_eq_of_mem_set hmem with hmem | rfl
      · have := hi.docs.lt d hmem
        omega
      · omega
    · show d ∈ (h.redocument id k name e).documents ∨ _
      rw [hdocs]
      obtain ⟨hlt, -⟩ := List.getElem?_eq_some_iff.1 hold
      rcases mem_keys_insertName hkey with rfl | hkey
      · exact .inl (List.mem_set hlt _)
      · obtain ⟨j, hj⟩ := List.mem_iff_getElem?.1 (hi.docs.live d hkey)
        by_cases hij : h.entries.findIdx (·.id = id) = j
        · rw [hij, hj] at hold
          exact .inr (by rw [Option.some.inj hold]; simp)
        · refine .inl (List.mem_iff_getElem?.2 ⟨j, ?_⟩)
          rw [List.getElem?_set_ne hij, hj]

theorem replaceEntry_eq (url : Url) (name : Option ContextName) :
    h.replaceEntry id url name = match h.locate id with
      | none => h
      | some old => h.redocument id
          (fun n e => { e with url, title := [], state := none, document := n }) name old := rfl

theorem Inv.replaceEntry (hi : h.Inv) {url : Url} {name : Option ContextName}
    (hfit : (h.replaceEntry id url name).Fits) : (h.replaceEntry id url name).Inv := by
  rw [replaceEntry_eq] at hfit ⊢
  split at hfit
  · exact hi
  · rename_i old hl
    exact hi.redocument
      (k := fun n e => { e with url, title := [], state := none, document := n }) hl
      (fun _ _ => rfl) (fun _ _ => rfl) hfit

/-! ### Adding entries -/

section
variable (step localIndex : Nat) (url : Url) (name : Option ContextName) (state : Option Text)

@[simp] theorem entries_insertEntry : (h.insertEntry f step localIndex url name state).2.entries =
    h.entries ++ [⟨h.nextEntry, step, localIndex, url, [], state, h.nextDocument⟩] := by
  cases name <;> rfl

@[simp] theorem frames_insertEntry : (h.insertEntry f step localIndex url name state).2.frames =
    h.frames.insert f (insertAt ((h.frames.get? f).getD []) localIndex h.nextEntry) := by
  cases name <;> rfl

@[simp] theorem currentStep_insertEntry :
    (h.insertEntry f step localIndex url name state).2.currentStep = h.currentStep := by
  cases name <;> rfl

@[simp] theorem nextEntry_insertEntry :
    (h.insertEntry f step localIndex url name state).2.nextEntry = saturatingSucc h.nextEntry := by
  cases name <;> rfl

@[simp] theorem nextDocument_insertEntry :
    (h.insertEntry f step localIndex url name state).2.nextDocument =
      saturatingSucc h.nextDocument := by
  cases name <;> rfl

end

/-- Adding an entry. In the main frame it must be the newest. -/
theorem Inv.insertEntry (hi : h.Inv) {step localIndex : Nat} {url : Url}
    {name : Option ContextName} {state : Option Text}
    (hfit : (h.insertEntry f step localIndex url name state).2.Fits) (hstep : step ≤ h.nextEntry)
    (hmain : f = FrameId.main →
      localIndex = ((h.frames.get? f).getD []).length ∧ ∀ e ∈ h.entries, e.step < step) :
    (h.insertEntry f step localIndex url name state).2.Inv := by
  have hentry := saturatingSucc_eq (nextEntry_insertEntry _ _ _ _ _ ▸ hfit.entry)
  have hdoc := saturatingSucc_eq (nextDocument_insertEntry _ _ _ _ _ ▸ hfit.document)
  refine ⟨?_, ?_, ?_⟩
  · show SlotInv ((h.insertEntry f step localIndex url name state).2.entries.map Entry.slot) _ _ _
    rw [entries_insertEntry, frames_insertEntry, nextEntry_insertEntry, currentStep_insertEntry,
      hentry, List.map_append]
    refine hi.slots.push (s := ⟨h.nextEntry, step, localIndex⟩) rfl hstep rfl fun hf => ?_
    obtain ⟨h1, h2⟩ := hmain hf
    refine ⟨h1, fun t ht => ?_⟩
    obtain ⟨e, he, rfl⟩ := List.mem_map.1 ht
    exact h2 e he
  · intro d hd
    simp only [documents, entries_insertEntry, List.map_append, List.map_cons, List.map_nil,
      List.mem_append, List.mem_singleton, nextDocument_insertEntry] at hd ⊢
    rw [hdoc]
    rcases hd with hd | rfl
    · have := hi.docs.lt d hd
      omega
    · omega
  · intro d hd
    simp only [documents, entries_insertEntry, List.map_append, List.map_cons, List.map_nil,
      List.mem_append, List.mem_singleton]
    rcases mem_keys_insertName (show d ∈ ((h.takeDocument.2).insertName h.nextDocument name).names.keys
      from hd) with hd | hd
    · exact .inr hd
    · exact .inl (hi.docs.live d hd)

theorem Inv.truncateForward (hi : h.Inv) : h.truncateForward.Inv := by
  have hslots : h.truncateForward.slots = h.slots.filter (·.step ≤ h.currentStep) := by
    rw [SessionHistory.slots, SessionHistory.slots, List.filter_map]
    rfl
  refine ⟨?_, ?_⟩
  · rw [hslots]
    refine hi.slots.truncate ?_
    rw [SessionHistory.slots, List.filter_map, List.map_map]
    rfl
  · refine docInv_dropNames (fun d hd => ?_) (fun d hd => ?_)
    · obtain ⟨e, he, rfl⟩ := List.mem_map.1 hd
      exact hi.docs.lt _ (List.mem_map_of_mem (List.mem_filter.1 he).1)
    · obtain ⟨e, he, rfl⟩ := List.mem_map.1 (hi.docs.live d hd)
      by_cases hle : e.step ≤ h.currentStep
      · exact .inl (List.mem_map_of_mem (List.mem_filter.2 ⟨he, by simpa using hle⟩))
      · exact .inr (List.mem_map_of_mem (List.mem_filter.2 ⟨he, by simpa using hle⟩))

theorem step_le_of_mem_truncateForward (he : e ∈ h.truncateForward.entries) :
    e.step ≤ h.currentStep := by
  have := (List.mem_filter.1 he).2
  simpa using this

theorem Inv.currentStep_lt (hi : h.Inv) : h.currentStep < h.nextEntry := hi.slots.current_lt

theorem Inv.step_lt (hi : h.Inv) (he : e ∈ h.entries) : e.step < h.nextEntry :=
  hi.slots.step_lt e.slot (slot_mem he)

theorem saturatingSucc_currentStep (hi : h.Inv) (hfit : h.nextEntry < u64Max) :
    saturatingSucc h.currentStep = h.currentStep + 1 := by
  rw [saturatingSucc, if_pos (Nat.lt_trans hi.currentStep_lt hfit)]

/-! ### Steps -/

theorem Inv.setStep (hi : h.Inv) {step : Nat} (hstep : step < h.nextEntry) :
    Inv { h with currentStep := step } :=
  ⟨hi.slots.setStep hstep, hi.docs⟩

theorem mem_usedSteps {step : Nat} : step ∈ h.usedSteps ↔ ∃ e ∈ h.entries, e.step = step := by
  simp [usedSteps, List.mem_dedup, List.mem_insertionSort]

/-- A traversal only selects a used step. -/
theorem targetStep_used {target : HistoryStep} {step : Nat} (ht : h.targetStep target = some step) :
    ∃ e ∈ h.entries, e.step = step := by
  cases target with
  | entry id =>
    obtain ⟨e, he, rfl⟩ := Option.map_eq_some_iff.1 ht
    exact ⟨e, (locate_spec he).1, rfl⟩
  | delta d =>
    simp only [targetStep] at ht
    split_ifs at ht
    exact mem_usedSteps.1 (List.mem_of_getElem? ht)

/-- The clamped step is the greatest used one at or below the current step. -/
theorem clampCurrentStep_spec (hex : ∃ e ∈ h.entries, e.step ≤ h.currentStep) :
    ∃ step, h.clampCurrentStep = { h with currentStep := step } ∧ step ≤ h.currentStep ∧
      (∃ e ∈ h.entries, e.step = step) ∧
      ∀ e ∈ h.entries, e.step ≤ h.currentStep → e.step ≤ step := by
  have hmem : ∀ n, n ∈ (h.entries.filter fun e => e.step ≤ h.currentStep).map Entry.step ↔
      ∃ e ∈ h.entries, e.step ≤ h.currentStep ∧ e.step = n := by
    intro n
    simp [and_assoc]
  unfold clampCurrentStep
  cases hmax : ((h.entries.filter fun e => e.step ≤ h.currentStep).map Entry.step).max? with
  | none =>
    rw [List.max?_eq_none_iff] at hmax
    obtain ⟨e, he, hle⟩ := hex
    have := (hmem e.step).2 ⟨e, he, hle, rfl⟩
    rw [hmax] at this
    simp at this
  | some step =>
    obtain ⟨h1, h2⟩ := List.max?_eq_some_iff.1 hmax
    obtain ⟨e, he, hle, rfl⟩ := (hmem step).1 h1
    exact ⟨e.step, rfl, hle, ⟨e, he, rfl⟩, fun e' he' hle' => h2 _ ((hmem _).2 ⟨e', he', hle', rfl⟩)⟩

/-! ### Pushes -/

/-- The entry a push adds. -/
def pushedEntry (h : SessionHistory) (localIndex : SessionHistory → Nat) (url : Url)
    (state : Option Text) : Entry :=
  ⟨h.nextEntry, saturatingSucc h.currentStep, localIndex h.truncateForward, url, [], state,
    h.nextDocument⟩

section
variable (localIndex : SessionHistory → Nat) (url : Url) (name : Option ContextName)
  (state : Option Text)

@[simp] theorem fst_pushStep : (h.pushStep f localIndex url name state).1 = h.nextEntry := by
  cases name <;> rfl

@[simp] theorem entries_pushStep : (h.pushStep f localIndex url name state).2.entries =
    h.truncateForward.entries ++ [h.pushedEntry localIndex url state] := by
  cases name <;> rfl

@[simp] theorem currentStep_pushStep :
    (h.pushStep f localIndex url name state).2.currentStep = saturatingSucc h.currentStep := rfl

@[simp] theorem frames_pushStep : (h.pushStep f localIndex url name state).2.frames =
    h.truncateForward.frames.insert f (insertAt ((h.truncateForward.frames.get? f).getD [])
      (localIndex h.truncateForward) h.nextEntry) := by
  cases name <;> rfl

@[simp] theorem nextEntry_pushStep :
    (h.pushStep f localIndex url name state).2.nextEntry = saturatingSucc h.nextEntry := by
  cases name <;> rfl

@[simp] theorem nextDocument_pushStep :
    (h.pushStep f localIndex url name state).2.nextDocument = saturatingSucc h.nextDocument := by
  cases name <;> rfl

end

/-- A push keeps the invariant; in the main frame it goes to the end. -/
theorem Inv.pushStep (hi : h.Inv) {localIndex : SessionHistory → Nat} {url : Url}
    {name : Option ContextName} {state : Option Text}
    (hfit : (h.pushStep f localIndex url name state).2.Fits)
    (hmain : f = FrameId.main → ∀ h', localIndex h' = h'.frameLen FrameId.main) :
    (h.pushStep f localIndex url name state).2.Inv := by
  have hlt : h.nextEntry < u64Max :=
    lt_of_saturatingSucc_lt (nextEntry_pushStep _ _ _ _ ▸ hfit.entry)
  have hstep : saturatingSucc h.truncateForward.currentStep = h.currentStep + 1 :=
    show saturatingSucc h.currentStep = _ from saturatingSucc_currentStep hi hlt
  refine Inv.setStep (hi.truncateForward.insertEntry ⟨hfit.entry, hfit.document⟩ ?_
    fun hf => ⟨?_, fun e he => ?_⟩) ?_
  · rw [hstep]
    exact hi.currentStep_lt
  · rw [hmain hf, frameLen, hf]
    cases h.truncateForward.frames.get? FrameId.main <;> rfl
  · rw [hstep]
    exact Nat.lt_succ_of_le (step_le_of_mem_truncateForward he)
  · rw [nextEntry_insertEntry, hstep]
    have hnext := saturatingSucc_eq (nextEntry_pushStep _ _ _ _ ▸ hfit.entry)
    have hcur := hi.currentStep_lt
    show h.currentStep + 1 < saturatingSucc h.nextEntry
    omega

/-- Rewriting the entry that was just added. -/
theorem modify_findIdx_concat {l : List Entry} {k : Entry → Entry} (hl : ∀ x ∈ l, x.id ≠ e.id) :
    (l ++ [e]).modify ((l ++ [e]).findIdx (·.id = e.id)) k = l ++ [k e] := by
  have hidx : (l ++ [e]).findIdx (·.id = e.id) = l.length := by
    rw [List.findIdx_append, List.findIdx_eq_length_of_false fun x hx => by simpa using hl x hx]
    simp
  rw [hidx]
  refine List.ext_getElem? fun j => ?_
  rw [List.getElem?_modify]
  rcases Nat.lt_trichotomy j l.length with hj | rfl | hj
  · simp [List.getElem?_append_left hj, Nat.ne_of_gt hj]
  · simp
  · rw [List.getElem?_eq_none, List.getElem?_eq_none]
    · rfl
    · simp; omega
    · simp; omega

/-! ### Dropping frames -/

/-- The history without the frame `f`, before its current step is clamped. -/
def dropFrame (h : SessionHistory) (f : FrameId) (ids : List EntryId) : SessionHistory :=
  { h with
    frames := h.frames.erase f
    pending := h.pending.erase f
    entries := h.entries.filter fun e => e.id ∉ ids }.dropNames
      (ids.filterMap fun id => (h.locate id).map Entry.document)

theorem removeFrame_eq (h : SessionHistory) (f : FrameId) : h.removeFrame f =
    if f = FrameId.main then h else match h.frames.get? f with
      | none => h
      | some ids => (h.dropFrame f ids).clampCurrentStep := rfl

/-- The main frame keeps an entry at step 0. -/
theorem Inv.exists_main (hi : h.Inv) {ids : List EntryId} (hids : h.frames.get? f = some ids)
    (hf : f ≠ FrameId.main) : ∃ e ∈ h.entries, e.id ∉ ids ∧ e.step = 0 := by
  obtain ⟨ms, hms⟩ := hi.slots.main
  cases ms with
  | nil => exact absurd hms.first (by simp)
  | cons s ms =>
    obtain ⟨e, he, rfl⟩ := List.mem_map.1 (hms.mem s (by simp))
    refine ⟨e, he, fun hmem => ?_, by simpa [Entry.slot] using hms.first⟩
    exact hf (hi.slots.disjoint hids hms.ids hmem (by simp [Entry.slot]))

theorem locate_of_mem (hi : h.Inv) (he : e ∈ h.entries) : h.locate e.id = some e := by
  cases hl : h.locate e.id with
  | none =>
    have := List.find?_eq_none.1 hl e he
    simp at this
  | some e' =>
    obtain ⟨he', hid⟩ := locate_spec hl
    have hnodup : (h.entries.map Entry.id).Nodup := by
      have := hi.slots.nodup
      rwa [slots, List.map_map] at this
    rw [List.inj_on_of_nodup_map hnodup he' he hid]

theorem Inv.dropFrame (hi : h.Inv) {ids : List EntryId} (hids : h.frames.get? f = some ids)
    (hf : f ≠ FrameId.main) {step : Nat} (hstep : step < h.nextEntry) :
    Inv { h.dropFrame f ids with currentStep := step } := by
  refine ⟨?_, ?_⟩
  · have hslots : (h.dropFrame f ids).slots = h.slots.filter fun s => s.id ∉ ids := by
      rw [SessionHistory.slots, SessionHistory.slots, List.filter_map]
      rfl
    show SlotInv (h.dropFrame f ids).slots _ _ _
    rw [hslots]
    exact hi.slots.remove hids hf hstep
  · show DocInv (h.dropFrame f ids).documents (h.dropFrame f ids).names h.nextDocument
    refine docInv_dropNames (fun d hd => ?_) (fun d hd => ?_)
    · obtain ⟨e, he, rfl⟩ := List.mem_map.1 hd
      exact hi.docs.lt _ (List.mem_map_of_mem (List.mem_filter.1 he).1)
    · obtain ⟨e, he, rfl⟩ := List.mem_map.1 (hi.docs.live d hd)
      by_cases hid : e.id ∈ ids
      · refine .inr (List.mem_filterMap.2 ⟨e.id, hid, ?_⟩)
        rw [locate_of_mem hi he]
        rfl
      · exact .inl (List.mem_map_of_mem (List.mem_filter.2 ⟨he, decide_eq_true hid⟩))

theorem Inv.removeFrame (hi : h.Inv) (f : FrameId) : (h.removeFrame f).Inv := by
  rw [removeFrame_eq]
  split_ifs with hf
  · exact hi
  · split
    · exact hi
    · rename_i ids hids
      obtain ⟨e, he, hid, h0⟩ := hi.exists_main hids hf
      have hmem : e ∈ (h.dropFrame f ids).entries := List.mem_filter.2 ⟨he, decide_eq_true hid⟩
      obtain ⟨step, heq, hle, -, -⟩ := clampCurrentStep_spec ⟨e, hmem, by rw [h0]; omega⟩
      rw [heq]
      exact hi.dropFrame hids hf (Nat.lt_of_le_of_lt hle hi.currentStep_lt)

theorem Inv.clearChildren (hi : h.Inv) : h.clearChildren.Inv := by
  unfold SessionHistory.clearChildren
  generalize h.frames.keys.filter (· ≠ FrameId.main) = fs
  induction fs generalizing h with
  | nil => exact hi
  | cons f fs ih => exact ih (hi.removeFrame f)

/-! ### Operations -/

theorem Inv.new (blank : Url) (name : Option ContextName) : (new blank name).Inv := by
  refine ⟨⟨?_, ?_, ?_, ?_, ?_, ?_, ?_, ?_, ?_⟩, ?_, ?_⟩
  · simp [SessionHistory.new, SessionHistory.slots]
  · simp [SessionHistory.new, SessionHistory.slots, Entry.slot]
  · simp [SessionHistory.new, SessionHistory.slots, Entry.slot]
  · intro f ids hf
    simp only [SessionHistory.new, Dict.get?_singleton] at hf
    split_ifs at hf
    obtain rfl := Option.some.inj hf
    simp
  · intro f g ids ids' i hf hg _ _
    simp only [SessionHistory.new, Dict.get?_singleton] at hf hg
    split_ifs at hf hg with h1 h2
    rw [h1, h2]
  · intro f ids i hf hi
    simp only [SessionHistory.new, Dict.get?_singleton] at hf
    split_ifs at hf
    obtain rfl := Option.some.inj hf
    exact ⟨_, List.mem_singleton_self _, (List.mem_singleton.1 hi).symm⟩
  · intro s hs
    obtain rfl := List.mem_singleton.1 hs
    exact ⟨FrameId.main, [0], by simp [SessionHistory.new], by simp [Entry.slot]⟩
  · exact Nat.zero_lt_one
  · refine ⟨[⟨0, 0, 0⟩], ?_, ?_, rfl, by simp, rfl⟩
    · simp [SessionHistory.new]
    · simp [SessionHistory.new, SessionHistory.slots, Entry.slot]
  · simp [SessionHistory.new, documents]
  · cases name with
    | none => simp [SessionHistory.new, Dict.keys, Dict.empty]
    | some name => simp [SessionHistory.new, Dict.keys, Dict.singleton, documents]

theorem Inv.setTitle (hi : h.Inv) (title : Text) : (h.setTitle f title).Inv := by
  unfold SessionHistory.setTitle
  split
  · exact hi
  · exact hi.modifyEntry (fun _ => rfl) (fun _ => rfl)

theorem Inv.addFrame (hi : h.Inv) {url : Url} {name : Option ContextName}
    (hfit : (h.addFrame f url name).Fits) : (h.addFrame f url name).Inv := by
  unfold SessionHistory.addFrame at hfit ⊢
  split_ifs at hfit ⊢ with hf
  · exact hi
  · simp only [Bool.or_eq_true, decide_eq_true_eq, not_or] at hf
    exact hi.insertEntry hfit (Nat.le_of_lt hi.currentStep_lt) fun h0 => absurd h0 hf.1

theorem Fits.of_addFrame {url : Url} {name : Option ContextName}
    (hfit : (h.addFrame f url name).Fits) : h.Fits := by
  unfold SessionHistory.addFrame at hfit
  split_ifs at hfit
  · exact hfit
  · exact ⟨lt_of_saturatingSucc_lt (nextEntry_insertEntry _ _ _ _ _ ▸ hfit.entry),
      lt_of_saturatingSucc_lt (nextDocument_insertEntry _ _ _ _ _ ▸ hfit.document)⟩

theorem Fits.of_pushStep {localIndex : SessionHistory → Nat} {url : Url}
    {name : Option ContextName} {state : Option Text}
    (hfit : (h.pushStep f localIndex url name state).2.Fits) : h.Fits :=
  ⟨lt_of_saturatingSucc_lt (nextEntry_pushStep _ _ _ _ ▸ hfit.entry),
    lt_of_saturatingSucc_lt (nextDocument_pushStep _ _ _ _ ▸ hfit.document)⟩

theorem Fits.of_redocument {k : Nat → Entry → Entry} {name : Option ContextName}
    (hfit : (h.redocument id k name e).Fits) : h.Fits :=
  ⟨nextEntry_redocument k name ▸ hfit.entry,
    lt_of_saturatingSucc_lt (nextDocument_redocument k name ▸ hfit.document)⟩

theorem Fits.of_replaceEntry {url : Url} {name : Option ContextName}
    (hfit : (h.replaceEntry id url name).Fits) : h.Fits := by
  rw [replaceEntry_eq] at hfit
  split at hfit
  · exact hfit
  · exact hfit.of_redocument

/-- `begin` makes sure that the frame exists. -/
def withFrame (h : SessionHistory) (f : FrameId) (url : Url) : SessionHistory :=
  if h.frames.contains f then h else h.addFrame f url none

/-- The ids of a frame's list. -/
def idsOf (h : SessionHistory) (f : FrameId) : List EntryId := (h.frames.get? f).getD []

theorem mem_idsOf {f : FrameId} {i : EntryId} :
    i ∈ h.idsOf f ↔ ∃ ids, h.frames.get? f = some ids ∧ i ∈ ids := by
  unfold idsOf
  cases h.frames.get? f <;> simp

theorem mem_idsOf_of_activeEntryAt {step : Nat} (hact : h.activeEntryAt f step = some id) :
    id ∈ h.idsOf f := by
  obtain ⟨ids, hids, hid⟩ := Option.bind_eq_some_iff.1 hact
  refine mem_idsOf.2 ⟨ids, hids, ?_⟩
  rcases Option.or_eq_some_iff.1 hid with hfind | ⟨-, hhead⟩
  · exact List.mem_reverse.1 (List.mem_of_find?_eq_some hfind)
  · exact List.mem_of_head? hhead

theorem mem_idsOf_of_replaceTarget {localIndex : Nat} {current target : EntryId}
    (hc : h.activeEntry f = some current)
    (ht : h.replaceTarget f localIndex current = some target) : target ∈ h.idsOf f := by
  unfold replaceTarget at ht
  split_ifs at ht
  · obtain ⟨ids, hids, hmem⟩ := Option.bind_eq_some_iff.1 ht
    exact mem_idsOf.2 ⟨ids, hids, List.mem_of_getElem? hmem⟩
  · rw [← Option.some.inj ht]
    exact mem_idsOf_of_activeEntryAt hc

/-- The pending changes `p` that a navigation of `f` may leave: those of `h`, with that of `f` dropped
or staged. A staged replacement names an entry of `f`. -/
def Staged (h : SessionHistory) (f : FrameId) (p : Dict FrameId PendingChange) : Prop :=
  ∀ g c, p.get? g = some c → h.pending.get? g = some c ∨
    g = f ∧ ∀ target name, c = .replace target name → target ∈ h.idsOf f

/-- What `begin` leaves: nothing done, a frame with a new pending change, a replaced entry or a
pushed one. -/
theorem begin_cases (url : Url) (replace : Bool) (localIndex : Nat) (name : Option ContextName)
    (pending : Bool) :
    (h.begin f url replace localIndex name pending).2 = h ∨
    f ≠ FrameId.main ∧ ∃ p, (h.withFrame f url).Staged f p ∧
      let h' := { h.withFrame f url with pending := p }
      (h.begin f url replace localIndex name pending).2 = h' ∨
      (∃ target ∈ (h.withFrame f url).idsOf f,
        (h.begin f url replace localIndex name pending).2 = h'.replaceEntry target url name) ∨
      (pending = false ∧ (replace = false ∨ (h.withFrame f url).activeEntry f = none)) ∧
        (h.begin f url replace localIndex name pending).2 =
          (h'.pushStep f (fun _ => localIndex) url name none).2 := by
  by_cases hf : f = FrameId.main
  · exact .inl (by simp [SessionHistory.begin, hf])
  refine .inr ⟨hf, ?_⟩
  simp only [SessionHistory.begin, if_neg hf]
  rw [show (if h.frames.contains f then h else h.addFrame f url none) = h.withFrame f url from rfl]
  have hsame : (h.withFrame f url).Staged f (h.withFrame f url).pending := fun g c hg => .inl hg
  cases pending with
  | true =>
    simp only [↓reduceIte]
    split
    · exact ⟨_, hsame, .inl rfl⟩
    · rename_i change hchange
      refine ⟨_, fun g c hg => ?_, .inl rfl⟩
      rw [Dict.get?_insert] at hg
      split_ifs at hg with hgf
      · refine .inr ⟨hgf, fun target name' hc => ?_⟩
        obtain rfl := Option.some.inj hg
        subst hc
        split_ifs at hchange with hr
        · obtain ⟨t, ht, heq⟩ := Option.map_eq_some_iff.1 hchange
          obtain ⟨current, hcur, hcur'⟩ := Option.bind_eq_some_iff.1 ht
          obtain ⟨rfl, -⟩ := PendingChange.replace.inj heq
          exact mem_idsOf_of_replaceTarget hcur hcur'
        · simp at hchange
      · exact .inl hg
  | false =>
    simp only [Bool.false_eq_true, ↓reduceIte]
    have hdrop : (h.withFrame f url).Staged f ((h.withFrame f url).pending.erase f) := by
      intro g c hg
      rw [Dict.get?_erase] at hg
      split_ifs at hg
      exact .inl hg
    refine ⟨(h.withFrame f url).pending.erase f, hdrop, ?_⟩
    split
    · rename_i current hcur
      split
      · exact .inl rfl
      · rename_i target ht
        exact .inr (.inl ⟨target, mem_idsOf_of_replaceTarget hcur ht, rfl⟩)
    · rename_i hnot
      refine .inr (.inr ⟨⟨trivial, ?_⟩, rfl⟩)
      by_contra hno
      rw [not_or, Bool.not_eq_false] at hno
      obtain ⟨id, hact⟩ := Option.ne_none_iff_exists'.1 hno.2
      exact hnot id hno.1 hact

theorem Inv.withFrame (hi : h.Inv) {url : Url} (hfit : (h.withFrame f url).Fits) :
    (h.withFrame f url).Inv := by
  unfold SessionHistory.withFrame at hfit ⊢
  split_ifs at hfit ⊢
  · exact hi
  · exact hi.addFrame hfit

theorem Fits.of_withFrame {url : Url} (hfit : (h.withFrame f url).Fits) : h.Fits := by
  unfold SessionHistory.withFrame at hfit
  split_ifs at hfit
  · exact hfit
  · exact hfit.of_addFrame

theorem Inv.setPending (hi : h.Inv) (p : Dict FrameId PendingChange) :
    Inv { h with pending := p } := ⟨hi.slots, hi.docs⟩

theorem Fits.of_setPending {p : Dict FrameId PendingChange} (hfit : Fits { h with pending := p }) :
    h.Fits := ⟨hfit.entry, hfit.document⟩

section
variable {url : Url} {replace : Bool} {localIndex : Nat} {name : Option ContextName} {pending : Bool}

theorem Fits.of_begin (hfit : (h.begin f url replace localIndex name pending).2.Fits) : h.Fits := by
  rcases begin_cases (h := h) (f := f) url replace localIndex name pending with
    heq | ⟨-, p, -, heq | ⟨target, -, heq⟩ | ⟨-, heq⟩⟩
  · exact heq ▸ hfit
  · exact (heq ▸ hfit : Fits { h.withFrame f url with pending := p }).of_setPending.of_withFrame
  · rw [heq] at hfit
    exact hfit.of_replaceEntry.of_setPending.of_withFrame
  · rw [heq] at hfit
    exact hfit.of_pushStep.of_setPending.of_withFrame

theorem Inv.begin (hi : h.Inv) (hfit : (h.begin f url replace localIndex name pending).2.Fits) :
    (h.begin f url replace localIndex name pending).2.Inv := by
  rcases begin_cases (h := h) (f := f) url replace localIndex name pending with
    heq | ⟨hf, p, -, heq | ⟨target, -, heq⟩ | ⟨-, heq⟩⟩
  · rw [heq]
    exact hi
  · rw [heq] at hfit ⊢
    exact (hi.withFrame hfit.of_setPending).setPending p
  · rw [heq] at hfit ⊢
    exact ((hi.withFrame hfit.of_replaceEntry.of_setPending).setPending p).replaceEntry hfit
  · rw [heq] at hfit ⊢
    exact ((hi.withFrame hfit.of_pushStep.of_setPending).setPending p).pushStep hfit
      fun h0 => absurd h0 hf

end

/-- What `commitUrl` does: a pending push or replacement, or a new URL for the active entry. -/
theorem commitUrl_cases (url : Url) : h.commitUrl f url = h ∨
    (∃ id, h.activeEntry f = some id ∧
      h.commitUrl f url = h.modifyEntry id fun e => { e with url }) ∨
    (∃ id name, h.pending.get? f = some (.replace id name) ∧ h.commitUrl f url =
      { h with pending := h.pending.erase f }.replaceEntry id url name) ∨
    ∃ name, h.pending.get? f = some (.push name) ∧ h.commitUrl f url =
      ({ h with pending := h.pending.erase f }.pushStep f (·.frameLen f) url name none).2 := by
  unfold commitUrl
  split
  · rename_i change hp
    cases change with
    | push name => exact .inr (.inr (.inr ⟨name, hp, rfl⟩))
    | replace entry name => exact .inr (.inr (.inl ⟨entry, name, hp, rfl⟩))
  · split
    · exact .inl rfl
    · rename_i id hact
      exact .inr (.inl ⟨id, hact, rfl⟩)

theorem Fits.of_commitUrl {url : Url} (hfit : (h.commitUrl f url).Fits) : h.Fits := by
  rcases commitUrl_cases (h := h) (f := f) url with
    heq | ⟨id, -, heq⟩ | ⟨id, name, -, heq⟩ | ⟨name, -, heq⟩
  · exact heq ▸ hfit
  · rw [heq] at hfit
    exact ⟨hfit.entry, hfit.document⟩
  · rw [heq] at hfit
    exact hfit.of_replaceEntry.of_setPending
  · rw [heq] at hfit
    exact hfit.of_pushStep.of_setPending

theorem Inv.commitUrl (hi : h.Inv) {url : Url} (hfit : (h.commitUrl f url).Fits) :
    (h.commitUrl f url).Inv := by
  rcases commitUrl_cases (h := h) (f := f) url with
    heq | ⟨id, -, heq⟩ | ⟨id, name, -, heq⟩ | ⟨name, -, heq⟩
  · rw [heq]
    exact hi
  · rw [heq]
    exact hi.modifyEntry (fun _ => rfl) (fun _ => rfl)
  · rw [heq] at hfit ⊢
    exact (hi.setPending _).replaceEntry hfit
  · rw [heq] at hfit ⊢
    exact (hi.setPending _).pushStep hfit fun hf h' => by rw [hf]

theorem Inv.syncCurrentName (hi : h.Inv) (name : Option ContextName) :
    (h.syncCurrentName name).Inv := by
  unfold SessionHistory.syncCurrentName
  split
  · exact hi
  · rename_i e hact
    obtain ⟨id, -, hl⟩ := Option.bind_eq_some_iff.1 hact
    have hdoc : e.document ∈ h.documents := List.mem_map_of_mem (locate_spec hl).1
    cases name with
    | none =>
      refine ⟨hi.slots, hi.docs.lt, fun d hd => ?_⟩
      exact hi.docs.live d ((Dict.mem_keys_erase _ _ _).1 hd).2
    | some name =>
      refine ⟨hi.slots, hi.docs.lt, fun d hd => ?_⟩
      rcases (Dict.mem_keys_insert _ _ _ _).1 hd with rfl | hd
      · exact hdoc
      · exact hi.docs.live d hd

theorem entries_modifyEntry_pushStep (hi : h.Inv) (f : FrameId) (localIndex : SessionHistory → Nat)
    (url : Url) (state : Option Text) {k : Entry → Entry} :
    ((h.pushStep f localIndex url none state).2.modifyEntry h.nextEntry k).entries =
      h.truncateForward.entries ++ [k (h.pushedEntry localIndex url state)] := by
  rw [SessionHistory.modifyEntry, entries_pushStep]
  refine modify_findIdx_concat (e := h.pushedEntry localIndex url state) fun x hx => ?_
  exact Nat.ne_of_lt (hi.id_lt (List.mem_filter.1 hx).1)

/-- What a same-document push leaves: the pushed entry shares the document state of the entry it was
pushed from. -/
theorem Inv.sharedPush (hi : h.Inv) (he : e ∈ h.entries) {localIndex : SessionHistory → Nat}
    {url : Url} {state : Option Text} {title : Text}
    (hfit : (h.pushStep f localIndex url none state).2.Fits)
    (hmain : f = FrameId.main → ∀ h', localIndex h' = h'.frameLen FrameId.main) :
    ((h.pushStep f localIndex url none state).2.modifyEntry h.nextEntry
      fun e' => { e' with document := e.document, title }).Inv := by
  have hp := hi.pushStep hfit hmain
  have hsucc := saturatingSucc_eq (nextDocument_pushStep _ _ _ _ ▸ hfit.document)
  have hentries := entries_modifyEntry_pushStep hi f localIndex url state
    (k := fun e' => { e' with document := e.document, title })
  refine ⟨?_, fun d hd => ?_, fun d hd => ?_⟩
  · have hslots : ((h.pushStep f localIndex url none state).2.modifyEntry h.nextEntry
        fun e' => { e' with document := e.document, title }).slots =
        (h.pushStep f localIndex url none state).2.slots := slots_modifyEntry fun _ => rfl
    rw [hslots]
    exact hp.slots
  · show d < (h.pushStep f localIndex url none state).2.nextDocument
    rw [nextDocument_pushStep, hsucc]
    rw [documents, hentries, List.map_append, List.mem_append] at hd
    rcases hd with hd | hd
    · exact Nat.lt_succ_of_lt (hi.truncateForward.docs.lt d hd)
    · obtain rfl : d = e.document := by simpa using hd
      exact Nat.lt_succ_of_lt (hi.docs.lt _ (List.mem_map_of_mem he))
  · rw [documents, hentries, List.map_append, List.mem_append]
    exact .inl (hi.truncateForward.docs.live d hd)

/-- What `update` does: nothing, a rewritten entry, or a push that shares a document state. -/
theorem update_cases (url : Url) (state : Text) (handling : HistoryHandling) :
    h.update f url state handling = h ∨
    (∃ id, h.activeEntry f = some id ∧ handling = .replace ∧ h.update f url state handling =
      h.modifyEntry id fun e => { e with url, state := some state }) ∨
    ∃ e ∈ h.entries, h.activeEntry f = some e.id ∧ handling = .push ∧
      h.update f url state handling =
        (h.pushStep f (·.frameLen f) url none (some state)).2.modifyEntry h.nextEntry
          fun e' => { e' with document := e.document, title := e.title } := by
  unfold update
  split
  · exact .inl rfl
  · rename_i id hact
    cases handling with
    | replace => exact .inr (.inl ⟨id, hact, rfl, rfl⟩)
    | push =>
      simp only
      split
      · exact .inl rfl
      · rename_i e hl
        obtain ⟨he, rfl⟩ := locate_spec hl
        refine .inr (.inr ⟨e, he, hact, trivial, ?_⟩)
        rw [fst_pushStep]

section
variable {url : Url} {state : Text} {handling : HistoryHandling}

theorem Fits.of_update (hfit : (h.update f url state handling).Fits) : h.Fits := by
  rcases update_cases (h := h) (f := f) url state handling with
    heq | ⟨id, -, -, heq⟩ | ⟨e, -, -, -, heq⟩
  · exact heq ▸ hfit
  · rw [heq] at hfit
    exact ⟨hfit.entry, hfit.document⟩
  · rw [heq] at hfit
    have hfit' : (h.pushStep f (·.frameLen f) url none (some state)).2.Fits :=
      ⟨hfit.entry, hfit.document⟩
    exact hfit'.of_pushStep

theorem Inv.update (hi : h.Inv) (hfit : (h.update f url state handling).Fits) :
    (h.update f url state handling).Inv := by
  rcases update_cases (h := h) (f := f) url state handling with
    heq | ⟨id, -, -, heq⟩ | ⟨e, he, -, -, heq⟩
  · rw [heq]
    exact hi
  · rw [heq]
    exact hi.modifyEntry (fun _ => rfl) (fun _ => rfl)
  · rw [heq] at hfit ⊢
    exact hi.sharedPush he ⟨hfit.entry, hfit.document⟩ fun hf h' => by rw [hf]

end

theorem commit_traverse (url : Url) : h.commit (.traverse id url) = match h.locate id with
    | none => (false, h)
    | some old => (true, { h.redocument id (fun n e => { e with url, document := n })
        (h.names.get? old.document) old with currentStep := old.step }) := rfl

theorem Fits.of_commit {c : Commit} (hfit : (h.commit c).2.Fits) : h.Fits := by
  cases c with
  | push url name =>
    have hfit : (h.pushStep FrameId.main (·.frameLen FrameId.main) url name none).2.Fits := hfit
    exact hfit.of_pushStep
  | traverse id url =>
    rw [commit_traverse] at hfit
    split at hfit
    · exact hfit
    · rename_i old hl
      have hfit' : (h.redocument id (fun n e => { e with url, document := n })
        (h.names.get? old.document) old).Fits := ⟨hfit.entry, hfit.document⟩
      exact hfit'.of_redocument

theorem Inv.commit (hi : h.Inv) {c : Commit} (hfit : (h.commit c).2.Fits) : (h.commit c).2.Inv := by
  cases c with
  | push url name =>
    have hfit : (h.pushStep FrameId.main (·.frameLen FrameId.main) url name none).2.Fits := hfit
    exact hi.pushStep hfit fun _ _ => rfl
  | traverse id url =>
    rw [commit_traverse] at hfit ⊢
    split at hfit
    · exact hi
    · rename_i old hl
      refine (hi.redocument (k := fun n e => { e with url, document := n }) hl (fun _ _ => rfl)
        (fun _ _ => rfl) ⟨hfit.entry, hfit.document⟩).setStep ?_
      rw [nextEntry_redocument]
      exact hi.step_lt (locate_spec hl).1

theorem Inv.traverseSameDocument (hi : h.Inv) : (h.traverseSameDocument id).2.Inv := by
  unfold SessionHistory.traverseSameDocument
  split
  · exact hi
  · rename_i e hl
    exact hi.setStep (hi.step_lt (locate_spec hl).1)

end SessionHistory

end TinyBrowser
