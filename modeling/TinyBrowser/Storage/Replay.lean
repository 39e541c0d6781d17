import TinyBrowser.Storage.Local

/-!
# The changes of a storage area

A mutation of an area answers with what it changed. `target` is what an operation asks for, `Lawful`
what it does and answers, and `replay_run` says that the changes of a run, checked against the old
values one after the other, turn a copy of the first area into the last.
-/

namespace TinyBrowser
open Lib

inductive StorageOp where
  | set (key value : Text)
  | remove (key : Text)
  | clear

namespace Entries
variable {entries : Entries} {key value : Text}

/-- The entries with the value of `key` replaced where it stands, or with a new entry at the end. -/
def withValue (key value : Text) (entries : Entries) : Entries :=
  if key ∈ entries.keys then entries.map fun e => if e.1 = key then (key, value) else e
  else entries ++ [(key, value)]

theorem map_replace_of_not_mem (h : key ∉ entries.keys) :
    (entries.map fun e => if e.1 = key then (key, value) else e) = entries := by
  refine (List.map_congr_left fun e he => ?_).trans (List.map_id _)
  exact if_neg fun hkey : e.1 = key => h (hkey ▸ List.mem_map_of_mem he)

theorem store_eq (h : entries.keys.Nodup) : store key value entries = withValue key value entries := by
  unfold withValue
  split_ifs with hmem
  · induction entries with
    | nil => cases hmem
    | cons e entries ih =>
      obtain ⟨k, v⟩ := e
      obtain ⟨hk, hrest⟩ := List.nodup_cons.1 (show (k :: keys entries).Nodup from h)
      by_cases heq : k = key
      · rw [store, if_pos heq, List.map_cons, if_pos heq, map_replace_of_not_mem (heq ▸ hk)]
      · have hmem' : key ∈ keys entries := (List.mem_cons.1 hmem).resolve_left (Ne.symm heq)
        rw [store, if_neg heq, List.map_cons, if_neg heq, ih hrest hmem']
  · exact store_of_not_mem value hmem

theorem mem_withValue (key value : Text) (entries : Entries) :
    (key, value) ∈ withValue key value entries := by
  unfold withValue
  split_ifs with hmem
  · obtain ⟨e, he, hkey⟩ := List.mem_map.1 hmem
    exact List.mem_map.2 ⟨e, he, if_pos hkey⟩
  · exact List.mem_append_right _ (List.mem_singleton_self _)

theorem withValue_of_get (h : entries.keys.Nodup) (hget : entries.get key = some value) :
    withValue key value entries = entries := by
  have hmem := (get_eq_some h).1 hget
  have hkey : key ∈ entries.keys := List.mem_map_of_mem (f := Prod.fst) hmem
  rw [withValue, if_pos hkey]
  refine (List.map_congr_left fun e he => ?_).trans (List.map_id _)
  split_ifs with hkey
  · have hold : entries.get key = some e.2 := (get_eq_some h).2 (hkey ▸ he)
    rw [hget, Option.some.injEq] at hold
    rw [hold, ← hkey]
    rfl
  · rfl

theorem replaced_le_used (entries : Entries) (key : Text) :
    (entries.get key).elim 0 (fun old => key.len + old.len) ≤ entries.used := by
  cases hget : entries.get key with
  | none => exact Nat.zero_le _
  | some old =>
    obtain ⟨e, hfind, hold⟩ := Option.map_eq_some_iff.1 hget
    have hkey : e.1 = key := by simpa using List.find?_some hfind
    have hle : e.1.len + e.2.len ≤ entries.used :=
      List.le_sum_of_mem (List.mem_map_of_mem (List.mem_of_find?_eq_some hfind))
    rwa [hkey, hold] at hle

theorem eraseP_eq_filter (h : entries.keys.Nodup) :
    (entries.eraseP fun e => e.1 = key) = entries.filter fun e => e.1 ≠ key := by
  induction entries with
  | nil => rfl
  | cons e entries ih =>
    obtain ⟨hk, hrest⟩ := List.nodup_cons.1 (show (e.1 :: keys entries).Nodup from h)
    by_cases heq : e.1 = key
    · rw [List.eraseP_cons_of_pos (by simpa using heq), List.filter_cons_of_neg (by simpa using heq)]
      refine (List.filter_eq_self.2 fun e' he' => ?_).symm
      refine decide_eq_true (show ¬ e'.1 = key from fun heq' => hk ?_)
      exact (heq.trans heq'.symm) ▸ List.mem_map_of_mem he'
    · rw [List.eraseP_cons_of_neg (by simpa using heq), List.filter_cons_of_pos (by simpa using heq),
        ih hrest]

end Entries

/-- The entries an operation asks for. -/
def StorageOp.target (entries : Entries) : StorageOp → Entries
  | .set key value => entries.withValue key value
  | .remove key => entries.filter fun e => e.1 ≠ key
  | .clear => []

/-- The operation that a change tells of. -/
def StorageChange.op (change : StorageChange) : StorageOp :=
  match change.key, change.newValue with
  | some key, some value => .set key value
  | some key, none => .remove key
  | none, _ => .clear

namespace StorageArea
variable {area area' : StorageArea} {op : StorageOp} {change : StorageChange}

abbrev Outcome := Except StorageError (Option StorageChange)

def apply (area : StorageArea) : StorageOp → Outcome × StorageArea
  | .set key value => area.set key value
  | .remove key => match area.remove key with
    | some (change, area) => (.ok (some change), area)
    | none => (.ok none, area)
  | .clear => match area.clear with
    | some (change, area) => (.ok (some change), area)
    | none => (.ok none, area)

/-- What each operation answers, in order, and the area it leaves. -/
def run : StorageArea → List StorageOp → List Outcome × StorageArea
  | area, [] => ([], area)
  | area, op :: ops =>
    let (outcome, area) := area.apply op
    let (outcomes, area) := area.run ops
    (outcome :: outcomes, area)

def changes (outcomes : List Outcome) : List StorageChange :=
  outcomes.filterMap fun
    | .ok change => change
    | .error _ => none

/-- Does again what a change tells, if the old value is the one it names. -/
def replayChange (area : StorageArea) (change : StorageChange) : Option StorageArea :=
  if change.key.bind area.get = change.oldValue then
    match area.apply change.op with
    | (.ok _, area) => some area
    | (.error _, _) => none
  else none

def replay (area : StorageArea) (changes : List StorageChange) : Option StorageArea :=
  changes.foldlM replayChange area

/-! ### One operation -/

/-- What an operation does to an area and answers. -/
structure Lawful (area : StorageArea) (op : StorageOp) : Prop where
  failed : (area.apply op).1 = .error .quotaExceeded ↔
    storageQuotaBytes < (op.target area.entries).used
  unchanged : (area.apply op).1 = .error .quotaExceeded → (area.apply op).2 = area
  entries : (area.apply op).1 ≠ .error .quotaExceeded →
    (area.apply op).2.entries = op.target area.entries
  silent : (area.apply op).1 ≠ .error .quotaExceeded →
    ((area.apply op).1 = .ok none ↔ (area.apply op).2 = area)
  again : ∀ change, (area.apply op).1 = .ok (some change) →
    area.replayChange change = some (area.apply op).2

theorem used_withValue (area : StorageArea) (key value : Text) :
    (area.entries.withValue key value).used =
      area.entries.used - (area.get key).elim 0 (fun old => key.len + old.len) + key.len +
        value.len := by
  have hused := Entries.used_store key value area.entries
  have hle : (area.get key).elim 0 (fun old => key.len + old.len) ≤ area.entries.used :=
    Entries.replaced_le_used area.entries key
  rw [Entries.store_eq area.nodup] at hused
  rw [get] at hle ⊢
  omega

theorem set_cases (area : StorageArea) (key value : Text) :
    (area.get key = some value ∧ area.set key value = (.ok none, area)) ∨
    area.get key ≠ some value ∧
      ((storageQuotaBytes < (area.entries.withValue key value).used ∧
          area.set key value = (.error .quotaExceeded, area)) ∨
        ((area.entries.withValue key value).used ≤ storageQuotaBytes ∧
          ∃ area', area'.entries = area.entries.withValue key value ∧
            area.set key value = (.ok (some ⟨some key, area.get key, some value⟩), area'))) := by
  rw [used_withValue]
  by_cases hold : area.get key = some value
  · exact .inl ⟨hold, if_pos hold⟩
  · refine .inr ⟨hold, ?_⟩
    simp only [set, if_neg hold]
    split_ifs with hquota
    · exact .inl ⟨hquota, rfl⟩
    · exact .inr ⟨Nat.not_lt.1 hquota, _, Entries.store_eq area.nodup, rfl⟩

theorem target_le (h : op.target area.entries = area.entries) :
    ¬ storageQuotaBytes < (op.target area.entries).used := by
  rw [h]
  exact Nat.not_lt.2 area.quota

theorem lawful_of_silent (happly : area.apply op = (.ok none, area))
    (htarget : op.target area.entries = area.entries) : area.Lawful op := by
  refine ⟨?_, fun _ => ?_, fun _ => ?_, fun _ => ?_, fun change hchange => ?_⟩
  · rw [happly]
    exact iff_of_false nofun (target_le htarget)
  · rw [happly]
  · rw [happly, htarget]
  · rw [happly]
    exact iff_of_true rfl rfl
  · rw [happly] at hchange
    cases hchange

theorem lawful_of_change (happly : area.apply op = (.ok (some change), area'))
    (htarget : area'.entries = op.target area.entries) (hne : area'.entries ≠ area.entries)
    (hop : change.op = op) (hold : change.key.bind area.get = change.oldValue) : area.Lawful op := by
  refine ⟨?_, fun herror => ?_, fun _ => ?_, fun _ => ?_, fun c hc => ?_⟩
  · rw [happly, ← htarget]
    exact iff_of_false nofun (Nat.not_lt.2 area'.quota)
  · rw [happly] at herror
    cases herror
  · rw [happly, htarget]
  · rw [happly]
    exact iff_of_false nofun fun heq => hne (congrArg StorageArea.entries heq)
  · rw [happly] at hc ⊢
    obtain rfl : change = c := Option.some.inj (Except.ok.inj hc)
    rw [replayChange, if_pos hold, hop, happly]

theorem lawful_set (area : StorageArea) (key value : Text) : area.Lawful (.set key value) := by
  rcases set_cases area key value with
    ⟨hold, hset⟩ | ⟨hold, ⟨hquota, hset⟩ | ⟨hquota, area', hentries, hset⟩⟩
  · exact lawful_of_silent hset (Entries.withValue_of_get area.nodup hold)
  · have happly : area.apply (.set key value) = (.error .quotaExceeded, area) := hset
    refine ⟨?_, fun _ => ?_, fun hne => ?_, fun hne => ?_, fun change hchange => ?_⟩
    · rw [happly]
      exact iff_of_true rfl hquota
    · rw [happly]
    · rw [happly] at hne
      exact absurd rfl hne
    · rw [happly] at hne
      exact absurd rfl hne
    · rw [happly] at hchange
      cases hchange
  · refine lawful_of_change hset hentries (fun heq => hold ?_) rfl rfl
    have hmem : (key, value) ∈ area'.entries := hentries ▸ Entries.mem_withValue key value area.entries
    exact (Entries.get_eq_some area.nodup).2 (heq ▸ hmem)

theorem lawful_remove (area : StorageArea) (key : Text) : area.Lawful (.remove key) := by
  have htarget : (area.entries.eraseP fun e => e.1 = key) = _ :=
    Entries.eraseP_eq_filter area.nodup
  cases hget : area.get key with
  | none =>
    refine lawful_of_silent (by simp only [apply, remove, hget, Option.map_none]) ?_
    refine List.filter_eq_self.2 fun e he => decide_eq_true fun hkey => ?_
    exact Entries.get_eq_none.1 hget (hkey ▸ List.mem_map_of_mem he)
  | some old =>
    obtain ⟨area', hentries, happly⟩ : ∃ area',
        area'.entries = (area.entries.eraseP fun e => e.1 = key) ∧
          area.apply (.remove key) = (.ok (some ⟨some key, some old, none⟩), area') := by
      simp only [apply, remove, hget, Option.map_some]
      exact ⟨_, rfl, rfl⟩
    refine lawful_of_change happly (hentries.trans htarget) (fun heq => ?_) rfl hget
    have hmem : (key, old) ∈ area.entries := (Entries.get_eq_some area.nodup).1 hget
    have hfilter : (key, old) ∈ area.entries.filter fun e => e.1 ≠ key := by
      rw [← htarget, ← hentries, heq]
      exact hmem
    exact of_decide_eq_true (List.mem_filter.1 hfilter).2 rfl

theorem lawful_clear (area : StorageArea) : area.Lawful .clear := by
  by_cases hnil : area.entries = []
  · exact lawful_of_silent (by simp only [apply, clear, if_pos hnil]) hnil.symm
  · have happly : area.apply .clear = (.ok (some ⟨none, none, none⟩), empty) := by
      simp only [apply, clear, if_neg hnil]
    exact lawful_of_change happly rfl (Ne.symm hnil) rfl rfl

theorem lawful (area : StorageArea) (op : StorageOp) : area.Lawful op := by
  cases op with
  | set key value => exact lawful_set area key value
  | remove key => exact lawful_remove area key
  | clear => exact lawful_clear area

/-! ### Runs -/

theorem replay_apply (area : StorageArea) (op : StorageOp) (more : List StorageChange) :
    area.replay (changes [(area.apply op).1] ++ more) = (area.apply op).2.replay more := by
  have hlaw := lawful area op
  cases houtcome : (area.apply op).1 with
  | error e =>
    cases e
    rw [hlaw.unchanged houtcome]
    rfl
  | ok change =>
    have hok : (area.apply op).1 ≠ .error .quotaExceeded := by
      rw [houtcome]
      nofun
    cases change with
    | none =>
      rw [(hlaw.silent hok).1 houtcome]
      rfl
    | some change =>
      have hreplay := hlaw.again change houtcome
      show ((area.replayChange change).bind fun area => area.replay more) = _
      rw [hreplay, Option.bind_some]

theorem replay_run (area : StorageArea) (ops : List StorageOp) :
    area.replay (changes (area.run ops).1) = some (area.run ops).2 := by
  induction ops generalizing area with
  | nil => rfl
  | cons op ops ih =>
    have hsplit : changes (area.run (op :: ops)).1 =
        changes [(area.apply op).1] ++ changes ((area.apply op).2.run ops).1 :=
      List.filterMap_append (l := [(area.apply op).1]) ..
    rw [hsplit, replay_apply, ih]
    rfl

/-- An area that operations reach from the empty one: its keys are distinct and its bytes within the
quota, a store's subtraction does not wrap, each operation is lawful, and the changes of what comes
next lead to the area it leaves. -/
theorem laws_of_run (ops : List StorageOp) :
    let area := (empty.run ops).2
    area.keys.Nodup ∧ area.entries.used ≤ storageQuotaBytes ∧
    (∀ key, (area.get key).elim 0 (fun old => key.len + old.len) ≤ area.entries.used) ∧
    (∀ op, area.Lawful op) ∧
    ∀ next, area.replay (changes (area.run next).1) = some (area.run next).2 := by
  intro area
  exact ⟨area.nodup, area.quota, Entries.replaced_le_used area.entries, lawful area, replay_run area⟩

/-- A value replaced in place, the same value again, and a key removed. -/
example : (empty.run [.set "a".toList "1".toList, .set "b".toList "2".toList,
    .set "a".toList "3".toList, .set "a".toList "3".toList, .remove "b".toList]).1.map
      (fun outcome => changes [outcome]) =
    [[⟨some "a".toList, none, some "1".toList⟩], [⟨some "b".toList, none, some "2".toList⟩],
      [⟨some "a".toList, some "1".toList, some "3".toList⟩], [],
      [⟨some "b".toList, some "2".toList, none⟩]] := by decide

end StorageArea

end TinyBrowser
