import TinyBrowser.Storage.Areas

/-!
# The browser's storage

`SessionStorage` keeps the areas of each top-level browsing context, `LocalStorage` those of the
profile. Each mutation of the latter changes the areas under their lock and sets the dirty flag after
it, so it is given in two parts. `LocalStorage.exportRows` lists the entries in order and
`LocalStorage.importRows` stores them again one by one: `get_importRows_exportRows` says that nothing is
lost on the way.
-/

namespace TinyBrowser
open Lib

abbrev Areas := Dict StorageKey StorageArea

namespace Areas

def get (areas : Areas) (origin : StorageKey) (key : Text) : Option Text :=
  (areas.get? origin).bind (·.get key)

/-- `areas.entry(origin).or_default()`. -/
def entry (areas : Areas) (origin : StorageKey) : StorageArea :=
  (areas.get? origin).getD StorageArea.empty

/-- The locked part of `LocalStorage::set`. -/
def set (areas : Areas) (origin : StorageKey) (key value : Text) :
    Except StorageError (Option StorageChange) × Areas :=
  let (change, area) := (areas.entry origin).set key value
  (change, areas.insert origin area)

/-- The locked part of `LocalStorage::remove`. -/
def remove (areas : Areas) (origin : StorageKey) (key : Text) : Option StorageChange × Areas :=
  match (areas.get? origin).bind (·.remove key) with
  | none => (none, areas)
  | some (change, area) => (some change, areas.insert origin area)

/-- The locked part of `LocalStorage::clear`. -/
def clear (areas : Areas) (origin : StorageKey) : Option StorageChange × Areas :=
  match (areas.get? origin).bind (·.clear) with
  | none => (none, areas)
  | some (change, area) => (some change, areas.insert origin area)

end Areas

structure LocalStorage where
  areas : Areas
  dirty : Bool
deriving DecidableEq

abbrev Row := Text × Text × Text

/-- The order of `sort` on rows: by origin, then key, then value, each by code points. -/
def rowLe (a b : Row) : Bool :=
  toLex (a.1, toLex (a.2.1, a.2.2)) ≤ toLex (b.1, toLex (b.2.1, b.2.2))

namespace LocalStorage

def default : LocalStorage := ⟨Dict.empty, false⟩

def get (storage : LocalStorage) (origin : StorageKey) (key : Text) : Option Text :=
  storage.areas.get origin key

def keys (storage : LocalStorage) (origin : StorageKey) : List Text :=
  (storage.areas.get? origin).elim [] (·.keys)

def set (storage : LocalStorage) (origin : StorageKey) (key value : Text) :
    Except StorageError (Option StorageChange) × LocalStorage :=
  match storage.areas.set origin key value with
  | (.ok (some change), areas) => (.ok (some change), ⟨areas, true⟩)
  | (unchanged, areas) => (unchanged, ⟨areas, storage.dirty⟩)

def remove (storage : LocalStorage) (origin : StorageKey) (key : Text) :
    Option StorageChange × LocalStorage :=
  match storage.areas.remove origin key with
  | (some change, areas) => (some change, ⟨areas, true⟩)
  | (none, areas) => (none, ⟨areas, storage.dirty⟩)

def clear (storage : LocalStorage) (origin : StorageKey) : Option StorageChange × LocalStorage :=
  match storage.areas.clear origin with
  | (some change, areas) => (some change, ⟨areas, true⟩)
  | (none, areas) => (none, ⟨areas, storage.dirty⟩)

def isDirty (storage : LocalStorage) : Bool := storage.dirty

def markClean (storage : LocalStorage) : LocalStorage := { storage with dirty := false }

/-- The rows of the areas in the order the map yields them. -/
def rows (x : NetCrates) (areas : Areas) : List Row :=
  areas.pairs.flatMap fun (origin, area) =>
    area.entries.map fun (key, value) => (origin.toText x, key, value)

def exportRows (x : NetCrates) (storage : LocalStorage) : List Row :=
  (rows x storage.areas).mergeSort rowLe

/-- Stores one row; a failed `set` leaves the area as it was. -/
def importRow (x : NetCrates) (areas : Areas) (row : Row) : Areas :=
  match StorageKey.parse x row.1 with
  | none => areas
  | some origin => (areas.set origin row.2.1 row.2.2).2

def importRows (x : NetCrates) (storage : LocalStorage) (rows : List Row) : LocalStorage :=
  { storage with areas := rows.foldl (importRow x) Dict.empty }

end LocalStorage

/-! ### Session storage -/

structure SessionStorage where
  namespaces : Dict TabId Areas
deriving DecidableEq

namespace SessionStorage

def get (sessions : SessionStorage) (tab : TabId) (origin : StorageKey) (key : Text) : Option Text :=
  (sessions.namespaces.get? tab).bind (·.get origin key)

def keys (sessions : SessionStorage) (tab : TabId) (origin : StorageKey) : List Text :=
  ((sessions.namespaces.get? tab).bind (·.get? origin)).elim [] (·.keys)

/-- Writes nothing for a tab without a namespace. -/
def set (sessions : SessionStorage) (tab : TabId) (origin : StorageKey) (key value : Text) :
    Except StorageError (Option StorageChange) × SessionStorage :=
  match sessions.namespaces.get? tab with
  | none => (.ok none, sessions)
  | some areas =>
    let (change, areas) := areas.set origin key value
    (change, ⟨sessions.namespaces.insert tab areas⟩)

def remove (sessions : SessionStorage) (tab : TabId) (origin : StorageKey) (key : Text) :
    Option StorageChange × SessionStorage :=
  match sessions.namespaces.get? tab with
  | none => (none, sessions)
  | some areas =>
    let (change, areas) := areas.remove origin key
    (change, ⟨sessions.namespaces.insert tab areas⟩)

def clear (sessions : SessionStorage) (tab : TabId) (origin : StorageKey) :
    Option StorageChange × SessionStorage :=
  match sessions.namespaces.get? tab with
  | none => (none, sessions)
  | some areas =>
    let (change, areas) := areas.clear origin
    (change, ⟨sessions.namespaces.insert tab areas⟩)

end SessionStorage

/-! ### Export and import -/

/-- A row whose origin is a storage key. -/
abbrev KeyedRow := StorageKey × Text × Text

/-- The entries that rows give one origin, in their order. -/
def entriesOf (origin : StorageKey) (rows : List KeyedRow) : Entries :=
  rows.filterMap fun row => if row.1 = origin then some row.2 else none

theorem entriesOf_append (origin : StorageKey) (rows rows' : List KeyedRow) :
    entriesOf origin (rows ++ rows') = entriesOf origin rows ++ entriesOf origin rows' :=
  List.filterMap_append ..

theorem entriesOf_perm {rows rows' : List KeyedRow} (h : List.Perm rows rows') (origin : StorageKey) :
    List.Perm (entriesOf origin rows) (entriesOf origin rows') := h.filterMap _

theorem entriesOf_map (origin origin' : StorageKey) (entries : Entries) :
    entriesOf origin (entries.map fun e => (origin', e)) = if origin' = origin then entries else [] := by
  unfold entriesOf
  rw [List.filterMap_map]
  split_ifs with h
  · simp [h]
  · simp [h]

namespace Areas

def keyedRows (areas : Areas) : List KeyedRow :=
  areas.pairs.flatMap fun (origin, area) => area.entries.map fun e => (origin, e)

theorem get_eq (areas : Areas) (origin : StorageKey) (key : Text) :
    areas.get origin key = (areas.entry origin).get key := by
  unfold get entry
  cases areas.get? origin <;> rfl

theorem entry_insert (areas : Areas) (origin origin' : StorageKey) (area : StorageArea) :
    entry (areas.insert origin area) origin' =
      if origin' = origin then area else areas.entry origin' := by
  unfold entry
  rw [Dict.get?_insert]
  split_ifs <;> rfl

theorem entriesOf_pairs (origin : StorageKey) (pairs : List (StorageKey × StorageArea))
    (h : (pairs.map Prod.fst).Nodup) :
    entriesOf origin (pairs.flatMap fun (o, area) => area.entries.map fun e => (o, e)) =
      (((pairs.find? fun p => p.1 = origin).map Prod.snd).getD StorageArea.empty).entries := by
  induction pairs with
  | nil => rfl
  | cons p pairs ih =>
    obtain ⟨o, area⟩ := p
    rw [List.map_cons, List.nodup_cons] at h
    rw [List.flatMap_cons, entriesOf_append, ih h.2, entriesOf_map]
    by_cases ho : o = origin
    · have hnone : pairs.find? (fun p => p.1 = origin) = none := by
        rw [List.find?_eq_none]
        intro p hp hpo
        rw [decide_eq_true_eq] at hpo
        exact h.1 (List.mem_map.mpr ⟨p, hp, hpo.trans ho.symm⟩)
      rw [if_pos ho, hnone, List.find?_cons_of_pos (by simpa using ho)]
      exact List.append_nil _
    · rw [if_neg ho, List.find?_cons_of_neg (by simpa using ho)]
      rfl

theorem entriesOf_keyedRows (areas : Areas) (origin : StorageKey) :
    entriesOf origin areas.keyedRows = (areas.entry origin).entries :=
  entriesOf_pairs origin areas.pairs areas.nodup

/-- A key that is not there yet and fits the quota is appended. -/
theorem entry_set_new {areas : Areas} {origin : StorageKey} {key value : Text}
    (hnew : key ∉ (areas.entry origin).entries.keys)
    (hfits : (areas.entry origin).entries.used + (key.len + value.len) ≤ storageQuotaBytes)
    (origin' : StorageKey) :
    ((areas.set origin key value).2.entry origin').entries =
      (areas.entry origin').entries ++ if origin' = origin then [(key, value)] else [] := by
  have hold : (areas.entry origin).get key = none := Entries.get_eq_none.mpr hnew
  have hset : ((areas.entry origin).set key value).2.entries =
      (areas.entry origin).entries ++ [(key, value)] := by
    unfold StorageArea.set
    dsimp only
    split_ifs with hsame hover
    · rw [hold] at hsame; cases hsame
    · rw [hold, Option.elim_none] at hover; omega
    · exact Entries.store_of_not_mem value hnew
  show (entry (areas.insert origin _) origin').entries = _
  rw [entry_insert]
  split_ifs with h
  · rw [h]; exact hset
  · exact (List.append_nil _).symm

/-- `importRow` with the origin already parsed. -/
def storeRow (areas : Areas) (row : KeyedRow) : Areas := (areas.set row.1 row.2.1 row.2.2).2

/-- Rows that name each key of an origin once and fit the quota are all stored. -/
theorem entry_storeRows (rows : List KeyedRow)
    (hnodup : ∀ origin, (entriesOf origin rows).keys.Nodup)
    (hquota : ∀ origin, (entriesOf origin rows).used ≤ storageQuotaBytes) (origin : StorageKey) :
    ((rows.foldl storeRow Dict.empty).entry origin).entries = entriesOf origin rows := by
  induction rows using List.reverseRecOn generalizing origin with
  | nil => rfl
  | append_singleton rows row ih =>
    obtain ⟨o, key, value⟩ := row
    have hlast : ∀ origin, entriesOf origin [(o, key, value)] =
        if o = origin then [(key, value)] else [] :=
      fun origin => entriesOf_map origin o [(key, value)]
    have hfirst := ih
      (fun origin => by
        have h := hnodup origin
        rw [entriesOf_append, Entries.keys, List.map_append] at h
        exact h.of_append_left)
      (fun origin => by
        have h := hquota origin
        rw [entriesOf_append, Entries.used_append] at h
        omega)
    have hnew : key ∉ ((rows.foldl storeRow Dict.empty).entry o).entries.keys := by
      have h := hnodup o
      rw [entriesOf_append, hlast, if_pos rfl, Entries.keys, List.map_append] at h
      rw [hfirst]
      intro hmem
      exact (List.nodup_append.mp h).2.2 key hmem key List.mem_cons_self rfl
    have hfits : ((rows.foldl storeRow Dict.empty).entry o).entries.used + (key.len + value.len) ≤
        storageQuotaBytes := by
      have h := hquota o
      rw [entriesOf_append, hlast, if_pos rfl, Entries.used_append] at h
      rw [hfirst]
      simpa [Entries.used] using h
    rw [List.foldl_append, entriesOf_append, hlast]
    show ((storeRow _ (o, key, value)).entry origin).entries = _
    rw [storeRow, entry_set_new hnew hfits, hfirst]
    simp only [eq_comm]

end Areas

/-- Rows whose entries agree origin by origin are the same rows in some order. -/
theorem perm_of_entriesOf {rows rows' : List KeyedRow}
    (h : ∀ origin, List.Perm (entriesOf origin rows) (entriesOf origin rows')) :
    List.Perm rows rows' := by
  have hcount : ∀ (rows : List KeyedRow) (row : KeyedRow),
      rows.count row = (entriesOf row.1 rows).count row.2 := by
    intro rows row
    induction rows with
    | nil => rfl
    | cons first rows ih =>
      rw [List.count_cons, ih, entriesOf, entriesOf, List.filterMap_cons]
      by_cases horigin : first.1 = row.1
      · have hsame : first = row ↔ first.2 = row.2 := by
          rw [Prod.ext_iff, and_iff_right horigin]
        rw [if_pos horigin, List.count_cons]
        simp only [beq_iff_eq, hsame]
      · have hne : ¬ first = row := fun heq => horigin (congrArg Prod.fst heq)
        rw [if_neg horigin, if_neg (by simpa using hne), Nat.add_zero]
  rw [List.perm_iff_count]
  intro row
  rw [hcount, hcount, (h row.1).count_eq]

namespace LocalStorage

/-- The row as `importRows` reads it. -/
def readRow (x : NetCrates) (row : Row) : Option KeyedRow :=
  (StorageKey.parse x row.1).map fun origin => (origin, row.2)

theorem foldl_importRow (x : NetCrates) (rows : List Row) (areas : Areas) :
    rows.foldl (importRow x) areas = (rows.filterMap (readRow x)).foldl Areas.storeRow areas := by
  induction rows generalizing areas with
  | nil => rfl
  | cons row rows ih =>
    rw [List.foldl_cons, ih, List.filterMap_cons, importRow, readRow]
    cases StorageKey.parse x row.1 <;> rfl

theorem filterMap_rows {x : NetCrates} {areas : Areas}
    (h : ∀ key ∈ areas.keys, StorageKey.parse x (key.toText x) = some key) :
    (rows x areas).filterMap (readRow x) = areas.keyedRows := by
  unfold rows Areas.keyedRows
  rw [List.filterMap_flatMap]
  apply List.flatMap_congr
  rintro ⟨origin, area⟩ hmem
  have hkey := h origin (List.mem_map_of_mem hmem)
  dsimp only
  rw [List.filterMap_map]
  induction area.entries with
  | nil => rfl
  | cons e entries ih =>
    rw [List.filterMap_cons, ih]
    simp [readRow, hkey]

theorem rows_eq_map (x : NetCrates) (areas : Areas) :
    rows x areas = areas.keyedRows.map fun row => (row.1.toText x, row.2) := by
  unfold rows Areas.keyedRows
  rw [List.map_flatMap]
  apply List.flatMap_congr
  intro p _
  rw [List.map_map]
  rfl

theorem mergeSort_rowLe {rows rows' : List Row} (h : List.Perm rows rows') :
    rows.mergeSort rowLe = rows'.mergeSort rowLe := by
  have htrans : ∀ a b c : Row, rowLe a b = true → rowLe b c = true → rowLe a c = true := by
    intro a b c hab hbc
    exact decide_eq_true (le_trans (of_decide_eq_true hab) (of_decide_eq_true hbc))
  have htotal : ∀ a b : Row, (rowLe a b || rowLe b a) = true := by
    intro a b
    rw [Bool.or_eq_true]
    exact (le_total _ _).imp decide_eq_true decide_eq_true
  have hanti : ∀ a b : Row, rowLe a b = true → rowLe b a = true → a = b := by
    intro a b hab hba
    have heq : toLex (a.1, toLex (a.2.1, a.2.2)) = toLex (b.1, toLex (b.2.1, b.2.2)) :=
      le_antisymm (of_decide_eq_true hab) (of_decide_eq_true hba)
    exact heq
  have hperm := ((List.mergeSort_perm rows rowLe).trans h).trans (List.mergeSort_perm rows' rowLe).symm
  exact hperm.eq_of_pairwise (fun a b _ _ => hanti a b) (List.pairwise_mergeSort htrans htotal _)
    (List.pairwise_mergeSort htrans htotal _)

theorem exportRows_congr (x : NetCrates) {storage storage' : LocalStorage}
    (h : ∀ origin,
      List.Perm (storage.areas.entry origin).entries (storage'.areas.entry origin).entries) :
    storage.exportRows x = storage'.exportRows x := by
  have hperm : List.Perm storage.areas.keyedRows storage'.areas.keyedRows := by
    apply perm_of_entriesOf
    intro origin
    rw [Areas.entriesOf_keyedRows, Areas.entriesOf_keyedRows]
    exact h origin
  rw [exportRows, exportRows, rows_eq_map, rows_eq_map]
  exact mergeSort_rowLe (hperm.map _)

/-- Importing an export into an empty storage stores every entry of it, and no other. -/
theorem entries_importRows_exportRows {x : NetCrates} {storage : LocalStorage}
    (h : ∀ key ∈ storage.areas.keys, StorageKey.parse x (key.toText x) = some key)
    (origin : StorageKey) :
    List.Perm ((default.importRows x (storage.exportRows x)).areas.entry origin).entries
      (storage.areas.entry origin).entries := by
  have hperm : List.Perm ((storage.exportRows x).filterMap (readRow x)) storage.areas.keyedRows := by
    rw [← filterMap_rows h]
    exact (List.mergeSort_perm ..).filterMap _
  have hentries : ∀ origin, List.Perm
      (entriesOf origin ((storage.exportRows x).filterMap (readRow x)))
      (storage.areas.entry origin).entries := by
    intro origin
    rw [← Areas.entriesOf_keyedRows]
    exact entriesOf_perm hperm origin
  have hnodup : ∀ origin,
      (entriesOf origin ((storage.exportRows x).filterMap (readRow x))).keys.Nodup := by
    intro origin
    exact ((hentries origin).map _).nodup_iff.mpr (storage.areas.entry origin).nodup
  have hstored := Areas.entry_storeRows _ hnodup (fun origin => by
    rw [Entries.used_perm (hentries origin)]
    exact (storage.areas.entry origin).quota)
  show List.Perm (Areas.entry (List.foldl (importRow x) Dict.empty _) origin).entries _
  rw [foldl_importRow, hstored]
  exact hentries origin

theorem get_importRows_exportRows {x : NetCrates} {storage : LocalStorage}
    (h : ∀ key ∈ storage.areas.keys, StorageKey.parse x (key.toText x) = some key)
    (origin : StorageKey) (key : Text) :
    (default.importRows x (storage.exportRows x)).get origin key = storage.get origin key := by
  have hperm := entries_importRows_exportRows h origin
  show Areas.get _ origin key = storage.areas.get origin key
  rw [Areas.get_eq, Areas.get_eq]
  apply Option.ext
  intro value
  unfold StorageArea.get
  rw [Entries.get_eq_some (StorageArea.nodup _), Entries.get_eq_some (StorageArea.nodup _)]
  exact hperm.mem_iff

end LocalStorage
end TinyBrowser
