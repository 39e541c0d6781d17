import Mathlib.Algebra.Order.BigOperators.Group.List
import Mathlib.Algebra.Order.Ring.Nat
import Mathlib.Data.List.Perm.Basic
import Mathlib.Data.Prod.Lex
import Mathlib.Data.List.Induction
import TinyBrowser.Net.Message
import TinyBrowser.Tabs.Registry

/-!
# Web storage areas

`StorageArea` is one origin's ordered list of entries: its keys are distinct and their bytes stay
within the quota by construction. `LocalStorage` maps storage keys, which are tuple origins, to
areas. `SessionStorage` does the same for each top-level browsing context.
-/

namespace TinyBrowser
open Lib

def Origin.isTuple : Origin → Bool
  | .tuple .. => true
  | .opaqueOrigin _ => false

/-- An origin as a message carries it. -/
inductive SerializedOrigin where
  | opaqueOrigin
  | tuple (origin : Origin) (h : origin.isTuple = true)
deriving DecidableEq, Repr

def SerializedOrigin.ofOrigin (origin : Origin) : SerializedOrigin :=
  if h : origin.isTuple = true then .tuple origin h else .opaqueOrigin

def SerializedOrigin.parse (x : NetCrates) (spec : Text) : Option SerializedOrigin :=
  if spec = "null".toList then some .opaqueOrigin
  else (x.urlParse spec).map fun url => ofOrigin url.origin

/-- The key of one origin's storage areas. -/
structure StorageKey where
  origin : Origin
  tuple : origin.isTuple = true
deriving DecidableEq, Repr

def StorageKey.parse (x : NetCrates) (spec : Text) : Option StorageKey :=
  match SerializedOrigin.parse x spec with
  | some (.tuple origin h) => some ⟨origin, h⟩
  | some .opaqueOrigin => none
  | none => none

/-- `Display` of a key. -/
def StorageKey.toText (x : NetCrates) (key : StorageKey) : Text := x.asciiSerialization key.origin

def storageQuotaBytes : Nat := 5 * 1024 * 1024

/-- What one mutation changed. -/
structure StorageChange where
  key : Option Text
  oldValue : Option Text
  newValue : Option Text
deriving DecidableEq, Repr

inductive StorageError where
  | quotaExceeded
deriving DecidableEq, Repr

abbrev Entries := List (Text × Text)

namespace Entries

def keys (entries : Entries) : List Text := entries.map Prod.fst

/-- The bytes that count against the quota. -/
def used (entries : Entries) : Nat := (entries.map fun e => e.1.len + e.2.len).sum

def get (entries : Entries) (key : Text) : Option Text :=
  (entries.find? fun e => e.1 = key).map Prod.snd

/-- Replaces the value of an existing key where it stands, or appends the entry. -/
def store (key value : Text) : Entries → Entries
  | [] => [(key, value)]
  | (k, v) :: rest => if k = key then (key, value) :: rest else (k, v) :: store key value rest

variable {entries : Entries}

theorem get_eq_none {key : Text} : entries.get key = none ↔ key ∉ entries.keys := by
  simp only [get, keys, Option.map_eq_none_iff, List.find?_eq_none, decide_eq_true_eq, List.mem_map]
  constructor
  · rintro h ⟨e, he, hkey⟩
    exact h e he hkey
  · intro h e he hkey
    exact h ⟨e, he, hkey⟩

theorem keys_store (key value : Text) (entries : Entries) : (store key value entries).keys =
    if key ∈ entries.keys then entries.keys else entries.keys ++ [key] := by
  induction entries with
  | nil => rfl
  | cons e entries ih =>
    obtain ⟨k, v⟩ := e
    rw [store]
    split_ifs with hk hmem hmem
    · rw [hk]; rfl
    · exact absurd (by simp [keys, hk]) hmem
    · have hrest : key ∈ keys entries := by
        rcases List.mem_cons.mp hmem with h | h
        · exact absurd h.symm hk
        · exact h
      rw [if_pos hrest] at ih
      show k :: (store key value entries).keys = _
      rw [ih]; rfl
    · have hrest : key ∉ keys entries := fun h => hmem (List.mem_cons_of_mem _ h)
      rw [if_neg hrest] at ih
      show k :: (store key value entries).keys = _
      rw [ih]; rfl

theorem nodup_store (key value : Text) (h : entries.keys.Nodup) :
    (store key value entries).keys.Nodup := by
  rw [keys_store]
  split_ifs with hmem
  · exact h
  · rw [List.nodup_append]
    refine ⟨h, List.nodup_singleton _, ?_⟩
    intro a ha b hb hab
    rw [List.mem_singleton] at hb
    exact hmem (hb ▸ hab ▸ ha)

theorem used_store (key value : Text) (entries : Entries) :
    (store key value entries).used + (entries.get key).elim 0 (fun old => key.len + old.len) =
      entries.used + (key.len + value.len) := by
  induction entries with
  | nil => simp [store, used, get]
  | cons e entries ih =>
    obtain ⟨k, v⟩ := e
    by_cases hk : k = key
    · subst hk
      simp [store, used, get]
      omega
    · simp only [store, if_neg hk, used, List.map_cons, List.sum_cons]
      have hget : get ((k, v) :: entries) key = get entries key := by
        simp [get, hk]
      rw [hget]
      unfold used at ih
      omega

theorem store_of_not_mem {key : Text} (value : Text) (h : key ∉ entries.keys) :
    store key value entries = entries ++ [(key, value)] := by
  induction entries with
  | nil => rfl
  | cons e entries ih =>
    obtain ⟨k, v⟩ := e
    have hk : k ≠ key := fun hk => h (by simp [keys, hk])
    rw [store, if_neg hk, ih fun hmem => h (List.mem_cons_of_mem _ hmem)]
    rfl

theorem used_append (entries entries' : Entries) :
    used (entries ++ entries') = entries.used + entries'.used := by
  simp [used]

theorem used_perm {entries entries' : Entries} (h : List.Perm entries entries') :
    entries.used = entries'.used := (h.map _).sum_eq

theorem get_eq_some (h : entries.keys.Nodup) {key value : Text} :
    entries.get key = some value ↔ (key, value) ∈ entries :=
  Dict.get?_eq_some_iff (⟨entries, h⟩ : Dict Text Text) key value

end Entries

structure StorageArea where
  entries : Entries
  nodup : entries.keys.Nodup
  quota : entries.used ≤ storageQuotaBytes
deriving DecidableEq

namespace StorageArea

def empty : StorageArea := ⟨[], List.nodup_nil, by decide⟩

def get (area : StorageArea) (key : Text) : Option Text := area.entries.get key

def keys (area : StorageArea) : List Text := area.entries.keys

def set (area : StorageArea) (key value : Text) :
    Except StorageError (Option StorageChange) × StorageArea :=
  let old := area.get key
  if old = some value then (.ok none, area)
  else
    let replaced := old.elim 0 fun old => key.len + old.len
    if h : storageQuotaBytes < area.entries.used - replaced + key.len + value.len then
      (.error .quotaExceeded, area)
    else
      (.ok (some ⟨some key, old, some value⟩),
        { entries := area.entries.store key value
          nodup := Entries.nodup_store key value area.nodup
          quota := by
            have hused := Entries.used_store key value area.entries
            have hold : (area.get key).elim 0 (fun old => key.len + old.len) = replaced := rfl
            rw [get] at hold
            omega })

def remove (area : StorageArea) (key : Text) : Option (StorageChange × StorageArea) :=
  (area.get key).map fun old =>
    (⟨some key, some old, none⟩,
      { entries := area.entries.eraseP fun e => e.1 = key
        nodup := area.nodup.sublist ((List.eraseP_sublist).map _)
        quota := by
          have hused : Entries.used (area.entries.eraseP fun e => e.1 = key) ≤ area.entries.used :=
            ((List.eraseP_sublist).map _).sum_le_sum fun _ _ => Nat.zero_le _
          exact Nat.le_trans hused area.quota })

def clear (area : StorageArea) : Option (StorageChange × StorageArea) :=
  if area.entries = [] then none else some (⟨none, none, none⟩, empty)

end StorageArea

end TinyBrowser
