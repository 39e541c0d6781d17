import TinyBrowser.Dial.Network
import TinyBrowser.Lib.Machine
import Mathlib.Algebra.BigOperators.Group.List.Basic

/-!
# What the cache has room for

`insert_cached` evicts the oldest entries until the new one has `Room`. The cache stays within its
two limits over any run of insertions; the order in which the hash map yields its entries is an
argument of each. The loop counts the entry that the new one replaces, so it may evict others for
nothing (`capacity_of_run`).
-/

namespace TinyBrowser
open Lib Machine

variable {cache cache' order : ResponseCache} {key key' : CacheKey} {entry removed : CachedResponse}
  {bodyLen : Nat}

/-- The bytes of the bodies that are stored. -/
def cachedBytes (cache : ResponseCache) : Nat :=
  (cache.pairs.map fun (_, entry) => storedBytes entry.outcome).sum

/-- One more entry with that many bytes is within both limits. -/
structure Room (cache : ResponseCache) (bodyLen : Nat) : Prop where
  entries : cache.pairs.length < cacheMaxEntries
  bytes : cachedBytes cache + bodyLen ≤ cacheMaxBytes

instance : Decidable (Room cache bodyLen) :=
  decidable_of_iff (cache.pairs.length < cacheMaxEntries ∧ cachedBytes cache + bodyLen ≤ cacheMaxBytes)
    ⟨fun h => ⟨h.1, h.2⟩, fun h => ⟨h.entries, h.bytes⟩⟩

structure WithinLimits (cache : ResponseCache) : Prop where
  entries : cache.pairs.length ≤ cacheMaxEntries
  bytes : cachedBytes cache ≤ cacheMaxBytes

theorem erase_of_get?_none (h : cache.get? key = none) : cache.erase key = cache := by
  have hpairs := Dict.pairs_erase_of_none h
  cases cache
  exact (Dict.mk.injEq ..).mpr hpairs

theorem length_erase_of_get? (h : cache.get? key = some removed) :
    cache.pairs.length = (cache.erase key).pairs.length + 1 := by
  rw [(Dict.perm_cons_erase h).length_eq, List.length_cons]

theorem cachedBytes_erase_of_get? (h : cache.get? key = some removed) :
    cachedBytes cache = cachedBytes (cache.erase key) + storedBytes removed.outcome := by
  rw [cachedBytes, ((Dict.perm_cons_erase h).map _).sum_eq, List.map_cons, List.sum_cons,
    Nat.add_comm]
  rfl

theorem cachedBytes_insert (cache : ResponseCache) (key : CacheKey) (entry : CachedResponse) :
    cachedBytes (cache.insert key entry) =
      cachedBytes (cache.erase key) + storedBytes entry.outcome := by
  rw [cachedBytes, Dict.insert, List.map_append, List.sum_append, List.map_singleton,
    List.sum_singleton]
  rfl

theorem length_insert (cache : ResponseCache) (key : CacheKey) (entry : CachedResponse) :
    (cache.insert key entry).pairs.length = (cache.erase key).pairs.length + 1 := by
  rw [Dict.insert, List.length_append, List.length_singleton]

theorem Room.erase (h : Room cache bodyLen) (key : CacheKey) : Room (cache.erase key) bodyLen := by
  cases hget : cache.get? key with
  | none => rwa [erase_of_get?_none hget]
  | some removed =>
    have hlen := length_erase_of_get? hget
    have hbytes := cachedBytes_erase_of_get? hget
    have hentries := h.entries
    have hsum := h.bytes
    exact ⟨by omega, by omega⟩

theorem Room.insert (h : Room cache (storedBytes entry.outcome)) (key : CacheKey) :
    WithinLimits (cache.insert key entry) := by
  obtain ⟨hentries, hbytes⟩ := h.erase key
  refine ⟨?_, ?_⟩
  · rw [length_insert]
    exact hentries
  · rw [cachedBytes_insert]
    exact hbytes

/-! ### The eviction loop -/

theorem get?_of_oldest (h : oldest cache = some (key, removed)) : cache.get? key = some removed :=
  (Dict.get?_eq_some_iff ..).2 (firstMin_mem h)

instance : Std.TransCmp fun a b : CacheKey × CachedResponse => compare a.2.storedAt b.2.storedAt :=
  inferInstanceAs (Std.TransCmp (compareOn fun a : CacheKey × CachedResponse => a.2.storedAt))

theorem storedAt_oldest_le (h : oldest cache = some (key, removed))
    (hget : cache.get? key' = some entry) : removed.storedAt ≤ entry.storedAt := by
  unfold oldest at h
  have hle := firstMin_isLE h ((Dict.get?_eq_some_iff ..).1 hget)
  exact Nat.isLE_compare.1 hle

theorem exists_oldest (h : cache.pairs ≠ []) : ∃ key removed, oldest cache = some (key, removed) := by
  obtain ⟨⟨key, removed⟩, hold⟩ := firstMin_isSome _ h
  exact ⟨key, removed, hold⟩

theorem room_of_nil (hbody : bodyLen ≤ cacheMaxBytes) (h : cache.pairs = []) : Room cache bodyLen := by
  refine ⟨by rw [h]; decide, ?_⟩
  rw [cachedBytes, h]
  exact (Nat.zero_add bodyLen).trans_le hbody

theorem evictCached_of_room (h : Room cache bodyLen) (fuel : Nat) :
    evictCached bodyLen fuel (cachedBytes cache) cache = cache := by
  cases fuel with
  | zero => rfl
  | succ fuel =>
    rw [evictCached, if_neg]
    rw [Bool.or_eq_true, decide_eq_true_eq, decide_eq_true_eq, not_or]
    exact ⟨Nat.not_le.2 h.entries, Nat.not_lt.2 h.bytes⟩

theorem evictCached_of_not_room (h : ¬ Room cache bodyLen) (hold : oldest cache = some (key, removed))
    (fuel : Nat) : evictCached bodyLen (fuel + 1) (cachedBytes cache) cache =
      evictCached bodyLen fuel (cachedBytes (cache.erase key)) (cache.erase key) := by
  have hbytes := cachedBytes_erase_of_get? (get?_of_oldest hold)
  rw [evictCached, if_pos, hold]
  · dsimp only
    rw [hbytes, Nat.add_sub_cancel]
  · rw [Bool.or_eq_true, decide_eq_true_eq, decide_eq_true_eq]
    by_contra hnot
    rw [not_or] at hnot
    exact h ⟨Nat.not_le.1 hnot.1, Nat.not_lt.1 hnot.2⟩

/-- The loop makes room: at the latest an empty cache has it. -/
theorem room_evictCached (hbody : bodyLen ≤ cacheMaxBytes) (fuel : Nat)
    (hfuel : cache.pairs.length ≤ fuel) :
    Room (evictCached bodyLen fuel (cachedBytes cache) cache) bodyLen := by
  induction fuel generalizing cache with
  | zero => exact room_of_nil hbody (List.length_eq_zero_iff.1 (Nat.le_zero.1 hfuel))
  | succ fuel ih =>
    by_cases h : Room cache bodyLen
    · rwa [evictCached_of_room h]
    · obtain ⟨key, removed, hold⟩ := exists_oldest (mt (room_of_nil hbody) h)
      rw [evictCached_of_not_room h hold]
      have hlen := length_erase_of_get? (get?_of_oldest hold)
      exact ih (by omega)

theorem evictCached_get?_none (h : cache.get? key = none) (fuel total : Nat) :
    (evictCached bodyLen fuel total cache).get? key = none := by
  induction fuel generalizing total cache with
  | zero => exact h
  | succ fuel ih =>
    rw [evictCached]
    split_ifs
    · cases oldest cache with
      | none => exact h
      | some removed =>
        refine ih ?_ _
        rw [Dict.get?_erase]
        split_ifs
        · rfl
        · exact h
    · exact h

/-! ### One insertion -/

theorem insertCached_of_le (h : storedBytes entry.outcome ≤ maxResponseBodyBytes) :
    insertCached cache key entry = (evictCached (storedBytes entry.outcome) cache.pairs.length
      (cachedBytes cache) cache).insert key entry := if_neg (Nat.not_lt.2 h)

theorem WithinLimits.insertCached (hw : WithinLimits cache) (key : CacheKey)
    (entry : CachedResponse) : WithinLimits (insertCached cache key entry) := by
  by_cases h : storedBytes entry.outcome ≤ maxResponseBodyBytes
  · rw [insertCached_of_le h]
    exact (room_evictCached (h.trans (by decide)) _ (Nat.le_refl _)).insert key
  · rw [TinyBrowser.insertCached, if_pos (Nat.lt_of_not_le h)]
    exact hw

theorem get?_insertCached (h : storedBytes entry.outcome ≤ maxResponseBodyBytes) :
    (insertCached cache key entry).get? key = some entry := by
  rw [insertCached_of_le h, Dict.get?_insert, if_pos rfl]

/-- When the entry fits beside those of the other keys, they all stay. -/
def EvictsWhenNeeded (cache : ResponseCache) (key : CacheKey) (entry : CachedResponse)
    (cache' : ResponseCache) : Prop :=
  Room (cache.erase key) (storedBytes entry.outcome) →
    ∀ key', key' ≠ key → cache'.get? key' = cache.get? key'

/-- The entry is too large to be stored, or does not fit beside the others at all, or what the loop
counts is no more than that: the key is new, there is room with its old entry too, or that one is the
oldest. -/
def CountsTheOthers (cache : ResponseCache) (key : CacheKey) (entry : CachedResponse) : Prop :=
  maxResponseBodyBytes < storedBytes entry.outcome ∨
  ¬ Room (cache.erase key) (storedBytes entry.outcome) ∨
  cache.get? key = none ∨ Room cache (storedBytes entry.outcome) ∨
  (oldest cache).map Prod.fst = some key

instance : Decidable (CountsTheOthers cache key entry) := inferInstanceAs (Decidable (_ ∨ _))

theorem evictsWhenNeeded_iff : EvictsWhenNeeded cache key entry (insertCached cache key entry) ↔
    CountsTheOthers cache key entry := by
  by_cases hbody : storedBytes entry.outcome ≤ maxResponseBodyBytes
  swap
  · refine iff_of_true (fun _ key' _ => ?_) (.inl (Nat.lt_of_not_le hbody))
    rw [insertCached, if_pos (Nat.lt_of_not_le hbody)]
  by_cases hfits : Room (cache.erase key) (storedBytes entry.outcome)
  swap
  · exact iff_of_true (fun h => absurd h hfits) (.inr (.inl hfits))
  by_cases hroom : Room cache (storedBytes entry.outcome)
  · -- the loop does nothing
    refine iff_of_true (fun _ key' hne => ?_) (.inr (.inr (.inr (.inl hroom))))
    rw [insertCached_of_le hbody, evictCached_of_room hroom, Dict.get?_insert, if_neg hne]
  have hnil : cache.pairs ≠ [] := mt (room_of_nil (hbody.trans (by decide))) hroom
  have hstored : cache.get? key ≠ none := fun hnone => hroom (erase_of_get?_none hnone ▸ hfits)
  obtain ⟨first, removed, hold⟩ := exists_oldest hnil
  have hfirst : cache.get? first = some removed := get?_of_oldest hold
  obtain ⟨fuel, hfuel⟩ : ∃ fuel, cache.pairs.length = fuel + 1 :=
    Nat.exists_eq_succ_of_ne_zero (mt List.length_eq_zero_iff.1 hnil)
  have hevict := evictCached_of_not_room hroom hold fuel
  rw [← hfuel] at hevict
  by_cases heq : first = key
  · -- the first to go is the entry that is replaced, and then there is room
    subst heq
    refine iff_of_true (fun _ key' hne => ?_) (.inr (.inr (.inr (.inr (by rw [hold]; rfl)))))
    rw [insertCached_of_le hbody, hevict, evictCached_of_room hfits, Dict.get?_insert, if_neg hne,
      Dict.get?_erase, if_neg hne]
  · refine iff_of_false (fun hkept => ?_) ?_
    · have hgone : (insertCached cache key entry).get? first = none := by
        rw [insertCached_of_le hbody, hevict, Dict.get?_insert, if_neg heq]
        exact evictCached_get?_none (by rw [Dict.get?_erase, if_pos rfl]) _ _
      rw [hkept hfits first heq, hfirst] at hgone
      cases hgone
    · rintro (hlarge | hnot | hnone | hroom' | hfirst')
      · exact absurd hbody (Nat.not_le.2 hlarge)
      · exact hnot hfits
      · exact hstored hnone
      · exact hroom hroom'
      · rw [hold] at hfirst'
        exact heq (Option.some.inj hfirst')

/-! ### Runs -/

/-- One call, with the cache in the order in which its hash map yields the entries. -/
structure Insertion where
  order : ResponseCache
  key : CacheKey
  entry : CachedResponse
deriving DecidableEq

def Insertion.step (cache : ResponseCache) (insertion : Insertion) : Option ResponseCache :=
  if insertion.order.pairs.Perm cache.pairs then
    some (insertCached insertion.order insertion.key insertion.entry)
  else none

theorem WithinLimits.perm (hw : WithinLimits cache) (hperm : order.pairs.Perm cache.pairs) :
    WithinLimits order := by
  refine ⟨hperm.length_eq ▸ hw.entries, ?_⟩
  rw [cachedBytes, (hperm.map _).sum_eq]
  exact hw.bytes

theorem WithinLimits.step {insertion : Insertion} (hw : WithinLimits cache)
    (hstep : insertion.step cache = some cache') : WithinLimits cache' := by
  unfold Insertion.step at hstep
  split_ifs at hstep with hperm
  exact Option.some.inj hstep ▸ (hw.perm hperm).insertCached ..

theorem withinLimits_empty : WithinLimits Dict.empty := ⟨by decide, by decide⟩

/-- After any insertions into an empty cache: it is within its limits, one more puts its entry there if
the body is not too large, and evicts others only when it needs to exactly if the loop counts no more
than the others. -/
theorem capacity_of_run {insertions : List Insertion} {insertion : Insertion}
    (hrun : run (fun cache insertion => insertion.step cache) Dict.empty insertions = some cache)
    (hstep : insertion.step cache = some cache') :
    WithinLimits cache ∧ WithinLimits cache' ∧
    (storedBytes insertion.entry.outcome ≤ maxResponseBodyBytes →
      cache'.get? insertion.key = some insertion.entry) ∧
    (EvictsWhenNeeded insertion.order insertion.key insertion.entry cache' ↔
      CountsTheOthers insertion.order insertion.key insertion.entry) := by
  have hw : WithinLimits cache :=
    inv_run (fun _ _ _ hw hstep => hw.step hstep) withinLimits_empty hrun
  refine ⟨hw, hw.step hstep, ?_⟩
  unfold Insertion.step at hstep
  split_ifs at hstep with hperm
  obtain rfl := Option.some.inj hstep
  exact ⟨get?_insertCached, evictsWhenNeeded_iff⟩

/-! ### A full cache -/

def CacheKey.sample (owner : RendererAssignmentId) : CacheKey :=
  cacheKey Call.sample.request Call.sample.initiator owner

/-- A response without a body. -/
def CachedResponse.sample (storedAt : Instant) : CachedResponse where
  outcome := ⟨200, [], Url.sample, none, [], .bytes [], .basic, false, 0, none⟩
  storedAt := storedAt
  requestHeaders := []

def samplePair (n : Nat) : CacheKey × CachedResponse := (.sample n, .sample n)

theorem nodup_samplePair (n : Nat) : (((List.range n).map samplePair).map Prod.fst).Nodup := by
  rw [List.map_map]
  exact List.nodup_range.map fun a b heq => congrArg CacheKey.partition heq

/-- The entries of `n` renderers, stored one after the other. -/
def filledCache (n : Nat) : ResponseCache := ⟨(List.range n).map samplePair, nodup_samplePair n⟩

def fillings (n : Nat) : List Insertion :=
  (List.range n).map fun i => ⟨filledCache i, .sample i, .sample i⟩

theorem cachedBytes_filledCache (n : Nat) : cachedBytes (filledCache n) = 0 := by
  rw [cachedBytes, filledCache, List.map_map, List.sum_eq_zero_iff_forall_eq_nat]
  intro bytes hbytes
  obtain ⟨i, -, rfl⟩ := List.mem_map.1 hbytes
  rfl

theorem get?_filledCache (n i : Nat) :
    (filledCache n).get? (.sample i) = if i < n then some (.sample i) else none := by
  split_ifs with hlt
  · exact (Dict.get?_eq_some_iff ..).2 (List.mem_map.2 ⟨i, List.mem_range.2 hlt, rfl⟩)
  · refine (Dict.get?_eq_none_iff ..).2 fun hkey => hlt ?_
    obtain ⟨pair, hpair, heq⟩ := List.mem_map.1 hkey
    obtain ⟨j, hj, rfl⟩ := List.mem_map.1 hpair
    have hij : j = i := congrArg CacheKey.partition heq
    exact hij ▸ List.mem_range.1 hj

theorem run_fillings {n : Nat} (hn : n ≤ cacheMaxEntries) :
    run (fun cache insertion => insertion.step cache) Dict.empty (fillings n) =
      some (filledCache n) := by
  induction n with
  | zero => rfl
  | succ n ih =>
    have hroom : Room (filledCache n) (storedBytes (CachedResponse.sample n).outcome) := by
      refine ⟨?_, ?_⟩
      · rw [filledCache, List.length_map, List.length_range]
        exact hn
      · rw [cachedBytes_filledCache]
        exact Nat.zero_le _
    have hinsert : insertCached (filledCache n) (.sample n) (.sample n) = filledCache (n + 1) := by
      rw [insertCached_of_le (Nat.zero_le _), evictCached_of_room hroom]
      have hpairs : ((filledCache n).insert (.sample n) (.sample n)).pairs =
          (filledCache (n + 1)).pairs := by
        rw [Dict.pairs_insert_of_none (by rw [get?_filledCache, if_neg (Nat.lt_irrefl n)])]
        show _ = (List.range (n + 1)).map samplePair
        rw [List.range_succ, List.map_append]
        rfl
      exact (Dict.mk.injEq ..).mpr hpairs
    rw [fillings, List.range_succ, List.map_append]
    refine run_append (ih (Nat.le_of_succ_le hn)) ?_
    show ((⟨filledCache n, .sample n, .sample n⟩ : Insertion).step (filledCache n)).bind some = _
    rw [Insertion.step, if_pos (List.Perm.refl _), hinsert]
    rfl

theorem step_filledCache (n : Nat) (key : CacheKey) (entry : CachedResponse) :
    (⟨filledCache n, key, entry⟩ : Insertion).step (filledCache n) =
      some (insertCached (filledCache n) key entry) :=
  if_pos (List.Perm.refl _)

/-- A full cache gives up its oldest entry for one more, and no other when the oldest is replaced. -/
theorem capacity_of_run_fillings :
    (WithinLimits (insertCached (filledCache 64) (.sample 64) (.sample 64)) ∧
      (insertCached (filledCache 64) (.sample 64) (.sample 64)).get? (.sample 64) =
        some (.sample 64) ∧
      (insertCached (filledCache 64) (.sample 64) (.sample 64)).get? (.sample 0) = none) ∧
    WithinLimits (insertCached (filledCache 64) (.sample 0) (.sample 64)) ∧
      (insertCached (filledCache 64) (.sample 0) (.sample 64)).get? (.sample 0) =
        some (.sample 64) ∧
      EvictsWhenNeeded (filledCache 64) (.sample 0) (.sample 64)
        (insertCached (filledCache 64) (.sample 0) (.sample 64)) := by
  have hrun := run_fillings (Nat.le_refl 64)
  obtain ⟨-, hevicted, hadded, -⟩ :=
    capacity_of_run hrun (step_filledCache 64 (.sample 64) (.sample 64))
  obtain ⟨-, hreplaced, hget, hothers⟩ :=
    capacity_of_run hrun (step_filledCache 64 (.sample 0) (.sample 64))
  refine ⟨⟨hevicted, hadded (Nat.zero_le _), ?_⟩, hreplaced, hget (Nat.zero_le _), hothers.2 ?_⟩
  · decide +kernel
  · exact .inr (.inr (.inr (.inr (by decide +kernel))))

/-- A full cache gets a new response for its second key and gives up its first one. -/
theorem not_evictsWhenNeeded_filledCache :
    run (fun cache insertion => insertion.step cache) Dict.empty (fillings 64) =
      some (filledCache 64) ∧
    ¬ EvictsWhenNeeded (filledCache 64) (.sample 1) (.sample 64)
      (insertCached (filledCache 64) (.sample 1) (.sample 64)) := by
  refine ⟨run_fillings (Nat.le_refl _), fun h => ?_⟩
  have hget : (filledCache 64).get? (.sample 1) = some (.sample 1) := by
    rw [get?_filledCache, if_pos (by decide)]
  have hlen : (filledCache 64).pairs.length = 64 := by
    rw [filledCache, List.length_map, List.length_range]
  have hbytes := cachedBytes_filledCache 64
  rcases evictsWhenNeeded_iff.1 h with hlarge | hnot | hnone | hroom | hfirst
  · exact absurd hlarge (by decide)
  · refine hnot ⟨?_, ?_⟩
    · have herase := length_erase_of_get? hget
      show (Dict.erase (filledCache 64) (.sample 1)).pairs.length < 64
      omega
    · have herase := cachedBytes_erase_of_get? hget
      have hzero : cachedBytes ((filledCache 64).erase (.sample 1)) = 0 := by omega
      rw [hzero]
      decide
  · rw [hget] at hnone
    cases hnone
  · exact absurd hroom.entries (by rw [hlen]; decide)
  · -- the first key's entry is older
    obtain ⟨⟨key, removed⟩, hold, rfl⟩ := Option.map_eq_some_iff.1 hfirst
    have hremoved : removed = .sample 1 := Option.some.inj ((get?_of_oldest hold).symm.trans hget)
    have hzero : (filledCache 64).get? (.sample 0) = some (.sample 0) := by
      rw [get?_filledCache, if_pos (by decide)]
    have hle := storedAt_oldest_le hold hzero
    rw [hremoved] at hle
    exact absurd hle (by decide)

end TinyBrowser
