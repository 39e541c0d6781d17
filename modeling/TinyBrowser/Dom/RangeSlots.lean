import TinyBrowser.Dom.Rides

/-!
# Reading and writing the state of a range

What `save` writes, `load` reads (`yields_save`), and what a step over the documents does to the range
that is not its own business: it rides along (`loaded_of_across`).
-/

namespace TinyBrowser.Dom
open Lib Blitz BlitzFragments BlitzNodes

namespace RangeTable
variable {t t' : RangeTable} {slot : Nat} {state : RangeState}

theorem get_set_self (h : t.set slot state = some t') : t'.get slot = some state := by
  rw [set] at h
  split at h
  · rename_i hlive
    obtain rfl := Option.some.inj h
    have hlt : slot < t.slots.length := by
      by_contra hge
      rw [get, List.getElem?_eq_none (by omega)] at hlive
      cases hlive
    rw [get, ofSlots, List.getElem?_set_self hlt]
    rfl
  · cases h

theorem get_alloc (t : RangeTable) (state : RangeState) :
    (t.alloc state).1.get (t.alloc state).2 = some state := by
  rw [alloc]
  split
  · rename_i slot hslot
    have hlt : slot < t.slots.length := by
      have hmem := List.isSome_idxOf?.1 (Option.isSome_of_eq_some hslot)
      have heq := List.idxOf_eq_getD_idxOf? none t.slots
      rw [hslot, Option.getD_some] at heq
      exact heq ▸ List.idxOf_lt_length_iff.2 hmem
    rw [get, ofSlots, List.getElem?_set_self hlt]
    rfl
  · rw [get, ofSlots, List.getElem?_append_right (Nat.le_refl _), Nat.sub_self]
    rfl

theorem get_mapPoints (t : RangeTable) (g : BoundaryPoint → BoundaryPoint) (slot : Nat) :
    (t.mapPoints g).get slot = (t.get slot).map (RangeState.mapPoints g) := by
  rw [get, get, mapPoints, List.getElem?_map]
  rcases t.slots[slot]? with - | - | state
  · rfl
  · rfl
  · rfl

end RangeTable

theorem TreeRange.within_state {range : TreeRange} (h : range.atHome = true) :
    range.state.within range.document = range := by
  rw [TreeRange.atHome, Bool.and_eq_true, decide_eq_true_eq, decide_eq_true_eq] at h
  obtain ⟨⟨⟨startDocument, start⟩, startOffset⟩, ⟨⟨stopDocument, stop⟩, stopOffset⟩, attr⟩ := range
  obtain ⟨hstart, hstop⟩ := h
  dsimp only at hstart hstop
  cases attr with
  | none =>
    rw [TreeRange.document] at hstart hstop ⊢
    dsimp only [Option.elim_none] at hstart hstop ⊢
    rw [hstop]
    rfl
  | some attr =>
    obtain ⟨⟨document, scope⟩, id⟩ := attr
    rw [TreeRange.document] at hstart hstop ⊢
    dsimp only [Option.elim_some] at hstart hstop ⊢
    rw [hstart, hstop]
    rfl

section
variable {Base : Type}

/-- The trees are the same. -/
def SameBase (doc doc' : Scripted Base) : Prop := doc'.base = doc.base

instance : Std.Refl (@SameBase Base) := ⟨fun _ => rfl⟩

instance : IsTrans (Scripted Base) SameBase := ⟨fun _ _ _ h h' => h'.trans h⟩

variable {world : RangeWorld Base} {range : TreeRange}

theorem loaded_of_overwrite {world' : RangeWorld Base} {document : UInt32} {slot : Nat}
    (hregistration : world.registration = .slot document slot) (hdocument : range.document = document)
    (hhome : range.atHome = true) (h : world.overwrite document slot range = some world') :
    world'.loaded = some range ∧ Across SameBase world.store world'.store := by
  obtain ⟨doc, hdoc, h⟩ := Option.bind_eq_some_iff.1 h
  obtain ⟨ranges, hranges, rfl⟩ := Option.map_eq_some_iff.1 h
  constructor
  · rw [RangeWorld.loaded, hregistration]
    dsimp only
    rw [DocumentStore.get_set, if_pos rfl, Option.bind_some]
    show (ranges.get slot).map _ = _
    rw [RangeTable.get_set_self hranges, Option.map_some, ← hdocument,
      TreeRange.within_state hhome]
  · exact across_set hdoc rfl

theorem loaded_of_register {store : DocumentStore Base} (h : RangeWorld.register store range = some world) :
    world.loaded = some range ∧ Across SameBase store world.store := by
  obtain ⟨doc, hdoc, h⟩ := Option.map_eq_some_iff.1 h
  split at h
  · rename_i hhome
    subst h
    constructor
    · rw [RangeWorld.loaded]
      dsimp only
      rw [DocumentStore.get_set, if_pos rfl, Option.bind_some]
      show ((doc.side.ranges.alloc range.state).1.get _).map _ = _
      rw [RangeTable.get_alloc, Option.map_some, TreeRange.within_state hhome]
    · exact across_set hdoc rfl
  · subst h
    refine ⟨?_, Std.Refl.refl store⟩
    show (store.get range.document).map (fun _ => range) = _
    rw [hdoc, Option.map_some]

theorem across_freed {store : DocumentStore Base} (h : world.freed = some store) :
    Across SameBase world.store store := by
  rw [RangeWorld.freed] at h
  split at h
  · obtain ⟨doc, hdoc, rfl⟩ := Option.map_eq_some_iff.1 h
    exact across_set hdoc rfl
  · obtain ⟨doc, hdoc, rfl⟩ := Option.map_eq_some_iff.1 h
    exact Std.Refl.refl _

theorem exists_of_loaded {old : TreeRange} (h : world.loaded = some old) (range : TreeRange) :
    (∃ store, world.freed = some store) ∧ ∀ document slot, world.registration = .slot document slot →
      ∃ world', world.overwrite document slot range = some world' := by
  rw [RangeWorld.loaded] at h
  rw [RangeWorld.freed]
  cases hregistration : world.registration with
  | slot document slot =>
    rw [hregistration] at h
    obtain ⟨doc, hdoc, h⟩ := Option.bind_eq_some_iff.1 h
    obtain ⟨state, hstate, -⟩ := Option.map_eq_some_iff.1 h
    refine ⟨⟨_, Option.map_eq_some_iff.2 ⟨doc, hdoc, rfl⟩⟩, ?_⟩
    rintro _ _ ⟨rfl, rfl⟩
    have hset : doc.side.ranges.set slot range.state =
        some (.ofSlots (doc.side.ranges.slots.set slot (some range.state))) :=
      if_pos (Option.isSome_of_eq_some hstate)
    rw [RangeWorld.overwrite, hdoc, Option.bind_some, hset]
    exact ⟨_, rfl⟩
  | apart state =>
    rw [hregistration] at h
    obtain ⟨doc, hdoc, -⟩ := Option.map_eq_some_iff.1 h
    exact ⟨⟨_, Option.map_eq_some_iff.2 ⟨doc, hdoc, rfl⟩⟩, nofun⟩

/-- What is saved is what is loaded. -/
theorem yields_save {range old : TreeRange} {target : Scripted Base}
    (hloaded : world.loaded = some old) (htarget : world.store.get range.document = some target) :
    (save range).Yields
      (fun _ world' => world'.loaded = some range ∧ Across SameBase world.store world'.store)
      (fun _ => False) world := by
  have hanew : Trial.Yields (fun world => save.reregister range (.error (.type "stale range")) world)
      (fun _ world' => world'.loaded = some range ∧ Across SameBase world.store world'.store)
      (fun _ => False) world := by
    obtain ⟨⟨store, hfreed⟩, hplaced⟩ := exists_of_loaded hloaded range
    have hsame := across_freed hfreed
    obtain ⟨target', htarget', -⟩ := hsame _ _ htarget
    obtain ⟨world', hregister⟩ : ∃ world', RangeWorld.register store range = some world' :=
      ⟨_, Option.map_eq_some_iff.2 ⟨target', htarget', rfl⟩⟩
    obtain ⟨hloaded', hsame'⟩ := loaded_of_register hregister
    rw [Trial.Yields, Trial.runOn, save.reregister, hfreed]
    dsimp only
    rw [hregister]
    exact ⟨hloaded', IsTrans.trans _ _ _ hsame hsame'⟩
  rw [Trial.Yields, Trial.runOn, save]
  cases hregistration : world.registration with
  | slot document slot =>
    dsimp only
    split_ifs with hplace
    · obtain ⟨world', hoverwrite⟩ := (exists_of_loaded hloaded range).2 document slot hregistration
      rw [hoverwrite]
      exact loaded_of_overwrite hregistration hplace.1 hplace.2 hoverwrite
    · exact hanew
  | apart state => exact hanew

end

/-! ### Steps over the documents -/

section
variable {Base FormState : Type} [BlitzNodes Base FormState]

/-- Both ends moved within their documents. -/
def TreeRange.mapEnds (g : BoundaryPoint → BoundaryPoint) (range : TreeRange) : TreeRange where
  start := (g range.start.point).within range.start.node.document
  stop := (g range.stop.point).within range.stop.node.document
  attr := range.attr

/-- A step over the documents moves the range as the ranges of its document, or not at all. -/
theorem loaded_across {R : Scripted Base → Scripted Base → Prop}
    {K : (BoundaryPoint → BoundaryPoint) → Prop}
    (hR : ∀ doc doc', R doc doc' → ∃ g, K g ∧ doc'.side.ranges = doc.side.ranges.mapPoints g)
    {range : TreeRange} {world : RangeWorld Base} {store : DocumentStore Base}
    (hloaded : world.loaded = some range) (h : Across R world.store store) :
    ∃ range', ({ world with store } : RangeWorld Base).loaded = some range' ∧
      (range' = range ∨ ∃ g, K g ∧ range' = range.mapEnds g) := by
  rw [RangeWorld.loaded] at hloaded ⊢
  cases hregistration : world.registration with
  | slot document slot =>
    rw [hregistration] at hloaded
    obtain ⟨doc, hdoc, hloaded⟩ := Option.bind_eq_some_iff.1 hloaded
    obtain ⟨state, hstate, rfl⟩ := Option.map_eq_some_iff.1 hloaded
    obtain ⟨doc', hdoc', hdocs⟩ := h document doc hdoc
    obtain ⟨g, hK, hg⟩ := hR doc doc' hdocs
    dsimp only
    rw [hdoc', Option.bind_some, hg, RangeTable.get_mapPoints, hstate]
    exact ⟨_, rfl, .inr ⟨g, hK, rfl⟩⟩
  | apart state =>
    rw [hregistration] at hloaded
    obtain ⟨doc, hdoc, rfl⟩ := Option.map_eq_some_iff.1 hloaded
    obtain ⟨doc', hdoc', -⟩ := h _ doc hdoc
    exact ⟨state, Option.map_eq_some_iff.2 ⟨doc', hdoc', rfl⟩, .inl rfl⟩

theorem TreeRange.atHome_mapEnds (g : BoundaryPoint → BoundaryPoint) (range : TreeRange) :
    (range.mapEnds g).atHome = range.atHome := by
  rw [atHome, atHome, document, document]
  rfl

/-- The range of `world` is `range`, which has moved with its ends alike. -/
structure Rode (range range' : TreeRange) : Prop where
  attr_eq : range'.attr = range.attr
  document_eq : range'.document = range.document
  home : range.atHome = true → range'.atHome = true
  collapsed : range.start = range.stop → range'.start = range'.stop

theorem rode_of_across {range : TreeRange} {world : RangeWorld Base} {store : DocumentStore Base}
    (hloaded : world.loaded = some range) (h : Across DocRides world.store store) :
    ∃ range', ({ world with store } : RangeWorld Base).loaded = some range' ∧ Rode range range' := by
  obtain ⟨range', hloaded', rfl | ⟨g, -, rfl⟩⟩ :=
    loaded_across (K := fun _ => True) (fun _ _ ⟨g, hg⟩ => ⟨g, trivial, hg⟩) hloaded h
  · exact ⟨range', hloaded', rfl, rfl, id, id⟩
  · refine ⟨_, hloaded', rfl, rfl, fun hhome => (TreeRange.atHome_mapEnds g range).trans hhome, fun he => ?_⟩
    rw [TreeRange.mapEnds]
    dsimp only
    rw [he]

theorem yields_onStore {α : Type} {m : StoreM Base α} {ok : α → DocumentStore Base → Prop}
    {err : DocumentStore Base → Prop} {world : RangeWorld Base}
    (h : m.Yields ok err world.store) : (onStore m).Yields
      (fun a world' => world'.registration = world.registration ∧ ok a world'.store)
      (fun world' => world'.registration = world.registration ∧ err world'.store) world := by
  rw [Trial.Yields] at h ⊢
  rw [onStore, Trial.runOn, Trial.inside]
  dsimp only
  rcases hrun : m.runOn world.store with ⟨e | a, store⟩
  · rw [hrun] at h
    rw [Trial.runOn] at hrun
    rw [hrun]
    exact ⟨rfl, h⟩
  · rw [hrun] at h
    rw [Trial.runOn] at hrun
    rw [hrun]
    exact ⟨rfl, h⟩

theorem yields_rides {α : Type} {m : StoreM Base α} {range : TreeRange} {world : RangeWorld Base}
    (hm : Trial.Stays (Across DocRides) m) (hloaded : world.loaded = some range) :
    (onStore m).Yields (fun _ world' => ∃ range', world'.loaded = some range' ∧ Rode range range')
      (fun world' => ∃ range', world'.loaded = some range' ∧ Rode range range') world := by
  have hrode : ∀ world' : RangeWorld Base, world'.registration = world.registration ∧
      Across DocRides world.store world'.store →
      ∃ range', world'.loaded = some range' ∧ Rode range range' := by
    rintro ⟨store, registration⟩ ⟨rfl, h⟩
    exact rode_of_across hloaded h
  exact (yields_onStore (hm.yields world.store)).mono (fun _ => hrode) hrode

theorem yields_readDocument {α : Type} {id : UInt32} {read : Base → Except Thrown α}
    {ok : α → RangeWorld Base → Prop} {err : RangeWorld Base → Prop} {world : RangeWorld Base}
    (hok : ∀ doc a, world.store.get id = some doc → read doc.base = .ok a → ok a world)
    (herr : err world) : (readDocument id read).Yields ok err world := by
  have hlook : (inDocument "stale range" id fun doc => read doc.base).Yields
      (fun a store => store = world.store ∧ ok a world) (fun store => store = world.store ∧ err world)
      world.store := by
    refine Trial.yields_look.2 ⟨fun a h => ?_, fun _ _ => ⟨rfl, herr⟩⟩
    obtain ⟨doc, hdoc, h⟩ := Except.of_bind_ok h
    rw [documentOr] at hdoc
    cases hget : world.store.get id with
    | none =>
      rw [hget] at hdoc
      cases hdoc
    | some doc' =>
      rw [hget] at hdoc
      obtain rfl := Except.ok.inj hdoc
      exact ⟨rfl, hok doc' a hget h⟩
  refine (yields_onStore hlook).mono ?_ ?_
  · rintro a ⟨store, registration⟩ ⟨rfl, rfl, h⟩
    exact h
  · rintro ⟨store, registration⟩ ⟨rfl, rfl, h⟩
    exact h

theorem yields_readDocument_of_ok {α : Type} {id : UInt32} {read : Base → Except Thrown α} {a : α}
    {ok : α → RangeWorld Base → Prop} {err : RangeWorld Base → Prop} {world : RangeWorld Base}
    {doc : Scripted Base} (hget : world.store.get id = some doc) (hread : read doc.base = .ok a)
    (hok : ok a world) : (readDocument id read).Yields ok err world := by
  have hvalue : (documentOr "stale range" world.store id >>= fun doc => read doc.base) = .ok a := by
    rw [documentOr, hget]
    exact hread
  have hlook : (inDocument "stale range" id fun doc => read doc.base).Yields
      (fun b store => store = world.store ∧ b = a) (fun _ => False) world.store := by
    refine Trial.yields_look.2 ⟨fun b h => ⟨rfl, ?_⟩, fun e h => ?_⟩
    · exact (Except.ok.inj (hvalue.symm.trans h)).symm
    · cases hvalue.symm.trans h
  refine (yields_onStore hlook).mono ?_ ?_
  · rintro b ⟨store, registration⟩ ⟨rfl, rfl, rfl⟩
    exact hok
  · rintro world' ⟨-, h⟩
    cases h

end

end TinyBrowser.Dom
