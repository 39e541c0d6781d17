import TinyBrowser.Dom.Started

/-!
# Identities of attributes

`AttributeRegistry` of `crates/renderer/src/js/world.rs`: the identity of each `Attr`, and for each
element and name the one that is attached there. A registry carries that the attached ones are what
their owners say (`owned`), so an element has one `Attr` of each name.
-/

namespace TinyBrowser.Dom
open Lib Blitz BlitzFragments BlitzNodes

/-- Identity of one `Attr` platform object. -/
structure AttrState where
  scope : TreeNodeId
  document : TreeNodeId
  owner : Option TreeNodeId
  ns : String
  localName : String
deriving DecidableEq

abbrev AttrKey : Type := TreeNodeId × String × String

structure AttributeRegistry where
  entries : Dict Nat AttrState
  attached : Dict AttrKey Nat
  nextId : Nat
  bound : ∀ id, nextId < id → entries.get? id = none
  owned : ∀ id state, entries.get? id = some state → ∀ owner, state.owner = some owner →
    attached.get? (owner, state.ns, state.localName) = some id ∧
      state.document.document = owner.document

inductive AttrAttachError where
  | stale
  | inUse
deriving DecidableEq

namespace AttributeRegistry

variable (registry : AttributeRegistry)

def empty : AttributeRegistry where
  entries := .empty
  attached := .empty
  nextId := 0
  bound _ _ := rfl
  owned _ _ h := nomatch h

/-- A new identity, of an attribute that is attached to an element or to none. -/
def create (state : AttrState) (h : ∀ owner, state.owner = some owner →
    registry.attached.get? (owner, state.ns, state.localName) = none ∧
      state.document.document = owner.document) : AttributeRegistry × Nat :=
  let id := registry.nextId + 1
  ({ entries := registry.entries.insert id state
     attached := match state.owner with
      | some owner => registry.attached.insert (owner, state.ns, state.localName) id
      | none => registry.attached
     nextId := id
     bound := fun other hother => by
      rw [Dict.get?_insert, if_neg (by omega)]
      exact registry.bound other (by omega)
     owned := fun other state' hget owner howner => by
      rw [Dict.get?_insert] at hget
      split_ifs at hget with hid
      · obtain rfl := Option.some.inj hget
        refine ⟨?_, (h owner howner).2⟩
        rw [howner, hid]
        simp
      · obtain ⟨hattached, hhome⟩ := registry.owned other state' hget owner howner
        refine ⟨?_, hhome⟩
        cases hnew : state.owner with
        | none => exact hattached
        | some owner' =>
          have hfree := (h owner' hnew).1
          dsimp only
          rw [Dict.get?_insert, if_neg, hattached]
          intro hkey
          rw [← hkey, hattached] at hfree
          cases hfree }, id)

/-- The attribute of this name is no longer on the element. -/
def detach (element : TreeNodeId) (ns localName : String) : AttributeRegistry :=
  match hid : registry.attached.get? (element, ns, localName) with
  | none => registry
  | some id =>
    { entries := registry.entries.modify id fun state => { state with owner := none }
      attached := registry.attached.erase (element, ns, localName)
      nextId := registry.nextId
      bound := fun other hother => by
        rw [Dict.get?_modify, registry.bound other hother]
        split_ifs <;> rfl
      owned := fun other state hget owner howner => by
        rw [Dict.get?_modify] at hget
        split_ifs at hget with hother
        · obtain ⟨old, -, rfl⟩ := Option.map_eq_some_iff.1 hget
          cases howner
        · obtain ⟨hattached, hhome⟩ := registry.owned other state hget owner howner
          refine ⟨?_, hhome⟩
          rw [Dict.get?_erase, if_neg, hattached]
          intro hkey
          rw [hkey, hid] at hattached
          exact hother (Option.some.inj hattached).symm }

/-- The identity attached at an element and a name, made on first access; `present` says whether the
element has the attribute, and `document` is the element's. -/
def attachedAttrId (element document : TreeNodeId) (ns localName : String) (present : Bool)
    (h : document.document = element.document) : AttributeRegistry × Option Nat :=
  if present then
    match hid : registry.attached.get? (element, ns, localName) with
    | some id => (registry, some id)
    | none =>
      let out := registry.create ⟨document, document, some element, ns, localName⟩
        fun owner howner => by
          obtain rfl := Option.some.inj howner
          exact ⟨hid, h⟩
      (out.1, some out.2)
  else (registry.detach element ns localName, none)

/-- Attaches the identity `id` to an element, in the place of the one that was there, which is given
back. -/
def attach (id : Nat) (element document : TreeNodeId) (h : document.document = element.document) :
    Except AttrAttachError (AttributeRegistry × Option Nat) :=
  match hentry : registry.entries.get? id with
  | none => .error .stale
  | some state =>
    if state.owner.any (· ≠ element) then .error .inUse
    else
      let key := (element, state.ns, state.localName)
      let previous := registry.attached.get? key
      if previous = some id then .ok (registry, previous)
      else
        let taken := registry.entries.insert id { state with owner := some element, document }
        .ok ({ entries := match previous with
                | some old => taken.modify old fun state => { state with owner := none }
                | none => taken
               attached := registry.attached.insert key id
               nextId := registry.nextId
               bound := fun other hother => by
                have hne : other ≠ id := by
                  rintro rfl
                  rw [registry.bound other hother] at hentry
                  cases hentry
                have htaken : taken.get? other = none := by
                  rw [Dict.get?_insert, if_neg hne, registry.bound other hother]
                cases previous with
                | none => exact htaken
                | some old =>
                  dsimp only
                  rw [Dict.get?_modify, htaken]
                  split_ifs <;> rfl
               owned := fun other state' hget owner howner => by
                -- what had the place has lost its owner
                have hother : previous ≠ some other ∧ taken.get? other = some state' := by
                  cases hprevious : previous with
                  | none =>
                    rw [hprevious] at hget
                    exact ⟨nofun, hget⟩
                  | some old =>
                    rw [hprevious] at hget
                    dsimp only at hget
                    rw [Dict.get?_modify] at hget
                    split_ifs at hget with hold
                    · obtain ⟨_, -, rfl⟩ := Option.map_eq_some_iff.1 hget
                      cases howner
                    · exact ⟨fun h => hold (Option.some.inj h).symm, hget⟩
                obtain ⟨hprevious, htaken⟩ := hother
                rw [Dict.get?_insert] at htaken
                split_ifs at htaken with hid
                · obtain rfl := Option.some.inj htaken
                  obtain rfl := Option.some.inj howner
                  exact ⟨by simp [key, hid], h⟩
                · obtain ⟨hattached, hhome⟩ := registry.owned other state' htaken owner howner
                  refine ⟨?_, hhome⟩
                  rw [Dict.get?_insert, if_neg, hattached]
                  intro hkey
                  rw [hkey] at hattached
                  exact hprevious hattached }, previous)

theorem get?_filter {K V : Type} [DecidableEq K] (m : Dict K V) (keep : K → V → Bool) (k : K) :
    (m.filter keep).get? k = (m.get? k).filter (keep k) := by
  ext v
  rw [Dict.get?_eq_some_iff, Option.filter_eq_some_iff, Dict.get?_eq_some_iff, Dict.filter,
    List.mem_filter]

/-- The identities of a document that is gone. -/
def forgetDocument (document : UInt32) : AttributeRegistry where
  entries := registry.entries.filter fun _ state => state.document.document ≠ document
  attached := registry.attached.retain fun key => key.1.document ≠ document
  nextId := registry.nextId
  bound id h := by
    rw [get?_filter, registry.bound id h]
    rfl
  owned id state hget owner howner := by
    rw [get?_filter, Option.filter_eq_some_iff] at hget
    obtain ⟨hget, hkept⟩ := hget
    obtain ⟨hattached, hhome⟩ := registry.owned id state hget owner howner
    refine ⟨?_, hhome⟩
    rw [Dict.get?_retain, if_pos, hattached]
    rwa [hhome] at hkept

end AttributeRegistry

variable {Base FormState : Type} [BlitzNodes Base FormState]

def attrState (registry : AttributeRegistry) (scope : TreeNodeId) (id : Nat) : Option AttrState :=
  (registry.entries.get? id).filter (·.scope = scope)

/-- Whether the element has an attribute of this name. -/
def elementAttribute (base : Base) (id : NodeId) (ns localName : String) : Bool :=
  match nodeData base id with
  | some (.element e) => e.attrs.any fun attr => attr.name.ns == ns && attr.name.localName == localName
  | _ => false

/-- The attached element of an attribute, or `none` when it is detached. -/
def attrOwner (store : DocumentStore Base) (registry : AttributeRegistry) (scope : TreeNodeId)
    (id : Nat) : Option TreeNodeId := do
  let state ← attrState registry scope id
  let owner ← state.owner
  let doc ← store.get owner.document
  if elementAttribute doc.base owner.node state.ns state.localName then some owner else none

theorem attrOwner_eq_some {store : DocumentStore Base} {registry : AttributeRegistry}
    {scope owner : TreeNodeId} {id : Nat} (h : attrOwner store registry scope id = some owner) :
    ∃ state doc, attrState registry scope id = some state ∧ state.owner = some owner ∧
      store.get owner.document = some doc ∧
      elementAttribute doc.base owner.node state.ns state.localName = true := by
  simp only [attrOwner, Option.bind_eq_bind, Option.bind_eq_some_iff] at h
  obtain ⟨state, hstate, owner', howner, doc, hdoc, hhas⟩ := h
  split_ifs at hhas with hattr
  obtain rfl := Option.some.inj hhas
  exact ⟨state, doc, hstate, howner, hdoc, hattr⟩

theorem eq_of_owner {registry : AttributeRegistry} {scope scope' owner : TreeNodeId} {id id' : Nat}
    {state state' : AttrState}
    (h : attrState registry scope id = some state) (h' : attrState registry scope' id' = some state')
    (howner : state.owner = some owner) (howner' : state'.owner = some owner)
    (hns : state.ns = state'.ns) (hlocal : state.localName = state'.localName) :
    scope = scope' ∧ id = id' := by
  obtain ⟨hget, hscope⟩ := Option.filter_eq_some_iff.1 h
  obtain ⟨hget', hscope'⟩ := Option.filter_eq_some_iff.1 h'
  have hattached := (registry.owned id state hget owner howner).1
  rw [hns, hlocal, (registry.owned id' state' hget' owner howner').1] at hattached
  obtain rfl := Option.some.inj hattached
  obtain rfl := Option.some.inj (hget.symm.trans hget')
  exact ⟨(of_decide_eq_true hscope).symm.trans (of_decide_eq_true hscope'), rfl⟩

end TinyBrowser.Dom
