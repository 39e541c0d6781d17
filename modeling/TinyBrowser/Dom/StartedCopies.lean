import Mathlib.Data.List.ReduceOption
import TinyBrowser.Dom.Copies
import TinyBrowser.Dom.Started

/-!
# Copies of finite subtrees and of started scripts

A finite subtree whose nodes can be copied has a snapshot, and what is made of it has the shape of
the subtree. A node of the copy reads as `copiedLabel` says of the node it is a copy of.

The walk in lockstep goes over a node and its copy together, so the copies of started scripts are
marked as long as the walk gets to them (`flags_of_copyScriptStarted`).
-/

namespace TinyBrowser.Dom
open Lib Blitz BlitzFragments BlitzNodes

section
variable {Base FormState : Type} [BlitzNodes Base FormState]

/-- The nodes below `id` that are copied with it. -/
def copiedChildren (base : Base) (id : NodeId) : List NodeId :=
  match nodeData base id with
  | some (.element e) => snapshotSource base id e
  | some .document | some .anonymousBlock | some (.fragment _) => childIds base id
  | _ => []

/-- A node that has a snapshot. -/
def copyable (base : Base) (id : NodeId) : Bool :=
  match nodeData base id with
  | none | some .document | some (.shadowRoot _) => false
  | _ => true

/-- How the copy of a node reads. -/
def copiedLabel (parsed : Parsed Base) (id : NodeId) : Option (Label FormState) :=
  match nodeData parsed.base id with
  | some (.element e) => some (.element e.name e.attrs (settled Base e.name e.attrs e.formState)
      (if isTemplateTag e.name then 0 else (childIds parsed.base id).length))
  | some .anonymousBlock => some .fragment
  | some (.processingInstruction target _ attributes) =>
    some (.processingInstruction target (toStringLossy (characterData parsed id)) attributes)
  | some (.cdataSection _) => some (.cdata (toStringLossy (characterData parsed id)))
  | _ => label parsed id

theorem copiedAll_eq (snapshots : List (ImportSnapshot FormState)) :
    ImportSnapshot.copiedAll Base snapshots = snapshots.map (ImportSnapshot.copied Base) := by
  induction snapshots with
  | nil => rfl
  | cons snapshot rest ih => rw [ImportSnapshot.copiedAll, ih, List.map_cons]

variable {parsed : Parsed Base}

omit [BlitzNodes Base FormState] in
theorem reduceOption_map_some (snapshots : List (ImportSnapshot FormState)) :
    (snapshots.map some).reduceOption = snapshots := by
  rw [List.reduceOption, List.filterMap_map]
  exact List.filterMap_some

theorem mapM_importSnapshot (parsed : Parsed Base) (fuel : Nat) {ts : List (Rose NodeId)}
    (h : ∀ t ∈ ts, ∃ snapshot : ImportSnapshot FormState,
      importSnapshot parsed fuel t.value true = some (some snapshot) ∧
        snapshot.copied Base = t.map (copiedLabel parsed)) :
    ∃ snapshots : List (ImportSnapshot FormState),
      ((ts.map Rose.value).mapM fun child => importSnapshot parsed fuel child true) =
        some (snapshots.map some) ∧
      snapshots.map (ImportSnapshot.copied Base) = ts.map (Rose.map (copiedLabel parsed)) := by
  induction ts with
  | nil => exact ⟨[], rfl, rfl⟩
  | cons t ts ih =>
    obtain ⟨hhead, htail⟩ := List.forall_mem_cons.1 h
    obtain ⟨snapshot, hsnapshot, hcopied⟩ := hhead
    obtain ⟨snapshots, hsnapshots, hall⟩ := ih htail
    refine ⟨snapshot :: snapshots, ?_, by rw [List.map_cons, List.map_cons, hcopied, hall]⟩
    rw [List.map_cons, List.mapM_cons, hsnapshot, hsnapshots]
    rfl

theorem importSnapshot_eq {s : Rose NodeId} (hs : s.Follows (copiedChildren parsed.base))
    (hcopyable : ∀ n ∈ s.values, copyable parsed.base n = true) {fuel : Nat}
    (hfuel : s.values.length ≤ fuel) :
    ∃ snapshot : ImportSnapshot FormState,
      importSnapshot parsed fuel s.value true = some (some snapshot) ∧
        snapshot.copied Base = s.map (copiedLabel parsed) := by
  induction s using Rose.induction generalizing fuel with
  | node n ts ih =>
    obtain ⟨hkids, hall⟩ := Rose.follows_node.1 hs
    obtain ⟨fuel, rfl⟩ : ∃ m, fuel = m + 1 :=
      ⟨fuel - 1, by rw [Rose.values_node, List.length_cons] at hfuel; omega⟩
    obtain ⟨snapshots, hsnapshots, hcopied⟩ := mapM_importSnapshot parsed fuel fun t ht => ih t ht (hall t ht)
        (fun m hm => hcopyable m (Rose.mem_values_of_kid ht hm))
        (Nat.le_of_lt_succ (Nat.lt_of_lt_of_le (Rose.length_values_lt ht) hfuel))
    have hlength : snapshots.length = (copiedChildren parsed.base n).length := by
      have hcongr := congrArg List.length hcopied
      rw [List.length_map, List.length_map] at hcongr
      rw [hcongr, ← hkids, List.length_map]
    have hn := hcopyable n (Rose.value_mem_values (.node n ts))
    -- A node with nothing below it that is copied is a leaf of the subtree.
    have hleaf : copiedChildren parsed.base n = [] → ts = [] := fun h =>
      List.map_eq_nil_iff.1 (hkids.trans h)
    show ∃ snapshot : ImportSnapshot FormState,
      importSnapshot parsed (fuel + 1) n true = some (some snapshot) ∧ _
    rw [Rose.map_node, importSnapshot, copiedLabel, label]
    rw [copyable] at hn
    rw [copiedChildren] at hkids hleaf hlength
    cases hd : nodeData parsed.base n with
    | none => simp [hd] at hn
    | some d =>
      cases d with
      | document | shadowRoot => simp [hd] at hn
      | element e =>
        rw [hd] at hkids hlength
        refine ⟨.element e.name e.attrs e.formState snapshots, ?_, ?_⟩
        · simp only [if_true, ← hkids, hsnapshots, Option.map_some, reduceOption_map_some]
        · rw [ImportSnapshot.copied, copiedAll_eq, hcopied, hlength]
          dsimp only [snapshotSource]
          split <;> rfl
      | anonymousBlock | fragment =>
        rw [hd] at hkids
        refine ⟨.fragment snapshots, ?_, ?_⟩
        · simp only [if_true, ← hkids, hsnapshots, Option.map_some, reduceOption_map_some]
        · rw [ImportSnapshot.copied, copiedAll_eq, hcopied]
      | text | comment | doctype | processingInstruction | cdataSection =>
        rw [hd] at hleaf
        obtain rfl := hleaf rfl
        exact ⟨_, rfl, rfl⟩

/-! ### The copy -/

/-- `t` is what is made of a snapshot: new nodes, which read as it says. -/
structure CopyOf (parsed parsed' : Parsed Base) (snapshot : ImportSnapshot FormState)
    (t : Rose NodeId) (made : NodeId) : Prop where
  value_eq : t.value = made
  follows : t.Follows (below parsed'.base)
  nodup : t.values.Nodup
  new : ∀ n ∈ t.values, nodeData parsed.base n = none
  walked : ∀ n ∈ t.values, childrenForWalk parsed'.base n = below parsed'.base n
  labels : t.map (label parsed') = snapshot.copied Base

theorem NewNode.childrenForWalk_eq {parsed' : Parsed Base} {n : NodeId}
    (h : NewNode parsed parsed' n) : childrenForWalk parsed'.base n = below parsed'.base n := by
  rw [childrenForWalk, below, contentsOf]
  cases hd : nodeData parsed'.base n with
  | none => exact (List.append_nil _).symm
  | some d =>
    cases d with
    | element e =>
      dsimp only
      cases htag : isTemplateTag e.name with
      | false => exact (List.append_nil _).symm
      | true =>
        obtain ⟨hkids, f, hf, -⟩ := h.contents e hd htag
        rw [Option.mem_def] at hf
        rw [if_pos rfl, if_pos rfl, hf, hkids]
        rfl
    | _ => exact (List.append_nil _).symm

theorem copyOf_materializeImport (laws : BlitzNodes.Laws Base) (htidy : ExactTidy parsed)
    (snapshot : ImportSnapshot FormState) :
    ∃ t, CopyOf parsed (materializeImport parsed snapshot).1 snapshot t
        (materializeImport parsed snapshot).2 ∧
      Grown parsed (materializeImport parsed snapshot).1 none [snapshot] [t] := by
  obtain ⟨t, hvalue, -, hgrown⟩ := madeOf_materializeImport laws htidy snapshot
  have hmem : ∀ n ∈ t.values, NewNode parsed (materializeImport parsed snapshot).1 n :=
    fun n hn => hgrown.nodes n (by simpa using hn)
  refine ⟨t, ⟨hvalue, hgrown.follows t (List.mem_singleton_self t), ?_, fun n hn =>
    (hmem n hn).absent, fun n hn => (hmem n hn).childrenForWalk_eq, ?_⟩, hgrown⟩
  · simpa using hgrown.nodup
  · exact (List.cons.inj hgrown.labels).1

/-! ### Elements -/

def Label.isElement : Label FormState → Bool
  | .element .. => true
  | _ => false

theorem isElement_eq (laws : BlitzNodes.Laws Base) (parsed : Parsed Base) (n : NodeId) :
    isElement parsed.base n = (label parsed n).any Label.isElement := by
  rw [isElement, laws.data_eq, label]
  cases nodeData parsed.base n with
  | none => rfl
  | some d => cases d <;> rfl

theorem isElement_copiedLabel (laws : BlitzNodes.Laws Base) (parsed : Parsed Base) (n : NodeId) :
    (copiedLabel parsed n).any Label.isElement = isElement parsed.base n := by
  rw [isElement_eq laws, copiedLabel, label]
  cases nodeData parsed.base n with
  | none => rfl
  | some d => cases d <;> rfl

theorem importSnapshot_shallow (laws : BlitzNodes.Laws Base) (parsed : Parsed Base) {n : NodeId}
    (hn : copyable parsed.base n = true) {fuel : Nat} (hfuel : 0 < fuel) :
    ∃ snapshot : ImportSnapshot FormState, importSnapshot parsed fuel n false = some (some snapshot) ∧
      ∃ l, snapshot.copied Base = .node l [] ∧ l.any Label.isElement = isElement parsed.base n := by
  obtain ⟨fuel, rfl⟩ : ∃ m, fuel = m + 1 := ⟨fuel - 1, by omega⟩
  rw [isElement_eq laws, label, importSnapshot]
  rw [copyable] at hn
  cases hd : nodeData parsed.base n with
  | none => simp [hd] at hn
  | some d =>
    cases d with
    | document | shadowRoot => simp [hd] at hn
    | _ => exact ⟨_, rfl, _, rfl, rfl⟩

end

variable {Base FormState : Type} [BlitzNodes Base FormState]

/-! ### The walk in lockstep -/

theorem copiedChildren_cases (base : Base) (n : NodeId) :
    copiedChildren base n = childrenForWalk base n ∨ copiedChildren base n = [] := by
  rw [copiedChildren, childrenForWalk]
  cases nodeData base n with
  | none => exact .inr rfl
  | some d =>
    cases d with
    | element e =>
      dsimp only
      rw [snapshotSource]
      cases isTemplateTag e.name with
      | false => exact .inl rfl
      | true =>
        cases e.templateContents with
        | none => exact .inr rfl
        | some f => exact .inl rfl
    | document | anonymousBlock | fragment => exact .inl rfl
    | _ => exact .inr rfl

theorem lockstep_of_copy {base base' : Base} {s t : Rose NodeId}
    (hs : s.Follows (copiedChildren base)) (ht : t.Follows (below base'))
    (hshape : s.shape = t.shape)
    (hwalked : ∀ n ∈ t.values, childrenForWalk base' n = below base' n) :
    (s.zip t).Follows (lockstepChildren base base') := by
  have hz := hs.zip ht
  obtain ⟨hfst, hsnd⟩ := Rose.map_zip hshape
  refine hz.congr fun p hp => ?_
  have hleft := hz.map_next (f := Prod.fst) (hfst ▸ hs) p hp
  have hright := hz.map_next (f := Prod.snd) (hsnd ▸ ht) p hp
  have hmem : p.2 ∈ t.values := by
    rw [← hsnd, Rose.values_map]
    exact List.mem_map_of_mem hp
  rw [lockstepChildren, hwalked p.2 hmem]
  rcases copiedChildren_cases base p.1 with h | h
  · rw [h]
  · rw [h, List.zip_nil_left, List.map_nil] at hright
    rw [← hright, List.zip_nil_right, List.zip_nil_right]

/-! ### What is marked -/

theorem foldl_copyFlag {order : List (NodeId × NodeId)} (doc : Scripted Base)
    (hne : ∀ p ∈ order, ∀ q ∈ order, p.2 ≠ q.1) :
    (order.foldl Scripted.copyFlag doc).toParsed = doc.toParsed ∧
      ∀ m, m ∈ (order.foldl Scripted.copyFlag doc).startedScripts ↔
        m ∈ doc.startedScripts ∨ ∃ p ∈ order, p.1 ∈ doc.startedScripts ∧ p.2 = m := by
  induction order generalizing doc with
  | nil => simp
  | cons p order ih =>
    have hstep : (doc.copyFlag p).toParsed = doc.toParsed ∧ ∀ m,
        m ∈ (doc.copyFlag p).startedScripts ↔
          m ∈ doc.startedScripts ∨ p.1 ∈ doc.startedScripts ∧ p.2 = m := by
      rw [Scripted.copyFlag, Scripted.scriptAlreadyStarted]
      split
      · rename_i hflag
        have hflag := of_decide_eq_true hflag
        refine ⟨rfl, fun m => ?_⟩
        rw [Scripted.markScriptStarted, Finset.mem_insert, eq_comm, or_comm]
        simp only [hflag, true_and]
      · rename_i hflag
        have hflag : p.1 ∉ doc.startedScripts := fun h => hflag (decide_eq_true h)
        refine ⟨rfl, fun m => ?_⟩
        simp only [hflag, false_and, or_false]
    obtain ⟨hparsed, hmem⟩ := ih (doc.copyFlag p) fun q hq r hr =>
      hne q (List.mem_cons_of_mem _ hq) r (List.mem_cons_of_mem _ hr)
    refine ⟨hparsed.trans hstep.1, fun m => ?_⟩
    -- The flag of a later original is as it was: no copy is an original.
    have hlater : ∀ q ∈ order, q.1 ∈ (doc.copyFlag p).startedScripts ↔ q.1 ∈ doc.startedScripts :=
      fun q hq => by
        rw [hstep.2]
        exact or_iff_left fun h => hne p List.mem_cons_self q (List.mem_cons_of_mem _ hq) h.2
    rw [List.foldl_cons, hmem, hstep.2, or_assoc, List.exists_mem_cons_iff]
    refine or_congr_right (or_congr_right (exists_congr fun q => and_congr_right fun hq => ?_))
    rw [hlater q hq]

theorem foldl_markScriptStarted (toMark : List NodeId) (doc : Scripted Base) :
    (toMark.foldl Scripted.markScriptStarted doc).toParsed = doc.toParsed ∧
      ∀ m, m ∈ (toMark.foldl Scripted.markScriptStarted doc).startedScripts ↔
        m ∈ doc.startedScripts ∨ m ∈ toMark := by
  induction toMark generalizing doc with
  | nil => simp
  | cons n toMark ih =>
    obtain ⟨hparsed, hmem⟩ := ih (doc.markScriptStarted n)
    refine ⟨hparsed, fun m => ?_⟩
    rw [List.foldl_cons, hmem, Scripted.markScriptStarted, Finset.mem_insert, List.mem_cons]
    tauto

theorem mem_foldl_collectFlagged (doc : Scripted Base) {order : List (NodeId × NodeId)}
    (toMark : List NodeId) (m : NodeId) :
    m ∈ order.foldl doc.collectFlagged toMark ↔
      m ∈ toMark ∨ ∃ p ∈ order, p.1 ∈ doc.startedScripts ∧ p.2 = m := by
  induction order generalizing toMark with
  | nil => simp
  | cons p order ih =>
    rw [List.foldl_cons, ih, List.exists_mem_cons_iff, Scripted.collectFlagged,
      Scripted.scriptAlreadyStarted, ← or_assoc]
    refine or_congr_left ?_
    split
    · rename_i hflag
      rw [List.mem_append, List.mem_singleton, and_iff_right (of_decide_eq_true hflag), eq_comm]
    · rename_i hflag
      exact (or_iff_left fun h => hflag (decide_eq_true h.1)).symm

/-- The flag is carried along the pairs that the walk gets to. -/
theorem copyScriptStarted_eq (doc : Scripted Base) {source target : NodeId}
    {w : Rose (NodeId × NodeId)} (hw : w.Follows (lockstepChildren doc.base doc.base))
    (hvalue : w.value = (source, target)) (hne : ∀ p ∈ w.values, ∀ q ∈ w.values, p.2 ≠ q.1)
    {fuel : Nat} (hfuel : w.values.length ≤ fuel) :
    ∃ doc', copyScriptStarted fuel doc source target = .ok doc' ∧ doc'.toParsed = doc.toParsed ∧
      ∀ m, m ∈ doc'.startedScripts ↔
        m ∈ doc.startedScripts ∨ ∃ p ∈ w.values, p.1 ∈ doc.startedScripts ∧ p.2 = m := by
  rw [copyScriptStarted]
  split
  · rename_i hempty
    exact ⟨doc, rfl, rfl, fun m => by simp [hempty]⟩
  obtain ⟨order, hperm, hsweep⟩ :=
    sweep_eq Scripted.copyFlag (List.forall_mem_singleton.2 hw)
  rw [List.flatMap_singleton] at hperm
  rw [List.map_singleton, hvalue] at hsweep
  obtain ⟨hparsed, hmem⟩ := foldl_copyFlag doc fun p hp q hq =>
    hne p (hperm.mem_iff.1 hp) q (hperm.mem_iff.1 hq)
  refine ⟨order.foldl Scripted.copyFlag doc, ?_, hparsed, fun m => ?_⟩
  · rw [hsweep fuel doc (hperm.length_eq.trans_le hfuel)]
    rfl
  · rw [hmem]
    simp only [hperm.mem_iff]

/-! ### Documents -/

/-- Only elements have started, and exact units are kept where they are needed. -/
structure Scripted.Sound (doc : Scripted Base) : Prop where
  tidy : ExactTidy doc.toParsed
  started : ∀ n ∈ doc.startedScripts, isElement doc.base n = true

def DocumentStore.Sound (store : DocumentStore Base) : Prop :=
  ∀ id doc, store.get id = some doc → doc.Sound

omit [BlitzNodes Base FormState] in
theorem DocumentStore.get_set (store : DocumentStore Base) (id id' : UInt32) (doc : Scripted Base) :
    (store.set id doc).get id' = if id' = id then some doc else store.get id' := by
  rw [get, set, Dict.get?_insert]
  rfl

omit [BlitzNodes Base FormState] in
theorem DocumentStore.get_insert (store : DocumentStore Base) (id' : UInt32) (doc : Scripted Base) :
    (store.insert doc).1.get id' =
      if id' = (store.insert doc).2 then some doc else store.get id' := by
  rw [get, insert, Dict.get?_insert]
  rfl

theorem DocumentStore.Sound.set {store : DocumentStore Base} (h : store.Sound) {id : UInt32}
    {doc : Scripted Base} (hdoc : doc.Sound) : (store.set id doc).Sound := by
  intro id' doc' hget
  rw [DocumentStore.get_set] at hget
  split at hget
  · exact Option.some.inj hget ▸ hdoc
  · exact h id' doc' hget

theorem DocumentStore.Sound.insert {store : DocumentStore Base} (h : store.Sound)
    {doc : Scripted Base} (hdoc : doc.Sound) : (store.insert doc).1.Sound := by
  intro id' doc' hget
  rw [DocumentStore.get_insert] at hget
  split at hget
  · exact Option.some.inj hget ▸ hdoc
  · exact h id' doc' hget

variable (laws : BlitzNodes.Laws Base)

include laws in
theorem Scripted.Sound.of_marked {doc doc' : Scripted Base} (h : doc.Sound)
    (htidy : ExactTidy doc'.toParsed)
    (hkept : ∀ n, nodeData doc.base n ≠ none → nodeData doc'.base n = nodeData doc.base n)
    (hmarked : ∀ n ∈ doc'.startedScripts, n ∈ doc.startedScripts ∨ isElement doc'.base n = true) :
    doc'.Sound := by
  refine ⟨htidy, fun n hn => (hmarked n hn).elim (fun hold => ?_) id⟩
  have helement := h.started n hold
  rw [isElement, laws.data_eq] at helement ⊢
  rwa [hkept n]
  intro hnone
  simp [hnone] at helement

include laws in
theorem not_started_of_new {doc : Scripted Base} (h : doc.Sound) {n : NodeId}
    (hn : nodeData doc.base n = none) : n ∉ doc.startedScripts := by
  intro hstarted
  have helement := h.started n hstarted
  rw [isElement, laws.data_eq, hn] at helement
  simp at helement

/-! ### Flags -/

/-- The copies of flagged nodes are flagged when the walk gets to all of them. -/
theorem flags_iff {source target target' : Scripted Base} {s t : Rose NodeId}
    (hshape : s.shape = t.shape) (hnodup : t.values.Nodup)
    (hnew : ∀ n ∈ t.values, n ∉ target.startedScripts) {marked : List (NodeId × NodeId)}
    (hsub : ∀ p ∈ marked, p ∈ (s.zip t).values)
    (hmem : ∀ m, m ∈ target'.startedScripts ↔
      m ∈ target.startedScripts ∨ ∃ p ∈ marked, p.1 ∈ source.startedScripts ∧ p.2 = m) :
    t.map target'.scriptAlreadyStarted = s.map source.scriptAlreadyStarted ↔
      ∀ p ∈ (s.zip t).values, p.1 ∈ source.startedScripts → p ∈ marked := by
  have hflag : ∀ n ∈ t.values, target'.scriptAlreadyStarted n = true ↔
      ∃ p ∈ marked, source.scriptAlreadyStarted p.1 = true ∧ p.2 = n := fun n hn => by
    simp only [Scripted.scriptAlreadyStarted, decide_eq_true_eq]
    rw [hmem, or_iff_right (hnew n hn)]
  rw [Rose.map_eq_map_iff_of_marked hshape hnodup hsub hflag]
  simp only [Scripted.scriptAlreadyStarted, decide_eq_true_eq]

/-- `copy` is the root of what became of the subtree `s` of `source`, and the flags there are the
ones in `s` when `keeps` holds. -/
structure CopiedIn (source : Scripted Base) (s : Rose NodeId) (keeps : Prop) (doc' : Scripted Base)
    (copy : NodeId) : Prop where
  sound : doc'.Sound
  flags : ∃ t : Rose NodeId, t.value = copy ∧ t.Follows (below doc'.base) ∧
    (t.map doc'.scriptAlreadyStarted = s.map source.scriptAlreadyStarted ↔ keeps)

omit [BlitzNodes Base FormState] in
theorem unflagged_iff {started : Finset NodeId} {s t : Rose NodeId} (hshape : s.shape = t.shape) :
    (∀ p ∈ (s.zip t).values, p.1 ∈ started → p ∈ ([] : List (NodeId × NodeId))) ↔
      ∀ n ∈ s.values, n ∉ started := by
  rw [← (Rose.values_zip hshape).1, List.forall_mem_map]
  simp only [List.not_mem_nil, imp_false]

section
variable {source target doc' : Scripted Base} {s t : Rose NodeId} {made : NodeId}
  {snapshot : ImportSnapshot FormState} {parsed' : Parsed Base}

include laws

theorem CopyOf.kinds (h : CopyOf target.toParsed parsed' snapshot t made)
    (hkinds : (snapshot.copied Base).map (Option.any Label.isElement) =
      s.map (isElement source.base)) :
    s.shape = t.shape ∧
      ∀ p ∈ (s.zip t).values, isElement parsed'.base p.2 = isElement source.base p.1 := by
  have hmap : t.map (isElement parsed'.base) = s.map (isElement source.base) := by
    rw [← hkinds, ← h.labels, Rose.map_map]
    exact Rose.map_congr fun n _ => isElement_eq laws parsed' n
  have hshape := (Rose.shape_eq_of_map_eq hmap).symm
  exact ⟨hshape, (Rose.map_eq_map_zip hshape).1 hmap⟩

/-- What is made of a snapshot, with some of the copies marked. -/
theorem copiedIn_of_copyOf (hsource : source.Sound) (htarget : target.Sound)
    (hcopy : CopyOf target.toParsed parsed' snapshot t made)
    (hgrown : Grown target.toParsed parsed' none [snapshot] [t])
    (hkinds : (snapshot.copied Base).map (Option.any Label.isElement) =
      s.map (isElement source.base))
    (hparsed : doc'.toParsed = parsed') (marked : List (NodeId × NodeId))
    (hsub : ∀ p ∈ marked, p ∈ (s.zip t).values)
    (hmem : ∀ m, m ∈ doc'.startedScripts ↔
      m ∈ target.startedScripts ∨ ∃ p ∈ marked, p.1 ∈ source.startedScripts ∧ p.2 = m) :
    CopiedIn source s (∀ p ∈ (s.zip t).values, p.1 ∈ source.startedScripts → p ∈ marked) doc'
      made := by
  subst hparsed
  obtain ⟨hshape, helements⟩ := hcopy.kinds laws hkinds
  refine ⟨htarget.of_marked laws hgrown.tidy hgrown.nodeData_eq fun n hn => ?_,
    t, hcopy.value_eq, hcopy.follows, flags_iff hshape hcopy.nodup
      (fun n hn => not_started_of_new laws htarget (hcopy.new n hn)) hsub hmem⟩
  refine ((hmem n).1 hn).imp_right fun ⟨p, hp, hflagged, heq⟩ => ?_
  rw [← heq, helements p (hsub p hp)]
  exact hsource.started p.1 hflagged

end

/-! ### Clones within a document -/

theorem live_of_copyable {base : Base} {n : NodeId} (h : copyable base n = true) :
    nodeData base n ≠ none := by
  intro hnone
  rw [copyable, hnone] at h
  cases h

theorem CopiedIn.of_iff {source doc' : Scripted Base} {s : Rose NodeId} {keeps keeps' : Prop}
    {copy : NodeId} (h : CopiedIn source s keeps doc' copy) (hiff : keeps ↔ keeps') :
    CopiedIn source s keeps' doc' copy := by
  obtain ⟨t, hvalue, hfollows, hflags⟩ := h.flags
  exact ⟨h.sound, t, hvalue, hfollows, hflags.trans hiff⟩

/-- What a node holds, apart from which node has its contents. -/
def cloneLabel (base : Base) (n : NodeId) : Option (FullNodeData FormState) × Nat :=
  ((nodeData base n).map fun
    | .element e => .element { e with templateContents := e.templateContents.map fun _ => 0 }
    | d => d, (childIds base n).length)

/-- The children that the walk goes past: a template's own, when it has contents. -/
def passedOver : Option (FullNodeData FormState) × Nat → Nat
  | (some (.element e), own) => if isTemplateTag e.name && e.templateContents.isSome then own else 0
  | _ => 0

/-- `out` is a deep clone of the subtree `s`: new nodes that hold what those of `s` hold, with the
children and the contents copied; the nodes that were there stay as they were. -/
structure DeepCloned (base : Base) (s : Rose NodeId) (out : Base × NodeId) : Prop where
  clone : ∃ t : Rose NodeId, t.value = out.2 ∧ t.Follows (below out.1) ∧ t.values.Nodup ∧
    (∀ n ∈ t.values, nodeData base n = none) ∧ t.map (cloneLabel out.1) = s.map (cloneLabel base)
  nodeData_eq : ∀ n, nodeData base n ≠ none → nodeData out.1 n = nodeData base n
  childIds_eq : ∀ n ∈ s.values, childIds out.1 n = childIds base n
  below_eq : ∀ n ∈ s.values, below out.1 n = below base n

theorem childrenForWalk_eq_drop (base : Base) (n : NodeId) :
    childrenForWalk base n = (below base n).drop (passedOver (cloneLabel base n)) := by
  rw [childrenForWalk, below, contentsOf, cloneLabel]
  cases nodeData base n with
  | none => exact (List.append_nil _).symm
  | some d =>
    cases d with
    | element e =>
      simp only [Option.map_some, passedOver, Option.isSome_map]
      cases isTemplateTag e.name with
      | false => simp
      | true => cases e.templateContents <;> simp
    | _ => exact (List.append_nil _).symm

section
variable {deepCloneNode : Base → NodeId → Base × NodeId} {doc : Scripted Base} {id : NodeId}
include laws

theorem cloneWithinDocument_shallow (deepCloneNode : Base → NodeId → Base × NodeId)
    (hdoc : doc.Sound) (hid : copyable doc.base id = true) {fuel : Nat} (hfuel : 0 < fuel) :
    ∃ doc' copy, cloneWithinDocument deepCloneNode fuel doc id false = .ok (doc', copy) ∧
      CopiedIn doc (.node id []) True doc' copy := by
  obtain ⟨snapshot, hsnapshot, l, hcopied, helement⟩ :=
    importSnapshot_shallow laws doc.toParsed hid hfuel
  obtain ⟨t, hcopy, hgrown⟩ := copyOf_materializeImport laws hdoc.tidy snapshot
  set made := materializeImport doc.toParsed snapshot with hmade
  obtain ⟨n, ts⟩ := t
  obtain rfl : n = made.2 := hcopy.value_eq
  obtain rfl : ts = [] := by
    have hlabels := hcopy.labels
    rw [hcopied, Rose.map_node] at hlabels
    exact List.map_eq_nil_iff.1 (Rose.node.inj hlabels).2
  have hnew := hcopy.new made.2 (Rose.value_mem_values (.node made.2 []))
  have hne : made.2 ≠ id := fun he => live_of_copyable hid (he ▸ hnew)
  have hbelow := (Rose.follows_node.1 hcopy.follows).1
  have hwalked := hcopy.walked made.2 (Rose.value_mem_values (.node made.2 []))
  have hw : (Rose.node (id, made.2) []).Follows (lockstepChildren made.1.base made.1.base) := by
    rw [Rose.follows_node, lockstepChildren, hwalked, ← hbelow]
    exact ⟨List.zip_nil_right.symm, nofun⟩
  obtain ⟨doc', hcopied', hparsed, hmem⟩ := copyScriptStarted_eq (doc.withParsed made.1) hw rfl
    (by simpa [Rose.values_node] using hne) hfuel
  refine ⟨doc', made.2, ?_, ?_⟩
  · rw [cloneWithinDocument, if_neg Bool.false_ne_true, snapshotOr, hsnapshot]
    show (do let doc ← copyScriptStarted fuel (doc.withParsed made.1) id made.2; return (doc, made.2))
      = _
    rw [hcopied']
    rfl
  · refine (copiedIn_of_copyOf laws hdoc hdoc hcopy hgrown ?_ hparsed
      [(id, made.2)] ?_ ?_).of_iff (iff_true_intro ?_)
    · rw [hcopied, Rose.map_node, Rose.map_node, helement]
      rfl
    · simp [Rose.zip_node, Rose.values_node]
    · simpa [Rose.values_node] using hmem
    · simp [Rose.zip_node, Rose.values_node]

omit laws in
theorem data_eq_of_cloneLabel (laws : BlitzNodes.Laws Base) {base base' : Base} {n n' : NodeId}
    (h : cloneLabel base n = cloneLabel base' n') : data base n = data base' n' := by
  have hkind : ∀ (base : Base) n,
      data base n = (cloneLabel base n).1.map FullNodeData.kind := fun base n => by
    rw [laws.data_eq, cloneLabel]
    cases nodeData base n with
    | none => rfl
    | some d => cases d <;> rfl
  rw [hkind, hkind, h]

omit laws in
/-- The walk goes past the own children of the templates that have contents. -/
theorem lockstep_of_deepCloned {base : Base} {s t : Rose NodeId} {out : Base × NodeId}
    (h : DeepCloned base s out) (hs : s.Follows (below base))
    (hlive : ∀ n ∈ s.values, nodeData base n ≠ none) (ht : t.Follows (below out.1))
    (hlabels : t.map (cloneLabel out.1) = s.map (cloneLabel base)) :
    ((s.zip t).trim fun p => passedOver (cloneLabel base p.1)).Follows
      (lockstepChildren out.1 out.1) := by
  have hshape := (Rose.shape_eq_of_map_eq hlabels).symm
  have hpairs := (Rose.map_eq_map_zip hshape).1 hlabels
  refine (hs.zip ht).trim fun p hp => ?_
  have hmem : p.1 ∈ s.values := by
    rw [← (Rose.values_zip hshape).1]
    exact List.mem_map_of_mem hp
  have hlabel : cloneLabel out.1 p.1 = cloneLabel base p.1 := by
    rw [cloneLabel, cloneLabel, h.nodeData_eq p.1 (hlive p.1 hmem), h.childIds_eq p.1 hmem]
  rw [lockstepChildren, childrenForWalk_eq_drop, childrenForWalk_eq_drop, hpairs p hp, hlabel,
    h.below_eq p.1 hmem]
  exact List.drop_zipWith.symm

theorem cloneWithinDocument_deep (hdoc : doc.Sound) {s : Rose NodeId}
    (hs : s.Follows (below doc.base)) (hvalue : s.value = id)
    (hlive : ∀ n ∈ s.values, nodeData doc.base n ≠ none)
    (hclone : DeepCloned doc.base s (deepCloneNode doc.base id)) {fuel : Nat}
    (hfuel : s.values.length ≤ fuel) :
    ∃ doc' copy, cloneWithinDocument deepCloneNode fuel doc id true = .ok (doc', copy) ∧
      CopiedIn doc s (∀ n ∈ s.skipped fun n => passedOver (cloneLabel doc.base n),
        n ∉ doc.startedScripts) doc' copy := by
  obtain ⟨t, hvalue', ht, hnodup, hnew, hlabels⟩ := hclone.clone
  set out := deepCloneNode doc.base id with hout
  have hshape := (Rose.shape_eq_of_map_eq hlabels).symm
  have hpairs := (Rose.map_eq_map_zip hshape).1 hlabels
  have hvalues := Rose.values_zip hshape
  set k : NodeId × NodeId → Nat := fun p => passedOver (cloneLabel doc.base p.1) with hk
  have hw := lockstep_of_deepCloned hclone hs hlive ht hlabels
  have hmem : ∀ p ∈ (s.zip t).values, p.1 ∈ s.values ∧ p.2 ∈ t.values := fun p hp =>
    ⟨hvalues.1 ▸ List.mem_map_of_mem hp, hvalues.2 ▸ List.mem_map_of_mem hp⟩
  have hsub : ∀ p ∈ ((s.zip t).trim k).values, p ∈ (s.zip t).values := fun p =>
    Rose.mem_values_of_trim
  have hlength : ((s.zip t).trim k).values.length ≤ s.values.length := by
    have hperm := (Rose.values_perm k (s.zip t)).length_eq
    rw [List.length_append] at hperm
    rw [← hvalues.1, List.length_map]
    omega
  have hne : ∀ p ∈ ((s.zip t).trim k).values, ∀ q ∈ ((s.zip t).trim k).values, p.2 ≠ q.1 :=
    fun p hp q hq he => hlive q.1 (hmem q (hsub q hq)).1 (he ▸ hnew p.2 (hmem p (hsub p hp)).2)
  obtain ⟨doc', hcopied, hparsed, hflags⟩ := copyScriptStarted_eq
    (doc.withParsed (doc.withBase out.1)) hw
    (by rw [Rose.value_trim, Rose.value_zip, hvalue, hvalue']) hne (hlength.trans hfuel)
  refine ⟨doc', out.2, ?_, ?_, t, hvalue', ?_, ?_⟩
  · rw [cloneWithinDocument, if_pos rfl]
    show (do let doc ← copyScriptStarted fuel (doc.withParsed (doc.withBase out.1)) id out.2
             return (doc, out.2)) = _
    rw [hcopied]
    rfl
  · have hbase : doc'.base = out.1 := congrArg Parsed.base hparsed
    refine hdoc.of_marked laws ?_ (fun n hn => ?_) fun n hn => ?_
    · rw [hparsed]
      exact hdoc.tidy.mono laws hclone.nodeData_eq fun m u hm => .inl hm
    · rw [hbase]
      exact hclone.nodeData_eq n hn
    · refine ((hflags n).1 hn).imp_right fun ⟨p, hp, hflagged, heq⟩ => ?_
      rw [← heq, hbase, isElement, data_eq_of_cloneLabel laws (hpairs p (hsub p hp))]
      exact hdoc.started p.1 hflagged
  · rw [hparsed]
    exact ht
  · have hiff : t.map doc'.scriptAlreadyStarted = s.map doc.scriptAlreadyStarted ↔ _ :=
      flags_iff hshape hnodup (fun n hn => not_started_of_new laws hdoc (hnew n hn)) hsub hflags
    rw [hiff, Rose.forall_mem_trim_iff (List.Nodup.of_map Prod.snd (hvalues.2 ▸ hnodup))]
    conv_rhs => rw [← (Rose.map_zip hshape).1, Rose.skipped_map]
    rw [List.forall_mem_map]

end

/-! ### Clones of script -/

section
variable {deepCloneNode : Base → NodeId → Base × NodeId} {blank : Base} {doc : Scripted Base}
  {store : DocumentStore Base}

include laws

theorem nodeIsShadowRoot_of_copyable {base : Base} {n : NodeId} (h : copyable base n = true) :
    nodeIsShadowRoot base n = false := by
  rw [copyable] at h
  rw [nodeIsShadowRoot, laws.data_eq]
  cases hd : nodeData base n with
  | none => rfl
  | some d =>
    cases d with
    | shadowRoot host => simp [hd] at h
    | _ => rfl

theorem cloneNode_deep {id : TreeNodeId} (hget : store.get id.document = some doc)
    (hdoc : doc.Sound) (hroot : id.node ≠ rootNode doc.base) {s : Rose NodeId}
    (hs : s.Follows (copiedChildren doc.base)) (hvalue : s.value = id.node)
    (hcopyable : ∀ n ∈ s.values, copyable doc.base n = true) {fuel : Nat}
    (hfuel : s.values.length ≤ fuel) :
    ∃ doc' copy, cloneNode deepCloneNode blank fuel store id true =
        .ok (store.set id.document doc', ⟨id.document, copy⟩) ∧
      CopiedIn doc s (∀ n ∈ s.values, n ∉ doc.startedScripts) doc' copy := by
  obtain ⟨snapshot, hsnapshot, hcopied⟩ := importSnapshot_eq hs hcopyable hfuel
  obtain ⟨t, hcopy, hgrown⟩ := copyOf_materializeImport laws hdoc.tidy snapshot
  have hkinds : (snapshot.copied Base).map (Option.any Label.isElement) =
      s.map (isElement doc.base) := by
    rw [hcopied, Rose.map_map]
    exact Rose.map_congr fun n _ => isElement_copiedLabel laws doc.toParsed n
  have hnode := hcopyable id.node (hvalue ▸ s.value_mem_values)
  rw [hvalue] at hsnapshot
  refine ⟨doc.withParsed (materializeImport doc.toParsed snapshot).1, _, ?_,
    (copiedIn_of_copyOf laws hdoc hdoc hcopy hgrown hkinds rfl [] nofun (by simp)).of_iff
      (unflagged_iff (hcopy.kinds laws hkinds).1)⟩
  rw [cloneNode, hget]
  dsimp only
  rw [if_neg hroot, nodeIsShadowRoot_of_copyable laws hnode, if_pos rfl, snapshotOr, hsnapshot]
  rfl

theorem cloneNode_shallow {id : TreeNodeId} (hget : store.get id.document = some doc)
    (hdoc : doc.Sound) (hroot : id.node ≠ rootNode doc.base)
    (hnode : copyable doc.base id.node = true) {fuel : Nat} (hfuel : 0 < fuel) :
    ∃ doc' copy, cloneNode deepCloneNode blank fuel store id false =
        .ok (store.set id.document doc', ⟨id.document, copy⟩) ∧
      CopiedIn doc (.node id.node []) True doc' copy := by
  obtain ⟨doc', copy, hclone, hcopied⟩ :=
    cloneWithinDocument_shallow laws deepCloneNode hdoc hnode hfuel
  refine ⟨doc', copy, ?_, hcopied⟩
  rw [cloneNode, hget]
  dsimp only
  rw [if_neg hroot, nodeIsShadowRoot_of_copyable laws hnode, if_neg Bool.false_ne_true, hclone]
  rfl

end

/-! ### Adoption -/

section
variable {store : DocumentStore Base} {source target : Scripted Base} {parent node : TreeNodeId}

include laws

/-- Detaching takes the node out of the children of its parent, and changes no node. -/
theorem detachForAdopt_eq (parsed : Parsed Base) (id : NodeId) :
    ∃ detached, detachForAdopt parsed id = .ok detached ∧
      nodeData detached.base = nodeData parsed.base ∧
      detached.side.exactText = parsed.side.exactText ∧
      ∀ n, childIds detached.base n = (childIds parsed.base n).erase id := by
  rw [detachForAdopt]
  cases hparent : parentOf parsed.base id with
  | none =>
    refine ⟨parsed, rfl, rfl, rfl, fun n => (List.erase_of_not_mem ?_).symm⟩
    exact Forest.not_mem_children_of_root hparent
  | some parent =>
    obtain ⟨position, hposition⟩ : ∃ position, childIndex parsed.base parent id = some position :=
      Option.isSome_iff_exists.1 (List.isSome_idxOf?.2 (Forest.mem_children _ |>.2 hparent))
    dsimp only
    rw [hposition]
    -- The live ranges are adjusted or left; neither touches the nodes.
    have hadjusted : ∀ mid : Parsed Base, mid.base = parsed.base →
        mid.side.exactText = parsed.side.exactText → ∀ entry : JournalEntry,
        nodeData ((mid.withBase (removeNode mid.base id)).record entry).base =
            nodeData parsed.base ∧
          ((mid.withBase (removeNode mid.base id)).record entry).side.exactText =
            parsed.side.exactText ∧
          ∀ n, childIds ((mid.withBase (removeNode mid.base id)).record entry).base n =
            (childIds parsed.base n).erase id := fun mid hbase hexact entry => by
      rw [Parsed.base_record, Parsed.base_withBase, laws.nodeData_removeNode, hbase,
        Parsed.exactText_record, Parsed.exactText_withBase, hexact]
      refine ⟨rfl, rfl, fun n => ?_⟩
      rw [childIds, laws.tree_removeNode]
      rfl
    refine ⟨_, rfl, hadjusted _ ?_ ?_ _⟩
    · split <;> rfl
    · split <;> rfl

theorem adoptAcrossStore_eq (hsound : store.Sound) (hne : node.document ≠ parent.document)
    (hsource : store.get node.document = some source)
    (htarget : store.get parent.document = some target) {s : Rose NodeId}
    (hs : s.Follows (copiedChildren source.base)) (hvalue : s.value = node.node)
    (hcopyable : ∀ n ∈ s.values, copyable source.base n = true) {fuel : Nat}
    (hfuel : s.values.length ≤ fuel) :
    ∃ store' target' copy, adoptAcrossStore fuel store parent node =
        .ok (store', ⟨parent.document, copy⟩) ∧ store'.Sound ∧
      store'.get parent.document = some target' ∧ CopiedIn source s True target' copy := by
  have hsourceSound := hsound _ _ hsource
  have htargetSound := hsound _ _ htarget
  obtain ⟨snapshot, hsnapshot, hcopied⟩ := importSnapshot_eq hs hcopyable hfuel
  obtain ⟨detached, hdetach, hdata, hexact, hkids⟩ :=
    detachForAdopt_eq laws source.toParsed node.node
  obtain ⟨t, hcopy, hgrown⟩ := copyOf_materializeImport laws htargetSound.tidy snapshot
  set made := materializeImport target.toParsed snapshot with hmade
  have hkinds : (snapshot.copied Base).map (Option.any Label.isElement) =
      s.map (isElement source.base) := by
    rw [hcopied, Rose.map_map]
    exact Rose.map_congr fun n _ => isElement_copiedLabel laws source.toParsed n
  have hshape := (hcopy.kinds laws hkinds).1
  -- The subtree stays as it was: its root is below none of its nodes.
  have hdetached : s.Follows (copiedChildren detached.base) := hs.congr fun n hn => by
    have hroot := hs.value_not_mem n hn
    rw [hvalue] at hroot
    have herase : copiedChildren detached.base n =
        (copiedChildren source.base n).erase node.node := by
      rw [copiedChildren, copiedChildren, hdata]
      cases nodeData source.base n with
      | none => rfl
      | some d =>
        cases d with
        | element e =>
          dsimp only [snapshotSource]
          split
          · cases e.templateContents with
            | none => rfl
            | some f => exact hkids f
          · exact hkids n
        | document | anonymousBlock | fragment => exact hkids n
        | _ => rfl
    rw [herase, List.erase_of_not_mem hroot]
  have hw := lockstep_of_copy hdetached hcopy.follows hshape hcopy.walked
  obtain ⟨order, hperm, hsweep⟩ :=
    sweep_eq (source.withParsed detached).collectFlagged (List.forall_mem_singleton.2 hw)
  rw [List.flatMap_singleton] at hperm
  rw [List.map_singleton, Rose.value_zip, hvalue, hcopy.value_eq] at hsweep
  have hlength : order.length ≤ fuel := by
    rw [hperm.length_eq, ← List.length_map, (Rose.values_zip hshape).1]
    exact hfuel
  set toMark := order.foldl (source.withParsed detached).collectFlagged [] with htoMark
  obtain ⟨hparsed, hmem⟩ := foldl_markScriptStarted toMark (target.withParsed made.1)
  set target' := toMark.foldl Scripted.markScriptStarted (target.withParsed made.1) with htarget'
  have hcopiedIn := copiedIn_of_copyOf laws hsourceSound htargetSound hcopy hgrown hkinds hparsed
    (s.zip t).values (fun _ hp => hp) fun m => by
      rw [hmem, htoMark, mem_foldl_collectFlagged]
      simp only [List.not_mem_nil, false_or, hperm.mem_iff]
      rfl
  have hdetachedSound : (source.withParsed detached).Sound := by
    refine hsourceSound.of_marked laws ?_ (fun n _ => congrFun hdata n) fun n hn => .inl hn
    exact hsourceSound.tidy.mono laws (fun n _ => congrFun hdata n) fun m u hm => .inl (hexact ▸ hm)
  refine ⟨(store.set node.document (source.withParsed detached)).set parent.document target',
    target', made.2, ?_, (hsound.set hdetachedSound).set hcopiedIn.sound, ?_,
    hcopiedIn.of_iff (iff_true_intro fun _ hp _ => hp)⟩
  · have hgettarget : (store.set node.document (source.withParsed detached)).get parent.document =
        some target := by
      rw [DocumentStore.get_set, if_neg hne.symm, htarget]
    rw [hvalue] at hsnapshot
    have hsweep := hsweep fuel [] hlength
    simp only [adoptAcrossStore, if_neg hne, hsource, Option.elim_some, snapshotOr, hsnapshot, hdetach,
      hgettarget, bind, Except.bind, pure, Except.pure]
    rw [← hmade, show (source.withParsed detached).base = detached.base from rfl,
      show (target.withParsed made.1).base = made.1.base from rfl, hsweep]
    rfl
  · rw [DocumentStore.get_set, if_pos rfl]

end

/-! ### Clones of documents -/

section
variable {blank : Base} {store : DocumentStore Base} {doc : Scripted Base}

include laws

theorem nodeData_rootNode (base : Base) : nodeData base (rootNode base) = some .document := by
  have hroot := laws.data_rootNode base
  rw [laws.data_eq] at hroot
  obtain ⟨d, hd, hkind⟩ := Option.map_eq_some_iff.1 hroot
  cases d <;> first | exact hd | cases hkind

/-- A new document with nodes made of snapshots under its root. -/
theorem copiedIn_of_snapshots (hblank : childIds blank (rootNode blank) = [])
    {snapshots : List (ImportSnapshot FormState)} {root : NodeId} {us : List (Rose NodeId)}
    (hcopied : snapshots.map (ImportSnapshot.copied Base) =
      us.map (Rose.map (copiedLabel doc.toParsed))) :
    let parsed : Parsed Base := ⟨blank, ⟨[], 0, false, .ofList [], .empty⟩⟩
    CopiedIn doc (.node root us) (∀ n ∈ (Rose.node root us).values, n ∉ doc.startedScripts)
      ⟨materializeInto parsed (rootNode blank) snapshots, ∅⟩ (rootNode blank) := by
  intro parsed
  have hdata := nodeData_rootNode laws blank
  have hlive : nodeData parsed.base (rootNode blank) ≠ none := by
    rw [show parsed.base = blank from rfl, hdata]
    exact nofun
  have htidy : ExactTidy parsed := fun n u hu => nomatch hu
  obtain ⟨ts, hkids, hgrown⟩ := grown_materializeInto laws htidy hlive snapshots
  set parsed' := materializeInto parsed (rootNode blank) snapshots with hparsed'
  have hdata' : nodeData parsed'.base (rootNode blank) = some .document :=
    (hgrown.nodeData_eq _ hlive).trans hdata
  have hshape : (Rose.node root us).shape = (Rose.node (rootNode blank) ts).shape := by
    have hlabels := congrArg (List.map Rose.shape) hgrown.labels
    rw [copiedAll_eq, hcopied, List.map_map, List.map_map] at hlabels
    rw [Rose.shape_node, Rose.shape_node]
    refine congrArg _ (Eq.trans ?_ (hlabels.symm.trans ?_))
    · exact List.map_congr_left fun u _ => (Rose.shape_map _ u).symm
    · exact List.map_congr_left fun t _ => Rose.shape_map _ t
  have hnodup : (Rose.node (rootNode blank) ts).values.Nodup := by
    rw [Rose.values_node]
    exact List.nodup_cons.2 ⟨hgrown.notMem_values hlive, hgrown.nodup⟩
  set doc' : Scripted Base := ⟨parsed', ∅⟩ with hdoc'
  have hnone : ∀ n, n ∉ doc'.startedScripts := Finset.notMem_empty
  have hmem : ∀ m, m ∈ doc'.startedScripts ↔ m ∈ doc'.startedScripts ∨
      ∃ p ∈ ([] : List (NodeId × NodeId)), p.1 ∈ doc.startedScripts ∧ p.2 = m := by simp
  have hiff := flags_iff hshape hnodup (fun n _ => hnone n)
    (fun p hp => absurd hp List.not_mem_nil) hmem
  refine ⟨⟨hgrown.tidy, fun n hn => absurd hn (hnone n)⟩, .node (rootNode blank) ts, rfl, ?_,
    hiff.trans (unflagged_iff hshape)⟩
  rw [Rose.follows_node, below, hkids, show childIds parsed.base (rootNode blank) = [] from hblank,
    contentsOf, hdata', List.nil_append, List.append_nil]
  exact ⟨rfl, hgrown.follows⟩

theorem cloneDocument_deep (hblank : childIds blank (rootNode blank) = [])
    {s : Rose NodeId} (hs : s.Follows (copiedChildren doc.base))
    (hvalue : s.value = rootNode doc.base)
    (hcopyable : ∀ n ∈ s.values.tail, copyable doc.base n = true) {fuel : Nat}
    (hfuel : s.values.length ≤ fuel) :
    ∃ doc' root, cloneDocument blank fuel store doc true =
        .ok ((store.insert doc').1, ⟨(store.insert doc').2, root⟩) ∧
      CopiedIn doc s (∀ n ∈ s.values, n ∉ doc.startedScripts) doc' root := by
  obtain ⟨n, ts⟩ := s
  obtain rfl : n = rootNode doc.base := hvalue
  obtain ⟨hkids, hall⟩ := Rose.follows_node.1 hs
  have hroot : copiedChildren doc.base (rootNode doc.base) = childIds doc.base (rootNode doc.base) := by
    rw [copiedChildren, nodeData_rootNode laws]
  rw [Rose.values_node, List.tail_cons] at hcopyable
  obtain ⟨snapshots, hsnapshots, hcopied⟩ := mapM_importSnapshot doc.toParsed fuel fun t ht =>
    importSnapshot_eq (hall t ht) (fun n hn => hcopyable n (List.mem_flatMap.2 ⟨t, ht, hn⟩))
      ((Nat.le_of_lt (Rose.length_values_lt ht)).trans hfuel)
  refine ⟨_, _, ?_, copiedIn_of_snapshots laws hblank hcopied⟩
  rw [hkids, hroot] at hsnapshots
  rw [cloneDocument, if_pos rfl, hsnapshots]
  rw [Option.elim_some, reduceOption_map_some]
  rfl

theorem cloneDocument_shallow (hblank : childIds blank (rootNode blank) = []) (hdoc : doc.Sound)
    (fuel : Nat) :
    ∃ doc' root, cloneDocument blank fuel store doc false =
        .ok ((store.insert doc').1, ⟨(store.insert doc').2, root⟩) ∧
      CopiedIn doc (.node (rootNode doc.base) []) True doc' root := by
  refine ⟨_, _, rfl, (copiedIn_of_snapshots laws hblank rfl).of_iff (iff_true_intro fun n hn => ?_)⟩
  rw [Rose.values_node, List.flatMap_nil, List.mem_singleton] at hn
  subst hn
  intro hstarted
  have helement := hdoc.started _ hstarted
  rw [isElement, laws.data_rootNode] at helement
  cases helement

end

end TinyBrowser.Dom
