import TinyBrowser.Dom.StartedCopies
import TinyBrowser.Dom.Arena

/-!
# Calls that copy started scripts

A node of a copy is to have the already-started flag exactly when the node it is a copy of has it.
The shallow clones and adoption see to that; a deep `cloneNode` does not copy the flag at all, and a
deep clone within a document does not get to the own children of a template (`flagFollows_iff`).
-/

namespace TinyBrowser.Dom
open Lib Blitz BlitzFragments BlitzNodes

variable {Base FormState : Type} [BlitzNodes Base FormState]

namespace CopyCall

/-- The nodes that the call copies with a node. -/
def copiedWith (base : Base) : CopyCall → NodeId → List NodeId
  | cloneNode _ true => copiedChildren base
  | cloneNode _ false | cloneWithinDocument _ false => fun _ => []
  | cloneWithinDocument _ true => below base
  | adoptAcrossStore parent node =>
    if node.document = parent.document then below base else copiedChildren base

/-- `s` is the subtree that the call copies: no node of it is a document or a shadow root, but that
`cloneNode` clones a document as well. -/
structure Copies (store : DocumentStore Base) (doc : Scripted Base) (s : Rose NodeId)
    (call : CopyCall) : Prop where
  get_eq : store.get call.original.document = some doc
  value_eq : s.value = call.original.node
  follows : s.Follows (call.copiedWith doc.base)
  root : copyable doc.base s.value = true ∨
    (∃ id deep, call = .cloneNode id deep) ∧ s.value = rootNode doc.base
  rest : ∀ n ∈ s.values.tail, copyable doc.base n = true
  target : ∀ parent node, call = .adoptAcrossStore parent node →
    (store.get parent.document).isSome = true

/-- The call returns, and each node of the copy has the flag exactly when the node of `s` that it is
a copy of has it. -/
def FlagFollows (deepCloneNode : Base → NodeId → Base × NodeId) (blank : Base) (fuel : Nat)
    (store : DocumentStore Base) (doc : Scripted Base) (s : Rose NodeId) (call : CopyCall) : Prop :=
  ∃ store' copy doc', ∃ t : Rose NodeId,
    call.step deepCloneNode blank fuel store = .ok (store', copy) ∧
      store'.get copy.document = some doc' ∧ t.value = copy.node ∧ t.Follows (below doc'.base) ∧
      t.map doc'.scriptAlreadyStarted = s.map doc.scriptAlreadyStarted

/-- No started script is where the call loses the flag: anywhere in what a deep `cloneNode` copies,
or at or below an own child of a template with contents that is cloned deep within its document. -/
def Keeps (doc : Scripted Base) (s : Rose NodeId) : CopyCall → Prop
  | cloneNode _ true => ∀ n ∈ s.values, n ∉ doc.startedScripts
  | cloneWithinDocument _ true =>
    ∀ n ∈ s.skipped fun n => passedOver (cloneLabel doc.base n), n ∉ doc.startedScripts
  | cloneNode _ false | cloneWithinDocument _ false | adoptAcrossStore .. => True

end CopyCall

section
variable {deepCloneNode : Base → NodeId → Base × NodeId} {blank : Base} {fuel : Nat}
  {store store' : DocumentStore Base} {doc doc' : Scripted Base} {s : Rose NodeId} {call : CopyCall}

theorem settled_of_copiedIn {copy : TreeNodeId} {keeps : Prop}
    (hstep : call.step deepCloneNode blank fuel store = .ok (store', copy)) (hstore : store'.Sound)
    (hget : store'.get copy.document = some doc') (h : CopiedIn doc s keeps doc' copy.node) :
    (∃ store' copy, call.step deepCloneNode blank fuel store = .ok (store', copy) ∧
        store'.Sound) ∧
      (call.FlagFollows deepCloneNode blank fuel store doc s ↔ keeps) := by
  refine ⟨⟨store', copy, hstep, hstore⟩, ?_⟩
  obtain ⟨t, hvalue, hfollows, hflags⟩ := h.flags
  rw [← hflags]
  constructor
  · rintro ⟨store₁, copy₁, doc₁, t₁, hstep₁, hget₁, hvalue₁, hfollows₁, hflags₁⟩
    obtain ⟨rfl, rfl⟩ := Prod.mk.inj (Except.ok.inj (hstep.symm.trans hstep₁))
    obtain rfl := Option.some.inj (hget.symm.trans hget₁)
    rwa [hfollows.unique hfollows₁ (hvalue.trans hvalue₁.symm)]
  · exact fun heq => ⟨store', copy, doc', t, hstep, hget, hvalue, hfollows, heq⟩

theorem settled_of_set {id : UInt32} {copy : NodeId} {keeps : Prop} (hsound : store.Sound)
    (hstep : call.step deepCloneNode blank fuel store = .ok (store.set id doc', ⟨id, copy⟩))
    (h : CopiedIn doc s keeps doc' copy) :
    (∃ store' copy, call.step deepCloneNode blank fuel store = .ok (store', copy) ∧
        store'.Sound) ∧
      (call.FlagFollows deepCloneNode blank fuel store doc s ↔ keeps) :=
  settled_of_copiedIn hstep (hsound.set h.sound) (by rw [DocumentStore.get_set, if_pos rfl]) h

theorem settled_of_insert {root : NodeId} {keeps : Prop} (hsound : store.Sound)
    (hstep : call.step deepCloneNode blank fuel store =
      .ok ((store.insert doc').1, ⟨(store.insert doc').2, root⟩))
    (h : CopiedIn doc s keeps doc' root) :
    (∃ store' copy, call.step deepCloneNode blank fuel store = .ok (store', copy) ∧
        store'.Sound) ∧
      (call.FlagFollows deepCloneNode blank fuel store doc s ↔ keeps) :=
  settled_of_copiedIn hstep (hsound.insert h.sound) (by rw [DocumentStore.get_insert, if_pos rfl]) h

theorem CopyCall.Copies.copyable_all (h : call.Copies store doc s)
    (hroot : copyable doc.base s.value = true) : ∀ n ∈ s.values, copyable doc.base n = true := by
  obtain ⟨n, ts⟩ := s
  have hrest := h.rest
  rw [Rose.values_node] at hrest ⊢
  exact List.forall_mem_cons.2 ⟨hroot, hrest⟩

theorem eq_node_of_follows_nil {t : Rose NodeId} (h : t.Follows fun _ => []) :
    t = .node t.value [] := by
  obtain ⟨n, ts⟩ := t
  rw [List.map_eq_nil_iff.1 (Rose.follows_node.1 h).1]
  rfl

theorem settled_cloneNode {id : TreeNodeId} {deep : Bool} (laws : BlitzNodes.Laws Base)
    (hblank : childIds blank (rootNode blank) = []) (hsound : store.Sound)
    (h : (CopyCall.cloneNode id deep).Copies store doc s) (hfuel : s.values.length ≤ fuel) :
    (∃ store' copy, (CopyCall.cloneNode id deep).step deepCloneNode blank fuel store =
        .ok (store', copy) ∧ store'.Sound) ∧
      ((CopyCall.cloneNode id deep).FlagFollows deepCloneNode blank fuel store doc s ↔
        (CopyCall.cloneNode id deep).Keeps doc s) := by
  have hget : store.get id.document = some doc := h.get_eq
  have hvalue : s.value = id.node := h.value_eq
  have hdoc := hsound _ _ hget
  by_cases hroot : id.node = rootNode doc.base
  · have hstep : ∀ deep, (CopyCall.cloneNode id deep).step deepCloneNode blank fuel store =
        cloneDocument blank fuel store doc deep := fun deep => by
      rw [CopyCall.step, cloneNode, hget]
      exact if_pos hroot
    cases deep with
    | true =>
      obtain ⟨doc', root, hclone, hcopied⟩ :=
        cloneDocument_deep laws hblank h.follows (hvalue.trans hroot) h.rest hfuel
      exact settled_of_insert hsound ((hstep true).trans hclone) hcopied
    | false =>
      obtain ⟨doc', root, hclone, hcopied⟩ := cloneDocument_shallow laws hblank hdoc fuel
      rw [← hroot, ← hvalue, ← eq_node_of_follows_nil h.follows] at hcopied
      exact settled_of_insert hsound ((hstep false).trans hclone) hcopied
  · have hnode : copyable doc.base s.value = true :=
      h.root.resolve_right fun hdocument => hroot (hvalue.symm.trans hdocument.2)
    cases deep with
    | true =>
      obtain ⟨doc', copy, hclone, hcopied⟩ := cloneNode_deep laws hget hdoc hroot h.follows hvalue
        (h.copyable_all hnode) hfuel
      exact settled_of_set hsound hclone hcopied
    | false =>
      rw [hvalue] at hnode
      obtain ⟨doc', copy, hclone, hcopied⟩ := cloneNode_shallow laws hget hdoc hroot hnode
        ((List.length_pos_of_mem s.value_mem_values).trans_le hfuel)
      rw [← hvalue, ← eq_node_of_follows_nil h.follows] at hcopied
      exact settled_of_set hsound hclone hcopied

theorem settled_cloneWithinDocument {id : TreeNodeId} {deep : Bool} (laws : BlitzNodes.Laws Base)
    (hsound : store.Sound) (h : (CopyCall.cloneWithinDocument id deep).Copies store doc s)
    (hclone : deep = true → DeepCloned doc.base s (deepCloneNode doc.base id.node))
    (hfuel : s.values.length ≤ fuel) :
    (∃ store' copy, (CopyCall.cloneWithinDocument id deep).step deepCloneNode blank fuel store =
        .ok (store', copy) ∧ store'.Sound) ∧
      ((CopyCall.cloneWithinDocument id deep).FlagFollows deepCloneNode blank fuel store doc s ↔
        (CopyCall.cloneWithinDocument id deep).Keeps doc s) := by
  have hget : store.get id.document = some doc := h.get_eq
  have hvalue : s.value = id.node := h.value_eq
  have hdoc := hsound _ _ hget
  have hcopyable := h.copyable_all (h.root.resolve_right fun ⟨⟨_, _, hcall⟩, _⟩ => nomatch hcall)
  have hstep : ∀ {deep doc' copy}, cloneWithinDocument deepCloneNode fuel doc id.node deep =
      .ok (doc', copy) → (CopyCall.cloneWithinDocument id deep).step deepCloneNode blank fuel store =
        .ok (store.set id.document doc', ⟨id.document, copy⟩) := fun hclone => by
    rw [CopyCall.step, hget]
    dsimp only
    rw [hclone]
    rfl
  cases deep with
  | true =>
    obtain ⟨doc', copy, hcloned, hcopied⟩ := cloneWithinDocument_deep laws hdoc h.follows hvalue
      (fun n hn => live_of_copyable (hcopyable n hn)) (hclone rfl) hfuel
    exact settled_of_set hsound (hstep hcloned) hcopied
  | false =>
    obtain ⟨doc', copy, hcloned, hcopied⟩ := cloneWithinDocument_shallow laws deepCloneNode hdoc
      (hvalue ▸ hcopyable s.value s.value_mem_values)
      ((List.length_pos_of_mem s.value_mem_values).trans_le hfuel)
    rw [← hvalue, ← eq_node_of_follows_nil h.follows] at hcopied
    exact settled_of_set hsound (hstep hcloned) hcopied

theorem settled_adoptAcrossStore {parent node : TreeNodeId} (laws : BlitzNodes.Laws Base)
    (hsound : store.Sound) (h : (CopyCall.adoptAcrossStore parent node).Copies store doc s)
    (hfuel : s.values.length ≤ fuel) :
    (∃ store' copy, (CopyCall.adoptAcrossStore parent node).step deepCloneNode blank fuel store =
        .ok (store', copy) ∧ store'.Sound) ∧
      ((CopyCall.adoptAcrossStore parent node).FlagFollows deepCloneNode blank fuel store doc s ↔
        (CopyCall.adoptAcrossStore parent node).Keeps doc s) := by
  have hget : store.get node.document = some doc := h.get_eq
  have hvalue : s.value = node.node := h.value_eq
  have hcopyable := h.copyable_all (h.root.resolve_right fun ⟨⟨_, _, hcall⟩, _⟩ => nomatch hcall)
  have hfollows := h.follows
  rw [CopyCall.copiedWith] at hfollows
  by_cases hsame : node.document = parent.document
  · rw [if_pos hsame] at hfollows
    have hstep : (CopyCall.adoptAcrossStore parent node).step deepCloneNode blank fuel store =
        .ok (store, node) := by
      rw [CopyCall.step, adoptAcrossStore, if_pos hsame]
      rfl
    exact settled_of_copiedIn hstep hsound hget
      ⟨hsound _ _ hget, s, hvalue, hfollows, iff_true_intro rfl⟩
  · rw [if_neg hsame] at hfollows
    obtain ⟨target, htarget⟩ := Option.isSome_iff_exists.1 (h.target parent node rfl)
    obtain ⟨store', target', copy, hadopt, hstore, hget', hcopied⟩ :=
      adoptAcrossStore_eq laws hsound hsame hget htarget hfollows hvalue hcopyable hfuel
    have hstep : (CopyCall.adoptAcrossStore parent node).step deepCloneNode blank fuel store =
        .ok (store', ⟨parent.document, copy⟩) := by
      rw [CopyCall.step, hadopt]
      rfl
    exact settled_of_copiedIn hstep hstore hget' hcopied

theorem flagFollows_iff (laws : BlitzNodes.Laws Base)
    (hblank : childIds blank (rootNode blank) = []) (hsound : store.Sound)
    (h : call.Copies store doc s)
    (hclone : ∀ id, call = .cloneWithinDocument id true →
      DeepCloned doc.base s (deepCloneNode doc.base id.node)) :
    ∃ steps, ∀ fuel, steps ≤ fuel →
      (∃ store' copy, call.step deepCloneNode blank fuel store = .ok (store', copy) ∧
        store'.Sound) ∧
      (call.FlagFollows deepCloneNode blank fuel store doc s ↔ call.Keeps doc s) := by
  refine ⟨s.values.length, fun fuel hfuel => ?_⟩
  cases call with
  | cloneNode id deep => exact settled_cloneNode laws hblank hsound h hfuel
  | cloneWithinDocument id deep =>
    exact settled_cloneWithinDocument laws hsound h (fun hdeep => hclone id (hdeep ▸ rfl)) hfuel
  | adoptAcrossStore parent node => exact settled_adoptAcrossStore laws hsound h hfuel

end

/-! ### A started script -/

/-- A clone of a node and of all below it, contents included. -/
def Arena.deepClone : Nat → Arena → NodeId → Arena × NodeId
  | 0, a, _ => a.create (.fragment none)
  | fuel + 1, a, n =>
    let kids := a.doc.tree.children n
    let appendAll (a : Arena) (p : NodeId) (kids : List NodeId) : Arena :=
      kids.foldl (fun a kid =>
        let (a, clone) := Arena.deepClone fuel a kid
        appendChildren a p [clone]) a
    match a.nodes n with
    | some (.element e) =>
      match e.templateContents with
      | some fragment =>
        let contents := a.doc.tree.children fragment
        let (a, fragment) := a.create (.fragment none)
        let a := appendAll a fragment contents
        let (a, clone) := a.create (.element { e with templateContents := some fragment })
        (appendAll a clone kids, clone)
      | none =>
        let (a, clone) := a.create (.element e)
        (appendAll a clone kids, clone)
    | some d =>
      let (a, clone) := a.create d
      (appendAll a clone kids, clone)
    | none => a.create (.fragment none)

def Arena.deepCloneNode (a : Arena) (n : NodeId) : Arena × NodeId := a.deepClone a.doc.bound n

def noSideTables : SideTables := ⟨[], 0, false, .ofList [], .empty⟩

/-- A document with a script that has started, node 1. -/
def startedScript : Scripted Arena :=
  ⟨⟨(Arena.fresh.createElement ⟨none, htmlNamespace, "script"⟩ []).1, noSideTables⟩, {1}⟩

def startedStore : DocumentStore Arena := ⟨.singleton 1 startedScript, 1⟩

theorem links_template {c p : Nat}
    (h : (Forest.star 1 [3] (List.nodup_singleton 3) (by decide)).parent c = some p) :
    c < 4 ∧ p < 4 := by
  by_cases hc : c = 3
  · subst hc
    obtain rfl := Option.some.inj h
    decide
  · simp [Forest.star, hc] at h

/-- A template, node 2, whose contents, node 1, hold the script that is node 3. -/
def templateArena : Arena where
  doc :=
    { tree := .star 1 [3] (List.nodup_singleton 3) (by decide)
      data := fun n => [NodeData.document, .fragment none, .element, .element][n]?
      bound := 4
      links := links_template
      absent := fun n h => List.getElem?_eq_none (by simpa using h)
      root := rfl }
  nodes n := [FullNodeData.document, .fragment none,
    .element ⟨⟨none, htmlNamespace, "template"⟩, [], (), some 1⟩,
    .element ⟨⟨none, htmlNamespace, "script"⟩, [], (), none⟩][n]?
  data_eq n := by
    rcases n with _ | _ | _ | _ | n <;> rfl

def startedTemplate : Scripted Arena := ⟨⟨templateArena, noSideTables⟩, {3}⟩

def templateStore : DocumentStore Arena := ⟨.singleton 1 startedTemplate, 1⟩

theorem sound_templateStore : templateStore.Sound := by
  intro id doc hget
  rw [DocumentStore.get, templateStore, Dict.get?_singleton] at hget
  split at hget
  · obtain rfl := Option.some.inj hget
    refine ⟨fun n u hu => (by cases hu), fun n hn => ?_⟩
    obtain rfl := Finset.mem_singleton.1 hn
    decide
  · cases hget

theorem follows_template {next : NodeId → List NodeId} {a b : NodeId} (ha : next a = [b])
    (hb : next b = []) : (Rose.node a [.node b []]).Follows next := by
  simp [Rose.follows_node, Rose.value, ha, hb]

theorem childIds_clone (n : NodeId) : childIds (templateArena.deepCloneNode 2).1 n =
    if n = 4 then [5] else childIds templateArena n := by
  have hjoins : templateArena.doc.tree.Joins 4 5 none :=
    ⟨by rw [Forest.chain_of_root rfl]; decide, by rintro _ ⟨⟩⟩
  have htree : (templateArena.deepCloneNode 2).1.doc.tree = templateArena.doc.tree.attach 4 5 none := rfl
  show (templateArena.deepCloneNode 2).1.doc.tree.children n = _
  rw [htree, hjoins.children_attach]
  split
  · rfl
  · show (if n = 1 then [3] else []).erase 5 = if n = 1 then [3] else []
    split <;> rfl

theorem deepCloned_template : DeepCloned templateArena (.node 2 [.node 3 []])
    (templateArena.deepCloneNode 2) := by
  have hnodes : (Rose.node 2 [.node 3 []] : Rose NodeId).values = [2, 3] := rfl
  have hbelow : ∀ n, below (templateArena.deepCloneNode 2).1 n =
      (if n = 4 then [5] else childIds templateArena n) ++
        contentsOf (templateArena.deepCloneNode 2).1 n := fun n => by
    rw [below, childIds_clone]
  have hcontents : ∀ n, contentsOf (templateArena.deepCloneNode 2).1 n =
      if n = 6 then [5] else if n = 2 then [3] else [] := fun n => by
    rcases n with _ | _ | _ | _ | _ | _ | _ | n
    · rfl
    · rfl
    · exact childIds_clone 1
    · rfl
    · rfl
    · rfl
    · exact childIds_clone 4
    · rfl
  refine ⟨⟨.node 6 [.node 5 []], rfl, ?_, by decide, ?_, ?_⟩, fun n hn => ?_, ?_, ?_⟩
  · exact follows_template (by rw [hbelow, hcontents]; rfl) (by rw [hbelow, hcontents]; rfl)
  · decide
  · simp only [Rose.map_node, List.map_cons, List.map_nil, cloneLabel, childIds_clone]
    rfl
  · rcases n with _ | _ | _ | _ | n
    · rfl
    · rfl
    · rfl
    · rfl
    · exact absurd rfl hn
  · rw [hnodes]
    intro n hn
    rw [childIds_clone, if_neg]
    rintro rfl
    revert hn
    decide
  · simp only [hnodes, List.forall_mem_cons, hbelow, hcontents]
    refine ⟨rfl, rfl, by simp⟩

/-- A deep clone within the document copies the flag, also in the contents of a template. -/
theorem flagFollows_iff_template : ∃ steps, ∀ fuel, steps ≤ fuel →
    (∃ store' copy, (CopyCall.cloneWithinDocument ⟨1, 2⟩ true).step Arena.deepCloneNode Arena.fresh
        fuel templateStore = .ok (store', copy) ∧ store'.Sound) ∧
      (CopyCall.cloneWithinDocument ⟨1, 2⟩ true).FlagFollows Arena.deepCloneNode Arena.fresh fuel
        templateStore startedTemplate (.node 2 [.node 3 []]) := by
  have hblank : childIds Arena.fresh (rootNode Arena.fresh) = [] := rfl
  have hcopies : (CopyCall.cloneWithinDocument ⟨1, 2⟩ true).Copies templateStore startedTemplate
      (.node 2 [.node 3 []]) :=
    ⟨rfl, rfl, follows_template (by decide) (by decide), .inl (by decide), by decide,
      by rintro _ _ ⟨⟩⟩
  have hclone : ∀ id, CopyCall.cloneWithinDocument ⟨1, 2⟩ true = .cloneWithinDocument id true →
      DeepCloned startedTemplate.base (.node 2 [.node 3 []])
        (Arena.deepCloneNode startedTemplate.base id.node) := by
    rintro _ ⟨⟩
    exact deepCloned_template
  obtain ⟨steps, h⟩ := flagFollows_iff Arena.laws hblank sound_templateStore hcopies hclone
  refine ⟨steps, fun fuel hfuel => ⟨(h fuel hfuel).1, (h fuel hfuel).2.2 ?_⟩⟩
  have hpassed : ∀ n ∈ [2, 3], passedOver (cloneLabel startedTemplate.base n) = 0 := by
    decide +kernel
  intro n hn
  simp [Rose.skipped, Rose.skippedAll, hpassed] at hn

/-- A deep `cloneNode` does not. -/
theorem not_flagFollows_cloneNode : ¬ ∃ fuel, (CopyCall.cloneNode ⟨1, 1⟩ true).FlagFollows
    Arena.deepCloneNode Arena.fresh fuel startedStore startedScript (.node 1 []) := by
  rintro ⟨fuel, store', copy, doc', t, hstep, hget, hvalue, -, hflags⟩
  cases fuel with
  | zero => cases hstep
  | succ fuel =>
    obtain ⟨rfl, rfl⟩ := Prod.mk.inj (Except.ok.inj hstep)
    obtain rfl := Option.some.inj hget
    have hroot := congrArg Rose.value hflags
    rw [Rose.value_map, hvalue] at hroot
    revert hroot
    decide

end TinyBrowser.Dom
