import TinyBrowser.Dom.Snapshots
import TinyBrowser.Dom.Effects

/-!
# What is made of a snapshot

The nodes that `materializeImport` makes are new and form one detached subtree, which reads as
`ImportSnapshot.copied` says (`madeOf_materializeImport`); every node that was there stays as it was
(`Kept`). The data of a processing instruction or a CDATA section goes through a Rust string on the
way, which is where a copy may differ from the snapshot.
-/

namespace TinyBrowser.Dom
open Lib Blitz BlitzFragments BlitzNodes

variable {Base FormState : Type}

/-! ### How nodes read -/

/-- A node as the document has it, apart from its place. An element says how many of the nodes
below it are its own children; the rest are the contents of the template it is. -/
inductive Label (FormState : Type) where
  | document
  | element (name : QualName) (attrs : List Attribute) (formState : FormState) (own : Nat)
  | anonymousBlock
  | fragment
  | shadowRoot
  | text (data : Units)
  | comment (data : Units)
  | processingInstruction (target : String) (data : Units) (attributes : List (String × String))
  | cdata (data : Units)
  | documentType (name publicId systemId : String)

section
variable [BlitzNodes Base FormState]

/-- The children of the contents of a template. -/
def contentsOf (base : Base) (id : NodeId) : List NodeId :=
  match nodeData base id with
  | some (.element e) => if isTemplateTag e.name then e.templateContents.elim [] (childIds base) else []
  | _ => []

/-- The nodes below `id`: its children, then the contents of the template it is. -/
def below (base : Base) (id : NodeId) : List NodeId := childIds base id ++ contentsOf base id

def label (parsed : Parsed Base) (id : NodeId) : Option (Label FormState) :=
  match nodeData parsed.base id with
  | none => none
  | some .document => some .document
  | some (.element e) =>
    some (.element e.name e.attrs e.formState (childIds parsed.base id).length)
  | some .anonymousBlock => some .anonymousBlock
  | some (.fragment _) => some .fragment
  | some (.shadowRoot _) => some .shadowRoot
  | some (.text _) => some (.text (characterData parsed id))
  | some (.comment _) => some (.comment (characterData parsed id))
  | some (.processingInstruction target _ attributes) =>
    some (.processingInstruction target (characterData parsed id) attributes)
  | some (.cdataSection _) => some (.cdata (characterData parsed id))
  | some (.doctype name publicId systemId) => some (.documentType name publicId systemId)

mutual

/-- How the nodes made of a snapshot read. -/
def ImportSnapshot.copied (Base : Type) [BlitzNodes Base FormState] :
    ImportSnapshot FormState → Rose (Option (Label FormState))
  | .element name attributes formState children =>
    .node (some (.element name attributes (settled Base name attributes formState)
      (if isTemplateTag name then 0 else children.length))) (copiedAll Base children)
  | .text data => .node (some (.text data)) []
  | .comment data => .node (some (.comment data)) []
  | .documentType name publicId systemId => .node (some (.documentType name publicId systemId)) []
  | .processingInstruction target data attributes =>
    .node (some (.processingInstruction target (toStringLossy data) attributes)) []
  | .cdata data => .node (some (.cdata (toStringLossy data))) []
  | .fragment children => .node (some .fragment) (copiedAll Base children)

def ImportSnapshot.copiedAll (Base : Type) [BlitzNodes Base FormState] :
    List (ImportSnapshot FormState) → List (Rose (Option (Label FormState)))
  | [] => []
  | snapshot :: rest => snapshot.copied Base :: ImportSnapshot.copiedAll Base rest

end

theorem length_copiedAll (snapshots : List (ImportSnapshot FormState)) :
    (ImportSnapshot.copiedAll Base snapshots).length = snapshots.length := by
  induction snapshots with
  | nil => rfl
  | cons snapshot rest ih =>
    rw [ImportSnapshot.copiedAll, List.length_cons, ih, List.length_cons]

/-! ### New nodes and old ones -/

/-- Nothing that is read of the node `n` differs. -/
structure Kept (parsed parsed' : Parsed Base) (n : NodeId) : Prop where
  nodeData_eq : nodeData parsed'.base n = nodeData parsed.base n
  exactText_eq : parsed'.side.exactText.get? n = parsed.side.exactText.get? n
  children_eq : childIds parsed'.base n = childIds parsed.base n

/-- The node `n` came in between `parsed` and `parsed'`, with contents of its own if it is a
template; the tree has the lossy form of its data. -/
structure NewNode (parsed parsed' : Parsed Base) (n : NodeId) : Prop where
  absent : nodeData parsed.base n = none
  alone : (tree parsed.base).parent n = none ∧ childIds parsed.base n = []
  present : nodeData parsed'.base n ≠ none
  contents : ∀ e, nodeData parsed'.base n = some (.element e) → isTemplateTag e.name = true →
    childIds parsed'.base n = [] ∧ ∃ f ∈ e.templateContents, nodeData parsed.base f = none ∧
      nodeData parsed'.base f ≠ none
  lossy : ∀ c ∈ charactersOf parsed'.base n, c = toStringLossy (characterData parsed' n)

/-- `parsed'` is `parsed` with the trees `ts` in it, made of `snapshots`; of the old nodes only
`touched` has other children. -/
structure Grown (parsed parsed' : Parsed Base) (touched : Option NodeId)
    (snapshots : List (ImportSnapshot FormState)) (ts : List (Rose NodeId)) : Prop where
  nodeData_eq : ∀ n, nodeData parsed.base n ≠ none →
    nodeData parsed'.base n = nodeData parsed.base n
  exactText_eq : ∀ n, nodeData parsed.base n ≠ none →
    parsed'.side.exactText.get? n = parsed.side.exactText.get? n
  parent_eq : ∀ n, n ∉ ts.flatMap Rose.values →
    (tree parsed'.base).parent n = (tree parsed.base).parent n
  children_eq : ∀ n, nodeData parsed.base n ≠ none → touched ≠ some n →
    childIds parsed'.base n = childIds parsed.base n
  tidy : ExactTidy parsed'
  only : ∀ n, nodeData parsed.base n = none → nodeData parsed'.base n ≠ none →
    n ∈ ts.flatMap Rose.values ∨ isFragment parsed'.base n = true
  follows : ∀ t ∈ ts, t.Follows (below parsed'.base)
  labels : ts.map (Rose.map (label parsed')) = ImportSnapshot.copiedAll Base snapshots
  nodes : ∀ n ∈ ts.flatMap Rose.values, NewNode parsed parsed' n
  nodup : (ts.flatMap Rose.values).Nodup

variable (laws : BlitzNodes.Laws Base) {parsed parsed' parsed'' : Parsed Base} {n : NodeId}
  {snapshots : List (ImportSnapshot FormState)} {ts : List (Rose NodeId)} {touched : Option NodeId}

theorem Kept.live (h : Kept parsed parsed' n) (hn : nodeData parsed.base n ≠ none) :
    nodeData parsed'.base n ≠ none := by
  rwa [h.nodeData_eq]

theorem Grown.kept (h : Grown parsed parsed' touched snapshots ts)
    (hn : nodeData parsed.base n ≠ none) (hne : touched ≠ some n) : Kept parsed parsed' n :=
  ⟨h.nodeData_eq n hn, h.exactText_eq n hn, h.children_eq n hn hne⟩

theorem Grown.notMem_values (h : Grown parsed parsed' touched snapshots ts)
    (hn : nodeData parsed.base n ≠ none) : n ∉ ts.flatMap Rose.values :=
  fun hm => hn (h.nodes n hm).absent

include laws

theorem Kept.data_eq (h : Kept parsed parsed' n) : data parsed'.base n = data parsed.base n := by
  rw [laws.data_eq, laws.data_eq, h.nodeData_eq]

theorem Kept.characterData_eq (h : Kept parsed parsed' n) :
    characterData parsed' n = characterData parsed n := by
  rw [characterData, characterData, h.exactText_eq, h.data_eq laws]

theorem Kept.charactersOf_eq (h : Kept parsed parsed' n) :
    charactersOf parsed'.base n = charactersOf parsed.base n := by
  rw [charactersOf, charactersOf, h.data_eq laws]

theorem Kept.label_eq (h : Kept parsed parsed' n) : label parsed' n = label parsed n := by
  rw [label, label, h.nodeData_eq, h.children_eq, h.characterData_eq laws]

omit laws in
theorem Kept.below_eq (h : Kept parsed parsed' n)
    (hcontents : ∀ e, nodeData parsed.base n = some (.element e) → isTemplateTag e.name = true →
      ∀ f ∈ e.templateContents, childIds parsed'.base f = childIds parsed.base f) :
    below parsed'.base n = below parsed.base n := by
  rw [below, below, h.children_eq]
  congr 1
  rw [contentsOf, contentsOf, h.nodeData_eq]
  split
  · rename_i e he
    split
    · rename_i htag
      cases hf : e.templateContents with
      | none => rfl
      | some f => exact hcontents e he htag f hf
    · rfl
  · rfl

omit laws in
theorem NewNode.mono (h : NewNode parsed parsed' n) (laws : BlitzNodes.Laws Base)
    (hkept : ∀ m, nodeData parsed.base m = none → nodeData parsed'.base m ≠ none →
      Kept parsed' parsed'' m) : NewNode parsed parsed'' n := by
  have hn := hkept n h.absent h.present
  refine ⟨h.absent, h.alone, hn.live h.present, fun e he htag => ?_, fun c hc => ?_⟩
  · rw [hn.nodeData_eq] at he
    obtain ⟨hkids, f, hf, habsent, hpresent⟩ := h.contents e he htag
    exact ⟨hn.children_eq.trans hkids, f, hf, habsent, (hkept f habsent hpresent).live hpresent⟩
  · rw [hn.charactersOf_eq laws] at hc
    rw [hn.characterData_eq laws]
    exact h.lossy c hc

/-- New trees stay as they are when no new node is touched. -/
theorem Grown.trees_kept (h : Grown parsed parsed' touched snapshots ts)
    (hkept : ∀ m, nodeData parsed.base m = none → nodeData parsed'.base m ≠ none →
      Kept parsed' parsed'' m) :
    (∀ t ∈ ts, t.Follows (below parsed''.base)) ∧
      ts.map (Rose.map (label parsed'')) = ImportSnapshot.copiedAll Base snapshots ∧
      ∀ n ∈ ts.flatMap Rose.values, NewNode parsed parsed'' n := by
  have hvalue : ∀ t ∈ ts, ∀ n ∈ t.values, NewNode parsed parsed' n := fun t ht n hn =>
    h.nodes n (List.mem_flatMap.2 ⟨t, ht, hn⟩)
  refine ⟨fun t ht => (h.follows t ht).congr fun n hn => ?_, ?_, fun n hn =>
    (h.nodes n hn).mono laws hkept⟩
  · have hnew := hvalue t ht n hn
    refine (hkept n hnew.absent hnew.present).below_eq fun e he htag f hf => ?_
    obtain ⟨-, f', hf', habsent, hpresent⟩ := hnew.contents e he htag
    rw [Option.mem_def] at hf hf'
    obtain rfl := Option.some.inj (hf.symm.trans hf')
    exact (hkept f habsent hpresent).children_eq
  · rw [← h.labels]
    refine List.map_congr_left fun t ht => Rose.map_congr fun n hn => ?_
    have hnew := hvalue t ht n hn
    exact (hkept n hnew.absent hnew.present).label_eq laws

/-! ### Appending a new node -/

omit laws in
theorem Grown.not_mem_chain (h : Grown parsed parsed' touched snapshots ts) {c p : NodeId}
    (hc : c ∈ ts.flatMap Rose.values) (hp : p ∉ ts.flatMap Rose.values) :
    c ∉ (tree parsed'.base).chain p := by
  induction p using (tree parsed.base).induction_up with
  | root p hroot =>
    rw [Forest.chain_of_root ((h.parent_eq p hp).trans hroot), List.mem_singleton]
    rintro rfl
    exact hp hc
  | child p q hq ih =>
    rw [Forest.mem_chain_of_parent ((h.parent_eq p hp).trans hq), not_or]
    refine ⟨fun he => hp (he ▸ hc), ih fun hnew => ?_⟩
    have hmem : p ∈ childIds parsed.base q := (tree parsed.base).mem_children.2 hq
    rw [(h.nodes q hnew).alone.2] at hmem
    cases hmem

theorem append_new {base : Base} {c p : NodeId} (hroot : (tree base).parent c = none)
    (hchain : c ∉ (tree base).chain p) :
    childIds (appendChildren base p [c]) p = childIds base p ++ [c] ∧
      (∀ q, q ≠ p → childIds (appendChildren base p [c]) q = childIds base q) ∧
      ∀ n, n ≠ c → (tree (appendChildren base p [c])).parent n = (tree base).parent n := by
  have hj : (tree base).Joins p c none := ⟨hchain, by simp⟩
  have herase : ∀ q, ((tree base).children q).erase c = (tree base).children q := fun q =>
    List.erase_of_not_mem (Forest.not_mem_children_of_root hroot)
  simp only [childIds]
  rw [laws.tree_appendChildren _ _ _ hj]
  refine ⟨?_, fun q hq => ?_, fun n hn => ?_⟩
  · rw [hj.children_attach, if_pos rfl, herase]
    rfl
  · rw [hj.children_attach, if_neg hq, herase]
  · rw [Forest.attach, hj.fits.parent_insert, if_neg hn, Forest.parent_detach_of_ne hn]

/-! ### One snapshot after another -/

omit laws in
theorem Grown.nil (htidy : ExactTidy parsed) :
    Grown parsed parsed touched ([] : List (ImportSnapshot FormState)) [] where
  nodeData_eq _ _ := rfl
  exactText_eq _ _ := rfl
  parent_eq _ _ := rfl
  children_eq _ _ _ := rfl
  tidy := htidy
  only _ h h' := absurd h h'
  follows _ h := nomatch h
  labels := rfl
  nodes _ h := nomatch h
  nodup := List.nodup_nil

omit laws in
theorem NewNode.earlier {mid : Parsed Base} (h : NewNode mid parsed' n)
    (habsent : ∀ m, nodeData mid.base m = none → nodeData parsed.base m = none)
    (halone : (tree parsed.base).parent n = none ∧ childIds parsed.base n = []) :
    NewNode parsed parsed' n where
  absent := habsent n h.absent
  alone := halone
  present := h.present
  contents e he htag := by
    obtain ⟨hkids, f, hf, hmid, hpresent⟩ := h.contents e he htag
    exact ⟨hkids, f, hf, habsent f hmid, hpresent⟩
  lossy := h.lossy

omit laws in
theorem Grown.absent (h : Grown parsed parsed' touched snapshots ts)
    (hn : nodeData parsed'.base n = none) : nodeData parsed.base n = none := by
  by_contra hlive
  exact hlive ((h.nodeData_eq n hlive).symm.trans hn)

/-- Appends the tree of one snapshot, then makes the others. -/
theorem Grown.cons {p : NodeId} {t : Rose NodeId} {snapshot : ImportSnapshot FormState}
    (hp : nodeData parsed.base p ≠ none) (h₁ : Grown parsed parsed' none [snapshot] [t])
    (hroot : (tree parsed'.base).parent t.value = none)
    (h : Grown (parsed'.withBase (appendChildren parsed'.base p [t.value])) parsed'' (some p)
      snapshots ts) :
    Grown parsed parsed'' (some p) (snapshot :: snapshots) (t :: ts) ∧
      childIds (appendChildren parsed'.base p [t.value]) p = childIds parsed.base p ++ [t.value] := by
  have hvalues : ∀ n, n ∈ [t].flatMap Rose.values ↔ n ∈ t.values := by simp
  have hvalue := (hvalues _).2 t.value_mem_values
  have hc := h₁.nodes t.value hvalue
  obtain ⟨happend, hothers, hparents⟩ := append_new laws hroot
    (h₁.not_mem_chain hvalue (h₁.notMem_values hp))
  have hdata := laws.nodeData_appendChildren parsed'.base p [t.value]
  -- A node of the first document, or of the first tree, stays as it is to the end.
  have hkept : ∀ m, nodeData parsed'.base m ≠ none → m ≠ p → Kept parsed' parsed'' m := fun m hm hne => by
    have hmid : nodeData (appendChildren parsed'.base p [t.value]) m ≠ none := by rwa [hdata]
    have hlast := h.kept hmid fun he => hne (Option.some.inj he).symm
    exact ⟨hlast.nodeData_eq.trans (congrFun hdata m), hlast.exactText_eq,
      hlast.children_eq.trans (hothers m hne)⟩
  have hnew : ∀ m, nodeData parsed.base m = none → nodeData parsed'.base m ≠ none →
      Kept parsed' parsed'' m := fun m habsent hm => hkept m hm fun he => hp (he ▸ habsent)
  have hlive : ∀ m, nodeData parsed.base m ≠ none → nodeData parsed'.base m ≠ none :=
    fun m hm => by rwa [h₁.nodeData_eq m hm]
  have hmid : ∀ m, nodeData parsed.base m ≠ none →
      nodeData (appendChildren parsed'.base p [t.value]) m ≠ none := fun m hm => by
    rw [hdata]
    exact hlive m hm
  obtain ⟨hfollows, hlabels, hnodes⟩ := h₁.trees_kept laws hnew
  refine ⟨⟨fun n hn => ?_, fun n hn => ?_, fun n hn => ?_, fun n hn hne => ?_, h.tidy,
    fun n habsent hn => ?_, ?_, ?_, fun n hn => ?_, ?_⟩, ?_⟩
  · rw [h.nodeData_eq n (hmid n hn)]
    exact (congrFun hdata n).trans (h₁.nodeData_eq n hn)
  · rw [h.exactText_eq n (hmid n hn)]
    exact h₁.exactText_eq n hn
  · rw [List.flatMap_cons, List.mem_append, not_or] at hn
    rw [h.parent_eq n hn.2]
    refine (hparents n ?_).trans (h₁.parent_eq n (mt (hvalues n).1 hn.1))
    rintro rfl
    exact hn.1 t.value_mem_values
  · have hne' : n ≠ p := fun he => hne (he ▸ rfl)
    exact (hkept n (hlive n hn) hne').children_eq.trans (h₁.children_eq n hn nofun)
  · by_cases hn' : nodeData parsed'.base n = none
    · rw [← congrFun hdata n] at hn'
      refine (h.only n hn' hn).imp_left fun hm => ?_
      rw [List.flatMap_cons]
      exact List.mem_append_right _ hm
    · refine (h₁.only n habsent hn').imp (fun hm => ?_) fun hf => ?_
      · rw [List.flatMap_cons]
        exact List.mem_append_left _ ((hvalues n).1 hm)
      · rwa [isFragment, (hnew n habsent hn').data_eq laws]
  · exact List.forall_mem_cons.2 ⟨hfollows t (List.mem_singleton_self t), h.follows⟩
  · rw [List.map_cons, h.labels]
    exact congrArg (· :: _) (List.cons.inj hlabels).1
  · rw [List.flatMap_cons, List.mem_append] at hn
    rcases hn with hn | hn
    · exact hnodes n ((hvalues n).2 hn)
    · have hlater := h.nodes n hn
      have habsent : nodeData parsed'.base n = none := (congrFun hdata n).symm.trans hlater.absent
      have hold : n ∉ [t].flatMap Rose.values := fun hm => (h₁.nodes n hm).present habsent
      obtain ⟨hparent, hchildren⟩ := hlater.alone
      rw [Parsed.base_withBase, hparents n fun he => hold (he ▸ hvalue),
        h₁.parent_eq n hold] at hparent
      rw [Parsed.base_withBase, hothers n fun he => hp (he ▸ h₁.absent habsent)] at hchildren
      refine hlater.earlier (fun m hm => h₁.absent ?_) ⟨hparent, ?_⟩
      · rw [← hdata]
        exact hm
      · refine List.eq_nil_iff_forall_not_mem.2 fun x hx => ?_
        rw [childIds, Forest.mem_children] at hx
        have hxold : x ∉ [t].flatMap Rose.values := fun hm => by
          rw [(h₁.nodes x hm).alone.1] at hx
          cases hx
        rw [← h₁.parent_eq x hxold, ← Forest.mem_children, ← childIds, hchildren] at hx
        cases hx
  · rw [List.flatMap_cons, List.nodup_append]
    have hnodup := h₁.nodup
    rw [List.flatMap_singleton] at hnodup
    refine ⟨hnodup, h.nodup, fun a ha b hb hab => ?_⟩
    subst hab
    exact (h₁.nodes a ((hvalues a).2 ha)).present
      ((congrFun hdata a).symm.trans (h.nodes a hb).absent)
  · rw [happend, h₁.children_eq p hp nofun]

/-! ### One node -/

omit laws in
theorem Created.nodeData_of_live {base : Base} {out : Base × NodeId} {d : FullNodeData FormState}
    (h : Created base out d) (hn : nodeData base n ≠ none) : nodeData out.1 n = nodeData base n := by
  rw [h.nodeData_eq, Function.update_of_ne]
  rintro rfl
  exact hn h.fresh

omit laws in
theorem Created.nodeData_self {base : Base} {out : Base × NodeId} {d : FullNodeData FormState}
    (h : Created base out d) : nodeData out.1 out.2 = some d := by
  rw [h.nodeData_eq, Function.update_self]

theorem live_of_charactersOf {base : Base} (h : (charactersOf base n).isSome = true) :
    nodeData base n ≠ none := by
  intro hn
  rw [charactersOf, laws.data_eq, hn] at h
  cases h

theorem ExactTidy.mono (h : ExactTidy parsed)
    (hlive : ∀ m, nodeData parsed.base m ≠ none → nodeData parsed'.base m = nodeData parsed.base m)
    (hexact : ∀ m u, parsed'.side.exactText.get? m = some u →
      parsed.side.exactText.get? m = some u ∨
        (charactersOf parsed'.base m).isSome ∧ hasUnpairedSurrogate u = true) :
    ExactTidy parsed' := by
  intro m u hm
  rcases hexact m u hm with hold | hnew
  · obtain ⟨hsome, hunpaired⟩ := h m u hold
    refine ⟨?_, hunpaired⟩
    rwa [charactersOf, laws.data_eq, hlive m (live_of_charactersOf laws hsome), ← laws.data_eq]
  · exact hnew

omit laws in
theorem Grown.leaf {out : Base × NodeId} {d : FullNodeData FormState}
    {snapshot : ImportSnapshot FormState} (h : Created parsed.base out d)
    (hbase : parsed'.base = out.1) (htidy : ExactTidy parsed')
    (hexact : ∀ m, m ≠ out.2 → parsed'.side.exactText.get? m = parsed.side.exactText.get? m)
    (hd : ∀ e, d ≠ .element e)
    (hlossy : ∀ c ∈ charactersOf parsed'.base out.2, c = toStringLossy (characterData parsed' out.2))
    (hcopied : snapshot.copied Base = .node (label parsed' out.2) []) :
    Grown parsed parsed' none [snapshot] [.node out.2 []] := by
  have hvalues : ∀ n, n ∈ [Rose.node out.2 []].flatMap Rose.values ↔ n = out.2 := by
    simp [Rose.values_node]
  have hself := h.nodeData_self
  rw [← hbase] at hself
  refine ⟨fun n hn => ?_, fun n hn => hexact n ?_, fun n _ => ?_, fun n _ _ => ?_, htidy,
    fun n habsent hn => .inl ((hvalues n).2 ?_), ?_, ?_, fun n hn => ?_, ?_⟩
  · rw [hbase]
    exact h.nodeData_of_live hn
  · rintro rfl
    exact hn h.fresh
  · rw [hbase, h.tree_eq]
  · rw [childIds, childIds, hbase, h.tree_eq]
  · by_contra hne
    rw [hbase, h.nodeData_eq, Function.update_of_ne hne] at hn
    exact hn habsent
  · rw [List.forall_mem_singleton, Rose.follows_node]
    refine ⟨?_, List.forall_mem_nil _⟩
    rw [List.map_nil, below, childIds, hbase, h.tree_eq, h.children_eq, contentsOf, ← hbase, hself]
    split
    · rename_i e he
      exact absurd (Option.some.inj he) (hd e)
    · rfl
  · rw [List.map_singleton, Rose.map_node, List.map_nil, ImportSnapshot.copiedAll,
      ImportSnapshot.copiedAll, hcopied]
  · obtain rfl := (hvalues n).1 hn
    refine ⟨h.fresh, ⟨h.parent_eq, h.children_eq⟩, by simp [hself], fun e he => ?_, hlossy⟩
    exact absurd (Option.some.inj (hself.symm.trans he)) (hd e)
  · simp [Rose.values_node]

omit laws in
/-- A node with children made of snapshots: `mid` has the new node `id` and the node `p` that the
children hang from, which is `id` or its contents. -/
theorem Grown.container {mid : Parsed Base} {id p : NodeId} {snapshot : ImportSnapshot FormState}
    (h : Grown mid parsed' (some p) snapshots ts) (laws : BlitzNodes.Laws Base)
    (htree : tree mid.base = tree parsed.base) (hside : mid.side = parsed.side)
    (hlive : ∀ n, nodeData parsed.base n ≠ none → nodeData mid.base n = nodeData parsed.base n)
    (honly : ∀ n, nodeData parsed.base n = none → nodeData mid.base n ≠ none →
      n = id ∨ isFragment mid.base n = true)
    (hid : nodeData mid.base id ≠ none) (hp : nodeData parsed.base p = none)
    (hnode : NewNode parsed parsed' id) (hbelow : below parsed'.base id = ts.map Rose.value)
    (hcopied : snapshot.copied Base =
      .node (label parsed' id) (ImportSnapshot.copiedAll Base snapshots)) :
    Grown parsed parsed' none [snapshot] [.node id ts] := by
  have hvalues : ∀ n, n ∈ [Rose.node id ts].flatMap Rose.values ↔
      n = id ∨ n ∈ ts.flatMap Rose.values := by simp [Rose.values_node]
  have hmid : ∀ n, nodeData parsed.base n ≠ none → nodeData mid.base n ≠ none := fun n hn => by
    rwa [hlive n hn]
  have habsent : ∀ n, nodeData mid.base n = none → nodeData parsed.base n = none := fun n hn => by
    by_contra hne
    exact hmid n hne hn
  refine ⟨fun n hn => ?_, fun n hn => ?_, fun n hn => ?_, fun n hn _ => ?_, h.tidy,
    fun n hn hn' => ?_, ?_, ?_, fun n hn => ?_, ?_⟩
  · exact (h.nodeData_eq n (hmid n hn)).trans (hlive n hn)
  · rw [h.exactText_eq n (hmid n hn), hside]
  · rw [List.flatMap_singleton, Rose.values_node, List.mem_cons, not_or] at hn
    rw [h.parent_eq n hn.2, htree]
  · have hne : p ≠ n := fun he => hn (he ▸ hp)
    rw [h.children_eq n (hmid n hn) fun he => hne (Option.some.inj he), childIds, htree]
    rfl
  · by_cases hm : nodeData mid.base n = none
    · exact (h.only n hm hn').imp_left fun hv => (hvalues n).2 (.inr hv)
    · refine (honly n hn hm).imp (fun he => (hvalues n).2 (.inl he)) fun hf => ?_
      rwa [isFragment, laws.data_eq, h.nodeData_eq n hm, ← laws.data_eq]
  · rw [List.forall_mem_singleton, Rose.follows_node]
    exact ⟨hbelow.symm, h.follows⟩
  · rw [List.map_singleton, Rose.map_node, h.labels, ImportSnapshot.copiedAll,
      ImportSnapshot.copiedAll, hcopied]
  · rcases (hvalues n).1 hn with rfl | hn
    · exact hnode
    · have halone := (h.nodes n hn).alone
      rw [childIds, htree] at halone
      exact (h.nodes n hn).earlier habsent halone
  · rw [List.flatMap_singleton, Rose.values_node, List.nodup_cons]
    exact ⟨fun hm => hid (h.nodes id hm).absent, h.nodup⟩

theorem Created.charactersOf_self {base : Base} {out : Base × NodeId} {d : FullNodeData FormState}
    (h : Created base out d) : charactersOf out.1 out.2 = match d.kind with
      | .text content => some content
      | .comment contents | .processingInstruction contents | .cdataSection contents => some contents
      | _ => none := by
  rw [charactersOf, laws.data_eq, h.nodeData_self]
  cases d <;> rfl

/-- A new node whose data is `units`, kept exactly when they need it. -/
theorem Created.remembered {out : Base × NodeId} {d : FullNodeData FormState} {units : Units}
    (h : Created parsed.base out d) (hchars : charactersOf out.1 out.2 = some (toStringLossy units))
    (htidy : ExactTidy parsed) :
    let remembered := rememberCharacterData (parsed.withBase out.1) out.2 units
    ExactTidy remembered ∧ characterData remembered out.2 = units ∧
      ∀ m, m ≠ out.2 → remembered.side.exactText.get? m = parsed.side.exactText.get? m := by
  intro remembered
  have hget : ∀ m, remembered.side.exactText.get? m = if m = out.2 then
      (if hasUnpairedSurrogate units then some units else none)
      else parsed.side.exactText.get? m := get?_rememberCharacterData _ _ _
  refine ⟨htidy.mono laws (fun m hm => h.nodeData_of_live hm) fun m u hm => ?_, ?_, fun m hm => ?_⟩
  · rw [hget] at hm
    split at hm
    · rename_i he
      split at hm
      · rename_i hunpaired
        obtain rfl := Option.some.inj hm
        refine .inr ⟨?_, hunpaired⟩
        show (charactersOf out.1 m).isSome = true
        rw [he, hchars]
        rfl
      · cases hm
    · exact .inl hm
  · rw [characterData_eq, hget, if_pos rfl]
    show _ = units
    cases hunpaired : hasUnpairedSurrogate units with
    | true => rfl
    | false =>
      show (none : Option Units).getD ((charactersOf out.1 out.2).getD []) = units
      rw [hchars]
      exact hasUnpairedSurrogate_eq_false.1 hunpaired
  · rw [hget, if_neg hm]

theorem Created.unremembered {out : Base × NodeId} {d : FullNodeData FormState}
    (h : Created parsed.base out d) (htidy : ExactTidy parsed) :
    ExactTidy (parsed.withBase out.1) ∧
      characterData (parsed.withBase out.1) out.2 = (charactersOf out.1 out.2).getD [] := by
  refine ⟨htidy.mono laws (fun m hm => h.nodeData_of_live hm) fun m u hm => .inl hm, ?_⟩
  rw [characterData_eq]
  cases hexact : (parsed.withBase out.1).side.exactText.get? out.2 with
  | none => rfl
  | some u =>
    obtain ⟨hsome, -⟩ := htidy out.2 u hexact
    exact absurd h.fresh (live_of_charactersOf laws hsome)

/-- The snapshot was made into one detached tree. -/
def MadeOf (parsed : Parsed Base) (out : Parsed Base × NodeId)
    (snapshot : ImportSnapshot FormState) : Prop :=
  ∃ t, t.value = out.2 ∧ (tree out.1.base).parent out.2 = none ∧
    Grown parsed out.1 none [snapshot] [t]

theorem MadeOf.remembered (snapshot : ImportSnapshot FormState) (make : Units → Label FormState)
    {out : Base × NodeId} {d : FullNodeData FormState} {units : Units}
    (h : Created parsed.base out d) (hchars : charactersOf out.1 out.2 = some (toStringLossy units))
    (htidy : ExactTidy parsed)
    (hlabel : ∀ parsed' : Parsed Base, nodeData parsed'.base out.2 = some d →
      label parsed' out.2 = some (make (characterData parsed' out.2)))
    (hd : ∀ e, d ≠ .element e) (hcopied : snapshot.copied Base = .node (some (make units)) []) :
    MadeOf parsed (rememberCharacterData (parsed.withBase out.1) out.2 units, out.2) snapshot := by
  obtain ⟨htidy', hunits, hexact⟩ := h.remembered laws hchars htidy
  refine ⟨.node out.2 [], rfl, ?_, .leaf h rfl htidy' hexact hd (fun c hc => ?_) ?_⟩
  · show (tree out.1).parent out.2 = none
    rw [h.tree_eq]
    exact h.parent_eq
  · rw [hunits]
    exact (Option.some.inj (hchars.symm.trans hc)).symm
  · rw [hcopied, hlabel _ h.nodeData_self, hunits]

theorem MadeOf.unremembered (snapshot : ImportSnapshot FormState) {out : Base × NodeId}
    {d : FullNodeData FormState} (h : Created parsed.base out d)
    (hlossy : ∀ c ∈ charactersOf out.1 out.2, toStringLossy c = c) (htidy : ExactTidy parsed)
    (hd : ∀ e, d ≠ .element e)
    (hcopied : ∀ parsed' : Parsed Base, nodeData parsed'.base out.2 = some d →
      characterData parsed' out.2 = (charactersOf out.1 out.2).getD [] →
      snapshot.copied Base = .node (label parsed' out.2) []) :
    MadeOf parsed (parsed.withBase out.1, out.2) snapshot := by
  obtain ⟨htidy', hunits⟩ := h.unremembered laws htidy
  refine ⟨.node out.2 [], rfl, ?_, .leaf h rfl htidy' (fun _ _ => rfl) hd (fun c hc => ?_)
    (hcopied _ h.nodeData_self hunits)⟩
  · show (tree out.1).parent out.2 = none
    rw [h.tree_eq]
    exact h.parent_eq
  · rw [hunits, show charactersOf out.1 out.2 = some c from hc]
    exact (hlossy c hc).symm

theorem madeOf_text (htidy : ExactTidy parsed) (units : Units) :
    MadeOf parsed (createText parsed units) (.text units) := by
  have hc := laws.created_textNode parsed.base (toStringLossy units)
  have hmade := MadeOf.remembered laws (.text units) .text hc (hc.charactersOf_self laws) htidy
    (fun parsed' h => by rw [label, h]) nofun rfl
  exact hmade

theorem madeOf_comment (htidy : ExactTidy parsed) (units : Units) :
    MadeOf parsed (createComment parsed units) (.comment units) := by
  have hc := laws.created_commentNode parsed.base (toStringLossy units)
  have hmade := MadeOf.remembered laws (.comment units) .comment hc (hc.charactersOf_self laws)
    htidy (fun parsed' h => by rw [label, h]) nofun rfl
  exact hmade

theorem madeOf_documentType (htidy : ExactTidy parsed) (name publicId systemId : String) :
    MadeOf parsed (materializeImport parsed (.documentType name publicId systemId))
      (.documentType name publicId systemId) := by
  have hc := laws.created_doctypeNode parsed.base name publicId systemId
  have hmade := MadeOf.unremembered laws (.documentType name publicId systemId) hc
    (by rw [hc.charactersOf_self laws]; exact nofun) htidy nofun
    fun parsed' h _ => by rw [label, h]; rfl
  exact hmade

theorem madeOf_processingInstruction (htidy : ExactTidy parsed) (target : String) (units : Units)
    (attributes : List (String × String)) :
    MadeOf parsed (materializeImport parsed (.processingInstruction target units attributes))
      (.processingInstruction target units attributes) := by
  have hc := laws.created_processingInstruction parsed.base target (toStringLossy units) attributes
  have hchars := hc.charactersOf_self laws
  have hmade := MadeOf.unremembered laws (.processingInstruction target units attributes) hc
    (by rw [hchars]; rintro c ⟨⟩; exact toStringLossy_toStringLossy units) htidy nofun
    fun parsed' h hdata => by rw [label, h, hdata, hchars]; rfl
  exact hmade

theorem madeOf_cdata (htidy : ExactTidy parsed) (units : Units) :
    MadeOf parsed (materializeImport parsed (.cdata units)) (.cdata units) := by
  have hc := laws.created_cdataSectionNode parsed.base (toStringLossy units)
  have hchars := hc.charactersOf_self laws
  have hmade := MadeOf.unremembered laws (.cdata units) hc
    (by rw [hchars]; rintro c ⟨⟩; exact toStringLossy_toStringLossy units) htidy nofun
    fun parsed' h hdata => by rw [label, h, hdata, hchars]; rfl
  exact hmade

theorem madeOf_fragment (htidy : ExactTidy parsed) (children : List (ImportSnapshot FormState))
    (hinto : ∀ {mid : Parsed Base} {p : NodeId}, ExactTidy mid → nodeData mid.base p ≠ none →
      ∃ ts, childIds (materializeInto mid p children).base p = childIds mid.base p ++ ts.map Rose.value ∧
        Grown mid (materializeInto mid p children) (some p) children ts) :
    MadeOf parsed (materializeImport parsed (.fragment children)) (.fragment children) := by
  have hc := laws.created_fragmentNode parsed.base
  set out := createFragmentNode parsed.base with hout
  obtain ⟨htidy', -⟩ := hc.unremembered laws htidy
  have hid : nodeData (parsed.withBase out.1).base out.2 ≠ none := by
    simp [hc.nodeData_self]
  obtain ⟨ts, hkids, hgrown⟩ := hinto htidy' hid
  have hdata := (hgrown.nodeData_eq _ hid).trans hc.nodeData_self
  have hempty : childIds out.1 out.2 = [] := by rw [childIds, hc.tree_eq, hc.children_eq]
  rw [Parsed.base_withBase, hempty, List.nil_append] at hkids
  rw [materializeImport]
  refine ⟨.node out.2 ts, rfl, ?_, hgrown.container laws hc.tree_eq rfl
    (fun n hn => hc.nodeData_of_live hn) (fun n habsent hn => .inl ?_) hid hc.fresh
    ⟨hc.fresh, ⟨hc.parent_eq, hc.children_eq⟩, ?_, fun e he => ?_, ?_⟩ ?_ ?_⟩
  · rw [hgrown.parent_eq _ (hgrown.notMem_values hid), Parsed.base_withBase, hc.tree_eq, hc.parent_eq]
  · by_contra hne
    rw [Parsed.base_withBase, hc.nodeData_eq, Function.update_of_ne hne] at hn
    exact hn habsent
  · simp [hdata]
  · rw [hdata] at he
    cases he
  · rw [charactersOf, laws.data_eq, hdata]
    rintro _ ⟨⟩
  · rw [below, hkids, contentsOf, hdata, List.append_nil]
  · rw [label, hdata, ImportSnapshot.copied]

/-- An element once it is created, and the node `p` that its children are to hang from. -/
theorem madeOf_element_of {base : Base} {id p : NodeId} {e : ElementData FormState}
    {formState : FormState} (htidy : ExactTidy (parsed.withBase base))
    (htree : tree base = tree parsed.base)
    (hlive : ∀ n, nodeData parsed.base n ≠ none → nodeData base n = nodeData parsed.base n)
    (honly : ∀ n, nodeData parsed.base n = none → nodeData base n ≠ none →
      n = id ∨ isFragment base n = true)
    (hid : nodeData base id = some (.element e)) (hidNew : nodeData parsed.base id = none)
    (hp : nodeData base p ≠ none) (hpNew : nodeData parsed.base p = none)
    (hroot : (tree parsed.base).parent id = none) (hempty : childIds parsed.base id = [])
    (hpEmpty : childIds parsed.base p = [])
    (hplace : if isTemplateTag e.name then e.templateContents = some p ∧ id ≠ p else p = id)
    (hstate : e.formState = settled Base e.name e.attrs formState)
    {children : List (ImportSnapshot FormState)}
    (hinto : ∀ {mid : Parsed Base} {p : NodeId}, ExactTidy mid → nodeData mid.base p ≠ none →
      ∃ ts, childIds (materializeInto mid p children).base p = childIds mid.base p ++ ts.map Rose.value ∧
        Grown mid (materializeInto mid p children) (some p) children ts) :
    MadeOf parsed (materializeInto (parsed.withBase base) p children, id)
      (.element e.name e.attrs formState children) := by
  have hidLive : nodeData base id ≠ none := by simp [hid]
  obtain ⟨ts, hkids, hgrown⟩ := hinto htidy hp
  have hdata := (hgrown.nodeData_eq id hidLive).trans hid
  have hmidKids : ∀ n, childIds base n = childIds parsed.base n := fun n => by
    rw [childIds, childIds, htree]
  rw [Parsed.base_withBase, hmidKids, hpEmpty, List.nil_append] at hkids
  have hlength : ts.length = children.length := by
    have hcongr := congrArg List.length hgrown.labels
    rwa [List.length_map, length_copiedAll] at hcongr
  refine ⟨.node id ts, rfl, ?_, hgrown.container laws htree rfl hlive honly hidLive hpNew
    ⟨hidNew, ⟨hroot, hempty⟩, ?_, fun e' he htag => ?_, ?_⟩ ?_ ?_⟩
  · rw [hgrown.parent_eq _ (hgrown.notMem_values hidLive), Parsed.base_withBase, htree, hroot]
  · simp [hdata]
  · obtain rfl : e = e' := by simpa [hdata] using he
    rw [if_pos htag] at hplace
    refine ⟨?_, p, hplace.1, hpNew, by rwa [hgrown.nodeData_eq _ hp]⟩
    rw [hgrown.children_eq id hidLive fun he => hplace.2 (Option.some.inj he).symm,
      Parsed.base_withBase, hmidKids, hempty]
  · rw [charactersOf, laws.data_eq, hdata]
    rintro _ ⟨⟩
  · rw [below, contentsOf, hdata]
    dsimp only
    split at hplace
    · rename_i htag
      rw [if_pos htag, hplace.1, Option.elim_some, hkids,
        hgrown.children_eq id hidLive fun he => hplace.2 (Option.some.inj he).symm,
        Parsed.base_withBase, hmidKids, hempty, List.nil_append]
    · rename_i htag
      rw [if_neg htag, ← hplace, hkids, List.append_nil]
  · rw [label, hdata, ImportSnapshot.copied]
    dsimp only
    split at hplace
    · rename_i htag
      rw [if_pos htag, hstate,
        hgrown.children_eq id hidLive fun he => hplace.2 (Option.some.inj he).symm,
        Parsed.base_withBase, hmidKids, hempty, List.length_nil]
    · rename_i htag
      rw [if_neg htag, ← hplace, hkids, List.length_map, hlength, hstate]

theorem madeOf_element (htidy : ExactTidy parsed) (name : QualName) (attributes : List Attribute)
    (formState : FormState) {children : List (ImportSnapshot FormState)}
    (hinto : ∀ {mid : Parsed Base} {p : NodeId}, ExactTidy mid → nodeData mid.base p ≠ none →
      ∃ ts, childIds (materializeInto mid p children).base p = childIds mid.base p ++ ts.map Rose.value ∧
        Grown mid (materializeInto mid p children) (some p) children ts) :
    MadeOf parsed (materializeImport parsed (.element name attributes formState children))
      (.element name attributes formState children) := by
  rw [materializeImport]
  set out := createElement parsed.base name attributes with hout
  cases htag : isTemplateTag name with
  | false =>
    obtain ⟨state, hc⟩ := laws.createElement_plain parsed.base name attributes htag
    rw [← hout] at hc
    have hdata := laws.nodeData_settle out.1 out.2 _ formState hc.nodeData_self
    have htree := (laws.tree_settle out.1 out.2 formState).trans hc.tree_eq
    have hlive : ∀ n, nodeData parsed.base n ≠ none →
        nodeData (syncSanitizedValue (adoptClonedState out.1 out.2 formState) out.2) n =
          nodeData parsed.base n := fun n hn => by
      rw [hdata, Function.update_of_ne, hc.nodeData_of_live hn]
      rintro rfl
      exact hn hc.fresh
    have hself := congrFun hdata out.2
    rw [Function.update_self] at hself
    exact madeOf_element_of laws (htidy.mono laws hlive fun m u hm => .inl hm) htree hlive
      (fun n habsent hn => .inl (by
        by_contra hne
        rw [hdata, Function.update_of_ne hne, hc.nodeData_eq, Function.update_of_ne hne] at hn
        exact hn habsent))
      hself hc.fresh (by simp [hself]) hc.fresh hc.parent_eq hc.children_eq hc.children_eq
      (by rw [htag]; rfl) rfl hinto
  | true =>
    obtain ⟨base, fragment, host, state, hf, hc⟩ :=
      laws.createElement_template parsed.base name attributes htag
    rw [← hout] at hc
    have hdata := laws.nodeData_settle out.1 out.2 _ formState hc.nodeData_self
    have htree := (laws.tree_settle out.1 out.2 formState).trans (hc.tree_eq.trans hf.tree_eq)
    have hne : out.2 ≠ fragment := fun he => by
      have hfresh := hc.fresh
      rw [he, hf.nodeData_self] at hfresh
      cases hfresh
    have hfresh : nodeData parsed.base out.2 = none := by
      have hfresh := hc.fresh
      rwa [hf.nodeData_eq, Function.update_of_ne hne] at hfresh
    have hlive : ∀ n, nodeData parsed.base n ≠ none →
        nodeData (syncSanitizedValue (adoptClonedState out.1 out.2 formState) out.2) n =
          nodeData parsed.base n := fun n hn => by
      have hnf : nodeData base n = nodeData parsed.base n := hf.nodeData_of_live hn
      rw [hdata, Function.update_of_ne, hc.nodeData_of_live (hnf ▸ hn), hnf]
      rintro rfl
      exact hn hfresh
    have hself := congrFun hdata out.2
    rw [Function.update_self] at hself
    have hcontents := laws.templateContents_of_some _ _ _ _ hself rfl
    have hfragment : nodeData (syncSanitizedValue (adoptClonedState out.1 out.2 formState) out.2)
        fragment = some (.fragment host) := by
      rw [hdata, Function.update_of_ne hne.symm, hc.nodeData_eq, Function.update_of_ne hne.symm,
        hf.nodeData_self]
    simp only [if_true, hcontents]
    have hroot := hc.parent_eq
    have hempty := hc.children_eq
    rw [show tree base = tree parsed.base from hf.tree_eq] at hroot hempty
    refine madeOf_element_of laws (htidy.mono laws hlive fun m u hm => .inl hm) htree hlive
      (fun n habsent hn => ?_) hself hfresh (by simp [hfragment]) hf.fresh hroot hempty
      hf.children_eq ?_ rfl hinto
    · by_cases hn' : n = fragment
      · right
        rw [hn', isFragment, laws.data_eq, hfragment]
        rfl
      · left
        by_contra hne'
        rw [hdata, Function.update_of_ne hne', hc.nodeData_eq, Function.update_of_ne hne',
          hf.nodeData_eq, Function.update_of_ne hn'] at hn
        exact hn habsent
    · rw [if_pos htag]
      exact ⟨rfl, hne⟩

omit laws in
mutual

theorem madeOf_materializeImport (laws : BlitzNodes.Laws Base) {parsed : Parsed Base}
    (htidy : ExactTidy parsed) : ∀ snapshot : ImportSnapshot FormState,
    MadeOf parsed (materializeImport parsed snapshot) snapshot
  | .text units => by
    rw [materializeImport]
    exact madeOf_text laws htidy units
  | .comment units => by
    rw [materializeImport]
    exact madeOf_comment laws htidy units
  | .documentType name publicId systemId => madeOf_documentType laws htidy name publicId systemId
  | .processingInstruction target units attributes =>
    madeOf_processingInstruction laws htidy target units attributes
  | .cdata units => madeOf_cdata laws htidy units
  | .fragment children => madeOf_fragment laws htidy children fun htidy hp =>
    grown_materializeInto laws htidy hp children
  | .element name attributes formState children =>
    madeOf_element laws htidy name attributes formState fun htidy hp =>
      grown_materializeInto laws htidy hp children

/-- The trees made of several snapshots become the last children of a node. -/
theorem grown_materializeInto (laws : BlitzNodes.Laws Base) {parsed : Parsed Base} {p : NodeId}
    (htidy : ExactTidy parsed) (hp : nodeData parsed.base p ≠ none) :
    ∀ snapshots : List (ImportSnapshot FormState),
    ∃ ts, childIds (materializeInto parsed p snapshots).base p =
        childIds parsed.base p ++ ts.map Rose.value ∧
      Grown parsed (materializeInto parsed p snapshots) (some p) snapshots ts
  | [] => ⟨[], by rw [materializeInto, List.map_nil, List.append_nil], .nil htidy⟩
  | snapshot :: rest => by
    obtain ⟨t, hvalue, hroot, hgrown⟩ := madeOf_materializeImport laws htidy snapshot
    let out := materializeImport parsed snapshot
    have heq : materializeInto parsed p (snapshot :: rest) =
        materializeInto (out.1.withBase (appendChildren out.1.base p [out.2])) p rest := by
      rw [materializeInto]
    rw [heq]
    have hp' : nodeData (appendChildren out.1.base p [out.2]) p ≠ none := by
      rw [laws.nodeData_appendChildren, hgrown.nodeData_eq p hp]
      exact hp
    have htidy' : ExactTidy (out.1.withBase (appendChildren out.1.base p [out.2])) :=
      hgrown.tidy.mono laws (fun m _ => congrFun (laws.nodeData_appendChildren _ _ _) m)
        fun m u hm => .inl hm
    obtain ⟨ts, hkids, hrest⟩ := grown_materializeInto laws htidy' hp' rest
    rw [← hvalue] at hroot hrest hkids
    obtain ⟨hall, happend⟩ := hgrown.cons laws hp hroot hrest
    refine ⟨t :: ts, ?_, ?_⟩
    swap
    · rw [← hvalue]
      exact hall
    rw [hvalue] at hkids happend
    rw [hkids, Parsed.base_withBase, happend, List.map_cons, hvalue, List.append_assoc]
    rfl

end

end

end TinyBrowser.Dom
