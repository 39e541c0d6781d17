import TinyBrowser.Dom.Effects

/-!
# What the mutations leave under the parent

The child list of the parent after each mutation. A position in a child list is a cut of the list
in two, so the new list is given by the parts around the cut: what comes in stands between what
stays of the two parts (`weave`).
-/

namespace TinyBrowser.Dom
open Lib Blitz

/-! ### Cuts -/

variable {Base : Type} [Blitz Base] {base : Base} {parent node child old : NodeId}
  {ref : Option NodeId} {cs before after : List NodeId}

theorem idxOf_split (hkids : childIds base parent = before ++ child :: after) :
    childIndex base parent child = some before.length := by
  have hnodup := (tree base).nodup parent
  have hm : child ∈ (tree base).children parent := by
    rw [childIds] at hkids
    rw [hkids]
    simp
  rw [childIndex_of_mem hm, ← childIds, hkids]
  rw [childIds] at hkids
  rw [hkids] at hnodup
  have hbefore : child ∉ before := fun h =>
    List.disjoint_of_nodup_append hnodup h List.mem_cons_self
  rw [List.idxOf_append_of_notMem hbefore, List.idxOf_cons_self, Nat.add_zero]

theorem sibling_split (hkids : childIds base parent = before ++ node :: after) :
    sibling base node true = after.head? := by
  have hp : (tree base).parent node = some parent := by
    rw [← (tree base).mem_children, ← childIds, hkids]
    simp
  rw [sibling, parentOf, hp]
  simp only [Option.bind_eq_bind, Option.bind_some, idxOf_split hkids, if_true, hkids]
  rw [List.getElem?_append_right (by omega), show before.length + 1 - before.length = 1 by omega,
    List.getElem?_cons_succ, List.head?_eq_getElem?]

theorem cut_of_mem (h : ∀ r ∈ ref, r ∈ childIds base parent) :
    ∃ before after, childIds base parent = before ++ after ∧ after.head? = ref := by
  cases ref with
  | none => exact ⟨childIds base parent, [], by simp, rfl⟩
  | some r =>
    obtain ⟨before, after, hkids⟩ := List.append_of_mem (h r rfl)
    exact ⟨before, r :: after, hkids, rfl⟩

/-! ### One mutation after the other -/

/-- After the mutation the children of `parent` are `kids`, and all data is as it was. -/
structure Yields (parsed parsed' : Parsed Base) (parent : NodeId) (kids : List NodeId) : Prop where
  children : childIds parsed'.base parent = kids
  data : data parsed'.base = data parsed.base

variable (laws : Laws Base) {parsed : Parsed Base}
include laws

theorem tree_unlink_place (h : (tree parsed.base).Joins parent node ref) :
    tree (placeJournaled (unlinkJournaled parsed node) parent node ref).base =
      (tree parsed.base).attach parent node ref := by
  have ht := tree_unlinkJournaled laws parsed node
  have hj := h.detached
  rw [← ht] at hj
  have hroot := Forest.detach_of_root (Forest.parent_detach_self (tree parsed.base) node)
  rw [placeJournaled_eq _ (mem_children_placeOne laws hj)]
  simp only [Parsed.base_record, Parsed.base_withRanges, Parsed.base_withBase,
    tree_placeOne laws hj, ht]
  rw [Forest.attach, hroot]
  rfl

theorem data_unlink_place (h : (tree parsed.base).Joins parent node ref) :
    data (placeJournaled (unlinkJournaled parsed node) parent node ref).base = data parsed.base := by
  have hj := h.detached
  rw [← tree_unlinkJournaled laws parsed node] at hj
  rw [placeJournaled_eq _ (mem_children_placeOne laws hj)]
  simp only [Parsed.base_record, Parsed.base_withRanges, Parsed.base_withBase, data_placeOne laws,
    data_unlinkJournaled laws]

theorem yields_unlink_place (h : (tree parsed.base).Joins parent node ref)
    (hkids : childIds parsed.base parent = before ++ after) (href : after.head? = ref) :
    Yields parsed (placeJournaled (unlinkJournaled parsed node) parent node ref) parent
      (weave before [node] after) where
  children := by
    rw [childIds, tree_unlink_place laws h]
    exact h.all.children_attachAll_cut hkids href
  data := data_unlink_place laws h

theorem yields_spliceParsed (h : Insertable parsed.base parent node ref)
    (hkids : childIds parsed.base parent = before ++ after) (href : after.head? = ref) :
    Yields parsed (spliceParsed parsed parent node ref) parent
      (weave before (childIds parsed.base node) after) := by
  have hj := joinsAll_children h
  have hcut := hj.children_attachAll_cut hkids href
  by_cases hne : (tree parsed.base).children node = []
  · rw [spliceParsed, if_pos (by simpa [childIds] using hne)]
    rw [hne] at hcut
    exact ⟨by rw [childIds, childIds, hne]; exact hcut, rfl⟩
  · rw [spliceParsed_eq parsed h.reference_mem hne]
    constructor
    · simp only [childIds, Parsed.base_record, Parsed.base_withRanges, Parsed.base_withBase,
        tree_placeAll laws hj]
      exact hcut
    · simp only [Parsed.base_record, Parsed.base_withRanges, Parsed.base_withBase,
        data_placeAll laws]

theorem yields_moveParsed {target : MoveTarget}
    (h : (tree parsed.base).Joins parent node target.reference)
    (hp : (tree parsed.base).parent node = some old)
    (hkids : childIds parsed.base parent = before ++ after) (href : after.head? = target.reference) :
    Yields parsed (moveParsed parsed parent node target) parent (weave before [node] after) := by
  have ht := laws.tree_moveNode parsed.base parent node target.reference h
  have hm : node ∈ (tree (moveNode parsed.base node parent target.reference)).children parent := by
    rw [ht, h.children_attach, if_pos rfl, mem_place]
    exact .inr (List.mem_singleton_self node)
  rw [moveParsed_eq parsed hp rfl hm]
  constructor
  · simp only [childIds, Parsed.base_record, Parsed.base_withRanges, Parsed.base_withBase, ht]
    exact h.all.children_attachAll_cut hkids href
  · simp only [Parsed.base_record, Parsed.base_withRanges, Parsed.base_withBase,
      laws.data_moveNode]

theorem yields_swapChildren (hkids : childIds parsed.base parent = before ++ old :: after)
    (href : after.head? = ref) (h : ((tree parsed.base).detach old).JoinsAll parent cs ref)
    (previous : Option NodeId) :
    Yields parsed (swapChildren parsed parent old cs previous ref) parent
      (weave before cs after) := by
  have ht := laws.tree_removeNode parsed.base old
  have hold : old ∈ (tree parsed.base).children parent := by
    rw [← childIds, hkids]
    simp
  have hgone : ((tree parsed.base).detach old).children parent = before ++ after := by
    have hnodup := (tree parsed.base).nodup parent
    rw [Forest.children_detach]
    rw [← childIds, hkids] at hnodup ⊢
    rw [List.erase_append_right _ fun hm =>
      List.disjoint_of_nodup_append hnodup hm List.mem_cons_self, List.erase_cons_head]
  have hcut := h.children_attachAll_cut hgone href
  have hr : ∀ r ∈ ref, r ∈ (tree (removeNode parsed.base old)).children parent := fun r hr => by
    rw [ht]
    exact (h.ref_mem r hr).1
  rw [← ht] at h hcut
  rw [swapChildren_eq parsed hold hr]
  constructor
  · simp only [childIds, Parsed.base_record, Parsed.base_withRanges, Parsed.base_withBase,
      tree_placeAll laws h]
    exact hcut
  · simp only [Parsed.base_record, Parsed.base_withRanges, Parsed.base_withBase,
      data_placeAll laws, laws.data_removeNode]

omit laws in
/-- The nodes that the insertion of `node` brings. -/
def insertedNodes (base : Base) (node : NodeId) : List NodeId :=
  if isFragment base node then childIds base node else [node]

/-- A node that goes before `ref`, or before its own next sibling when `ref` is the node itself. -/
theorem yields_beside (h : Insertable parsed.base parent node ref)
    (hkids : childIds parsed.base parent = before ++ after) (href : after.head? = ref) :
    Yields parsed (placeJournaled (unlinkJournaled parsed node) parent node
      (if ref = some node then sibling parsed.base node true else ref)) parent
      (weave before [node] after) := by
  have hj := joins_of_insertable h
  by_cases hself : ref = some node
  · rw [if_pos hself] at hj ⊢
    cases after with
    | nil => rw [hself] at href; cases href
    | cons r after =>
      obtain rfl : r = node := Option.some.inj (href.trans hself)
      have hnext := sibling_split hkids
      rw [hnext] at hj ⊢
      have hcut : childIds parsed.base parent = (before ++ [r]) ++ after := by simpa using hkids
      have hy := yields_unlink_place laws hj hcut rfl
      rw [weave_concat_of_mem (List.mem_singleton_self r)] at hy
      rw [weave_cons_of_mem (List.mem_singleton_self r)]
      exact hy
  · rw [if_neg hself] at hj ⊢
    exact yields_unlink_place laws hj hkids href

theorem yields_insertParsed (h : Insertable parsed.base parent node ref)
    (hkids : childIds parsed.base parent = before ++ after) (href : after.head? = ref) :
    Yields parsed (insertParsed parsed parent node ref) parent
      (weave before (insertedNodes parsed.base node) after) := by
  rw [insertParsed, insertedNodes]
  split
  · exact yields_spliceParsed laws h hkids href
  · exact yields_beside laws h hkids href

/-- An insertion at the end, as a change of the forest. -/
theorem tree_insertParsed_end (h : Insertable parsed.base parent node none) :
    tree (insertParsed parsed parent node none).base =
      (tree parsed.base).attachAll parent (insertedNodes parsed.base node) none := by
  rw [insertParsed, insertedNodes]
  split
  · by_cases hne : (tree parsed.base).children node = []
    · rw [spliceParsed, if_pos (by simpa [childIds] using hne), childIds, hne]
      rfl
    · rw [spliceParsed_eq parsed h.reference_mem hne]
      simp only [Parsed.base_record, Parsed.base_withRanges, Parsed.base_withBase,
        tree_placeAll laws (joinsAll_children h)]
      rfl
  · exact tree_unlink_place laws (joins_of_insertable h)

/-! ### Replacement -/

omit laws in
theorem head?_filter_of_nodup (hnodup : after.Nodup) : (after.filter (· ∉ [node])).head? =
    if after.head? = some node then after.tail.head? else after.head? := by
  cases after with
  | nil => rfl
  | cons x after =>
    obtain ⟨hx, -⟩ := List.nodup_cons.1 hnodup
    by_cases hxn : x = node
    · subst hxn
      rw [List.filter_cons_of_neg (by simp), List.head?_cons, if_pos rfl, List.tail_cons,
        List.filter_eq_self.2]
      intro y hy
      have hne : y ≠ x := fun h => hx (h ▸ hy)
      simpa using hne
    · rw [List.filter_cons_of_pos (by simpa using hxn), List.head?_cons, List.head?_cons,
        if_neg (by simpa using hxn)]

theorem yields_replace_node (h : Insertable parsed.base parent node (some old))
    (hkids : childIds parsed.base parent = before ++ old :: after) :
    Yields parsed (replaceParsed parsed parent old (.node node)).1 parent
      (weave before [node] after) := by
  have hnext := sibling_split hkids
  rw [replaceParsed]
  split
  · -- replaced by itself, it goes back to its place
    rename_i heq
    obtain rfl := Replacement.node.inj heq
    have hy := yields_beside laws h hkids rfl
    rw [if_pos rfl, weave_cons_of_mem (List.mem_singleton_self _)] at hy
    exact hy
  · rename_i heq
    have hne : old ≠ node := fun hno => heq (congrArg _ hno.symm)
    have ht := tree_unlinkJournaled laws parsed node
    have hnodup := (tree parsed.base).nodup parent
    rw [← childIds, hkids] at hnodup
    have hkids' : childIds (unlinkJournaled parsed node).base parent =
        before.filter (· ∉ [node]) ++ old :: after.filter (· ∉ [node]) := by
      rw [childIds, ht, Forest.children_detach,
        erase_eq_filter_notMem ((tree parsed.base).nodup parent), ← childIds, hkids,
        List.filter_append, List.filter_cons_of_pos (by simpa using hne)]
    have hafter : after.Nodup := (List.nodup_cons.1 (List.nodup_append.1 hnodup).2.1).2
    have href : (after.filter (· ∉ [node])).head? =
        if sibling parsed.base old true = some node then sibling parsed.base node true
        else sibling parsed.base old true := by
      rw [head?_filter_of_nodup hafter, hnext]
      split
      · rename_i hhead
        cases after with
        | nil => cases hhead
        | cons x after =>
          obtain rfl := Option.some.inj hhead
          have hcut : childIds parsed.base parent = (before ++ [old]) ++ x :: after := by
            simpa using hkids
          rw [sibling_split hcut]
          rfl
      · rfl
    have hj := joinsAll_replace h hne
    rw [← ht, ← href] at hj
    have hy := yields_swapChildren laws hkids' rfl hj (siblingsAround parsed.base parent old).1
    rw [weave_filter, href] at hy
    exact ⟨hy.children, hy.data.trans (data_unlinkJournaled laws parsed node)⟩

theorem yields_replace_fragment (h : Insertable parsed.base parent node (some old))
    (hkids : childIds parsed.base parent = before ++ old :: after) :
    Yields parsed (replaceParsed parsed parent old
      (.fragmentContents node (childIds parsed.base node))).1 parent
      (weave before (childIds parsed.base node) after) := by
  have hnext := sibling_split hkids
  rw [replaceParsed, if_neg (by simp)]
  simp only [adjustChildrenLeaving_eq]
  let emptied := (parsed.withRanges (leaveRanges parsed.base parsed.side.ranges node
    (childIds parsed.base node))).record (.childList node [] (childIds parsed.base node) none none)
  have hbase : emptied.base = parsed.base := by simp [emptied]
  have hcut : childIds emptied.base parent = before ++ old :: after := hbase ▸ hkids
  have hj := joinsAll_replace_children h
  rw [← hbase] at hj
  have hy := yields_swapChildren laws hcut (hbase ▸ hnext).symm hj
    (siblingsAround parsed.base parent old).1
  rw [hbase] at hy
  exact ⟨hy.children, hy.data.trans (by rw [hbase])⟩

theorem yields_replace_adopted (h : Adopted parsed.base parent cs)
    (hkids : childIds parsed.base parent = before ++ old :: after) :
    Yields parsed (replaceParsed parsed parent old (.adopted cs)).1 parent
      (weave before cs after) := by
  have hold : (tree parsed.base).parent old = some parent := by
    rw [← (tree parsed.base).mem_children, ← childIds, hkids]
    simp
  rw [replaceParsed, if_neg (by simp)]
  exact yields_swapChildren laws hkids (sibling_split hkids).symm (joinsAll_replace_adopted hold h)
    (siblingsAround parsed.base parent old).1

/-- Nodes that come in one after the other, before the same child. -/
theorem insertEach_effect (h : (tree parsed.base).JoinsAll parent cs ref)
    (hplain : ∀ c ∈ cs, isFragment parsed.base c = false) :
    tree (cs.foldl (fun parsed c => insertParsed parsed parent c ref) parsed).base =
      (tree parsed.base).attachAll parent cs ref ∧
    data (cs.foldl (fun parsed c => insertParsed parsed parent c ref) parsed).base =
      data parsed.base := by
  induction cs generalizing parsed with
  | nil => exact ⟨rfl, rfl⟩
  | cons c cs ih =>
    have hj := h.head
    have hne : ref ≠ some c := fun hrc => (hj.ref_mem c hrc).2 rfl
    have hstep : insertParsed parsed parent c ref =
        placeJournaled (unlinkJournaled parsed c) parent c ref := by
      rw [insertParsed, hplain c List.mem_cons_self, if_neg Bool.false_ne_true, if_neg hne]
    have ht : tree (insertParsed parsed parent c ref).base =
        (tree parsed.base).attach parent c ref := hstep ▸ tree_unlink_place laws hj
    have hd : data (insertParsed parsed parent c ref).base = data parsed.base :=
      hstep ▸ data_unlink_place laws hj
    have htail : (tree (insertParsed parsed parent c ref).base).JoinsAll parent cs ref :=
      ht ▸ h.tail
    obtain ⟨ihtree, ihdata⟩ := ih htail fun x hx => by
      rw [isFragment, hd]
      exact hplain x (List.mem_cons_of_mem _ hx)
    rw [List.foldl_cons, ihtree, ihdata, ht, hd]
    exact ⟨rfl, rfl⟩

theorem yields_insertEach (h : Adopted parsed.base parent cs)
    (hplain : ∀ c ∈ cs, isFragment parsed.base c = false)
    (hkids : childIds parsed.base parent = before ++ after) (href : after.head? = ref) :
    Yields parsed (cs.foldl (fun parsed c => insertParsed parsed parent c ref) parsed) parent
      (weave before cs after) := by
  have hj : (tree parsed.base).JoinsAll parent cs ref := by
    refine ⟨h.1, fun c hc => (h.2 c hc).2, fun r hr => ?_⟩
    have hm : r ∈ (tree parsed.base).children parent := by
      rw [← childIds, hkids, List.mem_append]
      exact .inr (List.mem_of_mem_head? (href.trans hr))
    refine ⟨hm, fun hrc => ?_⟩
    have hroot := (h.2 r hrc).1
    rw [parentOf, (tree parsed.base).mem_children.1 hm] at hroot
    cases hroot
  obtain ⟨htree, hdata⟩ := insertEach_effect laws hj hplain
  refine ⟨?_, hdata⟩
  rw [childIds, htree]
  exact hj.children_attachAll_cut hkids href

/-! ### Replacing everything -/

theorem yields_replaceAllJournaled (hnodup : cs.Nodup)
    (hacyclic : ∀ c ∈ cs, c ∉ (tree parsed.base).chain parent) :
    Yields parsed (replaceAllJournaled parsed parent cs) parent cs := by
  have htree := tree_clearChildren laws parsed parent
  have hempty : (tree (clearChildren parsed parent).base).children parent = [] := by
    rw [htree, Forest.children_detachAll_children, Function.update_self]
  have hj : (tree (clearChildren parsed parent).base).JoinsAll parent cs none := by
    refine ⟨hnodup, fun c hc hm => hacyclic c hc ?_, by simp⟩
    rw [htree] at hm
    exact Forest.mem_chain_detachAll hm
  have hfinal : childIds (cs.foldl (appendAdopted parent) (clearChildren parsed parent)).base
      parent = cs := by
    have hcut : (tree (clearChildren parsed parent).base).children parent = [] ++ [] := hempty
    rw [childIds, tree_appendAll laws hj, hj.children_attachAll_cut hcut rfl]
    simp [weave]
  have hdata : data (cs.foldl (appendAdopted parent) (clearChildren parsed parent)).base =
      data parsed.base := by
    rw [data_appendAll laws, data_clearChildren laws]
  rw [replaceAllJournaled]
  split
  · exact ⟨by rw [Parsed.base_record]; exact hfinal, by rw [Parsed.base_record]; exact hdata⟩
  · exact ⟨hfinal, hdata⟩

theorem yields_replaceAllWithNode (h : node ∉ (tree parsed.base).chain parent) :
    Yields parsed (replaceAllWithNode parsed parent node) parent
      (insertedNodes parsed.base node) := by
  rw [replaceAllWithNode, insertedNodes]
  split
  · simp only [adjustChildrenLeaving_eq, Parsed.base_withRanges]
    let emptied := (((parsed.withRanges (leaveRanges parsed.base parsed.side.ranges node
      (childIds parsed.base node))).withBase
        ((childIds parsed.base node).foldl removeNode parsed.base)).record
          (.childList node [] (childIds parsed.base node) none none))
    have hy : Yields emptied (replaceAllJournaled emptied parent (childIds parsed.base node))
        parent (childIds parsed.base node) :=
      yields_replaceAllJournaled laws ((tree parsed.base).nodup node) fun c hc hm => ?_
    · refine ⟨hy.children, ?_⟩
      have hdata := hy.data
      rw [Parsed.base_record, Parsed.base_withBase, data_removeAll laws] at hdata
      exact hdata
    · rw [Parsed.base_record, Parsed.base_withBase, tree_removeAll laws] at hm
      rw [childIds, Forest.mem_children] at hc
      refine h (Forest.mem_chain_trans ?_ (Forest.mem_chain_detachAll hm))
      rw [Forest.mem_chain_of_parent hc]
      exact .inr (Forest.mem_chain_self _ node)
  · refine yields_replaceAllJournaled laws (List.nodup_singleton node) fun c hc => ?_
    rw [List.mem_singleton.1 hc]
    exact h

end TinyBrowser.Dom
