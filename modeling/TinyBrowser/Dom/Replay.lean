import TinyBrowser.Dom.Effects
import TinyBrowser.Dom.Plain

/-!
# Replaying the journal

The `childList` entries of the journal are instructions: delete the removed nodes from the target's
child list, then put the added ones before `next` or at the end. Played in journal order on the
child lists that a document had, they go through and end in the child lists that it has
(`replay_of_run`). An entry may be recorded before the tree is changed or after it, and a replacement
is one entry for several changes, so each mutation is followed to its end before the two are
compared.
-/

namespace TinyBrowser.Dom
open Lib Lib.Machine Blitz

/-- The child lists of a forest. -/
abbrev ChildLists := NodeId → List NodeId

/-- Deletes one node after the other; each has to be there. -/
def deleteEach (l removed : List NodeId) : Option (List NodeId) :=
  removed.foldlM (fun l r => if r ∈ l then some (l.erase r) else none) l

/-- One entry; `none` when a removed node or `next` is not a child of the target. -/
def replayEntry (kids : ChildLists) : JournalEntry → Option ChildLists
  | .childList target added removed _ next =>
    (deleteEach (kids target) removed).bind fun left =>
      if ∀ n ∈ next, n ∈ left then some (Function.update kids target (place left added next))
      else none
  | .characterData .. => some kids

def replay (kids : ChildLists) (entries : List JournalEntry) : Option ChildLists :=
  entries.foldlM replayEntry kids

theorem replay_append {kids kids' : ChildLists} {l l' : List JournalEntry}
    (h : replay kids l = some kids') : replay kids (l ++ l') = replay kids' l' := by
  rw [replay, List.foldlM_append]
  rw [replay] at h
  rw [h]
  rfl

theorem deleteEach_singleton {l : List NodeId} {c : NodeId} (h : c ∈ l) :
    deleteEach l [c] = some (l.erase c) := by
  simp [deleteEach, h]

theorem deleteEach_self (l : List NodeId) : deleteEach l l = some [] := by
  induction l with
  | nil => rfl
  | cons x l ih =>
    rw [deleteEach] at ih ⊢
    simp [ih]

theorem replayEntry_removed {kids : ChildLists} {target c : NodeId} (previous next : Option NodeId)
    (h : c ∈ kids target) (hn : ∀ n ∈ next, n ∈ kids target ∧ n ≠ c) (hd : (kids target).Nodup)
    (added : List NodeId) :
    replayEntry kids (.childList target added [c] previous next) =
      some (Function.update kids target (place ((kids target).erase c) added next)) := by
  rw [replayEntry, deleteEach_singleton h, Option.bind_some, if_pos]
  intro n hnn
  obtain ⟨hm, hne⟩ := hn n hnn
  exact hd.mem_erase_iff.2 ⟨hne, hm⟩

theorem replayEntry_added {kids : ChildLists} {target : NodeId} (previous next : Option NodeId)
    (hn : ∀ n ∈ next, n ∈ kids target) (added : List NodeId) :
    replayEntry kids (.childList target added [] previous next) =
      some (Function.update kids target (place (kids target) added next)) := by
  rw [replayEntry]
  exact if_pos hn

theorem replayEntry_all (kids : ChildLists) (target : NodeId) (added : List NodeId) :
    replayEntry kids (.childList target added (kids target) none none) =
      some (Function.update kids target added) := by
  rw [replayEntry, deleteEach_self, Option.bind_some, if_pos (by simp)]
  rfl

section
variable {f : Forest NodeId} {p c old : NodeId} {cs : List NodeId} {ref : Option NodeId}

theorem replayEntry_detach (h : f.parent c = some p) (previous : Option NodeId)
    {next : Option NodeId} (hn : ∀ n ∈ next, n ∈ f.children p ∧ n ≠ c) :
    replayEntry f.children (.childList p [] [c] previous next) = some (f.detach c).children := by
  rw [replayEntry_removed previous next (f.mem_children.2 h) hn (f.nodup p), place_nil,
    Forest.children_detach_eq_update h]

theorem replayEntry_attachAll (h : f.JoinsAll p cs ref) (previous : Option NodeId) :
    replayEntry (f.detachAll cs).children (.childList p cs [] previous ref) =
      some (f.attachAll p cs ref).children := by
  rw [h.children_attachAll_eq_update, replayEntry_added]
  exact fun n hn => (h.detached.ref_mem n hn).1

/-- The entry of a replacement does both. -/
theorem replayEntry_replace (h : (f.detach old).JoinsAll p cs ref) (hold : f.parent old = some p)
    (hcs : old ∉ cs) (previous : Option NodeId) :
    replayEntry (f.detachAll cs).children (.childList p cs [old] previous ref) =
      some ((f.detach old).attachAll p cs ref).children := by
  have hlist : ∀ q, ((f.detach old).detachAll cs).children q =
      ((f.detachAll cs).children q).erase old := fun q => by
    rw [Forest.children_detachAll, Forest.children_detachAll, Forest.children_detach,
      (f.nodup q).erase_eq_filter, ((f.nodup q).filter _).erase_eq_filter, List.filter_comm]
  have hmem : old ∈ (f.detachAll cs).children p := by
    rw [Forest.children_detachAll, List.mem_filter]
    exact ⟨f.mem_children.2 hold, by simpa using hcs⟩
  rw [h.children_attachAll_eq_update, replayEntry_removed previous ref hmem _ (Forest.nodup _ p)]
  · congr 1
    funext q
    rw [Function.update_apply, Function.update_apply, hlist, hlist]
    split
    · rfl
    · rename_i hq
      refine (List.erase_of_not_mem fun hm => hq ?_).symm
      rw [Forest.children_detachAll, List.mem_filter, f.mem_children, hold, Option.some_inj] at hm
      exact hm.1.symm
  · intro n hn
    have hm := (h.detached.ref_mem n hn).1
    rw [hlist, (Forest.nodup _ p).mem_erase_iff] at hm
    exact ⟨hm.2, hm.1⟩

end

/-! ### What a mutation records -/

variable {Base : Type} [Blitz Base] {parsed parsed' parsed'' : Parsed Base}

def Parsed.kids (parsed : Parsed Base) : ChildLists := (tree parsed.base).children

@[simp] theorem Parsed.kids_record (e : JournalEntry) : (parsed.record e).kids = parsed.kids := by
  rw [kids, kids, base_record]

/-- Between the two documents the journal grew by entries that turn `kids` into `kids'`. -/
def Records (parsed parsed' : Parsed Base) (kids kids' : ChildLists) : Prop :=
  parsed'.side.recording = true ∧
    ∃ l, parsed'.entries = parsed.entries ++ l ∧ replay kids l = some kids'

omit [Blitz Base] in
theorem Records.trans {k k' k'' : ChildLists} (h : Records parsed parsed' k k')
    (h' : Records parsed' parsed'' k' k'') : Records parsed parsed'' k k'' := by
  obtain ⟨-, l, hl, hk⟩ := h
  obtain ⟨hr, l', hl', hk'⟩ := h'
  refine ⟨hr, l ++ l', ?_, ?_⟩
  · rw [hl', hl, List.append_assoc]
  · rw [replay_append hk, hk']

omit [Blitz Base] in
theorem Records.refl (h : parsed.side.recording = true) (k : ChildLists) :
    Records parsed parsed k k := ⟨h, [], by simp, rfl⟩

omit [Blitz Base] in
theorem Records.update (h : parsed.side.recording = true) (base : Base) (t : RangeTable)
    (k : ChildLists) : Records parsed ((parsed.withBase base).withRanges t) k k :=
  ⟨h, [], by simp, rfl⟩

omit [Blitz Base] in
theorem Records.withBase {k k' : ChildLists} (h : Records parsed parsed' k k') (base : Base) :
    Records parsed (parsed'.withBase base) k k' := h

omit [Blitz Base] in
theorem Records.entry {k k' k'' : ChildLists} {e : JournalEntry} (h : Records parsed parsed' k k')
    (hk : replayEntry k' e = some k'') : Records parsed (parsed'.record e) k k'' := by
  obtain ⟨hr, l, hl, hkl⟩ := h
  refine ⟨by simpa using hr, l ++ [e], ?_, ?_⟩
  · rw [Parsed.entries_record _ hr, hl, List.append_assoc]
  · rw [replay_append hkl, replay, List.foldlM_cons, hk]
    rfl

/-- The journal turns the child lists before into the child lists after. -/
def Faithful (parsed parsed' : Parsed Base) : Prop :=
  Records parsed parsed' parsed.kids parsed'.kids

theorem Faithful.trans (h : Faithful parsed parsed') (h' : Faithful parsed' parsed'') :
    Faithful parsed parsed'' := Records.trans h h'

section
variable (laws : Laws Base) (hrec : parsed.side.recording = true)
  {parent node child old : NodeId} {ref : Option NodeId} {cs : List NodeId}
include laws hrec

theorem faithful_unlinkJournaled (node : NodeId) : Faithful parsed (unlinkJournaled parsed node) := by
  cases hp : (tree parsed.base).parent node with
  | none =>
    rw [unlinkJournaled_of_root parsed hp]
    exact Records.refl hrec _
  | some p =>
    have ht := tree_unlinkJournaled laws parsed node
    rw [Faithful, Parsed.kids, Parsed.kids, ht, unlinkJournaled_eq parsed hp]
    exact (Records.update hrec _ _ _).entry (replayEntry_detach hp _ fun n hn => siblingsAround_next hn)

theorem faithful_placeJournaled (h : (tree parsed.base).Joins parent child ref)
    (hc : (tree parsed.base).parent child = none) :
    Faithful parsed (placeJournaled parsed parent child ref) := by
  have hroot : (tree parsed.base).detachAll [child] = tree parsed.base := Forest.detach_of_root hc
  have he := replayEntry_attachAll h.all (previousOf parsed.base parent ref)
  have hm := mem_children_placeOne laws h
  rw [hroot] at he
  rw [Faithful, placeJournaled_eq parsed hm, Parsed.kids, Parsed.kids, Parsed.base_record,
    Parsed.base_withRanges, Parsed.base_withBase, tree_placeOne laws h]
  exact (Records.update hrec _ _ _).entry he

theorem faithful_unlink_place (h : (tree parsed.base).Joins parent node ref) :
    Faithful parsed (placeJournaled (unlinkJournaled parsed node) parent node ref) := by
  have hu := faithful_unlinkJournaled laws hrec node
  have ht := tree_unlinkJournaled laws parsed node
  refine hu.trans (faithful_placeJournaled laws hu.1 ?_ ?_)
  · rw [ht]
    exact h.detached
  · rw [ht]
    exact Forest.parent_detach_self _ node

theorem faithful_spliceParsed (h : Insertable parsed.base parent node ref) :
    Faithful parsed (spliceParsed parsed parent node ref) := by
  by_cases hne : (tree parsed.base).children node = []
  · rw [spliceParsed, if_pos (by simpa [childIds] using hne)]
    exact Records.refl hrec _
  have hj := joinsAll_children h
  have he := replayEntry_all (tree parsed.base).children node []
  rw [← Forest.children_detachAll_children] at he
  have he' := replayEntry_attachAll hj (previousOf parsed.base parent ref)
  rw [Faithful, spliceParsed_eq parsed h.reference_mem hne]
  simp only [Parsed.kids, Parsed.base_record, Parsed.base_withRanges, Parsed.base_withBase,
    tree_placeAll laws hj]
  exact ((Records.update hrec _ _ _).entry he).entry he'

theorem faithful_insertParsed (h : Insertable parsed.base parent node ref) :
    Faithful parsed (insertParsed parsed parent node ref) := by
  rw [insertParsed]
  split
  · exact faithful_spliceParsed laws hrec h
  · exact faithful_unlink_place laws hrec (joins_of_insertable h)

theorem faithful_moveParsed {target : MoveTarget}
    (h : (tree parsed.base).Joins parent node target.reference)
    (hp : (tree parsed.base).parent node = some old) :
    Faithful parsed (moveParsed parsed parent node target) := by
  have ht := laws.tree_moveNode parsed.base parent node target.reference h
  have hm : node ∈ (tree (moveNode parsed.base node parent target.reference)).children parent := by
    rw [ht, h.children_attach, if_pos rfl, mem_place]
    exact .inr (List.mem_singleton_self node)
  have he := replayEntry_detach hp (siblingsAround parsed.base old node).1
    fun n (hn : n ∈ (siblingsAround parsed.base old node).2) => siblingsAround_next hn
  have he' := replayEntry_attachAll h.all
    (sibling (moveNode parsed.base node parent target.reference) node false)
  rw [Faithful, moveParsed_eq parsed hp rfl hm]
  simp only [Parsed.kids, Parsed.base_record, Parsed.base_withRanges, Parsed.base_withBase, ht]
  exact ((Records.update hrec _ _ _).entry he).entry he'

/-! ### Replacement -/

theorem records_swapChildren {f : Forest NodeId} (hf : tree parsed.base = f)
    (hold : f.parent old = some parent) (h : (f.detach old).JoinsAll parent cs ref)
    (hcs : old ∉ cs) (previous : Option NodeId) :
    Records parsed (swapChildren parsed parent old cs previous ref) (f.detachAll cs).children
      (swapChildren parsed parent old cs previous ref).kids := by
  subst hf
  have ht := laws.tree_removeNode parsed.base old
  have hr : ∀ r ∈ ref, r ∈ (tree (removeNode parsed.base old)).children parent := fun r hr => by
    rw [ht]
    exact (h.ref_mem r hr).1
  rw [← ht] at h
  rw [swapChildren_eq parsed ((tree parsed.base).mem_children.2 hold) hr]
  simp only [Parsed.kids, Parsed.base_record, Parsed.base_withRanges, Parsed.base_withBase,
    tree_placeAll laws h]
  rw [ht] at h ⊢
  exact (Records.update hrec _ _ _).entry (replayEntry_replace h hold hcs previous)

theorem faithful_replace_node (h : Insertable parsed.base parent node (some old)) :
    Faithful parsed (replaceParsed parsed parent old (.node node)).1 := by
  have hold := (tree parsed.base).mem_children.1 (h.reference_mem old rfl)
  rw [replaceParsed]
  split
  · rename_i heq
    obtain rfl := Replacement.node.inj heq
    have hj := joins_of_insertable h
    rw [if_pos rfl] at hj
    exact faithful_unlink_place laws hrec hj
  rename_i heq
  have hne : old ≠ node := fun hno => heq (congrArg _ hno.symm)
  have hu := faithful_unlinkJournaled laws hrec node
  have ht := tree_unlinkJournaled laws parsed node
  have hold' : (tree (unlinkJournaled parsed node).base).parent old = some parent := by
    rw [ht, Forest.parent_detach_of_ne hne, hold]
  have hroot : (tree (unlinkJournaled parsed node).base).detachAll [node] =
      tree (unlinkJournaled parsed node).base := by
    rw [ht]
    exact Forest.detach_of_root (Forest.parent_detach_self _ node)
  have hj : ((tree (unlinkJournaled parsed node).base).detach old).JoinsAll parent [node]
      (if sibling parsed.base old true = some node then sibling parsed.base node true
        else sibling parsed.base old true) := by
    rw [ht]
    exact joinsAll_replace h hne
  have hs := records_swapChildren laws hu.1 rfl hold' hj (by simpa using hne)
    (siblingsAround parsed.base parent old).1
  rw [hroot] at hs
  exact hu.trans hs

theorem faithful_replace_fragment (h : Insertable parsed.base parent node (some old)) :
    Faithful parsed (replaceParsed parsed parent old
      (.fragmentContents node ((tree parsed.base).children node))).1 := by
  have hold := (tree parsed.base).mem_children.1 (h.reference_mem old rfl)
  have he := replayEntry_all (tree parsed.base).children node []
  rw [← Forest.children_detachAll_children] at he
  have hcs : old ∉ (tree parsed.base).children node := fun hm =>
    (joinsAll_children h).ref_mem old rfl |>.2 hm
  rw [replaceParsed, if_neg (by simp)]
  simp only [adjustChildrenLeaving_eq]
  have hfirst := (Records.update hrec parsed.base (leaveRanges parsed.base parsed.side.ranges node
    ((tree parsed.base).children node)) _).entry he
  exact hfirst.trans (records_swapChildren laws hfirst.1 (by simp) hold
    (joinsAll_replace_children h) hcs (siblingsAround parsed.base parent old).1)

theorem faithful_replace_adopted (hold : (tree parsed.base).parent old = some parent)
    (h : Adopted parsed.base parent cs) :
    Faithful parsed (replaceParsed parsed parent old (.adopted cs)).1 := by
  have hcs : old ∉ cs := fun hm => by
    have hroot := (h.2 old hm).1
    rw [parentOf, hold] at hroot
    cases hroot
  have hs := records_swapChildren laws hrec rfl hold (joinsAll_replace_adopted hold h) hcs
    (siblingsAround parsed.base parent old).1
  rw [Forest.detachAll_of_roots fun c hc => (h.2 c hc).1] at hs
  rw [replaceParsed, if_neg (by simp)]
  exact hs

/-! ### Replacing everything -/

/-- While the new children go in, the journal still has the old ones in their place. -/
theorem records_appendAdopted (h : (tree parsed.base).Joins parent child none)
    (hc : child ∉ (tree parsed.base).children parent) (l : List NodeId) :
    Records parsed (appendAdopted parent parsed child) (Function.update parsed.kids parent l)
      (Function.update (appendAdopted parent parsed child).kids parent l) := by
  have hkids : Function.update (appendAdopted parent parsed child).kids parent l =
      Function.update ((tree parsed.base).detach child).children parent l := by
    rw [Parsed.kids, tree_appendAdopted laws h, Forest.attach]
    funext q
    rw [Function.update_apply, Function.update_apply, h.fits.children_insert]
    split <;> rfl
  rw [hkids]
  cases hp : (tree parsed.base).parent child with
  | none =>
    rw [appendAdopted, unlinkJournaled_of_root parsed hp, Forest.detach_of_root hp]
    exact Records.update hrec _ _ _
  | some q =>
    have hq : q ≠ parent := by
      rintro rfl
      exact hc ((tree parsed.base).mem_children.2 hp)
    have he : replayEntry (Function.update parsed.kids parent l) (.childList q [] [child]
        (siblingsAround parsed.base q child).1 (siblingsAround parsed.base q child).2) =
        some (Function.update ((tree parsed.base).detach child).children parent l) := by
      have hk : Function.update parsed.kids parent l q = (tree parsed.base).children q :=
        Function.update_of_ne hq ..
      rw [replayEntry_removed, hk, place_nil, Forest.children_detach_eq_update hp,
        Function.update_comm hq]
      · rfl
      · rw [hk]
        exact (tree parsed.base).mem_children.2 hp
      · rw [hk]
        exact fun n hn => siblingsAround_next hn
      · rw [hk]
        exact (tree parsed.base).nodup q
    rw [appendAdopted, unlinkJournaled_eq parsed hp]
    exact ((Records.update hrec _ _ _).entry he).withBase _

theorem records_appendAll (h : (tree parsed.base).JoinsAll parent cs none)
    (hc : ∀ c ∈ cs, c ∉ (tree parsed.base).children parent) (l : List NodeId) :
    Records parsed (cs.foldl (appendAdopted parent) parsed) (Function.update parsed.kids parent l)
      (Function.update (cs.foldl (appendAdopted parent) parsed).kids parent l) := by
  induction cs generalizing parsed with
  | nil => exact Records.refl hrec _
  | cons c cs ih =>
    have hstep := records_appendAdopted laws hrec h.head (hc c List.mem_cons_self) l
    have ht := tree_appendAdopted laws h.head
    refine hstep.trans (ih hstep.1 (by rw [ht]; exact h.tail) ?_)
    intro d hd
    rw [ht, h.head.children_attach, if_pos rfl, mem_place, not_or, List.mem_singleton]
    refine ⟨fun hm => hc d (List.mem_cons_of_mem _ hd) (List.mem_of_mem_erase hm), ?_⟩
    rintro rfl
    exact (List.nodup_cons.1 h.nodup).1 hd

theorem faithful_replaceAllJournaled (hnodup : cs.Nodup)
    (hacyclic : ∀ c ∈ cs, c ∉ (tree parsed.base).chain parent) :
    Faithful parsed (replaceAllJournaled parsed parent cs) := by
  -- First the old children go, without a record.
  have htree := tree_clearChildren laws parsed parent
  have hempty : (tree (clearChildren parsed parent).base).children =
      Function.update (tree parsed.base).children parent [] := by
    rw [htree, Forest.children_detachAll_children]
  have hclear : Records parsed (clearChildren parsed parent) parsed.kids parsed.kids := by
    rw [clearChildren_eq]
    exact Records.update hrec _ _ _
  have hlag : Function.update (clearChildren parsed parent).kids parent
      ((tree parsed.base).children parent) = parsed.kids := by
    rw [Parsed.kids, hempty, Function.update_idem, Function.update_eq_self]
    rfl
  -- Then the new ones come, and only what they leave elsewhere is recorded.
  have hj : (tree (clearChildren parsed parent).base).JoinsAll parent cs none := by
    refine ⟨hnodup, fun c hc hm => hacyclic c hc ?_, by simp⟩
    rw [htree] at hm
    exact Forest.mem_chain_detachAll hm
  have hfinal := tree_appendAll laws hj
  have hloop := records_appendAll laws hclear.1 hj
    (fun c _ => by rw [hempty, Function.update_self]; exact List.not_mem_nil)
    ((tree parsed.base).children parent)
  rw [hlag] at hloop
  have hkids : Function.update (cs.foldl (appendAdopted parent) (clearChildren parsed parent)).kids
      parent cs = (cs.foldl (appendAdopted parent) (clearChildren parsed parent)).kids := by
    rw [Function.update_eq_self_iff, Parsed.kids, hfinal, hj.children_attachAll, if_pos rfl, hempty,
      Function.update_self]
    rfl
  have hall := hclear.trans hloop
  rw [replaceAllJournaled, Faithful]
  split
  · have he := replayEntry_all (Function.update (cs.foldl (appendAdopted parent)
      (clearChildren parsed parent)).kids parent ((tree parsed.base).children parent)) parent cs
    rw [Function.update_self, Function.update_idem, hkids] at he
    rw [Parsed.kids_record]
    exact hall.entry he
  · rename_i hnone
    obtain ⟨rfl, hold⟩ : cs = [] ∧ (tree parsed.base).children parent = [] := by
      simpa [childIds] using hnone
    rw [hold, hkids] at hall
    exact hall

theorem faithful_replaceAllWithNode (h : node ∉ (tree parsed.base).chain parent) :
    Faithful parsed (replaceAllWithNode parsed parent node) := by
  rw [replaceAllWithNode]
  split
  · -- The children leave the fragment first, under a record of their own.
    have he := replayEntry_all (tree parsed.base).children node []
    rw [← Forest.children_detachAll_children, ← tree_removeAll laws] at he
    simp only [adjustChildrenLeaving_eq, Parsed.base_withRanges, childIds]
    have hfirst := (Records.update hrec (((tree parsed.base).children node).foldl removeNode
      parsed.base) (leaveRanges parsed.base parsed.side.ranges node
        ((tree parsed.base).children node)) _).entry he
    refine Faithful.trans ?_ (faithful_replaceAllJournaled laws hfirst.1
      ((tree parsed.base).nodup node) ?_)
    · rw [Faithful]
      simpa [Parsed.kids] using hfirst
    · intro c hc hm
      rw [Parsed.base_record, Parsed.base_withRanges, Parsed.base_withBase,
        tree_removeAll laws] at hm
      rw [Forest.mem_children] at hc
      refine h (Forest.mem_chain_trans ?_ (Forest.mem_chain_detachAll hm))
      rw [Forest.mem_chain_of_parent hc]
      exact .inr (Forest.mem_chain_self _ node)
  · refine faithful_replaceAllJournaled laws hrec (List.nodup_singleton node) fun c hc => ?_
    rw [List.mem_singleton.1 hc]
    exact h

/-! ### Whole runs -/

/-- Every call that the checks admit. -/
theorem faithful_step {fuel : Nat} {call : TreeCall} (h : call.step fuel parsed = some parsed') :
    Faithful parsed parsed' := by
  cases call with
  | insert parent node child =>
    rw [TreeCall.step] at h
    split at h
    · rename_i hok
      obtain rfl := Option.some.inj h
      exact faithful_insertParsed laws hrec (insertable_of_ok hok).1
    · cases h
  | insertAdopted parent node reference =>
    rw [TreeCall.step] at h
    split at h
    · rename_i hok
      obtain rfl := Option.some.inj h
      exact faithful_insertParsed laws hrec
        ⟨hok.1, (hok.2.1.2 node (List.mem_singleton_self node)).2, hok.2.2⟩
    · cases h
  | splice parent fragment child =>
    rw [TreeCall.step] at h
    split at h
    · rename_i hok
      split at h
      · obtain rfl := Option.some.inj h
        exact faithful_spliceParsed laws hrec (insertable_of_ok hok).1
      · cases h
    · cases h
  | unlink target =>
    obtain rfl := Option.some.inj h
    exact faithful_unlinkJournaled laws hrec target
  | replaceAll parent node =>
    rw [TreeCall.step] at h
    split at h
    · rename_i hok
      obtain rfl := Option.some.inj h
      exact faithful_replaceAllWithNode laws hrec (insertable_of_ok hok).1.acyclic
    · cases h
  | replace parent node child excluded =>
    rw [TreeCall.step] at h
    split at h
    · rename_i hok
      obtain ⟨hi, rfl, -⟩ := insertable_of_ok hok
      obtain rfl := Option.some.inj h
      rw [replaceTarget]
      split
      · exact faithful_replace_fragment laws hrec hi
      · exact faithful_replace_node laws hrec hi
    · cases h
  | replaceAdopted parent child nodes =>
    rw [TreeCall.step] at h
    split at h
    · rename_i hok
      obtain rfl := Option.some.inj h
      exact faithful_replace_adopted laws hrec ((tree parsed.base).mem_children.1 hok.2.2) hok.2.1
    · cases h
  | move parent node child =>
    rw [TreeCall.step] at h
    split at h
    · rename_i hok
      have hm := movable_of_ok hok
      obtain ⟨old, hold⟩ := hm.parented
      split at h
      · obtain rfl := Option.some.inj h
        exact faithful_moveParsed laws hrec (joins_of_movable hm) hold
      · cases h
    · cases h

end

/-- The journal of a recording document is a faithful history: the entries of any run of admitted
calls, replayed on the child lists from before, go through and give the child lists after. -/
theorem replay_of_run (laws : Laws Base) {fuel : Nat} {calls : List TreeCall}
    (hrec : parsed.side.recording = true)
    (h : run (TreeCall.step fuel) parsed calls = some parsed') :
    ∃ entries, parsed'.entries = parsed.entries ++ entries ∧
      replay (tree parsed.base).children entries = some (tree parsed'.base).children := by
  have hrun : Faithful parsed parsed' := by
    refine inv_run (I := fun s => Faithful parsed s) ?_ (Records.refl hrec _) h
    intro s call s' hs hstep
    exact hs.trans (faithful_step laws hs.1 hstep)
  exact hrun.2

/-- A document element that comes and goes, of a document that an observer watches. -/
theorem replay_of_run_comes_and_goes :
    let parsed : Parsed Doc := ⟨.ofList [.element], ⟨[], 0, true, .ofList [], .empty⟩⟩
    ∃ parsed' entries,
      run (TreeCall.step 2) parsed [.insert 0 (.tree 1) none, .unlink 1] = some parsed' ∧
      parsed'.entries = entries ∧
      replay (fun _ => []) entries = some (tree parsed'.base).children := by
  intro parsed
  have hcheck : insertionExcludingChildren 2 parsed.base 0 (.tree 1) none [] = .ok (1, none) := by
    decide +kernel
  have hrun : run (TreeCall.step 2) parsed [.insert 0 (.tree 1) none, .unlink 1] =
      some (unlinkJournaled (insertParsed parsed 0 1 none) 1) := by
    rw [run, TreeCall.step, hcheck]
    rfl
  obtain ⟨entries, hentries, hreplay⟩ := replay_of_run Doc.laws rfl hrun
  exact ⟨_, entries, hrun, hentries, hreplay⟩

end TinyBrowser.Dom
