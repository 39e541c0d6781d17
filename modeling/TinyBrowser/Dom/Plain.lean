import TinyBrowser.Dom.Tree

/-!
# A plain tree

The ordinary ordered tree that `Blitz.Laws` describes, as a Blitz of its own: a forest, the data of
its nodes, and a bound below which all of them are.
-/

namespace TinyBrowser.Dom
open Lib

structure Doc where
  tree : Forest NodeId
  data : NodeId → Option NodeData
  bound : Nat
  links : ∀ {c p : Nat}, tree.parent c = some p → c < bound ∧ p < bound
  absent : ∀ n : Nat, bound ≤ n → data n = none
  root : data 0 = some .document

namespace Doc

variable (d : Doc)

theorem bound_pos : 0 < d.bound := by
  rcases Nat.eq_zero_or_pos d.bound with h | h
  · have ha := d.absent 0 (by omega)
    rw [d.root] at ha
    cases ha
  · exact h

/-- The nodes of `l`, none of them linked, with the document first. -/
def ofList (l : List NodeData) : Doc where
  tree := .empty
  data n := (NodeData.document :: l)[n]?
  bound := l.length + 1
  links h := nomatch h
  absent n h := List.getElem?_eq_none (by simpa using h)
  root := rfl

/-- The nodes of `l` as the children of the document. -/
def ofChildren (l : List NodeData) : Doc where
  tree := .star 0 (List.range' 1 l.length) List.nodup_range' (by simp)
  data n := (NodeData.document :: l)[n]?
  bound := l.length + 1
  links {c p} h := by
    simp only [Forest.star, List.mem_range'_1] at h
    split at h
    · obtain rfl := Option.some.inj h
      omega
    · cases h
  absent n h := List.getElem?_eq_none (by simpa using h)
  root := rfl

def removeNode (c : NodeId) : Doc where
  tree := d.tree.detach c
  data := d.data
  bound := d.bound
  links {x p} h := by
    by_cases hx : x = c
    · subst hx
      rw [Forest.parent_detach_self] at h
      cases h
    · rw [Forest.parent_detach_of_ne hx] at h
      exact d.links h
  absent := d.absent
  root := d.root

theorem links_attach {p c : Nat} {ref : Option NodeId} {x q : Nat}
    (h : (d.tree.attach p c ref).parent x = some q) :
    x < max d.bound (max p c + 1) ∧ q < max d.bound (max p c + 1) := by
  have hd : (d.tree.detach c).parent x = some q → x < d.bound ∧ q < d.bound :=
    (d.removeNode c).links
  by_cases hf : (d.tree.detach c).Fits p c ref
  · rw [Forest.attach, hf.parent_insert] at h
    split at h
    · rename_i hx
      subst hx
      obtain rfl := Option.some.inj h
      omega
    · have hb := hd h
      omega
  · rw [Forest.attach, Forest.insert, dif_neg hf] at h
    have hb := hd h
    omega

theorem absent_attach {p c n : Nat} (h : max d.bound (max p c + 1) ≤ n) : d.data n = none :=
  d.absent n (by omega)

def attach (p c : Nat) (ref : Option NodeId) : Doc where
  tree := d.tree.attach p c ref
  data := d.data
  bound := max d.bound (max p c + 1)
  links h := d.links_attach h
  absent _ h := d.absent_attach h
  root := d.root

def attachAll (p : NodeId) (cs : List NodeId) (ref : Option NodeId) : Doc :=
  cs.foldl (fun d c => d.attach p c ref) d

/-- Adds a node that stands alone. -/
def create (data : NodeData) : Doc × NodeId :=
  ({ tree := d.tree
     data := Function.update d.data d.bound (some data)
     bound := d.bound + 1
     links := fun h => by
      have hb := d.links h
      omega
     absent := fun n h => by
      have hn : n ≠ d.bound := by omega
      rw [Function.update_of_ne hn]
      exact d.absent n (by omega)
     root := by
      rw [Function.update_of_ne (Nat.ne_of_lt d.bound_pos)]
      exact d.root }, d.bound)

def createTextNode (text : Units) : Doc × NodeId := d.create (.text text)

def createFragmentNode : Doc × NodeId := d.create (.fragment none)

/-- Rewrites the data of one node; a document node stays one. -/
def rewrite (n : NodeId) (g : NodeData → NodeData) (hg : g .document = .document) : Doc where
  tree := d.tree
  data := Function.update d.data n ((d.data n).map g)
  bound := d.bound
  links := d.links
  absent m h := by
    by_cases hm : m = n
    · subst hm
      rw [Function.update_self, d.absent m h]
      rfl
    · rw [Function.update_of_ne hm]
      exact d.absent m h
  root := by
    by_cases hn : 0 = n
    · subst hn
      rw [Function.update_self, d.root, Option.map_some, hg]
    · rw [Function.update_of_ne hn]
      exact d.root

instance : Blitz Doc where
  tree := Doc.tree
  data := Doc.data
  rootNode _ := 0
  downcastElement d n := d.data n = some .element
  removeNode := Doc.removeNode
  insertNodesBefore d r cs := match d.tree.parent r with
    | some p => d.attachAll p cs (some r)
    | none => d
  appendChildren d p cs := d.attachAll p cs none
  moveNode d c p ref := d.attach p c ref
  createTextNode := Doc.createTextNode
  setNodeText d n text := d.rewrite n
    (fun | .text _ => .text text | old => old) rfl
  setProcessingInstructionData d n text := d.rewrite n
    (fun | .processingInstruction _ => .processingInstruction text | old => old) rfl
  setContents d n text := d.rewrite n
    (fun | .comment _ => .comment text | .cdataSection _ => .cdataSection text | old => old) rfl

theorem data_attachAll (p : NodeId) (cs : List NodeId) (ref : Option NodeId) :
    (d.attachAll p cs ref).data = d.data := by
  induction cs generalizing d with
  | nil => rfl
  | cons c cs ih => exact ih (d.attach p c ref)

theorem fresh_bound : d.data d.bound = none ∧ d.tree.parent d.bound = none ∧
    d.tree.children d.bound = [] := by
  refine ⟨d.absent d.bound (Nat.le_refl _), ?_, ?_⟩
  · cases hp : d.tree.parent d.bound with
    | none => rfl
    | some p => exact absurd (d.links hp).1 (Nat.lt_irrefl _)
  · rw [List.eq_nil_iff_forall_not_mem]
    intro c hc
    exact absurd (d.links (d.tree.mem_children.1 hc)).2 (Nat.lt_irrefl _)

theorem laws : Blitz.Laws Doc where
  data_rootNode := Doc.root
  tree_removeNode _ _ := rfl
  tree_insertNodesBefore d p c r h := by
    have hp : d.tree.parent r = some p := d.tree.mem_children.1 (h.ref_mem r rfl).1
    show Doc.tree (match d.tree.parent r with
      | some p => d.attachAll p [c] (some r)
      | none => d) = _
    rw [hp]
    rfl
  tree_appendChildren _ _ _ _ := rfl
  tree_moveNode _ _ _ _ _ := rfl
  data_removeNode _ _ := rfl
  data_insertNodesBefore d r cs := by
    show Doc.data (match d.tree.parent r with
      | some p => d.attachAll p cs (some r)
      | none => d) = _
    cases d.tree.parent r with
    | none => rfl
    | some p => exact data_attachAll d p cs (some r)
  data_appendChildren d p cs := data_attachAll d p cs none
  data_moveNode _ _ _ _ := rfl
  fresh_createTextNode d _ := d.fresh_bound
  tree_createTextNode _ _ := rfl
  data_createTextNode _ _ := rfl
  tree_setNodeText _ _ _ := rfl
  data_setNodeText d n text old h := by
    show Function.update d.data n ((d.data n).map _) = Function.update d.data n _
    rw [show d.data n = _ from h]
    rfl
  tree_setProcessingInstructionData _ _ _ := rfl
  data_setProcessingInstructionData d n text old h := by
    show Function.update d.data n ((d.data n).map _) = Function.update d.data n _
    rw [show d.data n = _ from h]
    rfl
  tree_setContents _ _ _ := rfl
  data_setContents_comment d n text old h := by
    show Function.update d.data n ((d.data n).map _) = Function.update d.data n _
    rw [show d.data n = _ from h]
    rfl
  data_setContents_cdataSection d n text old h := by
    show Function.update d.data n ((d.data n).map _) = Function.update d.data n _
    rw [show d.data n = _ from h]
    rfl

instance : BlitzFragments Doc where
  createFragmentNode := Doc.createFragmentNode

theorem fragmentLaws : BlitzFragments.Laws Doc where
  toLaws := laws
  fresh_createFragmentNode d := d.fresh_bound
  tree_createFragmentNode _ := rfl
  data_createFragmentNode _ := rfl
  rootNode_createFragmentNode _ := rfl
  rootNode_createTextNode _ _ := rfl
  rootNode_removeNode _ _ := rfl
  rootNode_appendChildren _ _ _ := rfl

end Doc

end TinyBrowser.Dom
