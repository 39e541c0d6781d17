import TinyBrowser.Dom.Nodes
import TinyBrowser.Dom.Plain

/-!
# A plain arena

The plain tree with the full data of its nodes, as a `BlitzNodes` of its own. Control states are
left out of it.
-/

namespace TinyBrowser.Dom
open Lib

structure Arena where
  doc : Doc
  nodes : NodeId → Option (FullNodeData Unit)
  data_eq : ∀ n, doc.data n = (nodes n).map FullNodeData.kind

namespace Arena

variable (a : Arena)

/-- A document node alone. -/
def fresh : Arena where
  doc := .ofList []
  nodes n := if n = 0 then some .document else none
  data_eq n := by
    rcases n with _ | n <;> rfl

/-- The same nodes in another tree. -/
def relink (d : Doc) (h : d.data = a.doc.data) : Arena where
  doc := d
  nodes := a.nodes
  data_eq n := by rw [h, a.data_eq]

/-- An element of this name, node 1, with a text in it. -/
def withText (name : QualName) (text : Units) : Arena where
  doc :=
    { tree := .star 1 [2] (by decide) (by decide)
      data := fun n => [NodeData.document, .element, .text text][n]?
      bound := 3
      links := fun {c p} h => by
        simp only [Forest.star, List.mem_singleton] at h
        split at h
        · rename_i hc
          obtain rfl : c = 2 := hc
          obtain rfl : 1 = p := Option.some.inj h
          decide
        · cases h
      absent := fun n h => List.getElem?_eq_none (by simpa using h)
      root := rfl }
  nodes n := [FullNodeData.document, .element ⟨name, [], (), none⟩, .text text][n]?
  data_eq n := by
    rcases n with _ | _ | _ | n <;> rfl

def create (d : FullNodeData Unit) : Arena × NodeId :=
  ({ doc := (a.doc.create d.kind).1
     nodes := Function.update a.nodes a.doc.bound (some d)
     data_eq := fun n => by
      show Function.update a.doc.data a.doc.bound (some d.kind) n = _
      by_cases hn : n = a.doc.bound
      · subst hn
        rw [Function.update_self, Function.update_self, Option.map_some]
      · rw [Function.update_of_ne hn, Function.update_of_ne hn, a.data_eq] }, a.doc.bound)

/-- Rewrites the data of one node. -/
def rewrite (n : NodeId) (g : NodeData → NodeData) (hg : g .document = .document)
    (full : FullNodeData Unit → FullNodeData Unit) (h : ∀ d, (full d).kind = g d.kind) : Arena where
  doc := a.doc.rewrite n g hg
  nodes := Function.update a.nodes n ((a.nodes n).map full)
  data_eq m := by
    show Function.update a.doc.data n ((a.doc.data n).map g) m = _
    by_cases hm : m = n
    · subst hm
      rw [Function.update_self, Function.update_self, a.data_eq, Option.map_map, Option.map_map]
      exact congrArg (Option.map · (a.nodes m)) (funext fun d => (h d).symm)
    · rw [Function.update_of_ne hm, Function.update_of_ne hm, a.data_eq]

def createElement (name : QualName) (attrs : List Attribute) : Arena × NodeId :=
  if isTemplateTag name then
    let (a, fragment) := a.create (.fragment none)
    a.create (.element ⟨name, attrs, (), some fragment⟩)
  else a.create (.element ⟨name, attrs, (), none⟩)

def templateContents (n : NodeId) : Arena × NodeId :=
  match a.nodes n with
  | some (.element ⟨_, _, _, some fragment⟩) => (a, fragment)
  | _ =>
    let (a, fragment) := a.create (.fragment none)
    (a.rewrite n id rfl
      (fun | .element e => .element { e with templateContents := some fragment } | old => old)
      (fun d => by cases d <;> rfl), fragment)

theorem document_setNodeText (text : Units) :
    (fun | .text _ => .text text | old => old : NodeData → NodeData) .document = .document := rfl

theorem kind_setNodeText (text : Units) (d : FullNodeData Unit) :
    ((fun | .text _ => .text text | old => old : FullNodeData Unit → FullNodeData Unit) d).kind =
      (fun | .text _ => .text text | old => old : NodeData → NodeData) d.kind := by
  cases d <;> rfl

theorem document_setProcessingInstructionData (text : Units) :
    (fun | .processingInstruction _ => .processingInstruction text | old => old :
      NodeData → NodeData) .document = .document := rfl

theorem kind_setProcessingInstructionData (text : Units) (d : FullNodeData Unit) :
    ((fun | .processingInstruction target _ attributes =>
            .processingInstruction target text attributes | old => old :
      FullNodeData Unit → FullNodeData Unit) d).kind =
      (fun | .processingInstruction _ => .processingInstruction text | old => old :
        NodeData → NodeData) d.kind := by
  cases d <;> rfl

theorem document_setContents (text : Units) :
    (fun | .comment _ => .comment text | .cdataSection _ => .cdataSection text | old => old :
      NodeData → NodeData) .document = .document := rfl

theorem kind_setContents (text : Units) (d : FullNodeData Unit) :
    ((fun | .comment _ => .comment text | .cdataSection _ => .cdataSection text | old => old :
      FullNodeData Unit → FullNodeData Unit) d).kind =
      (fun | .comment _ => .comment text | .cdataSection _ => .cdataSection text | old => old :
        NodeData → NodeData) d.kind := by
  cases d <;> rfl

instance : BlitzNodes Arena Unit where
  tree a := a.doc.tree
  data a := a.doc.data
  rootNode _ := 0
  downcastElement a n := a.doc.data n = some .element
  removeNode a c := a.relink (Blitz.removeNode a.doc c) (Doc.laws.data_removeNode _ _)
  insertNodesBefore a r cs :=
    a.relink (Blitz.insertNodesBefore a.doc r cs) (Doc.laws.data_insertNodesBefore _ _ _)
  appendChildren a p cs :=
    a.relink (Blitz.appendChildren a.doc p cs) (Doc.laws.data_appendChildren _ _ _)
  moveNode a c p ref := a.relink (Blitz.moveNode a.doc c p ref) (Doc.laws.data_moveNode _ _ _ _)
  createTextNode a text := a.create (.text text)
  setNodeText a n text := a.rewrite n
    (fun | .text _ => .text text | old => old) (document_setNodeText text)
    (fun | .text _ => .text text | old => old) (kind_setNodeText text)
  setProcessingInstructionData a n text := a.rewrite n
    (fun | .processingInstruction _ => .processingInstruction text | old => old)
    (document_setProcessingInstructionData text)
    (fun | .processingInstruction target _ attributes =>
           .processingInstruction target text attributes | old => old)
    (kind_setProcessingInstructionData text)
  setContents a n text := a.rewrite n
    (fun | .comment _ => .comment text | .cdataSection _ => .cdataSection text | old => old)
    (document_setContents text)
    (fun | .comment _ => .comment text | .cdataSection _ => .cdataSection text | old => old)
    (kind_setContents text)
  createFragmentNode a := a.create (.fragment none)
  nodeData a := a.nodes
  createElement := Arena.createElement
  createCommentNode a text := a.create (.comment text)
  createDoctypeNode a name publicId systemId := a.create (.doctype name publicId systemId)
  createProcessingInstruction a target text attributes :=
    a.create (.processingInstruction target text attributes)
  createCdataSectionNode a text := a.create (.cdataSection text)
  templateContents := Arena.templateContents
  adoptClonedState a _ _ := a
  syncSanitizedValue a _ := a
  settled _ _ formState := formState

theorem absent_bound : a.nodes a.doc.bound = none := by
  have h := a.data_eq a.doc.bound
  rw [a.doc.absent a.doc.bound (Nat.le_refl _)] at h
  exact Option.map_eq_none_iff.1 h.symm

theorem created_create (d : FullNodeData Unit) : Created a (a.create d) d where
  fresh := a.absent_bound
  parent_eq := a.doc.fresh_bound.2.1
  children_eq := a.doc.fresh_bound.2.2
  tree_eq := rfl
  nodeData_eq := rfl

theorem blitzLaws : Blitz.Laws Arena where
  data_rootNode a := a.doc.root
  tree_removeNode a := Doc.laws.tree_removeNode a.doc
  tree_insertNodesBefore a := Doc.laws.tree_insertNodesBefore a.doc
  tree_appendChildren a := Doc.laws.tree_appendChildren a.doc
  tree_moveNode a := Doc.laws.tree_moveNode a.doc
  data_removeNode a := Doc.laws.data_removeNode a.doc
  data_insertNodesBefore a := Doc.laws.data_insertNodesBefore a.doc
  data_appendChildren a := Doc.laws.data_appendChildren a.doc
  data_moveNode a := Doc.laws.data_moveNode a.doc
  fresh_createTextNode a _ := a.doc.fresh_bound
  tree_createTextNode _ _ := rfl
  data_createTextNode _ _ := rfl
  tree_setNodeText _ _ _ := rfl
  data_setNodeText a := Doc.laws.data_setNodeText a.doc
  tree_setProcessingInstructionData _ _ _ := rfl
  data_setProcessingInstructionData a := Doc.laws.data_setProcessingInstructionData a.doc
  tree_setContents _ _ _ := rfl
  data_setContents_comment a := Doc.laws.data_setContents_comment a.doc
  data_setContents_cdataSection a := Doc.laws.data_setContents_cdataSection a.doc

theorem laws : BlitzNodes.Laws Arena where
  toLaws := blitzLaws
  fresh_createFragmentNode a := a.doc.fresh_bound
  tree_createFragmentNode _ := rfl
  data_createFragmentNode _ := rfl
  rootNode_createFragmentNode _ := rfl
  rootNode_createTextNode _ _ := rfl
  rootNode_removeNode _ _ := rfl
  rootNode_appendChildren _ _ _ := rfl
  data_eq a := a.data_eq
  nodeData_appendChildren _ _ _ := rfl
  nodeData_removeNode _ _ := rfl
  createElement_plain a name attrs h := by
    refine ⟨(), ?_⟩
    show Created a (a.createElement name attrs) _
    rw [createElement, h]
    exact a.created_create _
  createElement_template a name attrs h := by
    refine ⟨(a.create (.fragment none)).1, a.doc.bound, none, (), a.created_create _, ?_⟩
    show Created _ (a.createElement name attrs) _
    rw [createElement, h]
    exact (a.create (.fragment none)).1.created_create _
  created_textNode a _ := a.created_create _
  created_fragmentNode a := a.created_create _
  created_commentNode a _ := a.created_create _
  created_doctypeNode a _ _ _ := a.created_create _
  created_processingInstruction a _ _ _ := a.created_create _
  created_cdataSectionNode a _ := a.created_create _
  templateContents_of_some a n e fragment h hf := by
    obtain ⟨name, attrs, formState, contents⟩ := e
    obtain rfl : contents = some fragment := hf
    show a.templateContents n = _
    rw [templateContents, show a.nodes n = _ from h]
  tree_settle _ _ _ := rfl
  nodeData_settle a n e state h := by
    exact (Function.update_eq_self_iff.2 h.symm).symm

end Arena

end TinyBrowser.Dom
