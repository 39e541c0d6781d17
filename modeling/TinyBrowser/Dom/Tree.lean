import TinyBrowser.Lib.Forest

/-!
# The document tree

A document's nodes live in a Blitz arena, which the renderer only reads and mutates through Blitz's
own functions; `Blitz` is what the renderer uses of them, `Blitz.Laws` that they implement an
ordinary ordered tree with parent links. Everything here is within one document, so a node is its
arena id. A Rust string stands for its UTF-16 form, in which node lengths and offsets are counted.
-/

namespace TinyBrowser.Dom
open Lib

abbrev NodeId := Nat

/-- UTF-16 code units. -/
abbrev Units := List UInt16

inductive NodeData where
  | document
  | element
  | anonymousBlock
  | fragment (host : Option NodeId)
  | shadowRoot (host : NodeId)
  | text (content : Units)
  | comment (contents : Units)
  | processingInstruction (contents : Units)
  | cdataSection (contents : Units)
  | doctype
deriving DecidableEq

/-- What the renderer uses of a Blitz document. `tree` holds the `parent` and `children` fields that
`get_node` gives, `data` the `data` field, with `none` for an id that names no node. -/
class Blitz (Base : Type) where
  tree : Base → Forest NodeId
  data : Base → NodeId → Option NodeData
  rootNode : Base → NodeId
  /-- `downcast_element` finds element data in the node. -/
  downcastElement : Base → NodeId → Bool
  removeNode : Base → NodeId → Base
  insertNodesBefore : Base → NodeId → List NodeId → Base
  appendChildren : Base → NodeId → List NodeId → Base
  moveNode : Base → NodeId → NodeId → Option NodeId → Base
  createTextNode : Base → Units → Base × NodeId
  setNodeText : Base → NodeId → Units → Base
  setProcessingInstructionData : Base → NodeId → Units → Base
  /-- The assignment to `contents` through `get_node_mut`. -/
  setContents : Base → NodeId → Units → Base

open Blitz

/-- Blitz's mutators implement an ordinary ordered tree. -/
structure Blitz.Laws (Base : Type) [Blitz Base] : Prop where
  data_rootNode : ∀ base : Base, data base (rootNode base) = some .document
  tree_removeNode : ∀ (base : Base) c, tree (removeNode base c) = (tree base).detach c
  tree_insertNodesBefore : ∀ (base : Base) p c r, (tree base).Joins p c (some r) →
    tree (insertNodesBefore base r [c]) = (tree base).attach p c (some r)
  tree_appendChildren : ∀ (base : Base) p c, (tree base).Joins p c none →
    tree (appendChildren base p [c]) = (tree base).attach p c none
  tree_moveNode : ∀ (base : Base) p c ref, (tree base).Joins p c ref →
    tree (moveNode base c p ref) = (tree base).attach p c ref
  data_removeNode : ∀ (base : Base) c, data (removeNode base c) = data base
  data_insertNodesBefore : ∀ (base : Base) r cs, data (insertNodesBefore base r cs) = data base
  data_appendChildren : ∀ (base : Base) p cs, data (appendChildren base p cs) = data base
  data_moveNode : ∀ (base : Base) c p ref, data (moveNode base c p ref) = data base
  /-- A created node was not there before, and stands alone. -/
  fresh_createTextNode : ∀ (base : Base) text, data base (createTextNode base text).2 = none ∧
    (tree base).parent (createTextNode base text).2 = none ∧
    (tree base).children (createTextNode base text).2 = []
  tree_createTextNode : ∀ (base : Base) text, tree (createTextNode base text).1 = tree base
  data_createTextNode : ∀ (base : Base) text, data (createTextNode base text).1 =
    Function.update (data base) (createTextNode base text).2 (some (.text text))
  tree_setNodeText : ∀ (base : Base) n text, tree (setNodeText base n text) = tree base
  data_setNodeText : ∀ (base : Base) n text old, data base n = some (.text old) →
    data (setNodeText base n text) = Function.update (data base) n (some (.text text))
  tree_setProcessingInstructionData : ∀ (base : Base) n text,
    tree (setProcessingInstructionData base n text) = tree base
  data_setProcessingInstructionData : ∀ (base : Base) n text old,
    data base n = some (.processingInstruction old) →
    data (setProcessingInstructionData base n text) =
      Function.update (data base) n (some (.processingInstruction text))
  tree_setContents : ∀ (base : Base) n text, tree (setContents base n text) = tree base
  data_setContents_comment : ∀ (base : Base) n text old, data base n = some (.comment old) →
    data (setContents base n text) = Function.update (data base) n (some (.comment text))
  data_setContents_cdataSection : ∀ (base : Base) n text old,
    data base n = some (.cdataSection old) →
    data (setContents base n text) = Function.update (data base) n (some (.cdataSection text))

/-- Adds to `Blitz` the creation of fragment nodes. -/
class BlitzFragments (Base : Type) extends Blitz Base where
  createFragmentNode : Base → Base × NodeId

open BlitzFragments

/-- Fragments are created as text nodes are, and the document node stays the same one. -/
structure BlitzFragments.Laws (Base : Type) [BlitzFragments Base] : Prop extends
    Blitz.Laws Base where
  fresh_createFragmentNode : ∀ base : Base, data base (createFragmentNode base).2 = none ∧
    (tree base).parent (createFragmentNode base).2 = none ∧
    (tree base).children (createFragmentNode base).2 = []
  tree_createFragmentNode : ∀ base : Base, tree (createFragmentNode base).1 = tree base
  data_createFragmentNode : ∀ base : Base, data (createFragmentNode base).1 =
    Function.update (data base) (createFragmentNode base).2 (some (.fragment none))
  rootNode_createFragmentNode : ∀ base : Base, rootNode (createFragmentNode base).1 = rootNode base
  rootNode_createTextNode : ∀ (base : Base) text,
    rootNode (createTextNode base text).1 = rootNode base
  rootNode_removeNode : ∀ (base : Base) c, rootNode (removeNode base c) = rootNode base
  rootNode_appendChildren : ∀ (base : Base) p cs, rootNode (appendChildren base p cs) = rootNode base

variable {Base : Type} [Blitz Base]

section
variable (base : Base) (id : NodeId)

def parentOf : Option NodeId := (tree base).parent id

def childIds : List NodeId := (tree base).children id

/-- The index of `child` under `parent`, or `none` when it has none. -/
def childIndex (parent child : NodeId) : Option Nat := (childIds base parent).idxOf? child

def isElement : Bool := data base id = some .element

/-- The next sibling of `id`, or the previous one. -/
def sibling (forward : Bool) : Option NodeId := do
  let parent ← parentOf base id
  let position ← childIndex base parent id
  if forward then (childIds base parent)[position + 1]?
  else if 0 < position then (childIds base parent)[position - 1]?
  else none

/-- Siblings around `child` within `parent`, for the mutation journal. -/
def siblingsAround (parent child : NodeId) : Option NodeId × Option NodeId :=
  let kids := childIds base parent
  ((kids.takeWhile (· ≠ child)).getLast?, ((kids.dropWhile (· ≠ child)).filter (· ≠ child)).head?)

/-- The parent of `id`, or the host when `id` is a shadow root. -/
def shadowIncludingParent : Option NodeId :=
  match parentOf base id with
  | some parent => some parent
  | none => match data base id with
    | some (.shadowRoot host) => some host
    | _ => none

/-- The root that the walk along `shadowIncludingParent` ends at. A host link may lead anywhere, so
the walk is given `fuel`, and `none` says that it did not end within it. -/
def shadowIncludingRoot : Nat → NodeId → Option NodeId
  | 0, _ => none
  | fuel + 1, root => match shadowIncludingParent base root with
    | some parent => shadowIncludingRoot fuel parent
    | none => some root

/-- `id` followed by its inclusive ancestors, nearest first. -/
def ancestorChain : List NodeId := (tree base).chain id

/-- How far two lists agree from the front. -/
def commonLength : List NodeId → List NodeId → Nat
  | x :: xs, y :: ys => if x = y then commonLength xs ys + 1 else 0
  | _, _ => 0

end

/-- The root of the tree `id` participates in (itself when detached). -/
def rootOf (base : Base) (id : NodeId) : NodeId :=
  match _h : (tree base).parent id with
  | some parent => rootOf base parent
  | none => id
termination_by (tree base).up.wrap id

/-- Document order of two nodes in one tree. The chains are read from the root down. -/
def treeOrder (base : Base) (a b : NodeId) : Ordering :=
  let chainA := (ancestorChain base a).reverse
  let chainB := (ancestorChain base b).reverse
  let common := commonLength chainA chainB
  if common = chainA.length then compare chainA.length chainB.length
  else if common = chainB.length then .gt
  else if common = 0 then .lt
  else
    match chainA[common - 1]?, chainA[common]?, chainB[common]? with
    | some parent, some childA, some childB =>
      compare (childIndex base parent childA) (childIndex base parent childB)
    | _, _, _ => .lt

end TinyBrowser.Dom
