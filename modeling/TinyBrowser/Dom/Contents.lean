import TinyBrowser.Dom.Started
import TinyBrowser.Dom.Outcomes
import TinyBrowser.Dom.TextEffects
import TinyBrowser.Dom.Order

/-!
# Insertion across documents and the contents of ranges

The insertion functions of `crates/renderer/src/js/bindings/node/core.rs` over all documents: the
checks read each node in its own document, and a node of another document is adopted. What the realm
does once nodes are inserted (`apply_inserted`: form controls, scripts, frames) is a parameter.

`crates/renderer/src/dom/range.rs`: the nodes that a range contains wholly or in part, its text, and
the point it collapses to. Both ends of a range are in one document.

`crates/renderer/src/js/bindings/range.rs`: cloning or moving what a range contains into a fragment.
All nodes are of one document. What a step has done stays done when a later one fails.
-/

namespace TinyBrowser.Dom
open Lib Blitz BlitzFragments BlitzNodes

section
variable {Base FormState : Type} [BlitzNodes Base FormState]

/-- Steps on all documents. -/
abbrev StoreM (Base : Type) : Type → Type := Trial Thrown (DocumentStore Base)

/-- Steps on one document. -/
abbrev DocM (Base : Type) : Type → Type := Trial Thrown (Scripted Base)

/-- Steps that only need the tree and its side tables. -/
def onParsed (f : Parsed Base → Parsed Base) : DocM Base Unit :=
  .change fun doc => doc.withParsed (f doc.toParsed)

def reading {α : Type} (f : Parsed Base → α) : DocM Base α := .look fun doc => .ok (f doc.toParsed)

def documentOr (missing : String) (store : DocumentStore Base) (id : UInt32) :
    Except Thrown (Scripted Base) :=
  (store.get id).elim (.error (.type missing)) .ok

/-- Reads one document. -/
def inDocument {α : Type} (missing : String) (id : UInt32) (read : Scripted Base → Except Thrown α) :
    StoreM Base α :=
  .look fun store => documentOr missing store id >>= read

/-- Changes one document. -/
def onDocument {α : Type} (missing : String) (id : UInt32) (m : DocM Base α) : StoreM Base α :=
  .inside (fun store => store.get id) (fun store doc => store.set id doc) (.type missing) m

def TreeNodeReference.tree? : TreeNodeReference → Option TreeNodeId
  | .tree id => some id
  | .attr .. => none

/-- Validates one insertion against an explicit exclusion set, whose nodes are of the parent's
document (`insertion_excluding_children`). -/
def insertionAcross (fuel : Nat) (store : DocumentStore Base) (parent : TreeNodeId)
    (node : TreeNodeReference) (child : Option TreeNodeReference) (excluded : List NodeId) :
    Except Thrown (TreeNodeId × Option TreeNodeId) := do
  refuse (child.any fun child => child.tree?.isNone)
    (.dom "NotFoundError" "attributes have no parent")
  let node ← node.tree?.elim
    (.error (.dom "HierarchyRequestError" "attributes cannot be inserted")) .ok
  let target ← documentOr "stale parent" store parent.document
  let base := target.base
  refuse (!canHaveChildren base parent.node)
    (.dom "HierarchyRequestError" "parent cannot have children")
  let reference := child.bind TreeNodeReference.tree?
  if node.document = parent.document then
    orThrow (ensureNoCycle base node.node fuel (some parent.node))
  else .ok ()
  reference.elim (.ok ()) fun reference => orThrow
    (if reference.document = parent.document then ensureParented base parent.node reference.node
      else .error .notFound)
  let source ← documentOr "stale node" store node.document
  refuse (rootNode source.base = node.node)
    (.dom "HierarchyRequestError" "a document cannot be inserted")
  let inserted := classifyInserted source.base node.node
  refuse (inserted = .other) (.dom "HierarchyRequestError" "node cannot be inserted")
  if rootNode base = parent.node then
    orThrow (ensureDocumentContentModel base parent.node (reference.map TreeNodeId.node) excluded
      inserted)
  else refuse (inserted = .doctype) (.dom "HierarchyRequestError" "doctype parent is not a document")
  return (node, reference)

section
variable (fuel : Nat)

def adoptAcrossDocuments (parent node : TreeNodeId) : StoreM Base TreeNodeId :=
  .attempt fun store => orThrow (adoptAcrossStore fuel store parent node)

def treeIsFragment (store : DocumentStore Base) (node : TreeNodeId) : Bool :=
  (store.get node.document).any fun doc => isFragment doc.base node.node

/-- Adopts a node of another document into the one of `parent`; a fragment stays where it is. -/
def adoptNode (parent node : TreeNodeId) : StoreM Base TreeNodeId := do
  let stays ← .look fun store =>
    .ok (node.document = parent.document || treeIsFragment store node)
  if stays then pure node else adoptAcrossDocuments fuel parent node

/-- Adopts each of `nodes`. -/
def adoptEach (parent : TreeNodeId) : List TreeNodeId → StoreM Base (List TreeNodeId)
  | [] => pure []
  | node :: nodes => do
    let adopted ← adoptAcrossDocuments fuel parent node
    let rest ← adoptEach parent nodes
    return adopted :: rest

/-- Adopts each child of a fragment of another document; `none` for any other node. -/
def adoptForeignFragmentChildren (parent node : TreeNodeId) :
    StoreM Base (Option (List TreeNodeId)) := do
  let foreign ← .look fun store =>
    .ok (node.document ≠ parent.document && treeIsFragment store node)
  if foreign then
    let children ← .look fun store => .ok ((store.get node.document).elim [] fun doc =>
      (childIds doc.base node.node).map (TreeNodeId.mk node.document))
    let adopted ← adoptEach fuel parent children
    return some adopted
  else pure none

variable (applyInserted : TreeNodeId → List NodeId → StoreM Base Unit)

/-- Inserts an adopted node, expanding fragments, and runs the insertion steps. -/
def insertTreeNode (parent node : TreeNodeId) (reference : Option TreeNodeId) :
    StoreM Base Unit := do
  let reference := reference.map TreeNodeId.node
  match ← adoptForeignFragmentChildren fuel parent node with
  | some adopted =>
    let moved := adopted.map TreeNodeId.node
    onDocument "no document" parent.document
      (moved.forM fun child => onParsed fun parsed => insertParsed parsed parent.node child reference)
    applyInserted parent moved
  | none =>
    let moved ← inDocument "no document" node.document fun doc =>
      .ok (insertedNodes doc.base node.node)
    onDocument "no document" parent.document
      (onParsed fun parsed => insertParsed parsed parent.node node.node reference)
    applyInserted parent moved

/-- Splits a text node at `offset` and gives the new one. -/
def splitTextAcross (id : TreeNodeId) (offset : Nat) : StoreM Base TreeNodeId := do
  let parent ← inDocument "no document" id.document fun doc => .ok (parentOf doc.base id.node)
  let new ← onDocument "no document" id.document (.attempt fun doc =>
    match splitTextNode doc.toParsed id.node offset with
    | some (parsed, new) => .ok (doc.withParsed parsed, new)
    | none => .error (.dom "IndexSizeError" "offset is outside the data"))
  parent.elim (pure ()) fun parent => applyInserted ⟨id.document, parent⟩ [new]
  return ⟨id.document, new⟩

end

end

/-! ### What a range contains -/

section
variable {Base : Type} [Blitz Base]

/-- The node furthest from the document that contains both `a` and `b`, which share a root. -/
def commonAncestor (base : Base) (a b : NodeId) : NodeId :=
  if isInclusiveAncestor base a b then a
  else match _h : (tree base).parent a with
    | some parent => commonAncestor base parent b
    | none => a
termination_by (tree base).up.wrap a

/-- Whether `node` is contained in the range: in its tree, after the start and before the end. -/
def isContained (base : Base) (state : RangeState) (node : NodeId) : Bool :=
  sameRoot base node state.start.node && position base ⟨node, 0⟩ state.start == .gt &&
    position base ⟨node, nodeLength base node⟩ state.stop == .lt

/-- Whether `node` is an inclusive ancestor of exactly one end. -/
def isPartiallyContained (base : Base) (state : RangeState) (node : NodeId) : Bool :=
  isInclusiveAncestor base node state.start.node != isInclusiveAncestor base node state.stop.node

/-- The children of an ancestor that a range operation visits: the first and the last that are
partially contained, and the contained ones. -/
structure Span where
  first : Option NodeId
  contained : List NodeId
  last : Option NodeId
deriving DecidableEq

def ancestorSpan (base : Base) (state : RangeState) (ancestor : NodeId) (wantFirst wantLast : Bool) :
    Option Span :=
  if !isInclusiveAncestor base ancestor state.start.node ||
      !isInclusiveAncestor base ancestor state.stop.node then none
  else some ((childIds base ancestor).foldl (fun span child =>
    if isPartiallyContained base state child then
      { span with
        first := if wantFirst && span.first.isNone then some child else span.first
        last := if wantLast then some child else span.last }
    else if isContained base state child then { span with contained := span.contained ++ [child] }
    else span) ⟨none, [], none⟩)

/-- A `Text` node of range text: `Text` or `CDATASection`. -/
def isRangeText (base : Base) (id : NodeId) : Bool :=
  match data base id with
  | some (.text _) | some (.cdataSection _) => true
  | _ => false

/-- Character data: `Text`, `CDATASection`, `Comment` or `ProcessingInstruction`. -/
def isCharacterData (base : Base) (id : NodeId) : Bool :=
  match data base id with
  | some (.text _) | some (.cdataSection _) | some (.comment _)
  | some (.processingInstruction _) => true
  | _ => false

/-- The point past the highest node above `reference` that is not above `stop`. -/
def collapseAbove (base : Base) (start : BoundaryPoint) (stop reference : NodeId) : BoundaryPoint :=
  match _h : (tree base).parent reference with
  | none => start
  | some parent =>
    if isInclusiveAncestor base parent stop then
      ⟨parent, ((childIndex base parent reference).getD 0) + 1⟩
    else collapseAbove base start stop parent
termination_by (tree base).up.wrap reference

/-- The point that `deleteContents` and `extractContents` collapse to, from the original ends. -/
def collapsePoint (base : Base) (state : RangeState) : BoundaryPoint :=
  if isInclusiveAncestor base state.start.node state.stop.node then state.start
  else collapseAbove base state.start state.stop.node state.start.node

/-- The topmost contained nodes under `ancestor` in tree order; partially contained ones are
descended into. -/
def collectContained (base : Base) (state : RangeState) (ancestor : NodeId) : List NodeId :=
  ((tree base).children ancestor).attach.flatMap fun child =>
    if isContained base state child.1 then [child.1]
    else if isPartiallyContained base state child.1 then collectContained base state child.1
    else []
termination_by (tree base).down.wrap ancestor
decreasing_by exact (tree base).mem_children.1 child.2

end

/-! ### The contents of a range -/

variable {Base FormState : Type} [BlitzNodes Base FormState]

/-- An empty fragment for extracted or cloned contents. -/
def createFragmentIn : DocM Base NodeId :=
  .make fun doc =>
    let (base, node) := createFragmentNode doc.base
    (doc.withParsed (doc.withBase base), node)

/-- One node of `moveNodesOut`. -/
def moveNodeOut (fragment : Option NodeId) (parsed : Parsed Base) (node : NodeId) : Parsed Base :=
  let parsed := unlinkJournaled parsed node
  match fragment with
  | some fragment => placeJournaled parsed fragment node none
  | none => parsed

/-- Unlinks `nodes`, into `fragment` when given. -/
def moveNodesOut (nodes : List NodeId) (fragment : Option NodeId) : DocM Base Unit :=
  nodes.forM fun node => onParsed fun parsed => moveNodeOut fragment parsed node

/-- The units of an end that are in the range, and those that are not. -/
def splitEndpointData (units : Units) (offset : Nat) (atStart : Bool) : Units × Units :=
  let offset := min offset units.length
  if atStart then (units.drop offset, units.take offset) else (units.take offset, units.drop offset)

/-- Whether the operation moves nodes (`extractContents`) or leaves them (`cloneContents`). -/
inductive ContentsTransfer where
  | cloned
  | moved
deriving DecidableEq

def ContentsTransfer.verb : ContentsTransfer → String
  | .cloned => "cloned"
  | .moved => "extracted"

/-- The partially contained ends and the contained children below the common ancestor. An end that
covers the other one is no partial end. -/
def spanParts (base : Base) (state : RangeState) : Span :=
  let start := state.start.node
  let stop := state.stop.node
  (ancestorSpan base state (commonAncestor base start stop) (!isInclusiveAncestor base start stop)
    (!isInclusiveAncestor base stop start)).getD ⟨none, [], none⟩

/-- Rejects a doctype in the span before the tree changes. -/
def rejectSpanDoctypes (base : Base) (contained : List NodeId) (verb : String) :
    Except Thrown Unit :=
  refuse (contained.any (isDoctype base))
    (.dom "HierarchyRequestError" s!"a doctype cannot be {verb}")

section
variable (deepCloneNode : Base → NodeId → Base × NodeId) (fuel : Nat)

/-- The data of a clone, where it is not that of its original. -/
def writeClone (clone : NodeId) : Option Units → DocM Base Unit
  | some units => onParsed fun parsed => replaceCharacterData parsed clone 0 4294967295 units
  | none => pure ()

/-- Clones `source`, replaces the data of the clone, and appends it to `fragment`. -/
def cloneIntoFragment (fragment source : NodeId) (deep : Bool) (units : Option Units) :
    DocM Base NodeId := do
  let clone ← .attempt fun doc => orThrow (cloneWithinDocument deepCloneNode fuel doc source deep)
  writeClone clone units
  onParsed fun parsed => placeJournaled parsed fragment clone none
  return clone

/-- The units of an end that are in the range leave its node: the tail from `offset` at the start
side, the head up to it at the end side. -/
def cutEndpointText (parsed : Parsed Base) (node : NodeId) (length offset : Nat) (atStart : Bool) :
    Parsed Base :=
  if atStart then replaceCharacterData parsed node offset (length - offset) []
  else replaceCharacterData parsed node 0 offset []

/-- Transfers the units of one end that are in the range. -/
def transferEndpointText (fragment node : NodeId) (offset : Nat) (atStart : Bool)
    (transfer : ContentsTransfer) : DocM Base Unit := do
  let units ← reading fun parsed => characterData parsed node
  let slice := (splitEndpointData units offset atStart).1
  let _ ← cloneIntoFragment deepCloneNode fuel fragment node false (some slice)
  match transfer with
  | .moved => onParsed fun parsed => cutEndpointText parsed node units.length offset atStart
  | .cloned => pure ()

/-- Clones the shell of a partially contained end, and goes on inside it with `produce`. -/
def transferPartialElement (produce : NodeId → RangeState → DocM Base Unit) (fragment node : NodeId)
    (sub : RangeState) : DocM Base Unit := do
  let clone ← cloneIntoFragment deepCloneNode fuel fragment node false none
  let scratch ← createFragmentIn
  produce scratch sub
  let kids ← reading fun parsed => childIds parsed.base scratch
  moveNodesOut kids (some clone)

/-- Transfers one partially contained end. -/
def transferPartialEndpoint (produce : NodeId → RangeState → DocM Base Unit) (fragment : NodeId)
    (sub : RangeState) (node : NodeId) (atStart : Bool) (transfer : ContentsTransfer) :
    DocM Base Unit := do
  let characters ← reading fun parsed => isCharacterData parsed.base node
  if characters then
    let offset := if atStart then sub.start.offset else sub.stop.offset
    transferEndpointText deepCloneNode fuel fragment node offset atStart transfer
  else transferPartialElement deepCloneNode fuel produce fragment node sub

/-- Transfers the contained children of a span. -/
def transferMiddle (fragment : NodeId) (contained : List NodeId) (transfer : ContentsTransfer) :
    DocM Base Unit :=
  match transfer with
  | .moved => moveNodesOut contained (some fragment)
  | .cloned => contained.forM fun child => do
    let _ ← cloneIntoFragment deepCloneNode fuel fragment child true none

/-- Both ends in one node of character data: only the units between them go. -/
def transferSlice (fragment : NodeId) (start stop : BoundaryPoint) (transfer : ContentsTransfer) :
    DocM Base Unit := do
  let units ← reading fun parsed => characterData parsed start.node
  let lo := min start.offset units.length
  let hi := max (min stop.offset units.length) lo
  let _ ← cloneIntoFragment deepCloneNode fuel fragment start.node false
    (some ((units.take hi).drop lo))
  match transfer with
  | .moved => onParsed fun parsed =>
    replaceCharacterData parsed start.node start.offset (stop.offset - start.offset) []
  | .cloned => pure ()

/-- The part of the span in the child with the start. -/
def transferFirst (produce : NodeId → RangeState → DocM Base Unit) (fragment : NodeId)
    (start : BoundaryPoint) (transfer : ContentsTransfer) : Option NodeId → DocM Base Unit
  | some first => do
    let length ← reading fun parsed => nodeLength parsed.base first
    transferPartialEndpoint deepCloneNode fuel produce fragment ⟨start, ⟨first, length⟩, none⟩ first
      true transfer
  | none => pure ()

/-- The part of the span in the child with the end. -/
def transferLast (produce : NodeId → RangeState → DocM Base Unit) (fragment : NodeId)
    (stop : BoundaryPoint) (transfer : ContentsTransfer) : Option NodeId → DocM Base Unit
  | some last => transferPartialEndpoint deepCloneNode fuel produce fragment ⟨⟨last, 0⟩, stop, none⟩
      last false transfer
  | none => pure ()

/-- Clones or moves the contents of `state` into `fragment`. `depth` bounds how far the partially
contained ends are nested. -/
def produceContents (transfer : ContentsTransfer) : Nat → NodeId → RangeState → DocM Base Unit
  | 0, _, _ => throw .unended
  | depth + 1, fragment, state => do
    let span ← reading fun parsed => spanParts parsed.base state
    if state.start = state.stop then pure ()
    else
      let sameText ← reading fun parsed =>
        state.start.node = state.stop.node && isCharacterData parsed.base state.start.node
      if sameText then transferSlice deepCloneNode fuel fragment state.start state.stop transfer
      else
        .look fun doc => rejectSpanDoctypes doc.base span.contained transfer.verb
        let produce := produceContents transfer depth
        transferFirst deepCloneNode fuel produce fragment state.start transfer span.first
        transferMiddle deepCloneNode fuel fragment span.contained transfer
        transferLast deepCloneNode fuel produce fragment state.stop transfer span.last

end

end TinyBrowser.Dom
