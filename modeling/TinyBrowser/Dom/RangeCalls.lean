import TinyBrowser.Dom.Contents

/-!
# Range objects

The `Range` interface of script (`crates/renderer/src/js/bindings/range.rs`) as far as it sets the
points of a range. A range keeps its state in a slot of the document that owns its points, where the
mutations of that document find it.

A method that throws leaves what it has done by then.
-/

namespace TinyBrowser.Dom
open Lib Blitz BlitzFragments BlitzNodes

/-! ### The slots of a document -/

namespace RangeTable

def ofSlots (slots : List (Option RangeState)) : RangeTable := ⟨slots, _, rfl⟩

def get (t : RangeTable) (slot : Nat) : Option RangeState := t.slots[slot]?.join

/-- Overwrites a live slot. -/
def set (t : RangeTable) (slot : Nat) (state : RangeState) : Option RangeTable :=
  if (t.get slot).isSome then some (ofSlots (t.slots.set slot (some state))) else none

def free (t : RangeTable) (slot : Nat) : RangeTable := ofSlots (t.slots.set slot none)

/-- Registers a live range in a freed slot or a new one. -/
def alloc (t : RangeTable) (state : RangeState) : RangeTable × Nat :=
  match t.slots.idxOf? none with
  | some slot => (ofSlots (t.slots.set slot (some state)), slot)
  | none => (ofSlots (t.slots ++ [some state]), t.slots.length)

end RangeTable

/-! ### The state of a range -/

/-- A boundary point in the tree of any document. -/
structure TreePoint where
  node : TreeNodeId
  offset : Nat
deriving DecidableEq

/-- A boundary point inside an attribute. -/
structure TreeAttrPoint where
  scope : TreeNodeId
  id : Nat
deriving DecidableEq

/-- What `RangeState` says of one document, over all documents. -/
structure TreeRange where
  start : TreePoint
  stop : TreePoint
  attr : Option TreeAttrPoint
deriving DecidableEq

def TreePoint.point (p : TreePoint) : BoundaryPoint := ⟨p.node.node, p.offset⟩

def BoundaryPoint.within (p : BoundaryPoint) (document : UInt32) : TreePoint :=
  ⟨⟨document, p.node⟩, p.offset⟩

def RangeState.within (state : RangeState) (document : UInt32) : TreeRange where
  start := state.start.within document
  stop := state.stop.within document
  attr := state.attr.map fun attr => ⟨⟨document, attr.scope⟩, attr.id⟩

namespace TreeRange

/-- A collapsed range at a tree point. -/
def collapsed (point : TreePoint) : TreeRange := ⟨point, point, none⟩

/-- A collapsed range in an attribute. -/
def ofAttribute (attr : TreeAttrPoint) : TreeRange :=
  let placeholder : TreePoint := ⟨attr.scope, 0⟩
  ⟨placeholder, placeholder, some attr⟩

/-- The document that owns the boundary points, and so the slot. -/
def document (state : TreeRange) : UInt32 :=
  state.attr.elim state.start.node.document fun attr => attr.scope.document

/-- The points and the attribute as the owning document has them. -/
def state (range : TreeRange) : RangeState where
  start := range.start.point
  stop := range.stop.point
  attr := range.attr.map fun attr => ⟨attr.scope.node, attr.id⟩

/-- Whether both points are in the document that owns the slot. -/
def atHome (range : TreeRange) : Bool :=
  range.start.node.document = range.document && range.stop.node.document = range.document

end TreeRange

/-- Where a range keeps its state. A state whose points are not in the document that owns the slot is
kept apart: mutations of either document leave it as it is, since they walk their own slots only and
compare whole node ids. -/
inductive Registration where
  | slot (document : UInt32) (slot : Nat)
  | apart (state : TreeRange)
deriving DecidableEq

/-- All documents, and one range. -/
structure RangeWorld (Base : Type) where
  store : DocumentStore Base
  registration : Registration

/-- A validated boundary-point argument. -/
inductive PointArg where
  | tree (point : TreePoint)
  | attr (attr : TreeAttrPoint)
deriving DecidableEq

variable {Base FormState : Type} [BlitzNodes Base FormState]

abbrev RangeM (Base : Type) : Type → Type := Trial Thrown (RangeWorld Base)

/-- Steps on the documents. -/
def onStore {α : Type} (m : StoreM Base α) : RangeM Base α :=
  .inside (fun world => some world.store) (fun world store => { world with store }) .unended m

def readDocument {α : Type} (id : UInt32) (read : Base → Except Thrown α) : RangeM Base α :=
  onStore (inDocument "stale range" id fun doc => read doc.base)

namespace RangeWorld

omit [BlitzNodes Base FormState]

/-- The range's state. -/
def loaded (world : RangeWorld Base) : Option TreeRange :=
  match world.registration with
  | .slot document slot => (world.store.get document).bind fun doc =>
    (doc.side.ranges.get slot).map fun state => state.within document
  | .apart state => (world.store.get state.document).map fun _ => state

/-- The slot of the range is freed. -/
def freed (world : RangeWorld Base) : Option (DocumentStore Base) :=
  match world.registration with
  | .slot document slot => (world.store.get document).map fun doc => world.store.set document
    (doc.withParsed (doc.withRanges (doc.side.ranges.free slot)))
  | .apart state => (world.store.get state.document).map fun _ => world.store

/-- Registers the range anew. -/
def register (store : DocumentStore Base) (range : TreeRange) : Option (RangeWorld Base) :=
  (store.get range.document).map fun doc =>
    if range.atHome then
      let (ranges, slot) := doc.side.ranges.alloc range.state
      ⟨store.set range.document (doc.withParsed (doc.withRanges ranges)), .slot range.document slot⟩
    else ⟨store, .apart range⟩

/-- Overwrites the slot of the range. -/
def overwrite (world : RangeWorld Base) (document : UInt32) (slot : Nat) (range : TreeRange) :
    Option (RangeWorld Base) :=
  (world.store.get document).bind fun doc =>
    (doc.side.ranges.set slot range.state).map fun ranges =>
      { world with store := world.store.set document (doc.withParsed (doc.withRanges ranges)) }

end RangeWorld

def load : RangeM Base TreeRange :=
  .look fun world => world.loaded.elim (.error (.type "stale range")) .ok

/-- Writes the state back, moving the slot to the document of the boundary points. -/
def save (range : TreeRange) : RangeM Base Unit := fun world =>
  let stale : Except Thrown Unit := .error (.type "stale range")
  match world.registration with
  | .slot document slot =>
    if range.document = document ∧ range.atHome then
      match world.overwrite document slot range with
      | some world => (.ok (), world)
      | none => (stale, world)
    else reregister stale world
  | .apart _ => reregister stale world
where
  reregister (stale : Except Thrown Unit) (world : RangeWorld Base) :
      Except Thrown Unit × RangeWorld Base :=
    match world.freed with
    | none => (stale, world)
    | some store => match RangeWorld.register store range with
      | some world => (.ok (), world)
      | none => (stale, { world with store })

/-! ### Arguments -/

/-- The document of a node or an attribute. -/
def TreeNodeReference.document : TreeNodeReference → UInt32
  | .tree id => id.document
  | .attr scope _ => scope.document

/-- An attribute has no boundary before or after it. -/
def treeNode (node : TreeNodeReference) : Except Thrown TreeNodeId :=
  node.tree?.elim (.error (.dom "InvalidNodeTypeError" "the node has no parent")) .ok

/-- Validates one boundary-point argument: a doctype never holds one, and the offset must fit. -/
def checkPoint (node : TreeNodeReference) (offset : Nat) : RangeM Base PointArg :=
  match node with
  | .attr scope id =>
    if offset ≠ 0 then throw (.dom "IndexSizeError" "an attribute's length is zero")
    else pure (.attr ⟨scope, id⟩)
  | .tree id => readDocument id.document fun base =>
    if isDoctype base id.node then
      .error (.dom "InvalidNodeTypeError" "a doctype cannot hold a range boundary")
    else if nodeLength base id.node < offset then
      .error (.dom "IndexSizeError" "offset is outside the node")
    else .ok (.tree ⟨id, offset⟩)

/-- The parent of `id` and its index there. -/
def placeOf (base : Base) (id : NodeId) : Except Thrown (NodeId × Nat) := do
  let parent ← (parentOf base id).elim
    (.error (.dom "InvalidNodeTypeError" "the node has no parent")) .ok
  let index ← (childIndex base parent id).elim (.error (.type "stale range")) .ok
  return (parent, index)

/-! ### The ends -/

/-- Whether two nodes share a root. -/
def sameTree (base : Base) (a b : TreeNodeId) : Bool :=
  a.document = b.document && sameRoot base a.node b.node

/-- Sets the start; the end goes along when the roots differ or the new point is past it.
Where the ends are in different trees the source's `position` may call itself without end, and the one
here answers. -/
def setStartPoint (base : Base) (state : TreeRange) (point : TreePoint) : TreeRange :=
  let moves := state.attr.isSome || !sameTree base state.start.node point.node ||
    position base point.point state.stop.point == .gt
  ⟨point, if moves then point else state.stop, none⟩

/-- Sets the end; the start goes along when the roots differ or the new point is before it.
`position` is the source's on points of one tree, as in `setStartPoint`. -/
def setEndPoint (base : Base) (state : TreeRange) (point : TreePoint) : TreeRange :=
  let moves := state.attr.isSome || !sameTree base state.stop.node point.node ||
    position base point.point state.start.point == .lt
  ⟨if moves then point else state.start, point, none⟩

/-- `apply_start` and `apply_end`: a point in an attribute collapses the range onto it. -/
def applyPoint (setPoint : Base → TreeRange → TreePoint → TreeRange) (state : TreeRange) :
    PointArg → RangeM Base TreeRange
  | .attr attr => pure (.ofAttribute attr)
  | .tree point => readDocument point.node.document fun base => .ok (setPoint base state point)

def setPointTo (setPoint : Base → TreeRange → TreePoint → TreeRange) (node : TreeNodeReference)
    (offset : Nat) : RangeM Base Unit := do
  let state ← load
  let arg ← checkPoint node offset
  let state ← applyPoint setPoint state arg
  save state

def setStart (node : TreeNodeReference) (offset : Nat) : RangeM Base Unit :=
  setPointTo setStartPoint node offset

def setEnd (node : TreeNodeReference) (offset : Nat) : RangeM Base Unit :=
  setPointTo setEndPoint node offset

/-- The setters beside a node, `past` children after the one before it. -/
def setPointBeside (setPoint : Base → TreeRange → TreePoint → TreeRange) (past : Nat)
    (node : TreeNodeReference) : RangeM Base Unit := do
  let id ← .look fun _ => treeNode node
  let state ← load
  let state ← readDocument id.document fun base => do
    let (parent, index) ← placeOf base id.node
    return setPoint base state ⟨⟨id.document, parent⟩, index + past⟩
  save state

def setStartBefore (node : TreeNodeReference) : RangeM Base Unit :=
  setPointBeside setStartPoint 0 node

def setStartAfter (node : TreeNodeReference) : RangeM Base Unit :=
  setPointBeside setStartPoint 1 node

def setEndBefore (node : TreeNodeReference) : RangeM Base Unit := setPointBeside setEndPoint 0 node

def setEndAfter (node : TreeNodeReference) : RangeM Base Unit := setPointBeside setEndPoint 1 node

/-! ### Both ends -/

def collapse (toStart : Bool) : RangeM Base Unit := do
  let state ← load
  save (if toStart then { state with stop := state.start } else { state with start := state.stop })

/-- Selects a node. An attribute that the range was in stays. -/
def selectNode (node : TreeNodeReference) : RangeM Base Unit := do
  let id ← .look fun _ => treeNode node
  let state ← load
  let state ← readDocument id.document fun base => do
    let (parent, index) ← placeOf base id.node
    return { state with start := ⟨⟨id.document, parent⟩, index⟩,
                        stop := ⟨⟨id.document, parent⟩, index + 1⟩ }
  save state

def selectNodeContents (node : TreeNodeReference) : RangeM Base Unit := do
  let _ ← load
  match ← checkPoint node 0 with
  | .attr attr => save (.ofAttribute attr)
  | .tree start =>
    let length ← readDocument start.node.document fun base => .ok (nodeLength base start.node.node)
    save ⟨⟨start.node, 0⟩, ⟨start.node, length⟩, none⟩

/-! ### Contents -/

def onRangeDocument {α : Type} (state : TreeRange) (m : DocM Base α) : RangeM Base α :=
  onStore (onDocument "stale range" state.start.node.document m)

/-- Whether both ends are in one node of character data. -/
def inOneText (base : Base) (state : TreeRange) : Bool :=
  state.start.node = state.stop.node && isCharacterData base state.start.node.node

/-- Removes units of an end, if it is in character data. -/
def cutEnd (state : TreeRange) (isText : Bool) (node : NodeId) (offset count : Nat) : RangeM Base Unit :=
  if isText then onRangeDocument state (onParsed fun parsed =>
    replaceCharacterData parsed node offset count [])
  else pure ()

def deleteContents : RangeM Base Unit := do
  let state ← load
  if state.start = state.stop then pure ()
  else
    let document := state.start.node.document
    let start := state.start.point
    let stop := state.stop.point
    let sameText ← readDocument document fun base => .ok (inOneText base state)
    if sameText then onRangeDocument state (onParsed fun parsed =>
      replaceCharacterData parsed start.node start.offset (stop.offset - start.offset) [])
    else
      let point ← readDocument document fun base => .ok (collapsePoint base state.state)
      let doomed ← readDocument document fun base => .ok
        (collectContained base state.state (commonAncestor base start.node stop.node))
      let startText ← readDocument document fun base => .ok (isCharacterData base start.node)
      let endText ← readDocument document fun base => .ok (isCharacterData base stop.node)
      save (.collapsed (point.within document))
      -- the mutations move the range like any other from here on
      cutEnd state startText start.node start.offset 4294967295
      onRangeDocument state (moveNodesOut doomed none)
      cutEnd state endText stop.node 0 stop.offset

section
variable (deepCloneNode : Base → NodeId → Base × NodeId) (fuel : Nat)
  (applyInserted : TreeNodeId → List NodeId → StoreM Base Unit)

/-- Collapses the range to where its contents were, and moves them into `fragment`. -/
def extractIntoSlot (fragment : NodeId) (state : TreeRange) : RangeM Base Unit :=
  if state.start = state.stop then pure ()
  else do
    let document := state.start.node.document
    readDocument document fun base =>
      if inOneText base state then .ok ()
      else rejectSpanDoctypes base (spanParts base state.state).contained "extracted"
    let point ← readDocument document fun base => .ok (collapsePoint base state.state)
    save (.collapsed (point.within document))
    onRangeDocument state (produceContents deepCloneNode fuel .moved fuel fragment state.state)

def extractContents : RangeM Base TreeNodeId := do
  let state ← load
  let fragment ← onRangeDocument state createFragmentIn
  extractIntoSlot deepCloneNode fuel fragment state
  return ⟨state.start.node.document, fragment⟩

/-- The parent and the reference child that an inserted node lands between. -/
def insertNodeTarget (base : Base) (state : TreeRange) (arg : TreeNodeId) :
    Except Thrown (TreeNodeId × Option TreeNodeId) := do
  let start := state.start.node
  let parent := parentOf base start.node
  let isNote : Bool := match data base start.node with
    | some (.processingInstruction _) | some (.comment _) => true
    | _ => false
  refuse isNote (.dom "HierarchyRequestError" "a range starting in a PI or comment takes no nodes")
  refuse (isRangeText base start.node && parent.isNone)
    (.dom "HierarchyRequestError" "a range starting in detached text takes no nodes")
  refuse (arg = start) (.dom "HierarchyRequestError" "a range cannot be inserted into itself")
  match isRangeText base start.node, parent with
  | true, some parent => return (⟨start.document, parent⟩, some start)
  | _, _ => return (start, (childIds base start.node)[state.start.offset]?.map (TreeNodeId.mk start.document))

/-- The reference child of an insertion: the rest of a text that is split at the start. -/
def splitStart (start : TreePoint) (inText : Bool) (child : Option TreeNodeId) :
    RangeM Base (Option TreeNodeId) :=
  if inText then some <$> onStore (splitTextAcross applyInserted start.node start.offset)
  else pure child

/-- A node that is to go before itself goes before its next sibling. -/
def skipItself (parent node : TreeNodeId) (reference : Option TreeNodeId) :
    RangeM Base (Option TreeNodeId) :=
  if reference = some node then readDocument parent.document fun base =>
    .ok ((sibling base node.node true).map (TreeNodeId.mk parent.document))
  else pure reference

/-- A collapsed range takes the inserted nodes in. -/
def takeIn (parent : TreeNodeId) (reference : Option TreeNodeId) : RangeM Base Unit := do
  let state ← load
  if state.start = state.stop then
    let offset ← readDocument parent.document fun base => .ok (match reference with
      | some reference => (childIndex base parent.node reference.node).getD 0
      | none => nodeLength base parent.node)
    save ⟨state.start, ⟨parent, offset⟩, none⟩
  else pure ()

/-- `insertNode` of a tree node; gives the node as it is in the range's document. -/
def insertNode (arg : TreeNodeId) : RangeM Base TreeNodeId := do
  let state ← load
  .look fun _ => refuse state.attr.isSome
    (.dom "HierarchyRequestError" "an attribute takes no nodes")
  let document := state.start.node.document
  let target ← readDocument document fun base => insertNodeTarget base state arg
  let parent := target.1
  let checked ← onStore (.look fun store =>
    insertionAcross fuel store parent (.tree arg) (target.2.map .tree) [])
  let node ← onStore (adoptNode fuel parent checked.1)
  let inText ← readDocument document fun base => .ok (isRangeText base state.start.node.node)
  let reference ← splitStart applyInserted state.start inText checked.2
  let reference ← skipItself parent node reference
  onStore (insertTreeNode fuel applyInserted parent node reference)
  takeIn parent reference
  return node

/-- A partially contained node that is no text cannot be surrounded. -/
def rejectPartial (base : Base) (state : RangeState) : Except Thrown Unit :=
  let span := (ancestorSpan base state (commonAncestor base state.start.node state.stop.node)
    true true).getD ⟨none, [], none⟩
  refuse (span.first.any (!isRangeText base ·) || span.last.any (!isRangeText base ·))
    (.dom "InvalidStateError" "a partially contained non-text node cannot be surrounded")

/-- Rejects a parent that can never hold the contents. -/
def checkSurroundParent (base : Base) (parent : NodeId) : Except Thrown Unit := do
  refuse (isFragment base parent)
    (.dom "InvalidNodeTypeError" "a fragment cannot surround range contents")
  let hopeless : Bool := match data base parent with
    | some .document | some .doctype | some (.fragment _) => true
    | _ => false
  refuse hopeless (.dom "InvalidNodeTypeError" "only elements can surround range contents")

/-- Gives the new parent as it is in the range's document. -/
def surroundContents (node : TreeNodeReference) : RangeM Base TreeNodeId := do
  let newParent ← .look fun _ => treeNode node
  let state ← load
  readDocument state.start.node.document fun base => rejectPartial base state.state
  readDocument newParent.document fun base => checkSurroundParent base newParent.node
  let fragment ← onRangeDocument state createFragmentIn
  extractIntoSlot deepCloneNode fuel fragment state
  onStore (onDocument "stale range" newParent.document (onParsed fun parsed =>
    replaceAllJournaled parsed newParent.node []))
  let newParent ← insertNode fuel applyInserted newParent
  readDocument newParent.document fun base => refuse (!downcastElement base newParent.node)
    (.dom "HierarchyRequestError" "only elements can hold surrounded contents")
  let contents ← readDocument state.start.node.document fun base => .ok (childIds base fragment)
  onRangeDocument state (moveNodesOut contents (some newParent.node))
  let place ← readDocument newParent.document fun base => placeOf base newParent.node
  let parent : TreeNodeId := ⟨newParent.document, place.1⟩
  save ⟨⟨parent, place.2⟩, ⟨parent, place.2 + 1⟩, none⟩
  return newParent

end

/-! ### The getters -/

namespace TreeRange

def getStartContainer (range : TreeRange) : TreeNodeReference :=
  match range.attr with
  | some attr => .attr attr.scope attr.id
  | none => .tree range.start.node

def getStartOffset (range : TreeRange) : Nat := if range.attr.isSome then 0 else range.start.offset

def getEndContainer (range : TreeRange) : TreeNodeReference :=
  match range.attr with
  | some attr => .attr attr.scope attr.id
  | none => .tree range.stop.node

def getEndOffset (range : TreeRange) : Nat := if range.attr.isSome then 0 else range.stop.offset

end TreeRange

/-! ### The calls -/

inductive RangeCall where
  | setStart (node : TreeNodeReference) (offset : Nat)
  | setEnd (node : TreeNodeReference) (offset : Nat)
  | setStartBefore (node : TreeNodeReference)
  | setStartAfter (node : TreeNodeReference)
  | setEndBefore (node : TreeNodeReference)
  | setEndAfter (node : TreeNodeReference)
  | collapse (toStart : Bool)
  | selectNode (node : TreeNodeReference)
  | selectNodeContents (node : TreeNodeReference)
  | deleteContents
  | extractContents
  | surroundContents (node : TreeNodeReference)
deriving DecidableEq

/-- The argument of a call. -/
def RangeCall.node? : RangeCall → Option TreeNodeReference
  | setStart node _ | setEnd node _ | setStartBefore node | setStartAfter node | setEndBefore node
  | setEndAfter node | selectNode node | selectNodeContents node | surroundContents node => some node
  | collapse _ | deleteContents | extractContents => none

def RangeCall.surrounds : RangeCall → Bool
  | surroundContents _ => true
  | _ => false

/-- The method that a call is of. It gives the fragment of `extractContents`, and the new parent of
`surroundContents`. -/
def RangeCall.method (deepCloneNode : Base → NodeId → Base × NodeId) (fuel : Nat)
    (applyInserted : TreeNodeId → List NodeId → StoreM Base Unit) :
    RangeCall → RangeM Base (Option TreeNodeId)
  | setStart node offset => Dom.setStart node offset >>= fun _ => pure none
  | setEnd node offset => Dom.setEnd node offset >>= fun _ => pure none
  | setStartBefore node => Dom.setStartBefore node >>= fun _ => pure none
  | setStartAfter node => Dom.setStartAfter node >>= fun _ => pure none
  | setEndBefore node => Dom.setEndBefore node >>= fun _ => pure none
  | setEndAfter node => Dom.setEndAfter node >>= fun _ => pure none
  | collapse toStart => Dom.collapse toStart >>= fun _ => pure none
  | selectNode node => Dom.selectNode node >>= fun _ => pure none
  | selectNodeContents node => Dom.selectNodeContents node >>= fun _ => pure none
  | deleteContents => Dom.deleteContents >>= fun _ => pure none
  | extractContents => Dom.extractContents deepCloneNode fuel >>= fun id => pure (some id)
  | surroundContents node =>
    Dom.surroundContents deepCloneNode fuel applyInserted node >>= fun id => pure (some id)

end TinyBrowser.Dom
