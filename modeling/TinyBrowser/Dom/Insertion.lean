import TinyBrowser.Dom.Documents

/-!
# Insertion, removal, replacement and moves

The tree mutations, as they stand in the source: each one mutates the tree, adjusts the live ranges
and records in the journal, in its own order. The child navigables that a caller destroys and the
selectedness of a select are no part of this.
-/

namespace TinyBrowser.Dom
open Lib Blitz

/-- The inserted node's side of ensure pre-insert validity. -/
inductive InsertedNode where
  | fragment (elements : Nat) (hasText : Bool)
  | element
  | text
  | doctype
  | characterData
  | other
deriving DecidableEq

/-- `unended` is no error of the source: it stands for a walk along host links that goes on beyond
the steps it was given. -/
inductive TreeError where
  | stale
  | hierarchy
  | notFound
  | unended
deriving DecidableEq

/-- The `child` argument of `move`; an attribute is `unparented`. -/
inductive MoveTarget where
  | atEnd
  | before (child : NodeId)
  | unparented
deriving DecidableEq

def MoveTarget.reference : MoveTarget → Option NodeId
  | .before child => some child
  | .atEnd | .unparented => none

/-- What takes a replaced child's place. -/
inductive Replacement where
  | node (node : NodeId)
  | fragmentContents (fragment : NodeId) (children : List NodeId)
  /-- Children already adopted from a fragment in another document. -/
  | adopted (children : List NodeId)
deriving DecidableEq

variable {Base : Type} [Blitz Base]

/-! ### Validity -/

/-- `Err(error)` when `b` holds. -/
def refuse {ε : Type} (b : Bool) (error : ε) : Except ε Unit := if b then .error error else .ok ()

section
variable (base : Base)

def isText (id : NodeId) : Bool :=
  match data base id with
  | some (.text _) | some (.cdataSection _) => true
  | _ => false

def isDoctype (id : NodeId) : Bool := data base id = some .doctype

def classifyInserted (id : NodeId) : InsertedNode :=
  if isFragment base id then
    .fragment ((childIds base id).countP (isElement base)) ((childIds base id).any (isText base))
  else match data base id with
    | some .element => .element
    | some (.text _) | some (.cdataSection _) => .text
    | some .doctype => .doctype
    | some (.comment _) | some (.processingInstruction _) => .characterData
    | _ => .other

def parentHasDoctype (parent : NodeId) (excluded : List NodeId) : Bool :=
  (childIds base parent).any fun child => !excluded.contains child && isDoctype base child

def parentHasElement (parent : NodeId) (excluded : List NodeId) : Bool :=
  (childIds base parent).any fun child => !excluded.contains child && isElement base child

/-- Whether a doctype follows `child` among `parent`'s children. -/
def siblingDoctypeFollows (parent child : NodeId) : Bool :=
  match childIndex base parent child with
  | some position => ((childIds base parent).drop (position + 1)).any (isDoctype base)
  | none => false

/-- Whether an element precedes `child` among `parent`'s children. -/
def siblingElementPrecedes (parent child : NodeId) : Bool :=
  match childIndex base parent child with
  | some position => ((childIds base parent).take position).any (isElement base)
  | none => false

/-- The reference child of an insertion must already be parented at the parent. -/
def ensureParented (parent reference : NodeId) : Except TreeError Unit :=
  refuse (!(childIds base parent).contains reference) .notFound

/-- The parent of a node, or the host of a fragment or a shadow root that has none. -/
def hostIncludingParent (id : NodeId) : Option NodeId :=
  (parentOf base id).or (match data base id with
    | some (.fragment host) => host
    | some (.shadowRoot host) => some host
    | _ => none)

/-- A node cannot be inserted into its own subtree. The walk goes up from `cursor`, across hosts. -/
def ensureNoCycle (node : NodeId) : Nat → Option NodeId → Except TreeError Unit
  | _, none => .ok ()
  | 0, some _ => .error .unended
  | fuel + 1, some current =>
    if current = node then .error .hierarchy
    else ensureNoCycle node fuel (hostIncludingParent base current)

/-- A doctype child must precede every element child of its parent. -/
def ensureDoctypePosition (parent : NodeId) (reference : Option NodeId) (excluded : List NodeId) :
    Except TreeError Unit :=
  let elementPrecedes := reference.any (siblingElementPrecedes base parent)
  refuse (parentHasDoctype base parent excluded || elementPrecedes ||
    (reference.isNone && parentHasElement base parent excluded)) .hierarchy

/-- Document parent rules from ensure pre-insert validity. -/
def ensureDocumentContentModel (parent : NodeId) (reference : Option NodeId)
    (excluded : List NodeId) (inserted : InsertedNode) : Except TreeError Unit :=
  let elementRules : Except TreeError Unit :=
    let doctypeFollows := reference.any (siblingDoctypeFollows base parent)
    let childIsDoctype := reference.any fun child => !excluded.contains child && isDoctype base child
    refuse (parentHasElement base parent excluded || doctypeFollows || childIsDoctype) .hierarchy
  match inserted with
  | .text | .other => .error .hierarchy
  | .characterData => .ok ()
  | .fragment elements hasText =>
    if 1 < elements || hasText then .error .hierarchy
    else if elements = 0 then .ok ()
    else elementRules
  | .element => elementRules
  | .doctype => ensureDoctypePosition base parent reference excluded

/-- Preconditions of `move`. -/
def ensureCanMove (fuel : Nat) (parent node : NodeId) (target : MoveTarget) :
    Except TreeError Unit := do
  let parentRoot ← (shadowIncludingRoot base fuel parent).elim (.error .unended) .ok
  let nodeRoot ← (shadowIncludingRoot base fuel node).elim (.error .unended) .ok
  refuse (parentRoot != nodeRoot) .hierarchy
  ensureNoCycle base node fuel (some parent)
  let parented : Except TreeError Unit := match target with
    | .before child => ensureParented base parent child
    | .unparented => .error .notFound
    | .atEnd => .ok ()
  parented
  let kind := classifyInserted base node
  refuse (!(kind = .element || kind = .text || kind = .characterData)) .hierarchy
  let parentIsDocument : Bool := rootNode base = parent
  refuse (parentIsDocument && kind = .text) .hierarchy
  refuse (parentIsDocument && kind = .element && (childIds base parent).any fun child =>
    child != node && isElement base child) .hierarchy
  refuse (parentOf base node).isNone .hierarchy

end

/-! ### The mutations -/

/-- The parent of `node` and its index there, which only the live-range adjustment reads. -/
def slotOf (parsed : Parsed Base) (node : NodeId) : Option (NodeId × Nat) :=
  if parsed.side.ranges.isEmpty then none
  else (parentOf parsed.base node).bind fun parent =>
    (childIndex parsed.base parent node).map fun index => (parent, index)

/-- Runs the live-range steps for `removed`, which had its place at `slot`. -/
def adjustUnlinked (parsed : Parsed Base) (slot : Option (NodeId × Nat)) (removed : NodeId) :
    Parsed Base :=
  match slot with
  | some (parent, index) =>
    parsed.withRanges (adjustForRemove parsed.base parsed.side.ranges parent index removed)
  | none => parsed

/-- Records the removal of an already-parented `target`, then detaches it. -/
def unlinkJournaled (parsed : Parsed Base) (target : NodeId) : Parsed Base :=
  match parentOf parsed.base target with
  | none => parsed
  | some parent =>
    let (previous, next) := siblingsAround parsed.base parent target
    let slot := slotOf parsed target
    let parsed := parsed.withBase (removeNode parsed.base target)
    (adjustUnlinked parsed slot target).record (.childList parent [] [target] previous next)

/-- Adjusts live ranges for `children` leaving `fragment` through a move into a new parent. -/
def adjustChildrenLeaving (parsed : Parsed Base) (fragment : NodeId) (children : List NodeId) :
    Parsed Base :=
  if children.isEmpty || parsed.side.ranges.isEmpty then parsed
  else parsed.withRanges (children.foldl
    (fun ranges child => adjustForRemove parsed.base ranges fragment 0 child) parsed.side.ranges)

/-- Puts one node before `reference`, or at the end of `parent`. -/
def placeOne (base : Base) (parent : NodeId) (reference : Option NodeId) (child : NodeId) : Base :=
  match reference with
  | some reference => insertNodesBefore base reference [child]
  | none => appendChildren base parent [child]

/-- The sibling that an insertion before `reference` comes after. -/
def previousOf (base : Base) (parent : NodeId) (reference : Option NodeId) : Option NodeId :=
  match reference with
  | some reference => (siblingsAround base parent reference).1
  | none => (childIds base parent).getLast?

def placeInner (parsed : Parsed Base) (parent child : NodeId) (reference : Option NodeId) :
    Parsed Base :=
  let previous := previousOf parsed.base parent reference
  (parsed.withBase (placeOne parsed.base parent reference child)).record
    (.childList parent [child] [] previous reference)

/-- Shifts the points of `parent` past `child`, which was put before `reference`; an append shifts
nothing. -/
def adjustPlaced (parsed : Parsed Base) (parent child : NodeId) (reference : Option NodeId) :
    Parsed Base :=
  if reference.isNone || parsed.side.ranges.isEmpty then parsed
  else match childIndex parsed.base parent child with
    | some index => parsed.withRanges (adjustForInsert parsed.side.ranges parent index 1)
    | none => parsed

/-- Inserts `child` into `parent` before `reference` (or at the end for `none`), recording one
`childList` addition. -/
def placeJournaled (parsed : Parsed Base) (parent child : NodeId) (reference : Option NodeId) :
    Parsed Base :=
  adjustPlaced (placeInner parsed parent child reference) parent child reference

/-- Shifts the points of `parent` past `count` nodes that went in at the reference child's index; an
append shifts nothing. -/
def adjustInserted (parsed : Parsed Base) (parent : NodeId) (referenceIndex : Option Nat)
    (count : Nat) : Parsed Base :=
  match referenceIndex with
  | some index => parsed.withRanges (adjustForInsert parsed.side.ranges parent index count)
  | none => parsed

/-- Splices a fragment's children into `parent` before `reference`: one removal record on the
fragment plus one addition record on the parent. -/
def spliceParsed (parsed : Parsed Base) (parent fragment : NodeId) (reference : Option NodeId) :
    Parsed Base :=
  let moved := childIds parsed.base fragment
  if moved.isEmpty then parsed
  else
    let parsed := adjustChildrenLeaving parsed fragment moved
    let parsed := parsed.record (.childList fragment [] moved none none)
    let referenceIndex := reference.bind (childIndex parsed.base parent)
    let previous := previousOf parsed.base parent reference
    let parsed := parsed.withBase
      (moved.foldl (fun base child => placeOne base parent reference child) parsed.base)
    let parsed := adjustInserted parsed parent referenceIndex moved.length
    parsed.record (.childList parent moved [] previous reference)

/-- Moves one node into `parent`, expanding a fragment into its children. Inserting beside itself
stays put. -/
def insertParsed (parsed : Parsed Base) (parent node : NodeId) (reference : Option NodeId) :
    Parsed Base :=
  if isFragment parsed.base node then spliceParsed parsed parent node reference
  else
    let reference := if reference = some node then sibling parsed.base node true else reference
    placeJournaled (unlinkJournaled parsed node) parent node reference

/-- Appends `child`; a node with a parent is removed first, and that removal is recorded. -/
def appendAdopted (parent : NodeId) (parsed : Parsed Base) (child : NodeId) : Parsed Base :=
  let parsed := unlinkJournaled parsed child
  parsed.withBase (appendChildren parsed.base parent [child])

/-- The standing children of `parent` detach silently. -/
def clearChildren (parsed : Parsed Base) (parent : NodeId) : Parsed Base :=
  let removed := childIds parsed.base parent
  let parsed := if !removed.isEmpty && !parsed.side.ranges.isEmpty then
      parsed.withRanges (adjustForReplaceAll parsed.base parsed.side.ranges parent)
    else parsed
  parsed.withBase (removed.foldl removeNode parsed.base)

/-- Replaces every child of `parent` with `added`: standing children detach silently and one record
carries the swap. Replacing nothing with nothing is silent. -/
def replaceAllJournaled (parsed : Parsed Base) (parent : NodeId) (added : List NodeId) :
    Parsed Base :=
  let removed := childIds parsed.base parent
  let parsed := added.foldl (appendAdopted parent) (clearChildren parsed parent)
  if !added.isEmpty || !removed.isEmpty then
    parsed.record (.childList parent added removed none none)
  else parsed

/-- Replace all with `node` within `parent`. -/
def replaceAllWithNode (parsed : Parsed Base) (parent node : NodeId) : Parsed Base :=
  if isFragment parsed.base node then
    let moved := childIds parsed.base node
    let parsed := adjustChildrenLeaving parsed node moved
    let parsed := parsed.withBase (moved.foldl removeNode parsed.base)
    let parsed := parsed.record (.childList node [] moved none none)
    replaceAllJournaled parsed parent moved
  else replaceAllJournaled parsed parent [node]

/-- Applies a validated `move`: reparents `node` without the insertion or removing steps. -/
def moveParsed (parsed : Parsed Base) (parent node : NodeId) (target : MoveTarget) : Parsed Base :=
  let reference := target.reference
  let oldParent := parentOf parsed.base node
  let (previous, next) :=
    oldParent.elim (none, none) fun oldParent => siblingsAround parsed.base oldParent node
  let slot := slotOf parsed node
  let parsed := parsed.withBase (moveNode parsed.base node parent reference)
  let parsed := adjustUnlinked parsed slot node
  let parsed := match oldParent with
    | some oldParent => parsed.record (.childList oldParent [] [node] previous next)
    | none => parsed
  let addedPrevious := sibling parsed.base node false
  let parsed := parsed.record (.childList parent [node] [] addedPrevious reference)
  adjustPlaced parsed parent node reference

/-- Runs the live-range pre-remove steps for the old child of a replacement. -/
def adjustReplaceRemoval (parsed : Parsed Base) (parent old : NodeId) : Parsed Base :=
  if parsed.side.ranges.isEmpty then parsed
  else match childIndex parsed.base parent old with
    | some index => parsed.withRanges
        (adjustForRemove parsed.base parsed.side.ranges parent index old)
    | none => parsed

/-- The second half of a replacement, once `added` may enter: `old` goes without a record of its
own, `added` comes, and one record carries both. -/
def swapChildren (parsed : Parsed Base) (parent old : NodeId) (added : List NodeId)
    (previous reference : Option NodeId) : Parsed Base :=
  let parsed := adjustReplaceRemoval parsed parent old
  let parsed := parsed.withBase (removeNode parsed.base old)
  let referenceIndex := reference.bind (childIndex parsed.base parent)
  let parsed := parsed.withBase
    (added.foldl (fun base child => placeOne base parent reference child) parsed.base)
  let parsed := adjustInserted parsed parent referenceIndex added.length
  parsed.record (.childList parent added [old] previous reference)

/-- Replaces `old` with `replacement`: a node's own unlink keeps a removal record when it moves,
then one combined record carries the replacement. Returns the nodes the parent gained. -/
def replaceParsed (parsed : Parsed Base) (parent old : NodeId) (replacement : Replacement) :
    Parsed Base × List NodeId :=
  if replacement = .node old then
    let reference := sibling parsed.base old true
    (placeJournaled (unlinkJournaled parsed old) parent old reference, [old])
  else
    let previous := (siblingsAround parsed.base parent old).1
    let next := sibling parsed.base old true
    match replacement with
    | .node node =>
      let reference := if next = some node then sibling parsed.base node true else next
      (swapChildren (unlinkJournaled parsed node) parent old [node] previous reference, [node])
    | .fragmentContents fragment children =>
      let parsed := (adjustChildrenLeaving parsed fragment children).record
        (.childList fragment [] children none none)
      (swapChildren parsed parent old children previous next, children)
    | .adopted children => (swapChildren parsed parent old children previous next, children)

end TinyBrowser.Dom
