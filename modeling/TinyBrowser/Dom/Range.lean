import TinyBrowser.Dom.Tree

/-!
# Live ranges

Boundary points, their comparison, and the adjustments that a mutation makes to every registered
range. Offsets and indices are `u32` in the source and `Nat` here: the two differ only for a node
with 2³² children or code units. An adjustment treats each point on its own, so it is a function on
points that `RangeTable.mapPoints` applies to both ends of every live range.
-/

namespace TinyBrowser.Dom
open Lib Blitz

/-- One boundary point: a node and an offset into it. -/
structure BoundaryPoint where
  node : NodeId
  offset : Nat
deriving DecidableEq

/-- A boundary point inside an attribute. -/
structure AttrPoint where
  scope : NodeId
  id : Nat
deriving DecidableEq

/-- A live range's start and end. With `attr` set the two are a collapsed placeholder at the
attribute's scope element. -/
structure RangeState where
  start : BoundaryPoint
  stop : BoundaryPoint
  attr : Option AttrPoint
deriving DecidableEq

def RangeState.mapPoints (g : BoundaryPoint → BoundaryPoint) (r : RangeState) : RangeState :=
  { r with start := g r.start, stop := g r.stop }

/-- One document's live-range slots; a freed slot is `none`. -/
structure RangeTable where
  slots : List (Option RangeState)
  live : Nat
  live_eq : live = slots.countP Option.isSome

namespace RangeTable

def isEmpty (t : RangeTable) : Bool := t.live == 0

/-- The table with the given live ranges. -/
def ofList (l : List RangeState) : RangeTable where
  slots := l.map some
  live := l.length
  live_eq := by
    rw [List.countP_map]
    exact (List.countP_eq_length.2 fun _ _ => rfl).symm

/-- The range `r` is registered. -/
def Has (t : RangeTable) (r : RangeState) : Prop := some r ∈ t.slots

/-- Every live range, both ends rewritten. -/
def mapPoints (g : BoundaryPoint → BoundaryPoint) (t : RangeTable) : RangeTable where
  slots := t.slots.map (Option.map (RangeState.mapPoints g))
  live := t.live
  live_eq := by
    rw [t.live_eq, List.countP_map]
    congr 1
    funext o
    simp

variable {t : RangeTable}

theorem not_has_of_isEmpty (h : t.isEmpty = true) (r : RangeState) : ¬ t.Has r := by
  intro hr
  rw [isEmpty, beq_iff_eq, t.live_eq, List.countP_eq_zero] at h
  exact h _ hr rfl

theorem mapPoints_of_isEmpty (h : t.isEmpty = true)
    (g : BoundaryPoint → BoundaryPoint) : t.mapPoints g = t := by
  have hs : t.slots.map (Option.map (RangeState.mapPoints g)) = t.slots := by
    rw [List.map_congr_left (g := id), List.map_id]
    intro o ho
    cases o with
    | none => rfl
    | some r => exact absurd ho (not_has_of_isEmpty h r)
  cases t
  simp only [mapPoints] at hs ⊢
  simp only [hs]

theorem mapPoints_mapPoints (g g' : BoundaryPoint → BoundaryPoint) (t : RangeTable) :
    (t.mapPoints g).mapPoints g' = t.mapPoints (g' ∘ g) := by
  have hs : (t.slots.map (Option.map (RangeState.mapPoints g))).map
      (Option.map (RangeState.mapPoints g')) =
      t.slots.map (Option.map (RangeState.mapPoints (g' ∘ g))) := by
    rw [List.map_map]
    congr 1
    funext o
    rw [Function.comp_apply, Option.map_map]
    rfl
  simp only [mapPoints, hs]

theorem mapPoints_id (t : RangeTable) : t.mapPoints id = t := by
  have hs : t.slots.map (Option.map (RangeState.mapPoints id)) = t.slots := by
    rw [show RangeState.mapPoints id = id from rfl, Option.map_id, List.map_id]
  cases t
  simp only [mapPoints] at hs ⊢
  simp only [hs]

theorem mapPoints_congr {g g' : BoundaryPoint → BoundaryPoint}
    (h : ∀ r, t.Has r → ∀ point ∈ [r.start, r.stop], g point = g' point) :
    t.mapPoints g = t.mapPoints g' := by
  have hs : t.slots.map (Option.map (RangeState.mapPoints g)) =
      t.slots.map (Option.map (RangeState.mapPoints g')) := by
    refine List.map_congr_left fun o ho => ?_
    cases o with
    | none => rfl
    | some r =>
      rw [Option.map_some, Option.map_some, RangeState.mapPoints, RangeState.mapPoints,
        h r ho r.start (by simp), h r ho r.stop (by simp)]
  simp only [mapPoints, hs]

end RangeTable

variable {Base : Type} [Blitz Base]

/-- The length of a node: child count, character-data length in UTF-16 code units, or zero. -/
def nodeLength (base : Base) (id : NodeId) : Nat :=
  match data base id with
  | none => 0
  | some .document | some .element | some .anonymousBlock | some (.fragment _)
  | some (.shadowRoot _) => (childIds base id).length
  | some (.text content) => content.length
  | some (.comment contents) | some (.processingInstruction contents)
  | some (.cdataSection contents) => contents.length
  | some .doctype => 0

/-- Whether `possible` is `node` or an ancestor of it. -/
def isInclusiveAncestor (base : Base) (possible cursor : NodeId) : Bool :=
  if cursor = possible then true
  else match _h : (tree base).parent cursor with
    | some parent => isInclusiveAncestor base possible parent
    | none => false
termination_by (tree base).up.wrap cursor

def isInclusiveDescendant (base : Base) (possible node : NodeId) : Bool :=
  isInclusiveAncestor base node possible

/-- The child of `ancestor` on the way up from `child`. -/
def childToward (base : Base) (ancestor child : NodeId) : Option NodeId :=
  match _h : (tree base).parent child with
  | some parent => if parent = ancestor then some child else childToward base ancestor parent
  | none => none
termination_by (tree base).up.wrap child

/-- The position of `a` relative to `b` when the node of `a` does not follow that of `b`. -/
def positionAhead (base : Base) (a b : BoundaryPoint) : Ordering :=
  if isInclusiveAncestor base a.node b.node then
    match childToward base a.node b.node with
    | none => .lt
    | some child => match childIndex base a.node child with
      | some index => if index < a.offset then .gt else .lt
      | none => .lt
  else .lt

/-- The position of one point relative to another. The two must share a root. The source calls
itself with the points exchanged when `a` follows `b`; that call then goes on to `positionAhead`
(`position_swap`). -/
def position (base : Base) (a b : BoundaryPoint) : Ordering :=
  if a.node = b.node then compare a.offset b.offset
  else if treeOrder base b.node a.node = .lt then (positionAhead base b a).swap
  else positionAhead base a b

/-- Whether two points share a root. A stale id has no root to share. -/
def sameRoot (base : Base) (a b : NodeId) : Bool :=
  (data base a).isSome && (data base b).isSome && rootOf base a == rootOf base b

/-- Shift boundary points in `parent` past an insertion of `count` children at `index`. -/
def adjustForInsert (ranges : RangeTable) (parent : NodeId) (index count : Nat) : RangeTable :=
  ranges.mapPoints fun point =>
    if point.node = parent ∧ index < point.offset then { point with offset := point.offset + count }
    else point

/-- Reparent boundary points for the removal of `removed` at `index` of `parent`. -/
def adjustForRemove (base : Base) (ranges : RangeTable) (parent : NodeId) (index : Nat)
    (removed : NodeId) : RangeTable :=
  ranges.mapPoints fun point =>
    if isInclusiveDescendant base point.node removed then ⟨parent, index⟩
    else if point.node = parent ∧ index < point.offset then
      { point with offset := point.offset - 1 }
    else point

/-- Adjust boundary points for replacing `count` units at `offset` of `node` with `length` units. -/
def adjustForReplaceData (ranges : RangeTable) (node : NodeId) (offset count length : Nat) :
    RangeTable :=
  ranges.mapPoints fun point =>
    if point.node ≠ node then point
    else if offset < point.offset ∧ point.offset ≤ offset + count then
      { point with offset := offset }
    else if offset + count < point.offset then
      { point with offset := point.offset + length - min count (point.offset - offset) }
    else point

/-- Adjust boundary points for merging `sibling` into `node` during `normalize`. -/
def adjustForNormalize (ranges : RangeTable) (node sibling parent : NodeId) (index length : Nat) :
    RangeTable :=
  ranges.mapPoints fun point =>
    if point.node = sibling then ⟨node, point.offset + length⟩
    else if point.node = parent ∧ point.offset = index then ⟨node, length⟩
    else point

/-- Adjust boundary points for splitting `node` at `offset` into `newNode` after it. -/
def adjustForSplit (ranges : RangeTable) (node newNode parent : NodeId) (index offset : Nat) :
    RangeTable :=
  ranges.mapPoints fun point =>
    let point := if point.node = node ∧ offset < point.offset then ⟨newNode, point.offset - offset⟩
      else point
    if point.node = parent ∧ point.offset = index + 1 then { point with offset := point.offset + 1 }
    else point

/-- Collapse boundary points for replacing every child of `parent`. -/
def adjustForReplaceAll (base : Base) (ranges : RangeTable) (parent : NodeId) : RangeTable :=
  ranges.mapPoints fun point =>
    if point.node = parent then
      if 0 < point.offset then { point with offset := 0 } else point
    else if isInclusiveDescendant base point.node parent then ⟨parent, 0⟩
    else point

end TinyBrowser.Dom
