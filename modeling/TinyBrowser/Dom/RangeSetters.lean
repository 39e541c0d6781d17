import TinyBrowser.Dom.RangeSlots

/-!
# Runs of the setters of a range

Beside the range, a run keeps where the last successful setter placed it: in an attribute, or at the
points of the DOM standard when its argument was a node of a tree. `Reports` says that the range
reports these. The standard compares the other end, which is in the tree of the first: every call
keeps this but a `surroundContents` that throws once scripts it inserted have run.

Each setter that only places points leaves the documents as they are: it fails and changes nothing, or
the range is the one that the standard says.
-/

namespace TinyBrowser.Dom
open Lib Blitz BlitzFragments BlitzNodes

/-! ### The standard -/

section
variable {Base FormState : Type} [BlitzNodes Base FormState]

/-- `p` is after `q` in the listing of the boundary points of their tree. -/
def follows (base : Base) (p q : BoundaryPoint) : Bool :=
  orderIn ((tree base).points (fun _ => max p.offset q.offset) (rootOf base p.node)) p.pair q.pair = .gt

/-- Whether the root of the range, which is that of its start, is the one of `node`. An attribute is
its own root. -/
def inTreeOf (base : Base) (range : TreeRange) (node : TreeNodeId) : Bool :=
  range.attr.isNone && sameTree base range.start.node node

/-- The points after the start of a range is set to `bp`. -/
def standardSetStart (base : Base) (range : TreeRange) (bp : TreePoint) : TreePoint × TreePoint :=
  if inTreeOf base range bp.node = false ∨ follows base bp.point range.stop.point then (bp, bp)
  else (bp, range.stop)

/-- The points after the end of a range is set to `bp`. -/
def standardSetEnd (base : Base) (range : TreeRange) (bp : TreePoint) : TreePoint × TreePoint :=
  if inTreeOf base range bp.node = false ∨ follows base range.start.point bp.point then (bp, bp)
  else (range.start, bp)

end

/-! ### Where a range is placed -/

/-- Where the last successful setter placed a range: in an attribute, at points that the standard
prescribes, or somewhere in a tree. -/
inductive Placed where
  | attr (place : TreeAttrPoint)
  | points (start stop : Option TreePoint)
  | inTree
deriving DecidableEq

/-- What a call that places nothing leaves: the points may have moved. -/
def Placed.kept : Placed → Placed
  | .attr place => .attr place
  | .points .. | .inTree => .inTree

/-- The range reports the points where it is placed. -/
def Placed.ReportedBy (range : TreeRange) : Placed → Prop
  | .attr place => range.attr = some place ∧
    (range.getStartContainer, range.getStartOffset) = (.attr place.scope place.id, 0) ∧
    (range.getEndContainer, range.getEndOffset) = (.attr place.scope place.id, 0)
  | .points start stop => range.attr = none ∧
    (∀ p ∈ start, (range.getStartContainer, range.getStartOffset) = (.tree p.node, p.offset)) ∧
    (∀ p ∈ stop, (range.getEndContainer, range.getEndOffset) = (.tree p.node, p.offset))
  | .inTree => range.attr = none

variable {Base FormState : Type} [BlitzNodes Base FormState]

/-- The ends are at one node or in one tree. -/
def Joined (store : DocumentStore Base) (range : TreeRange) : Prop :=
  range.start.node = range.stop.node ∨ ∃ doc ∈ store.get range.start.node.document,
    sameTree doc.base range.start.node range.stop.node = true

instance (store : DocumentStore Base) (range : TreeRange) : Decidable (Joined store range) :=
  inferInstanceAs (Decidable (_ ∨ _))

/-- Where the start of a range is set; the standard knows the end of a range with both ends in one
tree. -/
def placeStart (store : DocumentStore Base) (base : Base) (range : TreeRange) (bp : TreePoint) :
    Placed :=
  if Joined store range then .points (standardSetStart base range bp).1 (standardSetStart base range bp).2
  else .points bp none

def placeEnd (store : DocumentStore Base) (base : Base) (range : TreeRange) (bp : TreePoint) :
    Placed :=
  if Joined store range then .points (standardSetEnd base range bp).1 (standardSetEnd base range bp).2
  else .points none bp

/-- The point before `id` in its parent, or `past` children further on. -/
def pointBeside (store : DocumentStore Base) (id : TreeNodeId) (past : Nat) : Option (Base × TreePoint) := do
  let doc ← store.get id.document
  let parent ← parentOf doc.base id.node
  let index ← childIndex doc.base parent id.node
  return (doc.base, ⟨⟨id.document, parent⟩, index + past⟩)

/-- The points around `id`. -/
def pointsAround (store : DocumentStore Base) (id : TreeNodeId) : Option Placed := do
  let before ← pointBeside store id 0
  let after ← pointBeside store id 1
  return .points before.2 after.2

/-- Where a call places `range` that succeeds with `out` and leaves the documents as `store'`. -/
def prescribed (store store' : DocumentStore Base) (range : TreeRange)
    (out : Option TreeNodeId) : RangeCall → Option Placed
  | .setStart (.attr scope id) _ | .setEnd (.attr scope id) _ | .selectNodeContents (.attr scope id) =>
    some (.attr ⟨scope, id⟩)
  | .setStart (.tree id) offset => (store.get id.document).map fun doc =>
    placeStart store doc.base range ⟨id, offset⟩
  | .setEnd (.tree id) offset => (store.get id.document).map fun doc =>
    placeEnd store doc.base range ⟨id, offset⟩
  | .setStartBefore (.tree id) => (pointBeside store id 0).map fun place =>
    placeStart store place.1 range place.2
  | .setStartAfter (.tree id) => (pointBeside store id 1).map fun place =>
    placeStart store place.1 range place.2
  | .setEndBefore (.tree id) => (pointBeside store id 0).map fun place =>
    placeEnd store place.1 range place.2
  | .setEndAfter (.tree id) => (pointBeside store id 1).map fun place =>
    placeEnd store place.1 range place.2
  | .selectNode (.tree id) => pointsAround store id
  | .selectNodeContents (.tree id) => (store.get id.document).map fun doc =>
    .points (some ⟨id, 0⟩) (some ⟨id, nodeLength doc.base id.node⟩)
  | .surroundContents _ => out.bind (pointsAround store')
  | .setStartBefore (.attr ..) | .setStartAfter (.attr ..) | .setEndBefore (.attr ..)
  | .setEndAfter (.attr ..) | .selectNode (.attr ..) | .collapse _ | .deleteContents
  | .extractContents => none

/-! ### Runs -/

/-- All documents and one range, with where it was placed, and whether its ends are known to be in one
tree. -/
structure RangeRun (Base : Type) where
  world : RangeWorld Base
  placed : Placed
  joined : Bool

/-- The range reports the points where it was placed, and its ends are in one tree if they are known
to be. -/
def RangeRun.Reports (run : RangeRun Base) : Prop :=
  ∃ range, run.world.loaded = some range ∧ run.placed.ReportedBy range ∧
    (run.joined = true → Joined run.world.store range)

/-- `range` is the range of `world`: one in an attribute is collapsed. -/
structure LiveRange (world : RangeWorld Base) (range : TreeRange) : Prop where
  loaded : world.loaded = some range
  home : range.atHome = true
  collapsed : range.attr.isSome = true → range.start = range.stop

section
variable (deepCloneNode : Base → NodeId → Base × NodeId) (fuel : Nat)
  (applyInserted : TreeNodeId → List NodeId → StoreM Base Unit)

/-- Makes a call, if its argument is of a document that is there and the fuel is enough for it. A
`surroundContents` that throws may have done any part of its work. -/
def RangeRun.step (run : RangeRun Base) (call : RangeCall) : Option (RangeRun Base) :=
  if call.node?.any (fun node => (run.world.store.get node.document).isNone) then none
  else match (call.method deepCloneNode fuel applyInserted).runOn run.world with
  | (.error .unended, _) => none
  | (.error _, world) => some ⟨world, run.placed.kept, run.joined && !call.surrounds⟩
  | (.ok out, world) => some ⟨world, (run.world.loaded.bind fun range => prescribed run.world.store
      world.store range out call).getD run.placed.kept, run.joined || call.surrounds⟩

end

/-- A range in an attribute is to select a node that has a parent. -/
def Sticks (run : RangeRun Base) (call : RangeCall) : Prop :=
  ∃ id, call = .selectNode (.tree id) ∧ (∃ range ∈ run.world.loaded, range.attr.isSome) ∧
    (pointBeside run.world.store id 0).isSome

/-! ### One tree -/

section
variable {base : Base} {a b c : TreeNodeId}

theorem sameTree_iff : sameTree base a b = true ↔ a.document = b.document ∧
    data base a.node ≠ none ∧ data base b.node ≠ none ∧ rootOf base a.node = rootOf base b.node := by
  rw [sameTree, sameRoot, Bool.and_eq_true, Bool.and_eq_true, Bool.and_eq_true, decide_eq_true_eq,
    beq_iff_eq, Option.isSome_iff_ne_none, Option.isSome_iff_ne_none, and_assoc]

theorem sameTree_comm : sameTree base a b = sameTree base b a := by
  rw [Bool.eq_iff_iff, sameTree_iff, sameTree_iff]
  constructor
  · rintro ⟨h, ha, hb, hroot⟩
    exact ⟨h.symm, hb, ha, hroot.symm⟩
  · rintro ⟨h, ha, hb, hroot⟩
    exact ⟨h.symm, hb, ha, hroot.symm⟩

theorem sameTree_congr (h : sameTree base a b = true) : sameTree base a c = sameTree base b c := by
  obtain ⟨hdocument, ha, hb, hroot⟩ := sameTree_iff.1 h
  rw [Bool.eq_iff_iff, sameTree_iff, sameTree_iff, hdocument, hroot]
  tauto

theorem follows_eq {p q : BoundaryPoint} (h : rootOf base p.node = rootOf base q.node) :
    follows base p q = (position base p q == .gt) := by
  have hp : p.pair ∈ (tree base).points (fun _ => max p.offset q.offset) (rootOf base p.node) :=
    Forest.mem_points.2 ⟨mem_preorder_root base p.node, Nat.le_max_left ..⟩
  have hq : q.pair ∈ (tree base).points (fun _ => max p.offset q.offset) (rootOf base p.node) :=
    Forest.mem_points.2 ⟨h ▸ mem_preorder_root base q.node, Nat.le_max_right ..⟩
  rw [follows, position_eq_points hp hq]
  rfl

theorem follows_eq_lt {p q : BoundaryPoint} (h : rootOf base p.node = rootOf base q.node) :
    follows base q p = (position base p q == .lt) := by
  have hp : p.pair ∈ (tree base).points (fun _ => max q.offset p.offset) (rootOf base q.node) :=
    Forest.mem_points.2 ⟨h ▸ mem_preorder_root base p.node, Nat.le_max_right ..⟩
  have hq : q.pair ∈ (tree base).points (fun _ => max q.offset p.offset) (rootOf base q.node) :=
    Forest.mem_points.2 ⟨mem_preorder_root base q.node, Nat.le_max_left ..⟩
  rw [follows, position_eq_points hp hq, ← swap_orderIn]
  cases orderIn ((tree base).points (fun _ => max q.offset p.offset) (rootOf base q.node)) p.pair
      q.pair with
  | lt => rfl
  | eq => rfl
  | gt => rfl

end

/-! ### The ends -/

section
variable {world : RangeWorld Base} {range : TreeRange} {doc : Scripted Base} {bp : TreePoint}

theorem Joined.sameTree_eq {store : DocumentStore Base} (h : Joined store range)
    (hdoc : store.get bp.node.document = some doc) :
    sameTree doc.base range.start.node bp.node = sameTree doc.base range.stop.node bp.node := by
  rcases h with h | ⟨doc', hdoc', h⟩
  · rw [h]
  · by_cases hdocument : range.start.node.document = bp.node.document
    · rw [hdocument] at hdoc'
      obtain rfl := Option.some.inj (hdoc.symm.trans hdoc')
      exact sameTree_congr h
    · have hstop := (sameTree_iff.1 h).1
      rw [sameTree, sameTree, decide_eq_false hdocument, decide_eq_false (hstop ▸ hdocument),
        Bool.false_and, Bool.false_and]

theorem setStartPoint_eq (h : Joined world.store range)
    (hdoc : world.store.get bp.node.document = some doc) :
    setStartPoint doc.base range bp =
      ⟨(standardSetStart doc.base range bp).1, (standardSetStart doc.base range bp).2, none⟩ := by
  rw [setStartPoint, standardSetStart, inTreeOf]
  cases hattr : range.attr with
  | some attr => simp
  | none =>
    cases htree : sameTree doc.base range.start.node bp.node with
    | false => simp
    | true =>
      have hstop := h.sameTree_eq hdoc
      rw [htree, eq_comm, sameTree_comm, sameTree_iff] at hstop
      rw [follows_eq hstop.2.2.2]
      simp only [Option.isSome_none, Option.isNone_none, Bool.true_and, Bool.not_true, Bool.false_or,
        Bool.true_eq_false, false_or]
      split_ifs with hpast
      · rfl
      · rfl

theorem setEndPoint_eq (h : Joined world.store range)
    (hdoc : world.store.get bp.node.document = some doc) :
    setEndPoint doc.base range bp =
      ⟨(standardSetEnd doc.base range bp).1, (standardSetEnd doc.base range bp).2, none⟩ := by
  rw [setEndPoint, standardSetEnd, inTreeOf, ← h.sameTree_eq hdoc]
  cases hattr : range.attr with
  | some attr => simp
  | none =>
    cases htree : sameTree doc.base range.start.node bp.node with
    | false => simp
    | true =>
      have hstart := htree
      rw [sameTree_comm, sameTree_iff] at hstart
      rw [follows_eq_lt hstart.2.2.2]
      simp only [Option.isSome_none, Option.isNone_none, Bool.true_and, Bool.not_true, Bool.false_or,
        Bool.true_eq_false, false_or]
      split_ifs with hpast
      · rfl
      · rfl

/-! ### Live ranges -/

theorem Joined.across {store store' : DocumentStore Base} (h : Joined store range)
    (hsame : Across SameBase store store') : Joined store' range := by
  refine h.imp id ?_
  rintro ⟨doc, hdoc, h⟩
  obtain ⟨doc', hdoc', hbase⟩ := hsame _ doc hdoc
  exact ⟨doc', hdoc', hbase ▸ h⟩

theorem LiveRange.document_start (h : LiveRange world range) :
    range.start.node.document = range.document ∧ range.stop.node.document = range.document := by
  have hhome := h.home
  rwa [TreeRange.atHome, Bool.and_eq_true, decide_eq_true_eq, decide_eq_true_eq] at hhome

theorem exists_document_of_loaded {range : TreeRange} (h : LiveRange world range) :
    ∃ doc, world.store.get range.document = some doc := by
  have hloaded := h.loaded
  have hhome := h.home
  rw [RangeWorld.loaded] at hloaded
  split at hloaded
  · rename_i document slot _
    obtain ⟨doc, hdoc, hloaded⟩ := Option.bind_eq_some_iff.1 hloaded
    obtain ⟨state, -, rfl⟩ := Option.map_eq_some_iff.1 hloaded
    refine ⟨doc, ?_⟩
    rw [← hdoc]
    cases hattr : state.attr with
    | none => simp [RangeState.within, TreeRange.document, BoundaryPoint.within, hattr]
    | some attr => simp [RangeState.within, TreeRange.document, hattr]
  · obtain ⟨doc, hdoc, rfl⟩ := Option.map_eq_some_iff.1 hloaded
    exact ⟨doc, hdoc⟩

theorem reportedBy_ofAttribute (attr : TreeAttrPoint) :
    (Placed.attr attr).ReportedBy (.ofAttribute attr) :=
  ⟨rfl, rfl, rfl⟩

theorem reportedBy_points (start stop : TreePoint) :
    (Placed.points start stop).ReportedBy ⟨start, stop, none⟩ := by
  refine ⟨rfl, ?_, ?_⟩
  · rintro p ⟨⟩
    rfl
  · rintro p ⟨⟩
    rfl

/-- What a setter of one end makes of a range is in a tree, where `place` says. -/
structure Lands (store : DocumentStore Base) (range : TreeRange) (bp : TreePoint) (new : TreeRange)
    (placed : Placed) : Prop where
  attr_eq : new.attr = none
  document : new.document = bp.node.document
  home : new.atHome = true
  reported : placed.ReportedBy new
  joined : Joined store range → Joined store new

theorem lands_setStartPoint (h : LiveRange world range)
    (hdoc : world.store.get bp.node.document = some doc) :
    Lands world.store range bp (setStartPoint doc.base range bp)
      (placeStart world.store doc.base range bp) where
  attr_eq := rfl
  document := rfl
  home := by
    rw [TreeRange.atHome, setStartPoint, TreeRange.document]
    dsimp only [Option.elim_none]
    split_ifs with hmoves
    · simp
    · rw [Bool.not_eq_true, Bool.or_eq_false_iff, Bool.or_eq_false_iff, Bool.not_eq_false'] at hmoves
      obtain ⟨hstart, hstop⟩ := h.document_start
      simp [hstop, ← hstart, (sameTree_iff.1 hmoves.1.2).1]
  reported := by
    rw [placeStart]
    split_ifs with hjoined
    · rw [setStartPoint_eq hjoined hdoc]
      exact reportedBy_points _ _
    · refine ⟨rfl, ?_, ?_⟩
      · rintro p ⟨⟩
        rfl
      · rintro p ⟨⟩
  joined hjoined := by
    rw [setStartPoint_eq hjoined hdoc, standardSetStart]
    split_ifs with hmoves
    · exact .inl rfl
    · rw [not_or, Bool.not_eq_false, inTreeOf, Bool.and_eq_true] at hmoves
      refine .inr ⟨doc, hdoc, ?_⟩
      rw [sameTree_comm, ← hjoined.sameTree_eq hdoc]
      exact hmoves.1.2

theorem lands_setEndPoint (h : LiveRange world range)
    (hdoc : world.store.get bp.node.document = some doc) :
    Lands world.store range bp (setEndPoint doc.base range bp)
      (placeEnd world.store doc.base range bp) where
  attr_eq := rfl
  document := by
    rw [setEndPoint, TreeRange.document]
    dsimp only [Option.elim_none]
    split_ifs with hmoves
    · rfl
    · rw [Bool.not_eq_true, Bool.or_eq_false_iff, Bool.or_eq_false_iff, Bool.not_eq_false'] at hmoves
      obtain ⟨hstart, hstop⟩ := h.document_start
      rw [hstart, ← hstop, (sameTree_iff.1 hmoves.1.2).1]
  home := by
    rw [TreeRange.atHome, setEndPoint, TreeRange.document]
    dsimp only [Option.elim_none]
    split_ifs with hmoves
    · simp
    · rw [Bool.not_eq_true, Bool.or_eq_false_iff, Bool.or_eq_false_iff, Bool.not_eq_false'] at hmoves
      obtain ⟨hstart, hstop⟩ := h.document_start
      simp [hstart, ← hstop, (sameTree_iff.1 hmoves.1.2).1]
  reported := by
    rw [placeEnd]
    split_ifs with hjoined
    · rw [setEndPoint_eq hjoined hdoc]
      exact reportedBy_points _ _
    · refine ⟨rfl, ?_, ?_⟩
      · rintro p ⟨⟩
      · rintro p ⟨⟩
        rfl
  joined hjoined := by
    rw [setEndPoint_eq hjoined hdoc, standardSetEnd]
    split_ifs with hmoves
    · exact .inl rfl
    · rw [not_or, Bool.not_eq_false, inTreeOf, Bool.and_eq_true] at hmoves
      have hdocument := congrArg world.store.get (sameTree_iff.1 hmoves.1.2).1
      exact .inr ⟨doc, hdocument.trans hdoc, hmoves.1.2⟩

end

/-! ### The methods -/

section
variable {world : RangeWorld Base} {range : TreeRange}

theorem yields_load {ok : TreeRange → RangeWorld Base → Prop} {err : RangeWorld Base → Prop}
    (hloaded : world.loaded = some range) (h : ok range world) : load.Yields ok err world := by
  refine Trial.yields_look.2 ⟨fun r hr => ?_, fun e he => ?_⟩
  · rw [hloaded] at hr
    exact Except.ok.inj hr ▸ h
  · rw [hloaded] at he
    cases he

/-- A successful call leaves a range as `P` says, with its ends in one tree when they were, and a
failed one leaves everything. -/
def Sets (range : TreeRange) (P : TreeRange → Prop) (m : RangeM Base Unit) (world : RangeWorld Base) :
    Prop :=
  m.Yields (fun _ world' => ∃ new, P new ∧ LiveRange world' new ∧
    (Joined world.store range → Joined world'.store new)) (· = world) world

theorem Sets.mono {P P' : TreeRange → Prop} {m : RangeM Base Unit} (h : Sets range P m world)
    (hP : ∀ new, P new → P' new) : Sets range P' m world := by
  refine Trial.Yields.mono h ?_ fun _ h => h
  rintro _ world' ⟨new, hnew, hlive, hjoined⟩
  exact ⟨new, hP new hnew, hlive, hjoined⟩

variable {target : Scripted Base}

theorem sets_save {new : TreeRange} {P : TreeRange → Prop}
    (h : LiveRange world range) (htarget : world.store.get new.document = some target) (hP : P new)
    (hhome : new.atHome = true) (hcollapsed : new.attr.isSome = true → new.start = new.stop)
    (hjoined : Joined world.store range → Joined world.store new) :
    Sets range P (save new) world := by
  refine (yields_save h.loaded htarget).mono ?_ nofun
  rintro _ world' ⟨hloaded, hsame⟩
  exact ⟨new, hP, ⟨hloaded, hhome, hcollapsed⟩, fun hj => (hjoined hj).across hsame⟩

theorem sets_save_ofAttribute {attr : TreeAttrPoint} {P : TreeRange → Prop}
    (h : LiveRange world range) (htarget : world.store.get attr.scope.document = some target)
    (hP : P (.ofAttribute attr)) : Sets range P (save (.ofAttribute attr)) world :=
  sets_save h htarget hP (by simp [TreeRange.atHome, TreeRange.document, TreeRange.ofAttribute])
    (fun _ => rfl) fun _ => .inl rfl

theorem Lands.sets_save {bp : TreePoint} {new : TreeRange} {placed : Placed}
    (hlands : Lands world.store range bp new placed) (h : LiveRange world range)
    (htarget : world.store.get bp.node.document = some target) :
    Sets range placed.ReportedBy (save new) world := by
  refine Dom.sets_save h (hlands.document ▸ htarget) hlands.reported hlands.home ?_ hlands.joined
  rw [hlands.attr_eq]
  nofun

section
variable {setPoint : Base → TreeRange → TreePoint → TreeRange}
  {place : DocumentStore Base → Base → TreeRange → TreePoint → Placed}

/-- Where a setter puts an end at a node of a tree or an attribute. -/
def landed (place : DocumentStore Base → Base → TreeRange → TreePoint → Placed)
    (store : DocumentStore Base) (base : Base) (range : TreeRange) (offset : Nat) :
    TreeNodeReference → Placed
  | .attr scope id => .attr ⟨scope, id⟩
  | .tree id => place store base range ⟨id, offset⟩

/-- `setStart` and `setEnd`. -/
theorem sets_setPointTo (h : LiveRange world range) (hlands : ∀ bp doc,
      world.store.get bp.node.document = some doc → Lands world.store range bp
        (setPoint doc.base range bp) (place world.store doc.base range bp))
    {node : TreeNodeReference} {target : Scripted Base}
    (htarget : world.store.get node.document = some target) (offset : Nat) :
    Sets range (landed place world.store target.base range offset node).ReportedBy
      (setPointTo setPoint node offset) world := by
  refine Trial.yields_bind.2 (yields_load h.loaded (Trial.yields_bind.2 ?_))
  cases node with
  | attr scope id =>
    rw [checkPoint]
    split_ifs
    · exact Trial.yields_throw.2 rfl
    · exact Trial.yields_pure.2 (Trial.yields_bind.2 (Trial.yields_pure.2
        (sets_save_ofAttribute h htarget (reportedBy_ofAttribute _))))
  | tree id =>
    rw [checkPoint]
    refine yields_readDocument (fun doc arg hdoc harg => ?_) rfl
    obtain rfl := Option.some.inj (hdoc.symm.trans htarget)
    obtain rfl : PointArg.tree ⟨id, offset⟩ = arg := by
      split_ifs at harg
      exact Except.ok.inj harg
    refine Trial.yields_bind.2 ?_
    rw [applyPoint]
    refine yields_readDocument (fun doc' new hdoc' hnew => ?_) rfl
    obtain rfl := Option.some.inj (hdoc.symm.trans hdoc')
    rw [← Except.ok.inj hnew]
    exact (hlands _ _ hdoc).sets_save h hdoc

theorem pointBeside_eq {store : DocumentStore Base} {id : TreeNodeId} {doc : Scripted Base}
    (hdoc : store.get id.document = some doc) (past : Nat) : pointBeside store id past =
      (placeOf doc.base id.node).toOption.map fun place =>
        (doc.base, ⟨⟨id.document, place.1⟩, place.2 + past⟩) := by
  rw [pointBeside, placeOf, hdoc]
  cases hparent : parentOf doc.base id.node with
  | none => simp [hparent, Except.toOption, bind, Except.bind]
  | some parent =>
    cases hindex : childIndex doc.base parent id.node with
    | none => simp [hparent, hindex, Except.toOption, bind, Except.bind]
    | some index => simp [hparent, hindex, Except.toOption, bind, Except.bind, pure, Except.pure]

theorem pointBeside_of_placeOf {store : DocumentStore Base} {id : TreeNodeId} {doc : Scripted Base}
    (hdoc : store.get id.document = some doc) (past : Nat) {parent : NodeId} {index : Nat}
    (hplace : placeOf doc.base id.node = .ok (parent, index)) : pointBeside store id past =
      some (doc.base, ⟨⟨id.document, parent⟩, index + past⟩) := by
  rw [pointBeside_eq hdoc, hplace]
  rfl

/-- The setters before and after a node. -/
theorem sets_setPointBeside (h : LiveRange world range) (hlands : ∀ bp doc,
      world.store.get bp.node.document = some doc → Lands world.store range bp
        (setPoint doc.base range bp) (place world.store doc.base range bp))
    (past : Nat) (node : TreeNodeReference) :
    Sets range (fun new => ∃ id beside, node = .tree id ∧ pointBeside world.store id past = some beside ∧
        (place world.store beside.1 range beside.2).ReportedBy new)
      (setPointBeside setPoint past node) world := by
  refine Trial.yields_bind.2 (Trial.yields_look.2 ⟨fun id hid => ?_, fun _ _ => rfl⟩)
  obtain rfl : node = .tree id := by
    cases node with
    | tree id' => exact congrArg TreeNodeReference.tree (Except.ok.inj hid)
    | attr => cases hid
  refine Trial.yields_bind.2 (yields_load h.loaded (Trial.yields_bind.2
    (yields_readDocument (fun doc new hdoc hnew => ?_) rfl)))
  obtain ⟨⟨parent, index⟩, hplace, hnew⟩ := Except.of_bind_ok hnew
  rw [← Except.ok.inj hnew]
  have hbeside := pointBeside_of_placeOf hdoc past hplace
  exact ((hlands ⟨⟨id.document, parent⟩, index + past⟩ doc hdoc).sets_save h hdoc).mono
    fun new hnew => ⟨id, _, rfl, hbeside, hnew⟩

end

theorem sets_collapse (h : LiveRange world range) (toStart : Bool) :
    Sets range (fun new => new.attr = range.attr) (collapse toStart) world := by
  obtain ⟨doc, hdoc⟩ := exists_document_of_loaded h
  obtain ⟨hstart, hstop⟩ := h.document_start
  have hsave : ∀ p : TreePoint, p.node.document = range.document →
      Sets range (fun new => new.attr = range.attr) (save ⟨p, p, range.attr⟩) world := by
    intro p hp
    have hdocument : (⟨p, p, range.attr⟩ : TreeRange).document = range.document := by
      rw [TreeRange.document, TreeRange.document] at *
      cases hattr : range.attr with
      | none => rw [hattr] at hp; exact hp
      | some attr => rfl
    refine sets_save h (hdocument ▸ hdoc) rfl ?_ (fun _ => rfl) fun _ => .inl rfl
    rw [TreeRange.atHome, hdocument]
    simp [hp]
  refine Trial.yields_bind.2 (yields_load h.loaded ?_)
  cases toStart with
  | true => exact hsave range.start hstart
  | false => exact hsave range.stop hstop

/-- `selectNode` sets both points, and leaves the attribute. -/
theorem yields_selectNode (h : LiveRange world range) {node : TreeNodeReference}
    (htarget : world.store.get node.document = some target) : (selectNode node).Yields
      (fun _ world' => ∃ id place, node = .tree id ∧ pointBeside world.store id 0 = some place ∧
        world'.loaded = some ⟨place.2, ⟨place.2.node, place.2.offset + 1⟩, range.attr⟩ ∧
        Across SameBase world.store world'.store)
      (fun world' => world' = world ∧ ∀ id, node = .tree id → pointBeside world.store id 0 = none)
      world := by
  refine Trial.yields_bind.2 (Trial.yields_look.2 ⟨fun id hid => ?_, fun e he => ⟨rfl, ?_⟩⟩)
  · obtain rfl : node = .tree id := by
      cases node with
      | tree id' => exact congrArg TreeNodeReference.tree (Except.ok.inj hid)
      | attr => cases hid
    obtain ⟨doc, hdoc⟩ := exists_document_of_loaded h
    refine Trial.yields_bind.2 (yields_load h.loaded (Trial.yields_bind.2 ?_))
    cases hplace : placeOf target.base id.node with
    | error e =>
      refine yields_readDocument (fun doc' new hdoc' hnew => ?_) ⟨rfl, ?_⟩
      · obtain rfl := Option.some.inj (htarget.symm.trans hdoc')
        rw [hplace] at hnew
        cases hnew
      · rintro _ ⟨⟩
        rw [pointBeside_eq htarget, hplace]
        rfl
    | ok place =>
      obtain ⟨parent, index⟩ := place
      refine yields_readDocument_of_ok htarget (by rw [hplace]; rfl) ?_
      have hsaved : ∃ saved, world.store.get (TreeRange.document
          ⟨⟨⟨id.document, parent⟩, index⟩, ⟨⟨id.document, parent⟩, index + 1⟩, range.attr⟩) =
          some saved := by
        rw [TreeRange.document] at hdoc ⊢
        cases hattr : range.attr with
        | none => exact ⟨target, htarget⟩
        | some attr =>
          rw [hattr] at hdoc
          exact ⟨doc, hdoc⟩
      obtain ⟨saved, hsaved⟩ := hsaved
      refine (yields_save h.loaded hsaved).mono ?_ fun _ h => h.elim
      rintro _ world' ⟨hloaded, hsame⟩
      exact ⟨id, _, rfl, pointBeside_of_placeOf htarget 0 hplace, hloaded, hsame⟩
  · rintro id rfl
    cases he

/-- `selectNodeContents`. -/
theorem sets_selectNodeContents (h : LiveRange world range) {node : TreeNodeReference}
    (htarget : world.store.get node.document = some target) :
    Sets range (landed (fun _ base _ start =>
        .points (some start) (some ⟨start.node, nodeLength base start.node.node⟩))
      world.store target.base range 0 node).ReportedBy (selectNodeContents node) world := by
  refine Trial.yields_bind.2 (yields_load h.loaded (Trial.yields_bind.2 ?_))
  cases node with
  | attr scope id =>
    rw [checkPoint, if_neg (by simp)]
    exact Trial.yields_pure.2 (sets_save_ofAttribute h htarget (reportedBy_ofAttribute _))
  | tree id =>
    rw [checkPoint]
    refine yields_readDocument (fun doc arg hdoc harg => ?_) rfl
    obtain rfl := Option.some.inj (hdoc.symm.trans htarget)
    obtain rfl : PointArg.tree ⟨id, 0⟩ = arg := by
      split_ifs at harg
      exact Except.ok.inj harg
    refine Trial.yields_bind.2 (yields_readDocument (fun doc' length hdoc' hlength => ?_) rfl)
    obtain rfl := Option.some.inj (hdoc.symm.trans hdoc')
    rw [← Except.ok.inj hlength]
    exact sets_save h hdoc (reportedBy_points _ _) (by simp [TreeRange.atHome, TreeRange.document])
      nofun fun _ => .inl rfl

end

end TinyBrowser.Dom
