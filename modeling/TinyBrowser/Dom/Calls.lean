import TinyBrowser.Dom.Insertion
import TinyBrowser.Lib.Machine
import TinyBrowser.Lib.Wp

/-!
# The calls that reach the mutations

Every mutation is behind the checks of the binding that makes it. `TreeCall` is one such call within
one document, and `TreeCall.step` makes it: the checks first, and where they admit the call the
mutation. Nodes that come from another document arrive as detached copies; `Adopted` is what their
adoption leaves, and the check that the copies may go where they go was made on the originals.
-/

namespace TinyBrowser.Dom
open Lib Blitz

inductive NodeReference where
  | tree (id : NodeId)
  | attr (scope : NodeId) (id : Nat)
deriving DecidableEq

def NodeReference.tree? : NodeReference → Option NodeId
  | .tree id => some id
  | .attr .. => none

/-- What a binding throws. -/
inductive Thrown where
  | dom (name message : String)
  | type (message : String)
  | unended
deriving DecidableEq

def TreeError.message : TreeError → String
  | .stale => "stale node handle"
  | .hierarchy => "hierarchy or content model forbids this operation"
  | .notFound => "target has no parent to insert beside"
  | .unended => ""

def throwDomError (error : TreeError) : Thrown :=
  match error with
  | .hierarchy => .dom "HierarchyRequestError" error.message
  | .notFound => .dom "NotFoundError" error.message
  | .stale => .type error.message
  | .unended => .unended

/-- The result of a check inside a binding. -/
def orThrow {α : Type} : Except TreeError α → Except Thrown α
  | .ok a => .ok a
  | .error e => .error (throwDomError e)

variable {Base : Type} [Blitz Base]

/-- A document, an element or a fragment. -/
def canHaveChildren (base : Base) (parent : NodeId) : Bool :=
  rootNode base = parent || isElement base parent || isFragment base parent

/-- Validates one insertion against an explicit exclusion set. -/
def insertionExcludingChildren (fuel : Nat) (base : Base) (parent : NodeId) (node : NodeReference)
    (child : Option NodeReference) (excluded : List NodeId) :
    Except Thrown (NodeId × Option NodeId) := do
  refuse (child.any fun child => child.tree?.isNone)
    (.dom "NotFoundError" "attributes have no parent")
  let node ← node.tree?.elim
    (.error (.dom "HierarchyRequestError" "attributes cannot be inserted")) .ok
  let parentIsDocument : Bool := rootNode base = parent
  refuse (!canHaveChildren base parent) (.dom "HierarchyRequestError" "parent cannot have children")
  let reference := child.bind NodeReference.tree?
  orThrow (ensureNoCycle base node fuel (some parent))
  reference.elim (.ok ()) fun reference => orThrow (ensureParented base parent reference)
  refuse (rootNode base = node) (.dom "HierarchyRequestError" "a document cannot be inserted")
  let inserted := classifyInserted base node
  refuse (inserted = .other) (.dom "HierarchyRequestError" "node cannot be inserted")
  let contentModel : Except Thrown Unit :=
    if parentIsDocument then
      orThrow (ensureDocumentContentModel base parent reference excluded inserted)
    else
      refuse (inserted = .doctype)
        (.dom "HierarchyRequestError" "doctype parent is not a document")
  contentModel
  return (node, reference)

/-- The replacement `node` forms for a child: itself, or the children of a fragment. -/
def replaceTarget (base : Base) (node : NodeId) : Replacement :=
  if isFragment base node then .fragmentContents node (childIds base node) else .node node

/-- The `child` argument of `moveBefore`: the node's own place means its next sibling's. -/
def moveTarget (base : Base) (node : NodeId) : Option NodeReference → MoveTarget
  | none => .atEnd
  | some (.attr ..) => .unparented
  | some (.tree child) =>
    if child = node then (sibling base node true).elim .atEnd .before else .before child

/-- What adoption from another document leaves: detached nodes, each a new one. -/
def Adopted (base : Base) (parent : NodeId) (nodes : List NodeId) : Prop :=
  nodes.Nodup ∧ ∀ node ∈ nodes, parentOf base node = none ∧ node ∉ ancestorChain base parent

instance (base : Base) (parent : NodeId) (nodes : List NodeId) :
    Decidable (Adopted base parent nodes) :=
  inferInstanceAs (Decidable (_ ∧ _))

/-- One call of a mutation. -/
inductive TreeCall where
  | insert (parent : NodeId) (node : NodeReference) (child : Option NodeReference)
  /-- The insertion of one node adopted from another document. -/
  | insertAdopted (parent node : NodeId) (reference : Option NodeId)
  | splice (parent fragment : NodeId) (child : Option NodeReference)
  | unlink (target : NodeId)
  | replaceAll (parent : NodeId) (node : NodeReference)
  | replace (parent : NodeId) (node : NodeReference) (child : NodeId) (excluded : List NodeId)
  /-- The replacement of a child by nodes adopted from another document. -/
  | replaceAdopted (parent child : NodeId) (nodes : List NodeId)
  | move (parent : NodeId) (node : NodeId) (child : Option NodeReference)
deriving DecidableEq

/-- Makes one call, if the checks admit it. -/
def TreeCall.step (fuel : Nat) (parsed : Parsed Base) : TreeCall → Option (Parsed Base)
  | .insert parent node child =>
    match insertionExcludingChildren fuel parsed.base parent node child [] with
    | .ok (node, reference) => some (insertParsed parsed parent node reference)
    | .error _ => none
  | .insertAdopted parent node reference =>
    if canHaveChildren parsed.base parent = true ∧ Adopted parsed.base parent [node] ∧
        ∀ r ∈ reference, r ∈ childIds parsed.base parent then
      some (insertParsed parsed parent node reference)
    else none
  | .splice parent fragment child =>
    match insertionExcludingChildren fuel parsed.base parent (.tree fragment) child [] with
    | .ok (fragment, reference) =>
      if isFragment parsed.base fragment then some (spliceParsed parsed parent fragment reference)
      else none
    | .error _ => none
  | .unlink target => some (unlinkJournaled parsed target)
  | .replaceAll parent node =>
    match insertionExcludingChildren fuel parsed.base parent node none
        (childIds parsed.base parent) with
    | .ok (node, _) => some (replaceAllWithNode parsed parent node)
    | .error _ => none
  | .replace parent node child excluded =>
    match insertionExcludingChildren fuel parsed.base parent node (some (.tree child)) excluded with
    | .ok (node, _) => some (replaceParsed parsed parent child (replaceTarget parsed.base node)).1
    | .error _ => none
  | .replaceAdopted parent child nodes =>
    if canHaveChildren parsed.base parent = true ∧ Adopted parsed.base parent nodes ∧
        child ∈ childIds parsed.base parent then
      some (replaceParsed parsed parent child (.adopted nodes)).1
    else none
  | .move parent node child =>
    let target := moveTarget parsed.base node child
    match ensureCanMove parsed.base fuel parent node target with
    | .ok () =>
      if canHaveChildren parsed.base parent then some (moveParsed parsed parent node target)
      else none
    | .error _ => none

/-! ### What the checks give -/

section
variable {ε α : Type}

theorem of_refuse_ok {b : Bool} {e : ε} {u : Unit} (h : refuse b e = .ok u) : b = false := by
  cases b with
  | false => rfl
  | true => cases h

theorem of_orThrow_ok {x : Except TreeError α} {a : α} (h : orThrow x = .ok a) : x = .ok a := by
  cases x with
  | error e => cases h
  | ok b => exact congrArg _ (Except.ok.inj h)

end

variable {base : Base} {parent node old : NodeId} {fuel : Nat}

theorem not_mem_chain_of_ensureNoCycle {u : Unit}
    (h : ensureNoCycle base node fuel (some parent) = .ok u) :
    node ∉ (tree base).chain parent := by
  induction fuel generalizing parent with
  | zero => cases h
  | succ fuel ih =>
    rw [ensureNoCycle] at h
    split at h
    · cases h
    · rename_i hne
      cases hp : (tree base).parent parent with
      | none =>
        rw [Forest.chain_of_root hp, List.mem_singleton]
        exact Ne.symm hne
      | some q =>
        rw [Forest.mem_chain_of_parent hp, not_or]
        have hq : hostIncludingParent base parent = some q := by
          rw [hostIncludingParent, parentOf, hp, Option.some_or]
        rw [hq] at h
        exact ⟨Ne.symm hne, ih h⟩

/-- What an admitted insertion relies on. -/
structure Insertable (base : Base) (parent node : NodeId) (reference : Option NodeId) : Prop where
  parent_ok : canHaveChildren base parent = true
  acyclic : node ∉ (tree base).chain parent
  reference_mem : ∀ r ∈ reference, r ∈ (tree base).children parent

theorem mem_of_ensureParented {reference : NodeId} {u : Unit}
    (h : ensureParented base parent reference = .ok u) : reference ∈ (tree base).children parent := by
  have hc := of_refuse_ok h
  rw [Bool.not_eq_false', List.contains_iff_mem] at hc
  exact hc

theorem insertable_of_ok {node : NodeReference} {child : Option NodeReference}
    {excluded : List NodeId} {n : NodeId} {reference : Option NodeId}
    (h : insertionExcludingChildren fuel base parent node child excluded = .ok (n, reference)) :
    Insertable base parent n reference ∧ reference = child.bind NodeReference.tree? ∧
      node = .tree n := by
  obtain ⟨_, -, h⟩ := Except.of_bind_ok h
  obtain ⟨m, hm, h⟩ := Except.of_bind_ok h
  obtain ⟨_, hparent, h⟩ := Except.of_bind_ok h
  obtain ⟨_, hcycle, h⟩ := Except.of_bind_ok h
  obtain ⟨_, hreference, h⟩ := Except.of_bind_ok h
  obtain ⟨_, -, h⟩ := Except.of_bind_ok h
  obtain ⟨_, -, h⟩ := Except.of_bind_ok h
  obtain ⟨_, -, h⟩ := Except.of_bind_ok h
  obtain ⟨rfl, rfl⟩ := Prod.mk.inj (Except.ok.inj h)
  refine ⟨⟨?_, not_mem_chain_of_ensureNoCycle (of_orThrow_ok hcycle), ?_⟩, rfl, ?_⟩
  · simpa using of_refuse_ok hparent
  · intro r hr
    rw [hr] at hreference
    exact mem_of_ensureParented (of_orThrow_ok hreference)
  · cases node with
    | tree id => exact congrArg _ (Except.ok.inj hm)
    | attr scope id => cases hm

/-- What an admitted move relies on. -/
structure Movable (base : Base) (parent node : NodeId) (target : MoveTarget) : Prop where
  acyclic : node ∉ (tree base).chain parent
  before_mem : ∀ child, target = .before child → child ∈ (tree base).children parent
  parented : ∃ p, (tree base).parent node = some p

theorem movable_of_ok {target : MoveTarget} {u : Unit}
    (h : ensureCanMove base fuel parent node target = .ok u) : Movable base parent node target := by
  obtain ⟨_, -, h⟩ := Except.of_bind_ok h
  obtain ⟨_, -, h⟩ := Except.of_bind_ok h
  obtain ⟨_, -, h⟩ := Except.of_bind_ok h
  obtain ⟨_, hcycle, h⟩ := Except.of_bind_ok h
  obtain ⟨_, htarget, h⟩ := Except.of_bind_ok h
  obtain ⟨_, -, h⟩ := Except.of_bind_ok h
  obtain ⟨_, -, h⟩ := Except.of_bind_ok h
  obtain ⟨_, -, h⟩ := Except.of_bind_ok h
  have hp := of_refuse_ok h
  refine ⟨not_mem_chain_of_ensureNoCycle hcycle, ?_, ?_⟩
  · rintro child rfl
    exact mem_of_ensureParented htarget
  · rw [Option.isNone_eq_false_iff, Option.isSome_iff_exists] at hp
    exact hp

end TinyBrowser.Dom
