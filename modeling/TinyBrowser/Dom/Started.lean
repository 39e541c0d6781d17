import TinyBrowser.Dom.Snapshots
import TinyBrowser.Dom.Calls
import Mathlib.Data.Finset.Insert

/-!
# Scripts that have started, and copies of them

A document keeps which of its scripts have started, in a table beside its tree. A copy is new nodes,
so the flag has to be carried over to it: `copyScriptStarted` and `adoptAcrossStore` do so with a
walk over the original and the copy in lockstep; the deep `cloneNode` has no such walk.
-/

namespace TinyBrowser.Dom
open Lib Blitz BlitzFragments BlitzNodes

variable {Base FormState : Type}

/-- A document with its scripts that have started. -/
structure Scripted (Base : Type) extends Parsed Base where
  startedScripts : Finset NodeId

namespace Scripted

def scriptAlreadyStarted (doc : Scripted Base) (id : NodeId) : Bool := id ∈ doc.startedScripts

def markScriptStarted (doc : Scripted Base) (id : NodeId) : Scripted Base :=
  { doc with startedScripts := insert id doc.startedScripts }

/-- Copies the flag of one node onto another. -/
def copyFlag (doc : Scripted Base) (pair : NodeId × NodeId) : Scripted Base :=
  if doc.scriptAlreadyStarted pair.1 then doc.markScriptStarted pair.2 else doc

/-- Collects the second node if the first one has the flag. -/
def collectFlagged (doc : Scripted Base) (toMark : List NodeId) (pair : NodeId × NodeId) :
    List NodeId :=
  if doc.scriptAlreadyStarted pair.1 then toMark ++ [pair.2] else toMark

def withParsed (doc : Scripted Base) (parsed : Parsed Base) : Scripted Base :=
  { doc with toParsed := parsed }

@[simp] theorem toParsed_withParsed (doc : Scripted Base) (parsed : Parsed Base) :
    (doc.withParsed parsed).toParsed = parsed := rfl

@[simp] theorem startedScripts_withParsed (doc : Scripted Base) (parsed : Parsed Base) :
    (doc.withParsed parsed).startedScripts = doc.startedScripts := rfl

end Scripted

/-- A node of one of the documents. -/
structure TreeNodeId where
  document : UInt32
  node : NodeId
deriving DecidableEq

/-- A node of the tree of any document, or an attribute. -/
inductive TreeNodeReference where
  | tree (id : TreeNodeId)
  | attr (scope : TreeNodeId) (id : Nat)
deriving DecidableEq

/-- Every document that the renderer holds, by its id. -/
structure DocumentStore (Base : Type) where
  documents : Dict UInt32 (Scripted Base)
  nextId : UInt32

namespace DocumentStore

def get (store : DocumentStore Base) (id : UInt32) : Option (Scripted Base) :=
  store.documents.get? id

def set (store : DocumentStore Base) (id : UInt32) (doc : Scripted Base) : DocumentStore Base :=
  { store with documents := store.documents.insert id doc }

/-- Stores a new document under the next id. -/
def insert (store : DocumentStore Base) (doc : Scripted Base) : DocumentStore Base × UInt32 :=
  let id := store.nextId + 1
  ({ documents := store.documents.insert id doc, nextId := id }, id)

end DocumentStore

section
variable [BlitzNodes Base FormState]

/-! ### The walk -/

/-- Child pairs of `source` and `target` for a walk over corresponding trees. -/
def lockstepChildren (sourceBase targetBase : Base) (pair : NodeId × NodeId) :
    List (NodeId × NodeId) :=
  (childrenForWalk sourceBase pair.1).zip (childrenForWalk targetBase pair.2)

/-- Copies the flag of `source` onto `target`, then walks both subtrees in lockstep. -/
def copyScriptStarted (fuel : Nat) (doc : Scripted Base) (source target : NodeId) :
    Except TreeError (Scripted Base) :=
  if doc.startedScripts = ∅ then .ok doc
  else (sweep (lockstepChildren doc.base doc.base) Scripted.copyFlag fuel [(source, target)] doc).elim
    (.error .unended) .ok

/-! ### The copies -/

/-- The snapshot of `id`; a node that has none is refused with `error`. -/
def snapshotOr {ε : Type} (unended error : ε) (fuel : Nat) (parsed : Parsed Base) (id : NodeId)
    (deep : Bool) : Except ε (ImportSnapshot FormState) :=
  match importSnapshot parsed fuel id deep with
  | none => .error unended
  | some none => .error error
  | some (some snapshot) => .ok snapshot

/-- Clones a node within its document. A deep clone is made by `deepCloneNode`, which is Blitz's. -/
def cloneWithinDocument (deepCloneNode : Base → NodeId → Base × NodeId) (fuel : Nat)
    (doc : Scripted Base) (id : NodeId) (deep : Bool) :
    Except TreeError (Scripted Base × NodeId) :=
  if deep then do
    let (base, cloned) := deepCloneNode doc.base id
    let doc ← copyScriptStarted fuel (doc.withParsed (doc.withBase base)) id cloned
    return (doc, cloned)
  else do
    let snapshot ← snapshotOr .unended .hierarchy fuel doc.toParsed id false
    let (parsed, fresh) := materializeImport doc.toParsed snapshot
    let doc ← copyScriptStarted fuel (doc.withParsed parsed) id fresh
    return (doc, fresh)

/-- Detaches `id` from its parent for adoption, recording the removal. -/
def detachForAdopt (parsed : Parsed Base) (id : NodeId) : Except TreeError (Parsed Base) :=
  match parentOf parsed.base id with
  | none => .ok parsed
  | some parent =>
    match childIndex parsed.base parent id with
    | none => .error .notFound
    | some position =>
      let kids := childIds parsed.base parent
      let previous := if 0 < position then kids[position - 1]? else none
      let next := kids[position + 1]?
      let parsed := if parsed.side.ranges.isEmpty then parsed
        else parsed.withRanges
          (adjustForRemove parsed.base parsed.side.ranges parent position id)
      .ok ((parsed.withBase (removeNode parsed.base id)).record
        (.childList parent [] [id] previous next))

/-- Adopts `node` into the document of `parent`. -/
def adoptAcrossStore (fuel : Nat) (store : DocumentStore Base) (parent node : TreeNodeId) :
    Except TreeError (DocumentStore Base × TreeNodeId) :=
  if node.document = parent.document then .ok (store, node)
  else do
    let source ← (store.get node.document).elim (.error .hierarchy) .ok
    let snapshot ← snapshotOr .unended .hierarchy fuel source.toParsed node.node true
    let detached ← detachForAdopt source.toParsed node.node
    let source := source.withParsed detached
    let store := store.set node.document source
    let target ← (store.get parent.document).elim (.error .stale) .ok
    let (parsed, fresh) := materializeImport target.toParsed snapshot
    let target := target.withParsed parsed
    let toMark ← (sweep (lockstepChildren source.base target.base) source.collectFlagged fuel
      [(node.node, fresh)] []).elim (.error .unended) .ok
    let target := toMark.foldl Scripted.markScriptStarted target
    return (store.set parent.document target, ⟨parent.document, fresh⟩)

/-! ### `cloneNode` -/

/-- Clones a document into a new one, which starts as `blank`. -/
def cloneDocument (blank : Base) (fuel : Nat) (store : DocumentStore Base) (doc : Scripted Base)
    (deep : Bool) : Except Thrown (DocumentStore Base × TreeNodeId) := do
  let snapshots ←
    if deep then
      ((childIds doc.base (rootNode doc.base)).mapM fun kid =>
        importSnapshot doc.toParsed fuel kid true).elim (.error .unended)
          fun snapshots => .ok snapshots.reduceOption
    else .ok []
  let parsed : Parsed Base := ⟨blank, ⟨[], 0, false, .ofList [], .empty⟩⟩
  let root := rootNode blank
  let parsed := materializeInto parsed root snapshots
  let (store, id) := store.insert ⟨parsed, ∅⟩
  return (store, ⟨id, root⟩)

def nodeIsShadowRoot (base : Base) (id : NodeId) : Bool :=
  match data base id with
  | some (.shadowRoot _) => true
  | _ => false

/-- `Node.cloneNode` of script. -/
def cloneNode (deepCloneNode : Base → NodeId → Base × NodeId) (blank : Base) (fuel : Nat)
    (store : DocumentStore Base) (id : TreeNodeId) (deep : Bool) :
    Except Thrown (DocumentStore Base × TreeNodeId) :=
  match store.get id.document with
  | none => .error (.type "no document")
  | some doc =>
    if id.node = rootNode doc.base then cloneDocument blank fuel store doc deep
    else do
      refuse (nodeIsShadowRoot doc.base id.node)
        (.dom "NotSupportedError" "cannot clone a shadow root")
      if deep then
        let snapshot ← snapshotOr .unended (.type "stale node") fuel doc.toParsed id.node deep
        let (parsed, clone) := materializeImport doc.toParsed snapshot
        return (store.set id.document (doc.withParsed parsed), ⟨id.document, clone⟩)
      else
        let (doc, clone) ← orThrow (cloneWithinDocument deepCloneNode fuel doc id.node deep)
        return (store.set id.document doc, ⟨id.document, clone⟩)

/-! ### The calls -/

/-- A call that copies a node. -/
inductive CopyCall where
  | cloneNode (id : TreeNodeId) (deep : Bool)
  | cloneWithinDocument (id : TreeNodeId) (deep : Bool)
  | adoptAcrossStore (parent node : TreeNodeId)
deriving DecidableEq

namespace CopyCall

/-- The node that is copied. -/
def original : CopyCall → TreeNodeId
  | cloneNode id _ | cloneWithinDocument id _ => id
  | adoptAcrossStore _ node => node

/-- Makes the call; gives the copy. -/
def step (deepCloneNode : Base → NodeId → Base × NodeId) (blank : Base) (fuel : Nat)
    (store : DocumentStore Base) : CopyCall → Except Thrown (DocumentStore Base × TreeNodeId)
  | cloneNode id deep => Dom.cloneNode deepCloneNode blank fuel store id deep
  | cloneWithinDocument id deep =>
    match store.get id.document with
    | none => .error (.type "stale range")
    | some doc => do
      let (doc, clone) ← orThrow (Dom.cloneWithinDocument deepCloneNode fuel doc id.node deep)
      return (store.set id.document doc, ⟨id.document, clone⟩)
  | adoptAcrossStore parent node => orThrow (Dom.adoptAcrossStore fuel store parent node)

end CopyCall

end

end TinyBrowser.Dom
