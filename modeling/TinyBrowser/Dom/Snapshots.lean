import TinyBrowser.Dom.Nodes

/-!
# Adoption, cloning and import

A snapshot holds a subtree apart from its document; what it is made of again in a document, its own
or another, is new nodes. The walk down a subtree goes through template contents, which hang from no
parent, so a snapshot is taken with `fuel`; a finite subtree has one (`importSnapshot_eq`).
-/

namespace TinyBrowser.Dom
open Lib Blitz BlitzFragments BlitzNodes

variable {Base FormState : Type}

/-! ### Snapshots -/

/-- A subtree held apart from its document. -/
inductive ImportSnapshot (FormState : Type) where
  | element (name : QualName) (attributes : List Attribute) (formState : FormState)
      (children : List (ImportSnapshot FormState))
  | text (data : Units)
  | comment (data : Units)
  | documentType (name publicId systemId : String)
  | processingInstruction (target : String) (data : Units) (attributes : List (String × String))
  | cdata (data : Units)
  | fragment (children : List (ImportSnapshot FormState))

section
variable [BlitzNodes Base FormState]

/-- The nodes whose snapshots are the children of an element's: those of the contents of a
template. -/
def snapshotSource (base : Base) (id : NodeId) (e : ElementData FormState) : List NodeId :=
  if isTemplateTag e.name then e.templateContents.elim [] (childIds base) else childIds base id

/-- The snapshot of `id`, or `some none` for a node that has none. -/
def importSnapshot (parsed : Parsed Base) :
    Nat → NodeId → Bool → Option (Option (ImportSnapshot FormState))
  | 0, _, _ => none
  | fuel + 1, id, deep =>
    let snapshotChildren (children : List NodeId) : Option (List (ImportSnapshot FormState)) :=
      if deep then (children.mapM fun child => importSnapshot parsed fuel child true).map
        List.reduceOption
      else some []
    match nodeData parsed.base id with
    | none => some none
    | some (.element e) => (snapshotChildren (snapshotSource parsed.base id e)).map fun children =>
        some (.element e.name e.attrs e.formState children)
    | some (.text _) => some (some (.text (characterData parsed id)))
    | some (.comment _) => some (some (.comment (characterData parsed id)))
    | some (.doctype name publicId systemId) => some (some (.documentType name publicId systemId))
    | some (.processingInstruction target _ attributes) =>
      some (some (.processingInstruction target (characterData parsed id) attributes))
    | some (.cdataSection _) => some (some (.cdata (characterData parsed id)))
    | some .anonymousBlock | some (.fragment _) =>
      (snapshotChildren (childIds parsed.base id)).map fun children => some (.fragment children)
    | some (.shadowRoot _) | some .document => some none

/-- Creates a comment whose data is `units`. -/
def createComment (parsed : Parsed Base) (units : Units) : Parsed Base × NodeId :=
  let (base, id) := createCommentNode parsed.base (toStringLossy units)
  (rememberCharacterData (parsed.withBase base) id units, id)

mutual

/-- Makes the nodes of a snapshot, detached. -/
def materializeImport (parsed : Parsed Base) : ImportSnapshot FormState → Parsed Base × NodeId
  | .element name attributes formState children =>
    let (base, id) := createElement parsed.base name attributes
    let base := syncSanitizedValue (adoptClonedState base id formState) id
    let (base, parent) := if isTemplateTag name then templateContents base id else (base, id)
    (materializeInto (parsed.withBase base) parent children, id)
  | .text data => createText parsed data
  | .comment data => createComment parsed data
  | .documentType name publicId systemId =>
    let (base, id) := createDoctypeNode parsed.base name publicId systemId
    (parsed.withBase base, id)
  | .processingInstruction target data attributes =>
    let (base, id) :=
      createProcessingInstruction parsed.base target (toStringLossy data) attributes
    (parsed.withBase base, id)
  | .cdata data =>
    let (base, id) := createCdataSectionNode parsed.base (toStringLossy data)
    (parsed.withBase base, id)
  | .fragment children =>
    let (base, fragment) := createFragmentNode parsed.base
    (materializeInto (parsed.withBase base) fragment children, fragment)

/-- Makes the nodes of each snapshot and appends them to `parent`. -/
def materializeInto (parsed : Parsed Base) (parent : NodeId) :
    List (ImportSnapshot FormState) → Parsed Base
  | [] => parsed
  | snapshot :: rest =>
    let (parsed, child) := materializeImport parsed snapshot
    materializeInto (parsed.withBase (appendChildren parsed.base parent [child])) parent rest

end

end

end TinyBrowser.Dom
