import TinyBrowser.Dom.Insertion
import TinyBrowser.Lib.Rose

/-!
# Nodes in full

`NodeData` has what the tree mutations look at. The copying of nodes also reads and creates names,
attributes, control states and template contents: `FullNodeData` has these, `BlitzNodes` is what the
renderer uses of Blitz for them, and `BlitzNodes.Laws` says that a created node is a new one which
holds what it was created with.
-/

namespace TinyBrowser.Dom
open Lib Blitz BlitzFragments

structure QualName where
  qualifier : Option String
  ns : String
  localName : String
deriving DecidableEq

/-- An attribute as the tree has it; its value is a Rust string. -/
structure Attribute where
  name : QualName
  value : Units
deriving DecidableEq

structure ElementData (FormState : Type) where
  name : QualName
  attrs : List Attribute
  formState : FormState
  templateContents : Option NodeId

inductive FullNodeData (FormState : Type) where
  | document
  | element (data : ElementData FormState)
  | anonymousBlock
  | fragment (host : Option NodeId)
  | shadowRoot (host : NodeId)
  | text (content : Units)
  | comment (contents : Units)
  | processingInstruction (target : String) (contents : Units) (attributes : List (String × String))
  | cdataSection (contents : Units)
  | doctype (name publicId systemId : String)

namespace FullNodeData
variable {FormState : Type}

/-- What the tree mutations look at. -/
def kind : FullNodeData FormState → NodeData
  | document => .document
  | element _ => .element
  | anonymousBlock => .anonymousBlock
  | fragment host => .fragment host
  | shadowRoot host => .shadowRoot host
  | text content => .text content
  | comment contents => .comment contents
  | processingInstruction _ contents _ => .processingInstruction contents
  | cdataSection contents => .cdataSection contents
  | doctype .. => .doctype

end FullNodeData

def htmlNamespace : String := "http://www.w3.org/1999/xhtml"

/-- Whether `name` is the HTML `template` tag: the only element with template contents. -/
def isTemplateTag (name : QualName) : Bool :=
  name.ns == htmlNamespace && name.localName == "template"

/-- What the renderer uses of a Blitz document to copy nodes. A Blitz function that changes the
document and returns a node gives both. -/
class BlitzNodes (Base : Type) (FormState : outParam Type) extends BlitzFragments Base where
  nodeData : Base → NodeId → Option (FullNodeData FormState)
  createElement : Base → QualName → List Attribute → Base × NodeId
  createCommentNode : Base → Units → Base × NodeId
  createDoctypeNode : Base → String → String → String → Base × NodeId
  createProcessingInstruction : Base → String → Units → List (String × String) → Base × NodeId
  createCdataSectionNode : Base → Units → Base × NodeId
  /-- The contents fragment of a template element, created when it is missing. -/
  templateContents : Base → NodeId → Base × NodeId
  /-- Gives a new element the control state of the one it is a copy of. -/
  adoptClonedState : Base → NodeId → FormState → Base
  /-- Runs the value sanitization of an input: `sync_sanitized_value` of the renderer. -/
  syncSanitizedValue : Base → NodeId → Base
  /-- What the two leave of a control state, in an element of this name with these attributes. -/
  settled : QualName → List Attribute → FormState → FormState

open BlitzNodes

variable {Base FormState : Type}

/-- `out` is `base` with a new node that stands alone. -/
structure Created [BlitzNodes Base FormState] (base : Base) (out : Base × NodeId)
    (d : FullNodeData FormState) : Prop where
  fresh : nodeData base out.2 = none
  parent_eq : (tree base).parent out.2 = none
  children_eq : (tree base).children out.2 = []
  tree_eq : tree out.1 = tree base
  nodeData_eq : nodeData out.1 = Function.update (nodeData base) out.2 (some d)

structure BlitzNodes.Laws (Base : Type) {FormState : Type} [BlitzNodes Base FormState] : Prop
    extends toFragmentLaws : BlitzFragments.Laws Base where
  data_eq : ∀ (base : Base) n, data base n = (nodeData base n).map FullNodeData.kind
  nodeData_appendChildren : ∀ (base : Base) p cs,
    nodeData (appendChildren base p cs) = nodeData base
  nodeData_removeNode : ∀ (base : Base) c, nodeData (removeNode base c) = nodeData base
  createElement_plain : ∀ (base : Base) name attrs, isTemplateTag name = false →
    ∃ formState, Created base (createElement base name attrs)
      (.element ⟨name, attrs, formState, none⟩)
  /-- A template element is created together with its contents. -/
  createElement_template : ∀ (base : Base) name attrs, isTemplateTag name = true →
    ∃ mid fragment host formState, Created base (mid, fragment) (.fragment host) ∧
      Created mid (createElement base name attrs)
        (.element ⟨name, attrs, formState, some fragment⟩)
  created_textNode : ∀ (base : Base) text,
    Created base (createTextNode base text) (.text text)
  created_fragmentNode : ∀ base : Base, Created base (createFragmentNode base) (.fragment none)
  created_commentNode : ∀ (base : Base) text,
    Created base (createCommentNode base text) (.comment text)
  created_doctypeNode : ∀ (base : Base) name publicId systemId,
    Created base (createDoctypeNode base name publicId systemId) (.doctype name publicId systemId)
  created_processingInstruction : ∀ (base : Base) target text attributes,
    Created base (createProcessingInstruction base target text attributes)
      (.processingInstruction target text attributes)
  created_cdataSectionNode : ∀ (base : Base) text,
    Created base (createCdataSectionNode base text) (.cdataSection text)
  templateContents_of_some : ∀ (base : Base) n e fragment,
    nodeData base n = some (.element e) → e.templateContents = some fragment →
    templateContents base n = (base, fragment)
  tree_settle : ∀ (base : Base) n state,
    tree (syncSanitizedValue (adoptClonedState base n state) n) = tree base
  nodeData_settle : ∀ (base : Base) n e state, nodeData base n = some (.element e) →
    nodeData (syncSanitizedValue (adoptClonedState base n state) n) =
      Function.update (nodeData base) n
        (some (.element { e with formState := settled Base e.name e.attrs state }))

section
variable [BlitzNodes Base FormState]

/-- A node's children for a walk over a subtree: a template's contents when it has some, otherwise
its own children. -/
def childrenForWalk (base : Base) (id : NodeId) : List NodeId :=
  match nodeData base id with
  | some (.element e) =>
    match (if isTemplateTag e.name then e.templateContents else none) with
    | some fragment => childIds base fragment
    | none => childIds base id
  | _ => childIds base id

end

end TinyBrowser.Dom
