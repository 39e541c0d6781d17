import TinyBrowser.Dom.Started

/-!
# HTML serialization

`crates/renderer/src/dom/serialization.rs`, the HTML half, with the getters of `innerHTML` and
`outerHTML` in a document of the type `text/html`. The output is UTF-16 code units. The walk goes
through template contents, so it is made with `fuel`; a finite subtree has enough
(`serializeHtmlNode_isSome`).
-/

namespace TinyBrowser.Dom
open Lib Blitz BlitzFragments BlitzNodes

/-- The UTF-16 form of a Rust string. -/
def encodeUtf16 (s : String) : Units := Utf16.encode s.toList

/-! ### Names and escapes -/

def voidElements : List String :=
  ["area", "base", "basefont", "bgsound", "br", "col", "embed", "frame", "hr", "img", "input",
    "keygen", "link", "menuitem", "meta", "param", "source", "track", "wbr"]

def serializesAsVoid (name : QualName) : Bool :=
  name.ns == htmlNamespace && voidElements.contains name.localName

def rawTextElements : List String :=
  ["style", "script", "xmp", "iframe", "noembed", "noscript", "noframes", "plaintext"]

/-- Whether text under an element of this name is written as it is. -/
def isRawText (name : QualName) : Bool :=
  name.ns == htmlNamespace && rawTextElements.contains name.localName

def qualifiedName (name : QualName) : Units :=
  match name.qualifier.filter (· ≠ "") with
  | some qualifier => encodeUtf16 qualifier ++ encodeUtf16 ":" ++ encodeUtf16 name.localName
  | none => encodeUtf16 name.localName

def htmlElementName (name : QualName) : Units :=
  if name.ns ∈ [htmlNamespace, "http://www.w3.org/2000/svg", "http://www.w3.org/1998/Math/MathML"] then
    encodeUtf16 name.localName
  else qualifiedName name

def htmlAttributeName (name : QualName) : Units :=
  if name.ns = "" then encodeUtf16 name.localName
  else if name.ns = "http://www.w3.org/XML/1998/namespace" then
    encodeUtf16 "xml:" ++ encodeUtf16 name.localName
  else if name.ns = "http://www.w3.org/2000/xmlns/" then
    if name.localName = "xmlns" then encodeUtf16 "xmlns"
    else encodeUtf16 "xmlns:" ++ encodeUtf16 name.localName
  else if name.ns = "http://www.w3.org/1999/xlink" then
    encodeUtf16 "xlink:" ++ encodeUtf16 name.localName
  else qualifiedName name

/-- The unit, or the reference that stands for it. -/
def escapeUnit (references : List (UInt16 × String)) (unit : UInt16) : Units :=
  ((references.lookup unit).map encodeUtf16).getD [unit]

def textReferences : List (UInt16 × String) :=
  [(0x26, "&amp;"), (0x00A0, "&nbsp;"), (0x3C, "&lt;"), (0x3E, "&gt;")]

def attributeReferences : List (UInt16 × String) :=
  [(0x26, "&amp;"), (0x00A0, "&nbsp;"), (0x22, "&quot;")]

def escapedHtmlText (text : Units) : Units := text.flatMap (escapeUnit textReferences)

def escapedHtmlAttribute (value : Units) : Units := value.flatMap (escapeUnit attributeReferences)

def htmlStartTag (name : QualName) (attributes : List Attribute) : Units :=
  encodeUtf16 "<" ++ htmlElementName name ++ (attributes.flatMap fun attr =>
    encodeUtf16 " " ++ htmlAttributeName attr.name ++ encodeUtf16 "=\"" ++
      escapedHtmlAttribute attr.value ++ encodeUtf16 "\"") ++ encodeUtf16 ">"

def htmlEndTag (name : QualName) : Units := encodeUtf16 "</" ++ htmlElementName name ++ encodeUtf16 ">"

/-! ### The walk -/

variable {Base FormState : Type} [BlitzNodes Base FormState]

/-- What `write` writes for each of the nodes, one after the other. -/
def writeAll (write : NodeId → Option Units) (nodes : List NodeId) : Option Units :=
  (nodes.mapM write).map List.flatten

/-- An element, with `write` for its children. -/
def writeHtmlElement (write : NodeId → Option QualName → Option Units) (base : Base) (id : NodeId)
    (e : ElementData FormState) : Option Units :=
  if serializesAsVoid e.name then some (htmlStartTag e.name e.attrs)
  else (writeAll (fun child => write child (some e.name)) (snapshotSource base id e)).map fun inner =>
    htmlStartTag e.name e.attrs ++ inner ++ htmlEndTag e.name

def serializeHtmlNode (base : Base) : Nat → NodeId → Option QualName → Option Units
  | 0, _, _ => none
  | fuel + 1, id, parent =>
    match nodeData base id with
    | none | some .document => some []
    | some (.element e) => writeHtmlElement (serializeHtmlNode base fuel) base id e
    | some .anonymousBlock | some (.fragment _) | some (.shadowRoot _) =>
      writeAll (fun child => serializeHtmlNode base fuel child parent) (childIds base id)
    | some (.text content) | some (.cdataSection content) =>
      some (if parent.any isRawText then content else escapedHtmlText content)
    | some (.comment contents) => some (encodeUtf16 "<!--" ++ contents ++ encodeUtf16 "-->")
    | some (.doctype name _ _) => some (encodeUtf16 "<!DOCTYPE " ++ encodeUtf16 name ++ encodeUtf16 ">")
    | some (.processingInstruction target contents _) =>
      some (encodeUtf16 "<?" ++ encodeUtf16 target ++ encodeUtf16 " " ++ contents ++ encodeUtf16 "?>")

def serializeHtmlChildren (base : Base) (fuel : Nat) (parent : NodeId) : Option Units :=
  if (nodeData base parent).isNone then some []
  else writeAll (fun child => serializeHtmlNode base fuel child none) (childIds base parent)

def serializeHtmlOuter (base : Base) (fuel : Nat) (id : NodeId) (e : ElementData FormState) :
    Option Units := writeHtmlElement (serializeHtmlNode base fuel) base id e

/-- Inserts `children` before the final start of a closing tag. -/
def spliceBeforeCloseTag (shell children : Units) : Units :=
  if 0x3C ∈ shell then
    let stop := shell.length - (shell.reverse.takeWhile (· ≠ 0x3C)).length - 1
    shell.take stop ++ children ++ shell.drop stop
  else shell

/-! ### The getters -/

/-- A document with the contents of its templates that script has read, which are in documents of
their own. -/
structure MarkupDocument (Base : Type) {FormState : Type} [BlitzNodes Base FormState]
    extends Parsed Base where
  templateOwners : Dict NodeId TreeNodeId
  /-- A template element is created together with its contents. -/
  hasContents : ∀ id e, nodeData base id = some (.element e) → isTemplateTag e.name = true →
    ∃ contents, e.templateContents = some contents ∧ (nodeData base contents).isSome = true
  onlyTemplates : ∀ id owner, templateOwners.get? id = some owner →
    ∀ e, nodeData base id = some (.element e) → isTemplateTag e.name = true

abbrev MarkupStore (Base : Type) {FormState : Type} [BlitzNodes Base FormState] : Type :=
  Dict UInt32 (MarkupDocument Base)

/-- Where the children of an element are that its markup shows. -/
def templateContentsTarget (doc : MarkupDocument Base) (id : TreeNodeId) : TreeNodeId :=
  match doc.templateOwners.get? id.node with
  | some owner => owner
  | none => match nodeData doc.base id.node with
    | some (.element e) =>
      ((if isTemplateTag e.name then e.templateContents else none).map fun node =>
        ⟨id.document, node⟩).getD id
    | _ => id

/-- The children of a node of any document; those of a document that is gone are none. -/
def childrenMarkup (fuel : Nat) (store : MarkupStore Base) (id : TreeNodeId) : Except Thrown Units :=
  match store.get? id.document with
  | none => .ok []
  | some doc => (serializeHtmlChildren doc.base fuel id.node).elim (.error .unended) .ok

def innerHtml (fuel : Nat) (store : MarkupStore Base) (id : TreeNodeId) : Except Thrown Units :=
  match store.get? id.document with
  | none => .error (.type "no document")
  | some doc => match nodeData doc.base id.node with
    | none => .error (.type "stale node")
    | some (.element _) | some (.shadowRoot _) =>
      childrenMarkup fuel store (templateContentsTarget doc id)
    | some _ => .error (.type "innerHTML requires an element")

def outerHtml (fuel : Nat) (store : MarkupStore Base) (id : TreeNodeId) : Except Thrown Units :=
  match store.get? id.document with
  | none => .error (.type "no document")
  | some doc => match nodeData doc.base id.node with
    | some (.element e) => do
      let markup ← (serializeHtmlOuter doc.base fuel id.node e).elim (.error .unended) .ok
      match doc.templateOwners.get? id.node with
      | none => return markup
      | some contents => return spliceBeforeCloseTag markup (← childrenMarkup fuel store contents)
    | _ => .error (.type "outerHTML requires an element")

/-! ### Enough fuel -/

/-- The nodes that are written with `id`. -/
def writtenBelow (base : Base) (id : NodeId) : List NodeId :=
  match nodeData base id with
  | some (.element e) => if serializesAsVoid e.name then [] else snapshotSource base id e
  | some .anonymousBlock | some (.fragment _) | some (.shadowRoot _) => childIds base id
  | _ => []

theorem writeAll_isSome {write : NodeId → Option Units} {nodes : List NodeId}
    (h : ∀ n ∈ nodes, (write n).isSome = true) : (writeAll write nodes).isSome = true := by
  rw [writeAll, Option.isSome_map]
  induction nodes with
  | nil => rfl
  | cons n nodes ih =>
    obtain ⟨hn, hnodes⟩ := List.forall_mem_cons.1 h
    obtain ⟨u, hu⟩ := Option.isSome_iff_exists.1 hn
    obtain ⟨us, hus⟩ := Option.isSome_iff_exists.1 (ih hnodes)
    rw [List.mapM_cons, hu, hus]
    rfl

theorem serializeHtmlNode_isSome {base : Base} {s : Rose NodeId} (hs : s.Follows (writtenBelow base))
    {fuel : Nat} (hfuel : s.values.length ≤ fuel) (parent : Option QualName) :
    (serializeHtmlNode base fuel s.value parent).isSome = true := by
  induction s using Rose.induction generalizing fuel parent with
  | node n ts ih =>
    obtain ⟨hkids, hall⟩ := Rose.follows_node.1 hs
    obtain ⟨fuel, rfl⟩ : ∃ m, fuel = m + 1 :=
      ⟨fuel - 1, by rw [Rose.values_node, List.length_cons] at hfuel; omega⟩
    have hbelow : ∀ parent, ∀ c ∈ writtenBelow base n,
        (serializeHtmlNode base fuel c parent).isSome = true := fun parent c hc => by
      rw [← hkids] at hc
      obtain ⟨t, ht, rfl⟩ := List.mem_map.1 hc
      exact ih t ht (hall t ht)
        (Nat.le_of_lt_succ (Nat.lt_of_lt_of_le (Rose.length_values_lt ht) hfuel)) parent
    show (serializeHtmlNode base (fuel + 1) n parent).isSome = true
    rw [serializeHtmlNode]
    rw [writtenBelow] at hbelow
    cases hd : nodeData base n with
    | none => rfl
    | some d =>
      rw [hd] at hbelow
      cases d with
      | element e =>
        dsimp only at hbelow ⊢
        rw [writeHtmlElement]
        split_ifs at hbelow ⊢ with hvoid
        · rfl
        · rw [Option.isSome_map]
          exact writeAll_isSome (hbelow (some e.name))
      | anonymousBlock | fragment | shadowRoot => exact writeAll_isSome (hbelow parent)
      | document | text | comment | doctype | processingInstruction | cdataSection => rfl

end TinyBrowser.Dom
