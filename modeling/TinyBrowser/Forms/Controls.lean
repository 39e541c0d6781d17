import Mathlib.Data.Nat.Notation
import TinyBrowser.Lib.Lines
import TinyBrowser.Lib.Preorder

/-!
# Form controls

A document as the form algorithms read it: the tree, what each node is, and what Blitz answers. A
loop of the source that follows the parents of a node is a recursion over `Parsed.ancestors`, and a
loop with a stack of nodes a `Parsed.walk`.
-/

namespace TinyBrowser.Forms
open Lib Text

abbrev BlitzId := Nat

structure NodeId where
  document : Nat
  node : BlitzId
deriving DecidableEq

structure Attribute where
  ns : String
  localName : String
  value : Text

/-- Element data with the parts of Blitz's form state that the form algorithms never write. -/
structure ElementData where
  ns : String
  localName : String
  attrs : List Attribute
  value : Text
  dirtyValue : Bool
  checkedness : Bool

/-- A node of the tree; the boxes of the layout are not in it. -/
inductive NodeData where
  | element (element : ElementData)
  | text (content : Text)
  | cdataSection (contents : Text)
  | shadowRoot (host : BlitzId)
  | other

def NodeData.downcastElement : NodeData → Option ElementData
  | element e => some e
  | _ => none

structure Parsed where
  id : Nat
  tree : Forest BlitzId
  data : BlitzId → Option NodeData
  nodes : List BlitzId
  mem_nodes : ∀ n, (data n).isSome = true → n ∈ nodes
  data_of_parent : ∀ c p, tree.parent c = some p → (data c).isSome = true
  rootNode : BlitzId
  /-- Blitz's `disabled_by_fieldset`. -/
  disabledByFieldset : BlitzId → Bool

namespace Parsed
variable (doc : Parsed)

/-! ### Links -/

/-- The parents that a cursor visits above a node. -/
def ancestors (n : BlitzId) : List BlitzId := Lib.ancestors doc.tree.parent doc.nodes.length n

/-- The nodes taken from a stack. -/
def walk (kids : BlitzId → List BlitzId) (stack : List BlitzId) : List BlitzId :=
  Lib.walk kids (doc.nodes.length + 1) stack

/-- The last parent of a node, or the node. -/
def rootAbove (n : BlitzId) : BlitzId := (doc.ancestors n).getLastD n

def element (n : BlitzId) : Option ElementData := (doc.data n).bind NodeData.downcastElement

def shadowIncludingParent (n : BlitzId) : Option BlitzId :=
  match doc.tree.parent n with
  | some parent => some parent
  | none => match doc.data n with
    | some (.shadowRoot host) => some host
    | _ => none

def shadowIncludingRoot (n : BlitzId) : BlitzId :=
  (Lib.ancestors doc.shadowIncludingParent doc.nodes.length n).getLastD n

def isConnected (n : BlitzId) : Bool := doc.shadowIncludingRoot n == doc.rootNode

theorem mem_nodes_of_parent {c p : BlitzId} (h : doc.tree.parent c = some p) : c ∈ doc.nodes :=
  doc.mem_nodes c (doc.data_of_parent c p h)

theorem cons_ancestors (n : BlitzId) : n :: doc.ancestors n = doc.tree.chain n :=
  Forest.ancestors_eq (Forest.length_chain_le fun _ _ => doc.mem_nodes_of_parent)

theorem ancestors_of_root {n : BlitzId} (h : doc.tree.parent n = none) : doc.ancestors n = [] := by
  have hchain := doc.cons_ancestors n
  rw [Forest.chain_of_root h, List.cons.injEq] at hchain
  exact hchain.2

theorem ancestors_of_parent {n p : BlitzId} (h : doc.tree.parent n = some p) :
    doc.ancestors n = p :: doc.ancestors p := by
  have hchain := doc.cons_ancestors n
  rw [Forest.chain_of_parent h, List.cons.injEq] at hchain
  rw [hchain.2, doc.cons_ancestors p]

theorem rootAbove_eq (n : BlitzId) : doc.rootAbove n = doc.tree.top n := by
  rw [rootAbove, ← List.getLast_eq_getLastD (List.cons_ne_nil _ _), Forest.top]
  simp only [doc.cons_ancestors]

theorem length_preorder_le (n : BlitzId) :
    (doc.tree.preorder n).length ≤ doc.nodes.length + 1 :=
  Forest.length_preorder_le fun _ _ => doc.mem_nodes_of_parent

theorem length_below_le (n : BlitzId) :
    ((doc.tree.children n).flatMap doc.tree.preorder).length ≤ doc.nodes.length + 1 := by
  have hle := doc.length_preorder_le n
  rw [Forest.preorder_eq, List.length_cons] at hle
  omega

theorem walk_children (n : BlitzId) : doc.walk doc.tree.children [n] = doc.tree.preorder n := by
  rw [walk, Forest.walk_eq, List.flatMap_singleton]
  rw [List.flatMap_singleton]
  exact doc.length_preorder_le n

/-! ### Names and attributes -/

def htmlNamespace : String := "http://www.w3.org/1999/xhtml"

def isHtmlElement (n : BlitzId) (localName : String) : Bool :=
  match doc.element n with
  | some e => e.ns == htmlNamespace && e.localName == localName
  | none => false

/-- The value of the attribute named `name`, in any namespace. -/
def attr (n : BlitzId) (name : String) : Option Text :=
  (doc.element n).bind fun e => (e.attrs.find? (·.localName == name)).map (·.value)

def attrNoNamespace (n : BlitzId) (name : String) : Option Text :=
  (doc.element n).bind fun e =>
    (e.attrs.find? fun a => a.ns == "" && a.localName == name).map (·.value)

def firstElementWithId (id : Text) : Option NodeId :=
  if id = [] then none
  else ((doc.walk doc.tree.children [doc.rootNode]).find? fun n => match doc.element n with
    | some e => e.attrs.any fun a => a.localName == "id" && a.ns == "" && a.value == id
    | none => false).map fun n => ⟨doc.id, n⟩

/-- The form owner as it is now: a `form` attribute on a connected element names it, otherwise it is
the nearest ancestor `form`. -/
def formOwnerOf (n : BlitzId) : Option NodeId :=
  match doc.attr n "form", doc.isConnected n with
  | some formId, true => (doc.firstElementWithId formId).filter fun found =>
      doc.isHtmlElement found.node "form"
  | _, _ => ((doc.ancestors n).find? (doc.isHtmlElement · "form")).map fun p => ⟨doc.id, p⟩

/-! ### Disabled controls -/

/-- The ancestors' part of `isDisabled` for an option. -/
def disabledAbove : List BlitzId → Bool
  | [] => false
  | p :: above => match doc.element p with
    | none => disabledAbove above
    | some e =>
      if e.ns ≠ htmlNamespace then disabledAbove above
      else if (e.localName = "optgroup" ∨ e.localName = "select") ∧ (doc.attr p "disabled").isSome then
        true
      else if e.localName = "select" then false
      else disabledAbove above

/-- Whether a node is disabled: its own `disabled` attribute, a `fieldset`, or for an `option` an
ancestor `optgroup` or `select`. -/
def isDisabled (n : BlitzId) : Bool :=
  if (doc.attr n "disabled").isSome || doc.disabledByFieldset n then true
  else if !doc.isHtmlElement n "option" then false
  else doc.disabledAbove (doc.ancestors n)

def hasDatalistAncestor (n : BlitzId) : Bool := (doc.ancestors n).any (doc.isHtmlElement · "datalist")

end Parsed

/-! ### Input types -/

inductive InputType where
  | hidden | text | search | tel | url | email | password | date | month | week | time
  | datetimeLocal | number | range | color | checkbox | radio | file | submit | image | reset
  | button
deriving DecidableEq

namespace InputType

/-- The keyword of each state but Text, which any other value has. -/
def keywords : List (String × InputType) :=
  [("hidden", hidden), ("search", search), ("tel", tel), ("url", url), ("email", email),
    ("password", password), ("date", date), ("month", month), ("week", week), ("time", time),
    ("datetime-local", datetimeLocal), ("number", number), ("range", range), ("color", color),
    ("checkbox", checkbox), ("radio", radio), ("file", file), ("submit", submit), ("image", image),
    ("reset", reset), ("button", button)]

def fromAttribute : Option Text → InputType
  | none => text
  | some value => match keywords.find? fun k => eqIgnoreAsciiCase value k.1.toList with
    | some k => k.2
    | none => text

end InputType

inductive ValueMode where
  | current | default | defaultOn | filename

def InputType.valueMode : InputType → ValueMode
  | checkbox | radio => .defaultOn
  | hidden | submit | image | reset | button => .default
  | file => .filename
  | _ => .current

namespace Parsed
variable (doc : Parsed)

def inputType (n : BlitzId) : Option InputType :=
  if doc.isHtmlElement n "input" then some (.fromAttribute (doc.attr n "type")) else none

def currentValue (n : BlitzId) : Text :=
  match doc.inputType n with
  | none => []
  | some kind => match kind.valueMode with
    | .current => match doc.element n with
      | some e => e.value
      | none => []
    | .default => (doc.attr n "value").getD []
    | .defaultOn => (doc.attr n "value").getD "on".toList
    | .filename => []

end Parsed

/-! ### Text of a control -/

def parseInteger (value : Text) : Option Int :=
  let value := value.dropWhile isAsciiWhitespace
  let (negative, value) := match value with
    | '-' :: rest => (true, rest)
    | '+' :: rest => (false, rest)
    | rest => (false, rest)
  let digits := value.takeWhile isAsciiDigit
  if digits = [] then none
  -- The value leaves `i64` only after it has left `i32`.
  else
    let result : Int := if negative then -(Text.digitsValue digits : Int) else Text.digitsValue digits
    if -2147483648 ≤ result ∧ result ≤ 2147483647 then some result else none

def parseNonNegativeInteger (value : Text) : Option Nat :=
  match parseInteger value with
  | some parsed => if 0 ≤ parsed then some parsed.toNat else none
  | none => none

def parsePositive (value : Option Text) : Option Nat :=
  (value.bind parseNonNegativeInteger).filter (· ≠ 0)

def wrapIsHard (wrap : Option Text) : Bool :=
  match wrap with
  | some wrap => eqIgnoreAsciiCase (trim wrap) "hard".toList
  | none => false

/-- The pieces of a line, of `cols` characters each but the last. -/
def linePieces (cols : Nat) : Nat → Text → List Text
  | 0, _ => []
  | _, [] => []
  | fuel + 1, line => line.take cols :: linePieces cols fuel (line.drop cols)

def hardWrap (value : Text) (cols : Nat) : Text :=
  ['\n'].intercalate <| (split '\n' value).map fun line =>
    ['\n'].intercalate (linePieces (max cols 1) line.length line)

def normalizeNewlines : Text → Text
  | [] => []
  | '\r' :: '\n' :: rest => '\n' :: normalizeNewlines rest
  | c :: rest => (if c = '\r' then '\n' else c) :: normalizeNewlines rest

/-- The text so far and whether a space comes before the next character of it. -/
def collapseStep : Text × Bool → Char → Text × Bool
  | (result, pendingSpace), c =>
    if isAsciiWhitespace c then (result, !result.isEmpty)
    else (result ++ (if pendingSpace then [' ', c] else [c]), false)

def collapseWhitespace (text : Text) : Text := (text.foldl collapseStep ([], false)).1

/-- The first strong directional character: Hebrew and Arabic blocks are right to left. -/
def firstStrongIsRtl (isAlphabetic : Char → Bool) : Text → Bool
  | [] => false
  | c :: rest =>
    if ('A' ≤ c ∧ c ≤ 'Z') ∨ ('a' ≤ c ∧ c ≤ 'z') then false
    else if (0x0590 ≤ c.toNat ∧ c.toNat ≤ 0x08FF) ∨ (0xFB1D ≤ c.toNat ∧ c.toNat ≤ 0xFDFF) ∨
        (0xFE70 ≤ c.toNat ∧ c.toNat ≤ 0xFEFF) then true
    else if isAlphabetic c then false
    else firstStrongIsRtl isAlphabetic rest

namespace Parsed
variable (doc : Parsed)

def childTextContent (n : BlitzId) : Text :=
  (doc.tree.children n).flatMap fun child => match doc.data child with
    | some (.text content) => content
    | some (.cdataSection contents) => contents
    | _ => []

def textareaApiValue (n : BlitzId) : Text :=
  normalizeNewlines <| match doc.element n with
    | some e => if e.dirtyValue then e.value else doc.childTextContent n
    | none => doc.childTextContent n

end Parsed

end TinyBrowser.Forms
