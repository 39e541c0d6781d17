import TinyBrowser.Forms.Options

/-!
# The entry list of a form

`collectEntries` is the source's `collect_pending_entries`, with the control each entry comes from
beside it. The walk over the form's tree takes the controls and pushes the entries of the hidden
`_charset_` inputs; the other controls contribute in a second loop, in which a `select` may write
the selectedness of its options.
-/

namespace TinyBrowser.Forms
open Lib Text

inductive PendingEntry where
  | text (name value : Text)
  | files (name : Text) (control : NodeId)
deriving DecidableEq

inductive ControlKind where
  | input | textarea | select | button
deriving DecidableEq

def ControlKind.localName : ControlKind → String
  | input => "input"
  | textarea => "textarea"
  | select => "select"
  | button => "button"

/-- The submittable element with a local name. -/
def ControlKind.of (localName : String) : Option ControlKind :=
  [input, textarea, select, button].find? (·.localName == localName)

structure Control where
  node : BlitzId
  kind : ControlKind
  name : Text
deriving DecidableEq

namespace Parsed
variable (isAlphabetic : Char → Bool) (doc : Parsed)

/-! ### One control -/

/-- The `dir` attribute of the nearest node that has one, where `auto` asks the value. -/
def directionalityOf (value : Text) : List BlitzId → Text
  | [] => "ltr".toList
  | n :: above => match doc.attr n "dir" with
    | none => directionalityOf value above
    | some dir =>
      let dir := toAsciiLowercase (trim dir)
      if dir = "rtl".toList ∨ dir = "ltr".toList then dir
      else if dir = "auto".toList then
        if firstStrongIsRtl isAlphabetic value then "rtl".toList else "ltr".toList
      else directionalityOf value above

def directionality (n : BlitzId) (value : Text) : Text :=
  doc.directionalityOf isAlphabetic value (n :: doc.ancestors n)

/-- The value whose directionality the `dirname` entry of a control gives. -/
def dirnameValue (n : BlitzId) : ControlKind → Option Text
  | .textarea => some (doc.textareaApiValue n)
  | .input => match (doc.inputType n).getD .text with
    | .hidden | .text | .search | .tel | .url | .email | .password | .submit =>
      some (doc.currentValue n)
    | _ => none
  | _ => none

def dirnameEntry (c : Control) : Option PendingEntry :=
  match doc.attr c.node "dirname" with
  | none => none
  | some dirname =>
    if dirname = [] then none
    else (doc.dirnameValue c.node c.kind).map fun value =>
      .text dirname (doc.directionality isAlphabetic c.node value)

def textareaEntries (c : Control) : List PendingEntry :=
  let value := doc.textareaApiValue c.node
  [.text c.name (if wrapIsHard (doc.attr c.node "wrap") then
    hardWrap value ((parsePositive (doc.attr c.node "cols")).getD 20) else value)]

def buttonEntries (c : Control) (isSubmitter : Bool) : List PendingEntry :=
  if isSubmitter then [.text c.name ((doc.attr c.node "value").getD [])] else []

def inputEntries (c : Control) (isSubmitter : Bool) : List PendingEntry :=
  match (doc.inputType c.node).getD .text with
  | .reset | .button => []
  | .submit => if isSubmitter then [.text c.name (doc.currentValue c.node)] else []
  | .image =>
    if isSubmitter then
      let qualifier := if c.name = [] then [] else c.name ++ ['.']
      [.text (qualifier ++ ['x']) ['0'], .text (qualifier ++ ['y']) ['0']]
    else []
  | .file => [.files c.name ⟨doc.id, c.node⟩]
  | .checkbox | .radio =>
    match doc.element c.node with
    | some e => if e.checkedness then [.text c.name (doc.currentValue c.node)] else []
    | none => []
  | _ => [.text c.name (doc.currentValue c.node)]

/-- With `multiple` an entry for each selected option that is not disabled, without it one entry with
the select's value. -/
def selectEntries (σ : Selection) (c : Control) : List PendingEntry × Selection :=
  if (doc.attr c.node "multiple").isSome then
    let (selected, σ) := doc.effectiveSelectedOptions σ c.node
    ((selected.filter fun o => !doc.isDisabled o).map fun o => .text c.name (doc.optionValue o), σ)
  else
    let (value, σ) := doc.selectValue σ c.node
    ([.text c.name value], σ)

/-- One named, enabled control's contribution. -/
def pendingEntry (σ : Selection) (c : Control) (isSubmitter : Bool) :
    List PendingEntry × Selection :=
  let (entries, σ) := match c.kind with
    | .textarea => (doc.textareaEntries c, σ)
    | .button => (doc.buttonEntries c isSubmitter, σ)
    | .input => (doc.inputEntries c isSubmitter, σ)
    | .select => doc.selectEntries σ c
  (if entries = [] then [] else entries ++ (doc.dirnameEntry isAlphabetic c).toList, σ)

/-! ### All controls -/

def isSubmitter (submitter : Option NodeId) (n : BlitzId) : Bool := submitter == some ⟨doc.id, n⟩

/-- The control at a node that the entry list asks for a contribution: the form is its owner, it has
a name or is an image that submits, and neither is it disabled nor is it in a `datalist`. -/
def submittable (form : NodeId) (submitter : Option NodeId) (n : BlitzId) : Option Control :=
  match doc.element n with
  | none => none
  | some e =>
    if e.ns ≠ htmlNamespace then none
    else match ControlKind.of e.localName with
      | none => none
      | some kind =>
        if doc.formOwnerOf n ≠ some form then none
        else
          let name := (doc.attr n "name").getD []
          let isImageSubmitter := doc.isSubmitter submitter n && decide (kind = .input) &&
            decide (doc.inputType n = some .image)
          if (name.isEmpty && !isImageSubmitter) || doc.isDisabled n || doc.hasDatalistAncestor n then
            none
          else some ⟨n, kind, name⟩

/-- A hidden input named `_charset_` carries the encoding name. -/
def isCharset (c : Control) : Bool :=
  decide (c.kind = .input) && decide (doc.inputType c.node = some .hidden) &&
    eqIgnoreAsciiCase c.name "_charset_".toList

/-- What the walk does at a node, to the entries so far and the controls to ask later. -/
def walkStep (form : NodeId) (submitter : Option NodeId) :
    List (Control × PendingEntry) × List Control → BlitzId →
      List (Control × PendingEntry) × List Control
  | (pending, controls), n => match doc.submittable form submitter n with
    | none => (pending, controls)
    | some c =>
      if doc.isCharset c then (pending ++ [(c, .text c.name "UTF-8".toList)], controls)
      else (pending, controls ++ [c])

def contribute (submitter : Option NodeId) : List Control → List (Control × PendingEntry) →
    Selection → List (Control × PendingEntry) × Selection
  | [], pending, σ => (pending, σ)
  | c :: controls, pending, σ =>
    let (entries, σ) := doc.pendingEntry isAlphabetic σ c (doc.isSubmitter submitter c.node)
    contribute submitter controls (pending ++ entries.map fun entry => (c, entry)) σ

/-- The entries of a form, each with its control. -/
def collectEntries (σ : Selection) (form : NodeId) (submitter : Option NodeId) :
    List (Control × PendingEntry) × Selection :=
  let (pending, controls) := (doc.walk doc.tree.children [doc.rootAbove form.node]).foldl
    (doc.walkStep form submitter) ([], [])
  doc.contribute isAlphabetic submitter controls pending σ

def collectPendingEntries (σ : Selection) (form : NodeId) (submitter : Option NodeId) :
    List PendingEntry × Selection :=
  let (entries, σ) := doc.collectEntries isAlphabetic σ form submitter
  (entries.map (·.2), σ)

end Parsed

end TinyBrowser.Forms
