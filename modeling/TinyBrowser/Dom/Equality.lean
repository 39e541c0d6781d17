import TinyBrowser.Dom.Serialization
import TinyBrowser.Dom.Arena
import TinyBrowser.Lib.Alike

/-!
# Node equality

`isEqualNode` compares two nodes of any documents, each copied into a view first: names, attributes,
character data with its exact units, and then the children one by one. An attribute's value is the text
that the tree has for it; what `attributeUnits` keeps of an unpaired surrogate is not looked at.
-/

namespace TinyBrowser.Dom
open Lib Blitz BlitzNodes

variable {Base FormState : Type}

/-- A document with the exact values of the attributes that contain an unpaired surrogate, by node and
qualified name. -/
structure Attributed (Base : Type) extends Parsed Base where
  exactAttrs : Dict (NodeId × Units) Units

/-- The exact attribute value when it contains an unpaired surrogate. -/
def attributeUnits (doc : Attributed Base) (id : NodeId) (name : Units) : Option Units :=
  doc.exactAttrs.get? (id, name)

inductive EqualKind where
  | document
  | fragment
  | element (name : QualName) (attributes : List (QualName × Units))
  | text (data : Units)
  | comment (data : Units)
  | doctype (name publicId systemId : String)
  | processingInstruction (target : String) (data : Units)
  | cdata (data : Units)
  | other

/-- One node's equality inputs. -/
structure EqualView where
  kind : EqualKind
  children : List NodeId

/-- Whether two comparison kinds match: attributes compare on namespace, local name, and value, never
prefix. -/
def kindsEqual : EqualKind → EqualKind → Bool
  | .document, .document | .fragment, .fragment => true
  | .element leftName leftAttributes, .element rightName rightAttributes =>
    leftName == rightName && leftAttributes.length == rightAttributes.length &&
      leftAttributes.all fun (name, value) => rightAttributes.any fun (candidateName, candidate) =>
        candidateName.ns == name.ns && candidateName.localName == name.localName &&
          candidate == value
  | .text left, .text right | .comment left, .comment right | .cdata left, .cdata right =>
    left == right
  | .doctype leftName leftPublic leftSystem, .doctype rightName rightPublic rightSystem =>
    leftName == rightName && leftPublic == rightPublic && leftSystem == rightSystem
  | .processingInstruction leftTarget leftData, .processingInstruction rightTarget rightData =>
    leftTarget == rightTarget && leftData == rightData
  | _, _ => false

/-! ### What it should see -/

/-- The key of an attribute in the attribute map. -/
def keyOf (name : QualName) : String × String := (name.ns, name.localName)

/-- The attribute map, as the pairs in it. -/
def keyed (attributes : List (QualName × Units)) : List ((String × String) × Units) :=
  attributes.map fun held => (keyOf held.1, held.2)

/-- Neither an element, which has a map to compare, nor a kind without comparison. -/
def EqualKind.Plain : EqualKind → Prop
  | .element .. | .other => False
  | _ => True

/-- The kind has a comparison, and the attributes of an element are distinct. -/
def EqualKind.Supported : EqualKind → Prop
  | .element _ attributes => (attributes.map fun held => keyOf held.1).Nodup
  | .other => False
  | _ => True

/-- The attributes of an element. -/
def EqualKind.attributes : EqualKind → List (QualName × Units)
  | .element _ attributes => attributes
  | _ => []

/-- The kind with other attribute values. -/
def EqualKind.read (f : QualName × Units → Units) : EqualKind → EqualKind
  | .element name attributes => .element name (attributes.map fun held => (held.1, f held))
  | kind => kind

/-- The same kind, names, attribute map and data. -/
inductive KindsSame : EqualKind → EqualKind → Prop where
  | element (name : QualName) {attributes attributes' : List (QualName × Units)}
      (map_eq : ∀ pair, pair ∈ keyed attributes ↔ pair ∈ keyed attributes') :
      KindsSame (.element name attributes) (.element name attributes')
  | plain {kind : EqualKind} (h : kind.Plain) : KindsSame kind kind

/-- The attributes are the same ones in another order, with other prefixes. -/
inductive EqualKind.Reorders : EqualKind → EqualKind → Prop where
  | element (name : QualName) {attributes attributes' : List (QualName × Units)}
      (perm : (keyed attributes).Perm (keyed attributes')) :
      Reorders (.element name attributes) (.element name attributes')
  | same (kind : EqualKind) : Reorders kind kind

/-! ### Kinds -/

section
variable {name name' : QualName} {attributes attributes' : List (QualName × Units)}
  {kind kind' kind'' : EqualKind}

theorem kindsEqual_element :
    kindsEqual (.element name attributes) (.element name' attributes') = true ↔
      name = name' ∧ (keyed attributes).length = (keyed attributes').length ∧
      keyed attributes ⊆ keyed attributes' := by
  have hany : ∀ held : QualName × Units, (attributes'.any fun candidate =>
      candidate.1.ns == held.1.ns && candidate.1.localName == held.1.localName &&
        candidate.2 == held.2) = true ↔ (keyOf held.1, held.2) ∈ keyed attributes' := by
    intro held
    simp only [List.any_eq_true, Bool.and_eq_true, beq_iff_eq, keyed, List.mem_map, Prod.mk.injEq,
      keyOf]
  have hall : keyed attributes ⊆ keyed attributes' ↔
      ∀ held ∈ attributes, (keyOf held.1, held.2) ∈ keyed attributes' := by
    rw [keyed, List.subset_def, List.forall_mem_map]
  rw [hall, kindsEqual, Bool.and_eq_true, Bool.and_eq_true, beq_iff_eq, beq_iff_eq,
    List.all_eq_true, and_assoc, keyed, keyed, List.length_map, List.length_map]
  exact and_congr_right' (and_congr_right' (forall₂_congr fun held _ => hany held))

theorem nodup_keyed (h : (attributes.map fun held => keyOf held.1).Nodup) :
    (keyed attributes).Nodup := by
  refine List.Nodup.of_map Prod.fst ?_
  rwa [keyed, List.map_map]

theorem kindsEqual_plain (h : kind.Plain) : kindsEqual kind kind' = true ↔ kind = kind' := by
  cases kind <;> cases kind' <;> simp_all [kindsEqual, EqualKind.Plain, and_assoc]

theorem kindsEqual_element_left (h : kindsEqual (.element name attributes) kind = true) :
    ∃ attributes', kind = .element name attributes' := by
  cases kind with
  | element name' attributes' =>
    obtain ⟨rfl, -⟩ := kindsEqual_element.1 h
    exact ⟨attributes', rfl⟩
  | _ => cases h

/-- Containment one way and the count are enough where attributes are distinct. -/
theorem kindsEqual_iff (h : kind.Supported) (h' : kind'.Supported) :
    kindsEqual kind kind' = true ↔ KindsSame kind kind' := by
  by_cases hplain : kind.Plain
  · rw [kindsEqual_plain hplain]
    constructor
    · rintro rfl
      exact .plain hplain
    · rintro (⟨_, _⟩ | _)
      · exact absurd hplain id
      · rfl
  · cases kind with
    | element name attributes =>
      constructor
      · intro heq
        obtain ⟨attributes', rfl⟩ := kindsEqual_element_left heq
        obtain ⟨-, hlength, hsub⟩ := kindsEqual_element.1 heq
        have hperm := (List.subperm_of_subset (nodup_keyed h) hsub).perm_of_length_le hlength.ge
        exact .element name fun pair => hperm.mem_iff
      · rintro (⟨_, hmap⟩ | hplain')
        · have hperm := (List.perm_ext_iff_of_nodup (nodup_keyed h) (nodup_keyed h')).2 hmap
          exact kindsEqual_element.2 ⟨rfl, hperm.length_eq, hperm.subset⟩
        · exact absurd hplain' id
    | other => exact absurd h id
    | _ => exact absurd trivial hplain

theorem KindsSame.refl (h : kind.Supported) : KindsSame kind kind := by
  cases kind with
  | element name attributes => exact .element name fun _ => Iff.rfl
  | other => exact absurd h id
  | _ => exact .plain trivial

theorem KindsSame.symm (h : KindsSame kind kind') : KindsSame kind' kind := by
  cases h with
  | element name map_eq => exact .element name fun pair => (map_eq pair).symm
  | plain h => exact .plain h

theorem KindsSame.trans (h : KindsSame kind kind') (h' : KindsSame kind' kind'') :
    KindsSame kind kind'' := by
  cases h with
  | element name map_eq =>
    cases h' with
    | element _ map_eq' => exact .element name fun pair => (map_eq pair).trans (map_eq' pair)
    | plain hplain => exact absurd hplain id
  | plain _ => exact h'

/-! ### Attribute maps by value -/

/-- The attributes have the same keys and, by the one reading `f` and the other `f'`, values. -/
def SameBy (f f' : QualName × Units → Units) (attributes attributes' : List (QualName × Units)) :
    Prop :=
  ∀ key units, (∃ held ∈ attributes, keyOf held.1 = key ∧ f held = units) ↔
    ∃ held ∈ attributes', keyOf held.1 = key ∧ f' held = units

variable {f f' g g' : QualName × Units → Units}

theorem sameBy_iff : SameBy f f' attributes attributes' ↔
    ∀ pair, pair ∈ keyed (attributes.map fun held => (held.1, f held)) ↔
      pair ∈ keyed (attributes'.map fun held => (held.1, f' held)) := by
  simp only [SameBy, keyed, List.map_map, List.mem_map, Function.comp_apply, Prod.forall,
    Prod.mk.injEq]

theorem SameBy.swap (h : SameBy f f' attributes attributes') : SameBy f' f attributes' attributes :=
  fun key units => (h key units).symm

theorem SameBy.eq (h : SameBy f f' attributes attributes')
    (hdistinct : (attributes'.map fun held => keyOf held.1).Nodup) {held held' : QualName × Units}
    (hmem : held ∈ attributes) (hmem' : held' ∈ attributes') (hkey : keyOf held.1 = keyOf held'.1) :
    f held = f' held' := by
  obtain ⟨found, hfound, hkey', hvalue⟩ := (h (keyOf held.1) (f held)).1 ⟨held, hmem, rfl, rfl⟩
  have heq : found = held' := List.inj_on_of_nodup_map hdistinct hfound hmem' (hkey'.trans hkey)
  rw [← hvalue, heq]

theorem SameBy.of_imp (h : SameBy f f' attributes attributes')
    (himp : ∀ held ∈ attributes, ∀ held' ∈ attributes', keyOf held.1 = keyOf held'.1 →
      f held = f' held' → g held = g' held') {key : String × String} {units : Units}
    (hg : ∃ held ∈ attributes, keyOf held.1 = key ∧ g held = units) :
    ∃ held ∈ attributes', keyOf held.1 = key ∧ g' held = units := by
  obtain ⟨held, hmem, rfl, rfl⟩ := hg
  obtain ⟨held', hmem', hkey, hvalue⟩ := (h (keyOf held.1) (f held)).1 ⟨held, hmem, rfl, rfl⟩
  exact ⟨held', hmem', hkey, (himp held hmem held' hmem' hkey.symm hvalue.symm).symm⟩

theorem SameBy.transfer (h : SameBy f f' attributes attributes')
    (himp : ∀ held ∈ attributes, ∀ held' ∈ attributes', keyOf held.1 = keyOf held'.1 →
      f held = f' held' → g held = g' held') : SameBy g g' attributes attributes' := by
  intro key units
  refine ⟨h.of_imp himp, h.swap.of_imp fun held' hmem' held hmem hkey hvalue => ?_⟩
  exact (himp held hmem held' hmem' hkey.symm hvalue.symm).symm

theorem read_snd (kind : EqualKind) : kind.read Prod.snd = kind := by
  cases kind with
  | element name attributes => exact congrArg _ (List.map_id _)
  | _ => rfl

theorem read_of_plain (h : kind.Plain) (f : QualName × Units → Units) : kind.read f = kind := by
  cases kind with
  | element name attributes => exact absurd h id
  | _ => rfl

theorem KindsSame.eq_of_plain (h : KindsSame kind kind') (hplain : kind.Plain) : kind = kind' := by
  cases h with
  | element name map_eq => exact absurd hplain id
  | plain _ => rfl

theorem KindsSame.of_element (h : KindsSame (.element name attributes) kind) :
    ∃ attributes', kind = .element name attributes' ∧
      ∀ pair, pair ∈ keyed attributes ↔ pair ∈ keyed attributes' := by
  cases h with
  | element _ map_eq => exact ⟨_, rfl, map_eq⟩
  | plain hplain => exact absurd hplain id

theorem not_kindsSame_other : ¬KindsSame .other kind := by
  intro h
  cases h with
  | plain hplain => exact hplain

/-- Elements of one name are compared by their attributes, other kinds as they are. -/
theorem kindsSame_read_iff : KindsSame (kind.read f) (kind'.read f') ↔
    (∃ name attributes attributes', kind = .element name attributes ∧
      kind' = .element name attributes' ∧ SameBy f f' attributes attributes') ∨
    (kind.Plain ∧ kind = kind') := by
  constructor
  · intro h
    by_cases hplain : kind.Plain
    · rw [read_of_plain hplain] at h
      have heq := h.eq_of_plain hplain
      refine .inr ⟨hplain, ?_⟩
      cases kind' with
      | element name attributes =>
        rw [heq] at hplain
        exact absurd hplain id
      | _ => exact heq
    · cases kind with
      | element name attributes =>
        obtain ⟨read, hread, map_eq⟩ := KindsSame.of_element h
        cases kind' with
        | element name' attributes' =>
          obtain ⟨rfl, rfl⟩ := EqualKind.element.inj hread
          exact .inl ⟨name', attributes, attributes', rfl, rfl, sameBy_iff.2 map_eq⟩
        | _ => cases hread
      | other => exact absurd h not_kindsSame_other
      | _ => exact absurd trivial hplain
  · rintro (⟨name, attributes, attributes', rfl, rfl, h⟩ | ⟨h, rfl⟩)
    · exact .element name (sameBy_iff.1 h)
    · rw [read_of_plain h, read_of_plain h]
      exact .plain h

theorem KindsSame.transfer (h : KindsSame (kind.read f) (kind'.read f'))
    (himp : ∀ held ∈ kind.attributes, ∀ held' ∈ kind'.attributes, keyOf held.1 = keyOf held'.1 →
      f held = f' held' → g held = g' held') : KindsSame (kind.read g) (kind'.read g') := by
  rw [kindsSame_read_iff] at h ⊢
  rcases h with ⟨name, attributes, attributes', rfl, rfl, h⟩ | h
  · exact .inl ⟨name, attributes, attributes', rfl, rfl, h.transfer himp⟩
  · exact .inr h

theorem KindsSame.value_eq (h : KindsSame (kind.read f) (kind'.read f')) (hsupported : kind'.Supported)
    {held held' : QualName × Units} (hmem : held ∈ kind.attributes) (hmem' : held' ∈ kind'.attributes)
    (hkey : keyOf held.1 = keyOf held'.1) : f held = f' held' := by
  rcases kindsSame_read_iff.1 h with ⟨name, attributes, attributes', rfl, rfl, hsame⟩ | ⟨hplain, rfl⟩
  · exact hsame.eq hsupported hmem hmem' hkey
  · cases kind with
    | element name attributes => exact absurd hplain id
    | _ => cases hmem

theorem kindsEqual_reorders_left (h : kind.Reorders kind') (right : EqualKind) :
    kindsEqual kind' right = kindsEqual kind right := by
  cases h with
  | same => rfl
  | element name perm =>
    cases right with
    | element name' attributes' =>
      have hsub : keyed _ ⊆ keyed attributes' ↔ keyed _ ⊆ keyed attributes' :=
        ⟨fun h _ hp => h (perm.subset hp), fun h _ hp => h (perm.symm.subset hp)⟩
      rw [Bool.eq_iff_iff, kindsEqual_element, kindsEqual_element, perm.length_eq, hsub]
    | _ => rfl

theorem kindsEqual_reorders_right (h : kind.Reorders kind') (left : EqualKind) :
    kindsEqual left kind' = kindsEqual left kind := by
  cases h with
  | same => rfl
  | element name' perm =>
    cases left with
    | element name attributes =>
      have hsub : keyed attributes ⊆ keyed _ ↔ keyed attributes ⊆ keyed _ :=
        ⟨fun h _ hp => perm.symm.subset (h hp), fun h _ hp => perm.subset (h hp)⟩
      rw [Bool.eq_iff_iff, kindsEqual_element, kindsEqual_element, perm.length_eq, hsub]
    | _ => rfl

end

section
variable [BlitzNodes Base FormState]

/-- The comparison view of `id`: its kind (with live character data) and its children. -/
def equalView (doc : Attributed Base) (id : NodeId) : Option EqualView :=
  (nodeData doc.base id).map fun data =>
    { children := childIds doc.base id
      kind := match data with
        | .document => .document
        | .fragment _ | .shadowRoot _ => .fragment
        | .element element =>
          .element element.name (element.attrs.map fun held => (held.name, held.value))
        | .text _ => .text (characterData doc.toParsed id)
        | .comment _ => .comment (characterData doc.toParsed id)
        | .doctype name publicId systemId => .doctype name publicId systemId
        | .processingInstruction target _ _ =>
          .processingInstruction target (characterData doc.toParsed id)
        | .cdataSection _ => .cdata (characterData doc.toParsed id)
        | .anonymousBlock => .other }

/-- The documents that the renderer holds. -/
abbrev AttributedStore (Base : Type) := Dict UInt32 (Attributed Base)

def viewIn (store : AttributedStore Base) (node : TreeNodeId) : Option EqualView :=
  (store.get? node.document).bind fun doc => equalView doc node.node

/-- Structural `isEqualNode`, `none` when it does not end within the fuel. -/
def nodesEqual (store : AttributedStore Base) : Nat → TreeNodeId → TreeNodeId → Option Bool
  | 0, _, _ => none
  | fuel + 1, left, right =>
    match viewIn store left, viewIn store right with
    | some leftView, some rightView =>
      if !kindsEqual leftView.kind rightView.kind then some false
      else if leftView.children.length ≠ rightView.children.length then some false
      else (leftView.children.zip rightView.children).allM fun (leftChild, rightChild) =>
        nodesEqual store fuel ⟨left.document, leftChild⟩ ⟨right.document, rightChild⟩
    | _, _ => some false

/-! ### The comparison as one of trees -/

/-- The children of a node, in its document. -/
def childrenIn (store : AttributedStore Base) (node : TreeNodeId) : List TreeNodeId :=
  ((viewIn store node).elim [] EqualView.children).map fun child => ⟨node.document, child⟩

/-- The two nodes themselves match. -/
def nodesMatch (store : AttributedStore Base) (left right : TreeNodeId) : Bool :=
  match viewIn store left, viewIn store right with
  | some leftView, some rightView => kindsEqual leftView.kind rightView.kind
  | _, _ => false

theorem allM_map {α β : Type} (f : β → Option Bool) (g : α → β) (l : List α) :
    (l.map g).allM f = l.allM fun a => f (g a) := by
  induction l with
  | nil => rfl
  | cons a l ih => rw [List.map_cons, List.allM, List.allM, ih]

theorem nodesEqual_eq (store : AttributedStore Base) (fuel : Nat) (left right : TreeNodeId) :
    nodesEqual store fuel left right =
      alike? (nodesMatch store) (childrenIn store) fuel left right := by
  induction fuel generalizing left right with
  | zero => rfl
  | succ fuel ih =>
    rw [nodesEqual, alike?, nodesMatch, childrenIn, childrenIn]
    cases viewIn store left with
    | none => rfl
    | some leftView =>
      cases viewIn store right with
      | none => rfl
      | some rightView =>
        simp only [Option.elim_some, List.length_map, List.zip_map, allM_map, ih]
        rfl

/-- The node is there, of a supported kind, its attributes distinct. -/
def Comparable (store : AttributedStore Base) (node : TreeNodeId) : Prop :=
  ∃ view, viewIn store node = some view ∧ view.kind.Supported

/-- The documents hold the same nodes, up to the order of attributes and their prefixes. -/
def ReorderedStore (store store' : AttributedStore Base) : Prop :=
  ∀ node, (viewIn store node = none ∧ viewIn store' node = none) ∨
    ∃ view view', viewIn store node = some view ∧ viewIn store' node = some view' ∧
      view.kind.Reorders view'.kind ∧ view'.children = view.children

/-! ### Exact values -/

/-- The units of an attribute: what `attributeUnits` has, else the value in the tree. -/
def exactValue (store : AttributedStore Base) (node : TreeNodeId) (held : QualName × Units) : Units :=
  ((store.get? node.document).bind fun doc =>
    attributeUnits doc node.node (qualifiedName held.1)).getD held.2

/-- The two nodes are the same, down to the code units. -/
def ExactlySame (store : AttributedStore Base) (left right : TreeNodeId) : Prop :=
  ∃ view view', viewIn store left = some view ∧ viewIn store right = some view' ∧
    KindsSame (view.kind.read (exactValue store left)) (view'.kind.read (exactValue store right))

/-- Two attributes of one name are equal as the tree has them and not in their units, or the other way
round. -/
def Blurred (store : AttributedStore Base) (left right : TreeNodeId) : Prop :=
  ∃ view view', viewIn store left = some view ∧ viewIn store right = some view' ∧
    ∃ held ∈ view.kind.attributes, ∃ held' ∈ view'.kind.attributes,
      keyOf held.1 = keyOf held'.1 ∧
      ¬(held.2 = held'.2 ↔ exactValue store left held = exactValue store right held')

section
variable {store store' : AttributedStore Base} {left right : TreeNodeId}

variable {view view' : EqualView}

theorem nodesMatch_eq (h : viewIn store left = some view)
    (h' : viewIn store right = some view') :
    nodesMatch store left right = kindsEqual view.kind view'.kind := by
  rw [nodesMatch, h, h']

theorem nodesMatch_iff (h : Comparable store left) (h' : Comparable store right) :
    nodesMatch store left right = true ↔ ∃ view view', viewIn store left = some view ∧
      viewIn store right = some view' ∧ KindsSame view.kind view'.kind := by
  obtain ⟨view, hview, hsupported⟩ := h
  obtain ⟨view', hview', hsupported'⟩ := h'
  rw [nodesMatch_eq hview hview', kindsEqual_iff hsupported hsupported', hview, hview']
  simp

theorem nodesMatch_refl (h : Comparable store left) : nodesMatch store left left = true := by
  rw [nodesMatch_iff h h]
  obtain ⟨view, hview, hsupported⟩ := h
  exact ⟨view, view, hview, hview, .refl hsupported⟩

theorem nodesMatch_symm (h : Comparable store left) (h' : Comparable store right)
    (hmatch : nodesMatch store left right = true) : nodesMatch store right left = true := by
  rw [nodesMatch_iff h h'] at hmatch
  obtain ⟨view, view', hview, hview', hsame⟩ := hmatch
  exact (nodesMatch_iff h' h).2 ⟨view', view, hview', hview, hsame.symm⟩

theorem nodesMatch_trans {node : TreeNodeId} (h : Comparable store left)
    (h' : Comparable store node) (h'' : Comparable store right)
    (hmatch : nodesMatch store left node = true) (hmatch' : nodesMatch store node right = true) :
    nodesMatch store left right = true := by
  rw [nodesMatch_iff h h'] at hmatch
  rw [nodesMatch_iff h' h''] at hmatch'
  obtain ⟨view, middle, hview, hmiddle, hsame⟩ := hmatch
  obtain ⟨middle', view', hmiddle', hview', hsame'⟩ := hmatch'
  obtain rfl := Option.some.inj (hmiddle.symm.trans hmiddle')
  exact (nodesMatch_iff h h'').2 ⟨view, view', hview, hview', hsame.trans hsame'⟩

theorem nodesEqual_reordered (h : ReorderedStore store store') (fuel : Nat)
    (left right : TreeNodeId) : nodesEqual store' fuel left right = nodesEqual store fuel left right := by
  induction fuel generalizing left right with
  | zero => rfl
  | succ fuel ih =>
    rw [nodesEqual, nodesEqual]
    rcases h left with ⟨hleft, hleft'⟩ | ⟨view, view', hleft, hleft', hkind, hchildren⟩
    · rw [hleft, hleft']
    · rcases h right with ⟨hright, hright'⟩ | ⟨other, other', hright, hright', hkind', hchildren'⟩
      · rw [hright, hright', hleft, hleft']
      · rw [hright, hright', hleft, hleft']
        simp only [kindsEqual_reorders_left hkind, kindsEqual_reorders_right hkind', hchildren,
          hchildren', ih]

/-! ### Trees and units -/

theorem nodesMatch_iff_kindsSame (h : viewIn store left = some view)
    (h' : viewIn store right = some view') (hsupported : view.kind.Supported)
    (hsupported' : view'.kind.Supported) : nodesMatch store left right = true ↔
      KindsSame (view.kind.read Prod.snd) (view'.kind.read Prod.snd) := by
  rw [nodesMatch_eq h h', kindsEqual_iff hsupported hsupported', read_snd, read_snd]

theorem exactlySame_iff_kindsSame (h : viewIn store left = some view)
    (h' : viewIn store right = some view') : ExactlySame store left right ↔
      KindsSame (view.kind.read (exactValue store left)) (view'.kind.read (exactValue store right)) := by
  rw [ExactlySame, h, h']
  simp

/-- Two nodes whose attributes are not blurred match exactly when they are the same. -/
theorem nodesMatch_iff_exactlySame (h : Comparable store left) (h' : Comparable store right)
    (hsharp : ¬Blurred store left right) :
    nodesMatch store left right = true ↔ ExactlySame store left right := by
  obtain ⟨view, hview, hsupported⟩ := h
  obtain ⟨view', hview', hsupported'⟩ := h'
  have hiff : ∀ held ∈ view.kind.attributes, ∀ held' ∈ view'.kind.attributes,
      keyOf held.1 = keyOf held'.1 →
      (held.2 = held'.2 ↔ exactValue store left held = exactValue store right held') := by
    intro held hmem held' hmem' hkey
    by_contra hnot
    exact hsharp ⟨view, view', hview, hview', held, hmem, held', hmem', hkey, hnot⟩
  rw [nodesMatch_iff_kindsSame hview hview' hsupported hsupported',
    exactlySame_iff_kindsSame hview hview']
  constructor
  · intro hsame
    exact hsame.transfer fun held hmem held' hmem' hkey => (hiff held hmem held' hmem' hkey).1
  · intro hsame
    exact hsame.transfer fun held hmem held' hmem' hkey => (hiff held hmem held' hmem' hkey).2

/-- Where two nodes match and are the same, no attribute is blurred. -/
theorem not_blurred (h : Comparable store left) (h' : Comparable store right)
    (hmatch : nodesMatch store left right = true) (hsame : ExactlySame store left right) :
    ¬Blurred store left right := by
  obtain ⟨view, hview, hsupported⟩ := h
  obtain ⟨view', hview', hsupported'⟩ := h'
  rw [nodesMatch_iff_kindsSame hview hview' hsupported hsupported'] at hmatch
  rw [exactlySame_iff_kindsSame hview hview'] at hsame
  rintro ⟨found, found', hfound, hfound', held, hmem, held', hmem', hkey, hnot⟩
  obtain rfl := Option.some.inj (hview.symm.trans hfound)
  obtain rfl := Option.some.inj (hview'.symm.trans hfound')
  exact hnot (iff_of_true (hmatch.value_eq hsupported' hmem hmem' hkey)
    (hsame.value_eq hsupported' hmem hmem' hkey))

theorem nodesEqual_iff {s : Rose TreeNodeId} (hs : s.Follows (childrenIn store)) {fuel : Nat}
    (hfuel : s.values.length ≤ fuel) (right : TreeNodeId) :
    ∃ equal, nodesEqual store fuel s.value right = some equal ∧
      (equal = true ↔
        Alike (fun x y => nodesMatch store x y = true) (childrenIn store) s.value right) := by
  rw [nodesEqual_eq]
  exact alike?_eq (nodesMatch store) hs hfuel right

/-- Attributes at corresponding places of the two trees are blurred nowhere, or the trees differ
anyway, both as they are and in their units. -/
def Clear (store : AttributedStore Base) (left right : TreeNodeId) : Prop :=
  (∀ x y, Places (childrenIn store) left right x y → ¬Blurred store x y) ∨
  (∃ x y, Places (childrenIn store) left right x y ∧ ¬(nodesMatch store x y = true ∧
      (childrenIn store x).length = (childrenIn store y).length)) ∧
    ∃ x y, Places (childrenIn store) left right x y ∧ ¬(ExactlySame store x y ∧
      (childrenIn store x).length = (childrenIn store y).length)

/-- A finite tree of comparable nodes that `fuel` is enough for. -/
structure FiniteTree (store : AttributedStore Base) (fuel : Nat) (s : Rose TreeNodeId) : Prop where
  follows : s.Follows (childrenIn store)
  comparable : ∀ node ∈ s.values, Comparable store node
  length_le : s.values.length ≤ fuel

variable {fuel : Nat} {s t u : Rose TreeNodeId}

theorem FiniteTree.equal_iff (hs : FiniteTree store fuel s) (right : TreeNodeId) :
    nodesEqual store fuel s.value right = some true ↔
      Alike (fun x y => nodesMatch store x y = true) (childrenIn store) s.value right := by
  obtain ⟨equal, heq, hiff⟩ := nodesEqual_iff hs.follows hs.length_le right
  rw [heq, Option.some_inj, hiff]

theorem FiniteTree.at_left (hs : FiniteTree store fuel s) {x y right : TreeNodeId}
    (h : Places (childrenIn store) s.value right x y) : Comparable store x :=
  hs.comparable x (h.mem_left hs.follows rfl)

theorem FiniteTree.refl (hs : FiniteTree store fuel s) :
    nodesEqual store fuel s.value s.value = some true :=
  (hs.equal_iff s.value).2 (.refl hs.follows fun x hx => nodesMatch_refl (hs.comparable x hx))

theorem FiniteTree.symm (hs : FiniteTree store fuel s) (ht : FiniteTree store fuel t)
    (h : nodesEqual store fuel s.value t.value = some true) :
    nodesEqual store fuel t.value s.value = some true := by
  rw [hs.equal_iff] at h
  refine (ht.equal_iff s.value).2 (h.symm fun x y hp => ?_)
  exact nodesMatch_symm (hs.at_left hp) (ht.at_left hp.swap)

theorem FiniteTree.trans (hs : FiniteTree store fuel s) (ht : FiniteTree store fuel t)
    (hu : FiniteTree store fuel u) (h : nodesEqual store fuel s.value t.value = some true)
    (h' : nodesEqual store fuel t.value u.value = some true) :
    nodesEqual store fuel s.value u.value = some true := by
  rw [hs.equal_iff] at h
  rw [ht.equal_iff] at h'
  refine (hs.equal_iff u.value).2 (h.trans h' fun x y z hp hp' => ?_)
  exact nodesMatch_trans (hs.at_left hp) (ht.at_left hp') (hu.at_left hp'.swap)

/-- Nodes are equal exactly when they are the same down to the code units, if and only if no two
attributes at corresponding places are blurred or the trees differ anyway. -/
theorem FiniteTree.exact_iff_clear (hs : FiniteTree store fuel s) (ht : FiniteTree store fuel t) :
    (nodesEqual store fuel s.value t.value = some true ↔
      Alike (ExactlySame store) (childrenIn store) s.value t.value) ↔
    Clear store s.value t.value := by
  rw [hs.equal_iff, alike_iff hs.follows, alike_iff hs.follows]
  have hnode : ∀ x y, Places (childrenIn store) s.value t.value x y → ¬Blurred store x y →
      (nodesMatch store x y = true ↔ ExactlySame store x y) := fun x y hp hsharp =>
    nodesMatch_iff_exactlySame (hs.at_left hp) (ht.at_left hp.swap) hsharp
  constructor
  · intro hiff
    by_cases hequal : ∀ x y, Places (childrenIn store) s.value t.value x y →
        nodesMatch store x y = true ∧ (childrenIn store x).length = (childrenIn store y).length
    · have hexact := hiff.1 hequal
      exact .inl fun x y hp =>
        not_blurred (hs.at_left hp) (ht.at_left hp.swap) (hequal x y hp).1 (hexact x y hp).1
    · have hexact := mt hiff.2 hequal
      simp only [not_forall] at hequal hexact
      obtain ⟨x, y, hp, hdiffers⟩ := hequal
      obtain ⟨x', y', hp', hdiffers'⟩ := hexact
      exact .inr ⟨⟨x, y, hp, hdiffers⟩, x', y', hp', hdiffers'⟩
  · rintro (hsharp | ⟨⟨x, y, hp, hdiffers⟩, x', y', hp', hdiffers'⟩)
    · exact forall_congr' fun x => forall_congr' fun y => forall_congr' fun hp =>
        and_congr_left' (hnode x y hp (hsharp x y hp))
    · exact iff_of_false (fun h => hdiffers (h x y hp)) fun h => hdiffers' (h x' y' hp')

/-- `isEqualNode` is an equivalence that the order and the prefixes of attributes do not matter to, and
it sees code units where they are clear. -/
theorem nodesEqual_equivalence (hs : FiniteTree store fuel s) (ht : FiniteTree store fuel t)
    (hu : FiniteTree store fuel u) (hreordered : ReorderedStore store store') :
    nodesEqual store fuel s.value s.value = some true ∧
    nodesEqual store fuel t.value s.value = nodesEqual store fuel s.value t.value ∧
    (nodesEqual store fuel s.value t.value = some true →
      nodesEqual store fuel t.value u.value = some true →
      nodesEqual store fuel s.value u.value = some true) ∧
    nodesEqual store' fuel s.value t.value = nodesEqual store fuel s.value t.value ∧
    ((nodesEqual store fuel s.value t.value = some true ↔
        Alike (ExactlySame store) (childrenIn store) s.value t.value) ↔
      Clear store s.value t.value) := by
  refine ⟨hs.refl, ?_, hs.trans ht hu, nodesEqual_reordered hreordered fuel _ _,
    hs.exact_iff_clear ht⟩
  obtain ⟨equal, heq, -⟩ := nodesEqual_iff hs.follows hs.length_le t.value
  obtain ⟨equal', heq', -⟩ := nodesEqual_iff ht.follows ht.length_le s.value
  have hforth : equal = true → equal' = true := by
    rintro rfl
    exact Option.some.inj (heq'.symm.trans (hs.symm ht heq))
  have hback : equal' = true → equal = true := by
    rintro rfl
    exact Option.some.inj (heq.symm.trans (ht.symm hs heq'))
  rw [heq, heq', Bool.eq_iff_iff.2 ⟨hback, hforth⟩]

end
end

/-! ### An unpaired surrogate -/

def plainName (localName : String) : QualName := ⟨none, "", localName⟩

/-- Two elements with an attribute, the first one's set to an unpaired surrogate, which the tree drops,
and the second one's empty. -/
def surrogateStore : AttributedStore Arena :=
  let first := (Arena.fresh.createElement (plainName "p") [⟨plainName "x", []⟩]).1
  .singleton 1
    { base := (first.createElement (plainName "p") [⟨plainName "x", []⟩]).1
      side := ⟨[], 0, false, .ofList [], .empty⟩
      exactAttrs := .singleton (1, encodeUtf16 "x") [0xD800] }

theorem viewIn_surrogateStore {node : NodeId} (h : node = 1 ∨ node = 2) :
    viewIn surrogateStore ⟨1, node⟩ = some ⟨.element (plainName "p") [(plainName "x", [])], []⟩ := by
  rcases h with rfl | rfl
  · rfl
  · rfl

theorem finiteTree_surrogateStore {node : NodeId} (h : node = 1 ∨ node = 2) :
    FiniteTree surrogateStore 1 (.node ⟨1, node⟩ []) where
  follows := Rose.follows_node.2 ⟨by rw [childrenIn, viewIn_surrogateStore h]; rfl, by simp⟩
  comparable other hother := by
    obtain rfl : other = ⟨1, node⟩ := by simpa [Rose.values_node] using hother
    exact ⟨_, viewIn_surrogateStore h, by simp [EqualKind.Supported]⟩
  length_le := by simp [Rose.values_node]

/-- The two are equal nodes, and their attributes are different. -/
theorem not_exact_surrogateStore :
    FiniteTree surrogateStore 1 (.node ⟨1, 1⟩ []) ∧ FiniteTree surrogateStore 1 (.node ⟨1, 2⟩ []) ∧
    nodesEqual surrogateStore 1 ⟨1, 1⟩ ⟨1, 2⟩ = some true ∧
    ¬Alike (ExactlySame surrogateStore) (childrenIn surrogateStore) ⟨1, 1⟩ ⟨1, 2⟩ := by
  refine ⟨finiteTree_surrogateStore (.inl rfl), finiteTree_surrogateStore (.inr rfl), ?_, ?_⟩
  · rw [nodesEqual, viewIn_surrogateStore (.inl rfl), viewIn_surrogateStore (.inr rfl)]
    decide +kernel
  · intro h
    have hsame := (exactlySame_iff_kindsSame (viewIn_surrogateStore (.inl rfl))
      (viewIn_surrogateStore (.inr rfl))).1 h.here.1
    have hvalue := hsame.value_eq (by simp [EqualKind.Supported]) List.mem_cons_self
      List.mem_cons_self rfl
    revert hvalue
    decide +kernel

theorem kind_withAttrs (attrs : List Attribute) (d : FullNodeData Unit) :
    ((fun | .element e => .element { e with attrs := attrs } | old => old :
      FullNodeData Unit → FullNodeData Unit) d).kind = id d.kind := by
  cases d <;> rfl

/-- A paragraph, node 1, with these attributes and a text in it. -/
def paragraph (attrs : List Attribute) : Arena :=
  (Arena.withText (plainName "p") [0x61]).rewrite 1 id (id_eq _)
    (fun | .element e => .element { e with attrs := attrs } | old => old)
    (kind_withAttrs attrs)

/-- Three documents with a paragraph each. In the first the attribute `x` is an unpaired surrogate; the
second one's attributes are in the other order, the third one's have a prefix. -/
def paragraphStore (attrs : List Attribute) : AttributedStore Arena :=
  let side : SideTables := ⟨[], 0, false, .ofList [], .empty⟩
  ((Dict.singleton 1 ⟨⟨paragraph attrs, side⟩, .singleton (1, encodeUtf16 "x") [0xD800]⟩).insert 2
    ⟨⟨paragraph [⟨plainName "y", [0x31]⟩, ⟨plainName "x", []⟩], side⟩, .empty⟩).insert 3
    ⟨⟨paragraph [⟨⟨some "z", "", "x"⟩, []⟩, ⟨plainName "y", [0x31]⟩], side⟩, .empty⟩

def xThenY : List Attribute := [⟨plainName "x", []⟩, ⟨plainName "y", [0x31]⟩]

theorem finiteTree_paragraph {id : UInt32} (h : id = 1 ∨ id = 2 ∨ id = 3) :
    FiniteTree (paragraphStore xThenY) 2 (.node ⟨id, 1⟩ [.node ⟨id, 2⟩ []]) := by
  have hviews : (∃ attributes, viewIn (paragraphStore xThenY) ⟨id, 1⟩ =
        some ⟨.element (plainName "p") attributes, [2]⟩ ∧
      (attributes.map fun held => keyOf held.1).Nodup) ∧
      viewIn (paragraphStore xThenY) ⟨id, 2⟩ = some ⟨.text [0x61], []⟩ := by
    rcases h with rfl | rfl | rfl
    · exact ⟨⟨[(plainName "x", []), (plainName "y", [0x31])], rfl, by decide +kernel⟩, rfl⟩
    · exact ⟨⟨[(plainName "y", [0x31]), (plainName "x", [])], rfl, by decide +kernel⟩, rfl⟩
    · exact ⟨⟨[(⟨some "z", "", "x"⟩, []), (plainName "y", [0x31])], rfl, by decide +kernel⟩, rfl⟩
  obtain ⟨⟨attributes, hparagraph, hnodup⟩, htext⟩ := hviews
  refine ⟨?_, ?_, ?_⟩
  · simp [Rose.follows_node, Rose.value, childrenIn, hparagraph, htext]
  · simp only [Rose.values_node, List.flatMap_cons, List.flatMap_nil, List.append_nil,
      List.forall_mem_cons]
    exact ⟨⟨_, hparagraph, hnodup⟩, ⟨_, htext, trivial⟩, by simp⟩
  · simp [Rose.values_node]

theorem reorderedStore_paragraph :
    ReorderedStore (paragraphStore xThenY) (paragraphStore xThenY.reverse) := by
  rintro ⟨id, node⟩
  by_cases hid : id = 1
  · subst hid
    rcases node with _ | _ | _ | node
    · exact .inr ⟨_, _, rfl, rfl, .same _, rfl⟩
    · exact .inr ⟨_, _, rfl, rfl, .element _ (.swap _ _ []), rfl⟩
    · exact .inr ⟨_, _, rfl, rfl, .same _, rfl⟩
    · exact .inl ⟨rfl, rfl⟩
  · have hget : (paragraphStore xThenY.reverse).get? id = (paragraphStore xThenY).get? id := by
      simp [paragraphStore, Dict.get?_insert, Dict.get?_singleton, hid]
    have hview : viewIn (paragraphStore xThenY.reverse) ⟨id, node⟩ =
        viewIn (paragraphStore xThenY) ⟨id, node⟩ := by
      rw [viewIn, viewIn, hget]
    rw [hview]
    cases h : viewIn (paragraphStore xThenY) ⟨id, node⟩ with
    | none => exact .inl ⟨rfl, rfl⟩
    | some view => exact .inr ⟨view, view, rfl, rfl, .same view.kind, rfl⟩

/-- The paragraphs of the three documents are equal nodes, the first one to neither of the others in
its units. -/
theorem nodesEqual_equivalence_paragraphs :
    nodesEqual (paragraphStore xThenY) 2 ⟨1, 1⟩ ⟨1, 1⟩ = some true ∧
    nodesEqual (paragraphStore xThenY) 2 ⟨2, 1⟩ ⟨1, 1⟩ = some true ∧
    nodesEqual (paragraphStore xThenY) 2 ⟨1, 1⟩ ⟨3, 1⟩ = some true ∧
    nodesEqual (paragraphStore xThenY.reverse) 2 ⟨1, 1⟩ ⟨2, 1⟩ = some true ∧
    ¬Clear (paragraphStore xThenY) ⟨1, 1⟩ ⟨2, 1⟩ := by
  obtain ⟨hrefl, hsymm, htrans, hreordered, hclear⟩ := nodesEqual_equivalence
    (finiteTree_paragraph (.inl rfl)) (finiteTree_paragraph (.inr (.inl rfl)))
    (finiteTree_paragraph (.inr (.inr rfl))) reorderedStore_paragraph
  have hforth : nodesEqual (paragraphStore xThenY) 2 ⟨1, 1⟩ ⟨2, 1⟩ = some true := by
    decide +kernel
  have hon : nodesEqual (paragraphStore xThenY) 2 ⟨2, 1⟩ ⟨3, 1⟩ = some true := by
    decide +kernel
  refine ⟨hrefl, hsymm.trans hforth, htrans hforth hon, hreordered.trans hforth, fun h => ?_⟩
  have hexact := (hclear.2 h).1 hforth
  have hfirst : viewIn (paragraphStore xThenY) ⟨1, 1⟩ =
    some ⟨.element (plainName "p") [(plainName "x", []), (plainName "y", [0x31])], [2]⟩ := rfl
  have hsecond : viewIn (paragraphStore xThenY) ⟨2, 1⟩ =
    some ⟨.element (plainName "p") [(plainName "y", [0x31]), (plainName "x", [])], [2]⟩ := rfl
  have hsame := (exactlySame_iff_kindsSame hfirst hsecond).1 hexact.here.1
  have hvalue := hsame.value_eq (by simp [EqualKind.Supported, plainName, keyOf])
    List.mem_cons_self (List.mem_cons_of_mem _ List.mem_cons_self) rfl
  revert hvalue
  decide +kernel

end TinyBrowser.Dom
