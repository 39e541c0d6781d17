import TinyBrowser.Dom.Arena
import TinyBrowser.Dom.Attributes
import TinyBrowser.Dom.Order

/-!
# Document order

`compare_node_position` of `crates/renderer/src/js/bindings/node/core.rs`, over all documents and
their attributes, and the three orders together: of the nodes of a tree, of its boundary points, and
`compareDocumentPosition`, which answers a swapped question with the swapped bits (`documentOrder`).
-/

namespace TinyBrowser.Dom
open Lib Blitz BlitzFragments BlitzNodes Forest

/-- The derived order: by document and node, the tree nodes first. -/
def TreeNodeReference.key : TreeNodeReference → Nat × Nat × Nat × Nat
  | .tree id => (0, id.document.toNat, id.node, 0)
  | .attr scope id => (1, scope.document.toNat, scope.node, id)

def TreeNodeReference.lt (a b : TreeNodeReference) : Bool :=
  let (a₁, a₂, a₃, a₄) := a.key
  let (b₁, b₂, b₃, b₄) := b.key
  a₁ < b₁ || a₁ == b₁ && (a₂ < b₂ || a₂ == b₂ && (a₃ < b₃ || a₃ == b₃ && a₄ < b₄))

def disconnectedBit : UInt16 := 1
def precedingBit : UInt16 := 2
def followingBit : UInt16 := 4
def containsBit : UInt16 := 8
def containedByBit : UInt16 := 16
def implementationSpecificBit : UInt16 := 32

section
variable {Base : Type} [Blitz Base]

/-- The last checks, on the nodes of two references in one tree: the nodes themselves or the elements
of attributes. -/
def comparePlaces (base : Base) (node1 node2 : NodeId) (attr1 attr2 : Bool) (disconnected : UInt16) :
    UInt16 :=
  if rootOf base node1 ≠ rootOf base node2 then disconnected
  else if node1 ∈ ancestorChain base node2 ∧ attr1 = false ∨ node1 = node2 ∧ attr2 = true then
    containsBit ||| precedingBit
  else if node2 ∈ ancestorChain base node1 ∧ attr2 = false ∨ node1 = node2 ∧ attr1 = true then
    containedByBit ||| followingBit
  else if treeOrder base node1 node2 = .lt then precedingBit
  else followingBit

end

variable {Base FormState : Type} [BlitzNodes Base FormState]

namespace TreeNodeReference

def isAttribute : TreeNodeReference → Bool
  | tree _ => false
  | attr .. => true

/-- The node itself, or the element of an attribute. -/
def place (store : DocumentStore Base) (registry : AttributeRegistry) :
    TreeNodeReference → Option TreeNodeId
  | tree id => some id
  | attr scope id => attrOwner store registry scope id

end TreeNodeReference

/-- Which of two attributes of an element comes first in its list. -/
def compareAttributes (attrs : List Attribute) (a b : AttrState) : Option UInt16 :=
  attrs.findSome? fun attr =>
    if attr.name.ns = a.ns ∧ attr.name.localName = a.localName then
      some (implementationSpecificBit ||| precedingBit)
    else if attr.name.ns = b.ns ∧ attr.name.localName = b.localName then
      some (implementationSpecificBit ||| followingBit)
    else none

/-- The answer for two attributes of one element. -/
def compareOnElement (base : Base) (registry : AttributeRegistry) (node1 node2 : TreeNodeId)
    (this other : TreeNodeReference) : Except Thrown (Option UInt16) :=
  match other, this with
  | .attr scope1 id1, .attr scope2 id2 =>
    if node1 = node2 then
      match attrState registry scope1 id1, attrState registry scope2 id2 with
      | some a, some b => match nodeData base node1.node with
        | some (.element e) => .ok (compareAttributes e.attrs a b)
        | _ => .ok none
      | _, _ => .error (.type "stale attribute")
    else .ok none
  | _, _ => .ok none

def compareNodePosition (store : DocumentStore Base) (registry : AttributeRegistry)
    (this other : TreeNodeReference) : Except Thrown UInt16 :=
  if this = other then .ok 0
  else
    let disconnected := disconnectedBit ||| implementationSpecificBit |||
      if other.lt this then precedingBit else followingBit
    match other.place store registry, this.place store registry with
    | some node1, some node2 =>
      if node1.document ≠ node2.document then .ok disconnected
      else match store.get node1.document with
        | none => .error (.type "stale node")
        | some doc => do
          match ← compareOnElement doc.base registry node1 node2 this other with
          | some bits => return bits
          | none =>
            return comparePlaces doc.base node1.node node2.node other.isAttribute this.isAttribute
              disconnected
    | _, _ => .ok disconnected

/-! ### The swapped question -/

/-- The bits of the swapped question: preceding for following, contains for contained by. -/
def exchanged (bits : UInt16) : UInt16 :=
  (bits &&& (disconnectedBit ||| implementationSpecificBit)) |||
    (if bits &&& precedingBit ≠ 0 then followingBit else 0) |||
    (if bits &&& followingBit ≠ 0 then precedingBit else 0) |||
    (if bits &&& containsBit ≠ 0 then containedByBit else 0) |||
    (if bits &&& containedByBit ≠ 0 then containsBit else 0)

theorem TreeNodeReference.lt_of_ne {a b : TreeNodeReference} (h : a ≠ b) : b.lt a = !a.lt b := by
  have hkey : a.key ≠ b.key := by
    intro hkey
    apply h
    cases a with
    | tree id =>
      cases b with
      | tree id' =>
        obtain ⟨d, n⟩ := id
        obtain ⟨d', n'⟩ := id'
        simp only [key, Prod.mk.injEq, true_and, and_true] at hkey
        rw [UInt32.toNat_inj.1 hkey.1, hkey.2]
      | attr => cases hkey
    | attr scope id =>
      cases b with
      | tree => cases hkey
      | attr scope' id' =>
        obtain ⟨d, n⟩ := scope
        obtain ⟨d', n'⟩ := scope'
        simp only [key, Prod.mk.injEq, true_and] at hkey
        rw [UInt32.toNat_inj.1 hkey.1, hkey.2.1, hkey.2.2]
  rw [lt, lt]
  generalize a.key = ka at hkey ⊢
  generalize b.key = kb at hkey ⊢
  obtain ⟨a₁, a₂, a₃, a₄⟩ := ka
  obtain ⟨b₁, b₂, b₃, b₄⟩ := kb
  rw [Ne, Prod.mk.injEq, Prod.mk.injEq, Prod.mk.injEq] at hkey
  rw [Bool.eq_iff_iff]
  simp only [Bool.or_eq_true, Bool.and_eq_true, decide_eq_true_eq, beq_iff_eq, Bool.not_eq_true',
    Bool.or_eq_false_iff, Bool.and_eq_false_iff, decide_eq_false_iff_not, beq_eq_false_iff_ne]
  omega

theorem treeOrder_swap {Base : Type} [Blitz Base] {base : Base} {a b : NodeId}
    (h : rootOf base a = rootOf base b) :
    treeOrder base b a = (treeOrder base a b).swap ∧ (treeOrder base a b = .eq ↔ a = b) := by
  have ha := mem_preorder_root base a
  have hb := mem_preorder_root base b
  rw [← h] at hb
  rw [treeOrder_eq ha hb, treeOrder_eq hb ha, swap_orderIn, orderIn_eq_iff ha]
  exact ⟨rfl, Iff.rfl⟩

theorem treeOrder_of_mem_chain {Base : Type} [Blitz Base] {base : Base} {a b : NodeId}
    (h : a ∈ ancestorChain base b) (hne : a ≠ b) : treeOrder base a b = .lt := by
  rcases mem_preorder_cases (mem_preorder.2 h) with rfl | ⟨c, hc, hbc⟩
  · exact absurd rfl hne
  · exact (treeOrder_below hc hbc).1

theorem comparePlaces_swap {Base : Type} [Blitz Base] {base : Base} {node1 node2 : NodeId}
    {attr1 attr2 : Bool} (h : node1 = node2 → attr1 ≠ attr2) (disconnected : UInt16) :
    comparePlaces base node2 node1 attr2 attr1 (exchanged disconnected) =
      exchanged (comparePlaces base node1 node2 attr1 attr2 disconnected) := by
  by_cases hroot : rootOf base node1 = rootOf base node2
  · obtain ⟨hswap, heq⟩ := treeOrder_swap hroot
    rw [comparePlaces, if_neg (not_not.2 hroot.symm), comparePlaces, if_neg (not_not.2 hroot)]
    by_cases hsame : node1 = node2
    · subst hsame
      have hself : node1 ∈ ancestorChain base node1 := (tree base).mem_chain_self node1
      cases attr1 with
      | true =>
        obtain rfl : attr2 = false := by simpa using h rfl
        rw [if_pos (.inl ⟨hself, rfl⟩), if_neg (by simp), if_pos (.inl ⟨hself, rfl⟩)]
        decide
      | false =>
        obtain rfl : attr2 = true := by simpa using h rfl
        rw [if_neg (by simp), if_pos (.inl ⟨hself, rfl⟩), if_pos (.inl ⟨hself, rfl⟩)]
        decide
    · have hboth : ¬ (node1 ∈ ancestorChain base node2 ∧ node2 ∈ ancestorChain base node1) := by
        rintro ⟨h1, h2⟩
        rw [treeOrder_of_mem_chain h2 (Ne.symm hsame), treeOrder_of_mem_chain h1 hsame] at hswap
        cases hswap
      simp only [hsame, Ne.symm hsame, false_and, or_false, hswap]
      by_cases hp : node1 ∈ ancestorChain base node2 ∧ attr1 = false
      · have hq : ¬ (node2 ∈ ancestorChain base node1 ∧ attr2 = false) := fun hq =>
          hboth ⟨hp.1, hq.1⟩
        rw [if_neg hq, if_pos hp, if_pos hp]
        decide
      · rw [if_neg hp, if_neg hp]
        by_cases hq : node2 ∈ ancestorChain base node1 ∧ attr2 = false
        · rw [if_pos hq, if_pos hq]
          decide
        · rw [if_neg hq, if_neg hq]
          cases horder : treeOrder base node1 node2 with
          | lt => decide
          | gt => decide
          | eq => exact absurd (heq.1 horder) hsame
  · rw [comparePlaces, if_pos (Ne.symm hroot), comparePlaces, if_pos hroot]

theorem compareAttributes_swap {attrs : List Attribute} {a b : AttrState}
    (h : ¬ (a.ns = b.ns ∧ a.localName = b.localName)) :
    compareAttributes attrs b a = (compareAttributes attrs a b).map exchanged := by
  rw [compareAttributes, compareAttributes]
  induction attrs with
  | nil => rfl
  | cons attr attrs ih =>
    rw [List.findSome?_cons, List.findSome?_cons, ih]
    by_cases ha : attr.name.ns = a.ns ∧ attr.name.localName = a.localName
    · have hb : ¬ (attr.name.ns = b.ns ∧ attr.name.localName = b.localName) := fun hb =>
        h ⟨ha.1.symm.trans hb.1, ha.2.symm.trans hb.2⟩
      rw [if_neg hb, if_pos ha, if_pos ha]
      rfl
    · rw [if_neg ha, if_neg ha]
      by_cases hb : attr.name.ns = b.ns ∧ attr.name.localName = b.localName
      · rw [if_pos hb, if_pos hb]
        rfl
      · rw [if_neg hb, if_neg hb]

theorem compareAttributes_isSome {attrs : List Attribute} {a : AttrState} (b : AttrState)
    (h : (attrs.any fun attr => attr.name.ns == a.ns && attr.name.localName == a.localName) = true) :
    (compareAttributes attrs a b).isSome = true := by
  obtain ⟨attr, hattr, hname⟩ := List.any_eq_true.1 h
  rw [Bool.and_eq_true, beq_iff_eq, beq_iff_eq] at hname
  rw [compareAttributes, List.findSome?_isSome_iff]
  exact ⟨attr, hattr, by rw [if_pos hname]; rfl⟩

variable {store : DocumentStore Base} {registry : AttributeRegistry} {this other : TreeNodeReference}
  {node1 node2 : TreeNodeId} {doc : Scripted Base}

/-- Two attributes of one element are compared there; any other two references with one place are a
node and one of its attributes. -/
theorem compareOnElement_cases (hne : this ≠ other) (h1 : other.place store registry = some node1)
    (h2 : this.place store registry = some node2) (hdoc : store.get node1.document = some doc) :
    (∃ bits, compareOnElement doc.base registry node1 node2 this other = .ok (some bits) ∧
        compareOnElement doc.base registry node2 node1 other this = .ok (some (exchanged bits))) ∨
      (compareOnElement doc.base registry node1 node2 this other = .ok none ∧
        compareOnElement doc.base registry node2 node1 other this = .ok none ∧
        (node1 = node2 → other.isAttribute ≠ this.isAttribute)) := by
  cases other with
  | tree id1 =>
    refine .inr ⟨rfl, by cases this <;> rfl, ?_⟩
    rintro rfl hattr
    cases this with
    | tree id2 =>
      obtain rfl := Option.some.inj h1
      obtain rfl := Option.some.inj h2
      exact hne rfl
    | attr => cases hattr
  | attr scope1 id1 =>
    cases this with
    | tree id2 => exact .inr ⟨rfl, rfl, fun _ => Bool.true_eq_false_eq_False⟩
    | attr scope2 id2 =>
      by_cases hsame : node1 = node2
      · subst hsame
        left
        obtain ⟨a, doc1, ha, howner1, hdoc1, hhas⟩ := attrOwner_eq_some h1
        obtain ⟨b, -, hb, howner2, -, -⟩ := attrOwner_eq_some h2
        obtain rfl := Option.some.inj (hdoc.symm.trans hdoc1)
        have hnames : ¬ (a.ns = b.ns ∧ a.localName = b.localName) := by
          rintro ⟨hns, hlocal⟩
          obtain ⟨rfl, rfl⟩ := eq_of_owner ha hb howner1 howner2 hns hlocal
          exact hne rfl
        rw [elementAttribute] at hhas
        cases hnode : nodeData doc.base node1.node with
        | none => rw [hnode] at hhas; cases hhas
        | some d =>
          rw [hnode] at hhas
          cases d with
          | element e =>
            obtain ⟨bits, hbits⟩ := Option.isSome_iff_exists.1 (compareAttributes_isSome b hhas)
            refine ⟨bits, ?_, ?_⟩
            · simp only [compareOnElement, if_true, ha, hb, hnode, hbits]
            · simp only [compareOnElement, if_true, ha, hb, hnode, compareAttributes_swap hnames,
                hbits]
              rfl
          | document | text | comment | doctype | processingInstruction | cdataSection
          | anonymousBlock | fragment | shadowRoot => cases hhas
      · exact .inr ⟨if_neg hsame, if_neg (Ne.symm hsame), fun h => absurd h hsame⟩

/-- The swapped question has the swapped answer. -/
theorem compareNodePosition_swap (hne : this ≠ other) :
    compareNodePosition store registry other this =
      (compareNodePosition store registry this other).map exchanged := by
  have hdisconnected : (disconnectedBit ||| implementationSpecificBit |||
      if this.lt other then precedingBit else followingBit) =
      exchanged (disconnectedBit ||| implementationSpecificBit |||
        if other.lt this then precedingBit else followingBit) := by
    rw [TreeNodeReference.lt_of_ne hne]
    cases this.lt other <;> decide
  rw [compareNodePosition, if_neg (Ne.symm hne), compareNodePosition, if_neg hne]
  dsimp only
  rw [hdisconnected]
  cases h1 : other.place store registry with
  | none => cases this.place store registry <;> rfl
  | some node1 =>
    cases h2 : this.place store registry with
    | none => rfl
    | some node2 =>
      dsimp only
      by_cases hdocument : node1.document = node2.document
      · rw [if_neg (not_not.2 hdocument), if_neg (not_not.2 hdocument.symm), ← hdocument]
        cases hdoc : store.get node1.document with
        | none => rfl
        | some doc =>
          rcases compareOnElement_cases hne h1 h2 hdoc with ⟨bits, hbits, hswapped⟩ |
            ⟨hbits, hswapped, hapart⟩
          · dsimp only
            rw [hbits, hswapped]
            rfl
          · dsimp only
            rw [hbits, hswapped]
            have hplaces := @comparePlaces_swap _ _ doc.base node1.node node2.node other.isAttribute
              this.isAttribute (fun hnode => hapart (by
                cases node1
                cases node2
                exact congrArg₂ TreeNodeId.mk hdocument hnode))
            exact congrArg Except.ok (hplaces _)
      · rw [if_pos hdocument, if_pos (Ne.symm hdocument)]
        rfl

/-- Tree order is the preorder of the tree, `position` is the order of its boundary points, and
`compareDocumentPosition` answers the swapped question with the swapped bits. -/
theorem documentOrder :
    (∀ (base : Base) (root : NodeId),
      Linear (· ∈ (tree base).preorder root) (treeOrder base) ∧
      (∀ a ∈ (tree base).preorder root, ∀ b ∈ (tree base).preorder root,
        treeOrder base a b = orderIn ((tree base).preorder root) a b) ∧
      Linear (fun p : BoundaryPoint => p.node ∈ (tree base).preorder root ∧
        p.offset ≤ nodeLength base p.node) (position base) ∧
      ∀ p q : BoundaryPoint, p.node ∈ (tree base).preorder root → p.offset ≤ nodeLength base p.node →
        q.node ∈ (tree base).preorder root → q.offset ≤ nodeLength base q.node →
        (∀ calls, 2 ≤ calls → positionWithin base calls p q = some (position base p q)) ∧
        position base p q = orderIn (boundaryPoints base root) p.pair q.pair) ∧
    ∀ (store : DocumentStore Base) (registry : AttributeRegistry) (this other : TreeNodeReference),
      this ≠ other → compareNodePosition store registry other this =
        (compareNodePosition store registry this other).map exchanged := by
  refine ⟨fun base root => ⟨?_, fun a ha b hb => treeOrder_eq ha hb, ?_, ?_⟩,
    fun _ _ _ _ => compareNodePosition_swap⟩
  · exact linear_of_orderIn fun a ha b hb => treeOrder_eq ha hb
  · exact linear_position base root
  · intro p q hp hpo hq hqo
    exact ⟨fun calls => positionWithin_eq hp hq,
      position_eq (mem_boundaryPoints.2 ⟨hp, hpo⟩) (mem_boundaryPoints.2 ⟨hq, hqo⟩)⟩

/-- A paragraph and its text, in the one document of a store. -/
theorem documentOrder_text :
    (treeOrder (Arena.withText ⟨none, htmlNamespace, "p"⟩ [0x61]) 1 2 = orderIn
        ((tree (Arena.withText ⟨none, htmlNamespace, "p"⟩ [0x61])).preorder 1) 1 2) ∧
      (position (Arena.withText ⟨none, htmlNamespace, "p"⟩ [0x61]) ⟨1, 1⟩ ⟨2, 1⟩ = orderIn
        (boundaryPoints (Arena.withText ⟨none, htmlNamespace, "p"⟩ [0x61]) 1) (1, 1) (2, 1)) ∧
      compareNodePosition (⟨.singleton 1 ⟨⟨.withText ⟨none, htmlNamespace, "p"⟩ [0x61],
          ⟨[], 0, false, .ofList [], .empty⟩⟩, ∅⟩, 1⟩ : DocumentStore Arena) .empty
          (.tree ⟨1, 2⟩) (.tree ⟨1, 1⟩) =
        (compareNodePosition (⟨.singleton 1 ⟨⟨.withText ⟨none, htmlNamespace, "p"⟩ [0x61],
          ⟨[], 0, false, .ofList [], .empty⟩⟩, ∅⟩, 1⟩ : DocumentStore Arena) .empty
          (.tree ⟨1, 1⟩) (.tree ⟨1, 2⟩)).map exchanged := by
  obtain ⟨horder, hswap⟩ := @documentOrder Arena Unit _
  obtain ⟨-, hnodes, -, hpoints⟩ := horder (.withText ⟨none, htmlNamespace, "p"⟩ [0x61]) 1
  have h1 : 1 ∈ (tree (Arena.withText ⟨none, htmlNamespace, "p"⟩ [0x61])).preorder 1 :=
    mem_preorder.2 (mem_chain_self _ 1)
  have h2 : 2 ∈ (tree (Arena.withText ⟨none, htmlNamespace, "p"⟩ [0x61])).preorder 1 :=
    mem_preorder_of_child (List.mem_singleton_self 2) (mem_preorder.2 (mem_chain_self _ 2))
  exact ⟨hnodes 1 h1 2 h2, (hpoints ⟨1, 1⟩ ⟨2, 1⟩ h1 (Nat.le_refl 1) h2 (Nat.le_refl 1)).2,
    hswap _ _ _ _ (by decide)⟩

end TinyBrowser.Dom
