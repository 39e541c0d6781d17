import TinyBrowser.Dom.Content
import TinyBrowser.Dom.Plain

/-!
# Calls on a document node

The calls of script that change the children of a document node, with the conversion of several
arguments into one fragment and with nodes that are adopted from another document. Each is made by
the checks and mutations of `TreeCall`, and leaves the content model as `DocumentCall.Keeps` says
(`contentModel_step_iff`).
-/

namespace TinyBrowser.Dom
open Lib Blitz BlitzFragments

variable {Base : Type} [BlitzFragments Base]

/-- An argument of `replaceChildren`. Nodes of other documents are adopted before anything else, so
every node is one of this document. -/
inductive Piece where
  | node (id : NodeId)
  | text (text : Units)
deriving DecidableEq

/-- A handle names a node that is there. -/
def Piece.live (base : Base) : Piece → Bool
  | .node id => (data base id).isSome
  | .text _ => true

/-- Appends one piece to the fragment that collects them; nothing is checked. -/
def insertConvertedNode (fragment : NodeId) (parsed : Parsed Base) : Piece → Parsed Base
  | .node id => insertParsed parsed fragment id none
  | .text text =>
    let (base, id) := createTextNode parsed.base text
    insertParsed (parsed.withBase base) fragment id none

/-- The single node, or a fragment holding them all. -/
def assembleNodesIntoNode (parsed : Parsed Base) : List Piece → Parsed Base × NodeId
  | [.node id] => (parsed, id)
  | [.text text] =>
    let (base, id) := createTextNode parsed.base text
    (parsed.withBase base, id)
  | pieces =>
    let (base, fragment) := createFragmentNode parsed.base
    (pieces.foldl (insertConvertedNode fragment) (parsed.withBase base), fragment)

/-- `insertion_excluding_children` for a document node and a node of the document `source`; it gives
the reference child. -/
def insertionFromDocument (source base : Base) (node : NodeId) (child : Option NodeReference)
    (excluded : List NodeId) : Except Thrown (Option NodeId) := do
  refuse (child.any fun child => child.tree?.isNone)
    (.dom "NotFoundError" "attributes have no parent")
  let reference := child.bind NodeReference.tree?
  reference.elim (.ok ()) fun reference =>
    orThrow (ensureParented base (rootNode base) reference)
  refuse (rootNode source = node) (.dom "HierarchyRequestError" "a document cannot be inserted")
  let inserted := classifyInserted source node
  refuse (inserted = .other) (.dom "HierarchyRequestError" "node cannot be inserted")
  orThrow (ensureDocumentContentModel base (rootNode base) reference excluded inserted)
  return reference

/-- The node `copy` is what its original is. -/
def SameKind (source base : Base) (original copy : NodeId) : Prop :=
  isElement base copy = isElement source original ∧ isText base copy = isText source original ∧
    isDoctype base copy = isDoctype source original

instance (source base : Base) (original copy : NodeId) :
    Decidable (SameKind source base original copy) :=
  inferInstanceAs (Decidable (_ ∧ _))

/-- What the adoption of `originals` leaves: detached copies of the same kinds. -/
def CopiesOf (source base : Base) (parent : NodeId) (originals copies : List NodeId) : Prop :=
  Adopted base parent copies ∧ (∀ c ∈ copies, isFragment base c = false) ∧
    originals.length = copies.length ∧
      ∀ pair ∈ originals.zip copies, SameKind source base pair.1 pair.2

instance (source base : Base) (parent : NodeId) (originals copies : List NodeId) :
    Decidable (CopiesOf source base parent originals copies) :=
  inferInstanceAs (Decidable (_ ∧ _ ∧ _ ∧ _))

/-- `replace_target` for a node of the document `source`. -/
def foreignReplacement (source : Base) (node : NodeId) (copies : List NodeId) : Replacement :=
  match isFragment source node, copies with
  | false, [copy] => .node copy
  | _, _ => .adopted copies

/-- A call on the document node. -/
inductive DocumentCall (Base : Type) where
  /-- `insertBefore`, and `appendChild` where there is no child. -/
  | insertBefore (node : NodeReference) (child : Option NodeReference)
  | replaceChild (node child : NodeReference)
  | replaceChildren (pieces : List Piece)
  | moveBefore (node : NodeReference) (child : Option NodeReference)
  /-- `insertBefore` of a node of the document `source`, which is adopted as `copies`. -/
  | insertForeign (source : Base) (node : NodeId) (child : Option NodeReference)
      (copies : List NodeId)
  /-- `replaceChild` with a node of the document `source`. -/
  | replaceForeign (source : Base) (node : NodeId) (child : NodeReference) (copies : List NodeId)

namespace DocumentCall

/-- Makes the call, if the checks admit it. -/
def step (fuel : Nat) (parsed : Parsed Base) : DocumentCall Base → Option (Parsed Base)
  | insertBefore node child => (TreeCall.insert (rootNode parsed.base) node child).step fuel parsed
  | replaceChild _ (.attr ..) => none
  | replaceChild node (.tree child) =>
    (TreeCall.replace (rootNode parsed.base) node child [child]).step fuel parsed
  | replaceChildren pieces =>
    if pieces.all (Piece.live parsed.base) then
      let (parsed, node) := assembleNodesIntoNode parsed pieces
      (TreeCall.replaceAll (rootNode parsed.base) (.tree node)).step fuel parsed
    else none
  | moveBefore (.attr ..) _ => none
  | moveBefore (.tree node) child =>
    (TreeCall.move (rootNode parsed.base) node child).step fuel parsed
  | insertForeign source node child copies =>
    match insertionFromDocument source parsed.base node child [] with
    | .ok reference =>
      if CopiesOf source parsed.base (rootNode parsed.base) (insertedNodes source node) copies then
        some (copies.foldl
          (fun parsed' copy => insertParsed parsed' (rootNode parsed.base) copy reference) parsed)
      else none
    | .error _ => none
  | replaceForeign _ _ (.attr ..) _ => none
  | replaceForeign source node (.tree child) copies =>
    match insertionFromDocument source parsed.base node (some (.tree child)) [child] with
    | .ok _ =>
      if CopiesOf source parsed.base (rootNode parsed.base) (insertedNodes source node) copies then
        some (replaceParsed parsed (rootNode parsed.base) child
          (foreignReplacement source node copies)).1
      else none
    | .error _ => none

/-- The doctypes that a call brings fit, and `moveBefore` moves no element ahead of a doctype. -/
def Keeps (parsed : Parsed Base) : DocumentCall Base → Prop
  | insertBefore node child => ∀ n ∈ node.tree?,
    DoctypesFit parsed.base (rootNode parsed.base) (child.bind NodeReference.tree?) []
      (insertedNodes parsed.base n)
  | replaceChild node child => ∀ n ∈ node.tree?, ∀ old ∈ child.tree?,
    DoctypesFit parsed.base (rootNode parsed.base) (some old) [old] (insertedNodes parsed.base n)
  | replaceChildren pieces =>
    let (assembled, node) := assembleNodesIntoNode parsed pieces
    DoctypesFit assembled.base (rootNode parsed.base) none
      (childIds assembled.base (rootNode parsed.base)) (insertedNodes assembled.base node)
  | moveBefore node child => ∀ n ∈ node.tree?, isElement parsed.base n = true →
    ∀ r ∈ (moveTarget parsed.base n child).reference,
      isDoctype parsed.base r = false ∧
        siblingDoctypeFollows parsed.base (rootNode parsed.base) r = false
  | insertForeign _ _ child copies =>
    DoctypesFit parsed.base (rootNode parsed.base) (child.bind NodeReference.tree?) [] copies
  | replaceForeign _ _ child copies => ∀ old ∈ child.tree?,
    DoctypesFit parsed.base (rootNode parsed.base) (some old) [old] copies

end DocumentCall

/-! ### Nodes of the same document -/

section
variable {base : Base} {document node : NodeId} {reference : Option NodeId}

variable {child : Option NodeReference} {nodeRef : NodeReference} {excluded : List NodeId}

theorem contentModel_of_ok {fuel : Nat}
    (h : insertionExcludingChildren fuel base (rootNode base) nodeRef child excluded =
      .ok (node, reference)) :
    ensureDocumentContentModel base (rootNode base) reference excluded
      (classifyInserted base node) = .ok () := by
  -- the checks before that of the document's children
  iterate 7 obtain ⟨_, -, h⟩ := Except.of_bind_ok h
  obtain ⟨_, hmodel, h⟩ := Except.of_bind_ok h
  obtain ⟨rfl, rfl⟩ := Prod.mk.inj (Except.ok.inj h)
  simp only [decide_true, if_true] at hmodel
  exact of_orThrow_ok hmodel

theorem admitted_or_new (h : Insertable base document node reference)
    (halone : isFragment base node = false → isDoctype base node = true →
      ensureDoctypePosition base document reference excluded = .ok ())
    (hdoc : ∃ n ∈ insertedNodes base node, isDoctype base n = true) :
    ensureDoctypePosition base document reference excluded = .ok () ∨
      ∀ n ∈ insertedNodes base node, n ∉ childIds base document := by
  rw [insertedNodes] at hdoc ⊢
  cases hfragment : isFragment base node with
  | true =>
    right
    rw [if_pos rfl]
    intro n hn hnd
    rw [childIds, Forest.mem_children] at hn hnd
    rw [hn] at hnd
    exact h.acyclic (Option.some.inj hnd ▸ Forest.mem_chain_self _ _)
  | false =>
    left
    rw [hfragment, if_neg Bool.false_ne_true] at hdoc
    obtain ⟨n, hn, hnd⟩ := hdoc
    rw [List.mem_singleton] at hn
    exact halone hfragment (hn ▸ hnd)

variable (laws : BlitzFragments.Laws Base) {parsed parsed' : Parsed Base} {fuel : Nat}
include laws

theorem contentModel_insert_iff
    (hmodel : ContentModel parsed.base (rootNode parsed.base))
    (h : (TreeCall.insert (rootNode parsed.base) nodeRef child).step fuel parsed = some parsed') :
    ContentModel parsed'.base (rootNode parsed.base) ↔
      (DocumentCall.insertBefore nodeRef child).Keeps parsed := by
  rw [TreeCall.step] at h
  split at h
  · rename_i n reference hok
    obtain rfl := Option.some.inj h
    obtain ⟨hins, hreference, rfl⟩ := insertable_of_ok hok
    obtain ⟨before, after, hkids, href⟩ := cut_of_mem hins.reference_mem
    have hslot : Slot (childIds parsed.base (rootNode parsed.base)) reference [] before after :=
      href ▸ .gap hkids
    obtain ⟨htext, hone, helements, halone⟩ :=
      of_ensureDocumentContentModel hslot (contentModel_of_ok hok)
    rw [contentModel_weave_iff hslot hmodel ⟨htext, hone, helements⟩ (admitted_or_new hins halone)
      (yields_insertParsed laws.toLaws hins hkids href)]
    simp [DocumentCall.Keeps, NodeReference.tree?, hreference]
  · cases h

theorem contentModel_replace_iff {old : NodeId}
    (hmodel : ContentModel parsed.base (rootNode parsed.base))
    (h : (TreeCall.replace (rootNode parsed.base) nodeRef old [old]).step fuel parsed =
      some parsed') :
    ContentModel parsed'.base (rootNode parsed.base) ↔
      (DocumentCall.replaceChild nodeRef (.tree old)).Keeps parsed := by
  rw [TreeCall.step] at h
  split at h
  · rename_i n reference hok
    obtain rfl := Option.some.inj h
    obtain ⟨hins, hreference, rfl⟩ := insertable_of_ok hok
    obtain rfl : reference = some old := hreference
    obtain ⟨before, after, hkids⟩ := List.append_of_mem (hins.reference_mem old rfl)
    have hslot : Slot (childIds parsed.base (rootNode parsed.base)) (some old) [old] before after :=
      .child hkids
    obtain ⟨htext, hone, helements, halone⟩ :=
      of_ensureDocumentContentModel hslot (contentModel_of_ok hok)
    have hy : Yields parsed (replaceParsed parsed (rootNode parsed.base) old
        (replaceTarget parsed.base n)).1 (rootNode parsed.base)
        (weave before (insertedNodes parsed.base n) after) := by
      rw [replaceTarget, insertedNodes]
      split
      · exact yields_replace_fragment laws.toLaws hins hkids
      · exact yields_replace_node laws.toLaws hins hkids
    rw [contentModel_weave_iff hslot hmodel ⟨htext, hone, helements⟩ (admitted_or_new hins halone) hy]
    simp [DocumentCall.Keeps, NodeReference.tree?]
  · cases h

theorem contentModel_replaceAll_iff
    (hmodel : ContentModel parsed.base (rootNode parsed.base))
    (h : (TreeCall.replaceAll (rootNode parsed.base) (.tree node)).step fuel parsed =
      some parsed') :
    ContentModel parsed'.base (rootNode parsed.base) ↔
      DoctypesFit parsed.base (rootNode parsed.base) none
        (childIds parsed.base (rootNode parsed.base)) (insertedNodes parsed.base node) := by
  rw [TreeCall.step] at h
  split at h
  · rename_i n reference hok
    obtain rfl := Option.some.inj h
    obtain ⟨hins, hreference, hn⟩ := insertable_of_ok hok
    obtain rfl := NodeReference.tree.inj hn
    obtain rfl : reference = none := hreference
    obtain ⟨htext, hone, helements, halone⟩ :=
      of_ensureDocumentContentModel .all (contentModel_of_ok hok)
    have hy := yields_replaceAllWithNode laws.toLaws hins.acyclic
    rw [show insertedNodes parsed.base node = weave [] (insertedNodes parsed.base node) [] by
      simp [weave]] at hy
    exact contentModel_weave_iff .all hmodel ⟨htext, hone, helements⟩ (admitted_or_new hins halone) hy
  · cases h

omit laws in
/-- What a move into the document node has been checked for. -/
theorem of_ensureCanMove {target : MoveTarget}
    (h : ensureCanMove base fuel (rootNode base) node target = .ok ()) :
    isText base node = false ∧ isDoctype base node = false ∧
      (isElement base node = true → ∀ c ∈ childIds base (rootNode base), c ≠ node →
        isElement base c = false) := by
  iterate 5 obtain ⟨_, -, h⟩ := Except.of_bind_ok h
  obtain ⟨_, hkind, h⟩ := Except.of_bind_ok h
  obtain ⟨_, htext, h⟩ := Except.of_bind_ok h
  obtain ⟨_, helement, -⟩ := Except.of_bind_ok h
  have hkind := of_refuse_ok hkind
  have htext := of_refuse_ok htext
  have helement := of_refuse_ok helement
  simp only [decide_true, Bool.true_and] at htext helement
  rw [classifyInserted] at hkind htext helement
  cases hfragment : isFragment base node with
  | true => simp [hfragment] at hkind
  | false =>
    simp only [hfragment, Bool.false_eq_true, if_false] at hkind htext helement
    cases hdata : data base node with
    | none => simp [hdata] at hkind
    | some d =>
      cases d <;> simp only [hdata] at hkind htext helement
      case element =>
        have hothers : ∀ c ∈ childIds base (rootNode base), c ≠ node → isElement base c = false := by
          simpa using helement
        exact ⟨by simp [isText, hdata], by simp [isDoctype, hdata], fun _ => hothers⟩
      case comment =>
        exact ⟨by simp [isText, hdata], by simp [isDoctype, hdata], by simp [isElement, hdata]⟩
      case processingInstruction =>
        exact ⟨by simp [isText, hdata], by simp [isDoctype, hdata], by simp [isElement, hdata]⟩
      all_goals simp at hkind htext

theorem contentModel_move_iff
    (hmodel : ContentModel parsed.base (rootNode parsed.base))
    (h : (TreeCall.move (rootNode parsed.base) node child).step fuel parsed = some parsed') :
    ContentModel parsed'.base (rootNode parsed.base) ↔
      (DocumentCall.moveBefore (.tree node) child).Keeps parsed := by
  rw [TreeCall.step] at h
  split at h
  · rename_i hok
    have hm := movable_of_ok hok
    have hj := joins_of_movable hm
    obtain ⟨old, hold⟩ := hm.parented
    obtain ⟨htext, hdoctype, helement⟩ := of_ensureCanMove hok
    obtain ⟨before, after, hkids, href⟩ := cut_of_mem fun r hr => (hj.ref_mem r hr).1
    split at h
    · obtain rfl := Option.some.inj h
      obtain ⟨hkidsText, horder⟩ := contentModel_iff.1 hmodel
      rw [(yields_moveParsed laws.toLaws hj hold hkids href).contentModel_iff]
      constructor
      · rintro ⟨-, hafter⟩ n hn hne r hr
        obtain rfl : node = n := Option.some.inj hn
        -- no doctype stands after the element, so none did after the reference child
        have hno : ∀ b ∈ after, isDoctype parsed.base b = false := fun b hb => by
          by_cases hbn : b = node
          · exact hbn ▸ hdoctype
          · rw [← Bool.not_eq_true]
            intro hbd
            rw [weave, List.append_assoc, List.pairwise_append, List.pairwise_append] at hafter
            exact (hafter.2.1.2.2 node (List.mem_singleton_self node) b
              (List.mem_filter.2 ⟨hb, by simpa using hbn⟩)).1 ⟨hne, .inr hbd⟩
        cases after with
        | nil => rw [← href] at hr; cases hr
        | cons x after =>
          obtain rfl : x = r := Option.some.inj (href.trans hr)
          rw [siblingDoctypeFollows_split hkids, List.any_eq_false]
          exact ⟨hno x List.mem_cons_self, fun b hb => by
            rw [hno b (List.mem_cons_of_mem _ hb)]
            exact Bool.false_ne_true⟩
      · intro hkeeps
        have hno : isElement parsed.base node = true → ∀ b ∈ after,
            isDoctype parsed.base b = false := by
          intro hne b hb
          cases after with
          | nil => cases hb
          | cons x after =>
            obtain ⟨hx, hfollows⟩ := hkeeps node rfl hne x href.symm
            rw [siblingDoctypeFollows_split hkids, List.any_eq_false] at hfollows
            rcases List.mem_cons.1 hb with rfl | hb
            · exact hx
            · exact Bool.not_eq_true _ ▸ hfollows b hb
        have hmem : ∀ c ∈ before ++ after, c ∈ childIds parsed.base (rootNode parsed.base) :=
          fun c hc => hkids ▸ hc
        refine ⟨fun c hc => ?_, pairwise_weave (hkids ▸ horder) (List.pairwise_singleton _ _) ?_ ?_⟩
        · rcases mem_weave.1 hc with hc | hc | hc
          · exact hkidsText c (hmem c (List.mem_append_left _ hc))
          · exact List.mem_singleton.1 hc ▸ htext
          · exact hkidsText c (hmem c (List.mem_append_right _ hc))
        · intro a ha hne n hn
          rw [List.mem_singleton] at hn hne
          subst hn
          constructor
          · rintro ⟨hae, hbe | hbd⟩
            · rw [helement hbe a (hmem a (List.mem_append_left _ ha)) hne] at hae
              cases hae
            · rw [hdoctype] at hbd
              cases hbd
          · rintro ⟨-, hbd⟩
            rw [hdoctype] at hbd
            cases hbd
        · intro n hn b hb hne
          rw [List.mem_singleton] at hn hne
          subst hn
          constructor
          · rintro ⟨hae, hbe | hbd⟩
            · rw [helement hae b (hmem b (List.mem_append_right _ hb)) hne] at hbe
              cases hbe
            · rw [hno hae b hb] at hbd
              cases hbd
          · rintro ⟨had, -⟩
            rw [hdoctype] at had
            cases had
    · cases h
  · cases h

/-! ### Several arguments -/

omit laws in
theorem joinsAll_insertedNodes {parent : NodeId} (h : Insertable base parent node none) :
    (tree base).JoinsAll parent (insertedNodes base node) none := by
  rw [insertedNodes]
  split
  · exact joinsAll_children h
  · refine ⟨List.nodup_singleton node, fun c hc => ?_, by simp⟩
    rw [List.mem_singleton.1 hc]
    exact h.acyclic

theorem rootNode_insertParsed_end {parent : NodeId} (h : Insertable parsed.base parent node none) :
    rootNode (insertParsed parsed parent node none).base = rootNode parsed.base := by
  have hplace : ∀ (cs : List NodeId) (base : Base),
      rootNode (cs.foldl (fun base child => placeOne base parent none child) base) =
        rootNode base := fun cs => by
    induction cs with
    | nil => exact fun _ => rfl
    | cons c cs ih => exact fun base => (ih _).trans (laws.rootNode_appendChildren base parent [c])
  rw [insertParsed]
  split
  · by_cases hne : (tree parsed.base).children node = []
    · rw [spliceParsed, if_pos (by simpa [childIds] using hne)]
    · rw [spliceParsed_eq parsed h.reference_mem hne]
      simp only [Parsed.base_record, Parsed.base_withRanges, Parsed.base_withBase, hplace]
  · rw [if_neg (by simp), placeJournaled, adjustPlaced, if_pos (by simp), placeInner,
      Parsed.base_record, Parsed.base_withBase]
    refine (laws.rootNode_appendChildren _ parent [node]).trans ?_
    cases hp : (tree parsed.base).parent node with
    | none => rw [unlinkJournaled_of_root parsed hp]
    | some p =>
      rw [unlinkJournaled_eq parsed hp]
      simp only [Parsed.base_record, Parsed.base_withRanges, Parsed.base_withBase,
        laws.rootNode_removeNode]

/-- While arguments are collected in `fragment`, the document only loses children. -/
structure Collected (parsed parsed' : Parsed Base) (fragment : NodeId) : Prop where
  root : rootNode parsed'.base = rootNode parsed.base
  kids : (childIds parsed'.base (rootNode parsed.base)).Sublist
    (childIds parsed.base (rootNode parsed.base))
  same : ∀ c ∈ childIds parsed'.base (rootNode parsed.base),
    data parsed'.base c = data parsed.base c
  apart : parentOf parsed'.base fragment = none
  fresh : data parsed'.base fragment = some (.fragment none)

variable {fragment : NodeId}

omit laws in
theorem Collected.contentModel (h : Collected parsed parsed' fragment)
    (hmodel : ContentModel parsed.base (rootNode parsed.base)) :
    ContentModel parsed'.base (rootNode parsed.base) := hmodel.of_sublist h.kids h.same

/-- One node more. -/
theorem Collected.insert {mid : Parsed Base}
    (h : Collected parsed mid fragment) (hne : node ≠ fragment) :
    Collected parsed (insertParsed mid fragment node none) fragment := by
  have hins : Insertable mid.base fragment node none := by
    refine ⟨?_, ?_, by simp⟩
    · simp [canHaveChildren, isFragment, h.fresh]
    · rw [Forest.chain_of_root h.apart, List.mem_singleton]
      exact hne
  have hj := joinsAll_insertedNodes hins
  have htree := tree_insertParsed_end laws.toLaws hins
  obtain ⟨before, after, hkids, href⟩ := cut_of_mem hins.reference_mem
  have hdata := (yields_insertParsed laws.toLaws hins hkids href).data
  have hdocument : rootNode parsed.base ≠ fragment := fun he => by
    have hroot := laws.data_rootNode mid.base
    rw [h.root, he, h.fresh] at hroot
    cases hroot
  have hsub : (childIds (insertParsed mid fragment node none).base (rootNode parsed.base)).Sublist
      (childIds mid.base (rootNode parsed.base)) := by
    rw [childIds, htree, hj.children_attachAll, if_neg hdocument]
    exact List.filter_sublist
  have hroots : fragment ∉ insertedNodes mid.base node := by
    rw [insertedNodes]
    split
    · exact fun hm => Forest.not_mem_children_of_root h.apart hm
    · simpa using Ne.symm hne
  refine ⟨(rootNode_insertParsed_end laws hins).trans h.root, hsub.trans h.kids, ?_, ?_, ?_⟩
  · intro c hc
    rw [hdata]
    exact h.same c (hsub.subset hc)
  · cases hp : parentOf (insertParsed mid fragment node none).base fragment with
    | none => rfl
    | some q =>
      rw [parentOf, ← Forest.mem_children, htree, hj.children_attachAll] at hp
      split at hp
      · rw [mem_place, List.mem_filter] at hp
        rcases hp with hp | hp
        · exact absurd hp.1 (Forest.not_mem_children_of_root h.apart)
        · exact absurd hp hroots
      · exact absurd (List.mem_of_mem_filter hp) (Forest.not_mem_children_of_root h.apart)
  · rw [hdata]
    exact h.fresh

theorem Collected.createText {mid : Parsed Base}
    (h : Collected parsed mid fragment) (text : Units) :
    Collected parsed (mid.withBase (createTextNode mid.base text).1) fragment ∧
      (createTextNode mid.base text).2 ≠ fragment := by
  obtain ⟨hdata, hroot, -⟩ := laws.fresh_createTextNode mid.base text
  have htree := laws.tree_createTextNode mid.base text
  have hne : (createTextNode mid.base text).2 ≠ fragment := fun he => by
    rw [he, h.fresh] at hdata
    cases hdata
  have hupdate : ∀ n ≠ (createTextNode mid.base text).2,
      data (createTextNode mid.base text).1 n = data mid.base n := fun n hn => by
    rw [laws.data_createTextNode, Function.update_of_ne hn]
  have hkids : childIds (createTextNode mid.base text).1 (rootNode parsed.base) =
      childIds mid.base (rootNode parsed.base) := by
    rw [childIds, htree]
    rfl
  refine ⟨⟨(laws.rootNode_createTextNode mid.base text).trans h.root, ?_, ?_, ?_, ?_⟩, hne⟩
  · rw [Parsed.base_withBase, hkids]
    exact h.kids
  · intro c hc
    rw [Parsed.base_withBase, hkids] at hc
    rw [Parsed.base_withBase, hupdate c, h.same c hc]
    rintro rfl
    exact Forest.not_mem_children_of_root hroot hc
  · rw [Parsed.base_withBase, parentOf, htree]
    exact h.apart
  · rw [Parsed.base_withBase, hupdate fragment (Ne.symm hne)]
    exact h.fresh

theorem Collected.all {mid : Parsed Base} (h : Collected parsed mid fragment)
    {pieces : List Piece} (hlive : ∀ id, Piece.node id ∈ pieces → id ≠ fragment) :
    Collected parsed (pieces.foldl (insertConvertedNode fragment) mid) fragment := by
  induction pieces generalizing mid with
  | nil => exact h
  | cons piece pieces ih =>
    rw [List.foldl_cons]
    refine ih ?_ fun id hid => hlive id (List.mem_cons_of_mem _ hid)
    cases piece with
    | node id => exact h.insert laws (hlive id List.mem_cons_self)
    | text text =>
      obtain ⟨hcreated, hne⟩ := h.createText laws text
      exact hcreated.insert laws hne

theorem collected_createFragmentNode (parsed : Parsed Base) :
    Collected parsed (parsed.withBase (createFragmentNode parsed.base).1)
      (createFragmentNode parsed.base).2 := by
  obtain ⟨-, hroot, -⟩ := laws.fresh_createFragmentNode parsed.base
  have htree := laws.tree_createFragmentNode parsed.base
  have hdata := laws.data_createFragmentNode parsed.base
  have hkids : childIds (createFragmentNode parsed.base).1 (rootNode parsed.base) =
      childIds parsed.base (rootNode parsed.base) := by
    rw [childIds, htree]
    rfl
  refine ⟨laws.rootNode_createFragmentNode parsed.base, ?_, ?_, ?_, ?_⟩
  · rw [Parsed.base_withBase, hkids]
  · intro c hc
    rw [Parsed.base_withBase, hkids] at hc
    rw [Parsed.base_withBase, hdata, Function.update_of_ne]
    rintro rfl
    exact Forest.not_mem_children_of_root hroot hc
  · rw [Parsed.base_withBase, parentOf, htree]
    exact hroot
  · rw [Parsed.base_withBase, hdata, Function.update_self]

/-- Collecting the arguments keeps the model: all it can do to the document is take children. -/
theorem contentModel_assemble {pieces : List Piece}
    (hlive : pieces.all (Piece.live parsed.base) = true)
    (hmodel : ContentModel parsed.base (rootNode parsed.base)) :
    rootNode (assembleNodesIntoNode parsed pieces).1.base = rootNode parsed.base ∧
      ContentModel (assembleNodesIntoNode parsed pieces).1.base (rootNode parsed.base) := by
  have hnode : ∀ id, Piece.node id ∈ pieces → id ≠ (createFragmentNode parsed.base).2 := by
    rintro id hid rfl
    have hsome : (data parsed.base _).isSome = true := List.all_eq_true.1 hlive _ hid
    rw [(laws.fresh_createFragmentNode parsed.base).1] at hsome
    cases hsome
  have hall := (collected_createFragmentNode laws parsed).all laws hnode
  rw [assembleNodesIntoNode.eq_def]
  split
  · exact ⟨rfl, hmodel⟩
  · rename_i text
    have hroot := (laws.fresh_createTextNode parsed.base text).2.1
    have htree := laws.tree_createTextNode parsed.base text
    have hkids : childIds (createTextNode parsed.base text).1 (rootNode parsed.base) =
        childIds parsed.base (rootNode parsed.base) := by
      rw [childIds, htree]
      rfl
    refine ⟨laws.rootNode_createTextNode parsed.base text, hmodel.of_sublist ?_ fun c hc => ?_⟩
    · exact hkids ▸ List.Sublist.refl _
    · have hc : c ∈ childIds parsed.base (rootNode parsed.base) := hkids ▸ hc
      show data (createTextNode parsed.base text).1 c = _
      rw [laws.data_createTextNode, Function.update_of_ne]
      rintro rfl
      exact Forest.not_mem_children_of_root hroot hc
  · exact ⟨hall.root, hall.contentModel hmodel⟩

theorem contentModel_replaceChildren_iff {pieces : List Piece}
    (hmodel : ContentModel parsed.base (rootNode parsed.base))
    (h : (DocumentCall.replaceChildren pieces).step fuel parsed = some parsed') :
    ContentModel parsed'.base (rootNode parsed.base) ↔
      (DocumentCall.replaceChildren pieces).Keeps parsed := by
  rw [DocumentCall.step] at h
  split at h
  · rename_i hlive
    obtain ⟨hroot, hassembled⟩ := contentModel_assemble laws hlive hmodel
    dsimp only at h
    rw [← hroot] at hassembled
    have hiff := contentModel_replaceAll_iff laws hassembled h
    rw [hroot] at hiff
    exact hiff
  · cases h

/-! ### Nodes of another document -/

variable {source : Base}

omit laws in
theorem map_copies {originals copies : List NodeId}
    (h : List.Forall₂ (SameKind source base) originals copies) :
    copies.map (isElement base) = originals.map (isElement source) ∧
      copies.map (isText base) = originals.map (isText source) ∧
        copies.map (isDoctype base) = originals.map (isDoctype source) := by
  induction h with
  | nil => exact ⟨rfl, rfl, rfl⟩
  | cons hkind _ ih =>
    obtain ⟨helement, htext, hdoctype⟩ := hkind
    simp only [List.map_cons, helement, htext, hdoctype, ih, and_self]

omit laws in
theorem exists_map_iff {p : NodeId → Bool} {l : List NodeId} :
    (∃ n ∈ l, p n = true) ↔ true ∈ l.map p := by
  simp

omit laws in
/-- The check of the originals holds for their copies. -/
theorem checked_of_copies
    {excluded before after copies : List NodeId}
    (h : insertionFromDocument source base node child excluded = .ok reference)
    (hcopies : CopiesOf source base document (insertedNodes source node) copies)
    (hslot : Slot (childIds base (rootNode base)) reference excluded before after) :
    Checked base copies before after := by
  iterate 4 obtain ⟨_, -, h⟩ := Except.of_bind_ok h
  obtain ⟨_, hcheck, h⟩ := Except.of_bind_ok h
  obtain rfl := Except.ok.inj h
  obtain ⟨htext, hone, helements, -⟩ :=
    of_ensureDocumentContentModel hslot (of_orThrow_ok hcheck)
  obtain ⟨-, -, hlength, hkinds⟩ := hcopies
  obtain ⟨helement, htext', -⟩ := map_copies
    (List.forall₂_iff_zip.2 ⟨hlength, fun {o c} hoc => hkinds (o, c) hoc⟩)
  constructor
  · intro c hc
    have hm : isText base c ∈ (insertedNodes source node).map (isText source) :=
      htext' ▸ List.mem_map_of_mem hc
    obtain ⟨o, ho, he⟩ := List.mem_map.1 hm
    exact he ▸ htext o ho
  · have hcount := List.countP_map (p := id) (f := isElement base) (l := copies)
    have hcount' := List.countP_map (p := id) (f := isElement source)
      (l := insertedNodes source node)
    rw [helement, hcount'] at hcount
    show copies.countP (id ∘ isElement base) ≤ 1
    rw [← hcount]
    exact hone
  · intro he
    rw [exists_map_iff, helement, ← exists_map_iff] at he
    exact helements he

omit laws in
theorem reference_of_insertionFromDocument
    (h : insertionFromDocument source base node child excluded = .ok reference) :
    reference = child.bind NodeReference.tree? ∧
      ∀ r ∈ reference, r ∈ childIds base (rootNode base) := by
  obtain ⟨_, -, h⟩ := Except.of_bind_ok h
  obtain ⟨_, hparented, h⟩ := Except.of_bind_ok h
  obtain ⟨_, -, h⟩ := Except.of_bind_ok h
  obtain ⟨_, -, h⟩ := Except.of_bind_ok h
  obtain ⟨_, -, h⟩ := Except.of_bind_ok h
  obtain rfl := Except.ok.inj h
  refine ⟨rfl, fun r hr => ?_⟩
  rw [hr] at hparented
  exact mem_of_ensureParented (of_orThrow_ok hparented)

omit laws in
theorem new_of_adopted {copies : List NodeId} (h : Adopted base document copies) :
    ∀ n ∈ copies, n ∉ childIds base document := fun n hn =>
  Forest.not_mem_children_of_root (h.2 n hn).1

theorem contentModel_insertForeign_iff
    {copies : List NodeId} (hmodel : ContentModel parsed.base (rootNode parsed.base))
    (h : (DocumentCall.insertForeign source node child copies).step fuel parsed = some parsed') :
    ContentModel parsed'.base (rootNode parsed.base) ↔
      (DocumentCall.insertForeign source node child copies).Keeps parsed := by
  rw [DocumentCall.step] at h
  split at h
  · rename_i reference hok
    split at h
    · rename_i hcopies
      obtain rfl := Option.some.inj h
      obtain ⟨hreference, hmem⟩ := reference_of_insertionFromDocument hok
      obtain ⟨before, after, hkids, href⟩ := cut_of_mem hmem
      have hslot : Slot (childIds parsed.base (rootNode parsed.base)) reference [] before after :=
        href ▸ .gap hkids
      rw [contentModel_weave_iff hslot hmodel (checked_of_copies hok hcopies hslot)
        (fun _ => .inr (new_of_adopted hcopies.1))
        (yields_insertEach laws.toLaws hcopies.1 hcopies.2.1 hkids href), hreference]
      rfl
    · cases h
  · cases h

theorem contentModel_replaceForeign_iff {child : NodeReference}
    {copies : List NodeId} (hmodel : ContentModel parsed.base (rootNode parsed.base))
    (h : (DocumentCall.replaceForeign source node child copies).step fuel parsed = some parsed') :
    ContentModel parsed'.base (rootNode parsed.base) ↔
      (DocumentCall.replaceForeign source node child copies).Keeps parsed := by
  cases child with
  | attr scope id => cases h
  | tree old =>
    rw [DocumentCall.step] at h
    split at h
    · rename_i reference hok
      split at h
      · rename_i hcopies
        obtain ⟨hreference, hmem⟩ := reference_of_insertionFromDocument hok
        obtain rfl : reference = some old := hreference
        obtain ⟨before, after, hkids⟩ := List.append_of_mem (hmem old rfl)
        have hslot : Slot (childIds parsed.base (rootNode parsed.base)) (some old) [old] before
          after := .child hkids
        obtain rfl := Option.some.inj h
        have hy : Yields parsed (replaceParsed parsed (rootNode parsed.base) old
            (foreignReplacement source node copies)).1 (rootNode parsed.base)
            (weave before copies after) := by
          rw [foreignReplacement.eq_def]
          split
          · rename_i copy _
            have hacyclic := (hcopies.1.2 copy (List.mem_singleton_self copy)).2
            exact yields_replace_node laws.toLaws
              ⟨by simp [canHaveChildren], hacyclic, hmem⟩ hkids
          · exact yields_replace_adopted laws.toLaws hcopies.1 hkids
        rw [contentModel_weave_iff hslot hmodel (checked_of_copies hok hcopies hslot)
          (fun _ => .inr (new_of_adopted hcopies.1)) hy]
        simp [DocumentCall.Keeps, NodeReference.tree?]
      · cases h
    · cases h

/-- Every call on a document node that the checks accept keeps its content model exactly when the
doctypes it brings fit and it moves no element ahead of a doctype. -/
theorem contentModel_step_iff {call : DocumentCall Base}
    (hmodel : ContentModel parsed.base (rootNode parsed.base))
    (h : call.step fuel parsed = some parsed') :
    ContentModel parsed'.base (rootNode parsed.base) ↔ call.Keeps parsed := by
  cases call with
  | insertBefore nodeRef child => exact contentModel_insert_iff laws hmodel h
  | replaceChild nodeRef child =>
    cases child with
    | attr scope id => cases h
    | tree old => exact contentModel_replace_iff laws hmodel h
  | replaceChildren pieces => exact contentModel_replaceChildren_iff laws hmodel h
  | moveBefore nodeRef child =>
    cases nodeRef with
    | attr scope id => cases h
    | tree n => exact contentModel_move_iff laws hmodel h
  | insertForeign source n child copies => exact contentModel_insertForeign_iff laws hmodel h
  | replaceForeign source n child copies => exact contentModel_replaceForeign_iff laws hmodel h

end

theorem step_move_of_ok {Base : Type} [Blitz Base] {parsed : Parsed Base} {fuel : Nat}
    {parent node : NodeId} {child : Option NodeReference}
    (h : ensureCanMove parsed.base fuel parent node (moveTarget parsed.base node child) = .ok ())
    (hparent : canHaveChildren parsed.base parent = true) :
    (TreeCall.move parent node child).step fuel parsed =
      some (moveParsed parsed parent node (moveTarget parsed.base node child)) := by
  rw [TreeCall.step, h]
  exact if_pos hparent

/-- A document with a doctype and then its document element, which no observer watches. -/
def doctypeAndElement : Parsed Doc :=
  ⟨.ofChildren [.doctype, .element], ⟨[], 0, false, .ofList [], .empty⟩⟩

theorem contentModel_doctypeAndElement : ContentModel doctypeAndElement.base 0 := by
  have hkids : childIds doctypeAndElement.base 0 = [1, 2] := rfl
  refine ⟨?_, ?_, ?_, ?_⟩ <;> rw [hkids] <;> decide +kernel

/-- The element goes to the end, where it is. -/
theorem contentModel_step_iff_atEnd :
    ∃ parsed', (DocumentCall.moveBefore (.tree 2) none).step 4 doctypeAndElement = some parsed' ∧
      (ContentModel parsed'.base 0 ↔
        (DocumentCall.moveBefore (.tree 2) none).Keeps doctypeAndElement) := by
  have hmove : (TreeCall.move 0 2 none).step 4 doctypeAndElement =
      some (moveParsed doctypeAndElement 0 2 (moveTarget doctypeAndElement.base 2 none)) :=
    step_move_of_ok (by decide +kernel) (by decide)
  have hstep : (DocumentCall.moveBefore (.tree 2) none).step 4 doctypeAndElement =
      some (moveParsed doctypeAndElement 0 2 (moveTarget doctypeAndElement.base 2 none)) := hmove
  exact ⟨_, hstep, contentModel_step_iff Doc.fragmentLaws contentModel_doctypeAndElement hstep⟩

/-- `document.moveBefore(document.documentElement, document.doctype)` is admitted, and the doctype
follows the element. -/
theorem not_contentModel_of_moveBefore :
    ContentModel doctypeAndElement.base 0 ∧
    ∃ parsed', (DocumentCall.moveBefore (.tree 2) (some (.tree 1))).step 4 doctypeAndElement =
        some parsed' ∧ ¬ ContentModel parsed'.base 0 := by
  have hstep : (TreeCall.move 0 2 (some (.tree 1))).step 4 doctypeAndElement =
      some (moveParsed doctypeAndElement 0 2
        (moveTarget doctypeAndElement.base 2 (some (.tree 1)))) :=
    step_move_of_ok (by decide +kernel) (by decide)
  have hiff := contentModel_move_iff Doc.fragmentLaws contentModel_doctypeAndElement hstep
  refine ⟨contentModel_doctypeAndElement, _, hstep, fun h => ?_⟩
  have hkeeps := hiff.1 h 2 rfl (by decide) 1 rfl
  exact absurd hkeeps.1 (by decide)

end TinyBrowser.Dom
