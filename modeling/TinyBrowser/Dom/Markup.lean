import TinyBrowser.Dom.Serialization
import TinyBrowser.Dom.Arena
import TinyBrowser.Lib.Codes

/-!
# Inner and outer markup

The outer markup of an element is its inner markup between its tags, each text and comment in it with
its own units, as far as `KeepsMarkup` says (`markup_iff`). The inner serialization starts without
the element, so it escapes the text of a `script`; both take text from the tree, which has no unpaired
surrogates; and a template that script has read can still hold nodes of its own.
-/

namespace TinyBrowser.Dom
open Lib Blitz BlitzFragments BlitzNodes

/-! ### Escapes -/

/-- Nothing to escape. -/
def PlainText (text : Units) : Prop := ∀ u ∈ text, textReferences.lookup u = none

theorem escapeUnit_of_none {u : UInt16} (h : textReferences.lookup u = none) :
    escapeUnit textReferences u = [u] := by
  rw [escapeUnit, h]
  rfl

theorem lookup_textReferences {u : UInt16} {word : String} (h : textReferences.lookup u = some word) :
    (u, word) ∈ textReferences := by
  obtain ⟨before, after, hrefs, -⟩ := List.lookup_eq_some_iff.1 h
  rw [hrefs]
  simp

theorem escapeUnit_cases (u : UInt16) :
    (textReferences.lookup u = none ∧ escapeUnit textReferences u = [u]) ∨
      ∃ word, (u, word) ∈ textReferences ∧ escapeUnit textReferences u = encodeUtf16 word := by
  cases h : textReferences.lookup u with
  | none => exact .inl ⟨rfl, escapeUnit_of_none h⟩
  | some word => exact .inr ⟨word, lookup_textReferences h, by rw [escapeUnit, h]; rfl⟩

/-- Every reference starts with an ampersand, which is escaped itself. -/
theorem isCode_escapeUnit : IsCode (escapeUnit textReferences) := by
  have hwords : (textReferences.all fun r => decide ((encodeUtf16 r.2).head? = some 0x26)) = true := by
    decide
  have hapart : (textReferences.all fun r => textReferences.all fun r' =>
      r.1 == r'.1 || !(encodeUtf16 r.2).isPrefixOf (encodeUtf16 r'.2)) = true := by
    decide
  have hhead : ∀ u word, (u, word) ∈ textReferences → (encodeUtf16 word).head? = some 0x26 :=
    fun u word h => of_decide_eq_true (List.all_eq_true.1 hwords (u, word) h)
  have hescaped : textReferences.lookup 0x26 ≠ none := by decide
  constructor
  · intro u hu
    rcases escapeUnit_cases u with ⟨-, h⟩ | ⟨word, hword, h⟩
    · rw [h] at hu
      cases hu
    · have := hhead u word hword
      rw [← h, hu] at this
      cases this
  · intro u v huv
    rcases escapeUnit_cases u with ⟨hu, h⟩ | ⟨word, hword, h⟩ <;>
      rcases escapeUnit_cases v with ⟨hv, h'⟩ | ⟨word', hword', h'⟩ <;> rw [h, h'] at huv
    · exact (List.cons_prefix_cons.1 huv).1
    · have hsame := hhead v word' hword'
      obtain ⟨t, ht⟩ := huv
      rw [← ht] at hsame
      exact absurd (Option.some.inj hsame ▸ hu) hescaped
    · have hsame := hhead u word hword
      cases hw : encodeUtf16 word with
      | nil => rw [hw] at hsame; cases hsame
      | cons x rest =>
        rw [hw] at hsame huv
        obtain rfl := Option.some.inj hsame
        exact absurd ((List.cons_prefix_cons.1 huv).1 ▸ hv) hescaped
    · have h := List.all_eq_true.1 (List.all_eq_true.1 hapart _ hword) _ hword'
      rw [List.isPrefixOf_iff_prefix.2 huv] at h
      simpa using h

theorem escapedHtmlText_of_plain {text : Units} (h : PlainText text) : escapedHtmlText text = text := by
  induction text with
  | nil => rfl
  | cons u text ih =>
    obtain ⟨hu, htext⟩ := List.forall_mem_cons.1 h
    have hrest : text.flatMap (escapeUnit textReferences) = text := ih htext
    rw [escapedHtmlText, List.flatMap_cons, escapeUnit_of_none hu, hrest]
    rfl

theorem length_le_escaped (text : Units) : text.length ≤ (escapedHtmlText text).length :=
  length_le_flatMap isCode_escapeUnit.ne_nil text

theorem length_lt_escaped {text : Units} (h : ¬ PlainText text) :
    text.length < (escapedHtmlText text).length := by
  have hlong : (textReferences.all fun r => decide (1 < (encodeUtf16 r.2).length)) = true := by decide
  rw [PlainText] at h
  push Not at h
  obtain ⟨u, hu, hescaped⟩ := h
  refine exists_long_of_length isCode_escapeUnit.ne_nil hu ?_
  rcases escapeUnit_cases u with ⟨hnone, -⟩ | ⟨word, hword, heq⟩
  · exact absurd hnone hescaped
  · have hword := List.all_eq_true.1 hlong (u, word) hword
    rw [heq]
    exact of_decide_eq_true hword

/-! ### What is written for a list of nodes -/

variable {Base FormState : Type} [BlitzNodes Base FormState]
  {write write' : NodeId → Option Units} {nodes : List NodeId} {base : Base}

theorem writeAll_cons {n : NodeId} {u : Units} : writeAll write (n :: nodes) = some u ↔
    ∃ v w, write n = some v ∧ writeAll write nodes = some w ∧ u = v ++ w := by
  simp only [writeAll, List.mapM_cons, Option.map_eq_some_iff, Option.bind_eq_bind,
    Option.bind_eq_some_iff, Option.pure_def, Option.some.injEq]
  constructor
  · rintro ⟨_, ⟨v, hv, us, hus, rfl⟩, rfl⟩
    exact ⟨v, _, hv, ⟨us, hus, rfl⟩, rfl⟩
  · rintro ⟨v, _, hv, ⟨us, hus, rfl⟩, rfl⟩
    exact ⟨_, ⟨v, hv, us, hus, rfl⟩, rfl⟩

theorem writeAll_congr (h : ∀ n ∈ nodes, write n = write' n) :
    writeAll write nodes = writeAll write' nodes := by
  have hmap : nodes.mapM write = nodes.mapM write' := by
    induction nodes with
    | nil => rfl
    | cons n nodes ih =>
      obtain ⟨hn, hnodes⟩ := List.forall_mem_cons.1 h
      rw [List.mapM_cons, List.mapM_cons, hn, ih hnodes]
  rw [writeAll, writeAll, hmap]

theorem exists_of_writeAll {u : Units} (h : writeAll write nodes = some u) :
    ∀ n ∈ nodes, ∃ v, write n = some v := by
  induction nodes generalizing u with
  | nil => nofun
  | cons n nodes ih =>
    obtain ⟨v, w, hv, hw, -⟩ := writeAll_cons.1 h
    exact List.forall_mem_cons.2 ⟨⟨v, hv⟩, ih hw⟩

theorem writeAll_eq_nil_iff {u : Units} (h : writeAll write nodes = some u) :
    u = [] ↔ ∀ n ∈ nodes, write n = some [] := by
  induction nodes generalizing u with
  | nil =>
    obtain rfl := Option.some.inj h
    exact iff_of_true rfl nofun
  | cons n nodes ih =>
    obtain ⟨v, w, hv, hw, rfl⟩ := writeAll_cons.1 h
    rw [List.append_eq_nil_iff, ih hw, List.forall_mem_cons, hv, Option.some.injEq]

theorem length_writeAll {u u' : Units} (h : writeAll write nodes = some u)
    (h' : writeAll write' nodes = some u')
    (hle : ∀ n ∈ nodes, ∀ v v', write n = some v → write' n = some v' → v'.length ≤ v.length) :
    u'.length ≤ u.length ∧ ∀ n ∈ nodes, (∀ v v', write n = some v → write' n = some v' →
      v'.length < v.length) → u'.length < u.length := by
  induction nodes generalizing u u' with
  | nil =>
    obtain rfl := Option.some.inj h
    obtain rfl := Option.some.inj h'
    exact ⟨Nat.le_refl _, nofun⟩
  | cons n nodes ih =>
    obtain ⟨v, w, hv, hw, rfl⟩ := writeAll_cons.1 h
    obtain ⟨v', w', hv', hw', rfl⟩ := writeAll_cons.1 h'
    obtain ⟨hn, hnodes⟩ := List.forall_mem_cons.1 hle
    obtain ⟨hrest, hless⟩ := ih hw hw' hnodes
    have hfirst := hn v v' hv hv'
    simp only [List.length_append]
    refine ⟨by omega, List.forall_mem_cons.2 ⟨fun hlt => ?_, fun m hm hlt => ?_⟩⟩
    · have := hlt v v' hv hv'
      omega
    · have := hless m hm hlt
      omega

/-! ### Text with and without its element -/

/-- A node whose children are written in its place. -/
def transparent (base : Base) (id : NodeId) : Bool :=
  match nodeData base id with
  | some .anonymousBlock | some (.fragment _) | some (.shadowRoot _) => true
  | _ => false

/-- Text that is written under the element the node `id` is under. -/
inductive TextUnder (base : Base) : NodeId → Units → Prop
  | text {id : NodeId} {content : Units} (h : nodeData base id = some (.text content)) :
    TextUnder base id content
  | cdata {id : NodeId} {contents : Units} (h : nodeData base id = some (.cdataSection contents)) :
    TextUnder base id contents
  | inside {id child : NodeId} {content : Units} (h : transparent base id = true)
    (hchild : child ∈ childIds base id) (htext : TextUnder base child content) :
    TextUnder base id content

/-- Nothing is written. -/
inductive Silent (base : Base) : NodeId → Prop
  | gone {id : NodeId} (h : nodeData base id = none ∨ nodeData base id = some .document) : Silent base id
  | text {id : NodeId} (h : nodeData base id = some (.text []) ∨
      nodeData base id = some (.cdataSection [])) : Silent base id
  | inside {id : NodeId} (h : transparent base id = true) (hall : ∀ child ∈ childIds base id,
      Silent base child) : Silent base id

theorem serializeHtmlNode_transparent {id : NodeId} (h : transparent base id = true) (fuel : Nat)
    (parent : Option QualName) : serializeHtmlNode base (fuel + 1) id parent =
      writeAll (fun child => serializeHtmlNode base fuel child parent) (childIds base id) := by
  rw [transparent] at h
  rw [serializeHtmlNode]
  cases hd : nodeData base id with
  | none => rw [hd] at h; cases h
  | some d =>
    rw [hd] at h
    cases d with
    | anonymousBlock | fragment | shadowRoot => rfl
    | document | element | text | comment | processingInstruction | cdataSection | doctype => cases h

/-- How a text is written under `parent`. -/
def textMarkup (parent : Option QualName) (text : Units) : Units :=
  if parent.any isRawText then text else escapedHtmlText text

theorem serializeHtmlNode_congr {fuel : Nat} {id : NodeId} {parent parent' : Option QualName}
    (h : ∀ text, TextUnder base id text → textMarkup parent text = textMarkup parent' text) :
    serializeHtmlNode base fuel id parent = serializeHtmlNode base fuel id parent' := by
  induction fuel generalizing id with
  | zero => rfl
  | succ fuel ih =>
    cases htransparent : transparent base id with
    | true =>
      rw [serializeHtmlNode_transparent htransparent, serializeHtmlNode_transparent htransparent]
      exact writeAll_congr fun child hchild =>
        ih fun text htext => h text (.inside htransparent hchild htext)
    | false =>
      rw [transparent] at htransparent
      rw [serializeHtmlNode, serializeHtmlNode]
      cases hd : nodeData base id with
      | none => rfl
      | some d =>
        rw [hd] at htransparent
        cases d with
        | anonymousBlock | fragment | shadowRoot => cases htransparent
        | text content => exact congrArg some (h content (.text hd))
        | cdataSection contents => exact congrArg some (h contents (.cdata hd))
        | document | element | comment | processingInstruction | doctype => rfl

variable {name : QualName}

/-- Raw text is no longer than escaped text, and shorter where something is escaped. -/
theorem length_serializeHtmlNode {fuel : Nat} {id : NodeId}
    (hraw : isRawText name = true) {u v : Units}
    (hu : serializeHtmlNode base fuel id none = some u)
    (hv : serializeHtmlNode base fuel id (some name) = some v) :
    v.length ≤ u.length ∧
      ∀ text, TextUnder base id text → ¬ PlainText text → v.length < u.length := by
  induction fuel generalizing id u v with
  | zero => cases hu
  | succ fuel ih =>
    cases htransparent : transparent base id with
    | true =>
      rw [serializeHtmlNode_transparent htransparent] at hu hv
      obtain ⟨hle, hlt⟩ := length_writeAll hu hv fun child _ w w' hw hw' => (ih hw hw').1
      refine ⟨hle, fun text htext hplain => ?_⟩
      cases htext with
      | text hd | cdata hd => rw [transparent, hd] at htransparent; cases htransparent
      | @inside _ child _ _ hchild htext =>
        exact hlt child hchild fun w w' hw hw' => (ih hw hw').2 text htext hplain
    | false =>
      have hsame : ∀ text, TextUnder base id text →
          nodeData base id = some (.text text) ∨ nodeData base id = some (.cdataSection text) := by
        intro text htext
        cases htext with
        | text hd => exact .inl hd
        | cdata hd => exact .inr hd
        | inside h => rw [htransparent] at h; cases h
      rw [transparent] at htransparent
      rw [serializeHtmlNode] at hu hv
      cases hd : nodeData base id with
      | none =>
        rw [hd] at hu hv hsame
        obtain rfl := Option.some.inj (hu.symm.trans hv)
        exact ⟨Nat.le_refl _, fun text htext => by simpa using hsame text htext⟩
      | some d =>
        rw [hd] at hu hv hsame htransparent
        cases d with
        | anonymousBlock | fragment | shadowRoot => cases htransparent
        | text content | cdataSection content =>
          simp only [Option.any_none, Bool.false_eq_true, if_false, Option.some.injEq] at hu
          simp only [Option.any_some, hraw, if_true, Option.some.injEq] at hv
          subst hu hv
          refine ⟨length_le_escaped _, fun text htext hplain => ?_⟩
          obtain rfl : content = text := by simpa using hsame text htext
          exact length_lt_escaped hplain
        | document | element | comment | processingInstruction | doctype =>
          obtain rfl := Option.some.inj (hu.symm.trans hv)
          exact ⟨Nat.le_refl _, fun text htext => by simpa using hsame text htext⟩

theorem escapedHtmlText_eq_nil_iff {text : Units} : escapedHtmlText text = [] ↔ text = [] := by
  cases text with
  | nil => exact iff_of_true rfl rfl
  | cons u text =>
    refine iff_of_false (fun h => ?_) (List.cons_ne_nil u text)
    exact isCode_escapeUnit.ne_nil u (List.append_eq_nil_iff.1 h).1

variable {parent : Option QualName}

theorem textMarkup_eq_nil_iff {text : Units} :
    textMarkup parent text = [] ↔ text = [] := by
  rw [textMarkup]
  split_ifs
  · exact Iff.rfl
  · exact escapedHtmlText_eq_nil_iff

theorem textMarkup_inj {text text' : Units}
    (h : textMarkup parent text = textMarkup parent text') : text = text' := by
  rw [textMarkup, textMarkup] at h
  split_ifs at h
  · exact h
  · exact isCode_escapeUnit.flatMap_inj h

theorem encodeUtf16_append_ne_nil {s : String} (hs : encodeUtf16 s ≠ []) (u : Units) :
    encodeUtf16 s ++ u ≠ [] := fun h => hs (List.append_eq_nil_iff.1 h).1

theorem htmlStartTag_ne_nil (name : QualName) (attributes : List Attribute) :
    htmlStartTag name attributes ≠ [] := by
  rw [htmlStartTag, List.append_assoc, List.append_assoc]
  exact encodeUtf16_append_ne_nil (by decide) _

theorem serializeHtmlNode_eq_nil_iff {fuel : Nat} {id : NodeId}
    {u : Units} (hu : serializeHtmlNode base fuel id parent = some u) : u = [] ↔ Silent base id := by
  induction fuel generalizing id u with
  | zero => cases hu
  | succ fuel ih =>
    have hsilent : Silent base id → nodeData base id = none ∨ nodeData base id = some .document ∨
        nodeData base id = some (.text []) ∨ nodeData base id = some (.cdataSection []) ∨
        (transparent base id = true ∧ ∀ child ∈ childIds base id, Silent base child) := by
      rintro (⟨h | h⟩ | ⟨h | h⟩ | ⟨h, hall⟩)
      exacts [.inl h, .inr (.inl h), .inr (.inr (.inl h)), .inr (.inr (.inr (.inl h))),
        .inr (.inr (.inr (.inr ⟨h, hall⟩)))]
    cases htransparent : transparent base id with
    | true =>
      rw [serializeHtmlNode_transparent htransparent] at hu
      rw [writeAll_eq_nil_iff hu]
      constructor
      · intro h
        exact .inside htransparent fun child hchild => (ih (h child hchild)).1 rfl
      · intro h child hchild
        obtain ⟨v, hv⟩ := exists_of_writeAll hu child hchild
        rw [transparent] at htransparent
        rcases hsilent h with h | h | h | h | ⟨-, hall⟩
        · rw [h] at htransparent; cases htransparent
        · rw [h] at htransparent; cases htransparent
        · rw [h] at htransparent; cases htransparent
        · rw [h] at htransparent; cases htransparent
        · rw [hv, (ih hv).2 (hall child hchild)]
    | false =>
      rw [htransparent] at hsilent
      rw [transparent] at htransparent
      rw [serializeHtmlNode] at hu
      cases hd : nodeData base id with
      | none =>
        rw [hd] at hu
        exact iff_of_true (Option.some.inj hu).symm (.gone (.inl hd))
      | some d =>
        rw [hd] at hu hsilent htransparent
        cases d with
        | anonymousBlock | fragment | shadowRoot => cases htransparent
        | document => exact iff_of_true (Option.some.inj hu).symm (.gone (.inr hd))
        | text content =>
          obtain rfl : textMarkup parent content = u := Option.some.inj hu
          rw [textMarkup_eq_nil_iff]
          exact ⟨fun h => .text (.inl (h ▸ hd)), fun h => by simpa using hsilent h⟩
        | cdataSection content =>
          obtain rfl : textMarkup parent content = u := Option.some.inj hu
          rw [textMarkup_eq_nil_iff]
          exact ⟨fun h => .text (.inr (h ▸ hd)), fun h => by simpa using hsilent h⟩
        | element e =>
          refine iff_of_false (fun h => ?_) fun h => by simpa using hsilent h
          subst h
          dsimp only at hu
          rw [writeHtmlElement] at hu
          split_ifs at hu
          · exact htmlStartTag_ne_nil _ _ (Option.some.inj hu)
          · obtain ⟨inner, -, hinner⟩ := Option.map_eq_some_iff.1 hu
            rw [List.append_assoc] at hinner
            exact htmlStartTag_ne_nil _ _ (List.append_eq_nil_iff.1 hinner).1
        | comment | processingInstruction | doctype =>
          refine iff_of_false (fun h => ?_) fun h => by simpa using hsilent h
          subst h
          have hnil := Option.some.inj hu
          simp only [List.append_assoc] at hnil
          exact encodeUtf16_append_ne_nil (by decide) _ hnil

/-! ### Template contents that have moved -/

theorem spliceBeforeCloseTag_append {a b : Units} (hb : 0x3C ∉ b) (children : Units) :
    spliceBeforeCloseTag (a ++ 0x3C :: b) children = a ++ children ++ 0x3C :: b := by
  have hlast : ((a ++ 0x3C :: b).reverse.takeWhile (· ≠ 0x3C)).length = b.length := by
    rw [List.reverse_append, List.reverse_cons, List.append_assoc,
      List.takeWhile_append_of_pos fun u hu => by
        simpa using fun h : u = 0x3C => hb (h ▸ List.mem_reverse.1 hu)]
    simp
  have hstop : (a ++ 0x3C :: b).length - b.length - 1 = a.length := by
    rw [List.length_append, List.length_cons]
    omega
  rw [spliceBeforeCloseTag, if_pos (by simp)]
  dsimp only
  rw [hlast, hstop, List.take_left, List.drop_left]

theorem splice_template (h : isTemplateTag name = true) (shell children : Units) :
    spliceBeforeCloseTag (shell ++ htmlEndTag name) children = shell ++ children ++ htmlEndTag name := by
  obtain ⟨hns, hlocal⟩ : name.ns = htmlNamespace ∧ name.localName = "template" := by
    simpa [isTemplateTag] using h
  have hname : htmlElementName name = encodeUtf16 "template" := by
    rw [htmlElementName, hns, if_pos (List.mem_cons_self ..), hlocal]
  rw [htmlEndTag, hname]
  exact spliceBeforeCloseTag_append (by decide) children

/-! ### Outer and inner markup -/

/-- The children of a live node. -/
def shownChildren (base : Base) (id : NodeId) : List NodeId :=
  if (nodeData base id).isNone then [] else childIds base id

/-- `fuel` is enough to write the nodes. -/
def Ends (base : Base) (fuel : Nat) (nodes : List NodeId) : Prop :=
  ∀ n ∈ nodes, ∃ s : Rose NodeId, s.Follows (writtenBelow base) ∧ s.value = n ∧ s.values.length ≤ fuel

/-- The text of a Text or Comment node in the tree. -/
def treeText (base : Base) (id : NodeId) : Option Units :=
  match nodeData base id with
  | some (.text text) | some (.cdataSection text) | some (.comment text) => some text
  | _ => none

/-- What a Text or Comment node is to be written as, with its own units. -/
def standardMarkup (doc : MarkupDocument Base) (parent : QualName) (id : NodeId) : Option Units :=
  match nodeData doc.base id with
  | some (.text _) | some (.cdataSection _) =>
    some (textMarkup (some parent) (characterData doc.toParsed id))
  | some (.comment _) =>
    some (encodeUtf16 "<!--" ++ characterData doc.toParsed id ++ encodeUtf16 "-->")
  | _ => none

/-- No text of a raw text element needs an escape, the tree has the units of each text, and a
template whose contents have moved has no markup of its own. -/
structure KeepsMarkup (store : MarkupStore Base) (doc : MarkupDocument Base) (id : TreeNodeId)
    (e : ElementData FormState) : Prop where
  raw : isRawText e.name = true → ∀ child ∈ childIds doc.base id.node, ∀ text,
    TextUnder doc.base child text → PlainText text
  exact : ∀ holder, store.get? (templateContentsTarget doc id).document = some holder →
    ∀ child ∈ shownChildren holder.base (templateContentsTarget doc id).node, ∀ text,
      treeText holder.base child = some text → characterData holder.toParsed child = text
  emptied : (doc.templateOwners.get? id.node).isSome = true →
    ∀ child ∈ snapshotSource doc.base id.node e, Silent doc.base child

variable {store : MarkupStore Base} {doc : MarkupDocument Base} {id : TreeNodeId}
  {e : ElementData FormState} {fuel : Nat}

theorem not_isRawText_of_template (h : isTemplateTag name = true) :
    isRawText name = false := by
  obtain ⟨hns, hlocal⟩ : name.ns = htmlNamespace ∧ name.localName = "template" := by
    simpa [isTemplateTag] using h
  rw [isRawText, hns, hlocal]
  decide

theorem snapshotSource_of_raw (h : isRawText e.name = true) :
    snapshotSource doc.base id.node e = childIds doc.base id.node := by
  rw [snapshotSource]
  split_ifs with htemplate
  · rw [not_isRawText_of_template htemplate] at h
    cases h
  · rfl

theorem writeAll_of_ends {nodes : List NodeId} (h : Ends base fuel nodes)
    (parent : Option QualName) :
    ∃ u, writeAll (fun child => serializeHtmlNode base fuel child parent) nodes = some u := by
  refine Option.isSome_iff_exists.1 (writeAll_isSome fun n hn => ?_)
  obtain ⟨s, hs, rfl, hfuel⟩ := h n hn
  exact serializeHtmlNode_isSome hs hfuel parent

theorem serializeHtmlChildren_eq (base : Base) (fuel : Nat) (id : NodeId) :
    serializeHtmlChildren base fuel id =
      writeAll (fun child => serializeHtmlNode base fuel child none) (shownChildren base id) := by
  rw [serializeHtmlChildren, shownChildren]
  split_ifs
  · rfl
  · rfl

/-- Before its contents have moved, the inner markup of an element is of the nodes that its outer
markup is of. -/
theorem exists_target (hnode : nodeData doc.base id.node = some (.element e))
    (hstay : doc.templateOwners.get? id.node = none) :
    ∃ node, templateContentsTarget doc id = ⟨id.document, node⟩ ∧
      shownChildren doc.base node = snapshotSource doc.base id.node e := by
  rw [templateContentsTarget, hstay, hnode]
  dsimp only
  cases htemplate : isTemplateTag e.name with
  | false =>
    refine ⟨id.node, rfl, ?_⟩
    rw [shownChildren, hnode, snapshotSource, htemplate]
    rfl
  | true =>
    obtain ⟨contents, hcontents, hlive⟩ := doc.hasContents id.node e hnode htemplate
    refine ⟨contents, by rw [hcontents]; rfl, ?_⟩
    obtain ⟨d, hd⟩ := Option.isSome_iff_exists.1 hlive
    rw [shownChildren, hd, snapshotSource, htemplate, hcontents]
    rfl

theorem serializeHtmlNode_of_plain {nodes : List NodeId}
    (h : isRawText name = true → ∀ child ∈ nodes, ∀ text, TextUnder base child text →
      PlainText text) (fuel : Nat) : ∀ child ∈ nodes,
      serializeHtmlNode base fuel child (some name) = serializeHtmlNode base fuel child none := by
  intro child hchild
  refine serializeHtmlNode_congr fun text htext => ?_
  rw [textMarkup, textMarkup, Option.any_none, if_neg Bool.false_ne_true]
  split_ifs with hraw
  · exact (escapedHtmlText_of_plain (h hraw child hchild text htext)).symm
  · rfl

/-- The children are written alike under the element and without it when no raw text needs an
escape. -/
theorem writeAll_raw_iff {nodes : List NodeId} {u v : Units}
    (hu : writeAll (fun child => serializeHtmlNode base fuel child none) nodes = some u)
    (hv : writeAll (fun child => serializeHtmlNode base fuel child (some name)) nodes = some v) :
    v = u ↔ (isRawText name = true → ∀ child ∈ nodes, ∀ text, TextUnder base child text →
      PlainText text) := by
  constructor
  · rintro rfl hraw child hchild text htext
    by_contra hplain
    obtain ⟨-, hless⟩ := length_writeAll hu hv fun n _ w w' hw hw' =>
      (length_serializeHtmlNode hraw hw hw').1
    exact Nat.lt_irrefl _ (hless child hchild fun w w' hw hw' =>
      (length_serializeHtmlNode hraw hw hw').2 text htext hplain)
  · intro hplain
    have hsame := writeAll_congr (serializeHtmlNode_of_plain hplain fuel)
    exact Option.some.inj (hv.symm.trans (hsame.trans hu))

theorem standardMarkup_written_iff {child : NodeId} {text piece : Units}
    (htext : treeText doc.base child = some text)
    (hpiece : standardMarkup doc name child = some piece) (fuel : Nat) :
    serializeHtmlNode doc.base (fuel + 1) child (some name) = some piece ↔
      characterData doc.toParsed child = text := by
  rw [treeText] at htext
  rw [standardMarkup] at hpiece
  rw [serializeHtmlNode]
  cases hd : nodeData doc.base child with
  | none => rw [hd] at htext; cases htext
  | some d =>
    rw [hd] at htext hpiece
    cases d with
    | text | cdataSection =>
      obtain rfl := Option.some.inj htext
      obtain rfl := Option.some.inj hpiece
      exact ⟨fun h => (textMarkup_inj (Option.some.inj h)).symm, fun h => by rw [h]; rfl⟩
    | comment =>
      obtain rfl := Option.some.inj htext
      obtain rfl := Option.some.inj hpiece
      refine ⟨fun h => ?_, fun h => by rw [h]⟩
      exact (List.append_cancel_left (List.append_cancel_right (Option.some.inj h))).symm
    | document | element | doctype | processingInstruction | anonymousBlock | fragment
    | shadowRoot => cases htext

theorem isSome_standardMarkup (name : QualName) (child : NodeId) :
    (standardMarkup doc name child).isSome = (treeText doc.base child).isSome := by
  rw [standardMarkup, treeText]
  cases nodeData doc.base child with
  | none => rfl
  | some d => cases d <;> rfl

/-- Each text among the children is written with its own units, in the markup of the element and
in the markup of its children. -/
def TextsKept (fuel : Nat) (doc : MarkupDocument Base) (name : QualName) (nodes : List NodeId) : Prop :=
  ∀ child ∈ nodes, ∀ piece, standardMarkup doc name child = some piece →
    serializeHtmlNode doc.base fuel child none = some piece ∧
    serializeHtmlNode doc.base fuel child (some name) = some piece

theorem textsKept_iff {nodes : List NodeId} (hends : Ends doc.base fuel nodes)
    (hraw : isRawText name = true → ∀ child ∈ nodes, ∀ text, TextUnder doc.base child text →
      PlainText text) :
    TextsKept fuel doc name nodes ↔ ∀ child ∈ nodes, ∀ text, treeText doc.base child = some text →
      characterData doc.toParsed child = text := by
  have hfuel : ∀ child ∈ nodes, ∃ m, fuel = m + 1 := by
    intro child hchild
    obtain ⟨s, -, -, hfuel⟩ := hends child hchild
    have hpos := List.length_pos_of_mem (Rose.value_mem_values s)
    exact ⟨fuel - 1, by omega⟩
  constructor
  · intro h child hchild text htext
    obtain ⟨fuel, rfl⟩ := hfuel child hchild
    obtain ⟨piece, hpiece⟩ := Option.isSome_iff_exists.1
      ((isSome_standardMarkup name child).trans (Option.isSome_iff_exists.2 ⟨text, htext⟩))
    exact (standardMarkup_written_iff htext hpiece fuel).1 (h child hchild piece hpiece).2
  · intro h child hchild piece hpiece
    obtain ⟨fuel, rfl⟩ := hfuel child hchild
    obtain ⟨text, htext⟩ := Option.isSome_iff_exists.1
      ((isSome_standardMarkup name child).symm.trans (Option.isSome_iff_exists.2 ⟨piece, hpiece⟩))
    have hwritten := (standardMarkup_written_iff htext hpiece fuel).2 (h child hchild text htext)
    refine ⟨?_, hwritten⟩
    rw [← hwritten]
    exact (serializeHtmlNode_of_plain hraw (fuel + 1) child hchild).symm

theorem outerHtml_eq (hdoc : store.get? id.document = some doc)
    (hnode : nodeData doc.base id.node = some (.element e)) (hvoid : serializesAsVoid e.name = false)
    {own : Units} (hown : writeAll (fun child => serializeHtmlNode doc.base fuel child (some e.name))
      (snapshotSource doc.base id.node e) = some own) :
    outerHtml fuel store id = match doc.templateOwners.get? id.node with
      | none => .ok (htmlStartTag e.name e.attrs ++ own ++ htmlEndTag e.name)
      | some contents => (childrenMarkup fuel store contents).map fun inner =>
        htmlStartTag e.name e.attrs ++ own ++ inner ++ htmlEndTag e.name := by
  rw [outerHtml, hdoc]
  dsimp only
  rw [hnode]
  dsimp only
  rw [serializeHtmlOuter, writeHtmlElement, if_neg (by rw [hvoid]; exact Bool.false_ne_true), hown]
  cases hmoved : doc.templateOwners.get? id.node with
  | none => rfl
  | some contents =>
    have htemplate := doc.onlyTemplates _ _ hmoved e hnode
    show (childrenMarkup fuel store contents >>= fun inner => _) =
      (childrenMarkup fuel store contents).map _
    cases childrenMarkup fuel store contents with
    | error => rfl
    | ok inner => exact congrArg Except.ok (splice_template htemplate _ inner)

theorem innerHtml_eq (hdoc : store.get? id.document = some doc)
    (hnode : nodeData doc.base id.node = some (.element e)) :
    innerHtml fuel store id = childrenMarkup fuel store (templateContentsTarget doc id) := by
  rw [innerHtml, hdoc]
  dsimp only
  rw [hnode]

theorem childrenMarkup_of_ends {target : TreeNodeId} (h : ∀ holder,
    store.get? target.document = some holder →
      Ends holder.base fuel (shownChildren holder.base target.node)) :
    ∃ inner, childrenMarkup fuel store target = .ok inner := by
  rw [childrenMarkup]
  cases hholder : store.get? target.document with
  | none => exact ⟨[], rfl⟩
  | some holder =>
    obtain ⟨u, hu⟩ := writeAll_of_ends (h holder hholder) none
    refine ⟨u, ?_⟩
    dsimp only
    rw [serializeHtmlChildren_eq, hu]
    rfl

theorem target_of_raw (hnode : nodeData doc.base id.node = some (.element e))
    (hraw : isRawText e.name = true) : templateContentsTarget doc id = id := by
  have htemplate : isTemplateTag e.name = false := by
    by_contra h
    rw [not_isRawText_of_template (Bool.eq_true_of_not_eq_false h)] at hraw
    cases hraw
  have hstay : doc.templateOwners.get? id.node = none := by
    by_contra h
    obtain ⟨owner, howner⟩ := Option.ne_none_iff_exists'.1 h
    rw [doc.onlyTemplates _ _ howner e hnode] at htemplate
    cases htemplate
  rw [templateContentsTarget, hstay, hnode]
  dsimp only
  rw [htemplate]
  rfl

/-- The tags around the inner markup. -/
theorem outer_iff (hdoc : store.get? id.document = some doc)
    (hnode : nodeData doc.base id.node = some (.element e)) (hvoid : serializesAsVoid e.name = false)
    (hown : Ends doc.base fuel (snapshotSource doc.base id.node e)) {inner : Units}
    (hinner : childrenMarkup fuel store (templateContentsTarget doc id) = .ok inner) :
    ∃ outer, outerHtml fuel store id = .ok outer ∧
      (outer = htmlStartTag e.name e.attrs ++ inner ++ htmlEndTag e.name ↔
        (isRawText e.name = true → ∀ child ∈ childIds doc.base id.node, ∀ text,
          TextUnder doc.base child text → PlainText text) ∧
        ((doc.templateOwners.get? id.node).isSome = true →
          ∀ child ∈ snapshotSource doc.base id.node e, Silent doc.base child)) := by
  obtain ⟨own, hwritten⟩ := writeAll_of_ends hown (some e.name)
  rw [outerHtml_eq hdoc hnode hvoid hwritten]
  cases hmoved : doc.templateOwners.get? id.node with
  | none =>
    obtain ⟨node, htarget, hsame⟩ := exists_target hnode hmoved
    have hinn : writeAll (fun child => serializeHtmlNode doc.base fuel child none)
        (snapshotSource doc.base id.node e) = some inner := by
      obtain ⟨u, hu⟩ := writeAll_of_ends hown none
      rw [htarget, childrenMarkup, hdoc] at hinner
      dsimp only at hinner
      rw [serializeHtmlChildren_eq, hsame, hu] at hinner
      rw [hu]
      exact congrArg some (Except.ok.inj hinner)
    refine ⟨_, rfl, ?_⟩
    rw [List.append_cancel_right_eq, List.append_cancel_left_eq, writeAll_raw_iff hinn hwritten]
    refine ⟨fun h => ⟨fun hraw => ?_, nofun⟩, fun h hraw => ?_⟩
    · rw [← snapshotSource_of_raw hraw]
      exact h hraw
    · rw [snapshotSource_of_raw hraw]
      exact h.1 hraw
  | some contents =>
    have htemplate := doc.onlyTemplates _ _ hmoved e hnode
    have htarget : templateContentsTarget doc id = contents := by rw [templateContentsTarget, hmoved]
    rw [htarget] at hinner
    refine ⟨_, by dsimp only; rw [hinner]; rfl, ?_⟩
    have hempty : own = [] ↔ ∀ child ∈ snapshotSource doc.base id.node e, Silent doc.base child := by
      rw [writeAll_eq_nil_iff hwritten]
      refine forall₂_congr fun child hchild => ?_
      obtain ⟨v, hv⟩ := exists_of_writeAll hwritten child hchild
      rw [← serializeHtmlNode_eq_nil_iff hv, hv, Option.some.injEq]
    rw [List.append_cancel_right_eq, List.append_cancel_right_eq, List.append_right_eq_self, hempty]
    refine ⟨fun h => ⟨fun hraw => ?_, fun _ => h⟩, fun h => h.2 rfl⟩
    rw [not_isRawText_of_template htemplate] at hraw
    cases hraw

/-- `outerHTML` is `innerHTML` between the tags, with each text child as the standard writes it, for
exactly the elements that `KeepsMarkup` says. -/
theorem markup_iff (hdoc : store.get? id.document = some doc)
    (hnode : nodeData doc.base id.node = some (.element e)) (hvoid : serializesAsVoid e.name = false)
    (hown : Ends doc.base fuel (snapshotSource doc.base id.node e))
    (hshown : ∀ holder, store.get? (templateContentsTarget doc id).document = some holder →
      Ends holder.base fuel (shownChildren holder.base (templateContentsTarget doc id).node)) :
    (∃ outer inner, outerHtml fuel store id = .ok outer ∧ innerHtml fuel store id = .ok inner ∧
      outer = htmlStartTag e.name e.attrs ++ inner ++ htmlEndTag e.name ∧
      ∀ holder, store.get? (templateContentsTarget doc id).document = some holder →
        TextsKept fuel holder e.name
          (shownChildren holder.base (templateContentsTarget doc id).node)) ↔
      KeepsMarkup store doc id e := by
  obtain ⟨inner, hinner⟩ := childrenMarkup_of_ends hshown
  obtain ⟨outer, houter, htags⟩ := outer_iff hdoc hnode hvoid hown hinner
  have hkept : (isRawText e.name = true → ∀ child ∈ childIds doc.base id.node, ∀ text,
      TextUnder doc.base child text → PlainText text) → ∀ holder,
      store.get? (templateContentsTarget doc id).document = some holder →
      (TextsKept fuel holder e.name
          (shownChildren holder.base (templateContentsTarget doc id).node) ↔
        ∀ child ∈ shownChildren holder.base (templateContentsTarget doc id).node, ∀ text,
          treeText holder.base child = some text → characterData holder.toParsed child = text) := by
    intro hplain holder hholder
    refine textsKept_iff (hshown holder hholder) fun hraw => ?_
    rw [target_of_raw hnode hraw] at hholder ⊢
    obtain rfl := Option.some.inj (hdoc.symm.trans hholder)
    rw [shownChildren, hnode]
    exact hplain hraw
  rw [innerHtml_eq hdoc hnode, houter, hinner]
  constructor
  · rintro ⟨_, _, ⟨⟩, ⟨⟩, heq, htexts⟩
    obtain ⟨hplain, hempty⟩ := htags.1 heq
    exact ⟨hplain, fun holder hholder => (hkept hplain holder hholder).1 (htexts holder hholder),
      hempty⟩
  · rintro ⟨hplain, hexact, hempty⟩
    exact ⟨_, _, rfl, rfl, htags.2 ⟨hplain, hempty⟩, fun holder hholder =>
      (hkept hplain holder hholder).2 (hexact holder hholder)⟩

/-- The document of the element, with the exact units of its text. -/
def textDocument (name : QualName) (text exact : Units) (h : isTemplateTag name = false) :
    MarkupDocument Arena where
  base := .withText name text
  side := ⟨[], 0, false, .ofList [], .singleton 2 exact⟩
  templateOwners := .empty
  hasContents id e hid htemplate := by
    rcases id with _ | _ | _ | id
    · cases hid
    · cases hid
      exact absurd (h.symm.trans htemplate) Bool.false_ne_true
    · cases hid
    · cases hid
  onlyTemplates _ _ howner := nomatch howner

def scriptName : QualName := ⟨none, htmlNamespace, "script"⟩

/-- A script with the text `a`. -/
theorem markup_iff_script :
    (∃ outer inner,
      outerHtml 1 (.singleton 1 (textDocument scriptName [0x61] [0x61] rfl)) ⟨1, 1⟩ = .ok outer ∧
      innerHtml 1 (.singleton 1 (textDocument scriptName [0x61] [0x61] rfl)) ⟨1, 1⟩ = .ok inner ∧
      outer = htmlStartTag scriptName [] ++ inner ++ htmlEndTag scriptName ∧
      ∀ holder, (Dict.singleton 1 (textDocument scriptName [0x61] [0x61] rfl)).get? 1 = some holder →
        TextsKept 1 holder scriptName (shownChildren holder.base 1)) ↔
      KeepsMarkup (.singleton 1 (textDocument scriptName [0x61] [0x61] rfl))
        (textDocument scriptName [0x61] [0x61] rfl) ⟨1, 1⟩ ⟨scriptName, [], (), none⟩ := by
  have hends : Ends (textDocument scriptName [0x61] [0x61] rfl).base 1 [2] := by
    intro n hn
    obtain rfl := List.mem_singleton.1 hn
    exact ⟨.node 2 [], Rose.follows_node.2 ⟨rfl, nofun⟩, rfl, Nat.le_refl 1⟩
  refine @markup_iff Arena Unit _ (.singleton 1 (textDocument scriptName [0x61] [0x61] rfl))
    (textDocument scriptName [0x61] [0x61] rfl) ⟨1, 1⟩ ⟨scriptName, [], (), none⟩ 1 rfl rfl rfl hends
    fun holder hholder => ?_
  obtain rfl := Option.some.inj hholder
  exact hends

/-- The inner markup of a script with the text `a<b` escapes it, the outer markup does not; and the
markup of a paragraph has the replacement character of the tree for an unpaired surrogate. -/
theorem not_markup_script :
    (¬ ∃ outer inner, outerHtml 1 (.singleton 1
          (textDocument scriptName [0x61, 0x3C, 0x62] [0x61, 0x3C, 0x62] rfl)) ⟨1, 1⟩ = .ok outer ∧
        innerHtml 1 (.singleton 1
          (textDocument scriptName [0x61, 0x3C, 0x62] [0x61, 0x3C, 0x62] rfl)) ⟨1, 1⟩ = .ok inner ∧
        outer = htmlStartTag scriptName [] ++ inner ++ htmlEndTag scriptName) ∧
      ¬ TextsKept 1 (textDocument ⟨none, htmlNamespace, "p"⟩ [0xFFFD] [0xD800] rfl)
        ⟨none, htmlNamespace, "p"⟩ [2] := by
  constructor
  · rintro ⟨outer, inner, houter, hinner, heq⟩
    obtain rfl : encodeUtf16 "<script>a<b</script>" = outer := Except.ok.inj houter
    obtain rfl : encodeUtf16 "a&lt;b" = inner := Except.ok.inj hinner
    revert heq
    decide
  · intro h
    have hwritten := (h 2 (List.mem_singleton_self 2) [0xD800] rfl).1
    revert hwritten
    decide

end TinyBrowser.Dom
