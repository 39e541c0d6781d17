import TinyBrowser.Dom.Outcomes

/-!
# The content model of a document

A document node may have one element child, one doctype child before it, and no text. The calls
that change the children of a document node check this first (`ensureDocumentContentModel`,
`ensureDoctypePosition`, `ensureCanMove`). They keep it exactly when no doctype slips past the check
(`contentModel_step_iff`): neither in a fragment, whose doctypes are not looked at, nor behind an
element that `moveBefore` moves.
-/

namespace TinyBrowser.Dom
open Lib Blitz

variable {Base : Type}

/-! ### The model -/

section
variable [Blitz Base] (base : Base)

structure ContentModel (document : NodeId) : Prop where
  oneElement : (childIds base document).countP (isElement base) ≤ 1
  oneDoctype : (childIds base document).countP (isDoctype base) ≤ 1
  doctypeFirst : (childIds base document).Pairwise fun a b =>
    ¬ (isElement base a = true ∧ isDoctype base b = true)
  noText : ∀ c ∈ childIds base document, isText base c = false

/-- Two children of a document may stand in this order. -/
def MayPrecede (a b : NodeId) : Prop :=
  ¬ (isElement base a = true ∧ (isElement base b = true ∨ isDoctype base b = true)) ∧
    ¬ (isDoctype base a = true ∧ isDoctype base b = true)

end

theorem countP_le_one_iff {α : Type} {p : α → Bool} {l : List α} :
    l.countP p ≤ 1 ↔ l.Pairwise fun a b => ¬ (p a = true ∧ p b = true) := by
  induction l with
  | nil => simp
  | cons x l ih =>
    rw [List.pairwise_cons, ← ih]
    by_cases hx : p x = true
    · rw [List.countP_cons_of_pos hx]
      constructor
      · intro h
        have h0 : l.countP p = 0 := by omega
        exact ⟨fun b hb hp => List.countP_eq_zero.1 h0 b hb hp.2, by omega⟩
      · rintro ⟨h, -⟩
        have h0 : l.countP p = 0 := List.countP_eq_zero.2 fun b hb hp => h b hb ⟨hx, hp⟩
        omega
    · rw [List.countP_cons_of_neg hx]
      exact ⟨fun h => ⟨fun b _ hp => hx hp.1, h⟩, fun h => h.2⟩

section
variable [Blitz Base] {base : Base} {document : NodeId}

theorem contentModel_iff : ContentModel base document ↔
    (∀ c ∈ childIds base document, isText base c = false) ∧
      (childIds base document).Pairwise (MayPrecede base) := by
  constructor
  · intro h
    refine ⟨h.noText, ?_⟩
    refine ((countP_le_one_iff.1 h.oneElement).and
      ((countP_le_one_iff.1 h.oneDoctype).and h.doctypeFirst)).imp ?_
    rintro a b ⟨hee, hdd, hed⟩
    exact ⟨fun h => h.2.elim (fun hb => hee ⟨h.1, hb⟩) (fun hb => hed ⟨h.1, hb⟩), hdd⟩
  · rintro ⟨htext, horder⟩
    exact ⟨countP_le_one_iff.2 (horder.imp fun h hab => h.1 ⟨hab.1, .inl hab.2⟩),
      countP_le_one_iff.2 (horder.imp fun h => h.2),
      horder.imp fun h hab => h.1 ⟨hab.1, .inr hab.2⟩, htext⟩

theorem ContentModel.of_sublist {base' : Base} (h : ContentModel base document)
    (hkids : (childIds base' document).Sublist (childIds base document))
    (hdata : ∀ c ∈ childIds base' document, data base' c = data base c) :
    ContentModel base' document := by
  obtain ⟨htext, horder⟩ := contentModel_iff.1 h
  refine contentModel_iff.2 ⟨fun c hc => ?_, (horder.sublist hkids).imp_of_mem ?_⟩
  · rw [isText, hdata c hc]
    exact htext c (hkids.subset hc)
  · intro a b ha hb hab
    rw [MayPrecede, isElement, isElement, isDoctype, isDoctype, hdata a ha, hdata b hb]
    exact hab

theorem Yields.contentModel_iff {parsed parsed' : Parsed Base} {kids : List NodeId}
    (h : Yields parsed parsed' document kids) : ContentModel parsed'.base document ↔
      (∀ c ∈ kids, isText parsed.base c = false) ∧ kids.Pairwise (MayPrecede parsed.base) := by
  have htext : isText parsed'.base = isText parsed.base := by
    funext c
    rw [isText, isText, h.data]
  have horder : MayPrecede parsed'.base = MayPrecede parsed.base := by
    funext a b
    simp only [MayPrecede, isElement, isDoctype, h.data]
  rw [Dom.contentModel_iff, h.children, htext, horder]

/-! ### Where the new nodes go -/

/-- A place among the children `kids`: the reference child that names it, the children that the
check leaves out, and what stays before and after it. -/
inductive Slot (kids : List NodeId) :
    Option NodeId → List NodeId → List NodeId → List NodeId → Prop
  | gap {before after : List NodeId} (cut : kids = before ++ after) :
    Slot kids after.head? [] before after
  | child {before after : List NodeId} {old : NodeId} (cut : kids = before ++ old :: after) :
    Slot kids (some old) [old] before after
  | all : Slot kids none kids [] []

variable {kids excluded before after : List NodeId} {reference : Option NodeId}

theorem Slot.sublist (h : Slot kids reference excluded before after) :
    (before ++ after).Sublist kids := by
  cases h with
  | gap cut => rw [cut]
  | child cut =>
    rw [cut]
    exact (List.Sublist.refl _).append (List.sublist_cons_self _ _)
  | all => exact List.nil_sublist _

theorem Slot.mem_iff (h : Slot kids reference excluded before after) (hnodup : kids.Nodup)
    {c : NodeId} : c ∈ before ++ after ↔ c ∈ kids ∧ c ∉ excluded := by
  cases h with
  | gap cut => simp [cut]
  | @child before after old cut =>
    rw [cut] at hnodup ⊢
    have hold : old ∉ before ++ after := (List.nodup_middle.1 hnodup).notMem
    constructor
    · intro hc
      refine ⟨?_, fun ho => hold (List.mem_singleton.1 ho ▸ hc)⟩
      simp only [List.mem_append, List.mem_cons] at hc ⊢
      tauto
    · rintro ⟨hc, ho⟩
      rw [List.mem_singleton] at ho
      simp only [List.mem_append, List.mem_cons] at hc ⊢
      tauto
  | all => simp

theorem parentHas_eq_false (h : Slot (childIds base document) reference excluded before after)
    (p : NodeId → Bool) :
    ((childIds base document).any fun child => !excluded.contains child && p child) = false ↔
      ∀ c ∈ before ++ after, p c = false := by
  simp only [h.mem_iff ((tree base).nodup document), List.any_eq_false, Bool.and_eq_true,
    Bool.not_eq_true', List.contains_eq_mem, decide_eq_false_iff_not, not_and, Bool.not_eq_true,
    and_imp]

theorem siblingDoctypeFollows_split {r : NodeId}
    (hkids : childIds base document = before ++ r :: after) :
    siblingDoctypeFollows base document r = after.any (isDoctype base) := by
  rw [siblingDoctypeFollows, idxOf_split hkids]
  simp only [hkids]
  rw [List.drop_append, List.drop_eq_nil_of_le (by omega)]
  simp

theorem siblingElementPrecedes_split {r : NodeId}
    (hkids : childIds base document = before ++ r :: after) :
    siblingElementPrecedes base document r = before.any (isElement base) := by
  rw [siblingElementPrecedes, idxOf_split hkids]
  simp [hkids]

theorem elementRules_iff (h : Slot (childIds base document) reference excluded before after)
    {e : TreeError} :
    refuse (parentHasElement base document excluded ||
        reference.any (siblingDoctypeFollows base document) ||
        reference.any fun child => !excluded.contains child && isDoctype base child) e = .ok () ↔
      (∀ c ∈ before ++ after, isElement base c = false) ∧ ∀ c ∈ after, isDoctype base c = false := by
  have helement := parentHas_eq_false h (isElement base)
  rw [← parentHasElement] at helement
  have hrefuse : ∀ b : Bool, refuse b e = .ok () ↔ b = false := by
    intro b
    cases b <;> simp [refuse]
  rw [hrefuse, Bool.or_eq_false_iff, Bool.or_eq_false_iff, helement, and_assoc]
  refine and_congr_right fun _ => ?_
  cases h with
  | @gap before after cut =>
    cases after with
    | nil => simp
    | cons r after =>
      simp only [List.head?_cons, Option.any_some, siblingDoctypeFollows_split cut,
        List.contains_nil, Bool.not_false, Bool.true_and, List.any_eq_false, Bool.not_eq_true,
        List.forall_mem_cons]
      exact and_comm
  | child cut =>
    simp [siblingDoctypeFollows_split cut]
  | all => simp

theorem ensureDoctypePosition_iff
    (h : Slot (childIds base document) reference excluded before after) :
    ensureDoctypePosition base document reference excluded = .ok () ↔
      (∀ c ∈ before ++ after, isDoctype base c = false) ∧
        ∀ c ∈ before, isElement base c = false := by
  have hdoctype := parentHas_eq_false h (isDoctype base)
  have helement := parentHas_eq_false h (isElement base)
  rw [← parentHasDoctype] at hdoctype
  rw [← parentHasElement] at helement
  have hrefuse : ∀ b : Bool, refuse b TreeError.hierarchy = .ok () ↔ b = false := by
    intro b
    cases b <;> simp [refuse]
  rw [ensureDoctypePosition, hrefuse, Bool.or_eq_false_iff, Bool.or_eq_false_iff, hdoctype,
    and_assoc]
  refine and_congr_right fun _ => ?_
  cases h with
  | @gap before after cut =>
    cases after with
    | nil => simpa using helement
    | cons r after => simp [siblingElementPrecedes_split cut]
  | child cut => simp [siblingElementPrecedes_split cut]
  | all => simpa using helement

/-- What the check of a document's children leaves to ask of the nodes that come in: doctypes
among them stand in order, and would be admitted on their own. -/
def DoctypesFit (base : Base) (document : NodeId) (reference : Option NodeId)
    (excluded nodes : List NodeId) : Prop :=
  (∃ n ∈ nodes, isDoctype base n = true) → nodes.Pairwise (MayPrecede base) ∧
    ensureDoctypePosition base document reference excluded = .ok ()

/-- What the check of a document's children has seen of them. -/
structure Checked (base : Base) (nodes before after : List NodeId) : Prop where
  noText : ∀ n ∈ nodes, isText base n = false
  oneElement : nodes.countP (isElement base) ≤ 1
  elements : (∃ n ∈ nodes, isElement base n = true) →
    (∀ c ∈ before ++ after, isElement base c = false) ∧ ∀ c ∈ after, isDoctype base c = false

/-- After the nodes came in, the model holds when their doctypes fit. -/
theorem contentModel_weave_iff {parsed parsed' : Parsed Base} {nodes : List NodeId}
    (hslot : Slot (childIds parsed.base document) reference excluded before after)
    (hmodel : ContentModel parsed.base document)
    (hchecked : Checked parsed.base nodes before after)
    (hdoctype : (∃ n ∈ nodes, isDoctype parsed.base n = true) →
      ensureDoctypePosition parsed.base document reference excluded = .ok () ∨
        ∀ n ∈ nodes, n ∉ childIds parsed.base document)
    (hy : Yields parsed parsed' document (weave before nodes after)) :
    ContentModel parsed'.base document ↔
      DoctypesFit parsed.base document reference excluded nodes := by
  obtain ⟨htext, horder⟩ := contentModel_iff.1 hmodel
  rw [hy.contentModel_iff]
  constructor
  · rintro ⟨-, hafter⟩ hdoc
    have hparts := hafter
    rw [weave, List.append_assoc, List.pairwise_append, List.pairwise_append] at hparts
    obtain ⟨-, ⟨hnodes, -, hright⟩, hleft⟩ := hparts
    refine ⟨hnodes, (hdoctype hdoc).elim id fun hnew => (ensureDoctypePosition_iff hslot).2 ?_⟩
    obtain ⟨n, hn, hnd⟩ := hdoc
    -- a child that is not among the new nodes stays, and stands in order with the doctype `n`
    have hold : ∀ c ∈ before ++ after, c ∉ nodes := fun c hc hcn =>
      hnew c hcn (hslot.sublist.subset hc)
    have hb : ∀ c ∈ before, MayPrecede parsed.base c n := fun c hc =>
      hleft c (List.mem_filter.2 ⟨hc, by simpa using hold c (List.mem_append_left _ hc)⟩) n
        (List.mem_append_left _ hn)
    have ha : ∀ c ∈ after, MayPrecede parsed.base n c := fun c hc =>
      hright n hn c (List.mem_filter.2 ⟨hc, by simpa using hold c (List.mem_append_right _ hc)⟩)
    refine ⟨fun c hc => ?_, fun c hc => ?_⟩
    · rw [← Bool.not_eq_true]
      intro hcd
      rcases List.mem_append.1 hc with hc | hc
      · exact (hb c hc).2 ⟨hcd, hnd⟩
      · exact (ha c hc).2 ⟨hnd, hcd⟩
    · rw [← Bool.not_eq_true]
      exact fun hce => (hb c hc).1 ⟨hce, .inr hnd⟩
  · intro hfit
    constructor
    · intro c hc
      rcases mem_weave.1 hc with hc | hc | hc
      · exact htext c (hslot.sublist.subset (List.mem_append_left _ hc))
      · exact hchecked.noText c hc
      · exact htext c (hslot.sublist.subset (List.mem_append_right _ hc))
    · refine pairwise_weave (horder.sublist hslot.sublist) ?_ ?_ ?_
      · by_cases hdoc : ∃ n ∈ nodes, isDoctype parsed.base n = true
        · exact (hfit hdoc).1
        · refine (countP_le_one_iff.1 hchecked.oneElement).imp_of_mem fun {a b} ha hb hab => ?_
          exact ⟨fun h => h.2.elim (fun he => hab ⟨h.1, he⟩) fun hd => hdoc ⟨b, hb, hd⟩,
            fun h => hdoc ⟨a, ha, h.1⟩⟩
      · intro a ha _ n hn
        have hab := List.mem_append_left after ha
        constructor
        · rintro ⟨hae, hne | hnd⟩
          · rw [(hchecked.elements ⟨n, hn, hne⟩).1 a hab] at hae
            cases hae
          · have hposition := (ensureDoctypePosition_iff hslot).1 (hfit ⟨n, hn, hnd⟩).2
            rw [hposition.2 a ha] at hae
            cases hae
        · rintro ⟨had, hnd⟩
          have hposition := (ensureDoctypePosition_iff hslot).1 (hfit ⟨n, hn, hnd⟩).2
          rw [hposition.1 a hab] at had
          cases had
      · intro n hn b hb _
        have hab := List.mem_append_right before hb
        constructor
        · rintro ⟨hne, hbe | hbd⟩
          · rw [(hchecked.elements ⟨n, hn, hne⟩).1 b hab] at hbe
            cases hbe
          · rw [(hchecked.elements ⟨n, hn, hne⟩).2 b hb] at hbd
            cases hbd
        · rintro ⟨hnd, hbd⟩
          have hposition := (ensureDoctypePosition_iff hslot).1 (hfit ⟨n, hn, hnd⟩).2
          rw [hposition.1 b hab] at hbd
          cases hbd

/-- The check, for the nodes that an insertion of `node` brings; the copies of nodes from another
document are checked as the originals in `source`. -/
theorem of_ensureDocumentContentModel {source : Base} {node : NodeId}
    (hslot : Slot (childIds base document) reference excluded before after)
    (h : ensureDocumentContentModel base document reference excluded
      (classifyInserted source node) = .ok ()) :
    (∀ n ∈ insertedNodes source node, isText source n = false) ∧
    (insertedNodes source node).countP (isElement source) ≤ 1 ∧
    ((∃ n ∈ insertedNodes source node, isElement source n = true) →
      (∀ c ∈ before ++ after, isElement base c = false) ∧
        ∀ c ∈ after, isDoctype base c = false) ∧
    (isFragment source node = false → isDoctype source node = true →
      ensureDoctypePosition base document reference excluded = .ok ()) := by
  rw [classifyInserted] at h
  rw [insertedNodes]
  cases hfragment : isFragment source node with
  | true =>
    simp only [hfragment, if_true, ensureDocumentContentModel] at h ⊢
    split at h
    · cases h
    · rename_i hcount
      simp only [Bool.or_eq_true, decide_eq_true_eq, not_or, Bool.not_eq_true,
        List.any_eq_false] at hcount
      obtain ⟨hle, htext⟩ := hcount
      refine ⟨fun n hn => by simpa using htext n hn, by omega, fun he => ?_, by simp⟩
      split at h
      · rename_i hzero
        obtain ⟨n, hn, hne⟩ := he
        exact absurd hne (List.countP_eq_zero.1 hzero n hn)
      · exact (elementRules_iff hslot).1 h
  | false =>
    simp only [hfragment, Bool.false_eq_true, if_false] at h ⊢
    have hone : [node].countP (isElement source) ≤ 1 := by
      rw [← List.length_singleton (a := node)]
      exact List.countP_le_length
    cases hdata : data source node with
    | none => simp only [hdata, ensureDocumentContentModel] at h; cases h
    | some d =>
      cases d <;> simp only [hdata, ensureDocumentContentModel] at h
      case element =>
        refine ⟨by simp [isText, hdata], hone, fun _ => (elementRules_iff hslot).1 h, ?_⟩
        simp [isDoctype, hdata]
      case doctype =>
        exact ⟨by simp [isText, hdata], hone, by simp [isElement, hdata], fun _ _ => h⟩
      case comment =>
        exact ⟨by simp [isText, hdata], hone, by simp [isElement, hdata], by simp [isDoctype, hdata]⟩
      case processingInstruction =>
        exact ⟨by simp [isText, hdata], hone, by simp [isElement, hdata], by simp [isDoctype, hdata]⟩
      all_goals cases h

end

end TinyBrowser.Dom
