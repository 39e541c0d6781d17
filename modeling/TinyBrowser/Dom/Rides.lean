import TinyBrowser.Dom.RangeCalls
import TinyBrowser.Dom.StartedCopies

/-!
# Live ranges ride the mutations

A mutation moves the two ends of every live range by one map of points (`Rides`). So a range in an
attribute stays in it, and a collapsed range stays collapsed, whatever is done to the tree.

What the steps over all documents keep: every document stays, and its live ranges ride what is done
to it. The range that a method is of stays in its attribute and, once collapsed, collapsed.
-/

namespace TinyBrowser.Dom
open Lib Blitz BlitzFragments BlitzNodes

section
variable {Base : Type}

/-- The live ranges are the same ones, both ends moved by one map. -/
def Rides (parsed parsed' : Parsed Base) : Prop :=
  ∃ g, parsed'.side.ranges = parsed.side.ranges.mapPoints g

namespace Rides
variable {parsed parsed' : Parsed Base}

theorem of_eq (h : parsed'.side.ranges = parsed.side.ranges) : Rides parsed parsed' :=
  ⟨id, by rw [h, RangeTable.mapPoints_id]⟩

theorem trans {parsed'' : Parsed Base} (h : Rides parsed parsed') (h' : Rides parsed' parsed'') :
    Rides parsed parsed'' := by
  obtain ⟨g, hg⟩ := h
  obtain ⟨g', hg'⟩ := h'
  exact ⟨g' ∘ g, by rw [hg', hg, RangeTable.mapPoints_mapPoints]⟩

theorem record (h : Rides parsed parsed') (e : JournalEntry) : Rides parsed (parsed'.record e) := by
  obtain ⟨g, hg⟩ := h
  exact ⟨g, by rw [Parsed.ranges_record, hg]⟩

theorem withBase (h : Rides parsed parsed') (base : Base) : Rides parsed (parsed'.withBase base) := h

theorem mapPoints (h : Rides parsed parsed') (g : BoundaryPoint → BoundaryPoint) :
    Rides parsed (parsed'.withRanges (parsed'.side.ranges.mapPoints g)) :=
  h.trans ⟨g, rfl⟩

/-- A fold of moves. -/
theorem foldl {α : Type} {f : Parsed Base → α → Parsed Base} (hf : ∀ p a, Rides p (f p a))
    (l : List α) (parsed : Parsed Base) : Rides parsed (l.foldl f parsed) := by
  induction l generalizing parsed with
  | nil => exact of_eq rfl
  | cons a l ih => exact (hf parsed a).trans (ih _)

end Rides

end

section
variable {Base : Type} [Blitz Base] (parsed : Parsed Base)

theorem rides_adjustUnlinked (slot : Option (NodeId × Nat)) (removed : NodeId) :
    Rides parsed (adjustUnlinked parsed slot removed) := by
  cases slot with
  | none => exact .of_eq rfl
  | some slot => exact (Rides.of_eq rfl).mapPoints _

theorem rides_unlinkJournaled (target : NodeId) : Rides parsed (unlinkJournaled parsed target) := by
  rw [unlinkJournaled]
  split
  · exact .of_eq rfl
  · exact (((Rides.of_eq rfl).withBase _).trans (rides_adjustUnlinked _ _ _)).record _

theorem rides_placeJournaled (parent child : NodeId) (reference : Option NodeId) :
    Rides parsed (placeJournaled parsed parent child reference) := by
  have hplaced : Rides parsed (placeInner parsed parent child reference) :=
    ((Rides.of_eq rfl).withBase _).record _
  rw [placeJournaled, adjustPlaced]
  split
  · exact hplaced
  · split
    · exact hplaced.mapPoints _
    · exact hplaced

theorem rides_adjustChildrenLeaving (fragment : NodeId) (children : List NodeId) :
    Rides parsed (adjustChildrenLeaving parsed fragment children) := by
  rw [adjustChildrenLeaving]
  split
  · exact .of_eq rfl
  · have hfold : ∀ (l : List NodeId) (ranges : RangeTable), ∃ g,
        l.foldl (fun ranges child => adjustForRemove parsed.base ranges fragment 0 child) ranges =
          ranges.mapPoints g := fun l => by
      induction l with
      | nil => exact fun ranges => ⟨id, ranges.mapPoints_id.symm⟩
      | cons c l ih =>
        intro ranges
        obtain ⟨g, hg⟩ := ih (adjustForRemove parsed.base ranges fragment 0 c)
        exact ⟨_, by rw [List.foldl_cons, hg, adjustForRemove, RangeTable.mapPoints_mapPoints]⟩
    exact hfold children parsed.side.ranges

omit [Blitz Base] in
theorem rides_adjustInserted (parent : NodeId) (index : Option Nat) (count : Nat) :
    Rides parsed (adjustInserted parsed parent index count) := by
  cases index with
  | none => exact .of_eq rfl
  | some index => exact (Rides.of_eq rfl).mapPoints _

theorem rides_spliceParsed (parent fragment : NodeId) (reference : Option NodeId) :
    Rides parsed (spliceParsed parsed parent fragment reference) := by
  rw [spliceParsed]
  split
  · exact .of_eq rfl
  · exact ((((rides_adjustChildrenLeaving parsed fragment _).record _).withBase _).trans
      (rides_adjustInserted _ _ _ _)).record _

theorem rides_insertParsed (parent node : NodeId) (reference : Option NodeId) :
    Rides parsed (insertParsed parsed parent node reference) := by
  rw [insertParsed]
  split
  · exact rides_spliceParsed parsed parent node reference
  · exact (rides_unlinkJournaled parsed node).trans (rides_placeJournaled _ _ _ _)

theorem rides_replaceAllJournaled (parent : NodeId) (added : List NodeId) :
    Rides parsed (replaceAllJournaled parsed parent added) := by
  have hclear : Rides parsed (clearChildren parsed parent) := by
    rw [clearChildren]
    split
    · exact ((Rides.of_eq rfl).mapPoints _).withBase _
    · exact .of_eq rfl
  have happend : ∀ (p : Parsed Base) c, Rides p (appendAdopted parent p c) := fun p c =>
    (rides_unlinkJournaled p c).withBase _
  rw [replaceAllJournaled]
  have hall := hclear.trans (Rides.foldl happend added _)
  split
  · exact hall.record _
  · exact hall

end

section
variable {Base FormState : Type} [BlitzNodes Base FormState] (parsed : Parsed Base)

theorem rides_replaceCharacterData (id : NodeId) (offset count : Nat) (units : Units) :
    Rides parsed (replaceCharacterData parsed id offset count units) := by
  rw [replaceCharacterData]
  split
  · exact .of_eq rfl
  · dsimp only
    split
    · exact .of_eq rfl
    · exact ((Rides.of_eq rfl).mapPoints _).record _

theorem rides_truncateSplitText (id : NodeId) (kept old : Units) :
    Rides parsed (truncateSplitText parsed id kept old) := by
  rw [truncateSplitText]
  split
  · exact ((Rides.of_eq rfl).withBase _).record _
  · exact .of_eq rfl

theorem rides_splitTextNode {id new : NodeId} {offset : Nat} {parsed' : Parsed Base}
    (h : splitTextNode parsed id offset = some (parsed', new)) : Rides parsed parsed' := by
  rw [splitTextNode] at h
  split at h
  · cases h
  · dsimp only at h
    split at h
    · obtain ⟨rfl, -⟩ := Prod.mk.inj (Option.some.inj h)
      refine Rides.trans ?_ (rides_truncateSplitText _ _ _ _)
      refine Rides.mapPoints ?_ _
      exact Rides.trans (.of_eq rfl) (rides_placeJournaled _ _ _ _)
    · obtain ⟨rfl, -⟩ := Prod.mk.inj (Option.some.inj h)
      exact Rides.trans ((Rides.of_eq rfl).mapPoints _) (rides_truncateSplitText _ _ _ _)

mutual

theorem rides_materializeImport (parsed : Parsed Base) :
    ∀ snapshot : ImportSnapshot FormState, Rides parsed (materializeImport parsed snapshot).1
  | .element name attributes formState children => by
    rw [materializeImport]
    exact Rides.trans (.of_eq rfl) (rides_materializeInto _ _ children)
  | .fragment children => by
    rw [materializeImport]
    exact Rides.trans (.of_eq rfl) (rides_materializeInto _ _ children)
  | .text _ | .comment _ | .documentType .. | .processingInstruction .. | .cdata _ => .of_eq rfl

theorem rides_materializeInto (parsed : Parsed Base) (parent : NodeId) :
    ∀ snapshots : List (ImportSnapshot FormState),
      Rides parsed (materializeInto parsed parent snapshots)
  | [] => .of_eq (by rw [materializeInto])
  | snapshot :: rest => by
    rw [materializeInto]
    exact ((rides_materializeImport parsed snapshot).withBase _).trans
      (rides_materializeInto _ parent rest)

end

theorem rides_detachForAdopt {id : NodeId} {parsed' : Parsed Base}
    (h : detachForAdopt parsed id = .ok parsed') : Rides parsed parsed' := by
  rw [detachForAdopt] at h
  split at h
  · exact Except.ok.inj h ▸ .of_eq rfl
  · split at h
    · cases h
    · rw [← Except.ok.inj h]
      refine Rides.record (Rides.withBase ?_ _) _
      split
      · exact .of_eq rfl
      · exact (Rides.of_eq rfl).mapPoints _

/-! ### One document -/

theorem toParsed_of_copyScriptStarted {fuel : Nat} {doc doc' : Scripted Base} {source target : NodeId}
    (h : copyScriptStarted fuel doc source target = .ok doc') : doc'.toParsed = doc.toParsed := by
  rw [copyScriptStarted] at h
  split at h
  · exact congrArg Scripted.toParsed (Except.ok.inj h).symm
  · cases hsweep : sweep (lockstepChildren doc.base doc.base) Scripted.copyFlag fuel
        [(source, target)] doc with
    | none =>
      rw [hsweep] at h
      cases h
    | some out =>
      rw [hsweep] at h
      rw [← Except.ok.inj h]
      refine sweep_keeps (I := fun d => d.toParsed = doc.toParsed) (fun d pair hd => ?_) rfl hsweep
      rw [Scripted.copyFlag]
      split
      · exact hd
      · exact hd

/-- What `Rides` says of the tree and its tables, of a document with its scripts. -/
def DocRides (doc doc' : Scripted Base) : Prop := Rides doc.toParsed doc'.toParsed

instance : Std.Refl (DocRides : Scripted Base → Scripted Base → Prop) := ⟨fun _ => .of_eq rfl⟩

instance : IsTrans (Scripted Base) DocRides := ⟨fun _ _ _ => Rides.trans⟩

theorem docRides_onParsed {f : Parsed Base → Parsed Base} (h : ∀ parsed, Rides parsed (f parsed)) :
    Trial.Stays DocRides (onParsed f) :=
  .change fun doc => h doc.toParsed

theorem docRides_reading {α : Type} (f : Parsed Base → α) : Trial.Stays DocRides (reading f) := .look _

theorem docRides_createFragmentIn : Trial.Stays DocRides (createFragmentIn : DocM Base NodeId) :=
  .make fun _ => .of_eq rfl

theorem docRides_moveNodesOut (nodes : List NodeId) (fragment : Option NodeId) :
    Trial.Stays DocRides (moveNodesOut nodes fragment : DocM Base Unit) := by
  refine .forM (fun node => docRides_onParsed fun parsed => ?_) nodes
  cases fragment with
  | none => exact rides_unlinkJournaled parsed node
  | some fragment => exact (rides_unlinkJournaled parsed node).trans (rides_placeJournaled _ _ _ _)

section
variable (deepCloneNode : Base → NodeId → Base × NodeId) (fuel : Nat)

theorem docRides_cloneWithinDocument {doc doc' : Scripted Base} {id new : NodeId} {deep : Bool}
    (h : cloneWithinDocument deepCloneNode fuel doc id deep = .ok (doc', new)) : DocRides doc doc' := by
  rw [cloneWithinDocument] at h
  split at h
  · obtain ⟨out, hout, h⟩ := Except.of_bind_ok h
    obtain ⟨rfl, -⟩ := Prod.mk.inj (Except.ok.inj h)
    rw [DocRides, toParsed_of_copyScriptStarted hout]
    exact .of_eq rfl
  · obtain ⟨snapshot, -, h⟩ := Except.of_bind_ok h
    obtain ⟨out, hout, h⟩ := Except.of_bind_ok h
    obtain ⟨rfl, -⟩ := Prod.mk.inj (Except.ok.inj h)
    rw [DocRides, toParsed_of_copyScriptStarted hout]
    exact rides_materializeImport doc.toParsed snapshot

theorem docRides_cloneIntoFragment (fragment source : NodeId) (deep : Bool) (units : Option Units) :
    Trial.Stays DocRides (cloneIntoFragment deepCloneNode fuel fragment source deep units) := by
  refine .bind (.attempt fun doc doc' new h => ?_) fun clone => .bind ?_ fun _ => .bind ?_ fun _ => ?_
  · exact docRides_cloneWithinDocument deepCloneNode fuel (of_orThrow_ok h)
  · cases units with
    | none => exact .pure _
    | some units => exact docRides_onParsed fun parsed => rides_replaceCharacterData parsed _ _ _ _
  · exact docRides_onParsed fun parsed => rides_placeJournaled parsed _ _ _
  · exact .pure _

theorem docRides_transferEndpointText (fragment node : NodeId) (offset : Nat) (atStart : Bool)
    (transfer : ContentsTransfer) : Trial.Stays DocRides
      (transferEndpointText deepCloneNode fuel fragment node offset atStart transfer) := by
  refine .bind (docRides_reading _) fun units =>
    .bind (docRides_cloneIntoFragment deepCloneNode fuel _ _ _ _) fun _ => ?_
  cases transfer with
  | cloned => exact .pure _
  | moved =>
    refine docRides_onParsed fun parsed => ?_
    rw [cutEndpointText]
    split
    · exact rides_replaceCharacterData parsed _ _ _ _
    · exact rides_replaceCharacterData parsed _ _ _ _

theorem docRides_transferPartialEndpoint {produce : NodeId → RangeState → DocM Base Unit}
    (hproduce : ∀ fragment sub, Trial.Stays DocRides (produce fragment sub)) (fragment : NodeId)
    (sub : RangeState) (node : NodeId) (atStart : Bool) (transfer : ContentsTransfer) :
    Trial.Stays DocRides
      (transferPartialEndpoint deepCloneNode fuel produce fragment sub node atStart transfer) := by
  refine .bind (docRides_reading _) fun characters => ?_
  split
  · exact docRides_transferEndpointText deepCloneNode fuel _ _ _ _ _
  · exact .bind (docRides_cloneIntoFragment deepCloneNode fuel _ _ _ _) fun clone =>
      .bind docRides_createFragmentIn fun scratch => .bind (hproduce scratch sub) fun _ =>
        .bind (docRides_reading _) fun kids => docRides_moveNodesOut _ _

theorem docRides_produceContents (transfer : ContentsTransfer) (depth : Nat) (fragment : NodeId)
    (state : RangeState) : Trial.Stays DocRides
      (produceContents deepCloneNode fuel transfer depth fragment state) := by
  induction depth generalizing fragment state with
  | zero => exact .throw _
  | succ depth ih =>
    rw [produceContents]
    refine .bind (docRides_reading _) fun span => .ite (.pure _) <|
      .bind (docRides_reading _) fun sameText => .ite ?_ <| .bind (.look _) fun _ => ?_
    · refine .bind (docRides_reading _) fun units =>
        .bind (docRides_cloneIntoFragment deepCloneNode fuel _ _ _ _) fun _ => ?_
      cases transfer with
      | cloned => exact .pure _
      | moved => exact docRides_onParsed fun parsed => rides_replaceCharacterData parsed _ _ _ _
    · refine .bind ?_ fun _ => .bind ?_ fun _ => ?_
      · cases span.first with
        | none => exact .pure _
        | some first => exact .bind (docRides_reading _) fun _ =>
            docRides_transferPartialEndpoint deepCloneNode fuel ih _ _ _ _ _
      · cases transfer with
        | moved => exact docRides_moveNodesOut _ _
        | cloned => exact .forM (fun child =>
            .bind (docRides_cloneIntoFragment deepCloneNode fuel _ _ _ _) fun _ => .pure _) _
      · cases span.last with
        | none => exact .pure _
        | some last => exact docRides_transferPartialEndpoint deepCloneNode fuel ih _ _ _ _ _

end

end

/-! ### Live ranges across documents -/

/-- Every document stays, and goes along `R`. -/
def Across {Base : Type} (R : Scripted Base → Scripted Base → Prop)
    (store store' : DocumentStore Base) : Prop :=
  ∀ id doc, store.get id = some doc → ∃ doc', store'.get id = some doc' ∧ R doc doc'

section
variable {Base : Type} {R R' : Scripted Base → Scripted Base → Prop}

instance [Std.Refl R] : Std.Refl (Across R) := ⟨fun _ _ doc h => ⟨doc, h, Std.Refl.refl doc⟩⟩

instance [IsTrans (Scripted Base) R] : IsTrans (DocumentStore Base) (Across R) :=
  ⟨fun _ _ _ h h' id doc hget => by
    obtain ⟨doc', hget', hdoc⟩ := h id doc hget
    obtain ⟨doc'', hget'', hdoc'⟩ := h' id doc' hget'
    exact ⟨doc'', hget'', IsTrans.trans _ _ _ hdoc hdoc'⟩⟩

theorem across_set [Std.Refl R] {store : DocumentStore Base} {id : UInt32} {doc doc' : Scripted Base}
    (hget : store.get id = some doc) (h : R doc doc') : Across R store (store.set id doc') := by
  intro id' other hother
  rw [DocumentStore.get_set]
  split
  · rename_i hid
    subst hid
    obtain rfl := Option.some.inj (hget.symm.trans hother)
    exact ⟨doc', rfl, h⟩
  · exact ⟨other, hother, Std.Refl.refl other⟩

theorem across_onDocument [Std.Refl R] {α : Type} {missing : String} {id : UInt32} {m : DocM Base α}
    (hm : Trial.Stays R m) : Trial.Stays (Across R) (onDocument missing id m) :=
  .inside hm fun _ _ _ hget hdoc => across_set hget hdoc

end

variable {Base FormState : Type} [BlitzNodes Base FormState] {fuel : Nat}

/-- What adoption does: the two documents change, one after the other. -/
theorem adoptAcrossStore_cases {store store' : DocumentStore Base} {parent node fresh : TreeNodeId}
    (h : adoptAcrossStore fuel store parent node = .ok (store', fresh)) :
    node.document = parent.document ∧ store' = store ∧ fresh = node ∨
      ∃ source detached target target' snapshot made,
        node.document ≠ parent.document ∧ store.get node.document = some source ∧
        detachForAdopt source.toParsed node.node = .ok detached ∧
        store.get parent.document = some target ∧
        materializeImport target.toParsed snapshot = made ∧ target'.toParsed = made.1 ∧
        store' = (store.set node.document (source.withParsed detached)).set parent.document target' ∧
        fresh = ⟨parent.document, made.2⟩ := by
  rw [adoptAcrossStore] at h
  split at h
  · rename_i hdocument
    obtain ⟨rfl, rfl⟩ := Prod.mk.inj (Except.ok.inj h)
    exact .inl ⟨hdocument, rfl, rfl⟩
  · rename_i hdocument
    obtain ⟨source, hsource, h⟩ := Except.of_bind_ok h
    obtain ⟨snapshot, -, h⟩ := Except.of_bind_ok h
    obtain ⟨detached, hdetached, h⟩ := Except.of_bind_ok h
    obtain ⟨target, htarget, h⟩ := Except.of_bind_ok h
    obtain ⟨toMark, -, h⟩ := Except.of_bind_ok h
    obtain ⟨rfl, rfl⟩ := Prod.mk.inj (Except.ok.inj h)
    have hget : ∀ {o : Option (Scripted Base)} {e : TreeError} {doc},
        o.elim (.error e) Except.ok = .ok doc → o = some doc := fun {o e doc} ho => by
      cases o with
      | none => cases ho
      | some doc' => rw [← Except.ok.inj ho]
    have htarget := hget htarget
    rw [DocumentStore.get_set, if_neg (Ne.symm hdocument)] at htarget
    exact .inr ⟨source, detached, target, _, snapshot, _, hdocument, hget hsource, hdetached, htarget,
      rfl, (foldl_markScriptStarted toMark _).1, rfl, rfl⟩

theorem across_adoptAcrossStore {store store' : DocumentStore Base} {parent node fresh : TreeNodeId}
    (h : adoptAcrossStore fuel store parent node = .ok (store', fresh)) :
    Across DocRides store store' := by
  rcases adoptAcrossStore_cases h with ⟨-, rfl, -⟩ |
    ⟨source, detached, target, target', snapshot, made, hne, hsource, hdetached, htarget, rfl, hparsed,
      rfl, -⟩
  · exact Std.Refl.refl store'
  · have hget : (store.set node.document (source.withParsed detached)).get parent.document =
        some target := by
      rw [DocumentStore.get_set, if_neg (Ne.symm hne), htarget]
    refine IsTrans.trans _ _ _ (across_set hsource (rides_detachForAdopt _ hdetached))
      (across_set hget ?_)
    rw [DocRides, hparsed]
    exact rides_materializeImport target.toParsed snapshot

theorem across_adoptAcrossDocuments (parent node : TreeNodeId) :
    Trial.Stays (Across DocRides) (adoptAcrossDocuments fuel parent node : StoreM Base TreeNodeId) :=
  .attempt fun _ _ _ h => across_adoptAcrossStore (of_orThrow_ok h)

theorem across_adoptNode (parent node : TreeNodeId) :
    Trial.Stays (Across DocRides) (adoptNode fuel parent node : StoreM Base TreeNodeId) :=
  .bind (.look _) fun _ => .ite (.pure _) (across_adoptAcrossDocuments parent node)

theorem across_adoptEach (parent : TreeNodeId) (nodes : List TreeNodeId) :
    Trial.Stays (Across DocRides) (adoptEach fuel parent nodes : StoreM Base (List TreeNodeId)) := by
  induction nodes with
  | nil => exact .pure _
  | cons node nodes ih =>
    exact .bind (across_adoptAcrossDocuments parent node) fun _ => .bind ih fun _ => .pure _

section
variable {applyInserted : TreeNodeId → List NodeId → StoreM Base Unit}
  (happly : ∀ parent moved, Trial.Stays (Across DocRides) (applyInserted parent moved))
include happly

theorem across_insertTreeNode (parent node : TreeNodeId) (reference : Option TreeNodeId) :
    Trial.Stays (Across DocRides) (insertTreeNode fuel applyInserted parent node reference) := by
  have hforeign : Trial.Stays (Across DocRides)
      (adoptForeignFragmentChildren fuel parent node : StoreM Base (Option (List TreeNodeId))) := by
    refine .bind (.look _) fun _ => .ite ?_ (.pure _)
    exact .bind (.look _) fun _ => .bind (across_adoptEach parent _) fun _ => .pure _
  refine .bind hforeign fun adopted => ?_
  cases adopted with
  | some adopted =>
    refine .bind (across_onDocument (.forM (fun child => ?_) _)) fun _ => happly _ _
    exact docRides_onParsed fun parsed => rides_insertParsed parsed _ _ _
  | none =>
    refine .bind (.look _) fun moved => .bind (across_onDocument ?_) fun _ => happly _ _
    exact docRides_onParsed fun parsed => rides_insertParsed parsed _ _ _

theorem across_splitTextAcross (id : TreeNodeId) (offset : Nat) :
    Trial.Stays (Across DocRides) (splitTextAcross applyInserted id offset) := by
  refine .bind (.look _) fun parent => .bind (across_onDocument (.attempt fun doc doc' new h => ?_))
    fun new => .bind ?_ fun _ => .pure _
  · split at h
    · rename_i parsed' new' hsplit
      obtain ⟨rfl, -⟩ := Prod.mk.inj (Except.ok.inj h)
      exact rides_splitTextNode doc.toParsed hsplit
    · cases h
  · cases parent with
    | none => exact .pure _
    | some parent => exact happly _ _

end

end TinyBrowser.Dom
