import TinyBrowser.Dom.RangeSetters

/-!
# What the methods on contents do

`deleteContents` and `extractContents` collapse the range before they change the tree, so that from
then on its ends move alike: whatever happens, the range stays in its attribute and its ends in one
tree. `surroundContents` puts the range around the new parent at its end.
-/

namespace TinyBrowser.Dom
open Lib Blitz BlitzFragments BlitzNodes

variable {Base FormState : Type} [BlitzNodes Base FormState]

/-! ### Ranges that stay where they are -/

/-- The range is in the document and the attribute of `old`, and as `P` says. -/
def Lives (old : TreeRange) (P : TreeRange → Prop) (world : RangeWorld Base) : Prop :=
  ∃ range, LiveRange world range ∧ range.attr = old.attr ∧ range.document = old.document ∧ P range

def AnyRange (_ : TreeRange) : Prop := True

def Collapsed (range : TreeRange) : Prop := range.start = range.stop

theorem any_rode (r r' : TreeRange) (_ : Rode r r') (_ : AnyRange r) : AnyRange r' := trivial

theorem collapsed_rode (r r' : TreeRange) (h : Rode r r') (hr : Collapsed r) : Collapsed r' :=
  h.collapsed hr

section
variable {world : RangeWorld Base} {range old : TreeRange} {P : TreeRange → Prop}

theorem Lives.mono {P' : TreeRange → Prop} (h : Lives old P world) (hP : ∀ r, P r → P' r) :
    Lives old P' world := by
  obtain ⟨range, hlive, hattr, hdocument, hp⟩ := h
  exact ⟨range, hlive, hattr, hdocument, hP range hp⟩

/-- Steps that move both ends by one map keep it. -/
theorem keeps_onStore {α : Type} {m : StoreM Base α} (hm : Trial.Stays (Across DocRides) m)
    (hP : ∀ r r', Rode r r' → P r → P r') : Trial.Keeps (Lives old P) (onStore m) := by
  rintro world ⟨range, hlive, hattr, hdocument, hp⟩
  have hrode : ∀ world' : RangeWorld Base,
      (∃ range', world'.loaded = some range' ∧ Rode range range') → Lives old P world' := by
    rintro world' ⟨range', hloaded, hrode⟩
    refine ⟨range', ⟨hloaded, hrode.home hlive.home, fun hsome => ?_⟩, hrode.attr_eq.trans hattr,
      hrode.document_eq.trans hdocument, hP range range' hrode hp⟩
    exact hrode.collapsed (hlive.collapsed (hrode.attr_eq ▸ hsome))
  exact (yields_rides hm hlive.loaded).mono (fun _ => hrode) hrode

theorem keeps_readDocument {α : Type} {Q : RangeWorld Base → Prop} {id : UInt32}
    {read : Base → Except Thrown α} : Trial.Keeps Q (readDocument id read) :=
  fun _ hs => yields_readDocument (fun _ _ _ _ => hs) hs

theorem keeps_onRangeDocument {α : Type} {m : DocM Base α} {state : TreeRange}
    (hm : Trial.Stays DocRides m) (hP : ∀ r r', Rode r r' → P r → P r') :
    Trial.Keeps (Lives old P) (onRangeDocument state m) :=
  keeps_onStore (across_onDocument hm) hP

/-- A range in a tree is collapsed onto a point of its document. -/
theorem yields_save_collapsed {α : Type} {next : Unit → RangeM Base α} {ok : α → RangeWorld Base → Prop}
    {err : RangeWorld Base → Prop} {point : BoundaryPoint} (h : LiveRange world range)
    (hattr : range.attr = none)
    (hnext : ∀ world', Lives range Collapsed world' → (next ()).Yields ok err world') :
    (save (.collapsed (point.within range.start.node.document)) >>= next).Yields ok err world := by
  obtain ⟨doc, hdoc⟩ := exists_document_of_loaded h
  have hdocument : (TreeRange.collapsed (point.within range.start.node.document)).document =
      range.document := h.document_start.1
  refine Trial.yields_bind.2 ((yields_save h.loaded (hdocument ▸ hdoc)).mono ?_ nofun)
  rintro _ world' ⟨hloaded, -⟩
  refine hnext world' ⟨_, ⟨hloaded, ?_, nofun⟩, hattr.symm, hdocument, rfl⟩
  simp [TreeRange.atHome, TreeRange.document, TreeRange.collapsed, BoundaryPoint.within]

end

/-! ### Deletion -/

section
variable {world : RangeWorld Base} {range : TreeRange}

/-- The range stays in its attribute, and its ends in one tree. -/
def Stable (world : RangeWorld Base) (range : TreeRange) (world' : RangeWorld Base) : Prop :=
  ∃ new, LiveRange world' new ∧ new.attr = range.attr ∧
    (Joined world.store range → Joined world'.store new)

theorem stable_self (h : LiveRange world range) : Stable world range world := ⟨range, h, rfl, id⟩

theorem stable_of_collapsed {world' : RangeWorld Base} (h : Lives range Collapsed world') :
    Stable world range world' := by
  obtain ⟨new, hlive, hattr, -, hcollapsed⟩ := h
  exact ⟨new, hlive, hattr, fun _ => .inl (congrArg TreePoint.node hcollapsed)⟩

/-- Ends in one node stay in one node when they ride. -/
def RidesWithin (doc doc' : Scripted Base) : Prop :=
  ∃ g : BoundaryPoint → BoundaryPoint, (∀ p, (g p).node = p.node) ∧
    doc'.side.ranges = doc.side.ranges.mapPoints g

instance : Std.Refl (@RidesWithin Base) :=
  ⟨fun doc => ⟨id, fun _ => rfl, (RangeTable.mapPoints_id doc.side.ranges).symm⟩⟩

theorem ridesWithin_replaceCharacterData (parsed : Parsed Base) (id : NodeId) (offset count : Nat)
    (units : Units) : ∃ g : BoundaryPoint → BoundaryPoint, (∀ p, (g p).node = p.node) ∧
      (replaceCharacterData parsed id offset count units).side.ranges =
        parsed.side.ranges.mapPoints g := by
  have hid : ∃ g : BoundaryPoint → BoundaryPoint, (∀ p, (g p).node = p.node) ∧
      parsed.side.ranges = parsed.side.ranges.mapPoints g :=
    ⟨fun p => p, fun _ => rfl, (RangeTable.mapPoints_id parsed.side.ranges).symm⟩
  rw [replaceCharacterData]
  split
  · exact hid
  · dsimp only
    split
    · exact hid
    · refine ⟨_, fun p => ?_, (Parsed.ranges_record _ _).trans rfl⟩
      split_ifs
      · rfl
      · rfl
      · rfl
      · rfl

theorem keeps_cutEnd {old : TreeRange} (state : TreeRange) (isText : Bool) (node : NodeId)
    (offset count : Nat) :
    Trial.Keeps (Lives old Collapsed) (cutEnd state isText node offset count : RangeM Base Unit) :=
  .ite (keeps_onRangeDocument (docRides_onParsed fun parsed =>
    rides_replaceCharacterData parsed _ _ _ _) collapsed_rode) (.pure _)

theorem yields_deleteContents (h : LiveRange world range) : deleteContents.Yields
    (fun _ => Stable world range) (Stable world range) world := by
  have hself := stable_self h
  refine Trial.yields_bind.2 (yields_load h.loaded ?_)
  split_ifs with hcollapsed
  · exact Trial.yields_pure.2 hself
  · have hattr : range.attr = none := by
      by_contra hne
      exact hcollapsed (h.collapsed (Option.isSome_iff_ne_none.2 hne))
    refine Trial.yields_bind.2 (yields_readDocument (fun doc sameText _ hsame => ?_) hself)
    obtain rfl := Except.ok.inj hsame
    split_ifs with hsame
    · -- the one text keeps both ends
      have hnode : range.start.node = range.stop.node :=
        of_decide_eq_true (Bool.and_eq_true_iff.1 hsame).1
      have hwithin : ∀ world' : RangeWorld Base, world'.registration = world.registration ∧
          Across RidesWithin world.store world'.store → Stable world range world' := by
        rintro ⟨store, registration⟩ ⟨rfl, hacross⟩
        obtain ⟨new, hloaded, rfl | ⟨g, hg, rfl⟩⟩ := loaded_across (fun _ _ h => h) h.loaded hacross
        · exact ⟨new, ⟨hloaded, h.home, h.collapsed⟩, rfl, fun _ => .inl hnode⟩
        · refine ⟨_, ⟨hloaded, (TreeRange.atHome_mapEnds g range).trans h.home, ?_⟩, rfl,
            fun _ => .inl ?_⟩
          · rw [TreeRange.mapEnds, hattr]
            rintro ⟨⟩
          · simp only [TreeRange.mapEnds, BoundaryPoint.within, hg, TreePoint.point]
            exact hnode
      have hstays : Trial.Stays RidesWithin (onParsed fun parsed : Parsed Base => replaceCharacterData
          parsed range.start.point.node range.start.point.offset
            (range.stop.point.offset - range.start.point.offset) []) :=
        .change fun doc => ridesWithin_replaceCharacterData doc.toParsed _ _ _ _
      exact (yields_onStore ((across_onDocument hstays).yields world.store)).mono (fun _ => hwithin)
        hwithin
    · refine Trial.yields_bind.2 (yields_readDocument (fun _ point _ _ => ?_) hself)
      refine Trial.yields_bind.2 (yields_readDocument (fun _ doomed _ _ => ?_) hself)
      refine Trial.yields_bind.2 (yields_readDocument (fun _ startText _ _ => ?_) hself)
      refine Trial.yields_bind.2 (yields_readDocument (fun _ endText _ _ => ?_) hself)
      refine yields_save_collapsed h hattr fun world' hlives => ?_
      have hmoved : Trial.Keeps (Lives range Collapsed)
          (onRangeDocument range (moveNodesOut doomed none) : RangeM Base Unit) :=
        keeps_onRangeDocument (docRides_moveNodesOut doomed none) collapsed_rode
      have hkeeps := (keeps_cutEnd range startText range.start.point.node range.start.point.offset
        4294967295).bind fun _ => hmoved.bind fun _ => keeps_cutEnd range endText
          range.stop.point.node 0 range.stop.point.offset
      exact (hkeeps world' hlives).mono (fun _ _ => stable_of_collapsed) fun _ => stable_of_collapsed

end

/-! ### Extraction -/

section
variable {world : RangeWorld Base} {range : TreeRange}

/-- What creating a node does: the ranges and the trees stay, and so do the nodes. -/
structure Grows (doc doc' : Scripted Base) : Prop where
  ranges_eq : doc'.side.ranges = doc.side.ranges
  tree_eq : tree doc'.base = tree doc.base
  data_ne : ∀ id, data doc.base id ≠ none → data doc'.base id ≠ none

instance : Std.Refl (@Grows Base FormState _) := ⟨fun _ => ⟨rfl, rfl, fun _ => id⟩⟩

theorem grows_createFragmentIn (laws : BlitzFragments.Laws Base) :
    Trial.Stays Grows (createFragmentIn : DocM Base NodeId) := by
  refine .make fun doc => ⟨rfl, laws.tree_createFragmentNode doc.base, fun id hid => ?_⟩
  show data (createFragmentNode doc.base).1 id ≠ none
  rw [laws.data_createFragmentNode, Function.update_apply]
  split_ifs
  · nofun
  · exact hid

theorem Joined.across_grows {store store' : DocumentStore Base} (h : Joined store range)
    (hgrows : Across Grows store store') : Joined store' range := by
  refine h.imp id ?_
  rintro ⟨doc, hdoc, h⟩
  obtain ⟨doc', hdoc', hgrown⟩ := hgrows _ doc hdoc
  obtain ⟨hdocument, hstart, hstop, hroot⟩ := sameTree_iff.1 h
  refine ⟨doc', hdoc', sameTree_iff.2 ⟨hdocument, hgrown.data_ne _ hstart, hgrown.data_ne _ hstop, ?_⟩⟩
  rw [← top_eq_rootOf, ← top_eq_rootOf] at hroot ⊢
  rw [hgrown.tree_eq, hroot]

theorem yields_createFragment (laws : BlitzFragments.Laws Base) (h : LiveRange world range) :
    (onRangeDocument range createFragmentIn : RangeM Base NodeId).Yields
      (fun _ world' => LiveRange world' range ∧ (Joined world.store range → Joined world'.store range))
      (fun world' => LiveRange world' range ∧ (Joined world.store range → Joined world'.store range))
      world := by
  have hgrown : ∀ world' : RangeWorld Base, world'.registration = world.registration ∧
      Across Grows world.store world'.store →
      LiveRange world' range ∧ (Joined world.store range → Joined world'.store range) := by
    rintro ⟨store, registration⟩ ⟨rfl, hacross⟩
    refine ⟨⟨?_, h.home, h.collapsed⟩, fun hjoined => hjoined.across_grows hacross⟩
    obtain ⟨new, hloaded, rfl | ⟨g, rfl, rfl⟩⟩ := loaded_across (K := (· = id))
      (fun doc doc' hgrows => ⟨id, rfl, by rw [hgrows.ranges_eq, RangeTable.mapPoints_id]⟩)
      h.loaded hacross
    · exact hloaded
    · exact hloaded
  exact (yields_onStore ((across_onDocument (grows_createFragmentIn laws)).yields world.store)).mono
    (fun _ => hgrown) hgrown

variable (deepCloneNode : Base → NodeId → Base × NodeId) (fuel : Nat)

/-- Either nothing has changed, or the range is collapsed by then. -/
def Settled (world : RangeWorld Base) (range : TreeRange) (world' : RangeWorld Base) : Prop :=
  world' = world ∨ Lives range Collapsed world'

theorem yields_extractIntoSlot (h : LiveRange world range) (fragment : NodeId) :
    (extractIntoSlot deepCloneNode fuel fragment range).Yields (fun _ => Settled world range)
      (Settled world range) world := by
  have hself : Settled world range world := .inl rfl
  rw [extractIntoSlot]
  split_ifs with hcollapsed
  · exact Trial.yields_pure.2 hself
  · have hattr : range.attr = none := by
      by_contra hne
      exact hcollapsed (h.collapsed (Option.isSome_iff_ne_none.2 hne))
    refine Trial.yields_bind.2 (yields_readDocument (fun _ _ _ _ => ?_) hself)
    refine Trial.yields_bind.2 (yields_readDocument (fun _ point _ _ => ?_) hself)
    refine yields_save_collapsed h hattr fun world' hlives => ?_
    have hkeeps : Trial.Keeps (Lives range Collapsed) (onRangeDocument range
        (produceContents deepCloneNode fuel .moved fuel fragment range.state) : RangeM Base Unit) :=
      keeps_onRangeDocument (docRides_produceContents deepCloneNode fuel _ _ _ _) collapsed_rode
    exact (hkeeps world' hlives).mono (fun _ _ => .inr) fun _ => .inr

theorem yields_extractContents (laws : BlitzFragments.Laws Base) (h : LiveRange world range) :
    (extractContents deepCloneNode fuel : RangeM Base TreeNodeId).Yields
      (fun _ => Stable world range) (Stable world range) world := by
  refine Trial.yields_bind.2 (yields_load h.loaded (Trial.yields_bind.2
    ((yields_createFragment laws h).mono ?_ fun world' hgrown => ⟨range, hgrown.1, rfl, hgrown.2⟩)))
  rintro fragment world₁ ⟨hlive, hjoined⟩
  have hsettled : ∀ world', Settled world₁ range world' → Stable world range world' := by
    rintro world' (rfl | hlives)
    · exact ⟨range, hlive, rfl, hjoined⟩
    · exact stable_of_collapsed hlives
  exact Trial.yields_bind.2 ((yields_extractIntoSlot deepCloneNode fuel hlive fragment).mono
    (fun _ world' hs => Trial.yields_pure.2 (hsettled world' hs)) hsettled)

end

/-! ### Surrounding -/

section
variable {world : RangeWorld Base} {range old : TreeRange}
  (deepCloneNode : Base → NodeId → Base × NodeId) (fuel : Nat)
  {applyInserted : TreeNodeId → List NodeId → StoreM Base Unit}

theorem lives_self (h : LiveRange world range) : Lives range AnyRange world :=
  ⟨range, h, rfl, rfl, trivial⟩

/-- The target of an insertion is of the range's document. -/
theorem document_insertNodeTarget {base : Base} {arg : TreeNodeId}
    {target : TreeNodeId × Option TreeNodeId} (h : insertNodeTarget base range arg = .ok target) :
    target.1.document = range.start.node.document := by
  obtain ⟨-, -, h⟩ := Except.of_bind_ok h
  obtain ⟨-, -, h⟩ := Except.of_bind_ok h
  obtain ⟨-, -, h⟩ := Except.of_bind_ok h
  split at h
  · rw [← Except.ok.inj h]
  · rw [← Except.ok.inj h]

theorem keeps_takeIn (hattr : old.attr = none) {parent : TreeNodeId}
    (hparent : parent.document = old.document) (reference : Option TreeNodeId) :
    Trial.Keeps (Lives old AnyRange) (takeIn parent reference : RangeM Base Unit) := by
  rintro world ⟨range, hlive, hsame, hdocument, -⟩
  have hself : Lives old AnyRange world := ⟨range, hlive, hsame, hdocument, trivial⟩
  refine Trial.yields_bind.2 (yields_load hlive.loaded ?_)
  split_ifs with hcollapsed
  · refine Trial.yields_bind.2 (yields_readDocument (fun _ offset _ _ => ?_) hself)
    obtain ⟨doc, hdoc⟩ := exists_document_of_loaded hlive
    have htarget : (⟨range.start, ⟨parent, offset⟩, none⟩ : TreeRange).document = range.document :=
      hlive.document_start.1
    refine (yields_save hlive.loaded (htarget ▸ hdoc)).mono ?_ nofun
    rintro _ world' ⟨hloaded, -⟩
    refine ⟨_, ⟨hloaded, ?_, nofun⟩, hattr.symm, htarget.trans hdocument, trivial⟩
    rw [TreeRange.atHome, htarget]
    simp [hlive.document_start.1, hparent, hdocument]
  · exact Trial.yields_pure.2 hself

theorem keeps_insertNode (happly : ∀ parent moved,
      Trial.Stays (Across DocRides) (applyInserted parent moved)) (arg : TreeNodeId) :
    Trial.Keeps (Lives old AnyRange) (insertNode fuel applyInserted arg) := by
  rintro world ⟨range, hlive, hattr, hdocument, -⟩
  have hself : Lives old AnyRange world := ⟨range, hlive, hattr, hdocument, trivial⟩
  refine Trial.yields_bind.2 (yields_load hlive.loaded (Trial.yields_bind.2
    (Trial.yields_look.2 ⟨fun _ hnone => ?_, fun _ _ => hself⟩)))
  have hnone : old.attr = none := by
    rw [← hattr]
    exact Option.not_isSome_iff_eq_none.1 (Bool.not_eq_true _ ▸ of_refuse_ok hnone)
  refine Trial.yields_bind.2 (yields_readDocument (fun doc target _ htarget => ?_) hself)
  have hparent : target.1.document = old.document :=
    (document_insertNodeTarget htarget).trans (hlive.document_start.1.trans hdocument)
  have hchecked : Trial.Keeps (Lives old AnyRange) (onStore (.look fun store =>
      insertionAcross fuel store target.1 (.tree arg) (target.2.map .tree) []) : RangeM Base _) :=
    keeps_onStore (.look _) any_rode
  have hadopted : ∀ node, Trial.Keeps (Lives old AnyRange)
      (onStore (adoptNode fuel target.1 node) : RangeM Base TreeNodeId) := fun node =>
    keeps_onStore (across_adoptNode target.1 node) any_rode
  have hsplit : ∀ inText child, Trial.Keeps (Lives old AnyRange)
      (splitStart applyInserted range.start inText child) := fun inText child =>
    .ite (.bind (keeps_onStore (across_splitTextAcross happly _ _) any_rode) fun _ => .pure _)
      (.pure _)
  have hskip : ∀ node reference, Trial.Keeps (Lives old AnyRange)
      (skipItself target.1 node reference : RangeM Base _) := fun node reference =>
    .ite keeps_readDocument (.pure _)
  have hinserted : ∀ node reference, Trial.Keeps (Lives old AnyRange)
      (onStore (insertTreeNode fuel applyInserted target.1 node reference)) :=
    fun node reference => keeps_onStore (across_insertTreeNode happly _ _ _) any_rode
  exact (hchecked.bind fun checked => (hadopted checked.1).bind fun node =>
    keeps_readDocument.bind fun inText => (hsplit inText checked.2).bind fun reference =>
      (hskip node reference).bind fun reference => (hinserted node reference).bind fun _ =>
        (keeps_takeIn hnone hparent reference).bind fun _ => .pure _) world hself

/-- The range selects the new parent. -/
def Selects (parent : TreeNodeId) (world : RangeWorld Base) : Prop :=
  ∃ range placed, LiveRange world range ∧ pointsAround world.store parent = some placed ∧
    placed.ReportedBy range ∧ Joined world.store range

theorem yields_surroundContents (laws : BlitzFragments.Laws Base) (happly : ∀ parent moved,
      Trial.Stays (Across DocRides) (applyInserted parent moved)) (h : LiveRange world range)
    (node : TreeNodeReference) :
    (surroundContents deepCloneNode fuel applyInserted node).Yields Selects
      (Lives range AnyRange) world := by
  have hself := lives_self h
  refine Trial.yields_bind.2 (Trial.yields_look.2 ⟨fun newParent _ => ?_, fun _ _ => hself⟩)
  refine Trial.yields_bind.2 (yields_load h.loaded ?_)
  refine Trial.yields_bind.2 (yields_readDocument (fun _ _ _ _ => ?_) hself)
  refine Trial.yields_bind.2 (yields_readDocument (fun _ _ _ _ => ?_) hself)
  refine Trial.yields_bind.2 ((yields_createFragment laws h).mono ?_ fun world' hgrown =>
    lives_self hgrown.1)
  rintro fragment world₁ ⟨hlive, -⟩
  have hsettled : ∀ world', Settled world₁ range world' → Lives range AnyRange world' := by
    rintro world' (rfl | hlives)
    · exact lives_self hlive
    · exact hlives.mono fun _ _ => trivial
  refine Trial.yields_bind.2 ((yields_extractIntoSlot deepCloneNode fuel hlive fragment).mono
    (fun _ world₂ hsettle => ?_) hsettled)
  have hemptied : Trial.Keeps (Lives range AnyRange) (onStore (onDocument "stale range"
      newParent.document (onParsed fun parsed => replaceAllJournaled parsed newParent.node [])) :
        RangeM Base Unit) :=
    keeps_onStore (across_onDocument (docRides_onParsed fun parsed =>
      rides_replaceAllJournaled parsed _ _)) any_rode
  refine Trial.yields_bind.2 ((hemptied world₂ (hsettled world₂ hsettle)).mono (fun _ world₃ h₃ => ?_)
    fun _ => id)
  refine Trial.yields_bind.2 ((keeps_insertNode fuel happly newParent world₃ h₃).mono
    (fun placed world₄ h₄ => ?_) fun _ => id)
  refine Trial.yields_bind.2 (yields_readDocument (fun _ _ _ _ => ?_) h₄)
  refine Trial.yields_bind.2 (yields_readDocument (fun _ contents _ _ => ?_) h₄)
  have hmoved : Trial.Keeps (Lives range AnyRange) (onRangeDocument range
      (moveNodesOut contents (some placed.node)) : RangeM Base Unit) :=
    keeps_onRangeDocument (docRides_moveNodesOut _ _) any_rode
  refine Trial.yields_bind.2 ((hmoved world₄ h₄).mono (fun _ world₅ h₅ => ?_) fun _ => id)
  refine Trial.yields_bind.2 (yields_readDocument (fun doc place hdoc hplace => ?_) h₅)
  obtain ⟨last, hlast, -⟩ := h₅
  obtain ⟨parent, index⟩ := place
  let around : TreeRange :=
    ⟨⟨⟨placed.document, parent⟩, index⟩, ⟨⟨placed.document, parent⟩, index + 1⟩, none⟩
  have htarget : world₅.store.get around.document = some doc := hdoc
  refine Trial.yields_bind.2 ((yields_save hlast.loaded htarget).mono ?_ nofun)
  rintro _ world₆ ⟨hloaded, hsame⟩
  obtain ⟨doc', hdoc', hbase⟩ := hsame _ _ hdoc
  rw [← hbase] at hplace
  refine Trial.yields_pure.2 ⟨around, .points around.start around.stop, ⟨hloaded, ?_, nofun⟩, ?_,
    reportedBy_points _ _, .inl rfl⟩
  · simp [around, TreeRange.atHome, TreeRange.document]
  · rw [pointsAround, pointBeside_of_placeOf hdoc' 0 hplace, pointBeside_of_placeOf hdoc' 1 hplace]
    rfl

end

end TinyBrowser.Dom
