import TinyBrowser.Dom.RangeContents
import TinyBrowser.Dom.Arena

/-!
# Ranges in attributes

A range reports where the last setter placed it exactly as long as `selectNode` is not called on a
range in an attribute: the other setters set or clear the attribute, and `selectNode` leaves it.
-/

namespace TinyBrowser.Dom
open Lib Blitz BlitzFragments BlitzNodes

variable {Base FormState : Type} [BlitzNodes Base FormState]

/-- What a run keeps: its range is live and where it was placed. -/
def RangeRun.Good (run : RangeRun Base) : Prop :=
  ∃ range, LiveRange run.world range ∧ run.placed.ReportedBy range ∧
    (run.joined = true → Joined run.world.store range)

theorem RangeRun.Good.reports {run : RangeRun Base} (h : run.Good) : run.Reports := by
  obtain ⟨range, hlive, hplaced, hjoined⟩ := h
  exact ⟨range, hlive.loaded, hplaced, hjoined⟩

omit [BlitzNodes Base FormState] in
theorem Placed.ReportedBy.kept {placed : Placed} {range new : TreeRange} (h : placed.ReportedBy range)
    (hattr : new.attr = range.attr) : placed.kept.ReportedBy new := by
  cases placed with
  | attr place =>
    obtain ⟨hplace, -⟩ := h
    rw [hplace] at hattr
    exact ⟨hattr, by simp [TreeRange.getStartContainer, TreeRange.getStartOffset, hattr],
      by simp [TreeRange.getEndContainer, TreeRange.getEndOffset, hattr]⟩
  | points start stop => exact hattr.trans h.1
  | inTree => exact hattr.trans h

theorem pointsAround_of_pointBeside {store : DocumentStore Base} {id : TreeNodeId}
    {doc : Scripted Base} (hdoc : store.get id.document = some doc) {beside : Base × TreePoint}
    (h : pointBeside store id 0 = some beside) : pointsAround store id =
      some (.points beside.2 (⟨beside.2.node, beside.2.offset + 1⟩ : TreePoint)) := by
  rw [pointsAround, h, pointBeside_eq hdoc]
  rw [pointBeside_eq hdoc] at h
  obtain ⟨place, hplace, rfl⟩ := Option.map_eq_some_iff.1 h
  rw [hplace]
  rfl

section
variable {world : RangeWorld Base} {range : TreeRange} {placed : Placed} {joined : Bool}
  (deepCloneNode : Base → NodeId → Base × NodeId) (fuel : Nat)
  {applyInserted : TreeNodeId → List NodeId → StoreM Base Unit}

/-- What a call leaves of a range that was in `placed`. -/
def Leaves (world : RangeWorld Base) (range : TreeRange) (placed : Placed) (joined : Bool)
    (call : RangeCall) (out : Option TreeNodeId) (world' : RangeWorld Base) : Prop :=
  (⟨world', (prescribed world.store world'.store range out call).getD placed.kept,
    joined || call.surrounds⟩ : RangeRun Base).Good

/-- What a call that throws leaves. -/
def LeavesThrown (placed : Placed) (joined : Bool) (call : RangeCall) (world' : RangeWorld Base) :
    Prop :=
  (⟨world', placed.kept, joined && !call.surrounds⟩ : RangeRun Base).Good

theorem leavesThrown_self (h : LiveRange world range) (hplaced : placed.ReportedBy range)
    (hjoined : joined = true → Joined world.store range) (call : RangeCall) :
    LeavesThrown placed joined call world :=
  ⟨range, h, hplaced.kept rfl, fun hj => hjoined (Bool.and_eq_true_iff.1 hj).1⟩

theorem yields_of_sets {P : TreeRange → Prop} {m : RangeM Base Unit} {call : RangeCall}
    (h : LiveRange world range) (hplaced : placed.ReportedBy range)
    (hjoined : joined = true → Joined world.store range) (hcall : call.surrounds = false)
    (hset : Sets range P m world) (hP : ∀ new store', P new →
      ((prescribed world.store store' range none call).getD placed.kept).ReportedBy new) :
    (m >>= fun _ => pure none).Yields (Leaves world range placed joined call)
      (LeavesThrown placed joined call) world := by
  refine Trial.yields_bind.2 (Trial.Yields.mono hset ?_ ?_)
  · rintro _ world' ⟨new, hnew, hlive, hkept⟩
    refine Trial.yields_pure.2 ⟨new, hlive, hP new _ hnew, fun hj => hkept (hjoined ?_)⟩
    simpa [hcall] using hj
  · rintro world' rfl
    exact leavesThrown_self h hplaced hjoined call

theorem yields_of_stable {m : RangeM Base (Option TreeNodeId)} {call : RangeCall}
    (hplaced : placed.ReportedBy range) (hjoined : joined = true → Joined world.store range)
    (hcall : call.surrounds = false)
    (hm : m.Yields (fun _ => Stable world range) (Stable world range) world)
    (hnone : ∀ out store', prescribed world.store store' range out call = none) :
    m.Yields (Leaves world range placed joined call) (LeavesThrown placed joined call) world := by
  refine hm.mono ?_ ?_
  · rintro out world' ⟨new, hlive, hattr, hkept⟩
    refine ⟨new, hlive, ?_, fun hj => hkept (hjoined ?_)⟩
    · rw [hnone]
      exact hplaced.kept hattr
    · simpa [hcall] using hj
  · rintro world' ⟨new, hlive, hattr, hkept⟩
    exact ⟨new, hlive, hplaced.kept hattr, fun hj => hkept (hjoined (Bool.and_eq_true_iff.1 hj).1)⟩

variable (laws : BlitzFragments.Laws Base) (happly : ∀ parent moved,
  Trial.Stays (Across DocRides) (applyInserted parent moved))
include laws happly

/-- Every call but that of `Sticks`. -/
theorem yields_method (h : LiveRange world range) (hplaced : placed.ReportedBy range)
    (hjoined : joined = true → Joined world.store range) {call : RangeCall}
    (hnode : ∀ node ∈ call.node?, ∃ doc, world.store.get node.document = some doc)
    (hstick : ∀ id, call = .selectNode (.tree id) → range.attr.isSome = true →
      pointBeside world.store id 0 = none) :
    (call.method deepCloneNode fuel applyInserted).Yields (Leaves world range placed joined call)
      (LeavesThrown placed joined call) world := by
  have hstart : ∀ (bp : TreePoint) doc, world.store.get bp.node.document = some doc → Lands world.store
      range bp (setStartPoint doc.base range bp) (placeStart world.store doc.base range bp) :=
    fun _ _ hdoc => lands_setStartPoint h hdoc
  have hend : ∀ (bp : TreePoint) doc, world.store.get bp.node.document = some doc → Lands world.store
      range bp (setEndPoint doc.base range bp) (placeEnd world.store doc.base range bp) :=
    fun _ _ hdoc => lands_setEndPoint h hdoc
  cases call with
  | setStart node offset =>
    obtain ⟨doc, hdoc⟩ := hnode node rfl
    refine yields_of_sets h hplaced hjoined rfl (sets_setPointTo h hstart hdoc offset) ?_
    intro new store' hnew
    cases node with
    | attr scope id => exact hnew
    | tree id =>
      have hdoc' : world.store.get id.document = some doc := hdoc
      rw [prescribed, hdoc']
      exact hnew
  | setEnd node offset =>
    obtain ⟨doc, hdoc⟩ := hnode node rfl
    refine yields_of_sets h hplaced hjoined rfl (sets_setPointTo h hend hdoc offset) ?_
    intro new store' hnew
    cases node with
    | attr scope id => exact hnew
    | tree id =>
      have hdoc' : world.store.get id.document = some doc := hdoc
      rw [prescribed, hdoc']
      exact hnew
  | setStartBefore node =>
    refine yields_of_sets h hplaced hjoined rfl (sets_setPointBeside h hstart 0 node) ?_
    rintro new store' ⟨id, beside, rfl, hbeside, hnew⟩
    rw [prescribed, hbeside]
    exact hnew
  | setStartAfter node =>
    refine yields_of_sets h hplaced hjoined rfl (sets_setPointBeside h hstart 1 node) ?_
    rintro new store' ⟨id, beside, rfl, hbeside, hnew⟩
    rw [prescribed, hbeside]
    exact hnew
  | setEndBefore node =>
    refine yields_of_sets h hplaced hjoined rfl (sets_setPointBeside h hend 0 node) ?_
    rintro new store' ⟨id, beside, rfl, hbeside, hnew⟩
    rw [prescribed, hbeside]
    exact hnew
  | setEndAfter node =>
    refine yields_of_sets h hplaced hjoined rfl (sets_setPointBeside h hend 1 node) ?_
    rintro new store' ⟨id, beside, rfl, hbeside, hnew⟩
    rw [prescribed, hbeside]
    exact hnew
  | collapse toStart =>
    refine yields_of_sets h hplaced hjoined rfl (sets_collapse h toStart) ?_
    intro new store' hnew
    exact hplaced.kept hnew
  | selectNode node =>
    obtain ⟨doc, hdoc⟩ := hnode node rfl
    refine Trial.yields_bind.2 ((yields_selectNode h hdoc).mono ?_ ?_)
    · rintro _ world' ⟨id, beside, rfl, hbeside, hloaded, hsame⟩
      have hattr : range.attr = none := by
        by_contra hne
        cases hbeside.symm.trans (hstick id rfl (Option.isSome_iff_ne_none.2 hne))
      rw [hattr] at hloaded
      refine Trial.yields_pure.2 ⟨_, ⟨hloaded, ?_, nofun⟩, ?_, fun _ => .inl rfl⟩
      · simp [TreeRange.atHome, TreeRange.document]
      · show ((pointsAround world.store id).getD placed.kept).ReportedBy _
        rw [pointsAround_of_pointBeside hdoc hbeside]
        exact reportedBy_points _ _
    · rintro world' ⟨rfl, -⟩
      exact leavesThrown_self h hplaced hjoined _
  | selectNodeContents node =>
    obtain ⟨doc, hdoc⟩ := hnode node rfl
    refine yields_of_sets h hplaced hjoined rfl (sets_selectNodeContents h hdoc) ?_
    intro new store' hnew
    cases node with
    | attr scope id => exact hnew
    | tree id =>
      have hdoc' : world.store.get id.document = some doc := hdoc
      rw [prescribed, hdoc']
      exact hnew
  | deleteContents =>
    refine yields_of_stable hplaced hjoined rfl (Trial.yields_bind.2 ?_) fun _ _ => rfl
    exact (yields_deleteContents h).mono (fun _ _ hs => Trial.yields_pure.2 hs) fun _ => id
  | extractContents =>
    refine yields_of_stable hplaced hjoined rfl (Trial.yields_bind.2 ?_) fun _ _ => rfl
    exact (yields_extractContents deepCloneNode fuel laws h).mono
      (fun _ _ hs => Trial.yields_pure.2 hs) fun _ => id
  | surroundContents node =>
    refine Trial.yields_bind.2
      ((yields_surroundContents deepCloneNode fuel laws happly h node).mono ?_ ?_)
    · rintro newParent world' ⟨new, around, hlive, haround, hreported, hj⟩
      refine Trial.yields_pure.2 ⟨new, hlive, ?_, fun _ => hj⟩
      show ((pointsAround world'.store newParent).getD placed.kept).ReportedBy new
      rw [haround]
      exact hreported
    · rintro world' ⟨new, hlive, hattr, -, -⟩
      refine ⟨new, hlive, hplaced.kept hattr, fun hj => ?_⟩
      simp [RangeCall.surrounds] at hj

end

section
variable (deepCloneNode : Base → NodeId → Base × NodeId) (fuel : Nat)
  {applyInserted : TreeNodeId → List NodeId → StoreM Base Unit} {run run' : RangeRun Base}
  {call : RangeCall}

theorem of_step (h : run.step deepCloneNode fuel applyInserted call = some run') :
    (∀ node ∈ call.node?, ∃ doc, run.world.store.get node.document = some doc) ∧
      ∃ r world', (call.method deepCloneNode fuel applyInserted).runOn run.world = (r, world') ∧
        ((∃ e, r = .error e ∧ run' = ⟨world', run.placed.kept, run.joined && !call.surrounds⟩) ∨
          ∃ out, r = .ok out ∧ run' = ⟨world', (run.world.loaded.bind fun range =>
            prescribed run.world.store world'.store range out call).getD run.placed.kept,
              run.joined || call.surrounds⟩) := by
  rw [RangeRun.step] at h
  split at h
  · cases h
  · rename_i hnode
    refine ⟨fun node hmem => ?_, ?_⟩
    · rw [Option.mem_def.1 hmem, Option.any_some, Option.isNone_iff_eq_none] at hnode
      exact Option.ne_none_iff_exists'.1 hnode
    · split at h
      · cases h
      · rename_i e world' _ hrun
        exact ⟨_, world', hrun, .inl ⟨e, rfl, (Option.some.inj h).symm⟩⟩
      · rename_i out world' hrun
        exact ⟨_, world', hrun, .inr ⟨out, rfl, (Option.some.inj h).symm⟩⟩

theorem RangeRun.Good.step (laws : BlitzFragments.Laws Base) (happly : ∀ parent moved,
      Trial.Stays (Across DocRides) (applyInserted parent moved)) (hrun : run.Good)
    (hstick : ¬ Sticks run call) (h : run.step deepCloneNode fuel applyInserted call = some run') :
    run'.Good := by
  obtain ⟨range, hlive, hplaced, hjoined⟩ := hrun
  obtain ⟨hnode, r, world', hmethod, hout⟩ := of_step deepCloneNode fuel h
  have hfree : ∀ id, call = .selectNode (.tree id) → range.attr.isSome = true →
      pointBeside run.world.store id 0 = none := by
    intro id hcall hattr
    by_contra hbeside
    exact hstick ⟨id, hcall, ⟨range, hlive.loaded, hattr⟩, Option.isSome_iff_ne_none.2 hbeside⟩
  obtain ⟨hok, herr⟩ := (yields_method deepCloneNode fuel laws happly hlive hplaced hjoined hnode
    hfree).of_runOn hmethod
  rcases hout with ⟨e, rfl, rfl⟩ | ⟨out, rfl, rfl⟩
  · exact herr e rfl
  · rw [hlive.loaded]
    exact hok out rfl

/-- A range in an attribute that selects a node goes on to report the attribute. -/
theorem not_reports_of_sticks (hrun : run.Good) (hstick : Sticks run call) :
    ∃ run', run.step deepCloneNode fuel applyInserted call = some run' ∧ ¬ run'.Reports := by
  obtain ⟨range, hlive, -, -⟩ := hrun
  obtain ⟨id, rfl, ⟨range', hloaded, hattr⟩, hbeside⟩ := hstick
  obtain rfl := Option.some.inj (hlive.loaded.symm.trans hloaded)
  obtain ⟨beside, hbeside⟩ := Option.isSome_iff_exists.1 hbeside
  obtain ⟨doc, hdoc⟩ : ∃ doc, run.world.store.get id.document = some doc := by
    rw [pointBeside] at hbeside
    obtain ⟨doc, hdoc, -⟩ := Option.bind_eq_some_iff.1 hbeside
    exact ⟨doc, hdoc⟩
  have hnode : (RangeCall.selectNode (.tree id)).node?.any
      (fun node => (run.world.store.get node.document).isNone) = false := by
    show (run.world.store.get id.document).isNone = false
    rw [hdoc]
    rfl
  rcases hmethod : ((RangeCall.selectNode (.tree id)).method deepCloneNode fuel
    applyInserted).runOn run.world with ⟨r, world'⟩
  have hyields : ((RangeCall.selectNode (.tree id)).method deepCloneNode fuel applyInserted).Yields
      (fun _ world' => ∃ new, world'.loaded = some new ∧ new.attr = range.attr)
      (fun _ => False) run.world := by
    have htarget : run.world.store.get (TreeNodeReference.tree id).document = some doc := hdoc
    refine Trial.yields_bind.2 ((yields_selectNode hlive htarget).mono ?_ ?_)
    · rintro _ world' ⟨id', place, -, -, hselected, -⟩
      exact Trial.yields_pure.2 ⟨_, hselected, rfl⟩
    · rintro world' ⟨-, hnone⟩
      cases (hnone id rfl).symm.trans hbeside
  obtain ⟨hok, herr⟩ := hyields.of_runOn hmethod
  cases r with
  | error e => exact (herr e rfl).elim
  | ok out =>
    obtain ⟨new, hnew, hsame⟩ := hok out rfl
    have hstep : run.step deepCloneNode fuel applyInserted (.selectNode (.tree id)) = some ⟨world',
        .points beside.2 (⟨beside.2.node, beside.2.offset + 1⟩ : TreePoint), run.joined⟩ := by
      rw [RangeRun.step, if_neg (by rw [hnode]; exact Bool.false_ne_true), hmethod]
      dsimp only
      rw [hloaded, Option.bind_some, prescribed, pointsAround_of_pointBeside hdoc hbeside]
      simp [RangeCall.surrounds]
    refine ⟨_, hstep, ?_⟩
    rintro ⟨reported, hreported, ⟨hnone, -⟩, -⟩
    obtain rfl := Option.some.inj (hnew.symm.trans hreported)
    rw [← hsame, hnone] at hattr
    cases hattr

/-- In every run a range reports where the last successful setter placed it, exactly as long as no
range in an attribute is to select a node. -/
theorem reports_iff_not_sticks (laws : BlitzFragments.Laws Base) (happly : ∀ parent moved,
      Trial.Stays (Across DocRides) (applyInserted parent moved)) {range : TreeRange}
    (hlive : LiveRange run.world range) (hplaced : run.placed.ReportedBy range)
    (hjoined : run.joined = true → Joined run.world.store range) (calls : List RangeCall) :
    Machine.Throughout (RangeRun.step deepCloneNode fuel applyInserted) RangeRun.Reports run calls ↔
      Machine.Along (RangeRun.step deepCloneNode fuel applyInserted) (fun run call => ¬ Sticks run call)
        run calls := by
  refine Machine.throughout_iff_along (I := RangeRun.Good) (fun _ hgood => hgood.reports)
    (fun _ _ _ hgood hstick hstep => hgood.step deepCloneNode fuel laws happly hstick hstep) ?_
    ⟨range, hlive, hplaced, hjoined⟩
  intro run call hgood hnext hstick
  obtain ⟨run', hstep, hbad⟩ := not_reports_of_sticks deepCloneNode fuel hgood hstick
  exact hbad (hnext run' hstep)

end

/-- A paragraph with a text in it, and a range in an attribute of the paragraph. -/
def attributeRun : RangeRun Arena where
  world :=
    { store := ⟨.singleton 1 ⟨⟨.withText ⟨none, htmlNamespace, "p"⟩ [0x61],
        ⟨[], 0, false, .ofList [⟨⟨1, 0⟩, ⟨1, 0⟩, some ⟨1, 7⟩⟩], .empty⟩⟩, ∅⟩, 1⟩
      registration := .slot 1 0 }
  placed := .attr ⟨⟨1, 1⟩, 7⟩
  joined := true

theorem liveRange_attributeRun : LiveRange attributeRun.world (.ofAttribute ⟨⟨1, 1⟩, 7⟩) where
  loaded := rfl
  home := rfl
  collapsed _ := rfl

/-- The start of the range is set into the paragraph, and then the text is selected. -/
theorem reports_iff_not_sticks_text :
    Machine.Throughout (RangeRun.step (fun a n => (a, n)) 2 fun _ _ => pure ()) RangeRun.Reports
        attributeRun [.setStart (.tree ⟨1, 1⟩) 0, .selectNode (.tree ⟨1, 2⟩)] ↔
      Machine.Along (RangeRun.step (fun a n => (a, n)) 2 fun _ _ => pure ())
        (fun run call => ¬ Sticks run call) attributeRun
        [.setStart (.tree ⟨1, 1⟩) 0, .selectNode (.tree ⟨1, 2⟩)] :=
  reports_iff_not_sticks (fun a n => (a, n)) 2 Arena.laws.toFragmentLaws (fun _ _ => .pure ())
    liveRange_attributeRun ⟨rfl, rfl, rfl⟩ (fun _ => .inl rfl) _

/-- A range in an attribute of the paragraph selects its text, and reports the attribute. -/
theorem not_reports_selectNode :
    ¬ Machine.Throughout (RangeRun.step (fun a n => (a, n)) 2 fun _ _ => pure ()) RangeRun.Reports
        attributeRun [.selectNode (.tree ⟨1, 2⟩)] := by
  intro h
  have hgood : attributeRun.Good :=
    ⟨_, liveRange_attributeRun, ⟨rfl, rfl, rfl⟩, fun _ => .inl rfl⟩
  have hstick : Sticks attributeRun (.selectNode (.tree ⟨1, 2⟩)) :=
    ⟨⟨1, 2⟩, rfl, ⟨_, liveRange_attributeRun.loaded, rfl⟩, rfl⟩
  obtain ⟨run', hstep, hbad⟩ := not_reports_of_sticks (fun a n => (a, n)) 2 hgood hstick
  exact hbad (h.next hstep)

end TinyBrowser.Dom
