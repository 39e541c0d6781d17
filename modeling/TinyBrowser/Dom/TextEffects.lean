import TinyBrowser.Dom.Copies
import TinyBrowser.Lib.Runs

/-!
# Calls on character data

The calls of script that write character data, as they stand in the source. A call keeps its exact
units only where it hands them to `rememberCharacterData`; `splitTextNode` and `normalize` write the
tree alone. An offset is a `u32` in the source and a `Nat` here.

Each call, read off as the change it makes to what the tree holds (`charactersOf`) and to the exact
units beside it. `LossyText` is what the two have to do with each other.
-/

namespace TinyBrowser.Dom
open Lib Blitz BlitzFragments BlitzNodes

section
variable {Base : Type} [Blitz Base]

/-- Writes `utf8` into a node of character data. -/
def writeCharacterData (base : Base) (id : NodeId) (utf8 : Units) : Option Base :=
  match data base id with
  | some (.text _) => some (setNodeText base id utf8)
  | some (.comment _) | some (.cdataSection _) => some (setContents base id utf8)
  | some (.processingInstruction _) => some (setProcessingInstructionData base id utf8)
  | _ => none

/-- Replaces `count` units at `offset` by `units`; a count past the end clamps to the length. -/
def replaceCharacterData (parsed : Parsed Base) (id : NodeId) (offset count : Nat) (units : Units) :
    Parsed Base :=
  if (charactersOf parsed.base id).isNone then parsed
  else
    let oldValue := characterData parsed id
    let offset := min offset oldValue.length
    let count := min count (oldValue.length - offset)
    let exact := oldValue.take offset ++ units ++ oldValue.drop (offset + count)
    match writeCharacterData parsed.base id (toStringLossy exact) with
    | none => parsed
    | some base =>
      let parsed := rememberCharacterData (parsed.withBase base) id exact
      let parsed := parsed.withRanges
        (adjustForReplaceData parsed.side.ranges id offset count units.length)
      parsed.record (.characterData id oldValue)

/-- Truncates the data of `id` to `kept`. -/
def truncateSplitText (parsed : Parsed Base) (id : NodeId) (kept oldValue : Units) : Parsed Base :=
  let wrote := match data parsed.base id with
    | some (.text _) => some (setNodeText parsed.base id (toStringLossy kept))
    | some (.cdataSection _) => some (setContents parsed.base id (toStringLossy kept))
    | _ => none
  match wrote with
  | some base => (parsed.withBase base).record (.characterData id oldValue)
  | none => parsed

/-- Splits a text node or a CDATA section at `offset`; the second part goes to a new text node. An
offset beyond the data is refused. -/
def splitTextNode (parsed : Parsed Base) (id : NodeId) (offset : Nat) :
    Option (Parsed Base × NodeId) :=
  let units := characterData parsed id
  if units.length < offset then none
  else
    let parent := parentOf parsed.base id
    let next := sibling parsed.base id true
    let index := parent.bind fun parent => childIndex parsed.base parent id
    let (parsed, newId) := createText parsed (units.drop offset)
    match parent with
    | some parent =>
      let parsed := placeJournaled parsed parent newId next
      let parsed := parsed.withRanges
        (adjustForSplit parsed.side.ranges id newId parent (index.getD 0) offset)
      some (truncateSplitText parsed id (units.take offset) units, newId)
    | none =>
      let parsed := parsed.withRanges
        (adjustForReplaceData parsed.side.ranges id offset (units.length - offset) 0)
      some (truncateSplitText parsed id (units.take offset) units, newId)

/-- The content of a text node; a CDATA section is none. -/
def textContent (base : Base) (id : NodeId) : Option Units :=
  match data base id with
  | some (.text content) => some content
  | _ => none

/-- The nodes whose children `normalize` goes over: the node and the elements below it, in the order
of the walk, which keeps its nodes to visit on a stack. -/
def normalizeContainers (base : Base) : Nat → List NodeId → List NodeId → Option (List NodeId)
  | _, [], containers => some containers
  | 0, _ :: _, _ => none
  | fuel + 1, id :: stack, containers =>
    let kids := (childIds base id).filter (downcastElement base)
    normalizeContainers base fuel (kids.reverse ++ stack) (containers ++ kids)

/-- Adjusts the live ranges for `kid`, which goes into the text `previous` of `length` units. -/
def adjustMerged (parsed : Parsed Base) (container previous kid : NodeId) (length : Nat) :
    Parsed Base :=
  if parsed.side.ranges.isEmpty then parsed
  else match childIndex parsed.base container kid with
    | some index => parsed.withRanges
        (adjustForNormalize parsed.side.ranges previous kid container index length)
    | none => parsed

/-- Joins the text of `kid` to the one of `previous`, and takes `kid` out. -/
def mergeText (parsed : Parsed Base) (container previous kid : NodeId) (content : Units) :
    Parsed Base :=
  let previousContent := (textContent parsed.base previous).getD []
  let joined := previousContent ++ content
  let parsed := adjustMerged parsed container previous kid previousContent.length
  let parsed := parsed.withBase (setNodeText parsed.base previous (toStringLossy joined))
  unlinkJournaled (parsed.record (.characterData previous previousContent)) kid

/-- One child of a container: an empty text goes, and a text goes into the one that `merged` begins
a run with. -/
def normalizeKid (container : NodeId) (state : Parsed Base × Option NodeId) (kid : NodeId) :
    Parsed Base × Option NodeId :=
  let (parsed, merged) := state
  match textContent parsed.base kid, merged with
  | none, _ => (parsed, none)
  | some [], merged => (unlinkJournaled parsed kid, merged)
  | some (_ :: _), none => (parsed, some kid)
  | some (u :: content), some previous =>
    (mergeText parsed container previous kid (u :: content), some previous)

def normalizeContainer (parsed : Parsed Base) (container : NodeId) : Parsed Base :=
  ((childIds parsed.base container).foldl (normalizeKid container) (parsed, none)).1

def normalize (fuel : Nat) (parsed : Parsed Base) (id : NodeId) : Option (Parsed Base) :=
  (normalizeContainers parsed.base fuel [id] [id]).map fun containers =>
    containers.foldl normalizeContainer parsed

end

/-! ### What the calls on character data do -/

section
variable {Base : Type} [Blitz Base] {base base' : Base} {parsed parsed' : Parsed Base}
  {id n : NodeId} {utf8 : Units}

/-- The tree holds the lossy form of each node's character data. -/
def LossyText (parsed : Parsed Base) : Prop :=
  ∀ n, ∀ c ∈ charactersOf parsed.base n, c = toStringLossy (characterData parsed n)

theorem charactersOf_of_textContent {c : Units} (h : textContent base id = some c) :
    charactersOf base id = some c := by
  rw [textContent] at h
  rw [charactersOf]
  cases hd : data base id with
  | none => rw [hd] at h; cases h
  | some d => cases d <;> rw [hd] at h <;> first | exact h | cases h

theorem characterData_congr (hdata : data parsed'.base n = data parsed.base n)
    (hexact : parsed'.side.exactText.get? n = parsed.side.exactText.get? n) :
    characterData parsed' n = characterData parsed n := by
  rw [characterData, characterData, hexact, hdata]

/-- The tree holds the text `utf8` for the node `id`, new or old, and what it held for the others. -/
structure Holds (base base' : Base) (id : NodeId) (utf8 : Units) : Prop where
  data_eq : ∀ n, n ≠ id → data base' n = data base n
  characters_eq : charactersOf base' id = some utf8

/-- The text `utf8` was written into the node `id`. -/
structure Written (base base' : Base) (id : NodeId) (utf8 : Units) : Prop extends
    Holds base base' id utf8 where
  tree_eq : tree base' = tree base
  text_eq : textContent base' id = (textContent base id).map fun _ => utf8

variable (laws : Blitz.Laws Base)
include laws

theorem written_setNodeText {old : Units} (h : data base id = some (.text old)) (utf8 : Units) :
    Written base (setNodeText base id utf8) id utf8 := by
  have hdata := laws.data_setNodeText base id utf8 old h
  refine ⟨⟨fun n hn => ?_, ?_⟩, laws.tree_setNodeText base id utf8, ?_⟩
  · rw [hdata, Function.update_of_ne hn]
  · rw [charactersOf, hdata, Function.update_self]
  · rw [textContent, textContent, hdata, Function.update_self, h]
    rfl

theorem written_setContents_cdata {old : Units} (h : data base id = some (.cdataSection old))
    (utf8 : Units) : Written base (setContents base id utf8) id utf8 := by
  have hdata := laws.data_setContents_cdataSection base id utf8 old h
  refine ⟨⟨fun n hn => ?_, ?_⟩, laws.tree_setContents base id utf8, ?_⟩
  · rw [hdata, Function.update_of_ne hn]
  · rw [charactersOf, hdata, Function.update_self]
  · rw [textContent, textContent, hdata, Function.update_self, h]
    rfl

theorem written_setContents_comment {old : Units} (h : data base id = some (.comment old))
    (utf8 : Units) : Written base (setContents base id utf8) id utf8 := by
  have hdata := laws.data_setContents_comment base id utf8 old h
  refine ⟨⟨fun n hn => ?_, ?_⟩, laws.tree_setContents base id utf8, ?_⟩
  · rw [hdata, Function.update_of_ne hn]
  · rw [charactersOf, hdata, Function.update_self]
  · rw [textContent, textContent, hdata, Function.update_self, h]
    rfl

theorem written_setProcessingInstructionData {old : Units}
    (h : data base id = some (.processingInstruction old)) (utf8 : Units) :
    Written base (setProcessingInstructionData base id utf8) id utf8 := by
  have hdata := laws.data_setProcessingInstructionData base id utf8 old h
  refine ⟨⟨fun n hn => ?_, ?_⟩, laws.tree_setProcessingInstructionData base id utf8, ?_⟩
  · rw [hdata, Function.update_of_ne hn]
  · rw [charactersOf, hdata, Function.update_self]
  · rw [textContent, textContent, hdata, Function.update_self, h]
    rfl

theorem exists_written (h : (charactersOf base id).isSome = true) (utf8 : Units) :
    ∃ base', writeCharacterData base id utf8 = some base' ∧ Written base base' id utf8 := by
  rw [charactersOf] at h
  rw [writeCharacterData]
  cases hd : data base id with
  | none => rw [hd] at h; cases h
  | some d =>
    rw [hd] at h
    cases d with
    | text old => exact ⟨_, rfl, written_setNodeText laws hd utf8⟩
    | comment old => exact ⟨_, rfl, written_setContents_comment laws hd utf8⟩
    | cdataSection old => exact ⟨_, rfl, written_setContents_cdata laws hd utf8⟩
    | processingInstruction old =>
      exact ⟨_, rfl, written_setProcessingInstructionData laws hd utf8⟩
    | document | element | anonymousBlock | fragment | shadowRoot | doctype => cases h

omit laws in
theorem Holds.charactersOf_of_ne (h : Holds base base' id utf8) (hn : n ≠ id) :
    charactersOf base' n = charactersOf base n := by
  rw [charactersOf, charactersOf, h.data_eq n hn]

omit laws in
omit laws in
/-- What the tree gets and is remembered is the data of the node from then on. -/
theorem Holds.remembered {units : Units}
    (h : Holds parsed.base parsed'.base id (toStringLossy units))
    (hexact : ∀ n, parsed'.side.exactText.get? n =
      if n = id then (if hasUnpairedSurrogate units then some units else none)
      else parsed.side.exactText.get? n)
    (hlossy : LossyText parsed) (htidy : ExactTidy parsed) :
    LossyText parsed' ∧ ExactTidy parsed' ∧ characterData parsed' id = units ∧
      ∀ n, n ≠ id → characterData parsed' n = characterData parsed n := by
  have hself : characterData parsed' id = units := by
    rw [characterData_eq, hexact, if_pos rfl, h.characters_eq]
    cases hunpaired : hasUnpairedSurrogate units with
    | true => rfl
    | false => exact hasUnpairedSurrogate_eq_false.1 hunpaired
  have hothers : ∀ n, n ≠ id → characterData parsed' n = characterData parsed n := fun n hn =>
    characterData_congr (h.data_eq n hn) (by rw [hexact, if_neg hn])
  refine ⟨fun n c hc => ?_, fun n u hu => ?_, hself, hothers⟩
  · by_cases hn : n = id
    · subst hn
      rw [hself]
      exact (Option.some.inj (h.characters_eq.symm.trans hc)).symm
    · rw [h.charactersOf_of_ne hn] at hc
      rw [hothers n hn]
      exact hlossy n c hc
  · rw [hexact] at hu
    by_cases hn : n = id
    · rw [if_pos hn] at hu
      split at hu
      · rename_i hunpaired
        obtain rfl := Option.some.inj hu
        rw [hn, h.characters_eq]
        exact ⟨rfl, hunpaired⟩
      · cases hu
    · rw [if_neg hn] at hu
      rw [h.charactersOf_of_ne hn]
      exact htidy n u hu

omit laws in
theorem splice_clamped (old units : Units) (offset count : Nat) :
    old.take (min offset old.length) ++ units ++
      old.drop (min offset old.length + min count (old.length - min offset old.length)) =
        old.take offset ++ units ++ old.drop (offset + count) := by
  rcases Nat.le_total offset old.length with hle | hle
  · rw [Nat.min_eq_left hle]
    rcases Nat.le_total count (old.length - offset) with hc | hc
    · rw [Nat.min_eq_left hc]
    · rw [Nat.min_eq_right hc, List.drop_eq_nil_of_le (by omega), List.drop_eq_nil_of_le (by omega)]
  · rw [Nat.min_eq_right hle, List.take_of_length_le (Nat.le_refl _), List.take_of_length_le hle,
      List.drop_eq_nil_of_le (by omega), List.drop_eq_nil_of_le (by omega)]

/-- A replacement keeps what it writes. -/
theorem replaceCharacterData_spec (h : (charactersOf parsed.base id).isSome = true)
    (hlossy : LossyText parsed) (htidy : ExactTidy parsed) (offset count : Nat) (units : Units) :
    let parsed' := replaceCharacterData parsed id offset count units
    let old := characterData parsed id
    LossyText parsed' ∧ ExactTidy parsed' ∧
      characterData parsed' id = old.take offset ++ units ++ old.drop (offset + count) ∧
      ∀ n, n ≠ id → characterData parsed' n = characterData parsed n := by
  intro parsed' old
  obtain ⟨base, hwrite, hw⟩ := exists_written laws h
    (toStringLossy (old.take offset ++ units ++ old.drop (offset + count)))
  have hnone : (charactersOf parsed.base id).isNone = false := by
    rw [← Option.not_isSome, h]
    rfl
  have heq : parsed' = replaceCharacterData parsed id offset count units := rfl
  rw [replaceCharacterData, hnone, if_neg Bool.false_ne_true] at heq
  dsimp only at heq
  rw [show characterData parsed id = old from rfl, splice_clamped, hwrite] at heq
  have hbase : parsed'.base = base := by
    rw [heq]
    simp only [Parsed.base_record, Parsed.base_withRanges]
    rfl
  refine Holds.remembered (hbase ▸ hw.toHolds) (fun n => ?_) hlossy htidy
  rw [heq]
  simp only [Parsed.exactText_record, Parsed.exactText_withRanges, get?_rememberCharacterData,
    Parsed.exactText_withBase]

/-! ### Splitting -/

omit laws in
@[simp] theorem exactText_placeJournaled (parent child : NodeId) (ref : Option NodeId) :
    (placeJournaled parsed parent child ref).side.exactText = parsed.side.exactText := by
  rw [placeJournaled, adjustPlaced, placeInner]
  split
  · simp
  · split <;> simp

omit laws in
@[simp] theorem exactText_adjustUnlinked (slot : Option (NodeId × Nat)) (removed : NodeId) :
    (adjustUnlinked parsed slot removed).side.exactText = parsed.side.exactText := by
  cases slot <;> rfl

omit laws in
@[simp] theorem exactText_unlinkJournaled (target : NodeId) :
    (unlinkJournaled parsed target).side.exactText = parsed.side.exactText := by
  rw [unlinkJournaled]
  split
  · rfl
  · simp

theorem data_placeJournaled (parent child : NodeId) (ref : Option NodeId) :
    data (placeJournaled parsed parent child ref).base = data parsed.base := by
  rw [placeJournaled, adjustPlaced, placeInner]
  split
  · rw [Parsed.base_record, Parsed.base_withBase, data_placeOne laws]
  · split <;> simp only [Parsed.base_record, Parsed.base_withBase, Parsed.base_withRanges,
      data_placeOne laws]

theorem createText_spec (hlossy : LossyText parsed) (htidy : ExactTidy parsed) (units : Units) :
    let out := createText parsed units
    Holds parsed.base out.1.base out.2 (toStringLossy units) ∧ data parsed.base out.2 = none ∧
      LossyText out.1 ∧ ExactTidy out.1 ∧ characterData out.1 out.2 = units ∧
        ∀ n, n ≠ out.2 → characterData out.1 n = characterData parsed n := by
  intro out
  have hdata := laws.data_createTextNode parsed.base (toStringLossy units)
  have hh : Holds parsed.base out.1.base out.2 (toStringLossy units) := by
    refine ⟨fun n hn => ?_, ?_⟩
    · show data (createTextNode parsed.base (toStringLossy units)).1 n = _
      rw [hdata]
      exact Function.update_of_ne hn _ _
    · show charactersOf (createTextNode parsed.base (toStringLossy units)).1
        (createTextNode parsed.base (toStringLossy units)).2 = _
      rw [charactersOf, hdata, Function.update_self]
  refine ⟨hh, (laws.fresh_createTextNode parsed.base (toStringLossy units)).1,
    hh.remembered (fun n => ?_) hlossy htidy⟩
  exact get?_rememberCharacterData ..

theorem truncateSplitText_spec (h : isText parsed.base id = true) (kept old : Units) :
    Written parsed.base (truncateSplitText parsed id kept old).base id (toStringLossy kept) ∧
      (truncateSplitText parsed id kept old).side.exactText = parsed.side.exactText := by
  rw [isText] at h
  rw [truncateSplitText]
  cases hd : data parsed.base id with
  | none => rw [hd] at h; cases h
  | some d =>
    rw [hd] at h
    cases d with
    | text content =>
      simp only [Parsed.base_record, Parsed.base_withBase, Parsed.exactText_record,
        Parsed.exactText_withBase]
      exact ⟨written_setNodeText laws hd _, trivial⟩
    | cdataSection contents =>
      simp only [Parsed.base_record, Parsed.base_withBase, Parsed.exactText_record,
        Parsed.exactText_withBase]
      exact ⟨written_setContents_cdata laws hd _, trivial⟩
    | document | element | anonymousBlock | fragment | shadowRoot | comment
    | processingInstruction | doctype => cases h

/-- What a split of `id` at `offset` leaves. The new node is right; what the node itself has depends
on the exact units it had. -/
structure SplitInto (parsed parsed' : Parsed Base) (id new : NodeId) (offset : Nat) : Prop where
  fresh : data parsed.base new = none
  new_characters : charactersOf parsed'.base new =
    some (toStringLossy ((characterData parsed id).drop offset))
  kept_characters : charactersOf parsed'.base id =
    some (toStringLossy ((characterData parsed id).take offset))
  new_data : characterData parsed' new = (characterData parsed id).drop offset
  kept_data : characterData parsed' id = (parsed.side.exactText.get? id).getD
    (toStringLossy ((characterData parsed id).take offset))
  tidy : ExactTidy parsed'
  data_eq : ∀ n, n ≠ id → n ≠ new → data parsed'.base n = data parsed.base n
  others : ∀ n, n ≠ id → n ≠ new → characterData parsed' n = characterData parsed n

/-- Whatever is placed and adjusted between the creation of the new node and the truncation, the
data and the exact units are those of the creation. -/
theorem splitInto_of_placed (placed : Parsed Base) {offset : Nat} (h : isText parsed.base id = true)
    (hlossy : LossyText parsed) (htidy : ExactTidy parsed)
    (hdata : data placed.base =
      data (createText parsed ((characterData parsed id).drop offset)).1.base)
    (hexact : placed.side.exactText =
      (createText parsed ((characterData parsed id).drop offset)).1.side.exactText) :
    SplitInto parsed
      (truncateSplitText placed id ((characterData parsed id).take offset) (characterData parsed id))
      id (createText parsed ((characterData parsed id).drop offset)).2 offset := by
  set units := characterData parsed id with hunits
  set mid := createText parsed (units.drop offset) with hmid
  obtain ⟨hholds, hfresh, hlossy₁, htidy₁, hnew, hothers⟩ :=
    createText_spec laws hlossy htidy (units.drop offset)
  rw [← hmid] at hholds hfresh hlossy₁ htidy₁ hnew hothers
  have hne : id ≠ mid.2 := by
    intro he
    rw [isText, he, hfresh] at h
    cases h
  have htext : isText placed.base id = true := by
    rw [isText, hdata, hholds.data_eq id hne]
    exact h
  obtain ⟨hw, hkept⟩ := truncateSplitText_spec laws htext (units.take offset) units
  set last := truncateSplitText placed id (units.take offset) units with hlast
  have hexact' : ∀ n, last.side.exactText.get? n = mid.1.side.exactText.get? n := fun n => by
    rw [hkept, hexact]
  have hdata' : ∀ n, n ≠ id → data last.base n = data mid.1.base n := fun n hn => by
    rw [hw.data_eq n hn, hdata]
  refine ⟨hfresh, ?_, hw.characters_eq, ?_, ?_, fun n u hu => ?_, fun n hn hn' => ?_,
    fun n hn hn' => ?_⟩
  · rw [charactersOf, hdata' _ hne.symm]
    exact hholds.characters_eq
  · rw [characterData_congr (hdata' _ hne.symm) (hexact' _), hnew]
  · rw [characterData_eq, hexact', hw.characters_eq, Option.getD_some]
    congr 1
    rw [hmid, createText]
    exact (get?_rememberCharacterData ..).trans (if_neg hne)
  · rw [hexact'] at hu
    obtain ⟨hsome, hunpaired⟩ := htidy₁ n u hu
    refine ⟨?_, hunpaired⟩
    by_cases hn : n = id
    · rw [hn, hw.characters_eq]
      rfl
    · rwa [charactersOf, hdata' n hn]
  · rw [hdata' n hn, hholds.data_eq n hn']
  · rw [characterData_congr (hdata' n hn) (hexact' n), hothers n hn']

theorem splitTextNode_spec {offset : Nat} (h : isText parsed.base id = true)
    (hoffset : offset ≤ (characterData parsed id).length) (hlossy : LossyText parsed)
    (htidy : ExactTidy parsed) :
    ∃ parsed' new, splitTextNode parsed id offset = some (parsed', new) ∧
      SplitInto parsed parsed' id new offset := by
  have hnot : ¬ (characterData parsed id).length < offset := by omega
  let mid := createText parsed ((characterData parsed id).drop offset)
  cases hparent : parentOf parsed.base id with
  | none =>
    have hinto := splitInto_of_placed laws (mid.1.withRanges (adjustForReplaceData
      mid.1.side.ranges id offset ((characterData parsed id).length - offset) 0)) h hlossy htidy
      rfl rfl
    refine ⟨_, _, ?_, hinto⟩
    rw [splitTextNode, if_neg hnot, hparent]
  | some parent =>
    let placed := placeJournaled mid.1 parent mid.2 (sibling parsed.base id true)
    have hinto := splitInto_of_placed laws (placed.withRanges (adjustForSplit placed.side.ranges id
      mid.2 parent ((childIndex parsed.base parent id).getD 0) offset)) h hlossy htidy
      (data_placeJournaled laws _ _ _) (exactText_placeJournaled _ _ _)
    refine ⟨_, _, ?_, hinto⟩
    rw [splitTextNode, if_neg hnot, hparent]
    rfl

end

end TinyBrowser.Dom
