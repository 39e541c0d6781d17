import TinyBrowser.Dom.Normalize
import TinyBrowser.Dom.Arena

/-!
# Exact character data

`Standard` is what the DOM standard has each call on character data give, in terms of
`characterData`, the data that script reads. A run of calls gives it, and keeps the lossy form of it
in the tree, exactly when no call meets unpaired surrogates that it drops (`TextCall.Keeps`).

The exact units are tidy after every call, so a run goes on from one call to the next.
-/

namespace TinyBrowser.Dom
open Lib Blitz BlitzFragments BlitzNodes

section
variable {Base FormState : Type}

/-- A call that makes or changes character data. -/
inductive TextCall (FormState : Type) where
  | createText (units : Units)
  | createComment (units : Units)
  | replaceData (id : NodeId) (offset count : Nat) (units : Units)
  | splitText (id : NodeId) (offset : Nat)
  | normalize (id : NodeId)
  | materialize (snapshot : ImportSnapshot FormState)

mutual

/-- The character data in a snapshot, node by node. -/
def ImportSnapshot.characters : ImportSnapshot FormState → Rose (Option Units)
  | .element _ _ _ children => .node none (charactersAll children)
  | .text data | .comment data | .processingInstruction _ data _ | .cdata data =>
    .node (some data) []
  | .documentType .. => .node none []
  | .fragment children => .node none (charactersAll children)

def ImportSnapshot.charactersAll :
    List (ImportSnapshot FormState) → List (Rose (Option Units))
  | [] => []
  | snapshot :: rest => snapshot.characters :: ImportSnapshot.charactersAll rest

/-- The processing instructions and CDATA sections in a snapshot have no unpaired surrogates. -/
def ImportSnapshot.Plain : ImportSnapshot FormState → Prop
  | .element _ _ _ children => PlainAll children
  | .text _ | .comment _ | .documentType .. => True
  | .processingInstruction _ data _ | .cdata data => hasUnpairedSurrogate data = false
  | .fragment children => PlainAll children

def ImportSnapshot.PlainAll : List (ImportSnapshot FormState) → Prop
  | [] => True
  | snapshot :: rest => snapshot.Plain ∧ ImportSnapshot.PlainAll rest

end

section
variable [BlitzNodes Base FormState]

/-- The data of a text node; a CDATA section is none. -/
def textData (parsed : Parsed Base) (id : NodeId) : Option Units :=
  (textContent parsed.base id).map fun _ => characterData parsed id

/-- The text data of the children of a node, one after the other. -/
def childTextData (parsed : Parsed Base) (parent : NodeId) : Units :=
  (childIds parsed.base parent).flatMap (Runs.textOf (textData parsed))

/-- The data of a node that has character data. -/
def charactersAt (parsed : Parsed Base) (id : NodeId) : Option Units :=
  (charactersOf parsed.base id).map fun _ => characterData parsed id

namespace TextCall

/-- Makes the call, if it is one that script can make; gives the node made, or the node called. -/
def step (fuel : Nat) (parsed : Parsed Base) : TextCall FormState → Option (Parsed Base × NodeId)
  | createText units => some (Dom.createText parsed units)
  | createComment units => some (Dom.createComment parsed units)
  | replaceData id offset count units =>
    if (charactersOf parsed.base id).isSome ∧ offset ≤ (characterData parsed id).length then
      some (replaceCharacterData parsed id offset count units, id)
    else none
  | splitText id offset => if isText parsed.base id then splitTextNode parsed id offset else none
  | normalize id => (Dom.normalize fuel parsed id).map (·, id)
  | materialize snapshot => some (materializeImport parsed snapshot)

/-- What the standard has the call give: the data of the nodes it is about, and the old data of the
nodes that were there else. -/
def Standard (parsed parsed' : Parsed Base) (made : NodeId) : TextCall FormState → Prop
  | createText units | createComment units =>
    characterData parsed' made = units ∧
      ∀ n, data parsed.base n ≠ none → characterData parsed' n = characterData parsed n
  | replaceData id offset count units =>
    characterData parsed' id = (characterData parsed id).take offset ++ units ++
        (characterData parsed id).drop (offset + count) ∧
      ∀ n, data parsed.base n ≠ none → n ≠ id → characterData parsed' n = characterData parsed n
  | splitText id offset =>
    characterData parsed' id ++ characterData parsed' made = characterData parsed id ∧
      (characterData parsed' id).length = offset ∧
      (characterData parsed' made).length = (characterData parsed id).length - offset ∧
      ∀ n, data parsed.base n ≠ none → n ≠ id → characterData parsed' n = characterData parsed n
  | normalize id =>
    (∀ c, Container parsed.base id c → ∀ n ∈ childIds parsed.base c, characterData parsed' n =
        characterData parsed n ++ Runs.gains (textData parsed) (childIds parsed.base c) n) ∧
      (∀ n, (∀ c, Container parsed.base id c → n ∉ childIds parsed.base c) →
        characterData parsed' n = characterData parsed n) ∧
      ∀ parent, childTextData parsed' parent = childTextData parsed parent
  | materialize snapshot =>
    (∃ t : Rose NodeId, t.value = made ∧ t.Follows (below parsed'.base) ∧
        (∀ n ∈ t.values, data parsed.base n = none) ∧
        t.map (charactersAt parsed') = snapshot.characters) ∧
      ∀ n, data parsed.base n ≠ none → characterData parsed' n = characterData parsed n

/-- No unpaired surrogate is where the call drops it: in a text that is split before its end, or by
the split; in a run of text nodes that are merged; in a processing instruction or a CDATA section
that is copied. -/
def Keeps (parsed : Parsed Base) : TextCall FormState → Prop
  | createText _ | createComment _ | replaceData .. => True
  | splitText id offset => offset = (characterData parsed id).length ∨
      hasUnpairedSurrogate (characterData parsed id) = false ∧
        hasUnpairedSurrogate ((characterData parsed id).take offset) = false
  | normalize id => ∀ c, Container parsed.base id c →
      ∀ pair ∈ Runs.merges (textData parsed) none (childIds parsed.base c),
        hasUnpairedSurrogate (characterData parsed pair.1) = false ∧
          hasUnpairedSurrogate (characterData parsed pair.2) = false
  | materialize snapshot => snapshot.Plain

end TextCall

/-! ### Copies -/

def Label.characters : Label FormState → Option Units
  | .text data | .comment data | .processingInstruction _ data _ | .cdata data => some data
  | .document | .element .. | .anonymousBlock | .fragment | .shadowRoot | .documentType .. => none

omit [BlitzNodes Base FormState] in
mutual

/-- A copy has the data of the snapshot exactly when what goes through Rust strings has no unpaired
surrogates. -/
theorem characters_copied_iff (Base : Type) [BlitzNodes Base FormState] :
    ∀ snapshot : ImportSnapshot FormState,
    (snapshot.copied Base).map (Option.bind · Label.characters) = snapshot.characters ↔
      snapshot.Plain
  | .element name attributes formState children => by
    rw [ImportSnapshot.copied, ImportSnapshot.characters, ImportSnapshot.Plain, Rose.map_node,
      Rose.node.injEq, ← charactersAll_copied_iff Base children]
    exact ⟨And.right, fun h => ⟨rfl, h⟩⟩
  | .text units => by
    rw [ImportSnapshot.copied, ImportSnapshot.characters, ImportSnapshot.Plain, Rose.map_node]
    exact iff_of_true rfl trivial
  | .comment units => by
    rw [ImportSnapshot.copied, ImportSnapshot.characters, ImportSnapshot.Plain, Rose.map_node]
    exact iff_of_true rfl trivial
  | .documentType name publicId systemId => by
    rw [ImportSnapshot.copied, ImportSnapshot.characters, ImportSnapshot.Plain, Rose.map_node]
    exact iff_of_true rfl trivial
  | .processingInstruction target units attributes => by
    rw [ImportSnapshot.copied, ImportSnapshot.characters, ImportSnapshot.Plain, Rose.map_node,
      Rose.node.injEq, hasUnpairedSurrogate_eq_false]
    exact ⟨fun h => Option.some.inj h.1, fun h => ⟨congrArg some h, rfl⟩⟩
  | .cdata units => by
    rw [ImportSnapshot.copied, ImportSnapshot.characters, ImportSnapshot.Plain, Rose.map_node,
      Rose.node.injEq, hasUnpairedSurrogate_eq_false]
    exact ⟨fun h => Option.some.inj h.1, fun h => ⟨congrArg some h, rfl⟩⟩
  | .fragment children => by
    rw [ImportSnapshot.copied, ImportSnapshot.characters, ImportSnapshot.Plain, Rose.map_node,
      Rose.node.injEq, ← charactersAll_copied_iff Base children]
    exact ⟨And.right, fun h => ⟨rfl, h⟩⟩

theorem charactersAll_copied_iff (Base : Type) [BlitzNodes Base FormState] :
    ∀ snapshots : List (ImportSnapshot FormState),
    (ImportSnapshot.copiedAll Base snapshots).map (Rose.map (Option.bind · Label.characters)) =
      ImportSnapshot.charactersAll snapshots ↔ ImportSnapshot.PlainAll snapshots
  | [] => by
    rw [ImportSnapshot.copiedAll, ImportSnapshot.charactersAll, ImportSnapshot.PlainAll]
    exact iff_of_true rfl trivial
  | snapshot :: rest => by
    rw [ImportSnapshot.copiedAll, ImportSnapshot.charactersAll, ImportSnapshot.PlainAll,
      List.map_cons, List.cons.injEq, characters_copied_iff Base snapshot,
      charactersAll_copied_iff Base rest]

end

variable (laws : BlitzNodes.Laws Base) {parsed parsed' : Parsed Base} {made : NodeId}
  {snapshot : ImportSnapshot FormState}
include laws

theorem charactersAt_eq (parsed : Parsed Base) (n : NodeId) :
    charactersAt parsed n = (label parsed n).bind Label.characters := by
  rw [charactersAt, charactersOf, laws.data_eq, label]
  cases nodeData parsed.base n with
  | none => rfl
  | some d => cases d <;> rfl

theorem data_eq_none_iff {base : Base} {n : NodeId} : data base n = none ↔ nodeData base n = none := by
  rw [laws.data_eq, Option.map_eq_none_iff]

theorem Grown.characterData_eq {touched : Option NodeId} {ts : List (Rose NodeId)}
    {snapshots : List (ImportSnapshot FormState)} (h : Grown parsed parsed' touched snapshots ts)
    {n : NodeId} (hn : nodeData parsed.base n ≠ none) :
    characterData parsed' n = characterData parsed n :=
  characterData_congr (by rw [laws.data_eq, laws.data_eq, h.nodeData_eq n hn]) (h.exactText_eq n hn)

theorem Grown.lossyText {touched : Option NodeId} {ts : List (Rose NodeId)}
    {snapshots : List (ImportSnapshot FormState)} (h : Grown parsed parsed' touched snapshots ts)
    (hlossy : LossyText parsed) : LossyText parsed' := by
  intro n c hc
  by_cases hn : nodeData parsed.base n = none
  · have hn' : nodeData parsed'.base n ≠ none := live_of_charactersOf laws (by rw [hc]; rfl)
    rcases h.only n hn hn' with hm | hf
    · exact (h.nodes n hm).lossy c hc
    · rw [charactersOf] at hc
      rw [isFragment] at hf
      cases hd : data parsed'.base n with
      | none => rw [hd] at hf; cases hf
      | some d =>
        rw [hd] at hc hf
        cases d with
        | fragment | shadowRoot => simp at hc
        | _ => simp at hf
  · rw [h.characterData_eq laws hn]
    rw [charactersOf, laws.data_eq, h.nodeData_eq n hn, ← laws.data_eq, ← charactersOf] at hc
    exact hlossy n c hc

theorem standard_materialize_iff (h : MadeOf parsed (parsed', made) snapshot) :
    (TextCall.materialize snapshot).Standard parsed parsed' made ↔ snapshot.Plain := by
  obtain ⟨t, hvalue, -, hgrown⟩ := h
  have hlabels : t.map (charactersAt parsed') =
      (snapshot.copied Base).map (Option.bind · Label.characters) := by
    have heq := (List.cons.inj hgrown.labels).1
    rw [← heq, Rose.map_map]
    exact Rose.map_congr fun n _ => charactersAt_eq laws parsed' n
  have hfollows := hgrown.follows t (List.mem_singleton_self t)
  rw [← characters_copied_iff Base snapshot, ← hlabels]
  constructor
  · rintro ⟨⟨t', hvalue', hfollows', -, hcharacters⟩, -⟩
    rw [← hcharacters, hfollows.unique hfollows' (hvalue.trans hvalue'.symm)]
  · refine fun heq => ⟨⟨t, hvalue, hfollows, fun n hn => ?_, heq⟩, fun n hn => ?_⟩
    · rw [data_eq_none_iff laws]
      exact (hgrown.nodes n (by simpa using hn)).absent
    · exact hgrown.characterData_eq laws ((data_eq_none_iff laws).not.1 hn)

end

end

/-! ### Runs of calls on character data -/

open Machine

variable {Base FormState : Type} [BlitzNodes Base FormState]

section
variable {parsed parsed' : Parsed Base} {id n made : NodeId}

theorem LossyText.wellFormedTexts (h : LossyText parsed) : WellFormedTexts parsed.base :=
  fun n c hc => by
    rw [h n c (charactersOf_of_textContent hc), toStringLossy_toStringLossy]

theorem characterData_of_exactText {units : Units} (h : parsed.side.exactText.get? n = some units) :
    characterData parsed n = units := by
  rw [characterData_eq, h, Option.getD_some]

theorem characterData_of_charactersOf {units : Units} (h : parsed.side.exactText.get? n = none)
    (hc : charactersOf parsed.base n = some units) : characterData parsed n = units := by
  rw [characterData_eq, h, hc]
  rfl

theorem LossyText.paired (h : LossyText parsed) (hexact : parsed.side.exactText.get? n = none) :
    toStringLossy (characterData parsed n) = characterData parsed n := by
  cases hc : charactersOf parsed.base n with
  | none =>
    rw [characterData_eq, hexact, hc]
    rfl
  | some c => rw [← h n c hc, characterData_of_charactersOf hexact hc]

/-! ### Splitting -/

theorem SplitInto.lossyText_iff {offset : Nat} (h : SplitInto parsed parsed' id made offset)
    (hlossy : LossyText parsed) : LossyText parsed' ↔
      toStringLossy ((characterData parsed id).take offset) =
        toStringLossy (characterData parsed' id) := by
  refine ⟨fun hl => hl id _ h.kept_characters, fun heq n c hc => ?_⟩
  by_cases hn : n = id
  · subst hn
    rw [Option.mem_def, h.kept_characters] at hc
    rw [← Option.some.inj hc, heq]
  by_cases hn' : n = made
  · subst hn'
    rw [Option.mem_def, h.new_characters] at hc
    rw [← Option.some.inj hc, h.new_data]
  · rw [charactersOf, h.data_eq n hn hn', ← charactersOf] at hc
    rw [h.others n hn hn']
    exact hlossy n c hc

theorem SplitInto.standard_iff {offset : Nat} (h : SplitInto parsed parsed' id made offset)
    (hoffset : offset ≤ (characterData parsed id).length) :
    (TextCall.splitText id offset : TextCall FormState).Standard parsed parsed' made ↔
      characterData parsed' id = (characterData parsed id).take offset := by
  rw [TextCall.Standard, h.new_data]
  constructor
  · rintro ⟨happend, -⟩
    refine List.append_cancel_right (happend.trans ?_)
    rw [List.take_append_drop]
  · intro heq
    rw [heq, List.take_append_drop, List.length_take, Nat.min_eq_left hoffset, List.length_drop]
    refine ⟨rfl, rfl, rfl, fun n hn hne => h.others n hne ?_⟩
    rintro rfl
    exact hn h.fresh

theorem splitText_iff {offset : Nat} (h : SplitInto parsed parsed' id made offset)
    (hoffset : offset ≤ (characterData parsed id).length) (hlossy : LossyText parsed)
    (htidy : ExactTidy parsed) :
    LossyText parsed' ∧
        (TextCall.splitText id offset : TextCall FormState).Standard parsed parsed' made ↔
      (TextCall.splitText id offset : TextCall FormState).Keeps parsed := by
  have hkept := h.kept_data
  rw [h.lossyText_iff hlossy, h.standard_iff hoffset, TextCall.Keeps]
  cases hexact : parsed.side.exactText.get? id with
  | some units =>
    have hunits := characterData_of_exactText hexact
    have hunpaired := (htidy id units hexact).2
    rw [hexact, Option.getD_some] at hkept
    rw [hkept, hunits, hunpaired]
    rw [hunits] at hoffset
    constructor
    · rintro ⟨-, heq⟩
      have hlength := congrArg List.length heq
      rw [List.length_take] at hlength
      exact .inl (by omega)
    · rintro (rfl | ⟨habsurd, -⟩)
      · rw [List.take_length]
        exact ⟨rfl, rfl⟩
      · cases habsurd
  | none =>
    have hpaired := hlossy.paired hexact
    rw [hexact, Option.getD_none] at hkept
    rw [hkept, toStringLossy_toStringLossy, hasUnpairedSurrogate_eq_false,
      hasUnpairedSurrogate_eq_false]
    constructor
    · exact fun heq => .inr ⟨hpaired, heq.2⟩
    · rintro (rfl | ⟨-, heq⟩)
      · rw [List.take_length]
        exact ⟨rfl, hpaired⟩
      · exact ⟨rfl, heq⟩

/-! ### Normalizing -/

theorem length_textContent (hlossy : LossyText parsed) {c : Units}
    (hc : textContent parsed.base n = some c) : c.length = (characterData parsed n).length := by
  rw [hlossy n c (charactersOf_of_textContent hc), length_toStringLossy]

theorem textOf_textData {c : Units} (hc : textContent parsed.base n = some c) :
    Runs.textOf (textData parsed) n = characterData parsed n := by
  rw [Runs.textOf, textData, hc]
  rfl

theorem textOf_textContent (hlossy : LossyText parsed) (n : NodeId) :
    Runs.textOf (textContent parsed.base) n =
      toStringLossy (Runs.textOf (textData parsed) n) := by
  cases hc : textContent parsed.base n with
  | none =>
    rw [Runs.textOf, Runs.textOf, textData, hc]
    rfl
  | some c =>
    rw [textOf_textData hc, Runs.textOf, hc]
    exact hlossy n c (charactersOf_of_textContent hc)

theorem merges_dropped_textData (hlossy : LossyText parsed) (first : Option NodeId)
    (kids : List NodeId) :
    Runs.merges (textData parsed) first kids = Runs.merges (textContent parsed.base) first kids ∧
      Runs.dropped (textData parsed) first kids =
        Runs.dropped (textContent parsed.base) first kids := by
  refine Runs.merges_dropped_congr (fun y _ => ?_) first
  rw [textData]
  cases hc : textContent parsed.base y with
  | none => rfl
  | some c =>
    have hlength := length_textContent hlossy hc
    rw [Option.map_some, Option.map_some, Option.map_some]
    cases c <;> cases hd : characterData parsed y <;> rw [hd] at hlength <;> first | rfl | cases hlength

theorem gained_textContent_iff (hlossy : LossyText parsed) (pairs : List (NodeId × NodeId)) :
    Runs.gained (textContent parsed.base) pairs n = Runs.gained (textData parsed) pairs n ↔
      ∀ pair ∈ pairs, pair.1 = n →
        hasUnpairedSurrogate (Runs.textOf (textData parsed) pair.2) = false := by
  induction pairs with
  | nil => exact iff_of_true rfl nofun
  | cons pair pairs ih =>
    rw [Runs.gained_cons, Runs.gained_cons, List.forall_mem_cons, ← ih,
      hasUnpairedSurrogate_eq_false, textOf_textContent hlossy]
    split
    · rename_i he
      constructor
      · intro heq
        obtain ⟨h₁, h₂⟩ := List.append_inj heq (length_toStringLossy _)
        exact ⟨fun _ => h₁, h₂⟩
      · rintro ⟨h₁, h₂⟩
        rw [h₁ he, h₂]
    · rename_i hne
      exact ⟨fun heq => ⟨fun he => absurd he hne, heq⟩, And.right⟩

/-- One child of a container, before and after. -/
theorem Normalized.kid_iff {out : Parsed Base} {containers : List NodeId} {c : NodeId}
    (h : Normalized parsed out containers) (hc : c ∈ containers)
    (hn : n ∈ childIds parsed.base c) (hlossy : LossyText parsed) (htidy : ExactTidy parsed) :
    (∀ u ∈ charactersOf out.base n, u = toStringLossy (characterData out n)) ∧
        characterData out n = characterData parsed n ++
          Runs.gains (textData parsed) (childIds parsed.base c) n ↔
      ∀ pair ∈ Runs.merges (textData parsed) none (childIds parsed.base c), pair.1 = n →
        hasUnpairedSurrogate (characterData parsed pair.1) = false ∧
          hasUnpairedSurrogate (characterData parsed pair.2) = false := by
  have hexact := congrArg (·.get? n) h.exactText_eq
  have hmerges := (merges_dropped_textData hlossy none (childIds parsed.base c)).1
  have hnodup : (childIds parsed.base c).Nodup := (tree parsed.base).nodup c
  rw [← Runs.gained_merges_eq hnodup]
  set pairs := Runs.merges (textData parsed) none (childIds parsed.base c) with hpairs
  cases htext : textContent parsed.base n with
  | none =>
    have hnone : Runs.textOf (textData parsed) n = [] := by
      rw [Runs.textOf, textData, htext]
      rfl
    have hgained : Runs.gained (textData parsed) pairs n = [] :=
      Runs.gained_of_textOf_nil hnone (by simp)
    rw [characterData_congr (h.data_eq n htext) hexact, hgained, List.append_nil, charactersOf,
      h.data_eq n htext, ← charactersOf]
    refine iff_of_true ⟨hlossy n, rfl⟩ ?_
    rintro pair hp rfl
    exact absurd hnone ((Runs.mem_merges hp).1.resolve_left (by simp)).2
  | some u =>
    have hu := hlossy n u (charactersOf_of_textContent htext)
    have hout := charactersOf_of_textContent (h.text_eq c hc n hn u htext)
    rw [← hmerges] at hout
    cases he : parsed.side.exactText.get? n with
    | some exact =>
      have hdata := characterData_of_exactText he
      have hunpaired := (htidy n exact he).2
      rw [characterData_of_exactText (hexact.trans he), hdata]
      constructor
      · rintro ⟨-, heq⟩ pair hp rfl
        have hgained := List.append_right_eq_self.1 heq.symm
        have hnil := List.flatMap_eq_nil_iff.1 hgained pair (List.mem_filter.2 ⟨hp, by simp⟩)
        exact absurd hnil (Runs.mem_merges hp).2.2
      · intro hpair
        have hno : ∀ pair ∈ pairs, pair.1 ≠ n := by
          intro pair hp he
          have hfalse := (hpair pair hp he).1
          rw [he, hdata, hunpaired] at hfalse
          cases hfalse
        rw [Runs.gained_eq_nil hno, List.append_nil] at hout
        rw [Runs.gained_eq_nil hno, List.append_nil, hout, ← hdata]
        exact ⟨fun v hv => Option.some.inj hv ▸ hu, rfl⟩
    | none =>
      have hpaired := hlossy.paired he
      have hself : u = characterData parsed n := hu.trans hpaired
      rw [characterData_of_charactersOf (hexact.trans he) hout, hout, ← hself,
        List.append_cancel_left_eq, gained_textContent_iff hlossy]
      have hsecond : ∀ pair ∈ pairs, Runs.textOf (textData parsed) pair.2 =
          characterData parsed pair.2 := fun pair hp => by
        have hne := (Runs.mem_merges hp).2.2
        cases hc₂ : textContent parsed.base pair.2 with
        | none =>
          rw [Runs.textOf, textData, hc₂] at hne
          exact absurd rfl hne
        | some c₂ => exact textOf_textData hc₂
      constructor
      · rintro ⟨-, hall⟩ pair hp rfl
        rw [← hsecond pair hp]
        exact ⟨hasUnpairedSurrogate_eq_false.2 hpaired, hall pair hp rfl⟩
      · refine fun hall => ⟨fun v hv => ?_, fun pair hp he => ?_⟩
        · have hwf := hlossy.wellFormedTexts
          rw [← Option.some.inj hv, toStringLossy_append (hwf n u htext),
            toStringLossy_gained hwf]
        · rw [hsecond pair hp]
          exact (hall pair hp he).2

theorem textOf_textData_congr {out : Parsed Base} (hdata : data out.base n = data parsed.base n)
    (hexact : out.side.exactText.get? n = parsed.side.exactText.get? n) :
    Runs.textOf (textData out) n = Runs.textOf (textData parsed) n := by
  rw [Runs.textOf, Runs.textOf, textData, textData, textContent_congr hdata,
    characterData_congr hdata hexact]

/-- The text data of each parent is what it was, once each child has what the rule gives it. -/
theorem Normalized.childTextData_eq {out : Parsed Base} {containers : List NodeId}
    (h : Normalized parsed out containers) (hlossy : LossyText parsed)
    (hgains : ∀ c ∈ containers, ∀ n ∈ childIds parsed.base c, characterData out n =
      characterData parsed n ++ Runs.gains (textData parsed) (childIds parsed.base c) n)
    (parent : NodeId) : childTextData out parent = childTextData parsed parent := by
  have hexact : ∀ n, out.side.exactText.get? n = parsed.side.exactText.get? n := fun n =>
    congrArg (·.get? n) h.exactText_eq
  rw [childTextData, childTextData]
  by_cases hparent : parent ∈ containers
  · have hnodup : (childIds parsed.base parent).Nodup := (tree parsed.base).nodup parent
    have hkept := @Runs.flatMap_kept _ _ (textData parsed) none _ _ hnodup nofun
    rw [Option.elim_none, List.nil_append] at hkept
    rw [h.children_eq parent hparent, ← (merges_dropped_textData hlossy none _).2, ← hkept]
    refine List.flatMap_congr fun x hx => ?_
    replace hx := List.mem_of_mem_filter hx
    cases htext : textContent parsed.base x with
    | none =>
      have hnone : Runs.textOf (textData parsed) x = [] := by
        rw [Runs.textOf, textData, htext]
        rfl
      rw [textOf_textData_congr (h.data_eq x htext) (hexact x), hnone,
        Runs.gained_of_textOf_nil hnone (by simp), List.append_nil]
    | some u =>
      rw [textOf_textData (h.text_eq parent hparent x hx u htext), textOf_textData htext,
        hgains parent hparent x hx, Runs.gained_merges_eq hnodup]
  · rw [h.children_others parent hparent]
    refine List.flatMap_congr fun x hx => ?_
    exact textOf_textData_congr
      (h.data_others x fun c hc hm => hparent (eq_of_mem_childIds hm hx ▸ hc)) (hexact x)

theorem Normalized.exactTidy {out : Parsed Base} {containers : List NodeId}
    (h : Normalized parsed out containers) (htidy : ExactTidy parsed) : ExactTidy out := by
  intro n u hu
  rw [h.exactText_eq] at hu
  obtain ⟨hsome, hunpaired⟩ := htidy n u hu
  refine ⟨?_, hunpaired⟩
  by_cases hkid : ∃ c ∈ containers, n ∈ childIds parsed.base c
  · obtain ⟨c, hc, hn⟩ := hkid
    cases htext : textContent parsed.base n with
    | none => rwa [charactersOf, h.data_eq n htext]
    | some v =>
      rw [charactersOf_of_textContent (h.text_eq c hc n hn v htext)]
      rfl
  · rwa [charactersOf, h.data_others n fun c hc hn => hkid ⟨c, hc, hn⟩]

variable (laws : Blitz.Laws Base)

include laws in
theorem normalize_iff {fuel : Nat} {out : Parsed Base}
    (h : Dom.normalize fuel parsed id = some out) (hlossy : LossyText parsed)
    (htidy : ExactTidy parsed) :
    (LossyText out ∧ (TextCall.normalize id : TextCall FormState).Standard parsed out id ↔
      (TextCall.normalize id : TextCall FormState).Keeps parsed) ∧ ExactTidy out := by
  obtain ⟨containers, hwalk, rfl⟩ := Option.map_eq_some_iff.1 h
  obtain ⟨hnodup, hmem⟩ := normalizeContainers_spec hwalk
  have hnorm := normalized_containers laws hlossy.wellFormedTexts hnodup
  set out := containers.foldl normalizeContainer parsed
  refine ⟨?_, hnorm.exactTidy htidy⟩
  rw [TextCall.Standard, TextCall.Keeps]
  constructor
  · rintro ⟨hout, hgains, -⟩ c hc pair hp
    have hn := ((Runs.mem_merges hp).1.resolve_left nofun).1
    exact (hnorm.kid_iff ((hmem c).2 hc) hn hlossy htidy).1
      ⟨hout pair.1, hgains c hc pair.1 hn⟩ pair hp rfl
  · intro hkeeps
    have hkid : ∀ c ∈ containers, ∀ n ∈ childIds parsed.base c, _ := fun c hc n hn =>
      (hnorm.kid_iff hc hn hlossy htidy).2 fun pair hp _ => hkeeps c ((hmem c).1 hc) pair hp
    have hsame : ∀ n, (∀ c ∈ containers, n ∉ childIds parsed.base c) →
        characterData out n = characterData parsed n := fun n hn =>
      characterData_congr (hnorm.data_others n hn) (congrArg (·.get? n) hnorm.exactText_eq)
    refine ⟨fun n u hu => ?_, fun c hc n hn => (hkid c ((hmem c).2 hc) n hn).2,
      fun n hn => hsame n fun c hc => hn c ((hmem c).1 hc),
      hnorm.childTextData_eq hlossy fun c hc n hn => (hkid c hc n hn).2⟩
    by_cases hin : ∃ c ∈ containers, n ∈ childIds parsed.base c
    · obtain ⟨c, hc, hn⟩ := hin
      exact (hkid c hc n hn).1 u hu
    · have hn : ∀ c ∈ containers, n ∉ childIds parsed.base c := fun c hc hm => hin ⟨c, hc, hm⟩
      rw [charactersOf, hnorm.data_others n hn, ← charactersOf] at hu
      rw [hsame n hn]
      exact hlossy n u hu

end

/-! ### Every call -/

section
variable (laws : BlitzNodes.Laws Base) {parsed parsed' : Parsed Base} {made : NodeId} {fuel : Nat}
  {call : TextCall FormState} {calls : List (TextCall FormState)}
include laws

theorem createComment_exact (hlossy : LossyText parsed) (htidy : ExactTidy parsed)
    (units : Units) :
    let out := createComment parsed units
    LossyText out.1 ∧ ExactTidy out.1 ∧
      (TextCall.createComment units : TextCall FormState).Standard parsed out.1 out.2 := by
  intro out
  obtain ⟨t, hvalue, -, hgrown⟩ := madeOf_comment laws htidy units
  have hlabel : label out.1 out.2 = some (.comment units) := by
    have hvalues := congrArg Rose.value (List.cons.inj hgrown.labels).1
    rwa [Rose.value_map, hvalue, ImportSnapshot.copied] at hvalues
  have hdata : charactersAt out.1 out.2 = some units := by
    rw [charactersAt_eq laws, hlabel]
    rfl
  obtain ⟨-, -, hunits⟩ := Option.map_eq_some_iff.1 hdata
  exact ⟨hgrown.lossyText laws hlossy, hgrown.tidy, hunits, fun n hn =>
    hgrown.characterData_eq laws ((data_eq_none_iff laws).not.1 hn)⟩

theorem replaceData_exact {id : NodeId} (h : (charactersOf parsed.base id).isSome = true)
    (hlossy : LossyText parsed) (htidy : ExactTidy parsed) (offset count : Nat) (units : Units) :
    let out := replaceCharacterData parsed id offset count units
    LossyText out ∧ ExactTidy out ∧
      (TextCall.replaceData id offset count units : TextCall FormState).Standard parsed out id := by
  intro out
  obtain ⟨hlossy', htidy', hself, hothers⟩ := replaceCharacterData_spec
    laws.toFragmentLaws.toLaws h hlossy htidy offset count units
  exact ⟨hlossy', htidy', hself, fun n _ hn => hothers n hn⟩

theorem createText_exact (hlossy : LossyText parsed) (htidy : ExactTidy parsed) (units : Units) :
    let out := createText parsed units
    LossyText out.1 ∧ ExactTidy out.1 ∧
      (TextCall.createText units : TextCall FormState).Standard parsed out.1 out.2 := by
  intro out
  obtain ⟨-, hfresh, hlossy', htidy', hself, hothers⟩ :=
    createText_spec laws.toFragmentLaws.toLaws hlossy htidy units
  refine ⟨hlossy', htidy', hself, fun n hn => hothers n ?_⟩
  rintro rfl
  exact hn hfresh

/-- A call is right exactly when it drops no unpaired surrogate. -/
theorem textCall_step_iff (h : call.step fuel parsed = some (parsed', made))
    (hlossy : LossyText parsed) (htidy : ExactTidy parsed) :
    (LossyText parsed' ∧ call.Standard parsed parsed' made ↔ call.Keeps parsed) ∧
      ExactTidy parsed' := by
  have hblitz := laws.toFragmentLaws.toLaws
  cases call with
  | createText units =>
    obtain ⟨hlossy', htidy', hstandard⟩ := createText_exact laws hlossy htidy units
    rw [Option.some.inj h] at hlossy' htidy' hstandard
    exact ⟨iff_of_true ⟨hlossy', hstandard⟩ trivial, htidy'⟩
  | createComment units =>
    obtain ⟨hlossy', htidy', hstandard⟩ := createComment_exact laws hlossy htidy units
    rw [Option.some.inj h] at hlossy' htidy' hstandard
    exact ⟨iff_of_true ⟨hlossy', hstandard⟩ trivial, htidy'⟩
  | replaceData id offset count units =>
    rw [TextCall.step] at h
    split at h
    · rename_i hcall
      obtain ⟨hlossy', htidy', hstandard⟩ :=
        replaceData_exact laws hcall.1 hlossy htidy offset count units
      obtain ⟨rfl, rfl⟩ := Prod.mk.inj (Option.some.inj h)
      exact ⟨iff_of_true ⟨hlossy', hstandard⟩ trivial, htidy'⟩
    · cases h
  | splitText id offset =>
    rw [TextCall.step] at h
    split at h
    · rename_i htext
      have hoffset : offset ≤ (characterData parsed id).length := by
        by_contra hlt
        rw [splitTextNode, if_pos (by omega)] at h
        cases h
      obtain ⟨out, new, hsplit, hinto⟩ := splitTextNode_spec hblitz htext hoffset hlossy htidy
      obtain ⟨rfl, rfl⟩ := Prod.mk.inj (Option.some.inj (hsplit.symm.trans h))
      exact ⟨splitText_iff hinto hoffset hlossy htidy, hinto.tidy⟩
    · cases h
  | normalize id =>
    obtain ⟨out, hout, he⟩ := Option.map_eq_some_iff.1 h
    obtain ⟨rfl, rfl⟩ := Prod.mk.inj he
    exact normalize_iff hblitz hout hlossy htidy
  | materialize snapshot =>
    have hmade := madeOf_materializeImport laws htidy snapshot
    rw [Option.some.inj h] at hmade
    obtain ⟨t, -, -, hgrown⟩ := id hmade
    exact ⟨(and_iff_right (hgrown.lossyText laws hlossy)).trans
      (standard_materialize_iff laws hmade), hgrown.tidy⟩

/-! ### Runs -/

omit laws in
theorem exact_of_fresh (hexact : ∀ n, parsed.side.exactText.get? n = none)
    (hlossy : ∀ n, ∀ c ∈ charactersOf parsed.base n, toStringLossy c = c) :
    LossyText parsed ∧ ExactTidy parsed := by
  refine ⟨fun n c hc => ?_, fun n u hu => ?_⟩
  · rw [characterData_of_charactersOf (hexact n) hc, hlossy n c hc]
  · rw [hexact] at hu
    cases hu

omit laws in
theorem exists_normalize (parsed : Parsed Base) (id : NodeId) :
    ∃ fuel out, Dom.normalize fuel parsed id = some out := by
  obtain ⟨fuel, h⟩ := exists_normalizeContainers parsed.base id
  obtain ⟨containers, h⟩ := Option.isSome_iff_exists.1 h
  exact ⟨fuel, _, by rw [Dom.normalize, h]; rfl⟩

/-- Makes the call and goes on with the document. -/
def TextCall.next (fuel : Nat) (parsed : Parsed Base) (call : TextCall FormState) :
    Option (Parsed Base) :=
  (call.step fuel parsed).map Prod.fst

/-- After the call the tree holds the lossy form of every node's data, and the data is what the
standard says. -/
def TextCall.Exact (fuel : Nat) (parsed : Parsed Base) (call : TextCall FormState) : Prop :=
  ∀ out ∈ call.step fuel parsed, LossyText out.1 ∧ call.Standard parsed out.1 out.2

theorem exactText_of_run (hlossy : LossyText parsed) (htidy : ExactTidy parsed)
    (hrun : (run (TextCall.next fuel) parsed calls).isSome = true) :
    Along (TextCall.next fuel) (TextCall.Exact fuel) parsed calls ↔
      Along (TextCall.next fuel) (fun parsed call => call.Keeps parsed) parsed calls := by
  obtain ⟨parsed', hrun⟩ := Option.isSome_iff_exists.1 hrun
  have hstep : ∀ {s s' : Parsed Base} {call : TextCall FormState},
      LossyText s ∧ ExactTidy s → TextCall.next fuel s call = some s' →
        (TextCall.Exact fuel s call ↔ call.Keeps s) ∧
          (TextCall.Exact fuel s call → LossyText s' ∧ ExactTidy s') := by
    intro s s' call hs h
    obtain ⟨⟨_, made⟩, hcall, rfl⟩ := Option.map_eq_some_iff.1 h
    obtain ⟨hiff, htidy'⟩ := textCall_step_iff laws hcall hs.1 hs.2
    rw [TextCall.Exact, hcall]
    simp only [Option.mem_def, Option.some.injEq, forall_eq']
    exact ⟨hiff, fun hexact => ⟨hexact.1, htidy'⟩⟩
  exact along_iff_of_run (I := fun s => LossyText s ∧ ExactTidy s)
    (fun s call s' hs h => (hstep hs h).1)
    (fun s call s' hs hexact h => (hstep hs h).2 hexact) ⟨hlossy, htidy⟩ hrun

end

/-- A document with no nodes but itself. -/
def Parsed.fresh : Parsed Arena :=
  ⟨.fresh, ⟨[], 0, true, .ofList [], .empty⟩⟩

theorem exact_fresh : LossyText Parsed.fresh ∧ ExactTidy Parsed.fresh := by
  refine exact_of_fresh (fun _ => rfl) fun n c hc => ?_
  have hdata : data Parsed.fresh.base n = if n = 0 then some .document else none := by
    rcases n with _ | n <;> rfl
  rw [charactersOf, hdata] at hc
  split_ifs at hc <;> cases hc

theorem exactText_of_run_split : (run (TextCall.next 8) Parsed.fresh
      [.createText [0x61, 0xD800], .splitText 1 2, .createComment [0xDC00], .normalize 0]).isSome = true ∧
    (Along (TextCall.next 8) (TextCall.Exact 8) Parsed.fresh
        [.createText [0x61, 0xD800], .splitText 1 2, .createComment [0xDC00], .normalize 0] ↔
      Along (TextCall.next 8) (fun parsed call => call.Keeps parsed) Parsed.fresh
        [.createText [0x61, 0xD800], .splitText 1 2, .createComment [0xDC00], .normalize 0]) :=
  ⟨by decide, exactText_of_run Arena.laws exact_fresh.1 exact_fresh.2 (by decide)⟩

/-- A split leaves the first part with all that there was. -/
theorem not_exactText_of_split :
    ¬ Along (TextCall.next 0) (TextCall.Exact 0) Parsed.fresh
      [.createText [0x61, 0xD800], .splitText 1 1] := by
  rintro ⟨-, h⟩
  have hsplit := (h (createText Parsed.fresh [0x61, 0xD800]).1 rfl).1
  have hlast := hsplit _ rfl
  have happend := hlast.2.1
  revert happend
  decide

end TinyBrowser.Dom
