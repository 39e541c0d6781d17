import TinyBrowser.Dom.TextEffects

/-!
# What `normalize` does

`normalize` passes over the children of each container once. The pass over one list of children
merges and drops as `Runs.merges` and `Runs.dropped` say, on the texts that the tree holds; the exact
units are left as they were.
-/

namespace TinyBrowser.Dom
open Lib Blitz BlitzFragments BlitzNodes

section
variable {Base : Type} [Blitz Base] {base : Base} {parsed out : Parsed Base}
  {container id n : NodeId} {merged : Option NodeId} {kids : List NodeId}

/-- The texts of the tree are Rust strings. -/
def WellFormedTexts (base : Base) : Prop :=
  ∀ n c, textContent base n = some c → toStringLossy c = c

/-- What a pass over `kids` leaves, when a run has begun with `merged`. -/
structure Passed (parsed out : Parsed Base) (merged : Option NodeId) (kids : List NodeId) :
    Prop where
  exactText_eq : out.side.exactText = parsed.side.exactText
  tree_eq : tree out.base =
    (tree parsed.base).detachAll (Runs.dropped (textContent parsed.base) merged kids)
  data_eq : ∀ n, textContent parsed.base n = none → data out.base n = data parsed.base n
  text_eq : ∀ n c, textContent parsed.base n = some c → textContent out.base n = some (c ++
    Runs.gained (textContent parsed.base) (Runs.merges (textContent parsed.base) merged kids) n)

theorem data_of_textContent {c : Units} (h : textContent base n = some c) :
    data base n = some (.text c) := by
  rw [textContent] at h
  cases hd : data base n with
  | none => rw [hd] at h; cases h
  | some d =>
    rw [hd] at h
    cases d <;> first | (obtain rfl := Option.some.inj h; rfl) | cases h

theorem textContent_congr {base' : Base} (h : data base' n = data base n) :
    textContent base' n = textContent base n := by
  rw [textContent, textContent, h]

theorem normalizeKid_eq (state : Parsed Base × Option NodeId) (kid : NodeId) :
    normalizeKid container state kid =
      match textContent state.1.base kid, state.2 with
      | none, _ => (state.1, none)
      | some [], merged => (unlinkJournaled state.1 kid, merged)
      | some (_ :: _), none => (state.1, some kid)
      | some (u :: content), some previous =>
        (mergeText state.1 container previous kid (u :: content), some previous) := by
  exact (normalizeKid.eq_def ..).trans rfl

@[simp] theorem base_adjustMerged (previous kid : NodeId) (length : Nat) :
    (adjustMerged parsed container previous kid length).base = parsed.base := by
  rw [adjustMerged]
  split
  · rfl
  · split <;> rfl

@[simp] theorem exactText_adjustMerged (previous kid : NodeId) (length : Nat) :
    (adjustMerged parsed container previous kid length).side.exactText = parsed.side.exactText := by
  rw [adjustMerged]
  split
  · rfl
  · split <;> rfl

variable (laws : Blitz.Laws Base)
include laws

theorem mergeText_spec (container kid : NodeId) {previous : NodeId} {c content : Units}
    (hprevious : textContent parsed.base previous = some c) (hc : toStringLossy c = c)
    (hcontent : toStringLossy content = content) :
    let mid := mergeText parsed container previous kid content
    mid.side.exactText = parsed.side.exactText ∧ tree mid.base = (tree parsed.base).detach kid ∧
      (∀ n, n ≠ previous → data mid.base n = data parsed.base n) ∧
        textContent mid.base previous = some (c ++ content) := by
  intro mid
  have hw := written_setNodeText laws (data_of_textContent hprevious) (c ++ content)
  have hbase : tree mid.base = (tree (setNodeText parsed.base previous (c ++ content))).detach kid ∧
      data mid.base = data (setNodeText parsed.base previous (c ++ content)) := by
    show tree (mergeText parsed container previous kid content).base = _ ∧
      data (mergeText parsed container previous kid content).base = _
    rw [mergeText, hprevious, Option.getD_some, tree_unlinkJournaled laws,
      data_unlinkJournaled laws, Parsed.base_record, Parsed.base_withBase, base_adjustMerged,
      toStringLossy_append hc, hcontent]
    exact ⟨rfl, rfl⟩
  refine ⟨?_, ?_, fun n hn => ?_, ?_⟩
  · show (mergeText parsed container previous kid content).side.exactText = _
    simp [mergeText]
  · rw [hbase.1, hw.tree_eq]
  · rw [hbase.2, hw.data_eq n hn]
  · rw [textContent_congr (congrFun hbase.2 previous), hw.text_eq, hprevious]
    rfl

/-- The pass, kid by kid; the induction is on the kids that are left. -/
theorem passed_normalizeKids (hwf : WellFormedTexts parsed.base) (hkids : kids.Nodup)
    (hmerged : ∀ p ∈ merged, p ∉ kids ∧ (textContent parsed.base p).isSome = true) :
    Passed parsed (kids.foldl (normalizeKid container) (parsed, merged)).1 merged kids := by
  induction kids generalizing parsed merged with
  | nil =>
    refine ⟨rfl, rfl, fun _ _ => rfl, fun n c hc => ?_⟩
    rw [Runs.merges, Runs.gained, List.filter_nil, List.flatMap_nil, List.append_nil]
    exact hc
  | cons kid kids ih =>
    obtain ⟨hkid, hkids⟩ := List.nodup_cons.1 hkids
    have hrest : ∀ p ∈ merged, p ≠ kid ∧ p ∉ kids := fun p hp => by
      have hnot := (hmerged p hp).1
      rwa [List.mem_cons, not_or] at hnot
    rw [List.foldl_cons, normalizeKid_eq]
    dsimp only
    cases htext : textContent parsed.base kid with
    | none =>
      obtain ⟨h₁, h₂, h₃, h₄⟩ :
          Passed parsed (kids.foldl (normalizeKid container) (parsed, none)).1 none kids :=
        ih hwf hkids nofun
      refine ⟨h₁, ?_, h₃, fun n c hc => ?_⟩
      · rw [Runs.dropped_cons, htext]
        exact h₂
      · rw [Runs.merges_cons, htext]
        exact h₄ n c hc
    | some content =>
      cases content with
      | nil =>
        have hdata := data_unlinkJournaled laws parsed kid
        have htexts : textContent (unlinkJournaled parsed kid).base = textContent parsed.base :=
          funext fun n => textContent_congr (congrFun hdata n)
        obtain ⟨h₁, h₂, h₃, h₄⟩ : Passed (unlinkJournaled parsed kid)
            (kids.foldl (normalizeKid container) (unlinkJournaled parsed kid, merged)).1 merged kids :=
          ih (fun n c hc => hwf n c (htexts ▸ hc)) hkids
            fun p hp => ⟨(hrest p hp).2, htexts ▸ (hmerged p hp).2⟩
        rw [htexts] at h₂ h₃ h₄
        refine ⟨h₁.trans (exactText_unlinkJournaled kid), ?_, fun n hn => ?_, fun n c hc => ?_⟩
        · rw [h₂, tree_unlinkJournaled laws, Runs.dropped_cons, htext]
          rfl
        · rw [h₃ n hn, hdata]
        · rw [Runs.merges_cons, htext]
          exact h₄ n c hc
      | cons u content =>
        cases merged with
        | none =>
          obtain ⟨h₁, h₂, h₃, h₄⟩ : Passed parsed
              (kids.foldl (normalizeKid container) (parsed, some kid)).1 (some kid) kids :=
            ih hwf hkids fun p hp => by
              obtain rfl := Option.some.inj hp
              exact ⟨hkid, by rw [htext]; rfl⟩
          refine ⟨h₁, ?_, h₃, fun n c hc => ?_⟩
          · rw [Runs.dropped_cons, htext]
            exact h₂
          · rw [Runs.merges_cons, htext]
            exact h₄ n c hc
        | some previous =>
          obtain ⟨hprevious, hnotin⟩ := hrest previous rfl
          obtain ⟨c, hc⟩ := Option.isSome_iff_exists.1 (hmerged previous rfl).2
          obtain ⟨hexact, htree, hothers, hself⟩ :=
            mergeText_spec laws container kid hc (hwf previous c hc) (hwf kid _ htext)
          dsimp only
          set mid := mergeText parsed container previous kid (u :: content) with hmid
          have htexts : ∀ n, n ≠ previous → textContent mid.base n = textContent parsed.base n :=
            fun n hn => textContent_congr (hothers n hn)
          have hcongr : ∀ y ∈ kids, textContent mid.base y = textContent parsed.base y :=
            fun y hy => htexts y fun he => hnotin (he ▸ hy)
          have hwf' : WellFormedTexts mid.base := fun n c' hc' => by
            by_cases hn : n = previous
            · obtain rfl := Option.some.inj (hself.symm.trans (hn ▸ hc'))
              rw [toStringLossy_append (hwf previous c hc), hwf kid _ htext]
            · exact hwf n c' ((htexts n hn).symm.trans hc')
          obtain ⟨h₁, h₂, h₃, h₄⟩ : Passed mid
              (kids.foldl (normalizeKid container) (mid, some previous)).1 (some previous) kids :=
            ih hwf' hkids fun p hp => by
              obtain rfl := Option.some.inj hp
              exact ⟨hnotin, by rw [hself]; rfl⟩
          simp only [Runs.dropped_congr hcongr, Runs.gained_congr hcongr] at h₂ h₄
          refine ⟨h₁.trans hexact, ?_, fun n hn => ?_, fun n c' hc' => ?_⟩
          · rw [h₂, htree, Runs.dropped_cons, htext]
            rfl
          · have hne : n ≠ previous := by
              rintro rfl
              rw [hn] at hc
              cases hc
            rw [h₃ n ((htexts n hne).trans hn), hothers n hne]
          · rw [Runs.merges_cons, htext]
            dsimp only
            rw [Runs.gained_cons]
            split
            · rename_i he
              obtain rfl : previous = n := he
              obtain rfl := Option.some.inj (hc.symm.trans hc')
              rw [h₄ previous _ hself, Runs.textOf, htext, Option.getD_some, List.append_assoc]
            · rename_i hne
              exact h₄ n c' ((htexts n (Ne.symm hne)).trans hc')

/-! ### One container after another -/

/-- What the passes over the children of `containers` leave. -/
structure Normalized (parsed out : Parsed Base) (containers : List NodeId) : Prop where
  exactText_eq : out.side.exactText = parsed.side.exactText
  data_eq : ∀ n, textContent parsed.base n = none → data out.base n = data parsed.base n
  data_others : ∀ n, (∀ c ∈ containers, n ∉ childIds parsed.base c) →
    data out.base n = data parsed.base n
  text_eq : ∀ c ∈ containers, ∀ n ∈ childIds parsed.base c, ∀ u,
    textContent parsed.base n = some u → textContent out.base n = some (u ++
      Runs.gained (textContent parsed.base)
        (Runs.merges (textContent parsed.base) none (childIds parsed.base c)) n)
  children_eq : ∀ c ∈ containers, childIds out.base c = (childIds parsed.base c).filter
    (· ∉ Runs.dropped (textContent parsed.base) none (childIds parsed.base c))
  children_others : ∀ c, c ∉ containers → childIds out.base c = childIds parsed.base c

omit laws in
theorem eq_of_mem_childIds {c c' : NodeId} (h : n ∈ childIds base c) (h' : n ∈ childIds base c') :
    c = c' := by
  rw [childIds, Forest.mem_children] at h h'
  exact Option.some.inj (h.symm.trans h')

omit laws in
theorem toStringLossy_gained (hwf : WellFormedTexts base) (pairs : List (NodeId × NodeId))
    (n : NodeId) : toStringLossy (Runs.gained (textContent base) pairs n) =
      Runs.gained (textContent base) pairs n := by
  induction pairs with
  | nil => rfl
  | cons pair pairs ih =>
    have hpair : toStringLossy (Runs.textOf (textContent base) pair.2) =
        Runs.textOf (textContent base) pair.2 := by
      rw [Runs.textOf]
      cases hp : textContent base pair.2 with
      | none => rfl
      | some v => exact hwf _ v hp
    rw [Runs.gained_cons]
    split
    · rw [toStringLossy_append hpair, ih]
    · exact ih

theorem normalized_containers {containers : List NodeId} (hwf : WellFormedTexts parsed.base)
    (hnodup : containers.Nodup) :
    Normalized parsed (containers.foldl normalizeContainer parsed) containers := by
  induction containers generalizing parsed with
  | nil =>
    exact ⟨rfl, fun _ _ => rfl, fun _ _ => rfl, nofun, nofun, fun _ _ => rfl⟩
  | cons c containers ih =>
    obtain ⟨hc, hnodup⟩ := List.nodup_cons.1 hnodup
    have hpass : Passed parsed (normalizeContainer parsed c) none (childIds parsed.base c) :=
      passed_normalizeKids laws hwf ((tree parsed.base).nodup c) nofun
    set mid := normalizeContainer parsed c with hmid
    -- The pass changes nothing below another container.
    have hkids : ∀ c', childIds mid.base c' = (childIds parsed.base c').filter
        (· ∉ Runs.dropped (textContent parsed.base) none (childIds parsed.base c)) := fun c' => by
      rw [childIds, hpass.tree_eq, Forest.children_detachAll]
      rfl
    have hkidsOther : ∀ c', c' ≠ c → childIds mid.base c' = childIds parsed.base c' :=
      fun c' hne => by
        rw [hkids, List.filter_eq_self]
        intro x hx
        rw [decide_eq_true_eq]
        exact fun hd => hne (eq_of_mem_childIds hx (Runs.mem_of_mem_dropped hd).1)
    have hdataOther : ∀ n, n ∉ childIds parsed.base c → data mid.base n = data parsed.base n :=
      fun n hn => by
        cases ht : textContent parsed.base n with
        | none => exact hpass.data_eq n ht
        | some u =>
          have htext := hpass.text_eq n u ht
          rw [Runs.gained_of_notMem hn (by simp), List.append_nil] at htext
          rw [data_of_textContent htext, data_of_textContent ht]
    have hwf' : WellFormedTexts mid.base := fun n u hu => by
      cases ht : textContent parsed.base n with
      | none => exact hwf n u ((textContent_congr (hpass.data_eq n ht)).symm.trans hu)
      | some u' =>
        obtain rfl := Option.some.inj ((hpass.text_eq n u' ht).symm.trans hu)
        rw [toStringLossy_append (hwf n u' ht), toStringLossy_gained hwf]
    obtain ⟨h₁, h₂, h₃, h₄, h₅, h₆⟩ := ih hwf' hnodup
    have hcongr : ∀ c' ∈ containers, ∀ y ∈ childIds parsed.base c',
        textContent mid.base y = textContent parsed.base y := fun c' hc' y hy =>
      textContent_congr (hdataOther y fun hm => hc (eq_of_mem_childIds hm hy ▸ hc'))
    have hkidsIn : ∀ c' ∈ containers, childIds mid.base c' = childIds parsed.base c' :=
      fun c' hc' => hkidsOther c' fun he => hc (he ▸ hc')
    rw [List.foldl_cons]
    refine ⟨h₁.trans hpass.exactText_eq, fun n hn => ?_, fun n hn => ?_, ?_, ?_, fun c' hc' => ?_⟩
    · have hmidData := hpass.data_eq n hn
      rw [h₂ n ((textContent_congr hmidData).trans hn), hmidData]
    · rw [List.forall_mem_cons] at hn
      rw [h₃ n fun c' hc' => by rw [hkidsIn c' hc']; exact hn.2 c' hc', hdataOther n hn.1]
    · refine List.forall_mem_cons.2 ⟨fun n hn u hu => ?_, fun c' hc' n hn u hu => ?_⟩
      · have hout : ∀ c' ∈ containers, n ∉ childIds mid.base c' := fun c' hc' hm => by
          rw [hkidsIn c' hc'] at hm
          exact hc (eq_of_mem_childIds hn hm ▸ hc')
        rw [textContent_congr (h₃ n hout)]
        exact hpass.text_eq n u hu
      · have htext := h₄ c' hc' n (by rw [hkidsIn c' hc']; exact hn) u
          ((hcongr c' hc' n hn).trans hu)
        rw [hkidsIn c' hc', Runs.gained_congr (hcongr c' hc')] at htext
        exact htext
    · refine List.forall_mem_cons.2 ⟨?_, fun c' hc' => ?_⟩
      · rw [h₆ c hc, hkids]
      · rw [h₅ c' hc', hkidsIn c' hc', Runs.dropped_congr (hcongr c' hc')]
    · rw [List.mem_cons, not_or] at hc'
      rw [h₆ c' hc'.2, hkidsOther c' hc'.1]

end

/-! ### The containers -/

section
variable {Base : Type} [Blitz Base] {base : Base} {id : NodeId}

/-- A node and the elements below it. -/
inductive Container (base : Base) (id : NodeId) : NodeId → Prop
  | self : Container base id id
  | kid {c k : NodeId} (h : Container base id c) (hk : k ∈ childIds base c)
      (helement : downcastElement base k = true) : Container base id k

theorem Container.mem_chain {c : NodeId} (h : Container base id c) : id ∈ (tree base).chain c := by
  induction h with
  | self => exact Forest.mem_chain_self _ id
  | kid h hk _ ih =>
    rw [childIds, Forest.mem_children] at hk
    exact (Forest.mem_chain_of_parent hk).2 (.inr ih)

/-- The walk has `stack` left to visit: every container it has found is one, and the children of
those it has visited are found. -/
structure Walked (base : Base) (id : NodeId) (stack containers : List NodeId) : Prop where
  nodup : containers.Nodup
  stack_nodup : stack.Nodup
  stack_mem : ∀ s ∈ stack, s ∈ containers
  self_mem : id ∈ containers
  sound : ∀ c ∈ containers, Container base id c
  closed : ∀ c ∈ containers, c ∉ stack → ∀ k ∈ childIds base c, downcastElement base k = true →
    k ∈ containers
  found : ∀ c ∈ containers, c = id ∨ ∃ p ∈ containers, p ∉ stack ∧ (tree base).parent c = some p

theorem Walked.step {s : NodeId} {stack containers : List NodeId}
    (h : Walked base id (s :: stack) containers) :
    Walked base id (((childIds base s).filter (downcastElement base)).reverse ++ stack)
      (containers ++ (childIds base s).filter (downcastElement base)) := by
  obtain ⟨hs, hstack⟩ := List.nodup_cons.1 h.stack_nodup
  have hmem : s ∈ containers := h.stack_mem s List.mem_cons_self
  have hkid : ∀ k ∈ (childIds base s).filter (downcastElement base),
      (tree base).parent k = some s ∧ downcastElement base k = true := fun k hk => by
    rw [List.mem_filter, childIds, Forest.mem_children] at hk
    exact hk
  have hnew : ∀ k ∈ (childIds base s).filter (downcastElement base), k ∉ containers :=
    fun k hk hc => by
      have hparent := (hkid k hk).1
      rcases h.found k hc with rfl | ⟨p, -, hp, hkp⟩
      · exact Forest.not_mem_chain_parent hparent (h.sound s hmem).mem_chain
      · obtain rfl := Option.some.inj (hparent.symm.trans hkp)
        exact hp List.mem_cons_self
  have hnodup : ((childIds base s).filter (downcastElement base)).Nodup :=
    ((tree base).nodup s).filter _
  -- What is visited before stays visited.
  have hvisited : ∀ p ∈ containers, p ∉ s :: stack →
      p ∉ ((childIds base s).filter (downcastElement base)).reverse ++ stack := fun p hp hnot hm => by
    rcases List.mem_append.1 hm with hm | hm
    · exact hnew p (List.mem_reverse.1 hm) hp
    · exact hnot (List.mem_cons_of_mem _ hm)
  have hself : s ∉ ((childIds base s).filter (downcastElement base)).reverse ++ stack := fun hm => by
    rcases List.mem_append.1 hm with hm | hm
    · exact hnew s (List.mem_reverse.1 hm) hmem
    · exact hs hm
  refine ⟨?_, ?_, fun x hx => ?_, List.mem_append_left _ h.self_mem, fun c hc => ?_,
    fun c hc hnot k hk helement => ?_, fun c hc => ?_⟩
  · exact List.nodup_append.2 ⟨h.nodup, hnodup, fun a ha b hb he => hnew b hb (he ▸ ha)⟩
  · exact List.nodup_append.2 ⟨List.nodup_reverse.2 hnodup, hstack, fun a ha b hb he =>
      hnew a (List.mem_reverse.1 ha) (he ▸ h.stack_mem b (List.mem_cons_of_mem _ hb))⟩
  · rcases List.mem_append.1 hx with hx | hx
    · exact List.mem_append_right _ (List.mem_reverse.1 hx)
    · exact List.mem_append_left _ (h.stack_mem x (List.mem_cons_of_mem _ hx))
  · rcases List.mem_append.1 hc with hc | hc
    · exact h.sound c hc
    · exact .kid (h.sound s hmem) (List.mem_of_mem_filter hc) (hkid c hc).2
  · rcases List.mem_append.1 hc with hc | hc
    · by_cases hcs : c = s
      · subst hcs
        exact List.mem_append_right _ (List.mem_filter.2 ⟨hk, helement⟩)
      · refine List.mem_append_left _ (h.closed c hc (fun hm => ?_) k hk helement)
        rcases List.mem_cons.1 hm with he | hm
        · exact hcs he
        · exact hnot (List.mem_append_right _ hm)
    · exact absurd (List.mem_append_left _ (List.mem_reverse.2 hc)) hnot
  · rcases List.mem_append.1 hc with hc | hc
    · refine (h.found c hc).imp_right ?_
      rintro ⟨p, hp, hnot, hparent⟩
      exact ⟨p, List.mem_append_left _ hp, hvisited p hp hnot, hparent⟩
    · exact .inr ⟨s, List.mem_append_left _ hmem, hself, (hkid c hc).1⟩

theorem normalizeContainers_walked {fuel : Nat} {stack containers out : List NodeId}
    (hw : Walked base id stack containers)
    (h : normalizeContainers base fuel stack containers = some out) : Walked base id [] out := by
  induction fuel generalizing stack containers with
  | zero =>
    cases stack with
    | nil => exact Option.some.inj h ▸ hw
    | cons s stack => cases h
  | succ fuel ih =>
    cases stack with
    | nil => exact Option.some.inj h ▸ hw
    | cons s stack => exact ih hw.step h

theorem normalizeContainers_spec {fuel : Nat} {out : List NodeId}
    (h : normalizeContainers base fuel [id] [id] = some out) :
    out.Nodup ∧ ∀ c, c ∈ out ↔ Container base id c := by
  have hstart : Walked base id [id] [id] :=
    ⟨List.nodup_singleton id, List.nodup_singleton id, fun _ hs => hs, List.mem_singleton_self id,
      fun c hc => List.mem_singleton.1 hc ▸ .self, fun c hc hnot => absurd hc hnot,
      fun c hc => .inl (List.mem_singleton.1 hc)⟩
  have hw := normalizeContainers_walked hstart h
  refine ⟨hw.nodup, fun c => ⟨hw.sound c, fun hc => ?_⟩⟩
  induction hc with
  | self => exact hw.self_mem
  | kid _ hk helement ih => exact hw.closed _ ih List.not_mem_nil _ hk helement

/-- The walk ends: what is below a node is finite. -/
theorem exists_normalizeContainers (base : Base) (id : NodeId) :
    ∃ fuel, (normalizeContainers base fuel [id] [id]).isSome = true := by
  have hone : ∀ s, ∃ n, ∀ fuel stack containers, ∃ containers',
      normalizeContainers base (n + fuel) (s :: stack) containers =
        normalizeContainers base fuel stack containers' := fun s => by
    induction s using (tree base).down.induction with
    | _ s ih =>
      have hall : ∀ kids : List NodeId, (∀ k ∈ kids, k ∈ childIds base s) →
          ∃ n, ∀ fuel stack containers, ∃ containers',
            normalizeContainers base (n + fuel) (kids ++ stack) containers =
              normalizeContainers base fuel stack containers' := fun kids hkids => by
        induction kids with
        | nil => exact ⟨0, fun fuel stack containers => ⟨containers, by rw [Nat.zero_add]; rfl⟩⟩
        | cons k kids ihk =>
          obtain ⟨hk, hkids⟩ := List.forall_mem_cons.1 hkids
          obtain ⟨n, hn⟩ := ih k ((tree base).mem_children.1 hk)
          obtain ⟨m, hm⟩ := ihk hkids
          refine ⟨n + m, fun fuel stack containers => ?_⟩
          obtain ⟨mid, hmid⟩ := hn (m + fuel) (kids ++ stack) containers
          obtain ⟨last, hlast⟩ := hm fuel stack mid
          exact ⟨last, by rw [Nat.add_assoc, List.cons_append, hmid, hlast]⟩
      obtain ⟨n, hn⟩ := hall ((childIds base s).filter (downcastElement base)).reverse
        fun k hk => List.mem_of_mem_filter (List.mem_reverse.1 hk)
      refine ⟨n + 1, fun fuel stack containers => ?_⟩
      obtain ⟨last, hlast⟩ := hn fuel stack
        (containers ++ (childIds base s).filter (downcastElement base))
      refine ⟨last, ?_⟩
      rw [show n + 1 + fuel = n + fuel + 1 by omega, normalizeContainers]
      exact hlast
  obtain ⟨n, hn⟩ := hone id
  obtain ⟨containers, h⟩ := hn 0 [] [id]
  exact ⟨n + 0, by rw [h]; rfl⟩

end

end TinyBrowser.Dom
