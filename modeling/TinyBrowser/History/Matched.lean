import TinyBrowser.History.Framed
import TinyBrowser.History.Mirror

/-!
# Changes that both sides make

`ReplayOp.Matched` is the condition on one change, and `follows_step` what it keeps.
-/

namespace TinyBrowser
open Lib Machine SessionHistory Mirrored

variable {Nav Doc : Type}

/-- Both sides can commit the change: a push does not stand before every entry of the frame, and the
entry to be replaced is there, or the store has its position past the end and nothing to drop. -/
def Mirrored.Commits (f : FrameId) (s : Mirrored Nav Doc) : Option PendingChange → Prop
  | none => True
  | some (.push _) => s.history.Reached f
  | some (.replace id _) => id ∈ s.history.idsOf f ∨ ∀ staged ∈ s.store.pending,
      ∀ i ∈ staged.replace, s.store.entries.length ≤ i ∧
        s.store.entries.length ≤ s.store.index + 1

/-- The change is one that both sides can make. -/
def ReplayOp.Matched (f : FrameId) (s : Mirrored Nav Doc) : ReplayOp Nav Doc → Prop
  | record _ replace url => replace = true ∨ url.scheme = "http".toList ∨
      url.scheme = "https".toList ∨ s.history.Reached f
  | commit _ => s.Commits f (s.history.pending.get? f)
  | pushSameDocument .. => s.history.Reached f
  | discard | other _ => True

instance (f : FrameId) (s : Mirrored Nav Doc) (change : Option PendingChange) :
    Decidable (s.Commits f change) :=
  match change with
  | none => inferInstanceAs (Decidable True)
  | some (.push _) => inferInstanceAs (Decidable (s.history.Reached f))
  | some (.replace _ _) => inferInstanceAs (Decidable (_ ∨ _))

instance (f : FrameId) (s : Mirrored Nav Doc) (op : ReplayOp Nav Doc) :
    Decidable (op.Matched f s) :=
  match op with
  | .record .. => inferInstanceAs (Decidable (_ ∨ _ ∨ _ ∨ _))
  | .commit _ => inferInstanceAs (Decidable (s.Commits f _))
  | .pushSameDocument .. => inferInstanceAs (Decidable (s.history.Reached f))
  | .discard | .other _ => inferInstanceAs (Decidable True)

namespace Mirrored
variable {f : FrameId} {s : Mirrored Nav Doc} {h : SessionHistory} {url : Url}
  {entry : FrameHistoryEntry Nav Doc} {replace : Bool}

theorem idsOf_eq_nil (hids : h.frames.get? f = some (h.idsOf f)) (hnone : h.activeEntry f = none) :
    h.idsOf f = [] := by
  by_contra hne
  obtain ⟨id, -, hactive⟩ := exists_activeEntryAt hids hne h.currentStep
  exact absurd (hactive.symm.trans hnone) (by simp)

theorem Follows.frames_get? (hs : Follows f s) :
    s.history.frames.get? f = some (s.history.idsOf f) := by
  obtain ⟨ms, hr⟩ := hs.rising
  rw [hr.idsOf_eq, hr.ids]

theorem Follows.index_lt (hs : Follows f s) {id : EntryId}
    (hactive : s.history.activeEntry f = some id) : s.store.index < s.store.entries.length := by
  rw [hs.index, hs.length]
  exact (List.getElem?_eq_some_iff.1 (getElem?_position hs.inv hactive)).1

theorem Follows.length_push (hs : Follows f s) :
    (s.store.push entry).entries.length =
      ((s.history.idsOf f).take (s.history.position f + 1)).length + 1 := by
  show (s.store.entries.take (s.store.index + 1) ++ [entry]).length = _
  rw [hs.entries_eq, hs.index, ← List.map_take, List.length_append, List.length_map]
  rfl

/-- A navigation of the frame that needs no load. -/
theorem Follows.record_local (hs : Follows f s) (hf : f ≠ FrameId.main)
    (hload : ¬(url.scheme = "http".toList ∨ url.scheme = "https".toList))
    (hc : replace = true ∨ s.history.Reached f)
    (hfit : ((ReplayOp.record entry replace url).apply f s).history.Fits) :
    Ready f ((ReplayOp.record entry replace url).apply f s) := by
  have happly : (ReplayOp.record entry replace url).apply f s =
      let store := if replace then s.store.discardPending.replace entry
        else s.store.discardPending.push entry
      let begun := s.history.begin f url replace store.index none false
      Mirrored.note ⟨store, begun.2, s.recorded⟩ begun.1 entry := by
    simp only [ReplayOp.apply, FrameHistory.recordNavigation, if_neg hload, Bool.false_eq_true,
      if_false]
  rw [happly] at hfit ⊢
  by_cases hreplace : replace = true ∧ ∃ id, s.history.activeEntry f = some id
  · obtain ⟨rfl, id, hactive⟩ := hreplace
    have hstore : s.store.discardPending.replace entry =
        { s.store with pending := none, entries := s.store.entries.set s.store.index entry } :=
      if_pos (hs.index_lt hactive)
    simp only [if_true, hstore, hs.index, begin_replace hs.inv hf hactive] at hfit ⊢
    have hi := (hs.inv.setPending (s.history.pending.erase f)).replaceEntry hfit
    have hpending : (SessionHistory.replaceEntry { s.history with
        pending := s.history.pending.erase f } id url none).pending.get? f = none := by
      rw [pending_replaceEntry, Dict.get?_erase, if_pos rfl]
    have hready := hs.replace
      ⟨s.store.entries.set (s.history.position f) entry, s.history.position f, none⟩ hi
      frames_replaceEntry slots_replaceEntry (getElem?_position hs.inv hactive) rfl hpending
    exact hready
  · have hstore : (if replace then s.store.discardPending.replace entry
        else s.store.discardPending.push entry) = s.store.discardPending.push entry := by
      split
      · rename_i hr
        have hnone : s.history.activeEntry f = none := by
          rw [← Option.not_isSome_iff_eq_none, Option.isSome_iff_exists]
          exact fun hid => hreplace ⟨hr, hid⟩
        have hnil := idsOf_eq_nil hs.frames_get? hnone
        refine if_neg ?_
        rw [show s.store.discardPending.entries.length = s.store.entries.length from rfl, hs.length,
          hnil]
        exact Nat.not_lt_zero _
      · rfl
    have hreach : s.history.Reached f := by
      rcases hc with hr | hreach
      · intro id hid
        exact absurd ⟨hr, id, hid⟩ hreplace
      · exact hreach
    have hnone : replace = true → s.history.activeEntry f = none := by
      intro hr
      rw [← Option.not_isSome_iff_eq_none, Option.isSome_iff_exists]
      exact fun hid => hreplace ⟨hr, hid⟩
    simp only [hstore, begin_push hf hs.frames_get? hnone] at hfit ⊢
    have hfit : (SessionHistory.pushStep { s.history with pending := s.history.pending.erase f } f
      (fun _ => (s.store.discardPending.push entry).index) url none none).2.Fits := hfit
    have hpush := hs.pushStep hf hreach hfit fun _ _ => by
      show _ ≤ (s.store.push entry).entries.length - 1
      rw [hs.length_push]
      exact Nat.le_refl _
    obtain ⟨hi, hrise, hids⟩ := hpush
    have hpending : (SessionHistory.pushStep { s.history with
        pending := s.history.pending.erase f } f
          (fun _ => (s.store.discardPending.push entry).index) url none none).2.pending.get? f =
        none := by
      rw [pending_pushStep, Dict.get?_erase, if_pos rfl]
    exact hs.push (s.store.discardPending.push entry) hi hrise hids rfl hpending

/-- A navigation of the frame that is loaded first. -/
theorem Follows.record_load (hs : Follows f s) (hf : f ≠ FrameId.main)
    (hload : url.scheme = "http".toList ∨ url.scheme = "https".toList) :
    Ready f ((ReplayOp.record entry replace url).apply f s) := by
  have happly : (ReplayOp.record entry replace url).apply f s =
      ⟨s.store.stage entry replace, (s.history.begin f url replace s.store.index none true).2,
        s.recorded⟩ := by
    simp only [ReplayOp.apply, FrameHistory.recordNavigation, if_pos hload]
    rfl
  rw [happly]
  have hstay : ∀ (p : Dict FrameId PendingChange) (e : Option (PendingEntry Nav Doc)),
      Paired { s.history with pending := p } f e →
      Ready f ⟨{ s.store with pending := e }, { s.history with pending := p }, s.recorded⟩ :=
    fun p e he => hs.keep { s.store with pending := e } (hs.inv.setPending p)
      (p := p) (Keeps.refl f _) rfl he
  cases replace with
  | false =>
    rw [begin_stage_push hf hs.frames_get?]
    refine hstay _ _ ⟨none, ?_⟩
    rw [Dict.get?_insert, if_pos rfl]
  | true =>
    rw [hs.index, begin_stage_replace hs.inv hf hs.frames_get?]
    cases hactive : s.history.activeEntry f with
    | none => exact hstay s.history.pending _ (.inl (idsOf_eq_nil hs.frames_get? hactive))
    | some id =>
      have hget := getElem?_position hs.inv hactive
      have hlt : id < s.history.nextEntry := lt_of_mem_idsOf hs.inv (List.mem_of_getElem? hget)
      refine hstay _ _ (.inr ⟨id, none, ?_, hlt, ?_⟩)
      · rw [Dict.get?_insert, if_pos rfl]
      · intro _
        show (s.history.idsOf f)[s.store.index]? = some id
        rw [hs.index, hget]

/-! ### Commits -/

section
variable {name : Option ContextName} {id : EntryId} {i : Nat}

theorem commitUrl_push (hp : h.pending.get? f = some (.push name)) : h.commitUrl f url =
    (SessionHistory.pushStep { h with pending := h.pending.erase f } f (·.frameLen f) url name
      none).2 := by
  rw [SessionHistory.commitUrl, hp]

theorem commitUrl_replace (hp : h.pending.get? f = some (.replace id name)) : h.commitUrl f url =
    SessionHistory.replaceEntry { h with pending := h.pending.erase f } id url name := by
  rw [SessionHistory.commitUrl, hp]

theorem Follows.commit_push (hs : Follows f s) (hf : f ≠ FrameId.main)
    (hp : s.history.pending.get? f = some (.push name)) (hreach : s.history.Reached f)
    (hfit : (s.history.commitUrl f url).Fits) (entry : FrameHistoryEntry Nav Doc) :
    Ready f ⟨s.store.discardPending.push entry, s.history.commitUrl f url,
      Function.update s.recorded s.history.nextEntry entry⟩ := by
  rw [commitUrl_push hp] at hfit ⊢
  obtain ⟨hi, hrise, hids⟩ := hs.pushStep hf hreach hfit fun h' hlen => Nat.le_of_eq hlen.symm
  refine hs.push (s.store.discardPending.push entry) hi hrise hids rfl ?_
  show Dict.get? (SessionHistory.pending _) f = none
  rw [pending_pushStep, Dict.get?_erase, if_pos rfl]

variable {store : FrameHistory Nav Doc}

theorem Follows.commit_gone (hs : Follows f s)
    (hp : s.history.pending.get? f = some (.replace id name)) (hid : id ∉ s.history.idsOf f)
    (hfit : (s.history.commitUrl f url).Fits)
    (hpending : store.pending = none)
    (hentries : store.entries.take (s.history.idsOf f).length = s.store.entries) :
    Ready f ⟨store, s.history.commitUrl f url, Function.update s.recorded id entry⟩ := by
  rw [commitUrl_replace hp] at hfit ⊢
  have hids : (SessionHistory.replaceEntry { s.history with pending := s.history.pending.erase f }
      id url name).idsOf f = s.history.idsOf f := by
    rw [idsOf, frames_replaceEntry, idsOf]
  have hready := hs.keep store ((hs.inv.setPending (s.history.pending.erase f)).replaceEntry hfit)
    Keeps.replaceEntry (by rw [hids, hentries, ← hs.length, List.take_length]) (by
      rw [hpending, Paired, pending_replaceEntry, Dict.get?_erase, if_pos rfl])
  exact hready.note (hids ▸ hid)

theorem Follows.commit_replace (hs : Follows f s)
    (hp : s.history.pending.get? f = some (.replace id name))
    (hid : (s.history.idsOf f)[i]? = some id) (hfit : (s.history.commitUrl f url).Fits)
    (entry : FrameHistoryEntry Nav Doc) :
    Ready f ⟨{ s.store with pending := none, entries := s.store.entries.set i entry },
      s.history.commitUrl f url, Function.update s.recorded id entry⟩ := by
  rw [commitUrl_replace hp] at hfit ⊢
  refine hs.replace _ ((hs.inv.setPending (s.history.pending.erase f)).replaceEntry hfit)
    frames_replaceEntry slots_replaceEntry hid rfl ?_
  show Dict.get? (SessionHistory.pending _) f = none
  rw [pending_replaceEntry, Dict.get?_erase, if_pos rfl]

theorem commitUrl_none (hp : h.pending.get? f = none) :
    Keeps f h (h.commitUrl f url) ∧ (h.commitUrl f url).frames = h.frames := by
  rw [SessionHistory.commitUrl, hp]
  dsimp only
  cases h.activeEntry f with
  | none => exact ⟨Keeps.refl f h, rfl⟩
  | some id => exact ⟨Keeps.modifyEntry fun _ => rfl, rfl⟩

theorem Follows.commit_none (hs : Follows f s) (hp : s.history.pending.get? f = none)
    (hfit : (s.history.commitUrl f url).Fits)
    (hpending : store.pending = none)
    (hentries : store.entries.take (s.history.idsOf f).length = s.store.entries) :
    Ready f ⟨store, s.history.commitUrl f url, s.recorded⟩ := by
  obtain ⟨hk, hframes⟩ := @commitUrl_none _ _ url hp
  have hids : (s.history.commitUrl f url).idsOf f = s.history.idsOf f := by
    rw [idsOf, hframes, idsOf]
  have hpaired : Paired (s.history.commitUrl f url) f store.pending := by
    rw [hpending]
    exact hk.pending.trans hp
  refine hs.keep store (hs.inv.commitUrl hfit) (p := s.history.pending) hk ?_ hpaired
  rw [hids, hentries, ← hs.length, List.take_length]

theorem commitPending_push
    (hp : store.pending = some ⟨entry, some i⟩) (hi : store.entries.length ≤ i) :
    store.commitPending = store.discardPending.push entry := by
  rw [FrameHistory.commitPending, hp]
  exact if_neg (Nat.not_lt.2 hi)

theorem take_push (hlast : store.entries.length ≤ store.index + 1) :
    (store.discardPending.push entry).entries.take store.entries.length = store.entries := by
  show (store.entries.take (store.index + 1) ++ [entry]).take store.entries.length = store.entries
  rw [List.take_of_length_le hlast, List.take_left]

theorem Follows.commit (hs : Follows f s) (hf : f ≠ FrameId.main)
    (hc : (ReplayOp.commit url : ReplayOp Nav Doc).Matched f s)
    (hfit : (s.history.commitUrl f url).Fits) :
    Ready f ((ReplayOp.commit url).apply f s) := by
  have happly : (ReplayOp.commit url).apply f s =
      let s' : Mirrored Nav Doc :=
        ⟨s.store.commitPending, s.history.commitUrl f url, s.recorded⟩
      s.store.pending.elim s' fun staged => s'.note (s.committedEntry f) staged.entry := by
    simp only [ReplayOp.apply]
    cases s.store.pending <;> rfl
  rw [happly]
  have hpaired := hs.paired
  cases hstaged : s.store.pending with
  | none =>
    rw [hstaged] at hpaired
    have hstore : s.store.commitPending = s.store := by rw [FrameHistory.commitPending, hstaged]
    refine hs.commit_none hpaired hfit (by rw [hstore, hstaged]) ?_
    rw [hstore, ← hs.length, List.take_length]
  | some staged =>
    obtain ⟨entry, replace⟩ := staged
    rw [hstaged] at hpaired
    cases replace with
    | none =>
      obtain ⟨name, hp⟩ := hpaired
      have hstore : s.store.commitPending = s.store.discardPending.push entry := by
        rw [FrameHistory.commitPending, hstaged]
        rfl
      rw [ReplayOp.Matched, hp] at hc
      have hready := hs.commit_push hf hp hc hfit entry
      rw [hstore, committedEntry, hp]
      exact hready
    | some i =>
      have hnil : s.history.idsOf f = [] → s.store.entries.length = 0 := fun hids => by
        rw [hs.length, hids, List.length_nil]
      rw [committedEntry]
      cases hp : s.history.pending.get? f with
      | none =>
        have hids : s.history.idsOf f = [] := by
          rcases hpaired with hids | ⟨id, name, hp', -⟩
          · exact hids
          · exact absurd (hp.symm.trans hp') (by simp)
        rw [commitPending_push hstaged (by rw [hnil hids]; exact Nat.zero_le i)]
        refine hs.commit_none hp hfit rfl ?_
        rw [← hs.length]
        exact take_push (by rw [hnil hids]; exact Nat.zero_le _)
      | some change =>
        rw [ReplayOp.Matched, hp] at hc
        cases change with
        | push name =>
          have hids : s.history.idsOf f = [] := by
            rcases hpaired with hids | ⟨id, name, hp', -⟩
            · exact hids
            · exact absurd (hp.symm.trans hp') (by simp)
          rw [commitPending_push hstaged (by rw [hnil hids]; exact Nat.zero_le i)]
          exact hs.commit_push hf hp hc hfit entry
        | replace id name =>
          by_cases hid : id ∈ s.history.idsOf f
          · have hget : (s.history.idsOf f)[i]? = some id := by
              rcases hpaired with hids | ⟨id', name', hp', -, hposition⟩
              · rw [hids] at hid
                cases hid
              · obtain ⟨rfl, -⟩ := PendingChange.replace.inj (Option.some.inj (hp.symm.trans hp'))
                exact hposition hid
            have hlt : i < s.store.entries.length := by
              rw [hs.length]
              exact (List.getElem?_eq_some_iff.1 hget).1
            have hstore : s.store.commitPending =
                { s.store with pending := none, entries := s.store.entries.set i entry } := by
              rw [FrameHistory.commitPending, hstaged]
              exact if_pos hlt
            rw [hstore]
            exact hs.commit_replace hp hget hfit entry
          · have hpast : s.store.entries.length ≤ i ∧
                s.store.entries.length ≤ s.store.index + 1 := by
              rcases hc with hc | hc
              · exact absurd hc hid
              · exact hc _ hstaged i rfl
            rw [commitPending_push hstaged hpast.1]
            refine hs.commit_gone hp hid hfit rfl ?_
            rw [← hs.length]
            exact take_push hpast.2

end

/-! ### The other changes -/

theorem Follows.pushSameDocument (hs : Follows f s) (hf : f ≠ FrameId.main)
    (hreach : s.history.Reached f) {state : Text}
    (hfit : (s.history.update f url state .push).Fits) :
    Ready f ((ReplayOp.pushSameDocument url state).apply f s) := by
  have hnodup : (s.history.idsOf f).Nodup := by
    obtain ⟨ms, hr⟩ := hs.rising
    exact hr.idsOf_eq ▸ hr.nodup hs.inv
  have happly : (ReplayOp.pushSameDocument url state).apply f s =
      Mirrored.note ⟨s.store.push .default, s.history.update f url state .push, s.recorded⟩
        ((s.history.activeEntry f).map fun _ => s.history.nextEntry) .default := rfl
  rw [happly]
  cases hactive : s.history.activeEntry f with
  | none =>
    -- the browser has no entry to push after, and the delivery drops the store's
    have hids := idsOf_eq_nil hs.frames_get? hactive
    have hupdate : s.history.update f url state .push = s.history := by
      rw [SessionHistory.update, hactive]
    rw [hupdate]
    exact hs.keep (s.store.push .default) hs.inv (p := s.history.pending) (Keeps.refl f _)
      (by rw [hids]; rfl) hs.paired
  | some id =>
    obtain ⟨e, hl⟩ := exists_locate_activeEntry hs.inv hactive
    have hin : id ∈ s.history.idsOf f := mem_idsOf_of_activeEntryAt hactive
    have hupdate : s.history.update f url state .push =
        (s.history.pushStep f (·.frameLen f) url none (some state)).2.modifyEntry
          s.history.nextEntry fun e' => { e' with document := e.document, title := e.title } := by
      simp only [SessionHistory.update, hactive, hl, fst_pushStep]
    have hi := hs.inv.update hfit
    rw [hupdate] at hfit hi ⊢
    have hfit' : (s.history.pushStep f (·.frameLen f) url none (some state)).2.Fits :=
      ⟨hfit.entry, hfit.document⟩
    obtain ⟨-, ⟨ms, hr⟩, hids⟩ := hs.pushStep hf hreach hfit' fun h' hlen => Nat.le_of_eq hlen.symm
    have hpending : SessionHistory.pending (s.history.pushStep f (·.frameLen f) url none
        (some state)).2 = s.history.pending := pending_pushStep ..
    have hnext : s.history.nextEntry ≤ SessionHistory.nextEntry (s.history.pushStep f
        (·.frameLen f) url none (some state)).2 := by
      rw [nextEntry_pushStep]
      exact le_saturatingSucc _
    have hpaired : Paired (s.history.pushStep f (·.frameLen f) url none (some state)).2 f
        s.store.pending := by
      refine hs.paired.of_ids (by rw [hpending]) hnext hnodup hids (fun i hmem => ?_) fun hnil => ?_
      · rw [List.mem_singleton.1 hmem]
      · rw [hnil] at hin
        cases hin
    exact hs.push (s.store.push .default) hi ⟨ms, hr.modifyEntry fun _ => rfl⟩ hids rfl hpaired

theorem Follows.discard (hs : Follows f s) : Ready f (ReplayOp.discard.apply f s) := by
  have hpaired : Paired { s.history with pending := s.history.pending.erase f } f
      (none : Option (PendingEntry Nav Doc)) := by
    rw [Paired, Dict.get?_erase, if_pos rfl]
  exact hs.keep s.store.discardPending (hs.inv.setPending (s.history.pending.erase f))
    (Keeps.refl f _) rfl hpaired

theorem Follows.other (hs : Follows f s) (hf : f ≠ FrameId.main) {op : HistoryOp}
    (hop : op.spares f = true) (hfit : (s.history.apply op).Fits) :
    Ready f ((ReplayOp.other op).apply f s) := by
  obtain ⟨ms, hr⟩ := hs.rising
  have hk := Keeps.apply hr hs.inv hf hop hfit
  obtain ⟨n, hn⟩ := hr.keeps hk
  have hids : (s.history.apply op).idsOf f = (s.history.idsOf f).take n ++ [] := by
    rw [hn.idsOf_eq, hr.idsOf_eq, List.map_take, List.append_nil]
  have hnodup : (s.history.idsOf f).Nodup := hr.idsOf_eq ▸ hr.nodup hs.inv
  have hpaired : Paired (s.history.apply op) f s.store.pending :=
    hs.paired.of_ids hk.pending (Grows.apply op).entry_le hnodup hids (by simp) fun _ => rfl
  exact hs.keep s.store (hs.inv.apply hfit) (p := s.history.pending) hk rfl hpaired

theorem history_note (id : Option EntryId) : (s.note id entry).history = s.history := by
  cases id <;> rfl

theorem history_deliver : (s.deliver f).history = s.history := by
  unfold Mirrored.deliver
  split <;> rfl

theorem Follows.apply (hs : Follows f s) (hf : f ≠ FrameId.main) {op : ReplayOp Nav Doc}
    (hop : ∀ o, op = .other o → o.spares f = true) (hc : op.Matched f s)
    (hfit : (op.apply f s).history.Fits) : Ready f (op.apply f s) := by
  cases op with
  | record entry replace url =>
    by_cases hload : url.scheme = "http".toList ∨ url.scheme = "https".toList
    · exact hs.record_load hf hload
    · refine hs.record_local hf hload ?_ hfit
      rcases hc with hc | hc | hc | hc
      · exact .inl hc
      · exact absurd (.inl hc) hload
      · exact absurd (.inr hc) hload
      · exact .inr hc
  | commit url =>
    refine hs.commit hf hc ?_
    simp only [ReplayOp.apply] at hfit
    split at hfit
    · rwa [history_note] at hfit
    · exact hfit
  | discard => exact hs.discard
  | pushSameDocument url state =>
    refine hs.pushSameDocument hf hc ?_
    simp only [ReplayOp.apply] at hfit
    rwa [history_note] at hfit
  | other op => exact hs.other hf (hop op rfl) hfit

theorem step_cases {op : ReplayOp Nav Doc} {s' : Mirrored Nav Doc}
    (hstep : ReplayOp.step f s op = some s') :
    (∀ o, op = .other o → o.spares f = true) ∧ s' = (op.apply f s).deliver f := by
  cases op with
  | other op =>
    simp only [ReplayOp.step] at hstep
    split_ifs at hstep with hop
    exact ⟨fun o ho => ReplayOp.other.inj ho ▸ hop, (Option.some.inj hstep).symm⟩
  | record entry replace url =>
    exact ⟨fun _ ho => (by cases ho), (Option.some.inj hstep).symm⟩
  | commit url => exact ⟨fun _ ho => (by cases ho), (Option.some.inj hstep).symm⟩
  | discard => exact ⟨fun _ ho => (by cases ho), (Option.some.inj hstep).symm⟩
  | pushSameDocument url state =>
    exact ⟨fun _ ho => (by cases ho), (Option.some.inj hstep).symm⟩

theorem fits_of_apply {op : ReplayOp Nav Doc} (hfit : (op.apply f s).history.Fits) :
    s.history.Fits := by
  cases op with
  | record entry replace url =>
    simp only [ReplayOp.apply] at hfit
    split_ifs at hfit
    · exact hfit.of_begin
    · rw [history_note] at hfit
      exact hfit.of_begin
  | commit url =>
    simp only [ReplayOp.apply] at hfit
    split at hfit
    · rw [history_note] at hfit
      exact hfit.of_commitUrl
    · exact hfit.of_commitUrl
  | discard => exact ⟨hfit.entry, hfit.document⟩
  | pushSameDocument url state =>
    simp only [ReplayOp.apply] at hfit
    rw [history_note] at hfit
    have hfit : (s.history.update f url state .push).Fits := hfit
    exact hfit.of_update
  | other op => exact hfit.of_apply

theorem fits_of_run {l : List (ReplayOp Nav Doc)} {s' : Mirrored Nav Doc}
    (hrun : run (ReplayOp.step f) s l = some s') (hfit : s'.history.Fits) : s.history.Fits := by
  induction l generalizing s with
  | nil => exact Option.some.inj hrun ▸ hfit
  | cons op l ih =>
    obtain ⟨s₁, hstep, hrun⟩ := run_cons hrun
    obtain ⟨-, rfl⟩ := step_cases hstep
    exact fits_of_apply (history_deliver ▸ ih hrun : (op.apply f s).history.Fits)

theorem along_fits {C : Mirrored Nav Doc → ReplayOp Nav Doc → Prop} {l : List (ReplayOp Nav Doc)}
    {s' : Mirrored Nav Doc} (hrun : run (ReplayOp.step f) s l = some s') (hfit : s'.history.Fits)
    (hc : Along (ReplayOp.step f) C s l) :
    Along (ReplayOp.step f) (fun s op => C s op ∧ (op.apply f s).history.Fits) s l := by
  induction l generalizing s with
  | nil => trivial
  | cons op l ih =>
    obtain ⟨s₁, hstep, hrun⟩ := run_cons hrun
    refine ⟨⟨hc.1, ?_⟩, fun s₂ hstep' => ?_⟩
    · obtain ⟨-, rfl⟩ := step_cases hstep
      exact history_deliver (s := op.apply f s) ▸ fits_of_run hrun hfit
    · obtain rfl := Option.some.inj (hstep.symm.trans hstep')
      exact ih hrun (hc.2 _ hstep)

theorem follows_seeded (hi : h.Inv) (hframed : h.Framed) (hf : f ≠ FrameId.main)
    (hnew : f ∉ h.frames.keys) {name : Option ContextName}
    (hfit : (h.addFrame f url name).Fits) :
    Follows f (seeded f h url name : Mirrored Nav Doc) := by
  have hadd : h.addFrame f url name = (h.insertEntry f h.currentStep 0 url name none).2 := by
    refine if_neg ?_
    rw [Bool.or_eq_true, not_or]
    refine ⟨by simpa using hf, fun hc => hnew ?_⟩
    exact (Dict.contains_iff _ _).1 hc
  have hnone : h.frames.get? f = none := by
    rw [Option.eq_none_iff_forall_ne_some]
    exact fun ids hids => hnew ((Dict.mem_keys_iff _ _).2 ⟨ids, hids⟩)
  have hframes : (h.addFrame f url name).frames.get? f = some [h.nextEntry] := by
    rw [hadd, frames_insertEntry, Dict.get?_insert, if_pos rfl, hnone]
    rfl
  have hpending : (h.addFrame f url name).pending.get? f = none := by
    rw [pending_addFrame, Option.eq_none_iff_forall_ne_some]
    intro c hc
    obtain ⟨ids, hids⟩ := hframed f c hc
    exact absurd (hnone.symm.trans hids) (by simp)
  have hids : (h.addFrame f url name).idsOf f = [h.nextEntry] := by
    rw [idsOf, hframes, Option.getD_some]
  refine Ready.deliver ⟨hi.addFrame hfit, ⟨[⟨h.nextEntry, h.currentStep, 0⟩], hframes, ?_, ?_⟩, ?_,
    hpending⟩
  · intro m hm
    rw [List.mem_singleton.1 hm, SessionHistory.slots, hadd, entries_insertEntry, List.map_append]
    exact List.mem_append_right _ (List.mem_singleton_self _)
  · exact List.pairwise_singleton _ _
  · rw [hids]
    rfl

/-- In a run of changes that both sides can make, the store follows the list after each. -/
theorem aligned_of_matched {blank : Url} {name name' : Option ContextName} {ops : List HistoryOp}
    (hf : f ≠ FrameId.main) (hnew : f ∉ ((new blank name).run ops).frames.keys)
    {l : List (ReplayOp Nav Doc)} {s' : Mirrored Nav Doc}
    (hrun : run (ReplayOp.step f) (seeded f ((new blank name).run ops) url name') l = some s')
    (hfit : s'.history.Fits)
    (hc : Along (ReplayOp.step f) (fun s op => op.Matched f s)
      (seeded f ((new blank name).run ops) url name') l) :
    Throughout (ReplayOp.step f) (Aligned f)
      (seeded f ((new blank name).run ops) url name') l := by
  have hadded : (((new blank name).run ops).addFrame f url name').Fits := by
    have hseeded := fits_of_run hrun hfit
    rwa [seeded, history_deliver] at hseeded
  have hinv := (Inv.new blank name).run (Fits.of_addFrame hadded)
  have hframed := Framed.run (h := new blank name) (fun g c hc => by simp [new] at hc) ops
  refine throughout_of_along (I := Follows f) (fun s => Follows.aligned) (fun s op s₁ hs hop hstep => ?_)
    (follows_seeded hinv hframed hf hnew hadded) (along_fits hrun hfit hc)
  obtain ⟨hspares, rfl⟩ := step_cases hstep
  exact (hs.apply hf hspares hop.1 hop.2).deliver

/-- A load, a push of a local document that replaces it, and a state of the frame's own. -/
def replaySample : List (ReplayOp Nat Nat) :=
  [.record ⟨some 1, none⟩ true .sample, .commit .sample,
    .record ⟨some 2, none⟩ false { Url.sample with scheme := "data".toList },
    .pushSameDocument .sample [], .other (.setCurrentStep (.delta (-2))),
    .record ⟨some 3, none⟩ false .sample, .commit .sample]

theorem aligned_of_matched_replaySample :
    Throughout (ReplayOp.step 1) (Aligned 1) (seeded 1 ((new .sample none).run []) .sample none)
      replaySample :=
  aligned_of_matched (by decide) (by decide +kernel)
    (Option.some_get (x := run (ReplayOp.step 1) (seeded 1 ((new .sample none).run []) .sample none)
      replaySample) (by decide +kernel)).symm ⟨by decide +kernel, by decide +kernel⟩ (by decide +kernel)

/-- A child frame is created at step 1. The tab goes back to step 0 and the frame loads a local
document, at step 1 again. -/
def strandedOps : List HistoryOp := [.update FrameId.main .sample [] .push]

def strandedRun : List (ReplayOp Nat Nat) :=
  [.other (.setCurrentStep (.delta (-1))),
    .record ⟨some 7, none⟩ false { Url.sample with scheme := "data".toList }]

/-- The browser has the frame's new entry and the store the payload of the one that is gone. -/
theorem not_aligned_strandedRun :
    ¬ Throughout (ReplayOp.step 1) (Aligned 1)
      (seeded 1 ((new .sample none).run strandedOps) .sample none) strandedRun := by
  intro h
  have ha := (h strandedRun [] _ rfl (Option.some_get (x := run (ReplayOp.step 1)
    (seeded 1 ((new .sample none).run strandedOps) .sample none) strandedRun)
      (by decide +kernel)).symm).payload 0
  revert ha
  decide +kernel

end Mirrored

end TinyBrowser
