import TinyBrowser.Document.Timers

/-!
# Timers fire once, in order, and not after a clear

A callback runs at most once. It does not run after its timer was cleared, as long as a clear leaves no
other timer of its id behind. And callbacks run in the order in which their timers were scheduled, where
the later delay is no shorter, as long as among timers of one reading of the clock and one delay the
first is picked first.
-/

namespace TinyBrowser
open Lib Lib.Machine Timers

namespace TimerRun
variable {latest : Instant} {r r' : TimerRun} {event : TimerEvent}

/-! ### What a step adds to the marks -/

theorem marks_step (h : step latest r event = some r') :
    (∃ id jsId rest, r.state.tasks = .timer id :: rest ∧ r.state.firing id = some jsId ∧
      r'.marks = .fired id jsId :: r.marks) ∨
    (∃ now request rest, event = .adopt now ∧ r.state.outbox = request :: rest ∧
      r'.marks = requestMark now r.state.nextTimerId request ++ r.marks) ∨
    r'.marks = r.marks := by
  cases event with
  | request request => cases h; exact .inr (.inr rfl)
  | queue => cases h; exact .inr (.inr rfl)
  | adopt now =>
    rw [step] at h
    split at h
    · cases h
    cases houtbox : r.state.outbox with
    | nil => rw [adoptNext, houtbox] at h; cases h
    | cons request rest =>
      obtain rfl := adoptNext_eq houtbox h
      exact .inr (.inl ⟨now, request, rest, rfl, rfl, rfl⟩)
  | due id now =>
    rw [step] at h
    split at h <;> cases h
    exact .inr (.inr rfl)
  | armRefresh delay now =>
    rw [step] at h
    split at h <;> cases h
    exact .inr (.inr rfl)
  | run =>
    rw [step, runTask] at h
    split at h
    · cases h
    · cases h; exact .inr (.inr rfl)
    next id rest htasks =>
      cases h
      cases hfiring : r.state.firing id with
      | none => exact .inr (.inr rfl)
      | some jsId => exact .inl ⟨id, jsId, rest, htasks, hfiring, rfl⟩

theorem callbacks_step {P : List TimerMark → TimerId → Prop} (hcallbacks : Callbacks P r.marks)
    (h : step latest r event = some r')
    (hP : ∀ id jsId rest, r.state.tasks = .timer id :: rest → r.state.firing id = some jsId →
      P r.marks id) : Callbacks P r'.marks := by
  obtain ⟨id, jsId, rest, htasks, hfiring, heq⟩ | ⟨now, request, rest, -, -, heq⟩ | heq := marks_step h
  · rw [heq]
    exact ⟨hP id jsId rest htasks hfiring, hcallbacks⟩
  · rw [heq]
    cases request <;> exact hcallbacks
  · rwa [heq]

variable {id : TimerId}

theorem live_of_firing {jsId : PageTimerId} (h : r.state.firing id = some jsId) :
    r.state.timers.get? id ≠ none := by
  intro hnone
  rw [firing, hnone] at h
  cases h

/-! ### Once -/

theorem Sound.once_step (hsound : r.Sound latest) (h : TimerRun.step latest r event = some r')
    (honce : Callbacks (fun past id => ¬Fired past id) r.marks) :
    Callbacks (fun past id => ¬Fired past id) r'.marks :=
  callbacks_step honce h fun _ _ _ _ hfiring hfired =>
    live_of_firing hfiring (hsound.fired hfired).1

/-! ### Not after a clear -/

/-- A clear that is applied finds no live timer of its id but the one that the id names. -/
def ClearsAll (r : TimerRun) : TimerEvent → Prop
  | .adopt _ => ∀ jsId rest, r.state.outbox = .clearTimer jsId :: rest → ∀ id timer,
      r.state.timers.get? id = some timer → timer.jsId = some jsId → r.state.jsTimers.get? jsId = some id
  | _ => True

/-- What was cleared is gone. -/
def ClearedGone (r : TimerRun) : Prop := ∀ id, Cleared r.marks id → r.state.timers.get? id = none

/-- A timer that was scheduled and is gone stays away. -/
theorem get?_step (h : TimerRun.step latest r event = some r')
    (hid : id < r.state.nextTimerId) (hnone : r.state.timers.get? id = none) :
    r'.state.timers.get? id = none := by
  have hschedule : ∀ now delay jsId,
      (r.state.scheduleTimer latest now delay jsId).timers.get? id = none := by
    intro now delay jsId
    rw [scheduleTimer, Dict.get?_insert, if_neg hid.ne]
    exact hnone
  cases event with
  | request request => cases h; exact hnone
  | queue => cases h; exact hnone
  | adopt now =>
    rw [step] at h
    split at h
    · cases h
    cases houtbox : r.state.outbox with
    | nil => rw [adoptNext, houtbox] at h; cases h
    | cons request rest =>
      obtain rfl := adoptNext_eq houtbox h
      cases request with
      | timer jsId delay => exact hschedule now delay (some jsId)
      | other => exact hnone
      | clearTimer jsId =>
        simp only [applyRealmRequest]
        split
        · simp [hnone]
        · exact hnone
  | due id' now =>
    rw [step] at h
    split at h <;> cases h
    simp only [pick, Dict.get?_modify]
    split
    · rw [hnone]
      rfl
    · exact hnone
  | armRefresh delay now =>
    rw [step] at h
    split at h <;> cases h
    exact hschedule now delay none
  | run =>
    rw [step, runTask] at h
    split at h
    · cases h
    · cases h; exact hnone
    · cases h
      simp [runTimer, hnone]

theorem cleared_step (h : TimerRun.step latest r event = some r')
    (hcleared : Cleared r'.marks id) : Cleared r.marks id ∨ ∃ now jsId rest now' delay,
      event = .adopt now ∧ r.state.outbox = .clearTimer jsId :: rest ∧
        .scheduled id jsId now' delay ∈ r.marks := by
  obtain ⟨_, _, _, _, _, heq⟩ | ⟨now, request, rest, hevent, houtbox, heq⟩ | heq := marks_step h
  · rw [heq] at hcleared
    exact .inl (hcleared.of_cons.resolve_right (by rintro ⟨_, _, _, ⟨⟩, _⟩))
  · rw [heq] at hcleared
    cases request with
    | timer => exact .inl (hcleared.of_cons.resolve_right (by rintro ⟨_, _, _, ⟨⟩, _⟩))
    | other => exact .inl hcleared
    | clearTimer jsId =>
      obtain hold | ⟨_, now', delay, heq, hmem⟩ := hcleared.of_cons
      · exact .inl hold
      · cases heq
        exact .inr ⟨now, jsId, rest, now', delay, hevent, houtbox, hmem⟩
  · rw [heq] at hcleared
    exact .inl hcleared

theorem Sound.clearedGone_step (hsound : r.Sound latest) (h : TimerRun.step latest r event = some r')
    (hgone : r.ClearedGone) (hclears : r.ClearsAll event) : r'.ClearedGone := by
  intro id hcleared
  obtain hold | ⟨now, jsId, rest, now', delay, rfl, houtbox, hmem⟩ := cleared_step h hcleared
  · have hgoneId := hgone id hold
    obtain ⟨_, _, _, hsub⟩ := hold
    exact get?_step h (hsound.mark (hsub.subset (List.mem_cons_of_mem _ List.mem_cons_self))).1
      hgoneId
  · cases htimer : r.state.timers.get? id with
    | none => exact get?_step h (hsound.mark hmem).1 htimer
    | some timer =>
      have hnamed := hclears jsId rest houtbox id timer htimer (hsound.timer hmem htimer).1
      rw [TimerRun.step] at h
      split at h
      · cases h
      obtain rfl := adoptNext_eq houtbox h
      simp only [applyRealmRequest, hnamed, Dict.get?_erase, if_true]

theorem uncleared_step (h : step latest r event = some r') (hgone : r.ClearedGone)
    (huncleared : Callbacks (fun past id => ¬Cleared past id) r.marks) :
    Callbacks (fun past id => ¬Cleared past id) r'.marks :=
  callbacks_step huncleared h fun id _ _ _ hfiring hcleared =>
    live_of_firing hfiring (hgone id hcleared)

/-- A timer that is requested does not take the id of a live one. -/
def FreshIds (r : TimerRun) : TimerEvent → Prop
  | .adopt _ => ∀ jsId delay rest, r.state.outbox = .timer jsId delay :: rest →
      r.state.jsTimers.get? jsId = none
  | _ => True

/-- Every live timer is found under its id. -/
def AllNamed (r : TimerRun) : Prop := ∀ {id timer jsId}, r.state.timers.get? id = some timer →
  timer.jsId = some jsId → r.state.jsTimers.get? jsId = some id

theorem AllNamed.adopt {now : Instant} (hnamed : r.AllNamed) (hfresh : r.FreshIds (.adopt now))
    (h : r.adoptNext latest now = some r') : r'.AllNamed := by
  intro id timer jsId htimer hjsId
  cases houtbox : r.state.outbox with
  | nil => rw [adoptNext, houtbox] at h; cases h
  | cons request rest =>
    obtain rfl := adoptNext_eq houtbox h
    cases request with
    | other => exact hnamed htimer hjsId
    | timer jsId' delay =>
      simp only [applyRealmRequest, scheduleTimer, Dict.get?_insert] at htimer ⊢
      split at htimer
      next heq =>
        cases htimer
        cases hjsId
        rw [if_pos rfl, heq]
      · have hold := hnamed htimer hjsId
        rw [if_neg fun heq => ?_]
        · exact hold
        · rw [heq, hfresh jsId' delay rest houtbox] at hold
          cases hold
    | clearTimer jsId' =>
      simp only [applyRealmRequest] at htimer ⊢
      split at htimer
      next id' hid' =>
        rw [Dict.get?_erase] at htimer ⊢
        split at htimer
        · cases htimer
        next hne =>
          have hold := hnamed htimer hjsId
          rw [if_neg fun heq => ?_]
          · exact hold
          · rw [heq, hid'] at hold
            exact hne (Option.some.inj hold).symm
      · exact hnamed htimer hjsId

theorem AllNamed.step (hnamed : r.AllNamed) (hfresh : r.FreshIds event)
    (h : TimerRun.step latest r event = some r') : r'.AllNamed := by
  cases event with
  | request request => cases h; exact hnamed
  | queue => cases h; exact hnamed
  | adopt now =>
    rw [TimerRun.step] at h
    split at h
    · cases h
    · exact hnamed.adopt hfresh h
  | due id now =>
    rw [TimerRun.step] at h
    split at h <;> cases h
    intro id' timer jsId htimer hjsId
    obtain ⟨timer', htimer', rfl⟩ := get?_pick.1 htimer
    exact hnamed htimer' (by split at hjsId <;> exact hjsId)
  | armRefresh delay now =>
    rw [TimerRun.step] at h
    split at h <;> cases h
    intro id timer jsId htimer hjsId
    simp only [scheduleTimer, Dict.get?_insert] at htimer
    split at htimer
    · cases htimer
      cases hjsId
    · exact hnamed htimer hjsId
  | run =>
    rw [TimerRun.step, runTask] at h
    split at h
    · cases h
    · cases h; exact hnamed
    next id rest htasks =>
      cases h
      intro id' timer jsId htimer hjsId
      simp only [runTimer, Dict.get?_erase] at htimer
      split at htimer
      · cases htimer
      next hne =>
        have hold := hnamed htimer hjsId
        change ((r.state.firing id).elim r.state.jsTimers r.state.jsTimers.erase).get? jsId = _
        cases hfiring : r.state.firing id with
        | none => exact hold
        | some jsId' =>
          rw [Option.elim_some, Dict.get?_erase, if_neg fun heq => ?_]
          · exact hold
          · obtain ⟨timer', htimer', hjsId'⟩ := Option.bind_eq_some_iff.1 hfiring
            rw [heq, hnamed htimer' hjsId'] at hold
            exact hne (Option.some.inj hold).symm

theorem AllNamed.clearsAll (hnamed : r.AllNamed) : r.ClearsAll event := by
  cases event with
  | adopt => exact fun _ _ _ _ _ => hnamed
  | _ => trivial

/-! ### In order -/

/-- Of the waiting timers of one reading of the clock and one delay the first is picked first. -/
def PicksFirst (r : TimerRun) : TimerEvent → Prop
  | .due id _ => ∀ p timer, r.state.timers.get? p = some timer → timer.fired = false →
      ∀ jsId jsId' now delay,
        ¬[.scheduled id jsId' now delay, .scheduled p jsId now delay].Sublist r.marks
  | _ => True

/-- No timer waits, or is queued, behind one that it precedes. -/
structure Ordered (r : TimerRun) : Prop where
  waiting : ∀ {q p timer}, .timer q ∈ r.state.tasks → r.state.timers.get? p = some timer →
    timer.fired = false → ¬Precedes r.marks p q
  queued : r.state.tasks.Pairwise fun a b => ∀ q p, a = .timer q → b = .timer p →
    r.state.timers.get? p ≠ none → ¬Precedes r.marks p q

theorem Sound.mark_of_precedes (hsound : r.Sound latest) {p q : TimerId} (h : Precedes r.marks p q) :
    p < r.state.nextTimerId ∧ p ≠ q := by
  obtain ⟨jsId, now, delay, jsId', now', delay', -, hsub⟩ := h
  have hsorted := hsound.sorted.sublist hsub
  exact ⟨(hsound.mark (hsub.subset (List.mem_cons_of_mem _ List.mem_cons_self))).1,
    ((List.pairwise_cons.1 hsorted).1 _ List.mem_cons_self).1.ne⟩

theorem Ordered.of_sublist (ho : r.Ordered) (htasks : r'.state.tasks.Sublist r.state.tasks)
    (hlive : ∀ p timer, r'.state.timers.get? p = some timer →
      (∃ timer', r.state.timers.get? p = some timer' ∧ timer'.fired = timer.fired) ∨
        ∀ q, ¬Precedes r.marks p q)
    (hprecedes : ∀ p q, .timer q ∈ r.state.tasks → Precedes r'.marks p q → Precedes r.marks p q) :
    r'.Ordered where
  waiting := by
    intro q p timer hq hp hfired hprec
    have hold := hprecedes p q (htasks.subset hq) hprec
    obtain ⟨timer', hp', heq⟩ | hnew := hlive p timer hp
    · exact ho.waiting (htasks.subset hq) hp' (heq.trans hfired) hold
    · exact hnew q hold
  queued := by
    have hqueued := List.Pairwise.sublist htasks ho.queued
    refine hqueued.imp_of_mem fun {a b} ha _ hold q p haq hbp hp hprec => ?_
    subst haq
    have hprec' := hprecedes p q (htasks.subset ha) hprec
    obtain ⟨timer, htimer⟩ := Option.ne_none_iff_exists'.1 hp
    obtain ⟨timer', hp', -⟩ | hnew := hlive p timer htimer
    · exact hold q p rfl hbp (by rw [hp']; exact Option.some_ne_none _) hprec'
    · exact hnew q hprec'

theorem Sound.not_precedes_next (hsound : r.Sound latest) (q : TimerId) :
    ¬Precedes r.marks r.state.nextTimerId q :=
  fun h => absurd (hsound.mark_of_precedes h).1 (Nat.lt_irrefl _)

theorem Sound.ordered_schedule (hsound : r.Sound latest) (ho : r.Ordered) (now : Instant)
    (delay : Nat) (jsId : Option PageTimerId) (marks : List TimerMark)
    (hprecedes : ∀ p q, .timer q ∈ r.state.tasks → Precedes marks p q → Precedes r.marks p q) :
    Ordered ⟨r.state.scheduleTimer latest now delay jsId, now, marks⟩ := by
  refine ho.of_sublist (List.Sublist.refl _) (fun p timer hp => ?_) hprecedes
  simp only [Timers.scheduleTimer, Dict.get?_insert] at hp
  split at hp
  next heq => exact .inr fun q => heq ▸ hsound.not_precedes_next q
  · exact .inl ⟨timer, hp, rfl⟩

theorem Sound.ordered_adopt (hsound : r.Sound latest) (ho : r.Ordered) {now : Instant}
    (h : r.adoptNext latest now = some r') : r'.Ordered := by
  cases houtbox : r.state.outbox with
  | nil => rw [TimerRun.adoptNext, houtbox] at h; cases h
  | cons request rest =>
    obtain rfl := adoptNext_eq houtbox h
    cases request with
    | other => exact { ho with }
    | timer jsId delay =>
      have hnew := hsound.ordered_schedule ho now delay (some jsId)
        (.scheduled r.state.nextTimerId jsId now delay :: r.marks) fun p q hq hprec =>
          hprec.of_cons fun jsId' now' delay' heq => by
            cases heq
            exact absurd (hsound.queued_number hq) (Nat.lt_irrefl _)
      exact { hnew with }
    | clearTimer jsId =>
      refine ho.of_sublist ?_ (fun p timer hp => .inl ?_) fun p q _ hprec =>
        hprec.of_cons (by rintro _ _ _ ⟨⟩)
      · simp only [applyRealmRequest]
        split <;> exact List.Sublist.refl _
      · simp only [applyRealmRequest] at hp
        split at hp
        · rw [Dict.get?_erase] at hp
          split at hp
          · cases hp
          · exact ⟨timer, hp, rfl⟩
        · exact ⟨timer, hp, rfl⟩

theorem checkedAdd_mono {t t' d d' when : Nat} (ht : t ≤ t') (hd : d ≤ d')
    (h : checkedAdd latest t' d' = some when) :
    ∃ when', checkedAdd latest t d = some when' ∧ when' ≤ when ∧ (when ≤ when' → t = t' ∧ d = d') := by
  simp only [checkedAdd, Option.ite_none_right_eq_some, Option.some.injEq] at h ⊢
  obtain ⟨hle, rfl⟩ := h
  have hadd : t + d ≤ t' + d' := Nat.add_le_add ht hd
  have hequal : t' + d' ≤ t + d → t = t' ∧ d = d' := by omega
  exact ⟨t + d, ⟨hadd.trans hle, rfl⟩, hadd, hequal⟩

theorem Sound.not_precedes_picked (hsound : r.Sound latest) {id p : TimerId} {now : Instant}
    {timer : Timer} (hpick : r.state.MayPick now id) (hfirst : r.PicksFirst (.due id now))
    (hp : r.state.timers.get? p = some timer) (hfired : timer.fired = false) :
    ¬Precedes r.marks p id := by
  rintro ⟨jsId, t, d, jsId', t', d', hle, hsub⟩
  have hlater := (List.pairwise_cons.1 (hsound.sorted.sublist hsub)).1 _ List.mem_cons_self
  have hpmark := hsub.subset (List.mem_cons_of_mem _ List.mem_cons_self)
  obtain ⟨⟨_, when⟩, hdue, rfl, hmin⟩ := hpick
  obtain ⟨picked, hpicked, -, hwhen, hnow⟩ := mem_due.1 hdue
  have hpickedWhen := (hsound.timer (hsub.subset List.mem_cons_self) hpicked).2
  rw [hwhen] at hpickedWhen
  obtain ⟨when', hwhen', hearlier, hequal⟩ := checkedAdd_mono hlater.2 hle hpickedWhen.symm
  have htimer := (hsound.timer hpmark hp).2.trans hwhen'
  have hlast := hmin (p, when') (mem_due.2 ⟨timer, hp, hfired, htimer, hearlier.trans hnow⟩)
  obtain ⟨rfl, rfl⟩ := hequal hlast
  exact hfirst p timer hp hfired jsId jsId' t d hsub

theorem Sound.ordered_due (hsound : r.Sound latest) (ho : r.Ordered) {now : Instant}
    (hpick : r.state.MayPick now id) (hfirst : r.PicksFirst (.due id now)) :
    Ordered { r with state := r.state.pick id, now := now } where
  waiting := by
    intro q p timer hq hp hfired
    obtain ⟨timer', hp', rfl⟩ := get?_pick.1 hp
    have hunfired : timer'.fired = false := by
      split at hfired
      · cases hfired
      · exact hfired
    rcases List.mem_append.1 hq with hq | hq
    · exact ho.waiting hq hp' hunfired
    · cases List.mem_singleton.1 hq
      exact hsound.not_precedes_picked hpick hfirst hp' hunfired
  queued := by
    refine List.pairwise_append.2 ⟨ho.queued.imp fun {a b} hold q p ha hb hp => ?_,
      List.pairwise_singleton _ _, fun a ha b hb q p haq hbp _ => ?_⟩
    · obtain ⟨timer, htimer⟩ := Option.ne_none_iff_exists'.1 hp
      obtain ⟨timer', hp', -⟩ := get?_pick.1 htimer
      exact hold q p ha hb (by rw [hp']; exact Option.some_ne_none _)
    · obtain ⟨⟨_, when⟩, hdue, rfl, -⟩ := hpick
      obtain ⟨picked, hpicked, hfired, -⟩ := mem_due.1 hdue
      cases List.mem_singleton.1 hb
      cases hbp
      exact ho.waiting (haq ▸ ha) hpicked hfired

theorem ordered_run (ho : r.Ordered) (h : r.runTask = some r') : r'.Ordered := by
  rw [runTask] at h
  split at h
  · cases h
  next rest htasks =>
    cases h
    exact ho.of_sublist (by rw [htasks]; exact List.sublist_cons_self _ _)
      (fun p timer hp => .inl ⟨timer, hp, rfl⟩) fun _ _ _ hprec => hprec
  next id rest htasks =>
    cases h
    refine ho.of_sublist (by rw [htasks]; exact List.sublist_cons_self _ _) (fun p timer hp => .inl ?_)
      fun p q _ hprec => ?_
    · simp only [runTimer, Dict.get?_erase] at hp
      split at hp
      · cases hp
      · exact ⟨timer, hp, rfl⟩
    · change Precedes ((r.state.firing id).elim r.marks _) p q at hprec
      cases hfiring : r.state.firing id with
      | none => rwa [hfiring] at hprec
      | some jsId =>
        rw [hfiring] at hprec
        exact hprec.of_cons (by rintro _ _ _ ⟨⟩)

theorem Sound.ordered_step (hsound : r.Sound latest) (h : TimerRun.step latest r event = some r')
    (ho : r.Ordered) (hfirst : r.PicksFirst event) : r'.Ordered := by
  cases event with
  | request request => cases h; exact { ho with }
  | queue =>
    cases h
    exact {
      waiting := fun hq => ho.waiting (by simpa using hq)
      queued := List.pairwise_append.2 ⟨ho.queued, List.pairwise_singleton _ _,
        fun _ _ b hb _ p _ hbp => by
          rw [List.mem_singleton.1 hb] at hbp
          cases hbp⟩ }
  | adopt now =>
    rw [TimerRun.step] at h
    split at h
    · cases h
    · exact hsound.ordered_adopt ho h
  | due id now =>
    rw [TimerRun.step] at h
    split at h
    · cases h
    next hpick =>
      rw [not_or, not_not] at hpick
      cases h
      exact hsound.ordered_due ho hpick.2 hfirst
  | run => exact ordered_run ho h
  | armRefresh delay now =>
    rw [TimerRun.step] at h
    split at h
    · cases h
    · cases h
      exact { hsound.ordered_schedule ho now delay none r.marks
        fun _ _ _ hprec => hprec with }

/-- Of all waiting timers the one of the least number is picked. -/
def picksLeast (r : TimerRun) : TimerEvent → Bool
  | .due id _ => r.state.timers.pairs.all fun x => x.2.fired || id ≤ x.1
  | _ => true

theorem Sound.picksFirst (hsound : r.Sound latest) (hleast : r.picksLeast event = true) :
    r.PicksFirst event := by
  cases event with
  | due id now =>
    intro p timer hp hfired jsId jsId' now delay hsub
    have hle : id ≤ p := by
      simpa [hfired] using List.all_eq_true.1 hleast (p, timer) ((Dict.get?_eq_some_iff _ _ _).1 hp)
    have hlater := (List.pairwise_cons.1 (hsound.sorted.sublist hsub)).1 _ List.mem_cons_self
    exact (Nat.lt_of_lt_of_le hlater.1 hle).false
  | _ => trivial

theorem Sound.inTurn (hsound : r.Sound latest) (ho : r.Ordered) {rest : List TimerTask}
    (htasks : r.state.tasks = .timer id :: rest) : InTurn r.marks id := by
  intro p hprec
  obtain ⟨jsId, now, delay, hpmark⟩ : ∃ jsId now delay, .scheduled p jsId now delay ∈ r.marks := by
    obtain ⟨jsId, now, delay, _, _, _, _, hsub⟩ := hprec
    exact ⟨jsId, now, delay, hsub.subset (List.mem_cons_of_mem _ List.mem_cons_self)⟩
  cases hp : r.state.timers.get? p with
  | none => exact hsound.gone hpmark hp
  | some timer =>
    cases hfired : timer.fired with
    | false => exact absurd hprec (ho.waiting (by rw [htasks]; exact List.mem_cons_self) hp hfired)
    | true =>
      have hqueued := ho.queued
      have hmem := (hsound.queued hp).1 hfired
      rw [htasks] at hqueued hmem
      have hrest := (List.mem_cons.1 hmem).resolve_left fun heq =>
        (hsound.mark_of_precedes hprec).2 (TimerTask.timer.inj heq)
      exact absurd hprec ((List.pairwise_cons.1 hqueued).1 _ hrest id p rfl rfl
        (by rw [hp]; exact Option.some_ne_none _))

theorem Sound.inTurn_step (hsound : r.Sound latest) (h : TimerRun.step latest r event = some r')
    (ho : r.Ordered) (hturn : Callbacks InTurn r.marks) : Callbacks InTurn r'.marks :=
  callbacks_step hturn h fun _ _ _ htasks _ => hsound.inTurn ho htasks

end TimerRun

/-! ### Every run -/

theorem callbacks_init {P : List TimerMark → TimerId → Prop} : Callbacks P TimerRun.init.marks := trivial

/-- In every run a callback runs at most once; not after its clear, where every clear finds the timers of
its id, as it does where no timer takes the id of a live one; and in turn, where of the timers of one
reading and one delay the first is picked first. -/
theorem timers_once_uncleared_in_turn {latest : Instant} {events : List TimerEvent} {r : TimerRun}
    (h : run (TimerRun.step latest) .init events = some r) :
    Callbacks (fun past id => ¬Fired past id) r.marks ∧
    (Along (TimerRun.step latest) TimerRun.ClearsAll .init events →
      Callbacks (fun past id => ¬Cleared past id) r.marks) ∧
    (Along (TimerRun.step latest) TimerRun.FreshIds .init events →
      Along (TimerRun.step latest) TimerRun.ClearsAll .init events) ∧
    (Along (TimerRun.step latest) TimerRun.PicksFirst .init events → Callbacks InTurn r.marks) := by
  refine ⟨?_, fun hclears => ?_, fun hfresh => ?_, fun hfirst => ?_⟩
  · exact (inv_run (I := fun r => r.Sound latest ∧ Callbacks (fun past id => ¬Fired past id) r.marks)
      (fun _ _ _ hi hstep => ⟨hi.1.step hstep, hi.1.once_step hstep hi.2⟩)
      ⟨TimerRun.sound_init, callbacks_init⟩ h).2
  · exact (inv_run_along (I := fun r => r.Sound latest ∧ r.ClearedGone ∧
        Callbacks (fun past id => ¬Cleared past id) r.marks)
      (fun _ _ _ hi hc hstep => ⟨hi.1.step hstep, hi.1.clearedGone_step hstep hi.2.1 hc,
        TimerRun.uncleared_step hstep hi.2.1 hi.2.2⟩)
      ⟨TimerRun.sound_init, by rintro _ ⟨_, _, _, ⟨⟩⟩, callbacks_init⟩ hclears h).2.2
  · exact hfresh.imp_of_inv (I := TimerRun.AllNamed) (fun _ _ hnamed _ => hnamed.clearsAll)
      (fun _ _ _ hnamed hc hstep => hnamed.step hc hstep) (by rintro _ _ _ ⟨⟩)
  · exact (inv_run_along (I := fun r => r.Sound latest ∧ r.Ordered ∧ Callbacks InTurn r.marks)
      (fun _ _ _ hi hc hstep => ⟨hi.1.step hstep, hi.1.ordered_step hstep hi.2.1 hc,
        hi.1.inTurn_step hstep hi.2.1 hi.2.2⟩)
      ⟨TimerRun.sound_init, ⟨by rintro _ _ _ ⟨⟩, List.Pairwise.nil⟩, callbacks_init⟩ hfirst h).2.2

/-- Two timers of one reading and no delay fire in turn; a third is cleared while its task is queued. -/
theorem timers_in_turn_tied : ∃ r, run (TimerRun.step 100) .init
    [.request (.timer 1 0), .request (.timer 2 0), .request (.timer 3 0), .request (.clearTimer 3),
      .adopt 7, .adopt 7, .adopt 7, .due 0 7, .due 1 7, .due 2 7, .adopt 7, .run, .run, .run] = some r ∧
    r.marks = [.fired 1 2, .fired 0 1, .cleared 3, .scheduled 2 3 7 0, .scheduled 1 2 7 0,
      .scheduled 0 1 7 0] ∧
    Callbacks (fun past id => ¬Fired past id) r.marks ∧
    Callbacks (fun past id => ¬Cleared past id) r.marks ∧ Callbacks InTurn r.marks := by
  obtain ⟨r, hrun, hmarks⟩ : ∃ r, run (TimerRun.step 100) .init
      [.request (.timer 1 0), .request (.timer 2 0), .request (.timer 3 0), .request (.clearTimer 3),
        .adopt 7, .adopt 7, .adopt 7, .due 0 7, .due 1 7, .due 2 7, .adopt 7, .run, .run, .run] =
      some r ∧ r.marks = [.fired 1 2, .fired 0 1, .cleared 3, .scheduled 2 3 7 0, .scheduled 1 2 7 0,
        .scheduled 0 1 7 0] := ⟨_, rfl, rfl⟩
  obtain ⟨honce, huncleared, hclears, hturn⟩ := timers_once_uncleared_in_turn hrun
  refine ⟨r, hrun, hmarks, honce, huncleared (hclears ?_), hturn ?_⟩
  · repeat' first
      | exact trivial
      | refine ⟨trivial, fun _ h => ?_⟩; cases h
      | refine ⟨by rintro _ _ _ ⟨⟩; rfl, fun _ h => ?_⟩; cases h
      | refine ⟨by rintro _ _ _ ⟨⟩, fun _ h => ?_⟩; cases h
  · exact Along.imp_of_inv (C := fun r event => r.picksLeast event = true) (I := TimerRun.Sound 100)
      (fun _ _ hsound => hsound.picksFirst) (fun _ _ _ hsound _ => hsound.step) TimerRun.sound_init
      (by decide)

/-- Two timers of one reading of the clock and no delay, of which the second is picked first. -/
theorem not_in_turn_equal_deadlines : ∃ r, run (TimerRun.step 100) .init
    [.request (.timer 1 0), .request (.timer 2 0), .adopt 0, .adopt 0, .due 1 0, .due 0 0, .run, .run] =
      some r ∧ ¬Callbacks InTurn r.marks := by
  refine ⟨_, rfl, fun hturn => ?_⟩
  have hcallback : InTurn [.scheduled 1 2 0 0, .scheduled 0 1 0 0] 1 := hturn.2.1
  obtain ⟨_, _, _, hsub⟩ | ⟨_, hmem⟩ := hcallback 0 ⟨1, 0, 0, 2, 0, 0, le_rfl, List.Sublist.refl _⟩
  · simpa using hsub.subset List.mem_cons_self
  · simp at hmem

end TinyBrowser
