import Mathlib.Data.List.Basic
import Mathlib.Data.List.Nodup

/-!
# Runs of adjacent texts

Some elements of a list have a text. A pass over the list leaves out those whose text is empty and
merges each other one into the first of its run, which ends at an element without a text. `merges`
lists what it merges into what, `dropped` what it leaves out; no text is lost (`flatMap_kept`), and
what the first of a run gains is what follows it in the run (`gained_merges_eq`).
-/

namespace Lib.Runs

variable {α β : Type} (text : α → Option (List β))

/-- The first of the run, and what is merged into it, for each merge of the pass; `first` is the
first of a run that has begun. -/
def merges : Option α → List α → List (α × α)
  | _, [] => []
  | first, x :: l => match text x, first with
    | none, _ => merges none l
    | some [], first => merges first l
    | some (_ :: _), none => merges (some x) l
    | some (_ :: _), some p => (p, x) :: merges (some p) l

def dropped : Option α → List α → List α
  | _, [] => []
  | first, x :: l => match text x, first with
    | none, _ => dropped none l
    | some [], first => x :: dropped first l
    | some (_ :: _), none => dropped (some x) l
    | some (_ :: _), some p => x :: dropped (some p) l

def textOf (x : α) : List β := (text x).getD []

/-- What `x` gains by the merges of `pairs`. -/
def gained [DecidableEq α] (pairs : List (α × α)) (x : α) : List β :=
  (pairs.filter (·.1 = x)).flatMap fun pair => textOf text pair.2

/-- What each element gains by the rule: the first of a run with a text that is not empty gains the
texts that follow it in the run. -/
def gains [DecidableEq α] : List α → α → List β
  | [] => fun _ => []
  | x :: l =>
    if textOf text x = [] then gains l
    else Function.update (gains (l.dropWhile fun y => (text y).isSome)) x
      ((l.takeWhile fun y => (text y).isSome).flatMap (textOf text))
termination_by l => l.length
decreasing_by
  · simp
  · have := (List.dropWhile_sublist (l := l) fun y => (text y).isSome).length_le
    simp only [List.length_cons]
    omega

variable {text} {first : Option α} {l : List α} {x : α}

theorem dropped_cons (first : Option α) (x : α) (l : List α) : dropped text first (x :: l) =
    match text x, first with
    | none, _ => dropped text none l
    | some [], first => x :: dropped text first l
    | some (_ :: _), none => dropped text (some x) l
    | some (_ :: _), some p => x :: dropped text (some p) l := by
  rw [dropped.eq_def]

theorem merges_cons (first : Option α) (x : α) (l : List α) : merges text first (x :: l) =
    match text x, first with
    | none, _ => merges text none l
    | some [], first => merges text first l
    | some (_ :: _), none => merges text (some x) l
    | some (_ :: _), some p => (p, x) :: merges text (some p) l := by
  rw [merges.eq_def]

theorem mem_merges {pair : α × α} (h : pair ∈ merges text first l) :
    (first = some pair.1 ∨ pair.1 ∈ l ∧ textOf text pair.1 ≠ []) ∧
      pair.2 ∈ l ∧ textOf text pair.2 ≠ [] := by
  have htail : ∀ {y : α} {l : List α}, pair.1 ∈ l ∧ textOf text pair.1 ≠ [] →
      pair.1 ∈ y :: l ∧ textOf text pair.1 ≠ [] := And.imp_left (List.mem_cons_of_mem _)
  fun_induction merges text first l with
  | case1 => cases h
  | case2 first x l htext ih =>
    obtain ⟨h₁, h₂, h₃⟩ := ih h
    exact ⟨.inr (htail (h₁.resolve_left nofun)), List.mem_cons_of_mem _ h₂, h₃⟩
  | case3 x l first htext ih =>
    obtain ⟨h₁, h₂, h₃⟩ := ih h
    exact ⟨h₁.imp_right htail, List.mem_cons_of_mem _ h₂, h₃⟩
  | case4 x l b text htext ih =>
    obtain ⟨h₁, h₂, h₃⟩ := ih h
    refine ⟨.inr ?_, List.mem_cons_of_mem _ h₂, h₃⟩
    rcases h₁ with he | hm
    · rw [← Option.some.inj he]
      exact ⟨List.mem_cons_self, by simp [textOf, htext]⟩
    · exact htail hm
  | case5 x l b text p htext ih =>
    rcases List.mem_cons.1 h with rfl | h
    · exact ⟨.inl rfl, List.mem_cons_self, by simp [textOf, htext]⟩
    · obtain ⟨h₁, h₂, h₃⟩ := ih h
      exact ⟨h₁.imp_right htail, List.mem_cons_of_mem _ h₂, h₃⟩

theorem mem_of_mem_dropped (h : x ∈ dropped text first l) : x ∈ l ∧ (text x).isSome = true := by
  fun_induction dropped text first l with
  | case1 => cases h
  | case2 first y l htext ih => exact (ih h).imp_left (List.mem_cons_of_mem _)
  | case3 y l first htext ih =>
    rcases List.mem_cons.1 h with rfl | h
    · exact ⟨List.mem_cons_self, by simp [htext]⟩
    · exact (ih h).imp_left (List.mem_cons_of_mem _)
  | case4 y l b text htext ih => exact (ih h).imp_left (List.mem_cons_of_mem _)
  | case5 y l b text p htext ih =>
    rcases List.mem_cons.1 h with rfl | h
    · exact ⟨List.mem_cons_self, by simp [htext]⟩
    · exact (ih h).imp_left (List.mem_cons_of_mem _)

theorem merges_some (p : α) (l : List α) : merges text (some p) l =
    ((l.takeWhile fun y => (text y).isSome).filter fun y => !(textOf text y).isEmpty).map (p, ·) ++
      merges text none (l.dropWhile fun y => (text y).isSome) := by
  induction l with
  | nil => rfl
  | cons x l ih =>
    rw [merges_cons]
    cases htext : text x with
    | none =>
      rw [List.takeWhile_cons_of_neg (by simp [htext]), List.dropWhile_cons_of_neg (by simp [htext]),
        merges_cons, htext]
      rfl
    | some units =>
      rw [List.takeWhile_cons_of_pos (by simp [htext]), List.dropWhile_cons_of_pos (by simp [htext])]
      cases units with
      | nil =>
        rw [List.filter_cons_of_neg (by simp [textOf, htext])]
        exact ih
      | cons b units =>
        rw [List.filter_cons_of_pos (by simp [textOf, htext]), List.map_cons, List.cons_append]
        exact congrArg _ ih

theorem flatMap_filter_nonempty (l : List α) :
    (l.filter fun y => !(textOf text y).isEmpty).flatMap (textOf text) = l.flatMap (textOf text) := by
  induction l with
  | nil => rfl
  | cons x l ih =>
    rw [List.filter_cons]
    split
    · rw [List.flatMap_cons, List.flatMap_cons, ih]
    · rename_i h
      have hempty : textOf text x = [] := by simpa using h
      rw [List.flatMap_cons, ih, hempty, List.nil_append]

section
variable {text' : α → Option (List β)}

theorem merges_dropped_congr
    (h : ∀ y ∈ l, (text' y).map List.isEmpty = (text y).map List.isEmpty) (first : Option α) :
    merges text' first l = merges text first l ∧ dropped text' first l = dropped text first l := by
  induction l generalizing first with
  | nil => exact ⟨rfl, rfl⟩
  | cons x l ih =>
    obtain ⟨hx, hl⟩ := List.forall_mem_cons.1 h
    rw [merges_cons, merges_cons, dropped_cons, dropped_cons]
    cases htext : text x with
    | none =>
      rw [htext, Option.map_none, Option.map_eq_none_iff] at hx
      rw [hx]
      exact ih hl none
    | some units =>
      rw [htext, Option.map_some, Option.map_eq_some_iff] at hx
      obtain ⟨units', hx, hempty⟩ := hx
      rw [hx]
      cases units with
      | nil =>
        cases units' with
        | nil => exact ⟨(ih hl first).1, congrArg _ (ih hl first).2⟩
        | cons _ _ => cases hempty
      | cons _ _ =>
        cases units' with
        | nil => cases hempty
        | cons _ _ =>
          cases first with
          | none => exact ih hl (some x)
          | some p => exact ⟨congrArg _ (ih hl (some p)).1, congrArg _ (ih hl (some p)).2⟩

theorem merges_congr (h : ∀ y ∈ l, text' y = text y) (first : Option α) :
    merges text' first l = merges text first l :=
  (merges_dropped_congr (fun y hy => by rw [h y hy]) first).1

theorem dropped_congr (h : ∀ y ∈ l, text' y = text y) (first : Option α) :
    dropped text' first l = dropped text first l :=
  (merges_dropped_congr (fun y hy => by rw [h y hy]) first).2

end

variable [DecidableEq α]

theorem gained_congr {text' : α → Option (List β)} (h : ∀ y ∈ l, text' y = text y)
    (first : Option α) (x : α) :
    gained text' (merges text' first l) x = gained text (merges text first l) x := by
  rw [merges_congr h, gained, gained]
  refine List.flatMap_congr fun pair hp => ?_
  rw [textOf, textOf, h _ (mem_merges (List.mem_filter.1 hp).1).2.1]

theorem gained_cons (pair : α × α) (pairs : List (α × α)) (x : α) :
    gained text (pair :: pairs) x =
      if pair.1 = x then textOf text pair.2 ++ gained text pairs x else gained text pairs x := by
  rw [gained, List.filter_cons]
  split <;> rename_i h <;> simp only [decide_eq_true_eq] at h
  · rw [if_pos h]
    rfl
  · rw [if_neg h]
    rfl

theorem gained_append (pairs pairs' : List (α × α)) (x : α) :
    gained text (pairs ++ pairs') x = gained text pairs x ++ gained text pairs' x := by
  rw [gained, List.filter_append, List.flatMap_append]
  rfl

theorem gained_eq_nil {pairs : List (α × α)} (h : ∀ pair ∈ pairs, pair.1 ≠ x) :
    gained text pairs x = [] := by
  rw [gained, List.filter_eq_nil_iff.2 fun pair hp => by simpa using h pair hp, List.flatMap_nil]

theorem gained_of_notMem (hx : x ∉ l) (hfirst : first ≠ some x) :
    gained text (merges text first l) x = [] := by
  refine gained_eq_nil fun pair hp => ?_
  rintro rfl
  rcases (mem_merges hp).1 with h | h
  · exact hfirst h
  · exact hx h.1

theorem gained_of_textOf_nil (hx : textOf text x = []) (hfirst : first ≠ some x) :
    gained text (merges text first l) x = [] := by
  refine gained_eq_nil fun pair hp => ?_
  rintro rfl
  rcases (mem_merges hp).1 with h | h
  · exact hfirst h
  · exact h.2 hx

theorem filter_kept_cons {l d : List α} (hx : x ∉ l) :
    l.filter (· ∉ x :: d) = l.filter (· ∉ d) := by
  refine List.filter_congr fun y hy => ?_
  have hne : y ≠ x := fun he => hx (he ▸ hy)
  simp [hne]

/-- The texts that stay, with what they gain, are the texts there were. -/
theorem flatMap_kept (hl : l.Nodup) (hfirst : ∀ p ∈ first, p ∉ l) :
    first.elim [] (gained text (merges text first l)) ++
      (l.filter (· ∉ dropped text first l)).flatMap
        (fun x => textOf text x ++ gained text (merges text first l) x) =
      l.flatMap (textOf text) := by
  fun_induction merges text first l with
  | case1 first => cases first <;> rfl
  | case2 first x l htext ih =>
    obtain ⟨hx, hl⟩ := List.nodup_cons.1 hl
    have hgained : ∀ y, y = x ∨ y ∉ l → gained text (merges text none l) y = [] := by
      rintro y (rfl | hy)
      · exact gained_of_notMem hx (by simp)
      · exact gained_of_notMem hy (by simp)
    have hnone : first.elim [] (gained text (merges text none l)) = [] := by
      cases first with
      | none => rfl
      | some p => exact hgained p (.inr fun hm => hfirst p rfl (List.mem_cons_of_mem _ hm))
    have hkept : x ∉ dropped text none l := fun hm => hx (mem_of_mem_dropped hm).1
    have htail := ih hl (by simp)
    rw [dropped_cons, htext, hnone]
    simp only [Option.elim_none, List.nil_append] at htail ⊢
    rw [List.filter_cons_of_pos (by simpa using hkept), List.flatMap_cons, htail,
      hgained x (.inl rfl), List.append_nil, List.flatMap_cons]
  | case3 x l first htext ih =>
    obtain ⟨hx, hl⟩ := List.nodup_cons.1 hl
    have hempty : textOf text x = [] := by rw [textOf, htext, Option.getD_some]
    rw [dropped_cons, htext]
    dsimp only
    rw [List.filter_cons_of_neg (by simp), filter_kept_cons hx,
      ih hl fun p hp hm => hfirst p hp (List.mem_cons_of_mem _ hm), List.flatMap_cons, hempty,
      List.nil_append]
  | case4 x l b units htext ih =>
    obtain ⟨hx, hl⟩ := List.nodup_cons.1 hl
    have hkept : x ∉ dropped text (some x) l := fun hm => hx (mem_of_mem_dropped hm).1
    have htail := ih hl fun p hp => Option.some.inj hp ▸ hx
    rw [dropped_cons, htext]
    dsimp only [Option.elim_none, Option.elim_some] at htail ⊢
    rw [List.filter_cons_of_pos (by simpa using hkept), List.flatMap_cons, List.append_assoc,
      htail, List.nil_append, List.flatMap_cons]
  | case5 x l b units p htext ih =>
    obtain ⟨hx, hl⟩ := List.nodup_cons.1 hl
    have hp : p ≠ x ∧ p ∉ l := by
      have hnot := hfirst p rfl
      rwa [List.mem_cons, not_or] at hnot
    have htail := ih hl fun q hq => Option.some.inj hq ▸ hp.2
    have hothers : ∀ y ∈ l.filter (· ∉ dropped text (some p) l),
        textOf text y ++ gained text ((p, x) :: merges text (some p) l) y =
          textOf text y ++ gained text (merges text (some p) l) y := fun y hy => by
      have hne : p ≠ y := fun he => hp.2 (he ▸ (List.mem_filter.1 hy).1)
      rw [gained_cons, if_neg hne]
    rw [dropped_cons, htext]
    dsimp only [Option.elim_some] at htail ⊢
    rw [List.filter_cons_of_neg (by simp), filter_kept_cons hx, List.flatMap_congr hothers,
      gained_cons, if_pos rfl, List.append_assoc, htail, List.flatMap_cons]

/-- The pass merges by the rule. -/
theorem gained_merges_eq (hl : l.Nodup) (y : α) :
    gained text (merges text none l) y = gains text l y := by
  fun_induction gains text l generalizing y with
  | case1 => rfl
  | case2 x l hempty ih =>
    rw [merges_cons]
    cases htext : text x with
    | none => exact ih (List.nodup_cons.1 hl).2 y
    | some units =>
      rw [textOf, htext, Option.getD_some] at hempty
      subst hempty
      exact ih (List.nodup_cons.1 hl).2 y
  | case3 x l hne ih =>
    obtain ⟨hx, hl⟩ := List.nodup_cons.1 hl
    have hrest := List.dropWhile_sublist (l := l) fun y => (text y).isSome
    rw [merges_cons]
    cases htext : text x with
    | none => exact absurd (by rw [textOf, htext]; rfl) hne
    | some units =>
      cases units with
      | nil => exact absurd (by rw [textOf, htext]; rfl) hne
      | cons b units =>
        have hih := ih (hl.sublist hrest) y
        dsimp only
        rw [merges_some, gained_append, hih, gained, List.filter_map, List.flatMap_map]
        by_cases hy : y = x
        · subst hy
          have hlast : gains text (l.dropWhile fun y => (text y).isSome) y = [] := by
            rw [← hih]
            exact gained_of_notMem (fun hm => hx (hrest.subset hm)) (by simp)
          rw [Function.update_self, hlast, List.append_nil, List.filter_eq_self.2 (by simp)]
          exact flatMap_filter_nonempty _
        · rw [Function.update_of_ne hy, List.filter_eq_nil_iff.2 (by simp [Ne.symm hy])]
          rfl

end Lib.Runs
