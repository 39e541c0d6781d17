import Mathlib.Data.List.Basic
import Mathlib.Data.List.Nodup

/-!
# Lists whose good elements come first

When of two elements in order the second is good only if the first is, the good ones are an initial
segment. The last good element, or the first of the list when there is none, stands at a position
that only depends on how many are good.
-/

namespace Lib
variable {α : Type} {p : α → Bool} {l : List α}

theorem filter_eq_of_pairwise (h : l.Pairwise fun a b => p b = true → p a = true) :
    l.filter p = l.takeWhile p := by
  induction l with
  | nil => rfl
  | cons a l ih =>
    rw [List.pairwise_cons] at h
    cases ha : p a with
    | true => rw [List.filter_cons_of_pos ha, List.takeWhile_cons_of_pos ha, ih h.2]
    | false =>
      rw [List.takeWhile_cons_of_neg (by rw [ha]; exact Bool.false_ne_true), List.filter_eq_nil_iff]
      intro b hb hpb
      rcases List.mem_cons.1 hb with rfl | hb
      · rw [ha] at hpb
        cases hpb
      · rw [h.1 b hb hpb] at ha
        cases ha

theorem exists_append_of_pairwise (h : l.Pairwise fun a b => p b = true → p a = true) :
    ∃ good bad, l = good ++ bad ∧ (∀ a ∈ good, p a = true) ∧ (∀ a ∈ bad, p a = false) ∧
      good.length = l.countP p := by
  have htake := filter_eq_of_pairwise h
  have happend : l = l.filter p ++ l.dropWhile p := by
    rw [htake, List.takeWhile_append_dropWhile]
  refine ⟨l.filter p, l.dropWhile p, happend, fun a ha => (List.mem_filter.1 ha).2, fun a ha => ?_,
    List.countP_eq_length_filter.symm⟩
  have hnil : (l.dropWhile p).filter p = [] := by
    have hfilter := congrArg (List.filter p) happend
    rw [List.filter_append, List.filter_filter] at hfilter
    simpa using hfilter
  exact (Bool.not_eq_true _).mp (List.filter_eq_nil_iff.1 hnil a ha)

section
variable [DecidableEq α]

theorem findIdx?_self {a b : List α} {x : α} (hx : x ∉ a) :
    (a ++ x :: b).findIdx? (fun y => y = x) = some a.length := by
  have hnone : a.findIdx? (fun y => y = x) = none := by
    rw [List.findIdx?_eq_none_iff]
    intro y hy
    exact decide_eq_false fun heq => hx (heq ▸ hy)
  rw [List.findIdx?_append, hnone, List.findIdx?_cons, if_pos (by simp)]
  simp

theorem findIdx?_last (h : l.Pairwise fun a b => p b = true → p a = true) (hn : l.Nodup) :
    ((l.reverse.find? p).or l.head?).bind (fun x => l.findIdx? fun y => y = x) =
      if l = [] then none else some (l.countP p - 1) := by
  obtain ⟨good, bad, rfl, hgood, hbad, hlength⟩ := exists_append_of_pairwise h
  have hnone : bad.reverse.find? p = none := by
    rw [List.find?_eq_none]
    intro x hx
    rw [hbad x (List.mem_reverse.1 hx)]
    exact Bool.false_ne_true
  rw [← hlength, List.reverse_append, List.find?_append, hnone, Option.none_or]
  rcases List.eq_nil_or_concat good with rfl | ⟨init, x, rfl⟩
  · cases bad with
    | nil => rfl
    | cons y bad => exact findIdx?_self (a := []) List.not_mem_nil
  · have hx : x ∉ init := by
      rw [List.concat_eq_append, List.append_assoc] at hn
      exact fun hmem => (List.nodup_append.1 hn).2.2 x hmem x (by simp) rfl
    rw [List.concat_eq_append, List.append_assoc, List.singleton_append, List.reverse_append,
      List.reverse_singleton, List.singleton_append, List.find?_cons,
      hgood x (by simp)]
    show ((some x).or _).bind _ = _
    rw [Option.some_or, Option.bind_some, findIdx?_self hx]
    simp

end

end Lib
