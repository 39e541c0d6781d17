import Mathlib.Data.List.Basic

/-!
# Codes

A code writes each letter as a word. Where no word starts another one, a text is read back from what
is written for it (`flatMap_inj_of_code`), and what is written is at least as long as the text.
-/

namespace Lib
variable {α β : Type} {f : α → List β}

/-- No word of the code is empty or starts the word of another letter. -/
structure IsCode (f : α → List β) : Prop where
  ne_nil : ∀ a, f a ≠ []
  eq_of_prefix : ∀ a b, f a <+: f b → a = b

theorem IsCode.flatMap_inj (h : IsCode f) {l l' : List α} (heq : l.flatMap f = l'.flatMap f) :
    l = l' := by
  induction l generalizing l' with
  | nil =>
    cases l' with
    | nil => rfl
    | cons b l' => exact absurd (List.append_eq_nil_iff.1 heq.symm).1 (h.ne_nil b)
  | cons a l ih =>
    cases l' with
    | nil => exact absurd (List.append_eq_nil_iff.1 heq).1 (h.ne_nil a)
    | cons b l' =>
      rw [List.flatMap_cons, List.flatMap_cons] at heq
      -- one of the first words starts the other
      have hab : a = b := by
        rcases List.append_eq_append_iff.1 heq with ⟨s, hs, -⟩ | ⟨s, hs, -⟩
        · exact h.eq_of_prefix a b ⟨s, hs.symm⟩
        · exact (h.eq_of_prefix b a ⟨s, hs.symm⟩).symm
      subst hab
      rw [ih (List.append_cancel_left heq)]

theorem length_le_flatMap (h : ∀ a, f a ≠ []) (l : List α) : l.length ≤ (l.flatMap f).length := by
  induction l with
  | nil => exact Nat.le_refl 0
  | cons a l ih =>
    have hpos := List.length_pos_iff.2 (h a)
    rw [List.flatMap_cons, List.length_append, List.length_cons]
    omega

theorem exists_long_of_length {l : List α} (h : ∀ a, f a ≠ []) {a : α} (ha : a ∈ l)
    (hlong : 1 < (f a).length) : l.length < (l.flatMap f).length := by
  obtain ⟨before, after, rfl⟩ := List.append_of_mem ha
  have hbefore := length_le_flatMap h before
  have hafter := length_le_flatMap h after
  rw [List.flatMap_append, List.flatMap_cons]
  simp only [List.length_append, List.length_cons]
  omega

end Lib
