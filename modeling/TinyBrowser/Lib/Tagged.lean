import Mathlib.Data.List.Flatten
import Mathlib.Data.List.Nodup

/-!
# Contributions in the order of their keys

`tagged f x` is what the key `x` contributes, each value with its key beside it. When some keys of a
list contribute before the others, the values come in the order of the keys exactly if none of these
stands after another key with a contribution (`hoisted_eq_iff`).
-/

namespace Lib

section
variable {α β : Type} {f g : α → List β} {p : α → Bool} {l : List α}

def tagged (f : α → List β) (x : α) : List (α × β) := (f x).map fun y => (x, y)

theorem fst_of_mem_tagged {x : α} {e : α × β} (h : e ∈ tagged f x) : e.1 = x := by
  obtain ⟨y, -, rfl⟩ := List.mem_map.1 h
  rfl

theorem tagged_eq_nil {x : α} : tagged f x = [] ↔ f x = [] := List.map_eq_nil_iff

/-- Some keys of a list contribute first. -/
def hoisted (p : α → Bool) (f : α → List β) (l : List α) : List (α × β) :=
  (l.filter p).flatMap (tagged f) ++ (l.filter fun x => !p x).flatMap (tagged f)

/-- A key of a list without doubles has its contribution in the values. -/
theorem filter_tagged [DecidableEq α] (hl : l.Nodup) (x : α) :
    (l.flatMap (tagged f)).filter (·.1 = x) = if x ∈ l then tagged f x else [] := by
  induction l with
  | nil => rfl
  | cons y l ih =>
    obtain ⟨hy, hl⟩ := List.nodup_cons.1 hl
    rw [List.flatMap_cons, List.filter_append, ih hl]
    by_cases hxy : x = y
    · subst hxy
      have hall : (tagged f x).filter (·.1 = x) = tagged f x :=
        List.filter_eq_self.2 fun e he => by simpa using fst_of_mem_tagged he
      rw [hall, if_neg hy, if_pos List.mem_cons_self, List.append_nil]
    · have hnone : (tagged f y).filter (·.1 = x) = [] :=
        List.filter_eq_nil_iff.2 fun e he => by
          rw [fst_of_mem_tagged he]
          simpa using Ne.symm hxy
      rw [hnone, List.nil_append]
      simp [hxy]

theorem filter_hoisted [DecidableEq α] (hl : l.Nodup) {x : α} (hx : x ∈ l) :
    (hoisted p f l).filter (·.1 = x) = tagged f x := by
  rw [hoisted, List.filter_append, filter_tagged (hl.filter p), filter_tagged (hl.filter _)]
  cases hp : p x <;> simp [hx, hp]

/-- No key that contributes first stands after another key with a contribution. -/
def InOrder (p : α → Bool) (f : α → List β) (l : List α) : Prop :=
  l.Pairwise fun y x => p x = true → p y = false → f y = [] ∨ f x = []

theorem hoisted_of_inOrder (h : InOrder p f l) : hoisted p f l = l.flatMap (tagged f) := by
  induction l with
  | nil => rfl
  | cons y l ih =>
    obtain ⟨hy, h⟩ := List.pairwise_cons.1 h
    have hrec := ih h
    cases hp : p y with
    | true =>
      rw [hoisted, List.filter_cons_of_pos hp, List.filter_cons_of_neg (by simp [hp]),
        List.flatMap_cons, List.flatMap_cons, List.append_assoc]
      exact congrArg _ hrec
    | false =>
      rw [hoisted, List.filter_cons_of_neg (by simp [hp]), List.filter_cons_of_pos (by simp [hp]),
        List.flatMap_cons, List.flatMap_cons]
      by_cases hf : f y = []
      · rw [tagged_eq_nil.2 hf]
        exact hrec
      · have hfirst : (l.filter p).flatMap (tagged f) = [] :=
          List.flatMap_eq_nil_iff.2 fun x hx => by
            obtain ⟨hxl, hpx⟩ := List.mem_filter.1 hx
            exact tagged_eq_nil.2 ((hy x hxl hpx hp).resolve_left hf)
        rw [← hrec, hoisted, hfirst]
        rfl

theorem inOrder_of_hoisted (h : hoisted p f l = l.flatMap (tagged f)) : InOrder p f l := by
  have hmem : ∀ (q : α → Bool) (e : α × β), e ∈ (l.filter q).flatMap (tagged f) → q e.1 = true := by
    intro q e he
    obtain ⟨x, hx, hex⟩ := List.mem_flatMap.1 he
    rw [fst_of_mem_tagged hex]
    exact (List.mem_filter.1 hx).2
  have hpair : (hoisted p f l).Pairwise fun a b => p b.1 = true → p a.1 = true := by
    rw [hoisted, List.pairwise_append]
    refine ⟨?_, ?_, ?_⟩
    · exact List.pairwise_of_forall_mem_list fun a ha _ _ _ => hmem p a ha
    · refine List.pairwise_of_forall_mem_list fun _ _ b hb hpb => ?_
      have hnot := hmem (fun x => !p x) b hb
      simp [hpb] at hnot
    · exact fun a ha _ _ _ => hmem p a ha
  rw [h, List.pairwise_flatMap] at hpair
  refine hpair.2.imp fun {y x} hyx hpx hpy => ?_
  by_contra hne
  rw [not_or] at hne
  obtain ⟨a, ha⟩ := List.exists_mem_of_ne_nil _ (mt tagged_eq_nil.1 hne.1)
  obtain ⟨b, hb⟩ := List.exists_mem_of_ne_nil _ (mt tagged_eq_nil.1 hne.2)
  have hpa := hyx a ha b hb (by rwa [fst_of_mem_tagged hb])
  rw [fst_of_mem_tagged ha, hpy] at hpa
  cases hpa

theorem hoisted_eq_iff [DecidableEq α] (hl : l.Nodup) :
    hoisted p f l = l.flatMap (tagged g) ↔ (∀ x ∈ l, f x = g x) ∧ InOrder p g l := by
  have hcongr : (∀ x ∈ l, f x = g x) → hoisted p f l = hoisted p g l := by
    intro h
    have htag : ∀ q : α → Bool, (l.filter q).flatMap (tagged f) = (l.filter q).flatMap (tagged g) := by
      intro q
      rw [List.flatMap_def, List.flatMap_def]
      refine congrArg List.flatten (List.map_congr_left fun x hx => ?_)
      rw [tagged, tagged, h x (List.mem_filter.1 hx).1]
    rw [hoisted, hoisted, htag, htag]
  constructor
  · intro h
    have hfg : ∀ x ∈ l, f x = g x := by
      intro x hx
      have hx' := filter_hoisted (p := p) (f := f) hl hx
      rw [h, filter_tagged hl, if_pos hx] at hx'
      have hinj : Function.Injective fun y : β => (x, y) := fun _ _ h => (Prod.mk.inj h).2
      exact (hinj.list_map hx').symm
    exact ⟨hfg, inOrder_of_hoisted ((hcongr hfg).symm.trans h)⟩
  · rintro ⟨hfg, horder⟩
    rw [hcongr hfg, hoisted_of_inOrder horder]

end

end Lib
