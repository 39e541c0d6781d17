import Mathlib.Logic.Relation
import Mathlib.Order.Defs.LinearOrder
import TinyBrowser.Lib.Dict

/-!
# Chains of links

A map from a type to itself is a set of links, one at most from each key. `follow n` walks along
them, for `n` links at most; `Leads` is reachability. In a map whose links go down, no chain comes
back, so a walk that may take more links than the map has ends where no link goes on (`get?_root`).
Removing a link cuts the chains that pass it and changes no other (`root_erase`,
`root_erase_of_not`).
-/

namespace Lib.Dict
open Relation

variable {K : Type} [DecidableEq K] {m : Dict K K} {a b c : K}

def len {V : Type} (m : Dict K V) : Nat := m.pairs.length

def follow (m : Dict K K) : Nat → K → K
  | 0, k => k
  | n + 1, k => match m.get? k with
    | some k' => follow m n k'
    | none => k

/-- The links of `m` lead from `a` to `b`. -/
def Leads (m : Dict K K) : K → K → Prop := ReflTransGen fun a b => m.get? a = some b

theorem leads_follow (m : Dict K K) (n : Nat) (k : K) : m.Leads k (m.follow n k) := by
  induction n generalizing k with
  | zero => exact .refl
  | succ n ih =>
    unfold follow
    cases hk : m.get? k with
    | none => exact .refl
    | some k' => exact .head hk (ih k')

theorem Leads.eq_of_end (h : m.Leads a b) (ha : m.get? a = none) : b = a := by
  rcases ReflTransGen.cases_head h with rfl | ⟨d, hd, -⟩
  · rfl
  · rw [ha] at hd
    cases hd

/-- A chain has one end. -/
theorem Leads.end_unique (hb : m.Leads a b) (hc : m.Leads a c) (hb' : m.get? b = none)
    (hc' : m.get? c = none) : b = c := by
  have hu : Relator.RightUnique fun a b => m.get? a = some b := fun k d d' hd hd' =>
    Option.some.inj (hd.symm.trans hd')
  rcases ReflTransGen.total_of_right_unique hu hb hc with h | h
  · exact (Leads.eq_of_end h hb').symm
  · exact Leads.eq_of_end h hc'

/-! ### Removing a link -/

theorem Leads.erase (h : m.Leads a c) : (m.erase c).Leads a c := by
  induction h using ReflTransGen.head_induction_on with
  | refl => exact .refl
  | @head k d hlink _ ih =>
    by_cases hk : k = c
    · exact hk ▸ .refl
    · refine .head ?_ ih
      rw [get?_erase, if_neg hk, hlink]

theorem Leads.erase_of_not (h : m.Leads a b) (hc : ¬ m.Leads a c) : (m.erase c).Leads a b := by
  induction h with
  | refl => exact .refl
  | @tail k d hak hlink ih =>
    refine .tail ih ?_
    rw [get?_erase, if_neg, hlink]
    rintro rfl
    exact hc hak

/-! ### Links that go down -/

section
variable [Preorder K]

def Descends (m : Dict K K) : Prop := ∀ k k', m.get? k = some k' → k' < k

theorem Descends.erase (hd : m.Descends) (c : K) : (m.erase c).Descends := by
  intro k k' hk
  rw [get?_erase] at hk
  split_ifs at hk
  exact hd k k' hk

theorem Descends.insert (hd : m.Descends) (h : b < a) : (m.insert a b).Descends := by
  intro k k' hk
  rw [get?_insert] at hk
  split_ifs at hk with heq
  · rw [heq, ← Option.some.inj hk]
    exact h
  · exact hd k k' hk

/-- The end of the chain from `k`: a walk of one link more than there are. -/
def root (m : Dict K K) (k : K) : K := m.follow (m.len + 1) k

variable [DecidableLE K]

omit [DecidableEq K] in
theorem countP_le_lt {l : List K} {k k' : K} (hk : k ∈ l) (hlt : k' < k) :
    l.countP (fun d => decide (d ≤ k')) < l.countP fun d => decide (d ≤ k) := by
  obtain ⟨l₁, l₂, rfl⟩ := List.append_of_mem hk
  have hmono : ∀ l : List K, l.countP (fun d => decide (d ≤ k')) ≤
      l.countP fun d => decide (d ≤ k) := by
    intro l
    refine List.countP_mono_left fun d _ hd => ?_
    exact decide_eq_true (le_trans (of_decide_eq_true hd) (le_of_lt hlt))
  have h₁ := hmono l₁
  have h₂ := hmono l₂
  simp only [List.countP_append, List.countP_cons, decide_eq_true (le_refl k),
    decide_eq_false (not_le_of_gt hlt)]
  simp only [Bool.false_eq_true, if_false, if_true]
  omega

/-- A walk leaves one key of the map behind with each link. -/
theorem get?_follow (hd : m.Descends) {n : Nat} {k : K}
    (hn : m.keys.countP (fun k' => decide (k' ≤ k)) < n) : m.get? (m.follow n k) = none := by
  induction n generalizing k with
  | zero => omega
  | succ n ih =>
    unfold follow
    cases hk : m.get? k with
    | none => exact hk
    | some k' =>
      refine ih ?_
      have hcount := countP_le_lt ((mem_keys_iff m k).2 ⟨k', hk⟩) (hd k k' hk)
      omega

theorem get?_root (hd : m.Descends) (k : K) : m.get? (m.root k) = none := by
  refine get?_follow hd ?_
  have hlen : m.keys.length = m.len := List.length_map _
  have hcount := List.countP_le_length (p := fun k' => decide (k' ≤ k)) (l := m.keys)
  omega

theorem root_eq (hd : m.Descends) (h : m.Leads a b) (hb : m.get? b = none) : m.root a = b :=
  (leads_follow m _ a).end_unique h (get?_root hd a) hb

theorem root_erase (hd : m.Descends) (h : m.Leads a c) : (m.erase c).root a = c := by
  refine root_eq (hd.erase c) h.erase ?_
  rw [get?_erase, if_pos rfl]

theorem root_erase_of_not (hd : m.Descends) (h : ¬ m.Leads a c) :
    (m.erase c).root a = m.root a := by
  refine root_eq (hd.erase c) ((leads_follow m _ a).erase_of_not h) ?_
  rw [get?_erase]
  split_ifs
  · rfl
  · exact get?_root hd a

end

end Lib.Dict
