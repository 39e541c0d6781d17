import Mathlib.Data.List.Flatten
import TinyBrowser.Lib.Forest

/-!
# Walks over a forest

`preorder x` lists the subtree of `x` in tree order, and `top x` is the root above it. The loops that
follow the links of a forest, given as plain functions and a number of turns, are `climb` to the
root, `climbsTo` a key, `search` down a subtree, `collect` with a stack, `ancestors` and, along some
of the links down, `walk`. With turns for every key of the chain or subtree they come to an end, and
answer what the forest says.
-/

namespace Lib

section Loops
variable {α : Type}

/-- Follows the parents up to a root. -/
def climb (parent : α → Option α) : Nat → α → Option α
  | 0, _ => none
  | fuel + 1, x => match parent x with
    | none => some x
    | some p => climb parent fuel p

/-- Follows the parents until `a` is met. -/
def climbsTo [DecidableEq α] (parent : α → Option α) (a : α) : Nat → α → Option Bool
  | 0, _ => none
  | fuel + 1, x =>
    if x = a then some true
    else match parent x with
      | none => some false
      | some p => climbsTo parent a fuel p

/-- The first answer of a search in one key after the other. -/
def firstOf (search : α → Option (Option α)) : List α → Option (Option α)
  | [] => some none
  | x :: xs => match search x with
    | none => none
    | some none => firstOf search xs
    | some (some y) => some (some y)

/-- The first key of a subtree with `P`, the key itself before its children. -/
def search (children : α → List α) (P : α → Bool) : Nat → α → Option (Option α)
  | 0, _ => none
  | fuel + 1, x => if P x then some (some x) else firstOf (search children P fuel) (children x)

/-- Takes keys from a stack, whose top comes first, and puts their children on it. -/
def collect (children : α → List α) : Nat → List α → List α → Option (List α)
  | _, [], found => some found
  | 0, _ :: _, _ => none
  | fuel + 1, x :: pending, found =>
    collect children fuel ((children x).reverse ++ pending) (found ++ [x])

/-- What a cursor that follows the parents visits, its start apart. -/
def ancestors (parent : α → Option α) : Nat → α → List α
  | 0, _ => []
  | fuel + 1, x => match parent x with
    | none => []
    | some p => p :: ancestors parent fuel p

/-- What is taken from a stack, whose top comes first, when the keys `kids` gives for a key are put
on it with the first one on top. -/
def walk (kids : α → List α) : Nat → List α → List α
  | _, [] => []
  | 0, _ :: _ => []
  | fuel + 1, x :: pending => x :: walk kids fuel (kids x ++ pending)

theorem forall_mem_walk {kids : α → List α} {P : α → Prop} {fuel : Nat} {pending : List α}
    (hkids : ∀ x, P x → ∀ c ∈ kids x, P c) (h : ∀ x ∈ pending, P x) :
    ∀ y ∈ walk kids fuel pending, P y := by
  induction fuel generalizing pending with
  | zero => cases pending <;> simp [walk]
  | succ fuel ih =>
    cases pending with
    | nil => simp [walk]
    | cons x pending =>
      have hx := h x List.mem_cons_self
      rw [walk]
      intro y hy
      rcases List.mem_cons.1 hy with rfl | hy
      · exact hx
      · refine ih (fun z hz => ?_) y hy
        rcases List.mem_append.1 hz with hz | hz
        · exact hkids x hx z hz
        · exact h z (List.mem_cons_of_mem x hz)

end Loops

theorem eq_filter_of_sublist {α : Type} [DecidableEq α] {l L : List α} (h : l.Sublist L)
    (hnodup : L.Nodup) : l = L.filter (· ∈ l) := by
  induction h with
  | slnil => rfl
  | @cons l L a hsub ih =>
    obtain ⟨ha, hL⟩ := List.nodup_cons.1 hnodup
    have hal : a ∉ l := fun hal => ha (hsub.subset hal)
    rw [List.filter_cons_of_neg (by simpa using hal)]
    exact ih hL
  | @cons_cons l L a hsub ih =>
    obtain ⟨ha, hL⟩ := List.nodup_cons.1 hnodup
    rw [List.filter_cons_of_pos (by simp)]
    refine congrArg (a :: ·) ((ih hL).trans (List.filter_congr fun x hx => ?_))
    have hxa : x ≠ a := fun hxa => ha (hxa ▸ hx)
    simp [hxa]

namespace Forest

variable {α : Type} {f : Forest α} {x y p : α} {fuel : Nat}

/-! ### Up -/

theorem nodup_chain (f : Forest α) (x : α) : (f.chain x).Nodup := by
  induction x using f.induction_up with
  | root x hx =>
    rw [chain_of_root hx]
    exact List.nodup_singleton x
  | child x p hp ih =>
    rw [chain_of_parent hp]
    exact List.nodup_cons.2 ⟨not_mem_chain_parent hp, ih⟩

def top (f : Forest α) (x : α) : α := (f.chain x).getLast (f.chain_ne_nil x)

theorem top_of_root (h : f.parent x = none) : f.top x = x := by
  simp only [top, chain_of_root h, List.getLast_singleton]

theorem top_of_parent (h : f.parent x = some p) : f.top x = f.top p := by
  simp only [top, chain_of_parent h]
  exact List.getLast_cons (f.chain_ne_nil p)

theorem top_mem_chain (f : Forest α) (x : α) : f.top x ∈ f.chain x := List.getLast_mem _

theorem climb_eq (h : (f.chain x).length ≤ fuel) : climb f.parent fuel x = some (f.top x) := by
  induction x using f.induction_up generalizing fuel with
  | root x hx =>
    obtain ⟨n, rfl⟩ : ∃ n, fuel = n + 1 := ⟨fuel - 1, by rw [chain_of_root hx] at h; simp at h; omega⟩
    rw [climb, hx, top_of_root hx]
  | child x p hp ih =>
    rw [chain_of_parent hp, List.length_cons] at h
    obtain ⟨n, rfl⟩ : ∃ n, fuel = n + 1 := ⟨fuel - 1, by omega⟩
    rw [climb, hp, top_of_parent hp]
    exact ih (by omega)

section
variable [DecidableEq α]

theorem climbsTo_eq {a : α} (h : (f.chain x).length ≤ fuel) :
    climbsTo f.parent a fuel x = some (decide (a ∈ f.chain x)) := by
  induction x using f.induction_up generalizing fuel with
  | root x hx =>
    obtain ⟨n, rfl⟩ : ∃ n, fuel = n + 1 := ⟨fuel - 1, by rw [chain_of_root hx] at h; simp at h; omega⟩
    rw [climbsTo, hx, chain_of_root hx]
    by_cases hxa : x = a
    · simp [hxa]
    · simp [hxa, Ne.symm hxa]
  | child x p hp ih =>
    rw [chain_of_parent hp, List.length_cons] at h
    obtain ⟨n, rfl⟩ : ∃ n, fuel = n + 1 := ⟨fuel - 1, by omega⟩
    rw [climbsTo, hp, chain_of_parent hp]
    by_cases hxa : x = a
    · simp [hxa]
    · rw [if_neg hxa]
      dsimp only
      rw [ih (by omega)]
      simp [Ne.symm hxa]

end

/-! ### Down -/

/-- A key followed by the subtrees of its children. -/
def preorder (f : Forest α) (x : α) : List α :=
  x :: (f.children x).attach.flatMap fun c => f.preorder c.1
termination_by f.down.wrap x
decreasing_by exact f.mem_children.1 c.2

theorem preorder_eq (f : Forest α) (x : α) :
    f.preorder x = x :: (f.children x).flatMap f.preorder := by
  rw [preorder]
  conv_rhs => rw [← List.attach_map_subtype_val (f.children x), List.flatMap_map]

theorem mem_chain_iff_child : x ∈ f.chain y ↔ y = x ∨ ∃ c ∈ f.children x, c ∈ f.chain y := by
  induction y using f.induction_up with
  | root y hy =>
    simp only [chain_of_root hy, List.mem_singleton, eq_comm (a := x)]
    refine (or_iff_left ?_).symm
    rintro ⟨c, hc, rfl⟩
    rw [mem_children, hy] at hc
    cases hc
  | child y p hp ih =>
    rw [mem_chain_of_parent hp, ih, eq_comm (a := x)]
    constructor
    · rintro (rfl | rfl | ⟨c, hc, hcp⟩)
      · exact .inl rfl
      · exact .inr ⟨y, f.mem_children.2 hp, f.mem_chain_self y⟩
      · exact .inr ⟨c, hc, (mem_chain_of_parent hp).2 (.inr hcp)⟩
    · rintro (rfl | ⟨c, hc, hcy⟩)
      · exact .inl rfl
      · rcases (mem_chain_of_parent hp).1 hcy with rfl | hcp
        · rw [mem_children, hp] at hc
          exact .inr (.inl (Option.some.inj hc))
        · exact .inr (.inr ⟨c, hc, hcp⟩)

theorem mem_preorder : y ∈ f.preorder x ↔ x ∈ f.chain y := by
  induction x using f.down.induction with
  | _ x ih =>
    rw [preorder_eq, List.mem_cons, List.mem_flatMap, mem_chain_iff_child]
    refine or_congr_right (exists_congr fun c => and_congr_right fun hc => ?_)
    exact ih c (f.mem_children.1 hc)

theorem nodup_preorder (f : Forest α) (x : α) : (f.preorder x).Nodup := by
  induction x using f.down.induction with
  | _ x ih =>
    rw [preorder_eq, List.nodup_cons, List.nodup_flatMap]
    refine ⟨fun hx => ?_, fun c hc => ih c (f.mem_children.1 hc), ?_⟩
    · obtain ⟨c, hc, hcx⟩ := List.mem_flatMap.1 hx
      exact not_mem_chain_parent (f.mem_children.1 hc) (mem_preorder.1 hcx)
    · refine (f.nodup x).imp_of_mem fun {a b} ha hb hab y hya hyb => hab ?_
      exact eq_of_siblings (f.mem_children.1 ha) (f.mem_children.1 hb) (mem_preorder.1 hya)
        (mem_preorder.1 hyb)

theorem firstOf_eq {P : α → Bool} {go : α → Option (Option α)} {g : α → List α} {xs : List α}
    (h : ∀ x ∈ xs, go x = some ((g x).find? P)) : firstOf go xs = some ((xs.flatMap g).find? P) := by
  induction xs with
  | nil => rfl
  | cons x xs ih =>
    rw [firstOf, h x List.mem_cons_self, List.flatMap_cons, List.find?_append]
    cases (g x).find? P with
    | none => exact ih fun y hy => h y (List.mem_cons_of_mem _ hy)
    | some y => rfl

theorem length_preorder_lt {c : α} (hc : c ∈ f.children x) :
    (f.preorder c).length < (f.preorder x).length := by
  rw [f.preorder_eq x, List.length_cons]
  have hsub : (f.preorder c).Sublist ((f.children x).flatMap f.preorder) := by
    rw [List.flatMap_def]
    exact List.sublist_flatten_of_mem (List.mem_map_of_mem hc)
  exact Nat.lt_succ_of_le hsub.length_le

theorem search_eq {P : α → Bool} (h : (f.preorder x).length ≤ fuel) :
    search f.children P fuel x = some ((f.preorder x).find? P) := by
  induction x using f.down.induction generalizing fuel with
  | _ x ih =>
    obtain ⟨n, rfl⟩ : ∃ n, fuel = n + 1 := by
      refine ⟨fuel - 1, ?_⟩
      rw [preorder_eq, List.length_cons] at h
      omega
    have hkids : firstOf (search f.children P n) (f.children x) =
        some (((f.children x).flatMap f.preorder).find? P) :=
      firstOf_eq fun c hc => ih c (f.mem_children.1 hc) (by
        have hlt := length_preorder_lt hc
        omega)
    rw [search, preorder_eq, List.find?_cons, hkids]
    cases P x <;> rfl

/-- The stack takes each key below its own once. -/
theorem collect_eq {pending found : List α} (h : (pending.flatMap f.preorder).length ≤ fuel) :
    ∃ l, collect f.children fuel pending found = some (found ++ l) ∧
      l.Perm (pending.flatMap f.preorder) := by
  induction fuel generalizing pending found with
  | zero =>
    cases pending with
    | nil => exact ⟨[], by rw [collect, List.append_nil], .nil⟩
    | cons x pending =>
      rw [List.flatMap_cons, preorder_eq] at h
      simp at h
  | succ n ih =>
    cases pending with
    | nil => exact ⟨[], by rw [collect, List.append_nil], .nil⟩
    | cons x pending =>
      have hperm : (((f.children x).reverse ++ pending).flatMap f.preorder).Perm
          ((f.children x).flatMap f.preorder ++ pending.flatMap f.preorder) := by
        rw [List.flatMap_append]
        exact ((List.reverse_perm _).flatMap_right _).append_right _
      rw [List.flatMap_cons, preorder_eq, List.cons_append] at h ⊢
      have hle : (((f.children x).reverse ++ pending).flatMap f.preorder).length ≤ n := by
        rw [hperm.length_eq]
        exact Nat.le_of_succ_le_succ h
      obtain ⟨l, hl, hlperm⟩ := @ih _ (found ++ [x]) hle
      refine ⟨x :: l, ?_, (hlperm.trans hperm).cons x⟩
      rw [collect, hl, List.append_assoc]
      rfl

/-- A walk that follows some of the links takes its keys in tree order. -/
theorem walk_sublist {kids : α → List α} {pending : List α}
    (hkids : ∀ x, (kids x).Sublist (f.children x)) (fuel : Nat) :
    (walk kids fuel pending).Sublist (pending.flatMap f.preorder) := by
  induction fuel generalizing pending with
  | zero => cases pending <;> simp [walk]
  | succ fuel ih =>
    cases pending with
    | nil => simp [walk]
    | cons x pending =>
      have hle := @ih (kids x ++ pending)
      rw [List.flatMap_append] at hle
      have hall : ((kids x).flatMap f.preorder).Sublist ((f.children x).flatMap f.preorder) := by
        exact (hkids x).flatMap _
      rw [walk, List.flatMap_cons, preorder_eq, List.cons_append]
      exact (hle.trans (hall.append_right _)).cons_cons x

/-- With turns enough it takes what is on the stack and what it puts there. -/
theorem mem_walk_of_mem {kids : α → List α} {pending : List α}
    (hkids : ∀ x, (kids x).Sublist (f.children x)) (h : (pending.flatMap f.preorder).length ≤ fuel) :
    (∀ x ∈ pending, x ∈ walk kids fuel pending) ∧
      ∀ x ∈ walk kids fuel pending, ∀ c ∈ kids x, c ∈ walk kids fuel pending := by
  induction fuel generalizing pending with
  | zero =>
    cases pending with
    | nil => simp [walk]
    | cons x pending =>
      rw [List.flatMap_cons, preorder_eq] at h
      simp at h
  | succ fuel ih =>
    cases pending with
    | nil => simp [walk]
    | cons x pending =>
      have hall : ((kids x).flatMap f.preorder).length ≤ ((f.children x).flatMap f.preorder).length :=
        ((hkids x).flatMap _).length_le
      rw [List.flatMap_cons, preorder_eq, List.cons_append, List.length_cons,
        List.length_append] at h
      obtain ⟨hmem, hnext⟩ := @ih (kids x ++ pending) (by
        rw [List.flatMap_append, List.length_append]
        omega)
      rw [walk]
      refine ⟨fun y hy => ?_, fun y hy c hc => ?_⟩
      · rcases List.mem_cons.1 hy with rfl | hy
        · exact List.mem_cons_self
        · exact List.mem_cons_of_mem x (hmem y (List.mem_append_right _ hy))
      · rcases List.mem_cons.1 hy with rfl | hy
        · exact List.mem_cons_of_mem _ (hmem c (List.mem_append_left _ hc))
        · exact List.mem_cons_of_mem x (hnext y hy c hc)

theorem walk_eq {pending : List α} (h : (pending.flatMap f.preorder).length ≤ fuel) :
    walk f.children fuel pending = pending.flatMap f.preorder := by
  induction fuel generalizing pending with
  | zero =>
    cases pending with
    | nil => rfl
    | cons x pending =>
      rw [List.flatMap_cons, preorder_eq] at h
      simp at h
  | succ fuel ih =>
    cases pending with
    | nil => rfl
    | cons x pending =>
      rw [List.flatMap_cons, preorder_eq, List.cons_append] at h ⊢
      rw [walk, ih (by
        rw [List.flatMap_append]
        exact Nat.le_of_succ_le_succ h), List.flatMap_append]

theorem ancestors_eq (h : (f.chain x).length ≤ fuel + 1) :
    x :: ancestors f.parent fuel x = f.chain x := by
  induction x using f.induction_up generalizing fuel with
  | root x hx => cases fuel <;> simp [ancestors, hx, chain_of_root hx]
  | child x p hp ih =>
    rw [chain_of_parent hp, List.length_cons] at h
    obtain ⟨n, rfl⟩ : ∃ n, fuel = n + 1 := by
      have hpos := List.length_pos_iff.2 (f.chain_ne_nil p)
      exact ⟨fuel - 1, by omega⟩
    rw [chain_of_parent hp, ancestors, hp]
    exact congrArg _ (ih (by omega))

/-! ### Turns -/

section
variable {keys : List α} (h : ∀ y p, f.parent y = some p → y ∈ keys)
include h

theorem length_chain_le : (f.chain x).length ≤ keys.length + 1 := by
  have hsub : (f.chain x).dropLast ⊆ keys := by
    induction x using f.induction_up with
    | root x hx =>
      rw [chain_of_root hx]
      exact List.nil_subset _
    | child x p hp ih =>
      rw [chain_of_parent hp, List.dropLast_cons_of_ne_nil (f.chain_ne_nil p)]
      exact List.cons_subset.2 ⟨h x p hp, ih⟩
  have hnodup : (f.chain x).dropLast.Nodup := (f.nodup_chain x).sublist (List.dropLast_sublist _)
  have hle := hnodup.length_le_of_subset hsub
  rw [List.length_dropLast] at hle
  omega

theorem length_preorder_le : (f.preorder x).length ≤ keys.length + 1 := by
  have hnodup := f.preorder_eq x ▸ f.nodup_preorder x
  have hsub : (f.children x).flatMap f.preorder ⊆ keys := by
    intro y hy
    obtain ⟨c, hc, hyc⟩ := List.mem_flatMap.1 hy
    cases hp : f.parent y with
    | some p => exact h y p hp
    | none =>
      rw [mem_preorder, chain_of_root hp, List.mem_singleton] at hyc
      rw [mem_children, hyc, hp] at hc
      cases hc
  rw [preorder_eq, List.length_cons]
  exact Nat.succ_le_succ ((List.nodup_cons.1 hnodup).2.length_le_of_subset hsub)

end

end Forest

end Lib
