import Mathlib.Data.List.Nodup
import Mathlib.Logic.Function.Basic
import Mathlib.Tactic.SplitIfs
import Mathlib.Tactic.Use

/-!
# Ordered forests

A forest gives every key an ordered list of children and a link to its parent. The two agree, no
child stands twice, and no walk goes on forever, up or down; a key that has neither is a tree of its
own. `detach` cuts one key's link with its subtree on it, `insert` links a detached key under a
parent before one of its children or at the end, and `attach` does both. The child lists determine
the forest (`ext_children`), so an equation between forests is one between child lists.
-/

namespace Lib

section Place
variable {α : Type} [DecidableEq α] {l xs ys : List α} {r x : α}

/-- The list `l` with `xs` put before an element, or at the end. -/
def place (l xs : List α) : Option α → List α
  | none => l ++ xs
  | some r => l.takeWhile (· ≠ r) ++ xs ++ l.dropWhile (· ≠ r)

theorem place_split {a b : List α} (h : r ∉ a) :
    place (a ++ r :: b) xs (some r) = a ++ xs ++ r :: b := by
  have ha : ∀ y ∈ a, decide (y ≠ r) = true := fun y hy => by
    rw [decide_eq_true_eq]
    rintro rfl
    exact h hy
  rw [place, List.takeWhile_append_of_pos ha, List.dropWhile_append_of_pos ha]
  simp

theorem mem_place {ref : Option α} : x ∈ place l xs ref ↔ x ∈ l ∨ x ∈ xs := by
  cases ref with
  | none => simp [place]
  | some r =>
    have hl : x ∈ l ↔ x ∈ l.takeWhile (· ≠ r) ∨ x ∈ l.dropWhile (· ≠ r) := by
      rw [← List.mem_append, List.takeWhile_append_dropWhile]
    rw [hl]
    simp only [place, List.mem_append]
    tauto

theorem nodup_place (hl : l.Nodup) (hx : xs.Nodup) (hd : ∀ x ∈ xs, x ∉ l) (ref : Option α) :
    (place l xs ref).Nodup := by
  have hp : (place l xs ref).Perm (l ++ xs) := by
    cases ref with
    | none => exact .refl _
    | some r =>
      have h : (l.takeWhile (· ≠ r) ++ l.dropWhile (· ≠ r) ++ xs).Perm (l ++ xs) := by
        rw [List.takeWhile_append_dropWhile]
      refine .trans ?_ h
      rw [place, List.append_assoc, List.append_assoc]
      exact .append_left _ List.perm_append_comm
  exact hp.nodup_iff.2 (List.nodup_append.2
    ⟨hl, hx, fun a ha b hb hab => hd b hb (hab ▸ ha)⟩)

/-- Placing in two goes before the same element. -/
theorem place_place {ref : Option α} (h : ∀ r ∈ ref, r ∈ l ∧ r ∉ xs) :
    place (place l xs ref) ys ref = place l (xs ++ ys) ref := by
  cases ref with
  | none => simp [place]
  | some r =>
    obtain ⟨hr, hx⟩ := h r rfl
    obtain ⟨a, b, rfl, ha⟩ := List.eq_append_cons_of_mem hr
    have hax : r ∉ a ++ xs := by simp [ha, hx]
    rw [place_split ha, place_split ha, place_split hax]
    simp

theorem filter_place {P : α → Bool} {ref : Option α} (h : ∀ r ∈ ref, r ∈ l ∧ P r) :
    (place l xs ref).filter P = place (l.filter P) (xs.filter P) ref := by
  cases ref with
  | none => simp [place]
  | some r =>
    obtain ⟨hr, hP⟩ := h r rfl
    obtain ⟨a, b, rfl, ha⟩ := List.eq_append_cons_of_mem hr
    have har : r ∉ a.filter P := fun hm => ha (List.mem_filter.1 hm).1
    rw [place_split ha, List.filter_append a, List.filter_cons_of_pos hP, place_split har]
    simp [hP]

theorem filter_erase {c : α} (h : l.Nodup) :
    (l.erase c).filter (· ∉ xs) = l.filter (· ∉ c :: xs) := by
  rw [h.erase_eq_filter, List.filter_filter]
  congr 1
  funext x
  by_cases hx : x = c <;> simp [hx]

theorem erase_eq_filter_notMem (h : l.Nodup) (x : α) : l.erase x = l.filter (· ∉ [x]) := by
  rw [h.erase_eq_filter]
  simp only [List.mem_singleton]
  congr 1
  funext y
  rw [bne, decide_not]
  rfl

theorem place_nil (ref : Option α) : place l [] ref = l := by
  cases ref <;> simp [place]

/-- `xs` between the two parts of a list, which lose what is in `xs`. -/
def weave (before xs after : List α) : List α :=
  before.filter (· ∉ xs) ++ xs ++ after.filter (· ∉ xs)

variable {before after : List α}

theorem place_eq_weave (hnodup : (before ++ after).Nodup)
    (href : ∀ r ∈ after.head?, r ∉ xs) :
    place ((before ++ after).filter (· ∉ xs)) xs after.head? = weave before xs after := by
  cases after with
  | nil => simp [place, weave]
  | cons r after =>
    have hr : r ∉ xs := href r rfl
    have hbefore : r ∉ before.filter (· ∉ xs) := fun h =>
      List.disjoint_of_nodup_append hnodup (List.mem_of_mem_filter h) List.mem_cons_self
    rw [List.filter_append, List.filter_cons_of_pos (by simpa using hr), List.head?_cons,
      place_split hbefore, weave, List.filter_cons_of_pos (by simpa using hr)]

theorem weave_cons_of_mem (h : x ∈ xs) (before after : List α) :
    weave before xs (x :: after) = weave before xs after := by
  rw [weave, weave, List.filter_cons_of_neg (by simpa using h)]

theorem weave_concat_of_mem (h : x ∈ xs) (before after : List α) :
    weave (before ++ [x]) xs after = weave before xs after := by
  rw [weave, weave, List.filter_append, List.filter_cons_of_neg (by simpa using h), List.filter_nil,
    List.append_nil]

theorem weave_filter (before after : List α) :
    weave (before.filter (· ∉ xs)) xs (after.filter (· ∉ xs)) = weave before xs after := by
  rw [weave, weave, List.filter_filter, List.filter_filter]
  simp only [Bool.and_self]

theorem mem_weave :
    x ∈ weave before xs after ↔ x ∈ before ∨ x ∈ xs ∨ x ∈ after := by
  simp only [weave, List.mem_append, List.mem_filter, decide_eq_true_eq]
  tauto

/-- A relation holds along the list when it does along its parts and across them. -/
theorem pairwise_weave {R : α → α → Prop}
    (h : (before ++ after).Pairwise R) (hxs : xs.Pairwise R)
    (hbefore : ∀ a ∈ before, a ∉ xs → ∀ x ∈ xs, R a x)
    (hafter : ∀ x ∈ xs, ∀ b ∈ after, b ∉ xs → R x b) : (weave before xs after).Pairwise R := by
  obtain ⟨hb, ha, hba⟩ := List.pairwise_append.1 h
  rw [weave, List.append_assoc, List.pairwise_append, List.pairwise_append]
  refine ⟨hb.filter _, ⟨hxs, ha.filter _, fun x hx b hm => ?_⟩, fun a hm y hy => ?_⟩
  · obtain ⟨hm, hnot⟩ := List.mem_filter.1 hm
    exact hafter x hx b hm (by simpa using hnot)
  · obtain ⟨hm, hnot⟩ := List.mem_filter.1 hm
    rcases List.mem_append.1 hy with hy | hy
    · exact hbefore a hm (by simpa using hnot) y hy
    · exact hba a hm y (List.mem_of_mem_filter hy)

end Place

/-- Ordered trees over the keys `α`. -/
structure Forest (α : Type) where
  children : α → List α
  parent : α → Option α
  mem_children : ∀ {p c}, c ∈ children p ↔ parent c = some p
  nodup : ∀ p, (children p).Nodup
  up : WellFounded fun p c => parent c = some p
  down : WellFounded fun c p => parent c = some p

namespace Forest

variable {α : Type} {f g : Forest α} {p c x y r : α}

theorem parent_eq_of_children (h : f.children = g.children) (c : α) : f.parent c = g.parent c := by
  have key : ∀ p, f.parent c = some p ↔ g.parent c = some p := fun p => by
    rw [← f.mem_children, ← g.mem_children, h]
  cases hf : f.parent c with
  | some p => exact ((key p).1 hf).symm
  | none =>
    cases hg : g.parent c with
    | none => rfl
    | some p => rw [(key p).2 hg] at hf; cases hf

theorem ext_children (h : f.children = g.children) : f = g := by
  have hp : f.parent = g.parent := funext (parent_eq_of_children h)
  cases f
  cases g
  subst h
  subst hp
  rfl

/-- The forest without a link. -/
def empty : Forest α where
  children _ := []
  parent _ := none
  mem_children := by simp
  nodup _ := .nil
  up := ⟨fun _ => ⟨_, fun _ h => nomatch h⟩⟩
  down := ⟨fun _ => ⟨_, fun _ h => nomatch h⟩⟩

/-- One root with its children. -/
def star [DecidableEq α] (root : α) (kids : List α) (hnodup : kids.Nodup) (hroot : root ∉ kids) :
    Forest α where
  children q := if q = root then kids else []
  parent c := if c ∈ kids then some root else none
  mem_children {q c} := by
    by_cases hq : q = root
    · subst hq
      simp
    · simp [hq, Ne.symm hq]
  nodup q := by
    split
    · exact hnodup
    · exact .nil
  up := by
    have hacc : Acc (fun q c => (if c ∈ kids then some root else none) = some q) root :=
      ⟨_, fun q h => by rw [if_neg hroot] at h; cases h⟩
    refine ⟨fun c => ⟨_, fun q h => ?_⟩⟩
    split at h
    · exact Option.some.inj h ▸ hacc
    · cases h
  down := by
    have hacc : ∀ q ≠ root, Acc (fun c q => (if c ∈ kids then some root else none) = some q) q :=
      fun q hq => ⟨_, fun c h => by
        split at h
        · exact absurd (Option.some.inj h).symm hq
        · cases h⟩
    refine ⟨fun q => ⟨_, fun c h => hacc c ?_⟩⟩
    rintro rfl
    rw [if_neg hroot] at h
    cases h

theorem induction_up (f : Forest α) {P : α → Prop} (root : ∀ x, f.parent x = none → P x)
    (child : ∀ x p, f.parent x = some p → P p → P x) (x : α) : P x :=
  f.up.induction x fun x ih =>
    match h : f.parent x with
    | none => root x h
    | some p => child x p h (ih p h)

/-! ### Ancestors -/

/-- A key followed by its ancestors, nearest first. -/
def chain (f : Forest α) (x : α) : List α :=
  x :: match _h : f.parent x with
    | none => []
    | some p => f.chain p
termination_by f.up.wrap x

theorem chain_of_root (h : f.parent x = none) : f.chain x = [x] := by
  rw [chain]
  split
  · rfl
  · rename_i p hp
    rw [h] at hp
    cases hp

theorem chain_of_parent (h : f.parent x = some p) : f.chain x = x :: f.chain p := by
  rw [chain]
  split
  · rename_i hp
    rw [h] at hp
    cases hp
  · rename_i q hq
    rw [h] at hq
    cases hq
    rfl

theorem mem_chain_self (f : Forest α) (x : α) : x ∈ f.chain x := by
  rw [chain]
  exact List.mem_cons_self

theorem chain_ne_nil (f : Forest α) (x : α) : f.chain x ≠ [] :=
  List.ne_nil_of_mem (f.mem_chain_self x)

theorem mem_chain_of_parent (h : f.parent x = some p) : c ∈ f.chain x ↔ c = x ∨ c ∈ f.chain p := by
  rw [chain_of_parent h, List.mem_cons]

theorem mem_chain_trans (h : c ∈ f.chain p) (hp : p ∈ f.chain x) : c ∈ f.chain x := by
  induction x using f.induction_up with
  | root x hx =>
    rw [chain_of_root hx, List.mem_singleton] at hp
    exact hp ▸ h
  | child x q hq ih =>
    rcases (mem_chain_of_parent hq).1 hp with rfl | hp
    · exact h
    · rw [mem_chain_of_parent hq]
      exact .inr (ih hp)

/-- Nothing is above its own parent. -/
theorem not_mem_chain_parent (h : f.parent c = some p) : c ∉ f.chain p := by
  have key : ∀ x, ∀ q, f.parent x = some q → x ∉ f.chain q := fun x => by
    induction x using f.induction_up with
    | root x hx => rintro q hq; rw [hx] at hq; cases hq
    | child x q hq ih =>
      rintro q' hq' hx
      rw [hq] at hq'
      obtain rfl := Option.some.inj hq'
      cases hqp : f.parent q with
      | none =>
        rw [chain_of_root hqp, List.mem_singleton] at hx
        subst hx
        rw [hqp] at hq
        cases hq
      | some q₂ =>
        rw [mem_chain_of_parent hqp] at hx
        rcases hx with rfl | hx
        · rw [hqp] at hq
          obtain rfl := Option.some.inj hq
          exact ih q₂ hqp (f.mem_chain_self q₂)
        · refine ih q₂ hqp (mem_chain_trans ?_ hx)
          rw [mem_chain_of_parent hq]
          exact .inr (f.mem_chain_self q)
  exact key c p h

/-- Two keys that are above a third are above one another. -/
theorem chain_total (hx : c ∈ f.chain x) (hy : p ∈ f.chain x) :
    c ∈ f.chain p ∨ p ∈ f.chain c := by
  induction x using f.induction_up with
  | root x h =>
    rw [chain_of_root h, List.mem_singleton] at hx hy
    rw [hx, hy]
    exact .inl (f.mem_chain_self x)
  | child x q hq ih =>
    rcases (mem_chain_of_parent hq).1 hx with rfl | hx'
    · exact .inr hy
    · rcases (mem_chain_of_parent hq).1 hy with rfl | hy'
      · exact .inl hx
      · exact ih hx' hy'

/-- Siblings have disjoint subtrees. -/
theorem eq_of_siblings (hc : f.parent c = some p) (hy : f.parent y = some p) (hcx : c ∈ f.chain x)
    (hyx : y ∈ f.chain x) : c = y := by
  rcases chain_total hcx hyx with h | h
  · rcases (mem_chain_of_parent hy).1 h with h | h
    · exact h
    · exact absurd h (not_mem_chain_parent hc)
  · rcases (mem_chain_of_parent hc).1 h with h | h
    · exact h.symm
    · exact absurd h (not_mem_chain_parent hy)

theorem not_mem_children_of_root (h : f.parent c = none) : c ∉ f.children p := by
  rw [f.mem_children, h]
  simp

/-! ### Cutting a link -/

section
variable [DecidableEq α]

/-- `c` and its subtree become a tree of their own. -/
def detach (f : Forest α) (c : α) : Forest α where
  children q := (f.children q).erase c
  parent := Function.update f.parent c none
  mem_children {q d} := by
    rw [(f.nodup q).mem_erase_iff, f.mem_children]
    by_cases hd : d = c
    · subst hd
      simp
    · simp [hd]
  nodup q := (f.nodup q).erase c
  up := Subrelation.wf (fun {q d} h => by
    by_cases hd : d = c
    · subst hd
      simp at h
    · simpa [hd] using h) f.up
  down := Subrelation.wf (fun {d q} h => by
    by_cases hd : d = c
    · subst hd
      simp at h
    · simpa [hd] using h) f.down

@[simp] theorem children_detach (f : Forest α) (c q : α) :
    (f.detach c).children q = (f.children q).erase c := rfl

@[simp] theorem parent_detach_self (f : Forest α) (c : α) : (f.detach c).parent c = none :=
  Function.update_self ..

theorem parent_detach_of_ne (h : x ≠ c) : (f.detach c).parent x = f.parent x :=
  Function.update_of_ne h ..

theorem detach_of_root (h : f.parent c = none) : f.detach c = f := by
  apply ext_children
  funext q
  exact List.erase_of_not_mem (not_mem_children_of_root h)

theorem children_detach_eq_update (h : f.parent c = some p) :
    (f.detach c).children = Function.update f.children p ((f.children p).erase c) := by
  funext q
  rw [Function.update_apply, children_detach]
  split
  · rename_i hq
    rw [hq]
  · rename_i hq
    apply List.erase_of_not_mem
    rw [f.mem_children, h, Option.some_inj]
    exact fun hqp => hq hqp.symm

theorem chain_detach_of_not_mem (h : c ∉ f.chain x) : (f.detach c).chain x = f.chain x := by
  induction x using f.induction_up with
  | root x hx =>
    rw [chain_of_root hx, List.mem_singleton] at h
    rw [chain_of_root hx, chain_of_root]
    rw [parent_detach_of_ne (Ne.symm h), hx]
  | child x q hq ih =>
    rw [mem_chain_of_parent hq, not_or] at h
    rw [chain_of_parent hq, chain_of_parent (p := q), ih h.2]
    rw [parent_detach_of_ne (Ne.symm h.1), hq]

/-- Below the cut the chains end at the cut key. -/
theorem chain_detach_of_mem (h : c ∈ f.chain x) : (f.detach c).chain x ++ (f.chain c).tail = f.chain x := by
  induction x using f.induction_up with
  | root x hx =>
    rw [chain_of_root hx, List.mem_singleton] at h
    subst h
    rw [detach_of_root hx, chain_of_root hx]
    rfl
  | child x q hq ih =>
    by_cases hx : x = c
    · subst hx
      rw [chain_of_root (f.parent_detach_self x), chain_of_parent hq]
      rfl
    · rw [mem_chain_of_parent hq] at h
      rcases h with h | h
      · exact absurd h.symm hx
      · rw [chain_of_parent (f := f) hq, chain_of_parent (p := q), List.cons_append, ih h]
        rw [parent_detach_of_ne hx, hq]

theorem mem_chain_detach (h : y ∈ (f.detach c).chain x) : y ∈ f.chain x := by
  by_cases hc : c ∈ f.chain x
  · rw [← chain_detach_of_mem hc]
    exact List.mem_append_left _ h
  · rwa [chain_detach_of_not_mem hc] at h

/-! ### Making a link -/

/-- What it takes to link `c` under `p` before `ref`. -/
structure Fits (f : Forest α) (p c : α) (ref : Option α) : Prop where
  detached : f.parent c = none
  acyclic : c ∉ f.chain p
  ref_mem : ∀ r ∈ ref, r ∈ f.children p

instance (f : Forest α) (p c : α) (ref : Option α) : Decidable (f.Fits p c ref) :=
  decidable_of_iff (f.parent c = none ∧ c ∉ f.chain p ∧ ∀ r ∈ ref, r ∈ f.children p)
    ⟨fun h => ⟨h.1, h.2.1, h.2.2⟩, fun h => ⟨h.1, h.2, h.3⟩⟩

theorem Fits.up {ref : Option α} (h : f.Fits p c ref) :
    WellFounded fun q d => Function.update f.parent c (some p) d = some q := by
  -- The ancestors of `p` are as they were, so `c` is reached; then so is everything else.
  have acc_of : ∀ x, c ∉ f.chain x →
      Acc (fun q d => Function.update f.parent c (some p) d = some q) x := fun x => by
    induction x using f.induction_up with
    | root x hx =>
      intro hc
      rw [chain_of_root hx, List.mem_singleton] at hc
      refine ⟨_, fun q hq => ?_⟩
      rw [Function.update_of_ne (Ne.symm hc), hx] at hq
      cases hq
    | child x q hq ih =>
      intro hc
      rw [mem_chain_of_parent hq, not_or] at hc
      refine ⟨_, fun q' hq' => ?_⟩
      rw [Function.update_of_ne (Ne.symm hc.1), hq] at hq'
      obtain rfl := Option.some.inj hq'
      exact ih hc.2
  refine ⟨fun x => ?_⟩
  induction x using f.induction_up with
  | root x hx =>
    by_cases hc : x = c
    · subst hc
      refine ⟨_, fun q hq => ?_⟩
      rw [Function.update_self] at hq
      obtain rfl := Option.some.inj hq
      exact acc_of p h.acyclic
    · refine ⟨_, fun q hq => ?_⟩
      rw [Function.update_of_ne hc, hx] at hq
      cases hq
  | child x q hq ih =>
    have hc : x ≠ c := by
      rintro rfl
      rw [h.detached] at hq
      cases hq
    refine ⟨_, fun q' hq' => ?_⟩
    rw [Function.update_of_ne hc, hq] at hq'
    obtain rfl := Option.some.inj hq'
    exact ih

theorem Fits.down {ref : Option α} (h : f.Fits p c ref) :
    WellFounded fun d q => Function.update f.parent c (some p) d = some q := by
  -- What is not above `p` has the children it had; in particular `c` has.
  have acc_of : ∀ x, x ∉ f.chain p →
      Acc (fun d q => Function.update f.parent c (some p) d = some q) x := fun x => by
    induction x using f.down.induction with
    | _ x ih =>
      intro hx
      refine ⟨_, fun d hd => ?_⟩
      by_cases hdc : d = c
      · subst hdc
        rw [Function.update_self] at hd
        obtain rfl := Option.some.inj hd
        exact absurd (f.mem_chain_self p) hx
      · rw [Function.update_of_ne hdc] at hd
        refine ih d hd fun hdp => hx (mem_chain_trans ?_ hdp)
        rw [mem_chain_of_parent hd]
        exact .inr (f.mem_chain_self x)
  refine ⟨fun x => ?_⟩
  induction x using f.down.induction with
  | _ x ih =>
    refine ⟨_, fun d hd => ?_⟩
    by_cases hdc : d = c
    · subst hdc
      exact acc_of d h.acyclic
    · rw [Function.update_of_ne hdc] at hd
      exact ih d hd

/-- `c` becomes a child of `p` before `ref`, or its last child. -/
def link (f : Forest α) (p c : α) (ref : Option α) (h : f.Fits p c ref) : Forest α where
  children := Function.update f.children p (place (f.children p) [c] ref)
  parent := Function.update f.parent c (some p)
  mem_children {q d} := by
    by_cases hq : q = p
    · subst hq
      rw [Function.update_self, mem_place, f.mem_children, List.mem_singleton]
      by_cases hd : d = c
      · subst hd
        simp
      · simp [hd]
    · rw [Function.update_of_ne hq, f.mem_children]
      by_cases hd : d = c
      · subst hd
        rw [h.detached, Function.update_self]
        simp [Ne.symm hq]
      · rw [Function.update_of_ne hd]
  nodup q := by
    by_cases hq : q = p
    · subst hq
      rw [Function.update_self]
      refine nodup_place (f.nodup q) (List.nodup_singleton c) ?_ ref
      simpa using not_mem_children_of_root h.detached
    · rw [Function.update_of_ne hq]
      exact f.nodup q
  up := h.up
  down := h.down

def insert (f : Forest α) (p c : α) (ref : Option α) : Forest α :=
  if h : f.Fits p c ref then f.link p c ref h else f

/-- `c` leaves its place, if it has one, and becomes a child of `p`. -/
def attach (f : Forest α) (p c : α) (ref : Option α) : Forest α := (f.detach c).insert p c ref

section
variable {ref : Option α}

theorem Fits.children_insert (h : f.Fits p c ref) (q : α) : (f.insert p c ref).children q =
    if q = p then place (f.children p) [c] ref else f.children q := by
  rw [insert, dif_pos h]
  exact Function.update_apply ..

theorem Fits.parent_insert (h : f.Fits p c ref) (x : α) :
    (f.insert p c ref).parent x = if x = c then some p else f.parent x := by
  rw [insert, dif_pos h]
  exact Function.update_apply ..

theorem Fits.chain_insert (h : f.Fits p c ref) (hx : c ∉ f.chain x) :
    (f.insert p c ref).chain x = f.chain x := by
  induction x using f.induction_up with
  | root x hr =>
    rw [chain_of_root hr, List.mem_singleton] at hx
    rw [chain_of_root hr, chain_of_root]
    rw [h.parent_insert, if_neg (Ne.symm hx), hr]
  | child x q hq ih =>
    rw [mem_chain_of_parent hq, not_or] at hx
    rw [chain_of_parent hq, chain_of_parent (p := q), ih hx.2]
    rw [h.parent_insert, if_neg (Ne.symm hx.1), hq]

/-- What `attach` asks for: no cycle, and a child to stand before that is not the key itself. -/
structure Joins (f : Forest α) (p c : α) (ref : Option α) : Prop where
  acyclic : c ∉ f.chain p
  ref_mem : ∀ r ∈ ref, r ∈ f.children p ∧ r ≠ c

theorem Joins.fits (h : f.Joins p c ref) : (f.detach c).Fits p c ref where
  detached := f.parent_detach_self c
  acyclic := by rw [chain_detach_of_not_mem h.acyclic]; exact h.acyclic
  ref_mem r hr := by
    obtain ⟨hm, hne⟩ := h.ref_mem r hr
    rw [children_detach, (f.nodup p).mem_erase_iff]
    exact ⟨hne, hm⟩

theorem Joins.children_attach (h : f.Joins p c ref) (q : α) : (f.attach p c ref).children q =
    if q = p then place ((f.children p).erase c) [c] ref else (f.children q).erase c := by
  rw [attach, h.fits.children_insert, children_detach, children_detach]

theorem Joins.chain_attach (h : f.Joins p c ref) (hx : c ∉ f.chain x) :
    (f.attach p c ref).chain x = f.chain x := by
  rw [attach, h.fits.chain_insert, chain_detach_of_not_mem hx]
  rwa [chain_detach_of_not_mem hx]

end

theorem Joins.detached {ref : Option α} (h : f.Joins p c ref) : (f.detach c).Joins p c ref :=
  ⟨h.fits.acyclic, fun r hr => ⟨h.fits.ref_mem r hr, (h.ref_mem r hr).2⟩⟩

/-! ### Several keys at once -/

/-- The keys of `cs` leave their places and become children of `p`, in order. -/
def attachAll (f : Forest α) (p : α) (cs : List α) (ref : Option α) : Forest α :=
  cs.foldl (fun f c => f.attach p c ref) f

def detachAll (f : Forest α) (cs : List α) : Forest α := cs.foldl detach f

theorem children_detachAll (f : Forest α) (cs : List α) (q : α) :
    (f.detachAll cs).children q = (f.children q).filter (· ∉ cs) := by
  induction cs generalizing f with
  | nil => simp [detachAll]
  | cons c cs ih =>
    have h : (f.detachAll (c :: cs)).children q = ((f.detach c).detachAll cs).children q := rfl
    rw [h, ih, children_detach, filter_erase (f.nodup q)]

/-- Cutting all children of `p` loose empties its list and no other. -/
theorem children_detachAll_children (f : Forest α) (p : α) :
    (f.detachAll (f.children p)).children = Function.update f.children p [] := by
  funext q
  rw [Function.update_apply, children_detachAll]
  split
  · rename_i hq
    subst hq
    rw [List.filter_eq_nil_iff]
    simp
  · rename_i hq
    rw [List.filter_eq_self]
    intro x hx
    rw [decide_eq_true_eq]
    intro hx'
    rw [mem_children] at hx hx'
    rw [hx] at hx'
    exact hq (Option.some.inj hx')

theorem parent_detachAll_of_mem {cs : List α} (h : c ∈ cs) : (f.detachAll cs).parent c = none := by
  cases hp : (f.detachAll cs).parent c with
  | none => rfl
  | some p =>
    rw [← mem_children, children_detachAll, List.mem_filter] at hp
    simp [h] at hp

theorem parent_detachAll_of_not_mem {cs : List α} (h : c ∉ cs) :
    (f.detachAll cs).parent c = f.parent c := by
  apply Option.ext
  intro p
  rw [← mem_children, ← mem_children, children_detachAll, List.mem_filter]
  simp [h]

theorem mem_chain_detachAll {cs : List α} (h : y ∈ (f.detachAll cs).chain x) : y ∈ f.chain x := by
  induction cs generalizing f with
  | nil => exact h
  | cons c cs ih => exact mem_chain_detach (ih h)

theorem detachAll_of_roots {cs : List α} (h : ∀ c ∈ cs, f.parent c = none) : f.detachAll cs = f := by
  apply ext_children
  funext q
  rw [children_detachAll, List.filter_eq_self]
  intro x hx
  rw [mem_children] at hx
  rw [decide_eq_true_eq]
  intro hc
  rw [h x hc] at hx
  cases hx

/-- `Joins` for a list of keys that go in one after another. -/
structure JoinsAll (f : Forest α) (p : α) (cs : List α) (ref : Option α) : Prop where
  nodup : cs.Nodup
  acyclic : ∀ c ∈ cs, c ∉ f.chain p
  ref_mem : ∀ r ∈ ref, r ∈ f.children p ∧ r ∉ cs

variable {ref : Option α} {cs : List α}

omit [DecidableEq α] in
theorem Joins.all (h : f.Joins p c ref) : f.JoinsAll p [c] ref where
  nodup := List.nodup_singleton c
  acyclic d hd := by
    rw [List.mem_singleton] at hd
    exact hd ▸ h.acyclic
  ref_mem r hr := ⟨(h.ref_mem r hr).1, by simpa using (h.ref_mem r hr).2⟩

omit [DecidableEq α] in
theorem JoinsAll.head (h : f.JoinsAll p (c :: cs) ref) : f.Joins p c ref where
  acyclic := h.acyclic c List.mem_cons_self
  ref_mem r hr := by
    obtain ⟨hm, hne⟩ := h.ref_mem r hr
    exact ⟨hm, fun hrc => hne (hrc ▸ List.mem_cons_self)⟩

theorem JoinsAll.tail (h : f.JoinsAll p (c :: cs) ref) : (f.attach p c ref).JoinsAll p cs ref where
  nodup := (List.nodup_cons.1 h.nodup).2
  acyclic d hd := by
    rw [h.head.chain_attach h.head.acyclic]
    exact h.acyclic d (List.mem_cons_of_mem _ hd)
  ref_mem r hr := by
    obtain ⟨hm, hne⟩ := h.ref_mem r hr
    rw [List.mem_cons, not_or] at hne
    rw [h.head.children_attach, if_pos rfl, mem_place, (f.nodup p).mem_erase_iff]
    exact ⟨.inl ⟨hne.1, hm⟩, hne.2⟩

/-- The child lists after all of `cs` went to `p`: gone from where they were, and together in
their new place. -/
theorem JoinsAll.children_attachAll (h : f.JoinsAll p cs ref) (q : α) :
    (f.attachAll p cs ref).children q =
      if q = p then place ((f.children p).filter (· ∉ cs)) cs ref
      else (f.children q).filter (· ∉ cs) := by
  induction cs generalizing f with
  | nil =>
    show f.children q = _
    split
    · rename_i hq
      rw [place_nil, hq]
      simp
    · simp
  | cons c cs ih =>
    have hstep : (f.attachAll p (c :: cs) ref).children q =
      ((f.attach p c ref).attachAll p cs ref).children q := rfl
    have hcs : c ∉ cs := (List.nodup_cons.1 h.nodup).1
    rw [hstep, ih h.tail, h.head.children_attach, h.head.children_attach, if_pos rfl]
    by_cases hq : q = p
    · have href : ∀ r ∈ ref, r ∈ (f.children p).erase c ∧ r ≠ c ∧ r ∉ cs := by
        intro r hr
        obtain ⟨hm, hne⟩ := h.ref_mem r hr
        rw [List.mem_cons, not_or] at hne
        exact ⟨(f.nodup p).mem_erase_iff.2 ⟨hne.1, hm⟩, hne⟩
      -- Before the same child, one key and then the others are all of them together.
      rw [if_pos hq, if_pos hq, filter_place fun r hr => ⟨(href r hr).1, by simpa using (href r hr).2.2⟩,
        filter_erase (f.nodup p), List.filter_cons_of_pos (by simpa using hcs), List.filter_nil,
        place_place, List.singleton_append]
      intro r hr
      obtain ⟨hm, hne⟩ := href r hr
      rw [← filter_erase (f.nodup p), List.mem_filter]
      exact ⟨⟨hm, by simpa using hne.2⟩, by simpa using hne.1⟩
    · rw [if_neg hq, if_neg hq, if_neg hq, filter_erase (f.nodup q)]

/-- The new child list of `p`, by the cut that the reference child makes in the old one. -/
theorem JoinsAll.children_attachAll_cut (h : f.JoinsAll p cs ref) {before after : List α}
    (hkids : f.children p = before ++ after) (href : after.head? = ref) :
    (f.attachAll p cs ref).children p = weave before cs after := by
  subst href
  rw [h.children_attachAll, if_pos rfl, hkids,
    place_eq_weave (hkids ▸ f.nodup p) fun r hr => (h.ref_mem r hr).2]

theorem JoinsAll.children_attachAll_eq_update (h : f.JoinsAll p cs ref) :
    (f.attachAll p cs ref).children = Function.update (f.detachAll cs).children p
      (place ((f.detachAll cs).children p) cs ref) := by
  funext q
  rw [Function.update_apply, h.children_attachAll, children_detachAll, children_detachAll]

theorem JoinsAll.detached (h : f.JoinsAll p cs ref) : (f.detachAll cs).JoinsAll p cs ref where
  nodup := h.nodup
  acyclic c hc hm := h.acyclic c hc (mem_chain_detachAll hm)
  ref_mem r hr := by
    obtain ⟨hm, hne⟩ := h.ref_mem r hr
    rw [children_detachAll, List.mem_filter]
    exact ⟨⟨hm, by simpa using hne⟩, hne⟩

theorem JoinsAll.detach (h : f.JoinsAll p cs ref) (hr : ∀ r ∈ ref, r ≠ c) :
    (f.detach c).JoinsAll p cs ref where
  nodup := h.nodup
  acyclic d hd hm := h.acyclic d hd (mem_chain_detach hm)
  ref_mem r hrr := by
    obtain ⟨hm, hne⟩ := h.ref_mem r hrr
    rw [children_detach, (f.nodup p).mem_erase_iff]
    exact ⟨⟨hr r hrr, hm⟩, hne⟩

end

end Forest

end Lib
