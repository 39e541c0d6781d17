import Mathlib.Data.List.Infix
import Mathlib.Data.List.Basic

/-!
# Searching a list, and deciding on a part of it

`findSub pat l` splits `l` where `pat` first occurs; what is found does not change with what
comes after the occurrence (`findSub_replace`). A decision that waits until it has seen enough
(`Settles`) is the same however the list arrives (`settle_eq`).

A reader takes the first element of a list that it can read, and leaves the others in their order.
Several readers take theirs one after another, each from what those before it left; that is one pass
that offers each element to those that have none yet (`readNext_cons`).
-/

namespace Lib
section
variable {α β : Type} {a b l pat s t x : List α}

theorem prefix_append_iff (h : pat.length ≤ s.length) : pat <+: s ++ t ↔ pat <+: s :=
  ⟨fun hpre => List.prefix_of_prefix_length_le hpre (List.prefix_append s t) h,
    fun hpre => hpre.trans (List.prefix_append s t)⟩

theorem prefix_append_iff_of_not (h : ¬ (s.length < pat.length ∧ s <+: pat)) :
    pat <+: s ++ t ↔ pat <+: s := by
  refine ⟨fun hpre => ?_, fun hpre => hpre.trans (List.prefix_append s t)⟩
  rcases List.prefix_or_prefix_of_prefix hpre (List.prefix_append s t) with hdone | hpart
  · exact hdone
  · rw [not_and'] at h
    exact List.prefix_of_prefix_length_le hpre (List.prefix_append s t) (Nat.le_of_not_lt (h hpart))

section
variable [DecidableEq α]

/-- What is before the first occurrence of `pat`, and what starts with it. -/
def findSub (pat : List α) : List α → Option (List α × List α)
  | [] => if pat = [] then some ([], []) else none
  | c :: s =>
    if pat.isPrefixOf (c :: s) then some ([], c :: s)
    else (findSub pat s).map fun (a, b) => (c :: a, b)

theorem findSub_spec (h : findSub pat l = some (a, b)) : l = a ++ b ∧ pat <+: b := by
  induction l generalizing a with
  | nil =>
    rw [findSub] at h
    split at h
    · rename_i hpat
      obtain ⟨rfl, rfl⟩ := Prod.mk.inj (Option.some.inj h)
      exact ⟨rfl, hpat ▸ List.nil_prefix⟩
    · cases h
  | cons c s ih =>
    rw [findSub] at h
    split at h
    · rename_i hpre
      obtain ⟨rfl, rfl⟩ := Prod.mk.inj (Option.some.inj h)
      exact ⟨rfl, List.isPrefixOf_iff_prefix.1 hpre⟩
    · obtain ⟨⟨a', b'⟩, hfound, heq⟩ := Option.map_eq_some_iff.1 h
      obtain ⟨rfl, rfl⟩ := Prod.mk.inj heq
      obtain ⟨hparts, hpat⟩ := ih hfound
      exact ⟨by rw [hparts, List.cons_append], hpat⟩

/-- What comes after the occurrence does not matter. -/
theorem findSub_replace (h : findSub pat (a ++ (pat ++ x)) = some (a, pat ++ x)) (y : List α) :
    findSub pat (a ++ (pat ++ y)) = some (a, pat ++ y) := by
  induction a with
  | nil =>
    have hpre : pat.isPrefixOf (pat ++ y) = true :=
      List.isPrefixOf_iff_prefix.2 (List.prefix_append pat y)
    rw [List.nil_append]
    cases hl : pat ++ y with
    | nil => rw [findSub, if_pos (List.append_eq_nil_iff.1 hl).1]
    | cons c s => rw [findSub, if_pos (hl ▸ hpre)]
  | cons c a ih =>
    rw [List.cons_append, findSub] at h ⊢
    split at h
    · cases (Prod.mk.inj (Option.some.inj h)).1
    · rename_i hnot
      obtain ⟨⟨a', b'⟩, hfound, heq⟩ := Option.map_eq_some_iff.1 h
      obtain ⟨ha, hb⟩ := Prod.mk.inj heq
      obtain rfl := (List.cons.inj ha).2
      rw [hb] at hfound
      have hlen : pat.length ≤ (c :: (a' ++ pat)).length := by
        rw [List.length_cons, List.length_append]
        omega
      have hparts : ∀ z, c :: (a' ++ (pat ++ z)) = c :: (a' ++ pat) ++ z := fun z => by
        rw [List.cons_append, List.append_assoc]
      rw [List.isPrefixOf_iff_prefix, hparts, prefix_append_iff hlen] at hnot
      rw [if_neg, ih hfound]
      · rfl
      · rwa [List.isPrefixOf_iff_prefix, hparts, prefix_append_iff hlen]

theorem findSub_append (h : findSub pat l = some (a, b)) (y : List α) :
    findSub pat (l ++ y) = some (a, b ++ y) := by
  obtain ⟨rfl, x, rfl⟩ := findSub_spec h
  rw [List.append_assoc, List.append_assoc]
  exact findSub_replace h (x ++ y)

end

/-! ### Deciding early -/

/-- `wait` decides on a part of a list only what `whole` decides on every list that starts with it. -/
structure Settles (wait : List α → Option β) (whole : List α → β) : Prop where
  stable : ∀ {l r}, wait l = some r → ∀ c, wait (l ++ c) = some r
  agrees : ∀ {l r}, wait l = some r → ∀ c, whole (l ++ c) = r

/-- Decides on what has arrived after each piece, and on the whole at the end. -/
def settle (wait : List α → Option β) (whole : List α → β) : List α → List (List α) → β
  | pending, [] => whole pending
  | pending, chunk :: chunks =>
    match wait (pending ++ chunk) with
    | some r => r
    | none => settle wait whole (pending ++ chunk) chunks

theorem settle_eq {wait : List α → Option β} {whole : List α → β} (h : Settles wait whole)
    (pending : List α) (chunks : List (List α)) :
    settle wait whole pending chunks = whole (pending ++ chunks.flatten) := by
  induction chunks generalizing pending with
  | nil => rw [settle, List.flatten_nil, List.append_nil]
  | cons chunk chunks ih =>
    rw [settle, List.flatten_cons, ← List.append_assoc]
    cases hwait : wait (pending ++ chunk) with
    | none => exact ih _
    | some r => exact (h.agrees hwait _).symm

end

/-! ### First readings -/

section FirstRead
variable {α β : Type} {read : α → Option β} {a : α} {l : List α}

/-- What the first element that can be read says, and the others. -/
def firstRead (read : α → Option β) : List α → Option β × List α
  | [] => (none, [])
  | a :: l => match read a with
    | some b => (some b, l)
    | none => ((firstRead read l).1, a :: (firstRead read l).2)

/-- The reader may already have taken an element. -/
def readNext (read : α → Option β) (taken : Option β) (l : List α) : Option β × List α :=
  match taken with
  | some b => (some b, l)
  | none => firstRead read l

theorem readNext_none : readNext read none l = firstRead read l := rfl

@[simp] theorem readNext_some (b : β) : readNext read (some b) l = (some b, l) := rfl

theorem readNext_of_isSome {taken : Option β} (h : taken.isSome = true) :
    readNext read taken l = (taken, l) := by
  obtain ⟨b, rfl⟩ := Option.isSome_iff_exists.1 h
  rfl

@[simp] theorem readNext_nil (taken : Option β) : readNext read taken [] = (taken, []) := by
  cases taken <;> rfl

theorem readNext_cons (taken : Option β) : readNext read taken (a :: l) =
    if taken.isNone && (read a).isSome then (read a, l)
    else ((readNext read taken l).1, a :: (readNext read taken l).2) := by
  cases taken with
  | some b => rfl
  | none =>
    rw [readNext_none, firstRead]
    cases read a with
    | some b => rfl
    | none => rfl

end FirstRead
end Lib
