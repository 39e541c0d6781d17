import Mathlib.Data.List.TakeWhile
import Mathlib.Data.List.Sort
import TinyBrowser.Lib.Lines

/-!
# Stripping, joining and stable sorts

`strip p l` drops the elements with `p` from both ends of `l`. When `t` has no element with `p`, it is
what is left of `l` exactly if `l` is `t` between such elements (`strip_eq_iff`).

A text that is joined from pieces without the separator comes apart into them again
(`split_intercalate`), up to the white space that `trim` drops. A list is sorted stably when the
elements that the order does not tell apart keep their positions (`pairwise_insertionSort_zipIdx`).
-/

namespace Lib

section
variable {α : Type} {p : α → Bool} {a b l r t : List α} {c : α}

def strip (p : α → Bool) (l : List α) : List α := ((l.dropWhile p).reverse.dropWhile p).reverse

theorem dropWhile_eq_self (hl : ∀ x ∈ l.head?, p x = false) : l.dropWhile p = l := by
  cases l with
  | nil => rfl
  | cons x l => exact List.dropWhile_cons_of_neg (by rw [hl x rfl]; exact Bool.false_ne_true)

theorem head?_dropWhile_eq_false (p : α → Bool) (l : List α) :
    ∀ x ∈ (l.dropWhile p).head?, p x = false := by
  intro x hx
  have hnot := List.head?_dropWhile_not p l
  rw [hx] at hnot
  exact Bool.eq_false_iff.2 (by simpa using hnot)

theorem takeWhile_append (hl : ∀ x ∈ l, p x = true) (hr : ∀ x ∈ r.head?, p x = false) :
    (l ++ r).takeWhile p = l ∧ (l ++ r).dropWhile p = r := by
  rw [List.takeWhile_append_of_pos hl, List.dropWhile_append_of_pos hl, dropWhile_eq_self hr]
  refine ⟨?_, rfl⟩
  cases r with
  | nil => exact List.append_nil l
  | cons x r =>
    rw [List.takeWhile_cons_of_neg (by rw [hr x rfl]; exact Bool.false_ne_true), List.append_nil]

/-- What is stripped has `p`. -/
theorem exists_strip (p : α → Bool) (l : List α) :
    ∃ a b, l = a ++ strip p l ++ b ∧ (∀ x ∈ a, p x = true) ∧ ∀ x ∈ b, p x = true := by
  have htake : ∀ l : List α, ∀ x ∈ l.takeWhile p, p x = true := fun l x hx =>
    List.mem_takeWhile_imp hx
  refine ⟨l.takeWhile p, ((l.dropWhile p).reverse.takeWhile p).reverse, ?_, htake l, fun x hx =>
    htake _ x (List.mem_reverse.1 hx)⟩
  rw [strip, List.append_assoc, ← List.reverse_append, List.takeWhile_append_dropWhile,
    List.reverse_reverse, List.takeWhile_append_dropWhile]

theorem strip_append (ha : ∀ x ∈ a, p x = true) (hb : ∀ x ∈ b, p x = true)
    (ht : ∀ x ∈ t, p x = false) : strip p (a ++ t ++ b) = t := by
  have hnot : ∀ {l : List α}, (∀ x ∈ l, x ∈ t) → l.dropWhile p = l := fun hl =>
    dropWhile_eq_self fun x hx => ht x (hl x (List.mem_of_head? hx))
  rw [strip, List.append_assoc, List.dropWhile_append_of_pos ha]
  by_cases hnil : t = []
  · rw [hnil, List.nil_append, List.dropWhile_eq_nil_iff.2 hb]
    rfl
  · have hstart : (t ++ b).dropWhile p = t ++ b := by
      refine dropWhile_eq_self fun x hx => ?_
      cases t with
      | nil => exact absurd rfl hnil
      | cons y t => exact ht x (List.mem_of_head? hx)
    rw [hstart, List.reverse_append,
      List.dropWhile_append_of_pos fun x hx => hb x (List.mem_reverse.1 hx),
      hnot fun x hx => List.mem_reverse.1 hx, List.reverse_reverse]

theorem strip_append_append (ha : ∀ x ∈ a, p x = true) (hb : ∀ x ∈ b, p x = true) (l : List α) :
    strip p (a ++ l ++ b) = strip p l := by
  rw [strip, strip, List.append_assoc, List.dropWhile_append_of_pos ha, List.dropWhile_append]
  split
  · rename_i hempty
    rw [List.isEmpty_iff.1 hempty, List.dropWhile_eq_nil_iff.2 hb]
  · rw [List.reverse_append, List.dropWhile_append_of_pos fun x hx => hb x (List.mem_reverse.1 hx)]

theorem strip_eq_iff (ht : ∀ x ∈ t, p x = false) :
    strip p l = t ↔ ∃ a b, l = a ++ t ++ b ∧ (∀ x ∈ a, p x = true) ∧ ∀ x ∈ b, p x = true := by
  constructor
  · rintro rfl
    exact exists_strip p l
  · rintro ⟨a, b, rfl, ha, hb⟩
    exact strip_append ha hb ht

theorem dropWhile_append_cons (hc : p c = false) (l r : List α) :
    (l ++ c :: r).dropWhile p = l.dropWhile p ++ c :: r := by
  induction l with
  | nil => exact dropWhile_eq_self fun x hx => Option.some.inj hx ▸ hc
  | cons x l ih =>
    by_cases hx : p x = true
    · rw [List.cons_append, List.dropWhile_cons_of_pos hx, List.dropWhile_cons_of_pos hx, ih]
    · rw [List.cons_append, List.dropWhile_cons_of_neg hx, List.dropWhile_cons_of_neg hx]
      rfl

theorem exists_strip_append_cons (hc : p c = false) (ha : ∀ x ∈ a, p x = true)
    (hl : ∀ x ∈ (l ++ c :: r).head?, p x = false) :
    ∃ r', strip p (a ++ (l ++ c :: r)) = l ++ c :: r' := by
  refine ⟨(r.reverse.dropWhile p).reverse, ?_⟩
  rw [strip, List.dropWhile_append_of_pos ha, dropWhile_eq_self hl, List.reverse_append,
    List.reverse_cons, List.append_assoc, List.singleton_append, dropWhile_append_cons hc]
  simp

/-- An element without `p` stands in the middle part. -/
theorem append_cons_eq (hc : p c = false) (ha : ∀ x ∈ a, p x = true) (hb : ∀ x ∈ b, p x = true)
    (h : l ++ c :: r = a ++ t ++ b) : ∃ t₁ t₂, t = t₁ ++ c :: t₂ ∧ l = a ++ t₁ ∧ r = t₂ ++ b := by
  have hnot : ∀ {s : List α}, (∀ x ∈ s, p x = true) → c ∉ s := fun hs hmem => by
    rw [hs c hmem] at hc
    cases hc
  rw [List.append_assoc] at h
  rcases List.append_eq_append_iff.1 h with ⟨s, rfl, hs⟩ | ⟨s, rfl, hs⟩
  · cases s with
    | nil =>
      rw [List.nil_append] at hs
      cases t with
      | nil =>
        have hmem : c ∈ b := (show c :: r = b from hs) ▸ List.mem_cons_self
        exact absurd hmem (hnot hb)
      | cons x t =>
        obtain ⟨rfl, rfl⟩ := List.cons.inj hs
        exact ⟨[], t, rfl, by rw [List.append_nil, List.append_nil], rfl⟩
    | cons x s =>
      obtain ⟨rfl, -⟩ := List.cons.inj hs
      exact absurd (List.mem_append_right l List.mem_cons_self) (hnot ha)
  · rcases List.append_eq_append_iff.1 hs with ⟨s', rfl, hs'⟩ | ⟨s', rfl, hs'⟩
    · exact absurd (hs' ▸ List.mem_append_right s' List.mem_cons_self) (hnot hb)
    · cases s' with
      | nil =>
        have hmem : c ∈ b := (show c :: r = b from hs') ▸ List.mem_cons_self
        exact absurd hmem (hnot hb)
      | cons x s' =>
        obtain ⟨rfl, rfl⟩ := List.cons.inj hs'
        exact ⟨s, s', rfl, rfl, rfl⟩

end

/-! ### Joined texts and stable sorts -/

namespace Text
variable {c : Char} {s t : Text}

/-- No white space at either end. -/
def Trimmed (s : Text) : Prop :=
  (∀ c ∈ s.head?, isWhitespace c = false) ∧ ∀ c ∈ s.getLast?, isWhitespace c = false

theorem Trimmed.trim_eq (h : Trimmed s) : trim s = s := by
  have hstart : trimStart s = s := dropWhile_eq_self h.1
  have hend : s.reverse.dropWhile isWhitespace = s.reverse := by
    refine dropWhile_eq_self fun c hc => h.2 c ?_
    rwa [List.getLast?_eq_head?_reverse]
  rw [trim, hstart, trimEnd, hend, List.reverse_reverse]

theorem trimmed_trim (s : Text) : Trimmed (trim s) := by
  constructor
  · intro c hc
    refine head?_dropWhile_eq_false isWhitespace s c ?_
    -- what is left of the start is an initial part of it
    obtain ⟨t, ht⟩ : trim s <+: trimStart s := by
      have hsuffix := List.dropWhile_suffix isWhitespace (l := (trimStart s).reverse)
      have hprefix := List.reverse_prefix.2 hsuffix
      rwa [List.reverse_reverse] at hprefix
    rw [show s.dropWhile isWhitespace = trim s ++ t from ht.symm]
    cases htrim : trim s with
    | nil => rw [htrim] at hc; cases hc
    | cons x r => rw [htrim] at hc; exact hc
  · intro c hc
    refine head?_dropWhile_eq_false isWhitespace (trimStart s).reverse c ?_
    rwa [trim, trimEnd, List.getLast?_reverse] at hc

theorem trim_cons (h : isWhitespace c = true) (s : Text) : trim (c :: s) = trim s := by
  rw [trim, trimStart, List.dropWhile_cons_of_pos h]
  rfl

/-- A text joined from pieces without the separator comes apart into them. -/
theorem split_intercalate (sep : Text) (hsep : c ∉ sep) (p : Text) (ps : List Text)
    (h : ∀ q ∈ p :: ps, c ∉ q) :
    split c (List.intercalate (c :: sep) (p :: ps)) = p :: ps.map (sep ++ ·) := by
  induction ps generalizing p with
  | nil =>
    rw [show List.intercalate (c :: sep) [p] = p by simp [List.intercalate]]
    exact split_of_not_mem (h p List.mem_cons_self)
  | cons q ps ih =>
    have hjoin : List.intercalate (c :: sep) (p :: q :: ps) =
        p ++ c :: List.intercalate (c :: sep) ((sep ++ q) :: ps) := by
      cases ps <;> simp [List.intercalate]
    obtain ⟨hp, hrest⟩ := List.forall_mem_cons.1 h
    obtain ⟨hq, hps⟩ := List.forall_mem_cons.1 hrest
    have hsq : c ∉ sep ++ q := fun hin => (List.mem_append.1 hin).elim hsep hq
    rw [hjoin, split_append _ hp, ih (sep ++ q) (List.forall_mem_cons.2 ⟨hsq, hps⟩)]
    rfl

/-- What follows a separator does not change the first piece. -/
theorem head?_split_append (c : Char) (s t : Text) :
    (split c (s ++ c :: t)).head? = (split c s).head? := by
  induction s with
  | nil => simp [split, splitBy]
  | cons x s ih =>
    by_cases hx : x = c
    · simp [split, splitBy, hx]
    · have hrest : (splitBy (· = c) (s ++ c :: t)).head? = (splitBy (· = c) s).head? := ih
      rw [split, split, List.cons_append, splitBy, splitBy, if_neg (by simpa using hx),
        if_neg (by simpa using hx)]
      generalize splitBy (· = c) (s ++ c :: t) = left at hrest
      generalize splitBy (· = c) s = right at hrest
      cases left <;> cases right <;> cases hrest <;> rfl

theorem split_eq_cons {first : Text} {rest : List Text} (h : split c s = first :: rest) :
    s = first ∧ rest = [] ∨ ∃ t, s = first ++ c :: t ∧ split c t = rest := by
  cases hsplit : splitOnce c s with
  | none =>
    rw [split_of_not_mem (splitOnce_eq_none hsplit)] at h
    cases h
    exact .inl ⟨rfl, rfl⟩
  | some pair =>
    obtain ⟨rfl, hfield⟩ := splitOnce_spec hsplit
    rw [split_append _ hfield] at h
    cases h
    exact .inr ⟨_, rfl, rfl⟩

theorem split_ne_nil (c : Char) (s : Text) : split c s ≠ [] := by
  intro hnil
  cases hsplit : splitOnce c s with
  | none =>
    rw [split_of_not_mem (splitOnce_eq_none hsplit)] at hnil
    cases hnil
  | some pair =>
    obtain ⟨rfl, hfield⟩ := splitOnce_spec hsplit
    rw [split_append _ hfield] at hnil
    cases hnil

theorem mem_dropWhile {p : Char → Bool} (h : c ∈ s) (hc : p c = false) : c ∈ s.dropWhile p := by
  rw [← List.takeWhile_append_dropWhile (p := p) (l := s), List.mem_append] at h
  refine h.resolve_left fun htake => ?_
  rw [List.all_eq_true.1 List.all_takeWhile c htake] at hc
  cases hc

theorem mem_trim (h : c ∈ s) (hc : isWhitespace c = false) : c ∈ trim s :=
  List.mem_reverse.2 (mem_dropWhile (List.mem_reverse.2 (mem_dropWhile h hc)) hc)

theorem splitOnce_append (h : c ∉ s) (t : Text) : splitOnce c (s ++ c :: t) = some (s, t) := by
  induction s with
  | nil => rw [List.nil_append, splitOnce, if_pos rfl]
  | cons x s ih =>
    rw [List.mem_cons, not_or] at h
    rw [List.cons_append, splitOnce, if_neg (Ne.symm h.1), ih h.2]
    rfl

end Text

/-! ### Lengths and members of joined lists -/

section
variable {α : Type}

theorem forall_mem_intercalate {P : α → Prop} {sep : List α} (hsep : ∀ x ∈ sep, P x)
    {pieces : List (List α)} (h : ∀ piece ∈ pieces, ∀ x ∈ piece, P x) :
    ∀ x ∈ List.intercalate sep pieces, P x := by
  induction pieces with
  | nil => exact fun x hx => absurd hx List.not_mem_nil
  | cons piece pieces ih =>
    obtain ⟨hpiece, hpieces⟩ := List.forall_mem_cons.1 h
    by_cases hnil : pieces = []
    · rw [hnil, List.intercalate_singleton]
      exact hpiece
    · rw [List.intercalate_cons_of_ne_nil hnil]
      intro x hx
      rw [List.mem_append, List.mem_append] at hx
      rcases hx with (hx | hx) | hx
      · exact hpiece x hx
      · exact hsep x hx
      · exact ih hpieces x hx

theorem length_intercalate_cons (sep piece : List α) (pieces : List (List α)) :
    (List.intercalate sep (piece :: pieces)).length =
      ((piece :: pieces).map List.length).sum + pieces.length * sep.length := by
  induction pieces generalizing piece with
  | nil => simp
  | cons second pieces ih =>
    rw [List.intercalate_cons_cons, List.length_append, List.length_append, ih]
    simp only [List.map_cons, List.sum_cons, List.length_cons]
    ring

end

/-! ### Stable sorts -/

section
variable {α : Type} {le : α → α → Prop}

/-- `a` stands before `b` in the order, or the order does not tell them apart and `a` came first. -/
def StableBefore (le : α → α → Prop) (a b : α × Nat) : Prop := le a.1 b.1 ∧ (le b.1 a.1 → a.2 < b.2)

variable [IsTrans α le]

theorem StableBefore.trans {a b c : α × Nat} (hab : StableBefore le a b)
    (hbc : StableBefore le b c) : StableBefore le a c := by
  refine ⟨IsTrans.trans _ _ _ hab.1 hbc.1, fun hca => ?_⟩
  exact Nat.lt_trans (hab.2 (IsTrans.trans _ _ _ hbc.1 hca)) (hbc.2 (IsTrans.trans _ _ _ hca hab.1))

variable [DecidableRel le] [Std.Total le]

theorem pairwise_orderedInsert {a : α × Nat} {l : List (α × Nat)}
    (h : l.Pairwise (StableBefore le)) (ha : ∀ b ∈ l, a.2 < b.2) :
    (l.orderedInsert (fun a b => le a.1 b.1) a).Pairwise (StableBefore le) := by
  induction l with
  | nil => exact List.pairwise_singleton _ _
  | cons b l ih =>
    obtain ⟨hb, hl⟩ := List.pairwise_cons.1 h
    rw [List.orderedInsert_cons]
    split
    · rename_i hab
      have hbefore : StableBefore le a b := ⟨hab, fun _ => ha b List.mem_cons_self⟩
      refine List.pairwise_cons.2 ⟨fun c hc => ?_, h⟩
      rcases List.mem_cons.1 hc with rfl | hc
      · exact hbefore
      · exact hbefore.trans (hb c hc)
    · rename_i hab
      refine List.pairwise_cons.2 ⟨fun c hc => ?_, ih hl fun c hc => ha c (List.mem_cons_of_mem _ hc)⟩
      rcases (List.mem_orderedInsert ..).1 hc with rfl | hc
      · exact ⟨(Std.Total.total (r := le) b.1 c.1).resolve_right hab, fun h => absurd h hab⟩
      · exact hb c hc

theorem pairwise_insertionSort_zipIdx (l : List α) (n : Nat) :
    ((l.zipIdx n).insertionSort fun a b => le a.1 b.1).Pairwise (StableBefore le) := by
  induction l generalizing n with
  | nil => exact List.Pairwise.nil
  | cons a l ih =>
    rw [List.zipIdx_cons, List.insertionSort_cons]
    refine pairwise_orderedInsert (ih (n + 1)) fun b hb => ?_
    exact List.le_snd_of_mem_zipIdx ((List.mem_insertionSort _).1 hb)

end

end Lib
