import Mathlib.Algebra.GroupWithZero.Nat
import Mathlib.Data.List.Basic

/-!
# UTF-8 text as lists of characters

`Text` is the sequence of scalar values of a string; `Text.len` is its length in UTF-8 bytes. The
operations are those of a string slice type: trimming white space, splitting at a character,
ASCII case folding. What is proved about them is that the pieces of a string only hold
characters of the string and are no longer than it.
-/

namespace Lib

abbrev Text := List Char

instance : LawfulBEq Text := inferInstance

namespace Text

/-- Length in UTF-8 bytes. -/
def len (s : Text) : Nat := (s.map Char.utf8Size).sum

/-- The Unicode `White_Space` property. -/
def isWhitespace (c : Char) : Bool :=
  c = ' ' || (0x09 ≤ c.toNat && c.toNat ≤ 0x0D) || c.toNat = 0x85 || c.toNat = 0xA0 ||
    c.toNat = 0x1680 || (0x2000 ≤ c.toNat && c.toNat ≤ 0x200A) || c.toNat = 0x2028 ||
    c.toNat = 0x2029 || c.toNat = 0x202F || c.toNat = 0x205F || c.toNat = 0x3000

def trimStart (s : Text) : Text := s.dropWhile isWhitespace

def trimEnd (s : Text) : Text := (s.reverse.dropWhile isWhitespace).reverse

def trim (s : Text) : Text := trimEnd (trimStart s)

/-- Drops every leading and trailing `c`. -/
def trimMatches (c : Char) (s : Text) : Text :=
  ((s.dropWhile (· = c)).reverse.dropWhile (· = c)).reverse

/-- The parts before and after the first `c`. -/
def splitOnce (c : Char) : Text → Option (Text × Text)
  | [] => none
  | x :: s => if x = c then some ([], s) else (splitOnce c s).map fun (a, b) => (x :: a, b)

/-- The pieces between the characters that satisfy `p`: one more than there are such characters. -/
def splitBy (p : Char → Bool) : Text → List Text
  | [] => [[]]
  | x :: s =>
    if p x then [] :: splitBy p s
    else match splitBy p s with
      | [] => [[x]]
      | piece :: rest => (x :: piece) :: rest

def split (c : Char) (s : Text) : List Text := splitBy (· = c) s

/-- The part before the last `c`. -/
def beforeLast (c : Char) (s : Text) : Option Text :=
  if c ∈ s then some ((s.reverse.dropWhile (· ≠ c)).tail.reverse) else none

/-- Drops one leading `c`. -/
def stripPrefix (c : Char) : Text → Text
  | x :: s => if x = c then s else x :: s
  | [] => []

def startsWith (s : Text) (pre : Text) : Bool := pre.isPrefixOf s

def isAsciiWhitespace (c : Char) : Bool := c ∈ [' ', '\t', '\n', '\x0C', '\r']

def splitAsciiWhitespace (s : Text) : List Text := (splitBy isAsciiWhitespace s).filter (· ≠ [])

def isAsciiUpper (c : Char) : Bool := 'A' ≤ c && c ≤ 'Z'

def isAsciiDigit (c : Char) : Bool := '0' ≤ c && c ≤ '9'

def asciiLower (c : Char) : Char := if isAsciiUpper c then Char.ofNat (c.toNat + 32) else c

def toAsciiLowercase (s : Text) : Text := s.map asciiLower

def eqIgnoreAsciiCase (s t : Text) : Bool := toAsciiLowercase s = toAsciiLowercase t

@[simp] theorem eqIgnoreAsciiCase_self (s : Text) : eqIgnoreAsciiCase s s = true := by
  simp [eqIgnoreAsciiCase]

theorem isAsciiDigit_iff {c : Char} : isAsciiDigit c = true ↔ 48 ≤ c.toNat ∧ c.toNat ≤ 57 := by
  rw [isAsciiDigit, Bool.and_eq_true, decide_eq_true_eq, decide_eq_true_eq]
  rfl

theorem isAsciiUpper_iff {c : Char} : isAsciiUpper c = true ↔ 65 ≤ c.toNat ∧ c.toNat ≤ 90 := by
  rw [isAsciiUpper, Bool.and_eq_true, decide_eq_true_eq, decide_eq_true_eq]
  rfl

theorem toNat_ofNat_ascii {n : Nat} (h : n < 128) : (Char.ofNat n).toNat = n := by
  rw [Char.ofNat, dif_pos (.inl (by omega))]
  rfl

theorem toNat_asciiLower (c : Char) : (asciiLower c).toNat =
    if 65 ≤ c.toNat ∧ c.toNat ≤ 90 then c.toNat + 32 else c.toNat := by
  rw [asciiLower]
  split
  · next h =>
    have hupper := isAsciiUpper_iff.1 h
    rw [if_pos hupper, toNat_ofNat_ascii (by omega)]
  · next h => rw [if_neg (mt isAsciiUpper_iff.2 h)]

/-- Only letters are what another character is lowered to. -/
theorem eq_of_asciiLower {c d : Char} (hd : d.toNat < 97 ∨ 122 < d.toNat) (h : asciiLower c = d) :
    c = d := by
  subst h
  rw [toNat_asciiLower] at hd
  rw [← Char.toNat_inj, toNat_asciiLower]
  split_ifs at hd ⊢ <;> omega

theorem asciiLower_asciiLower (c : Char) : asciiLower (asciiLower c) = asciiLower c := by
  rw [← Char.toNat_inj, toNat_asciiLower, toNat_asciiLower]
  split_ifs <;> omega

theorem toAsciiLowercase_idem (s : Text) :
    toAsciiLowercase (toAsciiLowercase s) = toAsciiLowercase s := by
  simp [toAsciiLowercase, asciiLower_asciiLower]

theorem eq_of_beforeLast {c : Char} {s before : Text} (h : beforeLast c s = some before) :
    ∃ rest, s = before ++ c :: rest := by
  unfold beforeLast at h
  split at h
  · next hmem =>
    obtain rfl := Option.some.inj h
    have hsplit := List.takeWhile_append_dropWhile (p := fun d => decide (d ≠ c)) (l := s.reverse)
    cases hdrop : s.reverse.dropWhile (· ≠ c) with
    | nil =>
      rw [hdrop, List.append_nil] at hsplit
      have hall := List.all_takeWhile (p := fun d => decide (d ≠ c)) (l := s.reverse)
      rw [hsplit, List.all_eq_true] at hall
      simpa using hall c (List.mem_reverse.2 hmem)
    | cons d rest =>
      have hd : d = c := by
        have hhead := List.head?_dropWhile_not (fun d => decide (d ≠ c)) s.reverse
        rw [hdrop] at hhead
        simpa using hhead
      subst hd
      rw [hdrop] at hsplit
      refine ⟨(s.reverse.takeWhile (· ≠ d)).reverse, ?_⟩
      have hrev := congrArg List.reverse hsplit
      simpa using hrev.symm
  · cases h

theorem trim_sublist (s : Text) : List.Sublist (trim s) s := by
  have hstart : List.Sublist (trimStart s) s := List.dropWhile_sublist _
  have hend : List.Sublist (trimEnd (trimStart s)) (trimStart s) := by
    have := (List.dropWhile_sublist isWhitespace (l := (trimStart s).reverse)).reverse
    rwa [List.reverse_reverse] at this
  exact hend.trans hstart

theorem splitOnce_spec {c : Char} {s a b : Text} (h : splitOnce c s = some (a, b)) :
    s = a ++ c :: b ∧ c ∉ a := by
  induction s generalizing a with
  | nil => simp [splitOnce] at h
  | cons x s ih =>
    simp only [splitOnce] at h
    split at h
    · rename_i hx
      obtain ⟨rfl, rfl⟩ := Prod.mk.inj (Option.some.inj h)
      simp [hx]
    · rename_i hx
      obtain ⟨⟨a', b'⟩, h', he⟩ := Option.map_eq_some_iff.1 h
      obtain ⟨rfl, rfl⟩ := Prod.mk.inj he
      obtain ⟨rfl, hc⟩ := ih h'
      exact ⟨rfl, by simp [hc, Ne.symm hx]⟩

theorem splitOnce_eq_none {c : Char} {s : Text} (h : splitOnce c s = none) : c ∉ s := by
  induction s with
  | nil => simp
  | cons x s ih =>
    simp only [splitOnce] at h
    split at h
    · simp at h
    · rename_i hx
      simp [Ne.symm hx, ih (Option.map_eq_none_iff.1 h)]

end Text

end Lib
