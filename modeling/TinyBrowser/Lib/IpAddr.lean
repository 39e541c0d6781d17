import TinyBrowser.Lib.Text

/-!
# Textual IP addresses

IPv4 addresses in dotted decimal and IPv6 addresses in colon-separated hexadecimal with at most
one `::`. `IpAddr.parse` reads both, with an embedded IPv4 tail allowed in the second;
`IpAddr.display` writes the canonical form: the first longest run of two or more zero groups is
compressed, and an IPv4-mapped address ends in dotted decimal. The main result is
`IpAddr.parse_display`.
-/

namespace Lib

/-- Four octets. -/
structure Ipv4Addr where
  a : Fin 256
  b : Fin 256
  c : Fin 256
  d : Fin 256
deriving DecidableEq, Repr

instance neZero_segments : NeZero 65536 := ⟨by decide⟩

/-- Eight 16-bit groups. -/
structure Ipv6Addr where
  segments : List (Fin 65536)
  length_eq : segments.length = 8
deriving DecidableEq, Repr

inductive IpAddr where
  | v4 (ip : Ipv4Addr)
  | v6 (ip : Ipv6Addr)
deriving DecidableEq, Repr

namespace IpAddr

/-- The value of a digit in bases up to 16. -/
def toDigit (radix : Nat) (c : Char) : Option Nat :=
  let v := c.toNat
  let d := if 48 ≤ v ∧ v ≤ 57 then some (v - 48)
    else if 97 ≤ v ∧ v ≤ 102 then some (v - 87)
    else if 65 ≤ v ∧ v ≤ 70 then some (v - 55)
    else none
  d.filter (· < radix)

/-- Reads the longest run of digits: its value, its length and the rest. -/
def readDigits (radix : Nat) (value count : Nat) : Text → Nat × Nat × Text
  | [] => (value, count, [])
  | c :: s => match toDigit radix c with
    | some d => readDigits radix (value * radix + d) (count + 1) s
    | none => (value, count, c :: s)

/-- Reads a number of at most `maxDigits` digits below `bound`. -/
def readNumber (radix maxDigits : Nat) (allowZeroPrefix : Bool) (bound : Nat) (s : Text) :
    Option (Fin bound × Text) :=
  let (value, count, rest) := readDigits radix 0 0 s
  if count = 0 ∨ maxDigits < count then none
  else if !allowZeroPrefix && s.head? = some '0' && 1 < count then none
  else if h : value < bound then some (⟨value, h⟩, rest)
  else none

def readChar (c : Char) : Text → Option Text
  | x :: s => if x = c then some s else none
  | [] => none

/-- Reads `sep` before every element but the first. -/
def readSeparator {α : Type} (sep : Char) (index : Nat) (inner : Text → Option (α × Text))
    (s : Text) : Option (α × Text) :=
  if index = 0 then inner s else (readChar sep s).bind inner

def readOctet (index : Nat) (s : Text) : Option (Fin 256 × Text) :=
  readSeparator '.' index (readNumber 10 3 false 256) s

def readIpv4 (s : Text) : Option (Ipv4Addr × Text) := do
  let (a, s) ← readOctet 0 s
  let (b, s) ← readOctet 1 s
  let (c, s) ← readOctet 2 s
  let (d, s) ← readOctet 3 s
  return (⟨a, b, c, d⟩, s)

def readGroup (index : Nat) (s : Text) : Option (Fin 65536 × Text) :=
  readSeparator ':' index (readNumber 16 4 true 65536) s

/-- The two groups an IPv4 address occupies. -/
def groupsOfIpv4 (ip : Ipv4Addr) : List (Fin 65536) :=
  [⟨ip.a * 256 + ip.b, by omega⟩, ⟨ip.c * 256 + ip.d, by omega⟩]

/-- Reads up to `slots` more groups after the first `index`; the flag says that the last two came
from an embedded IPv4 address. -/
def readGroups (index : Nat) : Nat → Text → List (Fin 65536) × Bool × Text
  | 0, s => ([], false, s)
  | slots + 1, s =>
    match if 0 < slots then readSeparator ':' index readIpv4 s else none with
    | some (ip, rest) => (groupsOfIpv4 ip, true, rest)
    | none => match readGroup index s with
      | some (g, rest) =>
        let (gs, embedded, rest) := readGroups (index + 1) slots rest
        (g :: gs, embedded, rest)
      | none => ([], false, s)

def ofGroups (gs : List (Fin 65536)) : Option Ipv6Addr :=
  if h : gs.length = 8 then some ⟨gs, h⟩ else none

def readIpv6 (s : Text) : Option (Ipv6Addr × Text) :=
  let (head, embedded, rest) := readGroups 0 8 s
  if head.length = 8 then (ofGroups head).map (·, rest)
  else if embedded then none
  else match (readChar ':' rest).bind (readChar ':') with
    | none => none
    | some rest =>
      let (tail, _, rest) := readGroups 0 (7 - head.length) rest
      (ofGroups (head ++ List.replicate (8 - head.length - tail.length) 0 ++ tail)).map (·, rest)

/-- Reads an address and requires the end of the text after it. -/
def parse (s : Text) : Option IpAddr :=
  let read := match readIpv4 s with
    | some (ip, rest) => some (v4 ip, rest)
    | none => (readIpv6 s).map fun (ip, rest) => (v6 ip, rest)
  match read with
  | some (ip, []) => some ip
  | _ => none

def displayIpv4 (ip : Ipv4Addr) : Text :=
  Nat.toDigits 10 ip.a ++ '.' :: (Nat.toDigits 10 ip.b ++ '.' ::
    (Nat.toDigits 10 ip.c ++ '.' :: Nat.toDigits 10 ip.d))

def displayGroups : List (Fin 65536) → Text
  | [] => []
  | [g] => Nat.toDigits 16 g
  | g :: gs => Nat.toDigits 16 g ++ ':' :: displayGroups gs

/-- A run of zero groups. -/
structure Span where
  start : Nat
  len : Nat

/-- `current` with the zero group at position `index` added. -/
def Span.extend (current : Span) (index : Nat) : Span :=
  if current.len = 0 then ⟨index, 1⟩ else { current with len := current.len + 1 }

/-- The first longest run of zero groups among `gs`, the groups from position `index` on. -/
def longestZeros (longest current : Span) (index : Nat) : List (Fin 65536) → Span
  | [] => longest
  | g :: gs =>
    if g = 0 then
      let current := current.extend index
      let longest := if longest.len < current.len then current else longest
      longestZeros longest current (index + 1) gs
    else longestZeros longest ⟨0, 0⟩ (index + 1) gs

/-- The IPv4 address of an IPv4-mapped IPv6 address. -/
def toIpv4Mapped (ip : Ipv6Addr) : Option Ipv4Addr :=
  match ip.segments with
  | [a, b, c, d, e, f, g, h] =>
    if a = 0 ∧ b = 0 ∧ c = 0 ∧ d = 0 ∧ e = 0 ∧ f = 0xffff then
      some ⟨⟨g / 256, by omega⟩, ⟨g % 256, by omega⟩, ⟨h / 256, by omega⟩, ⟨h % 256, by omega⟩⟩
    else none
  | _ => none

def displayIpv6 (ip : Ipv6Addr) : Text :=
  match toIpv4Mapped ip with
  | some ip => "::ffff:".toList ++ displayIpv4 ip
  | none =>
    let zeros := longestZeros ⟨0, 0⟩ ⟨0, 0⟩ 0 ip.segments
    if 1 < zeros.len then
      displayGroups (ip.segments.take zeros.start) ++ ':' :: ':' ::
        displayGroups (ip.segments.drop (zeros.start + zeros.len))
    else displayGroups ip.segments

def display : IpAddr → Text
  | v4 ip => displayIpv4 ip
  | v6 ip => displayIpv6 ip

/-! ### Numbers -/

/-- `s` does not continue a number in base `radix`. -/
def Stops (radix : Nat) (s : Text) : Prop := ∀ c ∈ s.head?, toDigit radix c = none

theorem stops_nil (radix : Nat) : Stops radix [] := by simp [Stops]

theorem stops_cons {radix : Nat} {c : Char} {s : Text} (h : toDigit radix c = none) :
    Stops radix (c :: s) := by simpa [Stops] using h

theorem toDigit_digitChar_ten : ∀ d < 10, toDigit 10 (Nat.digitChar d) = some d := by decide

theorem toDigit_digitChar_sixteen : ∀ d < 16, toDigit 16 (Nat.digitChar d) = some d := by decide

theorem readDigits_of_stops {radix : Nat} {s : Text} (value count : Nat) (h : Stops radix s) :
    readDigits radix value count s = (value, count, s) := by
  cases s with
  | nil => rfl
  | cons c s => simp [readDigits, h c (by simp)]

section
variable {radix : Nat} (hr : 1 < radix)
  (hd : ∀ d < radix, toDigit radix (Nat.digitChar d) = some d)
include hr hd

theorem readDigits_toDigits (n value count : Nat) (rest : Text) :
    readDigits radix value count (Nat.toDigits radix n ++ rest) =
      readDigits radix (value * radix ^ (Nat.toDigits radix n).length + n)
        (count + (Nat.toDigits radix n).length) rest := by
  induction n using Nat.strongRecOn generalizing rest with
  | ind n ih =>
    by_cases hn : n < radix
    · simp [Nat.toDigits_of_lt_base hn, readDigits, hd n hn]
    · rw [Nat.toDigits_of_base_le hr (by omega)]
      have hlt : n / radix < n := Nat.div_lt_self (by omega) hr
      have hmod : n % radix < radix := Nat.mod_lt _ (by omega)
      rw [List.append_assoc, ih _ hlt]
      simp only [List.singleton_append, readDigits, hd _ hmod, List.length_append,
        List.length_singleton]
      congr 1
      rw [Nat.add_mul, Nat.mul_assoc, ← Nat.pow_succ, Nat.add_assoc, Nat.mul_comm (n / radix),
        Nat.div_add_mod]

theorem head?_toDigits (n : Nat) (hn : 0 < n) : (Nat.toDigits radix n).head? ≠ some '0' := by
  induction n using Nat.strongRecOn with
  | ind n ih =>
    by_cases hlt : n < radix
    · rw [Nat.toDigits_of_lt_base hlt]
      intro h
      have h0 := hd 0 (by omega)
      have hn' := hd n hlt
      simp only [List.head?_cons, Option.some.injEq] at h
      rw [h] at hn'
      have : toDigit radix '0' = some 0 := h0
      rw [this] at hn'
      simp at hn'
      omega
    · rw [Nat.toDigits_of_base_le hr (by omega)]
      have hpos : 0 < n / radix := Nat.div_pos (by omega) (by omega)
      have := ih _ (Nat.div_lt_self (by omega) hr) hpos
      cases hx : Nat.toDigits radix (n / radix) with
      | nil => exact absurd hx Nat.toDigits_ne_nil
      | cons c l => rw [hx] at this; simpa using this

theorem readNumber_toDigits (maxDigits : Nat) {bound : Nat} (allow : Bool) (n : Fin bound) {rest : Text}
    (hb : bound ≤ radix ^ maxDigits) (hm : 0 < maxDigits) (h : Stops radix rest) :
    readNumber radix maxDigits allow bound (Nat.toDigits radix n ++ rest) = some (n, rest) := by
  have hlen : (Nat.toDigits radix n).length ≤ maxDigits :=
    (Nat.length_toDigits_le_iff hr hm).2 (by omega)
  have hpos : 0 < (Nat.toDigits radix n).length := Nat.length_toDigits_pos
  simp only [readNumber, readDigits_toDigits hr hd, readDigits_of_stops _ _ h]
  rw [if_neg (by omega), if_neg]
  · simp
  · simp only [Bool.and_eq_true, decide_eq_true_eq, not_and, Nat.zero_add]
    rintro ⟨-, hz⟩
    rcases Nat.eq_zero_or_pos n with h0 | h0
    · rw [h0, Nat.toDigits_zero]; simp
    · refine absurd ?_ (head?_toDigits hr hd n h0)
      rw [← hz]
      cases hx : Nat.toDigits radix n with
      | nil => exact absurd hx Nat.toDigits_ne_nil
      | cons c l => rfl

end

/-! ### IPv4 -/

theorem readOctet_display (index : Nat) (n : Fin 256) {rest : Text} (h : Stops 10 rest) :
    readOctet index ((if index = 0 then [] else ['.']) ++ (Nat.toDigits 10 n ++ rest)) =
      some (n, rest) := by
  have hnum := readNumber_toDigits (by decide) toDigit_digitChar_ten 3 false n
    (by decide) (by decide) h
  by_cases hi : index = 0 <;> simp [readOctet, readSeparator, readChar, hi, hnum]

theorem readIpv4_display (ip : Ipv4Addr) {rest : Text} (h : Stops 10 rest) :
    readIpv4 (displayIpv4 ip ++ rest) = some (ip, rest) := by
  have hdot : ∀ s, Stops 10 ('.' :: s) := fun s => stops_cons (by decide)
  have h0 := readOctet_display 0 ip.a (hdot (Nat.toDigits 10 ip.b ++ '.' ::
    (Nat.toDigits 10 ip.c ++ '.' :: (Nat.toDigits 10 ip.d ++ rest))))
  have h1 := readOctet_display 1 ip.b (hdot (Nat.toDigits 10 ip.c ++ '.' ::
    (Nat.toDigits 10 ip.d ++ rest)))
  have h2 := readOctet_display 2 ip.c (hdot (Nat.toDigits 10 ip.d ++ rest))
  have h3 := readOctet_display 3 ip.d h
  simp only [↓reduceIte, List.nil_append] at h0
  rw [if_neg (by decide), List.singleton_append] at h1 h2 h3
  simp [readIpv4, displayIpv4, h0, h1, h2, h3]

theorem readDigits_suffix (radix value count : Nat) (s : Text) :
    (readDigits radix value count s).2.2 <:+ s := by
  induction s generalizing value count with
  | nil => simp [readDigits]
  | cons c s ih =>
    simp only [readDigits]
    split
    · exact (ih _ _).trans (List.suffix_cons c s)
    · exact List.suffix_refl _

theorem readNumber_suffix {radix maxDigits bound : Nat} {allow : Bool} {s rest : Text}
    {n : Fin bound} (h : readNumber radix maxDigits allow bound s = some (n, rest)) :
    rest <:+ s := by
  simp only [readNumber] at h
  split_ifs at h
  obtain ⟨-, rfl⟩ := Prod.mk.inj (Option.some.inj h)
  exact readDigits_suffix _ _ _ _

/-- A dotted quad needs a dot. -/
theorem readIpv4_eq_none {s : Text} (h : '.' ∉ s) : readIpv4 s = none := by
  simp only [readIpv4]
  cases h0 : readOctet 0 s with
  | none => rfl
  | some p =>
    obtain ⟨a, rest⟩ := p
    have hsuf : rest <:+ s := readNumber_suffix (by simpa [readOctet, readSeparator] using h0)
    have h1 : readOctet 1 rest = none := by
      cases rest with
      | nil => rfl
      | cons c rest =>
        have hc : c ≠ '.' := fun hc => h (hsuf.mem (by simp [hc]))
        simp [readOctet, readSeparator, readChar, hc]
    simp [h1]

theorem readNumber_eq_none {radix maxDigits bound : Nat} {allow : Bool} {s : Text}
    (h : Stops radix s) : readNumber radix maxDigits allow bound s = none := by
  simp [readNumber, readDigits_of_stops _ _ h]

theorem readIpv4_cons_eq_none {c : Char} {s : Text} (h : toDigit 10 c = none) :
    readIpv4 (c :: s) = none := by
  have hn : readNumber 10 3 false 256 (c :: s) = none := readNumber_eq_none (stops_cons h)
  simp [readIpv4, readOctet, readSeparator, hn]

/-! ### IPv6 -/

/-- `gs` as the groups from position `index` on are written: a colon before each but the first. -/
def groupsText (index : Nat) : List (Fin 65536) → Text
  | [] => []
  | g :: gs => (if index = 0 then [] else [':']) ++ (Nat.toDigits 16 g ++ groupsText (index + 1) gs)

theorem groupsText_succ_cons (index : Nat) (g : Fin 65536) (gs : List (Fin 65536)) :
    groupsText (index + 1) (g :: gs) = ':' :: (Nat.toDigits 16 g ++ groupsText (index + 2) gs) := by
  simp [groupsText]

theorem groupsText_succ (i j : Nat) (gs : List (Fin 65536)) :
    groupsText (i + 1) gs = groupsText (j + 1) gs := by
  induction gs generalizing i j with
  | nil => rfl
  | cons g gs ih => rw [groupsText_succ_cons, groupsText_succ_cons, ih (i + 1) (j + 1)]

theorem displayGroups_eq (gs : List (Fin 65536)) : displayGroups gs = groupsText 0 gs := by
  induction gs with
  | nil => rfl
  | cons g gs ih =>
    cases gs with
    | nil => simp [displayGroups, groupsText]
    | cons g' gs =>
      rw [displayGroups, ih]
      · simp [groupsText, groupsText_succ 1 0 gs]
      · simp

/-- What holds of every digit of the base holds of every character of a number in it. -/
theorem forall_mem_toDigits {radix : Nat} (hr : 1 < radix) {P : Char → Prop}
    (hP : ∀ d < radix, P (Nat.digitChar d)) (n : Nat) : ∀ c ∈ Nat.toDigits radix n, P c := by
  induction n using Nat.strongRecOn with
  | ind n ih =>
    by_cases hn : n < radix
    · rw [Nat.toDigits_of_lt_base hn, List.forall_mem_singleton]
      exact hP n hn
    · rw [Nat.toDigits_of_base_le hr (by omega), List.forall_mem_append, List.forall_mem_singleton]
      exact ⟨ih _ (Nat.div_lt_self (by omega) hr), hP _ (Nat.mod_lt _ (by omega))⟩

theorem forall_mem_groupsText {P : Char → Prop} (hP : ∀ d < 16, P (Nat.digitChar d)) (hc : P ':')
    (index : Nat) (gs : List (Fin 65536)) : ∀ c ∈ groupsText index gs, P c := by
  induction gs generalizing index with
  | nil => simp [groupsText]
  | cons g gs ih =>
    simp only [groupsText, List.forall_mem_append]
    exact ⟨by split <;> simp [hc], forall_mem_toDigits (by decide) hP _, ih _⟩

theorem dot_not_mem_groupsText (index : Nat) (gs : List (Fin 65536)) :
    '.' ∉ groupsText index gs :=
  fun h => forall_mem_groupsText (P := (· ≠ '.')) (by decide) (by decide) index gs _ h rfl

theorem stops_groupsText_succ (index : Nat) (gs : List (Fin 65536)) {rest : Text}
    (h : Stops 16 rest) : Stops 16 (groupsText (index + 1) gs ++ rest) := by
  cases gs with
  | nil => exact h
  | cons g gs =>
    rw [groupsText_succ_cons]
    exact stops_cons (by decide)

theorem readIpv4_sep_eq_none {index : Nat} {s : Text} (h : '.' ∉ s) :
    readSeparator ':' index readIpv4 s = none := by
  unfold readSeparator
  split
  · exact readIpv4_eq_none h
  · cases s with
    | nil => rfl
    | cons c s =>
      simp only [readChar]
      split
      · exact readIpv4_eq_none fun hs => h (List.mem_cons_of_mem _ hs)
      · rfl

theorem readGroup_text (index : Nat) (g : Fin 65536) (rest : Text) (h : Stops 16 rest) :
    readGroup index ((if index = 0 then [] else [':']) ++ (Nat.toDigits 16 g ++ rest)) =
      some (g, rest) := by
  have hnum := readNumber_toDigits (by decide) toDigit_digitChar_sixteen 4 true g
    (by decide) (by decide) h
  by_cases hi : index = 0 <;> simp [readGroup, readSeparator, readChar, hi, hnum]

/-- Written groups are read back, up to a rest that starts no further group. -/
theorem readGroups_text (gs : List (Fin 65536)) (index slots : Nat) (rest : Text)
    (hlen : gs.length ≤ slots) (hdot : '.' ∉ rest) (hstop : Stops 16 rest)
    (hend : gs.length < slots → readGroup (index + gs.length) rest = none) :
    readGroups index slots (groupsText index gs ++ rest) = (gs, false, rest) := by
  induction gs generalizing index slots with
  | nil =>
    cases slots with
    | zero => rfl
    | succ slots =>
      have h := hend (by simp)
      simp only [List.length_nil, Nat.add_zero] at h
      simp [groupsText, readGroups, readIpv4_sep_eq_none hdot, h]
  | cons g gs ih =>
    cases slots with
    | zero => simp at hlen
    | succ slots =>
      have hs := ih (index + 1) slots (by simpa using hlen)
        (fun h => by simpa [Nat.add_assoc, Nat.add_comm 1] using hend (by simpa using h))
      have hd : '.' ∉ groupsText index (g :: gs) ++ rest := by
        simp only [List.mem_append, not_or]
        exact ⟨dot_not_mem_groupsText _ _, hdot⟩
      have hg := readGroup_text index g _ (stops_groupsText_succ index gs hstop)
      have htext : groupsText index (g :: gs) ++ rest = (if index = 0 then [] else [':']) ++
          (Nat.toDigits 16 g ++ (groupsText (index + 1) gs ++ rest)) := by
        simp [groupsText]
      rw [htext] at hd ⊢
      simp only [readGroups, readIpv4_sep_eq_none hd, ite_self, hg, hs]

/-- The groups of `span` are zero groups of `gs`. -/
def Span.Zeros (span : Span) (gs : List (Fin 65536)) : Prop :=
  span.start + span.len ≤ gs.length ∧
    ∀ i, span.start ≤ i → i < span.start + span.len → gs[i]? = some 0

theorem zeros_longestZeros (pre gs : List (Fin 65536)) (longest current : Span)
    (hl : longest.Zeros (pre ++ gs)) (hc : current.Zeros (pre ++ gs))
    (hcur : 0 < current.len → current.start + current.len = pre.length) :
    (longestZeros longest current pre.length gs).Zeros (pre ++ gs) := by
  induction gs generalizing pre longest current with
  | nil => exact hl
  | cons g gs ih =>
    have happ : pre ++ g :: gs = (pre ++ [g]) ++ gs := by simp
    have hlen : pre.length + 1 = (pre ++ [g]).length := by simp
    simp only [longestZeros]
    split
    · rename_i hg
      have hget : (pre ++ g :: gs)[pre.length]? = some 0 := by simp [hg]
      -- the run that ends at this group
      have hnew : (current.extend pre.length).Zeros (pre ++ g :: gs) ∧
          (current.extend pre.length).start + (current.extend pre.length).len = pre.length + 1 := by
        unfold Span.extend
        split
        · refine ⟨⟨by simp, fun i h1 h2 => ?_⟩, rfl⟩
          simp only at h1 h2
          rw [show i = pre.length by omega]; exact hget
        · have hend := hcur (by omega)
          refine ⟨⟨by simp; omega, fun i h1 h2 => ?_⟩, by simp; omega⟩
          simp only at h1 h2
          by_cases hi : i = pre.length
          · rw [hi]; exact hget
          · exact hc.2 i h1 (by omega)
      rw [hlen, happ]
      rw [happ] at hl hnew
      refine ih (pre ++ [g]) _ _ ?_ hnew.1 fun _ => by rw [hnew.2]; simp
      split
      · exact hnew.1
      · exact hl
    · rw [hlen, happ]
      rw [happ] at hl
      exact ih (pre ++ [g]) _ _ hl ⟨by simp, fun i _ h => by simp at h⟩ (by simp)

/-- Cutting a run of zeros out and filling it in again gives the groups back. -/
theorem Span.Zeros.take_append_drop {span : Span} {gs : List (Fin 65536)} (h : span.Zeros gs) :
    gs.take span.start ++ List.replicate span.len 0 ++ gs.drop (span.start + span.len) = gs := by
  have hmid : (gs.drop span.start).take span.len = List.replicate span.len 0 := by
    refine List.ext_getElem? fun i => ?_
    rw [List.getElem?_take, List.getElem?_drop, List.getElem?_replicate]
    split
    · rw [h.2 _ (by omega) (by omega)]
    · rfl
  rw [← hmid, List.append_assoc, ← List.drop_drop, List.take_append_drop, List.take_append_drop]

theorem readGroup_colon_eq_none (index : Nat) (s : Text) : readGroup index (':' :: ':' :: s) = none := by
  have hn : ∀ s, readNumber 16 4 true 65536 (':' :: s) = none := fun s =>
    readNumber_eq_none (stops_cons (by decide))
  by_cases hi : index = 0 <;> simp [readGroup, readSeparator, readChar, hi, hn]

theorem readGroup_nil_eq_none (index : Nat) : readGroup index [] = none := by
  by_cases hi : index = 0
  · simp [readGroup, readSeparator, hi, readNumber_eq_none (stops_nil 16)]
  · simp [readGroup, readSeparator, readChar, hi]

theorem ofGroups_segments (ip : Ipv6Addr) : ofGroups ip.segments = some ip := by
  simp [ofGroups, ip.length_eq]

theorem readIpv6_full (ip : Ipv6Addr) : readIpv6 (displayGroups ip.segments) = some (ip, []) := by
  have h := readGroups_text ip.segments 0 8 [] (by simp [ip.length_eq]) (by simp)
    (stops_nil 16) (fun hlt => absurd hlt (by simp [ip.length_eq]))
  rw [List.append_nil, ← displayGroups_eq] at h
  simp [readIpv6, h, ip.length_eq, ofGroups_segments]

theorem readIpv6_compressed (ip : Ipv6Addr) {span : Span} (hz : span.Zeros ip.segments)
    (hlen : 1 < span.len) :
    readIpv6 (displayGroups (ip.segments.take span.start) ++ ':' :: ':' ::
      displayGroups (ip.segments.drop (span.start + span.len))) = some (ip, []) := by
  have hle := hz.1
  rw [ip.length_eq] at hle
  have hhead : (ip.segments.take span.start).length = span.start := by
    simp [ip.length_eq]; omega
  have htail : (ip.segments.drop (span.start + span.len)).length = 8 - (span.start + span.len) := by
    simp [ip.length_eq]
  have h1 := readGroups_text (ip.segments.take span.start) 0 8
    (':' :: ':' :: displayGroups (ip.segments.drop (span.start + span.len)))
    (by omega) (by rw [displayGroups_eq]; simp [dot_not_mem_groupsText])
    (stops_cons (by decide)) (fun _ => readGroup_colon_eq_none _ _)
  have h2 := readGroups_text (ip.segments.drop (span.start + span.len)) 0 (7 - span.start)
    [] (by omega) (by simp) (stops_nil 16) (fun _ => readGroup_nil_eq_none _)
  rw [← displayGroups_eq] at h1
  rw [List.append_nil, ← displayGroups_eq] at h2
  have hfill : 8 - span.start - (8 - (span.start + span.len)) = span.len := by omega
  have hsegs := hz.take_append_drop
  simp only [readIpv6, h1, hhead, readChar, ↓reduceIte, Option.bind_some, h2, htail, hfill, hsegs,
    ofGroups_segments, Option.map_some, Bool.false_eq_true]
  rw [if_neg (by omega)]

theorem segments_of_toIpv4Mapped {ip : Ipv6Addr} {ip4 : Ipv4Addr}
    (h : toIpv4Mapped ip = some ip4) :
    ip.segments = [0, 0, 0, 0, 0, 0xffff] ++ groupsOfIpv4 ip4 := by
  unfold toIpv4Mapped at h
  split at h
  · rename_i hseg
    split at h
    · rename_i hz
      obtain ⟨rfl, rfl, rfl, rfl, rfl, rfl⟩ := hz
      obtain rfl := Option.some.inj h
      rw [hseg]
      simp only [groupsOfIpv4, List.cons_append, List.nil_append, List.cons.injEq, true_and, and_true]
      constructor <;> ext <;> simp <;> omega
    · simp at h
  · simp at h

theorem readIpv6_mapped (ip : Ipv6Addr) {ip4 : Ipv4Addr} (h : toIpv4Mapped ip = some ip4) :
    readIpv6 ("::ffff:".toList ++ displayIpv4 ip4) = some (ip, []) := by
  have hv4 := readIpv4_display ip4 (stops_nil 10)
  rw [List.append_nil] at hv4
  have hcolon : ∀ s, readIpv4 (':' :: s) = none := fun s => readIpv4_cons_eq_none (by decide)
  have hf : ∀ s, readIpv4 ('f' :: s) = none := fun s => readIpv4_cons_eq_none (by decide)
  have hhead : ∀ s, readGroups 0 8 (':' :: ':' :: s) = ([], false, ':' :: ':' :: s) := fun s => by
    simp [readGroups, readSeparator, hcolon, readGroup_colon_eq_none]
  have hgroup := readGroup_text 0 0xffff (':' :: displayIpv4 ip4) (stops_cons (by decide))
  have hdig : Nat.toDigits 16 (0xffff : Fin 65536) = ['f', 'f', 'f', 'f'] := by decide
  simp only [↓reduceIte, List.nil_append, hdig, List.cons_append] at hgroup
  have htail : readGroups 0 7 ("ffff:".toList ++ displayIpv4 ip4) =
      (0xffff :: groupsOfIpv4 ip4, true, []) := by
    show readGroups 0 7 ('f' :: 'f' :: 'f' :: 'f' :: ':' :: displayIpv4 ip4) = _
    simp [readGroups, readSeparator, hf, hgroup, readChar, hv4]
  have hsegs : [0, 0, 0, 0, 0, 0xffff] ++ groupsOfIpv4 ip4 = ip.segments :=
    (segments_of_toIpv4Mapped h).symm
  show readIpv6 (':' :: ':' :: ("ffff:".toList ++ displayIpv4 ip4)) = _
  have hlen : (0xffff :: groupsOfIpv4 ip4).length = 3 := rfl
  simp only [readIpv6, hhead, List.length_nil, readChar, ↓reduceIte, Option.bind_some, Nat.sub_zero,
    htail, hlen, List.nil_append]
  have hfill : List.replicate (8 - 3) (0 : Fin 65536) ++ 0xffff :: groupsOfIpv4 ip4 = ip.segments := hsegs
  rw [hfill, ofGroups_segments]
  rfl

/-- The canonical text of an address reads back as that address. -/
theorem parse_display (ip : IpAddr) : parse ip.display = some ip := by
  cases ip with
  | v4 ip =>
    have h := readIpv4_display ip (stops_nil 10)
    rw [List.append_nil] at h
    simp [parse, display, h]
  | v6 ip =>
    -- no IPv4 address starts the text, and the rest is read by `readIpv6`
    have key : readIpv4 (displayIpv6 ip) = none ∧ readIpv6 (displayIpv6 ip) = some (ip, []) := by
      unfold displayIpv6
      split
      · rename_i ip4 hm
        exact ⟨readIpv4_cons_eq_none (by decide), readIpv6_mapped ip hm⟩
      · have hz : (longestZeros ⟨0, 0⟩ ⟨0, 0⟩ 0 ip.segments).Zeros ip.segments :=
          zeros_longestZeros [] ip.segments ⟨0, 0⟩ ⟨0, 0⟩ ⟨by simp, fun i _ h => by simp at h⟩
            ⟨by simp, fun i _ h => by simp at h⟩ (by simp)
        simp only
        split
        · rename_i hlen
          refine ⟨readIpv4_eq_none ?_, readIpv6_compressed ip hz hlen⟩
          simp [displayGroups_eq, dot_not_mem_groupsText]
        · refine ⟨readIpv4_eq_none ?_, readIpv6_full ip⟩
          simp [displayGroups_eq, dot_not_mem_groupsText]
    simp [parse, display, key.1, key.2]

/-- The canonical text of an address has no uppercase letter. -/
theorem toAsciiLowercase_display (ip : IpAddr) : ip.display.toAsciiLowercase = ip.display := by
  have hdec : ∀ n, ∀ c ∈ Nat.toDigits 10 n, Text.asciiLower c = c :=
    forall_mem_toDigits (by decide) (by decide)
  have hhex : ∀ gs, ∀ c ∈ displayGroups gs, Text.asciiLower c = c := fun gs => by
    rw [displayGroups_eq]
    exact forall_mem_groupsText (by decide) (by decide) 0 gs
  have hv4 : ∀ ip, ∀ c ∈ displayIpv4 ip, Text.asciiLower c = c := fun ip => by
    have hdot : Text.asciiLower '.' = '.' := by decide
    simp only [displayIpv4, List.forall_mem_append, List.forall_mem_cons]
    exact ⟨hdec _, hdot, hdec _, hdot, hdec _, hdot, hdec _⟩
  have hall : ∀ c ∈ ip.display, Text.asciiLower c = c := by
    cases ip with
    | v4 ip => exact hv4 ip
    | v6 ip =>
      simp only [display, displayIpv6]
      split
      · have hmapped : ∀ c ∈ [':', ':', 'f', 'f', 'f', 'f', ':'], Text.asciiLower c = c := by
          simp only [List.forall_mem_cons]
          exact ⟨by decide, by decide, by decide, by decide, by decide, by decide, by decide, by simp⟩
        exact List.forall_mem_append.2 ⟨hmapped, hv4 _⟩
      · split
        · have hcolon : Text.asciiLower ':' = ':' := by decide
          simp only [List.forall_mem_append, List.forall_mem_cons]
          exact ⟨hhex _, hcolon, hcolon, hhex _⟩
        · exact hhex _
  exact (List.map_congr_left hall).trans (List.map_id' _)

/-! ### ASCII case -/

section Case
variable {α : Type} {radix : Nat} {c : Char} {s : Text}

theorem toDigit_asciiLower (radix : Nat) (c : Char) :
    toDigit radix (Text.asciiLower c) = toDigit radix c := by
  simp only [toDigit, Text.toNat_asciiLower]
  congr 1
  split_ifs <;> first | rfl | (congr 1; omega)

/-- Reading pays no attention to case, and leaves the rest as it is. -/
def CaseBlind (read : Text → Option (α × Text)) : Prop :=
  ∀ s, read s.toAsciiLowercase = (read s).map fun p => (p.1, p.2.toAsciiLowercase)

theorem readDigits_toAsciiLowercase (radix value count : Nat) (s : Text) :
    readDigits radix value count s.toAsciiLowercase =
      let (value, count, rest) := readDigits radix value count s
      (value, count, rest.toAsciiLowercase) := by
  induction s generalizing value count with
  | nil => rfl
  | cons c s ih =>
    rw [Text.toAsciiLowercase, List.map_cons, readDigits, readDigits, toDigit_asciiLower]
    cases toDigit radix c with
    | some d => exact ih _ _
    | none => rfl

theorem head?_toAsciiLowercase_iff (hc : c.toNat < 65) :
    s.toAsciiLowercase.head? = some c ↔ s.head? = some c := by
  cases s with
  | nil => rfl
  | cons d s =>
    simp only [Text.toAsciiLowercase, List.map_cons, List.head?_cons, Option.some.injEq]
    constructor
    · exact Text.eq_of_asciiLower (.inl (by omega))
    · rintro rfl
      rw [← Char.toNat_inj, Text.toNat_asciiLower, if_neg (by omega)]

theorem caseBlind_readNumber (radix maxDigits : Nat) (allowZeroPrefix : Bool) (bound : Nat) :
    CaseBlind (readNumber radix maxDigits allowZeroPrefix bound) := by
  intro s
  have hzero := head?_toAsciiLowercase_iff (s := s) (c := '0') (by decide)
  simp only [readNumber, readDigits_toAsciiLowercase, hzero]
  split_ifs <;> rfl

theorem readChar_toAsciiLowercase (hc : c.toNat < 65) (s : Text) :
    readChar c s.toAsciiLowercase = (readChar c s).map Text.toAsciiLowercase := by
  have hhead := head?_toAsciiLowercase_iff (s := s) hc
  cases s with
  | nil => rfl
  | cons d s =>
    simp only [Text.toAsciiLowercase, List.map_cons, List.head?_cons, Option.some.injEq] at hhead
    simp only [Text.toAsciiLowercase, List.map_cons, readChar, hhead]
    split <;> rfl

theorem CaseBlind.readSeparator {read : Text → Option (α × Text)} (h : CaseBlind read)
    (hc : c.toNat < 65) (index : Nat) : CaseBlind (readSeparator c index read) := by
  intro s
  unfold IpAddr.readSeparator
  split
  · exact h s
  · rw [readChar_toAsciiLowercase hc]
    cases readChar c s with
    | none => rfl
    | some rest => exact h rest

theorem caseBlind_readOctet (index : Nat) : CaseBlind (readOctet index) :=
  CaseBlind.readSeparator (caseBlind_readNumber _ _ _ _) (by decide) index

theorem caseBlind_readGroup (index : Nat) : CaseBlind (readGroup index) :=
  CaseBlind.readSeparator (caseBlind_readNumber _ _ _ _) (by decide) index

theorem caseBlind_readIpv4 : CaseBlind readIpv4 := by
  intro s
  unfold readIpv4
  rw [caseBlind_readOctet 0 s]
  rcases readOctet 0 s with - | ⟨a, s⟩
  · rfl
  simp only [Option.map_some, Option.bind_eq_bind, Option.bind_some]
  rw [caseBlind_readOctet 1 s]
  rcases readOctet 1 s with - | ⟨b, s⟩
  · rfl
  simp only [Option.map_some, Option.bind_some]
  rw [caseBlind_readOctet 2 s]
  rcases readOctet 2 s with - | ⟨c, s⟩
  · rfl
  simp only [Option.map_some, Option.bind_some]
  rw [caseBlind_readOctet 3 s]
  rcases readOctet 3 s with - | ⟨d, s⟩
  · rfl
  · rfl

theorem readGroups_toAsciiLowercase (index slots : Nat) (s : Text) :
    readGroups index slots s.toAsciiLowercase =
      let (gs, embedded, rest) := readGroups index slots s
      (gs, embedded, rest.toAsciiLowercase) := by
  induction slots generalizing index s with
  | zero => rfl
  | succ slots ih =>
    have hv4 : (if 0 < slots then readSeparator ':' index readIpv4 s.toAsciiLowercase else none) =
        (if 0 < slots then readSeparator ':' index readIpv4 s else none).map
          fun p => (p.1, p.2.toAsciiLowercase) := by
      split
      · exact caseBlind_readIpv4.readSeparator (by decide) index s
      · rfl
    rw [readGroups, readGroups, hv4]
    cases (if 0 < slots then readSeparator ':' index readIpv4 s else none) with
    | some p => rfl
    | none =>
      simp only [Option.map_none]
      rw [caseBlind_readGroup index s]
      cases readGroup index s with
      | none => rfl
      | some p =>
        simp only [Option.map_some]
        rw [ih]

theorem caseBlind_readIpv6 : CaseBlind readIpv6 := by
  intro s
  unfold readIpv6
  rw [readGroups_toAsciiLowercase]
  obtain ⟨head, embedded, rest⟩ := readGroups 0 8 s
  dsimp only
  split_ifs with hlen hembedded
  · cases ofGroups head <;> rfl
  · rfl
  · have hcolons : (readChar ':' rest.toAsciiLowercase).bind (readChar ':') =
        ((readChar ':' rest).bind (readChar ':')).map Text.toAsciiLowercase := by
      rw [readChar_toAsciiLowercase (by decide)]
      cases readChar ':' rest with
      | none => rfl
      | some rest => exact readChar_toAsciiLowercase (by decide) rest
    rw [hcolons]
    cases (readChar ':' rest).bind (readChar ':') with
    | none => rfl
    | some rest =>
      simp only [Option.map_some]
      rw [readGroups_toAsciiLowercase]
      obtain ⟨tail, e, rest⟩ := readGroups 0 (7 - head.length) rest
      dsimp only
      cases ofGroups (head ++ List.replicate (8 - head.length - tail.length) 0 ++ tail) <;> rfl

/-- Spellings of an address that differ in case are the same address. -/
theorem parse_toAsciiLowercase (s : Text) : parse s.toAsciiLowercase = parse s := by
  unfold parse
  rw [caseBlind_readIpv4 s, caseBlind_readIpv6 s]
  rcases readIpv4 s with - | ⟨ip, rest⟩
  · rcases readIpv6 s with - | ⟨ip, rest⟩
    · rfl
    · cases rest <;> rfl
  · cases rest <;> rfl

end Case
end IpAddr

end Lib
