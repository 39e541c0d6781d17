import TinyBrowser.Lib.Text

/-!
# UTF-16

`scan` reads a sequence of code units from the left: a unit or a surrogate pair gives its character, an
unpaired surrogate gives `none`. Strict decoding wants a character everywhere and is the inverse of
encoding; it fails exactly at an unpaired surrogate (`decode_eq_none_iff`), and encoded text in front
does not matter.
-/

namespace Lib.Utf16

def isHigh (u : UInt16) : Bool := 0xD800 ≤ u && u ≤ 0xDBFF

def isLow (u : UInt16) : Bool := 0xDC00 ≤ u && u ≤ 0xDFFF

def encodeChar (c : Char) : List UInt16 :=
  if c.toNat < 0x10000 then [UInt16.ofNat c.toNat]
  else [UInt16.ofNat (0xD800 + (c.toNat - 0x10000) / 0x400),
    UInt16.ofNat (0xDC00 + (c.toNat - 0x10000) % 0x400)]

/-- `str::encode_utf16`. -/
def encode (s : Text) : List UInt16 := s.flatMap encodeChar

def ofPair (high low : UInt16) : Char :=
  Char.ofNat (0x10000 + (high.toNat - 0xD800) * 0x400 + (low.toNat - 0xDC00))

def ofUnit (u : UInt16) : Option Char :=
  if isHigh u || isLow u then none else some (Char.ofNat u.toNat)

/-- `char::decode_utf16`. -/
def scan : List UInt16 → List (Option Char)
  | [] => []
  | [u] => [ofUnit u]
  | u :: v :: rest =>
    if isHigh u && isLow v then some (ofPair u v) :: scan rest else ofUnit u :: scan (v :: rest)

/-- `String::from_utf16`. -/
def decode (units : List UInt16) : Option Text := (scan units).mapM id

/-- `String::from_utf16_lossy`. -/
def decodeLossy (units : List UInt16) : Text := (scan units).map (·.getD (Char.ofNat 0xFFFD))

/-- The unit at `i` is half of a pair whose other half is missing. -/
def Unpaired (units : List UInt16) (i : Nat) : Prop :=
  (∃ u ∈ units[i]?, isHigh u = true ∧ ∀ v ∈ units[i + 1]?, isLow v = false) ∨
  (∃ u ∈ units[i]?, isLow u = true ∧ ∀ v ∈ units[i - 1]?, 0 < i → isHigh v = false)

section
variable {c : Char} {s t : Text} {u v : UInt16} {units rest : List UInt16}

theorem isHigh_iff : isHigh u = true ↔ 0xD800 ≤ u.toNat ∧ u.toNat ≤ 0xDBFF := by
  simp [isHigh, UInt16.le_iff_toNat_le]

theorem isLow_iff : isLow u = true ↔ 0xDC00 ≤ u.toNat ∧ u.toNat ≤ 0xDFFF := by
  simp [isLow, UInt16.le_iff_toNat_le]

theorem isHigh_eq_false_of_isLow (h : isLow u = true) : isHigh u = false := by
  rw [Bool.eq_false_iff, ne_eq, isHigh_iff]
  rw [isLow_iff] at h
  omega

theorem isLow_eq_false_of_isHigh (h : isHigh u = true) : isLow u = false := by
  rw [Bool.eq_false_iff, ne_eq, isLow_iff]
  rw [isHigh_iff] at h
  omega

theorem toNat_ofNat_of_lt {n : Nat} (h : n < 0x10000) : (UInt16.ofNat n).toNat = n := by
  rw [UInt16.toNat_ofNat']
  omega

theorem toNat_cases (c : Char) : c.toNat < 0xD800 ∨ 0xDFFF < c.toNat ∧ c.toNat < 0x110000 := c.valid

theorem toNat_ofNat_char {n : Nat} (h : n < 0xD800 ∨ 0xDFFF < n ∧ n < 0x110000) :
    (Char.ofNat n).toNat = n := by
  rw [Char.ofNat, dif_pos h]
  rfl

/-- A character is one unit that is no surrogate, or a pair. -/
theorem encodeChar_cases (c : Char) :
    (∃ u, encodeChar c = [u] ∧ ofUnit u = some c) ∨
    ∃ u v, encodeChar c = [u, v] ∧ isHigh u = true ∧ isLow v = true ∧ ofPair u v = c := by
  have hc := toNat_cases c
  unfold encodeChar
  split
  · next hlt =>
    have hu := toNat_ofNat_of_lt hlt
    refine .inl ⟨_, rfl, ?_⟩
    have hhigh : isHigh (UInt16.ofNat c.toNat) = false := by
      rw [Bool.eq_false_iff, ne_eq, isHigh_iff, hu]
      omega
    have hlow : isLow (UInt16.ofNat c.toNat) = false := by
      rw [Bool.eq_false_iff, ne_eq, isLow_iff, hu]
      omega
    rw [ofUnit, hhigh, hlow, hu, Char.ofNat_toNat]
    rfl
  · next hge =>
    have hu := toNat_ofNat_of_lt (n := 0xD800 + (c.toNat - 0x10000) / 0x400) (by omega)
    have hv := toNat_ofNat_of_lt (n := 0xDC00 + (c.toNat - 0x10000) % 0x400) (by omega)
    refine .inr ⟨_, _, rfl, ?_, ?_, ?_⟩
    · rw [isHigh_iff, hu]
      omega
    · rw [isLow_iff, hv]
      omega
    · rw [ofPair, hu, hv, ← Char.toNat_inj, toNat_ofNat_char (by omega)]
      omega

theorem encodeChar_ofUnit (h : ofUnit u = some c) : encodeChar c = [u] := by
  unfold ofUnit at h
  split at h
  · cases h
  · next hnot =>
    obtain rfl := Option.some.inj h
    simp only [Bool.or_eq_true, not_or, isHigh_iff, isLow_iff] at hnot
    have hlt := u.toNat_lt
    have hchar := toNat_ofNat_char (n := u.toNat) (by omega)
    rw [encodeChar, hchar, if_pos (by omega), UInt16.ofNat_toNat]

theorem encodeChar_ofPair (hu : isHigh u = true) (hv : isLow v = true) :
    encodeChar (ofPair u v) = [u, v] := by
  rw [isHigh_iff] at hu
  rw [isLow_iff] at hv
  have hchar := toNat_ofNat_char
    (n := 0x10000 + (u.toNat - 0xD800) * 0x400 + (v.toNat - 0xDC00)) (by omega)
  rw [encodeChar, ofPair, hchar, if_neg (by omega)]
  refine congrArg₂ List.cons ?_ (congrArg (fun w => [w]) ?_)
  · rw [← UInt16.toNat_inj, toNat_ofNat_of_lt (by omega)]
    omega
  · rw [← UInt16.toNat_inj, toNat_ofNat_of_lt (by omega)]
    omega

/-! ### Scanning -/

theorem scan_cons_of_ofUnit (h : ofUnit u = some c) (rest : List UInt16) :
    scan (u :: rest) = some c :: scan rest := by
  cases rest with
  | nil =>
    show [ofUnit u] = [some c]
    rw [h]
  | cons v rest =>
    have hhigh : isHigh u = false := by
      cases hu : isHigh u with
      | false => rfl
      | true => simp [ofUnit, hu] at h
    rw [scan, hhigh, Bool.false_and, if_neg Bool.false_ne_true, h]

theorem scan_pair (hu : isHigh u = true) (hv : isLow v = true) (rest : List UInt16) :
    scan (u :: v :: rest) = some (ofPair u v) :: scan rest := by
  rw [scan, hu, hv, Bool.true_and, if_pos rfl]

theorem scan_encodeChar_append (c : Char) (rest : List UInt16) :
    scan (encodeChar c ++ rest) = some c :: scan rest := by
  rcases encodeChar_cases c with ⟨u, henc, hu⟩ | ⟨u, v, henc, hu, hv, hc⟩
  · rw [henc]
    exact scan_cons_of_ofUnit hu rest
  · rw [henc, ← hc]
    exact scan_pair hu hv rest

theorem encode_cons (c : Char) (s : Text) : encode (c :: s) = encodeChar c ++ encode s :=
  List.flatMap_cons

theorem encode_append (s t : Text) : encode (s ++ t) = encode s ++ encode t := List.flatMap_append

theorem scan_encode_append (s : Text) (rest : List UInt16) :
    scan (encode s ++ rest) = s.map some ++ scan rest := by
  induction s with
  | nil => rfl
  | cons c s ih =>
    rw [encode_cons, List.append_assoc, scan_encodeChar_append, ih]
    rfl

theorem scan_encode (s : Text) : scan (encode s) = s.map some := by
  have h := scan_encode_append s []
  rw [List.append_nil] at h
  rw [h, scan, List.append_nil]

/-- Only a low surrogate completes what stands in front. -/
theorem scan_append (h : ∀ w ∈ rest.head?, isLow w = false) (units : List UInt16) :
    scan (units ++ rest) = scan units ++ scan rest := by
  induction units using scan.induct with
  | case1 => rfl
  | case2 u =>
    cases rest with
    | nil => rfl
    | cons w rest =>
      have hlow : isLow w = false := h w rfl
      rw [List.singleton_append, scan.eq_3, hlow, Bool.and_false, if_neg Bool.false_ne_true]
      rfl
  | case3 u v units hpair ih =>
    rw [List.cons_append, List.cons_append, scan, if_pos hpair, ih, scan, if_pos hpair]
    rfl
  | case4 u v units hpair ih =>
    rw [List.cons_append, List.cons_append, scan, if_neg hpair, ← List.cons_append, ih, scan,
      if_neg hpair]
    rfl

theorem isLow_head_encode (s : Text) : ∀ w ∈ (encode s).head?, isLow w = false := by
  cases s with
  | nil => simp [encode]
  | cons c s =>
    rw [encode_cons]
    intro w hw
    rcases encodeChar_cases c with ⟨u, henc, hu⟩ | ⟨u, v, henc, hu, -⟩
    · rw [henc] at hw
      obtain rfl : u = w := Option.some.inj hw
      cases hlow : isLow u with
      | false => rfl
      | true => simp [ofUnit, hlow] at hu
    · rw [henc] at hw
      obtain rfl : u = w := Option.some.inj hw
      exact isLow_eq_false_of_isHigh hu

theorem scan_append_encode (units : List UInt16) (s : Text) :
    scan (units ++ encode s) = scan units ++ s.map some := by
  rw [scan_append (isLow_head_encode s), scan_encode]

/-- Without unpaired surrogates the units are those of the characters. -/
theorem encode_of_scan (h : scan units = s.map some) : encode s = units := by
  induction units using scan.induct generalizing s with
  | case1 =>
    rw [List.map_eq_nil_iff.1 h.symm]
    rfl
  | case2 u =>
    replace h : s.map some = [ofUnit u] := h.symm
    obtain ⟨c, s, rfl, hc, hs⟩ := List.map_eq_cons_iff.1 h
    rw [List.map_eq_nil_iff.1 hs, encode_cons, encodeChar_ofUnit hc.symm]
    rfl
  | case3 u v rest hpair ih =>
    rw [scan, if_pos hpair] at h
    obtain ⟨c, s, rfl, hc, hs⟩ := List.map_eq_cons_iff.1 h.symm
    rw [Bool.and_eq_true] at hpair
    rw [encode_cons, Option.some.inj hc, encodeChar_ofPair hpair.1 hpair.2, ih hs.symm]
    rfl
  | case4 u v rest hpair ih =>
    rw [scan, if_neg hpair] at h
    obtain ⟨c, s, rfl, hc, hs⟩ := List.map_eq_cons_iff.1 h.symm
    rw [encode_cons, encodeChar_ofUnit hc.symm, ih hs.symm]
    rfl

/-! ### Decoding -/

theorem mapM_id_eq_some {l : List (Option Char)} : l.mapM id = some s ↔ l = s.map some := by
  induction l generalizing s with
  | nil =>
    constructor
    · rintro h
      obtain rfl : [] = s := Option.some.inj h
      rfl
    · intro h
      rw [List.map_eq_nil_iff.1 h.symm]
      rfl
  | cons o l ih =>
    rw [List.mapM_cons]
    cases o with
    | none =>
      refine iff_of_false (by simp) fun h => ?_
      obtain ⟨c, s, rfl, hc, -⟩ := List.map_eq_cons_iff.1 h.symm
      cases hc
    | some c =>
      simp only [id_eq, Option.bind_eq_bind, Option.bind_some, Option.pure_def,
        Option.bind_eq_some_iff, Option.some.injEq]
      constructor
      · rintro ⟨s, hs, rfl⟩
        rw [ih.1 hs]
        rfl
      · intro h
        obtain ⟨d, s, rfl, hd, hs⟩ := List.map_eq_cons_iff.1 h.symm
        obtain rfl := Option.some.inj hd
        exact ⟨s, ih.2 hs.symm, rfl⟩

theorem decode_eq_some_iff : decode units = some s ↔ encode s = units := by
  rw [decode, mapM_id_eq_some]
  constructor
  · exact encode_of_scan
  · rintro rfl
    exact scan_encode s

theorem decode_encode (s : Text) : decode (encode s) = some s := decode_eq_some_iff.2 rfl

theorem decodeLossy_encode_append (s : Text) (rest : List UInt16) :
    decodeLossy (encode s ++ rest) = s ++ decodeLossy rest := by
  rw [decodeLossy, scan_encode_append, List.map_append, List.map_map]
  exact congrArg (· ++ decodeLossy rest) (List.map_id s)

theorem decodeLossy_encode (s : Text) : decodeLossy (encode s) = s := by
  have h := decodeLossy_encode_append s []
  rwa [List.append_nil, show decodeLossy [] = [] from rfl, List.append_nil] at h

/-! ### Unpaired surrogates -/

theorem mapM_id_eq_none {l : List (Option Char)} : l.mapM id = none ↔ none ∈ l := by
  induction l with
  | nil => simp
  | cons o l ih =>
    rw [List.mapM_cons]
    cases o with
    | none => simp
    | some c =>
      rw [List.mem_cons, ← ih]
      cases l.mapM id with
      | none => simp
      | some s => simp

theorem ofUnit_eq_none : ofUnit u = none ↔ isHigh u = true ∨ isLow u = true := by
  unfold ofUnit
  split
  · next h => simpa using h
  · next h => simpa using h

theorem unpaired_pair (hu : isHigh u = true) (hv : isLow v = true) (rest : List UInt16) :
    ¬Unpaired (u :: v :: rest) 0 ∧ ¬Unpaired (u :: v :: rest) 1 ∧
    ∀ i, Unpaired (u :: v :: rest) (i + 2) ↔ Unpaired rest i := by
  have hul := isLow_eq_false_of_isHigh hu
  have hvh := isHigh_eq_false_of_isLow hv
  refine ⟨by simp [Unpaired, hul, hv], by simp [Unpaired, hu, hvh], fun i => ?_⟩
  cases i with
  | zero => simp [Unpaired, hvh]
  | succ i => simp [Unpaired]

/-- So is a unit that starts no pair. -/
theorem unpaired_single (hpair : isHigh u = true → ∀ v ∈ rest.head?, isLow v = false) :
    (Unpaired (u :: rest) 0 ↔ ofUnit u = none) ∧
    ∀ i, Unpaired (u :: rest) (i + 1) ↔ Unpaired rest i := by
  rw [ofUnit_eq_none]
  refine ⟨?_, fun i => ?_⟩
  · constructor
    · rintro (⟨w, hw, hhigh, -⟩ | ⟨w, hw, hlow, -⟩)
      · obtain rfl : u = w := Option.some.inj hw
        exact .inl hhigh
      · obtain rfl : u = w := Option.some.inj hw
        exact .inr hlow
    · rintro (hhigh | hlow)
      · refine .inl ⟨u, rfl, hhigh, fun v hv => hpair hhigh v ?_⟩
        rwa [List.head?_eq_getElem?]
      · exact .inr ⟨u, rfl, hlow, by simp⟩
  · cases i with
    | zero =>
      constructor
      · rintro (h | ⟨w, hw, hlow, -⟩)
        · exact .inl (by simpa using h)
        · exact .inr ⟨w, by simpa using hw, hlow, by simp⟩
      · rintro (h | ⟨w, hw, hlow, -⟩)
        · exact .inl (by simpa using h)
        · refine .inr ⟨w, by simpa using hw, hlow, fun v hv _ => ?_⟩
          obtain rfl : u = v := Option.some.inj hv
          cases hu : isHigh u with
          | false => rfl
          | true =>
            rw [hpair hu w (by rwa [List.head?_eq_getElem?])] at hlow
            cases hlow
    | succ i => simp [Unpaired]

theorem isLow_head_of_not_pair (hpair : ¬(isHigh u && isLow v) = true) (rest : List UInt16)
    (hu : isHigh u = true) : ∀ w ∈ (v :: rest).head?, isLow w = false := by
  intro w hw
  obtain rfl : v = w := Option.some.inj hw
  simpa [hu] using hpair

/-- Lossy text is the units with U+FFFD for the unpaired ones. -/
theorem getElem?_encode_decodeLossy (units : List UInt16) (i : Nat) :
    (Unpaired units i → (encode (decodeLossy units))[i]? = some 0xFFFD) ∧
    (¬Unpaired units i → (encode (decodeLossy units))[i]? = units[i]?) := by
  have hreplaced : encodeChar (Char.ofNat 0xFFFD) = [0xFFFD] := by decide +kernel
  have hsingle : ∀ (u : UInt16) (o : Option Char), ofUnit u = o →
      ∃ w, encodeChar (o.getD (Char.ofNat 0xFFFD)) = [w] ∧ (o = none → w = 0xFFFD) ∧
        (o ≠ none → w = u) := by
    intro u o ho
    cases o with
    | none => exact ⟨_, hreplaced, by simp, by simp⟩
    | some c => exact ⟨_, encodeChar_ofUnit ho, by simp, by simp⟩
  induction units using scan.induct generalizing i with
  | case1 => simp [decodeLossy, scan, encode, Unpaired]
  | case2 u =>
    obtain ⟨w, henc, hnone, hsome⟩ := hsingle u _ rfl
    obtain ⟨hzero, hsucc⟩ := @unpaired_single u [] (by simp)
    rw [decodeLossy, scan, List.map_cons, encode_cons, henc]
    cases i with
    | zero =>
      rw [hzero]
      simpa using ⟨hnone, hsome⟩
    | succ i =>
      rw [hsucc]
      simp [Unpaired, encode]
  | case3 u v rest hpair ih =>
    have hboth := Bool.and_eq_true_iff.1 hpair
    obtain ⟨hzero, hone, hsucc⟩ := unpaired_pair hboth.1 hboth.2 rest
    rw [decodeLossy, scan, if_pos hpair, List.map_cons, encode_cons, Option.getD_some,
      encodeChar_ofPair hboth.1 hboth.2]
    match i with
    | 0 => simp [hzero]
    | 1 => simp [hone]
    | i + 2 =>
      rw [hsucc]
      exact ih i
  | case4 u v rest hpair ih =>
    obtain ⟨w, henc, hnone, hsome⟩ := hsingle u _ rfl
    obtain ⟨hzero, hsucc⟩ := unpaired_single (isLow_head_of_not_pair hpair rest)
    rw [decodeLossy, scan, if_neg hpair, List.map_cons, encode_cons, henc]
    cases i with
    | zero =>
      rw [hzero]
      simpa using ⟨hnone, hsome⟩
    | succ i =>
      rw [hsucc]
      exact ih i

/-- One unit stands for one unpaired surrogate, so no offset moves. -/
theorem length_encode_decodeLossy (units : List UInt16) :
    (encode (decodeLossy units)).length = units.length := by
  have hnone : ∀ i : Nat, (encode (decodeLossy units))[i]? = none ↔ units[i]? = none := by
    intro i
    obtain ⟨hreplaced, hkept⟩ := getElem?_encode_decodeLossy units i
    by_cases h : Unpaired units i
    · rw [hreplaced h]
      rcases h with ⟨u, hu, -⟩ | ⟨u, hu, -⟩
      · simp [Option.mem_def.1 hu]
      · simp [Option.mem_def.1 hu]
    · rw [hkept h]
  simp only [List.getElem?_eq_none_iff] at hnone
  exact Nat.le_antisymm ((hnone _).2 (Nat.le_refl _)) ((hnone _).1 (Nat.le_refl _))

theorem none_mem_scan : none ∈ scan units ↔ ∃ i, Unpaired units i := by
  induction units using scan.induct with
  | case1 => simp [scan, Unpaired]
  | case2 u =>
    obtain ⟨hzero, hsucc⟩ := @unpaired_single u [] (by simp)
    rw [scan, List.mem_singleton, eq_comm, ← Nat.or_exists_add_one, hzero]
    simp only [hsucc]
    simp [Unpaired]
  | case3 u v rest hpair ih =>
    have hboth := Bool.and_eq_true_iff.1 hpair
    obtain ⟨hzero, hone, hsucc⟩ := unpaired_pair hboth.1 hboth.2 rest
    rw [scan, if_pos hpair, List.mem_cons, ih]
    constructor
    · rintro (h | ⟨i, h⟩)
      · cases h
      · exact ⟨i + 2, (hsucc i).2 h⟩
    · rintro ⟨i, h⟩
      match i with
      | 0 => exact absurd h hzero
      | 1 => exact absurd h hone
      | i + 2 => exact .inr ⟨i, (hsucc i).1 h⟩
  | case4 u v rest hpair ih =>
    obtain ⟨hzero, hsucc⟩ := unpaired_single (isLow_head_of_not_pair hpair rest)
    have hboth : (∃ i, Unpaired (u :: v :: rest) i) ↔
        ofUnit u = none ∨ ∃ i, Unpaired (v :: rest) i := by
      rw [← Nat.or_exists_add_one, hzero]
      simp only [hsucc]
    rw [scan, if_neg hpair, List.mem_cons, ih, hboth, eq_comm]

theorem decode_eq_none_iff : decode units = none ↔ ∃ i, Unpaired units i := by
  rw [decode, mapM_id_eq_none, none_mem_scan]

theorem decode_append_encode_eq_none (h : decode units = none) (s : Text) :
    decode (units ++ encode s) = none := by
  rw [decode, mapM_id_eq_none] at h ⊢
  rw [scan_append_encode, List.mem_append]
  exact .inl h

end
end Lib.Utf16
