import TinyBrowser.Cookies.Parse
import TinyBrowser.Lib.Bytes
import TinyBrowser.Lib.Checked

/-!
# Cookie dates on machine integers

`parse_cookie_date` of `crates/cookies/src/lib.rs` with the bytes, the slices and the fixed-width
arithmetic of the source, where each operation that could panic can. None does, and the result is that
of `parseCookieDate` (`parseCookieDateChecked_eq`).
-/

namespace TinyBrowser
open Lib Lib.Checked

/-! ### Tokens -/

def isAsciiDigitByte (b : UInt8) : Bool := 0x30 ≤ b && b ≤ 0x39

/-- The loop of `take_ascii_digits`. -/
def countDigits (bytes : Bytes) (max n : Nat) : Except Exit Nat :=
  if h : n < bytes.length ∧ n < max then do
    let b ← index bytes n
    if isAsciiDigitByte b then countDigits bytes max (n + 1) else .ok n
  else .ok n
termination_by max - n

/-- `str::parse::<i32>` of a run of digits. -/
def parseI32 (text : Text) : Except Exit Int := do
  let n ← orReturn (Text.readNat text)
  i32.checked n

def takeAsciiDigitsChecked (bytes : Bytes) (min max : Nat) : Except Exit (Int × Bytes) := do
  let n ← countDigits bytes max 0
  if n < min then .error .none
  else
    let digits ← sliceTo bytes n
    let text ← orReturn (Bytes.toText? digits)
    let value ← parseI32 text
    let rest ← sliceFrom bytes n
    .ok (value, rest)

def startsWithDigitByte (bytes : Bytes) : Bool := bytes.head?.any isAsciiDigitByte

def stripColon : Bytes → Except Exit Bytes
  | b :: rest => if b = 0x3A then .ok rest else .error .none
  | [] => .error .none

def parseDayTokenChecked (token : Bytes) : Except Exit Nat := do
  let (n, rest) ← takeAsciiDigitsChecked token 1 2
  if startsWithDigitByte rest then .error .none
  else
    let n ← u32.checked n
    .ok n.toNat

def parseTimeTokenChecked (token : Bytes) : Except Exit (Nat × Nat × Nat) := do
  let (hour, rest) ← takeAsciiDigitsChecked token 1 2
  let rest ← stripColon rest
  let (min, rest) ← takeAsciiDigitsChecked rest 1 2
  let rest ← stripColon rest
  let (sec, rest) ← takeAsciiDigitsChecked rest 1 2
  if startsWithDigitByte rest then .error .none
  else
    let hour ← u32.checked hour
    let min ← u32.checked min
    let sec ← u32.checked sec
    .ok (hour.toNat, min.toNat, sec.toNat)

def parseYearTokenChecked (token : Bytes) : Except Exit Int := do
  let (n, rest) ← takeAsciiDigitsChecked token 2 4
  if startsWithDigitByte rest then .error .none
  else if 70 ≤ n ∧ n ≤ 99 then i32.op (n + 1900)
  else if 0 ≤ n ∧ n ≤ 69 then i32.op (n + 2000)
  else .ok n

def lowerByte (b : UInt8) : UInt8 := if 0x41 ≤ b ∧ b ≤ 0x5A then b + 0x20 else b

def monthKeys : List String :=
  ["jan", "feb", "mar", "apr", "may", "jun", "jul", "aug", "sep", "oct", "nov", "dec"]

def monthNumChecked (m : Bytes) : Except Exit Nat :=
  if m.length < 3 then .error .none
  else do
    let b₀ ← index m 0
    let b₁ ← index m 1
    let b₂ ← index m 2
    let key := [b₀, b₁, b₂].map lowerByte
    orReturn ((monthKeys.findIdx? (Bytes.ofText ·.toList = key)).map (· + 1))

/-! ### Dates -/

def civilToSystemChecked (year : Int) (month day hour min sec : Nat) : Except Exit SystemTime :=
  if ¬ (1 ≤ month ∧ month ≤ 12) ∨ day = 0 ∨ 31 < day ∨ 23 < hour ∨ 59 < min ∨ 59 < sec then
    .error .none
  else do
    let y ← (if month ≤ 2 then i32.op (year - 1) else .ok year)
    let era := y / 400
    let yoe ← u64.checked (y % 400)
    let mp ← (if 2 < month then u32.op (month - 3) else u32.op (month + 9))
    let doy ← u64.op (153 * mp)
    let doy ← u64.op (doy + 2)
    let doy ← u64.op (doy / 5 + day)
    let doy ← u64.op (doy - 1)
    let doe ← u64.op (yoe * 365)
    let doe ← u64.op (doe + yoe / 4)
    let doe ← u64.op (doe - yoe / 100)
    let doe ← u64.op (doe + doy)
    let days ← i64.checked (era * 146097)
    let doe ← i64.checked doe
    let days ← i64.checked (days + doe)
    let days ← i64.op (days - 719468)
    let secs ← i64.checked (days * 86400)
    let hours ← i64.op (hour * 3600)
    let mins ← i64.op (min * 60)
    let clock ← i64.op (hours + mins)
    let clock ← i64.op (clock + sec)
    let secs ← i64.checked (secs + clock)
    if 0 ≤ secs then
      let sinceEpoch ← u64.checked secs
      let secs ← i64.op sinceEpoch
      .ok (secs * nanosPerSec)
    else
      let n ← i64.op (-secs)
      let beforeEpoch ← u64.checked n
      let secs ← i64.checked (-beforeEpoch)
      .ok (secs * nanosPerSec)

/-- One component of a date: it is read when it is still missing, and a token that is not one is
passed on. -/
def orElseRead {α : Type} (field : Option α) (read : Except Exit α) (found : Option α → DateFields)
    (next : Except Exit DateFields) : Except Exit DateFields :=
  if field.isNone then do
    match ← attempt read with
    | some a => .ok (found (some a))
    | none => next
  else next

def DateFields.stepChecked (f : DateFields) (token : Bytes) : Except Exit DateFields :=
  orElseRead f.time (parseTimeTokenChecked token) ({ f with time := · }) <|
  orElseRead f.day (parseDayTokenChecked token) ({ f with day := · }) <|
  orElseRead f.month (monthNumChecked token) ({ f with month := · }) <|
  orElseRead f.year (parseYearTokenChecked token) ({ f with year := · }) (.ok f)

def parseCookieDateChecked (s : Text) : Except Exit SystemTime := do
  let f ← ((cookieDateTokens s).map Bytes.ofText).foldlM DateFields.stepChecked {}
  let year ← orReturn f.year
  let month ← orReturn f.month
  let day ← orReturn f.day
  let (hour, min, sec) ← orReturn f.time
  if year < 1601 ∨ ¬ (1 ≤ day ∧ day ≤ 31) ∨ 23 < hour ∨ 59 < min ∨ 59 < sec then .error .none
  else
    let last ← orReturn (daysInMonth year month)
    if last < day then .error .none else civilToSystemChecked year month day hour min sec

/-! ### Digits -/

section Tokens
variable {b : UInt8} {c d : Char} {m p s t : Text} {max min : Nat}

theorem isAsciiDigitByte_iff : isAsciiDigitByte b = true ↔ 48 ≤ b.toNat ∧ b.toNat ≤ 57 := by
  rw [isAsciiDigitByte, Bool.and_eq_true, decide_eq_true_eq, decide_eq_true_eq,
    UInt8.le_iff_toNat_le, UInt8.le_iff_toNat_le]
  rfl

theorem isAsciiDigitByte_of_marked (h : 0x80 ≤ b) : isAsciiDigitByte b = false := by
  have hle : 128 ≤ b.toNat := UInt8.le_iff_toNat_le.1 h
  rw [Bool.eq_false_iff, ne_eq, isAsciiDigitByte_iff]
  omega

theorem isAsciiDigitByte_ofNat (h : c.toNat < 0x80) :
    isAsciiDigitByte (UInt8.ofNat c.toNat) = Text.isAsciiDigit c := by
  rw [Bool.eq_iff_iff, isAsciiDigitByte_iff, Text.isAsciiDigit_iff, Bytes.toNat_ofNat_of_ascii h]

theorem not_isAsciiDigit_of_le (h : 0x80 ≤ c.toNat) : Text.isAsciiDigit c = false := by
  rw [Bool.eq_false_iff, ne_eq, Text.isAsciiDigit_iff]
  omega

theorem countDigits_eq (bytes : Bytes) (max n : Nat) : countDigits bytes max n =
    .ok (n + (((bytes.drop n).take (max - n)).takeWhile isAsciiDigitByte).length) := by
  fun_induction countDigits bytes max n with
  | case1 n h ih =>
    obtain ⟨k, hk⟩ : ∃ k, max - n = k + 1 := ⟨max - n - 1, by omega⟩
    rw [index_eq h.1, ok_bind, ih, List.drop_eq_getElem_cons h.1, hk, List.take_succ_cons,
      List.takeWhile_cons, show max - (n + 1) = k by omega]
    rw [List.get_eq_getElem]
    split
    · rw [List.length_cons]
      congr 1
      omega
    · rfl
  | case2 n h =>
    congr 1
    rcases Nat.lt_or_ge n bytes.length with hlt | hge
    · rw [show max - n = 0 by omega]
      rfl
    · rw [List.drop_eq_nil_of_le hge]
      simp

theorem takeWhile_ofText (s : Text) (max : Nat) :
    ((Bytes.ofText s).take max).takeWhile isAsciiDigitByte =
      Bytes.ofText ((s.take max).takeWhile Text.isAsciiDigit) := by
  induction s generalizing max with
  | nil => rw [List.take_nil]; simp [Bytes.ofText]
  | cons c s ih =>
    cases max with
    | zero => rfl
    | succ max =>
      rw [Bytes.ofText_cons, List.take_succ_cons, List.takeWhile_cons]
      rcases Bytes.utf8EncodeChar_cases c with ⟨hlt, henc⟩ | ⟨hle, b, l, henc, hb⟩
      · rw [henc, List.cons_append, List.nil_append, List.take_succ_cons, List.takeWhile_cons,
          isAsciiDigitByte_ofNat hlt, ih]
        split
        · rw [Bytes.ofText_cons, henc]
          rfl
        · rfl
      · rw [henc, List.cons_append, List.take_succ_cons, List.takeWhile_cons,
          isAsciiDigitByte_of_marked hb, not_isAsciiDigit_of_le hle]
        rfl

theorem parseI32_digits (h : Text.Digits t) (hne : t ≠ []) (hlen : t.length ≤ 9) :
    parseI32 t = .ok (Text.digitsValue t : Int) := by
  have hlt : Text.digitsValue t < 10 ^ 9 :=
    Nat.lt_of_lt_of_le (Text.digitsValue_lt h) (Nat.pow_le_pow_right (by omega) hlen)
  rw [parseI32, Text.readNat_of_digits h hne, orReturn_some, ok_bind, i32_checked (by omega) (by omega)]

/-- The digits of a token, and where the bytes and the characters of the rest agree. -/
theorem takeAsciiDigitsChecked_eq (s : Text) (hmin : 0 < min) (hmax : max ≤ 9) :
    takeAsciiDigitsChecked (Bytes.ofText s) min max =
      orReturn ((takeAsciiDigits s min max).map fun p => ((p.1 : Int), Bytes.ofText p.2)) := by
  have hcount := countDigits_eq (Bytes.ofText s) max 0
  rw [List.drop_zero, Nat.sub_zero, Nat.zero_add, takeWhile_ofText] at hcount
  unfold takeAsciiDigitsChecked takeAsciiDigits
  generalize hdigits : (s.take max).takeWhile Text.isAsciiDigit = digits at hcount
  have hd : Text.Digits digits := fun c hc =>
    List.all_eq_true.1 (hdigits ▸ List.all_takeWhile) c hc
  have hpre : digits <+: s := hdigits ▸ (List.takeWhile_prefix _).trans (List.take_prefix max s)
  have hlen : digits.length ≤ max := by
    rw [← hdigits]
    exact Nat.le_trans (List.takeWhile_prefix _).length_le (List.length_take_le ..)
  have hcode : ∀ c ∈ digits, c.toNat < 0x80 := fun c hc => by
    have hdigit := Text.isAsciiDigit_iff.1 (hd c hc)
    omega
  have hascii : ∀ b ∈ Bytes.ofText digits, b < 0x80 := fun b => Bytes.lt_of_mem_ofText hcode
  have hbytes := Bytes.length_ofText hcode
  obtain ⟨rest, rfl⟩ := hpre
  rw [hcount, ok_bind, hbytes]
  simp only
  split
  · rfl
  · next hge =>
    have hne : digits ≠ [] := fun hnil => by
      rw [hnil, List.length_nil] at hge
      omega
    have hle : digits.length ≤ (Bytes.ofText (digits ++ rest)).length := by
      rw [Bytes.ofText_append, List.length_append]
      omega
    rw [sliceTo_eq hle, sliceFrom_eq hle, ok_bind, Bytes.ofText_append, ← hbytes, List.take_left,
      List.drop_left, Bytes.toText?_ascii hascii, Bytes.ofText_ascii hascii, orReturn_some, ok_bind,
      parseI32_digits hd hne (by omega), ok_bind, ok_bind, hbytes, List.drop_left]
    rfl
theorem takeAsciiDigits_lt {n : Nat} {rest : Text} (h : takeAsciiDigits s min max = some (n, rest)) :
    n < 10 ^ max := by
  unfold takeAsciiDigits at h
  dsimp only at h
  split at h
  · cases h
  · obtain ⟨rfl, -⟩ := Prod.mk.inj (Option.some.inj h)
    have hd : Text.Digits ((s.take max).takeWhile Text.isAsciiDigit) := fun c hc =>
      List.all_eq_true.1 List.all_takeWhile c hc
    refine Nat.lt_of_lt_of_le (Text.digitsValue_lt hd) (Nat.pow_le_pow_right (by omega) ?_)
    exact Nat.le_trans (List.takeWhile_prefix _).length_le (List.length_take_le ..)

theorem startsWithDigitByte_ofText (s : Text) :
    startsWithDigitByte (Bytes.ofText s) = startsWithDigit s := by
  cases s with
  | nil => rfl
  | cons c s =>
    rw [Bytes.ofText_cons]
    rcases Bytes.utf8EncodeChar_cases c with ⟨hlt, henc⟩ | ⟨hle, b, l, henc, hb⟩
    · rw [henc]
      exact isAsciiDigitByte_ofNat hlt
    · rw [henc]
      exact (isAsciiDigitByte_of_marked hb).trans (not_isAsciiDigit_of_le hle).symm

theorem stripColon_ofText (s : Text) :
    stripColon (Bytes.ofText s) = orReturn ((IpAddr.readChar ':' s).map Bytes.ofText) := by
  cases s with
  | nil => rfl
  | cons c s =>
    have hchar : c = ':' ↔ c.toNat = 58 := Char.toNat_inj.symm
    rw [Bytes.ofText_cons, IpAddr.readChar]
    rcases Bytes.utf8EncodeChar_cases c with ⟨hlt, henc⟩ | ⟨hle, b, l, henc, hb⟩
    · have hbyte : UInt8.ofNat c.toNat = 0x3A ↔ c = ':' := by
        rw [hchar, ← UInt8.toNat_inj, Bytes.toNat_ofNat_of_ascii hlt]
        rfl
      rw [henc, List.cons_append, List.nil_append, stripColon]
      simp only [hbyte]
      split <;> rfl
    · have hne : b ≠ 0x3A := fun h => by
        rw [h] at hb
        exact absurd hb (by decide)
      rw [henc, List.cons_append, stripColon, if_neg hne, if_neg (mt hchar.1 (by omega))]
      rfl

/-! ### Months -/

theorem toNat_lowerByte (b : UInt8) : (lowerByte b).toNat =
    if 65 ≤ b.toNat ∧ b.toNat ≤ 90 then b.toNat + 32 else b.toNat := by
  rw [lowerByte]
  simp only [UInt8.le_iff_toNat_le, UInt8.reduceToNat]
  split
  · rw [UInt8.toNat_add]
    simp only [UInt8.reduceToNat]
    omega
  · rfl

theorem lowerByte_eq_iff (hc : c.toNat < 0x80) (hd : d.toNat < 0x80) :
    lowerByte (UInt8.ofNat d.toNat) = UInt8.ofNat c.toNat ↔ Text.asciiLower d = c := by
  rw [← UInt8.toNat_inj, toNat_lowerByte, Bytes.toNat_ofNat_of_ascii hc, Bytes.toNat_ofNat_of_ascii hd,
    ← Char.toNat_inj, Text.toNat_asciiLower]

/-- An ASCII key is a prefix of the bytes where it is one of the characters. -/
theorem take_ofText_iff (hp : ∀ c ∈ p, c.toNat < 0x80) :
    ((Bytes.ofText m).take p.length).map lowerByte = Bytes.ofText p ↔
      Text.toAsciiLowercase (m.take p.length) = p := by
  induction p generalizing m with
  | nil => simp [Bytes.ofText, Text.toAsciiLowercase]
  | cons c p ih =>
    obtain ⟨hc, hp⟩ := List.forall_mem_cons.1 hp
    rw [Bytes.ofText_cons c, Bytes.utf8EncodeChar_of_lt hc, List.length_cons, List.cons_append,
      List.nil_append]
    cases m with
    | nil => simp [Bytes.ofText, Text.toAsciiLowercase]
    | cons d m =>
      rw [Bytes.ofText_cons, List.take_succ_cons, Text.toAsciiLowercase, List.map_cons,
        List.cons.injEq]
      rcases Bytes.utf8EncodeChar_cases d with ⟨hd, henc⟩ | ⟨hle, b, l, henc, hb⟩
      · rw [henc, List.cons_append, List.nil_append, List.take_succ_cons, List.map_cons,
          List.cons.injEq, lowerByte_eq_iff hc hd, ih hp]
        rfl
      · rw [henc, List.cons_append, List.take_succ_cons, List.map_cons, List.cons.injEq]
        constructor
        · rintro ⟨heq, -⟩
          have hnat := congrArg UInt8.toNat heq
          have hle := UInt8.le_iff_toNat_le.1 hb
          rw [toNat_lowerByte, Bytes.toNat_ofNat_of_ascii hc] at hnat
          simp only [UInt8.reduceToNat] at hle
          split at hnat <;> omega
        · rintro ⟨heq, -⟩
          have hnat := congrArg Char.toNat heq
          rw [Text.toNat_asciiLower] at hnat
          split at hnat <;> omega

theorem findIdx?_congr {α : Type} {l : List α} {f g : α → Bool} (h : ∀ a ∈ l, f a = g a) :
    l.findIdx? f = l.findIdx? g := by
  induction l with
  | nil => rfl
  | cons a l ih =>
    obtain ⟨ha, hl⟩ := List.forall_mem_cons.1 h
    rw [List.findIdx?_cons, List.findIdx?_cons, ha, ih hl]

theorem monthKeys_ascii : ∀ key ∈ monthKeys, key.toList.length = 3 ∧ ∀ c ∈ key.toList, c.toNat < 0x80 := by
  simp [monthKeys]

theorem monthNumChecked_eq (m : Text) : monthNumChecked (Bytes.ofText m) = orReturn (monthNum m) := by
  have hkey : ∀ key ∈ monthKeys, decide (Bytes.ofText key.toList =
      ((Bytes.ofText m).take 3).map lowerByte) =
      decide (key.toList = Text.toAsciiLowercase (m.take 3)) := by
    intro key hmem
    obtain ⟨hlen, hascii⟩ := monthKeys_ascii key hmem
    have hiff := take_ofText_iff (m := m) hascii
    rw [hlen] at hiff
    rw [decide_eq_decide, eq_comm, hiff, eq_comm]
  have hfind := findIdx?_congr hkey
  change _ = orReturn ((monthKeys.findIdx? (·.toList = Text.toAsciiLowercase (m.take 3))).map (· + 1))
  rw [← hfind]
  unfold monthNumChecked
  split
  · next hshort =>
    rw [List.findIdx?_eq_none_iff.2]
    · rfl
    · intro key hmem
      rw [decide_eq_false_iff_not]
      intro heq
      have hlen := congrArg List.length heq
      rw [List.length_map, List.length_take] at hlen
      have hthree := (Bytes.length_ofText (monthKeys_ascii key hmem).2).trans (monthKeys_ascii key hmem).1
      omega
  · next hlong =>
    obtain ⟨b₀, b₁, b₂, rest, hbytes⟩ : ∃ b₀ b₁ b₂ rest, Bytes.ofText m = b₀ :: b₁ :: b₂ :: rest := by
      match hm : Bytes.ofText m with
      | [] => simp [hm] at hlong
      | [_] => simp [hm] at hlong
      | [_, _] => simp [hm] at hlong
      | b₀ :: b₁ :: b₂ :: rest => exact ⟨b₀, b₁, b₂, rest, rfl⟩
    rw [hbytes]
    rfl
/-! ### The other components -/

theorem u32_checked_digits {n : Nat} (h : n < 10 ^ 2) : u32.checked (n : Int) = .ok (n : Int) :=
  u32_checked (by omega) (by omega)

theorem takeAsciiDigitsChecked_bind {α : Type} {f : Int × Bytes → Except Exit α}
    {g : Nat × Text → Option α} (hmin : 0 < min) (hmax : max ≤ 9)
    (h : ∀ (n : Nat) rest, n < 10 ^ max → f ((n : Int), Bytes.ofText rest) = orReturn (g (n, rest))) :
    (takeAsciiDigitsChecked (Bytes.ofText s) min max >>= f) =
      orReturn ((takeAsciiDigits s min max).bind g) := by
  rw [takeAsciiDigitsChecked_eq s hmin hmax]
  cases htake : takeAsciiDigits s min max with
  | none => rfl
  | some p => exact h p.1 p.2 (takeAsciiDigits_lt htake)

theorem stripColon_bind {α : Type} {f : Bytes → Except Exit α} {g : Text → Option α}
    (h : ∀ rest, f (Bytes.ofText rest) = orReturn (g rest)) :
    (stripColon (Bytes.ofText s) >>= f) = orReturn ((IpAddr.readChar ':' s).bind g) := by
  rw [stripColon_ofText]
  cases IpAddr.readChar ':' s with
  | none => rfl
  | some rest => exact h rest

theorem parseDayTokenChecked_eq (s : Text) :
    parseDayTokenChecked (Bytes.ofText s) = orReturn (parseDayToken s) := by
  refine takeAsciiDigitsChecked_bind (by omega) (by omega) fun n rest hn => ?_
  simp only [startsWithDigitByte_ofText, u32_checked_digits hn, ok_bind]
  split <;> rfl

theorem parseTimeTokenChecked_eq (s : Text) :
    parseTimeTokenChecked (Bytes.ofText s) = orReturn (parseTimeToken s) := by
  refine takeAsciiDigitsChecked_bind (by omega) (by omega) fun hour rest hhour => ?_
  refine stripColon_bind fun rest => ?_
  refine takeAsciiDigitsChecked_bind (by omega) (by omega) fun min rest hmin => ?_
  refine stripColon_bind fun rest => ?_
  refine takeAsciiDigitsChecked_bind (by omega) (by omega) fun sec rest hsec => ?_
  simp only [startsWithDigitByte_ofText, u32_checked_digits hhour, u32_checked_digits hmin,
    u32_checked_digits hsec, ok_bind]
  split <;> rfl

theorem parseYearTokenChecked_eq (s : Text) :
    parseYearTokenChecked (Bytes.ofText s) = orReturn (parseYearToken s) := by
  refine takeAsciiDigitsChecked_bind (by omega) (by omega) fun n rest hn => ?_
  simp only [startsWithDigitByte_ofText]
  split
  · rfl
  · by_cases hlate : 70 ≤ n ∧ n ≤ 99
    · rw [if_pos (by omega), if_pos hlate, i32_op (by omega) (by omega)]
      rfl
    · by_cases hearly : n ≤ 69
      · rw [if_neg (by omega), if_neg hlate, if_pos (by omega), if_pos hearly,
          i32_op (by omega) (by omega)]
        rfl
      · rw [if_neg (by omega), if_neg hlate, if_neg (by omega), if_neg hearly]
        rfl

theorem parseYearToken_bounds {year : Int} (h : parseYearToken s = some year) :
    0 ≤ year ∧ year ≤ 9999 := by
  obtain ⟨⟨n, rest⟩, htake, h⟩ := Option.bind_eq_some_iff.1 h
  have hlt := takeAsciiDigits_lt htake
  dsimp only at h
  split_ifs at h <;> obtain rfl := Option.some.inj h <;> omega

end Tokens

theorem civilToSystemChecked_eq {year : Int} (hlow : 0 ≤ year) (hhigh : year ≤ 9999)
    (month day hour min sec : Nat) :
    civilToSystemChecked year month day hour min sec =
      orReturn (civilToSystem year month day hour min sec) := by
  unfold civilToSystemChecked civilToSystem
  by_cases hbad : ¬ (1 ≤ month ∧ month ≤ 12) ∨ day = 0 ∨ 31 < day ∨ 23 < hour ∨ 59 < min ∨ 59 < sec
  · rw [if_pos hbad, if_pos hbad, orReturn_none]
  · rw [if_neg hbad, if_neg hbad]
    have hy : (if month ≤ 2 then i32.op (year - 1) else .ok year) =
        .ok (if month ≤ 2 then year - 1 else year) := by
      split
      · exact i32_op (by omega) (by omega)
      · rfl
    have hmp : (if 2 < month then u32.op (month - 3) else u32.op (month + 9)) =
        .ok ((if 2 < month then month - 3 else month + 9 : Nat) : Int) := by
      split
      · rw [u32_op (by omega) (by omega), Int.ofNat_sub (by omega)]
        rfl
      · exact u32_op (by omega) (by omega)
    simp only [hy, hmp, ok_bind]
    generalize hyear : (if month ≤ 2 then year - 1 else year) = y
    generalize hmonth : (if 2 < month then month - 3 else month + 9 : Nat) = mp
    have hybounds : -1 ≤ y ∧ y ≤ 9999 := by split at hyear <;> omega
    have hmbounds : mp ≤ 11 := by split at hmonth <;> omega
    clear hy hmp hyear hmonth hlow hhigh
    have hyoe : 0 ≤ y % 400 ∧ y % 400 < 400 := by omega
    have hera : -1 ≤ y / 400 ∧ y / 400 ≤ 24 := by omega
    generalize y % 400 = yoe at hyoe ⊢
    generalize y / 400 = era at hera ⊢
    simp (disch := omega) only [u64_checked, u64_op, ok_bind]
    have hdoy : (((153 * mp + 2) / 5 + day - 1 : Nat) : Int) = (153 * mp + 2) / 5 + day - 1 := by
      omega
    rw [hdoy]
    have hdoe : 0 ≤ yoe * 365 + yoe / 4 - yoe / 100 + ((153 * mp + 2) / 5 + day - 1) ∧
        yoe * 365 + yoe / 4 - yoe / 100 + ((153 * mp + 2) / 5 + day - 1) ≤ 200000 := by omega
    generalize yoe * 365 + yoe / 4 - yoe / 100 + ((153 * mp + 2 : Int) / 5 + day - 1) = doe at hdoe ⊢
    simp (disch := omega) only [i64_checked, i64_op, ok_bind]
    have hclock : ((hour * 3600 + min * 60 + sec : Nat) : Int) = hour * 3600 + min * 60 + sec := by
      omega
    have hday : 0 ≤ (hour * 3600 + min * 60 + sec : Int) ∧
        (hour * 3600 + min * 60 + sec : Int) < 86400 := by omega
    rw [hclock]
    generalize (hour * 3600 + min * 60 + sec : Int) = clock at hday ⊢
    have hsecs : -100000000000 ≤ (era * 146097 + doe - 719468) * 86400 + clock ∧
        (era * 146097 + doe - 719468) * 86400 + clock ≤ 1000000000000 := by omega
    generalize (era * 146097 + doe - 719468) * 86400 + clock = secs at hsecs ⊢
    -- before the epoch the negated count is taken from it
    split
    · simp (disch := omega) only [u64_checked, i64_op, ok_bind, orReturn_some]
    · simp (disch := omega) only [u64_checked, i64_checked, ok_bind, orReturn_some, Int.neg_neg]

/-! ### The whole date -/

theorem orElseRead_eq {α : Type} (field : Option α) (o : Option α) (found : Option α → DateFields)
    (next : DateFields) : orElseRead field (orReturn o) found (.ok next) =
      .ok (if field.isNone && o.isSome then found o else next) := by
  unfold orElseRead
  cases field with
  | some a => rfl
  | none => cases o <;> rfl

theorem stepChecked_eq (f : DateFields) (token : Text) :
    f.stepChecked (Bytes.ofText token) = .ok (f.step token) := by
  unfold DateFields.stepChecked DateFields.step
  rw [parseTimeTokenChecked_eq, parseDayTokenChecked_eq, monthNumChecked_eq,
    parseYearTokenChecked_eq, orElseRead_eq, orElseRead_eq, orElseRead_eq, orElseRead_eq]
  congr 1
  split
  · rfl
  · split
    · rfl
    · split
      · rfl
      · cases hyear : f.year with
        | some year => rfl
        | none =>
          cases parseYearToken token with
          | some year => rfl
          | none =>
            obtain ⟨time, day, month, year⟩ := f
            obtain rfl : year = none := hyear
            rfl

theorem foldlM_stepChecked (tokens : List Text) (f : DateFields) :
    (tokens.map Bytes.ofText).foldlM DateFields.stepChecked f =
      .ok (tokens.foldl DateFields.step f) := by
  induction tokens generalizing f with
  | nil => rfl
  | cons token tokens ih =>
    rw [List.map_cons, List.foldlM_cons, stepChecked_eq, ok_bind, ih, List.foldl_cons]

theorem year_bounds_step {f : DateFields} (h : ∀ year ∈ f.year, 0 ≤ year ∧ year ≤ 9999)
    (token : Text) : ∀ year ∈ (f.step token).year, 0 ≤ year ∧ year ≤ 9999 := by
  unfold DateFields.step
  split_ifs
  · exact h
  · exact h
  · exact h
  · exact fun year hyear => parseYearToken_bounds hyear
  · exact h

theorem year_bounds_foldl {f : DateFields} (h : ∀ year ∈ f.year, 0 ≤ year ∧ year ≤ 9999)
    (tokens : List Text) : ∀ year ∈ (tokens.foldl DateFields.step f).year, 0 ≤ year ∧ year ≤ 9999 := by
  induction tokens generalizing f with
  | nil => exact h
  | cons token tokens ih => exact ih (year_bounds_step h token)

/-- Nothing panics. -/
theorem parseCookieDateChecked_eq (s : Text) :
    parseCookieDateChecked s = orReturn (parseCookieDate s) := by
  unfold parseCookieDateChecked parseCookieDate
  rw [foldlM_stepChecked, ok_bind]
  have hbounds := year_bounds_foldl (f := {}) (fun year h => by cases h) (cookieDateTokens s)
  generalize (cookieDateTokens s).foldl DateFields.step {} = f at hbounds ⊢
  obtain ⟨time, day, month, year⟩ := f
  cases year with
  | none => rfl
  | some year =>
    obtain ⟨hlow, hhigh⟩ := hbounds year rfl
    cases month with
    | none => rfl
    | some month => cases day with
      | none => rfl
      | some day => cases time with
        | none => rfl
        | some time =>
          obtain ⟨hour, min, sec⟩ := time
          simp only [orReturn_some, ok_bind, Option.bind_eq_bind, Option.bind_some,
            civilToSystemChecked_eq hlow hhigh]
          split
          · rfl
          · cases daysInMonth year month with
            | none => rfl
            | some last =>
              simp only [orReturn_some, ok_bind, Option.bind_some]
              split <;> rfl

end TinyBrowser
