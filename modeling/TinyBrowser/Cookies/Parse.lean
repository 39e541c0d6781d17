import Mathlib.Algebra.Group.Int.Defs
import TinyBrowser.Cookies.Basic
import TinyBrowser.Lib.Lines

/-!
# Parsing a `Set-Cookie` line

`parseSetCookie` with its attribute loop and the cookie-date algorithm. What the rest of the
development uses is `parseSetCookie_spec`: the name and value a line yields satisfy the rules for
what a `Cookie` header can carry, and a `Path` attribute is rooted.
-/

namespace TinyBrowser
open Lib

structure ParsedSetCookie where
  name : Text
  value : Text
  maxAge : Option Int
  expires : Option SystemTime
  domain : Option Text
  path : Option Text
  secure : Bool
  httpOnly : Bool
  sameSite : Option SameSite
deriving Repr

/-! ### Dates -/

def isCookieDateDelimiter (c : Char) : Bool :=
  let b := c.toNat
  b = 0x09 || (0x20 ≤ b && b ≤ 0x2F) || (0x3B ≤ b && b ≤ 0x40) || (0x5B ≤ b && b ≤ 0x60) ||
    (0x7B ≤ b && b ≤ 0x7E)

def cookieDateTokens (s : Text) : List Text :=
  (Text.splitBy isCookieDateDelimiter s).filter (· ≠ [])

/-- The value of the first `max` digits, at least `min` of them, and what follows. -/
def takeAsciiDigits (s : Text) (min max : Nat) : Option (Nat × Text) :=
  let digits := (s.take max).takeWhile Text.isAsciiDigit
  if digits.length < min then none
  else some (Text.digitsValue digits, s.drop digits.length)

def startsWithDigit (s : Text) : Bool := s.head?.any Text.isAsciiDigit

def parseDayToken (token : Text) : Option Nat := do
  let (n, rest) ← takeAsciiDigits token 1 2
  if startsWithDigit rest then none else some n

def parseTimeToken (token : Text) : Option (Nat × Nat × Nat) := do
  let (hour, rest) ← takeAsciiDigits token 1 2
  let rest ← IpAddr.readChar ':' rest
  let (min, rest) ← takeAsciiDigits rest 1 2
  let rest ← IpAddr.readChar ':' rest
  let (sec, rest) ← takeAsciiDigits rest 1 2
  if startsWithDigit rest then none else some (hour, min, sec)

def parseYearToken (token : Text) : Option Int := do
  let (n, rest) ← takeAsciiDigits token 2 4
  if startsWithDigit rest then none
  else if 70 ≤ n ∧ n ≤ 99 then some (n + 1900)
  else if n ≤ 69 then some (n + 2000)
  else some n

def monthNum (m : Text) : Option Nat :=
  let key := Text.toAsciiLowercase (m.take 3)
  let months := ["jan", "feb", "mar", "apr", "may", "jun", "jul", "aug", "sep", "oct", "nov", "dec"]
  (months.findIdx? (·.toList = key)).map (· + 1)

def daysInMonth (year : Int) (month : Nat) : Option Nat :=
  if month ∈ [1, 3, 5, 7, 8, 10, 12] then some 31
  else if month ∈ [4, 6, 9, 11] then some 30
  else if month = 2 then
    if year % 4 = 0 ∧ (year % 100 ≠ 0 ∨ year % 400 = 0) then some 29 else some 28
  else none

def civilToSystem (year : Int) (month day hour min sec : Nat) : Option SystemTime :=
  if ¬ (1 ≤ month ∧ month ≤ 12) ∨ day = 0 ∨ 31 < day ∨ 23 < hour ∨ 59 < min ∨ 59 < sec then none
  else
    let y := if month ≤ 2 then year - 1 else year
    let era := y / 400
    let yoe := y % 400
    let mp : Nat := if 2 < month then month - 3 else month + 9
    let doy : Nat := (153 * mp + 2) / 5 + day - 1
    let doe := yoe * 365 + yoe / 4 - yoe / 100 + doy
    let days := era * 146097 + doe - 719468
    let secs := days * 86400 + (hour * 3600 + min * 60 + sec : Nat)
    some (secs * nanosPerSec)

/-- The components of a date found so far. -/
structure DateFields where
  time : Option (Nat × Nat × Nat) := none
  day : Option Nat := none
  month : Option Nat := none
  year : Option Int := none

/-- One token: the first component that is still missing and that the token spells takes it. -/
def DateFields.step (f : DateFields) (token : Text) : DateFields :=
  if f.time.isNone && (parseTimeToken token).isSome then { f with time := parseTimeToken token }
  else if f.day.isNone && (parseDayToken token).isSome then { f with day := parseDayToken token }
  else if f.month.isNone && (monthNum token).isSome then { f with month := monthNum token }
  else if f.year.isNone then { f with year := parseYearToken token }
  else f

def parseCookieDate (s : Text) : Option SystemTime := do
  let f := (cookieDateTokens s).foldl DateFields.step {}
  let year ← f.year
  let month ← f.month
  let day ← f.day
  let (hour, min, sec) ← f.time
  if year < 1601 ∨ ¬ (1 ≤ day ∧ day ≤ 31) ∨ 23 < hour ∨ 59 < min ∨ 59 < sec then none
  else
    let last ← daysInMonth year month
    if last < day then none else civilToSystem year month day hour min sec

/-! ### Attributes -/

def i64Min : Int := -(2 ^ 63)

def i64Max : Int := 2 ^ 63 - 1

def parseMaxAge (value : Text) : Option Int :=
  let negative := value.head? = some '-'
  let digits := Text.stripPrefix '-' value
  if digits = [] || !digits.all Text.isAsciiDigit then none
  else
    let n : Int := Text.digitsValue digits
    some (if negative then max (-n) i64Min else min n i64Max)

def splitNameValue (av : Text) : Text × Text :=
  match Text.splitOnce '=' av with
  | some (n, v) => (n.trim, v.trim)
  | none => (av, [])

def parseSameSite (value : Text) : SameSite :=
  if Text.eqIgnoreAsciiCase value "Strict".toList then .strict
  else if Text.eqIgnoreAsciiCase value "None".toList then .none
  else if Text.eqIgnoreAsciiCase value "Lax".toList then .lax
  else .default

/-- One attribute of the line. -/
def ParsedSetCookie.attribute (parsed : ParsedSetCookie) (av : Text) : ParsedSetCookie :=
  let av := Text.trim av
  if av = [] then parsed
  else
    let (name, value) := splitNameValue av
    let is := fun keyword : String => Text.eqIgnoreAsciiCase name keyword.toList
    if is "Max-Age" then
      match parseMaxAge value with
      | some n => { parsed with maxAge := some n }
      | none => parsed
    else if is "Expires" then
      match parseCookieDate value with
      | some t => { parsed with expires := some t }
      | none => parsed
    else if is "Domain" then
      let d := Text.stripPrefix '.' value
      if Text.len d ≤ 1024 then
        { parsed with domain := if d = [] then none else some d.toAsciiLowercase }
      else parsed
    else if is "Path" then
      if Text.len value ≤ 1024 && value.head? = some '/' then { parsed with path := some value }
      else parsed
    else if is "Secure" then { parsed with secure := true }
    else if is "HttpOnly" then { parsed with httpOnly := true }
    else if is "SameSite" then { parsed with sameSite := some (parseSameSite value) }
    else parsed

/-- The line up to the first `;`, and the attributes after it. -/
def splitPair (input : Text) : Text × Text :=
  match Text.splitOnce ';' input with
  | some (pair, rest) => (pair, rest)
  | none => (input, [])

def pairNameValue (pair : Text) : Text × Text :=
  match Text.splitOnce '=' pair with
  | some (n, v) => (n.trim, v.trim)
  | none => ([], pair)

def parseSetCookie (input : Text) : Option ParsedSetCookie :=
  if hasCtlExcludingHtab input then none
  else
    let (pair, attrs) := splitPair input
    let (name, value) := pairNameValue pair.trim
    if name = [] && value = [] then none
    else if 4096 < Text.len name + Text.len value then none
    else
      let parsed : ParsedSetCookie :=
        ⟨name, value, none, none, none, none, false, false, none⟩
      some ((Text.split ';' attrs).foldl ParsedSetCookie.attribute parsed)

/-! ### What a parsed line satisfies -/

/-- A name and value that a `Cookie` header can carry. -/
structure HeaderSafe (name value : Text) : Prop where
  nonempty : name ≠ [] ∨ value ≠ []
  len : Text.len name + Text.len value ≤ 4096
  name_ctl : hasCtlExcludingHtab name = false
  value_ctl : hasCtlExcludingHtab value = false
  name_semi : ';' ∉ name
  name_eq : '=' ∉ name
  value_semi : ';' ∉ value

theorem hasCtl_eq_false_of_sublist {s t : Text} (h : List.Sublist s t)
    (ht : hasCtlExcludingHtab t = false) : hasCtlExcludingHtab s = false := by
  simp only [hasCtlExcludingHtab, List.any_eq_false] at ht ⊢
  exact fun c hc => ht c (h.subset hc)

theorem splitPair_spec (input : Text) :
    List.Sublist (splitPair input).1 input ∧ ';' ∉ (splitPair input).1 := by
  unfold splitPair
  split
  · rename_i pair rest h
    obtain ⟨rfl, hc⟩ := Text.splitOnce_spec h
    exact ⟨List.sublist_append_left _ _, hc⟩
  · rename_i h
    exact ⟨List.Sublist.refl _, Text.splitOnce_eq_none h⟩

theorem pairNameValue_spec (pair : Text) :
    List.Sublist (pairNameValue pair).1 pair ∧ List.Sublist (pairNameValue pair).2 pair ∧
      '=' ∉ (pairNameValue pair).1 := by
  unfold pairNameValue
  split
  · rename_i n v h
    obtain ⟨rfl, hc⟩ := Text.splitOnce_spec h
    refine ⟨(Text.trim_sublist n).trans (List.sublist_append_left _ _), ?_, ?_⟩
    · exact (Text.trim_sublist v).trans
        ((List.sublist_cons_self _ _).trans (List.sublist_append_right _ _))
    · exact fun hn => hc ((Text.trim_sublist n).subset hn)
  · exact ⟨List.nil_sublist _, List.Sublist.refl _, by simp⟩

namespace ParsedSetCookie

/-- What the attribute loop keeps: the name and value never change, and a path is rooted. -/
structure AttrInv (p q : ParsedSetCookie) : Prop where
  name : q.name = p.name
  value : q.value = p.value
  path : ∀ path, q.path = some path → path.head? = some '/'

theorem AttrInv.attribute {p q : ParsedSetCookie} (h : AttrInv p q) (av : Text) :
    AttrInv p (q.attribute av) := by
  unfold ParsedSetCookie.attribute
  simp only
  split_ifs
  · exact h
  · cases parseMaxAge (splitNameValue (Text.trim av)).2 <;> exact ⟨h.name, h.value, h.path⟩
  · cases parseCookieDate (splitNameValue (Text.trim av)).2 <;> exact ⟨h.name, h.value, h.path⟩
  · exact ⟨h.name, h.value, h.path⟩
  · exact ⟨h.name, h.value, h.path⟩
  · exact h
  · rename_i hpath
    refine ⟨h.name, h.value, fun path hp => ?_⟩
    simp only [Bool.and_eq_true, decide_eq_true_eq] at hpath
    obtain rfl := Option.some.inj hp
    exact hpath.2
  · exact h
  all_goals exact ⟨h.name, h.value, h.path⟩

theorem AttrInv.foldl {p q : ParsedSetCookie} (h : AttrInv p q) (avs : List Text) :
    AttrInv p (avs.foldl ParsedSetCookie.attribute q) := by
  induction avs generalizing q with
  | nil => exact h
  | cons av avs ih => exact ih (h.attribute av)

end ParsedSetCookie

theorem parseSetCookie_spec {input : Text} {parsed : ParsedSetCookie}
    (h : parseSetCookie input = some parsed) :
    HeaderSafe parsed.name parsed.value ∧
      ∀ path, parsed.path = some path → path.head? = some '/' := by
  unfold parseSetCookie at h
  simp only at h
  split_ifs at h with hctl hempty hlen
  obtain rfl := Option.some.inj h
  have hinv := ParsedSetCookie.AttrInv.foldl
    (p := ⟨(pairNameValue (splitPair input).1.trim).1, (pairNameValue (splitPair input).1.trim).2,
      none, none, none, none, false, false, none⟩) ⟨rfl, rfl, by simp⟩
    (Text.split ';' (splitPair input).2)
  obtain ⟨hpair, hsemi⟩ := splitPair_spec input
  obtain ⟨hname, hvalue, heq⟩ := pairNameValue_spec (splitPair input).1.trim
  have htrim := Text.trim_sublist (splitPair input).1
  have hctl' : hasCtlExcludingHtab input = false := by simpa using hctl
  refine ⟨?_, hinv.path⟩
  rw [hinv.name, hinv.value]
  simp only [Bool.and_eq_true, decide_eq_true_eq] at hempty
  refine ⟨?_, Nat.le_of_not_lt hlen, hasCtl_eq_false_of_sublist ((hname.trans htrim).trans hpair) hctl',
    hasCtl_eq_false_of_sublist ((hvalue.trans htrim).trans hpair) hctl', ?_, heq, ?_⟩
  · by_contra hn
    simp only [not_or, not_not] at hn
    exact hempty hn
  · exact fun hn => hsemi ((hname.trans htrim).subset hn)
  · exact fun hn => hsemi ((hvalue.trans htrim).subset hn)

end TinyBrowser
