import TinyBrowser.Dial.Merged

/-!
# The two readings of `X-Content-Type-Options`

The filter of opaque responses takes `nosniff` anywhere in the header, between any white space. The
renderer (`crates/renderer/src/sniff.rs`) combines the values and takes the first member only, between
tabs and spaces. So they agree unless an option is `nosniff` and the first one is not
(`nosniff_eq_headersNosniff_iff`).
-/

namespace TinyBrowser
open Lib

namespace Sniff

def nosniff (value : Text) : Bool :=
  (splitHeaderValue value).head?.any fun first => Text.eqIgnoreAsciiCase first "nosniff".toList

def headersNosniff (headers : HeaderList) : Bool :=
  (combinedHeaderIn headers "x-content-type-options".toList).any nosniff

end Sniff

/-- `nosniff` in whatever case, between characters with `blank`. -/
def SaysNosniff (blank : Char → Bool) (option : Text) : Prop :=
  ∃ a word b, option = a ++ word ++ b ∧ (∀ c ∈ a, blank c = true) ∧ (∀ c ∈ b, blank c = true) ∧
    Text.toAsciiLowercase word = "nosniff".toList

/-- What the values of `X-Content-Type-Options` have between the commas, in order. -/
def options (headers : HeaderList) : List Text :=
  (valuesOf headers "x-content-type-options".toList).flatMap (Text.split ',')

/-! ### One option -/

theorem letter_of_toAsciiLowercase {word : Text} (h : Text.toAsciiLowercase word = "nosniff".toList) :
    ∀ c ∈ word, Text.isWhitespace c = false ∧ httpBlank c = false ∧ c ≠ '"' := by
  intro c hc
  have hlower : Text.asciiLower c ∈ "nosniff".toList := h ▸ List.mem_map_of_mem hc
  have hletter : 65 ≤ c.toNat ∧ c.toNat < 128 := by
    have hrange : ("nosniff".toList.all fun l => decide (65 ≤ l.toNat ∧ l.toNat < 128)) = true := by
      decide
    have hl := of_decide_eq_true (List.all_eq_true.1 hrange _ hlower)
    rw [Text.toNat_asciiLower] at hl
    split_ifs at hl <;> omega
  have hne : ∀ d : Char, d.toNat < 65 → c ≠ d := fun d hd he => by
    rw [he] at hletter
    omega
  refine ⟨?_, ?_, hne '"' (by decide)⟩
  · have hspace := hne ' ' (by decide)
    simp only [Text.isWhitespace, hspace, decide_false, Bool.false_or, Bool.or_eq_false_iff,
      Bool.and_eq_false_iff, decide_eq_false_iff_not]
    omega
  · simp [httpBlank, hne ' ' (by decide), hne '\t' (by decide)]

theorem strip_iff_says {blank : Char → Bool} {option : Text}
    (hblank : ∀ word : Text, Text.toAsciiLowercase word = "nosniff".toList → ∀ c ∈ word, blank c = false) :
    Text.eqIgnoreAsciiCase (strip blank option) "nosniff".toList = true ↔ SaysNosniff blank option := by
  have hname : Text.toAsciiLowercase "nosniff".toList = "nosniff".toList := by decide
  rw [Text.eqIgnoreAsciiCase, decide_eq_true_eq, hname]
  constructor
  · intro h
    obtain ⟨a, b, hoption, ha, hb⟩ := exists_strip blank option
    exact ⟨a, _, b, hoption, ha, hb, h⟩
  · rintro ⟨a, word, b, rfl, ha, hb, hword⟩
    rwa [strip_append ha hb (hblank word hword)]

theorem trim_iff_says {option : Text} :
    Text.eqIgnoreAsciiCase (Text.trim option) "nosniff".toList = true ↔
      SaysNosniff Text.isWhitespace option :=
  strip_iff_says fun _ hword c hc => (letter_of_toAsciiLowercase hword c hc).1

theorem trimHttp_iff_says {option : Text} :
    Text.eqIgnoreAsciiCase (trimHttp option) "nosniff".toList = true ↔ SaysNosniff httpBlank option :=
  strip_iff_says fun _ hword c hc => (letter_of_toAsciiLowercase hword c hc).2.1

theorem not_says_of_quote {option : Text} (h : '"' ∈ option) : ¬ SaysNosniff httpBlank option := by
  rintro ⟨a, word, b, rfl, ha, hb, hword⟩
  rcases List.mem_append.1 h with h | h
  · rcases List.mem_append.1 h with h | h
    · exact absurd (ha _ h) (by decide)
    · exact (letter_of_toAsciiLowercase hword _ h).2.2 rfl
  · exact absurd (hb _ h) (by decide)

/-! ### The first member -/

/-- What comes before the first comma. -/
def firstOption (value : Text) : Text := value.takeWhile (· ≠ ',')

theorem firstOption_of_not_mem {value : Text} (h : ',' ∉ value) : firstOption value = value :=
  List.takeWhile_eq_self_iff.2 fun _ hc => decide_eq_true fun he => h (he ▸ hc)

theorem firstOption_append {value : Text} (h : ',' ∉ value) (rest : Text) :
    firstOption (value ++ ',' :: rest) = value := by
  have hall : ∀ c ∈ value, decide (c ≠ ',') = true := fun c hc => decide_eq_true fun he => h (he ▸ hc)
  exact (takeWhile_append hall fun c hc => by rw [← Option.some.inj hc]; decide).1

theorem head?_split (value : Text) : (Text.split ',' value).head? = some (firstOption value) := by
  by_cases hcomma : ',' ∈ value
  · obtain ⟨first, rest, rfl, hfirst⟩ := List.eq_append_cons_of_mem hcomma
    rw [Text.split_append rest hfirst, firstOption_append hfirst]
    rfl
  · rw [Text.split_of_not_mem hcomma, firstOption_of_not_mem hcomma]
    rfl

/-- Blanks at the ends of a value are blanks at the ends of its first option. -/
theorem says_firstOption_append {blank : Char → Bool} {a value b : Text} (hcomma : blank ',' = false)
    (hblank : ∀ word : Text, Text.toAsciiLowercase word = "nosniff".toList → ∀ c ∈ word, blank c = false)
    (ha : ∀ c ∈ a, blank c = true) (hb : ∀ c ∈ b, blank c = true) :
    SaysNosniff blank (firstOption (a ++ value ++ b)) ↔ SaysNosniff blank (firstOption value) := by
  have hnot : ∀ {l : Text}, (∀ c ∈ l, blank c = true) → ',' ∉ l := fun hl hmem => by
    rw [hl _ hmem] at hcomma
    cases hcomma
  by_cases hmem : ',' ∈ value
  · obtain ⟨first, rest, rfl, hfirst⟩ := List.eq_append_cons_of_mem hmem
    have hwhole : a ++ (first ++ ',' :: rest) ++ b = (a ++ first) ++ ',' :: (rest ++ b) := by simp
    have hbefore : ',' ∉ a ++ first := fun h => (List.mem_append.1 h).elim (hnot ha) hfirst
    have hstrip := strip_append_append ha (b := []) nofun first
    rw [List.append_nil] at hstrip
    rw [hwhole, firstOption_append hbefore, firstOption_append hfirst, ← strip_iff_says hblank, hstrip,
      strip_iff_says hblank]
  · have hbefore : ',' ∉ a ++ value ++ b := fun h => by
      rcases List.mem_append.1 h with h | h
      · exact (List.mem_append.1 h).elim (hnot ha) hmem
      · exact hnot hb h
    rw [firstOption_of_not_mem hbefore, firstOption_of_not_mem hmem, ← strip_iff_says hblank,
      strip_append_append ha hb, strip_iff_says hblank]

theorem exists_quote_mem_head {q : Quoting} {member : Text} (h : '"' ∈ member) (cs : Text) :
    ∃ first, (splitHeaderValueFrom q member cs).head? = some (trimHttp first) ∧ '"' ∈ first := by
  fun_induction splitHeaderValueFrom q member cs with
  | case1 _ member => exact ⟨member, rfl, h⟩
  | case2 member => exact ⟨member, rfl, h⟩
  | case3 _ _ _ ih | case4 _ _ _ _ _ ih | case5 _ _ ih | case6 _ _ _ ih | case7 _ _ _ _ _ ih
  | case8 _ _ _ ih => exact ih (List.mem_append_left _ h)

theorem exists_head_splitHeaderValueFrom (member cs : Text) :
    ∃ first, (splitHeaderValueFrom .plain member cs).head? = some (trimHttp first) ∧
      ('"' ∈ first ∧ '"' ∈ firstOption cs ∨ first = member ++ firstOption cs) := by
  induction cs generalizing member with
  | nil => exact ⟨member, rfl, .inr (List.append_nil member).symm⟩
  | cons c cs ih =>
    rw [splitHeaderValueFrom]
    split_ifs with hcomma hquote
    · exact ⟨member, rfl, .inr (by simp [firstOption, hcomma])⟩
    · have hmember : '"' ∈ member ++ [c] := by simp [hquote]
      obtain ⟨first, hfirst, hmem⟩ := exists_quote_mem_head (q := .quoted) hmember cs
      exact ⟨first, hfirst, .inl ⟨hmem, by simp [firstOption, hquote]⟩⟩
    · have hcons : firstOption (c :: cs) = c :: firstOption cs :=
        List.takeWhile_cons_of_pos (decide_eq_true hcomma)
      obtain ⟨first, hfirst, hcase⟩ := ih (member ++ [c])
      refine ⟨first, hfirst, ?_⟩
      rw [hcons]
      rcases hcase with ⟨hmem, hquote⟩ | rfl
      · exact .inl ⟨hmem, List.mem_cons_of_mem _ hquote⟩
      · exact .inr (by simp)

theorem Sniff.nosniff_iff {value : Text} :
    Sniff.nosniff value = true ↔ SaysNosniff httpBlank (firstOption value) := by
  obtain ⟨first, hfirst, hcase⟩ := exists_head_splitHeaderValueFrom [] value
  rw [nosniff, splitHeaderValue, hfirst, Option.any_some, trimHttp_iff_says]
  rcases hcase with ⟨hmem, hquote⟩ | rfl
  · exact iff_of_false (not_says_of_quote hmem) (not_says_of_quote hquote)
  · rfl

/-! ### The header -/

theorem nosniff_iff {headers : HeaderList} :
    nosniff headers = true ↔ ∃ option ∈ options headers, SaysNosniff Text.isWhitespace option := by
  simp only [nosniff, options, valuesOf, List.any_eq_true, Bool.and_eq_true, trim_iff_says,
    List.mem_flatMap, List.mem_map, List.mem_filter]
  constructor
  · rintro ⟨field, hfield, hname, option, hoption, hsays⟩
    exact ⟨option, ⟨field.2, ⟨field, ⟨hfield, hname⟩, rfl⟩, hoption⟩, hsays⟩
  · rintro ⟨option, ⟨_, ⟨field, ⟨hfield, hname⟩, rfl⟩, hoption⟩, hsays⟩
    exact ⟨field, hfield, hname, option, hoption, hsays⟩

theorem headersNosniff_iff {headers : HeaderList} :
    Sniff.headersNosniff headers = true ↔
      ∃ first ∈ (options headers).head?, SaysNosniff httpBlank first := by
  have hblank : ∀ word : Text, Text.toAsciiLowercase word = "nosniff".toList →
      ∀ c ∈ word, httpBlank c = false :=
    fun _ hword c hc => (letter_of_toAsciiLowercase hword c hc).2.1
  rw [Sniff.headersNosniff, combinedHeaderIn_eq, options]
  cases valuesOf headers "x-content-type-options".toList with
  | nil => simp [combinedHeader]
  | cons value values =>
    obtain ⟨a, b, hvalue, ha, hb⟩ := exists_strip httpBlank value
    have htrim : SaysNosniff httpBlank (firstOption (trimHttp value)) ↔
        SaysNosniff httpBlank (firstOption value) := by
      conv_rhs => rw [hvalue]
      exact (says_firstOption_append (by decide) hblank ha hb).symm
    have hcombined : ∃ rest, combinedHeader (value :: values) = some (trimHttp value ++ rest) ∧
        (rest = [] ∨ ∃ more, rest = ',' :: more) := by
      cases values with
      | nil => exact ⟨[], by simp [combinedHeader, joinTexts], .inl rfl⟩
      | cons value' values =>
        refine ⟨", ".toList ++ joinTexts ", ".toList ((value' :: values).map trimHttp), ?_, .inr ⟨_, rfl⟩⟩
        simp [combinedHeader, joinTexts]
    obtain ⟨rest, hrest, hcase⟩ := hcombined
    have hfirst : firstOption (trimHttp value ++ rest) = firstOption (trimHttp value) := by
      rcases hcase with rfl | ⟨more, rfl⟩
      · rw [List.append_nil]
      · exact Option.some.inj (by rw [← head?_split, Text.head?_split_append, head?_split])
    have hhead : ((value :: values).flatMap (Text.split ',')).head? = some (firstOption value) := by
      rw [List.flatMap_cons, List.head?_append, head?_split]
      rfl
    rw [hrest, Option.any_some, Sniff.nosniff_iff, hfirst, htrim, hhead]
    simp

/-- The two layers agree exactly when the first option says `nosniff`, between tabs and spaces, if any
option says it between white space. -/
theorem nosniff_eq_headersNosniff_iff (headers : HeaderList) :
    nosniff headers = Sniff.headersNosniff headers ↔
      ∀ option ∈ options headers, SaysNosniff Text.isWhitespace option →
        ∃ first ∈ (options headers).head?, SaysNosniff httpBlank first := by
  have hwider : ∀ option, SaysNosniff httpBlank option → SaysNosniff Text.isWhitespace option := by
    have hspace : ∀ c, httpBlank c = true → Text.isWhitespace c = true := fun c hc => by
      rcases (Bool.or_eq_true _ _).mp hc with h | h
      · rw [of_decide_eq_true h]
        rfl
      · rw [of_decide_eq_true h]
        rfl
    rintro option ⟨a, word, b, rfl, ha, hb, hword⟩
    exact ⟨a, word, b, rfl, fun c hc => hspace c (ha c hc), fun c hc => hspace c (hb c hc), hword⟩
  rw [Bool.eq_iff_iff, nosniff_iff, headersNosniff_iff]
  constructor
  · intro h option hoption hsays
    exact h.1 ⟨option, hoption, hsays⟩
  · intro h
    refine ⟨fun ⟨option, hoption, hsays⟩ => h option hoption hsays, fun ⟨first, hfirst, hsays⟩ => ?_⟩
    exact ⟨first, List.mem_of_head? hfirst, hwider first hsays⟩

/-- The first option is not `nosniff`, the second is. -/
def secondOption : HeaderList := [("x-content-type-options".toList, "foo, nosniff".toList)]

theorem nosniff_ne_headersNosniff : nosniff secondOption ≠ Sniff.headersNosniff secondOption := by
  have horb : nosniff secondOption = true := by decide
  have hsniff : Sniff.headersNosniff secondOption = false := by decide
  rw [horb, hsniff]
  exact Bool.true_eq_false_eq_False

end TinyBrowser
