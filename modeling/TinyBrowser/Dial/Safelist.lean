import TinyBrowser.Dial.NoCors
import TinyBrowser.Net.Preflight
import TinyBrowser.Sniff.MimeType

/-!
# The safelist for request headers and Fetch's

`fetchSafelisted` is the standard's definition: a content type goes through the parser of MIME types, a
range through the parser of single ranges. `is_cors_safelisted_request_header` accepts what the
standard accepts and two things more (`LooselySafelisted`): a form type between white space that
HTTP does not know, and a range that ends before it starts.
-/

namespace TinyBrowser
open Lib Sniff

namespace Cors
variable {ws : Char → Bool} {value : Bytes} {text a b e rest : Text}

/-! ### The definition of the standard -/

/-- The essence of a parsed MIME type; its parameters do not make it fail. -/
def parsedEssence (input : Text) : Option Text :=
  let input := strip isHttpWhitespace input
  let type := input.takeWhile (· ≠ '/')
  match input.dropWhile (· ≠ '/') with
  | [] => none
  | _ :: rest =>
    let subtype := trimHttpWsEnd (rest.takeWhile (· ≠ ';'))
    if isHttpToken type && isHttpToken subtype then
      some (Text.toAsciiLowercase type ++ '/' :: Text.toAsciiLowercase subtype)
    else none

/-- A single range with a start: its start and its end. -/
def parsedRange (data : Text) : Option (Nat × Option Nat) :=
  if data.startsWith "bytes=".toList then
    let rest := data.drop 6
    let start := rest.takeWhile Text.isAsciiDigit
    match rest.dropWhile Text.isAsciiDigit with
    | '-' :: rest =>
      if start = [] || !rest.all Text.isAsciiDigit then none
      else some (Text.digitsValue start, if rest = [] then none else some (Text.digitsValue rest))
    | _ => none
  else none

def fetchSafelisted (name : Text) (value : Bytes) : Bool :=
  let name := name.toAsciiLowercase
  if 128 < value.length then false
  else if name = "accept".toList then !containsUnsafeByte value
  else if name = "accept-language".toList || name = "content-language".toList then
    value.all isLanguageByte
  else if name = "content-type".toList then
    !containsUnsafeByte value &&
      (parsedEssence (isomorphicDecode value)).any (· ∈ formTypes)
  else if name = "range".toList then
    (parsedRange (isomorphicDecode value)).any fun range => range.2.all (range.1 ≤ ·)
  else false

/-! ### Form types between blanks -/

/-- A form type in any case between blanks, and then nothing or a `;`. -/
def FormType (ws : Char → Bool) (text : Text) : Prop :=
  ∃ a e b rest, text = a ++ e ++ b ++ rest ∧ (∀ c ∈ a, ws c = true) ∧ (∀ c ∈ b, ws c = true) ∧
    Text.toAsciiLowercase e ∈ formTypes ∧ Follows rest

/-- A letter or a hyphen. -/
def TypeChar (c : Char) : Prop :=
  65 ≤ c.toNat ∧ c.toNat ≤ 90 ∨ 97 ≤ c.toNat ∧ c.toNat ≤ 122 ∨ c.toNat = 45

instance (c : Char) : Decidable (TypeChar c) := inferInstanceAs (Decidable (_ ∨ _))

theorem typeChar_of_asciiLower {c : Char} (h : TypeChar (Text.asciiLower c)) : TypeChar c := by
  unfold TypeChar at h ⊢
  rw [Text.toNat_asciiLower] at h
  split_ifs at h <;> omega

namespace TypeChar
variable {c : Char}

theorem lt (h : TypeChar c) : c.toNat ≠ 0 ∧ c.toNat < 128 := by
  unfold TypeChar at h
  omega

theorem ne (h : TypeChar c) {d : Char} (hd : ¬ TypeChar d) : c ≠ d := fun heq => hd (heq ▸ h)

theorem isHttpTokenChar (h : TypeChar c) : Sniff.isHttpTokenChar c = true := by
  have hrange : ∀ d d' : Char, d.toNat ≤ c.toNat → c.toNat ≤ d'.toNat → (d ≤ c && c ≤ d') = true :=
    fun d d' hlow hhigh => by
      rw [Bool.and_eq_true, decide_eq_true_eq, decide_eq_true_eq]
      exact ⟨hlow, hhigh⟩
  rcases h with ⟨hlow, hhigh⟩ | ⟨hlow, hhigh⟩ | heq
  · simp only [Sniff.isHttpTokenChar, hrange 'A' 'Z' hlow hhigh, Bool.or_true, Bool.true_or]
  · simp only [Sniff.isHttpTokenChar, hrange 'a' 'z' hlow hhigh, Bool.or_true, Bool.true_or]
  · have hdash : c = '-' := Char.toNat_inj.1 heq
    rw [hdash]
    decide

theorem isWhitespace (h : TypeChar c) : Text.isWhitespace c = false := by
  have hne := h.ne (d := ' ') (by decide)
  unfold TypeChar at h
  simp only [Text.isWhitespace, hne, decide_false, Bool.false_or, Bool.or_eq_false_iff,
    Bool.and_eq_false_iff, decide_eq_false_iff_not]
  omega

end TypeChar

theorem isWhitespace_of_isHttpWhitespace {c : Char} (h : isHttpWhitespace c = true) :
    Text.isWhitespace c = true ∧ c.toNat ≠ 0 ∧ c.toNat < 128 := by
  simp only [isHttpWhitespace, Bool.or_eq_true, decide_eq_true_eq] at h
  rcases h with ((rfl | rfl) | rfl) | rfl <;> decide

theorem word_of_all {s : Text} (h : (s ≠ [] && s.all fun c => decide (TypeChar c)) = true) :
    s ≠ [] ∧ ∀ c ∈ s, TypeChar c := by
  rwa [Bool.and_eq_true, decide_eq_true_eq, List.all_eq_true, forall₂_congr fun c _ => decide_eq_true_iff]
    at h

/-- A form type in any case is two words of letters and hyphens. -/
theorem formType_parts (he : Text.toAsciiLowercase e ∈ formTypes) : ∃ type subtype,
    e = type ++ '/' :: subtype ∧ (type ≠ [] ∧ ∀ c ∈ type, TypeChar c) ∧
      subtype ≠ [] ∧ ∀ c ∈ subtype, TypeChar c := by
  obtain ⟨t, u, hparts, ht, hu⟩ : ∃ t u, Text.toAsciiLowercase e = t ++ '/' :: u ∧
      (t ≠ [] ∧ ∀ c ∈ t, TypeChar c) ∧ u ≠ [] ∧ ∀ c ∈ u, TypeChar c := by
    simp only [formTypes, List.mem_cons, List.not_mem_nil, or_false] at he
    rcases he with he | he | he <;> rw [he]
    · exact ⟨"application".toList, "x-www-form-urlencoded".toList, rfl, word_of_all (by decide),
        word_of_all (by decide)⟩
    · exact ⟨"multipart".toList, "form-data".toList, rfl, word_of_all (by decide),
        word_of_all (by decide)⟩
    · exact ⟨"text".toList, "plain".toList, rfl, word_of_all (by decide), word_of_all (by decide)⟩
  have hword : ∀ {s s' : Text}, s.map Text.asciiLower = s' → (s' ≠ [] ∧ ∀ c ∈ s', TypeChar c) →
      s ≠ [] ∧ ∀ c ∈ s, TypeChar c := by
    rintro s _ rfl ⟨hne, hall⟩
    exact ⟨fun hnil => hne (by rw [hnil]; rfl), fun c hc =>
      typeChar_of_asciiLower (hall _ (List.mem_map_of_mem hc))⟩
  obtain ⟨type, rest, rfl, htype, hrest⟩ := List.map_eq_append_iff.1 hparts
  obtain ⟨slash, subtype, rfl, hslash, hsubtype⟩ := List.map_eq_cons_iff.1 hrest
  rw [Text.eq_of_asciiLower (by decide) hslash]
  exact ⟨type, subtype, rfl, hword htype ht, hword hsubtype hu⟩

theorem mem_formType (he : Text.toAsciiLowercase e ∈ formTypes) {c : Char} (hc : c ∈ e) :
    TypeChar c ∨ c = '/' := by
  obtain ⟨type, subtype, rfl, ⟨-, htype⟩, -, hsubtype⟩ := formType_parts he
  rcases List.mem_append.1 hc with hc | hc
  · exact .inl (htype c hc)
  · rcases List.mem_cons.1 hc with rfl | hc
    · exact .inr rfl
    · exact .inl (hsubtype c hc)

theorem isWhitespace_formType (he : Text.toAsciiLowercase e ∈ formTypes) :
    ∀ c ∈ e, Text.isWhitespace c = false := fun c hc => by
  rcases mem_formType he hc with h | rfl
  · exact h.isWhitespace
  · decide

theorem isHttpWhitespace_eq_false {c : Char} (h : Text.isWhitespace c = false) : isHttpWhitespace c = false :=
  Bool.eq_false_iff.2 fun hblank => by
    rw [(isWhitespace_of_isHttpWhitespace hblank).1] at h
    cases h

theorem semicolon_not_mem (ha : ∀ c ∈ a, Text.isWhitespace c = true)
    (hb : ∀ c ∈ b, Text.isWhitespace c = true) (he : Text.toAsciiLowercase e ∈ formTypes) :
    ';' ∉ a ++ e ++ b := by
  have hblank : ∀ {s : Text}, (∀ c ∈ s, Text.isWhitespace c = true) → ';' ∉ s := fun hs hc =>
    absurd (hs ';' hc) (by decide)
  intro hc
  rcases List.mem_append.1 hc with hc | hc
  · rcases List.mem_append.1 hc with hc | hc
    · exact hblank ha hc
    · rcases mem_formType he hc with h | h
      · exact absurd h (by decide)
      · exact absurd h (by decide)
  · exact hblank hb hc

theorem mimeEssence_iff : mimeEssence text ∈ formTypes ↔ FormType Text.isWhitespace text := by
  have hplain : ∀ {s : Text}, ';' ∉ s → mimeEssence s = Text.toAsciiLowercase (Text.trim s) :=
    fun hs => by rw [mimeEssence, Text.split_of_not_mem hs, List.head?_cons, Option.getD_some]
  constructor
  · intro h
    by_cases hsemi : ';' ∈ text
    · obtain ⟨before, after, rfl, hbefore⟩ := List.eq_append_cons_of_mem hsemi
      rw [mimeEssence_append, hplain hbefore] at h
      obtain ⟨a, b, hsplit, ha, hb⟩ := exists_strip Text.isWhitespace before
      exact ⟨a, Text.trim before, b, ';' :: after, congrArg (· ++ ';' :: after) hsplit, ha, hb, h,
        fun c hc => (Option.some.inj hc).symm⟩
    · rw [hplain hsemi] at h
      obtain ⟨a, b, hsplit, ha, hb⟩ := exists_strip Text.isWhitespace text
      exact ⟨a, Text.trim text, b, [], hsplit.trans (List.append_nil _).symm, ha, hb, h, by rintro _ ⟨⟩⟩
  · rintro ⟨a, e, b, rest, rfl, ha, hb, he, hended⟩
    have htrim : Text.trim (a ++ e ++ b) = e := strip_append ha hb (isWhitespace_formType he)
    have hpiece : mimeEssence (a ++ e ++ b) ∈ formTypes := by
      rwa [hplain (semicolon_not_mem ha hb he), htrim]
    cases rest with
    | nil => rwa [List.append_nil]
    | cons c rest =>
      rw [hended c rfl, mimeEssence_append]
      exact hpiece

/-! ### The parser of MIME types -/

theorem ended_dropWhile (s : Text) : Follows (s.dropWhile (· ≠ ';')) := fun c hc => by
  simpa using head?_dropWhile_eq_false (fun c : Char => decide (c ≠ ';')) s c hc

theorem isHttpWhitespace_formType (he : Text.toAsciiLowercase e ∈ formTypes) :
    ∀ c ∈ e, isHttpWhitespace c = false := fun c hc =>
  isHttpWhitespace_eq_false (isWhitespace_formType he c hc)

theorem trimHttpWsEnd_append (hb : ∀ c ∈ b, isHttpWhitespace c = true)
    (he : ∀ c ∈ e, isHttpWhitespace c = false) :
    trimHttpWsEnd (e ++ b) = e := by
  have hend : (e ++ b).reverse.dropWhile isHttpWhitespace = e.reverse := by
    rw [List.reverse_append, List.dropWhile_append_of_pos fun c hc => hb c (List.mem_reverse.1 hc)]
    exact dropWhile_eq_self fun c hc => he c (List.mem_reverse.1 (List.mem_of_head? hc))
  rw [trimHttpWsEnd, hend, List.reverse_reverse]

theorem exists_trimHttpWsEnd (s : Text) :
    ∃ b, s = trimHttpWsEnd s ++ b ∧ ∀ c ∈ b, isHttpWhitespace c = true := by
  refine ⟨(s.reverse.takeWhile isHttpWhitespace).reverse, ?_, fun c hc =>
    List.mem_takeWhile_imp (List.mem_reverse.1 hc)⟩
  rw [trimHttpWsEnd, ← List.reverse_append, List.takeWhile_append_dropWhile, List.reverse_reverse]

theorem strip_formType (ha : ∀ c ∈ a, isHttpWhitespace c = true) (hb : ∀ c ∈ b, isHttpWhitespace c = true)
    (he : Text.toAsciiLowercase e ∈ formTypes) (hended : Follows rest) :
    ∃ b' rest', strip isHttpWhitespace (a ++ e ++ b ++ rest) = e ++ b' ++ rest' ∧
      (∀ c ∈ b', isHttpWhitespace c = true) ∧ Follows rest' := by
  cases rest with
  | nil =>
    rw [List.append_nil, strip_append ha hb (isHttpWhitespace_formType he)]
    exact ⟨[], [], by simp, nofun, nofun⟩
  | cons c rest =>
    have hstart : ∀ c' ∈ (e ++ b ++ c :: rest).head?, isHttpWhitespace c' = false := by
      obtain ⟨type, subtype, rfl, ⟨hne, -⟩, -⟩ := formType_parts he
      obtain ⟨first, more, rfl⟩ := List.exists_cons_of_ne_nil hne
      exact fun c' hc' => isHttpWhitespace_formType he c' (Option.some.inj hc' ▸ List.mem_cons_self)
    obtain rfl := hended c rfl
    obtain ⟨rest', hstrip⟩ := exists_strip_append_cons (p := isHttpWhitespace) (by decide) ha hstart
    refine ⟨b, ';' :: rest', ?_, hb, fun c hc => (Option.some.inj hc).symm⟩
    rw [← hstrip]
    simp only [List.append_assoc]

theorem isHttpToken_iff {s : Text} : isHttpToken s = true ↔ s ≠ [] ∧ ∀ c ∈ s, isHttpTokenChar c = true := by
  rw [isHttpToken, Bool.and_eq_true, List.all_eq_true, decide_eq_true_eq]

theorem toAsciiLowercase_slash (type subtype : Text) :
    Text.toAsciiLowercase (type ++ '/' :: subtype) =
      Text.toAsciiLowercase type ++ '/' :: Text.toAsciiLowercase subtype := by
  simp only [Text.toAsciiLowercase, List.map_append, List.map_cons]
  rfl

/-- A parsed type between what the parser leaves out. -/
theorem parsedEssence_eq_some {essence : Text} (h : parsedEssence text = some essence) :
    ∃ a e b rest, text = a ++ e ++ b ++ rest ∧ (∀ c ∈ a, isHttpWhitespace c = true) ∧
      (∀ c ∈ b, isHttpWhitespace c = true) ∧ Text.toAsciiLowercase e = essence ∧ Follows rest := by
  obtain ⟨a, b, hsplit, ha, hb⟩ := exists_strip isHttpWhitespace text
  have hinput := List.takeWhile_append_dropWhile (p := (· ≠ '/')) (l := strip isHttpWhitespace text)
  unfold parsedEssence at h
  dsimp only at h
  split at h
  · cases h
  · rename_i c after hafter
    obtain rfl : c = '/' := by
      have hfirst := head?_dropWhile_eq_false (fun c : Char => decide (c ≠ '/')) (strip isHttpWhitespace text)
      rw [hafter] at hfirst
      simpa using hfirst c rfl
    rw [hafter] at hinput
    split at h
    · generalize (strip isHttpWhitespace text).takeWhile (· ≠ '/') = type at h hinput
      have hafter := List.takeWhile_append_dropWhile (p := (· ≠ ';')) (l := after)
      have hended := ended_dropWhile after
      obtain ⟨b', hsubtype, hb'⟩ := exists_trimHttpWsEnd (after.takeWhile (· ≠ ';'))
      generalize trimHttpWsEnd (after.takeWhile (· ≠ ';')) = subtype at h hsubtype
      rw [hsubtype] at hafter
      rw [← hinput, ← hafter] at hsplit
      refine ⟨a, type ++ '/' :: subtype, ?_⟩
      rw [toAsciiLowercase_slash]
      cases hrest : after.dropWhile (· ≠ ';') with
      | nil =>
        rw [hrest] at hsplit
        exact ⟨b' ++ b, [], by simp [hsplit], ha, List.forall_mem_append.2 ⟨hb', hb⟩,
          Option.some.inj h, nofun⟩
      | cons c rest =>
        rw [hrest] at hsplit hended
        exact ⟨b', c :: rest ++ b, by simp [hsplit], ha, hb', Option.some.inj h, hended⟩
    · cases h

/-- What the standard takes for a form type. -/
theorem parsedEssence_iff :
    (parsedEssence text).any (· ∈ formTypes) = true ↔ FormType isHttpWhitespace text := by
  constructor
  · intro h
    obtain ⟨essence, hessence, hform⟩ := (Option.any_eq_true _ _).1 h
    obtain ⟨a, e, b, rest, htext, ha, hb, rfl, hended⟩ := parsedEssence_eq_some hessence
    exact ⟨a, e, b, rest, htext, ha, hb, of_decide_eq_true hform, hended⟩
  · rintro ⟨a, e, b, rest, rfl, ha, hb, he, hended⟩
    obtain ⟨b', rest', hstrip, hb', hended'⟩ := strip_formType ha hb he hended
    obtain ⟨type, subtype, rfl, ⟨htype, htypes⟩, hsubtype, hsubtypes⟩ := formType_parts he
    have hslash : (type ++ '/' :: (subtype ++ b' ++ rest')).takeWhile (· ≠ '/') = type ∧
        (type ++ '/' :: (subtype ++ b' ++ rest')).dropWhile (· ≠ '/') =
          '/' :: (subtype ++ b' ++ rest') :=
      takeWhile_append (fun c hc => decide_eq_true ((htypes c hc).ne (by decide))) fun c hc => by
        rw [← Option.some.inj hc]
        rfl
    have hsemi : (subtype ++ b' ++ rest').takeWhile (· ≠ ';') = subtype ++ b' := by
      refine (takeWhile_append (fun c hc => ?_) fun c hc => by rw [hended' c hc]; rfl).1
      rcases List.mem_append.1 hc with hc | hc
      · exact decide_eq_true ((hsubtypes c hc).ne (by decide))
      · refine decide_eq_true fun heq => ?_
        have hblank := hb' c hc
        rw [heq] at hblank
        exact absurd hblank (by decide)
    have htrim : trimHttpWsEnd (subtype ++ b') = subtype :=
      trimHttpWsEnd_append hb' fun c hc => isHttpWhitespace_eq_false (hsubtypes c hc).isWhitespace
    have hinput : strip isHttpWhitespace (a ++ (type ++ '/' :: subtype) ++ b ++ rest) =
        type ++ '/' :: (subtype ++ b' ++ rest') := by
      rw [hstrip]
      simp only [List.append_assoc, List.cons_append]
    rw [parsedEssence, hinput]
    have htoken := isHttpToken_iff.2 ⟨htype, fun c hc => (htypes c hc).isHttpTokenChar⟩
    have hsubtoken := isHttpToken_iff.2 ⟨hsubtype, fun c hc => (hsubtypes c hc).isHttpTokenChar⟩
    simp only [hslash.1, hslash.2, hsemi, htrim, htoken, hsubtoken, Bool.and_self, if_true]
    rw [Option.any_some, decide_eq_true_eq, ← toAsciiLowercase_slash]
    exact he

/-! ### Bytes and characters -/

theorem toNat_decoded (b : UInt8) : (Char.ofNat b.toNat).toNat = b.toNat := by
  have hlt : b.toNat < 0xD800 := Nat.lt_trans b.toNat_lt (by decide)
  rw [Char.ofNat, dif_pos (.inl hlt)]
  rfl

theorem isomorphicDecode_eq_append {s t : Text} (h : isomorphicDecode value = s ++ t) :
    ∃ v', value = Bytes.ofAscii s ++ v' ∧ isomorphicDecode v' = t := by
  obtain ⟨v, v', rfl, hv, hv'⟩ := List.map_eq_append_iff.1 h
  refine ⟨v', congrArg (· ++ v') ?_, hv'⟩
  rw [← hv, Bytes.ofAscii, List.map_map]
  refine (List.map_id v).symm.trans (List.map_congr_left fun b _ => ?_)
  show b = UInt8.ofNat (Char.ofNat b.toNat).toNat
  rw [toNat_decoded, UInt8.ofNat_toNat]

theorem isomorphicDecode_ofAscii_append {s : Text} (hs : ∀ c ∈ s, c.toNat < 128) (v : Bytes) :
    isomorphicDecode (Bytes.ofAscii s ++ v) = s ++ isomorphicDecode v := by
  rw [isomorphicDecode, List.map_append, Bytes.map_ofAscii hs]
  rfl

theorem ended_isomorphicDecode : Follows (isomorphicDecode value) ↔ ∀ b ∈ value.head?, b = 0x3B := by
  cases value with
  | nil => exact iff_of_true nofun nofun
  | cons b v =>
    constructor
    · intro h b' hb'
      obtain rfl := Option.some.inj hb'
      have hcode := toNat_decoded b
      rw [show Char.ofNat b.toNat = ';' from h _ rfl] at hcode
      exact UInt8.toNat_inj.1 hcode.symm
    · intro h c hc
      rw [← Option.some.inj hc, h b rfl]
      decide

theorem ended_toTextLossy : Follows (Bytes.toTextLossy value) ↔ ∀ b ∈ value.head?, b = 0x3B := by
  cases value with
  | nil => exact iff_of_true nofun nofun
  | cons b v =>
    constructor
    · intro h b' hb'
      obtain rfl := Option.some.inj hb'
      cases htext : Bytes.toTextLossy (b :: v) with
      | nil => cases Bytes.toTextLossy_eq_nil htext
      | cons c t =>
        rw [htext] at h
        obtain rfl := h c rfl
        obtain ⟨v', hv, -⟩ := Bytes.toTextLossy_eq_append (s := [';'])
          (List.forall_mem_singleton.2 (by decide)) htext
        exact (List.cons.inj hv).1
    · intro h
      rw [h b rfl, Bytes.toTextLossy, Bytes.utf8Scan_ascii (by decide)]
      exact fun c hc => (Option.some.inj hc).symm

theorem exists_ended_iff {s : Text} (hs : ∀ c ∈ s, c.toNat ≠ 0 ∧ c.toNat < 128) :
    (∃ t, isomorphicDecode value = s ++ t ∧ Follows t) ↔
      ∃ t, Bytes.toTextLossy value = s ++ t ∧ Follows t := by
  have hlt : ∀ c ∈ s, c.toNat < 128 := fun c hc => (hs c hc).2
  constructor
  · rintro ⟨t, h, hended⟩
    obtain ⟨v, rfl, rfl⟩ := isomorphicDecode_eq_append h
    exact ⟨_, Bytes.toTextLossy_ofAscii_append hlt v,
      ended_toTextLossy.2 (ended_isomorphicDecode.1 hended)⟩
  · rintro ⟨t, h, hended⟩
    obtain ⟨v, rfl, rfl⟩ := Bytes.toTextLossy_eq_append hs h
    exact ⟨_, isomorphicDecode_ofAscii_append hlt v,
      ended_isomorphicDecode.2 (ended_toTextLossy.1 hended)⟩

theorem toText?_eq_some_iff {s : Text} (hs : ∀ c ∈ s, c.toNat ≠ 0 ∧ c.toNat < 128) :
    Bytes.toText? value = some s ↔ isomorphicDecode value = s := by
  have hlt : ∀ c ∈ s, c.toNat < 128 := fun c hc => (hs c hc).2
  constructor
  · intro h
    have hlossy := Bytes.toTextLossy_of_toText? h
    obtain ⟨v, rfl, hv⟩ := Bytes.toTextLossy_eq_append hs (hlossy.trans (List.append_nil s).symm)
    rw [Bytes.toTextLossy_eq_nil hv, isomorphicDecode_ofAscii_append hlt]
    exact List.append_nil s
  · intro h
    obtain ⟨v, rfl, hv⟩ := isomorphicDecode_eq_append (h.trans (List.append_nil s).symm)
    rw [List.map_eq_nil_iff.1 hv, List.append_nil, Bytes.toText?_ascii (Bytes.ofAscii_lt hlt),
      Bytes.map_ofAscii hlt]

/-! ### Loose types -/

/-- A form type with a blank around it that HTTP does not know. -/
def LooseType (value : Bytes) : Prop :=
  ∃ a e b rest, Bytes.toTextLossy value = a ++ e ++ b ++ rest ∧
    (∀ c ∈ a, Text.isWhitespace c = true) ∧ (∀ c ∈ b, Text.isWhitespace c = true) ∧
    Text.toAsciiLowercase e ∈ formTypes ∧ Follows rest ∧ ∃ c ∈ a ++ b, isHttpWhitespace c = false

theorem formType_ascii (ha : ∀ c ∈ a, isHttpWhitespace c = true) (hb : ∀ c ∈ b, isHttpWhitespace c = true)
    (he : Text.toAsciiLowercase e ∈ formTypes) : ∀ c ∈ a ++ e ++ b, c.toNat ≠ 0 ∧ c.toNat < 128 := by
  refine List.forall_mem_append.2 ⟨List.forall_mem_append.2 ⟨?_, fun c hc => ?_⟩, ?_⟩
  · exact fun c hc => (isWhitespace_of_isHttpWhitespace (ha c hc)).2
  · rcases mem_formType he hc with h | rfl
    · exact h.lt
    · decide
  · exact fun c hc => (isWhitespace_of_isHttpWhitespace (hb c hc)).2

theorem formType_isomorphicDecode :
    FormType isHttpWhitespace (isomorphicDecode value) ↔
      FormType isHttpWhitespace (Bytes.toTextLossy value) := by
  constructor
  · rintro ⟨a, e, b, rest, htext, ha, hb, he, hended⟩
    obtain ⟨t, ht, hended⟩ := (exists_ended_iff (formType_ascii ha hb he)).1 ⟨rest, htext, hended⟩
    exact ⟨a, e, b, t, ht, ha, hb, he, hended⟩
  · rintro ⟨a, e, b, rest, htext, ha, hb, he, hended⟩
    obtain ⟨t, ht, hended⟩ := (exists_ended_iff (formType_ascii ha hb he)).2 ⟨rest, htext, hended⟩
    exact ⟨a, e, b, t, ht, ha, hb, he, hended⟩

/-- A text has one form type at most between the same blanks. -/
theorem blanks_unique {a' e' b' rest' : Text} (ha : ∀ c ∈ a, Text.isWhitespace c = true)
    (hb : ∀ c ∈ b, Text.isWhitespace c = true) (he : Text.toAsciiLowercase e ∈ formTypes)
    (hended : Follows rest) (ha' : ∀ c ∈ a', Text.isWhitespace c = true)
    (hb' : ∀ c ∈ b', Text.isWhitespace c = true) (he' : Text.toAsciiLowercase e' ∈ formTypes)
    (hended' : Follows rest') (h : a ++ e ++ b ++ rest = a' ++ e' ++ b' ++ rest') :
    a = a' ∧ b = b' := by
  have hbefore : ∀ {s t : Text}, ';' ∉ s → Follows t → (s ++ t).takeWhile (· ≠ ';') = s := by
    refine fun hs ht => (takeWhile_append (fun c hc => ?_) fun c hc => by rw [ht c hc]; rfl).1
    exact decide_eq_true fun heq => hs (heq ▸ hc)
  have hparts : a ++ e ++ b = a' ++ e' ++ b' := by
    rw [← hbefore (semicolon_not_mem ha hb he) hended, h,
      hbefore (semicolon_not_mem ha' hb' he') hended']
  have hstart : ∀ {a e : Text}, (∀ c ∈ a, Text.isWhitespace c = true) →
      Text.toAsciiLowercase e ∈ formTypes → ∀ b : Text,
        (a ++ (e ++ b)).takeWhile Text.isWhitespace = a := by
    intro a e ha he b
    refine (takeWhile_append ha fun c hc => ?_).1
    obtain ⟨type, subtype, rfl, ⟨hne, -⟩, -⟩ := formType_parts he
    obtain ⟨first, more, rfl⟩ := List.exists_cons_of_ne_nil hne
    exact isWhitespace_formType he c (Option.some.inj hc ▸ List.mem_cons_self)
  have htype : e = e' := by
    rw [← strip_append ha hb (isWhitespace_formType he), hparts,
      strip_append ha' hb' (isWhitespace_formType he')]
  have hleft : a = a' := by
    rw [← hstart ha he b, ← List.append_assoc, hparts, List.append_assoc, hstart ha' he' b']
  subst hleft htype
  exact ⟨rfl, List.append_cancel_left hparts⟩

theorem looseType_iff : LooseType value ↔ FormType Text.isWhitespace (Bytes.toTextLossy value) ∧
    ¬ FormType isHttpWhitespace (Bytes.toTextLossy value) := by
  have hblank : ∀ {s : Text}, (∀ c ∈ s, isHttpWhitespace c = true) → ∀ c ∈ s, Text.isWhitespace c = true :=
    fun hs c hc => (isWhitespace_of_isHttpWhitespace (hs c hc)).1
  constructor
  · rintro ⟨a, e, b, rest, htext, ha, hb, he, hended, c, hc, hloose⟩
    refine ⟨⟨a, e, b, rest, htext, ha, hb, he, hended⟩, ?_⟩
    rintro ⟨a', e', b', rest', htext', ha', hb', he', hended'⟩
    obtain ⟨rfl, rfl⟩ := blanks_unique ha hb he hended (hblank ha') (hblank hb') he' hended'
      (htext.symm.trans htext')
    rw [List.forall_mem_append.2 ⟨ha', hb'⟩ c hc] at hloose
    cases hloose
  · rintro ⟨⟨a, e, b, rest, htext, ha, hb, he, hended⟩, hnot⟩
    refine ⟨a, e, b, rest, htext, ha, hb, he, hended, ?_⟩
    by_contra hnone
    have hall : ∀ c ∈ a ++ b, isHttpWhitespace c = true := fun c hc =>
      Bool.not_eq_false _ ▸ fun hno => hnone ⟨c, hc, hno⟩
    exact hnot ⟨a, e, b, rest, htext, (List.forall_mem_append.1 hall).1,
      (List.forall_mem_append.1 hall).2, he, hended⟩

/-! ### Ranges -/

/-- A range with a start, of decimal digits. -/
structure RangeText (text start stop : Text) : Prop where
  parts : text = "bytes=".toList ++ (start ++ '-' :: stop)
  started : start ≠ []
  start : ∀ c ∈ start, Text.isAsciiDigit c = true
  stop : ∀ c ∈ stop, Text.isAsciiDigit c = true

namespace RangeText
variable {start stop : Text}

theorem dash_not_mem (h : RangeText text start stop) : '-' ∉ start := fun hc =>
  absurd (h.start '-' hc) (by decide)

theorem ascii (h : RangeText text start stop) : ∀ c ∈ text, c.toNat ≠ 0 ∧ c.toNat < 128 := by
  have hdigit : ∀ c : Char, Text.isAsciiDigit c = true → c.toNat ≠ 0 ∧ c.toNat < 128 := by
    intro c hc
    rw [Text.isAsciiDigit, Bool.and_eq_true, decide_eq_true_eq, decide_eq_true_eq] at hc
    have hlow : 48 ≤ c.toNat := hc.1
    have hhigh : c.toNat ≤ 57 := hc.2
    omega
  rw [h.parts]
  have hunit : ("bytes=".toList.all fun c => c.toNat ≠ 0 && c.toNat < 128) = true := by decide
  simp only [List.all_eq_true, Bool.and_eq_true, decide_eq_true_eq] at hunit
  refine List.forall_mem_append.2 ⟨hunit, List.forall_mem_append.2 ⟨?_, ?_⟩⟩
  · exact fun c hc => hdigit c (h.start c hc)
  · exact List.forall_mem_cons.2 ⟨by decide, fun c hc => hdigit c (h.stop c hc)⟩

end RangeText

theorem startsWith_iff {s pre : Text} : s.startsWith pre = true ↔ ∃ t, s = pre ++ t := by
  rw [Text.startsWith, List.isPrefixOf_iff_prefix]
  exact ⟨fun ⟨t, ht⟩ => ⟨t, ht.symm⟩, fun ⟨t, ht⟩ => ⟨t, ht.symm⟩⟩

theorem drop_bytes (rest : Text) : ("bytes=".toList ++ rest).drop 6 = rest :=
  List.drop_left' (by decide)

theorem isSimpleRange_iff : isSimpleRange value = true ↔
    ∃ start stop, RangeText (isomorphicDecode value) start stop := by
  constructor
  · intro h
    unfold isSimpleRange at h
    split at h
    · cases h
    · rename_i text htext
      split at h
      · cases h
      · rename_i hstart
        rw [Bool.not_eq_true', Bool.not_eq_false] at hstart
        obtain ⟨rest, rfl⟩ := startsWith_iff.1 hstart
        rw [drop_bytes] at h
        split at h
        · cases h
        · rename_i start stop hsplit
          rw [Bool.and_eq_true, Bool.and_eq_true, decide_eq_true_eq, List.all_eq_true,
            List.all_eq_true] at h
          have hrange : RangeText ("bytes=".toList ++ rest) start stop :=
            ⟨congrArg _ (Text.splitOnce_spec hsplit).1, h.1.1, h.1.2, h.2⟩
          rw [← (toText?_eq_some_iff hrange.ascii).1 htext] at hrange
          exact ⟨start, stop, hrange⟩
  · rintro ⟨start, stop, h⟩
    rw [isSimpleRange, (toText?_eq_some_iff h.ascii).2 rfl]
    dsimp only
    rw [h.parts, startsWith_iff.2 ⟨_, rfl⟩, drop_bytes, Text.splitOnce_append h.dash_not_mem]
    simp [h.started, List.all_eq_true.2 h.start, List.all_eq_true.2 h.stop]

/-- What the standard takes for a range. -/
theorem parsedRange_iff {range : Nat × Option Nat} : parsedRange text = some range ↔
    ∃ start stop, RangeText text start stop ∧
      range = (Text.digitsValue start, if stop = [] then none else some (Text.digitsValue stop)) := by
  constructor
  · intro h
    unfold parsedRange at h
    split at h
    · rename_i hstart
      obtain ⟨rest, rfl⟩ := startsWith_iff.1 hstart
      rw [drop_bytes] at h
      dsimp only at h
      have hrest := List.takeWhile_append_dropWhile (p := Text.isAsciiDigit) (l := rest)
      have hdigits : ∀ c ∈ rest.takeWhile Text.isAsciiDigit, Text.isAsciiDigit c = true :=
        fun c hc => List.mem_takeWhile_imp hc
      generalize rest.takeWhile Text.isAsciiDigit = start at h hrest hdigits
      split at h
      · rename_i stop hstop
        rw [hstop] at hrest
        split at h
        · cases h
        · rename_i hok
          rw [Bool.or_eq_true, decide_eq_true_eq, not_or, Bool.not_eq_true', ← Bool.not_eq_true,
            not_not, List.all_eq_true] at hok
          exact ⟨start, stop, ⟨congrArg _ hrest.symm, hok.1, hdigits, hok.2⟩, (Option.some.inj h).symm⟩
      · cases h
    · cases h
  · rintro ⟨start, stop, h, rfl⟩
    have hstart := takeWhile_append (p := Text.isAsciiDigit) (r := '-' :: stop) h.start fun c hc => by
      rw [← Option.some.inj hc]
      decide
    rw [h.parts, parsedRange, if_pos (startsWith_iff.2 ⟨_, rfl⟩), drop_bytes]
    simp [hstart.1, hstart.2, h.started, List.all_eq_true.2 h.stop]

/-- A range that ends before it starts. -/
def LooseRange (value : Bytes) : Prop :=
  ∃ start stop, RangeText (isomorphicDecode value) start stop ∧ stop ≠ [] ∧
    Text.digitsValue stop < Text.digitsValue start

theorem looseRange_iff : LooseRange value ↔ isSimpleRange value = true ∧
    ((parsedRange (isomorphicDecode value)).any fun range => range.2.all (range.1 ≤ ·)) = false := by
  rw [isSimpleRange_iff]
  have hread : ∀ {start stop : Text}, RangeText (isomorphicDecode value) start stop →
      ((parsedRange (isomorphicDecode value)).any fun range => range.2.all (range.1 ≤ ·)) =
        (stop = [] || Text.digitsValue start ≤ Text.digitsValue stop) := by
    intro start stop h
    rw [parsedRange_iff.2 ⟨start, stop, h, rfl⟩]
    by_cases hstop : stop = []
    · simp [hstop]
    · simp [hstop]
  constructor
  · rintro ⟨start, stop, h, hstop, hlt⟩
    refine ⟨⟨start, stop, h⟩, ?_⟩
    rw [hread h, Bool.or_eq_false_iff, decide_eq_false_iff_not, decide_eq_false_iff_not, not_le]
    exact ⟨hstop, hlt⟩
  · rintro ⟨⟨start, stop, h⟩, hno⟩
    rw [hread h, Bool.or_eq_false_iff, decide_eq_false_iff_not, decide_eq_false_iff_not, not_le] at hno
    exact ⟨start, stop, h, hno⟩

theorem isSimpleRange_of_parsedRange {range : Nat × Option Nat}
    (h : parsedRange (isomorphicDecode value) = some range) : isSimpleRange value = true := by
  obtain ⟨start, stop, hrange, -⟩ := parsedRange_iff.1 h
  exact isSimpleRange_iff.2 ⟨start, stop, hrange⟩

/-! ### The two definitions -/

/-- What the code takes for safelisted and the standard does not. -/
def LooselySafelisted (name : Text) (value : Bytes) : Prop :=
  value.length ≤ 128 ∧
    (name.toAsciiLowercase = "content-type".toList ∧ containsUnsafeByte value = false ∧
        LooseType value ∨
      name.toAsciiLowercase = "range".toList ∧ LooseRange value)

/-- `is_cors_safelisted_request_header` answers as the standard does, and a field that the standard
calls unsafe makes each request that has it wait for a preflight. -/
structure AgreesWithFetch (name : Text) (value : Bytes) : Prop where
  safelisted : isCorsSafelistedRequestHeader name value = fetchSafelisted name value
  preflight : ∀ (method : Method) (headers : HeaderMap), (name, value) ∈ ownFields headers →
    fetchSafelisted name value = false →
      needsPreflight method (unsafeRequestHeaderNames headers) = true

theorem contentType_eq_iff : (decide (mimeEssence (Bytes.toTextLossy value) ∈ formTypes) =
    (parsedEssence (isomorphicDecode value)).any (· ∈ formTypes)) ↔ ¬ LooseType value := by
  have hweaker : FormType isHttpWhitespace (Bytes.toTextLossy value) →
      FormType Text.isWhitespace (Bytes.toTextLossy value) := by
    rintro ⟨a, e, b, rest, htext, ha, hb, he, hended⟩
    exact ⟨a, e, b, rest, htext, fun c hc => (isWhitespace_of_isHttpWhitespace (ha c hc)).1,
      fun c hc => (isWhitespace_of_isHttpWhitespace (hb c hc)).1, he, hended⟩
  rw [Bool.eq_iff_iff, decide_eq_true_eq, mimeEssence_iff, parsedEssence_iff, formType_isomorphicDecode,
    looseType_iff, not_and_not_right]
  exact ⟨fun h => h.1, fun h => ⟨h, hweaker⟩⟩

theorem range_eq_iff : (isSimpleRange value =
    (parsedRange (isomorphicDecode value)).any fun range => range.2.all (range.1 ≤ ·)) ↔
      ¬ LooseRange value := by
  rw [looseRange_iff]
  cases hcode : isSimpleRange value with
  | true => cases (parsedRange (isomorphicDecode value)).any _ <;> simp
  | false =>
    cases hparsed : parsedRange (isomorphicDecode value) with
    | none => simp
    | some range =>
      rw [isSimpleRange_of_parsedRange hparsed] at hcode
      cases hcode

theorem safelisted_eq_iff {name : Text} :
    isCorsSafelistedRequestHeader name value = fetchSafelisted name value ↔
      ¬ LooselySafelisted name value := by
  unfold isCorsSafelistedRequestHeader fetchSafelisted LooselySafelisted
  dsimp only
  generalize name.toAsciiLowercase = lower
  have hother : lower ≠ "content-type".toList → lower ≠ "range".toList →
      ¬ (lower = "content-type".toList ∧ containsUnsafeByte value = false ∧ LooseType value ∨
        lower = "range".toList ∧ LooseRange value) := fun htype hrange h =>
    h.elim (fun h => htype h.1) fun h => hrange h.1
  by_cases hlen : 128 < value.length
  · rw [if_pos hlen, if_pos hlen]
    exact iff_of_true rfl fun h => Nat.not_lt.2 h.1 hlen
  · rw [if_neg hlen, if_neg hlen, and_iff_right (Nat.not_lt.1 hlen)]
    split_ifs with haccept hlanguage htype hbyte hrange
    · exact iff_of_true rfl (hother (haccept ▸ by decide) (haccept ▸ by decide))
    · rw [Bool.or_eq_true, decide_eq_true_eq, decide_eq_true_eq] at hlanguage
      refine iff_of_true rfl ?_
      rcases hlanguage with rfl | rfl
      · exact hother (by decide) (by decide)
      · exact hother (by decide) (by decide)
    · simp [htype, hbyte]
    · rw [Bool.not_eq_true] at hbyte
      rw [hbyte, Bool.not_false, Bool.true_and, and_iff_right htype, and_iff_right rfl]
      have hnot : ¬ (lower = "range".toList ∧ LooseRange value) := fun h => by
        rw [htype] at h
        exact absurd h.1 (by decide)
      rw [or_iff_left hnot]
      exact contentType_eq_iff
    · rw [and_iff_right hrange, or_iff_right fun h => htype h.1]
      exact range_eq_iff
    · exact iff_of_true rfl (hother htype hrange)

/-- The code's definition is the standard's but for form types between blanks that HTTP does not know
and ranges that end before they start. -/
theorem agreesWithFetch_iff (name : Text) (value : Bytes) :
    AgreesWithFetch name value ↔ ¬ LooselySafelisted name value := by
  constructor
  · exact fun h => safelisted_eq_iff.1 h.safelisted
  · intro h
    have heq := safelisted_eq_iff.2 h
    refine ⟨heq, fun method headers hown hno => ?_⟩
    have hmem := mem_unsafeRequestHeaderNames.2 ⟨(name, value), ⟨hown, .inl (heq.trans hno)⟩, rfl⟩
    rw [needsPreflight, decide_eq_true (List.ne_nil_of_mem hmem), Bool.or_true]

/-- A range from 5 to 3, and `text/plain` after a no-break space. -/
theorem not_agreesWithFetch_backward :
    ¬ AgreesWithFetch "range".toList (Bytes.ofText "bytes=5-3".toList) ∧
      ¬ AgreesWithFetch "content-type".toList (0xC2 :: 0xA0 :: Bytes.ofText "text/plain".toList) :=
  ⟨fun h => absurd h.safelisted (by decide), fun h => absurd h.safelisted (by decide)⟩

end Cors

end TinyBrowser
