import TinyBrowser.Lib.Joined
import TinyBrowser.Net.Headers

/-!
# MIME types

`crates/renderer/src/sniff.rs`: parsing and serializing a MIME type, and extracting one from a header
value. A position in the input is the text that is left there.

What `parse_mime_type` gives is well formed (`wellFormed_of_parseMimeType`), and a well-formed MIME
type is read back from its serialization, also through the comma splitter of
`extract_mime_type`, which sees one member there.
-/

namespace TinyBrowser.Sniff
open Lib

def isHttpWhitespace (c : Char) : Bool := c = '\t' || c = '\n' || c = '\r' || c = ' '

/-- An HTTP token code point. -/
def isHttpTokenChar (c : Char) : Bool :=
  Text.isAsciiDigit c || ('a' ≤ c && c ≤ 'z') || ('A' ≤ c && c ≤ 'Z') ||
    c ∈ "!#$%&'*+-.^_`|~".toList

def isHttpToken (value : Text) : Bool := value ≠ [] && value.all isHttpTokenChar

/-- An HTTP quoted-string token code point. -/
def isHttpQuotedStringToken (c : Char) : Bool :=
  c = '\t' || (0x20 ≤ c.toNat && c.toNat ≤ 0x7E) || (0x80 ≤ c.toNat && c.toNat ≤ 0xFF)

def trimHttpWsEnd (value : Text) : Text := (value.reverse.dropWhile isHttpWhitespace).reverse

structure MimeType where
  essence : Text
  /-- Names are lowercased when they are parsed; a later duplicate is dropped. -/
  parameters : List (Text × Text)
deriving DecidableEq

/-! ### Serializing -/

/-- A quoted value, with a backslash before each quote and backslash. -/
def escapeValue (value : Text) : Text :=
  value.flatMap fun c => if c = '"' ∨ c = '\\' then ['\\', c] else [c]

def serializeValue (value : Text) : Text :=
  if value = [] ∨ isHttpToken value = false then '"' :: (escapeValue value ++ ['"']) else value

def serializeParameter (parameter : Text × Text) : Text :=
  ';' :: (parameter.1 ++ '=' :: serializeValue parameter.2)

def MimeType.serialize (mime : MimeType) : Text :=
  mime.essence ++ mime.parameters.flatMap serializeParameter

/-! ### Parsing -/

/-- The value of a quoted string and what follows it, from after the opening quote. -/
def collectHttpQuotedString : Text → Text × Text
  | [] => ([], [])
  | c :: rest =>
    if c = '"' then ([], rest)
    else if c = '\\' then
      match rest with
      | [] => (['\\'], [])
      | c :: rest =>
        let (value, rest) := collectHttpQuotedString rest
        (c :: value, rest)
    else
      let (value, rest) := collectHttpQuotedString rest
      (c :: value, rest)

/-- The value of a parameter, if it has one, and the rest from the next `;` on. -/
def takeValue (rest : Text) : Option Text × Text :=
  match rest with
  | [] => (none, [])
  | c :: after =>
    if c = '"' then
      let (value, after) := collectHttpQuotedString after
      (some value, after.dropWhile (· ≠ ';'))
    else
      let value := trimHttpWsEnd (rest.takeWhile (· ≠ ';'))
      (if value = [] then none else some value, rest.dropWhile (· ≠ ';'))

/-- A parameter, if it has a value, and the rest, from after its `;`. -/
def takeParameter (rest : Text) : Option (Text × Text) × Text :=
  let rest := rest.dropWhile isHttpWhitespace
  let name := Text.toAsciiLowercase (rest.takeWhile fun c => c ≠ ';' && c ≠ '=')
  match rest.dropWhile fun c => c ≠ ';' && c ≠ '=' with
  | [] => (none, [])
  | c :: after =>
    if c = ';' then (none, c :: after)
    else
      let (value, after) := takeValue after
      (value.map (name, ·), after)

def addParameter (parameters : List (Text × Text)) : Option (Text × Text) → List (Text × Text)
  | none => parameters
  | some (name, value) =>
    if isHttpToken name && value.all isHttpQuotedStringToken &&
        !parameters.any (fun existing => existing.1 = name) then
      let value := if name = "charset".toList then Text.toAsciiLowercase value else value
      parameters ++ [(name, value)]
    else parameters

/-- The parameters, each from its `;` on. Each takes a character at least. -/
def parseParameters : Nat → List (Text × Text) → Text → List (Text × Text)
  | _, parameters, [] => parameters
  | 0, parameters, _ => parameters
  | fuel + 1, parameters, _ :: rest =>
    let (parameter, rest) := takeParameter rest
    parseParameters fuel (addParameter parameters parameter) rest

def parseMimeType (input : Text) : Option MimeType :=
  let input := strip isHttpWhitespace input
  let kind := input.takeWhile (· ≠ '/')
  match input.dropWhile (· ≠ '/') with
  | [] => none
  | _ :: rest =>
    let subtype := trimHttpWsEnd (rest.takeWhile (· ≠ ';'))
    let rest := rest.dropWhile (· ≠ ';')
    if isHttpToken kind && isHttpToken subtype then some {
      essence := Text.toAsciiLowercase kind ++ '/' :: Text.toAsciiLowercase subtype
      parameters := parseParameters rest.length [] rest }
    else none

def parseSerializedMimeType (input : Text) : Text :=
  ((parseMimeType input).map MimeType.serialize).getD []

/-! ### Extracting -/

/-- What `extract_mime_type` has found so far. -/
structure Extraction where
  mimeType : Option MimeType
  essence : Option Text
  charset : Option Text

def charsetOf (parameters : List (Text × Text)) : Option Text :=
  (parameters.find? fun parameter => parameter.1 = "charset".toList).map Prod.snd

/-- A charset of an earlier member with the same essence carries over. -/
def withCharset (parsed : MimeType) (charset : Option Text) : MimeType :=
  match charset with
  | some charset =>
    if parsed.parameters.any fun parameter => parameter.1 = "charset".toList then parsed
    else { parsed with parameters := parsed.parameters ++ [("charset".toList, charset)] }
  | none => parsed

def extractMember (found : Extraction) (member : Text) : Extraction :=
  match parseMimeType member with
  | none => found
  | some parsed =>
    if parsed.essence = "*/*".toList then found
    else if found.essence = some parsed.essence then
      { found with mimeType := some (withCharset parsed found.charset) }
    else {
      mimeType := some parsed
      essence := some parsed.essence
      charset := charsetOf parsed.parameters }

def extractMimeType (value : Text) : Option Text :=
  ((splitHeaderValue value).foldl extractMember ⟨none, none, none⟩).mimeType.map MimeType.serialize

variable {c d : Char} {value : Text}

/-! ### Characters -/

/-- A token character is a visible ASCII one. -/
theorem isHttpTokenChar_range (hc : isHttpTokenChar c = true) :
    0x20 < c.toNat ∧ c.toNat < 0x7F := by
  simp only [isHttpTokenChar, Text.isAsciiDigit, Bool.or_eq_true, Bool.and_eq_true,
    decide_eq_true_eq] at hc
  rcases hc with ((⟨hlow, hhigh⟩ | ⟨hlow, hhigh⟩) | ⟨hlow, hhigh⟩) | hmark
  · have hlow : 48 ≤ c.toNat := hlow
    have hhigh : c.toNat ≤ 57 := hhigh
    omega
  · have hlow : 97 ≤ c.toNat := hlow
    have hhigh : c.toNat ≤ 122 := hhigh
    omega
  · have hlow : 65 ≤ c.toNat := hlow
    have hhigh : c.toNat ≤ 90 := hhigh
    omega
  · have hall : ∀ d ∈ "!#$%&'*+-.^_`|~".toList, 0x20 < d.toNat ∧ d.toNat < 0x7F := by
      simp
    exact hall c hmark

theorem ne_of_isHttpTokenChar (hc : isHttpTokenChar c = true) (hd : isHttpTokenChar d = false) :
    c ≠ d := by
  rintro rfl
  rw [hc] at hd
  cases hd

theorem not_isHttpWhitespace_of_token (hc : isHttpTokenChar c = true) :
    isHttpWhitespace c = false := by
  have hne : ∀ {d : Char}, isHttpTokenChar d = false → c ≠ d := ne_of_isHttpTokenChar hc
  simp [isHttpWhitespace, hne (d := '\t') (by decide), hne (d := '\n') (by decide),
    hne (d := '\r') (by decide), hne (d := ' ') (by decide)]

theorem isHttpQuotedStringToken_of_token (hc : isHttpTokenChar c = true) :
    isHttpQuotedStringToken c = true := by
  have hrange := isHttpTokenChar_range hc
  simp only [isHttpQuotedStringToken, Bool.or_eq_true, Bool.and_eq_true, decide_eq_true_eq]
  omega

theorem isHttpTokenChar_asciiLower_of_upper (hc : Text.isAsciiUpper c = true) :
    isHttpTokenChar (Text.asciiLower c) = true := by
  have hall : ∀ n < 26, isHttpTokenChar (Char.ofNat (65 + n + 32)) = true := by decide
  rw [Text.asciiLower, if_pos hc]
  simp only [Text.isAsciiUpper, Bool.and_eq_true, decide_eq_true_eq] at hc
  have hlow : 65 ≤ c.toNat := hc.1
  have hhigh : c.toNat ≤ 90 := hc.2
  have hcode := hall (c.toNat - 65) (by omega)
  rwa [Nat.add_sub_cancel' hlow] at hcode

theorem isHttpTokenChar_asciiLower (hc : isHttpTokenChar c = true) :
    isHttpTokenChar (Text.asciiLower c) = true := by
  by_cases hupper : Text.isAsciiUpper c = true
  · exact isHttpTokenChar_asciiLower_of_upper hupper
  · rwa [Text.asciiLower, if_neg hupper]

theorem isHttpQuotedStringToken_asciiLower (hc : isHttpQuotedStringToken c = true) :
    isHttpQuotedStringToken (Text.asciiLower c) = true := by
  by_cases hupper : Text.isAsciiUpper c = true
  · exact isHttpQuotedStringToken_of_token (isHttpTokenChar_asciiLower_of_upper hupper)
  · rwa [Text.asciiLower, if_neg hupper]

/-! ### Tokens -/

theorem isHttpToken_iff :
    isHttpToken value = true ↔ value ≠ [] ∧ ∀ c ∈ value, isHttpTokenChar c = true := by
  simp [isHttpToken]

theorem isHttpToken_toAsciiLowercase (h : isHttpToken value = true) :
    isHttpToken (Text.toAsciiLowercase value) = true := by
  obtain ⟨hne, hall⟩ := isHttpToken_iff.1 h
  refine isHttpToken_iff.2 ⟨fun hnil => hne (List.map_eq_nil_iff.1 hnil), fun c hc => ?_⟩
  obtain ⟨d, hd, rfl⟩ := List.mem_map.1 hc
  exact isHttpTokenChar_asciiLower (hall d hd)

/-- A token has no blank at its ends, so trimming leaves it as it is. -/
theorem trimHttpWsEnd_token (h : isHttpToken value = true) : trimHttpWsEnd value = value := by
  have hall := (isHttpToken_iff.1 h).2
  rw [trimHttpWsEnd, dropWhile_eq_self, List.reverse_reverse]
  intro c hc
  exact not_isHttpWhitespace_of_token (hall c (List.mem_reverse.1 (List.mem_of_mem_head? hc)))

/-- A token goes on until a character that ends it. -/
theorem token_append (p : Char → Bool) (rest : Text) (h : isHttpToken value = true)
    (hp : ∀ c, isHttpTokenChar c = true → p c = true) (hrest : ∀ c ∈ rest.head?, p c = false) :
    (value ++ rest).takeWhile p = value ∧ (value ++ rest).dropWhile p = rest :=
  takeWhile_append (fun c hc => hp c ((isHttpToken_iff.1 h).2 c hc)) hrest

theorem exists_cons_of_token (h : isHttpToken value = true) :
    ∃ c rest, value = c :: rest ∧ isHttpTokenChar c = true := by
  obtain ⟨hne, hall⟩ := isHttpToken_iff.1 h
  obtain ⟨c, rest, rfl⟩ := List.exists_cons_of_ne_nil hne
  exact ⟨c, rest, rfl, hall c List.mem_cons_self⟩

/-! ### What is parsed is well formed -/

structure WellFormedParameter (parameter : Text × Text) : Prop where
  token : isHttpToken parameter.1 = true
  lower : Text.toAsciiLowercase parameter.1 = parameter.1
  quotable : parameter.2.all isHttpQuotedStringToken = true
  charset : parameter.1 = "charset".toList → Text.toAsciiLowercase parameter.2 = parameter.2

structure WellFormedParameters (parameters : List (Text × Text)) : Prop where
  each : ∀ parameter ∈ parameters, WellFormedParameter parameter
  nodup : (parameters.map Prod.fst).Nodup

structure MimeType.WellFormed (mime : MimeType) : Prop where
  essence : ∃ kind subtype, mime.essence = kind ++ '/' :: subtype ∧
    (isHttpToken kind = true ∧ Text.toAsciiLowercase kind = kind) ∧
    isHttpToken subtype = true ∧ Text.toAsciiLowercase subtype = subtype
  parameters : WellFormedParameters mime.parameters

theorem WellFormedParameters.nil : WellFormedParameters [] where
  each _ hmem := by cases hmem
  nodup := List.nodup_nil

variable {parameters : List (Text × Text)} {parameter : Text × Text}

theorem WellFormedParameters.append
    (h : WellFormedParameters parameters) (hparameter : WellFormedParameter parameter)
    (hnew : parameters.any (fun existing => existing.1 = parameter.1) = false) :
    WellFormedParameters (parameters ++ [parameter]) where
  each existing hexisting := by
    rcases List.mem_append.1 hexisting with hold | hlast
    · exact h.each existing hold
    · rw [List.mem_singleton.1 hlast]
      exact hparameter
  nodup := by
    rw [List.map_append, List.nodup_append]
    refine ⟨h.nodup, List.pairwise_singleton _ _, fun name hname name' hname' => ?_⟩
    obtain ⟨existing, hexisting, rfl⟩ := List.mem_map.1 hname
    rw [List.map_singleton, List.mem_singleton] at hname'
    rw [hname']
    have hdiffer := List.any_eq_false.1 hnew existing hexisting
    simpa using hdiffer

theorem all_toAsciiLowercase (h : value.all isHttpQuotedStringToken = true) :
    (Text.toAsciiLowercase value).all isHttpQuotedStringToken = true := by
  refine List.all_eq_true.2 fun c hc => ?_
  obtain ⟨d, hd, rfl⟩ := List.mem_map.1 hc
  exact isHttpQuotedStringToken_asciiLower (List.all_eq_true.1 h d hd)

/-- A parameter is added only when it is well formed and its name is new. -/
theorem wellFormedParameters_addParameter
    (h : WellFormedParameters parameters) {parameter : Option (Text × Text)}
    (hlower : ∀ found ∈ parameter, Text.toAsciiLowercase found.1 = found.1) :
    WellFormedParameters (addParameter parameters parameter) := by
  unfold addParameter
  split
  · exact h
  · rename_i name value
    split
    · rename_i hcond
      simp only [Bool.and_eq_true, Bool.not_eq_true'] at hcond
      obtain ⟨⟨htoken, hquotable⟩, hnew⟩ := hcond
      refine h.append ⟨htoken, hlower (name, value) rfl, ?_, fun hcharset => ?_⟩ hnew
      · show (if name = "charset".toList then Text.toAsciiLowercase value else value).all
          isHttpQuotedStringToken = true
        split
        · exact all_toAsciiLowercase hquotable
        · exact hquotable
      · have hname : name = "charset".toList := hcharset
        rw [if_pos hname, Text.toAsciiLowercase_idem]
    · exact h

theorem toAsciiLowercase_takeParameter (rest : Text) :
    ∀ found ∈ (takeParameter rest).1, Text.toAsciiLowercase found.1 = found.1 := by
  intro found hfound
  dsimp only [takeParameter] at hfound
  split at hfound
  · cases hfound
  · split at hfound
    · cases hfound
    · obtain ⟨value, -, rfl⟩ := Option.map_eq_some_iff.1 hfound
      exact Text.toAsciiLowercase_idem _

theorem wellFormedParameters_parseParameters (fuel : Nat)
    (h : WellFormedParameters parameters) (rest : Text) :
    WellFormedParameters (parseParameters fuel parameters rest) := by
  induction fuel generalizing parameters rest with
  | zero => cases rest <;> exact h
  | succ fuel ih =>
    cases rest with
    | nil => exact h
    | cons c rest =>
      exact ih (wellFormedParameters_addParameter h (toAsciiLowercase_takeParameter rest)) _

variable {mime : MimeType}

theorem wellFormed_of_parseMimeType {input : Text}
    (h : parseMimeType input = some mime) : mime.WellFormed := by
  dsimp only [parseMimeType] at h
  split at h
  · cases h
  · split at h
    · rename_i htokens
      obtain ⟨hkind, hsubtype⟩ := Bool.and_eq_true_iff.1 htokens
      obtain rfl := Option.some.inj h
      exact {
        essence := ⟨_, _, rfl,
          ⟨isHttpToken_toAsciiLowercase hkind, Text.toAsciiLowercase_idem _⟩,
          isHttpToken_toAsciiLowercase hsubtype, Text.toAsciiLowercase_idem _⟩
        parameters := wellFormedParameters_parseParameters _ .nil _ }
    · cases h

/-! ### A serialization is read back -/

theorem collectHttpQuotedString_escapeValue (value rest : Text) :
    collectHttpQuotedString (escapeValue value ++ '"' :: rest) = (value, rest) := by
  induction value with
  | nil =>
    show collectHttpQuotedString ('"' :: rest) = ([], rest)
    unfold collectHttpQuotedString
    exact if_pos rfl
  | cons c value ih =>
    have hcons : escapeValue (c :: value) =
        (if c = '"' ∨ c = '\\' then ['\\', c] else [c]) ++ escapeValue value :=
      List.flatMap_cons
    rw [hcons, List.append_assoc]
    split
    · simp [collectHttpQuotedString, ih]
    · rename_i hplain
      rw [not_or] at hplain
      rw [List.singleton_append]
      unfold collectHttpQuotedString
      rw [if_neg hplain.1, if_neg hplain.2, ih]

/-- What follows a parameter: the next one, or nothing. -/
def Follows (rest : Text) : Prop := ∀ c ∈ rest.head?, c = ';'

theorem Follows.dropWhile {rest : Text} (h : Follows rest) :
    rest.dropWhile (· ≠ ';') = rest :=
  dropWhile_eq_self fun c hc => by simp [h c hc]

theorem follows_flatMap (parameters : List (Text × Text)) :
    Follows (parameters.flatMap serializeParameter) := by
  intro c hc
  cases parameters with
  | nil => cases hc
  | cons parameter parameters => exact (Option.some.inj hc).symm

theorem takeValue_serializeValue (value : Text) {rest : Text} (hrest : Follows rest) :
    takeValue (serializeValue value ++ rest) = (some value, rest) := by
  unfold serializeValue
  split
  · rw [List.cons_append, List.append_assoc, takeValue, if_pos rfl]
    simp only [List.singleton_append, collectHttpQuotedString_escapeValue, hrest.dropWhile]
  · rename_i hplain
    rw [not_or, Bool.not_eq_false] at hplain
    obtain ⟨hne, htoken⟩ := hplain
    obtain ⟨htake, hdrop⟩ := token_append (· ≠ ';') rest htoken
      (fun c hc => by simpa using ne_of_isHttpTokenChar hc (by decide)) fun c hc => by
        simp [hrest c hc]
    obtain ⟨c, tail, rfl, hc⟩ := exists_cons_of_token htoken
    rw [List.cons_append] at htake hdrop ⊢
    rw [takeValue, if_neg (ne_of_isHttpTokenChar hc (by decide))]
    simp only [htake, hdrop, trimHttpWsEnd_token htoken, if_neg hne]

theorem takeParameter_serialize (h : WellFormedParameter parameter)
    {rest : Text} (hrest : Follows rest) :
    takeParameter (parameter.1 ++ '=' :: (serializeValue parameter.2 ++ rest)) =
      (some parameter, rest) := by
  obtain ⟨htake, hdrop⟩ := token_append (fun c => c ≠ ';' && c ≠ '=')
    ('=' :: (serializeValue parameter.2 ++ rest)) h.token
    (fun c hc => by
      simp [ne_of_isHttpTokenChar hc (d := ';') (by decide),
        ne_of_isHttpTokenChar hc (d := '=') (by decide)])
    (fun c hc => by simp [← Option.some.inj hc])
  obtain ⟨c, name, hname, hc⟩ := exists_cons_of_token h.token
  have hblank : (parameter.1 ++ '=' :: (serializeValue parameter.2 ++ rest)).dropWhile
      isHttpWhitespace = parameter.1 ++ '=' :: (serializeValue parameter.2 ++ rest) := by
    refine dropWhile_eq_self fun d hd => ?_
    rw [hname, List.cons_append, List.head?_cons, Option.mem_some_iff] at hd
    exact hd ▸ not_isHttpWhitespace_of_token hc
  simp only [takeParameter, hblank, htake, hdrop, h.lower, takeValue_serializeValue _ hrest]
  rfl

theorem addParameter_wellFormed
    (h : WellFormedParameter parameter) (hnew : parameter.1 ∉ parameters.map Prod.fst) :
    addParameter parameters (some parameter) = parameters ++ [parameter] := by
  have hany : parameters.any (fun existing => existing.1 = parameter.1) = false := by
    refine List.any_eq_false.2 fun existing hexisting hname => hnew ?_
    rw [← of_decide_eq_true hname]
    exact List.mem_map_of_mem hexisting
  obtain ⟨name, value⟩ := parameter
  have hcond : (isHttpToken name && value.all isHttpQuotedStringToken &&
      !parameters.any (fun existing => existing.1 = name)) = true := by
    rw [h.token, h.quotable, hany]
    rfl
  rw [addParameter, if_pos hcond]
  by_cases hcharset : name = "charset".toList
  · have hvalue : Text.toAsciiLowercase value = value := h.charset hcharset
    simp only [hvalue, ite_self]
  · simp only [if_neg hcharset]

theorem parseParameters_serialize {fuel : Nat} (parameters : List (Text × Text))
    {rest : List (Text × Text)} (h : WellFormedParameters (parameters ++ rest))
    (hfuel : (rest.flatMap serializeParameter).length ≤ fuel) :
    parseParameters fuel parameters (rest.flatMap serializeParameter) = parameters ++ rest := by
  induction rest generalizing fuel parameters with
  | nil => cases fuel <;> simp [parseParameters]
  | cons parameter rest ih =>
    have hwell : WellFormedParameter parameter :=
      h.each parameter (List.mem_append_right _ List.mem_cons_self)
    have hnew : parameter.1 ∉ parameters.map Prod.fst := by
      intro hmem
      have hnodup := h.nodup
      rw [List.map_append, List.nodup_append] at hnodup
      exact hnodup.2.2 _ hmem _ (List.mem_map_of_mem List.mem_cons_self) rfl
    have hparts : (parameter :: rest).flatMap serializeParameter =
        ';' :: (parameter.1 ++ '=' :: (serializeValue parameter.2 ++
          rest.flatMap serializeParameter)) := by
      simp [serializeParameter]
    rw [hparts] at hfuel ⊢
    obtain ⟨fuel, rfl⟩ := Nat.exists_eq_succ_of_ne_zero (n := fuel) (by
      rintro rfl
      simp at hfuel)
    rw [parseParameters, takeParameter_serialize hwell (follows_flatMap rest)]
    simp only [addParameter_wellFormed hwell hnew]
    rw [ih _ (by rwa [← List.append_cons]) ?_, ← List.append_cons]
    simp only [List.length_cons, List.length_append] at hfuel
    omega

/-- A text with no blank at either end. -/
structure Trimmed (text : Text) : Prop where
  head : ∀ c ∈ text.head?, isHttpWhitespace c = false
  last : ∀ c ∈ text.getLast?, isHttpWhitespace c = false

theorem Trimmed.nil : Trimmed [] where
  head _ hc := by cases hc
  last _ hc := by cases hc

theorem Trimmed.append {a b : Text} (ha : Trimmed a) (hb : Trimmed b) : Trimmed (a ++ b) where
  head c hc := by
    rw [List.head?_append, Option.mem_def, Option.or_eq_some_iff] at hc
    rcases hc with hc | ⟨-, hc⟩
    · exact ha.head c hc
    · exact hb.head c hc
  last c hc := by
    rw [List.getLast?_append, Option.mem_def, Option.or_eq_some_iff] at hc
    rcases hc with hc | ⟨-, hc⟩
    · exact hb.last c hc
    · exact ha.last c hc

theorem Trimmed.singleton (hc : isHttpWhitespace c = false) : Trimmed [c] where
  head d hd := by
    rw [← Option.some.inj hd]
    exact hc
  last d hd := by
    rw [← Option.some.inj hd]
    exact hc

/-- Between two texts with no blank at either end there is only an inside. -/
theorem Trimmed.between {a b : Text} (ha : Trimmed a) (hb : Trimmed b) (hne : a ≠ [])
    (hne' : b ≠ []) (text : Text) : Trimmed (a ++ text ++ b) where
  head c hc := by
    obtain ⟨d, a, rfl⟩ := List.exists_cons_of_ne_nil hne
    exact ha.head c hc
  last c hc := by
    rw [List.getLast?_append, Option.mem_def, Option.or_eq_some_iff] at hc
    rcases hc with hc | ⟨hnone, -⟩
    · exact hb.last c hc
    · exact absurd (List.getLast?_eq_none_iff.1 hnone) hne'

theorem Trimmed.of_token (h : isHttpToken value = true) : Trimmed value where
  head c hc := not_isHttpWhitespace_of_token ((isHttpToken_iff.1 h).2 c (List.mem_of_mem_head? hc))
  last c hc :=
    not_isHttpWhitespace_of_token ((isHttpToken_iff.1 h).2 c (List.mem_of_mem_getLast? hc))

theorem Trimmed.strip {p : Char → Bool} (h : Trimmed value)
    (hp : ∀ c, isHttpWhitespace c = false → p c = false) : Lib.strip p value = value := by
  rw [Lib.strip, dropWhile_eq_self fun c hc => hp c (h.head c hc), dropWhile_eq_self,
    List.reverse_reverse]
  intro c hc
  rw [List.head?_reverse] at hc
  exact hp c (h.last c hc)

theorem trimmed_serializeValue (value : Text) : Trimmed (serializeValue value) := by
  have hquote : Trimmed ['"'] := .singleton (by decide)
  unfold serializeValue
  split
  · exact hquote.between hquote (List.cons_ne_nil _ _) (List.cons_ne_nil _ _) _
  · rename_i hplain
    rw [not_or, Bool.not_eq_false] at hplain
    exact .of_token hplain.2

theorem trimmed_flatMap_serializeParameter
    (h : ∀ parameter ∈ parameters, WellFormedParameter parameter) :
    Trimmed (parameters.flatMap serializeParameter) := by
  induction parameters with
  | nil => exact .nil
  | cons parameter parameters ih =>
    have hname : Trimmed parameter.1 := .of_token (h parameter List.mem_cons_self).token
    have hone : Trimmed (serializeParameter parameter) := by
      have hparts : serializeParameter parameter =
          [';'] ++ parameter.1 ++ ['='] ++ serializeValue parameter.2 := by
        simp [serializeParameter]
      rw [hparts]
      exact (((Trimmed.singleton (by decide)).append hname).append
        (.singleton (by decide))).append (trimmed_serializeValue _)
    exact hone.append (ih fun existing hexisting => h existing (List.mem_cons_of_mem _ hexisting))

theorem MimeType.WellFormed.trimmed (h : mime.WellFormed) :
    Trimmed mime.serialize := by
  obtain ⟨kind, subtype, hessence, ⟨hkind, -⟩, hsubtype, -⟩ := h.essence
  have hslash : Trimmed ['/'] := .singleton (by decide)
  rw [MimeType.serialize, hessence, List.append_cons, List.append_assoc kind]
  exact ((Trimmed.of_token hkind).append (hslash.append (.of_token hsubtype))).append
    (trimmed_flatMap_serializeParameter h.parameters.each)

theorem parseMimeType_serialize (h : mime.WellFormed) :
    parseMimeType mime.serialize = some mime := by
  have hstrip : strip isHttpWhitespace mime.serialize = mime.serialize :=
    h.trimmed.strip fun c hc => hc
  obtain ⟨kind, subtype, hessence, ⟨hkind, hlowkind⟩, hsubtype, hlowsubtype⟩ := h.essence
  obtain ⟨essence, parameters⟩ := mime
  obtain rfl : essence = kind ++ '/' :: subtype := hessence
  have hserialize : MimeType.serialize ⟨kind ++ '/' :: subtype, parameters⟩ =
      kind ++ '/' :: (subtype ++ parameters.flatMap serializeParameter) := by
    simp [MimeType.serialize]
  have hfollows : Follows (parameters.flatMap serializeParameter) := follows_flatMap parameters
  obtain ⟨htakekind, hdropkind⟩ := token_append (· ≠ '/')
    ('/' :: (subtype ++ parameters.flatMap serializeParameter)) hkind
    (fun c hc => by simpa using ne_of_isHttpTokenChar hc (by decide))
    (fun c hc => by simp [← Option.some.inj hc])
  obtain ⟨htake, hdrop⟩ := token_append (· ≠ ';')
    (parameters.flatMap serializeParameter) hsubtype
    (fun c hc => by simpa using ne_of_isHttpTokenChar hc (by decide))
    (fun c hc => by simp [hfollows c hc])
  have hparameters : parseParameters (parameters.flatMap serializeParameter).length []
      (parameters.flatMap serializeParameter) = parameters :=
    parseParameters_serialize [] h.parameters le_rfl
  rw [hserialize] at hstrip ⊢
  simp only [parseMimeType, hstrip, htakekind, hdropkind, htake, hdrop,
    trimHttpWsEnd_token hsubtype, hkind, hsubtype, hlowkind, hlowsubtype, hparameters]
  rfl

/-! ### Extracting from a serialization -/

/-- The splitter goes over such a text as part of one member. -/
def Unsplit (text : Text) : Prop := ∀ member rest,
  splitHeaderValueFrom .plain member (text ++ rest) =
    splitHeaderValueFrom .plain (member ++ text) rest

theorem Unsplit.append {a b : Text} (ha : Unsplit a) (hb : Unsplit b) : Unsplit (a ++ b) := by
  intro member rest
  rw [List.append_assoc, ha, hb, List.append_assoc]

theorem Unsplit.singleton (hcomma : c ≠ ',') (hquote : c ≠ '"') : Unsplit [c] := by
  intro member rest
  rw [List.singleton_append, splitHeaderValueFrom, if_neg hcomma, if_neg hquote]

theorem Unsplit.of_forall {text : Text} (h : ∀ c ∈ text, Unsplit [c]) : Unsplit text := by
  induction text with
  | nil =>
    intro member rest
    rw [List.nil_append, List.append_nil]
  | cons c text ih =>
    exact (h c List.mem_cons_self).append (b := text)
      (ih fun d hd => h d (List.mem_cons_of_mem c hd))

theorem Unsplit.of_token (h : isHttpToken value = true) : Unsplit value := by
  refine .of_forall fun c hc => ?_
  have htoken := (isHttpToken_iff.1 h).2 c hc
  exact .singleton (ne_of_isHttpTokenChar htoken (by decide))
    (ne_of_isHttpTokenChar htoken (by decide))

/-- Inside a quoted string, each escape is taken with the character it stands for. -/
theorem splitHeaderValueFrom_escapeValue (value member rest : Text) :
    splitHeaderValueFrom .quoted member (escapeValue value ++ '"' :: rest) =
      splitHeaderValueFrom .plain (member ++ (escapeValue value ++ ['"'])) rest := by
  induction value generalizing member with
  | nil =>
    show splitHeaderValueFrom .quoted member ('"' :: rest) = _
    rw [splitHeaderValueFrom, if_pos rfl]
    rfl
  | cons c value ih =>
    have hcons : escapeValue (c :: value) =
        (if c = '"' ∨ c = '\\' then ['\\', c] else [c]) ++ escapeValue value :=
      List.flatMap_cons
    rw [hcons]
    split
    · simp [splitHeaderValueFrom, ih]
    · rename_i hplain
      rw [not_or] at hplain
      simp [splitHeaderValueFrom, ih, hplain.1, hplain.2]

theorem unsplit_serializeValue (value : Text) : Unsplit (serializeValue value) := by
  unfold serializeValue
  split
  · intro member rest
    rw [List.cons_append, List.append_assoc, splitHeaderValueFrom, if_neg (by decide), if_pos rfl,
      List.singleton_append, splitHeaderValueFrom_escapeValue, List.append_assoc]
    rfl
  · rename_i hplain
    rw [not_or, Bool.not_eq_false] at hplain
    exact .of_token hplain.2

theorem unsplit_flatMap_serializeParameter
    (h : ∀ parameter ∈ parameters, WellFormedParameter parameter) :
    Unsplit (parameters.flatMap serializeParameter) := by
  induction parameters with
  | nil => exact .of_forall fun d hd => by cases hd
  | cons parameter parameters ih =>
    have hname : Unsplit parameter.1 := .of_token (h parameter List.mem_cons_self).token
    have hone : Unsplit (serializeParameter parameter) := by
      have hparts : serializeParameter parameter =
          [';'] ++ parameter.1 ++ ['='] ++ serializeValue parameter.2 := by
        simp [serializeParameter]
      rw [hparts]
      exact (((Unsplit.singleton (by decide) (by decide)).append hname).append
        (.singleton (by decide) (by decide))).append (unsplit_serializeValue _)
    exact hone.append (ih fun existing hexisting => h existing (List.mem_cons_of_mem _ hexisting))

theorem MimeType.WellFormed.unsplit (h : mime.WellFormed) :
    Unsplit mime.serialize := by
  obtain ⟨kind, subtype, hessence, ⟨hkind, -⟩, hsubtype, -⟩ := h.essence
  have hslash : Unsplit ['/'] := .singleton (by decide) (by decide)
  rw [MimeType.serialize, hessence, List.append_cons, List.append_assoc kind]
  exact ((Unsplit.of_token hkind).append (hslash.append (.of_token hsubtype))).append
    (unsplit_flatMap_serializeParameter h.parameters.each)

theorem splitHeaderValue_serialize (h : mime.WellFormed) :
    splitHeaderValue mime.serialize = [mime.serialize] := by
  have hsplit := h.unsplit [] []
  rw [List.append_nil, List.nil_append] at hsplit
  have htrim : trimHttp mime.serialize = mime.serialize := by
    refine h.trimmed.strip (p := fun c => c = ' ' || c = '\t') fun c hc => ?_
    simp only [isHttpWhitespace, Bool.or_eq_false_iff, decide_eq_false_iff_not] at hc
    simp [hc]
  rw [splitHeaderValue, hsplit, splitHeaderValueFrom, htrim]

/-- What `extract_mime_type` keeps: a well-formed MIME type that is not `*/*`, and a charset that
may be appended to one. -/
structure Extraction.Kept (found : Extraction) : Prop where
  mimeType : ∀ mime ∈ found.mimeType, mime.WellFormed ∧ mime.essence ≠ "*/*".toList
  charset : ∀ charset ∈ found.charset, WellFormedParameter ("charset".toList, charset)

theorem wellFormed_withCharset {parsed : MimeType} (h : parsed.WellFormed) {charset : Option Text}
    (hcharset : ∀ value ∈ charset, WellFormedParameter ("charset".toList, value)) :
    (withCharset parsed charset).WellFormed ∧
      (withCharset parsed charset).essence = parsed.essence := by
  unfold withCharset
  split
  · rename_i value
    split
    · exact ⟨h, rfl⟩
    · rename_i hnew
      refine ⟨⟨h.essence, h.parameters.append (hcharset value rfl) ?_⟩, rfl⟩
      exact Bool.eq_false_iff.2 hnew
  · exact ⟨h, rfl⟩

theorem wellFormed_charsetOf {parsed : MimeType} (h : parsed.WellFormed) :
    ∀ value ∈ charsetOf parsed.parameters, WellFormedParameter ("charset".toList, value) := by
  intro value hvalue
  obtain ⟨⟨name, value⟩, hfind, rfl⟩ := Option.map_eq_some_iff.1 hvalue
  have hname : name = "charset".toList :=
    of_decide_eq_true (List.find?_some hfind :)
  rw [← hname]
  exact h.parameters.each _ (List.mem_of_find?_eq_some hfind)

theorem Extraction.Kept.member {found : Extraction} (h : found.Kept) (member : Text) :
    (extractMember found member).Kept := by
  unfold extractMember
  split
  · exact h
  · rename_i parsed hparsed
    have hwell := wellFormed_of_parseMimeType hparsed
    split_ifs with hany hsame
    · exact h
    · obtain ⟨hwith, hessence⟩ := wellFormed_withCharset hwell h.charset
      refine ⟨fun mime hmime => ?_, h.charset⟩
      rw [← Option.some.inj hmime, hessence]
      exact ⟨hwith, hany⟩
    · refine ⟨fun mime hmime => ?_, wellFormed_charsetOf hwell⟩
      rw [← Option.some.inj hmime]
      exact ⟨hwell, hany⟩

theorem extractMimeType_serialize (h : mime.WellFormed)
    (hany : mime.essence ≠ "*/*".toList) :
    extractMimeType mime.serialize = some mime.serialize := by
  have hmember : extractMember ⟨none, none, none⟩ mime.serialize =
      ⟨some mime, some mime.essence, charsetOf mime.parameters⟩ := by
    unfold extractMember
    rw [parseMimeType_serialize h]
    exact (if_neg hany).trans (if_neg (Option.some_ne_none _).symm)
  rw [extractMimeType, splitHeaderValue_serialize h, List.foldl_cons, hmember]
  rfl

theorem exists_wellFormed_of_extractMimeType {header extracted : Text}
    (h : extractMimeType header = some extracted) :
    ∃ mime : MimeType, mime.serialize = extracted ∧ mime.WellFormed ∧
      mime.essence ≠ "*/*".toList := by
  obtain ⟨mime, hmime, hserialize⟩ := Option.map_eq_some_iff.1 h
  have hkept : ∀ members : List Text, ∀ found : Extraction, found.Kept →
      (members.foldl extractMember found).Kept := by
    intro members
    induction members with
    | nil => exact fun found hfound => hfound
    | cons member members ih => exact fun found hfound => ih _ (hfound.member member)
  have hnone : Extraction.Kept ⟨none, none, none⟩ :=
    { mimeType := fun _ hmime => by cases hmime
      charset := fun _ hcharset => by cases hcharset }
  exact ⟨mime, hserialize, (hkept _ _ hnone).mimeType mime hmime⟩

/-- Parsing a serialized MIME type gives back its essence and its parameters, so serializing what is
parsed is idempotent, and so is extracting a MIME type from a header value. -/
theorem mime_types_round_trip :
    (∀ input mime, parseMimeType input = some mime →
      parseMimeType mime.serialize = some mime) ∧
    (∀ input, parseSerializedMimeType (parseSerializedMimeType input) =
      parseSerializedMimeType input) ∧
    ∀ header extracted, extractMimeType header = some extracted →
      extractMimeType extracted = some extracted := by
  have hround : ∀ input mime, parseMimeType input = some mime →
      parseMimeType mime.serialize = some mime :=
    fun input mime h => parseMimeType_serialize (wellFormed_of_parseMimeType h)
  refine ⟨hround, fun input => ?_, fun header extracted h => ?_⟩
  · unfold parseSerializedMimeType
    cases hparse : parseMimeType input with
    | none => decide
    | some mime =>
      have hmime : ((some mime).map MimeType.serialize).getD [] = mime.serialize := rfl
      rw [hmime, hround input mime hparse, hmime]
  · obtain ⟨mime, rfl, hwell, hany⟩ := exists_wellFormed_of_extractMimeType h
    exact extractMimeType_serialize hwell hany

theorem mime_types_round_trip_comma :
    parseMimeType (MimeType.serialize ⟨"a/b".toList, [("c".toList, ",".toList)]⟩) =
      some ⟨"a/b".toList, [("c".toList, ",".toList)]⟩ := by
  have hparse : parseMimeType "a/b;c=\",\"x".toList =
      some ⟨"a/b".toList, [("c".toList, ",".toList)]⟩ := by decide +kernel
  exact mime_types_round_trip.1 _ _ hparse

end TinyBrowser.Sniff
