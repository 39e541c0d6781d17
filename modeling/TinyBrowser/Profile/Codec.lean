import TinyBrowser.Lib.Io
import TinyBrowser.Lib.Lines
import TinyBrowser.Storage.Local

/-!
# The profile's files

Both files start with a version line and hold one record a line, its fields separated by tabs.
Text fields are escaped so that they hold neither tabs nor line ends; times are written in
milliseconds. What was written is read back, with times cut down to the millisecond
(`parseCookies_encodeCookies`, `parseLocalStorage_encodeLocalStorage`).
-/

namespace TinyBrowser
open Lib

namespace Profile

def cookiesVersion : Text := "tinybrowser-cookies-v1".toList

def localStorageVersion : Text := "tinybrowser-localstorage-v1".toList

def invalidData (message : String) : IoError := ⟨.invalidData, message⟩

def escapeChar (ch : Char) : Text :=
  if ch = '\\' then ['\\', '\\']
  else if ch = '\t' then ['\\', 't']
  else if ch = '\n' then ['\\', 'n']
  else if ch = '\r' then ['\\', 'r']
  else [ch]

/-- What `push_escaped` appends for `value`. -/
def escaped (value : Text) : Text := value.flatMap escapeChar

/-- What a backslash and the character after it stand for. -/
def unescapeChar (other : Char) : Text :=
  if other = 't' then ['\t']
  else if other = 'n' then ['\n']
  else if other = 'r' then ['\r']
  else if other = '\\' then ['\\']
  else ['\\', other]

/-- A backslash at the end stands for itself. -/
def unescape : Text → Text
  | [] => []
  | [ch] => [ch]
  | ch :: other :: rest =>
    if ch ≠ '\\' then ch :: unescape (other :: rest) else unescapeChar other ++ unescape rest

example : unescape "a\\tb\\x\\".toList = "a\tb\\x\\".toList := by decide

theorem unescape_cons {ch : Char} (h : ch ≠ '\\') (rest : Text) :
    unescape (ch :: rest) = ch :: unescape rest := by
  cases rest with
  | nil => rfl
  | cons other rest => rw [unescape, if_pos h]

theorem unescape_pair (other : Char) (rest : Text) :
    unescape ('\\' :: other :: rest) = unescapeChar other ++ unescape rest := by
  rw [unescape, if_neg (by simp)]

theorem unescape_escaped (value : Text) : unescape (escaped value) = value := by
  induction value with
  | nil => rfl
  | cons ch value ih =>
    have hcons : escaped (ch :: value) = escapeChar ch ++ escaped value := List.flatMap_cons
    rw [hcons, escapeChar]
    split_ifs with hslash htab hline hreturn
    · rw [List.cons_append, List.singleton_append, unescape_pair, ih, hslash]; rfl
    · rw [List.cons_append, List.singleton_append, unescape_pair, ih, htab]; rfl
    · rw [List.cons_append, List.singleton_append, unescape_pair, ih, hline]; rfl
    · rw [List.cons_append, List.singleton_append, unescape_pair, ih, hreturn]; rfl
    · rw [List.singleton_append, unescape_cons hslash, ih]

/-- The characters that end a field or a line. -/
def isSeparator (ch : Char) : Bool := ch = '\t' || ch = '\n' || ch = '\r'

/-- No field holds a character that ends one. -/
def Plain (field : Text) : Prop := ∀ ch ∈ field, isSeparator ch = false

instance (field : Text) : Decidable (Plain field) :=
  List.decidableBAll (fun ch => isSeparator ch = false) field

theorem plain_escaped (value : Text) : Plain (escaped value) := by
  intro ch hch
  obtain ⟨c, -, hc⟩ := List.mem_flatMap.mp hch
  unfold escapeChar at hc
  split_ifs at hc with hslash htab hline hreturn
  · rcases List.mem_pair.mp hc with rfl | rfl <;> rfl
  · rcases List.mem_pair.mp hc with rfl | rfl <;> rfl
  · rcases List.mem_pair.mp hc with rfl | rfl <;> rfl
  · rcases List.mem_pair.mp hc with rfl | rfl <;> rfl
  · rw [List.mem_singleton.mp hc]
    simp [isSeparator, htab, hline, hreturn]

theorem plain_ofInt (n : Int) : Plain (Text.ofInt n) := by
  intro ch hch
  by_contra hsep
  rw [Bool.not_eq_false] at hsep
  simp only [isSeparator, Bool.or_eq_true, decide_eq_true_eq] at hsep
  rcases hsep with (rfl | rfl) | rfl
  · exact Text.not_mem_ofInt (by decide) (by decide) n hch
  · exact Text.not_mem_ofInt (by decide) (by decide) n hch
  · exact Text.not_mem_ofInt (by decide) (by decide) n hch

theorem Plain.not_mem {field : Text} (h : Plain field) {ch : Char} (hch : isSeparator ch = true) :
    ch ∉ field := by
  intro hmem
  rw [h ch hmem] at hch
  cases hch

/-- Fields with a tab between them. -/
def joinFields : List Text → Text
  | [] => []
  | [field] => field
  | field :: fields => field ++ '\t' :: joinFields fields

theorem split_joinFields {fields : List Text} (hne : fields ≠ []) (h : ∀ field ∈ fields, Plain field) :
    Text.split '\t' (joinFields fields) = fields := by
  induction fields with
  | nil => exact absurd rfl hne
  | cons field fields ih =>
    have hfield : '\t' ∉ field := (h field List.mem_cons_self).not_mem rfl
    cases fields with
    | nil => exact Text.split_of_not_mem hfield
    | cons field' fields =>
      rw [joinFields, Text.split_append _ hfield,
        ih (List.cons_ne_nil _ _) fun f hf => h f (List.mem_cons_of_mem _ hf)]
      exact List.cons_ne_nil _ _

theorem not_mem_joinFields {fields : List Text} (h : ∀ field ∈ fields, Plain field) {ch : Char}
    (hch : isSeparator ch = true) (htab : ch ≠ '\t') : ch ∉ joinFields fields := by
  induction fields with
  | nil => exact List.not_mem_nil
  | cons field fields ih =>
    have hfield := (h field List.mem_cons_self).not_mem hch
    cases fields with
    | nil => exact hfield
    | cons field' fields =>
      rw [joinFields, List.mem_append, List.mem_cons, not_or, not_or]
      · exact ⟨hfield, htab, ih fun f hf => h f (List.mem_cons_of_mem _ hf)⟩
      · exact List.cons_ne_nil _ _

/-! ### Files of records -/

def encodeRecords {α : Type} (version : Text) (fields : α → List Text) (records : List α) : Text :=
  version ++ '\n' :: records.flatMap fun record => joinFields (fields record) ++ ['\n']

/-- The records of the lines; blank lines are skipped. -/
def parseLines {α : Type} (parse : List Text → Except IoError α) :
    List Text → Except IoError (List α)
  | [] => .ok []
  | line :: lines =>
    if line = [] then parseLines parse lines
    else do
      let record ← parse (Text.split '\t' line)
      let records ← parseLines parse lines
      .ok (record :: records)

def parseRecords {α : Type} (empty unsupported : String) (version : Text)
    (parse : List Text → Except IoError α) (text : Text) : Except IoError (List α) :=
  match Text.lines text with
  | [] => .error (invalidData empty)
  | first :: lines =>
    if first ≠ version then .error (invalidData unsupported) else parseLines parse lines

/-- A file comes apart into the records whose fields it was made of. -/
theorem parseRecords_encodeRecords {α : Type} {empty unsupported : String} {version : Text}
    {fields : α → List Text} {parse : List Text → Except IoError α} {records : List α} {read : α → α}
    (hversion : Plain version) (hlong : ∀ record, 2 ≤ (fields record).length)
    (hplain : ∀ record, ∀ field ∈ fields record, Plain field)
    (hparse : ∀ record ∈ records, parse (fields record) = .ok (read record)) :
    parseRecords empty unsupported version parse (encodeRecords version fields records) =
      .ok (records.map read) := by
  have hlines : Text.lines (encodeRecords version fields records) =
      version :: records.map fun record => joinFields (fields record) := by
    rw [encodeRecords, Text.lines_append _ (hversion.not_mem rfl) (hversion.not_mem rfl),
      Text.lines_flatMap]
    intro record _
    exact ⟨not_mem_joinFields (hplain record) rfl (by decide),
      not_mem_joinFields (hplain record) rfl (by decide)⟩
  have hne : ∀ record, fields record ≠ [] := fun record hnil => by
    have := hlong record
    rw [hnil] at this
    exact absurd this (by decide)
  have hblank : ∀ record, joinFields (fields record) ≠ [] := by
    intro record hnil
    have hsplit := split_joinFields (hne record) (hplain record)
    rw [hnil] at hsplit
    have := hlong record
    rw [← hsplit] at this
    exact absurd this (by decide)
  rw [parseRecords, hlines]
  dsimp only
  rw [if_neg (by simp)]
  clear hlines
  induction records with
  | nil => rfl
  | cons record records ih =>
    rw [List.map_cons, parseLines, if_neg (hblank record),
      split_joinFields (hne record) (hplain record), hparse record List.mem_cons_self,
      ih fun r hr => hparse r (List.mem_cons_of_mem _ hr)]
    rfl

/-! ### Times -/

def nanosPerMilli : Int := 1000000

def i64Max : Int := 2 ^ 63 - 1

def unixMillis (time : SystemTime) : Int :=
  if 0 ≤ time then min (time / nanosPerMilli) i64Max else -(min (-time / nanosPerMilli) i64Max)

/-- Every `i64` of milliseconds is a time the platform can represent. -/
def millisToTime (millis : Int) : SystemTime :=
  let duration : Int := millis.natAbs * nanosPerMilli
  if 0 ≤ millis then duration else -duration

/-- A time at or after the epoch whose milliseconds fit in an `i64`. -/
def Fits (time : SystemTime) : Prop := 0 ≤ time ∧ time / nanosPerMilli ≤ i64Max

def truncateMillis (time : SystemTime) : SystemTime := time / nanosPerMilli * nanosPerMilli

variable {time : SystemTime}

theorem unixMillis_of_fits (h : Fits time) :
    unixMillis time = time / nanosPerMilli := by
  rw [unixMillis, if_pos h.1, min_eq_left h.2]

theorem unixMillis_nonneg (h : Fits time) : 0 ≤ unixMillis time := by
  rw [unixMillis_of_fits h]
  exact Int.ediv_nonneg h.1 (by decide)

theorem millisToTime_unixMillis (h : Fits time) :
    millisToTime (unixMillis time) = truncateMillis time := by
  have hpos := unixMillis_nonneg h
  rw [millisToTime, if_pos hpos, Int.natAbs_of_nonneg hpos, unixMillis_of_fits h, truncateMillis]

def optionalMillis (time : Option SystemTime) : Text :=
  time.elim [] fun expiry => Text.ofInt (unixMillis expiry)

def parseI64 (raw : Text) : Except IoError Int :=
  match Text.parseI64 raw with
  | some n => .ok n
  | none => .error (invalidData "cookie timestamp")

def parseOptionalMillis (raw : Text) : Except IoError (Option SystemTime) :=
  if raw = [] then .ok none
  else do
    let millis ← parseI64 raw
    .ok (some (millisToTime millis))

theorem parseI64_unixMillis (h : Fits time) :
    parseI64 (Text.ofInt (unixMillis time)) = .ok (unixMillis time) := by
  have hlow := unixMillis_nonneg h
  have hhigh : unixMillis time ≤ i64Max := by rw [unixMillis_of_fits h]; exact h.2
  have hmax : i64Max = 2 ^ 63 - 1 := rfl
  rw [parseI64, Text.parseI64_ofInt (by omega) (by omega)]

theorem parseOptionalMillis_optionalMillis {time : Option SystemTime} (h : ∀ t ∈ time, Fits t) :
    parseOptionalMillis (optionalMillis time) = .ok (time.map truncateMillis) := by
  cases time with
  | none => rfl
  | some time =>
    have hfits := h time rfl
    rw [optionalMillis, Option.elim_some, parseOptionalMillis, if_neg (Text.ofInt_ne_nil _),
      parseI64_unixMillis hfits]
    show Except.ok (some (millisToTime (unixMillis time))) = _
    rw [millisToTime_unixMillis hfits]
    rfl

theorem plain_optionalMillis (time : Option SystemTime) : Plain (optionalMillis time) := by
  cases time with
  | none => exact fun ch hch => absurd hch List.not_mem_nil
  | some time => exact plain_ofInt _

/-! ### Cookies -/

def flag (b : Bool) : Text := if b then ['1'] else ['0']

def parseFlag (raw : Text) : Except IoError Bool :=
  if raw = "0".toList then .ok false
  else if raw = "1".toList then .ok true
  else .error (invalidData "cookie flag")

def sameSiteToken : CookieSameSite → Text
  | .strict => "Strict".toList
  | .lax => "Lax".toList
  | .none => "None".toList
  | .default => "Default".toList

def parseSameSite (raw : Text) : Except IoError CookieSameSite :=
  if raw = "Strict".toList then .ok .strict
  else if raw = "Lax".toList then .ok .lax
  else if raw = "None".toList then .ok .none
  else if raw = "Default".toList then .ok .default
  else .error (invalidData "cookie same-site")

@[simp] theorem parseFlag_flag (b : Bool) : parseFlag (flag b) = .ok b := by
  cases b <;> rfl

@[simp] theorem parseSameSite_sameSiteToken (value : CookieSameSite) :
    parseSameSite (sameSiteToken value) = .ok value := by
  cases value <;> rfl

theorem plain_flag (b : Bool) : Plain (flag b) := by
  cases b <;> decide

theorem plain_sameSiteToken (value : CookieSameSite) : Plain (sameSiteToken value) := by
  cases value <;> decide

def cookieFields (record : CookieRecord) : List Text :=
  [escaped record.name, escaped record.value, optionalMillis record.expiry, escaped record.domain,
    escaped record.path, Text.ofInt (unixMillis record.created),
    Text.ofInt (unixMillis record.lastAccess), flag record.hostOnly, flag record.secure,
    flag record.httpOnly, sameSiteToken record.sameSite]

def encodeCookies (records : List CookieRecord) : Text :=
  encodeRecords cookiesVersion cookieFields records

/-- The next field of a line, or an error that names the one that is missing. -/
def nextField (missing : String) (parts : List Text) (name : String) :
    Except IoError (Text × List Text) :=
  match parts with
  | [] => .error (invalidData (missing ++ name))
  | field :: parts => .ok (field, parts)

def parseCookieLine (parts : List Text) : Except IoError CookieRecord := do
  let next := nextField "missing cookie field "
  let (name, parts) ← next parts "name"
  let (value, parts) ← next parts "value"
  let (expiry, parts) ← next parts "expiry"
  let expiry ← parseOptionalMillis expiry
  let (domain, parts) ← next parts "domain"
  let (path, parts) ← next parts "path"
  let (created, parts) ← next parts "created"
  let created ← parseI64 created
  let (lastAccess, parts) ← next parts "last_access"
  let lastAccess ← parseI64 lastAccess
  let (hostOnly, parts) ← next parts "host_only"
  let hostOnly ← parseFlag hostOnly
  let (secure, parts) ← next parts "secure"
  let secure ← parseFlag secure
  let (httpOnly, parts) ← next parts "http_only"
  let httpOnly ← parseFlag httpOnly
  let (sameSite, _) ← next parts "same_site"
  let sameSite ← parseSameSite sameSite
  .ok {
    name := unescape name
    value := unescape value
    expiry
    domain := unescape domain
    path := unescape path
    created := millisToTime created
    lastAccess := millisToTime lastAccess
    hostOnly
    secure
    httpOnly
    sameSite
  }

def parseCookies (text : Text) : Except IoError (List CookieRecord) :=
  parseRecords "empty cookie file" "unsupported cookie file" cookiesVersion parseCookieLine text

/-- Every time of the record is at or after the epoch and fits in an `i64` of milliseconds. -/
structure TimesFit (record : CookieRecord) : Prop where
  expiry : ∀ time ∈ record.expiry, Fits time
  created : Fits record.created
  lastAccess : Fits record.lastAccess

/-- The record with its times cut down to the millisecond. -/
def truncated (record : CookieRecord) : CookieRecord :=
  { record with
    expiry := record.expiry.map truncateMillis
    created := truncateMillis record.created
    lastAccess := truncateMillis record.lastAccess }

theorem plain_cookieFields (record : CookieRecord) : ∀ field ∈ cookieFields record, Plain field := by
  simp only [cookieFields, List.forall_mem_cons, List.not_mem_nil, false_imp_iff, implies_true,
    plain_escaped, plain_optionalMillis, plain_ofInt, plain_flag, plain_sameSiteToken, and_self]

theorem parseCookieLine_cookieFields {record : CookieRecord} (h : TimesFit record) :
    parseCookieLine (cookieFields record) = .ok (truncated record) := by
  simp only [parseCookieLine, cookieFields, nextField, bind, Except.bind,
    parseOptionalMillis_optionalMillis h.expiry, parseI64_unixMillis h.created,
    parseI64_unixMillis h.lastAccess, parseFlag_flag, parseSameSite_sameSiteToken,
    unescape_escaped, millisToTime_unixMillis h.created, millisToTime_unixMillis h.lastAccess]
  rfl

theorem parseCookies_encodeCookies {records : List CookieRecord}
    (h : ∀ record ∈ records, TimesFit record) :
    parseCookies (encodeCookies records) = .ok (records.map truncated) :=
  parseRecords_encodeRecords (by decide) (fun _ => show 2 ≤ 11 by decide) plain_cookieFields
    fun record hmem => parseCookieLine_cookieFields (h record hmem)

/-! ### Local storage -/

def rowFields (row : Row) : List Text := [escaped row.1, escaped row.2.1, escaped row.2.2]

def encodeLocalStorage (rows : List Row) : Text := encodeRecords localStorageVersion rowFields rows

def parseRow (parts : List Text) : Except IoError Row := do
  let next := nextField "missing local storage field "
  let (origin, parts) ← next parts "origin"
  let (key, parts) ← next parts "key"
  let (value, _) ← next parts "value"
  .ok (unescape origin, unescape key, unescape value)

def parseLocalStorage (text : Text) : Except IoError (List Row) :=
  parseRecords "empty local storage file" "unsupported local storage file" localStorageVersion
    parseRow text

theorem parseRow_rowFields (row : Row) : parseRow (rowFields row) = .ok row := by
  simp only [parseRow, rowFields, nextField, bind, Except.bind, unescape_escaped]

theorem parseLocalStorage_encodeLocalStorage (rows : List Row) :
    parseLocalStorage (encodeLocalStorage rows) = .ok rows := by
  have hplain : ∀ row : Row, ∀ field ∈ rowFields row, Plain field := by
    intro row field hfield
    rw [rowFields] at hfield
    simp only [List.mem_cons, List.not_mem_nil, or_false] at hfield
    rcases hfield with rfl | rfl | rfl <;> exact plain_escaped _
  have h : parseLocalStorage (encodeLocalStorage rows) = .ok (rows.map id) :=
    parseRecords_encodeRecords (by decide) (fun _ => show 2 ≤ 3 by decide) hplain
      fun row _ => parseRow_rowFields row
  rwa [List.map_id] at h

/-! ### The profile -/

/-- Cookies come back with their times cut down to the millisecond, rows of local storage come back
as they are, and a local storage is, origin by origin and key by key, what importing its export
into an empty one gives. -/
theorem profile_round_trip (x : NetCrates) (storage : LocalStorage)
    (hkeys : ∀ key ∈ storage.areas.keys, StorageKey.parse x (key.toText x) = some key) :
    (∀ records : List CookieRecord, (∀ record ∈ records, TimesFit record) →
      parseCookies (encodeCookies records) = .ok (records.map truncated)) ∧
    (∀ rows : List Row, parseLocalStorage (encodeLocalStorage rows) = .ok rows) ∧
    ∀ (origin : StorageKey) (key : Text),
      (LocalStorage.default.importRows x (storage.exportRows x)).get origin key =
        storage.get origin key :=
  ⟨fun _ h => parseCookies_encodeCookies h, parseLocalStorage_encodeLocalStorage,
    LocalStorage.get_importRows_exportRows hkeys⟩

/-- A URL parser that knows one origin by its serialization. -/
def sampleCrates : NetCrates :=
  { NetCrates.sample with
    toCrates := { Crates.sample with
      urlParse := fun s => if s = "https://example.com".toList then some Url.sample else none } }

def sampleKey : StorageKey := ⟨Url.sample.origin, rfl⟩

def sampleStorage : LocalStorage :=
  ((LocalStorage.default.set sampleKey "b\t".toList "1".toList).2.set sampleKey "a".toList []).2

theorem profile_round_trip_sample :
    (LocalStorage.default.importRows sampleCrates (sampleStorage.exportRows sampleCrates)).get
      sampleKey "b\t".toList = sampleStorage.get sampleKey "b\t".toList :=
  (profile_round_trip sampleCrates sampleStorage (by decide)).2.2 sampleKey "b\t".toList

end Profile
end TinyBrowser
