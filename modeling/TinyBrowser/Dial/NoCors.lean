import TinyBrowser.Dial.Basic
import TinyBrowser.Lib.Joined

/-!
# What a page's `no-cors` request carries

`outboundRequest` admits each content type and each field of a page's `no-cors` request on its own,
while the header map keeps every occurrence of a name and the receiver reads them joined with `", "`.
The joined value is as harmless as its parts when the occurrences stay within 128 bytes together and,
for the content type, the first one ends its essence with a `;` (`Combinable`).
-/

namespace TinyBrowser
open Lib

/-- Between two occurrences of one field. -/
def headerSeparator : Bytes := Bytes.ofText ", ".toList

/-- Every value of the field in one. -/
def HeaderMap.combined (map : HeaderMap) (name : Text) : Option Bytes :=
  let values := map.getAll name
  if values = [] then none else some (List.intercalate headerSeparator values)

namespace Cors

def noCorsNames : List Text :=
  ["accept".toList, "accept-language".toList, "content-language".toList, "content-type".toList]

def formTypes : List Text :=
  ["application/x-www-form-urlencoded".toList, "multipart/form-data".toList, "text/plain".toList]

def isLanguageByte (b : UInt8) : Bool :=
  isAsciiAlphanumeric b || b ∈ Bytes.ofText " *,-.;=".toList

/-- What a value of each of the four fields is made of, its length apart. -/
def noCorsGrammar (name : Text) (value : Bytes) : Bool :=
  if name = "accept".toList then !containsUnsafeByte value
  else if name = "content-type".toList then
    !containsUnsafeByte value && mimeEssence (Bytes.toTextLossy value) ∈ formTypes
  else value.all isLanguageByte

theorem noCorsGrammar_contentType (value : Bytes) :
    noCorsGrammar "content-type".toList value =
      (!containsUnsafeByte value && mimeEssence (Bytes.toTextLossy value) ∈ formTypes) := by
  rw [noCorsGrammar, if_neg (by decide), if_pos rfl]

/-! ### The grammar of joined values -/

theorem headerSeparator_eq : headerSeparator = [0x2C, 0x20] := by decide

theorem forall_mem_headerSeparator {P : UInt8 → Prop} (hcomma : P 0x2C) (hspace : P 0x20) :
    ∀ b ∈ headerSeparator, P b := by
  rw [headerSeparator_eq]
  exact List.forall_mem_cons.2 ⟨hcomma, List.forall_mem_singleton.2 hspace⟩

theorem isNoCorsSafelistedRequestHeader_iff {name : Text} {value : Bytes} :
    isNoCorsSafelistedRequestHeader name value = true ↔
      name.toAsciiLowercase ∈ noCorsNames ∧ value.length ≤ 128 ∧
        noCorsGrammar name.toAsciiLowercase value = true := by
  unfold isNoCorsSafelistedRequestHeader isCorsSafelistedRequestHeader
  rw [Bool.and_eq_true, decide_eq_true_eq]
  refine and_congr_right fun hname => ?_
  by_cases hlen : 128 < value.length
  · simp [hlen, Nat.not_le.2 hlen]
  · rw [if_neg hlen, and_iff_right (Nat.not_lt.1 hlen)]
    generalize name.toAsciiLowercase = lower at hname ⊢
    simp only [List.mem_cons, List.not_mem_nil, or_false] at hname
    rcases hname with rfl | rfl | rfl | rfl
    · rw [if_pos rfl, noCorsGrammar, if_pos rfl]
    · rw [if_neg (by decide), if_pos (by decide), noCorsGrammar, if_neg (by decide),
        if_neg (by decide)]
      rfl
    · rw [if_neg (by decide), if_pos (by decide), noCorsGrammar, if_neg (by decide),
        if_neg (by decide)]
      rfl
    · rw [noCorsGrammar_contentType, if_neg (by decide), if_neg (by decide), if_pos rfl]
      cases containsUnsafeByte value <;> rfl

theorem isNoCorsSafelistedRequestHeader_lower (name : Text) (value : Bytes) :
    isNoCorsSafelistedRequestHeader name.toAsciiLowercase value =
      isNoCorsSafelistedRequestHeader name value := by
  unfold isNoCorsSafelistedRequestHeader isCorsSafelistedRequestHeader
  rw [Text.toAsciiLowercase_idem]

theorem containsUnsafeByte_eq_false {value : Bytes} :
    containsUnsafeByte value = false ↔ ∀ b ∈ value, isCorsUnsafeByte b = false := by
  rw [containsUnsafeByte, List.any_eq_false]
  simp only [Bool.not_eq_true]

theorem mimeEssence_append (s t : Text) : mimeEssence (s ++ ';' :: t) = mimeEssence s := by
  rw [mimeEssence, Text.head?_split_append, mimeEssence]

theorem not_mem_formTypes {s : Text} (h : ';' ∉ s) (t : Text) :
    mimeEssence (s ++ ',' :: t) ∉ formTypes := by
  have hcomma : ∀ essence ∈ formTypes, ',' ∉ essence := by decide
  have hplain : ∀ t, ';' ∉ t → mimeEssence (s ++ ',' :: t) ∉ formTypes := by
    refine fun t ht hmem => hcomma _ hmem ?_
    have hnot : ';' ∉ s ++ ',' :: t := by simp [h, ht]
    rw [mimeEssence, Text.split_of_not_mem hnot, Text.toAsciiLowercase, List.mem_map]
    exact ⟨',', Text.mem_trim (by simp) (by decide), by decide⟩
  by_cases ht : ';' ∈ t
  · obtain ⟨before, after, rfl, hbefore⟩ := List.eq_append_cons_of_mem ht
    rw [← List.cons_append, ← List.append_assoc, mimeEssence_append]
    exact hplain before hbefore
  · exact hplain t ht

/-- Of two content types joined, the essence is the first one's when a `;` ends it there, and none of
the three otherwise. -/
theorem mem_formTypes_append_iff {value : Bytes} (h : mimeEssence (Bytes.toTextLossy value) ∈ formTypes)
    (rest : Bytes) :
    mimeEssence (Bytes.toTextLossy (value ++ headerSeparator ++ rest)) ∈ formTypes ↔ 0x3B ∈ value := by
  rw [headerSeparator_eq, List.append_assoc]
  constructor
  · refine not_imp_not.1 fun hnot => ?_
    have hdecoded : ';' ∉ Bytes.toTextLossy value := fun hin =>
      hnot (Bytes.mem_of_mem_toTextLossy (by decide) (by decide) hin)
    rw [List.cons_append, Bytes.toTextLossy_append (by decide)]
    exact not_mem_formTypes hdecoded _
  · intro hsemi
    obtain ⟨before, after, rfl, -⟩ := List.eq_append_cons_of_mem hsemi
    rw [Bytes.toTextLossy_append (by decide)] at h
    rw [List.append_assoc, List.cons_append, Bytes.toTextLossy_append (by decide)]
    exact (mimeEssence_append _ _).symm ▸ (mimeEssence_append _ _) ▸ h

/-- Values of the grammar joined are of the grammar, but for content types that are joined after one
that no `;` ends. -/
theorem noCorsGrammar_intercalate_iff {name : Text} {value : Bytes} {values : List Bytes}
    (h : ∀ v ∈ value :: values, noCorsGrammar name v = true) :
    noCorsGrammar name (List.intercalate headerSeparator (value :: values)) = true ↔
      (name = "content-type".toList → values ≠ [] → 0x3B ∈ value) := by
  have hbyte : (∀ v ∈ value :: values, containsUnsafeByte v = false) →
      containsUnsafeByte (List.intercalate headerSeparator (value :: values)) = false := fun h =>
    containsUnsafeByte_eq_false.2 (forall_mem_intercalate
      (forall_mem_headerSeparator (by decide) (by decide)) fun v hv =>
        containsUnsafeByte_eq_false.1 (h v hv))
  by_cases htype : name = "content-type".toList
  · subst htype
    simp only [noCorsGrammar_contentType, Bool.and_eq_true, Bool.not_eq_true', decide_eq_true_eq] at h ⊢
    rw [and_iff_right (hbyte fun v hv => (h v hv).1), forall_true_left]
    cases values with
    | nil =>
      rw [List.intercalate_singleton]
      exact iff_of_true (h value List.mem_cons_self).2 fun hne => absurd rfl hne
    | cons second values =>
      rw [List.intercalate_cons_cons, mem_formTypes_append_iff (h value List.mem_cons_self).2]
      exact ⟨fun h _ => h, fun h => h (List.cons_ne_nil _ _)⟩
  · refine iff_of_true ?_ fun hname => absurd hname htype
    unfold noCorsGrammar at h ⊢
    by_cases haccept : name = "accept".toList
    · simp only [if_pos haccept, Bool.not_eq_true'] at h ⊢
      exact hbyte h
    · simp only [if_neg haccept, if_neg htype, List.all_eq_true] at h ⊢
      exact forall_mem_intercalate (forall_mem_headerSeparator (by decide) (by decide)) h

theorem isForbiddenRequestHeader_of_noCors (http : Http) {name : Text} {value : Bytes}
    (h : isNoCorsSafelistedRequestHeader name value = true) :
    isForbiddenRequestHeader http name value = false := by
  have hname := (isNoCorsSafelistedRequestHeader_iff.1 h).1
  unfold isForbiddenRequestHeader isForbiddenRequestHeaderName isForbiddenMethodHeader
  generalize name.toAsciiLowercase = lower at hname ⊢
  have hall : ∀ lower ∈ noCorsNames, (lower.startsWith "proxy-".toList || lower.startsWith "sec-".toList ||
      lower ∈ forbiddenRequestHeaderNames) = false ∧ lower ∉ ["x-http-method-override".toList,
        "x-http-method".toList, "x-method-override".toList] := by decide
  obtain ⟨hforbidden, hmethod⟩ := hall lower hname
  rw [show (_ || _ || _) = false from hforbidden, Bool.false_or, decide_eq_false hmethod, Bool.false_and]

end Cors

/-! ### The fields of a page -/

def HeaderName.contentType : HeaderName := ⟨"content-type".toList, by decide⟩

theorem HeaderName.text_inj {name other : HeaderName} : name.text = other.text ↔ name = other := by
  obtain ⟨text, lower⟩ := name
  obtain ⟨text', lower'⟩ := other
  simp

/-- The name in lower case. -/
def HeaderName.ofText (name : Text) : HeaderName :=
  ⟨name.toAsciiLowercase, Text.toAsciiLowercase_idem name⟩

/-- The body's type and the header list, in the order in which they are appended. -/
def DialRequest.pageFields (request : DialRequest) : HeaderList :=
  (request.contentType.map fun value => ("Content-Type".toList, value)).toList ++ request.headers

/-- The fields that pass the guard one at a time. -/
def admittedFields (fields : HeaderList) : List (HeaderName × Bytes) :=
  fields.filterMap fun field => (isomorphicEncode field.2).bind fun value =>
    if Cors.isNoCorsSafelistedRequestHeader field.1 value then some (.ofText field.1, value) else none

def DialRequest.admitted (request : DialRequest) (name : HeaderName) : List Bytes :=
  ((admittedFields request.pageFields).filter fun field => field.1 = name).map Prod.snd

theorem admittedFields_append (fields fields' : HeaderList) :
    admittedFields (fields ++ fields') = admittedFields fields ++ admittedFields fields' :=
  List.filterMap_append

section
variable {name value : Text} {encoded : Bytes}

theorem admittedFields_cons_of_pos (fields : HeaderList) (h : isomorphicEncode value = some encoded)
    (hadmitted : Cors.isNoCorsSafelistedRequestHeader name encoded = true) :
    admittedFields ((name, value) :: fields) = (.ofText name, encoded) :: admittedFields fields := by
  refine List.filterMap_cons_some ?_
  rw [h, Option.bind_some, if_pos hadmitted]

theorem admittedFields_cons_of_neg (fields : HeaderList) (h : isomorphicEncode value = some encoded)
    (hadmitted : Cors.isNoCorsSafelistedRequestHeader name encoded = false) :
    admittedFields ((name, value) :: fields) = admittedFields fields := by
  refine List.filterMap_cons_none ?_
  rw [h, Option.bind_some, if_neg (Bool.not_eq_true _ ▸ hadmitted)]

end

/-! ### What goes out -/

section
variable {http : Http} {map map' : HeaderMap}

theorem insert_entries {name : Text} {value : Bytes} (h : map.insert http name value = some map') :
    map'.entries = map.entries ++ [(.ofText name, value)] := by
  unfold HeaderMap.insert HeaderName.fromBytes at h
  split at h
  · cases h
  · rename_i field hfield
    split at hfield
    · cases hfield
      split at h
      · cases h
        rfl
      · cases h
    · cases hfield

theorem insertHeaders_entries {fields : HeaderList}
    (h : insertHeaders http .jsFetch true map fields = some map') :
    map'.entries = map.entries ++ admittedFields fields := by
  induction fields generalizing map with
  | nil =>
    cases h
    exact (List.append_nil _).symm
  | cons field fields ih =>
    obtain ⟨name, value⟩ := field
    rw [insertHeaders] at h
    obtain ⟨encoded, hencoded, h⟩ := Option.bind_eq_some_iff.1 h
    cases hadmitted : Cors.isNoCorsSafelistedRequestHeader name encoded with
    | true =>
      rw [Cors.isForbiddenRequestHeader_of_noCors http hadmitted, hadmitted] at h
      obtain ⟨inserted, hinserted, h⟩ := Option.bind_eq_some_iff.1 h
      rw [ih h, insert_entries hinserted, admittedFields_cons_of_pos fields hencoded hadmitted,
        List.append_assoc]
      rfl
    | false =>
      rw [admittedFields_cons_of_neg fields hencoded hadmitted]
      rw [hadmitted] at h
      -- forbidden or not, the field is left out
      split at h
      · exact ih h
      · exact ih h

theorem insertContentType_entries {contentType : Option Text}
    (h : insertContentType http true map contentType = some map') :
    map'.entries = map.entries ++
      admittedFields (contentType.map fun value => ("Content-Type".toList, value)).toList := by
  cases contentType with
  | none =>
    cases h
    exact (List.append_nil _).symm
  | some value =>
    rw [insertContentType] at h
    obtain ⟨encoded, hencoded, h⟩ := Option.bind_eq_some_iff.1 h
    have hname : Cors.isNoCorsSafelistedRequestHeader "Content-Type".toList encoded =
        Cors.isNoCorsSafelistedRequestHeader "content-type".toList encoded := by
      rw [← Cors.isNoCorsSafelistedRequestHeader_lower "Content-Type".toList]
      exact congrArg (fun name => Cors.isNoCorsSafelistedRequestHeader name encoded) (by decide)
    show _ = _ ++ admittedFields [("Content-Type".toList, value)]
    rw [Bool.not_true, Bool.false_or, ← hname] at h
    cases hadmitted : Cors.isNoCorsSafelistedRequestHeader "Content-Type".toList encoded with
    | true =>
      rw [if_pos hadmitted] at h
      rw [insert_entries h, admittedFields_cons_of_pos [] hencoded hadmitted]
      rfl
    | false =>
      rw [hadmitted] at h
      cases h
      rw [admittedFields_cons_of_neg [] hencoded hadmitted]
      exact (List.append_nil _).symm

end

/-- The two fields that the browser writes after the page's. -/
def browserFields : List (HeaderName × Bytes) :=
  [(.secFetchDest, Bytes.ofText "empty".toList), (.secFetchMode, Bytes.ofText "no-cors".toList)]

/-- What the guard of a page's `no-cors` request promises about the request that goes out. -/
structure Request.NoCorsGuarded (http : Http) (request : Request) : Prop where
  method : request.method = .get ∨ request.method = .head ∨ request.method = .post
  own : ∃ page, request.headers.entries = page ++ browserFields ∧
    ∀ field ∈ page, Cors.isForbiddenRequestHeader http field.1.text field.2 = false
  combined : ∀ name, name ≠ HeaderName.secFetchDest → name ≠ HeaderName.secFetchMode →
    ∀ value ∈ request.headers.combined name.text,
      Cors.isNoCorsSafelistedRequestHeader name.text value = true

/-- The occurrences of each field may be read as one value: together with the two bytes at each join
they are at most 128 bytes long, and of several content types the first holds a `;`. -/
structure DialRequest.Combinable (request : DialRequest) : Prop where
  short : ∀ name,
    ((request.admitted name).map List.length).sum + ((request.admitted name).length - 1) * 2 ≤ 128
  typed : ∀ first second rest, request.admitted .contentType = first :: second :: rest → 0x3B ∈ first

section
variable {x : NetCrates} {request : DialRequest} {initiator : Origin} {deadline : Instant}
  {sheets : Sheets} {out : Request} {cors : CorsRequest}

theorem outboundRequest_noCors (hpolicy : request.policy = .fetch cors) (hmode : cors.mode = .noCors)
    (h : outboundRequest x request initiator deadline sheets = some out) :
    Cors.isCorsSafelistedMethod out.method = true ∧
      out.headers.entries = admittedFields request.pageFields ++ browserFields := by
  have hkind : request.policy.kind = .jsFetch := by rw [hpolicy]; rfl
  have hcors : request.policy.cors.mode = .noCors := by
    rw [hpolicy]
    show cors.mode.requestMode = .noCors
    rw [hmode]
    rfl
  have hexposes : request.policy.exposesResponse = true := by rw [hpolicy]; rfl
  unfold outboundRequest at h
  simp only [hkind, hcors, hexposes, decide_true, Bool.and_true, Bool.true_and] at h
  split at h
  · cases h
  · split at h
    · cases h
    · rename_i hmethod
      obtain ⟨typed, htyped, h⟩ := Option.bind_eq_some_iff.1 h
      obtain ⟨listed, hlisted, h⟩ := Option.bind_eq_some_iff.1 h
      cases h
      refine ⟨by simpa using hmethod, ?_⟩
      show (listed.entries ++ [_]) ++ [_] = _
      rw [insertHeaders_entries hlisted, insertContentType_entries htyped, List.append_assoc,
        DialRequest.pageFields, admittedFields_append]
      rfl

theorem mem_admittedFields {fields : HeaderList} {field : HeaderName × Bytes}
    (h : field ∈ admittedFields fields) :
    Cors.isNoCorsSafelistedRequestHeader field.1.text field.2 = true := by
  obtain ⟨⟨name, value⟩, -, hfield⟩ := List.mem_filterMap.1 h
  obtain ⟨encoded, -, hfield⟩ := Option.bind_eq_some_iff.1 hfield
  split at hfield
  · rename_i hadmitted
    cases hfield
    exact (Cors.isNoCorsSafelistedRequestHeader_lower name encoded).trans hadmitted
  · cases hfield

theorem mem_admitted {name : HeaderName} {value : Bytes} (h : value ∈ request.admitted name) :
    Cors.isNoCorsSafelistedRequestHeader name.text value = true := by
  obtain ⟨field, hfield, rfl⟩ := List.mem_map.1 h
  obtain ⟨hmem, hname⟩ := List.mem_filter.1 hfield
  rw [← of_decide_eq_true hname]
  exact mem_admittedFields hmem

theorem getAll_eq_admitted {name : HeaderName}
    (h : out.headers.entries = admittedFields request.pageFields ++ browserFields)
    (hdest : name ≠ .secFetchDest) (hmode : name ≠ .secFetchMode) :
    out.headers.getAll name.text = request.admitted name := by
  have his : (fun field : HeaderName × Bytes => field.1.is name.text) =
      fun field => decide (field.1 = name) := by
    funext field
    exact Bool.eq_iff_iff.2 (HeaderName.is_iff.trans decide_eq_true_iff.symm)
  have hbrowser : browserFields.filter (fun field => decide (field.1 = name)) = [] := by
    simp [browserFields, hdest.symm, hmode.symm]
  rw [HeaderMap.getAll, h, his, List.filter_append, hbrowser, List.append_nil]
  rfl

/-- The joined value of a field passes the guard that its occurrences passed, if it is short enough
and, for a content type, ends its essence where the first occurrence does. -/
theorem safelisted_combined_iff {name : HeaderName} {value : Bytes} {values : List Bytes}
    (h : request.admitted name = value :: values) :
    Cors.isNoCorsSafelistedRequestHeader name.text
        (List.intercalate headerSeparator (value :: values)) = true ↔
      ((value :: values).map List.length).sum + values.length * 2 ≤ 128 ∧
        (name = .contentType → values ≠ [] → 0x3B ∈ value) := by
  have hguard : ∀ v ∈ value :: values, Cors.isNoCorsSafelistedRequestHeader name.text v = true := by
    rw [← h]
    exact fun v hv => mem_admitted hv
  have hgrammar : ∀ v ∈ value :: values, Cors.noCorsGrammar name.text v = true := by
    intro v hv
    have hv := (Cors.isNoCorsSafelistedRequestHeader_iff.1 (hguard v hv)).2.2
    rwa [name.lower] at hv
  have hname := (Cors.isNoCorsSafelistedRequestHeader_iff.1 (hguard value List.mem_cons_self)).1
  have htype : name.text = "content-type".toList ↔ name = .contentType :=
    @HeaderName.text_inj name .contentType
  have hseparator : headerSeparator.length = 2 := by decide
  have hlength := length_intercalate_cons headerSeparator value values
  rw [hseparator] at hlength
  rw [Cors.isNoCorsSafelistedRequestHeader_iff, and_iff_right hname, name.lower, hlength,
    Cors.noCorsGrammar_intercalate_iff hgrammar]
  refine and_congr_right fun _ => ?_
  rw [htype]

theorem ne_browserFields {name : HeaderName} (h : request.admitted name ≠ []) :
    name ≠ .secFetchDest ∧ name ≠ .secFetchMode := by
  obtain ⟨value, values, hvalues⟩ := List.exists_cons_of_ne_nil h
  have hvalue : value ∈ request.admitted name := hvalues ▸ List.mem_cons_self
  have hname := (Cors.isNoCorsSafelistedRequestHeader_iff.1 (mem_admitted hvalue)).1
  constructor
  · rintro rfl
    exact absurd hname (by decide)
  · rintro rfl
    exact absurd hname (by decide)

theorem combined_eq {name : HeaderName} {value : Bytes} {values : List Bytes}
    (h : out.headers.getAll name.text = value :: values) :
    out.headers.combined name.text = some (List.intercalate headerSeparator (value :: values)) := by
  rw [HeaderMap.combined, h]
  exact if_neg (List.cons_ne_nil _ _)

/-- The request that goes out keeps the guard's promise exactly when the occurrences of each field may
be read as one value. -/
theorem noCorsGuarded_iff (hpolicy : request.policy = .fetch cors) (hmode : cors.mode = .noCors)
    (h : outboundRequest x request initiator deadline sheets = some out) :
    out.NoCorsGuarded x.http ↔ request.Combinable := by
  obtain ⟨hmethod, hentries⟩ := outboundRequest_noCors hpolicy hmode h
  constructor
  · intro hguarded
    have hjoined : ∀ name value values, request.admitted name = value :: values →
        ((value :: values).map List.length).sum + values.length * 2 ≤ 128 ∧
          (name = .contentType → values ≠ [] → 0x3B ∈ value) := by
      intro name value values hvalues
      obtain ⟨hdest, hmode⟩ := ne_browserFields (hvalues ▸ List.cons_ne_nil value values)
      have hall := (getAll_eq_admitted hentries hdest hmode).trans hvalues
      exact (safelisted_combined_iff hvalues).1 (hguarded.combined name hdest hmode _ (combined_eq hall))
    constructor
    · intro name
      cases hvalues : request.admitted name with
      | nil => exact Nat.zero_le 128
      | cons value values => exact (hjoined name value values hvalues).1
    · intro first second rest hvalues
      exact (hjoined _ first (second :: rest) hvalues).2 rfl (List.cons_ne_nil second rest)
  · intro hcombinable
    refine ⟨?_, ⟨_, hentries, fun field hfield => ?_⟩, fun name hdest hmode value hvalue => ?_⟩
    · simpa [Cors.isCorsSafelistedMethod, or_assoc] using hmethod
    · exact Cors.isForbiddenRequestHeader_of_noCors x.http (mem_admittedFields hfield)
    · have hall := getAll_eq_admitted hentries hdest hmode
      cases hvalues : request.admitted name with
      | nil =>
        rw [HeaderMap.combined, hall, hvalues] at hvalue
        cases hvalue
      | cons first rest =>
        rw [combined_eq (hall.trans hvalues)] at hvalue
        cases hvalue
        refine (safelisted_combined_iff hvalues).2 ⟨?_, ?_⟩
        · have hshort := hcombinable.short name
          rwa [hvalues] at hshort
        · rintro rfl hne
          obtain ⟨second, rest, rfl⟩ := List.exists_cons_of_ne_nil hne
          exact hcombinable.typed first second rest hvalues

end

/-- A page's `no-cors` fetch whose body has the given type and whose list has a `Content-Type` of its
own. -/
def DialRequest.twiceTyped (type : Text) : DialRequest :=
  { DialRequest.new (.fetch ⟨.noCors, .omit, .follow⟩) Url.sample with
    contentType := some type
    headers := [("Content-Type".toList, "text/plain".toList)] }

theorem noCorsGuarded_iff_twiceTyped :
    ∃ out, outboundRequest NetCrates.sample (.twiceTyped "text/plain;charset=UTF-8".toList)
        Url.sample.origin 0 .empty = some out ∧
      (out.NoCorsGuarded NetCrates.sample.http ↔
        (DialRequest.twiceTyped "text/plain;charset=UTF-8".toList).Combinable) := by
  obtain ⟨out, hout⟩ := Option.isSome_iff_exists.1 (show (outboundRequest NetCrates.sample
    (.twiceTyped "text/plain;charset=UTF-8".toList) Url.sample.origin 0 .empty).isSome = true by
      decide)
  exact ⟨out, hout, noCorsGuarded_iff rfl rfl hout⟩

/-- Two plain content types go out as `text/plain, text/plain`, whose essence no form has. -/
theorem not_noCorsGuarded_twiceTyped :
    ¬ ∀ (x : NetCrates) (request : DialRequest) (initiator : Origin) (deadline : Instant)
      (sheets : Sheets) (cors : CorsRequest) (out : Request), request.policy = .fetch cors →
      cors.mode = .noCors → outboundRequest x request initiator deadline sheets = some out →
      out.NoCorsGuarded x.http := by
  intro hall
  obtain ⟨out, hout⟩ := Option.isSome_iff_exists.1 (show (outboundRequest NetCrates.sample
    (.twiceTyped "text/plain".toList) Url.sample.origin 0 .empty).isSome = true by decide)
  have hadmitted : (DialRequest.twiceTyped "text/plain".toList).admitted .contentType =
      [Bytes.ofText "text/plain".toList, Bytes.ofText "text/plain".toList] := by decide
  have hvalues := (getAll_eq_admitted (outboundRequest_noCors rfl rfl hout).2 (by decide)
    (by decide)).trans hadmitted
  have hguarded := (hall _ _ _ _ _ _ out rfl rfl hout).combined .contentType (by decide) (by decide) _
    (combined_eq hvalues)
  have hsemi := ((safelisted_combined_iff hadmitted).1 hguarded).2 rfl (List.cons_ne_nil _ _)
  exact absurd hsemi (by decide)

end TinyBrowser
