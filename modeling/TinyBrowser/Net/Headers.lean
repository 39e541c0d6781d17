import TinyBrowser.Crates
import TinyBrowser.Lib.Bytes

/-!
# Header fields and methods

`crates/net/src/protocol.rs`: combining and splitting header values, the ordered `HeaderMap`, and
the method type. `Http` holds the three parsers of the `http` crate. A `HeaderName` is lowercase by
construction, so names compare by equality.
-/

namespace TinyBrowser
open Lib

/-- Which texts the `http` crate accepts: `HeaderName::from_bytes`, `HeaderValue::from_bytes`,
`HeaderValue::from_str` and `Method::from_bytes`. -/
structure Http where
  isHeaderName : Text → Bool
  isHeaderValue : Bytes → Bool
  isHeaderText : Text → Bool
  isMethod : Text → Bool

/-! ### Combining and splitting values -/

def httpBlank (c : Char) : Bool := c = ' ' || c = '\t'

/-- `trim_matches([' ', '\t'])`. -/
def trimHttp (s : Text) : Text :=
  ((s.dropWhile httpBlank).reverse.dropWhile httpBlank).reverse

def joinTexts (sep : Text) (values : List Text) : Text := (values.intersperse sep).flatten

def combinedHeader (values : List Text) : Option Text :=
  let values := values.map trimHttp
  if values = [] then none else some (joinTexts ", ".toList values)

abbrev HeaderList := List (Text × Text)

def combinedHeaderIn (headers : HeaderList) (name : Text) : Option Text :=
  combinedHeader ((headers.filter fun field => Text.eqIgnoreAsciiCase field.1 name).map Prod.snd)

/-- Where `split_header_value` stands: outside a quoted string, inside one, or right after a
backslash inside one. -/
inductive Quoting where
  | plain
  | quoted
  | escaped

def splitHeaderValueFrom : Quoting → Text → Text → List Text
  | _, member, [] => [trimHttp member]
  | .plain, member, c :: cs =>
    if c = ',' then trimHttp member :: splitHeaderValueFrom .plain [] cs
    else if c = '"' then splitHeaderValueFrom .quoted (member ++ [c]) cs
    else splitHeaderValueFrom .plain (member ++ [c]) cs
  | .quoted, member, c :: cs =>
    if c = '"' then splitHeaderValueFrom .plain (member ++ [c]) cs
    else if c = '\\' then splitHeaderValueFrom .escaped (member ++ [c]) cs
    else splitHeaderValueFrom .quoted (member ++ [c]) cs
  | .escaped, member, c :: cs => splitHeaderValueFrom .quoted (member ++ [c]) cs

def splitHeaderValue (value : Text) : List Text := splitHeaderValueFrom .plain [] value

example : splitHeaderValue "x/x;test=\"h,i\",y/y".toList =
    ["x/x;test=\"h,i\"".toList, "y/y".toList] := by decide

def isomorphicEncode (value : Text) : Option Bytes :=
  value.mapM fun c => if c.toNat < 256 then some (UInt8.ofNat c.toNat) else none

def isomorphicDecode (bytes : Bytes) : Text := bytes.map fun b => Char.ofNat b.toNat

def getDecodeSplitDecoded (headers : HeaderList) (name : Text) : Option (List Text) :=
  (combinedHeaderIn headers name).map splitHeaderValue

/-! ### Header maps -/

structure HeaderName where
  text : Text
  lower : Text.toAsciiLowercase text = text
deriving DecidableEq

/-- The crate keeps names in lower case. -/
def HeaderName.fromBytes (http : Http) (name : Text) : Option HeaderName :=
  if http.isHeaderName name then some ⟨name.toAsciiLowercase, Text.toAsciiLowercase_idem name⟩ else none

/-- Whether the name is `name`, in whatever case `name` is written. -/
def HeaderName.is (field : HeaderName) (name : Text) : Bool := Text.eqIgnoreAsciiCase field.text name

theorem HeaderName.is_iff {field name : HeaderName} : field.is name.text = true ↔ field = name := by
  obtain ⟨f, hf⟩ := field
  obtain ⟨n, hn⟩ := name
  simp [HeaderName.is, Text.eqIgnoreAsciiCase, hf, hn]

namespace HeaderName

def accept : HeaderName := ⟨"accept".toList, by decide⟩
def acceptLanguage : HeaderName := ⟨"accept-language".toList, by decide⟩
def accessControlRequestHeaders : HeaderName := ⟨"access-control-request-headers".toList, by decide⟩
def accessControlRequestMethod : HeaderName := ⟨"access-control-request-method".toList, by decide⟩
def authorization : HeaderName := ⟨"authorization".toList, by decide⟩
def contentLength : HeaderName := ⟨"content-length".toList, by decide⟩
def cookie : HeaderName := ⟨"cookie".toList, by decide⟩
def origin : HeaderName := ⟨"origin".toList, by decide⟩
def referer : HeaderName := ⟨"referer".toList, by decide⟩
def secChUa : HeaderName := ⟨"sec-ch-ua".toList, by decide⟩
def secChUaMobile : HeaderName := ⟨"sec-ch-ua-mobile".toList, by decide⟩
def secChUaPlatform : HeaderName := ⟨"sec-ch-ua-platform".toList, by decide⟩
def secFetchSite : HeaderName := ⟨"sec-fetch-site".toList, by decide⟩
def userAgent : HeaderName := ⟨"user-agent".toList, by decide⟩

end HeaderName

/-- `HeaderValue::to_str`: a value of visible ASCII characters and tabs as text. -/
def headerToStr (value : Bytes) : Option Text :=
  if value.all fun b => (0x20 ≤ b && b < 0x7F) || b = 0x09 then some (isomorphicDecode value)
  else none

/-- `HeaderValue::from_str`. -/
def headerFromStr (http : Http) (value : Text) : Option Bytes :=
  if http.isHeaderText value then some (Bytes.ofText value) else none

structure HeaderMap where
  entries : List (HeaderName × Bytes)
deriving DecidableEq

namespace HeaderMap

def new : HeaderMap := ⟨[]⟩

def append (map : HeaderMap) (name : HeaderName) (value : Bytes) : HeaderMap :=
  ⟨map.entries ++ [(name, value)]⟩

/-- Appends a field; `none` for a name or a value the `http` crate refuses. -/
def insert (http : Http) (map : HeaderMap) (name : Text) (value : Bytes) : Option HeaderMap :=
  match HeaderName.fromBytes http name with
  | none => none
  | some name => if http.isHeaderValue value then some (map.append name value) else none

/-- Replaces the first field of the name and drops the later ones. -/
def replaceFirst (name : HeaderName) (value : Bytes) :
    List (HeaderName × Bytes) → List (HeaderName × Bytes)
  | [] => []
  | field :: rest =>
    if field.1 = name then (name, value) :: rest.filter fun field => field.1 ≠ name
    else field :: replaceFirst name value rest

def set (map : HeaderMap) (name : HeaderName) (value : Bytes) : HeaderMap :=
  if map.entries.any fun field => field.1 = name then ⟨replaceFirst name value map.entries⟩
  else map.append name value

def remove (map : HeaderMap) (name : Text) : HeaderMap :=
  ⟨map.entries.filter fun field => !field.1.is name⟩

def getAll (map : HeaderMap) (name : Text) : List Bytes :=
  (map.entries.filter fun field => field.1.is name).map Prod.snd

def get (map : HeaderMap) (name : Text) : Option Bytes := (map.getAll name).head?

def value (map : HeaderMap) (name : Text) : Option Bytes :=
  (map.entries.find? fun field => field.1.is name).map Prod.snd

theorem value_eq_get (map : HeaderMap) (name : Text) : map.value name = map.get name := by
  unfold value get getAll
  rw [List.head?_map, List.head?_filter]

theorem getAll_append (map : HeaderMap) (name : HeaderName) (value : Bytes) (other : Text) :
    (map.append name value).getAll other =
      map.getAll other ++ if name.is other then [value] else [] := by
  unfold getAll append
  rw [List.filter_append, List.map_append]
  by_cases h : name.is other <;> simp [h]

theorem getAll_append_of_not {name : HeaderName} {other : Text} (map : HeaderMap) (value : Bytes)
    (h : name.is other = false) : (map.append name value).getAll other = map.getAll other := by
  rw [getAll_append, h]
  exact List.append_nil _

theorem getAll_remove (map : HeaderMap) (name : Text) : (map.remove name).getAll name = [] := by
  unfold getAll remove
  rw [List.filter_filter]
  simp

theorem getAll_remove_of_not {name other : Text} (map : HeaderMap)
    (h : Text.eqIgnoreAsciiCase name other = false) :
    (map.remove name).getAll other = map.getAll other := by
  unfold getAll remove
  rw [List.filter_filter]
  congr 1
  refine List.filter_congr fun field _ => ?_
  by_cases hname : field.1.is name = true
  · have hother : field.1.is other = false := by
      unfold HeaderName.is Text.eqIgnoreAsciiCase at *
      simp only [decide_eq_true_eq, decide_eq_false_iff_not] at *
      rw [hname]
      exact h
    rw [hother, Bool.false_and]
  · simp [hname]

theorem getAll_remove_nil {map : HeaderMap} {other : Text} (name : Text)
    (h : map.getAll other = []) : (map.remove name).getAll other = [] := by
  unfold getAll remove at *
  rw [List.map_eq_nil_iff, List.filter_eq_nil_iff] at *
  intro field hfield
  exact h field (List.mem_of_mem_filter hfield)

theorem getAll_replaceFirst {name : HeaderName} (value : Bytes) (other : Text)
    (h : name.is other = false) (entries : List (HeaderName × Bytes)) :
    ((replaceFirst name value entries).filter fun field => field.1.is other) =
      entries.filter fun field => field.1.is other := by
  induction entries with
  | nil => rfl
  | cons field rest ih =>
    unfold replaceFirst
    by_cases hfield : field.1 = name
    · rw [if_pos hfield, List.filter_cons_of_neg (by simp [h]),
        List.filter_cons_of_neg (by simp [hfield, h]), List.filter_filter]
      refine List.filter_congr fun field' _ => ?_
      by_cases hname : field'.1 = name
      · simp [hname, h]
      · simp [hname]
    · rw [if_neg hfield]
      simp only [List.filter_cons, ih]

theorem getAll_set_of_not {name : HeaderName} {other : Text} (map : HeaderMap) (value : Bytes)
    (h : name.is other = false) : (map.set name value).getAll other = map.getAll other := by
  unfold set
  split_ifs
  · exact congrArg _ (getAll_replaceFirst value other h map.entries)
  · exact getAll_append_of_not map value h

theorem filter_replaceFirst (name : HeaderName) (value : Bytes)
    (entries : List (HeaderName × Bytes)) (h : entries.any fun field => field.1 = name) :
    (replaceFirst name value entries).filter (fun field => field.1 = name) = [(name, value)] := by
  induction entries with
  | nil => cases h
  | cons field rest ih =>
    unfold replaceFirst
    by_cases hfield : field.1 = name
    · rw [if_pos hfield, List.filter_cons_of_pos (by simp), List.filter_filter]
      simp
    · rw [if_neg hfield, List.filter_cons_of_neg (by simp [hfield])]
      refine ih ?_
      rw [List.any_cons, decide_eq_false hfield, Bool.false_or] at h
      exact h

/-- After `set` the field has one value, the new one. -/
theorem getAll_set (map : HeaderMap) (name : HeaderName) (value : Bytes) :
    (map.set name value).getAll name.text = [value] := by
  have his : (fun field : HeaderName × Bytes => field.1.is name.text) =
      fun field => decide (field.1 = name) := by
    funext field
    exact Bool.eq_iff_iff.2 (HeaderName.is_iff.trans decide_eq_true_iff.symm)
  unfold set getAll
  rw [his]
  split_ifs with h
  · rw [filter_replaceFirst name value map.entries h]
    rfl
  · have hnone : map.entries.filter (fun field => field.1 = name) = [] := by
      rw [List.filter_eq_nil_iff]
      intro field hfield hname
      exact h (List.any_eq_true.2 ⟨field, hfield, hname⟩)
    unfold append
    rw [List.filter_append, hnone]
    simp

/-- The fields with their names as texts. -/
def iter (map : HeaderMap) : List (Text × Bytes) := map.entries.map fun field => (field.1.text, field.2)

end HeaderMap

/-- Joins every value of `name` byte by byte, then decodes and splits. -/
def getDecodeSplit (headers : HeaderMap) (name : Text) : Option (List Text) :=
  let values := headers.getAll name
  if values = [] then none
  else some (splitHeaderValue (isomorphicDecode
    (values.intersperse (Bytes.ofText ", ".toList)).flatten))

/-! ### Methods -/

structure Method where
  token : Text
deriving DecidableEq, Repr

namespace Method

def get : Method := ⟨"GET".toList⟩
def head : Method := ⟨"HEAD".toList⟩
def post : Method := ⟨"POST".toList⟩
def put : Method := ⟨"PUT".toList⟩
def delete : Method := ⟨"DELETE".toList⟩
def options : Method := ⟨"OPTIONS".toList⟩
def patch : Method := ⟨"PATCH".toList⟩

/-- The six standard methods in any case, any other token as it is written. -/
def parse (http : Http) (token : Text) : Option Method :=
  match [get, head, post, put, delete, options].find? fun method =>
      Text.eqIgnoreAsciiCase token method.token with
  | some method => some method
  | none => if http.isMethod token then some ⟨token⟩ else none

def isSafe (method : Method) : Bool :=
  method = get || method = head || method = options || method = ⟨"TRACE".toList⟩

def isIdempotent (method : Method) : Bool :=
  method = put || method = delete || method.isSafe

def isForbidden (method : Method) : Bool :=
  ["CONNECT".toList, "TRACE".toList, "TRACK".toList].any fun forbidden =>
    Text.eqIgnoreAsciiCase method.token forbidden

end Method

end TinyBrowser
