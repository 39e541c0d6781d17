import Mathlib.Data.Char
import Mathlib.Data.List.Infix
import Mathlib.Data.List.Lex
import Mathlib.Data.List.Sort
import Mathlib.Data.List.Destutter
import TinyBrowser.Net.Headers

/-!
# The CORS protocol

`crates/net/src/cors.rs`: the parameters of a request, the safelists for request headers, the CORS
check, preflights, and the filter on response headers.
-/

namespace TinyBrowser
open Lib

inductive RequestMode where
  | navigate
  | noCors
  | sameOrigin
  | cors
deriving DecidableEq, Repr

def RequestMode.asStr : RequestMode → Text
  | .navigate => "navigate".toList
  | .noCors => "no-cors".toList
  | .sameOrigin => "same-origin".toList
  | .cors => "cors".toList

inductive CredentialsMode where
  | omit
  | sameOrigin
  | include
deriving DecidableEq, Repr

def CredentialsMode.includes (mode : CredentialsMode) : Bool := mode = .include

inductive CrossOrigin where
  | anonymous
  | useCredentials
deriving DecidableEq, Repr

def CrossOrigin.credentials : CrossOrigin → CredentialsMode
  | .anonymous => .sameOrigin
  | .useCredentials => .include

inductive RedirectMode where
  | follow
  | error
  | manual
deriving DecidableEq, Repr

structure CorsParameters where
  mode : RequestMode
  credentials : CredentialsMode
  redirect : RedirectMode
deriving DecidableEq, Repr

structure CorsSettings where
  mode : RequestMode
  credentials : CredentialsMode
  redirect : RedirectMode
  origin : Origin
deriving DecidableEq, Repr

def CorsParameters.withOrigin (cors : CorsParameters) (origin : Origin) : CorsSettings where
  mode := cors.mode
  credentials := cors.credentials
  redirect := cors.redirect
  origin := origin

inductive ResponseType where
  | basic
  | cors
  | opaqueType
  | opaqueRedirect
deriving DecidableEq, Repr

def ResponseType.isOpaque (type : ResponseType) : Bool :=
  type = .opaqueType || type = .opaqueRedirect

/-- How a response was filtered for page script. -/
inductive Filtering where
  | basic
  | cors (credentialsInclude : Bool)
  | opaqueFilter
  | opaqueRedirect
deriving DecidableEq, Repr

def Filtering.responseType : Filtering → ResponseType
  | .basic => .basic
  | .cors _ => .cors
  | .opaqueFilter => .opaqueType
  | .opaqueRedirect => .opaqueRedirect

def Filtering.isOpaque (filtering : Filtering) : Bool := filtering.responseType.isOpaque

namespace Cors

def credentialsAdmitted (mode : CredentialsMode) (crossOrigin : Bool) : Bool :=
  match mode with
  | .omit => false
  | .sameOrigin => !crossOrigin
  | .include => true

def isCorsSafelistedMethod (method : Method) : Bool :=
  method = Method.get || method = Method.head || method = Method.post

/-! ### Request headers -/

def isCorsUnsafeByte (b : UInt8) : Bool :=
  (b < 0x20 && b ≠ 0x09) || b ∈ Bytes.ofText "\"():<>?@[\\]\x7b\x7d\x7f".toList

def containsUnsafeByte (value : Bytes) : Bool := value.any isCorsUnsafeByte

def isAsciiAlphanumeric (b : UInt8) : Bool :=
  (0x30 ≤ b && b ≤ 0x39) || (0x41 ≤ b && b ≤ 0x5A) || (0x61 ≤ b && b ≤ 0x7A)

/-- `bytes=N-` or `bytes=N-M`. -/
def isSimpleRange (value : Bytes) : Bool :=
  match Bytes.toText? value with
  | none => false
  | some text =>
    if !text.startsWith "bytes=".toList then false
    else match Text.splitOnce '-' (text.drop 6) with
      | none => false
      | some (start, stop) =>
        start ≠ [] && start.all Text.isAsciiDigit && stop.all Text.isAsciiDigit

/-- The text before the first `;`, trimmed and lowered. -/
def mimeEssence (mime : Text) : Text :=
  Text.toAsciiLowercase (Text.trim (((Text.split ';' mime).head?).getD []))

def isCorsSafelistedRequestHeader (name : Text) (value : Bytes) : Bool :=
  let name := name.toAsciiLowercase
  if 128 < value.length then false
  else if name = "accept".toList then !containsUnsafeByte value
  else if name = "accept-language".toList || name = "content-language".toList then
    value.all fun b => isAsciiAlphanumeric b || b ∈ Bytes.ofText " *,-.;=".toList
  else if name = "content-type".toList then
    if containsUnsafeByte value then false
    else mimeEssence (Bytes.toTextLossy value) ∈
      ["application/x-www-form-urlencoded".toList, "multipart/form-data".toList,
        "text/plain".toList]
  else if name = "range".toList then isSimpleRange value
  else false

def isNoCorsSafelistedRequestHeader (name : Text) (value : Bytes) : Bool :=
  name.toAsciiLowercase ∈ ["accept".toList, "accept-language".toList, "content-language".toList,
    "content-type".toList] && isCorsSafelistedRequestHeader name value

def forbiddenRequestHeaderNames : List Text :=
  ["accept-charset".toList, "accept-encoding".toList, "access-control-request-headers".toList,
    "access-control-request-method".toList, "connection".toList, "content-length".toList,
    "cookie".toList, "cookie2".toList, "date".toList, "dnt".toList, "expect".toList, "host".toList,
    "keep-alive".toList, "origin".toList, "referer".toList, "set-cookie".toList, "te".toList,
    "trailer".toList, "transfer-encoding".toList, "upgrade".toList, "via".toList]

def isForbiddenRequestHeaderName (name : Text) : Bool :=
  let name := name.toAsciiLowercase
  name.startsWith "proxy-".toList || name.startsWith "sec-".toList ||
    name ∈ forbiddenRequestHeaderNames

def isForbiddenMethodHeader (http : Http) (name : Text) (value : Bytes) : Bool :=
  name.toAsciiLowercase ∈ ["x-http-method-override".toList, "x-http-method".toList,
      "x-method-override".toList] &&
    (splitHeaderValue (isomorphicDecode value)).any fun method =>
      ((Method.parse http method).map Method.isForbidden).getD false

def isForbiddenRequestHeader (http : Http) (name : Text) (value : Bytes) : Bool :=
  isForbiddenRequestHeaderName name || isForbiddenMethodHeader http name value

/-- The names that need a preflight, and the safelisted ones with the bytes of their values, which
need one too past 1024 bytes in all. -/
def unsafeRequestHeaderNames (headers : HeaderMap) : List Text :=
  let fields := headers.iter.filter fun field => !isForbiddenRequestHeaderName field.1
  let safe := fields.filter fun field => isCorsSafelistedRequestHeader field.1 field.2
  let unsafeNames := (fields.filter fun field =>
    !isCorsSafelistedRequestHeader field.1 field.2).map fun field => field.1.toAsciiLowercase
  let size := (safe.map fun field => field.2.length).sum
  let names := if 1024 < size then unsafeNames ++ safe.map fun field => field.1.toAsciiLowercase
    else unsafeNames
  (names.insertionSort (· ≤ ·)).destutter (· ≠ ·)

def needsPreflight (method : Method) (unsafeNames : List Text) : Bool :=
  !isCorsSafelistedMethod method || unsafeNames ≠ []

/-! ### The CORS check and preflights -/

/-- The values of `name` joined with `", "`; a value that is not UTF-8 makes the header unusable. -/
def header (headers : HeaderMap) (name : Text) : Option Text :=
  match (headers.getAll name).mapM Bytes.toText? with
  | none => none
  | some values => if values = [] then none else some (joinTexts ", ".toList values)

/-- The members of a list header that are not empty. -/
def listValues (headers : HeaderMap) (name : Text) : List Text :=
  ((getDecodeSplit headers name).getD []).filter (· ≠ [])

def corsCheck (headers : HeaderMap) (origin : Text) (credentialsInclude : Bool) : Bool :=
  match header headers "access-control-allow-origin".toList with
  | none => false
  | some allowOrigin =>
    let allowOrigin := Text.trim allowOrigin
    if !credentialsInclude && allowOrigin = "*".toList then true
    else if allowOrigin ≠ origin then false
    else if !credentialsInclude then true
    else match header headers "access-control-allow-credentials".toList with
      | none => false
      | some value => Text.eqIgnoreAsciiCase (Text.trim value) "true".toList

/-- The items of a list of methods; `none` when one is not a method token. -/
def listMethods (http : Http) (headers : HeaderMap) (name : Text) : Option (List Text) :=
  let items := listValues headers name
  if items.all http.isMethod then some items else none

/-- The items of a list of field names; `none` when one is not a field name. -/
def listHeaderNames (http : Http) (headers : HeaderMap) (name : Text) : Option (List Text) :=
  let items := listValues headers name
  if items.all http.isHeaderName then some (items.map Text.toAsciiLowercase) else none

def preflightOk (http : Http) (status : Nat) (headers : HeaderMap) (origin : Text)
    (credentialsInclude : Bool) (method : Method) (unsafeNames : List Text) : Bool :=
  if !(200 ≤ status && status ≤ 299) then false
  else if !corsCheck headers origin credentialsInclude then false
  else match listMethods http headers "access-control-allow-methods".toList with
    | none => false
    | some methods =>
      if !(method.token ∈ methods || isCorsSafelistedMethod method ||
          (!credentialsInclude && "*".toList ∈ methods)) then false
      else match listHeaderNames http headers "access-control-allow-headers".toList with
        | none => false
        | some allowed =>
          if "authorization".toList ∈ unsafeNames && "authorization".toList ∉ allowed then false
          else (!credentialsInclude && "*".toList ∈ allowed) || unsafeNames.all (· ∈ allowed)

/-- The headers of a preflight request. -/
def preflightHeaders (method : Method) (unsafeNames : List Text) (origin : Bytes) : HeaderMap :=
  let headers := HeaderMap.new.append .accept (Bytes.ofText "*/*".toList)
  let headers := headers.append .origin origin
  let headers := headers.append .accessControlRequestMethod (Bytes.ofText method.token)
  if unsafeNames = [] then headers
  else headers.append .accessControlRequestHeaders
    (Bytes.ofText (joinTexts ",".toList unsafeNames))

/-! ### Response headers -/

def isForbiddenResponseHeader (name : Text) : Bool :=
  Text.eqIgnoreAsciiCase name "set-cookie".toList || Text.eqIgnoreAsciiCase name "set-cookie2".toList

def isCorsSafelistedResponseHeader (name : Text) : Bool :=
  name.toAsciiLowercase ∈ ["cache-control".toList, "content-language".toList,
    "content-length".toList, "content-type".toList, "expires".toList, "last-modified".toList,
    "pragma".toList]

structure ExposedHeaders where
  names : List Text
  exposeAll : Bool

def ExposedHeaders.new (headers : HeaderMap) (credentialsInclude : Bool) : ExposedHeaders :=
  let names := (listValues headers "access-control-expose-headers".toList).map Text.toAsciiLowercase
  { names := names, exposeAll := !credentialsInclude && "*".toList ∈ names }

def ExposedHeaders.keeps (rule : ExposedHeaders) (name : Text) : Bool :=
  if isForbiddenResponseHeader name then false
  else
    let name := name.toAsciiLowercase
    isCorsSafelistedResponseHeader name || rule.exposeAll || name ∈ rule.names

end Cors

end TinyBrowser
