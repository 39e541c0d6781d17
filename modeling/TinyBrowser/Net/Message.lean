import TinyBrowser.Cookies.Basic
import TinyBrowser.Net.Cors

/-!
# Requests and responses

What is given to `Agent::send` and what comes back, and the filtered view of a response that page
script may read. `NetCrates` adds to `Crates` what this part uses of other crates: the parts of a
URL and their setters, the serialization of an origin, percent decoding and base64. An `Instant` is
a number of nanoseconds.
-/

namespace TinyBrowser
open Lib

abbrev Instant := Nat

structure NetCrates extends Crates where
  http : Http
  username : Url → Text
  password : Url → Option Text
  fragment : Url → Option Text
  setUsername : Url → Text → Url
  setPassword : Url → Option Text → Url
  setPath : Url → Text → Url
  setQuery : Url → Option Text → Url
  setFragment : Url → Option Text → Url
  asciiSerialization : Origin → Text
  percentDecode : Text → Bytes
  base64 : Bytes → Text

/-- A small instance: URLs without credentials and fragments, and header fields of any kind. -/
def NetCrates.sample : NetCrates where
  toCrates := Crates.sample
  http := ⟨fun _ => true, fun _ => true, fun _ => true, fun _ => true⟩
  username _ := []
  password _ := none
  fragment _ := none
  setUsername url _ := url
  setPassword url _ := url
  setPath url _ := url
  setQuery url _ := url
  setFragment url _ := url
  asciiSerialization _ := "https://example.com".toList
  percentDecode := Bytes.ofText
  base64 _ := []

/-- One read of the wall clock and of the monotonic one. -/
structure Clock where
  now : SystemTime
  monotonic : Instant

inductive ReferrerPolicy where
  | noReferrer
  | noReferrerWhenDowngrade
  | sameOrigin
  | origin
  | strictOrigin
  | originWhenCrossOrigin
  | strictOriginWhenCrossOrigin
  | unsafeUrl
deriving DecidableEq, Repr

inductive Referrer where
  | noReferrer
  | client (origin : Origin) (url : Url)
  | url (url : Url)
deriving DecidableEq, Repr

inductive TransportError where
  | dns
  | connect
  | tls
  | timeout
  | io
deriving DecidableEq, Repr

inductive NetError where
  | transport (error : TransportError)
  | rejectedRequest
  | redirectLimit
  | decode
deriving DecidableEq, Repr

structure Request where
  method : Method
  url : Url
  headers : HeaderMap
  initiatorKind : InitiatorKind
  initiator : Option Origin
  body : Option Bytes
  deadline : Option Instant
  cors : CorsSettings
  /-- Asked about each redirect target and its number. -/
  onRedirect : Option (Url → Nat → Bool)
  referrer : Referrer
  referrerPolicy : ReferrerPolicy

/-- A request with no headers, body, initiator or deadline, whose origin is its target's. -/
def Request.new (method : Method) (url : Url) : Request where
  method := method
  url := url
  headers := HeaderMap.new
  initiatorKind := .navigation
  initiator := none
  body := none
  deadline := none
  cors := ⟨.navigate, .include, .follow, url.origin⟩
  onRedirect := none
  referrer := .noReferrer
  referrerPolicy := .strictOriginWhenCrossOrigin

/-- A decoded body: the chunks that `read_chunk` returns in turn, and the error it ends in, if it
does not end cleanly. -/
structure DecodedBody where
  chunks : List Bytes
  error : Option NetError

structure Response where
  status : Nat
  statusText : Text
  headers : HeaderMap
  finalUrl : Url
  body : DecodedBody
  redirectCount : Nat
  filtering : Filtering
  referrer : Option Url
  crossedOrigin : Bool

namespace Response

def responseType (response : Response) : ResponseType := response.filtering.responseType

def isOpaque (response : Response) : Bool := response.filtering.isOpaque

def filteredStatus (response : Response) : Nat := if response.isOpaque then 0 else response.status

def filteredStatusText (response : Response) : Text :=
  if response.isOpaque then [] else response.statusText

/-- The fields page script may read: all but the forbidden ones of a basic response, the
safelisted and exposed ones of a CORS response, none of an opaque one. -/
def filteredHeaders (response : Response) : List (Text × Bytes) :=
  match response.filtering with
  | .basic => response.headers.iter.filter fun field => !Cors.isForbiddenResponseHeader field.1
  | .cors credentialsInclude =>
    let rule := Cors.ExposedHeaders.new response.headers credentialsInclude
    response.headers.iter.filter fun field => rule.keeps field.1
  | .opaqueFilter | .opaqueRedirect => []

end Response

end TinyBrowser
