import Mathlib.Order.Lattice
import TinyBrowser.Net.Message
import TinyBrowser.Cookies.Jar

/-!
# Referrer policies

`crates/net/src/referrer.rs`: the policy a `Referrer-Policy` field names, and which URL a request
sends as its `Referer`.
-/

namespace TinyBrowser
open Lib

namespace ReferrerPolicy

def keyword : ReferrerPolicy → Text
  | .noReferrer => "no-referrer".toList
  | .noReferrerWhenDowngrade => "no-referrer-when-downgrade".toList
  | .sameOrigin => "same-origin".toList
  | .origin => "origin".toList
  | .strictOrigin => "strict-origin".toList
  | .originWhenCrossOrigin => "origin-when-cross-origin".toList
  | .strictOriginWhenCrossOrigin => "strict-origin-when-cross-origin".toList
  | .unsafeUrl => "unsafe-url".toList

def keywords : List ReferrerPolicy :=
  [.noReferrer, .noReferrerWhenDowngrade, .sameOrigin, .origin, .strictOrigin,
    .originWhenCrossOrigin, .strictOriginWhenCrossOrigin, .unsafeUrl]

/-- A keyword in any case. -/
def parse (value : Text) : Option ReferrerPolicy :=
  keywords.find? fun policy => Text.eqIgnoreAsciiCase policy.keyword value

def isMemberChar (c : Char) : Bool :=
  ('a' ≤ c && c ≤ 'z') || ('A' ≤ c && c ≤ 'Z') || c = '-'

/-- The members of one field value that are not empty; `none` when one of them is not a token. -/
def headerListMembers (value : Text) : Option (List Text) :=
  let members := ((Text.split ',' value).map trimHttp).filter (· ≠ [])
  if members.all (·.all isMemberChar) then some members else none

/-- The last known token of a list of field values; one malformed value spoils the list. -/
def fromHeader (values : List Text) : Option ReferrerPolicy :=
  match values.mapM headerListMembers with
  | none => none
  | some members => (members.flatten.filterMap parse).getLast?

example : fromHeader ["no-referrer, future-policy".toList, "ORIGIN".toList] = some .origin := by
  decide

end ReferrerPolicy

/-- The URL without its fragment and credentials, and under `originOnly` without its path and
query. -/
def stripUrl (x : NetCrates) (url : Url) (originOnly : Bool) : Url :=
  let stripped := x.setFragment (x.setPassword (x.setUsername url []) none) none
  if originOnly then x.setQuery (x.setPath stripped []) none else stripped

/-- Where the referrer comes from: nowhere for an opaque document, and only HTTP(S) URLs are sent. -/
def Referrer.source (referrer : Referrer) : Option Url :=
  let source := match referrer with
    | .noReferrer => none
    | .client (.opaqueOrigin _) _ => none
    | .client (.tuple _ _ _) document => some document
    | .url explicit => some explicit
  source.filter fun source => source.scheme = "http".toList || source.scheme = "https".toList

def determineReferrer (x : NetCrates) (policy : ReferrerPolicy) (referrer : Referrer)
    (target : Url) : Option Url :=
  referrer.source.bind fun source =>
    let referrerOrigin := stripUrl x source true
    let referrerUrl :=
      if 4096 < (Bytes.ofText (stripUrl x source false).asStr).length then referrerOrigin
      else stripUrl x source false
    let sameOrigin := referrerUrl.origin = target.origin
    let downgrade := isPotentiallyTrustworthy x.toCrates referrerUrl &&
      !isPotentiallyTrustworthy x.toCrates target
    match policy with
    | .noReferrer => none
    | .origin => some referrerOrigin
    | .unsafeUrl => some referrerUrl
    | .strictOrigin => if downgrade then none else some referrerOrigin
    | .strictOriginWhenCrossOrigin =>
      if sameOrigin then some referrerUrl
      else if downgrade then none
      else some referrerOrigin
    | .sameOrigin => if sameOrigin then some referrerUrl else none
    | .originWhenCrossOrigin => some (if sameOrigin then referrerUrl else referrerOrigin)
    | .noReferrerWhenDowngrade => if downgrade then none else some referrerUrl

end TinyBrowser
