import Mathlib.Data.List.Sort
import TinyBrowser.Cookies.Parse
import TinyBrowser.Lib.FirstMin

/-!
# The cookie jar

Receiving a parsed cookie, the jar's operations and the two eviction loops. A jar operation that
also answers returns its answer beside the new jar.
-/

namespace TinyBrowser
open Lib

/-! ### Receiving a cookie -/

def cookieExpiry (parsed : ParsedSetCookie) (now : SystemTime) : Option SystemTime :=
  match parsed.maxAge with
  | some maxAge =>
    if maxAge ≤ 0 then some now else some (now + min (maxAge * nanosPerSec) maxLifetime)
  | none => parsed.expires.map fun expires => min expires (now + maxLifetime)

/-- Where a cookie applies: its host-only flag, domain, path and `Path` attribute. -/
structure CookieScope where
  hostOnly : Bool
  domain : Text
  path : Text
  pathAttr : Option Text

/-- The canonical `Domain` attribute; empty when the line has none. -/
def domainAttr (x : Crates) (parsed : ParsedSetCookie) : Option Text :=
  match parsed.domain with
  | some raw => canonicalizeDomainAttr x raw
  | none => some []

/-- The domain attribute that remains after the host has been checked against it; empty for a
host-only cookie. -/
def scopeDomain (x : Crates) (host attr : Text) : Option Text :=
  if attr = [] then some []
  else if isIp host || isPublicSuffix x attr then
    if attr ≠ host then none else some []
  else if domainMatch host attr then some attr
  else none

def cookieScope (x : Crates) (parsed : ParsedSetCookie) (requestUrl : Url) (host : Text) :
    Option CookieScope := do
  let attr ← domainAttr x parsed
  let attr ← scopeDomain x host attr
  return {
    hostOnly := attr = []
    domain := if attr = [] then host else attr
    path := parsed.path.getD (defaultPath requestUrl.path)
    pathAttr := parsed.path }

def overlaysSecureCookie (existing : List StoredCookie) (name domain path : Text)
    (secure : Bool) : Bool :=
  !secure && existing.any fun old =>
    old.secure && old.name = name &&
      (domainMatch old.domain domain || domainMatch domain old.domain) && pathMatch path old.path

def cookiePrefixesOk (name value : Text) (secure hostOnly : Bool) (pathAttr : Option Text) :
    Bool :=
  if name = [] then
    let lvalue := value.toAsciiLowercase
    !lvalue.startsWith "__secure-".toList && !lvalue.startsWith "__host-".toList
  else
    let lname := name.toAsciiLowercase
    if lname.startsWith "__secure-".toList && !secure then false
    else if lname.startsWith "__host-".toList &&
        !(secure && hostOnly && pathAttr = some "/".toList) then false
    else true

def sameCookieIdentity (old stored : StoredCookie) : Bool :=
  old.name = stored.name && old.domain = stored.domain && old.hostOnly = stored.hostOnly &&
    old.path = stored.path

/-- The cookie a parsed line asks for, before an older cookie's creation time is carried over. -/
def newCookie (parsed : ParsedSetCookie) (scope : CookieScope) (now : SystemTime) : StoredCookie where
  name := parsed.name
  value := parsed.value
  expiry := cookieExpiry parsed now
  domain := scope.domain
  path := scope.path
  created := now
  lastAccess := now
  hostOnly := scope.hostOnly
  secure := parsed.secure
  httpOnly := parsed.httpOnly
  sameSite := parsed.sameSite.getD .default

/-- The checks of the storage model that come before the older cookie is looked up. -/
def acceptsCookie (x : Crates) (op : CookieOp) (existing : List StoredCookie) (trustworthy : Bool)
    (parsed : ParsedSetCookie) (scope : CookieScope) : Bool :=
  let sameSite := parsed.sameSite.getD .default
  if parsed.secure && !trustworthy then false
  else if parsed.httpOnly && op.kind = .nonHttp then false
  else if !trustworthy &&
      overlaysSecureCookie existing parsed.name scope.domain scope.path parsed.secure then false
  else if sameSite = .none && !parsed.secure then false
  else if sameSite ≠ .none && !op.isSameSiteRequest x && op.initiatorKind ≠ .navigation then false
  else cookiePrefixesOk parsed.name parsed.value parsed.secure scope.hostOnly scope.pathAttr

def receiveCookie (x : Crates) (parsed : ParsedSetCookie) (op : CookieOp)
    (existing : List StoredCookie) (trustworthy : Bool) : Option StoredCookie := do
  let host ← canonicalizeHost op.url
  let scope ← cookieScope x parsed op.url host
  if !acceptsCookie x op existing trustworthy parsed scope then none
  else
    let stored := newCookie parsed scope op.now
    match existing.find? (sameCookieIdentity · stored) with
    | some old =>
      if op.kind = .nonHttp && old.httpOnly then none
      else some { stored with created := old.created }
    | none => some stored

/-! ### Eviction -/

def countDomains (counts : Text → Nat) : List StoredCookie → Option Text
  | [] => none
  | c :: cookies =>
    let count := counts c.domain + 1
    if maxCookiesPerDomain < count then some c.domain
    else countDomains (Function.update counts c.domain count) cookies

def overQuotaDomain (cookies : List StoredCookie) : Option Text :=
  if cookies.length ≤ maxCookiesPerDomain then none else countDomains (fun _ => 0) cookies

def byAge (a b : StoredCookie) : Ordering :=
  (compare a.lastAccess b.lastAccess).then (compare a.created b.created)

/-- The order in which cookies are given up: within one domain the non-secure ones first. -/
def evictionOrder (domain : Option Text) (a b : StoredCookie) : Ordering :=
  match domain with
  | none => byAge a b
  | some _ => match a.secure, b.secure with
    | false, true => .lt
    | true, false => .gt
    | _, _ => byAge a b

def victim (cookies : List StoredCookie) (domain : Option Text) : Option (StoredCookie × Nat) :=
  firstMin (fun a b => evictionOrder domain a.1 b.1)
    (cookies.zipIdx.filter fun (c, _) => domain.all fun d => c.domain = d)

def evictOne (cookies : List StoredCookie) (domain : Option Text) : Option (List StoredCookie) :=
  (victim cookies domain).map fun (_, i) => cookies.eraseIdx i

/-- `while let Some(domain) = over_quota_domain(..)`; every round removes a cookie. -/
def evictDomains : Nat → List StoredCookie → List StoredCookie
  | 0, cookies => cookies
  | fuel + 1, cookies => match overQuotaDomain cookies with
    | none => cookies
    | some domain => match evictOne cookies (some domain) with
      | none => cookies
      | some cookies => evictDomains fuel cookies

/-- `while self.cookies.len() > MAX_COOKIES`. -/
def evictTotal : Nat → List StoredCookie → List StoredCookie
  | 0, cookies => cookies
  | fuel + 1, cookies =>
    if maxCookies < cookies.length then
      match evictOne cookies none with
      | none => cookies
      | some cookies => evictTotal fuel cookies
    else cookies

def evictExcess (cookies : List StoredCookie) : List StoredCookie :=
  let cookies := evictDomains cookies.length cookies
  evictTotal cookies.length cookies

/-! ### Operations -/

def StoredCookie.record (c : StoredCookie) : CookieRecord where
  name := c.name
  value := c.value
  expiry := c.expiry
  domain := c.domain
  path := c.path
  created := c.created
  lastAccess := c.lastAccess
  hostOnly := c.hostOnly
  secure := c.secure
  httpOnly := c.httpOnly
  sameSite := .ofSameSite c.sameSite

/-- Whether a request carries the cookie. -/
def StoredCookie.matchesOp (x : Crates) (c : StoredCookie) (host requestPath : Text) (op : CookieOp)
    (trustworthy : Bool) : Bool :=
  let hostOk := if c.hostOnly then c.domain = host else domainMatch host c.domain
  if !hostOk then false
  else if !pathMatch requestPath c.path then false
  else if c.secure && !trustworthy then false
  else if c.httpOnly && op.kind ≠ .http then false
  else samesiteAllows c.sameSite (op.isSameSiteRequest x) op.initiatorKind op.methodIsSafe

/-- Longest path first, older cookies first within one path length. -/
def headerOrder (a b : StoredCookie) : Bool :=
  Text.len b.path < Text.len a.path ||
    (Text.len b.path = Text.len a.path && a.created ≤ b.created)

def StoredCookie.headerPair (c : StoredCookie) : Text :=
  if c.name = [] then c.value else c.name ++ '=' :: c.value

/-- The jar as a stored cookie joins it: the cookies of the same identity give way. -/
def replaceCookie (cookies : List StoredCookie) (stored : StoredCookie) : List StoredCookie :=
  (cookies.filter fun old => !sameCookieIdentity old stored) ++ [stored]

namespace CookieJar

def evictExpired (jar : CookieJar) (now : SystemTime) : CookieJar :=
  ⟨jar.cookies.filter fun c => unexpiredAt now c.expiry⟩

/-- The cookie `store` receives from a line, if it accepts the line. -/
def received (x : Crates) (jar : CookieJar) (setCookie : Text) (op : CookieOp) :
    Option StoredCookie := do
  let parsed ← parseSetCookie setCookie
  receiveCookie x parsed op (jar.evictExpired op.now).cookies (isPotentiallyTrustworthy x op.url)

def store (x : Crates) (jar : CookieJar) (setCookie : Text) (op : CookieOp) : Bool × CookieJar :=
  match jar.received x setCookie op with
  | none => (false, jar.evictExpired op.now)
  | some stored =>
    let cookies := (jar.evictExpired op.now).cookies
    if unexpiredAt op.now stored.expiry then
      (true, ⟨evictExcess (replaceCookie cookies stored)⟩)
    else (true, ⟨cookies.filter fun old => !sameCookieIdentity old stored⟩)

/-- The positions of the cookies a request carries. -/
def matched (x : Crates) (jar : CookieJar) (host : Text) (op : CookieOp) : List Nat :=
  (jar.cookies.zipIdx.filter fun (c, _) =>
    c.matchesOp x host op.url.path op (isPotentiallyTrustworthy x op.url)).map Prod.snd

/-- `jar` after the cookies at `indices` were read at `now`. -/
def touch (jar : CookieJar) (indices : List Nat) (now : SystemTime) : CookieJar :=
  ⟨jar.cookies.mapIdx fun i c => if i ∈ indices then { c with lastAccess := now } else c⟩

def headerOrderAt (cookies : List StoredCookie) (i j : Nat) : Bool :=
  match cookies[i]?, cookies[j]? with
  | some a, some b => headerOrder a b
  | _, _ => false

/-- The cookies at `indices`, in header order. The sort is stable. -/
def sorted (jar : CookieJar) (indices : List Nat) : List StoredCookie :=
  (indices.insertionSort fun i j => headerOrderAt jar.cookies i j = true).filterMap (jar.cookies[·]?)

def cookieString (x : Crates) (jar : CookieJar) (op : CookieOp) : Text × CookieJar :=
  let jar := jar.evictExpired op.now
  match canonicalizeHost op.url with
  | none => ([], jar)
  | some host =>
    let indices := jar.matched x host op
    let jar := jar.touch indices op.now
    (List.intercalate "; ".toList ((jar.sorted indices).map StoredCookie.headerPair), jar)

def recordsFor (x : Crates) (jar : CookieJar) (op : CookieOp) : List CookieRecord × CookieJar :=
  let jar := jar.evictExpired op.now
  match canonicalizeHost op.url with
  | none => ([], jar)
  | some host =>
    ((jar.cookies.filter fun c =>
      c.matchesOp x host op.url.path op (isPotentiallyTrustworthy x op.url)).map StoredCookie.record,
      jar)

def clear (_jar : CookieJar) : CookieJar := ⟨[]⟩

def snapshot (jar : CookieJar) : List CookieRecord :=
  (jar.cookies.filter fun c => c.expiry.isSome).map StoredCookie.record

/-- The canonical form of a record's domain. -/
def canonicalRecordDomain (x : Crates) (domain : Text) : Option Text :=
  match IpAddr.parse domain with
  | some ip => some ip.display
  | none => canonicalizeDomainAttr x domain

def sanitize (x : Crates) (existing : List StoredCookie) (record : CookieRecord)
    (now : SystemTime) : Option StoredCookie :=
  if !unexpiredAt now record.expiry then none
  else if (record.name = [] && record.value = []) ||
      4096 < Text.len record.name + Text.len record.value ||
      hasCtlExcludingHtab record.name || hasCtlExcludingHtab record.value ||
      record.name.any (fun c => c = ';' || c = '=') || record.value.any (· = ';') then none
  else if record.path.head? ≠ some '/' then none
  else if canonicalRecordDomain x record.domain ≠ some record.domain then none
  else if SameSite.ofCookieSameSite record.sameSite = .none && !record.secure then none
  else if !record.hostOnly && (isIp record.domain || isPublicSuffix x record.domain) then none
  else if !cookiePrefixesOk record.name record.value record.secure record.hostOnly
      (some record.path) then none
  else if overlaysSecureCookie existing record.name record.domain record.path record.secure then none
  else some {
    name := record.name
    value := record.value
    expiry := record.expiry.map fun expiry => min expiry (now + maxLifetime)
    domain := record.domain
    path := record.path
    created := record.created
    lastAccess := record.lastAccess
    hostOnly := record.hostOnly
    secure := record.secure
    httpOnly := record.httpOnly
    sameSite := .ofCookieSameSite record.sameSite }

/-- One record of `restore`: it replaces its identity, or is skipped. -/
def restoreOne (x : Crates) (now : SystemTime) (cookies : List StoredCookie)
    (record : CookieRecord) : List StoredCookie :=
  match sanitize x cookies record now with
  | some stored => replaceCookie cookies stored
  | none => cookies

def restore (x : Crates) (jar : CookieJar) (records : List CookieRecord) (now : SystemTime) :
    CookieJar :=
  ⟨evictExcess (records.foldl (restoreOne x now) (jar.evictExpired now).cookies)⟩

end CookieJar

end TinyBrowser
