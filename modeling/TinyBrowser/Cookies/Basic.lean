import TinyBrowser.Crates

/-!
# Cookies: data model, domains, paths and sites

The records of `crates/cookies`, the domain and path matching of RFC 6265bis, and the site
identity that `SameSite` and the renderer lock share. A `SystemTime` is a signed number of
nanoseconds since the Unix epoch.
-/

namespace TinyBrowser
open Lib

abbrev SystemTime := Int

def nanosPerSec : Int := 1000000000

/-- 400 days. -/
def maxLifetime : Int := 9600 * 3600 * nanosPerSec

def maxCookiesPerDomain : Nat := 50

def maxCookies : Nat := 3000

inductive InitiatorKind where
  | navigation
  | fetch
deriving DecidableEq, Repr

inductive SameSite where
  | strict
  | lax
  | none
  | default
deriving DecidableEq, Repr

structure StoredCookie where
  name : Text
  value : Text
  expiry : Option SystemTime
  domain : Text
  path : Text
  created : SystemTime
  lastAccess : SystemTime
  hostOnly : Bool
  secure : Bool
  httpOnly : Bool
  sameSite : SameSite
deriving DecidableEq, Repr

structure CookieJar where
  cookies : List StoredCookie
deriving DecidableEq, Repr

def CookieJar.default : CookieJar := ⟨[]⟩

inductive RetrievalKind where
  | http
  | nonHttp
deriving DecidableEq, Repr

structure CookieOp where
  url : Url
  now : SystemTime
  kind : RetrievalKind
  initiatorKind : InitiatorKind
  methodIsSafe : Bool
  initiator : Option Origin
  crossSiteRedirect : Bool
deriving Repr

inductive CookieSameSite where
  | strict
  | lax
  | none
  | default
deriving DecidableEq, Repr

structure CookieRecord where
  name : Text
  value : Text
  expiry : Option SystemTime
  domain : Text
  path : Text
  created : SystemTime
  lastAccess : SystemTime
  hostOnly : Bool
  secure : Bool
  httpOnly : Bool
  sameSite : CookieSameSite
deriving DecidableEq, Repr

def CookieSameSite.ofSameSite : SameSite → CookieSameSite
  | .strict => .strict
  | .lax => .lax
  | .none => .none
  | .default => .default

def SameSite.ofCookieSameSite : CookieSameSite → SameSite
  | .strict => .strict
  | .lax => .lax
  | .none => .none
  | .default => .default

@[simp] theorem SameSite.of_ofSameSite (s : SameSite) :
    SameSite.ofCookieSameSite (CookieSameSite.ofSameSite s) = s := by cases s <;> rfl

/-- `expiry` is absent or after `now`. -/
def unexpiredAt (now : SystemTime) (expiry : Option SystemTime) : Bool :=
  match expiry with
  | none => true
  | some exp => now < exp

/-! ### Domains and paths -/

def hasCtlExcludingHtab (s : Text) : Bool :=
  s.any fun c => (c.toNat < 0x20 && c ≠ '\t') || c.toNat = 0x7F

def isIp (host : Text) : Bool := (IpAddr.parse host).isSome

def canonicalHost : Host → Text
  | .domain d => d.toAsciiLowercase
  | .ipv4 ip => (IpAddr.v4 ip).display
  | .ipv6 ip => (IpAddr.v6 ip).display

def canonicalizeHost (url : Url) : Option Text := url.host.map canonicalHost

def canonicalizeDomainAttr (x : Crates) (raw : Text) : Option Text :=
  let stripped := Text.stripPrefix '.' raw
  if 1024 < Text.len stripped then none
  else match x.hostParse stripped with
    | none => none
    | some (.domain d) => some d
    | some (.ipv4 ip) => some (IpAddr.v4 ip).display
    | some (.ipv6 ip) => some (IpAddr.v6 ip).display

def isPublicSuffix (x : Crates) (domain : Text) : Bool :=
  let d := Text.trimMatches '.' domain
  d ≠ [] && x.suffix d = some d

/-- `host` ends in `.` and then, up to ASCII case, `domain`. -/
def isSubdomain (host domain : Text) : Bool :=
  domain.length < host.length &&
    host[host.length - domain.length - 1]? = some '.' &&
    Text.eqIgnoreAsciiCase (host.drop (host.length - domain.length)) domain

def domainMatch (host domain : Text) : Bool :=
  if Text.eqIgnoreAsciiCase host domain then true
  else if isIp host then false
  else isSubdomain host domain

def pathMatch (requestPath cookiePath : Text) : Bool :=
  if requestPath = cookiePath then true
  else if cookiePath.isPrefixOf requestPath then
    if cookiePath.getLast? = some '/' then true
    else requestPath[cookiePath.length]? = some '/'
  else false

def defaultPath (uriPath : Text) : Text :=
  match Text.beforeLast '/' uriPath with
  | some dir => if dir ≠ [] && uriPath.head? = some '/' then dir else "/".toList
  | none => "/".toList

/-! ### Sites -/

def registrableDomain (x : Crates) (host : Text) : Text :=
  if isIp host then host
  else
    let host := Text.trimMatches '.' host
    (x.domain host).getD host

def siteScheme (scheme : Text) : Option Text :=
  if scheme = "http".toList || scheme = "ws".toList then some "http".toList
  else if scheme = "https".toList || scheme = "wss".toList then some "https".toList
  else none

def siteTuple (x : Crates) (url : Url) : Option (Text × Text) := do
  let scheme ← siteScheme url.scheme
  let host ← canonicalizeHost url
  return (scheme, registrableDomain x host)

def originSiteTuple (x : Crates) : Origin → Option (Text × Text)
  | .opaqueOrigin _ => none
  | .tuple scheme host _ => do
    let scheme ← siteScheme scheme
    return (scheme, registrableDomain x (canonicalHost host))

def originsSameSite (x : Crates) (a b : Origin) : Bool :=
  match originSiteTuple x a, originSiteTuple x b with
  | some left, some right => left = right
  | _, _ => false

/-- Scheme and registrable domain, `https://example.co.uk`. -/
def site (x : Crates) (url : Url) : Option Text :=
  (siteTuple x url).map fun (scheme, domain) => scheme ++ "://".toList ++ domain

def CookieOp.isSameSiteRequest (x : Crates) (op : CookieOp) : Bool :=
  if op.crossSiteRedirect then false
  else match op.initiator with
    | none => true
    | some origin => originsSameSite x origin op.url.origin

def samesiteAllows (sameSite : SameSite) (sameSiteRequest : Bool) (initiatorKind : InitiatorKind)
    (methodIsSafe : Bool) : Bool :=
  match sameSite with
  | .none => true
  | .strict => sameSiteRequest
  | .lax | .default => sameSiteRequest || (initiatorKind = .navigation && methodIsSafe)

theorem domainMatch_self (d : Text) : domainMatch d d = true := by simp [domainMatch]

theorem pathMatch_self (p : Text) : pathMatch p p = true := by simp [pathMatch]

theorem head?_defaultPath (p : Text) : (defaultPath p).head? = some '/' := by
  unfold defaultPath
  split
  · rename_i dir h
    split
    · rename_i hd
      simp only [Bool.and_eq_true, decide_eq_true_eq, ne_eq] at hd
      -- `dir` is a nonempty initial part of `p`, so it starts as `p` does
      have hpre : dir <+: p := by
        unfold Text.beforeLast at h
        split at h
        · obtain rfl := Option.some.inj h
          have hsuf : (p.reverse.dropWhile (· ≠ '/')).tail <:+ p.reverse :=
            (List.tail_suffix _).trans (List.dropWhile_suffix _)
          simpa using hsuf.reverse
        · simp at h
      cases dir with
      | nil => exact absurd rfl hd.1
      | cons c dir =>
        obtain ⟨t, rfl⟩ := hpre
        exact hd.2
    · rfl
  · rfl

end TinyBrowser
