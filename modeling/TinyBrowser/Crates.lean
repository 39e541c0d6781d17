import TinyBrowser.Lib.IpAddr

/-!
# URLs, origins and the crates behind them

A `Url` is what the code reads of a parsed `url::Url`: its scheme, host, path, origin and
serialization. The parsers of the `url` crate and the lookups of the `publicsuffix` crate are the
fields of `Crates`; `Crates.UrlLaws` states what the WHATWG URL standard promises about the hosts
of special URLs. On top of them stands `isPotentiallyTrustworthy`, the `secure-context` crate.
-/

namespace TinyBrowser
open Lib

inductive Host where
  | domain (d : Text)
  | ipv4 (ip : Ipv4Addr)
  | ipv6 (ip : Ipv6Addr)
deriving DecidableEq, Repr

/-- An opaque origin carries a number that tells it apart from every other one. -/
inductive Origin where
  | opaqueOrigin (id : Nat)
  | tuple (scheme : Text) (host : Host) (port : Nat)
deriving DecidableEq, Repr

inductive TargetOrigin where
  | any
  | exact (origin : Origin)
deriving DecidableEq, Repr

def TargetOrigin.admits : TargetOrigin → Origin → Bool
  | .any, _ => true
  | .exact target, origin => target = origin

structure Url where
  scheme : Text
  host : Option Host
  path : Text
  origin : Origin
  asStr : Text
deriving DecidableEq, Repr

/-- The external parsers: `Host::parse`, `Url::parse`, `Url::join`, and the public suffix list's
`suffix` and `domain`. -/
structure Crates where
  hostParse : Text → Option Host
  urlParse : Text → Option Url
  urlJoin : Url → Text → Option Url
  suffix : Text → Option Text
  domain : Text → Option Text

/-- The host parser's documented behaviour on domains: a domain it returns is lowercase, is
returned unchanged when it is parsed again, and neither is nor ends, after a dot, in an IP address
(a domain that ends in a number is an IPv4 address or an error, and `:` is forbidden in one). The
domain of a special URL is a domain it returned. -/
structure Crates.UrlLaws (x : Crates) : Prop where
  idem : ∀ {s d}, x.hostParse s = some (.domain d) → x.hostParse d = some (.domain d)
  lower : ∀ {s d}, x.hostParse s = some (.domain d) → d.toAsciiLowercase = d
  notIp : ∀ {s d}, x.hostParse s = some (.domain d) → IpAddr.parse d = none
  notIpTail : ∀ {s d pre tail}, x.hostParse s = some (.domain d) → d = pre ++ '.' :: tail →
    IpAddr.parse tail = none

/-- The host of `url` is one the host parser returned. -/
def Crates.HostParsed (x : Crates) (url : Url) : Prop :=
  ∀ d, url.host = some (.domain d) → ∃ s, x.hostParse s = some (.domain d)

/-- A small instance: the hosts `example.com` and `1.2.3.4`, and the public suffix list's default
rule, under which the last label is the suffix. -/
def Crates.sample : Crates where
  hostParse s :=
    if s = "example.com".toList then some (.domain s)
    else if s = "1.2.3.4".toList then some (.ipv4 ⟨1, 2, 3, 4⟩)
    else none
  urlParse _ := none
  urlJoin _ _ := none
  suffix d := (Text.split '.' d).getLast?
  domain d := match (Text.split '.' d).reverse with
    | suffix :: label :: _ => some (label ++ '.' :: suffix)
    | _ => none

theorem Crates.sample_laws : Crates.sample.UrlLaws := by
  have hd : ∀ {s d}, Crates.sample.hostParse s = some (.domain d) → d = "example.com".toList := by
    intro s d h
    simp only [Crates.sample] at h
    split_ifs at h with hs
    · rw [← hs]
      exact (Host.domain.inj (Option.some.inj h)).symm
    · simp at h
  refine ⟨fun h => hd h ▸ rfl, fun h => hd h ▸ rfl, fun h => hd h ▸ rfl, ?_⟩
  intro s d pre tail h htail
  -- the only dot of `example.com` is followed by `com`
  have hdots : ∀ i < 11, ("example.com".toList)[i]? = some '.' →
      IpAddr.parse ("example.com".toList.drop (i + 1)) = none := by decide
  have hpre : pre.length < 11 := by
    have hlen := congrArg List.length (hd h ▸ htail)
    simp only [List.length_append, List.length_cons] at hlen
    have : ("example.com".toList).length = 11 := rfl
    omega
  have hdot := hdots pre.length hpre
  rw [← hd h, htail] at hdot
  simpa using hdot

/-- `https://example.com/`. -/
def Url.sample : Url where
  scheme := "https".toList
  host := some (.domain "example.com".toList)
  path := "/".toList
  origin := .tuple "https".toList (.domain "example.com".toList) 443
  asStr := "https://example.com/".toList

def Ipv4Addr.isLoopback (ip : Ipv4Addr) : Bool := ip.a = 127

def Ipv6Addr.isLoopback (ip : Ipv6Addr) : Bool := ip.segments = [0, 0, 0, 0, 0, 0, 0, 1]

/-- Drops every trailing `c`. -/
def trimEndMatches (c : Char) (s : Text) : Text := (s.reverse.dropWhile (· = c)).reverse

def isLocalhost : Host → Bool
  | .ipv4 ip => Ipv4Addr.isLoopback ip
  | .ipv6 ip => Ipv6Addr.isLoopback ip
  | .domain host =>
    let host := (trimEndMatches '.' host).toAsciiLowercase
    host = "localhost".toList || ".localhost".toList.isSuffixOf host

def isTrustworthyOrigin : Origin → Bool
  | .opaqueOrigin _ => false
  | .tuple scheme host _ => scheme = "https".toList || scheme = "wss".toList || isLocalhost host

def blobCreatorIsFile (x : Crates) (url : Url) : Bool :=
  if "blob:".toList.isPrefixOf url.asStr then
    match x.urlParse (url.asStr.drop 5) with
    | some inner => inner.scheme = "file".toList
    | none => false
  else false

def isPotentiallyTrustworthy (x : Crates) (url : Url) : Bool :=
  if url.scheme = "about".toList then
    url.path = "blank".toList || url.path = "srcdoc".toList
  else if url.scheme = "data".toList || url.scheme = "file".toList then true
  else if url.scheme = "blob".toList then
    isTrustworthyOrigin url.origin || blobCreatorIsFile x url
  else isTrustworthyOrigin url.origin

end TinyBrowser
