import TinyBrowser.Cookies.Parse
import TinyBrowser.Dial.Basic

/-!
# Source expressions

The matching half of `crates/renderer/src/csp.rs`: what one source expression of a directive admits,
and what a whole source list admits. The expressions of a policy are ASCII, as `parse_serialized`
drops every other directive.
-/

namespace TinyBrowser
open Lib

/-- Adds to `NetCrates` the explicit port of a URL, `Display` for a host, and lossy decoding. -/
structure CspCrates extends NetCrates where
  port : Url → Option Nat
  hostToString : Host → Text
  decodeUtf8Lossy : Bytes → Text

/-- `Url::host_str`. -/
def CspCrates.hostStr (x : CspCrates) (url : Url) : Option Text := url.host.map x.hostToString

namespace Csp

def isAsciiAlphabetic (c : Char) : Bool := Text.isAsciiUpper c || ('a' ≤ c && c ≤ 'z')

def isAsciiAlphanumeric (c : Char) : Bool := isAsciiAlphabetic c || Text.isAsciiDigit c

/-- `str::split_once` with a text as the separator. -/
def splitOnceText (pat : Text) : Text → Option (Text × Text)
  | [] => none
  | c :: s =>
    if Text.startsWith (c :: s) pat then some ([], (c :: s).drop pat.length)
    else (splitOnceText pat s).map fun (a, b) => (c :: a, b)

/-- The parts before and after the last `c`. -/
def rsplitOnce (c : Char) (s : Text) : Option (Text × Text) :=
  (Text.beforeLast c s).map fun before => (before, s.drop (before.length + 1))

def stripPrefixIgnoreAsciiCase (value pre : Text) : Option Text :=
  if value.length < pre.length then none
  else if Text.eqIgnoreAsciiCase (value.take pre.length) pre then some (value.drop pre.length)
  else none

/-! ### Parsing -/

inductive PortPart where
  | star
  | number (n : Nat)
deriving DecidableEq, Repr

inductive SourceExpr where
  | scheme (scheme : Text)
  | host (scheme : Option Text) (host : Text) (port : Option PortPart) (path : Option Text)
deriving DecidableEq, Repr

def isScheme : Text → Bool
  | [] => false
  | c :: cs => isAsciiAlphabetic c && cs.all fun c => isAsciiAlphanumeric c || c ∈ "+-.".toList

def validHostPart (host : Text) : Bool :=
  if host = "*".toList then true
  else
    let rest := if Text.startsWith host "*.".toList then host.drop 2 else host
    if rest = [] then false
    else
      let body := (Text.stripSuffix '.' rest).getD rest
      if body = [] then false
      else (Text.split '.' body).all fun label =>
        label ≠ [] && label.all fun c => isAsciiAlphanumeric c || c = '-'

def parsePortPart (port : Text) : Option PortPart :=
  if port = "*".toList then some .star
  else if port ≠ [] && port.all Text.isAsciiDigit then
    if Text.digitsValue port < 2 ^ 16 then some (.number (Text.digitsValue port)) else none
  else none

def splitHostPort (hostport : Text) : Option (Text × Option PortPart) :=
  if Text.startsWith hostport "[".toList then do
    let (inside, after) ← Text.splitOnce ']' hostport
    let host := inside ++ "]".toList
    if after = [] then some (host, none)
    else if Text.startsWith after ":".toList then some (host, some (← parsePortPart after.tail))
    else none
  else
    match rsplitOnce ':' hostport with
    | none => some (hostport, none)
    | some (host, port) => if port = [] then none else do some (host, some (← parsePortPart port))

/-- The scheme of a `scheme:` expression. -/
def schemeSource (expression : Text) : Option Text := do
  let scheme ← Text.stripSuffix ':' expression
  if isScheme scheme && '/' ∉ scheme then some scheme else none

/-- What `parse_source` makes of the part after the scheme. -/
def parseHostSource (scheme : Option Text) (rest : Text) : Option SourceExpr :=
  if rest = [] then none
  else
    let hostport := rest.takeWhile (· ≠ '/')
    let tail := rest.drop hostport.length
    let path := if tail = [] then none else some tail
    if path.any fun path => ';' ∈ path || ',' ∈ path then none
    else do
      let (host, port) ← splitHostPort hostport
      if validHostPart host then some (.host scheme host.toAsciiLowercase port path) else none

def parseSource (expression : Text) : Option SourceExpr :=
  if Text.eqIgnoreAsciiCase expression "'self'".toList || Text.startsWith expression "'".toList ||
      expression = "*".toList then none
  else
    match schemeSource expression with
    | some scheme => some (.scheme scheme.toAsciiLowercase)
    | none =>
      match splitOnceText "://".toList expression with
      | some (scheme, rest) =>
        if isScheme scheme then parseHostSource (some scheme.toAsciiLowercase) rest else none
      | none => parseHostSource none expression

/-! ### Matching -/

def defaultPort (scheme : Text) : Option Nat :=
  if scheme = "http".toList || scheme = "ws".toList then some 80
  else if scheme = "https".toList || scheme = "wss".toList then some 443
  else if scheme = "ftp".toList then some 21
  else none

/-- `Url::port_or_known_default`; the `url` crate knows the defaults of `default_port`. -/
def portOrKnownDefault (x : CspCrates) (url : Url) : Option Nat :=
  (x.port url).or (defaultPort url.scheme)

def originScheme : Origin → Option Text
  | .tuple scheme _ _ => some scheme
  | .opaqueOrigin _ => none

def schemePartMatches (expressionScheme urlScheme : Text) : Bool :=
  Text.eqIgnoreAsciiCase expressionScheme urlScheme ||
    (Text.eqIgnoreAsciiCase expressionScheme "http".toList &&
      Text.eqIgnoreAsciiCase urlScheme "https".toList) ||
    (Text.eqIgnoreAsciiCase expressionScheme "ws".toList &&
      urlScheme.toAsciiLowercase ∈ ["wss".toList, "http".toList, "https".toList]) ||
    (Text.eqIgnoreAsciiCase expressionScheme "wss".toList &&
      Text.eqIgnoreAsciiCase urlScheme "https".toList)

def hostPartMatches (x : CspCrates) (pattern : Text) (url : Url) : Bool :=
  match x.hostStr url with
  | none => false
  | some host =>
    if pattern = "*".toList then true
    else if Text.startsWith pattern "*.".toList then
      -- only the `*` is removed, so `*.example.com` asks for `.example.com`
      pattern.tail.isSuffixOf host.toAsciiLowercase
    else Text.eqIgnoreAsciiCase pattern host

def portPartMatches (x : CspCrates) (port : Option PortPart) (url : Url) : Bool :=
  let numbered (input : Option Nat) : Bool :=
    if input = x.port url then true
    else if (x.port url).isNone then input = defaultPort url.scheme
    else input.isNone && x.port url = defaultPort url.scheme
  match port with
  | none => numbered none
  | some .star => true
  | some (.number number) => numbered (some number)

def pathPartMatches (x : CspCrates) (pathA pathB : Text) : Bool :=
  if pathA = [] then true
  else if pathA = "/".toList && pathB = [] then true
  else
    let exact := pathA.getLast? ≠ some '/'
    let partsA := Text.split '/' pathA
    let partsB := Text.split '/' pathB
    if partsB.length < partsA.length then false
    else if exact && partsA.length ≠ partsB.length then false
    else
      let partsA := if exact then partsA else partsA.dropLast
      (partsA.zip partsB).all fun (pieceA, pieceB) =>
        x.decodeUtf8Lossy (x.percentDecode pieceA) = x.decodeUtf8Lossy (x.percentDecode pieceB)

def hostSourceMatches (x : CspCrates) (url : Url) (scheme : Option Text) (host : Text)
    (port : Option PortPart) (path : Option Text) (origin : Origin) (redirects : Nat) : Bool :=
  (match scheme.or (originScheme origin) with
    | some scheme => schemePartMatches scheme url.scheme
    | none => false) &&
  hostPartMatches x host url && portPartMatches x port url &&
  -- the path of the expression counts for the request's own URL only
  (redirects ≠ 0 || path.all fun path => path = [] || pathPartMatches x path url.path)

def hostsEqual (originHost : Host) (url : Url) : Bool :=
  match originHost, url.host with
  | .domain left, some (.domain right) => Text.eqIgnoreAsciiCase left right
  | .ipv4 left, some (.ipv4 right) => left = right
  | .ipv6 left, some (.ipv6 right) => left = right
  | _, _ => false

def selfPorts (x : CspCrates) (originScheme : Text) (originPort : Nat) (url : Url) : Bool :=
  portOrKnownDefault x url = some originPort ||
    (defaultPort originScheme = some originPort && (x.port url).isNone)

def sameOrigin (x : CspCrates) (url : Url) (origin : Origin) (documentUrl : Url) : Bool :=
  match origin with
  | .tuple .. => url.origin = origin
  | .opaqueOrigin _ => x.setFragment url none = x.setFragment documentUrl none

def selfMatches (x : CspCrates) (url : Url) (origin : Origin) (documentUrl : Url) : Bool :=
  if url.scheme = "blob".toList then false
  else if sameOrigin x url origin documentUrl then true
  else
    match origin with
    | .opaqueOrigin _ => false
    | .tuple originScheme originHost originPort =>
      hostsEqual originHost url && selfPorts x originScheme originPort url &&
        (url.scheme = "https".toList || url.scheme = "wss".toList ||
          (originScheme = "http".toList &&
            (url.scheme = "http".toList || url.scheme = "ws".toList)))

def urlMatchesExpression (x : CspCrates) (url : Url) (expression : Text) (origin : Origin)
    (documentUrl : Url) (redirects : Nat) : Bool :=
  if expression = "*".toList then
    url.scheme = "http".toList || url.scheme = "https".toList ||
      (originScheme origin).any fun scheme => Text.eqIgnoreAsciiCase scheme url.scheme
  else
    match parseSource expression with
    | some (.scheme scheme) => schemePartMatches scheme url.scheme
    | some (.host scheme host port path) =>
      hostSourceMatches x url scheme host port path origin redirects
    | none =>
      if Text.eqIgnoreAsciiCase expression "'self'".toList then selfMatches x url origin documentUrl
      else false

def urlMatchesList (x : CspCrates) (url : Url) (list : List Text) (origin : Origin)
    (documentUrl : Url) (redirects : Nat) : Bool :=
  match list with
  | [] => false
  | [only] =>
    if Text.eqIgnoreAsciiCase only "'none'".toList then false
    else urlMatchesExpression x url only origin documentUrl redirects
  | list => list.any fun expression =>
      urlMatchesExpression x url expression origin documentUrl redirects

end Csp

end TinyBrowser
