import TinyBrowser.Csp.Sources

/-!
# Policies and request checks

A policy list and its check of a request: the pre-request check of the request's own URL, the
post-request check of a redirected one, and the gate that a dial carries to every redirect hop
(`List` and `RedirectGate` in `crates/renderer/src/csp.rs`).
-/

namespace TinyBrowser.Csp
open Lib

inductive Disposition where
  | enforce
  | report
deriving DecidableEq, Repr

structure Policy where
  directives : List (Text × List Text)
  disposition : Disposition
  serialized : Text
deriving DecidableEq, Repr

structure Violation where
  effectiveDirective : Text
  originalPolicy : Text
  disposition : Disposition
  blockedUri : Text
  sample : Option Text
  documentUri : Text
  sourceFile : Option Text
  lineNumber : Nat
  columnNumber : Nat
  statusCode : Nat
  reportUris : List Text
  reportTo : List Text
deriving DecidableEq, Repr

def Violation.blocks (v : Violation) : Bool := v.disposition = .enforce

def blocks (violations : List Violation) : Bool := violations.any Violation.blocks

structure PolicyList where
  policies : List Policy
deriving DecidableEq, Repr

inductive Destination where
  | connect
  | script
  | styleSheet
  | img
  | font
  | frame
deriving DecidableEq, Repr

inductive Effective where
  | scriptSrcElem
  | scriptSrcAttr
  | scriptSrc
  | styleSrcElem
  | connectSrc
  | imgSrc
  | fontSrc
  | frameSrc
deriving DecidableEq, Repr

def Effective.name : Effective → Text
  | .scriptSrcElem => "script-src-elem".toList
  | .scriptSrcAttr => "script-src-attr".toList
  | .scriptSrc => "script-src".toList
  | .styleSrcElem => "style-src-elem".toList
  | .connectSrc => "connect-src".toList
  | .imgSrc => "img-src".toList
  | .fontSrc => "font-src".toList
  | .frameSrc => "frame-src".toList

/-- From most to least relevant, the directive itself included. -/
def Effective.fallback : Effective → List Text
  | .scriptSrcElem => ["script-src-elem".toList, "script-src".toList, "default-src".toList]
  | .scriptSrcAttr => ["script-src-attr".toList, "script-src".toList, "default-src".toList]
  | .scriptSrc => ["script-src".toList, "default-src".toList]
  | .styleSrcElem => ["style-src-elem".toList, "style-src".toList, "default-src".toList]
  | .connectSrc => ["connect-src".toList, "default-src".toList]
  | .imgSrc => ["img-src".toList, "default-src".toList]
  | .fontSrc => ["font-src".toList, "default-src".toList]
  | .frameSrc => ["frame-src".toList, "child-src".toList, "default-src".toList]

def Destination.effective : Destination → Effective
  | .connect => .connectSrc
  | .script => .scriptSrcElem
  | .styleSheet => .styleSrcElem
  | .img => .imgSrc
  | .font => .fontSrc
  | .frame => .frameSrc

structure ScriptRequest where
  nonce : Text
  parserInserted : Bool
  integrity : Text
deriving DecidableEq, Repr

/-! ### Parsing -/

def trimAscii (value : Text) : Text :=
  ((value.dropWhile Text.isAsciiWhitespace).reverse.dropWhile Text.isAsciiWhitespace).reverse

/-- One `;` token of a serialized policy, added to the directives so far. -/
def pushDirective (directives : List (Text × List Text)) (token : Text) :
    List (Text × List Text) :=
  let token := trimAscii token
  if token = [] || !token.all (·.toNat < 128) then directives
  else
    match Text.splitAsciiWhitespace token with
    | [] => directives
    | name :: value =>
      let name := name.toAsciiLowercase
      if directives.any fun (existing, _) => existing = name then directives
      else directives ++ [(name, value)]

def parseSerialized (serialized : Text) (disposition : Disposition) : Policy where
  directives := (Text.split ';' serialized).foldl pushDirective []
  disposition := disposition
  serialized := trimAscii serialized

def parsePolicyList (header : Text) (disposition : Disposition) : List Policy :=
  (((Text.split ',' header).map trimAscii).filter (· ≠ [])).filterMap fun token =>
    let policy := parseSerialized token disposition
    if policy.directives = [] then none else some policy

def PolicyList.fromHeaders (enforce reportOnly : Option Text) : PolicyList where
  policies :=
    (enforce.elim [] fun header => parsePolicyList header .enforce) ++
      reportOnly.elim [] fun header => parsePolicyList header .report

/-! ### One source list -/

def directiveValue (policy : Policy) (name : Text) : Option (List Text) :=
  (policy.directives.find? fun (directive, _) => directive = name).map Prod.snd

def nonceMatches (nonce : Text) (list : List Text) : Bool :=
  if nonce = [] then false
  else list.any fun expression =>
    ((stripPrefixIgnoreAsciiCase expression "'nonce-".toList).bind (Text.stripSuffix '\'')).any
      fun value => value = nonce && isBase64Value value

def hashSource (expression : Text) : Option (HashAlgorithm × Text) := do
  if Text.startsWith expression "'".toList then
    let (algorithm, rest) ← Text.splitOnce '-' expression.tail
    let algorithm ← HashAlgorithm.parse algorithm
    let value ← Text.stripSuffix '\'' rest
    if isBase64Value value then some (algorithm, value) else none
  else none

def integrityMatches (list : List Text) (integrity : Text) : Bool :=
  let expressions := list.filterMap hashSource
  if expressions = [] then false
  else
    let sources := parseIntegrityMetadata integrity
    if sources = [] then false else sources.all fun source => source ∈ expressions

def hasKeyword (list : List Text) (keyword : Text) : Bool :=
  list.any fun expression => Text.eqIgnoreAsciiCase expression keyword

/-- The answer of the pre-request check when it does not come to the URL. -/
def scriptCheck (list : List Text) (script : ScriptRequest) : Option Bool :=
  if nonceMatches script.nonce list then some false
  else if integrityMatches list script.integrity then some false
  else if hasKeyword list "'strict-dynamic'".toList then some script.parserInserted
  else none

def requestCheckBlocks (x : CspCrates) (effective : Effective) (list : List Text) (origin : Origin)
    (documentUrl url : Url) (script : Option ScriptRequest) (redirects : Nat) : Bool :=
  let early :=
    if redirects = 0 && (effective = .scriptSrcElem || effective = .scriptSrc) then
      scriptCheck list (script.getD ⟨[], true, []⟩)
    else none
  match early with
  | some blocked => blocked
  | none => !urlMatchesList x url list origin documentUrl redirects

/-! ### Policies -/

/-- The source list that decides: the first directive present in the fallback chain. -/
def decidingList (policy : Policy) (effective : Effective) : Option (List Text) :=
  effective.fallback.findSome? (directiveValue policy)

def policyRequestViolation (x : CspCrates) (policy : Policy) (origin : Origin)
    (documentUrl url : Url) (destination : Destination) (script : Option ScriptRequest)
    (redirects : Nat) : Bool :=
  match decidingList policy destination.effective with
  | some list =>
    requestCheckBlocks x destination.effective list origin documentUrl url script redirects
  | none => false

/-- A URL for use in violation reports. -/
def stripUrl (x : CspCrates) (url : Url) : Text :=
  if url.scheme ∈ ["http".toList, "https".toList, "ws".toList, "wss".toList] then
    (x.setPassword (x.setUsername (x.setFragment url none) []) none).asStr
  else url.scheme

def natToText (n : Nat) : Text := (toString n).toList

/-- A framed document of another origin is reported by its origin only. -/
def blockedUri (x : CspCrates) (origin : Origin) (effective : Effective) (url : Url) : Text :=
  if effective = .frameSrc && url.origin ≠ origin then
    let port := (portOrKnownDefault x url).elim [] fun port => ':' :: natToText port
    url.scheme ++ "://".toList ++ (x.hostStr url).getD [] ++ port
  else stripUrl x url

def reportUris (policy : Policy) : List Text :=
  (directiveValue policy "report-uri".toList).getD []

def reportTo (policy : Policy) : List Text :=
  (directiveValue policy "report-to".toList).getD []

/-- The record of `policy` refusing a request. -/
def requestViolation (x : CspCrates) (policy : Policy) (effective : Effective) (blockedUri : Text)
    (documentUrl : Url) : Violation where
  effectiveDirective := effective.name
  originalPolicy := policy.serialized
  disposition := policy.disposition
  blockedUri := blockedUri
  sample := none
  documentUri := stripUrl x documentUrl
  sourceFile := none
  lineNumber := 0
  columnNumber := 0
  statusCode := 0
  reportUris := reportUris policy
  reportTo := reportTo policy

namespace PolicyList

def violations (x : CspCrates) (list : PolicyList) (origin : Origin) (documentUrl url : Url)
    (destination : Destination) (script : Option ScriptRequest) (redirects : Nat) :
    List Violation :=
  list.policies.filterMap fun policy =>
    if policyRequestViolation x policy origin documentUrl url destination script redirects then
      some (requestViolation x policy destination.effective
        (blockedUri x origin destination.effective url) documentUrl)
    else none

def checkRequest (x : CspCrates) (list : PolicyList) (origin : Origin) (documentUrl url : Url)
    (destination : Destination) (script : Option ScriptRequest) : List Violation :=
  list.violations x origin documentUrl url destination script 0

/-- The violations name the request's URL, not the redirect target. -/
def checkRedirectedRequest (x : CspCrates) (list : PolicyList) (origin : Origin)
    (documentUrl responseUrl blockedUrl : Url) (destination : Destination) : List Violation :=
  (list.violations x origin documentUrl responseUrl destination none 1).map fun violation =>
    { violation with blockedUri := blockedUri x origin destination.effective blockedUrl }

end PolicyList

/-! ### The gate of a dial -/

structure TupleOrigin where
  scheme : Text
  host : Text
  port : Nat
deriving DecidableEq, Repr

def TupleOrigin.fromOrigin (x : CspCrates) : Origin → Option TupleOrigin
  | .tuple scheme host port => some ⟨scheme, x.hostToString host, port⟩
  | .opaqueOrigin _ => none

def TupleOrigin.toOrigin (x : CspCrates) (origin : TupleOrigin) : Origin :=
  .tuple origin.scheme ((x.hostParse origin.host).getD (.domain origin.host)) origin.port

structure RedirectGate where
  list : PolicyList
  origin : Option TupleOrigin
  destination : Destination
deriving DecidableEq, Repr

namespace RedirectGate

def new (x : CspCrates) (list : PolicyList) (origin : Origin) (destination : Destination) :
    RedirectGate :=
  ⟨list, TupleOrigin.fromOrigin x origin, destination⟩

/-- The origin the gate checks against; `fresh` is the number of a new opaque origin. -/
def documentOrigin (x : CspCrates) (gate : RedirectGate) (fresh : Nat) : Origin :=
  gate.origin.elim (.opaqueOrigin fresh) (TupleOrigin.toOrigin x)

def allows (x : CspCrates) (gate : RedirectGate) (fresh : Nat) (documentUrl url : Url)
    (redirects : Nat) : Bool :=
  !blocks (gate.list.violations x (gate.documentOrigin x fresh) documentUrl url gate.destination
    none redirects)

def redirectedViolations (x : CspCrates) (gate : RedirectGate) (fresh : Nat)
    (documentUrl responseUrl blockedUrl : Url) : List Violation :=
  gate.list.checkRedirectedRequest x (gate.documentOrigin x fresh) documentUrl responseUrl
    blockedUrl gate.destination

end RedirectGate

end TinyBrowser.Csp
