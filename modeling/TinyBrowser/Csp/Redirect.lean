import TinyBrowser.Csp.Policy

/-!
# Redirects

A redirected request is checked against the same source lists with paths ignored, so the check
depends on the scheme, host and port of the target only (`redirect_check_blind`), and its reports on
which policies are violated. It is a check of the URL alone: a nonce, integrity metadata or
`'strict-dynamic'` that let the script out do not let it follow a redirect
(`redirect_admitted_iff_covers`).
-/

namespace TinyBrowser.Csp
open Lib

/-- Special schemes, whose URLs have a tuple origin. -/
def isNetworkScheme (scheme : Text) : Bool :=
  scheme ∈ ["http".toList, "https".toList, "ws".toList, "wss".toList, "ftp".toList]

/-- What the URL standard says of a URL's origin: that of a special URL is its scheme, host and
port, that of another one is opaque. A `blob:` URL has the origin of the URL in its path. -/
structure OriginLaws (x : CspCrates) (url : Url) : Prop where
  tupleOf : isNetworkScheme url.scheme = true → ∃ host port, url.host = some host ∧
    portOrKnownDefault x url = some port ∧ url.origin = .tuple url.scheme host port
  opaqueOf : isNetworkScheme url.scheme = false → url.scheme ≠ "blob".toList →
    ∃ id, url.origin = .opaqueOrigin id

/-- URLs that differ in path, query and fragment at most. -/
structure SameEndpoint (x : CspCrates) (u v : Url) : Prop where
  scheme : u.scheme = v.scheme
  host : u.host = v.host
  port : x.port u = x.port v

namespace SameEndpoint

variable {x : CspCrates} {u v : Url}

theorem portOrKnownDefault (h : SameEndpoint x u v) :
    portOrKnownDefault x u = portOrKnownDefault x v := by
  rw [Csp.portOrKnownDefault, Csp.portOrKnownDefault, h.port, h.scheme]

theorem hostPartMatches (h : SameEndpoint x u v) (pattern : Text) :
    hostPartMatches x pattern u = hostPartMatches x pattern v := by
  rw [Csp.hostPartMatches, Csp.hostPartMatches, CspCrates.hostStr, CspCrates.hostStr, h.host]

theorem portPartMatches (h : SameEndpoint x u v) (port : Option PortPart) :
    portPartMatches x port u = portPartMatches x port v := by
  simp only [Csp.portPartMatches, h.port, h.scheme]

theorem tuple_iff (h : SameEndpoint x u v) (hu : OriginLaws x u) (hv : OriginLaws x v)
    (hblob : u.scheme ≠ "blob".toList) (scheme : Text) (host : Host) (port : Nat) :
    u.origin = .tuple scheme host port ↔ v.origin = .tuple scheme host port := by
  cases hspecial : isNetworkScheme u.scheme with
  | true =>
    obtain ⟨host', port', hhost, hport, horigin⟩ := hu.tupleOf hspecial
    obtain ⟨host'', port'', hhost', hport', horigin'⟩ := hv.tupleOf (h.scheme ▸ hspecial)
    rw [h.host, hhost'] at hhost
    rw [h.portOrKnownDefault, hport'] at hport
    rw [horigin, horigin', h.scheme, Option.some.inj hhost, Option.some.inj hport]
  | false =>
    obtain ⟨id, horigin⟩ := hu.opaqueOf hspecial hblob
    obtain ⟨id', horigin'⟩ := hv.opaqueOf (h.scheme ▸ hspecial) (h.scheme ▸ hblob)
    rw [horigin, horigin']
    simp

theorem selfMatches (h : SameEndpoint x u v) (hu : OriginLaws x u) (hv : OriginLaws x v)
    (scheme : Text) (host : Host) (port : Nat) (documentUrl : Url) :
    selfMatches x u (.tuple scheme host port) documentUrl =
      selfMatches x v (.tuple scheme host port) documentUrl := by
  by_cases hblob : u.scheme = "blob".toList
  · rw [Csp.selfMatches, Csp.selfMatches, if_pos hblob, if_pos (h.scheme ▸ hblob)]
  · have hsame : sameOrigin x u (.tuple scheme host port) documentUrl =
        sameOrigin x v (.tuple scheme host port) documentUrl :=
      decide_eq_decide.2 (h.tuple_iff hu hv hblob scheme host port)
    simp only [Csp.selfMatches, hsame, hostsEqual, selfPorts, h.scheme, h.host, h.port,
      h.portOrKnownDefault]

variable {redirects : Nat}

theorem hostSourceMatches (h : SameEndpoint x u v) (scheme : Option Text) (host : Text)
    (port : Option PortPart) (path : Option Text) (origin : Origin)
    (hr : redirects ≠ 0) :
    hostSourceMatches x u scheme host port path origin redirects =
      hostSourceMatches x v scheme host port path origin redirects := by
  simp only [Csp.hostSourceMatches, h.scheme, h.hostPartMatches, h.portPartMatches, decide_eq_true hr,
    Bool.true_or]

theorem urlMatchesExpression (h : SameEndpoint x u v) (hu : OriginLaws x u) (hv : OriginLaws x v)
    (expression : Text) (scheme : Text) (host : Host) (port : Nat) (documentUrl : Url) (hr : redirects ≠ 0) :
    urlMatchesExpression x u expression (.tuple scheme host port) documentUrl redirects =
      urlMatchesExpression x v expression (.tuple scheme host port) documentUrl redirects := by
  simp only [Csp.urlMatchesExpression, h.scheme, h.selfMatches hu hv,
    h.hostSourceMatches _ _ _ _ _ hr]

theorem urlMatchesList (h : SameEndpoint x u v) (hu : OriginLaws x u) (hv : OriginLaws x v)
    (list : List Text) (scheme : Text) (host : Host) (port : Nat) (documentUrl : Url) (hr : redirects ≠ 0) :
    urlMatchesList x u list (.tuple scheme host port) documentUrl redirects =
      urlMatchesList x v list (.tuple scheme host port) documentUrl redirects := by
  rcases list with _ | ⟨a, _ | ⟨b, list⟩⟩
  · rfl
  · simp only [Csp.urlMatchesList, h.urlMatchesExpression hu hv _ _ _ _ _ hr]
  · simp only [Csp.urlMatchesList, h.urlMatchesExpression hu hv _ _ _ _ _ hr]

theorem policyRequestViolation (h : SameEndpoint x u v) (hu : OriginLaws x u) (hv : OriginLaws x v)
    (policy : Policy) (scheme : Text) (host : Host) (port : Nat) (documentUrl : Url)
    (destination : Destination) (script : Option ScriptRequest)
    (hr : redirects ≠ 0) :
    policyRequestViolation x policy (.tuple scheme host port) documentUrl u destination script
        redirects =
      policyRequestViolation x policy (.tuple scheme host port) documentUrl v destination script
        redirects := by
  simp only [Csp.policyRequestViolation, requestCheckBlocks, h.urlMatchesList hu hv _ _ _ _ _ hr]

end SameEndpoint

variable {origin : Origin} {list : PolicyList}

theorem checkRedirectedRequest_congr (x : CspCrates)
    {documentUrl : Url} {destination : Destination} {u v : Url}
    (h : ∀ policy ∈ list.policies,
      policyRequestViolation x policy origin documentUrl u destination none 1 =
        policyRequestViolation x policy origin documentUrl v destination none 1)
    (blockedUrl : Url) :
    list.checkRedirectedRequest x origin documentUrl u blockedUrl destination =
      list.checkRedirectedRequest x origin documentUrl v blockedUrl destination := by
  simp only [PolicyList.checkRedirectedRequest, PolicyList.violations, List.map_filterMap]
  refine List.filterMap_congr fun policy hp => ?_
  rw [h policy hp]
  split_ifs <;> rfl

/-- From the first redirect on, the target counts by its scheme, host and port, and a report by the
policies that are violated. -/
theorem redirect_check_blind {x : CspCrates} {u v : Url} (hu : OriginLaws x u)
    (hv : OriginLaws x v) (h : SameEndpoint x u v) {redirects : Nat} (hr : 1 ≤ redirects)
    (list : PolicyList) (scheme : Text) (host : Host) (port : Nat) (documentUrl : Url)
    (destination : Destination) (script : Option ScriptRequest) :
    (∀ policy ∈ list.policies,
      policyRequestViolation x policy (.tuple scheme host port) documentUrl u destination script
          redirects =
        policyRequestViolation x policy (.tuple scheme host port) documentUrl v destination script
          redirects) ∧
    ∀ (origin : Origin) (u' v' blockedUrl : Url),
      (∀ policy ∈ list.policies,
        policyRequestViolation x policy origin documentUrl u' destination none 1 =
          policyRequestViolation x policy origin documentUrl v' destination none 1) →
      list.checkRedirectedRequest x origin documentUrl u' blockedUrl destination =
        list.checkRedirectedRequest x origin documentUrl v' blockedUrl destination := by
  refine ⟨fun policy _ => ?_, fun origin u' v' blockedUrl hsame => ?_⟩
  · exact h.policyRequestViolation hu hv policy scheme host port documentUrl destination script
      (by omega)
  · exact checkRedirectedRequest_congr x hsame blockedUrl

/-- `sample` of the other crates, URLs without a port, and bytes read as ISO 8859-1. -/
def CspCrates.sample : CspCrates where
  toNetCrates := NetCrates.sample
  port _ := none
  hostToString
    | .domain d => d
    | .ipv4 _ => "1.2.3.4".toList
    | .ipv6 _ => []
  decodeUtf8Lossy := isomorphicDecode

/-- `https://example.com` followed by `path`. -/
def sampleUrl (path : Text) : Url :=
  { Url.sample with path := path, asStr := "https://example.com".toList ++ path }

theorem sampleUrl_laws (path : Text) : OriginLaws CspCrates.sample (sampleUrl path) := by
  have hspecial : isNetworkScheme "https".toList = true := by simp [isNetworkScheme]
  have hport : portOrKnownDefault CspCrates.sample (sampleUrl path) = some 443 := by
    simp [portOrKnownDefault, CspCrates.sample, sampleUrl, Url.sample, defaultPort]
  exact ⟨fun _ => ⟨_, 443, rfl, hport, rfl⟩,
    fun h => absurd (hspecial.symm.trans h) Bool.true_eq_false.mp⟩

theorem sampleUrl_sameEndpoint (path path' : Text) :
    SameEndpoint CspCrates.sample (sampleUrl path) (sampleUrl path') := ⟨rfl, rfl, rfl⟩

theorem redirect_check_blind_sample :
    (∀ policy ∈ (PolicyList.fromHeaders (some "script-src https://example.com/a".toList)
        none).policies,
      policyRequestViolation CspCrates.sample policy
          (.tuple "https".toList (.domain "example.com".toList) 443) Url.sample
          (sampleUrl "/a".toList) .script none 1 =
        policyRequestViolation CspCrates.sample policy
          (.tuple "https".toList (.domain "example.com".toList) 443) Url.sample
          (sampleUrl "/b".toList) .script none 1) ∧
    ∀ (origin : Origin) (u' v' blockedUrl : Url),
      (∀ policy ∈ (PolicyList.fromHeaders (some "script-src https://example.com/a".toList)
          none).policies,
        policyRequestViolation CspCrates.sample policy origin Url.sample u' .script none 1 =
          policyRequestViolation CspCrates.sample policy origin Url.sample v' .script none 1) →
      (PolicyList.fromHeaders (some "script-src https://example.com/a".toList)
          none).checkRedirectedRequest CspCrates.sample origin Url.sample u' blockedUrl .script =
        (PolicyList.fromHeaders (some "script-src https://example.com/a".toList)
          none).checkRedirectedRequest CspCrates.sample origin Url.sample v' blockedUrl .script :=
  redirect_check_blind (sampleUrl_laws _) (sampleUrl_laws _) (sampleUrl_sameEndpoint _ _)
    (by omega) _ _ _ _ _ _ _

/-! ### What lets a script out, and what lets it follow a redirect -/

/-- The pre-request check passes the script before it comes to the URL. -/
def Trusted (sources : List Text) (script : ScriptRequest) : Prop :=
  nonceMatches script.nonce sources = true ∨ integrityMatches sources script.integrity = true ∨
    hasKeyword sources "'strict-dynamic'".toList = true ∧ script.parserInserted = false

/-- The expression admits `hop` as a redirect target; its path plays no part. -/
inductive Covers (x : CspCrates) (origin : Origin) (documentUrl hop : Url) : Text → Prop
  | any : Covers x origin documentUrl hop "*".toList
  | scheme {expression scheme : Text} (parsed : parseSource expression = some (.scheme scheme))
      (schemes : schemePartMatches scheme hop.scheme = true) :
      Covers x origin documentUrl hop expression
  | host {expression host : Text} {scheme : Option Text} {port : Option PortPart}
      {path : Option Text} (parsed : parseSource expression = some (.host scheme host port path))
      (schemes : ∃ s ∈ scheme.or (originScheme origin), schemePartMatches s hop.scheme = true)
      (hosts : hostPartMatches x host hop = true) (ports : portPartMatches x port hop = true) :
      Covers x origin documentUrl hop expression
  | self {expression : Text} (keyword : Text.eqIgnoreAsciiCase expression "'self'".toList = true)
      (own : selfMatches x hop origin documentUrl = true) : Covers x origin documentUrl hop expression

theorem parseSource_keyword {expression keyword : Text}
    (h : Text.eqIgnoreAsciiCase expression ('\'' :: keyword) = true) :
    parseSource expression = none := by
  have hquote : Text.startsWith expression "'".toList = true := by
    cases expression with
    | nil => simp [Text.eqIgnoreAsciiCase, Text.toAsciiLowercase] at h
    | cons c cs =>
      simp only [Text.eqIgnoreAsciiCase, Text.toAsciiLowercase, List.map_cons,
        decide_eq_true_eq, List.cons.injEq] at h
      rw [Text.eq_of_asciiLower (by decide) (h.1.trans (by decide : _ = '\''))]
      rfl
  rw [parseSource, if_pos (by rw [hquote]; simp)]

variable {redirects : Nat} {documentUrl hop : Url}

/-- After a redirect the matching of one expression is `Covers`. -/
theorem urlMatchesExpression_iff {x : CspCrates} (hr : redirects ≠ 0)
    (hhttp : hop.scheme = "http".toList ∨ hop.scheme = "https".toList) (expression : Text) :
    urlMatchesExpression x hop expression origin documentUrl redirects = true ↔
      Covers x origin documentUrl hop expression := by
  by_cases hany : expression = "*".toList
  · have hmatch : urlMatchesExpression x hop expression origin documentUrl redirects = true := by
      rw [urlMatchesExpression, if_pos hany]
      rcases hhttp with h | h <;> simp [h]
    exact ⟨fun _ => hany ▸ .any, fun _ => hmatch⟩
  · rw [urlMatchesExpression, if_neg hany]
    constructor
    · intro h
      split at h
      · rename_i scheme hparsed
        exact .scheme hparsed h
      · rename_i scheme host port path hparsed
        simp only [hostSourceMatches, Bool.and_eq_true] at h
        obtain ⟨⟨⟨hschemes, hhosts⟩, hports⟩, -⟩ := h
        refine .host hparsed ?_ hhosts hports
        split at hschemes
        · exact ⟨_, ‹_›, hschemes⟩
        · cases hschemes
      · split at h
        · exact .self ‹_› h
        · cases h
    · intro h
      cases h with
      | any => exact absurd rfl hany
      | scheme parsed schemes =>
        rw [parsed]
        exact schemes
      | host parsed schemes hosts ports =>
        obtain ⟨scheme, hscheme, hmatch⟩ := schemes
        rw [parsed]
        simp only [hostSourceMatches, Option.mem_def.1 hscheme, hmatch, hosts, ports,
          decide_eq_true hr, Bool.true_or, Bool.and_true]
      | self keyword own =>
        rw [parseSource_keyword keyword]
        exact (if_pos keyword).trans own

theorem urlMatchesList_iff {x : CspCrates} (hr : redirects ≠ 0)
    (hhttp : hop.scheme = "http".toList ∨ hop.scheme = "https".toList) (list : List Text) :
    urlMatchesList x hop list origin documentUrl redirects = true ↔
      ∃ expression ∈ list, Covers x origin documentUrl hop expression := by
  rcases list with _ | ⟨only, _ | ⟨second, list⟩⟩
  · simp [urlMatchesList]
  · rw [urlMatchesList]
    split_ifs with hnone
    · -- `'none'` on its own covers nothing either
      suffices ¬ Covers x origin documentUrl hop only by simpa using this
      intro h
      cases h with
      | any => exact absurd hnone (by decide)
      | scheme parsed => rw [parseSource_keyword hnone] at parsed; cases parsed
      | host parsed => rw [parseSource_keyword hnone] at parsed; cases parsed
      | self keyword =>
        simp only [Text.eqIgnoreAsciiCase, decide_eq_true_eq] at hnone keyword
        exact absurd (hnone.symm.trans keyword) (by decide)
    · simpa using urlMatchesExpression_iff hr hhttp only
  · simp only [urlMatchesList, List.any_eq_true, urlMatchesExpression_iff hr hhttp]

theorem scriptCheck_of_trusted {sources : List Text} {script : ScriptRequest}
    (h : Trusted sources script) : scriptCheck sources script = some false := by
  rw [scriptCheck]
  split_ifs with hnonce hintegrity hdynamic
  · rfl
  · rfl
  · rcases h with h | h | ⟨-, h⟩
    · exact absurd h hnonce
    · exact absurd h hintegrity
    · rw [h]
  · rcases h with h | h | ⟨h, -⟩
    · exact absurd h hnonce
    · exact absurd h hintegrity
    · exact absurd h hdynamic

/-- The lists of enforced policies that decide about scripts. -/
def ScriptSources (list : PolicyList) (sources : List Text) : Prop :=
  ∃ policy ∈ list.policies, policy.disposition = .enforce ∧
    decidingList policy .scriptSrcElem = some sources

theorem blocks_violations_eq_false {x : CspCrates}
    {documentUrl url : Url} {script : Option ScriptRequest} :
    blocks (list.violations x origin documentUrl url .script script redirects) = false ↔
      ∀ sources, ScriptSources list sources →
        requestCheckBlocks x .scriptSrcElem sources origin documentUrl url script redirects =
          false := by
  rw [← Bool.not_eq_true, blocks, List.any_eq_true]
  constructor
  · rintro h sources ⟨policy, hp, henforce, hdecides⟩
    by_contra hblocks
    rw [Bool.not_eq_false] at hblocks
    have hviolated : policyRequestViolation x policy origin documentUrl url .script script
        redirects = true := by
      simp only [policyRequestViolation, Destination.effective, hdecides]
      exact hblocks
    exact h ⟨_, List.mem_filterMap.2 ⟨policy, hp, if_pos hviolated⟩, decide_eq_true henforce⟩
  · rintro h ⟨violation, hv, henforce⟩
    obtain ⟨policy, hp, hsome⟩ := List.mem_filterMap.1 hv
    split_ifs at hsome with hviolated
    obtain rfl := Option.some.inj hsome
    simp only [policyRequestViolation, Destination.effective] at hviolated
    split at hviolated
    · rename_i sources hdecides
      rw [h sources ⟨policy, hp, of_decide_eq_true henforce, hdecides⟩] at hviolated
      cases hviolated
    · cases hviolated

theorem blocks_map_blockedUri (violations : List Violation) (uri : Text) :
    blocks (violations.map fun violation => { violation with blockedUri := uri }) =
      blocks violations := by
  rw [blocks, blocks, List.any_map]
  rfl

theorem urlMatchesList_opaque (x : CspCrates) (url : Url) (list : List Text) (id id' : Nat)
    (documentUrl : Url) (redirects : Nat) :
    urlMatchesList x url list (.opaqueOrigin id) documentUrl redirects =
      urlMatchesList x url list (.opaqueOrigin id') documentUrl redirects := rfl

theorem RedirectGate.urlMatchesList_documentOrigin {x : CspCrates}
    (horigin : ∀ scheme host port, origin = .tuple scheme host port →
      x.hostParse (x.hostToString host) = some host)
    (policies : PolicyList) (destination : Destination) (fresh : Nat) (url : Url) (list : List Text)
    (documentUrl : Url) (redirects : Nat) :
    urlMatchesList x url list ((RedirectGate.new x policies origin destination).documentOrigin x fresh)
        documentUrl redirects = urlMatchesList x url list origin documentUrl redirects := by
  cases origin with
  | opaqueOrigin id => exact urlMatchesList_opaque x url list fresh id documentUrl redirects
  | tuple scheme host port =>
    have hback : (RedirectGate.new x policies (.tuple scheme host port) destination).documentOrigin x
        fresh = .tuple scheme host port := by
      show Origin.tuple scheme ((x.hostParse (x.hostToString host)).getD _) port = _
      rw [horigin scheme host port rfl]
      rfl
    rw [hback]

theorem not_blocks_hop_iff {x : CspCrates}
    (hhttp : hop.scheme = "http".toList ∨ hop.scheme = "https".toList) (hr : redirects ≠ 0)
    (script : Option ScriptRequest) :
    blocks (list.violations x origin documentUrl hop .script script redirects) = false ↔
      ∀ sources, ScriptSources list sources →
        ∃ expression ∈ sources, Covers x origin documentUrl hop expression := by
  rw [blocks_violations_eq_false]
  refine forall_congr' fun sources => imp_congr_right fun _ => ?_
  rw [← urlMatchesList_iff hr hhttp]
  simp [requestCheckBlocks, hr]

/-- The pre-request check lets the script out, and at least one policy does so because of its nonce,
its integrity metadata or `'strict-dynamic'`. -/
structure TrustedRequest (x : CspCrates) (list : PolicyList) (origin : Origin)
    (documentUrl url : Url) (script : ScriptRequest) : Prop where
  trusts : ∃ sources, ScriptSources list sources ∧ Trusted sources script
  others : ∀ sources, ScriptSources list sources → Trusted sources script ∨
    hasKeyword sources "'strict-dynamic'".toList = false ∧
      urlMatchesList x url sources origin documentUrl 0 = true

theorem TrustedRequest.not_blocked {x : CspCrates}
    {documentUrl url : Url} {script : ScriptRequest}
    (h : TrustedRequest x list origin documentUrl url script) :
    blocks (list.checkRequest x origin documentUrl url .script (some script)) = false := by
  refine blocks_violations_eq_false.2 fun sources hsources => ?_
  have hearly : scriptCheck sources script = some false ∨ scriptCheck sources script = none ∧
      urlMatchesList x url sources origin documentUrl 0 = true := by
    rcases h.others sources hsources with htrusted | ⟨hdynamic, hurl⟩
    · exact .inl (scriptCheck_of_trusted htrusted)
    · rw [scriptCheck, hdynamic, if_neg Bool.false_ne_true]
      split_ifs
      · exact .inl rfl
      · exact .inl rfl
      · exact .inr ⟨rfl, hurl⟩
  rcases hearly with hearly | ⟨hearly, hurl⟩
  · simp [requestCheckBlocks, hearly]
  · simp [requestCheckBlocks, hearly, hurl]

/-- The redirect of a script request to `hop` goes through: the gate of its dial follows it, and
neither form of the post-request check blocks the response. -/
structure AdmitsHop (x : CspCrates) (list : PolicyList) (origin : Origin) (documentUrl url hop : Url)
    (fresh redirects : Nat) : Prop where
  gate : (RedirectGate.new x list origin .script).allows x fresh documentUrl hop redirects = true
  gatePost : blocks ((RedirectGate.new x list origin .script).redirectedViolations x fresh
    documentUrl hop url) = false
  post : blocks (list.checkRedirectedRequest x origin documentUrl hop url .script) = false

theorem admitsHop_iff {x : CspCrates}
    (horigin : ∀ scheme host port, origin = .tuple scheme host port →
      x.hostParse (x.hostToString host) = some host)
    {documentUrl url hop : Url} (hhttp : hop.scheme = "http".toList ∨ hop.scheme = "https".toList)
    (fresh : Nat) (hr : redirects ≠ 0) :
    AdmitsHop x list origin documentUrl url hop fresh redirects ↔
      ∀ sources, ScriptSources list sources →
        ∃ expression ∈ sources, Covers x origin documentUrl hop expression := by
  -- the gate's origin decides as the document's does
  have hgate : ∀ redirects ≠ 0,
      blocks (list.violations x ((RedirectGate.new x list origin .script).documentOrigin x fresh)
        documentUrl hop .script none redirects) =
      blocks (list.violations x origin documentUrl hop .script none redirects) := by
    intro redirects hr
    rw [Bool.eq_iff_iff, ← not_iff_not, Bool.not_eq_true, Bool.not_eq_true,
      blocks_violations_eq_false, blocks_violations_eq_false]
    simp only [requestCheckBlocks, hr, decide_false, Bool.false_and, Bool.false_eq_true, if_false,
      RedirectGate.urlMatchesList_documentOrigin horigin]
  have hcheck : ∀ o, blocks (list.checkRedirectedRequest x o documentUrl hop url .script) =
      blocks (list.violations x o documentUrl hop .script none 1) := fun o =>
    blocks_map_blockedUri _ _
  constructor
  · intro h
    exact (not_blocks_hop_iff hhttp Nat.one_ne_zero none).1 ((hcheck origin).symm.trans h.post)
  · intro h
    refine ⟨?_, ?_, (hcheck origin).trans ((not_blocks_hop_iff hhttp Nat.one_ne_zero none).2 h)⟩
    · rw [RedirectGate.allows, Bool.not_eq_true']
      exact (hgate redirects hr).trans ((not_blocks_hop_iff hhttp hr none).2 h)
    · exact (hcheck _).trans
        ((hgate 1 Nat.one_ne_zero).trans ((not_blocks_hop_iff hhttp Nat.one_ne_zero none).2 h))

/-- A script that a nonce, integrity metadata or `'strict-dynamic'` let out follows a redirect when
every list that decides names the target by a URL source. -/
theorem redirect_admitted_iff_covers {x : CspCrates} {list : PolicyList} {origin : Origin}
    (horigin : ∀ scheme host port, origin = .tuple scheme host port →
      x.hostParse (x.hostToString host) = some host)
    {documentUrl url hop : Url} {script : ScriptRequest}
    (htrusted : TrustedRequest x list origin documentUrl url script)
    (hhttp : hop.scheme = "http".toList ∨ hop.scheme = "https".toList)
    (fresh : Nat) {redirects : Nat} (hr : 1 ≤ redirects) :
    blocks (list.checkRequest x origin documentUrl url .script (some script)) = false ∧
      (AdmitsHop x list origin documentUrl url hop fresh redirects ↔
        ∀ sources, ScriptSources list sources →
          ∃ expression ∈ sources, Covers x origin documentUrl hop expression) :=
  ⟨htrusted.not_blocked, admitsHop_iff horigin hhttp fresh (by omega)⟩

/-- A policy of one header. -/
def headerPolicy (header : String) : PolicyList := PolicyList.fromHeaders (some header.toList) none

theorem redirect_admitted_iff_covers_sample :
    blocks ((headerPolicy "script-src 'nonce-abc' https:").checkRequest CspCrates.sample
        Url.sample.origin Url.sample (sampleUrl "/a".toList) .script
        (some ⟨"abc".toList, true, []⟩)) = false ∧
      (AdmitsHop CspCrates.sample (headerPolicy "script-src 'nonce-abc' https:") Url.sample.origin
          Url.sample (sampleUrl "/a".toList) (sampleUrl "/b".toList) 0 1 ↔
        ∀ sources, ScriptSources (headerPolicy "script-src 'nonce-abc' https:") sources →
          ∃ expression ∈ sources,
            Covers CspCrates.sample Url.sample.origin Url.sample (sampleUrl "/b".toList)
              expression) := by
  have hpolicies : (headerPolicy "script-src 'nonce-abc' https:").policies =
      [⟨[("script-src".toList, ["'nonce-abc'".toList, "https:".toList])], .enforce,
        "script-src 'nonce-abc' https:".toList⟩] := by decide +kernel
  have htrusts : Trusted ["'nonce-abc'".toList, "https:".toList] ⟨"abc".toList, true, []⟩ :=
    .inl (by decide +kernel)
  refine redirect_admitted_iff_covers ?_ ⟨⟨_, ⟨_, by rw [hpolicies]; exact List.mem_singleton.2 rfl,
    rfl, rfl⟩, htrusts⟩, ?_⟩ (.inr rfl) 0 (by omega)
  · rintro _ _ _ ⟨⟩
    rfl
  · rintro sources ⟨policy, hp, -, hdecides⟩
    rw [hpolicies] at hp
    obtain rfl := List.mem_singleton.1 hp
    obtain rfl := Option.some.inj hdecides
    exact .inl htrusts

/-- Under `'nonce-abc' 'strict-dynamic'` a script with the nonce is let out and its redirect is not,
not even to the document's own origin. -/
theorem not_admitted_of_strictDynamic :
    TrustedRequest CspCrates.sample (headerPolicy "script-src 'nonce-abc' 'strict-dynamic'")
        Url.sample.origin Url.sample (sampleUrl "/a".toList) ⟨"abc".toList, false, []⟩ ∧
      ¬ AdmitsHop CspCrates.sample (headerPolicy "script-src 'nonce-abc' 'strict-dynamic'")
        Url.sample.origin Url.sample (sampleUrl "/a".toList) (sampleUrl "/b".toList) 0 1 := by
  have hpolicies : (headerPolicy "script-src 'nonce-abc' 'strict-dynamic'").policies =
      [⟨[("script-src".toList, ["'nonce-abc'".toList, "'strict-dynamic'".toList])], .enforce,
        "script-src 'nonce-abc' 'strict-dynamic'".toList⟩] := by decide +kernel
  have htrusts : Trusted ["'nonce-abc'".toList, "'strict-dynamic'".toList]
      ⟨"abc".toList, false, []⟩ := .inl (by decide +kernel)
  refine ⟨⟨⟨_, ⟨_, by rw [hpolicies]; exact List.mem_singleton.2 rfl, rfl, rfl⟩, htrusts⟩, ?_⟩,
    fun h => ?_⟩
  · rintro sources ⟨policy, hp, -, hdecides⟩
    rw [hpolicies] at hp
    obtain rfl := List.mem_singleton.1 hp
    obtain rfl := Option.some.inj hdecides
    exact .inl htrusts
  · have hgate := h.gate
    revert hgate
    decide +kernel

end TinyBrowser.Csp
