import TinyBrowser.Csp.Redirect

/-!
# Upgraded URLs

A source list without port numbers that admits a URL on its default port admits the same URL with the
secure scheme (`urlMatchesList_upgrade`): the schemes, the ports and `'self'` each have a rule for it.
`*` has one for HTTP only. What a list admits does not depend on the order of its expressions.
-/

namespace TinyBrowser.Csp
open Lib

/-- `v` is `u` with the secure scheme, both on the default port. -/
structure Upgraded (x : CspCrates) (u v : Url) : Prop where
  schemes : u.scheme = "http".toList ∧ v.scheme = "https".toList ∨
    u.scheme = "ws".toList ∧ v.scheme = "wss".toList
  host : v.host = u.host
  path : v.path = u.path
  port : x.port u = none
  port' : x.port v = none

/-- Not a host with a port number. -/
def Portless (expression : Text) : Prop :=
  ∀ scheme host number path, parseSource expression ≠ some (.host scheme host (some (.number number)) path)

/-- `*` is for HTTP and for the scheme of the document. -/
def StarFollows (list : List Text) (originScheme : Text) (url : Url) : Prop :=
  "*".toList ∈ list → url.scheme = "ws".toList → Text.eqIgnoreAsciiCase originScheme "ws".toList = false

/-! ### The parts of an expression -/

theorem schemePartMatches_http (scheme : Text)
    (h : schemePartMatches scheme "http".toList = true) : schemePartMatches scheme "https".toList = true := by
  have hnot : Text.eqIgnoreAsciiCase "http".toList "https".toList = false := by decide
  simp only [schemePartMatches, Bool.or_eq_true, Bool.and_eq_true, hnot] at h ⊢
  rcases h with ((h | ⟨-, h⟩) | ⟨h, -⟩) | ⟨-, h⟩
  · exact .inl (.inl (.inr ⟨h, Text.eqIgnoreAsciiCase_self _⟩))
  · cases h
  · exact .inl (.inr ⟨h, by decide⟩)
  · cases h

theorem schemePartMatches_ws (scheme : Text)
    (h : schemePartMatches scheme "ws".toList = true) : schemePartMatches scheme "wss".toList = true := by
  have hnot : Text.eqIgnoreAsciiCase "ws".toList "https".toList = false := by decide
  simp only [schemePartMatches, Bool.or_eq_true, Bool.and_eq_true, hnot] at h ⊢
  rcases h with ((h | ⟨-, h⟩) | ⟨-, h⟩) | ⟨-, h⟩
  · exact .inl (.inr ⟨h, by decide⟩)
  · cases h
  · exact absurd h (by decide)
  · cases h

variable {x : CspCrates} {u v : Url}

namespace Upgraded

theorem schemePartMatches (h : Upgraded x u v) (scheme : Text)
    (hu : schemePartMatches scheme u.scheme = true) : schemePartMatches scheme v.scheme = true := by
  rcases h.schemes with ⟨hus, hvs⟩ | ⟨hus, hvs⟩
  · rw [hvs]
    exact schemePartMatches_http scheme (hus ▸ hu)
  · rw [hvs]
    exact schemePartMatches_ws scheme (hus ▸ hu)

theorem hostPartMatches (h : Upgraded x u v) (pattern : Text) :
    hostPartMatches x pattern v = hostPartMatches x pattern u := by
  rw [Csp.hostPartMatches, Csp.hostPartMatches, CspCrates.hostStr, CspCrates.hostStr, h.host]

theorem portPartMatches (h : Upgraded x u v) {port : Option PortPart}
    (hport : ∀ number, port ≠ some (.number number)) : portPartMatches x port v = true := by
  match port with
  | none => simp only [Csp.portPartMatches, h.port', if_true]
  | some .star => rfl
  | some (.number number) => exact absurd rfl (hport number)

theorem hostSourceMatches (h : Upgraded x u v) {scheme : Option Text} {host : Text}
    {port : Option PortPart} {path : Option Text} {origin : Origin} {redirects : Nat}
    (hport : ∀ number, port ≠ some (.number number))
    (hu : hostSourceMatches x u scheme host port path origin redirects = true) :
    hostSourceMatches x v scheme host port path origin redirects = true := by
  simp only [Csp.hostSourceMatches, Bool.and_eq_true, h.hostPartMatches, h.path] at hu ⊢
  obtain ⟨⟨⟨hscheme, hhost⟩, -⟩, hpath⟩ := hu
  refine ⟨⟨⟨?_, hhost⟩, h.portPartMatches hport⟩, hpath⟩
  cases hs : scheme.or (originScheme origin) with
  | none =>
    rw [hs] at hscheme
    cases hscheme
  | some scheme =>
    rw [hs] at hscheme
    exact h.schemePartMatches scheme hscheme

/-! ### The document's own origin -/

theorem hostsEqual_self {host : Host} {url : Url} (h : url.host = some host) :
    hostsEqual host url = true := by
  cases host <;> simp [hostsEqual, h]

/-- `'self'` admits no URL of these schemes but from a document on the default port of `http` or of the
URL's own scheme. -/
theorem selfMatches (h : Upgraded x u v) (hlaws : OriginLaws x u) {scheme : Text} {host : Host} {port : Nat}
    {documentUrl : Url} (hu : selfMatches x u (.tuple scheme host port) documentUrl = true) :
    selfMatches x v (.tuple scheme host port) documentUrl = true := by
  have hnetwork : isNetworkScheme u.scheme = true := by
    rcases h.schemes with ⟨hs, -⟩ | ⟨hs, -⟩ <;> simp [isNetworkScheme, hs]
  have hknown : portOrKnownDefault x u = some 80 := by
    rcases h.schemes with ⟨hs, -⟩ | ⟨hs, -⟩ <;>
      simp [portOrKnownDefault, h.port, hs, defaultPort]
  have hown : hostsEqual host u = true ∧ defaultPort scheme = some port := by
    obtain ⟨host', port', hhost, hport, horigin⟩ := hlaws.tupleOf hnetwork
    obtain rfl := Option.some.inj (hknown.symm.trans hport)
    rw [Csp.selfMatches] at hu
    split_ifs at hu with hblob hsame
    · rw [sameOrigin, decide_eq_true_eq, horigin, Origin.tuple.injEq] at hsame
      obtain ⟨rfl, rfl, rfl⟩ := hsame
      refine ⟨hostsEqual_self hhost, ?_⟩
      rcases h.schemes with ⟨hs, -⟩ | ⟨hs, -⟩ <;> rw [hs] <;> rfl
    · simp only [Bool.and_eq_true, Bool.or_eq_true, decide_eq_true_eq, selfPorts, hknown] at hu
      obtain ⟨⟨hhosts, hports⟩, hschemes⟩ := hu
      have hhttp : scheme = "http".toList := by
        rcases hschemes with (hs | hs) | ⟨hs, -⟩
        · rcases h.schemes with ⟨hus, -⟩ | ⟨hus, -⟩ <;> exact absurd (hus.symm.trans hs) (by decide)
        · rcases h.schemes with ⟨hus, -⟩ | ⟨hus, -⟩ <;> exact absurd (hus.symm.trans hs) (by decide)
        · exact hs
      refine ⟨hhosts, ?_⟩
      rcases hports with hports | ⟨hports, -⟩
      · rw [hhttp, ← hports]
        rfl
      · exact hports
  have hblob : v.scheme ≠ "blob".toList := by
    rcases h.schemes with ⟨-, hs⟩ | ⟨-, hs⟩ <;> rw [hs] <;> decide
  have hhosts : hostsEqual host v = true := by
    have hsame : hostsEqual host v = hostsEqual host u := by
      unfold hostsEqual
      rw [h.host]
    rw [hsame, hown.1]
  have hports : selfPorts x scheme port v = true := by
    simp [selfPorts, hown.2, h.port']
  have hsecure : v.scheme = "https".toList ∨ v.scheme = "wss".toList :=
    h.schemes.imp And.right And.right
  rw [Csp.selfMatches, if_neg hblob]
  split_ifs with hsame
  · rfl
  · rw [hhosts, hports]
    rcases hsecure with hs | hs <;> simp [hs]

/-! ### Lists -/

theorem urlMatchesExpression (h : Upgraded x u v) (hlaws : OriginLaws x u) {expression scheme : Text}
    {host : Host} {port : Nat} {documentUrl : Url} {redirects : Nat} (hport : Portless expression)
    (hstar : StarFollows [expression] scheme u)
    (hu : urlMatchesExpression x u expression (.tuple scheme host port) documentUrl redirects = true) :
    urlMatchesExpression x v expression (.tuple scheme host port) documentUrl redirects = true := by
  rw [Csp.urlMatchesExpression] at hu ⊢
  by_cases hany : expression = "*".toList
  · rw [if_pos hany] at hu ⊢
    rcases h.schemes with ⟨-, hs⟩ | ⟨hus, -⟩
    · rw [hs]
      rfl
    · have hnot := hstar (by rw [hany]; exact List.mem_singleton_self _) hus
      rw [hus, originScheme, Option.any_some, hnot] at hu
      exact absurd hu (by decide)
  · rw [if_neg hany] at hu ⊢
    cases hparsed : parseSource expression with
    | none =>
      rw [hparsed] at hu
      dsimp only at hu ⊢
      by_cases hself : Text.eqIgnoreAsciiCase expression "'self'".toList = true
      · rw [if_pos hself] at hu ⊢
        exact h.selfMatches hlaws hu
      · rw [if_neg hself] at hu
        cases hu
    | some source =>
      rw [hparsed] at hu
      cases source with
      | scheme source => exact h.schemePartMatches source hu
      | host source name part path =>
        refine h.hostSourceMatches (fun number hnumber => ?_) hu
        exact hport source name number path (hnumber ▸ hparsed)

end Upgraded

theorem urlMatchesList_eq_any (url : Url) (list : List Text) (origin : Origin) (documentUrl : Url)
    (redirects : Nat) : urlMatchesList x url list origin documentUrl redirects =
      list.any fun expression => urlMatchesExpression x url expression origin documentUrl redirects := by
  rcases list with _ | ⟨only, _ | ⟨second, list⟩⟩
  · rfl
  · rw [urlMatchesList, List.any_cons, List.any_nil, Bool.or_false]
    split_ifs with hnone
    · have hparsed := parseSource_keyword hnone
      rw [Text.eqIgnoreAsciiCase, decide_eq_true_eq] at hnone
      have hany : only ≠ "*".toList := fun he => by
        rw [he] at hnone
        exact absurd hnone (by decide)
      have hself : Text.eqIgnoreAsciiCase only "'self'".toList = false := by
        rw [Text.eqIgnoreAsciiCase, hnone]
        decide
      rw [urlMatchesExpression, if_neg hany, hparsed, hself]
      rfl
    · rfl
  · rfl

/-- A list without port numbers admits the upgraded URL if it admits the URL; and a list with the same
expressions admits the same. -/
theorem urlMatchesList_upgrade (hlaws : OriginLaws x u) (h : Upgraded x u v) {list : List Text}
    (hports : ∀ expression ∈ list, Portless expression) {scheme : Text} (hstar : StarFollows list scheme u)
    (host : Host) (port : Nat) (documentUrl : Url) (redirects : Nat) :
    (urlMatchesList x u list (.tuple scheme host port) documentUrl redirects = true →
      urlMatchesList x v list (.tuple scheme host port) documentUrl redirects = true) ∧
    ∀ (url : Url) (origin : Origin) (list list' : List Text),
      (∀ expression, expression ∈ list ↔ expression ∈ list') →
      urlMatchesList x url list origin documentUrl redirects =
        urlMatchesList x url list' origin documentUrl redirects := by
  constructor
  · rw [urlMatchesList_eq_any, urlMatchesList_eq_any, List.any_eq_true, List.any_eq_true]
    rintro ⟨expression, hmem, hu⟩
    refine ⟨expression, hmem, h.urlMatchesExpression hlaws (hports expression hmem) ?_ hu⟩
    exact fun hany => hstar (List.mem_singleton.1 hany ▸ hmem)
  · intro url origin list list' hsame
    rw [urlMatchesList_eq_any, urlMatchesList_eq_any, Bool.eq_iff_iff, List.any_eq_true, List.any_eq_true]
    exact exists_congr fun expression => and_congr_left' (hsame expression)

/-- `example.com` under another scheme. -/
def sampleUnder (scheme : Text) (port : Nat) : Url :=
  { Url.sample with
    scheme := scheme
    origin := .tuple scheme (.domain "example.com".toList) port
    asStr := scheme ++ "://example.com/".toList }

theorem sampleUnder_laws {scheme : Text} {port : Nat} (hnetwork : isNetworkScheme scheme = true)
    (hport : defaultPort scheme = some port) : OriginLaws CspCrates.sample (sampleUnder scheme port) :=
  ⟨fun _ => ⟨_, port, rfl, hport, rfl⟩, fun h => absurd (hnetwork.symm.trans h) Bool.true_eq_false.mp⟩

theorem urlMatchesList_upgrade_sample :
    urlMatchesList CspCrates.sample (sampleUnder "https".toList 443) ["example.com".toList]
      (.tuple "http".toList (.domain "example.com".toList) 80) Url.sample 0 = true := by
  refine (urlMatchesList_upgrade (u := sampleUnder "http".toList 80) (v := sampleUnder "https".toList 443)
    (sampleUnder_laws ?_ rfl) ⟨.inl ⟨rfl, rfl⟩, rfl, rfl, rfl, rfl⟩ ?_ (fun hany _ => ?_) _ _ _ _).1 ?_
  · simp [isNetworkScheme]
  · intro expression hmem scheme host number path h
    rw [List.mem_singleton.1 hmem, show parseSource "example.com".toList =
      some (.host none "example.com".toList none none) by decide] at h
    cases h
  · exact absurd (List.mem_singleton.1 hany) (by decide)
  · decide

/-- From a `ws` document, `*` admits `ws` URLs and no `wss` URL. -/
theorem not_urlMatchesList_upgrade_star :
    OriginLaws CspCrates.sample (sampleUnder "ws".toList 80) ∧
      Upgraded CspCrates.sample (sampleUnder "ws".toList 80) (sampleUnder "wss".toList 443) ∧
      (∀ expression ∈ ["*".toList], Portless expression) ∧
      ¬ (urlMatchesList CspCrates.sample (sampleUnder "ws".toList 80) ["*".toList]
          (.tuple "ws".toList (.domain "example.com".toList) 80) Url.sample 0 = true →
        urlMatchesList CspCrates.sample (sampleUnder "wss".toList 443) ["*".toList]
          (.tuple "ws".toList (.domain "example.com".toList) 80) Url.sample 0 = true) := by
  refine ⟨sampleUnder_laws (by simp [isNetworkScheme]) rfl, ⟨.inr ⟨rfl, rfl⟩, rfl, rfl, rfl, rfl⟩, ?_, ?_⟩
  · intro expression hmem scheme host number path h
    rw [List.mem_singleton.1 hmem, show parseSource "*".toList = none by decide] at h
    cases h
  · decide

end TinyBrowser.Csp
