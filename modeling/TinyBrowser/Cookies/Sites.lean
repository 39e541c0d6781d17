import TinyBrowser.Cookies.Reported
import TinyBrowser.Net.Agent
import TinyBrowser.Renderer.Site

/-!
# One notion of site

The site of a URL is read off its host, the site of an origin off its tuple. The two readings give
one answer for network URLs, and a cookie operation depends on its initiator only through the
initiator's site.
-/

namespace TinyBrowser
open Lib

variable {x : Crates}

/-- The schemes that name a site. -/
def networkSchemes : List Text := ["http".toList, "https".toList, "ws".toList, "wss".toList]

/-- What the `url` crate documents of a network URL: it has a host, and its origin is the tuple of
scheme, host and port. -/
def Url.NetworkOrigin (u : Url) : Prop :=
  u.scheme ∈ networkSchemes → ∃ host port, u.host = some host ∧
    u.origin = .tuple u.scheme host port

theorem siteScheme_isSome {s : Text} : (siteScheme s).isSome = true ↔ s ∈ networkSchemes := by
  simp only [siteScheme, networkSchemes]
  split_ifs with hhttp hhttps
  · simp only [Bool.or_eq_true, decide_eq_true_eq] at hhttp
    rcases hhttp with rfl | rfl <;> simp
  · simp only [Bool.or_eq_true, decide_eq_true_eq] at hhttps
    rcases hhttps with rfl | rfl <;> simp
  · simp only [Bool.or_eq_true, decide_eq_true_eq, not_or] at hhttp hhttps
    refine iff_of_false (by simp) ?_
    simp only [List.mem_cons, List.not_mem_nil, or_false, not_or]
    exact ⟨hhttp.1, hhttps.1, hhttp.2, hhttps.2⟩

theorem siteScheme_cases {s t : Text} (h : siteScheme s = some t) :
    t = "http".toList ∨ t = "https".toList := by
  unfold siteScheme at h
  split_ifs at h
  · exact .inl (Option.some.inj h).symm
  · exact .inr (Option.some.inj h).symm

theorem originSiteTuple_scheme {o : Origin} {t : Text × Text} (h : originSiteTuple x o = some t) :
    t.1 = "http".toList ∨ t.1 = "https".toList := by
  cases o with
  | opaqueOrigin id => cases h
  | tuple scheme host port =>
    obtain ⟨t', ht, h⟩ := Option.bind_eq_some_iff.1 h
    obtain rfl := Option.some.inj h
    exact siteScheme_cases ht

/-- The text of a site determines its scheme and domain. -/
theorem siteForOrigin_inj {o o' : Origin} (hsome : (siteForOrigin x o).isSome = true)
    (h : siteForOrigin x o = siteForOrigin x o') : originSiteTuple x o = originSiteTuple x o' := by
  unfold siteForOrigin at h hsome
  cases ho : originSiteTuple x o with
  | none =>
    rw [ho] at hsome
    cases hsome
  | some t =>
    rw [ho] at h
    cases ho' : originSiteTuple x o' with
    | none =>
      rw [ho'] at h
      cases h
    | some t' =>
      rw [ho'] at h
      obtain ⟨scheme, domain⟩ := t
      obtain ⟨scheme', domain'⟩ := t'
      have htext := Option.some.inj h
      have hscheme := originSiteTuple_scheme ho
      have hscheme' := originSiteTuple_scheme ho'
      dsimp only at hscheme hscheme' htext
      -- the two schemes differ at the fifth character of the text
      have hfifth := congrArg (·[4]?) htext
      rcases hscheme with rfl | rfl <;> rcases hscheme' with rfl | rfl
      · rw [List.append_cancel_left htext]
      · simp at hfifth
      · simp at hfifth
      · rw [List.append_cancel_left htext]

theorem siteTuple_eq {u : Url} (hu : u.NetworkOrigin) (hs : u.scheme ∈ networkSchemes) :
    siteTuple x u = originSiteTuple x u.origin := by
  obtain ⟨host, port, hhost, horigin⟩ := hu hs
  rw [siteTuple, canonicalizeHost, hhost, horigin, originSiteTuple]
  rfl

theorem siteTuple_eq_none {u : Url} (hs : u.scheme ∉ networkSchemes) : siteTuple x u = none := by
  have hnone : siteScheme u.scheme = none := by
    rw [← Option.not_isSome_iff_eq_none, siteScheme_isSome]
    exact hs
  rw [siteTuple, hnone]
  rfl

/-! ### Same site -/

theorem schemefulSameSite_iff {a b : Url} : schemefulSameSite x a b = true ↔
    ∃ t, siteTuple x a = some t ∧ siteTuple x b = some t := by
  unfold schemefulSameSite
  cases siteTuple x a with
  | none => simp
  | some left =>
    cases siteTuple x b with
    | none => simp
    | some right => simp [eq_comm]

theorem originsSameSite_iff {a b : Origin} : originsSameSite x a b = true ↔
    ∃ t, originSiteTuple x a = some t ∧ originSiteTuple x b = some t := by
  unfold originsSameSite
  cases originSiteTuple x a with
  | none => simp
  | some left =>
    cases originSiteTuple x b with
    | none => simp
    | some right => simp [eq_comm]

/-- Two URLs share a site when both are network URLs and their origins share one. -/
theorem schemefulSameSite_eq {a b : Url} (ha : a.NetworkOrigin) (hb : b.NetworkOrigin) :
    schemefulSameSite x a b = (decide (a.scheme ∈ networkSchemes ∧ b.scheme ∈ networkSchemes) &&
      originsSameSite x a.origin b.origin) := by
  rw [Bool.eq_iff_iff, Bool.and_eq_true, decide_eq_true_eq, schemefulSameSite_iff,
    originsSameSite_iff]
  constructor
  · rintro ⟨t, hta, htb⟩
    have hsa : a.scheme ∈ networkSchemes := by
      by_contra hs
      rw [siteTuple_eq_none hs] at hta
      cases hta
    have hsb : b.scheme ∈ networkSchemes := by
      by_contra hs
      rw [siteTuple_eq_none hs] at htb
      cases htb
    exact ⟨⟨hsa, hsb⟩, t, siteTuple_eq ha hsa ▸ hta, siteTuple_eq hb hsb ▸ htb⟩
  · rintro ⟨⟨hsa, hsb⟩, t, hta, htb⟩
    exact ⟨t, (siteTuple_eq ha hsa).trans hta, (siteTuple_eq hb hsb).trans htb⟩

/-! ### What an operation reads of its initiator -/

section
variable {jar : CookieJar} {line : Text} {op op' : CookieOp}

/-- The operations are one but for their initiators, which are of one site for the request. -/
structure SameRequest (x : Crates) (op op' : CookieOp) : Prop where
  eq : op' = { op with initiator := op'.initiator }
  site : op'.isSameSiteRequest x = op.isSameSiteRequest x

theorem SameRequest.of_site {o o' : Origin} (ho : op.initiator = some o)
    (hsome : (siteForOrigin x o).isSome = true) (h : siteForOrigin x o = siteForOrigin x o') :
    SameRequest x op { op with initiator := some o' } := by
  refine ⟨rfl, ?_⟩
  unfold CookieOp.isSameSiteRequest
  rw [ho]
  dsimp only
  rw [originsSameSite, originsSameSite, siteForOrigin_inj hsome h]

theorem SameRequest.acceptsCookie (h : SameRequest x op op') (existing : List StoredCookie)
    (trustworthy : Bool) (parsed : ParsedSetCookie) (scope : CookieScope) :
    acceptsCookie x op' existing trustworthy parsed scope =
      acceptsCookie x op existing trustworthy parsed scope := by
  obtain ⟨heq, hsite⟩ := h
  unfold TinyBrowser.acceptsCookie
  rw [hsite, heq]

theorem SameRequest.received (h : SameRequest x op op') :
    jar.received x line op' = jar.received x line op := by
  have haccepts := h.acceptsCookie
  obtain ⟨heq, -⟩ := h
  unfold CookieJar.received receiveCookie
  simp only [haccepts]
  rw [heq]

theorem SameRequest.store (h : SameRequest x op op') :
    jar.store x line op' = jar.store x line op := by
  have hreceived : jar.received x line op' = jar.received x line op := h.received
  obtain ⟨heq, -⟩ := h
  unfold CookieJar.store
  rw [hreceived, heq]

theorem SameRequest.matchesOp (h : SameRequest x op op') (c : StoredCookie) (host path : Text)
    (trustworthy : Bool) :
    c.matchesOp x host path op' trustworthy = c.matchesOp x host path op trustworthy := by
  obtain ⟨heq, hsite⟩ := h
  unfold StoredCookie.matchesOp
  rw [hsite, heq]

theorem SameRequest.cookieString (h : SameRequest x op op') :
    jar.cookieString x op' = jar.cookieString x op := by
  have hmatches := h.matchesOp
  obtain ⟨heq, -⟩ := h
  unfold CookieJar.cookieString CookieJar.matched
  simp only [hmatches]
  rw [heq]

theorem SameRequest.recordsFor (h : SameRequest x op op') :
    jar.recordsFor x op' = jar.recordsFor x op := by
  have hmatches := h.matchesOp
  obtain ⟨heq, -⟩ := h
  unfold CookieJar.recordsFor
  simp only [hmatches]
  rw [heq]

end

/-- A network URL and its origin name one site; both comparisons of sites are symmetric and
transitive, and agree on network URLs, while other URLs are same-site with nothing; and the jar's
operations read the site of the initiator only. -/
theorem one_site {u v : Url} (hu : u.NetworkOrigin) (hv : v.NetworkOrigin) :
    (u.scheme ∈ networkSchemes → site x u = siteForOrigin x u.origin) ∧
    (u.scheme ∈ networkSchemes → v.scheme ∈ networkSchemes →
      schemefulSameSite x u v = originsSameSite x u.origin v.origin) ∧
    (u.scheme ∉ networkSchemes ∨ v.scheme ∉ networkSchemes → schemefulSameSite x u v = false) ∧
    (∀ a b : Url, schemefulSameSite x a b = schemefulSameSite x b a) ∧
    (∀ a b c : Url, schemefulSameSite x a b = true → schemefulSameSite x b c = true →
      schemefulSameSite x a c = true) ∧
    (∀ a b : Origin, originsSameSite x a b = originsSameSite x b a) ∧
    (∀ a b c : Origin, originsSameSite x a b = true → originsSameSite x b c = true →
      originsSameSite x a c = true) ∧
    ∀ (jar : CookieJar) (line : Text) (op : CookieOp) (o o' : Origin), op.initiator = some o →
      (siteForOrigin x o).isSome = true → siteForOrigin x o = siteForOrigin x o' →
      let op' := { op with initiator := some o' }
      jar.store x line op' = jar.store x line op ∧
        jar.cookieString x op' = jar.cookieString x op ∧
          jar.recordsFor x op' = jar.recordsFor x op := by
  refine ⟨fun hs => ?_, fun hsu hsv => ?_, fun hs => ?_, fun a b => ?_, fun a b c hab hbc => ?_,
    fun a b => ?_, fun a b c hab hbc => ?_, fun jar line op o o' ho hsome hsite => ?_⟩
  · rw [site, siteForOrigin, siteTuple_eq hu hs]
  · rw [schemefulSameSite_eq hu hv, decide_eq_true ⟨hsu, hsv⟩, Bool.true_and]
  · rw [schemefulSameSite_eq hu hv, decide_eq_false (not_and_or.2 hs), Bool.false_and]
  · rw [Bool.eq_iff_iff, schemefulSameSite_iff, schemefulSameSite_iff]
    exact exists_congr fun t => and_comm
  · obtain ⟨t, ha, hb⟩ := schemefulSameSite_iff.1 hab
    obtain ⟨t', hb', hc⟩ := schemefulSameSite_iff.1 hbc
    obtain rfl := Option.some.inj (hb.symm.trans hb')
    exact schemefulSameSite_iff.2 ⟨t, ha, hc⟩
  · rw [Bool.eq_iff_iff, originsSameSite_iff, originsSameSite_iff]
    exact exists_congr fun t => and_comm
  · obtain ⟨t, ha, hb⟩ := originsSameSite_iff.1 hab
    obtain ⟨t', hb', hc⟩ := originsSameSite_iff.1 hbc
    obtain rfl := Option.some.inj (hb.symm.trans hb')
    exact originsSameSite_iff.2 ⟨t, ha, hc⟩
  · have h := SameRequest.of_site ho hsome hsite
    exact ⟨h.store, h.cookieString, h.recordsFor⟩

theorem networkOrigin_sample : Url.sample.NetworkOrigin := fun _ => ⟨_, 443, rfl, rfl⟩

theorem networkOrigin_httpSample : Url.httpSample.NetworkOrigin := fun _ => ⟨_, 80, rfl, rfl⟩

theorem one_site_sample :
    site .sample Url.sample = siteForOrigin .sample Url.sample.origin ∧
      schemefulSameSite .sample Url.sample Url.httpSample =
        originsSameSite .sample Url.sample.origin Url.httpSample.origin := by
  have h := one_site (x := .sample) networkOrigin_sample networkOrigin_httpSample
  exact ⟨h.1 (by decide), h.2.1 (by decide) (by decide)⟩

end TinyBrowser
