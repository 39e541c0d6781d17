import TinyBrowser.Cookies.Evict

/-!
# The jar's representation invariant

`JarInv P`: identities are distinct, both quotas hold and every cookie satisfies `P`. The three
write paths are `store` over HTTP, `store` from script and `restore`; each of them adds a cookie
through `replaceCookie`, so a run keeps `JarInv P` when `receiveCookie` and `sanitize` only return
cookies with `P` and reading a cookie keeps `P` (`JarInv.run`). The instance for the storage rules
is `CookieOk`.

The one rule `store` does not enforce for every URL is that a domain cookie's domain is not an IP
address: `cookieScope` asks it of the host, `sanitize` of the domain. The two differ when the host
is not an address but ends in one after a dot (`ipDomainAttr`), which the host of a special URL
never does (`ipDomainAttr_of_laws`).
-/

namespace TinyBrowser
open Lib

variable {x : Crates}

/-- The cookie name prefix rules, as a property of the stored cookie. -/
structure PrefixRules (c : StoredCookie) : Prop where
  nameless_secure : c.name = [] → ¬ c.value.toAsciiLowercase.startsWith "__secure-".toList
  nameless_host : c.name = [] → ¬ c.value.toAsciiLowercase.startsWith "__host-".toList
  secure : c.name.toAsciiLowercase.startsWith "__secure-".toList → c.secure = true
  host : c.name.toAsciiLowercase.startsWith "__host-".toList →
    c.secure = true ∧ c.hostOnly = true ∧ c.path = "/".toList

/-- The storage rules that every write enforces. -/
structure StoreOk (x : Crates) (c : StoredCookie) : Prop where
  header : HeaderSafe c.name c.value
  path : c.path.head? = some '/'
  sameSite : c.sameSite = .none → c.secure = true
  suffix : c.hostOnly = false → isPublicSuffix x c.domain = false
  prefixes : PrefixRules c

/-- All storage rules. -/
structure CookieOk (x : Crates) (c : StoredCookie) : Prop extends StoreOk x c where
  ip : c.hostOnly = false → isIp c.domain = false

/-- No two cookies share the identity (name, domain, host-only flag, path). -/
def IdentitiesDistinct (cookies : List StoredCookie) : Prop :=
  cookies.Pairwise fun a b => sameCookieIdentity a b = false

structure JarInv (P : StoredCookie → Prop) (jar : CookieJar) : Prop where
  identities : IdentitiesDistinct jar.cookies
  quota : WithinQuota jar.cookies
  cookies : ∀ c ∈ jar.cookies, P c

/-- `P` does not depend on when a cookie was last read. -/
def Touchable (P : StoredCookie → Prop) : Prop := ∀ c now, P c → P { c with lastAccess := now }

theorem StoreOk.touchable : Touchable (StoreOk x) := by
  rintro c now ⟨h1, h2, h3, h4, ⟨h5, h6, h7, h8⟩⟩
  exact ⟨h1, h2, h3, h4, ⟨h5, h6, h7, h8⟩⟩

theorem CookieOk.touchable : Touchable (CookieOk x) :=
  fun c now h => ⟨StoreOk.touchable c now h.toStoreOk, h.ip⟩

/-! ### Identity -/

theorem sameCookieIdentity_iff {a b : StoredCookie} : sameCookieIdentity a b = true ↔
    a.name = b.name ∧ a.domain = b.domain ∧ a.hostOnly = b.hostOnly ∧ a.path = b.path := by
  simp [sameCookieIdentity, and_assoc]

theorem sameCookieIdentity_comm (a b : StoredCookie) :
    sameCookieIdentity a b = sameCookieIdentity b a := by
  rw [Bool.eq_iff_iff, sameCookieIdentity_iff, sameCookieIdentity_iff]
  constructor <;> rintro ⟨h1, h2, h3, h4⟩ <;> exact ⟨h1.symm, h2.symm, h3.symm, h4.symm⟩

theorem IdentitiesDistinct.replaceCookie {cookies : List StoredCookie}
    (h : IdentitiesDistinct cookies) (stored : StoredCookie) :
    IdentitiesDistinct (replaceCookie cookies stored) := by
  refine List.pairwise_append.2 ⟨h.sublist List.filter_sublist, List.pairwise_singleton _ _, ?_⟩
  intro a ha b hb
  rw [List.mem_singleton] at hb
  subst hb
  simpa using (List.mem_filter.1 ha).2

theorem mem_replaceCookie {cookies : List StoredCookie} {stored c : StoredCookie} :
    c ∈ replaceCookie cookies stored ↔
      (c ∈ cookies ∧ sameCookieIdentity c stored = false) ∨ c = stored := by
  simp [replaceCookie]

/-! ### Receiving -/

/-- What `acceptsCookie` has checked. -/
structure Accepted (op : CookieOp) (existing : List StoredCookie) (trustworthy : Bool)
    (parsed : ParsedSetCookie) (scope : CookieScope) : Prop where
  secure : parsed.secure = true → trustworthy = true
  httpOnly : op.kind = .nonHttp → parsed.httpOnly = false
  overlay : trustworthy = false →
    overlaysSecureCookie existing parsed.name scope.domain scope.path parsed.secure = false
  sameSite : parsed.sameSite.getD .default = .none → parsed.secure = true
  prefixes : cookiePrefixesOk parsed.name parsed.value parsed.secure scope.hostOnly scope.pathAttr =
    true

theorem acceptsCookie_spec {op : CookieOp} {existing : List StoredCookie} {trustworthy : Bool}
    {parsed : ParsedSetCookie} {scope : CookieScope}
    (h : acceptsCookie x op existing trustworthy parsed scope = true) :
    Accepted op existing trustworthy parsed scope := by
  simp only [acceptsCookie] at h
  split_ifs at h with h1 h2 h3 h4 h5
  simp only [Bool.and_eq_true, Bool.not_eq_true', not_and, Bool.not_eq_false,
    decide_eq_true_eq] at h1 h2 h3 h4
  refine ⟨h1, fun hk => ?_, fun ht => by simpa using h3 ht, h4, h⟩
  by_contra hh
  exact h2 (by simpa using hh) hk

/-- `receiveCookie` returns the cookie the line asks for, in the scope it resolves to, with the
creation time of the cookie it replaces. -/
theorem receiveCookie_spec {parsed : ParsedSetCookie} {op : CookieOp} {existing : List StoredCookie}
    {trustworthy : Bool} {stored : StoredCookie}
    (h : receiveCookie x parsed op existing trustworthy = some stored) :
    ∃ host scope created, canonicalizeHost op.url = some host ∧
      cookieScope x parsed op.url host = some scope ∧
      Accepted op existing trustworthy parsed scope ∧
      stored = { newCookie parsed scope op.now with created := created } ∧
      (∀ old, existing.find? (sameCookieIdentity · stored) = some old → op.kind = .nonHttp →
        old.httpOnly = false) := by
  unfold receiveCookie at h
  obtain ⟨host, hhost, h⟩ := Option.bind_eq_some_iff.1 h
  obtain ⟨scope, hscope, h⟩ := Option.bind_eq_some_iff.1 h
  simp only [Bool.not_eq_true'] at h
  split at h
  · simp at h
  rename_i hacc
  have hacc' := acceptsCookie_spec (by simpa using hacc)
  split at h
  · rename_i old hold
    split at h
    · simp at h
    rename_i hkind
    obtain rfl := Option.some.inj h
    refine ⟨host, scope, old.created, hhost, hscope, hacc', rfl, fun old' hold' hk => ?_⟩
    obtain rfl : old = old' := Option.some.inj (hold.symm.trans hold')
    simpa [hk] using hkind
  · rename_i hold
    obtain rfl := Option.some.inj h
    refine ⟨host, scope, op.now, hhost, hscope, hacc', rfl, fun old' hold' hk => ?_⟩
    rw [hold] at hold'
    simp at hold'

theorem scopeDomain_spec {host attr a : Text} (h : scopeDomain x host attr = some a) :
    a = [] ∨ (a = attr ∧ isIp host = false ∧ isPublicSuffix x attr = false ∧
      domainMatch host attr = true) := by
  unfold scopeDomain at h
  split_ifs at h with h1 h2 h3 h4
  · exact .inl (Option.some.inj h).symm
  · exact .inl (Option.some.inj h).symm
  · simp only [Bool.or_eq_true, not_or, Bool.not_eq_true] at h2
    exact .inr ⟨(Option.some.inj h).symm, h2.1, h2.2, h4⟩

/-- The `Domain` attribute of `line` is an IP address, and the host of `url`, itself no address,
domain-matches it: the attribute becomes the domain of a domain cookie. -/
def ipDomainAttr (x : Crates) (line : Text) (url : Url) : Bool :=
  match parseSetCookie line, canonicalizeHost url with
  | some parsed, some host => match domainAttr x parsed with
    | some attr =>
      isIp attr && !isIp host && domainMatch host attr && !isPublicSuffix x attr
    | none => false
  | _, _ => false

theorem isIp_display (ip : IpAddr) : isIp ip.display = true := by
  simp [isIp, IpAddr.parse_display]

theorem domainAttr_spec {parsed : ParsedSetCookie} {attr : Text}
    (h : domainAttr x parsed = some attr) :
    attr = [] ∨ (∃ s, x.hostParse s = some (.domain attr)) ∨ ∃ ip : IpAddr, attr = ip.display := by
  unfold domainAttr canonicalizeDomainAttr at h
  split at h
  · simp only at h
    split_ifs at h
    split at h
    · simp at h
    · rename_i d hd
      obtain rfl := Option.some.inj h
      exact .inr (.inl ⟨_, hd⟩)
    · exact .inr (.inr ⟨_, (Option.some.inj h).symm⟩)
    · exact .inr (.inr ⟨_, (Option.some.inj h).symm⟩)
  · exact .inl (Option.some.inj h).symm

theorem lower_of_domainAttr (hx : x.UrlLaws) {parsed : ParsedSetCookie} {attr : Text}
    (h : domainAttr x parsed = some attr) : attr.toAsciiLowercase = attr := by
  rcases domainAttr_spec h with rfl | ⟨s, hs⟩ | ⟨ip, rfl⟩
  · rfl
  · exact hx.lower hs
  · exact IpAddr.toAsciiLowercase_display ip

/-- A parsed domain domain-matches no address. -/
theorem isIp_of_domainMatch (hx : x.UrlLaws) {s d attr : Text}
    (hd : x.hostParse s = some (.domain d)) (hl : attr.toAsciiLowercase = attr)
    (h : domainMatch d attr = true) : isIp attr = false := by
  unfold domainMatch at h
  split_ifs at h with heq hip
  · simp only [Text.eqIgnoreAsciiCase, hx.lower hd, hl, decide_eq_true_eq] at heq
    simp [isIp, ← heq, hx.notIp hd]
  · simp only [isSubdomain, Bool.and_eq_true, decide_eq_true_eq] at h
    obtain ⟨⟨hlen, hdot⟩, htail⟩ := h
    -- `d` splits at the dot, and its lowercase tail is `attr`
    have hlow : Text.toAsciiLowercase (d.drop (d.length - attr.length)) =
        d.drop (d.length - attr.length) := by
      rw [Text.toAsciiLowercase, List.map_drop]
      exact congrArg _ (hx.lower hd)
    rw [Text.eqIgnoreAsciiCase, hlow, hl, decide_eq_true_eq] at htail
    have hsplit : d = d.take (d.length - attr.length - 1) ++ '.' :: attr := by
      obtain ⟨hi, hget⟩ := List.getElem?_eq_some_iff.1 hdot
      have hdrop := List.drop_eq_getElem_cons hi
      rw [hget, show d.length - attr.length - 1 + 1 = d.length - attr.length by omega, htail] at hdrop
      rw [← hdrop, List.take_append_drop]
    simp [isIp, hx.notIpTail hd hsplit]

/-- The host of a special URL, or an address, never makes an address a domain cookie's domain. -/
theorem ipDomainAttr_of_laws (hx : x.UrlLaws) {url : Url} (hu : x.HostParsed url) (line : Text) :
    ipDomainAttr x line url = false := by
  unfold ipDomainAttr
  split
  · rename_i parsed host hp hhost
    obtain ⟨h, hh, rfl⟩ := Option.map_eq_some_iff.1 hhost
    split
    · rename_i attr hattr
      cases h with
      | ipv4 ip => simp [canonicalHost, isIp_display]
      | ipv6 ip => simp [canonicalHost, isIp_display]
      | domain d =>
        obtain ⟨s, hs⟩ := hu d hh
        simp only [canonicalHost, hx.lower hs]
        cases hm : domainMatch d attr with
        | false => simp
        | true =>
          rw [isIp_of_domainMatch hx hs (lower_of_domainAttr hx hattr) hm]
          simp
    · rfl
  · rfl

/-- What `cookieScope` guarantees about the scope of a cookie. -/
structure ScopeOk (x : Crates) (parsed : ParsedSetCookie) (scope : CookieScope) : Prop where
  path : (∀ p, parsed.path = some p → p.head? = some '/') → scope.path.head? = some '/'
  pathAttr : ∀ p, scope.pathAttr = some p → scope.path = p
  suffix : scope.hostOnly = false → isPublicSuffix x scope.domain = false

theorem cookieScope_spec {parsed : ParsedSetCookie} {url : Url} {host : Text} {scope : CookieScope}
    (h : cookieScope x parsed url host = some scope) : ScopeOk x parsed scope := by
  unfold cookieScope at h
  obtain ⟨attr, hattr, h⟩ := Option.bind_eq_some_iff.1 h
  obtain ⟨a, ha, h⟩ := Option.bind_eq_some_iff.1 h
  obtain rfl := Option.some.inj h
  refine ⟨fun hp => ?_, fun p hp => ?_, fun hh => ?_⟩
  · cases hpath : parsed.path with
    | none => simpa [hpath] using head?_defaultPath url.path
    | some p => simpa [hpath] using hp p hpath
  · simp only at hp ⊢
    simp [hp]
  · simp only [decide_eq_false_iff_not] at hh
    rcases scopeDomain_spec ha with h0 | ⟨rfl, -, hs, -⟩
    · exact absurd h0 hh
    · simpa [hh] using hs

theorem cookieScope_not_ip {line : Text} {parsed : ParsedSetCookie} {url : Url} {host : Text}
    {scope : CookieScope} (hp : parseSetCookie line = some parsed)
    (hhost : canonicalizeHost url = some host) (h : cookieScope x parsed url host = some scope)
    (hip : ipDomainAttr x line url = false) (hh : scope.hostOnly = false) :
    isIp scope.domain = false := by
  unfold cookieScope at h
  obtain ⟨attr, hattr, h⟩ := Option.bind_eq_some_iff.1 h
  obtain ⟨a, ha, h⟩ := Option.bind_eq_some_iff.1 h
  obtain rfl := Option.some.inj h
  simp only [decide_eq_false_iff_not] at hh
  rcases scopeDomain_spec ha with h0 | ⟨rfl, hhip, hs, hm⟩
  · exact absurd h0 hh
  · simpa [ipDomainAttr, hp, hhost, hattr, hhip, hs, hm, hh] using hip

theorem prefixRules_of_ok {c : StoredCookie} {pathAttr : Option Text}
    (hpath : ∀ p, pathAttr = some p → c.path = p)
    (h : cookiePrefixesOk c.name c.value c.secure c.hostOnly pathAttr = true) : PrefixRules c := by
  unfold cookiePrefixesOk at h
  split at h
  · rename_i hn
    simp only [Bool.and_eq_true, Bool.not_eq_true'] at h
    refine ⟨fun _ => Bool.eq_false_iff.1 h.1, fun _ => Bool.eq_false_iff.1 h.2, fun hs => ?_,
      fun hs => ?_⟩
    · rw [hn] at hs; simp [Text.toAsciiLowercase, Text.startsWith] at hs
    · rw [hn] at hs; simp [Text.toAsciiLowercase, Text.startsWith] at hs
  · rename_i hn
    simp only at h
    split_ifs at h with h1 h2
    refine ⟨fun h0 => absurd h0 hn, fun h0 => absurd h0 hn, fun hs => ?_, fun hs => ?_⟩
    · simpa only [hs, Bool.true_and, Bool.not_eq_true', Bool.not_eq_false] using h1
    · simp only [hs, Bool.true_and, Bool.not_eq_true', Bool.not_eq_false, Bool.and_eq_true,
        decide_eq_true_eq] at h2
      exact ⟨h2.1.1, h2.1.2, hpath _ h2.2⟩

/-- A received cookie satisfies the storage rules. -/
theorem storeOk_received {jar : CookieJar} {line : Text} {op : CookieOp} {stored : StoredCookie}
    (h : jar.received x line op = some stored) : StoreOk x stored := by
  unfold CookieJar.received at h
  obtain ⟨parsed, hp, h⟩ := Option.bind_eq_some_iff.1 h
  obtain ⟨host, scope, created, hhost, hscope, hacc, rfl, -⟩ := receiveCookie_spec h
  obtain ⟨hsafe, hroot⟩ := parseSetCookie_spec hp
  have hok := cookieScope_spec hscope
  exact ⟨hsafe, hok.path hroot, hacc.sameSite, hok.suffix,
    prefixRules_of_ok (c := { newCookie parsed scope op.now with created := created })
      hok.pathAttr hacc.prefixes⟩

theorem cookieOk_received {jar : CookieJar} {line : Text} {op : CookieOp} {stored : StoredCookie}
    (h : jar.received x line op = some stored) (hip : ipDomainAttr x line op.url = false) :
    CookieOk x stored := by
  refine ⟨storeOk_received h, ?_⟩
  unfold CookieJar.received at h
  obtain ⟨parsed, hp, h⟩ := Option.bind_eq_some_iff.1 h
  obtain ⟨host, scope, created, hhost, hscope, hacc, rfl, -⟩ := receiveCookie_spec h
  exact cookieScope_not_ip hp hhost hscope hip

/-! ### Sanitizing -/

/-- What `sanitize` has checked of a record it accepts. -/
structure Sanitized (x : Crates) (existing : List StoredCookie) (r : CookieRecord)
    (now : SystemTime) : Prop where
  unexpired : unexpiredAt now r.expiry = true
  header : HeaderSafe r.name r.value
  path : r.path.head? = some '/'
  domain : CookieJar.canonicalRecordDomain x r.domain = some r.domain
  sameSite : SameSite.ofCookieSameSite r.sameSite = .none → r.secure = true
  scope : r.hostOnly = false → isIp r.domain = false ∧ isPublicSuffix x r.domain = false
  prefixes : cookiePrefixesOk r.name r.value r.secure r.hostOnly (some r.path) = true
  overlay : overlaysSecureCookie existing r.name r.domain r.path r.secure = false

/-- The cookie an accepted record becomes. -/
def CookieRecord.stored (r : CookieRecord) (now : SystemTime) : StoredCookie where
  name := r.name
  value := r.value
  expiry := r.expiry.map fun expiry => min expiry (now + maxLifetime)
  domain := r.domain
  path := r.path
  created := r.created
  lastAccess := r.lastAccess
  hostOnly := r.hostOnly
  secure := r.secure
  httpOnly := r.httpOnly
  sameSite := .ofCookieSameSite r.sameSite

theorem headerSafe_iff {name value : Text} : HeaderSafe name value ↔
    ((name = [] && value = []) || 4096 < Text.len name + Text.len value ||
      hasCtlExcludingHtab name || hasCtlExcludingHtab value ||
      name.any (fun c => c = ';' || c = '=') || value.any (· = ';')) = false := by
  simp only [Bool.or_eq_false_iff, Bool.and_eq_false_iff, decide_eq_false_iff_not, List.any_eq_false,
    Bool.or_eq_true, decide_eq_true_eq, not_or, Nat.not_lt]
  constructor
  · intro h
    refine ⟨⟨⟨⟨⟨h.nonempty, h.len⟩, h.name_ctl⟩, h.value_ctl⟩, fun c hc => ⟨?_, ?_⟩⟩, fun c hc => ?_⟩
    · rintro rfl; exact h.name_semi hc
    · rintro rfl; exact h.name_eq hc
    · rintro rfl; exact h.value_semi hc
  · rintro ⟨⟨⟨⟨⟨h1, h2⟩, h3⟩, h4⟩, h5⟩, h6⟩
    exact ⟨h1, h2, h3, h4, fun hc => (h5 _ hc).1 rfl, fun hc => (h5 _ hc).2 rfl,
      fun hc => h6 _ hc rfl⟩

theorem sanitize_eq_some_iff {existing : List StoredCookie} {r : CookieRecord} {now : SystemTime}
    {stored : StoredCookie} : CookieJar.sanitize x existing r now = some stored ↔
      Sanitized x existing r now ∧ stored = r.stored now := by
  unfold CookieJar.sanitize
  constructor
  · intro h
    split_ifs at h with h1 h2 h3 h4 h5 h6 h7 h8
    refine ⟨⟨by simpa using h1, headerSafe_iff.2 (Bool.eq_false_iff.2 h2), by simpa using h3,
      by simpa using h4, fun hs => ?_, fun hh => ?_, by simpa using h7, by simpa using h8⟩,
      (Option.some.inj h).symm⟩
    · simpa [hs] using h5
    · simpa [hh] using h6
  · rintro ⟨h, rfl⟩
    rw [if_neg (by simp [h.unexpired]), if_neg (by rw [headerSafe_iff.1 h.header]; simp),
      if_neg (by simp [h.path]), if_neg (by simp [h.domain]), if_neg, if_neg,
      if_neg (by simp [h.prefixes]), if_neg (by simp [h.overlay])]
    · rfl
    · cases hh : r.hostOnly with
      | true => simp
      | false => simp [(h.scope hh).1, (h.scope hh).2]
    · simp only [Bool.and_eq_true, decide_eq_true_eq, Bool.not_eq_true', not_and, Bool.not_eq_false]
      exact h.sameSite

theorem cookieOk_sanitized {existing : List StoredCookie} {r : CookieRecord} {now : SystemTime}
    (h : Sanitized x existing r now) : CookieOk x (r.stored now) where
  header := h.header
  path := h.path
  sameSite := h.sameSite
  suffix hh := (h.scope hh).2
  ip hh := (h.scope hh).1
  prefixes := prefixRules_of_ok (c := r.stored now) (fun _ hp => Option.some.inj hp) h.prefixes

/-! ### Operations -/

namespace JarInv
variable {P : StoredCookie → Prop} {jar : CookieJar}

theorem default : JarInv P CookieJar.default := by
  refine ⟨List.Pairwise.nil, ⟨fun d => ?_, ?_⟩, ?_⟩
  · simp [CookieJar.default, domainCount]
  · simp [CookieJar.default]
  · simp [CookieJar.default]

theorem sublist (h : JarInv P jar) {cookies : List StoredCookie}
    (hs : List.Sublist cookies jar.cookies) : JarInv P ⟨cookies⟩ :=
  ⟨h.identities.sublist hs, h.quota.sublist hs, fun c hc => h.cookies c (hs.subset hc)⟩

theorem evictExpired (h : JarInv P jar) (now : SystemTime) : JarInv P (jar.evictExpired now) :=
  h.sublist List.filter_sublist

theorem evictExcess {cookies : List StoredCookie} (hd : IdentitiesDistinct cookies)
    (hok : ∀ c ∈ cookies, P c) : JarInv P ⟨evictExcess cookies⟩ :=
  ⟨hd.sublist (evictExcess_sublist _), evictExcess_within _,
    fun c hc => hok c ((evictExcess_sublist _).subset hc)⟩

theorem store (h : JarInv P jar) {line : Text} {op : CookieOp}
    (hP : ∀ stored, jar.received x line op = some stored → P stored) :
    JarInv P (jar.store x line op).2 := by
  have he := h.evictExpired op.now
  unfold CookieJar.store
  split
  · exact he
  · rename_i stored hst
    simp only
    split
    · refine JarInv.evictExcess (he.identities.replaceCookie stored) fun c hc => ?_
      rcases mem_replaceCookie.1 hc with ⟨hc, -⟩ | rfl
      · exact he.cookies c hc
      · exact hP c hst
    · exact he.sublist List.filter_sublist

theorem map_domain_touch (indices : List Nat) (now : SystemTime) :
    (jar.touch indices now).cookies.map StoredCookie.domain = jar.cookies.map StoredCookie.domain := by
  refine List.ext_getElem? fun i => ?_
  simp only [CookieJar.touch, List.getElem?_map, List.getElem?_mapIdx]
  cases jar.cookies[i]? with
  | none => rfl
  | some c => simp only [Option.map_some]; split <;> rfl

theorem touch (hP : Touchable P) (h : JarInv P jar) (indices : List Nat) (now : SystemTime) :
    JarInv P (jar.touch indices now) := by
  refine ⟨?_, ⟨fun d => ?_, ?_⟩, ?_⟩
  · refine List.pairwise_iff_getElem.2 fun i j hi hj hij => ?_
    simp only [CookieJar.touch, List.length_mapIdx] at hi hj
    have := List.pairwise_iff_getElem.1 h.identities i j hi hj hij
    simp only [CookieJar.touch, List.getElem_mapIdx]
    split <;> split <;> exact this
  · rw [domainCount_eq_count, map_domain_touch, ← domainCount_eq_count]
    exact h.quota.domain d
  · simpa [CookieJar.touch] using h.quota.total
  · intro c hc
    obtain ⟨i, hi, rfl⟩ := List.mem_mapIdx.1 hc
    have hok := h.cookies _ (List.getElem_mem hi)
    split
    · exact hP _ _ hok
    · exact hok

theorem cookieString (hP : Touchable P) (h : JarInv P jar) (op : CookieOp) :
    JarInv P (jar.cookieString x op).2 := by
  unfold CookieJar.cookieString
  simp only
  split
  · exact h.evictExpired _
  · exact (h.evictExpired _).touch hP _ _

theorem recordsFor (h : JarInv P jar) (op : CookieOp) : JarInv P (jar.recordsFor x op).2 := by
  unfold CookieJar.recordsFor
  simp only
  split <;> exact h.evictExpired _

theorem restoreOne {now : SystemTime} {cookies : List StoredCookie} {r : CookieRecord}
    (hP : ∀ existing stored, CookieJar.sanitize x existing r now = some stored → P stored)
    (hd : IdentitiesDistinct cookies) (hok : ∀ c ∈ cookies, P c) :
    IdentitiesDistinct (CookieJar.restoreOne x now cookies r) ∧
      ∀ c ∈ CookieJar.restoreOne x now cookies r, P c := by
  unfold CookieJar.restoreOne
  split
  · rename_i stored hs
    refine ⟨hd.replaceCookie _, fun c hc => ?_⟩
    rcases mem_replaceCookie.1 hc with ⟨hc, -⟩ | rfl
    · exact hok c hc
    · exact hP _ _ hs
  · exact ⟨hd, hok⟩

theorem restore (h : JarInv P jar) {records : List CookieRecord} {now : SystemTime}
    (hP : ∀ r ∈ records, ∀ existing stored,
      CookieJar.sanitize x existing r now = some stored → P stored) :
    JarInv P (jar.restore x records now) := by
  -- the quotas are restored at the end only, so the loop carries the other two parts
  suffices hloop : ∀ cookies, IdentitiesDistinct cookies → (∀ c ∈ cookies, P c) →
      IdentitiesDistinct (records.foldl (CookieJar.restoreOne x now) cookies) ∧
        ∀ c ∈ records.foldl (CookieJar.restoreOne x now) cookies, P c by
    obtain ⟨h1, h2⟩ := hloop _ (h.evictExpired now).identities (h.evictExpired now).cookies
    exact JarInv.evictExcess h1 h2
  induction records with
  | nil => exact fun cookies h1 h2 => ⟨h1, h2⟩
  | cons r records ih =>
    intro cookies h1 h2
    obtain ⟨hr, hrs⟩ := List.forall_mem_cons.1 hP
    obtain ⟨h1', h2'⟩ := restoreOne hr h1 h2
    exact ih hrs _ h1' h2'

end JarInv

/-! ### Runs -/

inductive JarOp where
  | store (line : Text) (op : CookieOp)
  | cookieString (op : CookieOp)
  | recordsFor (op : CookieOp)
  | clear
  | restore (records : List CookieRecord) (now : SystemTime)

namespace CookieJar

def apply (x : Crates) (jar : CookieJar) : JarOp → CookieJar
  | .store line op => (jar.store x line op).2
  | .cookieString op => (jar.cookieString x op).2
  | .recordsFor op => (jar.recordsFor x op).2
  | .clear => jar.clear
  | .restore records now => jar.restore x records now

/-- The jar after a sequence of operations. -/
def run (x : Crates) (jar : CookieJar) (ops : List JarOp) : CookieJar := ops.foldl (apply x) jar

end CookieJar

/-- Every cookie the step can add satisfies `P`. -/
def JarOp.Adds (x : Crates) (P : StoredCookie → Prop) : JarOp → Prop
  | .store line op => ∀ jar stored, CookieJar.received x jar line op = some stored → P stored
  | .restore records now => ∀ r ∈ records, ∀ existing stored,
      CookieJar.sanitize x existing r now = some stored → P stored
  | _ => True

section
variable {P : StoredCookie → Prop} {jar : CookieJar}

theorem JarInv.apply (hP : Touchable P) (h : JarInv P jar) {op : JarOp} (hop : op.Adds x P) :
    JarInv P (jar.apply x op) := by
  cases op with
  | store line op => exact h.store (hop jar)
  | cookieString op => exact h.cookieString hP op
  | recordsFor op => exact h.recordsFor op
  | clear => exact JarInv.default
  | restore records now => exact h.restore hop

theorem JarInv.run (hP : Touchable P) (h : JarInv P jar) {ops : List JarOp}
    (hops : ∀ op ∈ ops, op.Adds x P) : JarInv P (jar.run x ops) := by
  induction ops generalizing jar with
  | nil => exact h
  | cons op ops ih =>
    obtain ⟨hop, hops⟩ := List.forall_mem_cons.1 hops
    exact ih (h.apply hP hop) hops

end

/-- The step stores no `Domain` attribute that is an IP address under a host that is none. -/
def JarOp.NoIpDomainAttr (x : Crates) : JarOp → Prop
  | .store line op => ipDomainAttr x line op.url = false
  | _ => True

theorem JarOp.NoIpDomainAttr.adds {op : JarOp} (h : op.NoIpDomainAttr x) :
    op.Adds x (CookieOk x) := by
  cases op with
  | store line op => exact fun jar stored hst => cookieOk_received hst h
  | restore records now =>
    intro r hr existing stored hs
    obtain ⟨hsan, rfl⟩ := sanitize_eq_some_iff.1 hs
    exact cookieOk_sanitized hsan
  | _ => trivial

/-- Every jar that a run from the empty one reaches satisfies the invariant, as long as no line of
the run has a `Domain` attribute that is an address its host ends in. -/
theorem CookieJar.inv_of_noIpDomainAttr {ops : List JarOp} (hops : ∀ op ∈ ops, op.NoIpDomainAttr x) :
    JarInv (CookieOk x) (CookieJar.default.run x ops) :=
  JarInv.default.run CookieOk.touchable fun op hop => (hops op hop).adds

/-- A request to `url` that no page initiated. -/
def CookieOp.direct (url : Url) (now : SystemTime) (kind : RetrievalKind) : CookieOp :=
  ⟨url, now, kind, .navigation, true, none, false⟩

def JarOp.sampleRun : List JarOp :=
  [.store "a=1; Domain=example.com".toList (.direct .sample 0 .http),
    .store "b=2; HttpOnly".toList (.direct .sample 1 .http)]

theorem CookieJar.inv_of_noIpDomainAttr_sample :
    (CookieJar.default.run .sample JarOp.sampleRun).cookies.length = 2 ∧
      JarInv (CookieOk .sample) (CookieJar.default.run .sample JarOp.sampleRun) := by
  refine ⟨by decide +kernel, CookieJar.inv_of_noIpDomainAttr ?_⟩
  have hu : Crates.sample.HostParsed Url.sample := by
    rintro d h
    obtain rfl := Host.domain.inj (Option.some.inj h)
    exact ⟨"example.com".toList, by decide⟩
  simp only [JarOp.sampleRun, List.forall_mem_cons]
  exact ⟨ipDomainAttr_of_laws Crates.sample_laws hu _, ipDomainAttr_of_laws Crates.sample_laws hu _,
    by simp⟩

/-- `data://a.1.2.3.4/`, whose host is not parsed. -/
def Url.dataSample : Url where
  scheme := "data".toList
  host := some (.domain "a.1.2.3.4".toList)
  path := "/".toList
  origin := .opaqueOrigin 0
  asStr := "data://a.1.2.3.4/".toList

/-- A domain cookie for the address `1.2.3.4` gets in from `data://a.1.2.3.4/`. -/
theorem CookieJar.not_inv_dataSample :
    ¬ JarInv (CookieOk .sample) (CookieJar.default.run .sample
      [.store "a=1; Secure; SameSite=None; Domain=1.2.3.4".toList (.direct .dataSample 0 .nonHttp)]) := by
  intro h
  have hbad : ∃ c ∈ (CookieJar.default.run .sample
      [.store "a=1; Secure; SameSite=None; Domain=1.2.3.4".toList
        (.direct .dataSample 0 .nonHttp)]).cookies, c.hostOnly = false ∧ isIp c.domain = true := by
    decide +kernel
  obtain ⟨c, hc, hh, hip⟩ := hbad
  rw [(h.cookies c hc).ip hh] at hip
  exact absurd hip (by decide)

end TinyBrowser
