import TinyBrowser.Cookies.Inv

/-!
# Restoring a snapshot

`restore` reads the records of `snapshot` back one by one. A record has no request URL, so the rule
that a cookie must not overlay a secure one holds for all of them, whatever request stored the
cookie; and the record's domain must be in canonical form. `restored` is the resulting list in
closed form: a persistent cookie is lost exactly when it is not `restorable` or a restorable secure
cookie before it in the jar `blocks` it.
-/

namespace TinyBrowser
open Lib

variable {x : Crates} {now : SystemTime}

/-- The cookie's domain is the canonical form a record must name, and no address unless the cookie
is host-only. -/
def restorable (x : Crates) (c : StoredCookie) : Bool :=
  CookieJar.canonicalRecordDomain x c.domain = some c.domain && (c.hostOnly || !isIp c.domain)

/-- `old` is secure and restorable, and `c` overlays it without being secure. -/
def blocks (x : Crates) (old c : StoredCookie) : Bool :=
  restorable x old && overlaysSecureCookie [old] c.name c.domain c.path c.secure

/-- The cookies that come back from a snapshot of `cookies`. -/
def restored (x : Crates) (cookies : List StoredCookie) : List StoredCookie :=
  cookies.filter fun c =>
    restorable x c && !(cookies.takeWhile (· ≠ c)).any fun old => blocks x old c

/-- The unexpired persistent cookies, in the jar's order. -/
def CookieJar.persistent (jar : CookieJar) (now : SystemTime) : List StoredCookie :=
  jar.cookies.filter fun c => c.expiry.isSome && unexpiredAt now c.expiry

/-! ### One record -/

/-- A cookie as the run has stored it: the storage rules hold and its expiry is within the cap. -/
structure Restores (x : Crates) (now : SystemTime) (c : StoredCookie) : Prop extends StoreOk x c where
  cap : ∀ e, c.expiry = some e → e ≤ now + maxLifetime

theorem Restores.touchable : Touchable (Restores x now) :=
  fun c now' h => ⟨StoreOk.touchable c now' h.toStoreOk, h.cap⟩

variable {c : StoredCookie}

theorem PrefixRules.ok (h : PrefixRules c) :
    cookiePrefixesOk c.name c.value c.secure c.hostOnly (some c.path) = true := by
  unfold cookiePrefixesOk
  split
  · rename_i hn
    rw [Bool.and_eq_true, Bool.not_eq_true', Bool.not_eq_true']
    exact ⟨Bool.eq_false_iff.2 (h.nameless_secure hn), Bool.eq_false_iff.2 (h.nameless_host hn)⟩
  · simp only
    rw [if_neg, if_neg]
    · intro hbad
      rw [Bool.and_eq_true] at hbad
      obtain ⟨hs, hh, hp⟩ := h.host hbad.1
      rw [hs, hh, hp] at hbad
      simp at hbad
    · intro hbad
      rw [Bool.and_eq_true] at hbad
      rw [h.secure hbad.1] at hbad
      simp at hbad

theorem stored_record (h : Restores x now c) : c.record.stored now = c := by
  have hexp : (c.expiry.map fun e => min e (now + maxLifetime)) = c.expiry := by
    cases he : c.expiry with
    | none => rfl
    | some e => rw [Option.map_some, min_eq_left (h.cap e he)]
  show { c with expiry := _, sameSite := _ } = c
  simp only [StoredCookie.record, hexp, SameSite.of_ofSameSite]

/-- The record of an unexpired cookie is accepted exactly when the cookie is restorable and overlays
no secure cookie restored before it. -/
theorem sanitize_record (h : Restores x now c)
    (hu : unexpiredAt now c.expiry = true) (existing : List StoredCookie) :
    CookieJar.sanitize x existing c.record now =
      if restorable x c && !overlaysSecureCookie existing c.name c.domain c.path c.secure then some c
      else none := by
  split
  · rename_i hr
    simp only [restorable, Bool.and_eq_true, decide_eq_true_eq, Bool.not_eq_true', Bool.or_eq_true]
      at hr
    refine sanitize_eq_some_iff.2 ⟨⟨hu, h.header, h.path, hr.1.1, ?_, fun hh => ⟨?_, h.suffix hh⟩,
      h.prefixes.ok, hr.2⟩, (stored_record h).symm⟩
    · intro hs
      exact h.sameSite (by simpa [StoredCookie.record] using hs)
    · exact hr.1.2.resolve_left (by rw [show c.hostOnly = false from hh]; simp)
  · rename_i hr
    rw [Option.eq_none_iff_forall_not_mem]
    intro stored hs
    obtain ⟨hsan, -⟩ := sanitize_eq_some_iff.1 hs
    refine hr ?_
    simp only [restorable, Bool.and_eq_true, decide_eq_true_eq, Bool.not_eq_true', Bool.or_eq_true]
    refine ⟨⟨hsan.domain, ?_⟩, hsan.overlay⟩
    cases hh : c.hostOnly with
    | true => exact .inl rfl
    | false => exact .inr (hsan.scope hh).1

/-! ### The loop -/

theorem overlaysSecureCookie_eq_any (existing : List StoredCookie) (c : StoredCookie) :
    overlaysSecureCookie existing c.name c.domain c.path c.secure =
      existing.any fun old => overlaysSecureCookie [old] c.name c.domain c.path c.secure := by
  induction existing with
  | nil => simp [overlaysSecureCookie]
  | cons old existing ih =>
    rw [List.any_cons, ← ih]
    simp only [overlaysSecureCookie, List.any_cons, List.any_nil, Bool.or_false]
    rw [Bool.and_or_distrib_left]

theorem secure_of_overlays {old c : StoredCookie}
    (h : overlaysSecureCookie [old] c.name c.domain c.path c.secure = true) :
    old.secure = true ∧ c.secure = false := by
  simp only [overlaysSecureCookie, List.any_cons, List.any_nil, Bool.or_false, Bool.and_eq_true,
    Bool.not_eq_true'] at h
  exact ⟨h.2.1.1.1, h.1⟩

theorem blocks_eq_false_of_secure {old c : StoredCookie} (h : c.secure = true) :
    blocks x old c = false := by
  simp [blocks, overlaysSecureCookie, h]

theorem restored_sublist (cookies : List StoredCookie) :
    List.Sublist (restored x cookies) cookies := List.filter_sublist

theorem any_restored (cookies : List StoredCookie) (c : StoredCookie) :
    overlaysSecureCookie (restored x cookies) c.name c.domain c.path c.secure =
      cookies.any fun old => blocks x old c := by
  rw [overlaysSecureCookie_eq_any, Bool.eq_iff_iff, List.any_eq_true, List.any_eq_true]
  constructor
  · rintro ⟨old, hold, ho⟩
    obtain ⟨hmem, hr⟩ := List.mem_filter.1 hold
    rw [Bool.and_eq_true] at hr
    exact ⟨old, hmem, by rw [blocks, hr.1, ho]; rfl⟩
  · rintro ⟨old, hold, hb⟩
    rw [blocks, Bool.and_eq_true] at hb
    refine ⟨old, List.mem_filter.2 ⟨hold, ?_⟩, hb.2⟩
    -- `old` is secure, so nothing before it blocks it
    rw [hb.1, Bool.true_and, Bool.not_eq_true', List.any_eq_false]
    intro o _
    rw [blocks_eq_false_of_secure (secure_of_overlays hb.2).1]
    simp

variable {cookies : List StoredCookie}

theorem restored_concat (hc : c ∉ cookies) :
    restored x (cookies ++ [c]) = restored x cookies ++
      if restorable x c && !cookies.any fun old => blocks x old c then [c] else [] := by
  rw [restored, List.filter_append]
  congr 1
  · refine List.filter_congr fun a ha => ?_
    have htake : (cookies ++ [c]).takeWhile (· ≠ a) = cookies.takeWhile (· ≠ a) := by
      obtain ⟨l, r, rfl, hl⟩ := List.eq_append_cons_of_mem ha
      have hne : ∀ b ∈ l, (decide (b ≠ a)) = true := fun b hb =>
        decide_eq_true fun hba => hl (hba ▸ hb)
      rw [List.append_assoc, List.takeWhile_append_of_pos hne, List.takeWhile_append_of_pos hne]
      simp
    rw [htake]
  · have htake : (cookies ++ [c]).takeWhile (· ≠ c) = cookies := by
      have hne : ∀ b ∈ cookies, (decide (b ≠ c)) = true := fun b hb =>
        decide_eq_true fun hbc => hc (hbc ▸ hb)
      rw [List.takeWhile_append_of_pos hne]
      simp
    rw [List.filter_cons, htake, List.filter_nil]

theorem not_mem_of_distinct
    (h : IdentitiesDistinct (cookies ++ [c])) : c ∉ cookies := by
  intro hc
  have := (List.pairwise_append.1 h).2.2 c hc c (by simp)
  rw [sameCookieIdentity_iff.2 ⟨rfl, rfl, rfl, rfl⟩] at this
  simp at this

theorem replaceCookie_of_distinct
    (h : ∀ old ∈ cookies, sameCookieIdentity old c = false) :
    replaceCookie cookies c = cookies ++ [c] := by
  rw [replaceCookie, List.filter_eq_self.2 fun old hold => by rw [h old hold]; rfl]

theorem foldl_restoreOne (hd : IdentitiesDistinct cookies)
    (hok : ∀ c ∈ cookies, Restores x now c) (hu : ∀ c ∈ cookies, unexpiredAt now c.expiry = true) :
    (cookies.map StoredCookie.record).foldl (CookieJar.restoreOne x now) [] = restored x cookies := by
  induction cookies using List.reverseRecOn with
  | nil => rfl
  | append_singleton cookies c ih =>
    obtain ⟨hd', -, hdc⟩ := List.pairwise_append.1 hd
    obtain ⟨hok', hokc⟩ := List.forall_mem_append.1 hok
    obtain ⟨hu', huc⟩ := List.forall_mem_append.1 hu
    rw [List.map_append, List.foldl_append, ih hd' hok' hu', restored_concat (not_mem_of_distinct hd)]
    show CookieJar.restoreOne x now (restored x cookies) c.record = _
    rw [CookieJar.restoreOne, sanitize_record (hokc c (by simp)) (huc c (by simp)), any_restored]
    split_ifs
    · refine replaceCookie_of_distinct fun old hold => ?_
      exact hdc old ((restored_sublist _).subset hold) c (by simp)
    · rw [List.append_nil]

theorem foldl_restoreOne_filter (cookies existing : List StoredCookie) :
    (cookies.map StoredCookie.record).foldl (CookieJar.restoreOne x now) existing =
      ((cookies.filter fun c => unexpiredAt now c.expiry).map StoredCookie.record).foldl
        (CookieJar.restoreOne x now) existing := by
  induction cookies generalizing existing with
  | nil => rfl
  | cons c cookies ih =>
    rw [List.map_cons, List.foldl_cons, ih, List.filter_cons]
    split_ifs with hu
    · rfl
    · have hnone : CookieJar.sanitize x existing c.record now = none := by
        rw [CookieJar.sanitize, if_pos]
        simpa [StoredCookie.record] using hu
      rw [CookieJar.restoreOne, hnone]

theorem restore_snapshot_of_inv {jar : CookieJar} (h : JarInv (Restores x now) jar) :
    (CookieJar.default.restore x jar.snapshot now).snapshot =
      (restored x (jar.persistent now)).map StoredCookie.record := by
  have hfilter : (jar.cookies.filter fun c => c.expiry.isSome).filter
      (fun c => unexpiredAt now c.expiry) = jar.persistent now := by
    rw [List.filter_filter, CookieJar.persistent]
    exact List.filter_congr fun c _ => Bool.and_comm _ _
  have hsub : List.Sublist (jar.persistent now) jar.cookies := List.filter_sublist
  have hp := h.sublist hsub
  have hex : ∀ c ∈ jar.persistent now, c.expiry.isSome = true ∧ unexpiredAt now c.expiry = true := by
    intro c hc
    simpa using (List.mem_filter.1 hc).2
  have hloop : (jar.snapshot).foldl (CookieJar.restoreOne x now) [] =
      restored x (jar.persistent now) := by
    rw [CookieJar.snapshot, foldl_restoreOne_filter, hfilter]
    exact foldl_restoreOne hp.identities hp.cookies fun c hc => (hex c hc).2
  have hq := hp.quota.sublist (restored_sublist (x := x) _)
  show CookieJar.snapshot ⟨evictExcess ((jar.snapshot).foldl _ [])⟩ = _
  rw [hloop, evictExcess_eq_self hq, CookieJar.snapshot, List.filter_eq_self.2]
  intro c hc
  exact (hex c ((restored_sublist _).subset hc)).1

/-! ### Runs -/

/-- The step is one of a live jar and its clock is at most `now`. -/
def JarOp.LiveUntil (now : SystemTime) : JarOp → Prop
  | .store _ op | .cookieString op | .recordsFor op => op.now ≤ now
  | .clear | .restore _ _ => False

theorem cookieExpiry_le {parsed : ParsedSetCookie} {t e : SystemTime}
    (h : cookieExpiry parsed t = some e) : e ≤ t + maxLifetime := by
  have hmax : (0 : Int) ≤ maxLifetime := by decide
  unfold cookieExpiry at h
  split at h
  · split_ifs at h
    · obtain rfl := Option.some.inj h
      exact Int.le_add_of_nonneg_right hmax
    · obtain rfl := Option.some.inj h
      exact Int.add_le_add_left (Int.min_le_right _ _) _
  · obtain ⟨expires, -, rfl⟩ := Option.map_eq_some_iff.1 h
    exact Int.min_le_right _ _

theorem JarOp.LiveUntil.adds {op : JarOp} (h : op.LiveUntil now) : op.Adds x (Restores x now) := by
  cases op with
  | store line op =>
    intro jar stored hst
    refine ⟨storeOk_received hst, fun e he => ?_⟩
    unfold CookieJar.received at hst
    obtain ⟨parsed, -, hst⟩ := Option.bind_eq_some_iff.1 hst
    obtain ⟨host, scope, created, -, -, -, rfl, -⟩ := receiveCookie_spec hst
    have hcap := cookieExpiry_le (show cookieExpiry parsed op.now = some e from he)
    exact Int.le_trans hcap (Int.add_le_add_right h _)
  | cookieString op => trivial
  | recordsFor op => trivial
  | clear => exact h.elim
  | restore records now => exact h.elim

/-- The domain is one the host parser returned, or an address of a host-only cookie. -/
def DomainParsed (x : Crates) (c : StoredCookie) : Prop :=
  (∃ s, x.hostParse s = some (.domain c.domain)) ∨
    (c.hostOnly = true ∧ ∃ ip : IpAddr, c.domain = ip.display)

theorem DomainParsed.restorable (hx : x.UrlLaws) (h : DomainParsed x c)
    (hdot : c.domain.head? ≠ some '.') (hlen : Text.len c.domain ≤ 1024) :
    restorable x c = true := by
  rcases h with ⟨s, hs⟩ | ⟨hh, ip, hip⟩
  · have hstrip : Text.stripPrefix '.' c.domain = c.domain := by
      cases hd : c.domain with
      | nil => rfl
      | cons a d =>
        rw [hd] at hdot
        simp only [List.head?_cons, ne_eq, Option.some.injEq] at hdot
        rw [Text.stripPrefix, if_neg hdot]
    simp [TinyBrowser.restorable, CookieJar.canonicalRecordDomain, hx.notIp hs, isIp,
      canonicalizeDomainAttr, hstrip, Nat.not_lt.2 hlen, hx.idem hs]
  · simp [TinyBrowser.restorable, CookieJar.canonicalRecordDomain, hip, IpAddr.parse_display, hh]

theorem domainParsed_scope (hx : x.UrlLaws) {line : Text} {parsed : ParsedSetCookie} {url : Url}
    {host : Text} {scope : CookieScope} (hu : x.HostParsed url) (hp : parseSetCookie line = some parsed)
    (hhost : canonicalizeHost url = some host) (h : cookieScope x parsed url host = some scope)
    (hd : c.domain = scope.domain) (hh : c.hostOnly = scope.hostOnly) :
    DomainParsed x c := by
  have hip := cookieScope_not_ip hp hhost h (ipDomainAttr_of_laws hx hu line)
  unfold cookieScope at h
  obtain ⟨attr, hattr, h⟩ := Option.bind_eq_some_iff.1 h
  obtain ⟨a, ha, h⟩ := Option.bind_eq_some_iff.1 h
  obtain rfl := Option.some.inj h
  rw [DomainParsed, hd, hh]
  by_cases h0 : a = []
  · -- host-only: the domain is the host
    simp only [h0, ↓reduceIte, decide_true, true_and]
    obtain ⟨urlHost, hurl, rfl⟩ := Option.map_eq_some_iff.1 hhost
    cases urlHost with
    | ipv4 ip => exact .inr ⟨.v4 ip, rfl⟩
    | ipv6 ip => exact .inr ⟨.v6 ip, rfl⟩
    | domain d =>
      obtain ⟨s, hs⟩ := hu d hurl
      rw [canonicalHost, hx.lower hs]
      exact .inl ⟨s, hs⟩
  · simp only [h0, ↓reduceIte, decide_false, Bool.false_eq_true, false_and, or_false]
    simp only [h0, ↓reduceIte, decide_false, forall_const] at hip
    rcases scopeDomain_spec ha with h0' | ⟨rfl, -⟩
    · exact absurd h0' h0
    · rcases domainAttr_spec hattr with h0' | hs | ⟨ip, rfl⟩
      · exact absurd h0' h0
      · exact hs
      · rw [isIp_display] at hip
        simp at hip

/-- A step that stores only at URLs whose host was parsed. -/
def JarOp.HostParsed (x : Crates) : JarOp → Prop
  | .store _ op => x.HostParsed op.url
  | .restore _ _ => False
  | _ => True

theorem JarOp.HostParsed.adds (hx : x.UrlLaws) {op : JarOp} (h : op.HostParsed x) :
    op.Adds x (DomainParsed x) := by
  cases op with
  | store line op =>
    intro jar stored hst
    unfold CookieJar.received at hst
    obtain ⟨parsed, hp, hst⟩ := Option.bind_eq_some_iff.1 hst
    obtain ⟨host, scope, created, hhost, hscope, -, rfl, -⟩ := receiveCookie_spec hst
    exact domainParsed_scope hx h hp hhost hscope rfl rfl
  | restore records now => exact h.elim
  | _ => trivial

/-- Restoring the snapshot of a live jar gives back, with the same fields and in the same order, the
unexpired persistent cookies that are restorable and not blocked by one before them. Every cookie
stored at a parsed host is restorable unless its domain is longer than 1024 bytes or starts with a
dot. -/
theorem CookieJar.restore_snapshot {ops : List JarOp} (hops : ∀ op ∈ ops, op.LiveUntil now) :
    (CookieJar.default.restore x (CookieJar.default.run x ops).snapshot now).snapshot =
        (restored x ((CookieJar.default.run x ops).persistent now)).map StoredCookie.record ∧
      (x.UrlLaws → (∀ op ∈ ops, op.HostParsed x) →
        ∀ c ∈ (CookieJar.default.run x ops).persistent now, c.domain.head? ≠ some '.' →
          Text.len c.domain ≤ 1024 → restorable x c = true) := by
  constructor
  · exact restore_snapshot_of_inv
      (JarInv.default.run Restores.touchable fun op hop => (hops op hop).adds)
  · intro hx hparsed c hc
    have hinv : JarInv (DomainParsed x) (CookieJar.default.run x ops) :=
      JarInv.default.run (fun _ _ h => h) fun op hop => (hparsed op hop).adds hx
    exact (hinv.cookies c (List.mem_filter.1 hc).1).restorable hx

/-- A secure cookie, then a cookie of the same name that is not secure at a longer path. -/
def JarOp.overlayRun : List JarOp :=
  [.store "a=1; Secure; Max-Age=60; Path=/".toList (.direct .sample 0 .http),
    .store "a=2; Max-Age=60; Path=/foo".toList (.direct .sample 0 .http)]

theorem CookieJar.restore_snapshot_overlayRun :
    (restored .sample ((CookieJar.default.run .sample JarOp.overlayRun).persistent 0)).length = 1 ∧
      (CookieJar.default.restore .sample
          (CookieJar.default.run .sample JarOp.overlayRun).snapshot 0).snapshot =
        (restored .sample ((CookieJar.default.run .sample JarOp.overlayRun).persistent 0)).map
          StoredCookie.record := by
  refine ⟨by decide +kernel, (CookieJar.restore_snapshot ?_).1⟩
  simp [JarOp.overlayRun, JarOp.LiveUntil, CookieOp.direct]

/-- The live jar holds both cookies; only the secure one comes back. -/
theorem CookieJar.restore_snapshot_ne_persistent :
    (CookieJar.default.restore .sample
        (CookieJar.default.run .sample JarOp.overlayRun).snapshot 0).snapshot ≠
      ((CookieJar.default.run .sample JarOp.overlayRun).persistent 0).map StoredCookie.record := by
  decide +kernel

end TinyBrowser
