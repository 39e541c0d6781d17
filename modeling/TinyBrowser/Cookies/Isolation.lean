import Mathlib.Data.List.Pairwise
import TinyBrowser.Cookies.Inv

/-!
# Secure and HttpOnly isolation

Two kinds of writer must not reach certain cookies. A request to a URL that is not potentially
trustworthy neither touches nor creates a secure cookie: the overlay rule keeps it from replacing
one, and the eviction order gives up its own cookie first. A script neither reads an HttpOnly
cookie nor writes one: what it reads is a function of the other cookies, and only eviction can
remove one on its behalf.
-/

namespace TinyBrowser
open Lib

variable {x : Crates} {P : StoredCookie → Prop} {jar : CookieJar} {line : Text} {op : CookieOp}

theorem mem_evictExpired {c : StoredCookie} {now : SystemTime} :
    c ∈ (jar.evictExpired now).cookies ↔ c ∈ jar.cookies ∧ unexpiredAt now c.expiry = true :=
  List.mem_filter

theorem jarInv_run (ops : List JarOp) : JarInv (fun _ => True) (CookieJar.default.run x ops) := by
  refine JarInv.default.run (fun _ _ _ => trivial) fun op _ => ?_
  cases op with
  | store line op => exact fun _ _ _ => trivial
  | restore records now => exact fun _ _ _ _ _ => trivial
  | _ => trivial

theorem eq_of_sameCookieIdentity {cookies : List StoredCookie} (hd : IdentitiesDistinct cookies)
    {a b c : StoredCookie} (ha : a ∈ cookies) (hb : b ∈ cookies)
    (hac : sameCookieIdentity a c = true) (hbc : sameCookieIdentity b c = true) : a = b := by
  by_contra hne
  obtain ⟨h1, h2, h3, h4⟩ := sameCookieIdentity_iff.1 hac
  obtain ⟨g1, g2, g3, g4⟩ := sameCookieIdentity_iff.1 hbc
  have hsame : sameCookieIdentity a b = true := sameCookieIdentity_iff.2
    ⟨h1.trans g1.symm, h2.trans g2.symm, h3.trans g3.symm, h4.trans g4.symm⟩
  have hsymm : Std.Symm fun a b => sameCookieIdentity a b = false :=
    ⟨fun a b h => by rwa [sameCookieIdentity_comm]⟩
  have hdist := List.Pairwise.forall hd ha hb hne
  rw [hsame] at hdist
  simp at hdist

theorem mem_store {c : StoredCookie} (h : c ∈ (jar.store x line op).2.cookies) :
    c ∈ jar.cookies ∨ jar.received x line op = some c := by
  unfold CookieJar.store at h
  split at h
  · exact .inl (mem_evictExpired.1 h).1
  · rename_i stored hst
    simp only at h
    split at h
    · rcases mem_replaceCookie.1 ((evictExcess_sublist _).subset h) with ⟨hc, -⟩ | rfl
      · exact .inl (mem_evictExpired.1 hc).1
      · exact .inr hst
    · exact .inl (mem_evictExpired.1 (List.mem_filter.1 h).1).1

theorem store_keeps {c : StoredCookie} (hc : c ∈ jar.cookies)
    (hu : unexpiredAt op.now c.expiry = true)
    (hid : ∀ stored, jar.received x line op = some stored → sameCookieIdentity c stored = false)
    (hev : ∀ stored, jar.received x line op = some stored → unexpiredAt op.now stored.expiry = true →
      c ∈ replaceCookie (jar.evictExpired op.now).cookies stored →
      c ∈ evictExcess (replaceCookie (jar.evictExpired op.now).cookies stored)) :
    c ∈ (jar.store x line op).2.cookies := by
  have hc' := mem_evictExpired.2 ⟨hc, hu⟩
  unfold CookieJar.store
  split
  · exact hc'
  · rename_i stored hst
    simp only
    split
    · rename_i hexp
      exact hev stored hst hexp (mem_replaceCookie.2 (.inl ⟨hc', hid stored hst⟩))
    · exact List.mem_filter.2 ⟨hc', by rw [hid stored hst]; rfl⟩

variable {stored : StoredCookie}

theorem received_spec (h : jar.received x line op = some stored) :
    ∃ parsed scope created,
      Accepted op (jar.evictExpired op.now).cookies (isPotentiallyTrustworthy x op.url) parsed scope ∧
      stored = { newCookie parsed scope op.now with created := created } ∧
      (∀ old, (jar.evictExpired op.now).cookies.find? (sameCookieIdentity · stored) = some old →
        op.kind = .nonHttp → old.httpOnly = false) := by
  unfold CookieJar.received at h
  obtain ⟨parsed, -, h⟩ := Option.bind_eq_some_iff.1 h
  obtain ⟨host, scope, created, -, -, hacc, hst, hold⟩ := receiveCookie_spec h
  exact ⟨parsed, scope, created, hacc, hst, hold⟩

theorem domainCount_replaceCookie_le {cookies : List StoredCookie} (h : WithinQuota cookies)
    (stored : StoredCookie) (d : Text) :
    domainCount d (replaceCookie cookies stored) ≤
      maxCookiesPerDomain + if stored.domain = d then 1 else 0 := by
  have hf : domainCount d (cookies.filter fun old => !sameCookieIdentity old stored) ≤
      maxCookiesPerDomain := (h.sublist List.filter_sublist).domain d
  have happ : domainCount d (replaceCookie cookies stored) =
      domainCount d (cookies.filter fun old => !sameCookieIdentity old stored) +
        if stored.domain = d then 1 else 0 := by
    simp [domainCount, replaceCookie, List.countP_append, List.countP_cons]
  omega

theorem length_replaceCookie_le (cookies : List StoredCookie) (stored : StoredCookie) :
    (replaceCookie cookies stored).length ≤ cookies.length + 1 := by
  rw [replaceCookie, List.length_append, List.length_singleton]
  have := List.length_filter_le (fun old => !sameCookieIdentity old stored) cookies
  omega

/-! ### Secure cookies -/

theorem received_untrustworthy
    (ht : isPotentiallyTrustworthy x op.url = false) (h : jar.received x line op = some stored) :
    stored.secure = false ∧ ∀ c ∈ (jar.evictExpired op.now).cookies, c.secure = true →
      sameCookieIdentity c stored = false := by
  obtain ⟨parsed, scope, created, hacc, rfl, -⟩ := received_spec h
  have hsec : parsed.secure = false := by
    by_contra hs
    rw [hacc.secure (by simpa using hs)] at ht
    simp at ht
  refine ⟨hsec, fun c hc hcs => ?_⟩
  by_contra hid
  obtain ⟨hname, hdom, -, hpath⟩ := sameCookieIdentity_iff.1 (by simpa using hid)
  have hover := hacc.overlay ht
  rw [overlaysSecureCookie, hsec, Bool.not_false, Bool.true_and, List.any_eq_false] at hover
  refine hover c hc ?_
  rw [hcs, show c.name = parsed.name from hname, show c.domain = scope.domain from hdom,
    show c.path = scope.path from hpath, domainMatch_self, pathMatch_self]
  simp

/-- A request to an untrustworthy URL leaves every unexpired secure cookie as it is and creates
none, in a jar with room for one more cookie. -/
theorem CookieJar.store_keeps_secure (h : JarInv P jar) (hlen : jar.cookies.length ≤ 2999)
    (ht : isPotentiallyTrustworthy x op.url = false) (line : Text) :
    (∀ c ∈ jar.cookies, c.secure = true → unexpiredAt op.now c.expiry = true →
      c ∈ (jar.store x line op).2.cookies) ∧
    ∀ c ∈ (jar.store x line op).2.cookies, c.secure = true → c ∈ jar.cookies := by
  have he := h.evictExpired op.now
  have hlen' : (jar.evictExpired op.now).cookies.length ≤ 2999 :=
    Nat.le_trans (List.length_filter_le _ _) hlen
  constructor
  · intro c hc hcs hu
    refine store_keeps hc hu (fun stored hst => ?_) (fun stored hst hexp hmem => ?_)
    · exact (received_untrustworthy ht hst).2 c (mem_evictExpired.2 ⟨hc, hu⟩) hcs
    · refine mem_evictExcess_of_secure (domainCount_replaceCookie_le he.quota stored) ?_
        (mem_replaceCookie.2 (.inr rfl)) (received_untrustworthy ht hst).1 hmem hcs
      have := length_replaceCookie_le (jar.evictExpired op.now).cookies stored
      have hmax : maxCookies = 3000 := rfl
      omega
  · intro c hc hcs
    rcases mem_store hc with hmem | hst
    · exact hmem
    · rw [(received_untrustworthy ht hst).1] at hcs
      simp at hcs

/-- `http://example.com/`. -/
def Url.httpSample : Url where
  scheme := "http".toList
  host := some (.domain "example.com".toList)
  path := "/".toList
  origin := .tuple "http".toList (.domain "example.com".toList) 80
  asStr := "http://example.com/".toList

/-- A jar with a secure HttpOnly cookie and a plain one. -/
def CookieJar.sample : CookieJar :=
  CookieJar.default.run .sample
    [.store "a=1; Secure; HttpOnly".toList (.direct .sample 0 .http),
      .store "b=2".toList (.direct .sample 0 .http)]

theorem CookieJar.store_keeps_secure_sample :
    (∃ c ∈ CookieJar.sample.cookies, c.secure = true) ∧
      ∀ c ∈ CookieJar.sample.cookies, c.secure = true → unexpiredAt 1 c.expiry = true →
        c ∈ (CookieJar.sample.store .sample "a=3".toList (.direct .httpSample 1 .http)).2.cookies := by
  have hinv : JarInv (fun _ => True) CookieJar.sample := jarInv_run _
  have hlen : CookieJar.sample.cookies.length ≤ 2999 := by decide +kernel
  have ht : isPotentiallyTrustworthy .sample (CookieOp.direct .httpSample 1 .http).url = false := by
    decide +kernel
  exact ⟨by decide +kernel, (CookieJar.store_keeps_secure hinv hlen ht _).1⟩

/-! ### HttpOnly cookies -/

/-- What a script reads: the cookies a request carries, in header order. -/
def carried (x : Crates) (cookies : List StoredCookie) (host : Text) (op : CookieOp) :
    List StoredCookie :=
  (cookies.filter fun c => c.matchesOp x host op.url.path op (isPotentiallyTrustworthy x op.url))
    |>.insertionSort fun a b => headerOrder a b = true

theorem map_getElem?_matched (host : Text) :
    (jar.matched x host op).map ((jar.touch (jar.matched x host op) op.now).cookies[·]?) =
      (jar.cookies.filter fun c =>
        c.matchesOp x host op.url.path op (isPotentiallyTrustworthy x op.url)).map
          fun c => some { c with lastAccess := op.now } := by
  have hfst : (jar.cookies.filter fun c =>
      c.matchesOp x host op.url.path op (isPotentiallyTrustworthy x op.url)) =
      (jar.cookies.zipIdx.filter fun ci =>
        ci.1.matchesOp x host op.url.path op (isPotentiallyTrustworthy x op.url)).map Prod.fst := by
    conv_lhs => rw [← List.zipIdx_map_fst 0 jar.cookies, List.filter_map]
    rfl
  rw [hfst, List.map_map]
  conv_lhs => arg 2; rw [CookieJar.matched]
  rw [List.map_map]
  refine List.map_congr_left fun ci hci => ?_
  obtain ⟨c, i⟩ := ci
  have hi : i ∈ jar.matched x host op := List.mem_map.2 ⟨(c, i), hci, rfl⟩
  have hget := List.mem_zipIdx_iff_getElem?.1 (List.mem_filter.1 hci).1
  simp only at hget
  simp [CookieJar.touch, List.getElem?_mapIdx, hget, hi]

/-- `headerOrder` on looked-up cookies. -/
def headerOrderOpt : Option StoredCookie → Option StoredCookie → Bool
  | some a, some b => headerOrder a b
  | _, _ => false

/-- Sorting positions and looking them up is sorting the cookies. -/
theorem sorted_matched (host : Text) :
    (jar.touch (jar.matched x host op) op.now).sorted (jar.matched x host op) =
      (carried x jar.cookies host op).map fun c => { c with lastAccess := op.now } := by
  set jar' := jar.touch (jar.matched x host op) op.now with hjar'
  have hsort : ((jar.matched x host op).insertionSort
      fun i j => CookieJar.headerOrderAt jar'.cookies i j = true).map (jar'.cookies[·]?) =
      ((jar.matched x host op).map (jar'.cookies[·]?)).insertionSort
        fun a b => headerOrderOpt a b = true :=
    List.map_insertionSort _ _ _ _ fun i _ j _ => Iff.rfl
  have hread : ((carried x jar.cookies host op).map fun c => some { c with lastAccess := op.now }) =
      ((jar.cookies.filter fun c =>
        c.matchesOp x host op.url.path op (isPotentiallyTrustworthy x op.url)).map
          fun c => some { c with lastAccess := op.now }).insertionSort
            (fun a b => headerOrderOpt a b = true) :=
    List.map_insertionSort _ _ _ _ fun _ _ _ _ => Iff.rfl
  have hlookup : ∀ l : List Nat, l.filterMap (jar'.cookies[·]?) =
      (l.map (jar'.cookies[·]?)).filterMap id := fun l => by rw [List.filterMap_map]; rfl
  rw [CookieJar.sorted, hlookup, hsort, hjar', map_getElem?_matched, ← hread, List.filterMap_map]
  exact congrFun List.filterMap_eq_map _

theorem cookieString_eq (host : Text) (hhost : canonicalizeHost op.url = some host) :
    (jar.cookieString x op).1 = List.intercalate "; ".toList
      ((carried x (jar.evictExpired op.now).cookies host op).map StoredCookie.headerPair) := by
  simp only [CookieJar.cookieString, hhost, sorted_matched, List.map_map]
  rfl

theorem carried_nonHttp (hk : op.kind = .nonHttp) (cookies : List StoredCookie) (host : Text) :
    carried x cookies host op = carried x (cookies.filter fun c => !c.httpOnly) host op := by
  rw [carried, carried, List.filter_filter]
  congr 1
  refine List.filter_congr fun c _ => ?_
  cases hh : c.httpOnly with
  | false => simp
  | true => simp [StoredCookie.matchesOp, hh, hk]

theorem cookieString_congr {jar₁ jar₂ : CookieJar} (hk : op.kind = .nonHttp)
    (h : (jar₁.cookies.filter fun c => !c.httpOnly) = jar₂.cookies.filter fun c => !c.httpOnly) :
    (jar₁.cookieString x op).1 = (jar₂.cookieString x op).1 := by
  cases hhost : canonicalizeHost op.url with
  | none => simp only [CookieJar.cookieString, hhost]
  | some host =>
    have hexp : ∀ jar : CookieJar, ((jar.evictExpired op.now).cookies.filter fun c => !c.httpOnly) =
        (jar.cookies.filter fun c => !c.httpOnly).filter fun c => unexpiredAt op.now c.expiry := by
      intro jar
      rw [CookieJar.evictExpired, List.filter_filter, List.filter_filter]
      exact List.filter_congr fun c _ => Bool.and_comm _ _
    rw [cookieString_eq host hhost, cookieString_eq host hhost, carried_nonHttp hk,
      carried_nonHttp hk (jar₂.evictExpired op.now).cookies, hexp, hexp, h]

/-- The write takes the domain of the received cookie, or the jar, over its quota. -/
def CookieJar.writeOverflows (x : Crates) (jar : CookieJar) (line : Text) (op : CookieOp) : Bool :=
  match jar.received x line op with
  | some stored =>
    let cookies := replaceCookie (jar.evictExpired op.now).cookies stored
    unexpiredAt op.now stored.expiry &&
      (maxCookiesPerDomain < domainCount stored.domain cookies || maxCookies < cookies.length)
  | none => false

theorem received_nonHttp (hid : IdentitiesDistinct jar.cookies)
    (hk : op.kind = .nonHttp) (h : jar.received x line op = some stored) :
    stored.httpOnly = false ∧ ∀ c ∈ (jar.evictExpired op.now).cookies, c.httpOnly = true →
      sameCookieIdentity c stored = false := by
  obtain ⟨parsed, scope, created, hacc, hst, hold⟩ := received_spec h
  refine ⟨by rw [hst]; exact hacc.httpOnly hk, fun c hc hch => ?_⟩
  by_contra hsame
  rw [Bool.not_eq_false] at hsame
  -- the cookie found under the identity of `stored` is `c`, since identities are distinct
  cases hf : (jar.evictExpired op.now).cookies.find? (sameCookieIdentity · stored) with
  | none => exact absurd hsame (List.find?_eq_none.1 hf c hc)
  | some old =>
    have hold' := hold old hf hk
    have holdmem := List.mem_of_find?_eq_some hf
    have holdid := List.find?_some hf
    have heq : old = c := eq_of_sameCookieIdentity (hid.sublist List.filter_sublist) holdmem hc
      holdid hsame
    rw [heq, hch] at hold'
    simp at hold'

theorem withinQuota_of_not_overflows (h : JarInv P jar)
    (hst : jar.received x line op = some stored) (hexp : unexpiredAt op.now stored.expiry = true)
    (ho : jar.writeOverflows x line op = false) :
    WithinQuota (replaceCookie (jar.evictExpired op.now).cookies stored) := by
  simp only [CookieJar.writeOverflows, hst, hexp, Bool.true_and, Bool.or_eq_false_iff,
    decide_eq_false_iff_not, Nat.not_lt] at ho
  refine ⟨fun d => ?_, ho.2⟩
  by_cases hd : stored.domain = d
  · rw [← hd]
    exact ho.1
  · have := domainCount_replaceCookie_le (h.evictExpired op.now).quota stored d
    rwa [if_neg hd] at this

/-- A script neither observes nor writes HttpOnly cookies. What it reads does not depend on them,
and a write of it creates none and leaves every unexpired one as it is, unless the write exceeds a
quota. -/
theorem CookieJar.nonHttp_noninterference (hk : op.kind = .nonHttp) :
    (∀ jar₁ jar₂ : CookieJar,
      (jar₁.cookies.filter fun c => !c.httpOnly) = (jar₂.cookies.filter fun c => !c.httpOnly) →
      (jar₁.cookieString x op).1 = (jar₂.cookieString x op).1) ∧
    ∀ (ops : List JarOp) (line : Text),
      (∀ c ∈ ((CookieJar.default.run x ops).store x line op).2.cookies, c.httpOnly = true →
        c ∈ (CookieJar.default.run x ops).cookies) ∧
      ((CookieJar.default.run x ops).writeOverflows x line op = false →
        ∀ c ∈ (CookieJar.default.run x ops).cookies, c.httpOnly = true →
          unexpiredAt op.now c.expiry = true →
          c ∈ ((CookieJar.default.run x ops).store x line op).2.cookies) := by
  refine ⟨fun jar₁ jar₂ h => cookieString_congr hk h, fun ops line => ?_⟩
  have hinv : JarInv (fun _ => True) (CookieJar.default.run x ops) := jarInv_run ops
  constructor
  · intro c hc hch
    rcases mem_store hc with hmem | hst
    · exact hmem
    · rw [(received_nonHttp hinv.identities hk hst).1] at hch
      simp at hch
  · intro ho c hc hch hu
    refine store_keeps hc hu (fun stored hst => ?_) (fun stored hst hexp hmem => ?_)
    · exact (received_nonHttp hinv.identities hk hst).2 c (mem_evictExpired.2 ⟨hc, hu⟩) hch
    · rwa [evictExcess_eq_self (withinQuota_of_not_overflows hinv hst hexp ho)]

theorem CookieJar.nonHttp_noninterference_sample :
    CookieJar.sample ≠ ⟨CookieJar.sample.cookies.filter fun c => !c.httpOnly⟩ ∧
      (CookieJar.sample.cookieString .sample (.direct .sample 1 .nonHttp)).1 = "b=2".toList ∧
      (CookieJar.sample.cookieString .sample (.direct .sample 1 .nonHttp)).1 =
        (CookieJar.cookieString .sample ⟨CookieJar.sample.cookies.filter fun c => !c.httpOnly⟩
          (.direct .sample 1 .nonHttp)).1 :=
  ⟨by decide +kernel, by decide +kernel,
    (CookieJar.nonHttp_noninterference rfl).1 _ _ (by decide +kernel)⟩

end TinyBrowser
