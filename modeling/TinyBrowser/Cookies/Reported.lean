import TinyBrowser.Cookies.Isolation

/-!
# What `store` reports

`store` answers before the quotas are looked at, and the cookie it has just added is a candidate for
eviction like any other: it is given up when it comes before every other one in the eviction order.
-/

namespace TinyBrowser
open Lib

variable {x : Crates} {cookies : List StoredCookie} {stored c : StoredCookie} {now : SystemTime}

/-! ### The eviction order -/

instance : Std.TransCmp byAge :=
  inferInstanceAs (Std.TransCmp
    (compareLex (compareOn StoredCookie.lastAccess) (compareOn StoredCookie.created)))

theorem evictionOrder_some (d : Text) :
    evictionOrder (some d) = compareLex (compareOn StoredCookie.secure) byAge := by
  funext a b
  rw [evictionOrder, compareLex, compareOn]
  cases a.secure <;> cases b.secure <;> rfl

instance (domain : Option Text) : Std.TransCmp (evictionOrder domain) :=
  match domain with
  | none => inferInstanceAs (Std.TransCmp byAge)
  | some d => evictionOrder_some d ▸ inferInstance

instance (domain : Option Text) :
    Std.TransCmp fun a b : StoredCookie × Nat => evictionOrder domain a.1 b.1 where
  eq_swap {a b} := (Std.OrientedCmp.eq_swap :
    evictionOrder domain a.1 b.1 = (evictionOrder domain b.1 a.1).swap)
  isLE_trans {a _ c} hab hbc := (Std.TransCmp.isLE_trans hab hbc :
    (evictionOrder domain a.1 c.1).isLE)

/-! ### One cookie too many -/

section
variable {domain : Option Text}

theorem filter_zipIdx_concat (hdom : domain.all (stored.domain = ·) = true) :
    ((cookies ++ [stored]).zipIdx.filter fun (c, _) => domain.all fun d => c.domain = d) =
      (cookies.zipIdx.filter fun (c, _) => domain.all fun d => c.domain = d) ++
        [(stored, cookies.length)] := by
  rw [List.zipIdx_append, List.filter_append, List.zipIdx_singleton, Nat.zero_add,
    List.filter_cons_of_pos, List.filter_nil]
  exact hdom

theorem evictOne_concat_of_gt (hdom : domain.all (stored.domain = ·) = true)
    (h : ∀ c ∈ cookies, domain.all (c.domain = ·) = true → evictionOrder domain c stored = .gt) :
    evictOne (cookies ++ [stored]) domain = some cookies := by
  have hvictim : victim (cookies ++ [stored]) domain = some (stored, cookies.length) := by
    rw [victim, filter_zipIdx_concat hdom]
    refine firstMin_concat_of_gt fun c hc => ?_
    obtain ⟨hmem, hcd⟩ := List.mem_filter.1 hc
    exact h c.1 (List.mem_of_getElem? (List.mem_zipIdx_iff_getElem?.1 hmem)) hcd
  rw [evictOne, hvictim, Option.map_some]
  dsimp only
  rw [List.eraseIdx_append_of_length_le (Nat.le_refl _), Nat.sub_self, List.eraseIdx_cons_zero,
    List.append_nil]

theorem evictOne_concat_of_not_gt (hdom : domain.all (stored.domain = ·) = true) (hc : c ∈ cookies)
    (hcd : domain.all (c.domain = ·) = true) (h : evictionOrder domain c stored ≠ .gt) :
    ∃ i, evictOne (cookies ++ [stored]) domain = some (cookies.eraseIdx i ++ [stored]) := by
  obtain ⟨j, hj⟩ := List.mem_iff_getElem?.1 hc
  have hmem : (c, j) ∈ cookies.zipIdx.filter fun (c, _) => domain.all fun d => c.domain = d :=
    List.mem_filter.2 ⟨List.mem_zipIdx_iff_getElem?.2 hj, hcd⟩
  have hvictim : victim (cookies ++ [stored]) domain = victim cookies domain := by
    rw [victim, filter_zipIdx_concat hdom]
    exact firstMin_concat_of_not_gt hmem h
  obtain ⟨m, hm⟩ := firstMin_isSome (fun a b : StoredCookie × Nat => evictionOrder domain a.1 b.1)
    (List.ne_nil_of_mem hmem)
  have hm : victim cookies domain = some (m.1, m.2) := hm
  obtain ⟨hlt, -⟩ := List.getElem?_eq_some_iff.1 (victim_spec hm).1
  refine ⟨m.2, ?_⟩
  rw [evictOne, hvictim, hm, Option.map_some]
  dsimp only
  rw [List.eraseIdx_append_of_lt_length hlt]

end

theorem domainCount_concat (d : Text) : domainCount d (cookies ++ [stored]) =
    domainCount d cookies + if stored.domain = d then 1 else 0 := by
  rw [domainCount, List.countP_append, List.countP_singleton]
  simp only [decide_eq_true_eq]
  rfl

/-- A domain that is full gives up one cookie, and that is all. -/
theorem evictExcess_of_domain (hw : WithinQuota cookies)
    (hfull : maxCookiesPerDomain ≤ domainCount stored.domain cookies) {left : List StoredCookie}
    (hone : evictOne (cookies ++ [stored]) (some stored.domain) = some left) :
    evictExcess (cookies ++ [stored]) = left := by
  have hover : overQuotaDomain (cookies ++ [stored]) = some stored.domain := by
    cases ho : overQuotaDomain (cookies ++ [stored]) with
    | none =>
      have hle := overQuotaDomain_eq_none ho stored.domain
      rw [domainCount_concat, if_pos rfl] at hle
      omega
    | some d =>
      have hlt := overQuotaDomain_eq_some ho
      have hd := hw.domain d
      rw [domainCount_concat] at hlt
      split at hlt
      · rename_i heq
        rw [heq]
      · omega
  have hwithin : WithinQuota left := by
    obtain ⟨hsub, hlen⟩ := evictOne_eq_some hone
    refine ⟨fun d => ?_, ?_⟩
    · have hd := hw.domain d
      by_cases heq : stored.domain = d
      · have hcount := domainCount_evictOne (heq ▸ hone)
        rw [domainCount_concat, if_pos heq] at hcount
        omega
      · have hle := domainCount_le_of_sublist hsub d
        rw [domainCount_concat, if_neg heq] at hle
        omega
    · have htotal := hw.total
      rw [List.length_append, List.length_singleton] at hlen
      omega
  have hdomains : evictDomains (cookies ++ [stored]).length (cookies ++ [stored]) = left := by
    rw [List.length_append, List.length_singleton, evictDomains, hover]
    simp only [hone]
    exact evictDomains_of_none _ (overQuotaDomain_of_within hwithin.domain)
  simp only [evictExcess, hdomains, evictTotal_of_le _ hwithin.total]

theorem evictExcess_of_total (hw : WithinQuota cookies)
    (hroom : domainCount stored.domain cookies < maxCookiesPerDomain)
    (hfull : maxCookies ≤ cookies.length) {left : List StoredCookie}
    (hone : evictOne (cookies ++ [stored]) none = some left) :
    evictExcess (cookies ++ [stored]) = left := by
  have hnone : overQuotaDomain (cookies ++ [stored]) = none := by
    refine overQuotaDomain_of_within fun d => ?_
    have hd := hw.domain d
    rw [domainCount_concat]
    split
    · rename_i heq
      rw [heq] at hroom
      omega
    · exact hd
  have hlen : left.length ≤ maxCookies := by
    have hlen := (evictOne_eq_some hone).2
    rw [List.length_append, List.length_singleton] at hlen
    have htotal := hw.total
    omega
  simp only [evictExcess, evictDomains_of_none _ hnone]
  rw [List.length_append, List.length_singleton, evictTotal, if_pos (by
    rw [List.length_append, List.length_singleton]
    omega)]
  simp only [hone]
  exact evictTotal_of_le _ hlen

/-- There is room for the cookie: it replaces one, no quota is full, or another cookie goes first. -/
def HasRoom (cookies : List StoredCookie) (stored : StoredCookie) : Prop :=
  (∃ old ∈ cookies, sameCookieIdentity old stored = true) ∨
  if maxCookiesPerDomain ≤ domainCount stored.domain cookies then
    ∃ c ∈ cookies, c.domain = stored.domain ∧ evictionOrder (some stored.domain) c stored ≠ .gt
  else maxCookies ≤ cookies.length → ∃ c ∈ cookies, evictionOrder none c stored ≠ .gt

/-- Of a cookie that replaces none. -/
theorem mem_evictExcess_concat (hw : WithinQuota cookies)
    (hnew : ∀ c ∈ cookies, sameCookieIdentity c stored = false) :
    stored ∈ evictExcess (cookies ++ [stored]) ↔ HasRoom cookies stored := by
  have hno : ¬∃ old ∈ cookies, sameCookieIdentity old stored = true := by
    rintro ⟨old, hold, hsame⟩
    exact Bool.eq_false_iff.1 (hnew old hold) hsame
  have hnotMem : stored ∉ cookies := fun hmem => hno ⟨stored, hmem, by simp [sameCookieIdentity]⟩
  have hlast : ∀ i, stored ∈ cookies.eraseIdx i ++ [stored] := fun i => by simp
  rw [HasRoom, or_iff_right hno]
  split
  · rename_i hfull
    have hdom : (some stored.domain).all (stored.domain = ·) = true := by simp
    constructor
    · intro hmem
      by_contra hnone
      have hone : evictOne (cookies ++ [stored]) (some stored.domain) = some cookies :=
        evictOne_concat_of_gt hdom fun c hc hcd => by
          by_contra hle
          exact hnone ⟨c, hc, by simpa using hcd, hle⟩
      exact hnotMem (evictExcess_of_domain hw hfull hone ▸ hmem)
    · rintro ⟨c, hc, hcd, hle⟩
      obtain ⟨i, hone⟩ := evictOne_concat_of_not_gt hdom hc (by simpa using hcd) hle
      rw [evictExcess_of_domain hw hfull hone]
      exact hlast i
  · rename_i hroom
    rw [Nat.not_le] at hroom
    constructor
    · intro hmem hfull
      by_contra hnone
      have hone : evictOne (cookies ++ [stored]) none = some cookies :=
        evictOne_concat_of_gt rfl fun c hc _ => by
          by_contra hle
          exact hnone ⟨c, hc, hle⟩
      exact hnotMem (evictExcess_of_total hw hroom hfull hone ▸ hmem)
    · intro hex
      by_cases hfull : maxCookies ≤ cookies.length
      · obtain ⟨c, hc, hle⟩ := hex hfull
        obtain ⟨i, hone⟩ := evictOne_concat_of_not_gt rfl hc rfl hle
        rw [evictExcess_of_total hw hroom hfull hone]
        exact hlast i
      · have hwithin : WithinQuota (cookies ++ [stored]) := by
          refine ⟨fun d => ?_, ?_⟩
          · have hd := hw.domain d
            rw [domainCount_concat]
            split
            · rename_i heq
              rw [heq] at hroom
              omega
            · exact hd
          · rw [List.length_append, List.length_singleton]
            omega
        rw [evictExcess_eq_self hwithin]
        exact List.mem_append_right _ (List.mem_singleton_self _)

theorem WithinQuota.replaceCookie_of_same (hw : WithinQuota cookies) {old : StoredCookie}
    (hold : old ∈ cookies) (hsame : sameCookieIdentity old stored = true) :
    WithinQuota (replaceCookie cookies stored) := by
  have hdropped : old ∈ cookies.filter fun c => !(!sameCookieIdentity c stored) :=
    List.mem_filter.2 ⟨hold, by rw [Bool.not_not, hsame]⟩
  refine ⟨fun d => ?_, ?_⟩
  · rw [replaceCookie, domainCount_concat]
    have hd := hw.domain d
    have hsplit : domainCount d cookies =
        domainCount d (cookies.filter fun c => !sameCookieIdentity c stored) +
          domainCount d (cookies.filter fun c => !(!sameCookieIdentity c stored)) :=
      List.countP_eq_countP_filter_add ..
    split
    · rename_i heq
      have hpos : 0 < domainCount d (cookies.filter fun c => !(!sameCookieIdentity c stored)) :=
        List.countP_pos_iff.2 ⟨old, hdropped, by
          rw [decide_eq_true_eq, (sameCookieIdentity_iff.1 hsame).2.1, heq]⟩
      omega
    · omega
  · rw [replaceCookie, List.length_append, List.length_singleton]
    have hsplit := List.length_eq_length_filter_add (l := cookies)
      fun c => !sameCookieIdentity c stored
    have hpos := List.length_pos_of_mem hdropped
    have htotal := hw.total
    omega

theorem filter_evictExcess (cookies : List StoredCookie) (stored : StoredCookie) :
    (evictExcess (replaceCookie cookies stored)).filter (sameCookieIdentity · stored) = [stored] ↔
      stored ∈ evictExcess (replaceCookie cookies stored) := by
  have hone : (replaceCookie cookies stored).filter (sameCookieIdentity · stored) = [stored] := by
    rw [replaceCookie, List.filter_append, List.filter_filter]
    have hnil : (cookies.filter fun c => sameCookieIdentity c stored &&
        !sameCookieIdentity c stored) = [] := by
      simp
    rw [hnil, List.nil_append, List.filter_cons_of_pos (by simp [sameCookieIdentity]),
      List.filter_nil]
  constructor
  · intro heq
    exact (List.mem_filter.1 (heq ▸ List.mem_singleton_self stored)).1
  · intro hmem
    have hsub := (evictExcess_sublist (replaceCookie cookies stored)).filter
      (sameCookieIdentity · stored)
    rw [hone] at hsub
    rcases List.sublist_singleton.1 hsub with hnil | heq
    · have hin : stored ∈ (evictExcess (replaceCookie cookies stored)).filter
          (sameCookieIdentity · stored) :=
        List.mem_filter.2 ⟨hmem, by simp [sameCookieIdentity]⟩
      rw [hnil] at hin
      cases hin
    · exact heq

theorem mem_evictExcess_replaceCookie (hw : WithinQuota cookies) :
    stored ∈ evictExcess (replaceCookie cookies stored) ↔ HasRoom cookies stored := by
  by_cases hex : ∃ old ∈ cookies, sameCookieIdentity old stored = true
  · obtain ⟨old, hold, hsame⟩ := hex
    refine iff_of_true ?_ (.inl ⟨old, hold, hsame⟩)
    rw [evictExcess_eq_self (hw.replaceCookie_of_same hold hsame)]
    exact mem_replaceCookie.2 (.inr rfl)
  · have hnew : ∀ c ∈ cookies, sameCookieIdentity c stored = false := fun c hc =>
      Bool.eq_false_iff.2 fun hsame => hex ⟨c, hc, hsame⟩
    have hrep : replaceCookie cookies stored = cookies ++ [stored] := by
      rw [replaceCookie, List.filter_eq_self.2 fun c hc => by rw [hnew c hc]; rfl]
    rw [hrep]
    exact mem_evictExcess_concat hw hnew

/-! ### The report -/

/-- The creation time of a cookie that joins `existing`: that of the cookie it replaces, if any. -/
def creationTime (existing : List StoredCookie) (stored : StoredCookie) : SystemTime :=
  match existing.find? (sameCookieIdentity · stored) with
  | some old => old.created
  | none => stored.created

/-- What `store` answers is what it did. After `true` the jar has one cookie of the identity, the one
the line asks for, unless that one has expired; after `false` the jar only lost its expired cookies. -/
def StoreReports (x : Crates) (jar : CookieJar) (line : Text) (op : CookieOp) : Prop :=
  let live := (jar.evictExpired op.now).cookies
  match jar.store x line op with
  | (false, jar) => jar.cookies = live
  | (true, jar) => ∃ parsed host scope, parseSetCookie line = some parsed ∧
      canonicalizeHost op.url = some host ∧ cookieScope x parsed op.url host = some scope ∧
      (unexpiredAt op.now (cookieExpiry parsed op.now) = true →
        let stored := newCookie parsed scope op.now
        jar.cookies.filter (sameCookieIdentity · stored) =
          [{ stored with created := creationTime live stored }])

/-- The cookie a line asks for is rejected, expired on arrival or has room in the jar. -/
def StoreFits (x : Crates) (jar : CookieJar) (line : Text) (op : CookieOp) : Prop :=
  ∀ stored ∈ jar.received x line op, unexpiredAt op.now stored.expiry = true →
    HasRoom (jar.evictExpired op.now).cookies stored

variable {jar : CookieJar} {line : Text} {op : CookieOp} {P : StoredCookie → Prop}

theorem received_eq (h : jar.received x line op = some stored) :
    ∃ parsed host scope, parseSetCookie line = some parsed ∧
      canonicalizeHost op.url = some host ∧ cookieScope x parsed op.url host = some scope ∧
      stored = { newCookie parsed scope op.now with
        created := creationTime (jar.evictExpired op.now).cookies
          (newCookie parsed scope op.now) } := by
  unfold CookieJar.received at h
  obtain ⟨parsed, hparsed, h⟩ := Option.bind_eq_some_iff.1 h
  unfold receiveCookie at h
  obtain ⟨host, hhost, h⟩ := Option.bind_eq_some_iff.1 h
  obtain ⟨scope, hscope, h⟩ := Option.bind_eq_some_iff.1 h
  refine ⟨parsed, host, scope, hparsed, hhost, hscope, ?_⟩
  split at h
  · cases h
  · dsimp only at h
    split at h
    · rename_i old hold
      split at h
      · cases h
      · rw [creationTime, hold]
        exact (Option.some.inj h).symm
    · rename_i hnone
      rw [creationTime, hnone]
      exact (Option.some.inj h).symm

/-- The report is true exactly when there is room for the cookie. -/
theorem storeReports_iff (h : JarInv P jar) :
    StoreReports x jar line op ↔ StoreFits x jar line op := by
  unfold StoreReports StoreFits CookieJar.store
  cases hreceived : jar.received x line op with
  | none => exact iff_of_true rfl (by simp)
  | some stored =>
    obtain ⟨parsed, host, scope, hparsed, hhost, hscope, heq⟩ := received_eq hreceived
    have hexpiry : stored.expiry = cookieExpiry parsed op.now := by rw [heq]; rfl
    have hall : (∀ c ∈ some stored, unexpiredAt op.now c.expiry = true →
        HasRoom (jar.evictExpired op.now).cookies c) ↔
        (unexpiredAt op.now stored.expiry = true →
          HasRoom (jar.evictExpired op.now).cookies stored) := by simp
    rw [hall]
    by_cases hlive : unexpiredAt op.now stored.expiry = true
    · have hw := (h.evictExpired op.now).quota
      simp only [hlive, if_true]
      rw [forall_const, ← mem_evictExcess_replaceCookie hw, ← filter_evictExcess]
      constructor
      · rintro ⟨parsed', host', scope', hparsed', hhost', hscope', hone⟩
        obtain rfl := Option.some.inj (hparsed.symm.trans hparsed')
        obtain rfl := Option.some.inj (hhost.symm.trans hhost')
        obtain rfl := Option.some.inj (hscope.symm.trans hscope')
        have hone := hone (hexpiry ▸ hlive)
        rw [← heq] at hone
        rw [← hone, heq]
        rfl
      · intro hone
        refine ⟨parsed, host, scope, hparsed, hhost, hscope, fun _ => ?_⟩
        rw [← heq, ← hone, heq]
        rfl
    · simp only [hlive]
      refine iff_of_true ⟨parsed, host, scope, hparsed, hhost, hscope, fun hexp => ?_⟩ (by simp)
      exact absurd (hexpiry ▸ hexp) hlive

theorem not_storeReports (htrue : (jar.store x line op).1 = true)
    (hgone : ∀ parsed ∈ parseSetCookie line,
      unexpiredAt op.now (cookieExpiry parsed op.now) = true ∧
        ∀ c ∈ (jar.store x line op).2.cookies, c.name ≠ parsed.name) :
    ¬ StoreReports x jar line op := by
  unfold StoreReports
  split
  · rename_i hstore
    rw [hstore] at htrue
    cases htrue
  · rename_i jar' hstore
    rintro ⟨parsed, host, scope, hparsed, -, -, hone⟩
    obtain ⟨hlive, hnone⟩ := hgone parsed hparsed
    have hmem := (hone hlive) ▸ List.mem_singleton_self _
    rw [hstore] at hnone
    exact hnone _ (List.mem_filter.1 hmem).1 rfl

theorem storeReports_iff_sample :
    (CookieJar.sample.store .sample "b=3".toList (.direct .sample 1 .http)).1 = true ∧
      (StoreReports .sample CookieJar.sample "b=3".toList (.direct .sample 1 .http) ↔
        StoreFits .sample CookieJar.sample "b=3".toList (.direct .sample 1 .http)) := by
  have hinv : JarInv (fun _ => True) CookieJar.sample := jarInv_run _
  exact ⟨by decide +kernel, storeReports_iff hinv⟩

/-- Fifty secure cookies of one host. -/
def secureRecords : List CookieRecord :=
  (List.range 50).map fun i => ⟨[Char.ofNat (65 + i)], "1".toList, none, "example.com".toList,
    "/".toList, 0, 0, true, true, false, .default⟩

def CookieJar.full : CookieJar := CookieJar.default.run .sample [.restore secureRecords 0]

/-- A cookie that is not secure is reported and gone. -/
theorem not_storeReports_full : JarInv (fun _ => True) CookieJar.full ∧
    (CookieJar.full.store .sample "new=1".toList (.direct .sample 1 .http)).1 = true ∧
    ¬ StoreReports .sample CookieJar.full "new=1".toList (.direct .sample 1 .http) := by
  have hinv : JarInv (fun _ => True) CookieJar.full := jarInv_run _
  exact ⟨hinv, by decide +kernel, not_storeReports (by decide +kernel) (by decide +kernel)⟩

end TinyBrowser
