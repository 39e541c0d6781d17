import Mathlib.Data.List.Perm.Basic
import TinyBrowser.Cookies.Jar

/-!
# What the eviction loops do

Eviction only removes cookies (`evictExcess_sublist`), ends within both quotas
(`evictExcess_within`), and does nothing to a jar that is within them (`evictExcess_eq_self`). One
domain that is over its quota by one cookie gives up a non-secure cookie if it has one
(`mem_evictExcess_of_secure`).
-/

namespace TinyBrowser
open Lib

variable {cookies : List StoredCookie}

def domainCount (d : Text) (cookies : List StoredCookie) : Nat := cookies.countP fun c => c.domain = d

/-- Both quotas of the storage model. -/
structure WithinQuota (cookies : List StoredCookie) : Prop where
  domain : ∀ d, domainCount d cookies ≤ maxCookiesPerDomain
  total : cookies.length ≤ maxCookies

theorem domainCount_cons (d : Text) (c : StoredCookie) :
    domainCount d (c :: cookies) = domainCount d cookies + if c.domain = d then 1 else 0 := by
  simp [domainCount, List.countP_cons]

theorem domainCount_eq_count (d : Text) (cookies : List StoredCookie) :
    domainCount d cookies = (cookies.map StoredCookie.domain).count d := by
  simp [domainCount, List.count, List.countP_map, Function.comp_def, beq_eq_decide]

variable {cookies' : List StoredCookie}

theorem domainCount_le_of_sublist (h : List.Sublist cookies' cookies)
    (d : Text) : domainCount d cookies' ≤ domainCount d cookies :=
  h.countP_le

theorem WithinQuota.sublist (h : WithinQuota cookies)
    (hs : List.Sublist cookies' cookies) : WithinQuota cookies' :=
  ⟨fun d => Nat.le_trans (domainCount_le_of_sublist hs d) (h.domain d),
    Nat.le_trans hs.length_le h.total⟩

/-! ### Counting domains -/

theorem countDomains_eq_none {counts : Text → Nat} (h : countDomains counts cookies = none)
    (hc : ∀ d, counts d ≤ maxCookiesPerDomain) (d : Text) :
    counts d + domainCount d cookies ≤ maxCookiesPerDomain := by
  induction cookies generalizing counts with
  | nil => simpa [domainCount] using hc d
  | cons c cookies ih =>
    simp only [countDomains] at h
    split at h
    · simp at h
    · rename_i hle
      have := ih h fun d' => by
        by_cases hd : d' = c.domain
        · subst hd; simp; omega
        · simpa [hd] using hc d'
      rw [domainCount_cons]
      by_cases hd : c.domain = d
      · subst hd; simp at this ⊢; omega
      · simpa [hd, Ne.symm hd] using this

theorem countDomains_eq_some {counts : Text → Nat} {d : Text}
    (h : countDomains counts cookies = some d) :
    maxCookiesPerDomain < counts d + domainCount d cookies := by
  induction cookies generalizing counts with
  | nil => simp [countDomains] at h
  | cons c cookies ih =>
    simp only [countDomains] at h
    rw [domainCount_cons]
    split at h
    · rename_i hlt
      obtain rfl := Option.some.inj h
      simp; omega
    · have := ih h
      by_cases hd : c.domain = d
      · subst hd; simp at this ⊢; omega
      · simpa [hd, Ne.symm hd] using this

theorem overQuotaDomain_eq_none (h : overQuotaDomain cookies = none) (d : Text) :
    domainCount d cookies ≤ maxCookiesPerDomain := by
  unfold overQuotaDomain at h
  split at h
  · rename_i hle
    exact Nat.le_trans List.countP_le_length hle
  · simpa using countDomains_eq_none h (fun _ => Nat.zero_le _) d

theorem overQuotaDomain_eq_some {d : Text} (h : overQuotaDomain cookies = some d) :
    maxCookiesPerDomain < domainCount d cookies := by
  unfold overQuotaDomain at h
  split at h
  · simp at h
  · simpa using countDomains_eq_some h

theorem overQuotaDomain_of_within (h : ∀ d, domainCount d cookies ≤ maxCookiesPerDomain) :
    overQuotaDomain cookies = none := by
  cases ho : overQuotaDomain cookies with
  | none => rfl
  | some d => have := overQuotaDomain_eq_some ho; have := h d; omega

/-! ### One eviction -/

theorem victim_spec {domain : Option Text} {c : StoredCookie} {i : Nat}
    (h : victim cookies domain = some (c, i)) :
    cookies[i]? = some c ∧ ∀ d, domain = some d → c.domain = d := by
  have hmem := firstMin_mem h
  simp only [List.mem_filter, List.mem_zipIdx_iff_getElem?] at hmem
  refine ⟨hmem.1, fun d hd => ?_⟩
  subst hd
  simpa using hmem.2

theorem exists_victim_domain {d : Text} (h : 0 < domainCount d cookies) :
    ∃ c i, victim cookies (some d) = some (c, i) := by
  simp only [domainCount, List.countP_pos_iff, decide_eq_true_eq] at h
  obtain ⟨c, hc, hd⟩ := h
  obtain ⟨i, hi⟩ := List.mem_iff_getElem?.1 hc
  have hmem : (c, i) ∈ cookies.zipIdx.filter fun ci => (some d).all fun d => ci.1.domain = d := by
    simp [List.mem_zipIdx_iff_getElem?, hi, hd]
  obtain ⟨m, hm⟩ := firstMin_isSome (fun a b : StoredCookie × Nat =>
    evictionOrder (some d) a.1 b.1) (List.ne_nil_of_mem hmem)
  exact ⟨m.1, m.2, hm⟩

theorem exists_victim (h : cookies ≠ []) : ∃ c i, victim cookies none = some (c, i) := by
  have hne : (cookies.zipIdx.filter fun x => (none : Option Text).all fun d => x.1.domain = d) ≠ [] := by
    simpa using h
  obtain ⟨m, hm⟩ := firstMin_isSome (fun a b : StoredCookie × Nat =>
    evictionOrder none a.1 b.1) hne
  exact ⟨m.1, m.2, hm⟩

theorem evictOne_eq_some {domain : Option Text}
    (h : evictOne cookies domain = some cookies') :
    List.Sublist cookies' cookies ∧ cookies'.length + 1 = cookies.length := by
  unfold evictOne at h
  obtain ⟨⟨c, i⟩, hv, rfl⟩ := Option.map_eq_some_iff.1 h
  refine ⟨List.eraseIdx_sublist _ _, ?_⟩
  obtain ⟨hi, -⟩ := List.getElem?_eq_some_iff.1 (victim_spec hv).1
  simp only
  rw [List.length_eraseIdx_of_lt hi]
  omega

/-- Removing the victim takes one from the count of its domain. -/
theorem domainCount_evictOne {d : Text}
    (h : evictOne cookies (some d) = some cookies') :
    domainCount d cookies' + 1 = domainCount d cookies := by
  unfold evictOne at h
  obtain ⟨⟨c, i⟩, hv, rfl⟩ := Option.map_eq_some_iff.1 h
  obtain ⟨hget, hdom⟩ := victim_spec hv
  obtain ⟨hi, hci⟩ := List.getElem?_eq_some_iff.1 hget
  have hperm : (cookies[i] :: cookies.eraseIdx i).Perm cookies := List.getElem_cons_eraseIdx_perm hi
  have hcount := hperm.countP_eq fun c => decide (c.domain = d)
  rw [hci, List.countP_cons] at hcount
  simpa [domainCount, hdom d rfl] using hcount

/-- Within a domain the eviction order prefers cookies that are not secure. -/
theorem prefers_not_secure (d : Text) :
    Prefers (fun a b : StoredCookie × Nat => evictionOrder (some d) a.1 b.1)
      (fun c => c.1.secure = false) where
  keep {a b} ha hb := by
    simp only [Bool.not_eq_false] at hb
    simp [evictionOrder, ha, hb]
  take {a b} ha hb := by
    simp only [Bool.not_eq_false] at ha
    simp [evictionOrder, ha, hb]

theorem victim_not_secure {d : Text} {c : StoredCookie} {i : Nat}
    (h : victim cookies (some d) = some (c, i))
    (hex : ∃ c ∈ cookies, c.domain = d ∧ c.secure = false) : c.secure = false := by
  refine firstMin_of_preferred (prefers_not_secure d) h ?_
  obtain ⟨c', hc', hd, hs⟩ := hex
  obtain ⟨j, hj⟩ := List.mem_iff_getElem?.1 hc'
  exact ⟨(c', j), by simp [List.mem_zipIdx_iff_getElem?, hj, hd], hs⟩

/-! ### The loops -/

theorem evictDomains_sublist (fuel : Nat) (cookies : List StoredCookie) :
    List.Sublist (evictDomains fuel cookies) cookies := by
  induction fuel generalizing cookies with
  | zero => exact List.Sublist.refl _
  | succ fuel ih =>
    simp only [evictDomains]
    split
    · exact List.Sublist.refl _
    · split
      · exact List.Sublist.refl _
      · rename_i h
        exact (ih _).trans (evictOne_eq_some h).1

/-- With a round for every cookie, the loop ends because no domain is over its quota. -/
theorem evictDomains_within (fuel : Nat) (hf : cookies.length ≤ fuel) (d : Text) :
    domainCount d (evictDomains fuel cookies) ≤ maxCookiesPerDomain := by
  induction fuel generalizing cookies with
  | zero =>
    have : cookies = [] := List.length_eq_zero_iff.1 (by omega)
    simp [this, evictDomains, domainCount]
  | succ fuel ih =>
    simp only [evictDomains]
    split
    · rename_i h; exact overQuotaDomain_eq_none h d
    · rename_i d' h
      have hpos : 0 < domainCount d' cookies := by have := overQuotaDomain_eq_some h; omega
      obtain ⟨c, i, hv⟩ := exists_victim_domain hpos
      have he : evictOne cookies (some d') = some (cookies.eraseIdx i) := by simp [evictOne, hv]
      simp only [he]
      exact ih (by have := (evictOne_eq_some he).2; omega)

theorem evictTotal_sublist (fuel : Nat) (cookies : List StoredCookie) :
    List.Sublist (evictTotal fuel cookies) cookies := by
  induction fuel generalizing cookies with
  | zero => exact List.Sublist.refl _
  | succ fuel ih =>
    simp only [evictTotal]
    split
    · split
      · exact List.Sublist.refl _
      · rename_i h
        exact (ih _).trans (evictOne_eq_some h).1
    · exact List.Sublist.refl _

theorem evictTotal_length (fuel : Nat) (hf : cookies.length ≤ fuel) :
    (evictTotal fuel cookies).length ≤ maxCookies := by
  induction fuel generalizing cookies with
  | zero => simp only [evictTotal]; omega
  | succ fuel ih =>
    simp only [evictTotal]
    split
    · rename_i hlt
      have hne : cookies ≠ [] := List.ne_nil_of_length_pos (by omega)
      obtain ⟨c, i, hv⟩ := exists_victim hne
      have he : evictOne cookies none = some (cookies.eraseIdx i) := by simp [evictOne, hv]
      simp only [he]
      exact ih (by have := (evictOne_eq_some he).2; omega)
    · omega

theorem evictExcess_sublist (cookies : List StoredCookie) :
    List.Sublist (evictExcess cookies) cookies :=
  (evictTotal_sublist _ _).trans (evictDomains_sublist _ _)

theorem evictExcess_within (cookies : List StoredCookie) : WithinQuota (evictExcess cookies) where
  domain d := Nat.le_trans (domainCount_le_of_sublist (evictTotal_sublist _ _) d)
    (evictDomains_within _ (Nat.le_refl _) d)
  total := evictTotal_length _ (Nat.le_refl _)

theorem evictDomains_of_none (fuel : Nat) (h : overQuotaDomain cookies = none) :
    evictDomains fuel cookies = cookies := by
  cases fuel with
  | zero => rfl
  | succ fuel => simp [evictDomains, h]

theorem evictTotal_of_le (fuel : Nat) (h : cookies.length ≤ maxCookies) :
    evictTotal fuel cookies = cookies := by
  cases fuel with
  | zero => rfl
  | succ fuel => simp [evictTotal, Nat.not_lt.2 h]

theorem evictExcess_eq_self (h : WithinQuota cookies) : evictExcess cookies = cookies := by
  simp [evictExcess, evictDomains_of_none _ (overQuotaDomain_of_within h.domain),
    evictTotal_of_le _ h.total]

/-- Eviction from a jar in which only `stored`'s domain is over its quota, and by one cookie, keeps
every secure cookie when `stored` is not secure. -/
theorem mem_evictExcess_of_secure {stored c : StoredCookie}
    (hd : ∀ d, domainCount d cookies ≤ maxCookiesPerDomain + if stored.domain = d then 1 else 0)
    (ht : cookies.length ≤ maxCookies) (hs : stored ∈ cookies) (hns : stored.secure = false)
    (hc : c ∈ cookies) (hsec : c.secure = true) : c ∈ evictExcess cookies := by
  by_cases hw : ∀ d, domainCount d cookies ≤ maxCookiesPerDomain
  · rwa [evictExcess_eq_self ⟨hw, ht⟩]
  · cases ho : overQuotaDomain cookies with
    | none => exact absurd (overQuotaDomain_eq_none ho) hw
    | some d =>
      -- the domain over its quota is the one of `stored`
      have hover := overQuotaDomain_eq_some ho
      have hd' := hd d
      have hdom : stored.domain = d := by
        by_contra hne
        simp only [hne, ↓reduceIte] at hd'
        omega
      have hpos : 0 < domainCount d cookies := by omega
      obtain ⟨v, i, hv⟩ := exists_victim_domain hpos
      have hvs := victim_not_secure hv ⟨stored, hs, hdom, hns⟩
      have he : evictOne cookies (some d) = some (cookies.eraseIdx i) := by simp [evictOne, hv]
      have hsub := (evictOne_eq_some he).1
      have hcount := domainCount_evictOne he
      have hwithin : WithinQuota (cookies.eraseIdx i) := by
        refine ⟨fun d' => ?_, Nat.le_trans hsub.length_le ht⟩
        by_cases hdd : d' = d
        · subst hdd; simp only [hdom, ↓reduceIte] at hd'; omega
        · have h1 := hd d'
          have h2 := domainCount_le_of_sublist hsub d'
          rw [hdom, if_neg (Ne.symm hdd)] at h1
          omega
      have hev : evictDomains cookies.length cookies = cookies.eraseIdx i := by
        obtain ⟨n, hn⟩ : ∃ n, cookies.length = n + 1 :=
          Nat.exists_eq_succ_of_ne_zero (Nat.ne_of_gt (List.length_pos_of_mem hc))
        simp only [hn, evictDomains, ho, he]
        exact evictDomains_of_none _ (overQuotaDomain_of_within hwithin.domain)
      simp only [evictExcess, hev, evictTotal_of_le _ hwithin.total]
      obtain ⟨j, hj⟩ := List.mem_iff_getElem?.1 hc
      refine List.mem_eraseIdx_iff_getElem?.2 ⟨j, fun hji => ?_, hj⟩
      rw [hji, (victim_spec hv).1] at hj
      obtain rfl := Option.some.inj hj
      rw [hvs] at hsec
      simp at hsec

end TinyBrowser
