import TinyBrowser.Cookies.Jar

/-!
# The matching relations are orders

`path_match` and `domain_match` of `crates/cookies/src/lib.rs`. A cookie path matches the paths that it
is a prefix of up to a boundary, the end or a slash on either side, and where the boundaries of a path
are does not depend on what follows. So the cookie paths of one request path form a chain, and a path
below another matches all that the other does.
-/

namespace TinyBrowser
open Lib

/-! ### Paths -/

/-- A path may be cut after so many characters: at its end, or next to a slash. -/
def Boundary (path : Text) (n : Nat) : Prop :=
  n = path.length ∨ (0 < n ∧ path[n - 1]? = some '/') ∨ path[n]? = some '/'

section Paths
variable {p q r c c' : Text}

theorem pathMatch_iff : pathMatch r c = true ↔ c <+: r ∧ Boundary r c.length := by
  unfold pathMatch Boundary
  split
  · next heq =>
    subst heq
    exact iff_of_true rfl ⟨List.prefix_rfl, .inl rfl⟩
  · next hne =>
    split
    · next hpre =>
      obtain ⟨t, rfl⟩ := List.isPrefixOf_iff_prefix.1 hpre
      have hlen : c.length ≠ (c ++ t).length := fun h => by
        have : t = [] := by simpa using h
        simp [this] at hne
      have hlast : c.getLast? = some '/' ↔ 0 < c.length ∧ (c ++ t)[c.length - 1]? = some '/' := by
        cases hc : c with
        | nil => simp
        | cons d c =>
          rw [List.getLast?_eq_getElem?, List.getElem?_append_left (by simp)]
          simp
      simp only [List.prefix_append, true_and, hlen, false_or]
      split
      · next h => exact iff_of_true rfl (.inl (hlast.1 h))
      · next h =>
        rw [decide_eq_true_eq]
        exact ⟨.inr, fun h' => h'.resolve_left (mt hlast.2 h)⟩
    · next hpre => exact iff_of_false (by simp) fun h => hpre (List.isPrefixOf_iff_prefix.2 h.1)

theorem Boundary.prefix_iff (h : q <+: p) {n : Nat} (hn : n < q.length) : Boundary p n ↔ Boundary q n := by
  obtain ⟨t, rfl⟩ := h
  unfold Boundary
  rw [List.getElem?_append_left hn, List.getElem?_append_left (by omega), List.length_append]
  constructor
  · rintro (h | h)
    · omega
    · exact .inr h
  · rintro (h | h)
    · omega
    · exact .inr h

theorem pathMatch_trans (h : pathMatch p q = true) (h' : pathMatch q r = true) :
    pathMatch p r = true := by
  rw [pathMatch_iff] at h h' ⊢
  refine ⟨h'.1.trans h.1, ?_⟩
  rcases Nat.lt_or_ge r.length q.length with hlt | hge
  · exact (Boundary.prefix_iff h.1 hlt).2 h'.2
  · rw [h'.1.eq_of_length_le hge]
    exact h.2

theorem pathMatch_antisymm (h : pathMatch p q = true) (h' : pathMatch q p = true) : p = q := by
  rw [pathMatch_iff] at h h'
  exact h'.1.eq_of_length_le h.1.length_le

theorem pathMatch_of_length_le (h : pathMatch r c = true) (h' : pathMatch r c' = true)
    (hlen : c.length ≤ c'.length) : pathMatch c' c = true := by
  rw [pathMatch_iff] at h h' ⊢
  have hpre := List.prefix_of_prefix_length_le h.1 h'.1 hlen
  refine ⟨hpre, ?_⟩
  rcases Nat.lt_or_ge c.length c'.length with hlt | hge
  · exact (Boundary.prefix_iff h'.1 hlt).1 h.2
  · exact .inl (Nat.le_antisymm hlen hge)

theorem pathMatch_defaultPath (h : p.head? = some '/') : pathMatch p (defaultPath p) = true := by
  have hroot : pathMatch p "/".toList = true := by
    obtain ⟨rest, rfl⟩ := List.head?_eq_some_iff.1 h
    exact pathMatch_iff.2 ⟨⟨rest, rfl⟩, .inr (.inl ⟨Nat.one_pos, rfl⟩)⟩
  unfold defaultPath
  split
  · next dir hdir =>
    split
    · obtain ⟨rest, rfl⟩ := Text.eq_of_beforeLast hdir
      refine pathMatch_iff.2 ⟨List.prefix_append _ _, .inr (.inr ?_)⟩
      rw [List.getElem?_append_right (Nat.le_refl _), Nat.sub_self]
      rfl
    · exact hroot
  · exact hroot

end Paths

/-! ### Domains -/

section Domains
variable {h d e : Text}

theorem isSubdomain_iff : isSubdomain h d = true ↔
    ∃ label tail, h = label ++ '.' :: tail ∧ Text.eqIgnoreAsciiCase tail d = true := by
  simp only [isSubdomain, Bool.and_eq_true, decide_eq_true_eq]
  constructor
  · rintro ⟨⟨hlt, hdot⟩, htail⟩
    refine ⟨h.take (h.length - d.length - 1), h.drop (h.length - d.length), ?_, htail⟩
    obtain ⟨hi, hget⟩ := List.getElem?_eq_some_iff.1 hdot
    have hdrop := List.drop_eq_getElem_cons hi
    rw [hget, show h.length - d.length - 1 + 1 = h.length - d.length by omega] at hdrop
    rw [← hdrop, List.take_append_drop]
  · rintro ⟨label, tail, rfl, htail⟩
    have hlen : tail.length = d.length := by
      have := congrArg List.length (of_decide_eq_true htail)
      simpa [Text.toAsciiLowercase] using this
    have hsub : (label ++ '.' :: tail).length - d.length = label.length + 1 := by
      simp only [List.length_append, List.length_cons]
      omega
    refine ⟨⟨?_, ?_⟩, ?_⟩
    · simp only [List.length_append, List.length_cons]
      omega
    · rw [hsub, Nat.add_sub_cancel, List.getElem?_append_right (Nat.le_refl _), Nat.sub_self]
      rfl
    · rw [hsub, List.drop_append, List.drop_of_length_le (Nat.le_succ _), Nat.add_sub_cancel_left]
      exact htail

theorem eqIgnoreAsciiCase_trans (h₁ : Text.eqIgnoreAsciiCase h d = true)
    (h₂ : Text.eqIgnoreAsciiCase d e = true) : Text.eqIgnoreAsciiCase h e = true :=
  decide_eq_true ((of_decide_eq_true h₁).trans (of_decide_eq_true h₂))

theorem isSubdomain_of_isSubdomain (hd : isSubdomain h d = true)
    (he : Text.eqIgnoreAsciiCase d e = true) : isSubdomain h e = true := by
  obtain ⟨label, tail, rfl, htail⟩ := isSubdomain_iff.1 hd
  exact isSubdomain_iff.2 ⟨label, tail, rfl, eqIgnoreAsciiCase_trans htail he⟩

/-- A text that is `label`, a dot and `tail` up to case has its dot there. -/
theorem split_of_eqIgnoreAsciiCase {label tail : Text}
    (heq : Text.eqIgnoreAsciiCase h (label ++ '.' :: tail) = true) :
    ∃ label' tail', h = label' ++ '.' :: tail' ∧ Text.eqIgnoreAsciiCase tail' tail = true := by
  have hmap := of_decide_eq_true heq
  rw [Text.toAsciiLowercase, Text.toAsciiLowercase, List.map_append, List.map_cons] at hmap
  obtain ⟨label', rest, rfl, -, hrest⟩ := List.map_eq_append_iff.1 hmap
  obtain ⟨dot, tail', rfl, hdot, htail⟩ := List.map_eq_cons_iff.1 hrest
  obtain rfl : dot = '.' := Text.eq_of_asciiLower (by decide) (hdot.trans (by decide))
  exact ⟨label', tail', rfl, decide_eq_true htail⟩

theorem isSubdomain_trans (hd : isSubdomain h d = true) (he : isSubdomain d e = true) :
    isSubdomain h e = true := by
  obtain ⟨label, tail, rfl, htail⟩ := isSubdomain_iff.1 hd
  obtain ⟨label', tail', rfl, htail'⟩ := isSubdomain_iff.1 he
  obtain ⟨label'', tail'', rfl, htail''⟩ := split_of_eqIgnoreAsciiCase htail
  refine isSubdomain_iff.2 ⟨label ++ '.' :: label'', tail'', by simp, ?_⟩
  exact eqIgnoreAsciiCase_trans htail'' htail'

theorem isSubdomain_of_eqIgnoreAsciiCase (hd : Text.eqIgnoreAsciiCase h d = true)
    (he : isSubdomain d e = true) : isSubdomain h e = true := by
  obtain ⟨label, tail, rfl, htail⟩ := isSubdomain_iff.1 he
  obtain ⟨label', tail', rfl, htail'⟩ := split_of_eqIgnoreAsciiCase hd
  exact isSubdomain_iff.2 ⟨label', tail', rfl, eqIgnoreAsciiCase_trans htail' htail⟩

theorem domainMatch_iff : domainMatch h d = true ↔
    Text.eqIgnoreAsciiCase h d = true ∨ isIp h = false ∧ isSubdomain h d = true := by
  unfold domainMatch
  split
  · next heq => exact iff_of_true rfl (.inl heq)
  · next hne =>
    split
    · next hip => simp [hne, hip]
    · next hip => simp [hne, hip]

theorem domainMatch_trans (hip : isIp h = false) (hd : domainMatch h d = true)
    (he : domainMatch d e = true) : domainMatch h e = true := by
  rw [domainMatch_iff] at hd he ⊢
  rcases hd with hd | ⟨-, hd⟩
  · rcases he with he | ⟨-, he⟩
    · exact .inl (eqIgnoreAsciiCase_trans hd he)
    · exact .inr ⟨hip, isSubdomain_of_eqIgnoreAsciiCase hd he⟩
  · rcases he with he | ⟨-, he⟩
    · exact .inr ⟨hip, isSubdomain_of_isSubdomain hd he⟩
    · exact .inr ⟨hip, isSubdomain_trans hd he⟩

theorem parse_of_domainMatch (hip : isIp h = true) (hd : domainMatch h d = true) :
    IpAddr.parse d = IpAddr.parse h ∧ d.toAsciiLowercase = h.toAsciiLowercase := by
  rcases domainMatch_iff.1 hd with heq | ⟨hnot, -⟩
  · have hlower : h.toAsciiLowercase = d.toAsciiLowercase := of_decide_eq_true heq
    exact ⟨by rw [← IpAddr.parse_toAsciiLowercase d, ← hlower, IpAddr.parse_toAsciiLowercase],
      hlower.symm⟩
  · rw [hip] at hnot
    cases hnot

end Domains

/-- On paths matching is an order whose cookie paths for one request path form a chain, with the
default path among them; on hosts that are no addresses it is a preorder, and an address matches only
itself, however it is spelled. -/
theorem matching_orders :
    ((∀ p, pathMatch p p = true) ∧
      (∀ p q r, pathMatch p q = true → pathMatch q r = true → pathMatch p r = true) ∧
      (∀ p q, pathMatch p q = true → pathMatch q p = true → p = q)) ∧
    (∀ p : Text, p.head? = some '/' →
      (defaultPath p).head? = some '/' ∧ pathMatch p (defaultPath p) = true) ∧
    (∀ r c c', pathMatch r c = true → pathMatch r c' = true → c.length ≤ c'.length →
      pathMatch c' c = true) ∧
    (∀ h, isIp h = false → domainMatch h h = true ∧
      ∀ d e, domainMatch h d = true → domainMatch d e = true → domainMatch h e = true) ∧
    ∀ h d, isIp h = true → domainMatch h d = true →
      IpAddr.parse d = IpAddr.parse h ∧ d.toAsciiLowercase = h.toAsciiLowercase :=
  ⟨⟨pathMatch_self, fun _ _ _ => pathMatch_trans, fun _ _ => pathMatch_antisymm⟩,
    fun p h => ⟨head?_defaultPath p, pathMatch_defaultPath h⟩,
    fun _ _ _ => pathMatch_of_length_le,
    fun h hip => ⟨domainMatch_self h, fun _ _ => domainMatch_trans hip⟩,
    fun _ _ => parse_of_domainMatch⟩

end TinyBrowser
