import TinyBrowser.Lib.Joined
import TinyBrowser.Net.Headers

/-!
# Splitting combined header values

`split_header_value` of `crates/net/src/protocol.rs` against the quoting state at each comma. A value
whose quoted strings all end is split by itself, whatever is combined with it, so what is combined from
repeated fields is split into the members of the fields (`splitHeaderValue_combinedHeader`), and members
that are joined again are split into themselves.
-/

namespace TinyBrowser
open Lib

namespace Quoting
variable {q : Quoting} {s t : Text}

/-- The state after one more character. -/
def next : Quoting → Char → Quoting
  | .plain, c => if c = '"' then .quoted else .plain
  | .quoted, c => if c = '"' then .plain else if c = '\\' then .escaped else .quoted
  | .escaped, _ => .quoted

def after (q : Quoting) (s : Text) : Quoting := s.foldl next q

@[simp] theorem after_nil (q : Quoting) : q.after [] = q := rfl

@[simp] theorem after_cons (q : Quoting) (c : Char) (s : Text) : q.after (c :: s) = (q.next c).after s :=
  rfl

theorem after_append (q : Quoting) (s t : Text) : q.after (s ++ t) = (q.after s).after t :=
  List.foldl_append

end Quoting

/-- Every quoted string of the value ends. -/
def Terminated (value : Text) : Prop := Quoting.plain.after value = .plain

/-- A comma that no quoted string contains, in a text that starts in the state `q`. -/
def PlainComma (q : Quoting) (s : Text) : Prop :=
  ∃ before rest, s = before ++ ',' :: rest ∧ q.after before = .plain

section Splitting
variable {q : Quoting} {s t member : Text} {c : Char}

theorem trimHttp_eq (s : Text) : trimHttp s = strip httpBlank s := rfl

theorem trimHttp_append_append {a b : Text} (ha : ∀ c ∈ a, httpBlank c = true)
    (hb : ∀ c ∈ b, httpBlank c = true) (s : Text) : trimHttp (a ++ s ++ b) = trimHttp s :=
  strip_append_append ha hb s

theorem trimHttp_trimHttp (s : Text) : trimHttp (trimHttp s) = trimHttp s := by
  obtain ⟨a, b, hs, ha, hb⟩ := exists_strip httpBlank s
  have htrim := trimHttp_append_append ha hb (trimHttp s)
  rw [trimHttp_eq s, ← hs] at htrim
  exact htrim.symm

theorem httpBlank_cases (hc : httpBlank c = true) : c = ' ' ∨ c = '\t' := by
  simpa [httpBlank] using hc

theorem after_blank (hs : ∀ c ∈ s, httpBlank c = true) : Quoting.plain.after s = .plain := by
  induction s with
  | nil => rfl
  | cons c s ih =>
    obtain ⟨hc, hrest⟩ := List.forall_mem_cons.1 hs
    rw [Quoting.after_cons]
    rcases httpBlank_cases hc with rfl | rfl <;> exact ih hrest

theorem plain_of_after_blank (hs : ∀ c ∈ s, httpBlank c = true) (h : q.after s = .plain) :
    q = .plain := by
  induction s generalizing q with
  | nil => exact h
  | cons c s ih =>
    obtain ⟨hc, hrest⟩ := List.forall_mem_cons.1 hs
    have hnext := ih hrest h
    rcases httpBlank_cases hc with rfl | rfl <;> cases q <;> first | rfl | cases hnext

/-! ### One character -/

theorem splitHeaderValueFrom_comma (member s : Text) : splitHeaderValueFrom .plain member (',' :: s) =
    trimHttp member :: splitHeaderValueFrom .plain [] s := by
  rw [splitHeaderValueFrom, if_pos rfl]

theorem splitHeaderValueFrom_cons (h : ¬ (q = .plain ∧ c = ',')) (member s : Text) :
    splitHeaderValueFrom q member (c :: s) = splitHeaderValueFrom (q.next c) (member ++ [c]) s := by
  cases q with
  | plain =>
    rw [splitHeaderValueFrom, if_neg fun hc => h ⟨rfl, hc⟩, Quoting.next]
    split <;> rfl
  | quoted =>
    rw [splitHeaderValueFrom, Quoting.next]
    split
    · rfl
    · split <;> rfl
  | escaped => rfl

theorem plainComma_cons (h : ¬ (q = .plain ∧ c = ',')) :
    PlainComma q (c :: s) ↔ PlainComma (q.next c) s := by
  constructor
  · rintro ⟨before, rest, heq, hplain⟩
    cases before with
    | nil =>
      obtain ⟨rfl, rfl⟩ := List.cons.inj heq
      exact absurd ⟨hplain, rfl⟩ h
    | cons d before =>
      obtain ⟨rfl, rfl⟩ := List.cons.inj heq
      exact ⟨before, rest, rfl, hplain⟩
  · rintro ⟨before, rest, rfl, hplain⟩
    exact ⟨c :: before, rest, rfl, hplain⟩

/-! ### Several values -/

/-- A value goes on after its last member. -/
theorem splitHeaderValueFrom_append (member t : Text) (h : q.after s = .plain) :
    splitHeaderValueFrom q member (s ++ ',' :: t) =
      splitHeaderValueFrom q member s ++ splitHeaderValueFrom .plain [] t := by
  induction s generalizing q member with
  | nil =>
    obtain rfl : q = .plain := h
    exact splitHeaderValueFrom_comma member t
  | cons c s ih =>
    rw [List.cons_append]
    by_cases hcomma : q = .plain ∧ c = ','
    · obtain ⟨rfl, rfl⟩ := hcomma
      have hplain : Quoting.plain.after s = .plain := h
      rw [splitHeaderValueFrom_comma, splitHeaderValueFrom_comma, ih [] hplain]
      rfl
    · rw [splitHeaderValueFrom_cons hcomma, splitHeaderValueFrom_cons hcomma, ih _ h]

/-- Blanks at the start of a member do not matter. -/
theorem splitHeaderValueFrom_blank {blanks : Text} (hb : ∀ c ∈ blanks, httpBlank c = true)
    (member s : Text) :
    splitHeaderValueFrom q (blanks ++ member) s = splitHeaderValueFrom q member s := by
  induction s generalizing q member with
  | nil =>
    have htrim := trimHttp_append_append hb (fun _ h => absurd h List.not_mem_nil) member
    rw [List.append_nil] at htrim
    cases q <;> exact congrArg (fun m => [m]) htrim
  | cons c s ih =>
    by_cases hcomma : q = .plain ∧ c = ','
    · obtain ⟨rfl, rfl⟩ := hcomma
      have htrim := trimHttp_append_append hb (fun _ h => absurd h List.not_mem_nil) member
      rw [List.append_nil] at htrim
      rw [splitHeaderValueFrom_comma, splitHeaderValueFrom_comma, htrim]
    · rw [splitHeaderValueFrom_cons hcomma, splitHeaderValueFrom_cons hcomma, List.append_assoc, ih]

theorem splitHeaderValue_append (h : Terminated s) (t : Text) :
    splitHeaderValue (s ++ ", ".toList ++ t) = splitHeaderValue s ++ splitHeaderValue t := by
  have hblank : ∀ c ∈ [' '], httpBlank c = true := by simp [httpBlank]
  have hspace : splitHeaderValueFrom .plain [] (' ' :: t) = splitHeaderValue t := by
    rw [splitHeaderValueFrom_cons (by simp)]
    exact splitHeaderValueFrom_blank hblank [] t
  rw [List.append_assoc]
  exact (splitHeaderValueFrom_append [] (' ' :: t) h).trans (congrArg _ hspace)

/-! ### Members -/

theorem splitHeaderValueFrom_of_not_plainComma (member : Text) (h : ¬ PlainComma q s) :
    splitHeaderValueFrom q member s = [trimHttp (member ++ s)] := by
  induction s generalizing q member with
  | nil =>
    rw [List.append_nil]
    cases q <;> rfl
  | cons c s ih =>
    have hcomma : ¬ (q = .plain ∧ c = ',') := by
      rintro ⟨rfl, rfl⟩
      exact h ⟨[], s, rfl, rfl⟩
    rw [splitHeaderValueFrom_cons hcomma, ih _ (mt (plainComma_cons hcomma).2 h), List.append_assoc]
    rfl

/-- What a member is. -/
structure IsMember (m : Text) : Prop where
  trimmed : trimHttp m = m
  comma : ¬ PlainComma .plain m

theorem IsMember.splitHeaderValue {m : Text} (h : IsMember m) : splitHeaderValue m = [m] := by
  rw [TinyBrowser.splitHeaderValue, splitHeaderValueFrom_of_not_plainComma [] h.comma,
    List.nil_append, h.trimmed]

theorem not_plainComma_trimHttp (h : ¬ PlainComma .plain s) : ¬ PlainComma .plain (trimHttp s) := by
  rintro ⟨before, rest, heq, hplain⟩
  obtain ⟨a, b, hs, ha, -⟩ := exists_strip httpBlank s
  rw [← trimHttp_eq, heq] at hs
  refine h ⟨a ++ before, rest ++ b, by rw [hs]; simp, ?_⟩
  rw [Quoting.after_append, after_blank ha, hplain]

theorem terminated_trimHttp (h : Terminated s) : Terminated (trimHttp s) := by
  obtain ⟨a, b, hs, ha, hb⟩ := exists_strip httpBlank s
  rw [← trimHttp_eq] at hs
  rw [Terminated, hs, Quoting.after_append, Quoting.after_append, after_blank ha] at h
  exact plain_of_after_blank hb h

theorem isMember_trimHttp (h : ¬ PlainComma .plain s) : IsMember (trimHttp s) :=
  ⟨trimHttp_trimHttp s, not_plainComma_trimHttp h⟩

/-- The members of a value: none has a comma outside its quoted strings, and only in the last may a
quoted string not end. -/
theorem splitHeaderValueFrom_spec (hmember : ¬ PlainComma .plain member)
    (hq : Quoting.plain.after member = q) : ∃ members last,
      splitHeaderValueFrom q member s = members ++ [last] ∧
      (∀ m ∈ members, IsMember m ∧ Terminated m) ∧ IsMember last := by
  induction s generalizing q member with
  | nil =>
    refine ⟨[], trimHttp member, ?_, fun m hm => absurd hm List.not_mem_nil, isMember_trimHttp hmember⟩
    cases q <;> rfl
  | cons c s ih =>
    by_cases hcomma : q = .plain ∧ c = ','
    · obtain ⟨rfl, rfl⟩ := hcomma
      have hnil : ¬ PlainComma .plain [] := fun ⟨before, rest, heq, _⟩ => by simp at heq
      obtain ⟨members, last, heq, hmembers, hlast⟩ := ih hnil (Quoting.after_nil .plain)
      refine ⟨trimHttp member :: members, last, ?_, ?_, hlast⟩
      · rw [splitHeaderValueFrom_comma, heq]
        rfl
      · exact List.forall_mem_cons.2 ⟨⟨isMember_trimHttp hmember, terminated_trimHttp hq⟩, hmembers⟩
    · rw [splitHeaderValueFrom_cons hcomma]
      refine ih ?_ (by rw [Quoting.after_append, hq]; rfl)
      rintro ⟨before, rest, heq, hplain⟩
      rcases List.eq_nil_or_concat rest with rfl | ⟨rest', d, rfl⟩
      · obtain ⟨rfl, hc⟩ := List.append_inj' heq rfl
        exact hcomma ⟨hq.symm.trans hplain, (List.cons.inj hc).1⟩
      · have hcons : before ++ ',' :: (rest' ++ [d]) = (before ++ ',' :: rest') ++ [d] := by simp
        rw [List.concat_eq_append, hcons] at heq
        obtain ⟨rfl, -⟩ := List.append_inj' heq rfl
        exact hmember ⟨before, rest', rfl, hplain⟩

theorem splitHeaderValue_spec (value : Text) : ∃ members last,
    splitHeaderValue value = members ++ [last] ∧
    (∀ m ∈ members, IsMember m ∧ Terminated m) ∧ IsMember last :=
  splitHeaderValueFrom_spec (fun ⟨before, rest, heq, _⟩ => by simp at heq) rfl

/-! ### Joining again -/

/-- Values are combined to what splits into the members of each, if the strings of all but the last
end. -/
theorem splitHeaderValue_joinTexts {values : List Text} (last : Text)
    (h : ∀ value ∈ values, Terminated value) :
    splitHeaderValue (joinTexts ", ".toList (values ++ [last])) =
      (values ++ [last]).flatMap splitHeaderValue := by
  induction values with
  | nil =>
    have hone : joinTexts ", ".toList [last] = last := List.intercalate_singleton
    rw [List.nil_append, hone]
    exact (List.flatMap_singleton ..).symm
  | cons value values ih =>
    obtain ⟨hvalue, hvalues⟩ := List.forall_mem_cons.1 h
    have hjoin : joinTexts ", ".toList (value :: (values ++ [last])) =
        value ++ ", ".toList ++ joinTexts ", ".toList (values ++ [last]) := by
      cases hrest : values ++ [last] with
      | nil => simp at hrest
      | cons v vs => exact List.intercalate_cons_cons ..
    rw [List.cons_append, hjoin, splitHeaderValue_append hvalue, ih hvalues]
    rfl

theorem flatMap_splitHeaderValue {members : List Text} (h : ∀ m ∈ members, IsMember m) :
    members.flatMap splitHeaderValue = members := by
  induction members with
  | nil => rfl
  | cons m members ih =>
    obtain ⟨hm, hmembers⟩ := List.forall_mem_cons.1 h
    rw [List.flatMap_cons, hm.splitHeaderValue, ih hmembers]
    rfl

theorem splitHeaderValue_joinTexts_split (value : Text) :
    splitHeaderValue (joinTexts ", ".toList (splitHeaderValue value)) = splitHeaderValue value := by
  obtain ⟨members, last, heq, hmembers, hlast⟩ := splitHeaderValue_spec value
  rw [heq, splitHeaderValue_joinTexts last fun m hm => (hmembers m hm).2]
  refine flatMap_splitHeaderValue fun m hm => ?_
  rcases List.mem_append.1 hm with hm | hm
  · exact (hmembers m hm).1
  · exact List.mem_singleton.1 hm ▸ hlast

theorem splitHeaderValueFrom_append_blank {blanks : Text} (hb : ∀ c ∈ blanks, httpBlank c = true)
    (member s : Text) :
    splitHeaderValueFrom q member (s ++ blanks) = splitHeaderValueFrom q member s := by
  induction s generalizing q member with
  | nil =>
    have hcomma : ¬ PlainComma q blanks := by
      rintro ⟨before, rest, rfl, -⟩
      have hblank := hb ',' (List.mem_append_right _ List.mem_cons_self)
      simp [httpBlank] at hblank
    rw [List.nil_append, splitHeaderValueFrom_of_not_plainComma member hcomma, ← List.nil_append member,
      List.append_assoc, ← List.append_assoc, trimHttp_append_append (by simp) hb, List.nil_append]
    cases q <;> rfl
  | cons c s ih =>
    rw [List.cons_append]
    by_cases hcomma : q = .plain ∧ c = ','
    · obtain ⟨rfl, rfl⟩ := hcomma
      rw [splitHeaderValueFrom_comma, splitHeaderValueFrom_comma, ih]
    · rw [splitHeaderValueFrom_cons hcomma, splitHeaderValueFrom_cons hcomma, ih]

theorem splitHeaderValueFrom_blank_append {blanks : Text} (hb : ∀ c ∈ blanks, httpBlank c = true)
    (member s : Text) : splitHeaderValueFrom .plain member (blanks ++ s) =
      splitHeaderValueFrom .plain (member ++ blanks) s := by
  induction blanks generalizing member with
  | nil => simp
  | cons c blanks ih =>
    obtain ⟨hc, hrest⟩ := List.forall_mem_cons.1 hb
    have hplain : Quoting.plain.next c = .plain := by
      rcases httpBlank_cases hc with rfl | rfl <;> rfl
    have hcomma : ¬ (Quoting.plain = .plain ∧ c = ',') := by
      rintro ⟨-, rfl⟩
      simp [httpBlank] at hc
    rw [List.cons_append, splitHeaderValueFrom_cons hcomma, hplain, ih hrest]
    simp

theorem splitHeaderValue_trimHttp (value : Text) :
    splitHeaderValue (trimHttp value) = splitHeaderValue value := by
  obtain ⟨a, b, hs, ha, hb⟩ := exists_strip httpBlank value
  rw [← trimHttp_eq] at hs
  have hblank := splitHeaderValueFrom_blank (q := .plain) ha [] (trimHttp value)
  rw [List.append_nil] at hblank
  conv_rhs => rw [hs]
  rw [splitHeaderValue, splitHeaderValue, splitHeaderValueFrom_append_blank hb,
    splitHeaderValueFrom_blank_append ha,
    List.nil_append, hblank]

theorem splitHeaderValue_combinedHeader {values : List Text} {last : Text}
    (h : ∀ value ∈ values, Terminated value) :
    (combinedHeader (values ++ [last])).map splitHeaderValue =
      some ((values ++ [last]).flatMap splitHeaderValue) := by
  have htrim : ∀ value ∈ values.map trimHttp, Terminated value := fun value hmem => by
    obtain ⟨v, hv, rfl⟩ := List.mem_map.1 hmem
    exact terminated_trimHttp (h v hv)
  have hjoin := splitHeaderValue_joinTexts (trimHttp last) htrim
  rw [combinedHeader, List.map_append, List.map_singleton]
  simp only [List.append_eq_nil_iff, List.cons_ne_nil, and_false, if_false, Option.map_some, hjoin]
  rw [List.flatMap_append, List.flatMap_append, List.flatMap_map]
  simp only [splitHeaderValue_trimHttp, List.flatMap_singleton]

end Splitting

/-- A value whose quoted strings all end splits by itself before any other; no member has a comma
outside its quoted strings; members that are joined split into themselves; and what is combined from
several fields splits into the members of each. -/
theorem splitHeaderValue_compositional :
    (∀ v₁ v₂, Terminated v₁ →
      splitHeaderValue (v₁ ++ ", ".toList ++ v₂) = splitHeaderValue v₁ ++ splitHeaderValue v₂) ∧
    (∀ value, ∀ m ∈ splitHeaderValue value, ¬ PlainComma .plain m) ∧
    (∀ value, splitHeaderValue (joinTexts ", ".toList (splitHeaderValue value)) =
      splitHeaderValue value) ∧
    ∀ values last, (∀ value ∈ values, Terminated value) →
      (combinedHeader (values ++ [last])).map splitHeaderValue =
        some ((values ++ [last]).flatMap splitHeaderValue) := by
  refine ⟨fun v₁ v₂ h => splitHeaderValue_append h v₂, fun value m hm => ?_,
    splitHeaderValue_joinTexts_split, fun values last h => splitHeaderValue_combinedHeader h⟩
  obtain ⟨members, last, heq, hmembers, hlast⟩ := splitHeaderValue_spec value
  rw [heq] at hm
  rcases List.mem_append.1 hm with hm | hm
  · exact (hmembers m hm).1.comma
  · exact List.mem_singleton.1 hm ▸ hlast.comma

-- the string that does not end takes the comma between the fields
example : splitHeaderValue "a=\"b, c".toList = ["a=\"b, c".toList] := by decide
end TinyBrowser
