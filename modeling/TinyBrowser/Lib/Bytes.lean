import TinyBrowser.Lib.Text

/-!
# Byte strings and UTF-8

`utf8Scan` reads a byte string from the left: a well-formed sequence gives its character, a maximal
ill-formed piece gives `none`. Strict decoding wants a character everywhere, lossy decoding puts
U+FFFD for each piece.
-/

namespace Lib

abbrev Bytes := List UInt8

namespace Bytes

/-- The UTF-8 encoding of a text. -/
def ofText (s : Text) : Bytes := s.flatMap String.utf8EncodeChar

def isContinuation (b : UInt8) : Bool := 0x80 ≤ b && b ≤ 0xBF

/-- The second bytes a lead byte allows: none that would make the sequence overlong, a surrogate,
or larger than U+10FFFF. -/
def isSecond (lead b : UInt8) : Bool :=
  if lead = 0xE0 then 0xA0 ≤ b && b ≤ 0xBF
  else if lead = 0xED then 0x80 ≤ b && b ≤ 0x9F
  else if lead = 0xF0 then 0x90 ≤ b && b ≤ 0xBF
  else if lead = 0xF4 then 0x80 ≤ b && b ≤ 0x8F
  else isContinuation b

/-- The payload bits of `b` below `mark`. -/
def payload (mark b : UInt8) : Nat := b.toNat - mark.toNat

/-- What `lead` starts: a character or an ill-formed piece, and how many of the bytes after it
belong to that. -/
def utf8Step (lead : UInt8) (rest : Bytes) : Option Char × Nat :=
  if lead < 0x80 then (some (Char.ofNat lead.toNat), 0)
  else if 0xC2 ≤ lead && lead ≤ 0xDF then
    match rest with
    | a :: _ =>
      if isContinuation a then (some (Char.ofNat (payload 0xC0 lead * 64 + payload 0x80 a)), 1)
      else (none, 0)
    | [] => (none, 0)
  else if 0xE0 ≤ lead && lead ≤ 0xEF then
    match rest with
    | a :: rest =>
      if isSecond lead a then
        match rest with
        | b :: _ =>
          if isContinuation b then
            (some (Char.ofNat ((payload 0xE0 lead * 64 + payload 0x80 a) * 64 + payload 0x80 b)), 2)
          else (none, 1)
        | [] => (none, 1)
      else (none, 0)
    | [] => (none, 0)
  else if 0xF0 ≤ lead && lead ≤ 0xF4 then
    match rest with
    | a :: rest =>
      if isSecond lead a then
        match rest with
        | b :: rest =>
          if isContinuation b then
            match rest with
            | c :: _ =>
              if isContinuation c then
                (some (Char.ofNat (((payload 0xF0 lead * 64 + payload 0x80 a) * 64 +
                  payload 0x80 b) * 64 + payload 0x80 c)), 3)
              else (none, 2)
            | [] => (none, 2)
          else (none, 1)
        | [] => (none, 1)
      else (none, 0)
    | [] => (none, 0)
  else (none, 0)

def utf8Go : Nat → Bytes → List (Option Char)
  | 0, _ => []
  | _, [] => []
  | fuel + 1, lead :: rest =>
    let (c, taken) := utf8Step lead rest
    c :: utf8Go fuel (rest.drop taken)

def utf8Scan (bytes : Bytes) : List (Option Char) := utf8Go bytes.length bytes

/-- `std::str::from_utf8`. -/
def toText? (bytes : Bytes) : Option Text := (utf8Scan bytes).mapM id

/-- `String::from_utf8_lossy`. -/
def toTextLossy (bytes : Bytes) : Text := (utf8Scan bytes).map (·.getD (Char.ofNat 0xFFFD))

example : toText? [0x61, 0xC3, 0xA9, 0xE2, 0x80, 0xA8] = some "aé\u2028".toList := by decide

example : toTextLossy [0xE2, 0x28, 0xF0, 0x9F, 0x61] =
    [Char.ofNat 0xFFFD, '(', Char.ofNat 0xFFFD, 'a'] := by decide

/-- An ASCII character is its own byte, and any other starts with a marked byte. -/
theorem utf8EncodeChar_cases (c : Char) :
    (c.toNat < 0x80 ∧ String.utf8EncodeChar c = [UInt8.ofNat c.toNat]) ∨
    (0x80 ≤ c.toNat ∧ ∃ b l, String.utf8EncodeChar c = b :: l ∧ 0x80 ≤ b) := by
  have hmark : ∀ b mark : UInt8, 0x80 ≤ mark → 0x80 ≤ b ||| mark := by
    intro b mark hmark
    rw [UInt8.le_iff_toNat_le] at hmark ⊢
    rw [UInt8.toNat_or]
    exact Nat.le_trans hmark Nat.right_le_or
  have hsize : c.utf8Size = 1 ↔ c.toNat ≤ 127 :=
    Char.utf8Size_eq_one_iff.trans UInt32.le_iff_toNat_le
  rcases c.utf8Size_eq with h | h | h | h
  · exact .inl ⟨Nat.lt_succ_of_le (hsize.1 h), String.utf8EncodeChar_eq_singleton h⟩
  · refine .inr ⟨?_, _, _, String.utf8EncodeChar_eq_cons_cons h, hmark _ _ (by decide)⟩
    omega
  · refine .inr ⟨?_, _, _, String.utf8EncodeChar_eq_cons_cons_cons h, hmark _ _ (by decide)⟩
    omega
  · refine .inr ⟨?_, _, _, String.utf8EncodeChar_eq_cons_cons_cons_cons h, hmark _ _ (by decide)⟩
    omega

variable {c : Char}

theorem utf8EncodeChar_ascii (h : ∀ b ∈ String.utf8EncodeChar c, b < 0x80) :
    ∃ b : UInt8, String.utf8EncodeChar c = [b] ∧ Char.ofNat b.toNat = c := by
  rcases utf8EncodeChar_cases c with ⟨hlt, henc⟩ | ⟨-, b, l, henc, hb⟩
  · have hbyte : (UInt8.ofNat c.toNat).toNat = c.toNat := by
      rw [UInt8.toNat_ofNat']
      omega
    exact ⟨UInt8.ofNat c.toNat, henc, by rw [hbyte, Char.ofNat_toNat]⟩
  · rw [henc] at h
    exact absurd (h b List.mem_cons_self) (UInt8.not_lt.2 hb)

theorem ofText_cons (c : Char) (s : Text) : ofText (c :: s) = String.utf8EncodeChar c ++ ofText s :=
  List.flatMap_cons

theorem ofText_append (s t : Text) : ofText (s ++ t) = ofText s ++ ofText t := List.flatMap_append

theorem utf8EncodeChar_of_lt (h : c.toNat < 0x80) :
    String.utf8EncodeChar c = [UInt8.ofNat c.toNat] := by
  rcases utf8EncodeChar_cases c with ⟨-, henc⟩ | ⟨hle, -⟩
  · exact henc
  · omega

theorem toNat_ofNat_of_ascii {n : Nat} (h : n < 0x80) : (UInt8.ofNat n).toNat = n := by
  rw [UInt8.toNat_ofNat']
  omega

variable {s : Text}

theorem ofText_eq_map (h : ∀ c ∈ s, c.toNat < 0x80) :
    ofText s = s.map fun c => UInt8.ofNat c.toNat := by
  induction s with
  | nil => rfl
  | cons c s ih =>
    obtain ⟨hc, hs⟩ := List.forall_mem_cons.1 h
    rw [ofText_cons, utf8EncodeChar_of_lt hc, ih hs]
    rfl

variable {b : UInt8}

theorem lt_of_mem_ofText (h : ∀ c ∈ s, c.toNat < 0x80) (hb : b ∈ ofText s) :
    b < 0x80 := by
  rw [ofText_eq_map h] at hb
  obtain ⟨c, hc, rfl⟩ := List.mem_map.1 hb
  rw [UInt8.lt_iff_toNat_lt, toNat_ofNat_of_ascii (h c hc)]
  exact h c hc

theorem length_ofText (h : ∀ c ∈ s, c.toNat < 0x80) : (ofText s).length = s.length := by
  rw [ofText_eq_map h, List.length_map]

theorem ofText_ascii (h : ∀ b ∈ ofText s, b < 0x80) :
    (ofText s).map (fun b => Char.ofNat b.toNat) = s := by
  induction s with
  | nil => rfl
  | cons c s ih =>
    rw [ofText_cons] at h ⊢
    obtain ⟨b, hb, hc⟩ := utf8EncodeChar_ascii fun b hb => h b (List.mem_append_left _ hb)
    rw [List.map_append, ih fun b hb => h b (List.mem_append_right _ hb), hb, List.map_singleton, hc]
    rfl

/-! ### ASCII bytes in UTF-8 -/

theorem isContinuation_ascii (h : b < 0x80) : isContinuation b = false := by
  rw [isContinuation, decide_eq_false (UInt8.not_le.2 h), Bool.false_and]

theorem isSecond_ascii (h : b < 0x80) (lead : UInt8) : isSecond lead b = false := by
  have hle : ∀ low : UInt8, 0x80 ≤ low → decide (low ≤ b) = false := fun low hlow =>
    decide_eq_false (UInt8.not_le.2 (UInt8.lt_of_lt_of_le h hlow))
  unfold isSecond
  split_ifs
  · rw [hle _ (by decide), Bool.false_and]
  · rw [hle _ (by decide), Bool.false_and]
  · rw [hle _ (by decide), Bool.false_and]
  · rw [hle _ (by decide), Bool.false_and]
  · exact isContinuation_ascii h

theorem utf8Step_append (h : b < 0x80) (lead : UInt8) (rest t : Bytes) :
    utf8Step lead (rest ++ b :: t) = utf8Step lead rest := by
  have hsecond := isSecond_ascii h lead
  have hcont := isContinuation_ascii h
  match rest with
  | [] => simp only [utf8Step, List.nil_append, hsecond, hcont, Bool.false_eq_true, if_false]
  | [a] =>
    simp only [utf8Step, List.cons_append, List.nil_append, hcont, Bool.false_eq_true, if_false]
  | [a, c] =>
    simp only [utf8Step, List.cons_append, List.nil_append, hcont, Bool.false_eq_true, if_false]
  | a :: c :: d :: rest => simp only [utf8Step, List.cons_append]

theorem utf8Step_le (lead : UInt8) (rest : Bytes) : (utf8Step lead rest).2 ≤ rest.length := by
  fun_cases utf8Step lead rest <;> simp

theorem utf8Go_eq {fuel : Nat} {s : Bytes} (h : s.length ≤ fuel) : utf8Go fuel s = utf8Scan s := by
  have hmore : ∀ fuel s, s.length ≤ fuel → utf8Go (fuel + 1) s = utf8Go fuel s := by
    intro fuel
    induction fuel with
    | zero => 
      intro s hs
      rw [List.length_eq_zero_iff.1 (Nat.le_zero.1 hs)]
      rfl
    | succ fuel ih =>
      intro s hs
      cases s with
      | nil => rfl
      | cons lead rest =>
        have hrest : (rest.drop (utf8Step lead rest).2).length ≤ fuel := by
          rw [List.length_drop]
          exact Nat.le_trans (Nat.sub_le _ _) (Nat.le_of_succ_le_succ hs)
        exact congrArg _ (ih _ hrest)
  induction h with
  | refl => rfl
  | step h ih => rw [hmore _ s h, ih]

theorem utf8Scan_cons (lead : UInt8) (rest : Bytes) :
    utf8Scan (lead :: rest) =
      (utf8Step lead rest).1 :: utf8Scan (rest.drop (utf8Step lead rest).2) := by
  refine congrArg _ (utf8Go_eq ?_)
  rw [List.length_drop]
  exact Nat.sub_le _ _

theorem utf8Scan_ascii (h : b < 0x80) (s : Bytes) :
    utf8Scan (b :: s) = some (Char.ofNat b.toNat) :: utf8Scan s := by
  have hstep : utf8Step b s = (some (Char.ofNat b.toNat), 0) := by
    unfold utf8Step
    rw [if_pos h]
  rw [utf8Scan_cons, hstep, List.drop_zero]

theorem utf8Scan_append_of_ascii {s : Bytes} (h : ∀ b ∈ s, b < 0x80) (t : Bytes) :
    utf8Scan (s ++ t) = (s.map fun b => some (Char.ofNat b.toNat)) ++ utf8Scan t := by
  induction s with
  | nil => rfl
  | cons b s ih =>
    obtain ⟨hb, hs⟩ := List.forall_mem_cons.1 h
    rw [List.cons_append, utf8Scan_ascii hb, ih hs]
    rfl

theorem toText?_ascii {s : Bytes} (h : ∀ b ∈ s, b < 0x80) :
    toText? s = some (s.map fun b => Char.ofNat b.toNat) := by
  have hscan := utf8Scan_append_of_ascii h []
  rw [List.append_nil, show utf8Scan [] = [] from rfl, List.append_nil] at hscan
  rw [toText?, hscan]
  clear h hscan
  induction s with
  | nil => rfl
  | cons b s ih =>
    rw [List.map_cons, List.mapM_cons, ih]
    rfl

theorem toTextLossy_append_of_ascii {s : Bytes} (h : ∀ b ∈ s, b < 0x80) (t : Bytes) :
    toTextLossy (s ++ t) = (s.map fun b => Char.ofNat b.toNat) ++ toTextLossy t := by
  rw [toTextLossy, utf8Scan_append_of_ascii h, List.map_append, List.map_map]
  rfl

theorem utf8Scan_append (h : b < 0x80) (s t : Bytes) :
    utf8Scan (s ++ b :: t) = utf8Scan s ++ utf8Scan (b :: t) := by
  induction hn : s.length using Nat.strongRecOn generalizing s with
  | ind n ih =>
    subst hn
    cases s with
    | nil => rfl
    | cons lead rest =>
      have hle := utf8Step_le lead rest
      have hlt : (rest.drop (utf8Step lead rest).2).length < (lead :: rest).length := by
        rw [List.length_drop, List.length_cons]
        omega
      rw [List.cons_append, utf8Scan_cons, utf8Step_append h, List.drop_append_of_le_length hle,
        ih _ hlt _ rfl, utf8Scan_cons lead rest, List.cons_append]

theorem toTextLossy_append (h : b < 0x80) (s t : Bytes) :
    toTextLossy (s ++ b :: t) = toTextLossy s ++ Char.ofNat b.toNat :: toTextLossy t := by
  rw [toTextLossy, utf8Scan_append h, utf8Scan_ascii h, List.map_append]
  rfl

theorem eq_of_ofNat {n : Nat} (hc : c.toNat ≠ 0) (h : Char.ofNat n = c) : n = c.toNat := by
  rw [← h] at hc ⊢
  rw [Char.ofNat] at hc ⊢
  by_cases hn : n.isValidChar
  · rw [dif_pos hn]
    rfl
  · rw [dif_neg hn] at hc
    exact absurd rfl hc

theorem two_le_of_isSecond_three {lead a : UInt8} (hlead : 0xE0 ≤ lead) (ha : isSecond lead a = true) :
    2 ≤ payload 0xE0 lead * 64 + payload 0x80 a := by
  have hfrom : 224 ≤ lead.toNat := UInt8.le_iff_toNat_le.1 hlead
  show 2 ≤ (lead.toNat - 224) * 64 + (a.toNat - 128)
  by_cases heq : lead = 0xE0
  · subst heq
    have hlow : 160 ≤ a.toNat := by
      simp only [isSecond, if_true, Bool.and_eq_true, decide_eq_true_eq] at ha
      exact UInt8.le_iff_toNat_le.1 ha.1
    omega
  · have hne : lead.toNat ≠ 224 := fun h => heq (UInt8.toNat_inj.1 h)
    omega

theorem two_le_of_isSecond_four {lead a : UInt8} (hlead : 0xF0 ≤ lead) (ha : isSecond lead a = true) :
    2 ≤ payload 0xF0 lead * 64 + payload 0x80 a := by
  have hfrom : 240 ≤ lead.toNat := UInt8.le_iff_toNat_le.1 hlead
  show 2 ≤ (lead.toNat - 240) * 64 + (a.toNat - 128)
  by_cases heq : lead = 0xF0
  · subst heq
    have hlow : 144 ≤ a.toNat := by
      rw [isSecond, if_neg (by decide), if_neg (by decide), if_pos rfl, Bool.and_eq_true,
        decide_eq_true_eq] at ha
      exact UInt8.le_iff_toNat_le.1 ha.1
    omega
  · have hne : lead.toNat ≠ 240 := fun h => heq (UInt8.toNat_inj.1 h)
    omega

/-- A sequence of several bytes gives no ASCII character. -/
theorem utf8Step_eq {lead : UInt8} {rest : Bytes} (hc : c.toNat ≠ 0) (hlt : c.toNat < 128)
    (h : (utf8Step lead rest).1 = some c) : lead.toNat = c.toNat := by
  revert h
  fun_cases utf8Step lead rest <;> intro h
  all_goals simp only [reduceCtorEq, Option.some.injEq] at h
  all_goals replace h := eq_of_ofNat hc h
  · exact h
  · rename_i hlead _ _ _
    rw [Bool.and_eq_true, decide_eq_true_eq] at hlead
    have hlow : 194 ≤ lead.toNat := UInt8.le_iff_toNat_le.1 hlead.1
    have hlarge : 2 ≤ payload 0xC0 lead := Nat.le_sub_of_add_le hlow
    omega
  · rename_i hlead _ ha _ _ _
    rw [Bool.and_eq_true, decide_eq_true_eq] at hlead
    have hlarge := two_le_of_isSecond_three hlead.1 ha
    omega
  · rename_i hlead _ ha _ _ _ _ _
    rw [Bool.and_eq_true, decide_eq_true_eq] at hlead
    have hlarge := two_le_of_isSecond_four hlead.1 ha
    omega

/-- An ASCII character of the decoded text is a byte of the string. -/
theorem mem_of_mem_toTextLossy (hc : c.toNat ≠ 0) (hlt : c.toNat < 128) {s : Bytes}
    (h : c ∈ toTextLossy s) : UInt8.ofNat c.toNat ∈ s := by
  induction hn : s.length using Nat.strongRecOn generalizing s with
  | ind n ih =>
    subst hn
    cases s with
    | nil => cases h
    | cons lead rest =>
      rw [toTextLossy, utf8Scan_cons, List.map_cons, List.mem_cons] at h
      rcases h with hfirst | h
      · cases hstep : (utf8Step lead rest).1 with
        | none =>
          rw [hstep] at hfirst
          subst hfirst
          exact absurd hlt (by decide)
        | some d =>
          rw [hstep] at hfirst
          rw [← utf8Step_eq hc hlt (hstep.trans (congrArg some hfirst.symm)), UInt8.ofNat_toNat]
          exact List.mem_cons_self
      · refine List.mem_cons_of_mem _ (List.mem_of_mem_drop (ih _ ?_ h rfl))
        rw [List.length_drop, List.length_cons]
        exact Nat.lt_succ_of_le (Nat.sub_le _ _)

/-- The bytes of ASCII characters. -/
def ofAscii (s : Text) : Bytes := s.map fun c => UInt8.ofNat c.toNat

theorem toNat_ofAscii (hc : c.toNat < 128) : (UInt8.ofNat c.toNat).toNat = c.toNat := by
  rw [UInt8.toNat_ofNat']
  omega

theorem ofAscii_lt (hs : ∀ c ∈ s, c.toNat < 128) : ∀ b ∈ ofAscii s, b < 0x80 := by
  intro b hb
  obtain ⟨c, hc, rfl⟩ := List.mem_map.1 hb
  rw [UInt8.lt_iff_toNat_lt, toNat_ofAscii (hs c hc)]
  exact hs c hc

theorem map_ofAscii (hs : ∀ c ∈ s, c.toNat < 128) :
    (ofAscii s).map (fun b => Char.ofNat b.toNat) = s := by
  rw [ofAscii, List.map_map]
  refine (List.map_congr_left fun c hc => ?_).trans (List.map_id s)
  show Char.ofNat (UInt8.ofNat c.toNat).toNat = c
  rw [toNat_ofAscii (hs c hc), Char.ofNat_toNat]

theorem toTextLossy_ofAscii_append (hs : ∀ c ∈ s, c.toNat < 128) (t : Bytes) :
    toTextLossy (ofAscii s ++ t) = s ++ toTextLossy t := by
  rw [toTextLossy_append_of_ascii (ofAscii_lt hs), map_ofAscii hs]

theorem toTextLossy_eq_nil {v : Bytes} (h : toTextLossy v = []) : v = [] := by
  cases v with
  | nil => rfl
  | cons lead rest =>
    rw [toTextLossy, utf8Scan_cons] at h
    cases h

/-- Decoded ASCII comes from its own bytes. -/
theorem toTextLossy_eq_append {s t : Text} {v : Bytes} (hs : ∀ c ∈ s, c.toNat ≠ 0 ∧ c.toNat < 128)
    (h : toTextLossy v = s ++ t) : ∃ v', v = ofAscii s ++ v' ∧ toTextLossy v' = t := by
  induction s generalizing v with
  | nil => exact ⟨v, rfl, h⟩
  | cons c s ih =>
    obtain ⟨⟨hc, hlt⟩, hs⟩ := List.forall_mem_cons.1 hs
    cases v with
    | nil => cases h
    | cons lead rest =>
      have hdecoded := h
      rw [toTextLossy, utf8Scan_cons, List.map_cons] at hdecoded
      obtain ⟨hfirst, -⟩ := List.cons.inj hdecoded
      have hlead : lead.toNat = c.toNat := by
        cases hstep : (utf8Step lead rest).1 with
        | none =>
          rw [hstep] at hfirst
          rw [← hfirst] at hlt
          exact absurd hlt (by decide)
        | some d =>
          rw [hstep] at hfirst
          exact utf8Step_eq hc hlt (hstep.trans (congrArg some hfirst))
      have hbyte : lead < 0x80 := UInt8.lt_iff_toNat_lt.2 (hlead ▸ hlt)
      rw [toTextLossy, utf8Scan_ascii hbyte, List.map_cons] at h
      obtain ⟨v', rfl, hv'⟩ := ih hs (List.cons.inj h).2
      have hself : lead = UInt8.ofNat c.toNat := by rw [← hlead, UInt8.ofNat_toNat]
      exact ⟨v', congrArg (· :: (ofAscii s ++ v')) hself, hv'⟩

/-- An ASCII character of the decoded text splits the string where its byte stands. -/
theorem toTextLossy_eq_append_cons (hc : c.toNat ≠ 0) (hlt : c.toNat < 128) {s t : Text}
    {v : Bytes} (h : toTextLossy v = s ++ c :: t) :
    ∃ v₁ v₂, v = v₁ ++ UInt8.ofNat c.toNat :: v₂ ∧ toTextLossy v₁ = s := by
  have hbyte : UInt8.ofNat c.toNat < 0x80 := by
    rw [UInt8.lt_iff_toNat_lt, toNat_ofAscii hlt]
    exact hlt
  induction hn : v.length using Nat.strongRecOn generalizing v s with
  | ind n ih =>
    subst hn
    cases s with
    | nil =>
      obtain ⟨v', rfl, -⟩ := toTextLossy_eq_append (s := [c]) (t := t)
        (fun d hd => List.mem_singleton.1 hd ▸ ⟨hc, hlt⟩) h
      exact ⟨[], v', rfl, rfl⟩
    | cons d s =>
      cases v with
      | nil => cases h
      | cons lead rest =>
        have hdecoded := h
        rw [toTextLossy, utf8Scan_cons, List.map_cons] at hdecoded
        obtain ⟨hfirst, hrest⟩ := List.cons.inj hdecoded
        obtain ⟨v₁, v₂, hparts, hv₁⟩ := ih _ (by
          rw [List.length_drop, List.length_cons]
          omega) hrest rfl
        -- the sequence that `lead` starts ends before the ASCII byte
        have hsplit : rest = rest.take (utf8Step lead rest).2 ++ v₁ ++ UInt8.ofNat c.toNat :: v₂ := by
          rw [List.append_assoc, ← hparts, List.take_append_drop]
        have hstep : utf8Step lead rest =
            utf8Step lead (rest.take (utf8Step lead rest).2 ++ v₁) := by
          conv_lhs => rw [hsplit]
          exact utf8Step_append hbyte lead _ _
        refine ⟨lead :: (rest.take (utf8Step lead rest).2 ++ v₁), v₂, congrArg _ hsplit, ?_⟩
        have hlen : (rest.take (utf8Step lead rest).2).length = (utf8Step lead rest).2 := by
          rw [List.length_take, Nat.min_eq_left (utf8Step_le lead rest)]
        rw [toTextLossy, utf8Scan_cons, ← hstep, List.map_cons, hfirst, List.drop_append_of_le_length
          (Nat.le_of_eq hlen.symm), List.drop_of_length_le (Nat.le_of_eq hlen), List.nil_append]
        exact congrArg _ hv₁

theorem toTextLossy_of_toText? {v : Bytes} (h : toText? v = some s) : toTextLossy v = s := by
  unfold toText? at h
  unfold toTextLossy
  generalize utf8Scan v = scanned at h
  induction scanned generalizing s with
  | nil => exact (Option.some.inj h).symm ▸ rfl
  | cons c scanned ih =>
    cases c with
    | none => rw [List.mapM_cons] at h; cases h
    | some c =>
      rw [List.mapM_cons] at h
      obtain ⟨rest, hrest, h⟩ := Option.bind_eq_some_iff.1 (show (scanned.mapM id).bind
        (fun rest => some (c :: rest)) = some s from h)
      obtain rfl := Option.some.inj h
      rw [List.map_cons, ih hrest]
      rfl

end Bytes

end Lib
