import TinyBrowser.Lib.Lines

/-!
# The edit buffer of a number control

`numberBufferState` classifies what has been typed so far, and `validFloat` is the test of the
number state's sanitization. Both scan a sign, digits, a fraction and an exponent; `Parts` are these
pieces, and the texts that have such pieces are closed under prefixes.
-/

namespace TinyBrowser.Forms
open Lib Text

inductive NumberBufferState where
  | invalid | empty | partialNumber | complete | trailingDot
deriving DecidableEq

/-- A character among `signs`, if the text starts with one, and what follows it. -/
def takeOneOf (signs : List Char) : Text → Text × Text
  | [] => ([], [])
  | c :: rest => if c ∈ signs then ([c], rest) else ([], c :: rest)

def takeDigits (text : Text) : Text × Text := (text.takeWhile isAsciiDigit, text.dropWhile isAsciiDigit)

/-- The digits after a dot, if the text starts with one, and what follows them. -/
def takePoint : Text → Option Text × Text
  | '.' :: rest => (some (takeDigits rest).1, (takeDigits rest).2)
  | rest => (none, rest)

/-- Classifies an edit buffer: the floating-point grammar, and partial forms of it. -/
def numberBufferState (text : Text) : NumberBufferState :=
  if text = [] then .empty
  else
    let rest := (takeOneOf ['+', '-'] text).2
    let (whole, rest) := takeDigits rest
    let (point, rest) := takePoint rest
    let sawDot := point.isSome
    let fraction := point.getD []
    let mantissaComplete := if whole ≠ [] then !sawDot || fraction ≠ [] else sawDot && fraction ≠ []
    match rest with
    | [] =>
      if whole ≠ [] && sawDot && fraction = [] then .trailingDot
      else if mantissaComplete then .complete
      else if sawDot then .invalid
      else .partialNumber
    | e :: rest =>
      if e ∉ ['e', 'E'] then .invalid
      else
        let (exponent, rest) := takeDigits (takeOneOf ['+', '-'] rest).2
        if rest ≠ [] then .invalid
        else if exponent ≠ [] && mantissaComplete then .complete
        else .partialNumber

/-- A floating-point number but for its sign: its digits, and the exponent of ten that the last of
them counts. -/
structure FloatLiteral where
  digits : Nat
  exponent : Int
deriving DecidableEq

/-- Reading the literal as an `f64` does not round it to infinity. -/
def FloatLiteral.isFinite (l : FloatLiteral) : Bool :=
  l.digits * 10 ^ l.exponent.toNat < (2 ^ 1024 - 2 ^ 970) * 10 ^ (-l.exponent).toNat

/-- The syntax of `valid_float`. -/
def floatLiteral (value : Text) : Option FloatLiteral :=
  let rest := (takeOneOf ['-'] value).2
  let (whole, rest) := takeDigits rest
  let (point, rest) := takePoint rest
  let fraction := point.getD []
  let literal (exponent : Int) : FloatLiteral :=
    ⟨Text.digitsValue (whole ++ fraction), exponent - fraction.length⟩
  if point = some [] then none
  else if whole = [] ∧ fraction = [] then none
  else match rest with
    | [] => some (literal 0)
    | e :: rest =>
      if e ∉ ['e', 'E'] then none
      else
        let (sign, rest) := takeOneOf ['+', '-'] rest
        let (exponent, rest) := takeDigits rest
        if exponent = [] then none
        else if rest ≠ [] then none
        else some (literal (if sign = ['-'] then -Text.digitsValue exponent else Text.digitsValue exponent))

/-- A whole string as a valid floating-point number. -/
def validFloat (value : Text) : Option FloatLiteral :=
  (floatLiteral value).filter FloatLiteral.isFinite

/-! ### Scanning -/

variable {s rest : Text} {c : Char}

/-- A text does not start with a digit. -/
def NoDigit (rest : Text) : Prop := ∀ c ∈ rest.head?, isAsciiDigit c = false

theorem takeDigits_append (hs : Digits s) (hrest : NoDigit rest) :
    takeDigits (s ++ rest) = (s, rest) := by
  rw [takeDigits, List.takeWhile_append_of_pos hs, List.dropWhile_append_of_pos hs]
  cases rest with
  | nil => simp
  | cons c rest =>
    have hc : isAsciiDigit c = false := hrest c rfl
    simp [hc]

theorem takeDigits_of_digits (hs : Digits s) : takeDigits s = (s, []) := by
  have happend : takeDigits (s ++ []) = (s, []) := takeDigits_append hs fun _ hc => by cases hc
  rwa [List.append_nil] at happend

theorem takeDigits_eq (text : Text) : (takeDigits text).1 ++ (takeDigits text).2 = text :=
  List.takeWhile_append_dropWhile

theorem digits_takeDigits (text : Text) : Digits (takeDigits text).1 :=
  List.all_eq_true.1 List.all_takeWhile

theorem takeOneOf_eq (signs : List Char) (text : Text) :
    (takeOneOf signs text).1 ++ (takeOneOf signs text).2 = text := by
  unfold takeOneOf
  split
  · rfl
  · split <;> rfl

theorem takeOneOf_sign (signs : List Char) (text : Text) :
    (takeOneOf signs text).1 = [] ∨ ∃ c ∈ signs, (takeOneOf signs text).1 = [c] := by
  unfold takeOneOf
  split
  · exact .inl rfl
  · split
    · rename_i hc
      exact .inr ⟨_, hc, rfl⟩
    · exact .inl rfl

theorem takeOneOf_append {signs : List Char} (hs : s = [] ∨ ∃ c ∈ signs, s = [c])
    (hrest : s = [] → ∀ c ∈ rest.head?, c ∉ signs) : takeOneOf signs (s ++ rest) = (s, rest) := by
  rcases hs with rfl | ⟨c, hc, rfl⟩
  · cases rest with
    | nil => rfl
    | cons c rest => rw [List.nil_append, takeOneOf, if_neg (hrest rfl c rfl)]
  · rw [List.singleton_append, takeOneOf, if_pos hc]

/-! ### Pieces -/

/-- The pieces of a number: a sign, digits, the digits after a dot, and a letter with the sign and the
digits of an exponent. -/
structure Parts where
  sign : Text
  whole : Text
  point : Option Text
  exponent : Option (Char × Text × Text)

def IsSign (signs : List Char) (s : Text) : Prop := s = [] ∨ ∃ c ∈ signs, s = [c]

theorem IsSign.mono {signs signs' : List Char} (h : IsSign signs s)
    (hsub : ∀ c ∈ signs, c ∈ signs') : IsSign signs' s :=
  h.imp id fun ⟨c, hc, hs⟩ => ⟨c, hsub c hc, hs⟩

namespace Parts

def pointText (p : Parts) : Text :=
  match p.point with
  | none => []
  | some fraction => '.' :: fraction

def exponentText (p : Parts) : Text :=
  match p.exponent with
  | none => []
  | some (e, sign, digits) => e :: (sign ++ digits)

def text (p : Parts) : Text := p.sign ++ (p.whole ++ (p.pointText ++ p.exponentText))

structure Valid (p : Parts) : Prop where
  sign : IsSign ['+', '-'] p.sign
  whole : Digits p.whole
  point : ∀ fraction ∈ p.point, Digits fraction
  letter : ∀ e ∈ p.exponent, e.1 ∈ ['e', 'E']
  exponentSign : ∀ e ∈ p.exponent, IsSign ['+', '-'] e.2.1
  exponent : ∀ e ∈ p.exponent, Digits e.2.2

/-- Digits with an optional fraction, or a dot with at least one digit. -/
def mantissaComplete (p : Parts) : Bool :=
  match p.point with
  | none => p.whole ≠ []
  | some fraction => fraction ≠ []

/-- What an edit buffer with these pieces is. -/
def state (p : Parts) : NumberBufferState :=
  match p.exponent with
  | some (_, _, digits) => if digits ≠ [] && p.mantissaComplete then .complete else .partialNumber
  | none =>
    if p.mantissaComplete then .complete
    else match p.point with
      | none => .partialNumber
      | some _ => if p.whole ≠ [] then .trailingDot else .invalid

variable {p : Parts}

theorem head_exponentText (h : p.Valid) : ∀ c ∈ p.exponentText.head?, c = 'e' ∨ c = 'E' := by
  intro c hc
  unfold exponentText at hc
  split at hc
  · cases hc
  · rename_i e sign digits he
    obtain rfl := Option.some.inj hc
    simpa using h.letter _ he

theorem noDigit_exponentText (h : p.Valid) : NoDigit p.exponentText := by
  intro c hc
  rcases head_exponentText h c hc with rfl | rfl <;> decide

theorem noDigit_pointText (h : p.Valid) : NoDigit (p.pointText ++ p.exponentText) := by
  unfold pointText
  split
  · exact noDigit_exponentText h
  · intro c hc
    obtain rfl := Option.some.inj hc
    decide

theorem head_not_sign (h : p.Valid) (_ : p.sign = []) :
    ∀ c ∈ (p.whole ++ (p.pointText ++ p.exponentText)).head?, c ∉ ['+', '-'] := by
  intro c hc
  cases hwhole : p.whole with
  | cons d whole =>
    rw [hwhole] at hc
    obtain rfl := Option.some.inj hc
    have hd : isAsciiDigit d = true := h.whole d (hwhole ▸ List.mem_cons_self)
    intro hmem
    simp only [List.mem_cons, List.not_mem_nil, or_false] at hmem
    rcases hmem with rfl | rfl <;> revert hd <;> decide
  | nil =>
    rw [hwhole, List.nil_append] at hc
    unfold pointText at hc
    split at hc
    · rcases head_exponentText h c hc with rfl | rfl <;> decide
    · obtain rfl := Option.some.inj hc
      decide

theorem takePoint_text (h : p.Valid) :
    takePoint (p.pointText ++ p.exponentText) = (p.point, p.exponentText) := by
  unfold pointText
  cases hpoint : p.point with
  | some fraction =>
    dsimp only
    rw [List.cons_append, takePoint,
      takeDigits_append (h.point fraction hpoint) (noDigit_exponentText h)]
  | none =>
    dsimp only
    rw [List.nil_append]
    unfold exponentText takePoint
    cases he : p.exponent with
    | none => rfl
    | some e =>
      have hletter := h.letter e he
      simp only [List.mem_cons, List.not_mem_nil, or_false] at hletter
      obtain ⟨letter, sign, digits⟩ := e
      rcases hletter with rfl | rfl <;> rfl

theorem takeExponent_text {e : Char} {sign digits : Text} (h : p.Valid)
    (he : p.exponent = some (e, sign, digits)) :
    takeOneOf ['+', '-'] (sign ++ digits) = (sign, digits) := by
  refine takeOneOf_append (h.exponentSign _ he) fun _ c hc hmem => ?_
  have hd : isAsciiDigit c = true := h.exponent _ he c (List.mem_of_mem_head? hc)
  simp only [List.mem_cons, List.not_mem_nil, or_false] at hmem
  rcases hmem with rfl | rfl <;> revert hd <;> decide

theorem numberBufferState_text (h : p.Valid) (hne : p.text ≠ []) :
    numberBufferState p.text = p.state := by
  have hsign : takeOneOf ['+', '-'] p.text = (p.sign, _) :=
    takeOneOf_append h.sign (head_not_sign h)
  have hwhole := takeDigits_append h.whole (noDigit_pointText h)
  rw [numberBufferState, if_neg hne, hsign]
  dsimp only
  rw [hwhole]
  dsimp only
  rw [takePoint_text h]
  dsimp only
  have hcomplete : (if p.whole ≠ [] then !p.point.isSome || decide (p.point.getD [] ≠ [])
      else p.point.isSome && decide (p.point.getD [] ≠ [])) = p.mantissaComplete := by
    unfold mantissaComplete
    cases p.point <;> by_cases hw : p.whole = [] <;> simp [hw]
  rw [hcomplete, state]
  unfold exponentText
  cases he : p.exponent with
  | none =>
    dsimp only
    unfold mantissaComplete
    cases p.point with
    | none => simp
    | some fraction => by_cases hw : p.whole = [] <;> by_cases hf : fraction = [] <;> simp [hw, hf]
  | some e =>
    obtain ⟨letter, sign, digits⟩ := e
    dsimp only
    rw [if_neg (not_not_intro (h.letter _ he)), takeExponent_text h he]
    dsimp only
    rw [takeDigits_of_digits (h.exponent _ he)]
    simp

/-! ### Every accepted text has pieces -/

theorem takePoint_of_not_dot (h : ∀ rest, s ≠ '.' :: rest) : takePoint s = (none, s) := by
  unfold takePoint
  split
  · exact absurd rfl (h _)
  · rfl

theorem takePoint_eq (text : Text) :
    (match (takePoint text).1 with
      | none => []
      | some fraction => '.' :: fraction) ++ (takePoint text).2 = text := by
  by_cases h : ∃ rest, text = '.' :: rest
  · obtain ⟨rest, rfl⟩ := h
    exact congrArg ('.' :: ·) (takeDigits_eq rest)
  · rw [takePoint_of_not_dot (not_exists.1 h)]
    rfl

theorem digits_takePoint (text : Text) : ∀ fraction ∈ (takePoint text).1, Digits fraction := by
  unfold takePoint
  split
  · intro fraction h
    obtain rfl := Option.some.inj h
    exact digits_takeDigits _
  · intro fraction h
    cases h

/-- What is left after the mantissa is nothing or an exponent. -/
def IsExponent (rest : Text) : Prop :=
  rest = [] ∨ ∃ e rest', rest = e :: rest' ∧ e ∈ ['e', 'E'] ∧
    (takeDigits (takeOneOf ['+', '-'] rest').2).2 = []

theorem exists_of_scan {signs : List Char} (hsigns : ∀ c ∈ signs, c ∈ ['+', '-']) (s : Text)
    (h : IsExponent (takePoint (takeDigits (takeOneOf signs s).2).2).2) :
    ∃ p : Parts, p.Valid ∧ p.text = s ∧ p.sign = (takeOneOf signs s).1 := by
  have hs := takeOneOf_eq signs s
  rw [← takeDigits_eq (takeOneOf signs s).2, ← takePoint_eq (takeDigits _).2] at hs
  have hsign : IsSign ['+', '-'] (takeOneOf signs s).1 := .mono (takeOneOf_sign signs s) hsigns
  rcases h with hnil | ⟨e, rest, hrest, he, hend⟩
  · rw [hnil] at hs
    exact ⟨⟨_, _, _, none⟩, {
      sign := hsign
      whole := digits_takeDigits _
      point := digits_takePoint _
      letter := fun _ h => by cases h
      exponentSign := fun _ h => by cases h
      exponent := fun _ h => by cases h }, hs, rfl⟩
  · have hexponent := takeOneOf_eq ['+', '-'] rest
    rw [← takeDigits_eq (takeOneOf ['+', '-'] rest).2, hend, List.append_nil] at hexponent
    rw [hrest, ← hexponent] at hs
    exact ⟨⟨_, _, _, some (e, _, _)⟩, {
      sign := hsign
      whole := digits_takeDigits _
      point := digits_takePoint _
      letter := fun _ h => by
        obtain rfl := Option.some.inj h
        exact he
      exponentSign := fun _ h => by
        obtain rfl := Option.some.inj h
        exact takeOneOf_sign _ _
      exponent := fun _ h => by
        obtain rfl := Option.some.inj h
        exact digits_takeDigits _ }, hs, rfl⟩

theorem exists_of_state (h : numberBufferState s ≠ .invalid) : ∃ p : Parts, p.Valid ∧ p.text = s := by
  have hscan : IsExponent (takePoint (takeDigits (takeOneOf ['+', '-'] s).2).2).2 := by
    by_cases hs : s = []
    · subst hs
      exact .inl rfl
    · rw [numberBufferState, if_neg hs] at h
      dsimp only at h
      split at h
      · rename_i hnil
        exact .inl hnil
      · rename_i e rest hrest
        split at h
        · exact absurd rfl h
        · rename_i he
          split at h
          · exact absurd rfl h
          · rename_i hend
            exact .inr ⟨e, rest, hrest, not_not.1 he, not_not.1 hend⟩
  obtain ⟨p, hp, htext, -⟩ := exists_of_scan (fun _ h => h) s hscan
  exact ⟨p, hp, htext⟩

theorem exists_of_floatLiteral {l : FloatLiteral} (h : floatLiteral s = some l) :
    ∃ p : Parts, p.Valid ∧ p.text = s ∧ p.sign ≠ ['+'] := by
  have hscan : IsExponent (takePoint (takeDigits (takeOneOf ['-'] s).2).2).2 := by
    rw [floatLiteral] at h
    dsimp only at h
    split at h
    · cases h
    · split at h
      · cases h
      · split at h
        · rename_i hnil
          exact .inl hnil
        · rename_i e rest hrest
          split at h
          · cases h
          · rename_i he
            split at h
            · cases h
            · split at h
              · cases h
              · rename_i hend
                exact .inr ⟨e, rest, hrest, not_not.1 he, not_not.1 hend⟩
  obtain ⟨p, hp, htext, hsign⟩ := exists_of_scan (fun c hc => by
    rw [List.mem_singleton.1 hc]
    decide) s hscan
  refine ⟨p, hp, htext, fun hplus => ?_⟩
  rcases takeOneOf_sign ['-'] s with hnil | ⟨c, hc, hone⟩
  · rw [hsign, hnil] at hplus
    cases hplus
  · rw [hsign, hone, List.mem_singleton.1 hc] at hplus
    revert hplus
    decide

/-- The syntax of `valid_float` asks for no plus sign and a complete number. -/
theorem isSome_floatLiteral_text (h : p.Valid) :
    (floatLiteral p.text).isSome = true ↔ p.sign ≠ ['+'] ∧ p.state = .complete := by
  by_cases hplus : p.sign = ['+']
  · have hnone : floatLiteral p.text = none := by
      rw [text, hplus]
      rfl
    simp [hnone, hplus]
  · have hminus : IsSign ['-'] p.sign := by
      rcases h.sign with hnil | ⟨c, hc, hs⟩
      · exact .inl hnil
      · simp only [List.mem_cons, List.not_mem_nil, or_false] at hc
        rcases hc with rfl | rfl
        · exact absurd hs hplus
        · exact .inr ⟨_, List.mem_singleton_self _, hs⟩
    have hsign : takeOneOf ['-'] p.text = (p.sign, _) :=
      takeOneOf_append hminus fun hnil c hc hmem =>
        head_not_sign h hnil c hc (List.mem_cons_of_mem _ hmem)
    have hwhole := takeDigits_append h.whole (noDigit_pointText h)
    have hmantissa : p.mantissaComplete = true ↔
        ¬p.point = some [] ∧ ¬(p.whole = [] ∧ p.point.getD [] = []) := by
      unfold mantissaComplete
      cases p.point with
      | none => simp
      | some fraction => by_cases hf : fraction = [] <;> simp [hf]
    rw [floatLiteral, hsign]
    dsimp only
    rw [hwhole]
    dsimp only
    rw [takePoint_text h]
    dsimp only
    cases hc : p.mantissaComplete with
    | false =>
      have hnot : p.state ≠ .complete := by
        unfold state
        rw [hc]
        cases p.exponent with
        | none =>
          cases p.point with
          | none => simp
          | some fraction => by_cases hw : p.whole = [] <;> simp [hw]
        | some e => simp
      rw [hc, Bool.false_eq_true, false_iff, not_and_or, not_not, not_not] at hmantissa
      rcases hmantissa with hpoint | hempty
      · simp [hpoint, hnot]
      · by_cases hpoint : p.point = some []
        · simp [hpoint, hnot]
        · rw [if_neg hpoint, if_pos hempty]
          simp [hnot]
    | true =>
      obtain ⟨hpoint, hempty⟩ := hmantissa.1 hc
      rw [if_neg hpoint, if_neg hempty, state, hc]
      unfold exponentText
      cases he : p.exponent with
      | none => simp [hplus]
      | some e =>
        obtain ⟨letter, sign, digits⟩ := e
        dsimp only
        rw [if_neg (not_not_intro (h.letter _ he)), takeExponent_text h he]
        dsimp only
        rw [takeDigits_of_digits (h.exponent _ he)]
        by_cases hd : digits = [] <;> simp [hd, hplus]

/-! ### Prefixes -/

theorem prefix_append {a b q : Text} (h : q <+: a ++ b) :
    q <+: a ∨ ∃ q', q = a ++ q' ∧ q' <+: b := by
  rcases List.prefix_or_prefix_of_prefix h (List.prefix_append a b) with hq | ⟨q', rfl⟩
  · exact .inl hq
  · exact .inr ⟨q', rfl, (List.prefix_append_right_inj a).1 h⟩

theorem digits_of_isPrefix {q : Text} (h : Digits s) (hq : q <+: s) : Digits q :=
  fun c hc => h c (hq.subset hc)

theorem isSign_of_isPrefix {signs : List Char} {q : Text} (h : IsSign signs s) (hq : q <+: s) :
    IsSign signs q := by
  rcases h with rfl | ⟨c, hc, rfl⟩
  · exact .inl (List.prefix_nil.1 hq)
  · rcases List.prefix_cons_iff.1 hq with rfl | ⟨t, rfl, ht⟩
    · exact .inl rfl
    · rw [List.prefix_nil.1 ht]
      exact .inr ⟨c, hc, rfl⟩

/-- The texts with pieces are closed under prefixes: the pieces are cut where the text is. -/
theorem exists_of_prefix {q : Text} (h : p.Valid) (hq : q <+: p.text) :
    ∃ r : Parts, r.Valid ∧ r.text = q := by
  have hnone : ∀ {sign whole : Text} {point : Option Text}, IsSign ['+', '-'] sign → Digits whole →
      (∀ fraction ∈ point, Digits fraction) → Valid ⟨sign, whole, point, none⟩ :=
    fun hsign hwhole hpoint => {
      sign := hsign
      whole := hwhole
      point := hpoint
      letter := fun _ h => by cases h
      exponentSign := fun _ h => by cases h
      exponent := fun _ h => by cases h }
  have hnoPoint : ∀ fraction ∈ (none : Option Text), Digits fraction := fun _ h => by cases h
  rcases prefix_append hq with hsign | ⟨q₁, rfl, hq₁⟩
  · refine ⟨⟨q, [], none, none⟩, hnone (isSign_of_isPrefix h.sign hsign) (fun _ h => by cases h)
      hnoPoint, ?_⟩
    simp [text, pointText, exponentText]
  rcases prefix_append hq₁ with hwhole | ⟨q₂, rfl, hq₂⟩
  · refine ⟨⟨p.sign, q₁, none, none⟩, hnone h.sign (digits_of_isPrefix h.whole hwhole) hnoPoint, ?_⟩
    simp [text, pointText, exponentText]
  rcases prefix_append hq₂ with hdot | ⟨q₃, rfl, hq₃⟩
  · unfold pointText at hdot
    cases hpoint : p.point with
    | none =>
      rw [hpoint] at hdot
      obtain rfl := List.prefix_nil.1 hdot
      exact ⟨⟨p.sign, p.whole, none, none⟩, hnone h.sign h.whole hnoPoint, rfl⟩
    | some fraction =>
      rw [hpoint] at hdot
      rcases List.prefix_cons_iff.1 hdot with rfl | ⟨q₃, rfl, hfraction⟩
      · exact ⟨⟨p.sign, p.whole, none, none⟩, hnone h.sign h.whole hnoPoint, rfl⟩
      · refine ⟨⟨p.sign, p.whole, some q₃, none⟩, hnone h.sign h.whole (fun _ hf => ?_), ?_⟩
        · obtain rfl := Option.some.inj hf
          exact digits_of_isPrefix (h.point fraction hpoint) hfraction
        · simp [text, pointText, exponentText]
  unfold exponentText at hq₃
  cases he : p.exponent with
  | none =>
    rw [he] at hq₃
    obtain rfl := List.prefix_nil.1 hq₃
    exact ⟨⟨p.sign, p.whole, p.point, none⟩, hnone h.sign h.whole h.point, rfl⟩
  | some e =>
    obtain ⟨letter, sign, digits⟩ := e
    rw [he] at hq₃
    have hsome : ∀ {esign edigits : Text}, IsSign ['+', '-'] esign → Digits edigits →
        Valid ⟨p.sign, p.whole, p.point, some (letter, esign, edigits)⟩ :=
      fun hesign hedigits => {
        sign := h.sign
        whole := h.whole
        point := h.point
        letter := fun _ hx => by
          obtain rfl := Option.some.inj hx
          exact h.letter (letter, sign, digits) he
        exponentSign := fun _ hx => by
          obtain rfl := Option.some.inj hx
          exact hesign
        exponent := fun _ hx => by
          obtain rfl := Option.some.inj hx
          exact hedigits }
    rcases List.prefix_cons_iff.1 hq₃ with rfl | ⟨q₄, rfl, hq₄⟩
    · exact ⟨⟨p.sign, p.whole, p.point, none⟩, hnone h.sign h.whole h.point, rfl⟩
    · rcases prefix_append hq₄ with hsign | ⟨q₅, rfl, hdigits⟩
      · refine ⟨⟨p.sign, p.whole, p.point, some (letter, q₄, [])⟩,
          hsome (isSign_of_isPrefix (h.exponentSign _ he) hsign) (fun _ h => by cases h), ?_⟩
        simp [text, pointText, exponentText]
      · exact ⟨⟨p.sign, p.whole, p.point, some (letter, sign, q₅)⟩,
          hsome (h.exponentSign _ he) (digits_of_isPrefix (h.exponent _ he) hdigits), rfl⟩

end Parts

/-! ### Typing a number -/

/-- The text without a leading plus sign, if no other sign follows it. -/
def dropPlus : Text → Text
  | '+' :: rest => if rest.head? = some '-' then '+' :: rest else rest
  | text => text

/-- The dots without a digit, which are rejected. -/
def bareDots : List Text := [".".toList, "+.".toList, "-.".toList]

namespace Parts
variable {p : Parts}

theorem text_of_invalid (h : p.Valid) (hstate : p.state = .invalid) : p.text ∈ bareDots := by
  have hparts : p.exponent = none ∧ p.point = some [] ∧ p.whole = [] := by
    obtain ⟨sign, whole, point, exponent⟩ := p
    cases exponent with
    | some e =>
      simp only [state] at hstate
      split at hstate <;> simp at hstate
    | none =>
      cases point with
      | none =>
        simp only [state] at hstate
        split at hstate <;> simp at hstate
      | some fraction =>
        by_cases hf : fraction = []
        · by_cases hw : whole = []
          · exact ⟨rfl, congrArg some hf, hw⟩
          · simp [state, mantissaComplete, hf, hw] at hstate
        · simp [state, mantissaComplete, hf] at hstate
  rw [text, pointText, exponentText, hparts.1, hparts.2.1, hparts.2.2]
  rcases h.sign with hs | ⟨c, hc, hs⟩
  · rw [hs]
    decide
  · rw [hs]
    simp only [List.mem_cons, List.not_mem_nil, or_false] at hc
    rcases hc with rfl | rfl <;> decide

theorem plus_not_head {rest : Text} (h : p.Valid) (hsign : p.sign ≠ ['+']) :
    p.text ≠ '+' :: rest := by
  intro htext
  rcases h.sign with hnil | ⟨c, hc, hs⟩
  · rw [text, hnil, List.nil_append] at htext
    refine head_not_sign h hnil '+' ?_ List.mem_cons_self
    rw [htext]
    rfl
  · rw [text, hs, List.singleton_append, List.cons.injEq] at htext
    exact hsign (htext.1 ▸ hs)

theorem state_ne_empty (p : Parts) : p.state ≠ .empty := by
  unfold state
  split
  · split <;> simp
  · split
    · simp
    · split
      · simp
      · split <;> simp

end Parts

open Parts

/-- A complete buffer is what the number state accepts, but for a plus sign and for infinity. -/
theorem complete_iff :
    numberBufferState s = .complete ↔ (floatLiteral (dropPlus s)).isSome = true := by
  constructor
  · intro h
    obtain ⟨p, hp, rfl⟩ := exists_of_state (s := s) (by simp [h])
    have hne : p.text ≠ [] := fun hnil => by
      rw [hnil] at h
      cases h
    rw [numberBufferState_text hp hne] at h
    by_cases hplus : p.sign = ['+']
    · have hdrop : dropPlus p.text = text { p with sign := [] } := by
        have hvalid : Valid { p with sign := [] } := { hp with sign := .inl rfl }
        have hhead : ∀ c ∈ (text { p with sign := [] }).head?, c ∉ ['+', '-'] :=
          head_not_sign hvalid rfl
        rw [text, hplus, List.singleton_append, dropPlus, if_neg]
        · rfl
        · exact fun hminus => hhead '-' hminus (by decide)
      rw [hdrop]
      have hvalid : Valid { p with sign := [] } := { hp with sign := .inl rfl }
      exact (isSome_floatLiteral_text hvalid).2 ⟨by simp, h⟩
    · have hdrop : dropPlus p.text = p.text := by
        unfold dropPlus
        split
        · rename_i rest htext
          exact absurd htext (plus_not_head hp hplus)
        · rfl
      rw [hdrop]
      exact (isSome_floatLiteral_text hp).2 ⟨hplus, h⟩
  · intro h
    obtain ⟨l, hl⟩ := Option.isSome_iff_exists.1 h
    obtain ⟨q, hq, htext, hplus⟩ := exists_of_floatLiteral hl
    rw [← htext, isSome_floatLiteral_text hq] at h
    unfold dropPlus at htext
    split at htext
    · rename_i rest
      split at htext
      · exact absurd htext (plus_not_head hq hplus)
      · rename_i hminus
        have hnil : q.sign = [] := by
          rcases hq.sign with hnil | ⟨c, hc, hs⟩
          · exact hnil
          · simp only [List.mem_cons, List.not_mem_nil, or_false] at hc
            rcases hc with rfl | rfl
            · exact absurd hs hplus
            · rw [text, hs] at htext
              exact absurd (htext ▸ rfl) hminus
        have hvalid : Valid { q with sign := ['+'] } :=
          { hq with sign := .inr ⟨'+', List.mem_cons_self, rfl⟩ }
        have heq : text { q with sign := ['+'] } = '+' :: rest := by
          rw [← htext, text, text, hnil]
          rfl
        rw [← heq, numberBufferState_text hvalid (heq ▸ List.cons_ne_nil _ _)]
        exact h.2
    · have hne : q.text ≠ [] := fun hnil => by
        rw [htext] at hnil
        subst hnil
        cases hl
      rw [← htext, numberBufferState_text hq hne]
      exact h.2

theorem prefix_of_complete {q : Text} (h : numberBufferState s = .complete) (hq : q <+: s)
    (hne : q ≠ []) : numberBufferState q ∈ [.partialNumber, .complete, .trailingDot] ↔
      q ∉ bareDots := by
  have hinvalid : numberBufferState q = .invalid ↔ q ∈ bareDots := by
    constructor
    · intro hq'
      obtain ⟨p, hp, rfl⟩ := exists_of_state (s := s) (by simp [h])
      obtain ⟨r, hr, rfl⟩ := exists_of_prefix hp hq
      exact text_of_invalid hr ((numberBufferState_text hr hne).symm.trans hq')
    · intro hmem
      simp only [bareDots, List.mem_cons, List.not_mem_nil, or_false] at hmem
      rcases hmem with rfl | rfl | rfl <;> decide
  have hempty : numberBufferState q ≠ .empty := by
    obtain ⟨p, hp, rfl⟩ := exists_of_state (s := s) (by simp [h])
    obtain ⟨r, hr, rfl⟩ := exists_of_prefix hp hq
    rw [numberBufferState_text hr hne]
    exact state_ne_empty r
  rw [← hinvalid]
  cases hstate : numberBufferState q <;> simp_all

/-- Typing a number: what is complete, and what comes before it. -/
theorem typed_number (s : Text) :
    (numberBufferState s = .complete ↔ (floatLiteral (dropPlus s)).isSome = true) ∧
    ∀ q, numberBufferState s = .complete → q <+: s → q ≠ [] →
      (numberBufferState q ∈ [.partialNumber, .complete, .trailingDot] ↔ q ∉ bareDots) :=
  ⟨complete_iff, fun _ h hq hne => prefix_of_complete h hq hne⟩

/-- The classifier and the validator differ, and a dot with a digit to come is rejected. -/
theorem typed_number_plus :
    numberBufferState "+5".toList = .complete ∧ validFloat "+5".toList = none ∧
      numberBufferState "1e999".toList = .complete ∧ validFloat "1e999".toList = none ∧
      numberBufferState ".5".toList = .complete ∧ numberBufferState ".".toList = .invalid := by
  decide +kernel

theorem typed_number_dot :
    numberBufferState "1.".toList ∈ [.partialNumber, .complete, .trailingDot] ↔
      "1.".toList ∉ bareDots :=
  (typed_number "1.5".toList).2 "1.".toList (by decide) ⟨['5'], rfl⟩ (by decide)

end TinyBrowser.Forms
