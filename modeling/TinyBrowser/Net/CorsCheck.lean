import TinyBrowser.Lib.Joined
import TinyBrowser.Net.Cors

/-!
# The CORS check and Fetch's

`fetchCorsCheck` is the CORS check of the standard, on bytes: each value is stripped of HTTP white
space, the values are joined, and what comes out is compared byte for byte. `cors_check` decodes,
joins and then trims Unicode white space, and folds the case of `true`. It accepts whatever the
standard accepts, and the spellings of `LooselyAllowed` too (`corsCheck_eq_fetch_iff`).
-/

namespace TinyBrowser
open Lib

namespace Cors
variable {headers : HeaderMap} {values : List Bytes} {origin t : Text}

/-! ### The check of the standard -/

/-- HTTP white space: tab, line feed, carriage return and space. -/
def isHttpSpace (b : UInt8) : Bool := b = 0x09 || b = 0x0A || b = 0x0D || b = 0x20

/-- The combined value, each part normalized. -/
def fetchValue (values : List Bytes) : Option Bytes :=
  if values = [] then none
  else some (List.intercalate [0x2C, 0x20] (values.map (strip isHttpSpace)))

def allowOrigin (headers : HeaderMap) : List Bytes :=
  headers.getAll "access-control-allow-origin".toList

def allowCredentials (headers : HeaderMap) : List Bytes :=
  headers.getAll "access-control-allow-credentials".toList

def fetchCorsCheck (headers : HeaderMap) (origin : Text) (credentialsInclude : Bool) : Bool :=
  !credentialsInclude && fetchValue (allowOrigin headers) = some (Bytes.ofText "*".toList) ||
    fetchValue (allowOrigin headers) = some (Bytes.ofText origin) &&
      (!credentialsInclude ||
        fetchValue (allowCredentials headers) = some (Bytes.ofText "true".toList))

/-! ### How values are spelled -/

/-- Printable ASCII without a space, as an origin is serialized. -/
def VisibleAscii (t : Text) : Prop := ∀ c ∈ t, 0x20 < c.toNat ∧ c.toNat < 0x7F

instance : Decidable (VisibleAscii t) :=
  List.decidableBAll (fun c : Char => 0x20 < c.toNat ∧ c.toNat < 0x7F) t

def Blank (t : Text) : Prop := ∀ c ∈ t, Text.isWhitespace c = true

/-- One value: the bytes of `t` between HTTP white space. -/
def Spelled (values : List Bytes) (t : Text) : Prop :=
  ∃ a b, values = [a ++ Bytes.ofText t ++ b] ∧ (∀ x ∈ a, isHttpSpace x = true) ∧
    ∀ x ∈ b, isHttpSpace x = true

/-- One value that decodes to `t` between any white space, or two of which the second one is blank and
`t` ends in the comma between them. -/
inductive DecodesTo : List Bytes → Text → Prop
  | one {v : Bytes} {t a b : Text} : Bytes.toText? v = some (a ++ t ++ b) → Blank a → Blank b →
      DecodesTo [v] t
  | two {v w : Bytes} {t a b : Text} : Bytes.toText? v = some (a ++ t) → Bytes.toText? w = some b →
      Blank a → Blank b → DecodesTo [v, w] (t ++ [','])

/-- What the code accepts and the standard does not. -/
def LooselyAllowed (headers : HeaderMap) (origin : Text) : Bool → Prop
  | false => ∃ t, (t = "*".toList ∨ t = origin) ∧ DecodesTo (allowOrigin headers) t ∧
      ¬ Spelled (allowOrigin headers) t
  | true => DecodesTo (allowOrigin headers) origin ∧
      (∃ truth, Text.eqIgnoreAsciiCase truth "true".toList = true ∧
        DecodesTo (allowCredentials headers) truth) ∧
      ¬ (Spelled (allowOrigin headers) origin ∧ Spelled (allowCredentials headers) "true".toList)

theorem isWhitespace_of_visible (ht : VisibleAscii t) : ∀ c ∈ t, Text.isWhitespace c = false := by
  intro c hc
  obtain ⟨hlow, hhigh⟩ := ht c hc
  have hne : c ≠ ' ' := fun heq => by
    rw [heq] at hlow
    exact absurd hlow (by decide)
  simp only [Text.isWhitespace, hne, decide_false, Bool.false_or, Bool.or_eq_false_iff,
    Bool.and_eq_false_iff, decide_eq_false_iff_not]
  omega

theorem mem_ofText_of_visible (ht : VisibleAscii t) {b : UInt8} (hb : b ∈ Bytes.ofText t) :
    0x20 < b ∧ b < 0x80 := by
  obtain ⟨c, hc, hb⟩ := List.mem_flatMap.1 hb
  obtain ⟨hlow, hhigh⟩ := ht c hc
  have hsize : c.utf8Size = 1 :=
    Char.utf8Size_eq_one_iff.2 (UInt32.le_iff_toNat_le.2 (show c.toNat ≤ 127 by omega))
  rw [String.utf8EncodeChar_eq_singleton hsize, List.mem_singleton] at hb
  have hnat : b.toNat = c.toNat := by
    rw [hb]
    show (UInt8.ofNat c.toNat).toNat = _
    rw [UInt8.toNat_ofNat']
    omega
  exact ⟨UInt8.lt_iff_toNat_lt.2 (hnat ▸ hlow),
    UInt8.lt_iff_toNat_lt.2 (hnat ▸ Nat.lt_of_lt_of_le hhigh (by decide))⟩

theorem isHttpSpace_of_visible (ht : VisibleAscii t) :
    ∀ b ∈ Bytes.ofText t, isHttpSpace b = false := by
  intro b hb
  have hlow := UInt8.lt_iff_toNat_lt.1 (mem_ofText_of_visible ht hb).1
  simp only [isHttpSpace, Bool.or_eq_false_iff, decide_eq_false_iff_not]
  refine ⟨⟨⟨?_, ?_⟩, ?_⟩, ?_⟩ <;> rintro rfl <;> exact absurd hlow (by decide)

/-! ### The check of the standard, by spelling -/

theorem fetchValue_iff (ht : VisibleAscii t) :
    fetchValue values = some (Bytes.ofText t) ↔ Spelled values t := by
  match values with
  | [] => exact iff_of_false nofun fun ⟨_, _, h, _⟩ => nomatch h
  | [v] =>
    have hone : fetchValue [v] = some (strip isHttpSpace v) := by
      rw [fetchValue, if_neg (List.cons_ne_nil v []), List.map_singleton, List.intercalate_singleton]
    rw [hone, Option.some.injEq, strip_eq_iff (isHttpSpace_of_visible ht)]
    simp only [Spelled, List.cons.injEq, and_true]
  | v :: w :: rest =>
    refine iff_of_false (fun h => ?_) fun ⟨_, _, h, _⟩ => nomatch h
    -- the space after a comma is no byte of `t`
    have hspace : (0x20 : UInt8) ∈ Bytes.ofText t := by
      rw [fetchValue, if_neg (List.cons_ne_nil v _), Option.some.injEq, List.map_cons, List.map_cons,
        List.intercalate_cons_cons] at h
      rw [← h]
      exact List.mem_append_left _ (List.mem_append_right _ (by decide))
    exact absurd (mem_ofText_of_visible ht hspace).1 (by decide)

theorem visible_star : VisibleAscii "*".toList := by decide

theorem visible_true : VisibleAscii "true".toList := by decide

theorem fetchCorsCheck_iff (horigin : VisibleAscii origin) (credentialsInclude : Bool) :
    fetchCorsCheck headers origin credentialsInclude = true ↔
      match credentialsInclude with
      | false => ∃ t, (t = "*".toList ∨ t = origin) ∧ Spelled (allowOrigin headers) t
      | true => Spelled (allowOrigin headers) origin ∧
          Spelled (allowCredentials headers) "true".toList := by
  have hstar : _ ↔ Spelled (allowOrigin headers) _ := fetchValue_iff visible_star
  have hown : _ ↔ Spelled (allowOrigin headers) _ := fetchValue_iff horigin
  have htrue : _ ↔ Spelled (allowCredentials headers) _ := fetchValue_iff visible_true
  cases credentialsInclude with
  | false =>
    show _ ↔ ∃ t, (t = "*".toList ∨ t = origin) ∧ Spelled (allowOrigin headers) t
    simp only [or_and_right, exists_or, exists_eq_left]
    rw [← hstar, ← hown]
    simp only [fetchCorsCheck, Bool.not_false, Bool.true_and, Bool.true_or, Bool.and_true,
      Bool.or_eq_true, decide_eq_true_eq]
  | true =>
    show _ ↔ Spelled (allowOrigin headers) origin ∧ Spelled (allowCredentials headers) "true".toList
    rw [← hown, ← htrue]
    simp only [fetchCorsCheck, Bool.not_true, Bool.false_and, Bool.false_or, Bool.and_eq_true,
      decide_eq_true_eq]

/-! ### The check of the code, by spelling -/

/-- `header` on the values of the name. -/
def textOf (values : List Bytes) : Option Text :=
  match values.mapM Bytes.toText? with
  | none => none
  | some values => if values = [] then none else some (joinTexts ", ".toList values)

theorem header_eq (headers : HeaderMap) (name : Text) :
    header headers name = textOf (headers.getAll name) := rfl

theorem mapM_cons_eq_some {α β : Type} {f : α → Option β} {x : α} {l : List α} {ys : List β} :
    (x :: l).mapM f = some ys ↔ ∃ y ys', f x = some y ∧ l.mapM f = some ys' ∧ y :: ys' = ys := by
  rw [List.mapM_cons]
  cases f x with
  | none => exact iff_of_false (by rintro ⟨⟩) (by rintro ⟨_, _, ⟨⟩, _⟩)
  | some y =>
    cases l.mapM f with
    | none => exact iff_of_false (by rintro ⟨⟩) (by rintro ⟨_, _, _, ⟨⟩, _⟩)
    | some ys' =>
      simp only [Option.some.injEq, exists_eq_left', exists_and_left]
      exact Option.some_inj

theorem textOf_cons {v : Bytes} {rest : List Bytes} {text : Text} :
    textOf (v :: rest) = some text ↔ ∃ s ss, Bytes.toText? v = some s ∧
      rest.mapM Bytes.toText? = some ss ∧ joinTexts ", ".toList (s :: ss) = text := by
  unfold textOf
  cases hdecode : (v :: rest).mapM Bytes.toText? with
  | none =>
    refine iff_of_false nofun fun ⟨s, ss, hv, hrest, _⟩ => ?_
    exact nomatch hdecode.symm.trans (mapM_cons_eq_some.2 ⟨s, ss, hv, hrest, rfl⟩)
  | some texts =>
    obtain ⟨s, ss, hv, hrest, rfl⟩ := mapM_cons_eq_some.1 hdecode
    show (if s :: ss = [] then none else some (joinTexts ", ".toList (s :: ss))) = some text ↔ _
    rw [if_neg (List.cons_ne_nil s ss), Option.some.injEq, hv, hrest]
    simp only [Option.some.injEq, exists_eq_left', exists_and_left]

theorem joinTexts_cons_cons (sep s s' : Text) (ss : List Text) :
    joinTexts sep (s :: s' :: ss) = s ++ sep ++ joinTexts sep (s' :: ss) :=
  List.intercalate_cons_cons ..

theorem joinTexts_singleton (sep s : Text) : joinTexts sep [s] = s := List.intercalate_singleton

/-- The trimmed value is `t`. -/
theorem trim_textOf_iff (ht : VisibleAscii t) :
    (∃ text, textOf values = some text ∧ Text.trim text = t) ↔ DecodesTo values t := by
  have hstrip : ∀ text, Text.trim text = t ↔ ∃ a b, text = a ++ t ++ b ∧ Blank a ∧ Blank b :=
    fun text => strip_eq_iff (isWhitespace_of_visible ht)
  constructor
  · rintro ⟨text, htext, htrim⟩
    obtain ⟨a, b, rfl, ha, hb⟩ := (hstrip text).1 htrim
    match values with
    | [] => cases htext
    | v :: rest =>
      obtain ⟨s, ss, hv, hrest, hjoin⟩ := textOf_cons.1 htext
      cases rest with
      | nil =>
        obtain rfl : [] = ss := Option.some.inj hrest
        rw [joinTexts_singleton] at hjoin
        exact .one (hjoin ▸ hv) ha hb
      | cons w rest =>
        obtain ⟨s', ss, hw, hmore, rfl⟩ := mapM_cons_eq_some.1 hrest
        rw [joinTexts_cons_cons, List.append_assoc] at hjoin
        -- the first comma stands in `t`, and the space after it does not
        obtain ⟨t₁, t₂, rfl, rfl, hafter⟩ := append_cons_eq (c := ',') (by decide) ha hb hjoin
        cases t₂ with
        | cons c t₂ =>
          obtain ⟨hspace, -⟩ := List.cons.inj
            (show ' ' :: joinTexts ", ".toList (s' :: ss) = c :: (t₂ ++ b) from hafter)
          have hmem : c ∈ t₁ ++ ',' :: c :: t₂ :=
            List.mem_append_right _ (List.mem_cons_of_mem _ List.mem_cons_self)
          exact absurd (ht c hmem).1 (hspace ▸ by decide)
        | nil =>
          have hblank : Blank (joinTexts ", ".toList (s' :: ss)) := fun c hc =>
            hb c ((show ' ' :: joinTexts ", ".toList (s' :: ss) = b from hafter) ▸
              List.mem_cons_of_mem _ hc)
          cases rest with
          | nil =>
            obtain rfl : [] = ss := Option.some.inj hmore
            rw [joinTexts_singleton] at hblank
            exact .two hv hw ha hblank
          | cons u rest =>
            obtain ⟨s'', ss, -, -, rfl⟩ := mapM_cons_eq_some.1 hmore
            rw [joinTexts_cons_cons] at hblank
            exact absurd (hblank ',' (List.mem_append_left _ (List.mem_append_right _ (by decide))))
              (by decide)
  · rintro (⟨hv, ha, hb⟩ | ⟨hv, hw, ha, hb⟩)
    · exact ⟨_, textOf_cons.2 ⟨_, [], hv, rfl, joinTexts_singleton ..⟩,
        (hstrip _).2 ⟨_, _, rfl, ha, hb⟩⟩
    · rename_i v w t' a b
      refine ⟨_, textOf_cons.2 ⟨_, [b], hv, mapM_cons_eq_some.2 ⟨b, [], hw, rfl, rfl⟩, rfl⟩,
        (hstrip _).2 ⟨a, ' ' :: b, ?_, ha, List.forall_mem_cons.2 ⟨by decide, hb⟩⟩⟩
      rw [joinTexts_cons_cons, joinTexts_singleton]
      simp

theorem visible_of_eqIgnoreAsciiCase_true (h : Text.eqIgnoreAsciiCase t "true".toList = true) :
    VisibleAscii t := by
  intro c hc
  have hlower : Text.asciiLower c ∈ Text.toAsciiLowercase "true".toList :=
    of_decide_eq_true h ▸ List.mem_map_of_mem hc
  have hvisible := visible_true _ hlower
  rw [Text.toNat_asciiLower] at hvisible
  split_ifs at hvisible <;> omega

theorem corsCheck_iff (horigin : VisibleAscii origin) (credentialsInclude : Bool) :
    corsCheck headers origin credentialsInclude = true ↔
      match credentialsInclude with
      | false => ∃ t, (t = "*".toList ∨ t = origin) ∧ DecodesTo (allowOrigin headers) t
      | true => DecodesTo (allowOrigin headers) origin ∧
          ∃ truth, Text.eqIgnoreAsciiCase truth "true".toList = true ∧
            DecodesTo (allowCredentials headers) truth := by
  have hvalue : ∀ {values t}, VisibleAscii t → ∀ {text}, textOf values = some text →
      (DecodesTo values t ↔ Text.trim text = t) := fun ht text htext => by
    rw [← trim_textOf_iff ht, htext]
    simp only [Option.some.injEq, exists_eq_left']
  have habsent : ∀ {values t}, VisibleAscii t → textOf values = none → ¬ DecodesTo values t :=
    fun ht hnone h => by
      obtain ⟨text, htext, -⟩ := (trim_textOf_iff ht).2 h
      cases hnone.symm.trans htext
  unfold corsCheck
  rw [header_eq, header_eq,
    show headers.getAll "access-control-allow-origin".toList = allowOrigin headers from rfl,
    show headers.getAll "access-control-allow-credentials".toList = allowCredentials headers from rfl]
  dsimp only
  cases hown : textOf (allowOrigin headers) with
  | none =>
    refine iff_of_false Bool.false_ne_true ?_
    cases credentialsInclude with
    | false =>
      rintro ⟨t, rfl | rfl, h⟩
      · exact habsent visible_star hown h
      · exact habsent horigin hown h
    | true => exact fun h => habsent horigin hown h.1
  | some text =>
    have hstar := hvalue visible_star hown
    have hsame := hvalue horigin hown
    cases credentialsInclude with
    | false =>
      simp only [or_and_right, exists_or, exists_eq_left, hstar, hsame]
      by_cases h : Text.trim text = "*".toList
      · simp [h]
      · by_cases h' : Text.trim text = origin
        · simp [h']
        · simp [h']
    | true =>
      simp only [hsame]
      by_cases h : Text.trim text = origin
      swap
      · simp [h]
      rw [and_iff_right h]
      cases htrue : textOf (allowCredentials headers) with
      | none =>
        refine iff_of_false (by simp [h]) ?_
        rintro ⟨truth, hfold, hdecodes⟩
        exact habsent (visible_of_eqIgnoreAsciiCase_true hfold) htrue hdecodes
      | some value =>
        have hfolds : (∃ truth, Text.eqIgnoreAsciiCase truth "true".toList = true ∧
            DecodesTo (allowCredentials headers) truth) ↔
              Text.eqIgnoreAsciiCase (Text.trim value) "true".toList = true := by
          constructor
          · rintro ⟨truth, hfold, hdecodes⟩
            rwa [(hvalue (visible_of_eqIgnoreAsciiCase_true hfold) htrue).1 hdecodes]
          · exact fun hfold =>
              ⟨_, hfold, (hvalue (visible_of_eqIgnoreAsciiCase_true hfold) htrue).2 rfl⟩
        rw [hfolds]
        simp [h]

/-- HTTP white space is white space, and ASCII bytes are their own characters. -/
theorem Spelled.decodesTo (h : Spelled values t) (ht : VisibleAscii t) : DecodesTo values t := by
  obtain ⟨a, b, rfl, ha, hb⟩ := h
  have hhttp : ∀ x, isHttpSpace x = true → x < 0x80 ∧
      Text.isWhitespace (Char.ofNat x.toNat) = true := by
    intro x hx
    simp only [isHttpSpace, Bool.or_eq_true, decide_eq_true_eq] at hx
    rcases hx with ((rfl | rfl) | rfl) | rfl <;> decide
  have hascii : ∀ x ∈ Bytes.ofText t, x < 0x80 := fun x hx => (mem_ofText_of_visible ht hx).2
  have hblank : ∀ {s : Bytes}, (∀ x ∈ s, isHttpSpace x = true) →
      Blank (s.map fun x => Char.ofNat x.toNat) := fun hs c hc => by
    obtain ⟨x, hx, rfl⟩ := List.mem_map.1 hc
    exact (hhttp x (hs x hx)).2
  refine .one ?_ (hblank ha) (hblank hb)
  rw [Bytes.toText?_ascii, List.map_append, List.map_append, Bytes.ofText_ascii hascii]
  intro x hx
  rcases List.mem_append.1 hx with hx | hx
  · rcases List.mem_append.1 hx with hx | hx
    · exact (hhttp x (ha x hx)).1
    · exact hascii x hx
  · exact (hhttp x (hb x hx)).1

theorem DecodesTo.eq {t' : Text} (h : DecodesTo values t) (h' : DecodesTo values t')
    (ht : VisibleAscii t) (ht' : VisibleAscii t') : t = t' := by
  obtain ⟨text, htext, rfl⟩ := (trim_textOf_iff ht).2 h
  obtain ⟨text', htext', rfl⟩ := (trim_textOf_iff ht').2 h'
  rw [Option.some.inj (htext.symm.trans htext')]

/-- The code agrees with the standard unless a value is spelled in one of its own ways. -/
theorem corsCheck_eq_fetch_iff (horigin : VisibleAscii origin) (headers : HeaderMap)
    (credentialsInclude : Bool) :
    corsCheck headers origin credentialsInclude = fetchCorsCheck headers origin credentialsInclude ↔
      ¬ LooselyAllowed headers origin credentialsInclude := by
  rw [Bool.eq_iff_iff, corsCheck_iff horigin, fetchCorsCheck_iff horigin]
  cases credentialsInclude with
  | false =>
    have hvisible : ∀ t, t = "*".toList ∨ t = origin → VisibleAscii t := by
      rintro t (rfl | rfl)
      · exact visible_star
      · exact horigin
    constructor
    · rintro heq ⟨t, ht, hdecodes, hnot⟩
      obtain ⟨t', ht', hspelled⟩ := heq.1 ⟨t, ht, hdecodes⟩
      have hsame := (hspelled.decodesTo (hvisible t' ht')).eq hdecodes (hvisible t' ht') (hvisible t ht)
      exact hnot (hsame ▸ hspelled)
    · intro hloose
      constructor
      · rintro ⟨t, ht, hdecodes⟩
        exact ⟨t, ht, not_not.1 fun hnot => hloose ⟨t, ht, hdecodes, hnot⟩⟩
      · rintro ⟨t, ht, hspelled⟩
        exact ⟨t, ht, hspelled.decodesTo (hvisible t ht)⟩
  | true =>
    constructor
    · rintro heq ⟨horigin', htruth, hnot⟩
      exact hnot (heq.1 ⟨horigin', htruth⟩)
    · intro hloose
      constructor
      · rintro ⟨horigin', htruth⟩
        exact not_not.1 fun hnot => hloose ⟨horigin', htruth, hnot⟩
      · rintro ⟨horigin', htrue⟩
        exact ⟨horigin'.decodesTo horigin, "true".toList, by decide, htrue.decodesTo visible_true⟩

/-- A response for one origin that lets credentials through in capitals. -/
def capitals : HeaderMap :=
  ⟨[(⟨"access-control-allow-origin".toList, by decide⟩, Bytes.ofText "https://a.example".toList),
    (⟨"access-control-allow-credentials".toList, by decide⟩, Bytes.ofText "TRUE".toList)]⟩

theorem corsCheck_eq_fetch_iff_capitals :
    corsCheck capitals "https://a.example".toList false =
        fetchCorsCheck capitals "https://a.example".toList false ↔
      ¬ LooselyAllowed capitals "https://a.example".toList false :=
  corsCheck_eq_fetch_iff (by decide) capitals false

theorem corsCheck_ne_fetch_capitals : corsCheck capitals "https://a.example".toList true = true ∧
    fetchCorsCheck capitals "https://a.example".toList true = false := by decide +kernel

end Cors

end TinyBrowser
