import TinyBrowser.Dom.Documents

/-!
# DOM strings

A DOM string is a sequence of code units in one of two forms: text where it is text, else the units.
Every `Built` string is the one that `fromUtf16` makes of its units (`Built.fromUtf16_units`), so
equality is that of the units, and the operations are those of unit sequences.
-/

namespace TinyBrowser.Dom
open Lib

namespace DomString

inductive Repr where
  | empty
  | utf8 (text : Text)
  /-- Units with an unpaired surrogate among them. -/
  | utf16 (units : Units)
deriving DecidableEq

end DomString

structure DomString where
  repr : DomString.Repr
deriving DecidableEq

namespace DomString

protected def default : DomString := ⟨.empty⟩

def fromUtf16 (units : Units) : DomString :=
  if units.isEmpty then .default
  else match Utf16.decode units with
    | some text => ⟨.utf8 text⟩
    | none => ⟨.utf16 units⟩

/-- `From<&str>` and `From<String>`. -/
def fromStr (text : Text) : DomString := if text.isEmpty then .default else ⟨.utf8 text⟩

def isEmpty (s : DomString) : Bool :=
  match s.repr with
  | .empty => true
  | _ => false

def hasUnpairedSurrogate (s : DomString) : Bool :=
  match s.repr with
  | .utf16 _ => true
  | _ => false

def len (s : DomString) : Nat :=
  match s.repr with
  | .empty => 0
  | .utf8 text => (Utf16.encode text).length
  | .utf16 units => units.length

def units (s : DomString) : Units :=
  match s.repr with
  | .empty => []
  | .utf8 text => Utf16.encode text
  | .utf16 units => units

def toStringLossy (s : DomString) : Text :=
  match s.repr with
  | .empty => []
  | .utf8 text => text
  | .utf16 units => Utf16.decodeLossy units

def pushStr (s : DomString) (extra : Text) : DomString :=
  if extra.isEmpty then s
  else match s.repr with
    | .empty => ⟨.utf8 extra⟩
    | .utf8 text => ⟨.utf8 (text ++ extra)⟩
    | .utf16 units => ⟨.utf16 (units ++ Utf16.encode extra)⟩

def pushDom (s extra : DomString) : DomString :=
  match extra.repr with
  | .empty => s
  | .utf8 text => s.pushStr text
  | .utf16 units =>
    match s.repr with
    | .empty => ⟨.utf16 units⟩
    | .utf8 text => fromUtf16 (Utf16.encode text ++ units)
    | .utf16 existing => fromUtf16 (existing ++ units)

/-- What the derived `Hash` writes to a hasher. -/
inductive Write where
  | discriminant (n : Nat)
  | str (text : Text)
  | lengthPrefix (n : Nat)
  | slice (units : Units)
deriving DecidableEq

def hash (s : DomString) : List Write :=
  match s.repr with
  | .empty => [.discriminant 0]
  | .utf8 text => [.discriminant 1, .str text]
  | .utf16 units => [.discriminant 2, .lengthPrefix units.length, .slice units]

/-- The strings that the constructors and the appending operations make. -/
inductive Built : DomString → Prop where
  | default : Built .default
  | fromUtf16 (units : Units) : Built (fromUtf16 units)
  | fromStr (text : Text) : Built (fromStr text)
  | pushStr {s : DomString} (extra : Text) : Built s → Built (s.pushStr extra)
  | pushDom {s extra : DomString} : Built s → Built extra → Built (s.pushDom extra)

section
variable {s t : DomString} {text : Text} {u : Units}

theorem fromUtf16_of_decode_eq_none (h : Utf16.decode u = none) : fromUtf16 u = ⟨.utf16 u⟩ := by
  cases u with
  | nil => cases h
  | cons a u => rw [fromUtf16, h]; rfl

theorem fromUtf16_encode (text : Text) : fromUtf16 (Utf16.encode text) = fromStr text := by
  cases text with
  | nil => rfl
  | cons c text =>
    rw [fromUtf16, Utf16.decode_encode, fromStr]
    have hne : (Utf16.encode (c :: text)).isEmpty = false := by
      rw [Utf16.encode_cons]
      rcases Utf16.encodeChar_cases c with ⟨a, h, -⟩ | ⟨a, b, h, -⟩
      · rw [h]; rfl
      · rw [h]; rfl
    rw [hne]
    rfl

theorem units_fromStr (text : Text) : (fromStr text).units = Utf16.encode text := by
  cases text with
  | nil => rfl
  | cons c text => rfl

theorem units_fromUtf16 (u : Units) : (fromUtf16 u).units = u := by
  cases h : Utf16.decode u with
  | none => rw [fromUtf16_of_decode_eq_none h]; rfl
  | some text =>
    have henc := Utf16.decode_eq_some_iff.1 h
    rw [← henc, fromUtf16_encode, units_fromStr]

theorem fromUtf16_cases (u : Units) :
    (Utf16.decode u = none ∧ fromUtf16 u = ⟨.utf16 u⟩) ∨
    ∃ text, u = Utf16.encode text ∧ fromUtf16 u = fromStr text := by
  cases h : Utf16.decode u with
  | none => exact .inl ⟨rfl, fromUtf16_of_decode_eq_none h⟩
  | some text =>
    have henc := Utf16.decode_eq_some_iff.1 h
    exact .inr ⟨text, henc.symm, by rw [← henc, fromUtf16_encode]⟩

theorem units_pushStr (s : DomString) (extra : Text) :
    (s.pushStr extra).units = s.units ++ Utf16.encode extra := by
  unfold pushStr
  split
  · next h =>
    rw [List.isEmpty_iff.1 h]
    exact (List.append_nil _).symm
  · cases s with
    | mk r =>
      cases r with
      | empty => rfl
      | utf8 text => exact Utf16.encode_append text extra
      | utf16 u => rfl

theorem units_pushDom (s extra : DomString) : (s.pushDom extra).units = s.units ++ extra.units := by
  cases extra with
  | mk e =>
    cases e with
    | empty => exact (List.append_nil _).symm
    | utf8 text => exact units_pushStr s text
    | utf16 v =>
      cases s with
      | mk r =>
        cases r with
        | empty => rfl
        | utf8 text => exact units_fromUtf16 _
        | utf16 u => exact units_fromUtf16 _

theorem pushStr_fromStr (text extra : Text) :
    (fromStr text).pushStr extra = fromStr (text ++ extra) := by
  cases extra with
  | nil => rw [List.append_nil]; rfl
  | cons c extra =>
    cases text with
    | nil => rfl
    | cons d text => rfl

theorem pushStr_utf16 (u : Units) (extra : Text) :
    (⟨.utf16 u⟩ : DomString).pushStr extra = ⟨.utf16 (u ++ Utf16.encode extra)⟩ := by
  cases extra with
  | nil => rw [show Utf16.encode [] = [] from rfl, List.append_nil]; rfl
  | cons c extra => rfl

theorem pushStr_fromUtf16 (u : Units) (extra : Text) :
    (fromUtf16 u).pushStr extra = fromUtf16 (u ++ Utf16.encode extra) := by
  rcases fromUtf16_cases u with ⟨hnone, heq⟩ | ⟨text, rfl, heq⟩
  · rw [heq, pushStr_utf16,
      fromUtf16_of_decode_eq_none (Utf16.decode_append_encode_eq_none hnone extra)]
  · rw [heq, pushStr_fromStr, ← Utf16.encode_append, fromUtf16_encode]

theorem pushDom_fromUtf16 (u v : Units) :
    (fromUtf16 u).pushDom (fromUtf16 v) = fromUtf16 (u ++ v) := by
  rcases fromUtf16_cases v with ⟨hv, heqv⟩ | ⟨text, rfl, heqv⟩
  · rw [heqv]
    rcases fromUtf16_cases u with ⟨hu, hequ⟩ | ⟨text, rfl, hequ⟩
    · rw [hequ]
      rfl
    · rw [hequ]
      cases text with
      | nil => exact (fromUtf16_of_decode_eq_none hv).symm
      | cons c text => rfl
  · rw [heqv]
    cases text with
    | nil => exact congrArg fromUtf16 (List.append_nil u).symm
    | cons c text => exact pushStr_fromUtf16 u (c :: text)

theorem Built.fromUtf16_units (h : Built s) : DomString.fromUtf16 s.units = s := by
  induction h with
  | default => rfl
  | fromUtf16 u => rw [units_fromUtf16]
  | fromStr text => rw [units_fromStr, fromUtf16_encode]
  | pushStr extra _ ih => rw [units_pushStr, ← pushStr_fromUtf16, ih]
  | pushDom _ _ ih ih' => rw [units_pushDom, ← pushDom_fromUtf16, ih, ih']

theorem hasUnpairedSurrogate_fromUtf16 (u : Units) :
    (DomString.fromUtf16 u).hasUnpairedSurrogate = true ↔ ∃ i, Utf16.Unpaired u i := by
  rw [← Utf16.decode_eq_none_iff]
  rcases fromUtf16_cases u with ⟨hnone, heq⟩ | ⟨text, rfl, heq⟩
  · rw [heq, hnone]
    exact iff_of_true rfl rfl
  · rw [heq, Utf16.decode_encode]
    refine iff_of_false ?_ (Option.some_ne_none _)
    cases text with
    | nil => exact Bool.false_ne_true
    | cons c text => exact Bool.false_ne_true

theorem hasUnpairedSurrogate_iff : s.hasUnpairedSurrogate = true ↔ ∃ u, s.repr = .utf16 u := by
  cases s with
  | mk r => cases r <;> simp [hasUnpairedSurrogate]

theorem eq_of_hash_eq (h : s.hash = t.hash) : s = t := by
  cases s with
  | mk r =>
    cases t with
    | mk r' => cases r <;> cases r' <;> simp_all [DomString.hash]

/-- The strings that the operations build are unit sequences: the form is UTF-16 exactly for an
unpaired surrogate, equality and hashing see the units and nothing else, and appending joins them. -/
theorem domString_units (hs : Built s) (ht : Built t) (extra : Text) (u : Units) :
    ((∃ v, s.repr = .utf16 v) ↔ ∃ i, Utf16.Unpaired s.units i) ∧
    (s = t ↔ s.units = t.units) ∧ (s.hash = t.hash ↔ s.units = t.units) ∧
    (fromUtf16 u).units = u ∧ (fromStr extra).units = Utf16.encode extra ∧
    DomString.default.units = [] ∧
    (s.pushStr extra).units = s.units ++ Utf16.encode extra ∧
    (s.pushDom t).units = s.units ++ t.units := by
  have heq : s = t ↔ s.units = t.units := by
    refine ⟨congrArg units, fun h => ?_⟩
    rw [← hs.fromUtf16_units, ← ht.fromUtf16_units, h]
  refine ⟨?_, heq, ?_, units_fromUtf16 u, units_fromStr extra, rfl, units_pushStr s extra,
    units_pushDom s t⟩
  · rw [← hasUnpairedSurrogate_iff, ← hasUnpairedSurrogate_fromUtf16, hs.fromUtf16_units]
  · rw [← heq]
    exact ⟨eq_of_hash_eq, congrArg DomString.hash⟩

/-- The halves of a pair from two pieces. -/
theorem domString_units_joined :
    Built (fromUtf16 [0xD83D]) ∧ Built (fromUtf16 [0xDE00]) ∧
    ((fromUtf16 [0xD83D]).pushDom (fromUtf16 [0xDE00])).units = [0xD83D, 0xDE00] ∧
    ((fromUtf16 [0xD83D]).pushDom (fromUtf16 [0xDE00])).hasUnpairedSurrogate = false :=
  ⟨.fromUtf16 _, .fromUtf16 _,
    (domString_units (.fromUtf16 [0xD83D]) (.fromUtf16 [0xDE00]) [] []).2.2.2.2.2.2.2,
    by decide +kernel⟩

/-! ### The text in the tree -/

theorem toStringLossy_fromUtf16 (u : Units) :
    (DomString.fromUtf16 u).toStringLossy = Utf16.decodeLossy u := by
  rcases fromUtf16_cases u with ⟨-, heq⟩ | ⟨text, rfl, heq⟩
  · rw [heq]
    rfl
  · rw [heq, Utf16.decodeLossy_encode]
    cases text with
    | nil => rfl
    | cons c text => rfl

theorem hasUnpairedSurrogate_eq (u : Units) :
    (DomString.fromUtf16 u).hasUnpairedSurrogate = Dom.hasUnpairedSurrogate u := by
  rw [Bool.eq_iff_iff, hasUnpairedSurrogate_fromUtf16, ← Utf16.decode_eq_none_iff,
    Dom.hasUnpairedSurrogate, bne_iff_ne, ne_eq, Dom.toStringLossy, ← Utf16.decode_eq_some_iff]
  cases h : Utf16.decode u with
  | none => simp
  | some text =>
    rw [← Utf16.decode_eq_some_iff.1 h, Utf16.decodeLossy_encode]
    simp

theorem len_eq_length (s : DomString) : s.len = s.units.length := by
  cases s with
  | mk r => cases r <;> rfl

/-- The lossy text keeps every offset: it has U+FFFD where the units have an unpaired surrogate and
their own units elsewhere, it is what the tree keeps, and it differs exactly when `has_unpaired_surrogate`
says so. -/
theorem Built.lossy (h : Built s) :
    Utf16.encode s.toStringLossy = Dom.toStringLossy s.units ∧
    s.hasUnpairedSurrogate = Dom.hasUnpairedSurrogate s.units ∧
    (DomString.fromStr s.toStringLossy).len = s.len ∧
    ∀ i, (Utf16.Unpaired s.units i → (Utf16.encode s.toStringLossy)[i]? = some 0xFFFD) ∧
      (¬Utf16.Unpaired s.units i → (Utf16.encode s.toStringLossy)[i]? = s.units[i]?) := by
  rw [← h.fromUtf16_units, units_fromUtf16, toStringLossy_fromUtf16]
  refine ⟨rfl, hasUnpairedSurrogate_eq _, ?_, Utf16.getElem?_encode_decodeLossy _⟩
  rw [len_eq_length, len_eq_length, units_fromStr, units_fromUtf16,
    Utf16.length_encode_decodeLossy]

end
end DomString
end TinyBrowser.Dom
