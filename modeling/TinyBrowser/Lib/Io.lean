import Mathlib.Tactic.SplitIfs
import Mathlib.Data.List.Induction
import Mathlib.Tactic.Ring
import Mathlib.Data.Nat.Init
import TinyBrowser.Lib.Bytes

/-!
# Byte streams and self-delimiting formats

A `Reader` hands out its bytes in pieces of its own choosing, a `Writer` takes them and may fail.
`Reader.readExact` loops over short reads; `readExact_of_le` and `readExact_of_lt` say what it
answers by the bytes that are still to come. Numbers travel in network order.

A `Framing` decodes one item off the front of a byte string and nothing else: decoding inverts
encoding whatever follows, and what was consumed is the encoding of what was answered. Sequences of
items round trip, and a string cut inside an item can only be refused (`decode_cut`).
-/

namespace Lib

inductive ErrorKind where
  | invalidData
  | unexpectedEof
deriving DecidableEq, Repr

structure IoError where
  kind : ErrorKind
  message : String
deriving DecidableEq, Repr

/-- A source of bytes: one call takes a few of them, and none only at the end. -/
class Reader (R : Type) where
  rest : R → Bytes
  read : R → Nat → Bytes × R
  read_append : ∀ r n, (read r n).1 ++ rest (read r n).2 = rest r
  read_le : ∀ r n, (read r n).1.length ≤ n
  read_end : ∀ r n, (read r (n + 1)).1 = [] → rest r = []

namespace Reader
variable {R : Type} [Reader R]

/-- `Read::read_exact`: reads until `n` bytes are there. -/
def readExact (r : R) (n : Nat) : Except IoError (Bytes × R) :=
  if n = 0 then .ok ([], r)
  else
    let got := read r n
    if got.1.length = 0 then .error ⟨.unexpectedEof, "failed to fill whole buffer"⟩
    else
      match readExact got.2 (n - got.1.length) with
      | .error e => .error e
      | .ok (more, r') => .ok (got.1 ++ more, r')
termination_by n
decreasing_by
  have hpiece : (read r n).1.length ≠ 0 := by assumption
  omega

theorem read_eq (r : R) (n : Nat) :
    (read r n).1 = (rest r).take (read r n).1.length ∧
      rest (read r n).2 = (rest r).drop (read r n).1.length := by
  have h := read_append r n
  constructor
  · rw [← h, List.take_left]
  · rw [← h, List.drop_left]

theorem readExact_of_le (r : R) (n : Nat) (h : n ≤ (rest r).length) :
    ∃ r', readExact r n = .ok ((rest r).take n, r') ∧ rest r' = (rest r).drop n := by
  induction n using Nat.strong_induction_on generalizing r with
  | _ n ih =>
    rw [readExact]
    dsimp only
    split_ifs with hn hp
    · exact ⟨r, by simp [hn], by simp [hn]⟩
    · obtain ⟨k, rfl⟩ := Nat.exists_eq_succ_of_ne_zero hn
      have hnil := read_end r k (List.eq_nil_of_length_eq_zero hp)
      rw [hnil] at h
      exact absurd h (by simp)
    · obtain ⟨hpiece, hrest⟩ := read_eq r n
      have hle := read_le r n
      have hlen : n - (read r n).1.length ≤ (rest (read r n).2).length := by
        rw [hrest, List.length_drop]; omega
      obtain ⟨r', hr', hrest'⟩ := ih _ (by omega) (read r n).2 hlen
      refine ⟨r', ?_, ?_⟩
      · simp only [hr']
        rw [hrest]
        nth_rewrite 1 [hpiece]
        rw [← List.take_add, Nat.add_sub_cancel' hle]
      · rw [hrest', hrest, List.drop_drop, Nat.add_sub_cancel' hle]

theorem readExact_of_lt (r : R) (n : Nat) (h : (rest r).length < n) :
    readExact r n = .error ⟨.unexpectedEof, "failed to fill whole buffer"⟩ := by
  induction n using Nat.strong_induction_on generalizing r with
  | _ n ih =>
    rw [readExact]
    dsimp only
    split_ifs with hn hp
    · omega
    · rfl
    · obtain ⟨-, hrest⟩ := read_eq r n
      have hlen := congrArg List.length (read_append r n)
      rw [List.length_append] at hlen
      simp only [ih (n - (read r n).1.length) (by omega) (read r n).2 (by omega)]

end Reader

/-- A cursor over bytes in memory. -/
instance : Reader Bytes where
  rest bytes := bytes
  read bytes n := (bytes.take n, bytes.drop n)
  read_append bytes n := List.take_append_drop n bytes
  read_le bytes n := by rw [List.length_take]; omega
  read_end bytes n h := by
    cases bytes with
    | nil => rfl
    | cons b bytes => simp at h

/-- A sink for bytes: what a call does to it, and whether it failed. -/
class Writer (W : Type) where
  writeAll : W → Bytes → Except IoError Unit × W
  flush : W → Except IoError Unit × W

/-- A growing buffer takes everything. -/
instance : Writer Bytes where
  writeAll out bytes := (.ok (), out ++ bytes)
  flush out := (.ok (), out)

namespace Bytes

/-- `to_be_bytes` of a number of `width` bytes. -/
def toBe : Nat → Nat → Bytes
  | 0, _ => []
  | width + 1, n => toBe width (n / 256) ++ [UInt8.ofNat n]

/-- `from_be_bytes`. -/
def ofBe (bytes : Bytes) : Nat := bytes.foldl (fun acc b => acc * 256 + b.toNat) 0

@[simp] theorem length_toBe (width n : Nat) : (toBe width n).length = width := by
  induction width generalizing n with
  | zero => rfl
  | succ width ih => rw [toBe, List.length_append, ih]; rfl

@[simp] theorem ofBe_nil : ofBe [] = 0 := rfl

theorem ofBe_append_singleton (bytes : Bytes) (b : UInt8) :
    ofBe (bytes ++ [b]) = ofBe bytes * 256 + b.toNat := by
  simp only [ofBe, List.foldl_append, List.foldl_cons, List.foldl_nil]

theorem ofBe_toBe (width n : Nat) (h : n < 256 ^ width) : ofBe (toBe width n) = n := by
  induction width generalizing n with
  | zero =>
    have hn : n = 0 := by simpa using h
    rw [hn]; rfl
  | succ width ih =>
    have hdiv : n / 256 < 256 ^ width := by
      rw [Nat.div_lt_iff_lt_mul (by decide)]
      rwa [pow_succ] at h
    rw [toBe, ofBe_append_singleton, ih _ hdiv, UInt8.toNat_ofNat']
    omega

theorem ofBe_lt (bytes : Bytes) : ofBe bytes < 256 ^ bytes.length := by
  induction bytes using List.reverseRecOn with
  | nil => simp
  | append_singleton bytes b ih =>
    have hb := b.toNat_lt
    rw [ofBe_append_singleton, List.length_append, List.length_singleton, pow_succ]
    omega

theorem toBe_ofBe (bytes : Bytes) : toBe bytes.length (ofBe bytes) = bytes := by
  induction bytes using List.reverseRecOn with
  | nil => rfl
  | append_singleton bytes b ih =>
    have hb := b.toNat_lt
    have hdiv : (ofBe bytes * 256 + b.toNat) / 256 = ofBe bytes := by omega
    have hlow : UInt8.ofNat (ofBe bytes * 256 + b.toNat) = b := by
      apply UInt8.toNat_inj.mp
      rw [UInt8.toNat_ofNat']
      omega
    rw [List.length_append, List.length_singleton, toBe, ofBe_append_singleton, hdiv, ih, hlow]

end Bytes

/-! ### Self-delimiting formats -/

/-- `decode` answers `none` at the end of the input, or an item with what is left. -/
structure Framing (α ε : Type) where
  encode : α → Option Bytes
  decode : Bytes → Except ε (Option (α × Bytes))
  decode_nil : decode [] = .ok none
  nil_of_decode : ∀ {s}, decode s = .ok none → s = []
  encode_ne_nil : ∀ {a w}, encode a = some w → w ≠ []
  decode_encode : ∀ {a w} s, encode a = some w → decode (w ++ s) = .ok (some (a, s))
  encode_decode : ∀ {s a t}, decode s = .ok (some (a, t)) → ∃ w, encode a = some w ∧ s = w ++ t

namespace Framing
variable {α ε : Type} (F : Framing α ε)

theorem decode_length_lt {s t : Bytes} {a : α} (h : F.decode s = .ok (some (a, t))) :
    t.length < s.length := by
  obtain ⟨w, hw, rfl⟩ := F.encode_decode h
  have := List.length_pos_of_ne_nil (F.encode_ne_nil hw)
  rw [List.length_append]
  omega

/-- A proper prefix of an encoded item that is not empty is refused. -/
theorem decode_cut {a : α} {w p t : Bytes} (hw : F.encode a = some w) (hpt : w = p ++ t)
    (hp : p ≠ []) (ht : t ≠ []) : ∃ e, F.decode p = .error e := by
  cases hd : F.decode p with
  | error e => exact ⟨e, rfl⟩
  | ok got =>
    cases got with
    | none => exact absurd (F.nil_of_decode hd) hp
    | some got =>
      obtain ⟨b, s⟩ := got
      obtain ⟨v, hv, rfl⟩ := F.encode_decode hd
      -- The item found in the prefix is also the first item of the whole encoding.
      have hlong := F.decode_encode (s ++ t) hv
      have hwhole := F.decode_encode [] hw
      rw [List.append_nil, hpt, List.append_assoc, hlong] at hwhole
      have hnil : s ++ t = [] := by
        injection hwhole with h
        injection h with h
        exact congrArg Prod.snd h
      exact absurd (List.append_eq_nil_iff.mp hnil).2 ht

/-- The encoding of a sequence of items. -/
def encodeAll (F : Framing α ε) : List α → Option Bytes
  | [] => some []
  | a :: as => (F.encode a).bind fun w => (encodeAll F as).map (w ++ ·)

/-- The items of a byte string up to its end or the first fault. -/
def decodeAll (F : Framing α ε) (s : Bytes) : List α × Except ε Unit :=
  match h : F.decode s with
  | .error e => ([], .error e)
  | .ok none => ([], .ok ())
  | .ok (some (a, t)) =>
    have : t.length < s.length := F.decode_length_lt h
    ((a :: (decodeAll F t).1), (decodeAll F t).2)
termination_by s.length

theorem decodeAll_error {s : Bytes} {e : ε} (h : F.decode s = .error e) :
    F.decodeAll s = ([], .error e) := by
  rw [decodeAll]
  split <;> simp_all

theorem decodeAll_none {s : Bytes} (h : F.decode s = .ok none) : F.decodeAll s = ([], .ok ()) := by
  rw [decodeAll]
  split <;> simp_all

theorem decodeAll_some {s t : Bytes} {a : α} (h : F.decode s = .ok (some (a, t))) :
    F.decodeAll s = (a :: (F.decodeAll t).1, (F.decodeAll t).2) := by
  rw [decodeAll]
  split <;> simp_all

theorem decodeAll_append {as : List α} {w : Bytes} (hw : F.encodeAll as = some w) (s : Bytes) :
    F.decodeAll (w ++ s) = (as ++ (F.decodeAll s).1, (F.decodeAll s).2) := by
  induction as generalizing w with
  | nil =>
    cases hw
    rfl
  | cons a as ih =>
    obtain ⟨v, hv, hw⟩ := Option.bind_eq_some_iff.mp hw
    obtain ⟨u, hu, rfl⟩ := Option.map_eq_some_iff.mp hw
    have hd := F.decode_encode (u ++ s) hv
    rw [List.append_assoc, F.decodeAll_some hd, ih hu]
    rfl

theorem decodeAll_encodeAll {as : List α} {w : Bytes} (hw : F.encodeAll as = some w) :
    F.decodeAll w = (as, .ok ()) := by
  have h := F.decodeAll_append hw []
  rw [List.append_nil, F.decodeAll_none F.decode_nil, List.append_nil] at h
  exact h

/-- What was accepted is the encoding of what was answered. -/
theorem encodeAll_decodeAll (s : Bytes) (h : (F.decodeAll s).2 = .ok ()) :
    F.encodeAll (F.decodeAll s).1 = some s := by
  induction hn : s.length using Nat.strong_induction_on generalizing s with
  | _ n ih =>
    cases hd : F.decode s with
    | error e =>
      rw [F.decodeAll_error hd] at h
      cases h
    | ok got =>
      cases got with
      | none =>
        rw [F.decodeAll_none hd, F.nil_of_decode hd]
        rfl
      | some got =>
        obtain ⟨a, t⟩ := got
        have hlt := F.decode_length_lt hd
        obtain ⟨w, hw, rfl⟩ := F.encode_decode hd
        rw [F.decodeAll_some hd] at h ⊢
        have ht := ih t.length (by omega) t h rfl
        simp only [encodeAll, hw, ht, Option.bind_some, Option.map_some]

theorem decodeAll_cut {as : List α} {a : α} {v w p t : Bytes} (hv : F.encodeAll as = some v)
    (hw : F.encode a = some w) (hpt : w = p ++ t) (hp : p ≠ []) (ht : t ≠ []) :
    ∃ e, F.decodeAll (v ++ p) = (as, .error e) := by
  obtain ⟨e, he⟩ := F.decode_cut hw hpt hp ht
  refine ⟨e, ?_⟩
  rw [F.decodeAll_append hv, F.decodeAll_error he, List.append_nil]

end Framing

end Lib
