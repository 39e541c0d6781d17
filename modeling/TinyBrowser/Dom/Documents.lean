import TinyBrowser.Dom.Range
import TinyBrowser.Lib.Dict
import TinyBrowser.Lib.Utf16

/-!
# Documents

A document is its Blitz tree together with the side tables that the renderer keeps for it: the
mutation journal, the live ranges, and the exact units of the character data that the tree can only
hold with replacement characters.

A node's character data is kept twice: as text in the tree, which has U+FFFD for an unpaired
surrogate, and exactly in a side table when the two differ. `ExactTidy` says that the table has no
other entries.
-/

namespace TinyBrowser.Dom
open Lib Blitz

/-! ### DOM strings -/

/-- The units of the UTF-8 form, which has U+FFFD for each unpaired surrogate. -/
def toStringLossy (u : Units) : Units := Utf16.encode (Utf16.decodeLossy u)

@[simp] theorem length_toStringLossy (u : Units) : (toStringLossy u).length = u.length :=
  Utf16.length_encode_decodeLossy u

def hasUnpairedSurrogate (u : Units) : Bool := toStringLossy u != u

/-! ### The document and its side tables -/

/-- One recorded mutation of the tree, in the shape observers get it. -/
inductive JournalEntry where
  | childList (target : NodeId) (added removed : List NodeId) (previous next : Option NodeId)
  | characterData (target : NodeId) (oldValue : Units)
deriving DecidableEq

structure SideTables where
  /-- Mutations since the last observer drain, in operation order. -/
  journal : List (UInt64 × JournalEntry)
  nextJournalPosition : UInt64
  /-- Whether any observer watches this document. -/
  recording : Bool
  ranges : RangeTable
  /-- Character data that contains an unpaired surrogate. -/
  exactText : Dict NodeId Units

structure Parsed (Base : Type) where
  base : Base
  side : SideTables

section
variable {Base : Type} [Blitz Base]

namespace Parsed

omit [Blitz Base]

def withBase (parsed : Parsed Base) (base : Base) : Parsed Base := { parsed with base }

def withRanges (parsed : Parsed Base) (ranges : RangeTable) : Parsed Base :=
  { parsed with side := { parsed.side with ranges } }

/-- Records `entry` when an observer watches this document. -/
def record (parsed : Parsed Base) (entry : JournalEntry) : Parsed Base :=
  if parsed.side.recording then
    { parsed with side := { parsed.side with
        journal := parsed.side.journal ++ [(parsed.side.nextJournalPosition, entry)]
        nextJournalPosition := parsed.side.nextJournalPosition + 1 } }
  else parsed

/-- The recorded entries, without their positions. -/
def entries (parsed : Parsed Base) : List JournalEntry := parsed.side.journal.map Prod.snd

variable (parsed : Parsed Base)

@[simp] theorem base_withBase (base : Base) : (parsed.withBase base).base = base := rfl

@[simp] theorem base_withRanges (t : RangeTable) : (parsed.withRanges t).base = parsed.base := rfl

@[simp] theorem base_record (e : JournalEntry) : (parsed.record e).base = parsed.base := by
  rw [record]
  split <;> rfl

@[simp] theorem ranges_withBase (base : Base) :
    (parsed.withBase base).side.ranges = parsed.side.ranges := rfl

@[simp] theorem ranges_withRanges (t : RangeTable) : (parsed.withRanges t).side.ranges = t := rfl

@[simp] theorem ranges_record (e : JournalEntry) :
    (parsed.record e).side.ranges = parsed.side.ranges := by
  rw [record]
  split <;> rfl

@[simp] theorem exactText_withBase (base : Base) :
    (parsed.withBase base).side.exactText = parsed.side.exactText := rfl

@[simp] theorem exactText_withRanges (t : RangeTable) :
    (parsed.withRanges t).side.exactText = parsed.side.exactText := rfl

@[simp] theorem exactText_record (e : JournalEntry) :
    (parsed.record e).side.exactText = parsed.side.exactText := by
  rw [record]
  split <;> rfl

@[simp] theorem recording_withBase (base : Base) :
    (parsed.withBase base).side.recording = parsed.side.recording := rfl

@[simp] theorem recording_withRanges (t : RangeTable) :
    (parsed.withRanges t).side.recording = parsed.side.recording := rfl

@[simp] theorem recording_record (e : JournalEntry) :
    (parsed.record e).side.recording = parsed.side.recording := by
  rw [record]
  split
  · rename_i h
    rw [h]
  · rfl

@[simp] theorem entries_withBase (base : Base) : (parsed.withBase base).entries = parsed.entries :=
  rfl

@[simp] theorem entries_withRanges (t : RangeTable) :
    (parsed.withRanges t).entries = parsed.entries := rfl

theorem entries_record (h : parsed.side.recording = true) (e : JournalEntry) :
    (parsed.record e).entries = parsed.entries ++ [e] := by
  rw [record, if_pos h]
  simp [entries]

@[simp] theorem withRanges_self : parsed.withRanges parsed.side.ranges = parsed := rfl

theorem withRanges_record (e : JournalEntry) (t : RangeTable) :
    (parsed.record e).withRanges t = (parsed.withRanges t).record e := by
  rw [record, record]
  split
  · rename_i h
    rw [if_pos (by exact h)]
    rfl
  · rename_i h
    rw [if_neg (by exact h)]

theorem withBase_withRanges (base : Base) (t : RangeTable) :
    (parsed.withRanges t).withBase base = (parsed.withBase base).withRanges t := rfl

theorem withBase_record (e : JournalEntry) (base : Base) :
    (parsed.record e).withBase base = (parsed.withBase base).record e := by
  rw [record, record]
  split
  · rename_i h
    rw [if_pos (by exact h)]
    rfl
  · rename_i h
    rw [if_neg (by exact h)]

end Parsed

/-- Whether `id` is a `DocumentFragment`: a fragment node or a shadow root. -/
def isFragment (base : Base) (id : NodeId) : Bool :=
  match data base id with
  | some (.fragment _) | some (.shadowRoot _) => true
  | _ => false

/-- The character data of `id`: the exact units when they are kept, else what the tree holds. -/
def characterData (parsed : Parsed Base) (id : NodeId) : Units :=
  match parsed.side.exactText.get? id with
  | some exact => exact
  | none => match data parsed.base id with
    | some (.text content) => content
    | some (.comment contents) | some (.processingInstruction contents)
    | some (.cdataSection contents) => contents
    | _ => []

/-- Keeps `units` when it contains an unpaired surrogate. -/
def rememberCharacterData (parsed : Parsed Base) (id : NodeId) (units : Units) : Parsed Base :=
  { parsed with side := { parsed.side with
      exactText := if hasUnpairedSurrogate units then parsed.side.exactText.insert id units
        else parsed.side.exactText.erase id } }

/-- Creates a text node whose data is `units`. -/
def createText (parsed : Parsed Base) (units : Units) : Parsed Base × NodeId :=
  let (base, id) := createTextNode parsed.base (toStringLossy units)
  (rememberCharacterData (parsed.withBase base) id units, id)

end

/-! ### Lossy text -/

/-- What a Rust string holds stays as it is. -/
@[simp] theorem toStringLossy_toStringLossy (u : Units) :
    toStringLossy (toStringLossy u) = toStringLossy u :=
  congrArg Utf16.encode (Utf16.decodeLossy_encode (Utf16.decodeLossy u))

/-- A text without unpaired surrogates ends where a character ends. -/
theorem toStringLossy_append {a : Units} (ha : toStringLossy a = a) (b : Units) :
    toStringLossy (a ++ b) = a ++ toStringLossy b := by
  have hsplit := Utf16.decodeLossy_encode_append (Utf16.decodeLossy a) b
  have hencode : Utf16.encode (Utf16.decodeLossy a) = a := ha
  rw [hencode] at hsplit
  rw [toStringLossy, hsplit, Utf16.encode_append, hencode, toStringLossy]

theorem hasUnpairedSurrogate_eq_false {u : Units} :
    hasUnpairedSurrogate u = false ↔ toStringLossy u = u := by
  rw [hasUnpairedSurrogate, bne_eq_false_iff_eq]

theorem get?_rememberCharacterData {Base : Type} (parsed : Parsed Base) (id : NodeId) (u : Units)
    (n : NodeId) : (rememberCharacterData parsed id u).side.exactText.get? n =
      if n = id then (if hasUnpairedSurrogate u then some u else none)
      else parsed.side.exactText.get? n := by
  rw [rememberCharacterData]
  cases hasUnpairedSurrogate u <;> simp

/-! ### The two copies -/

section
variable {Base : Type} [Blitz Base]

/-- The text that the tree holds for a node with character data. -/
def charactersOf (base : Base) (id : NodeId) : Option Units :=
  match data base id with
  | some (.text content) => some content
  | some (.comment contents) | some (.processingInstruction contents)
  | some (.cdataSection contents) => some contents
  | _ => none

theorem characterData_eq (parsed : Parsed Base) (id : NodeId) :
    characterData parsed id =
      (parsed.side.exactText.get? id).getD ((charactersOf parsed.base id).getD []) := by
  rw [characterData, charactersOf]
  cases parsed.side.exactText.get? id with
  | some exact => rfl
  | none =>
    cases data parsed.base id with
    | none => rfl
    | some d => cases d <;> rfl

/-- Exact units are kept for character data that needs them. -/
def ExactTidy (parsed : Parsed Base) : Prop :=
  ∀ n u, parsed.side.exactText.get? n = some u →
    (charactersOf parsed.base n).isSome ∧ hasUnpairedSurrogate u = true

end

end TinyBrowser.Dom
