import TinyBrowser.History.Live

/-!
# The replay store of a child frame

The engine keeps for each child frame what cannot cross to the browser: the payload with which an
entry of the frame is installed again, under the entry's position in the frame's own list.
`ReplayOp.step` makes one change in the store and the matching one in the browser's history, and
then delivers the history's snapshot; `recorded` says which payload belongs to each entry.
-/

namespace TinyBrowser
open Lib

variable {Nav Doc : Type}

/-- What an entry is installed from: the navigation that produced it, and the saved state of a local
document. -/
structure FrameHistoryEntry (Nav Doc : Type) where
  navigation : Option Nav
  state : Option Doc
deriving DecidableEq

def FrameHistoryEntry.default : FrameHistoryEntry Nav Doc := ⟨none, none⟩

/-- A navigation that has not committed; `replace` is the position it replaces, if it does. -/
structure PendingEntry (Nav Doc : Type) where
  entry : FrameHistoryEntry Nav Doc
  replace : Option Nat
deriving DecidableEq

structure FrameHistory (Nav Doc : Type) where
  entries : List (FrameHistoryEntry Nav Doc)
  index : Nat
  pending : Option (PendingEntry Nav Doc)
deriving DecidableEq

namespace FrameHistory
variable (s : FrameHistory Nav Doc) (entry : FrameHistoryEntry Nav Doc)

def empty : FrameHistory Nav Doc := ⟨[], 0, none⟩

/-- Adds an entry after the active one. -/
def push : FrameHistory Nav Doc :=
  let entries := s.entries.take (s.index + 1) ++ [entry]
  { s with entries, index := entries.length - 1 }

/-- Replaces the active entry. -/
def replace : FrameHistory Nav Doc :=
  if s.index < s.entries.length then { s with entries := s.entries.set s.index entry }
  else s.push entry

def stage (replace : Bool) : FrameHistory Nav Doc :=
  { s with pending := some ⟨entry, if replace then some s.index else none⟩ }

def commitPending : FrameHistory Nav Doc :=
  match s.pending with
  | none => s
  | some pending =>
    let s := { s with pending := none }
    match pending.replace with
    | some index =>
      if index < s.entries.length then { s with entries := s.entries.set index pending.entry }
      else s.push pending.entry
    | none => s.push pending.entry

def discardPending : FrameHistory Nav Doc := { s with pending := none }

def pushSameDocument : FrameHistory Nav Doc := s.push .default

/-- `record_frame_history` of a navigation to `url`, for an engine with a browser behind it: an HTTP
load is staged. Gives the local position it reports and whether the navigation is pending. -/
def recordNavigation (replace : Bool) (url : Url) : FrameHistory Nav Doc × Nat × Bool :=
  if url.scheme = "http".toList ∨ url.scheme = "https".toList then
    let s := s.stage entry replace
    (s, s.index, true)
  else
    let s := s.discardPending
    let s := if replace then s.replace entry else s.push entry
    (s, s.index, false)

/-- `set_frame_history`, as far as it is about the store. -/
def setFrameHistory (history : RendererHistorySnapshot) : FrameHistory Nav Doc :=
  let entries := if history.localLength < s.entries.length then
    s.entries.take history.localLength else s.entries
  { s with entries, index := if entries.isEmpty then 0
                             else min history.localIndex (entries.length - 1) }

end FrameHistory

/-- A frame's replay store in the renderer, and the tab's history in the browser. -/
structure Mirrored (Nav Doc : Type) where
  store : FrameHistory Nav Doc
  history : SessionHistory
  /-- The payload of the navigation that created the entry, or replaced it last. -/
  recorded : EntryId → FrameHistoryEntry Nav Doc

/-- A change of one child frame, or of the other frames. -/
inductive ReplayOp (Nav Doc : Type) where
  | record (entry : FrameHistoryEntry Nav Doc) (replace : Bool) (url : Url)
  | commit (url : Url)
  | discard
  | pushSameDocument (url : Url) (state : Text)
  | other (op : HistoryOp)

/-- The operation is not one of the frame `f`. -/
def HistoryOp.spares (f : FrameId) : HistoryOp → Bool
  | .addFrame frame .. | .begin frame .. | .commitUrl frame _ | .discardPending frame
  | .update frame .. | .removeFrame frame => frame ≠ f
  | .clearChildren => false
  | .commit _ | .syncCurrentName _ | .setTitle .. | .traverseSameDocument _ | .setCurrentStep _ =>
    true

namespace Mirrored
variable (f : FrameId) (s : Mirrored Nav Doc)

/-- The payload `entry` is of the entry `id` from now on. -/
def note (id : Option EntryId) (entry : FrameHistoryEntry Nav Doc) : Mirrored Nav Doc :=
  match id with
  | some id => { s with recorded := Function.update s.recorded id entry }
  | none => s

/-- Delivers the history's snapshot for the frame to the store. -/
def deliver : Mirrored Nav Doc :=
  match s.history.rendererSnapshotFor f with
  | some snapshot => { s with store := s.store.setFrameHistory snapshot }
  | none => s

/-- The entry that a commit in the frame creates or replaces. -/
def committedEntry : Option EntryId :=
  match s.history.pending.get? f with
  | some (.push _) => some s.history.nextEntry
  | some (.replace entry _) => some entry
  | none => none

end Mirrored

namespace ReplayOp
variable (f : FrameId)

/-- The change, in the store and in the history. -/
def apply (s : Mirrored Nav Doc) : ReplayOp Nav Doc → Mirrored Nav Doc
  | record entry replace url =>
    let (store, localIndex, pending) := s.store.recordNavigation entry replace url
    let (id, history) := s.history.begin f url replace localIndex none pending
    let s := { s with store, history }
    if pending then s else s.note id entry
  | commit url =>
    let id := s.committedEntry f
    let staged := s.store.pending
    let s := { s with store := s.store.commitPending, history := s.history.commitUrl f url }
    match staged with
    | some staged => s.note id staged.entry
    | none => s
  | discard =>
    { s with store := s.store.discardPending, history := s.history.discardPending f }
  | pushSameDocument url state =>
    let id := (s.history.activeEntry f).map fun _ => s.history.nextEntry
    let s := { s with store := s.store.pushSameDocument
                      history := s.history.update f url state .push }
    s.note id .default
  | other op => { s with history := s.history.apply op }

/-- One change and the delivery that follows it. -/
def step (s : Mirrored Nav Doc) (op : ReplayOp Nav Doc) : Option (Mirrored Nav Doc) :=
  match op with
  | other op => if op.spares f then some (((other op).apply f s).deliver f) else none
  | op => some ((op.apply f s).deliver f)

end ReplayOp

namespace Mirrored
variable (f : FrameId)

/-- The frame as it is created: `seed_frame_history` and `add_frame`. -/
def seeded (history : SessionHistory) (url : Url) (name : Option ContextName) :
    Mirrored Nav Doc :=
  deliver f ⟨FrameHistory.empty.push .default, history.addFrame f url name, fun _ => .default⟩

/-- The store follows the list: as long, at the same position, with each entry's own payload. -/
structure Aligned (s : Mirrored Nav Doc) : Prop where
  mirror : ∃ snapshot, s.history.rendererSnapshotFor f = some snapshot ∧
    s.store.entries.length = snapshot.localLength ∧ s.store.index = snapshot.localIndex
  payload : ∀ i, s.store.entries[i]? = (s.history.frameIdAt f i).map s.recorded

end Mirrored

end TinyBrowser
