import Mathlib.Data.List.Dedup
import Mathlib.Data.List.Sort
import TinyBrowser.Crates
import TinyBrowser.Lib.Dict
import TinyBrowser.Protocol

/-!
# The joint session history of a tab

`SessionHistory` keeps the entries of every frame in creation order, each frame's own list of entry
ids in traversal order, and the names of the document states. Identities, documents and steps are
`u64` counters that saturate.
-/

namespace TinyBrowser
open Lib

abbrev EntryId := Nat

inductive HistoryStep where
  | delta (d : Int)
  | entry (id : EntryId)
deriving DecidableEq, Repr

inductive Commit where
  | push (url : Url) (name : Option ContextName)
  | traverse (entry : EntryId) (url : Url)
deriving DecidableEq

structure HistoryEntry where
  id : EntryId
  url : Url
  title : Text
deriving DecidableEq, Repr

structure HistorySnapshot where
  entries : List HistoryEntry
  currentIndex : Nat
deriving DecidableEq, Repr

structure Entry where
  id : EntryId
  step : Nat
  localIndex : Nat
  url : Url
  title : Text
  state : Option Text
  document : Nat
deriving DecidableEq, Repr

inductive PendingChange where
  | push (name : Option ContextName)
  | replace (entry : EntryId) (name : Option ContextName)
deriving DecidableEq

structure SessionHistory where
  entries : List Entry
  frames : Dict FrameId (List EntryId)
  pending : Dict FrameId PendingChange
  currentStep : Nat
  nextDocument : Nat
  nextEntry : Nat
  names : Dict Nat ContextName
deriving DecidableEq

namespace SessionHistory

def new (blank : Url) (name : Option ContextName) : SessionHistory where
  entries := [⟨0, 0, 0, blank, [], none, 0⟩]
  frames := Dict.singleton FrameId.main [0]
  pending := Dict.empty
  currentStep := 0
  nextDocument := 1
  nextEntry := 1
  names := match name with
    | some name => Dict.singleton 0 name
    | none => Dict.empty

variable (h : SessionHistory)

/-! ### Lookups -/

def locate (entry : EntryId) : Option Entry := h.entries.find? (·.id = entry)

def frameLen (frame : FrameId) : Nat := match h.frames.get? frame with
  | some ids => ids.length
  | none => 0

def frameIdAt (frame : FrameId) (localIndex : Nat) : Option EntryId :=
  (h.frames.get? frame).bind (·[localIndex]?)

/-- The frame whose entry list holds `entry`. -/
def frameOf (entry : EntryId) : Option FrameId :=
  (h.frames.pairs.find? fun x => entry ∈ x.2).map Prod.fst

def framePosition (frame : FrameId) (entry : EntryId) : Option Nat :=
  (h.frames.get? frame).bind (·.findIdx? (· = entry))

/-- The greatest entry of `frame` at or before `atStep`, else its first one. -/
def activeEntryAt (frame : FrameId) (atStep : Nat) : Option EntryId :=
  (h.frames.get? frame).bind fun ids =>
    (ids.reverse.find? fun id => (h.locate id).any (·.step ≤ atStep)).or ids.head?

def activeEntry (frame : FrameId) : Option EntryId := h.activeEntryAt frame h.currentStep

def usedSteps : List Nat := ((h.entries.map Entry.step).insertionSort (· ≤ ·)).dedup

/-- The position of the last used step at or before the current one. -/
def currentStepIndex (steps : List Nat) : Nat :=
  match steps.reverse.findIdx? (· ≤ h.currentStep) with
  | some i => steps.length - 1 - i
  | none => 0

def entryUrl (entry : EntryId) : Option Url := (h.locate entry).map Entry.url

def localIndex (entry : EntryId) : Option Nat := (h.locate entry).map Entry.localIndex

def name (entry : EntryId) : Option ContextName :=
  (h.locate entry).bind fun e => h.names.get? e.document

def sameDocument (left right : EntryId) : Bool :=
  match h.locate left, h.locate right with
  | some left, some right => left.document = right.document
  | _, _ => false

/-- The main frame's active entry. -/
def currentEntry : EntryId := (h.activeEntry FrameId.main).getD 0

def targetStep (step : HistoryStep) : Option Nat :=
  match step with
  | .entry entry => (h.locate entry).map Entry.step
  | .delta delta =>
    let steps := h.usedSteps
    let target : Int := h.currentStepIndex steps + delta
    if target < 0 then none else steps[target.toNat]?

/-! ### Projections -/

def snapshot : HistorySnapshot where
  entries := (((h.frames.get? FrameId.main).getD []).filterMap h.locate).map fun e =>
    ⟨e.id, e.url, e.title⟩
  currentIndex := match (h.activeEntry FrameId.main).bind h.locate with
    | some e => e.localIndex
    | none => 0

def rendererSnapshotFor (frame : FrameId) : Option RendererHistorySnapshot :=
  (h.frames.get? frame).map fun _ =>
    let active := h.activeEntry frame
    let steps := h.usedSteps
    { length := steps.length
      index := h.currentStepIndex steps
      localLength := h.frameLen frame
      localIndex := (active.bind (h.framePosition frame)).getD 0
      state := (active.bind h.locate).bind Entry.state }

def rendererSnapshotForEntry (entry : EntryId) : Option RendererHistorySnapshot := do
  let found ← h.locate entry
  let frame ← h.frameOf entry
  let steps := h.usedSteps
  let index ← steps.findIdx? (· = found.step)
  return {
    length := steps.length
    index := index
    localLength := h.frameLen frame
    localIndex := (h.framePosition frame entry).getD found.localIndex
    state := found.state }

def rendererSnapshot : RendererHistorySnapshot :=
  let steps := h.usedSteps
  let entry := h.activeEntry FrameId.main
  { length := steps.length
    index := h.currentStepIndex steps
    localLength := h.frameLen FrameId.main
    localIndex := (entry.bind (h.framePosition FrameId.main)).getD 0
    state := (entry.bind h.locate).bind Entry.state }

/-! ### Primitive changes -/

/-- Rewrites the entry with the given id, if there is one. -/
def modifyEntry (id : EntryId) (f : Entry → Entry) : SessionHistory :=
  { h with entries := h.entries.modify (h.entries.findIdx (·.id = id)) f }

/-- Drops the names of those `documents` that no entry presents. -/
def dropNames (documents : List Nat) : SessionHistory :=
  let drop := fun (names : Dict Nat ContextName) d =>
    if h.entries.any (·.document = d) then names else names.erase d
  { h with names := documents.foldl drop h.names }

def insertName (document : Nat) : Option ContextName → SessionHistory
  | some name => { h with names := h.names.insert document name }
  | none => h

/-- Drops the entries after the active one, in every frame. -/
def truncateForward : SessionHistory :=
  let removed := (h.entries.filter fun e => h.currentStep < e.step).map Entry.document
  let entries := h.entries.filter fun e => e.step ≤ h.currentStep
  let live := entries.map Entry.id
  let frames := h.frames.mapVal fun ids => ids.filter (· ∈ live)
  { h with entries, frames }.dropNames removed

def clampCurrentStep : SessionHistory :=
  match ((h.entries.filter fun e => e.step ≤ h.currentStep).map Entry.step).max? with
  | some step => { h with currentStep := step }
  | none => { h with currentStep := 0 }

/-- `Vec::insert` at `i`, or `push` when `i` is past the end. -/
def insertAt (ids : List EntryId) (i : Nat) (id : EntryId) : List EntryId :=
  if i < ids.length then ids.insertIdx i id else ids ++ [id]

/-- Adds an entry under the next id; `document` is the one taken for it. -/
def pushEntry (frame : FrameId) (entry : Entry) : SessionHistory :=
  { h with
    entries := h.entries ++ [entry]
    frames := h.frames.insert frame
      (insertAt ((h.frames.get? frame).getD []) entry.localIndex entry.id)
    nextEntry := saturatingSucc h.nextEntry }

def takeDocument : Nat × SessionHistory :=
  (h.nextDocument, { h with nextDocument := saturatingSucc h.nextDocument })

def insertEntry (frame : FrameId) (step localIndex : Nat) (url : Url) (name : Option ContextName)
    (state : Option Text) : EntryId × SessionHistory :=
  let (document, h) := h.takeDocument
  let h := h.insertName document name
  (h.nextEntry, h.pushEntry frame ⟨h.nextEntry, step, localIndex, url, [], state, document⟩)

def replaceEntry (id : EntryId) (url : Url) (name : Option ContextName) : SessionHistory :=
  match h.locate id with
  | none => h
  | some old =>
    let (document, h) := h.takeDocument
    let h := h.modifyEntry id fun e => { e with url, title := [], state := none, document }
    (h.insertName document name).dropNames [old.document]

/-- Truncates the forward branch and inserts an entry at the step after the current one. -/
def pushStep (frame : FrameId) (localIndex : SessionHistory → Nat) (url : Url)
    (name : Option ContextName) (state : Option Text) : EntryId × SessionHistory :=
  let h := h.truncateForward
  let step := saturatingSucc h.currentStep
  let (id, h) := h.insertEntry frame step (localIndex h) url name state
  (id, { h with currentStep := step })

/-! ### Operations -/

def setTitle (frame : FrameId) (title : Text) : SessionHistory :=
  match h.activeEntry frame with
  | none => h
  | some id => h.modifyEntry id fun e => { e with title }

def addFrame (frame : FrameId) (url : Url) (name : Option ContextName) : SessionHistory :=
  if frame = FrameId.main || h.frames.contains frame then h
  else (h.insertEntry frame h.currentStep 0 url name none).2

/-- The entry a replacement at `localIndex` names: the frame's entry there, else its active one. -/
def replaceTarget (frame : FrameId) (localIndex : Nat) (current : EntryId) : Option EntryId :=
  if localIndex < h.frameLen frame then h.frameIdAt frame localIndex else some current

def begin (frame : FrameId) (url : Url) (replace : Bool) (localIndex : Nat)
    (name : Option ContextName) (pending : Bool) : Option EntryId × SessionHistory :=
  if frame = FrameId.main then (none, h)
  else
    let h := if h.frames.contains frame then h else h.addFrame frame url none
    let current := h.activeEntry frame
    if pending then
      let change := if replace then
          (current.bind (h.replaceTarget frame localIndex)).map (PendingChange.replace · name)
        else some (.push name)
      match change with
      | none => (none, h)
      | some change => (current, { h with pending := h.pending.insert frame change })
    else
      let h := { h with pending := h.pending.erase frame }
      match replace, current with
      | true, some current => match h.replaceTarget frame localIndex current with
        | none => (none, h)
        | some target => (some target, h.replaceEntry target url name)
      | _, _ =>
        let (id, h) := h.pushStep frame (fun _ => localIndex) url name none
        (some id, h)

def commitUrl (frame : FrameId) (url : Url) : SessionHistory :=
  match h.pending.get? frame with
  | some change =>
    let h := { h with pending := h.pending.erase frame }
    match change with
    | .push name => (h.pushStep frame (·.frameLen frame) url name none).2
    | .replace entry name => h.replaceEntry entry url name
  | none => match h.activeEntry frame with
    | none => h
    | some id => h.modifyEntry id fun e => { e with url }

def discardPending (frame : FrameId) : SessionHistory := { h with pending := h.pending.erase frame }

def syncCurrentName (name : Option ContextName) : SessionHistory :=
  match (h.activeEntry FrameId.main).bind h.locate with
  | none => h
  | some e => match name with
    | some name => { h with names := h.names.insert e.document name }
    | none => { h with names := h.names.erase e.document }

def update (frame : FrameId) (url : Url) (state : Text) (handling : HistoryHandling) :
    SessionHistory :=
  match h.activeEntry frame with
  | none => h
  | some active => match handling with
    | .replace => h.modifyEntry active fun e => { e with url, state := some state }
    | .push => match h.locate active with
      | none => h
      | some e =>
        let (id, h) := h.pushStep frame (·.frameLen frame) url none (some state)
        h.modifyEntry id fun e' => { e' with document := e.document, title := e.title }

def commit (commit : Commit) : Bool × SessionHistory :=
  match commit with
  | .traverse entry url => match h.locate entry with
    | none => (false, h)
    | some old =>
      let (next, h) := h.takeDocument
      let name := h.names.get? old.document
      let h := h.modifyEntry entry fun e => { e with url, document := next }
      let h := (h.insertName next name).dropNames [old.document]
      (true, { h with currentStep := old.step })
  | .push url name =>
    (true, (h.pushStep FrameId.main (·.frameLen FrameId.main) url name none).2)

def setCurrentStep (step : Nat) : SessionHistory := { h with currentStep := step }

def traverseSameDocument (entry : EntryId) : Bool × SessionHistory :=
  match h.locate entry with
  | none => (false, h)
  | some target => (true, { h with currentStep := target.step })

def removeFrame (frame : FrameId) : SessionHistory :=
  if frame = FrameId.main then h
  else match h.frames.get? frame with
    | none => h
    | some ids =>
      let documents := ids.filterMap fun id => (h.locate id).map Entry.document
      let h := { h with frames := h.frames.erase frame, pending := h.pending.erase frame }
      let h := { h with entries := h.entries.filter fun e => e.id ∉ ids }
      (h.dropNames documents).clampCurrentStep

def clearChildren : SessionHistory :=
  (h.frames.keys.filter (· ≠ FrameId.main)).foldl removeFrame h

end SessionHistory

end TinyBrowser
