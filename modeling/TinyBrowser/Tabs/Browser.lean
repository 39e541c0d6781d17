import TinyBrowser.Lib.Machine
import TinyBrowser.Tabs.Registry

/-!
# The browser task

`BrowserTask` creates and closes the tabs. An operation of it enters the tab table several times;
between two of its critical sections the coordinators and the renderer service tasks enter it too.
`step` takes one critical section, of the browser task or of another one, so a run is an
interleaving of the two.
-/

namespace TinyBrowser
open Lib

inductive TargetName where
  | current
  | parent
  | top
  | blank
  | named (name : ContextName)
deriving DecidableEq

/-- The name a newly created context carries. -/
def TargetName.newContextName : TargetName → Option ContextName
  | .named name => some name
  | .current | .parent | .top | .blank => none

inductive OpenerPolicy where
  | keep
  | noOpener
  | noReferrer
deriving DecidableEq

structure NewTab where
  name : Option ContextName
  opener : Option TabId
  openerFrame : Option FrameId
  popupSandbox : SandboxFlags
deriving DecidableEq

/-- A tab the browser created itself. -/
def NewTab.browserCreated : NewTab := ⟨none, none, none, .empty⟩

structure OpenWindowOptions where
  target : TargetName
  source : Option TabId
  sourceFrame : FrameId
  opener : OpenerPolicy
  popupSandbox : SandboxFlags
deriving DecidableEq

inductive BrowserError where
  | unknownTab
  | tabIdExhausted
deriving DecidableEq

/-- The critical sections of the browser task. -/
inductive Section where
  | insertName (id : TabId) (name : Option ContextName)
  | setSandbox (id : TabId) (sandbox : SandboxFlags)
  | setOpener (id opener : TabId)
  | insert (id : TabId)
  | remove (id : TabId)
  | removeOpener (id : TabId)
  | removeSandbox (id : TabId)
  | drainTabs
  | drainNames
deriving DecidableEq

def TabRegistry.enter (r : TabRegistry) : Section → TabRegistry
  | .insertName id name => r.insertName id name
  | .setSandbox id sandbox => r.setSandbox id sandbox
  | .setOpener id opener => r.setOpener id opener
  | .insert id => r.insert id
  | .remove id => r.remove id
  | .removeOpener id => r.removeOpener id
  | .removeSandbox id => r.removeSandbox id
  | .drainTabs => r.drainTabs
  | .drainNames => r.drainNames

/-- The browser task, the table it shares, and the sections its operation has still to enter. -/
structure BrowserTask where
  tabs : TabRegistry
  nextTab : Option Nat
  pending : List Section
deriving DecidableEq

namespace BrowserTask

def new : BrowserTask := ⟨.new, some 1, []⟩

/-- The sections that record a new tab. -/
def creation (id : TabId) (tab : NewTab) : List Section :=
  [.insertName id tab.name, .setSandbox id tab.popupSandbox] ++
    (match tab.opener, tab.openerFrame with
      | some opener, some _ => [.setOpener id opener]
      | _, _ => []) ++ [.insert id]

def createTab (t : BrowserTask) (tab : NewTab) : Except BrowserError TabId × BrowserTask :=
  match t.nextTab with
  | none => (.error .tabIdExhausted, t)
  | some raw =>
    (.ok raw, { t with
      nextTab := if raw < u64Max then some (raw + 1) else none
      pending := creation raw tab })

/-- Only the browser task opens and closes tabs, so the tab is still there when it is removed. -/
def closeTab (t : BrowserTask) (id : TabId) : Except BrowserError Unit × BrowserTask :=
  if id ∈ t.tabs.tabs then
    (.ok (), { t with pending := [.remove id, .removeOpener id, .removeSandbox id] })
  else (.error .unknownTab, t)

def openWindow (t : BrowserTask) (request : OpenWindowOptions) :
    Except BrowserError TabId × BrowserTask :=
  let openerTab := request.source.filter fun _ => request.opener = .keep
  t.createTab ⟨request.target.newContextName, openerTab, openerTab.map fun _ => request.sourceFrame,
    request.popupSandbox⟩

def shutdown (t : BrowserTask) : BrowserTask := { t with pending := [.drainTabs, .drainNames] }

end BrowserTask

inductive BrowserOp where
  | createTab (tab : NewTab)
  | closeTab (id : TabId)
  | openWindow (request : OpenWindowOptions)
  | shutdown
deriving DecidableEq

/-- What the other tasks write to the names. -/
inductive NameOp where
  | rename (id : TabId) (change : NameChange)
  | settleDocumentName (id : TabId) (outgoing name : Option ContextName)
  | installCommit (id : TabId) (name : Option ContextName)
  | restoreCommit (id : TabId) (previous : Option TabNames) (installed : TabNames)
deriving DecidableEq

inductive BrowserStep where
  | begin (op : BrowserOp)
  | advance
  | other (op : NameOp)
deriving DecidableEq

def TabRegistry.applyName (r : TabRegistry) : NameOp → TabRegistry
  | .rename id change => r.rename id change
  | .settleDocumentName id outgoing name => r.settleDocumentName id outgoing name
  | .installCommit id name => (r.installCommit id name).2
  | .restoreCommit id previous installed => r.restoreCommit id previous installed

namespace BrowserTask

def begin (t : BrowserTask) : BrowserOp → BrowserTask
  | .createTab tab => (t.createTab tab).2
  | .closeTab id => (t.closeTab id).2
  | .openWindow request => (t.openWindow request).2
  | .shutdown => t.shutdown

/-- One critical section. The browser task takes up an operation when it has finished the last. -/
def step (t : BrowserTask) : BrowserStep → Option BrowserTask
  | .begin op => if t.pending = [] then some (t.begin op) else none
  | .advance => match t.pending with
    | [] => none
    | c :: pending => some { t with tabs := t.tabs.enter c, pending }
  | .other op => some { t with tabs := t.tabs.applyName op }

/-- The tab is being created: it is not in the table yet. -/
def Creating (t : BrowserTask) (id : TabId) : Prop := .insert id ∈ t.pending

/-- `drain` has emptied the table and not yet cleared the names. -/
def Draining (t : BrowserTask) : Prop := t.pending.head? = some .drainNames

instance (t : BrowserTask) (id : TabId) : Decidable (t.Creating id) :=
  inferInstanceAs (Decidable (.insert id ∈ t.pending))

instance (t : BrowserTask) : Decidable t.Draining :=
  inferInstanceAs (Decidable (t.pending.head? = some .drainNames))

end BrowserTask

end TinyBrowser
