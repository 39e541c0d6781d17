import TinyBrowser.Protocol

/-!
# Sandboxing flag sets

A set is a word with one bit per flag. An attribute value starts from the full set and clears the
flags its keywords name; sets combine by union. `a ⊆ b` compares flags, not words.
-/

namespace TinyBrowser
open Lib

inductive SandboxFlag where
  | navigation
  | auxiliaryNavigation
  | topLevelNavigationWithoutUserActivation
  | topLevelNavigationWithUserActivation
  | origin
  | forms
  | pointerLock
  | scripts
  | automaticFeatures
  | documentDomain
  | propagatesToAuxiliary
  | modals
  | orientationLock
  | presentation
  | downloads
  | customProtocolsNavigation
deriving DecidableEq, Repr

namespace SandboxFlag

/-- Every flag, in bit order. -/
def all : List SandboxFlag :=
  [navigation, auxiliaryNavigation, topLevelNavigationWithoutUserActivation,
    topLevelNavigationWithUserActivation, origin, forms, pointerLock, scripts, automaticFeatures,
    documentDomain, propagatesToAuxiliary, modals, orientationLock, presentation, downloads,
    customProtocolsNavigation]

def bit (flag : SandboxFlag) : BitVec 32 := 1#32 <<< flag.ctorIdx

theorem mem_all (flag : SandboxFlag) : flag ∈ all := by cases flag <;> decide

end SandboxFlag

structure SandboxFlags where
  word : BitVec 32
deriving DecidableEq, Repr

namespace SandboxFlags

def bits (flags : List SandboxFlag) : BitVec 32 := flags.foldl (fun bits flag => bits ||| flag.bit) 0

/-- Every flag: the set of a bare `sandbox` attribute. -/
def all : SandboxFlags := ⟨bits SandboxFlag.all⟩

def empty : SandboxFlags := ⟨0⟩

/-- The keywords of the attribute and the flags each one clears. -/
def tokens : List (Text × List SandboxFlag) :=
  [("allow-popups".toList, [.auxiliaryNavigation, .customProtocolsNavigation]),
    ("allow-top-navigation".toList,
      [.topLevelNavigationWithoutUserActivation, .topLevelNavigationWithUserActivation,
        .customProtocolsNavigation]),
    ("allow-top-navigation-by-user-activation".toList, [.topLevelNavigationWithUserActivation]),
    ("allow-same-origin".toList, [.origin]),
    ("allow-forms".toList, [.forms]),
    ("allow-pointer-lock".toList, [.pointerLock]),
    ("allow-scripts".toList, [.scripts, .automaticFeatures]),
    ("allow-popups-to-escape-sandbox".toList, [.propagatesToAuxiliary]),
    ("allow-modals".toList, [.modals]),
    ("allow-orientation-lock".toList, [.orientationLock]),
    ("allow-presentation".toList, [.presentation]),
    ("allow-downloads".toList, [.downloads]),
    ("allow-top-navigation-to-custom-protocols".toList, [.customProtocolsNavigation])]

def clear (s : SandboxFlags) (flag : SandboxFlag) : SandboxFlags := ⟨s.word &&& ~~~flag.bit⟩

/-- The flags of one attribute value; no attribute is the empty set. -/
def parse : Option Text → SandboxFlags
  | none => empty
  | some value => (Text.splitAsciiWhitespace value).foldl (fun flags token =>
      match tokens.find? fun x => Text.eqIgnoreAsciiCase x.1 token with
      | some (_, cleared) => cleared.foldl clear flags
      | none => flags) all

variable (s t : SandboxFlags) (flag : SandboxFlag)

def contains : Bool := s.word &&& flag.bit != 0

def union : SandboxFlags := ⟨s.word ||| t.word⟩

def propagatesToAuxiliary : Bool := s.contains .propagatesToAuxiliary

def originIsOpaque : Bool := s.contains .origin

/-- The flags an auxiliary context inherits. -/
def auxiliaryFlags : SandboxFlags := if s.propagatesToAuxiliary then s else empty

instance : HasSubset SandboxFlags := ⟨fun s t => ∀ flag, s.contains flag → t.contains flag⟩

instance : Decidable (s ⊆ t) :=
  decidable_of_iff (∀ flag ∈ SandboxFlag.all, s.contains flag → t.contains flag)
    ⟨fun h flag => h flag flag.mem_all, fun h flag _ => h flag⟩

theorem contains_eq : s.contains flag = s.word.getLsbD flag.ctorIdx := by
  have hlt : flag.ctorIdx < 32 := by cases flag <;> decide
  have hbit : flag.bit = BitVec.twoPow 32 flag.ctorIdx := rfl
  rw [contains, hbit, BitVec.and_twoPow]
  cases hb : s.word.getLsbD flag.ctorIdx with
  | false => rfl
  | true =>
    have hne : BitVec.twoPow 32 flag.ctorIdx ≠ 0#32 := by cases flag <;> decide
    simpa using hne

@[simp] theorem contains_union :
    (s.union t).contains flag = (s.contains flag || t.contains flag) := by
  simp only [contains_eq, union, BitVec.getLsbD_or]

variable {s t} {u : SandboxFlags}

theorem subset_refl (s : SandboxFlags) : s ⊆ s := fun _ h => h

theorem subset_trans (hst : s ⊆ t) (htu : t ⊆ u) : s ⊆ u := fun flag h => htu flag (hst flag h)

theorem subset_union_left (s t : SandboxFlags) : s ⊆ s.union t := fun flag h => by simp [h]

theorem subset_union_right (s t : SandboxFlags) : t ⊆ s.union t := fun flag h => by simp [h]

theorem union_subset (hs : s ⊆ u) (ht : t ⊆ u) : s.union t ⊆ u := by
  intro flag h
  rw [contains_union, Bool.or_eq_true] at h
  rcases h with h | h
  · exact hs flag h
  · exact ht flag h

end SandboxFlags

end TinyBrowser
