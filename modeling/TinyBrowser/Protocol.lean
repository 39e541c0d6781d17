import Mathlib.Algebra.Group.Int.Defs
import TinyBrowser.Lib.Text

/-!
# Values of the renderer protocol

The identities and small enumerations that the browser process and a renderer exchange.
-/

namespace TinyBrowser
open Lib

abbrev FrameId := Nat

/-- The tab's main frame, present in every renderer. -/
def FrameId.main : FrameId := 0

def u64Max : Nat := 2 ^ 64 - 1

/-- `saturating_add(1)` on a `u64`. -/
def saturatingSucc (n : Nat) : Nat := if n < u64Max then n + 1 else n

theorem saturatingSucc_eq {n : Nat} (h : saturatingSucc n < u64Max) : saturatingSucc n = n + 1 := by
  unfold saturatingSucc at *
  split_ifs at * with hn
  · rfl
  · exact absurd h hn

theorem lt_of_saturatingSucc_lt {n : Nat} (h : saturatingSucc n < u64Max) : n < u64Max := by
  have := saturatingSucc_eq h
  omega

theorem le_saturatingSucc (n : Nat) : n ≤ saturatingSucc n := by
  unfold saturatingSucc
  split_ifs <;> omega

theorem saturatingSucc_le (n : Nat) : saturatingSucc n ≤ n + 1 := by
  unfold saturatingSucc
  split_ifs <;> omega

def isTargetKeyword (raw : Text) : Bool :=
  Text.eqIgnoreAsciiCase raw "_self".toList || Text.eqIgnoreAsciiCase raw "_parent".toList ||
    Text.eqIgnoreAsciiCase raw "_top".toList || Text.eqIgnoreAsciiCase raw "_blank".toList

/-- A browsing-context name: neither empty nor the spelling of a keyword. -/
structure ContextName where
  text : Text
  nonempty : text ≠ []
  notKeyword : isTargetKeyword text = false
deriving DecidableEq

inductive HistoryHandling where
  | push
  | replace
deriving DecidableEq, Repr

/-- What a frame mirrors of the joint session history. -/
structure RendererHistorySnapshot where
  length : Nat
  index : Nat
  localLength : Nat
  localIndex : Nat
  state : Option Text
deriving DecidableEq, Repr

end TinyBrowser
