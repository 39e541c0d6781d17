import TinyBrowser.Storage.Local

/-!
# Process locks

Every renderer process is locked to a `Site`: the scheme and registrable domain of its documents,
or one tab's documents that come from no network. The functions here decide what a call from the
process may claim. They read the site off a URL or off an origin, and an opaque lock authorizes no
tuple origin.
-/

namespace TinyBrowser
open Lib

/-- One site instance per scheme and registrable domain, or a tab's own for other documents. -/
inductive Site where
  | tuple (site : Text)
  | opaqueTab (tab : TabId)
deriving DecidableEq, Repr

def Site.forUrl (x : Crates) (url : Url) : Option Site :=
  if url.scheme = "http".toList || url.scheme = "https".toList then (site x url).map .tuple else none

/-- The site a tuple origin names. -/
def siteForOrigin (x : Crates) (origin : Origin) : Option Text :=
  (originSiteTuple x origin).map fun (scheme, domain) => scheme ++ "://".toList ++ domain

namespace Site

def isOpaque : Site → Bool
  | opaqueTab _ => true
  | tuple _ => false

/-- Whether a document URL belongs in a renderer locked to this site. -/
def allowsUrl (x : Crates) (lock : Site) (url : Url) : Bool :=
  match forUrl x url with
  | some site => site = lock
  | none => lock.isOpaque &&
    (url.scheme = "about".toList || url.scheme = "blob".toList || url.scheme = "data".toList)

def authorizeUrl (x : Crates) (lock : Site) (spec : Text) : Option Url :=
  (x.urlParse spec).filter (lock.allowsUrl x)

def allowsOrigin (x : Crates) (lock : Site) (origin : Origin) : Bool :=
  match lock with
  | opaqueTab _ => false
  | tuple locked => (siteForOrigin x origin).any (· = locked)

/-- The tuple origin that a renderer claims, when the lock authorizes it. -/
def authorizeOrigin (x : Crates) (lock : Site) : SerializedOrigin → Option Origin
  | .tuple origin _ => if lock.allowsOrigin x origin then some origin else none
  | .opaqueOrigin => none

/-- `StorageKey::from_origin`. -/
def storageKeyOf (origin : Origin) : Option StorageKey :=
  if h : origin.isTuple = true then some ⟨origin, h⟩ else none

def storageKey (x : Crates) (lock : Site) (claim : SerializedOrigin) : Option StorageKey :=
  (lock.authorizeOrigin x claim).bind storageKeyOf

def allowsMessageOrigin (x : Crates) (lock : Site) : SerializedOrigin → Bool
  | .opaqueOrigin => true
  | .tuple origin _ => lock.allowsOrigin x origin

/-! ### What a lock stands for -/

/-- `origin` is a tuple origin of the locked site. -/
def Holds (x : Crates) (lock : Site) (origin : Origin) : Prop :=
  origin.isTuple = true ∧ ∃ locked, lock = .tuple locked ∧ siteForOrigin x origin = some locked

/-- `url` is a network URL of the locked site, or a local document of an opaque one. -/
def HoldsUrl (x : Crates) (lock : Site) (url : Url) : Prop :=
  (∃ locked, lock = .tuple locked ∧ (url.scheme = "http".toList ∨ url.scheme = "https".toList) ∧
    site x url = some locked) ∨
  ((∃ tab, lock = .opaqueTab tab) ∧
    (url.scheme = "about".toList ∨ url.scheme = "blob".toList ∨ url.scheme = "data".toList))

theorem not_holds_opaque {x : Crates} {tab : TabId} {origin : Origin} :
    ¬ Holds x (.opaqueTab tab) origin := by
  rintro ⟨-, locked, hlock, -⟩
  cases hlock

variable {x : Crates} {lock : Site}

theorem allowsOrigin_iff {origin : Origin} (htuple : origin.isTuple = true) :
    lock.allowsOrigin x origin = true ↔ lock.Holds x origin := by
  cases lock with
  | opaqueTab tab =>
    constructor
    · intro h; cases h
    · exact fun h => absurd h not_holds_opaque
  | tuple locked =>
    simp only [allowsOrigin, Option.any_eq_true, decide_eq_true_eq, Holds, htuple, true_and]
    constructor
    · rintro ⟨site, hsite, rfl⟩
      exact ⟨site, rfl, hsite⟩
    · rintro ⟨site, hlock, hsite⟩
      cases hlock
      exact ⟨locked, hsite, rfl⟩

theorem authorizeOrigin_eq_some {claim : SerializedOrigin} {origin : Origin} :
    lock.authorizeOrigin x claim = some origin ↔
      (∃ h, claim = .tuple origin h) ∧ lock.Holds x origin := by
  cases claim with
  | opaqueOrigin => simp [authorizeOrigin]
  | tuple claimed h =>
    rw [authorizeOrigin]
    split_ifs with hallows
    · constructor
      · intro heq
        cases heq
        exact ⟨⟨h, rfl⟩, (allowsOrigin_iff h).mp hallows⟩
      · rintro ⟨⟨_, hclaim⟩, -⟩
        cases hclaim
        rfl
    · constructor
      · intro heq; cases heq
      · rintro ⟨⟨_, hclaim⟩, hholds⟩
        cases hclaim
        exact absurd ((allowsOrigin_iff h).mpr hholds) hallows

theorem storageKey_eq_some {claim : SerializedOrigin} {key : StorageKey} :
    lock.storageKey x claim = some key ↔
      claim = .tuple key.origin key.tuple ∧ lock.Holds x key.origin := by
  rw [storageKey, Option.bind_eq_some_iff]
  constructor
  · rintro ⟨origin, horigin, hkey⟩
    obtain ⟨⟨h, rfl⟩, hholds⟩ := authorizeOrigin_eq_some.mp horigin
    rw [storageKeyOf, dif_pos h] at hkey
    cases hkey
    exact ⟨rfl, hholds⟩
  · rintro ⟨hclaim, hholds⟩
    refine ⟨key.origin, authorizeOrigin_eq_some.mpr ⟨⟨key.tuple, hclaim⟩, hholds⟩, ?_⟩
    rw [storageKeyOf, dif_pos key.tuple]

theorem forUrl_eq_some {url : Url} {found : Site} : forUrl x url = some found ↔
    (url.scheme = "http".toList ∨ url.scheme = "https".toList) ∧
      ∃ locked, site x url = some locked ∧ found = .tuple locked := by
  simp only [forUrl, Bool.or_eq_true, decide_eq_true_eq]
  split_ifs with hscheme
  · rw [Option.map_eq_some_iff, and_iff_right hscheme]
    simp only [eq_comm]
  · constructor
    · intro h; cases h
    · exact fun h => absurd h.1 hscheme

theorem allowsUrl_iff {url : Url} : lock.allowsUrl x url = true ↔ lock.HoldsUrl x url := by
  unfold allowsUrl HoldsUrl
  cases hsite : forUrl x url with
  | some found =>
    obtain ⟨hscheme, locked, hlocked, rfl⟩ := forUrl_eq_some.mp hsite
    rw [decide_eq_true_eq]
    constructor
    · rintro rfl
      exact .inl ⟨locked, rfl, hscheme, hlocked⟩
    · rintro (⟨locked', rfl, -, hlocked'⟩ | ⟨-, hlocal⟩)
      · rw [hlocked] at hlocked'
        rw [Option.some.inj hlocked']
      · rcases hscheme with hs | hs <;> rw [hs] at hlocal <;> exact absurd hlocal (by decide)
  | none =>
    have hnet : ∀ locked, (url.scheme = "http".toList ∨ url.scheme = "https".toList) →
        site x url ≠ some locked := by
      intro locked hscheme hlocked
      rw [forUrl_eq_some.mpr ⟨hscheme, locked, hlocked, rfl⟩] at hsite
      cases hsite
    simp only [Bool.and_eq_true, Bool.or_eq_true, decide_eq_true_eq, or_assoc]
    constructor
    · rintro ⟨htab, hlocal⟩
      cases lock with
      | tuple locked => cases htab
      | opaqueTab tab => exact .inr ⟨⟨tab, rfl⟩, hlocal⟩
    · rintro (⟨locked, -, hscheme, hlocked⟩ | ⟨⟨tab, rfl⟩, hlocal⟩)
      · exact absurd hlocked (hnet locked hscheme)
      · exact ⟨rfl, hlocal⟩

theorem authorizeUrl_eq_some {spec : Text} {url : Url} :
    lock.authorizeUrl x spec = some url ↔ x.urlParse spec = some url ∧ lock.HoldsUrl x url := by
  rw [authorizeUrl, Option.filter_eq_some_iff, allowsUrl_iff]

end Site

end TinyBrowser
