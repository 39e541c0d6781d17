import TinyBrowser.Dial.Network
import TinyBrowser.Lib.Joined

/-!
# The headers of a merged 304

`merge_not_modified` walks the fields of the 304 and writes each over the first stored one of its
name. Of a name that the 304 has the merged response gets the last value, and then the stored ones
after the first (`valuesOf_mergeNotModified`), which is the 304's own value when neither side repeats
the name.
-/

namespace TinyBrowser
open Lib

variable {cached : DialOutcome} {response : Response} {headers : HeaderList} {name : Text}

/-- The values of a name, in order. -/
def valuesOf (headers : HeaderList) (name : Text) : List Text :=
  (headers.filter fun field => Text.eqIgnoreAsciiCase field.1 name).map Prod.snd

theorem combinedHeaderIn_eq (headers : HeaderList) (name : Text) :
    combinedHeaderIn headers name = combinedHeader (valuesOf headers name) := rfl

theorem combinedHeader_eq_none {values : List Text} : combinedHeader values = none ↔ values = [] := by
  simp [combinedHeader]

theorem valuesOf_cons (field : Text × Text) (headers : HeaderList) (name : Text) :
    valuesOf (field :: headers) name =
      if Text.eqIgnoreAsciiCase field.1 name then field.2 :: valuesOf headers name
      else valuesOf headers name := by
  unfold valuesOf
  rw [List.filter_cons]
  split_ifs <;> rfl

theorem eqIgnoreAsciiCase_congr {a b : Text} (h : Text.eqIgnoreAsciiCase a b = true) (name : Text) :
    Text.eqIgnoreAsciiCase a name = Text.eqIgnoreAsciiCase b name := by
  unfold Text.eqIgnoreAsciiCase at h ⊢
  rw [of_decide_eq_true h]

theorem valuesOf_updateHeader (headers : HeaderList) (n value name : Text) :
    valuesOf (updateHeader headers n value) name =
      if Text.eqIgnoreAsciiCase n name then value :: (valuesOf headers name).tail
      else valuesOf headers name := by
  induction headers with
  | nil => exact valuesOf_cons (n, value) [] name
  | cons field headers ih =>
    rw [updateHeader]
    by_cases hfield : Text.eqIgnoreAsciiCase field.1 n = true
    · rw [if_pos hfield, valuesOf_cons, valuesOf_cons, eqIgnoreAsciiCase_congr hfield]
      split_ifs <;> rfl
    · rw [if_neg hfield, valuesOf_cons, valuesOf_cons, ih]
      split_ifs with hname hn
      · -- a field of both names would have matched
        rw [eqIgnoreAsciiCase_congr hname, ← eqIgnoreAsciiCase_congr hn] at hfield
        exact absurd (Text.eqIgnoreAsciiCase_self n) hfield
      · rfl
      · rfl
      · rfl

/-- What is left of the stored values and those of the 304. -/
def mergedValues (stored fresh : List Text) : List Text :=
  match fresh.getLast? with
  | none => stored
  | some last => last :: stored.tail

theorem valuesOf_foldl (fields headers : HeaderList) (name : Text) :
    valuesOf (fields.foldl (fun headers field => updateHeader headers field.1 field.2) headers) name =
      mergedValues (valuesOf headers name) (valuesOf fields name) := by
  induction fields generalizing headers with
  | nil => rfl
  | cons field fields ih =>
    rw [List.foldl_cons, ih, valuesOf_updateHeader, valuesOf_cons]
    split_ifs
    · rw [mergedValues, mergedValues, List.getLast?_cons]
      cases (valuesOf fields name).getLast? <;> rfl
    · rfl

/-- The fields of the response that page script may read, decoded. -/
def freshHeaders (response : Response) : HeaderList := decodeHeaders response.filteredHeaders

theorem valuesOf_mergeNotModified (cached : DialOutcome) (response : Response) (name : Text) :
    valuesOf (mergeNotModified cached response).headers name =
      mergedValues (valuesOf cached.headers name) (valuesOf (freshHeaders response) name) := by
  rw [← valuesOf_foldl, freshHeaders, decodeHeaders, List.foldl_map]
  rfl

/-! ### Combined values -/

/-- Neither side repeats the name, or both do and it comes to the same. -/
def RepeatsAlike (stored fresh : List Text) : Prop :=
  stored.length ≤ 1 ∧ fresh.length = 1 ∨
  1 < stored.length ∧ 1 < fresh.length ∧
    combinedHeader (fresh.drop (fresh.length - 1) ++ stored.drop 1) = combinedHeader fresh

instance (stored fresh : List Text) : Decidable (RepeatsAlike stored fresh) :=
  inferInstanceAs (Decidable (_ ∨ _))

/-- One value more makes the combined one longer. -/
theorem combinedHeader_singleton_ne {value : Text} {before after : List Text}
    (h : before ++ after ≠ []) : combinedHeader [value] ≠ combinedHeader (before ++ value :: after) := by
  intro heq
  have hjoin : List.intercalate ", ".toList [trimHttp value] =
      List.intercalate ", ".toList ((before ++ value :: after).map trimHttp) := by
    unfold combinedHeader at heq
    rw [if_neg (by simp), if_neg (by simp)] at heq
    exact Option.some.inj heq
  have hlen := congrArg List.length hjoin
  have hsep : ", ".toList.length = 2 := by decide
  cases before with
  | nil =>
    have hpos : 0 < after.length := List.length_pos_iff.2 h
    rw [List.nil_append, List.map_cons, length_intercalate_cons, length_intercalate_cons, hsep,
      List.length_map] at hlen
    simp only [List.map_nil, List.map_cons, List.sum_cons, List.sum_nil, List.length_nil] at hlen
    omega
  | cons first before =>
    rw [List.cons_append, List.map_cons, length_intercalate_cons, length_intercalate_cons, hsep,
      List.length_map] at hlen
    simp only [List.map_nil, List.map_cons, List.map_append, List.sum_cons, List.sum_nil,
      List.sum_append, List.length_nil, List.length_append, List.length_cons] at hlen
    omega

theorem combinedHeader_mergedValues_iff {stored fresh : List Text} (h : fresh ≠ []) :
    combinedHeader (mergedValues stored fresh) = combinedHeader fresh ↔ RepeatsAlike stored fresh := by
  obtain ⟨before, last, rfl⟩ : ∃ before last, fresh = before ++ [last] :=
    ⟨fresh.dropLast, fresh.getLast h, (List.dropLast_append_getLast h).symm⟩
  have hmerged : mergedValues stored (before ++ [last]) = last :: stored.tail := by
    rw [mergedValues, List.getLast?_concat]
  have hfresh : (before ++ [last]).length = before.length + 1 := by
    rw [List.length_append, List.length_singleton]
  have hdrop : (before ++ [last]).drop ((before ++ [last]).length - 1) = [last] := by
    rw [hfresh, Nat.add_sub_cancel, List.drop_left']
    rfl
  have htail : stored.tail.length = stored.length - 1 := List.length_tail ..
  rw [hmerged, RepeatsAlike, hdrop, List.drop_one, hfresh]
  by_cases hbefore : before = []
  · subst hbefore
    by_cases hstored : stored.tail = []
    · rw [hstored]
      exact iff_of_true rfl (.inl ⟨by rw [hstored, List.length_nil] at htail; omega, rfl⟩)
    · have hpos : 0 < stored.tail.length := List.length_pos_iff.2 hstored
      have hlonger : combinedHeader [last] ≠ combinedHeader (last :: stored.tail) :=
        combinedHeader_singleton_ne (show [] ++ stored.tail ≠ [] from hstored)
      refine iff_of_false (fun heq => hlonger heq.symm) ?_
      rw [List.length_nil]
      omega
  · have hpos : 0 < before.length := List.length_pos_iff.2 hbefore
    by_cases hstored : stored.tail = []
    · rw [hstored, List.length_nil] at htail
      rw [hstored]
      have hlonger : combinedHeader [last] ≠ combinedHeader (before ++ [last]) :=
        combinedHeader_singleton_ne (by rwa [List.append_nil])
      exact iff_of_false hlonger (by omega)
    · have hlong : 0 < stored.tail.length := List.length_pos_iff.2 hstored
      refine ⟨fun heq => .inr ⟨by omega, by omega, heq⟩, ?_⟩
      rintro (⟨-, hone⟩ | ⟨-, -, heq⟩)
      · omega
      · exact heq

/-! ### The merge -/

/-- What the merge of a 304 should leave. -/
structure MergesHeaders (cached : DialOutcome) (response : Response) (merged : DialOutcome) : Prop where
  updated : ∀ name, combinedHeaderIn (freshHeaders response) name ≠ none →
    combinedHeaderIn merged.headers name = combinedHeaderIn (freshHeaders response) name
  kept : ∀ name, combinedHeaderIn (freshHeaders response) name = none →
    combinedHeaderIn merged.headers name = combinedHeaderIn cached.headers name
  body : merged.body = cached.body

theorem mergesHeaders_iff (cached : DialOutcome) (response : Response) :
    MergesHeaders cached response (mergeNotModified cached response) ↔
      ∀ name, combinedHeaderIn (freshHeaders response) name ≠ none →
        RepeatsAlike (valuesOf cached.headers name) (valuesOf (freshHeaders response) name) := by
  have hcombined : ∀ name, combinedHeaderIn (mergeNotModified cached response).headers name =
      combinedHeader (mergedValues (valuesOf cached.headers name)
        (valuesOf (freshHeaders response) name)) := fun name => by
    rw [combinedHeaderIn_eq, valuesOf_mergeNotModified]
  have hname : ∀ name, combinedHeaderIn (freshHeaders response) name ≠ none →
      (combinedHeaderIn (mergeNotModified cached response).headers name =
          combinedHeaderIn (freshHeaders response) name ↔
        RepeatsAlike (valuesOf cached.headers name) (valuesOf (freshHeaders response) name)) := by
    intro name hpresent
    rw [hcombined]
    exact combinedHeader_mergedValues_iff (mt combinedHeader_eq_none.2 hpresent)
  constructor
  · exact fun h name hpresent => (hname name hpresent).1 (h.updated name hpresent)
  · refine fun h => ⟨fun name hpresent => (hname name hpresent).2 (h name hpresent),
      fun name habsent => ?_, rfl⟩
    have hnil : valuesOf (freshHeaders response) name = [] := combinedHeader_eq_none.1 habsent
    rw [hcombined, hnil]
    rfl

/-- A stored response with two `Vary` fields. -/
def DialOutcome.varying : DialOutcome where
  status := 200
  statusText := []
  finalUrl := Url.sample
  contentType := none
  headers := [("vary".toList, "accept".toList), ("vary".toList, "origin".toList)]
  body := .bytes []
  responseType := .basic
  crossedOrigin := false
  redirectCount := 0
  referrer := none

/-- The 304 varies by one field, and the merged response by the second stored one too. -/
theorem not_mergesHeaders_varying :
    ¬ MergesHeaders DialOutcome.varying
      (Response.sample 304 [(⟨"vary".toList, by decide⟩, Bytes.ofText "accept-language".toList)] [])
      (mergeNotModified DialOutcome.varying
        (Response.sample 304 [(⟨"vary".toList, by decide⟩, Bytes.ofText "accept-language".toList)] [])) := by
  intro h
  have hvary := h.updated "vary".toList (by decide +kernel)
  revert hvary
  decide +kernel

end TinyBrowser
