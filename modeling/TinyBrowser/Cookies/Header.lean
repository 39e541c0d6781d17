import TinyBrowser.Cookies.Isolation
import TinyBrowser.Lib.Joined

/-!
# The `Cookie` header and the records behind it

`cookieString` writes what `recordsFor` returns, in header order. A name and a value hold no `;`, so
the header comes apart at the `;` into one pair for each record; a pair with a name has no other `=`
before its value.
-/

namespace TinyBrowser
open Lib

variable {x : Crates} {jar : CookieJar} {op : CookieOp}

def CookieRecord.headerPair (r : CookieRecord) : Text :=
  if r.name = [] then r.value else r.name ++ '=' :: r.value

/-- Longest path first, older cookies first within one path length. -/
def recordOrder (a b : CookieRecord) : Prop :=
  Text.len b.path < Text.len a.path ∨ (Text.len b.path = Text.len a.path ∧ a.created ≤ b.created)

instance : DecidableRel recordOrder := fun _ _ => inferInstanceAs (Decidable (_ ∨ _))

instance : Std.Total recordOrder where
  total a b := by
    have h : ∀ (m n : Nat) (s t : Int), (n < m ∨ n = m ∧ s ≤ t) ∨ (m < n ∨ m = n ∧ t ≤ s) := by
      omega
    exact h _ _ _ _

instance : IsTrans CookieRecord recordOrder where
  trans a b c := by
    have h : ∀ (l m n : Nat) (r s t : Int), (m < l ∨ m = l ∧ r ≤ s) → (n < m ∨ n = m ∧ s ≤ t) →
        (n < l ∨ n = l ∧ r ≤ t) := by omega
    exact h _ _ _ _ _ _

/-- One record goes before another in the header: its path is longer, or it is older, or it joined the
jar earlier. -/
def HeaderBefore (a b : CookieRecord × Nat) : Prop :=
  Text.len b.1.path < Text.len a.1.path ∨ (Text.len b.1.path = Text.len a.1.path ∧
    (a.1.created < b.1.created ∨ (a.1.created = b.1.created ∧ a.2 < b.2)))

theorem headerBefore_of_stable {a b : CookieRecord × Nat} (h : StableBefore recordOrder a b) :
    HeaderBefore a b := by
  have hfirst : ∀ (m n i j : Nat) (s t : Int), (n < m ∨ n = m ∧ s ≤ t) →
      ((m < n ∨ m = n ∧ t ≤ s) → i < j) → (n < m ∨ n = m ∧ (s < t ∨ s = t ∧ i < j)) := by omega
  exact hfirst _ _ _ _ _ _ h.1 h.2

/-- The records of a request in header order, with their places in the jar's order. -/
def headerRecords (x : Crates) (jar : CookieJar) (op : CookieOp) : List (CookieRecord × Nat) :=
  (jar.recordsFor x op).1.zipIdx.insertionSort fun a b => recordOrder a.1 b.1

theorem map_fst_headerRecords (host : Text) (hhost : canonicalizeHost op.url = some host) :
    (headerRecords x jar op).map Prod.fst =
      (carried x (jar.evictExpired op.now).cookies host op).map StoredCookie.record := by
  have hcarried : (carried x (jar.evictExpired op.now).cookies host op).map StoredCookie.record =
      (jar.recordsFor x op).1.insertionSort recordOrder := by
    rw [carried, CookieJar.recordsFor, hhost]
    refine List.map_insertionSort _ _ _ _ fun a _ b _ => ?_
    simp [headerOrder, recordOrder, StoredCookie.record]
  rw [hcarried, headerRecords]
  have hsort := List.map_insertionSort (fun a b : CookieRecord × Nat => recordOrder a.1 b.1)
    recordOrder Prod.fst (jar.recordsFor x op).1.zipIdx fun _ _ _ _ => Iff.rfl
  rw [hsort, List.zipIdx_map_fst]

theorem cookieString_eq_records : (jar.cookieString x op).1 = List.intercalate "; ".toList
    ((headerRecords x jar op).map fun r => r.1.headerPair) := by
  cases hhost : canonicalizeHost op.url with
  | none =>
    simp only [CookieJar.cookieString, headerRecords, CookieJar.recordsFor, hhost]
    rfl
  | some host =>
    have hpairs : ((headerRecords x jar op).map fun r => r.1.headerPair) =
        ((headerRecords x jar op).map Prod.fst).map CookieRecord.headerPair := by
      rw [List.map_map]
      rfl
    rw [hpairs, map_fst_headerRecords host hhost, List.map_map, cookieString_eq host hhost]
    rfl

/-! ### Pairs -/

/-- A name and value that the header can carry and that reading it gives back. -/
structure HeaderClean (c : StoredCookie) : Prop where
  header : HeaderSafe c.name c.value
  name : Text.Trimmed c.name
  value : Text.Trimmed c.value

theorem semi_not_mem_headerPair {r : CookieRecord} (h : HeaderSafe r.name r.value) :
    ';' ∉ r.headerPair := by
  unfold CookieRecord.headerPair
  split
  · exact h.value_semi
  · simp only [List.mem_append, List.mem_cons, not_or]
    exact ⟨h.name_semi, by decide, h.value_semi⟩

theorem headerPair_reads {r : CookieRecord} (h : HeaderSafe r.name r.value)
    (hname : Text.Trimmed r.name) (hvalue : Text.Trimmed r.value) :
    Text.trim r.headerPair = r.headerPair ∧ if r.name = [] then r.headerPair = r.value
      else Text.splitOnce '=' r.headerPair = some (r.name, r.value) := by
  unfold CookieRecord.headerPair
  split
  · exact ⟨hvalue.trim_eq, rfl⟩
  · rename_i hne
    refine ⟨Text.Trimmed.trim_eq ⟨?_, ?_⟩, Text.splitOnce_append h.name_eq _⟩
    · obtain ⟨c, rest, heq⟩ := List.exists_cons_of_ne_nil hne
      rw [heq] at hname ⊢
      exact hname.1
    · rw [List.getLast?_append, List.getLast?_cons]
      intro c hc
      cases hlast : r.value.getLast? with
      | none =>
        rw [hlast] at hc
        obtain rfl : '=' = c := Option.some.inj hc
        decide
      | some d =>
        rw [hlast] at hc
        obtain rfl : d = c := Option.some.inj hc
        exact hvalue.2 d hlast

theorem split_cookieString (h : ∀ r ∈ (jar.recordsFor x op).1, HeaderSafe r.name r.value)
    (hne : headerRecords x jar op ≠ []) :
    (Text.split ';' (jar.cookieString x op).1).map Text.trim =
      (headerRecords x jar op).map fun r => r.1.headerPair.trim := by
  have hsafe : ∀ r ∈ headerRecords x jar op, ';' ∉ r.1.headerPair := fun r hr => by
    have hmem := (List.mem_insertionSort _).1 hr
    exact semi_not_mem_headerPair (h r.1 (List.fst_mem_of_mem_zipIdx hmem))
  rw [cookieString_eq_records]
  cases hrecords : headerRecords x jar op with
  | nil => exact absurd hrecords hne
  | cons r rs =>
    rw [hrecords] at hsafe
    have hpieces : ∀ p ∈ r.1.headerPair :: rs.map fun r => r.1.headerPair, ';' ∉ p := by
      rw [← List.map_cons (f := fun r : CookieRecord × Nat => r.1.headerPair)]
      exact List.forall_mem_map.2 hsafe
    have hsplit := Text.split_intercalate " ".toList (by decide) _ _ hpieces
    rw [List.map_cons, show "; ".toList = ';' :: " ".toList from rfl, hsplit, List.map_cons,
      List.map_cons, List.map_map, List.map_map]
    refine congrArg (Text.trim r.1.headerPair :: ·) (List.map_congr_left fun r _ => ?_)
    exact Text.trim_cons (by decide) r.1.headerPair

/-! ### Runs -/

theorem trimmed_parsed {input : Text} {parsed : ParsedSetCookie}
    (h : parseSetCookie input = some parsed) :
    Text.Trimmed parsed.name ∧ Text.Trimmed parsed.value := by
  unfold parseSetCookie at h
  simp only at h
  split_ifs at h
  obtain rfl := Option.some.inj h
  have hinv := ParsedSetCookie.AttrInv.foldl
    (p := ⟨(pairNameValue (splitPair input).1.trim).1, (pairNameValue (splitPair input).1.trim).2,
      none, none, none, none, false, false, none⟩) ⟨rfl, rfl, by simp⟩
    (Text.split ';' (splitPair input).2)
  rw [hinv.name, hinv.value]
  unfold pairNameValue
  split
  · exact ⟨Text.trimmed_trim _, Text.trimmed_trim _⟩
  · exact ⟨⟨by simp, by simp⟩, Text.trimmed_trim _⟩

/-- The restored names and values have no white space at their ends. -/
def JarOp.Trimmed : JarOp → Prop
  | .restore records _ => ∀ r ∈ records, Text.Trimmed r.name ∧ Text.Trimmed r.value
  | _ => True

theorem JarOp.Trimmed.adds {op : JarOp} (h : op.Trimmed) : op.Adds x HeaderClean := by
  cases op with
  | store line op =>
    intro jar stored hst
    obtain ⟨hheader, -⟩ := storeOk_received hst
    unfold CookieJar.received at hst
    obtain ⟨parsed, hp, hst⟩ := Option.bind_eq_some_iff.1 hst
    obtain ⟨host, scope, created, -, -, -, rfl, -⟩ := receiveCookie_spec hst
    exact ⟨hheader, (trimmed_parsed hp).1, (trimmed_parsed hp).2⟩
  | restore records now =>
    intro r hr existing stored hs
    obtain ⟨hsan, rfl⟩ := sanitize_eq_some_iff.1 hs
    exact ⟨hsan.header, (h r hr).1, (h r hr).2⟩
  | _ => trivial

theorem JarOp.adds_header (op : JarOp) : op.Adds x fun c => HeaderSafe c.name c.value := by
  cases op with
  | store line op => exact fun jar stored hst => (storeOk_received hst).header
  | restore records now =>
    intro r hr existing stored hs
    obtain ⟨hsan, rfl⟩ := sanitize_eq_some_iff.1 hs
    exact hsan.header
  | _ => trivial

theorem mem_recordsFor {r : CookieRecord} (h : r ∈ (jar.recordsFor x op).1) :
    ∃ c ∈ jar.cookies, r = c.record := by
  unfold CookieJar.recordsFor at h
  dsimp only at h
  split at h
  · cases h
  · obtain ⟨c, hc, rfl⟩ := List.mem_map.1 h
    exact ⟨c, (List.mem_filter.1 (List.mem_filter.1 hc).1).1, rfl⟩

/-- The header is made of the records of the request, each once and in order, and comes apart into
their pairs; a pair reads as the name and value that were stored, or is the value of a cookie without
a name. -/
theorem CookieJar.cookieString_carries (ops : List JarOp) (op : CookieOp) :
    let jar := CookieJar.default.run x ops
    ∃ sorted : List (CookieRecord × Nat), sorted.Perm (jar.recordsFor x op).1.zipIdx ∧
      sorted.Pairwise HeaderBefore ∧
      (jar.cookieString x op).1 =
        List.intercalate "; ".toList (sorted.map fun r => r.1.headerPair) ∧
      (sorted ≠ [] → (Text.split ';' (jar.cookieString x op).1).map Text.trim =
        sorted.map fun r => r.1.headerPair.trim) ∧
      ((∀ op ∈ ops, op.Trimmed) → ∀ r ∈ sorted, r.1.headerPair.trim = r.1.headerPair ∧
        if r.1.name = [] then r.1.headerPair = r.1.value
        else Text.splitOnce '=' r.1.headerPair = some (r.1.name, r.1.value)) := by
  intro jar
  have hsafe : JarInv (fun c => HeaderSafe c.name c.value) jar :=
    JarInv.default.run (fun c now h => h) fun op _ => op.adds_header
  refine ⟨headerRecords x jar op, List.perm_insertionSort .., ?_, cookieString_eq_records,
    split_cookieString fun r hr => ?_, fun hops r hr => ?_⟩
  · exact (pairwise_insertionSort_zipIdx _ 0).imp headerBefore_of_stable
  · obtain ⟨c, hc, rfl⟩ := mem_recordsFor hr
    exact hsafe.cookies c hc
  · have hclean : JarInv HeaderClean jar :=
      JarInv.default.run (fun c now h => ⟨h.header, h.name, h.value⟩) fun op hop => (hops op hop).adds
    have hmem := List.fst_mem_of_mem_zipIdx ((List.mem_insertionSort _).1 hr)
    obtain ⟨c, hc, heq⟩ := mem_recordsFor hmem
    rw [heq]
    exact headerPair_reads (hclean.cookies c hc).header (hclean.cookies c hc).name
      (hclean.cookies c hc).value

/-- A cookie without a name whose value holds `=`, and a restored value that ends in a blank. -/
def namelessRun : List JarOp := [.store "=a=b".toList (.direct .sample 0 .http)]

def paddedRun : List JarOp :=
  [.restore [⟨"a".toList, "1 ".toList, none, "example.com".toList, "/".toList, 0, 0, true, false,
    false, .default⟩] 0]

/-- The records that the sample request gets after a run. -/
def sampleRecords (ops : List JarOp) : List CookieRecord :=
  ((CookieJar.default.run .sample ops).recordsFor .sample (.direct .sample 1 .http)).1

/-- The names and values that the sample request's header reads back as. -/
def sampleReadings (ops : List JarOp) : List (Option (Text × Text)) :=
  (Text.split ';' ((CookieJar.default.run .sample ops).cookieString .sample
    (.direct .sample 1 .http)).1).map fun piece => Text.splitOnce '=' piece.trim

/-- Neither reads back as it is stored. -/
theorem CookieJar.not_cookieString_recovers :
    (sampleRecords namelessRun).length = 1 ∧
    sampleReadings namelessRun ≠ (sampleRecords namelessRun).map (fun r => some (r.name, r.value)) ∧
    (sampleRecords paddedRun).length = 1 ∧
    sampleReadings paddedRun ≠ (sampleRecords paddedRun).map fun r => some (r.name, r.value) := by
  decide +kernel

end TinyBrowser
