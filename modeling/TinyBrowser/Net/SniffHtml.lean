import Mathlib.Data.List.TakeWhile
import TinyBrowser.Net.Orb

/-!
# Which bodies sniff as HTML

`Markup` is the shape of a body that is to sniff as HTML: comments, each with the rest of its line,
and then a signature. The sniffer takes the byte E2 alone for a line separator, so it gives the shape
up where a skipped line holds that byte (`sniffHtml_iff`).
-/

namespace TinyBrowser.Orb
open Lib

def byteOrderMark : Bytes := [0xEF, 0xBB, 0xBF]

def commentOpen : Bytes := Bytes.ofText "<!--".toList

def commentClose : Bytes := Bytes.ofText "-->".toList

/-- LF, CR, and the encodings of U+2028 and U+2029. -/
def lineSeparators : List Bytes := [[0x0A], [0x0D], [0xE2, 0x80, 0xA8], [0xE2, 0x80, 0xA9]]

def separated (data : Bytes) : Bool := lineSeparators.any (·.isPrefixOf data)

def signed (data : Bytes) : Bool := htmlSignatures.any fun signature => startsWithIgnoreCase data signature

/-- `line` is what comes before the first line separator of `line ++ rest`, or all of it. -/
structure LineBefore (line rest : Bytes) : Prop where
  ended : rest = [] ∨ separated rest = true
  first : ∀ i < line.length, separated ((line ++ rest).drop i) = false

/-- A signature after white space and `lines.length` comments; `lines` are the rests of their lines. -/
inductive Markup : List Bytes → Bytes → Prop
  | signature {space rest : Bytes} (hspace : ∀ b ∈ space, b ∈ whitespace) (hrest : signed rest = true) :
    Markup [] (space ++ rest)
  | comment {space content line rest : Bytes} {lines : List Bytes} (hspace : ∀ b ∈ space, b ∈ whitespace)
    (hcontent : ¬ commentClose <:+: content ++ [0x2D, 0x2D]) (hline : LineBefore line rest)
    (hrest : Markup lines rest) :
    Markup (line :: lines) (space ++ (commentOpen ++ (content ++ (commentClose ++ (line ++ rest)))))

/-- After an optional byte order mark. -/
def IsHtml (lines : List Bytes) (data : Bytes) : Prop :=
  ∃ bom rest, (bom = [] ∨ bom = byteOrderMark) ∧ data = bom ++ rest ∧ Markup lines rest

/-! ### Where things start -/

variable {b : UInt8}

theorem asciiLowerByte_eq_lt (h : asciiLowerByte b = 0x3C) : b = 0x3C := by
  rw [asciiLowerByte] at h
  split at h
  · rename_i hupper
    simp only [Bool.and_eq_true, decide_eq_true_eq, UInt8.le_iff_toNat_le] at hupper
    have hnat := congrArg UInt8.toNat h
    simp at hupper hnat
    omega
  · exact h

variable {data : Bytes}

theorem signed_cons (h : signed data = true) : ∃ b rest, data = 0x3C :: b :: rest := by
  have hall : (htmlSignatures.all fun s => s.head? = some 0x3C && decide (2 ≤ s.length)) = true := by
    decide
  obtain ⟨s, hs, hstart⟩ := List.any_eq_true.1 h
  obtain ⟨hhead, hlength⟩ := (Bool.and_eq_true _ _).mp (List.all_eq_true.1 hall s hs)
  rw [startsWithIgnoreCase, Bool.and_eq_true, decide_eq_true_eq, decide_eq_true_eq] at hstart
  obtain ⟨hle, htake⟩ := hstart
  have hlength := of_decide_eq_true hlength
  match s, data, hle, htake, of_decide_eq_true hhead, hlength with
  | _ :: _ :: _, a :: b :: rest, _, htake, hhead, _ =>
    obtain rfl := Option.some.inj hhead
    exact ⟨b, rest, by rw [asciiLowerByte_eq_lt (List.cons.inj htake).1]⟩

theorem separated_cons {rest : Bytes} (h : separated (b :: rest) = true) :
    b = 0x0A ∨ b = 0x0D ∨ b = 0xE2 := by
  simp [separated, lineSeparators, List.isPrefixOf] at h
  tauto

theorem separated_of_mem (rest : Bytes) (h : b = 0x0A ∨ b = 0x0D) :
    separated (b :: rest) = true := by
  rcases h with rfl | rfl <;> rfl

variable {lines : List Bytes}

theorem Markup.head {rest : Bytes} (h : Markup lines (b :: rest)) :
    b ∈ whitespace ∨ b = 0x3C := by
  generalize hdata : b :: rest = data at h
  cases h with
  | @signature space tail hspace hrest =>
    cases space with
    | nil =>
      obtain ⟨c, tail, rfl⟩ := signed_cons hrest
      exact .inr (List.cons.inj hdata).1
    | cons c space =>
      obtain rfl := (List.cons.inj hdata).1
      exact .inl (hspace b List.mem_cons_self)
  | @comment space content line tail lines hspace hcontent hline hrest =>
    cases space with
    | nil => exact .inr (List.cons.inj hdata).1
    | cons c space =>
      obtain rfl := (List.cons.inj hdata).1
      exact .inl (hspace b List.mem_cons_self)

theorem Markup.two_le (h : Markup lines data) :
    2 ≤ data.length := by
  cases h with
  | signature _ hrest =>
    obtain ⟨b, tail, rfl⟩ := signed_cons hrest
    simp only [List.length_append, List.length_cons]
    omega
  | comment =>
    have hopen : commentOpen.length = 4 := by decide
    simp only [List.length_append]
    omega

/-! ### Comments -/

theorem find_eq_some_iff {needle data : Bytes} {i : Nat} (hneedle : needle ≠ []) :
    find needle data = some i ↔ ∃ before after, data = before ++ (needle ++ after) ∧
      before.length = i ∧ ¬ needle <:+: before ++ needle.dropLast := by
  have hpos := List.length_pos_iff.2 hneedle
  have hshort : ¬ needle <:+: [] ++ needle.dropLast := fun h => by
    have hle := h.length_le
    rw [List.nil_append, List.length_dropLast] at hle
    omega
  -- `needle` at the start of a longer list ends before the last byte of its later occurrence.
  have hstart : ∀ (c : UInt8) before after, needle <+: c :: before ++ (needle ++ after) →
      needle <:+: c :: before ++ needle.dropLast := fun c before after h => by
    refine (List.prefix_of_prefix_length_le h ?_ ?_).isInfix
    · exact (List.prefix_append_right_inj _).2
        ((List.dropLast_prefix needle).trans (List.prefix_append _ _))
    · rw [List.length_append, List.length_cons, List.length_dropLast]
      omega
  induction data generalizing i with
  | nil =>
    rw [find, if_neg hneedle]
    refine iff_of_false (by rintro ⟨⟩) ?_
    rintro ⟨before, after, hdata, -⟩
    have hlength := congrArg List.length hdata
    simp only [List.length_nil, List.length_append] at hlength
    omega
  | cons b rest ih =>
    rw [find]
    split
    · rename_i hprefix
      obtain ⟨after, hafter⟩ := List.isPrefixOf_iff_prefix.1 hprefix
      constructor
      · intro h
        exact ⟨[], after, hafter.symm, Option.some.inj h, hshort⟩
      · rintro ⟨before, after', hdata, rfl, hnot⟩
        cases before with
        | nil => rfl
        | cons c before =>
          exact absurd (hstart c before after' ⟨after, hafter.trans hdata⟩) hnot
    · rename_i hprefix
      rw [List.isPrefixOf_iff_prefix] at hprefix
      rw [Option.map_eq_some_iff]
      constructor
      · rintro ⟨j, hj, rfl⟩
        obtain ⟨before, after, rfl, rfl, hnot⟩ := ih.1 hj
        refine ⟨b :: before, after, rfl, rfl, fun hinfix => ?_⟩
        rcases List.infix_cons_iff.1 hinfix with h | h
        · refine hprefix (h.trans ?_)
          show b :: before ++ needle.dropLast <+: b :: before ++ (needle ++ after)
          exact (List.prefix_append_right_inj _).2
            ((List.dropLast_prefix needle).trans (List.prefix_append _ _))
        · exact hnot h
      · rintro ⟨before, after, hdata, rfl, hnot⟩
        cases before with
        | nil => exact absurd ⟨after, hdata.symm⟩ hprefix
        | cons c before =>
          obtain ⟨rfl, rfl⟩ := List.cons.inj hdata
          refine ⟨before.length, ih.2 ⟨before, after, rfl, rfl, fun h => hnot ?_⟩, rfl⟩
          exact List.infix_cons_iff.2 (.inr h)

/-- What is left of `after` once its line is skipped. -/
def lineSkipped (after : Bytes) : Bytes := (lineEnd after).elim [] fun stop => after.drop stop

theorem skipHtmlComment_append (data : Bytes) :
    skipHtmlComment (commentOpen ++ data) =
      (find commentClose data).map fun stop => lineSkipped (data.drop (stop + 3)) := by
  have hopen : commentOpen.length = 4 := by decide
  rw [skipHtmlComment, ← commentOpen, ← commentClose,
    List.isPrefixOf_iff_prefix.2 (List.prefix_append _ _), if_neg (by simp), ← hopen, List.drop_left]
  dsimp only
  cases find commentClose data with
  | none => rfl
  | some stop =>
    rw [Option.map_some, lineSkipped]
    dsimp only
    cases lineEnd (data.drop (stop + 3)) <;> rfl

theorem skipHtmlComment_eq_some_iff {data rest : Bytes} :
    skipHtmlComment data = some rest ↔ ∃ content after,
      data = commentOpen ++ (content ++ (commentClose ++ after)) ∧
        ¬ commentClose <:+: content ++ [0x2D, 0x2D] ∧ lineSkipped after = rest := by
  have hdrop : ∀ content after : Bytes,
      (content ++ (commentClose ++ after)).drop (content.length + 3) = after := fun content after => by
    have hclose : commentClose.length = 3 := by decide
    rw [← hclose, ← List.length_append, ← List.append_assoc, List.drop_left]
  have hfind : ∀ data i, find commentClose data = some i ↔ _ := fun data i =>
    find_eq_some_iff (by decide)
  by_cases hprefix : commentOpen <+: data
  · obtain ⟨data, rfl⟩ := hprefix
    rw [skipHtmlComment_append, Option.map_eq_some_iff]
    constructor
    · rintro ⟨i, hi, rfl⟩
      obtain ⟨content, after, rfl, rfl, hnot⟩ := (hfind _ i).1 hi
      exact ⟨content, after, rfl, hnot, by rw [hdrop]⟩
    · rintro ⟨content, after, hdata, hnot, rfl⟩
      obtain rfl := List.append_cancel_left hdata
      exact ⟨content.length, (hfind _ _).2 ⟨content, after, rfl, rfl, hnot⟩, by rw [hdrop]⟩
  · refine iff_of_false (fun h => ?_) fun ⟨content, after, hdata, _⟩ => hprefix ⟨_, hdata.symm⟩
    rw [← List.isPrefixOf_iff_prefix, Bool.not_eq_true] at hprefix
    rw [skipHtmlComment, ← commentOpen, hprefix] at h
    cases h

/-! ### Lines -/

theorem lineEnd_of_lineBefore {line rest : Bytes} (h : LineBefore line (b :: rest))
    (hb : b = 0x0A ∨ b = 0x0D) (hplain : 0xE2 ∉ line) :
    lineEnd (line ++ b :: rest) = some line.length := by
  have hnone : line.findIdx? (fun c => c = 0x0A || c = 0x0D ||
      (c = 0xE2 && 2 < (line ++ b :: rest).length)) = none := by
    rw [List.findIdx?_eq_none_iff]
    intro c hc
    obtain ⟨i, hi, hget⟩ := List.getElem_of_mem hc
    have hdrop : (line ++ b :: rest).drop i = c :: (line ++ b :: rest).drop (i + 1) := by
      rw [List.drop_eq_getElem_cons (by rw [List.length_append]; omega), List.getElem_append_left hi, hget]
    have hnot := h.first i hi
    rw [hdrop] at hnot
    have hplain : c ≠ 0xE2 := fun he => hplain (he ▸ hc)
    have hline : ¬ (c = 0x0A ∨ c = 0x0D) := fun he => by
      rw [separated_of_mem _ he] at hnot
      cases hnot
    rw [not_or] at hline
    simp only [hline.1, hline.2, hplain, decide_false, Bool.or_false, Bool.false_and]
  rw [lineEnd, List.findIdx?_append, hnone, List.findIdx?_cons]
  rcases hb with rfl | rfl <;> simp

/-- Where the sniffer stops short of markup, it stops at the end of a line without the byte E2. -/
theorem lineBefore_of_lineEnd {after : Bytes} {stop : Nat}
    (h : lineEnd after = some stop) (hrest : Markup lines (after.drop stop)) :
    LineBefore (after.take stop) (after.drop stop) ∧ 0xE2 ∉ after.take stop := by
  rw [lineEnd, List.findIdx?_eq_some_iff_getElem] at h
  obtain ⟨hstop, hat, hbefore⟩ := h
  have hcons := List.drop_eq_getElem_cons hstop
  have hat : after[stop] = 0x0A ∨ after[stop] = 0x0D := by
    have hhead := hcons ▸ hrest
    simp only [Bool.or_eq_true, Bool.and_eq_true, decide_eq_true_eq] at hat
    refine hat.resolve_right fun he => ?_
    rw [he.1] at hhead
    exact absurd hhead.head (by decide)
  have hlength : (after.take stop).length = stop := by rw [List.length_take]; omega
  have htwo := hrest.two_le
  rw [List.length_drop] at htwo
  have hplain : 0xE2 ∉ after.take stop := fun hmem => by
    obtain ⟨i, hi, he⟩ := List.getElem_of_mem hmem
    rw [hlength] at hi
    rw [List.getElem_take] at he
    have hnot := hbefore i hi
    simp only [he, Bool.not_eq_true, Bool.or_eq_false_iff, Bool.and_eq_false_iff] at hnot
    have hlong : 2 < after.length := by omega
    simp [hlong] at hnot
  refine ⟨⟨.inr ?_, fun i hi => ?_⟩, hplain⟩
  · rw [hcons]
    exact separated_of_mem _ hat
  · rw [hlength] at hi
    rw [List.take_append_drop, List.drop_eq_getElem_cons (hi.trans hstop), Bool.eq_false_iff]
    intro hseparated
    have hnot := hbefore i hi
    rcases separated_cons hseparated with he | he | he
    · simp [he] at hnot
    · simp [he] at hnot
    · refine hplain (he ▸ ?_)
      rw [← List.getElem_take (h := by rw [hlength]; exact hi)]
      exact List.getElem_mem _

theorem LineBefore.length_le {line rest line' rest' : Bytes} (h : LineBefore line rest)
    (h' : LineBefore line' rest') (heq : line ++ rest = line' ++ rest') : line'.length ≤ line.length := by
  by_contra hlt
  have hfirst := h'.first line.length (by omega)
  rw [← heq, List.drop_left] at hfirst
  rcases h.ended with rfl | hended
  · have hlength := congrArg List.length heq
    simp only [List.length_append, List.length_nil] at hlength
    omega
  · rw [hended] at hfirst
    cases hfirst

theorem LineBefore.unique {line rest line' rest' : Bytes} (h : LineBefore line rest)
    (h' : LineBefore line' rest') (heq : line ++ rest = line' ++ rest') : line = line' :=
  (List.append_inj heq (Nat.le_antisymm (h'.length_le h heq.symm) (h.length_le h' heq))).1

/-! ### The loop -/

theorem trimWhitespace_append {space rest : Bytes} (hspace : ∀ c ∈ space, c ∈ whitespace)
    (hb : b ∉ whitespace) : trimWhitespace (space ++ b :: rest) = b :: rest := by
  rw [trimWhitespace, List.dropWhile_append_of_pos fun c hc => decide_eq_true (hspace c hc),
    List.dropWhile_cons_of_neg (by simpa using hb)]

theorem exists_space (data : Bytes) :
    ∃ space, (∀ b ∈ space, b ∈ whitespace) ∧ data = space ++ trimWhitespace data :=
  ⟨data.takeWhile (· ∈ whitespace), fun _ hb => by simpa using List.mem_takeWhile_imp hb,
    List.takeWhile_append_dropWhile.symm⟩

theorem signed_commentOpen (data : Bytes) : signed (commentOpen ++ data) = false := by
  have hall : (htmlSignatures.all fun s => ((commentOpen.take (min 3 s.length)).map asciiLowerByte !=
      (s.take 3).map asciiLowerByte)) = true := by decide
  rw [signed, List.any_eq_false]
  intro s hs hstart
  rw [startsWithIgnoreCase, Bool.and_eq_true, decide_eq_true_eq, decide_eq_true_eq] at hstart
  have hfour : min 3 s.length ≤ commentOpen.length := by
    have hopen : commentOpen.length = 4 := by decide
    omega
  have htake := congrArg (List.take 3) hstart.2
  rw [← List.map_take, ← List.map_take, List.take_take, List.take_append_of_le_length hfour] at htake
  have hne := List.all_eq_true.1 hall s hs
  rw [htake] at hne
  simp at hne

theorem exists_markup {fuel : Nat} (h : sniffHtmlFrom fuel data = true) :
    ∃ lines, Markup lines data := by
  induction fuel generalizing data with
  | zero => cases h
  | succ fuel ih =>
    obtain ⟨space, hspace, hdata⟩ := exists_space data
    rw [sniffHtmlFrom] at h
    rw [hdata]
    generalize trimWhitespace data = data at h
    split_ifs at h with hempty hsigned
    · exact ⟨[], .signature hspace hsigned⟩
    · cases hskip : skipHtmlComment data with
      | none =>
        rw [hskip] at h
        cases h
      | some rest =>
        rw [hskip] at h
        obtain ⟨lines, hrest⟩ := ih h
        obtain ⟨content, after, rfl, hcontent, rfl⟩ := skipHtmlComment_eq_some_iff.1 hskip
        rw [lineSkipped] at hrest
        cases hend : lineEnd after with
        | none =>
          rw [hend] at hrest
          exact absurd hrest.two_le (by simp)
        | some stop =>
          rw [hend] at hrest
          have hmarkup := Markup.comment hspace hcontent (lineBefore_of_lineEnd hend hrest).1 hrest
          rw [List.take_append_drop] at hmarkup
          exact ⟨_, hmarkup⟩

/-- The sniffer gets past a line before markup exactly if the line is without the byte E2. -/
theorem sniffHtmlFrom_lineSkipped {fuel : Nat} {line rest : Bytes}
    (hline : LineBefore line rest) (hrest : Markup lines rest) :
    sniffHtmlFrom fuel (lineSkipped (line ++ rest)) = true ↔
      0xE2 ∉ line ∧ sniffHtmlFrom fuel rest = true := by
  have hskipped : 0xE2 ∉ line → lineSkipped (line ++ rest) = rest := fun hplain => by
    match rest, hline, hrest with
    | [], _, hrest => exact absurd hrest.two_le (by simp)
    | b :: rest, hline, hrest =>
      have hb : b = 0x0A ∨ b = 0x0D := by
        rcases separated_cons (hline.ended.resolve_left (by simp)) with hb | hb | rfl
        · exact .inl hb
        · exact .inr hb
        · exact absurd hrest.head (by decide)
      rw [lineSkipped, lineEnd_of_lineBefore hline hb hplain, Option.elim_some, List.drop_left]
  constructor
  · intro h
    have hplain : 0xE2 ∉ line := by
      obtain ⟨lines', hmarkup⟩ := exists_markup h
      rw [lineSkipped] at hmarkup
      cases hend : lineEnd (line ++ rest) with
      | none =>
        rw [hend] at hmarkup
        exact absurd hmarkup.two_le (by simp)
      | some stop =>
        rw [hend] at hmarkup
        obtain ⟨hbefore, hplain⟩ := lineBefore_of_lineEnd hend hmarkup
        rwa [hline.unique hbefore (List.take_append_drop stop _).symm]
    exact ⟨hplain, hskipped hplain ▸ h⟩
  · rintro ⟨hplain, h⟩
    rwa [hskipped hplain]

theorem Markup.sniffHtmlFrom_iff (h : Markup lines data) {fuel : Nat}
    (hfuel : data.length < fuel) :
    sniffHtmlFrom fuel data = true ↔ ∀ line ∈ lines, 0xE2 ∉ line := by
  induction h generalizing fuel with
  | @signature space rest hspace hrest =>
    obtain ⟨fuel, rfl⟩ := Nat.exists_eq_succ_of_ne_zero (by omega : fuel ≠ 0)
    refine iff_of_true ?_ nofun
    have hsigned := hrest
    obtain ⟨b, tail, rfl⟩ := signed_cons hrest
    rw [signed] at hsigned
    rw [sniffHtmlFrom, trimWhitespace_append hspace (by decide)]
    rw [if_neg (by simp), if_pos hsigned]
  | @comment space content line rest lines hspace hcontent hline hrest ih =>
    obtain ⟨fuel, rfl⟩ := Nat.exists_eq_succ_of_ne_zero (by omega : fuel ≠ 0)
    simp only [List.length_append] at hfuel
    have hopen : commentOpen.length = 4 := by decide
    have htrim : trimWhitespace (space ++ (commentOpen ++ (content ++ (commentClose ++ (line ++ rest))))) =
        commentOpen ++ (content ++ (commentClose ++ (line ++ rest))) :=
      trimWhitespace_append hspace (by decide)
    have hsigned := signed_commentOpen (content ++ (commentClose ++ (line ++ rest)))
    rw [signed] at hsigned
    rw [sniffHtmlFrom, htrim]
    rw [if_neg (by simp [commentOpen, Bytes.ofText]), hsigned, if_neg (by simp),
      skipHtmlComment_eq_some_iff.2 ⟨content, _, rfl, hcontent, rfl⟩]
    dsimp only
    rw [sniffHtmlFrom_lineSkipped hline hrest, ih (by omega), List.forall_mem_cons]

/-! ### The whole body -/

theorem isHtml_iff : IsHtml lines data ↔ Markup lines (trimBom data) := by
  have hmark : byteOrderMark.length = 3 := rfl
  rw [trimBom, ← byteOrderMark]
  constructor
  · rintro ⟨bom, rest, rfl | rfl, rfl, h⟩
    · rw [if_neg]
      · exact h
      · intro hprefix
        obtain ⟨tail, rfl⟩ := List.isPrefixOf_iff_prefix.1 hprefix
        exact absurd h.head (by decide)
    · rwa [if_pos (List.isPrefixOf_iff_prefix.2 (List.prefix_append _ _)), ← hmark, List.drop_left]
  · intro h
    split_ifs at h with hprefix
    · obtain ⟨tail, rfl⟩ := List.isPrefixOf_iff_prefix.1 hprefix
      rw [← hmark, List.drop_left] at h
      exact ⟨_, tail, .inr rfl, rfl, h⟩
    · exact ⟨[], data, .inl rfl, rfl, h⟩

theorem exists_isHtml (h : sniffHtml data = true) : ∃ lines, IsHtml lines data := by
  obtain ⟨lines, hlines⟩ := exists_markup h
  exact ⟨lines, isHtml_iff.2 hlines⟩

theorem sniffHtml_of_isHtml (h : IsHtml lines data) :
    sniffHtml data = true ↔ ∀ line ∈ lines, 0xE2 ∉ line := by
  refine (isHtml_iff.1 h).sniffHtmlFrom_iff ?_
  rw [trimBom]
  split
  · rw [List.length_drop]
    omega
  · omega

/-- `sniff_html` is true of exactly the markup if no line that is skipped holds the byte E2. -/
theorem sniffHtml_iff (data : Bytes) :
    (sniffHtml data = true ↔ ∃ lines, IsHtml lines data) ↔
      ∀ lines, IsHtml lines data → ∀ line ∈ lines, 0xE2 ∉ line := by
  constructor
  · intro h lines hlines
    exact (sniffHtml_of_isHtml hlines).1 (h.2 ⟨lines, hlines⟩)
  · intro h
    refine ⟨exists_isHtml, fun ⟨lines, hlines⟩ => ?_⟩
    exact (sniffHtml_of_isHtml hlines).2 (h lines hlines)

/-- A comment, a euro sign, and a script on the next line. -/
def euroLine : Bytes :=
  Bytes.ofText "<!-- --> ".toList ++ [0xE2, 0x82, 0xAC] ++ Bytes.ofText "\n<script>".toList

theorem not_sniffHtml_euroLine : ¬ (sniffHtml euroLine = true ↔ ∃ lines, IsHtml lines euroLine) := by
  have hshape : euroLine = [] ++ (commentOpen ++ ([0x20] ++ (commentClose ++
      ([0x20, 0xE2, 0x82, 0xAC] ++ ([0x0A] ++ Bytes.ofText "<script>".toList))))) := by decide
  have hhtml : IsHtml [[0x20, 0xE2, 0x82, 0xAC]] euroLine := by
    refine ⟨[], euroLine, .inl rfl, rfl, ?_⟩
    rw [hshape]
    exact .comment nofun (by decide) ⟨by decide, by decide⟩ (.signature (by simp [whitespace]) (by decide))
  have hsniff : sniffHtml euroLine = false := by decide
  rw [hsniff]
  exact fun h => nomatch h.2 ⟨_, hhtml⟩

end TinyBrowser.Orb
