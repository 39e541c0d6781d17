import TinyBrowser.Lib.Search
import TinyBrowser.Net.Cors
import TinyBrowser.Sniff.MimeType

/-!
# The encoding of a response

`crates/renderer/src/sniff.rs`: the encoding from a byte order mark, the transport charset, the XML
declaration or an HTML prescan. `crates/renderer/src/document/dial.rs`: the `ResponseDecoder`, which
sniffs what has arrived until that decides.

What `sniff_encoding` decides on the start of a body it decides on the whole body
(`settles_sniffEncoding`): each of its four detectors waits while what it looks for may still
be arriving. So a `ResponseDecoder` picks the same encoding whatever the pieces.
-/

namespace TinyBrowser.Sniff
open Lib

/-- What is used of the `encoding_rs` crate. `decodeChunk` is `decode_chunk`, which runs a decoder
over some bytes. -/
structure EncodingRs (Encoding Decoder : Type) where
  forBom : Bytes → Option (Encoding × Nat)
  forLabel : Bytes → Option Encoding
  name : Encoding → Text
  newDecoder : Encoding → Decoder
  decodeChunk : Decoder → Bytes → Bool → Text × Decoder
  utf8 : Encoding
  utf16Be : Encoding
  utf16Le : Encoding
  windows1252 : Encoding
  xUserDefined : Encoding

/-- `xml::navigated_content_type`. -/
def navigatedContentType (header : Text) : Option Text := do
  let essence := Text.toAsciiLowercase (Text.trim (header.takeWhile (· ≠ ';')))
  let (kind, subtype) ← Text.splitOnce '/' essence
  if kind = [] || !(subtype = "xml".toList || "+xml".toList.isSuffixOf subtype) then none
  else if essence ∈ ["text/xml".toList, "application/xhtml+xml".toList, "image/svg+xml".toList] then
    some essence
  else some "application/xml".toList

def bomPrefix (bytes : Bytes) : Bool :=
  [[0xEF, 0xBB, 0xBF], [0xFF, 0xFE], [0xFE, 0xFF]].any fun bom : Bytes =>
    bytes.length < bom.length && bytes.isPrefixOf bom

/-- `u8::is_ascii_whitespace`. -/
def isAsciiWhitespaceByte (b : UInt8) : Bool :=
  b = 0x09 || b = 0x0A || b = 0x0C || b = 0x0D || b = 0x20

/-- How many bytes of a body are looked at for a declaration. -/
def sniffWindow : Nat := 1024

section
variable {Encoding Decoder : Type} [DecidableEq Encoding] (rs : EncodingRs Encoding Decoder)

def charsetFromContentType (contentType : Text) : Option Encoding := do
  let parsed ← parseMimeType contentType
  let value ← charsetOf parsed.parameters
  rs.forLabel (Bytes.ofText (strip Text.isAsciiWhitespace value))

/-- The encoding of a `<meta>` charset, with the labels HTML replaces. -/
def htmlMetaEncoding (encoding : Encoding) : Encoding :=
  if encoding = rs.utf16Le ∨ encoding = rs.utf16Be then rs.utf8
  else if encoding = rs.xUserDefined then rs.windows1252
  else encoding

/-! ### XML declarations -/

/-- The encoding name after `encoding=`. -/
def encodingLabel (rest : Bytes) : Option Encoding :=
  match rest.dropWhile isAsciiWhitespaceByte with
  | [] => none
  | eq :: rest =>
    if eq ≠ 0x3D then none
    else match rest.dropWhile isAsciiWhitespaceByte with
      | [] => none
      | quote :: value =>
        if quote ≠ 0x22 ∧ quote ≠ 0x27 then none else rs.forLabel (value.takeWhile (· ≠ quote))

/-- The `encoding` pseudo-attribute from `declaration` on, with the byte before that. -/
def xmlEncodingAttributeFrom : Option UInt8 → Bytes → Option Encoding
  | _, [] => none
  | before, b :: rest =>
    let token := Bytes.ofText "encoding".toList
    let after := (b :: rest).drop token.length
    let preceded := before.any isAsciiWhitespaceByte
    let continues := after.head?.any fun b =>
      Cors.isAsciiAlphanumeric b || b = 0x2D || b = 0x5F || b = 0x2E || b = 0x3A
    if token.isPrefixOf (b :: rest) && preceded && !continues then encodingLabel rs after
    else xmlEncodingAttributeFrom (some b) rest

def xmlEncodingAttribute (declaration : Bytes) : Option Encoding :=
  xmlEncodingAttributeFrom rs none declaration

def xmlMark : Bytes := [0x3C, 0x3F, 0x78, 0x6D, 0x6C]

def xmlUtf16Be : Bytes := [0x00, 0x3C, 0x00, 0x3F]

def xmlUtf16Le : Bytes := [0x3C, 0x00, 0x3F, 0x00]

def xmlEncoding (bytes : Bytes) (eof : Bool) : Option (Encoding × Nat) :=
  if bytes.length < 4 && !eof &&
      (bytes.isPrefixOf xmlMark || bytes.isPrefixOf xmlUtf16Be || bytes.isPrefixOf xmlUtf16Le) then
    none
  else if xmlUtf16Be.isPrefixOf bytes then some (rs.utf16Be, 0)
  else if xmlUtf16Le.isPrefixOf bytes then some (rs.utf16Le, 0)
  else if bytes.length < xmlMark.length && bytes.isPrefixOf xmlMark && !eof then none
  else if !xmlMark.isPrefixOf bytes then some (rs.utf8, 0)
  else match findSub [0x3F, 0x3E] (bytes.take sniffWindow) with
    | none => if !eof && bytes.length < sniffWindow then none else some (rs.utf8, 0)
    | some (declaration, _) =>
      let declared := (xmlEncodingAttribute rs declaration).getD rs.utf8
      if declared = rs.utf16Le ∨ declared = rs.utf16Be then some (rs.utf8, 0)
      else some (declared, 0)

/-! ### The HTML prescan -/

def isMetaLabelStart (c : Char) : Bool := c ∈ [' ', '\t', '\r', '\n', '\'', '"']

def isMetaLabelEnd (c : Char) : Bool := isMetaLabelStart c || c ∈ [';', '>']

/-- The encoding a `<meta` tag names, if it names a known one. -/
def metaEncoding (tag : Text) : Option Encoding := do
  let (_, found) ← findSub "charset=".toList tag
  let label := (found.drop 8).dropWhile isMetaLabelStart
  rs.forLabel (Bytes.ofText (label.takeWhile fun c => !isMetaLabelEnd c))

/-- The prescan of the text from the cursor on. A tag with no `>` is still arriving. -/
def prescanFrom (text : Text) : Option Encoding :=
  match _hfound : findSub "<meta".toList text with
  | none => none
  | some (_, found) =>
    match _hend : found.dropWhile (· ≠ '>') with
    | [] => none
    | _ :: rest =>
      match metaEncoding rs (found.takeWhile (· ≠ '>')) with
      | some encoding => some encoding
      | none => prescanFrom rest
termination_by text.length
decreasing_by
  have hdrop : (found.dropWhile (· ≠ '>')).length ≤ found.length :=
    (List.dropWhile_sublist _).length_le
  rw [_hend, List.length_cons] at hdrop
  rw [(findSub_spec _hfound).1, List.length_append]
  omega

def prescanCharset (body : Bytes) : Option Encoding :=
  prescanFrom rs (Text.toAsciiLowercase (Bytes.toTextLossy (body.take sniffWindow)))

/-! ### Sniffing -/

def sniffEncoding (bytes : Bytes) (contentType : Option Text) (eof : Bool) :
    Option (Encoding × Nat) :=
  match rs.forBom bytes with
  | some bom => some bom
  | none =>
    if !eof && bomPrefix bytes then none
    else match contentType.bind (charsetFromContentType rs) with
      | some encoding => some (encoding, 0)
      | none =>
        if contentType.any fun header => (navigatedContentType header).isSome then
          xmlEncoding rs bytes eof
        else match prescanCharset rs bytes with
          | some encoding => some (htmlMetaEncoding rs encoding, 0)
          | none => if eof || sniffWindow ≤ bytes.length then some (rs.windows1252, 0) else none

/-! ### Decoding a body that arrives in pieces -/

variable (Encoding Decoder) in
structure ResponseDecoder where
  contentType : Option Text
  pending : Bytes
  decoder : Option Decoder
  encoding : Option Encoding

namespace ResponseDecoder

omit [DecidableEq Encoding] in
def new (contentType : Option Text) : ResponseDecoder Encoding Decoder :=
  ⟨contentType, [], none, none⟩

def push (self : ResponseDecoder Encoding Decoder) (bytes : Bytes) :
    Text × ResponseDecoder Encoding Decoder :=
  match self.decoder with
  | some decoder =>
    let (output, decoder) := rs.decodeChunk decoder bytes false
    (output, { self with decoder := some decoder })
  | none =>
    let pending := self.pending ++ bytes
    match sniffEncoding rs pending self.contentType false with
    | none => ([], { self with pending })
    | some (encoding, bomLen) =>
      let (output, decoder) := rs.decodeChunk (rs.newDecoder encoding) (pending.drop bomLen) false
      (output, { self with pending := [], decoder := some decoder, encoding := some encoding })

/-- The rest of the text, and the name of the encoding. -/
def finish (self : ResponseDecoder Encoding Decoder) : Text × Text :=
  match self.decoder with
  | some decoder =>
    ((rs.decodeChunk decoder [] true).1, rs.name (self.encoding.getD rs.utf8))
  | none =>
    let (encoding, bomLen) :=
      (sniffEncoding rs self.pending self.contentType true).getD (rs.windows1252, 0)
    ((rs.decodeChunk (rs.newDecoder encoding) (self.pending.drop bomLen) true).1, rs.name encoding)

end ResponseDecoder

end

/-! ### Sniffing does not depend on the pieces -/

variable {Encoding Decoder : Type} {rs : EncodingRs Encoding Decoder}
variable {b c : Bytes} {contentType : Option Text} {eof : Bool} {r : Encoding × Nat}

/-- The documented behaviour of `Encoding::for_bom`. -/
structure EncodingRs.Documented (rs : EncodingRs Encoding Decoder) : Prop where
  forBom : ∀ bytes, rs.forBom bytes =
    if [0xEF, 0xBB, 0xBF] <+: bytes then some (rs.utf8, 3)
    else if [0xFF, 0xFE] <+: bytes then some (rs.utf16Le, 2)
    else if [0xFE, 0xFF] <+: bytes then some (rs.utf16Be, 2)
    else none

/-! ### Byte order marks -/

def boms : List Bytes := [[0xEF, 0xBB, 0xBF], [0xFF, 0xFE], [0xFE, 0xFF]]

theorem bomPrefix_eq_false_iff :
    bomPrefix b = false ↔ ∀ bom ∈ boms, ¬ (b.length < bom.length ∧ b <+: bom) := by
  simp [bomPrefix, boms, ← Bool.not_eq_true, List.isPrefixOf_iff_prefix]

theorem bomPrefix_append (h : bomPrefix b = false) (c : Bytes) : bomPrefix (b ++ c) = false := by
  rw [bomPrefix_eq_false_iff] at h ⊢
  rintro bom hbom ⟨hlen, hpre⟩
  rw [List.length_append] at hlen
  exact h bom hbom ⟨by omega, (List.prefix_append b c).trans hpre⟩

theorem forBom_append (hrs : rs.Documented) (h : bomPrefix b = false) (c : Bytes) :
    rs.forBom (b ++ c) = rs.forBom b := by
  rw [bomPrefix_eq_false_iff] at h
  have hmark : ∀ bom ∈ boms, bom <+: b ++ c ↔ bom <+: b := fun bom hbom =>
    prefix_append_iff_of_not (h bom hbom)
  rw [hrs.forBom, hrs.forBom, if_congr (hmark _ (by simp [boms])) rfl rfl,
    if_congr (hmark [0xFF, 0xFE] (by simp [boms])) rfl rfl,
    if_congr (hmark [0xFE, 0xFF] (by simp [boms])) rfl rfl]

theorem bomPrefix_of_forBom (hrs : rs.Documented) (h : rs.forBom b = some r) :
    bomPrefix b = false := by
  have hstart : ∃ bom ∈ boms, bom <+: b := by
    rw [hrs.forBom] at h
    split_ifs at h with hutf8 hle hbe
    · exact ⟨_, by simp [boms], hutf8⟩
    · exact ⟨_, by simp [boms], hle⟩
    · exact ⟨_, by simp [boms], hbe⟩
  obtain ⟨bom, hbom, hstart⟩ := hstart
  rw [bomPrefix_eq_false_iff]
  rintro bom' hbom' ⟨hlen, hpre⟩
  have hnone : ∀ bom ∈ boms, ∀ bom' ∈ boms, bom <+: bom' → bom'.length ≤ bom.length := by decide
  have hle := hnone bom hbom bom' hbom' (hstart.trans hpre)
  have hle' := hstart.length_le
  omega

/-! ### The part that is looked at -/

theorem take_sniffWindow_append (b c : Bytes) :
    ∃ c', (b ++ c).take sniffWindow = b.take sniffWindow ++ c' :=
  ⟨_, List.take_append⟩

theorem take_sniffWindow_of_le (h : sniffWindow ≤ b.length) (c : Bytes) :
    (b ++ c).take sniffWindow = b.take sniffWindow :=
  List.take_append_of_le_length h

/-! ### The HTML prescan -/

theorem prescanFrom_eq {text tag rest : Text} (before : Text)
    (hfound : findSub "<meta".toList text = some (before, tag ++ '>' :: rest)) (htag : '>' ∉ tag) :
    prescanFrom rs text = (metaEncoding rs tag).or (prescanFrom rs rest) := by
  obtain ⟨htake, hdrop⟩ := takeWhile_append (p := (· ≠ '>')) (l := tag) (r := '>' :: rest)
    (fun d hd => decide_eq_true fun heq : d = '>' => htag (heq ▸ hd))
    (fun d hd => by simp [← Option.some.inj hd])
  rw [prescanFrom]
  split
  · rename_i hnone
    rw [hfound] at hnone
    cases hnone
  · rename_i found hsome
    rw [hfound] at hsome
    obtain ⟨-, rfl⟩ := Prod.mk.inj (Option.some.inj hsome)
    split
    · rename_i hnil
      rw [hdrop] at hnil
      cases hnil
    · rename_i rest' hcons
      rw [hdrop] at hcons
      rw [htake, ← (List.cons.inj hcons).2]
      cases metaEncoding rs tag <;> rfl

/-- Where the prescan finds something, there is a tag with its `>`. -/
theorem exists_tag_of_prescanFrom {text : Text} {encoding : Encoding}
    (h : prescanFrom rs text = some encoding) :
    ∃ before tag rest, '>' ∉ "<meta".toList ++ tag ∧
      findSub "<meta".toList text = some (before, "<meta".toList ++ tag ++ '>' :: rest) := by
  rw [prescanFrom] at h
  split at h
  · cases h
  rename_i before found hfound
  split at h
  · cases h
  rename_i d rest hend
  obtain ⟨-, x, rfl⟩ := findSub_spec hfound
  have hmeta : ∀ d ∈ "<meta".toList, decide (d ≠ '>') = true := by simp
  rw [List.dropWhile_append_of_pos hmeta] at hend
  have hclose : d = '>' := by
    have hnot := head?_dropWhile_eq_false (fun d => decide (d ≠ '>')) x
    rw [hend] at hnot
    simpa using hnot d rfl
  subst hclose
  refine ⟨before, x.takeWhile (· ≠ '>'), rest, fun hmem => ?_, ?_⟩
  · rcases List.mem_append.1 hmem with hmem | hmem
    · exact absurd rfl (of_decide_eq_true (hmeta _ hmem))
    · have hnot := List.mem_takeWhile_imp hmem
      simp at hnot
  · rw [hfound, List.append_assoc, ← hend, List.takeWhile_append_dropWhile]

/-- What the prescan finds does not depend on what comes after the tag. -/
theorem prescanFrom_replace {text : Text} {encoding : Encoding}
    (h : prescanFrom rs text = some encoding) :
    ∃ s t, text = s ++ '>' :: t ∧ ∀ t', prescanFrom rs (s ++ '>' :: t') = some encoding := by
  induction hn : text.length using Nat.strongRecOn generalizing text with
  | ind n ih =>
    subst hn
    obtain ⟨before, tag, rest, htag, hfound⟩ := exists_tag_of_prescanFrom h
    obtain ⟨hparts, -⟩ := findSub_spec hfound
    -- the tag is found whatever follows it
    have hround : ∀ rest', prescanFrom rs (before ++ ("<meta".toList ++ tag ++ '>' :: rest')) =
        (metaEncoding rs ("<meta".toList ++ tag)).or (prescanFrom rs rest') := by
      intro rest'
      refine prescanFrom_eq before ?_ htag
      rw [hparts, List.append_assoc] at hfound
      rw [List.append_assoc]
      exact findSub_replace hfound _
    rw [hparts, hround] at h
    cases hmeta : metaEncoding rs ("<meta".toList ++ tag) with
    | some found =>
      rw [hmeta] at h hround
      refine ⟨before ++ ("<meta".toList ++ tag), rest, by rw [hparts]; simp, fun t' => ?_⟩
      rw [List.append_assoc, hround]
      exact h
    | none =>
      rw [hmeta] at h hround
      obtain ⟨s, t, hrest, hmore⟩ := ih _ (by
        rw [hparts, List.length_append, List.length_append, List.length_cons]
        omega) h rfl
      refine ⟨before ++ ("<meta".toList ++ tag ++ '>' :: s), t, ?_, fun t' => ?_⟩
      · rw [hparts, hrest]
        simp
      · have hshape : before ++ ("<meta".toList ++ tag ++ '>' :: s) ++ '>' :: t' =
            before ++ ("<meta".toList ++ tag ++ '>' :: (s ++ '>' :: t')) := by simp
        rw [hshape, hround]
        exact hmore t'

theorem prescanCharset_append {encoding : Encoding} (h : prescanCharset rs b = some encoding)
    (c : Bytes) : prescanCharset rs (b ++ c) = some encoding := by
  obtain ⟨s, t, htext, hmore⟩ := prescanFrom_replace h
  obtain ⟨s', rest, hdecoded, hs', hrest⟩ := List.map_eq_append_iff.1 htext
  obtain ⟨d, t', rfl, hd, -⟩ := List.map_eq_cons_iff.1 hrest
  obtain rfl := Text.eq_of_asciiLower (by decide) hd
  obtain ⟨v₁, v₂, hv, hv₁⟩ := Bytes.toTextLossy_eq_append_cons (by decide) (by decide) hdecoded
  obtain ⟨c', hc'⟩ := take_sniffWindow_append b c
  rw [prescanCharset, hc', hv, List.append_assoc, List.cons_append,
    Bytes.toTextLossy_append (by decide), hv₁, Text.toAsciiLowercase, List.map_append,
    List.map_cons, hs']
  exact hmore _

/-! ### XML declarations -/

variable [DecidableEq Encoding]

/-- Whether fewer than `n` bytes have arrived, all of them the start of `pat`. -/
def Arriving (n : Nat) (pat b : Bytes) : Bool := b.length < n && b.isPrefixOf pat

theorem arriving_append {pat : Bytes} {n : Nat} (h : Arriving n pat b = false) (c : Bytes) :
    Arriving n pat (b ++ c) = false := by
  rw [Arriving, Bool.and_eq_false_iff, decide_eq_false_iff_not, ← Bool.not_eq_true,
    List.isPrefixOf_iff_prefix] at h ⊢
  rcases h with hlen | hpre
  · refine .inl fun hlt => hlen ?_
    rw [List.length_append] at hlt
    omega
  · exact .inr fun hpre' => hpre ((List.prefix_append b c).trans hpre')

theorem isPrefixOf_append_of_arriving {p : Bytes} (h : Arriving p.length p b = false) (c : Bytes) :
    p.isPrefixOf (b ++ c) = p.isPrefixOf b := by
  rw [Bool.eq_iff_iff, List.isPrefixOf_iff_prefix, List.isPrefixOf_iff_prefix]
  refine prefix_append_iff_of_not fun harriving => ?_
  rw [Arriving, decide_eq_true harriving.1, List.isPrefixOf_iff_prefix.2 harriving.2] at h
  cases h

theorem xml_start (h : (b.length < 4 && !eof && (b.isPrefixOf xmlMark || b.isPrefixOf xmlUtf16Be ||
      b.isPrefixOf xmlUtf16Le)) = false ) (heof : eof = false) :
    ∀ pat ∈ [xmlMark, xmlUtf16Be, xmlUtf16Le], Arriving 4 pat b = false := by
  subst heof
  simp only [Arriving, List.forall_mem_cons]
  cases hlen : decide (b.length < 4) with
  | false => simp
  | true =>
    rw [hlen] at h
    simpa [and_assoc] using h

theorem xml_start_append (h : ∀ pat ∈ [xmlMark, xmlUtf16Be, xmlUtf16Le], Arriving 4 pat b = false) :
    (b.length < 4 && !eof && (b.isPrefixOf xmlMark || b.isPrefixOf xmlUtf16Be ||
      b.isPrefixOf xmlUtf16Le)) = false := by
  simp only [Arriving, List.forall_mem_cons] at h
  cases hlen : decide (b.length < 4) with
  | false => simp
  | true =>
    rw [hlen] at h
    simp only [Bool.true_and] at h
    simp [h.1, h.2.1, h.2.2.1]

theorem findSub_take_append {pat a t : Bytes}
    (h : findSub pat (b.take sniffWindow) = some (a, t)) (c : Bytes) :
    ∃ t', findSub pat ((b ++ c).take sniffWindow) = some (a, t') := by
  obtain ⟨c', hc'⟩ := take_sniffWindow_append b c
  exact ⟨t ++ c', by rw [hc', findSub_append h]⟩

theorem xmlEncoding_append (h : xmlEncoding rs b false = some r) (c : Bytes) (eof : Bool) :
    xmlEncoding rs (b ++ c) eof = some r := by
  unfold xmlEncoding at h
  split at h
  · cases h
  rename_i hfirst
  have hstart := xml_start (Bool.eq_false_iff.2 hfirst) rfl
  have hstart' : ∀ pat ∈ [xmlMark, xmlUtf16Be, xmlUtf16Le], Arriving 4 pat (b ++ c) = false :=
    fun pat hpat => arriving_append (hstart pat hpat) c
  have hsameBe : xmlUtf16Be.isPrefixOf (b ++ c) = xmlUtf16Be.isPrefixOf b :=
    isPrefixOf_append_of_arriving (p := xmlUtf16Be) (hstart _ (by simp)) c
  have hsameLe : xmlUtf16Le.isPrefixOf (b ++ c) = xmlUtf16Le.isPrefixOf b :=
    isPrefixOf_append_of_arriving (p := xmlUtf16Le) (hstart _ (by simp)) c
  unfold xmlEncoding
  rw [xml_start_append hstart', if_neg Bool.false_ne_true, hsameBe, hsameLe]
  split at h
  · rename_i hbe
    rw [if_pos hbe]
    exact h
  rename_i hbe
  rw [if_neg hbe]
  split at h
  · rename_i hle
    rw [if_pos hle]
    exact h
  rename_i hle
  rw [if_neg hle]
  split at h
  · cases h
  rename_i hsecond
  rw [Bool.not_false, Bool.and_true] at hsecond
  have hmark : Arriving xmlMark.length xmlMark b = false := Bool.eq_false_iff.2 hsecond
  rw [show (decide ((b ++ c).length < xmlMark.length) && (b ++ c).isPrefixOf xmlMark) = false from
    arriving_append hmark c, Bool.false_and, if_neg Bool.false_ne_true,
    isPrefixOf_append_of_arriving hmark c]
  split at h
  · rename_i hnot
    rw [if_pos hnot]
    exact h
  rename_i hnot
  rw [if_neg hnot]
  cases hfind : findSub [0x3F, 0x3E] (b.take sniffWindow) with
  | some found =>
    obtain ⟨declaration, after⟩ := found
    obtain ⟨after', hfind'⟩ := findSub_take_append hfind c
    rw [hfind] at h
    rw [hfind']
    exact h
  | none =>
    rw [hfind] at h
    simp only [Bool.not_false, Bool.true_and] at h
    split at h
    · cases h
    · rename_i hlen
      have hlen : sniffWindow ≤ b.length := by simpa using hlen
      have hlen' : ¬ (b ++ c).length < sniffWindow := by
        rw [List.length_append]
        omega
      rw [take_sniffWindow_of_le hlen, hfind]
      simp only [decide_eq_false hlen', Bool.and_false]
      exact h

/-! ### Sniffing -/

theorem sniffEncoding_append (hrs : rs.Documented)
    (h : sniffEncoding rs b contentType false = some r) (c : Bytes) (eof : Bool) :
    sniffEncoding rs (b ++ c) contentType eof = some r := by
  unfold sniffEncoding at h ⊢
  cases hbom : rs.forBom b with
  | some bom =>
    rw [hbom] at h
    rw [forBom_append hrs (bomPrefix_of_forBom hrs hbom), hbom]
    exact h
  | none =>
    simp only [hbom, Bool.not_false, Bool.true_and] at h
    split at h
    · cases h
    rename_i hwait
    rw [Bool.not_eq_true] at hwait
    rw [forBom_append hrs hwait, hbom]
    simp only [bomPrefix_append hwait c, Bool.and_false, Bool.false_eq_true, if_false]
    split at h
    · exact h
    split at h
    · rename_i hxml
      rw [if_pos hxml]
      exact xmlEncoding_append h c eof
    rename_i hxml
    rw [if_neg hxml]
    cases hprescan : prescanCharset rs b with
    | some encoding =>
      rw [hprescan] at h
      rw [prescanCharset_append hprescan]
      exact h
    | none =>
      simp only [hprescan, Bool.false_or, decide_eq_true_eq] at h
      split at h
      · rename_i hlen
        have hlen' : sniffWindow ≤ (b ++ c).length := by
          rw [List.length_append]
          omega
        have hsame : prescanCharset rs (b ++ c) = none := by
          rw [prescanCharset, take_sniffWindow_of_le hlen]
          exact hprescan
        simp only [hsame, decide_eq_true hlen', Bool.or_true, if_true]
        exact h
      · cases h

theorem xmlEncoding_eof (rs : EncodingRs Encoding Decoder) (b : Bytes) :
    (xmlEncoding rs b true).isSome = true := by
  unfold xmlEncoding
  simp only [Bool.not_true, Bool.and_false, Bool.false_and, Bool.false_eq_true, if_false]
  split
  · rfl
  split
  · rfl
  split
  · rfl
  split
  · rfl
  · split <;> rfl

theorem sniffEncoding_eof (rs : EncodingRs Encoding Decoder) (b : Bytes)
    (contentType : Option Text) :
    (sniffEncoding rs b contentType true).isSome = true := by
  unfold sniffEncoding
  split
  · rfl
  simp only [Bool.not_true, Bool.false_and, Bool.false_eq_true, if_false, Bool.true_or, if_true]
  split
  · rfl
  split
  · exact xmlEncoding_eof rs b
  split <;> rfl

/-- What is sniffed at the end. -/
def sniffWhole (rs : EncodingRs Encoding Decoder) (contentType : Option Text) (bytes : Bytes) :
    Encoding × Nat :=
  (sniffEncoding rs bytes contentType true).getD (rs.windows1252, 0)

theorem settles_sniffEncoding (hrs : rs.Documented) (contentType : Option Text) :
    Settles (sniffEncoding rs · contentType false) (sniffWhole rs contentType) where
  stable h c := sniffEncoding_append hrs h c false
  agrees h c := by rw [sniffWhole, sniffEncoding_append hrs h c true, Option.getD_some]

/-! ### A body in pieces -/

namespace ResponseDecoder

/-- The decoder after the pieces of a body. -/
def feed (rs : EncodingRs Encoding Decoder) (contentType : Option Text) (chunks : List Bytes) :
    ResponseDecoder Encoding Decoder :=
  chunks.foldl (fun self chunk => (self.push rs chunk).2) (new contentType)

/-- The encoding whose name `finish` gives. -/
def picked (rs : EncodingRs Encoding Decoder) (self : ResponseDecoder Encoding Decoder) :
    Encoding :=
  match self.decoder with
  | some _ => self.encoding.getD rs.utf8
  | none => (sniffWhole rs self.contentType self.pending).1

theorem finish_snd (self : ResponseDecoder Encoding Decoder) :
    (self.finish rs).2 = rs.name (self.picked rs) := by
  unfold finish picked
  cases self.decoder <;> rfl

theorem picked_foldl_of_decoder (chunks : List Bytes) {self : ResponseDecoder Encoding Decoder}
    (h : self.decoder.isSome = true) :
    (chunks.foldl (fun self chunk => (self.push rs chunk).2) self).picked rs =
      self.encoding.getD rs.utf8 := by
  induction chunks generalizing self with
  | nil =>
    obtain ⟨decoder, hdecoder⟩ := Option.isSome_iff_exists.1 h
    rw [List.foldl_nil, picked, hdecoder]
  | cons chunk chunks ih =>
    obtain ⟨decoder, hdecoder⟩ := Option.isSome_iff_exists.1 h
    have hpush : (self.push rs chunk).2.encoding = self.encoding ∧
        (self.push rs chunk).2.decoder.isSome = true := by
      unfold push
      rw [hdecoder]
      exact ⟨rfl, rfl⟩
    rw [List.foldl_cons, ih hpush.2, hpush.1]

/-- Until then the decoder does what `settle` does. -/
theorem picked_foldl (chunks : List Bytes) {self : ResponseDecoder Encoding Decoder}
    (h : self.decoder = none) :
    (chunks.foldl (fun self chunk => (self.push rs chunk).2) self).picked rs =
      (settle (sniffEncoding rs · self.contentType false) (sniffWhole rs self.contentType)
        self.pending chunks).1 := by
  induction chunks generalizing self with
  | nil => rw [List.foldl_nil, picked, h, settle]
  | cons chunk chunks ih =>
    rw [List.foldl_cons, settle]
    cases hwait : sniffEncoding rs (self.pending ++ chunk) self.contentType false with
    | none =>
      have hpush : (self.push rs chunk).2 = { self with pending := self.pending ++ chunk } := by
        unfold push
        rw [h]
        simp only [hwait]
      rw [hpush]
      exact ih h
    | some r =>
      have hpush : (self.push rs chunk).2.encoding = some r.1 ∧
          (self.push rs chunk).2.decoder.isSome = true := by
        unfold push
        rw [h]
        simp [hwait]
      rw [picked_foldl_of_decoder chunks hpush.2, hpush.1, Option.getD_some]

theorem picked_feed (hrs : rs.Documented) (contentType : Option Text) (chunks : List Bytes) :
    (feed rs contentType chunks).picked rs = (sniffWhole rs contentType chunks.flatten).1 := by
  rw [feed, picked_foldl chunks rfl, settle_eq (settles_sniffEncoding hrs _)]
  rfl

end ResponseDecoder

/-- What is sniffed on a part of a body is what is sniffed on the whole of it, at the end something
always is, and a body in pieces is decoded in the encoding of the body in one piece. -/
theorem sniffEncoding_chunks (hrs : rs.Documented) (contentType : Option Text) :
    (∀ b r, sniffEncoding rs b contentType false = some r →
      ∀ c eof, sniffEncoding rs (b ++ c) contentType eof = some r) ∧
    (∀ b, (sniffEncoding rs b contentType true).isSome = true) ∧
    ∀ chunks : List Bytes,
      (sniffEncoding rs chunks.flatten contentType true).map Prod.fst =
        some ((ResponseDecoder.feed rs contentType chunks).picked rs) ∧
      ((ResponseDecoder.feed rs contentType chunks).finish rs).2 =
        ((ResponseDecoder.feed rs contentType [chunks.flatten]).finish rs).2 := by
  refine ⟨fun b r h c eof => sniffEncoding_append hrs h c eof,
    fun b => sniffEncoding_eof rs b contentType, fun chunks => ⟨?_, ?_⟩⟩
  · obtain ⟨r, hr⟩ := Option.isSome_iff_exists.1 (sniffEncoding_eof rs chunks.flatten contentType)
    rw [ResponseDecoder.picked_feed hrs, sniffWhole, hr]
    rfl
  · rw [ResponseDecoder.finish_snd, ResponseDecoder.finish_snd, ResponseDecoder.picked_feed hrs,
      ResponseDecoder.picked_feed hrs, List.flatten_singleton]

/-- Encodings as their names, with the labels of two of them. -/
def encodingNames : EncodingRs Text Unit where
  forBom bytes :=
    if [0xEF, 0xBB, 0xBF] <+: bytes then some ("UTF-8".toList, 3)
    else if [0xFF, 0xFE] <+: bytes then some ("UTF-16LE".toList, 2)
    else if [0xFE, 0xFF] <+: bytes then some ("UTF-16BE".toList, 2)
    else none
  forLabel label :=
    if label = Bytes.ofText "utf-8".toList then some "UTF-8".toList
    else if label = Bytes.ofText "shift_jis".toList then some "Shift_JIS".toList
    else none
  name encoding := encoding
  newDecoder _ := ()
  decodeChunk _ bytes _ := (Bytes.toTextLossy bytes, ())
  utf8 := "UTF-8".toList
  utf16Be := "UTF-16BE".toList
  utf16Le := "UTF-16LE".toList
  windows1252 := "windows-1252".toList
  xUserDefined := "x-user-defined".toList

theorem documented_encodingNames : encodingNames.Documented where
  forBom _ := rfl

theorem sniffEncoding_chunks_bom :
    sniffEncoding encodingNames ([0xEF, 0xBB, 0xBF] ++ [0x61]) none true =
        some ("UTF-8".toList, 3) ∧
      ((ResponseDecoder.feed encodingNames none [[0xEF], [0xBB, 0xBF, 0x61]]).finish
          encodingNames).2 =
        ((ResponseDecoder.feed encodingNames none [[0xEF, 0xBB, 0xBF, 0x61]]).finish
          encodingNames).2 := by
  have hchunks := sniffEncoding_chunks documented_encodingNames none
  exact ⟨hchunks.1 [0xEF, 0xBB, 0xBF] ("UTF-8".toList, 3) (by decide) [0x61] true,
    (hchunks.2.2 [[0xEF], [0xBB, 0xBF, 0x61]]).2⟩

end TinyBrowser.Sniff
