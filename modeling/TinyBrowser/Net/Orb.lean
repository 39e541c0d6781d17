import TinyBrowser.Net.Cors

/-!
# Opaque Response Blocking

`crates/net/src/orb.rs`. The declared type decides first (`opaqueSafelisted`, `kind`, `nosniff`); a
type that does not decide leaves it to the first 1024 bytes of the body. `blocks` without a body is
the decision of the type alone.
-/

namespace TinyBrowser.Orb
open Lib

def sniffLimit : Nat := 1024

def neverSniffedTypes : List Text :=
  ["application/gzip".toList, "application/x-gzip".toList, "application/zip".toList,
    "text/event-stream".toList, "application/msexcel".toList, "application/mspowerpoint".toList,
    "application/msword".toList, "application/msword-template".toList, "application/pdf".toList,
    "application/vnd.ces-quickpoint".toList, "application/vnd.ces-quicksheet".toList,
    "application/vnd.ces-quickword".toList, "application/vnd.ms-excel".toList,
    "application/vnd.ms-excel.sheet.macroenabled.12".toList,
    "application/vnd.ms-powerpoint".toList,
    "application/vnd.ms-powerpoint.presentation.macroenabled.12".toList,
    "application/vnd.ms-word".toList, "application/vnd.ms-word.document.12".toList,
    "application/vnd.ms-word.document.macroenabled.12".toList, "application/vnd.msword".toList,
    "application/vnd.openxmlformats-officedocument.presentationml.presentation".toList,
    "application/vnd.openxmlformats-officedocument.presentationml.template".toList,
    "application/vnd.openxmlformats-officedocument.spreadsheetml.sheet".toList,
    "application/vnd.openxmlformats-officedocument.spreadsheetml.template".toList,
    "application/vnd.openxmlformats-officedocument.wordprocessingml.document".toList,
    "application/vnd.openxmlformats-officedocument.wordprocessingml.template".toList,
    "application/vnd.presentation-openxml".toList, "application/vnd.presentation-openxmlm".toList,
    "application/vnd.spreadsheet-openxml".toList, "application/vnd.wordprocessing-openxml".toList,
    "text/csv".toList, "text/pdf".toList, "application/proto".toList, "application/rtf".toList,
    "application/x-7z-compressed".toList, "text/calendar".toList, "text/rtf".toList,
    "text/tab-separated-values".toList, "text/vcard".toList, "text/x-vcard".toList,
    "multipart/signed".toList, "multipart/byteranges".toList]

def neverSniffedSubstrings : List Text := ["opendocument".toList, "protobuf".toList, "yaml".toList]

def neverSniffedSuffixes : List Text := ["+proto".toList]

def opaqueSafelisted (mime : Text) : Bool :=
  mime = "text/css".toList || mime = "image/svg+xml".toList || mime.startsWith "audio/".toList ||
    mime.startsWith "video/".toList ||
    mime ∈ ["application/ogg".toList, "application/dash+xml".toList,
      "application/vnd.apple.mpegurl".toList, "text/vtt".toList]

inductive Kind where
  | html
  | json
  | xml
  | plain
  | neverSniffed
  | other
deriving DecidableEq, Repr

def neverSniffed (mime : Text) : Bool :=
  mime ∈ neverSniffedTypes || neverSniffedSubstrings.any (fun needle => decide (needle <:+: mime)) ||
    neverSniffedSuffixes.any fun suffix => suffix.isSuffixOf mime

def kind (mime : Text) : Kind :=
  if mime = "image/svg+xml".toList || mime = "application/dash+xml".toList then .other
  else if mime = "text/html".toList then .html
  else if mime = "application/json".toList || mime = "text/json".toList ||
      mime = "application/json+protobuf".toList || "+json".toList.isSuffixOf mime then .json
  else if mime = "application/xml".toList || mime = "text/xml".toList ||
      "+xml".toList.isSuffixOf mime then .xml
  else if mime = "text/plain".toList then .plain
  else if neverSniffed mime then .neverSniffed
  else .other

def essence (mimeType : Text) : Text := Cors.mimeEssence mimeType

/-! ### Sniffing -/

def whitespace : Bytes := [0x09, 0x0A, 0x0C, 0x0D, 0x20]

def trimBom (data : Bytes) : Bytes :=
  if ([0xEF, 0xBB, 0xBF] : Bytes).isPrefixOf data then data.drop 3 else data

def trimWhitespace (data : Bytes) : Bytes := data.dropWhile (· ∈ whitespace)

def asciiLowerByte (b : UInt8) : UInt8 := if 0x41 ≤ b && b ≤ 0x5A then b + 0x20 else b

def startsWithIgnoreCase (data : Bytes) (start : Bytes) : Bool :=
  start.length ≤ data.length &&
    (data.take start.length).map asciiLowerByte = start.map asciiLowerByte

def htmlSignatures : List Bytes :=
  [Bytes.ofText "<!doctype html".toList, Bytes.ofText "<script".toList,
    Bytes.ofText "<html".toList, Bytes.ofText "<head".toList, Bytes.ofText "<iframe".toList,
    Bytes.ofText "<h1".toList, Bytes.ofText "<div".toList, Bytes.ofText "<font".toList,
    Bytes.ofText "<table".toList, Bytes.ofText "<a".toList, Bytes.ofText "<style".toList,
    Bytes.ofText "<title".toList, Bytes.ofText "<b".toList, Bytes.ofText "<p".toList]

/-- The index of the first LF, CR, or lead byte of a JavaScript line separator. -/
def lineEnd (data : Bytes) : Option Nat :=
  data.findIdx? fun b => b = 0x0A || b = 0x0D || (b = 0xE2 && 2 < data.length)

/-- The first index of `needle`. -/
def find (needle : Bytes) : Bytes → Option Nat
  | [] => if needle = [] then some 0 else none
  | b :: rest => if needle.isPrefixOf (b :: rest) then some 0 else (find needle rest).map (· + 1)

/-- What follows a terminated comment at the start and the rest of its line. -/
def skipHtmlComment (data : Bytes) : Option Bytes :=
  if !(Bytes.ofText "<!--".toList).isPrefixOf data then none
  else
    let rest := data.drop 4
    match find (Bytes.ofText "-->".toList) rest with
    | none => none
    | some stop =>
      let after := rest.drop (stop + 3)
      match lineEnd after with
      | some stop => some (after.drop stop)
      | none => some []

/-- The loop of `sniff_html`, which runs at most once for each byte. -/
def sniffHtmlFrom : Nat → Bytes → Bool
  | 0, _ => false
  | fuel + 1, data =>
    let data := trimWhitespace data
    if data = [] then false
    else if htmlSignatures.any fun signature => startsWithIgnoreCase data signature then true
    else match skipHtmlComment data with
      | none => false
      | some rest => sniffHtmlFrom fuel rest

def sniffHtml (data : Bytes) : Bool := sniffHtmlFrom (data.length + 1) (trimBom data)

def sniffXml (data : Bytes) : Bool :=
  (Bytes.ofText "<?xml".toList).isPrefixOf (trimWhitespace (trimBom data))

def scriptBreakingPrefixes : List Bytes :=
  [Bytes.ofText ")]\x7d'".toList, Bytes.ofText "\x7b\x7d&&".toList,
    Bytes.ofText "\x7b\x7d &&".toList, Bytes.ofText "for(;;);".toList,
    Bytes.ofText "while(1);".toList, Bytes.ofText "for (;;);".toList,
    Bytes.ofText "while (1);".toList]

inductive JsonState where
  | start
  | leftBrace
  | leftQuote
  | escape
  | rightQuote
deriving DecidableEq

def sniffJsonFrom : JsonState → Bytes → Bool
  | _, [] => false
  | .leftQuote, b :: rest =>
    if b = 0x22 then sniffJsonFrom .rightQuote rest
    else if b = 0x5C then sniffJsonFrom .escape rest
    else sniffJsonFrom .leftQuote rest
  | .escape, _ :: rest => sniffJsonFrom .leftQuote rest
  | .start, b :: rest =>
    if b ∈ whitespace then sniffJsonFrom .start rest
    else if b = 0x7B then sniffJsonFrom .leftBrace rest else false
  | .leftBrace, b :: rest =>
    if b ∈ whitespace then sniffJsonFrom .leftBrace rest
    else if b = 0x22 then sniffJsonFrom .leftQuote rest else false
  | .rightQuote, b :: rest =>
    if b ∈ whitespace then sniffJsonFrom .rightQuote rest else b = 0x3A

def sniffJson (data : Bytes) : Bool := sniffJsonFrom .start (trimBom data)

def sniffFetchOnly (data : Bytes) : Bool :=
  let data := trimBom data
  scriptBreakingPrefixes.any (·.isPrefixOf data) || sniffJson data

def mediaSignatures : List Bytes :=
  [Bytes.ofText "GIF87a".toList, Bytes.ofText "GIF89a".toList,
    [0x89, 0x50, 0x4E, 0x47, 0x0D, 0x0A, 0x1A, 0x0A], [0xFF, 0xD8, 0xFF],
    Bytes.ofText "RIFF".toList, Bytes.ofText "BM".toList, [0x00, 0x00, 0x01, 0x00],
    Bytes.ofText "OggS".toList, Bytes.ofText "ID3".toList, [0xFF, 0xFB], [0xFF, 0xF3],
    [0xFF, 0xF2], Bytes.ofText "fLaC".toList, [0x1A, 0x45, 0xDF, 0xA3], Bytes.ofText "wOFF".toList,
    Bytes.ofText "wOF2".toList, Bytes.ofText "ftyp".toList, [0x47, 0x40], [0x00, 0x00, 0x01, 0xBA],
    [0x00, 0x00, 0x01, 0xB3]]

def sniffMedia (data : Bytes) : Bool := mediaSignatures.any (·.isPrefixOf data)

/-! ### The decision -/

def blocks (mimeType : Option Text) (nosniff : Bool) (body : Option Bytes) : Bool :=
  match mimeType with
  | none => false
  | some mimeType =>
    let essence := essence mimeType
    if essence = [] then false
    else if opaqueSafelisted essence then false
    else match kind essence with
      | .neverSniffed => true
      | kind =>
        if kind ≠ .other && nosniff then true
        else match body with
          | none => false
          | some bytes =>
            let bytes := bytes.take sniffLimit
            if sniffMedia bytes then false
            else sniffHtml bytes || sniffXml bytes || sniffFetchOnly bytes

theorem blocks_nil (mimeType : Option Text) (nosniff : Bool) :
    blocks mimeType nosniff (some []) = blocks mimeType nosniff none := by
  have hsniff : (if sniffMedia [] then false
      else sniffHtml [] || sniffXml [] || sniffFetchOnly []) = false := by decide
  cases mimeType with
  | none => rfl
  | some mimeType => simp only [blocks, List.take_nil, hsniff]

end TinyBrowser.Orb
