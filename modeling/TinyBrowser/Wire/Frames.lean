import TinyBrowser.Lib.Io

/-!
# Frames of the renderer channel

Every frame starts with a header of 16 bytes: version, kind, two zero bytes of flags, the request
id (eight bytes) and the length of the payload (four bytes), both in network order.
`decodeHeader_eq_ok` says that `encodeHeader` and `decodeHeader` are inverse to each other, and
`readFrame_eq` that reading from any stream is `decodeFrame` of its bytes.

`decodeFrame` with `frameBytes` is a self-delimiting format (`framing`). What holds of such formats
then holds of every run of reads over a stream that was written frame by frame, whatever pieces it
arrives in.
-/

namespace TinyBrowser.Channel
open Lib

def protocolVersion : UInt8 := 26

abbrev headerBytes : Nat := 16

def maxControlBytes : Nat := 24 * 1024 * 1024

def maxBodyChunkBytes : Nat := 64 * 1024

inductive FrameKind where
  | control
  | requestChunk
  | responseChunk
deriving DecidableEq, Repr

def FrameKind.wire : FrameKind → UInt8
  | control => 0
  | requestChunk => 1
  | responseChunk => 2

def FrameKind.fromWire (byte : UInt8) : Option FrameKind :=
  if byte = 0 then some .control
  else if byte = 1 then some .requestChunk
  else if byte = 2 then some .responseChunk
  else none

def FrameKind.maxPayload : FrameKind → Nat
  | control => maxControlBytes
  | requestChunk | responseChunk => maxBodyChunkBytes

@[simp] theorem FrameKind.fromWire_wire (kind : FrameKind) : fromWire kind.wire = some kind := by
  cases kind <;> rfl

section
variable {kind : FrameKind}

theorem FrameKind.wire_of_fromWire {byte : UInt8}
    (h : fromWire byte = some kind) : kind.wire = byte := by
  unfold fromWire at h
  split_ifs at h with h0 h1 h2 <;> cases h
  · exact h0.symm
  · exact h1.symm
  · exact h2.symm

theorem FrameKind.maxPayload_lt (kind : FrameKind) : kind.maxPayload < 256 ^ 4 := by
  cases kind <;> decide

/-- The request is zero for control frames. -/
structure Frame where
  kind : FrameKind
  request : UInt64
deriving DecidableEq, Repr

abbrev Header := Vector UInt8 headerBytes

/-- A header that starts as zeros and has `bytes` written over it. -/
def Header.ofBytes (bytes : Bytes) : Header := Vector.ofFn fun i => bytes.getD i 0

theorem Header.toList_ofBytes {bytes : Bytes} (h : bytes.length = headerBytes) :
    (Header.ofBytes bytes).toList = bytes := by
  apply List.ext_getElem
  · rw [Vector.length_toList, h]
  · intro i hi hi'
    simp [Header.ofBytes, List.getElem?_eq_getElem hi']

theorem Header.ofBytes_toList (header : Header) : Header.ofBytes header.toList = header := by
  apply Vector.toList_inj.mp
  exact Header.toList_ofBytes (Vector.length_toList)

def invalid (message : String) : IoError := ⟨.invalidData, message⟩

def encodeHeader (kind : FrameKind) (request : UInt64) (length : Nat) : Except IoError Header :=
  if kind.maxPayload < length then .error (invalid "renderer IPC payload exceeds limit")
  else if 2 ^ 32 ≤ length then .error (invalid "renderer IPC payload exceeds limit")
  else
    .ok (Header.ofBytes ([protocolVersion, kind.wire, 0, 0] ++ Bytes.toBe 8 request.toNat ++
      Bytes.toBe 4 length))

def decodeHeader (header : Header) : Except IoError (FrameKind × UInt64 × Nat) :=
  if header[0] ≠ protocolVersion then .error (invalid "unsupported renderer IPC version")
  else
    match FrameKind.fromWire header[1] with
    | none => .error (invalid "unknown renderer IPC frame kind")
    | some kind =>
      if header[2] ≠ 0 ∨ header[3] ≠ 0 then .error (invalid "nonzero renderer IPC flags")
      else
        let request := UInt64.ofNat (Bytes.ofBe [header[4], header[5], header[6], header[7],
          header[8], header[9], header[10], header[11]])
        let length := Bytes.ofBe [header[12], header[13], header[14], header[15]]
        if kind.maxPayload < length then .error (invalid "renderer IPC frame exceeds limit")
        else .ok (kind, request, length)

variable {length : Nat}

theorem encodeHeader_of_le (request : UInt64)
    (h : length ≤ kind.maxPayload) :
    encodeHeader kind request length = .ok (Header.ofBytes ([protocolVersion, kind.wire, 0, 0] ++
      Bytes.toBe 8 request.toNat ++ Bytes.toBe 4 length)) := by
  have hlt := kind.maxPayload_lt
  rw [encodeHeader, if_neg (by omega), if_neg (by omega)]

theorem encodeHeader_of_lt (request : UInt64)
    (h : kind.maxPayload < length) :
    encodeHeader kind request length = .error (invalid "renderer IPC payload exceeds limit") := by
  rw [encodeHeader, if_pos h]

variable {request : UInt64} {header : Header}

theorem length_le_of_encodeHeader (h : encodeHeader kind request length = .ok header) :
    length ≤ kind.maxPayload := by
  by_contra hlt
  rw [encodeHeader_of_lt request (by omega)] at h
  cases h

theorem Header.exists_parts (header : Header) : ∃ version kind flag flag' request length,
    List.length request = 8 ∧ List.length length = 4 ∧
      header = Header.ofBytes ([version, kind, flag, flag'] ++ request ++ length) := by
  have hlen : header.toList.length = 16 := Vector.length_toList
  have hback := header.ofBytes_toList
  match hl : header.toList, hlen with
  | version :: kind :: flag :: flag' :: rest, hlen =>
    have hrest : rest.length = 12 := by simpa using hlen
    refine ⟨version, kind, flag, flag', rest.take 8, rest.drop 8, ?_, ?_, ?_⟩
    · rw [List.length_take]; omega
    · rw [List.length_drop]; omega
    · rw [List.append_assoc, List.take_append_drop, ← hback, hl]
      rfl

theorem decodeHeader_ofBytes (version kind flag flag' : UInt8) {request length : Bytes}
    (hrequest : request.length = 8) (hlength : length.length = 4) :
    decodeHeader (Header.ofBytes ([version, kind, flag, flag'] ++ request ++ length)) =
      if version ≠ protocolVersion then .error (invalid "unsupported renderer IPC version")
      else
        match FrameKind.fromWire kind with
        | none => .error (invalid "unknown renderer IPC frame kind")
        | some kind =>
          if flag ≠ 0 ∨ flag' ≠ 0 then .error (invalid "nonzero renderer IPC flags")
          else if kind.maxPayload < Bytes.ofBe length then
            .error (invalid "renderer IPC frame exceeds limit")
          else .ok (kind, UInt64.ofNat (Bytes.ofBe request), Bytes.ofBe length) := by
  match request, hrequest, length, hlength with
  | [_, _, _, _, _, _, _, _], _, [_, _, _, _], _ =>
    simp only [decodeHeader, Header.ofBytes, Vector.getElem_ofFn]
    rfl

theorem decodeHeader_encodeHeader (h : encodeHeader kind request length = .ok header) :
    decodeHeader header = .ok (kind, request, length) := by
  have hle := length_le_of_encodeHeader h
  rw [encodeHeader_of_le request hle] at h
  obtain rfl := Except.ok.inj h
  have hrequest : Bytes.ofBe (Bytes.toBe 8 request.toNat) = request.toNat :=
    Bytes.ofBe_toBe 8 _ (by have := request.toNat_lt; omega)
  have hlength : Bytes.ofBe (Bytes.toBe 4 length) = length :=
    Bytes.ofBe_toBe 4 _ (by have := kind.maxPayload_lt; omega)
  rw [decodeHeader_ofBytes _ _ _ _ (Bytes.length_toBe ..) (Bytes.length_toBe ..), if_neg (by simp),
    FrameKind.fromWire_wire, hrequest, hlength]
  show (if (0 : UInt8) ≠ 0 ∨ (0 : UInt8) ≠ 0 then _ else _) = _
  rw [if_neg (by simp), if_neg (by omega), UInt64.ofNat_toNat]

theorem encodeHeader_decodeHeader (h : decodeHeader header = .ok (kind, request, length)) :
    encodeHeader kind request length = .ok header := by
  obtain ⟨version, wire, flag, flag', requestBytes, lengthBytes, hrequest, hlength, rfl⟩ :=
    header.exists_parts
  rw [decodeHeader_ofBytes _ _ _ _ hrequest hlength] at h
  have hlt := Bytes.ofBe_lt requestBytes
  have hbackRequest := Bytes.toBe_ofBe requestBytes
  have hbackLength := Bytes.toBe_ofBe lengthBytes
  rw [hrequest] at hlt hbackRequest
  rw [hlength] at hbackLength
  cases hkind : FrameKind.fromWire wire with
  | none =>
    rw [hkind] at h
    split_ifs at h
  | some kind' =>
    rw [hkind] at h
    dsimp only at h
    split_ifs at h with hversion hflags hlimit
    simp only [Except.ok.injEq, Prod.mk.injEq] at h
    obtain ⟨rfl, rfl, rfl⟩ := h
    simp only [not_or, ne_eq, not_not] at hversion hflags
    rw [encodeHeader_of_le _ (by omega), FrameKind.wire_of_fromWire hkind, hbackLength,
      UInt64.toNat_ofNat_of_lt' (by simpa using hlt), hbackRequest, hversion, hflags.1, hflags.2]

/-- The two directions of the header are inverse to each other. -/
theorem decodeHeader_eq_ok :
    decodeHeader header = .ok (kind, request, length) ↔
      encodeHeader kind request length = .ok header :=
  ⟨encodeHeader_decodeHeader, decodeHeader_encodeHeader⟩

def writeFrame {W : Type} [Writer W] (writer : W) (kind : FrameKind) (request : UInt64)
    (payload : Bytes) : Except IoError Unit × W :=
  match encodeHeader kind request payload.length with
  | .error e => (.error e, writer)
  | .ok header =>
    match Writer.writeAll writer header.toList with
    | (.error e, writer) => (.error e, writer)
    | (.ok (), writer) =>
      match Writer.writeAll writer payload with
      | (.error e, writer) => (.error e, writer)
      | (.ok (), writer) => Writer.flush writer

def readExact {R : Type} [Reader R] (reader : R) (n : Nat) : Except IoError (Bytes × R) :=
  (Reader.readExact reader n).mapError fun error =>
    if error.kind = .unexpectedEof then invalid "truncated renderer IPC frame" else error

/-- The frame, if the peer did not close, with the payload buffer and the stream after it. -/
def readFrame {R : Type} [Reader R] (reader : R) (payload : Bytes) :
    Except IoError (Option Frame × Bytes × R) :=
  let first := Reader.read reader 1
  if first.1.length = 0 then .ok (none, payload, first.2)
  else do
    let (others, reader) ← readExact first.2 (headerBytes - 1)
    let (kind, request, length) ← decodeHeader (Header.ofBytes (first.1 ++ others))
    let (payload, reader) ← readExact reader length
    .ok (some ⟨kind, request⟩, payload, reader)

end

/-! ### The frame stream -/

/-- A frame with its payload. -/
abbrev Packet := Frame × Bytes

def truncated : IoError := invalid "truncated renderer IPC frame"

/-- The frame at the front of a byte string, with the bytes after it. -/
def decodeFrame (bytes : Bytes) : Except IoError (Option (Packet × Bytes)) :=
  if bytes = [] then .ok none
  else if bytes.length < headerBytes then .error truncated
  else
    match decodeHeader (Header.ofBytes (bytes.take headerBytes)) with
    | .error e => .error e
    | .ok (kind, request, length) =>
      let body := bytes.drop headerBytes
      if body.length < length then .error truncated
      else .ok (some ((⟨kind, request⟩, body.take length), body.drop length))

/-- The bytes of a frame, when its kind allows the payload. -/
def frameBytes (packet : Packet) : Option Bytes :=
  match encodeHeader packet.1.kind packet.1.request packet.2.length with
  | .error _ => none
  | .ok header => some (header.toList ++ packet.2)

variable {packet : Packet}

theorem frameBytes_eq_some {bytes : Bytes} : frameBytes packet = some bytes ↔
    ∃ header, encodeHeader packet.1.kind packet.1.request packet.2.length = .ok header ∧
      bytes = header.toList ++ packet.2 := by
  unfold frameBytes
  cases encodeHeader packet.1.kind packet.1.request packet.2.length with
  | error e => simp
  | ok header => simp [eq_comm]

theorem exists_frameBytes (h : packet.2.length ≤ packet.1.kind.maxPayload) :
    ∃ bytes, frameBytes packet = some bytes := by
  have hheader := encodeHeader_of_le packet.1.request h
  exact ⟨_, frameBytes_eq_some.mpr ⟨_, hheader, rfl⟩⟩

theorem decodeFrame_short {bytes : Bytes} (hpos : bytes ≠ []) (h : bytes.length < headerBytes) :
    decodeFrame bytes = .error truncated := by
  rw [decodeFrame, if_neg hpos, if_pos h]

theorem decodeFrame_long {bytes : Bytes} (h : headerBytes ≤ bytes.length) :
    decodeFrame bytes =
      match decodeHeader (Header.ofBytes (bytes.take headerBytes)) with
      | .error e => .error e
      | .ok (kind, request, length) =>
        if (bytes.drop headerBytes).length < length then .error truncated
        else
          .ok (some ((⟨kind, request⟩, (bytes.drop headerBytes).take length),
            (bytes.drop headerBytes).drop length)) := by
  have hpos : bytes ≠ [] := List.ne_nil_of_length_pos (Nat.lt_of_lt_of_le (by decide) h)
  rw [decodeFrame, if_neg hpos, if_neg (Nat.not_lt.mpr h)]

theorem decodeFrame_append {header : Header} {kind : FrameKind} {request : UInt64} {length : Nat}
    (h : decodeHeader header = .ok (kind, request, length)) (body : Bytes) :
    decodeFrame (header.toList ++ body) =
      if body.length < length then .error truncated
      else .ok (some ((⟨kind, request⟩, body.take length), body.drop length)) := by
  have hlen : header.toList.length = headerBytes := Vector.length_toList
  rw [decodeFrame_long (by rw [List.length_append, hlen]; exact Nat.le_add_right ..),
    List.take_left' hlen, List.drop_left' hlen, Header.ofBytes_toList, h]

theorem decodeFrame_some {bytes after : Bytes}
    (h : decodeFrame bytes = .ok (some (packet, after))) :
    ∃ w, frameBytes packet = some w ∧ bytes = w ++ after := by
  by_cases hnil : bytes = []
  · rw [hnil] at h; cases h
  rcases Nat.lt_or_ge bytes.length headerBytes with hshort | hlong
  · rw [decodeFrame_short hnil hshort] at h; cases h
  have hlen : (bytes.take headerBytes).length = headerBytes := by
    rw [List.length_take, Nat.min_eq_left hlong]
  rw [decodeFrame_long hlong] at h
  cases hd : decodeHeader (Header.ofBytes (bytes.take headerBytes)) with
  | error e => rw [hd] at h; cases h
  | ok got =>
    obtain ⟨kind, request, length⟩ := got
    rw [hd] at h
    dsimp only at h
    split_ifs at h with hbody
    simp only [Except.ok.injEq, Option.some.injEq, Prod.mk.injEq] at h
    obtain ⟨rfl, rfl⟩ := h
    have hpayload : ((bytes.drop headerBytes).take length).length = length := by
      rw [List.length_take]; omega
    refine ⟨bytes.take headerBytes ++ (bytes.drop headerBytes).take length, ?_, ?_⟩
    · apply frameBytes_eq_some.mpr
      refine ⟨Header.ofBytes (bytes.take headerBytes), ?_, ?_⟩
      · dsimp only
        rw [hpayload]
        exact decodeHeader_eq_ok.mp hd
      · rw [Header.toList_ofBytes hlen]
    · rw [List.append_assoc, List.take_append_drop, List.take_append_drop]

theorem decodeFrame_none {bytes : Bytes} (h : decodeFrame bytes = .ok none) : bytes = [] := by
  by_contra hnil
  rcases Nat.lt_or_ge bytes.length headerBytes with hshort | hlong
  · rw [decodeFrame_short hnil hshort] at h; cases h
  rw [decodeFrame_long hlong] at h
  split at h
  · cases h
  · split_ifs at h
    cases h

/-- Frames are self-delimiting. -/
def framing : Framing Packet IoError where
  encode := frameBytes
  decode := decodeFrame
  decode_nil := rfl
  nil_of_decode h := decodeFrame_none h
  encode_ne_nil {packet w} h := by
    obtain ⟨header, -, rfl⟩ := frameBytes_eq_some.mp h
    apply List.ne_nil_of_length_pos
    rw [List.length_append, Vector.length_toList]
    exact Nat.lt_of_lt_of_le (by decide) (Nat.le_add_right ..)
  decode_encode {packet w} s h := by
    obtain ⟨header, hheader, rfl⟩ := frameBytes_eq_some.mp h
    rw [List.append_assoc, decodeFrame_append (decodeHeader_eq_ok.mpr hheader),
      if_neg (by rw [List.length_append]; omega), List.take_left, List.drop_left]
  encode_decode h := decodeFrame_some h

section
variable {R : Type} [Reader R]

theorem readExact_le (reader : R) {n : Nat} (h : n ≤ (Reader.rest reader).length) :
    ∃ reader', readExact reader n = .ok ((Reader.rest reader).take n, reader') ∧
      Reader.rest reader' = (Reader.rest reader).drop n := by
  obtain ⟨reader', hread, hrest⟩ := Reader.readExact_of_le reader n h
  exact ⟨reader', by rw [readExact, hread]; rfl, hrest⟩

theorem readExact_lt (reader : R) {n : Nat} (h : (Reader.rest reader).length < n) :
    readExact reader n = .error truncated := by
  rw [readExact, Reader.readExact_of_lt reader n h]
  rfl

/-- What `readFrame` answers is decided by the bytes the stream has still to give. -/
theorem readFrame_eq (reader : R) (payload : Bytes) :
    match decodeFrame (Reader.rest reader) with
    | .error e => readFrame reader payload = .error e
    | .ok none => ∃ reader', readFrame reader payload = .ok (none, payload, reader')
    | .ok (some (packet, after)) => ∃ reader',
        readFrame reader payload = .ok (some packet.1, packet.2, reader') ∧
          Reader.rest reader' = after := by
  obtain ⟨hfirst, hafter⟩ := Reader.read_eq reader 1
  have hle := Reader.read_le reader 1
  unfold readFrame
  dsimp only
  split_ifs with hclose
  · have hnil := Reader.read_end reader 0 (List.eq_nil_of_length_eq_zero hclose)
    rw [hnil]
    exact ⟨_, rfl⟩
  have hone : (Reader.read reader 1).1.length = 1 := by omega
  rw [hone] at hfirst hafter
  have hpos : Reader.rest reader ≠ [] := by
    intro hnil
    rw [hfirst, hnil] at hone
    exact absurd hone (by simp)
  have hlen : (Reader.rest (Reader.read reader 1).2).length = (Reader.rest reader).length - 1 := by
    rw [hafter, List.length_drop]
  have hbytes : headerBytes = 16 := rfl
  rcases Nat.lt_or_ge (Reader.rest reader).length headerBytes with hshort | hlong
  · have herr : readExact (Reader.read reader 1).2 (headerBytes - 1) = .error truncated :=
      readExact_lt _ (by have := List.length_pos_of_ne_nil hpos; omega)
    rw [decodeFrame_short hpos hshort, herr]
    rfl
  · obtain ⟨reader', hread, hrest⟩ := readExact_le (Reader.read reader 1).2
      (show headerBytes - 1 ≤ _ by omega)
    have hheader : (Reader.read reader 1).1 ++
        (Reader.rest (Reader.read reader 1).2).take (headerBytes - 1) =
          (Reader.rest reader).take headerBytes := by
      rw [hafter, hfirst]
      exact List.take_add.symm
    have hbody : Reader.rest reader' = (Reader.rest reader).drop headerBytes := by
      rw [hrest, hafter, List.drop_drop]
      rfl
    rw [decodeFrame_long hlong, hread]
    dsimp only [bind, Except.bind]
    rw [hheader]
    cases decodeHeader (Header.ofBytes ((Reader.rest reader).take headerBytes)) with
    | error e => rfl
    | ok got =>
      obtain ⟨kind, request, length⟩ := got
      dsimp only
      rw [← hbody]
      split_ifs with hcut
      · rw [readExact_lt reader' hcut]
      · obtain ⟨reader'', hread', hrest'⟩ := readExact_le reader' (show length ≤ _ by omega)
        rw [hread']
        exact ⟨reader'', rfl, hrest'⟩

theorem readFrame_some {reader reader' : R} {payload payload' : Bytes} {frame : Frame}
    (h : readFrame reader payload = .ok (some frame, payload', reader')) :
    decodeFrame (Reader.rest reader) = .ok (some ((frame, payload'), Reader.rest reader')) := by
  have hspec := readFrame_eq reader payload
  split at hspec
  · rw [hspec] at h; cases h
  · obtain ⟨_, hspec⟩ := hspec
    rw [hspec] at h; cases h
  · rename_i packet after heq
    obtain ⟨_, hspec, rfl⟩ := hspec
    rw [hspec] at h
    cases h
    exact heq

/-- Reads frame after frame until the peer closes or a read fails. -/
def readFrames (reader : R) (payload : Bytes) : List Packet × Except IoError Unit :=
  match h : readFrame reader payload with
  | .error e => ([], .error e)
  | .ok (none, _, _) => ([], .ok ())
  | .ok (some frame, payload', reader') =>
    have : (Reader.rest reader').length < (Reader.rest reader).length :=
      framing.decode_length_lt (readFrame_some h)
    let others := readFrames reader' payload'
    ((frame, payload') :: others.1, others.2)
termination_by (Reader.rest reader).length

/-- Reading a whole stream is decoding its bytes. -/
theorem readFrames_eq (reader : R) (payload : Bytes) :
    readFrames reader payload = framing.decodeAll (Reader.rest reader) := by
  induction hn : (Reader.rest reader).length using Nat.strong_induction_on
    generalizing reader payload with
  | _ n ih =>
    have hspec := readFrame_eq reader payload
    rw [readFrames]
    split at hspec
    · rename_i e hd
      rw [framing.decodeAll_error hd]
      split <;> simp_all
    · rename_i hd
      obtain ⟨_, hspec⟩ := hspec
      rw [framing.decodeAll_none hd]
      split <;> simp_all
    · rename_i packet after hd
      obtain ⟨reader', hspec, rfl⟩ := hspec
      have hlt := framing.decode_length_lt hd
      rw [framing.decodeAll_some hd, ← ih _ (by omega) reader' packet.2 rfl]
      split <;> simp_all

end

section
variable {W : Type} [Writer W]

/-- Writes frame after frame until one fails. -/
def writeFrames (writer : W) : List Packet → Except IoError Unit × W
  | [] => (.ok (), writer)
  | packet :: packets =>
    match writeFrame writer packet.1.kind packet.1.request packet.2 with
    | (.error e, writer) => (.error e, writer)
    | (.ok (), writer) => writeFrames writer packets

theorem writeFrame_of_lt (writer : W) {kind : FrameKind} (request : UInt64) {payload : Bytes}
    (h : kind.maxPayload < payload.length) :
    writeFrame writer kind request payload =
      (.error (invalid "renderer IPC payload exceeds limit"), writer) := by
  rw [writeFrame, encodeHeader_of_lt request h]

end

theorem writeFrame_bytes (out : Bytes) (packet : Packet) :
    writeFrame out packet.1.kind packet.1.request packet.2 =
      match frameBytes packet with
      | none => (.error (invalid "renderer IPC payload exceeds limit"), out)
      | some bytes => (.ok (), out ++ bytes) := by
  unfold writeFrame frameBytes
  rcases Nat.lt_or_ge packet.1.kind.maxPayload packet.2.length with hlt | hle
  · rw [encodeHeader_of_lt packet.1.request hlt]
  · rw [encodeHeader_of_le packet.1.request hle]
    dsimp only [Writer.writeAll, Writer.flush]
    rw [List.append_assoc]

theorem writeFrame_eq_ok {out out' : Bytes} :
    writeFrame out packet.1.kind packet.1.request packet.2 = (.ok (), out') ↔
      ∃ bytes, frameBytes packet = some bytes ∧ out' = out ++ bytes := by
  rw [writeFrame_bytes]
  cases frameBytes packet with
  | none => simp
  | some bytes => simp [eq_comm]

theorem writeFrames_eq_ok {packets : List Packet} {out out' : Bytes} :
    writeFrames out packets = (.ok (), out') ↔
      ∃ bytes, framing.encodeAll packets = some bytes ∧ out' = out ++ bytes := by
  induction packets generalizing out with
  | nil => simp [writeFrames, Framing.encodeAll, eq_comm]
  | cons packet packets ih =>
    rw [writeFrames, Framing.encodeAll, writeFrame_bytes]
    show _ ↔ ∃ bytes, ((frameBytes packet).bind fun w => _) = some bytes ∧ _
    cases frameBytes packet with
    | none => simp
    | some bytes =>
      dsimp only [Option.bind_some]
      rw [ih]
      constructor
      · rintro ⟨others, hothers, rfl⟩
        exact ⟨bytes ++ others, by rw [hothers]; rfl, List.append_assoc ..⟩
      · rintro ⟨all, hall, rfl⟩
        obtain ⟨others, hothers, rfl⟩ := Option.map_eq_some_iff.mp hall
        exact ⟨others, hothers, (List.append_assoc ..).symm⟩

theorem exists_encodeAll {packets : List Packet}
    (h : ∀ packet ∈ packets, packet.2.length ≤ packet.1.kind.maxPayload) :
    ∃ bytes, framing.encodeAll packets = some bytes := by
  induction packets with
  | nil => exact ⟨[], rfl⟩
  | cons packet packets ih =>
    obtain ⟨w, hw⟩ := exists_frameBytes (h packet List.mem_cons_self)
    obtain ⟨others, hothers⟩ := ih fun p hp => h p (List.mem_cons_of_mem _ hp)
    refine ⟨w ++ others, ?_⟩
    show ((frameBytes packet).bind fun w => _) = _
    rw [hw, hothers]
    rfl

/-- The channel's framing, on any stream and with any content of the payload buffer: frames that
keep to their limits come back as they were written and then the close; a frame is refused before
anything is written exactly when it is over its limit; a header decodes exactly when it is one that
is encoded; what is read is, encoded again, what was consumed; and a stream cut inside a frame ends
in an error after the frames before the cut. -/
theorem frames_round_trip :
    (∀ packets : List Packet,
      (∀ packet ∈ packets, packet.2.length ≤ packet.1.kind.maxPayload) →
      ∃ bytes, writeFrames ([] : Bytes) packets = (.ok (), bytes) ∧
        ∀ (R : Type) [Reader R] (reader : R) (payload : Bytes), Reader.rest reader = bytes →
          readFrames reader payload = (packets, .ok ())) ∧
    (∀ (kind : FrameKind) (request : UInt64) (payload : Bytes),
      (kind.maxPayload < payload.length → ∀ (W : Type) [Writer W] (writer : W),
        ∃ e, writeFrame writer kind request payload = (.error e, writer)) ∧
      (payload.length ≤ kind.maxPayload → ∀ out : Bytes,
        ∃ bytes, writeFrame out kind request payload = (.ok (), out ++ bytes))) ∧
    (∀ header, (∃ fields, decodeHeader header = .ok fields) ↔
      ∃ kind request length, encodeHeader kind request length = .ok header) ∧
    (∀ (R : Type) [Reader R] (reader : R) (payload : Bytes),
      (∀ frame payload' reader', readFrame reader payload = .ok (some frame, payload', reader') →
        ∃ bytes, writeFrame ([] : Bytes) frame.kind frame.request payload' = (.ok (), bytes) ∧
          Reader.rest reader = bytes ++ Reader.rest reader') ∧
      ((readFrames reader payload).2 = .ok () →
        writeFrames ([] : Bytes) (readFrames reader payload).1 = (.ok (), Reader.rest reader))) ∧
    (∀ (packets : List Packet) (packet : Packet) (before bytes : Bytes) (cut : Nat),
      writeFrames ([] : Bytes) packets = (.ok (), before) →
      writeFrame ([] : Bytes) packet.1.kind packet.1.request packet.2 = (.ok (), bytes) →
      0 < cut → cut < bytes.length →
      ∀ (R : Type) [Reader R] (reader : R) (payload : Bytes),
        Reader.rest reader = before ++ bytes.take cut →
        ∃ e, readFrames reader payload = (packets, .error e)) := by
  refine ⟨?_, ?_, ?_, ?_, ?_⟩
  · intro packets hle
    obtain ⟨bytes, hbytes⟩ := exists_encodeAll hle
    refine ⟨bytes, writeFrames_eq_ok.mpr ⟨bytes, hbytes, rfl⟩, ?_⟩
    intro R _ reader payload hrest
    rw [readFrames_eq, hrest, framing.decodeAll_encodeAll hbytes]
  · intro kind request payload
    constructor
    · intro hlt W _ writer
      exact ⟨_, writeFrame_of_lt writer request hlt⟩
    · intro hle out
      obtain ⟨bytes, hbytes⟩ := exists_frameBytes (show (⟨kind, request⟩, payload).2.length ≤ _ from hle)
      exact ⟨bytes, writeFrame_eq_ok.mpr ⟨bytes, hbytes, rfl⟩⟩
  · intro header
    constructor
    · rintro ⟨⟨kind, request, length⟩, h⟩
      exact ⟨kind, request, length, decodeHeader_eq_ok.mp h⟩
    · rintro ⟨kind, request, length, h⟩
      exact ⟨_, decodeHeader_eq_ok.mpr h⟩
  · intro R _ reader payload
    constructor
    · intro frame payload' reader' h
      obtain ⟨bytes, hbytes, hrest⟩ := decodeFrame_some (readFrame_some h)
      exact ⟨bytes, writeFrame_eq_ok.mpr ⟨bytes, hbytes, rfl⟩, hrest⟩
    · intro hclose
      rw [readFrames_eq] at hclose ⊢
      exact writeFrames_eq_ok.mpr ⟨_, framing.encodeAll_decodeAll _ hclose, rfl⟩
  · intro packets packet before bytes cut hbefore hbytes hpos hcut R _ reader payload hrest
    obtain ⟨_, hbefore, rfl⟩ := writeFrames_eq_ok.mp hbefore
    obtain ⟨_, hbytes, rfl⟩ := writeFrame_eq_ok.mp hbytes
    rw [readFrames_eq, hrest]
    apply framing.decodeAll_cut hbefore hbytes (List.take_append_drop cut _).symm
    · apply List.ne_nil_of_length_pos
      rw [List.length_take]
      omega
    · apply List.ne_nil_of_length_pos
      rw [List.length_drop]
      omega

end TinyBrowser.Channel
