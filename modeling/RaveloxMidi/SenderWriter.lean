import RaveloxMidi.MidiSender

/-!
# The packet writer inside the sender

The sender does not call the two packers: it allocates one block and writes the
whole packet through a pointer, with a count of its own beside it. Whatever the
block held before, it ends up as the packet that the packers would have built,
filled to its last octet.
-/
namespace RaveloxMidi
open ByteMemory

/-- The block `packed_rtp_buffer`, the pointer `p` relative to its start, and the
count `packed_rtp_buffer_len`. -/
structure SenderBuffer where
  block : List UInt8
  p : ℕ
  len : ℕ
  deriving Repr, DecidableEq

namespace SenderBuffer

/-- A copy to where the pointer stands. -/
def copy (w : SenderBuffer) (bytes : List UInt8) : Except Fault SenderBuffer := do
  let block ← store w.block w.p bytes
  return { w with block := block }

def advance (w : SenderBuffer) (steps : ℕ) : SenderBuffer := { w with p := w.p + steps }

def count (w : SenderBuffer) (steps : ℕ) : SenderBuffer := { w with len := w.len + steps }

/-- `put_uint16` and `put_uint32` on the octets of their word. -/
def put (w : SenderBuffer) (bytes : List UInt8) : Except Fault SenderBuffer := do
  let w ← w.copy bytes
  return (w.advance bytes.length).count bytes.length

end SenderBuffer

/-- The size that is allocated for a packet. -/
def senderBufferSize (payload : MidiPayloadHeader) (journal : List UInt8) : ℕ :=
  rtpPacketHeaderSize + packedPayloadLen payload + journal.length

/-- `temp_header` of the sender. -/
def senderTempHeader (header : RtpPacketHeader) : UInt16 :=
  let temp : UInt16 := 0
  let temp := temp ||| ((UInt16.ofNat header.v <<< 6) <<< 8)
  let temp := temp ||| ((header.p.toUInt16 <<< 5) <<< 8)
  let temp := temp ||| ((header.x.toUInt16 <<< 4) <<< 8)
  let temp := temp ||| ((UInt16.ofNat header.cc &&& 0x0f) <<< 8)
  let temp := temp ||| (header.m.toUInt16 <<< 7)
  temp ||| (UInt16.ofNat header.pt &&& 0x7f)

/-- `temp_payload_header` before the length is added. -/
def senderTempPayloadHeader (payload : MidiPayloadHeader) : UInt8 :=
  let temp : UInt8 := 0
  let temp := if payload.b then temp ||| payloadHeaderB else temp
  let temp := if payload.j then temp ||| payloadHeaderJ else temp
  let temp := if payload.z then temp ||| payloadHeaderZ else temp
  if payload.p then temp ||| payloadHeaderP else temp

/-- The header of the payload: the first octet is written with the flags alone and
then changed where it stands. -/
def senderWritePayloadHeader (w : SenderBuffer) (payload : MidiPayloadHeader) :
    Except Fault SenderBuffer := do
  let temp := senderTempPayloadHeader payload
  let w ← w.copy [temp]
  if payload.len ≤ 15 then
    let first ← load w.block w.p 1
    let w ← w.copy (first.map (· ||| (payload.len &&& 0x0f).toUInt8))
    return (w.advance 1).count 1
  else
    let temp := temp ||| ((payload.len &&& 0x0f00) >>> 8).toUInt8
    let w ← w.copy [temp]
    let w := w.advance 1
    let w ← w.copy [(payload.len &&& 0x00ff).toUInt8]
    let w := w.advance 1
    return w.count 2

/-- One packet, written into a block that has just been allocated. The pointer is
not moved past the journal. -/
def senderWrite (block : List UInt8) (header : RtpPacketHeader) (payload : MidiPayload)
    (journal : List UInt8) : Except Fault SenderBuffer := do
  let w : SenderBuffer := ⟨block, 0, 0⟩
  let w ← w.put (putUint16 (senderTempHeader header))
  let w ← w.put (putUint16 header.seq)
  let w ← w.put (putUint32 header.timestamp)
  let w ← w.put (putUint32 header.ssrc)
  let w ← senderWritePayloadHeader w payload.header
  let bytes ← load (payload.buffer.getD []) 0 payload.header.len.toNat
  let w ← w.copy bytes
  let w := (w.advance payload.header.len.toNat).count payload.header.len.toNat
  if journal.length > 0 then
    let w ← w.copy journal
    return w.count journal.length
  else return w

namespace SenderBuffer

/-- The pointer stands behind the octets written so far; what has been copied ahead
of it is still there, and some room behind that. -/
structure Holds (w : SenderBuffer) (bytes ahead : List UInt8) (room : ℕ) : Prop where
  split : ∃ rest, w.block = bytes ++ ahead ++ rest ∧ rest.length = room
  p : w.p = bytes.length

section
variable {w : SenderBuffer} {bytes ahead : List UInt8} {room : ℕ}

/-- A copy overwrites what lies ahead and nothing else. -/
theorem Holds.copy (h : w.Holds bytes ahead room) (part : List UInt8)
    (hpart : part.length ≤ ahead.length + room) :
    ∃ t, w.copy part = .ok t ∧ t.Holds bytes part (ahead.length + room - part.length) ∧
      t.len = w.len := by
  obtain ⟨⟨rest, hblock, hrest⟩, hp⟩ := h
  obtain ⟨tail, htail⟩ : ∃ tail, tail = ahead ++ rest := ⟨_, rfl⟩
  have hlength : tail.length = ahead.length + room := by rw [htail, List.length_append, hrest]
  have hsplit : w.block = bytes ++ tail.take part.length ++ tail.drop part.length := by
    rw [hblock, List.append_assoc bytes (tail.take _), List.take_append_drop, htail,
      List.append_assoc]
  have hstore := store_middle bytes (tail.take part.length) (tail.drop part.length) part
    (by rw [List.length_take]; omega)
  refine ⟨{ w with block := bytes ++ part ++ tail.drop part.length }, ?_,
    ⟨⟨_, rfl, by rw [List.length_drop, hlength]⟩, hp⟩, rfl⟩
  simp only [SenderBuffer.copy, hp, hsplit, hstore, bind, Except.bind, pure, Except.pure]

theorem Holds.advance (h : w.Holds bytes ahead room) :
    (w.advance ahead.length).Holds (bytes ++ ahead) [] room := by
  obtain ⟨⟨rest, hblock, hrest⟩, hp⟩ := h
  refine ⟨⟨rest, by rw [List.append_nil]; exact hblock, hrest⟩, ?_⟩
  rw [List.length_append, ← hp]
  rfl

/-- The octets ahead can be read back. -/
theorem Holds.load (h : w.Holds bytes ahead room) :
    load w.block w.p ahead.length = .ok ahead := by
  obtain ⟨⟨rest, hblock, hrest⟩, hp⟩ := h
  rw [load_ok (by rw [hblock, hp]; simp), hblock, hp, List.append_assoc, List.drop_left,
    List.take_left]

theorem Holds.count (h : w.Holds bytes ahead room) (steps : ℕ) :
    (w.count steps).Holds bytes ahead room := ⟨h.split, h.p⟩

/-- A word, written and passed. -/
theorem Holds.put (h : w.Holds bytes [] room) (part : List UInt8) (hpart : part.length ≤ room) :
    ∃ t, w.put part = .ok t ∧ t.Holds (bytes ++ part) [] (room - part.length) ∧
      t.len = w.len + part.length := by
  obtain ⟨t, hcopy, ht, hlen⟩ := h.copy part (by simpa using hpart)
  rw [List.length_nil, Nat.zero_add] at ht
  refine ⟨(t.advance part.length).count part.length, ?_, ht.advance.count _, ?_⟩
  · simp only [SenderBuffer.put, hcopy, bind, Except.bind, pure, Except.pure]
  · rw [← hlen]
    rfl

end

end SenderBuffer

theorem senderTempHeader_eq (header : RtpPacketHeader) :
    senderTempHeader header = rtpTempHeader header := by
  simp only [senderTempHeader, rtpTempHeader, UInt16.zero_or]

theorem senderTempPayloadHeader_eq (payload : MidiPayloadHeader) :
    senderTempPayloadHeader payload = midiPayloadFlags payload := by
  obtain ⟨b, j, z, p, len⟩ := payload
  cases b <;> cases j <;> cases z <;> cases p <;>
    simp [senderTempPayloadHeader, midiPayloadFlags]

/-- The octets are those of `midi_payload_pack`, in both forms of the length. -/
theorem writePayloadHeader_spec {w : SenderBuffer} {bytes : List UInt8} {room : ℕ}
    (h : w.Holds bytes [] room) (payload : MidiPayloadHeader)
    (hroom : (midiPayloadHeaderPack payload).length ≤ room) :
    ∃ t, senderWritePayloadHeader w payload = .ok t ∧
      t.Holds (bytes ++ midiPayloadHeaderPack payload) []
        (room - (midiPayloadHeaderPack payload).length) ∧
      t.len = w.len + (midiPayloadHeaderPack payload).length := by
  by_cases hshort : payload.len ≤ 15
  · have hpack : midiPayloadHeaderPack payload =
        [midiPayloadFlags payload ||| (payload.len &&& 0x0f).toUInt8] := by
      rw [midiPayloadHeaderPack, if_pos hshort]
    rw [hpack, List.length_singleton] at hroom ⊢
    obtain ⟨first, hfirst, hholds, hlen⟩ := h.copy [midiPayloadFlags payload]
      (by simpa using hroom)
    have hload := hholds.load
    obtain ⟨t, hcopy, ht, htlen⟩ := hholds.copy
      [midiPayloadFlags payload ||| (payload.len &&& 0x0f).toUInt8] (by simp)
    refine ⟨(t.advance 1).count 1, ?_, ?_, ?_⟩
    · rw [List.length_singleton] at hload
      simp only [senderWritePayloadHeader, senderTempPayloadHeader_eq, hfirst, if_pos hshort, hload,
        List.map_cons, List.map_nil, hcopy, bind, Except.bind, pure, Except.pure]
    · have hroom' : 1 + (0 + room - 1) - 1 = room - 1 := by omega
      simp only [List.length_singleton, List.length_nil, hroom'] at ht
      exact ht.advance.count 1
    · rw [← hlen, ← htlen]
      rfl
  · have hpack : midiPayloadHeaderPack payload =
        [midiPayloadFlags payload ||| ((payload.len &&& 0x0f00) >>> 8).toUInt8,
          (payload.len &&& 0x00ff).toUInt8] := by
      rw [midiPayloadHeaderPack, if_neg hshort]
    rw [hpack, List.length_cons, List.length_singleton] at hroom ⊢
    obtain ⟨first, hfirst, hholds, hlen⟩ := h.copy [midiPayloadFlags payload]
      (by simp; omega)
    obtain ⟨high, hhigh, hholds', hlen'⟩ := hholds.copy
      [midiPayloadFlags payload ||| ((payload.len &&& 0x0f00) >>> 8).toUInt8] (by simp)
    obtain ⟨low, hlow, ht, htlen⟩ := hholds'.advance.copy
      [(payload.len &&& 0x00ff).toUInt8] (by simp; omega)
    refine ⟨(low.advance 1).count 2, ?_, ?_, ?_⟩
    · rw [List.length_singleton] at hlow
      simp only [senderWritePayloadHeader, senderTempPayloadHeader_eq, hfirst, if_neg hshort, hhigh,
        hlow, bind, Except.bind, pure, Except.pure]
    · have hroom' : 0 + (1 + (0 + room - 1) - 1) - 1 = room - 2 := by omega
      simp only [List.length_singleton, List.length_nil, hroom'] at ht
      have hdone := ht.advance.count 2
      rwa [List.append_assoc] at hdone
    · have hsame : (high.advance 1).len = high.len := rfl
      rw [List.length_singleton] at htlen
      rw [← hlen, ← hlen', ← hsame, ← htlen]
      rfl

/-- The writer fills a block of the allocated size with the packet. -/
theorem senderWrite_spec {block : List UInt8} {payload : MidiPayload} {bytes journal : List UInt8}
    (hblock : block.length = senderBufferSize payload.header journal)
    (hload : load (payload.buffer.getD []) 0 payload.header.len.toNat = .ok bytes)
    (header : RtpPacketHeader) :
    ∃ w, senderWrite block header payload journal = .ok w ∧
      w.block = (midiSenderParts header payload.header bytes journal).flatten ∧
      w.len = block.length := by
  have hpacked := headerPack_length payload.header
  have hbytes := load_length hload
  simp only [senderBufferSize, rtpPacketHeaderSize] at hblock
  have hstart : (⟨block, 0, 0⟩ : SenderBuffer).Holds [] [] block.length :=
    ⟨⟨block, rfl, rfl⟩, rfl⟩
  obtain ⟨w₁, hw₁, h₁, hlen₁⟩ := hstart.put (putUint16 (rtpTempHeader header))
    (by rw [putUint16_length]; omega)
  obtain ⟨w₂, hw₂, h₂, hlen₂⟩ := h₁.put (putUint16 header.seq)
    (by rw [putUint16_length, putUint16_length]; omega)
  obtain ⟨w₃, hw₃, h₃, hlen₃⟩ := h₂.put (putUint32 header.timestamp)
    (by rw [putUint16_length, putUint16_length, putUint32_length]; omega)
  obtain ⟨w₄, hw₄, h₄, hlen₄⟩ := h₃.put (putUint32 header.ssrc)
    (by simp only [putUint16_length, putUint32_length]; omega)
  simp only [putUint16_length, putUint32_length] at h₄ hlen₁ hlen₂ hlen₃ hlen₄
  obtain ⟨w₅, hw₅, h₅, hlen₅⟩ := writePayloadHeader_spec h₄ payload.header (by omega)
  obtain ⟨w₆, hw₆, h₆, hlen₆⟩ := h₅.copy bytes
    (by rw [List.length_nil]; omega)
  have h₇ := h₆.advance.count payload.header.len.toNat
  rw [hbytes, List.length_nil] at h₇
  obtain ⟨w₈, hw₈, h₈, hlen₈⟩ := h₇.copy journal
    (by rw [List.length_nil]; omega)
  have hlen₇ : ((w₆.advance payload.header.len.toNat).count payload.header.len.toNat).len =
      w₆.len + payload.header.len.toNat := rfl
  have hparts : (midiSenderParts header payload.header bytes journal).flatten =
      putUint16 (rtpTempHeader header) ++ putUint16 header.seq ++ putUint32 header.timestamp ++
        putUint32 header.ssrc ++ midiPayloadHeaderPack payload.header ++ bytes ++ journal := by
    simp [midiSenderParts]
  by_cases hjournal : journal.length > 0
  · refine ⟨w₈.count journal.length, ?_, ?_, ?_⟩
    · simp only [senderWrite, senderTempHeader_eq, hw₁, hw₂, hw₃, hw₄, hw₅, hload, hw₆, hw₈,
        if_pos hjournal, bind, Except.bind, pure, Except.pure]
    · obtain ⟨⟨rest, hrest, hroom⟩, -⟩ := h₈
      have hnil : rest = [] := List.length_eq_zero_iff.mp (by rw [hroom, List.length_nil]; omega)
      rw [hparts]
      simpa [hnil, SenderBuffer.count] using hrest
    · have hcount : (w₈.count journal.length).len = w₈.len + journal.length := rfl
      omega
  · have hempty : journal = [] := List.length_eq_zero_iff.mp (by omega)
    refine ⟨(w₆.advance payload.header.len.toNat).count payload.header.len.toNat, ?_, ?_, ?_⟩
    · simp only [senderWrite, senderTempHeader_eq, hw₁, hw₂, hw₃, hw₄, hw₅, hload, hw₆,
        if_neg hjournal, bind, Except.bind, pure, Except.pure]
    · obtain ⟨⟨rest, hrest, hroom⟩, -⟩ := h₇
      have hnil : rest = [] := List.length_eq_zero_iff.mp (by rw [hroom]; omega)
      rw [hparts, hempty]
      simpa [hnil] using hrest
    · omega

theorem markJournal_j (payload : MidiPayload) (journal : List UInt8) :
    (midiSenderMarkJournal payload journal).header.j = true ↔ journal ≠ [] := by
  unfold midiSenderMarkJournal
  split_ifs with hjournal
  · simpa [midiPayloadSetJ] using List.ne_nil_of_length_pos hjournal
  · have hempty : journal = [] := List.length_eq_zero_iff.mp (by omega)
    simp [midiPayloadUnsetJ, hempty]

theorem markJournal_rest (payload : MidiPayload) (journal : List UInt8) :
    (midiSenderMarkJournal payload journal).buffer = payload.buffer ∧
      (midiSenderMarkJournal payload journal).header.len = payload.header.len := by
  unfold midiSenderMarkJournal
  split_ifs <;> exact ⟨rfl, rfl⟩

/-- The written block is the packet of the plain packers, with the J flag exactly for a
journal, and it is filled to its last octet. -/
theorem senderWrite_eq_packers (block : List UInt8) (header : RtpPacketHeader)
    (payload : MidiPayload) {bytes : List UInt8} (hbuffer : payload.buffer = some bytes)
    (hbytes : bytes.length = payload.header.len.toNat) (journal : List UInt8)
    (hblock : block.length =
      senderBufferSize (midiSenderMarkJournal payload journal).header journal) :
    ∃ w packed, senderWrite block header (midiSenderMarkJournal payload journal) journal = .ok w ∧
      midiPayloadPack (midiSenderMarkJournal payload journal) = .ok (some packed) ∧
      rtpPacketPack ⟨header, some (packed ++ journal)⟩ = .ok w.block ∧
      ((midiSenderMarkJournal payload journal).header.j = true ↔ journal ≠ []) ∧
      w.len = block.length ∧
      midiSenderPack header (midiSenderMarkJournal payload journal) journal = .ok w.block := by
  obtain ⟨hsame, hlen⟩ := markJournal_rest payload journal
  have hload : load ((midiSenderMarkJournal payload journal).buffer.getD []) 0
      (midiSenderMarkJournal payload journal).header.len.toNat = .ok bytes := by
    rw [hsame, hbuffer, hlen, Option.getD_some, load_ok (by omega), List.drop_zero,
      List.take_of_length_le (by omega)]
  obtain ⟨w, hwrite, hpacket, hcount⟩ := senderWrite_spec hblock hload header
  refine ⟨w, midiPayloadHeaderPack (midiSenderMarkJournal payload journal).header ++ bytes, hwrite,
    ?_, ?_, markJournal_j payload journal, hcount, ?_⟩
  · have hbuffer' : (midiSenderMarkJournal payload journal).buffer = some bytes :=
      hsame.trans hbuffer
    rw [hbuffer', Option.getD_some] at hload
    simp only [midiPayloadPack, hbuffer', hload, bind, Except.bind, pure, Except.pure]
  · rw [rtpPacketPack_eq, hpacket]
    simp [midiSenderParts]
  · rw [hpacket]
    exact senderPack_ok header _ hload journal

/-- A note with three octets of journal, in a block that held something else. -/
theorem senderWrite_eq_packers_note :
    ∃ w packed, senderWrite (List.replicate 19 0xaa)
        ⟨rtpVersion, false, false, 0, false, rtpDynamicPayload97, 2, 10, 7⟩
        (midiSenderMarkJournal ⟨⟨false, false, false, false, 3⟩, some [0x90, 0x30, 0x40]⟩
          [0x20, 0x00, 0x01]) [0x20, 0x00, 0x01] = .ok w ∧
      midiPayloadPack (midiSenderMarkJournal ⟨⟨false, false, false, false, 3⟩,
        some [0x90, 0x30, 0x40]⟩ [0x20, 0x00, 0x01]) = .ok (some packed) ∧
      rtpPacketPack ⟨⟨rtpVersion, false, false, 0, false, rtpDynamicPayload97, 2, 10, 7⟩,
        some (packed ++ [0x20, 0x00, 0x01])⟩ = .ok w.block ∧ w.len = 19 := by
  obtain ⟨w, packed, hwrite, hpack, hplain, -, hlen, -⟩ := senderWrite_eq_packers
    (List.replicate 19 0xaa) ⟨rtpVersion, false, false, 0, false, rtpDynamicPayload97, 2, 10, 7⟩
    ⟨⟨false, false, false, false, 3⟩, some [0x90, 0x30, 0x40]⟩ rfl rfl
    [0x20, 0x00, 0x01] (by decide)
  exact ⟨w, packed, hwrite, hpack, hplain, hlen⟩

end RaveloxMidi
