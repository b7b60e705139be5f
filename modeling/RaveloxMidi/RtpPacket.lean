import RaveloxMidi.ByteMemory

/-!
# The RTP packet codec

The reader takes its fixed fields without a look at the length of the buffer and
counts the length down as it goes. What the counter says in the end is the size
of the payload: below twelve octets it has wrapped around.
-/
namespace RaveloxMidi
open ByteMemory

def getUint16 (r : Region) (c : Cursor) : UInt16 × Cursor :=
  (UInt16.ofNat (ofOctets (c.take r 2).1), (c.take r 2).2)

def getUint32 (r : Region) (c : Cursor) : UInt32 × Cursor :=
  (UInt32.ofNat (ofOctets (c.take r 4).1), (c.take r 4).2)

def getUint64 (r : Region) (c : Cursor) : UInt64 × Cursor :=
  (UInt64.ofNat (ofOctets (c.take r 8).1), (c.take r 8).2)

def putUint16 (src : UInt16) : List UInt8 := octets 2 src.toNat

def putUint32 (src : UInt32) : List UInt8 := octets 4 src.toNat

def putUint64 (src : UInt64) : List UInt8 := octets 8 src.toNat

structure RtpPacketHeader where
  v : Fin 4
  p : Bool
  x : Bool
  cc : Fin 16
  m : Bool
  pt : Fin 128
  seq : UInt16
  timestamp : UInt32
  ssrc : UInt32
  deriving Repr, DecidableEq

/-- `none` is the null payload; `payload_len` is the length of the other. -/
structure RtpPacket where
  header : RtpPacketHeader
  payload : Option (List UInt8)
  deriving Repr, DecidableEq

def rtpVersion : Fin 4 := 2

def rtpDynamicPayload97 : Fin 128 := 97

def rtpPacketCreate : RtpPacket :=
  ⟨⟨rtpVersion, false, false, 0, false, rtpDynamicPayload97, 0, 0, 0⟩, none⟩

/-- `temp_header` of the packers. -/
def rtpTempHeader (header : RtpPacketHeader) : UInt16 :=
  ((UInt16.ofNat header.v <<< 6) <<< 8) ||| ((header.p.toUInt16 <<< 5) <<< 8) |||
    ((header.x.toUInt16 <<< 4) <<< 8) ||| ((UInt16.ofNat header.cc &&& 0x0f) <<< 8) |||
    (header.m.toUInt16 <<< 7) ||| (UInt16.ofNat header.pt &&& 0x7f)

/-- The fields of `temp_header`, cut to the widths of the bit-fields. -/
def rtpHeaderUnpack (tempHeader seq : UInt16) (timestamp ssrc : UInt32) : RtpPacketHeader where
  v := Fin.ofNat 4 ((tempHeader >>> 8) >>> 6).toNat
  p := ((tempHeader >>> 8) >>> 5) &&& 1 == 1
  x := ((tempHeader >>> 8) >>> 4) &&& 1 == 1
  cc := Fin.ofNat 16 ((tempHeader >>> 8) &&& 0x0f).toNat
  m := (tempHeader &&& 0x80) >>> 7 == 1
  pt := Fin.ofNat 128 (tempHeader &&& 0x7f).toNat
  seq := seq
  timestamp := timestamp
  ssrc := ssrc

/-- `packed_header_buffer_size`. -/
def packedHeaderBufferSize : ℕ := 2 + 2 + 4 + 4

/-- The block is made larger for a payload of at least one octet. -/
def rtpPacketPack (packet : RtpPacket) : Except Fault (List UInt8) := do
  let out ← (Writer.alloc packedHeaderBufferSize).putAll
    [putUint16 (rtpTempHeader packet.header), putUint16 packet.header.seq,
      putUint32 packet.header.timestamp, putUint32 packet.header.ssrc]
  let payload := packet.payload.getD []
  if payload.length > 0 then
    let out ← (out.resize (out.len + payload.length)).put payload
    return out.written
  else return out.written

/-- The largest size an allocation is granted for; a larger one comes back null. -/
def mallocMax : ℕ := 2 ^ 63 - 1

/-- The copy of a payload whose size was refused goes to a null pointer. -/
def rtpPacketUnpack (r : Region) : Except Fault (RtpPacket × Cursor) :=
  let (tempHeader, c) := getUint16 r (Cursor.start r)
  let (seq, c) := getUint16 r c
  let (timestamp, c) := getUint32 r c
  let (ssrc, c) := getUint32 r c
  let header := rtpHeaderUnpack tempHeader seq timestamp ssrc
  if c.left > 0 then
    if c.left > mallocMax then .error .nullPointer
    else
      let (payload, c) := c.take r c.left
      .ok (⟨header, some payload⟩, c)
  else .ok (⟨header, none⟩, c)

@[simp] theorem putUint16_length (src : UInt16) : (putUint16 src).length = 2 :=
  octets_length 2 src.toNat

@[simp] theorem putUint32_length (src : UInt32) : (putUint32 src).length = 4 :=
  octets_length 4 src.toNat

@[simp] theorem putUint64_length (src : UInt64) : (putUint64 src).length = 8 :=
  octets_length 8 src.toNat

/-- Four words, and the payload behind them. -/
theorem rtpPacketPack_eq (packet : RtpPacket) :
    rtpPacketPack packet = .ok (putUint16 (rtpTempHeader packet.header) ++
      (putUint16 packet.header.seq ++ (putUint32 packet.header.timestamp ++
        (putUint32 packet.header.ssrc ++ packet.payload.getD [])))) := by
  obtain ⟨words, hwords⟩ : ∃ words, words = [putUint16 (rtpTempHeader packet.header),
    putUint16 packet.header.seq, putUint32 packet.header.timestamp,
    putUint32 packet.header.ssrc] := ⟨_, rfl⟩
  have hlength : words.flatten.length = packedHeaderBufferSize := by
    rw [hwords]
    simp [packedHeaderBufferSize]
  obtain ⟨out, hput, hout⟩ := (Writer.alloc_holds packedHeaderBufferSize).putAll words
    (le_of_eq hlength)
  rw [List.nil_append] at hout
  simp only [rtpPacketPack, ← hwords, hput, bind, Except.bind, pure, Except.pure]
  by_cases hpayload : (packet.payload.getD []).length > 0
  · have hroom : (packet.payload.getD []).length ≤
        out.len + (packet.payload.getD []).length - words.flatten.length := by
      rw [hout.len]
      omega
    obtain ⟨grown, hgrown, hholds⟩ := (hout.resize (out.len + (packet.payload.getD []).length)
      (by rw [hout.len]; omega)).put hroom
    simp only [if_pos hpayload, hgrown, hholds.written_eq, hwords]
    simp [List.append_assoc]
  · have hnil : packet.payload.getD [] = [] := List.length_eq_zero_iff.mp (by omega)
    simp only [hout.written_eq, hnil, hwords]
    simp

theorem ofOctets_put32 (src : UInt32) : UInt32.ofNat (ofOctets (putUint32 src)) = src := by
  have hlt := src.toNat_lt
  rw [putUint32, ofOctets_octets, Nat.mod_eq_of_lt (by omega), UInt32.ofNat_toNat]

theorem ofOctets_put16 (src : UInt16) : UInt16.ofNat (ofOctets (putUint16 src)) = src := by
  have hlt := src.toNat_lt
  rw [putUint16, ofOctets_octets, Nat.mod_eq_of_lt (by omega), UInt16.ofNat_toNat]

theorem ofOctets_put64 (src : UInt64) : UInt64.ofNat (ofOctets (putUint64 src)) = src := by
  have hlt := src.toNat_lt
  rw [putUint64, ofOctets_octets, Nat.mod_eq_of_lt (by omega), UInt64.ofNat_toNat]

/-- Big-endian words inside a list of octets. -/
def wordAt (bytes : List UInt8) (off width : ℕ) : ℕ := ofOctets ((bytes.drop off).take width)

section Readers
variable {r : Region} {c : Cursor} {bytes : List UInt8} {off : ℕ}

theorem take_at (h : c.At r (bytes.drop off)) {width : ℕ} (hwidth : off + width ≤ bytes.length) :
    (c.take r width).1 = (bytes.drop off).take width ∧
      (c.take r width).2.At r (bytes.drop (off + width)) := by
  have hlength : ((bytes.drop off).take width).length = width := by
    rw [List.length_take, List.length_drop]
    omega
  rw [← List.take_append_drop width (bytes.drop off), List.drop_drop] at h
  have htake := h.take
  rw [hlength] at htake
  exact htake

theorem getUint16_at (h : c.At r (bytes.drop off)) (hwidth : off + 2 ≤ bytes.length) :
    ∃ d, getUint16 r c = (UInt16.ofNat (wordAt bytes off 2), d) ∧
      d.At r (bytes.drop (off + 2)) := by
  obtain ⟨hvalue, hnext⟩ := take_at h hwidth
  exact ⟨_, by rw [getUint16, hvalue, wordAt], hnext⟩

theorem getUint32_at (h : c.At r (bytes.drop off)) (hwidth : off + 4 ≤ bytes.length) :
    ∃ d, getUint32 r c = (UInt32.ofNat (wordAt bytes off 4), d) ∧
      d.At r (bytes.drop (off + 4)) := by
  obtain ⟨hvalue, hnext⟩ := take_at h hwidth
  exact ⟨_, by rw [getUint32, hvalue, wordAt], hnext⟩

theorem getUint64_at (h : c.At r (bytes.drop off)) (hwidth : off + 8 ≤ bytes.length) :
    ∃ d, getUint64 r c = (UInt64.ofNat (wordAt bytes off 8), d) ∧
      d.At r (bytes.drop (off + 8)) := by
  obtain ⟨hvalue, hnext⟩ := take_at h hwidth
  exact ⟨_, by rw [getUint64, hvalue, wordAt], hnext⟩

/-- Reading back what was put. -/
theorem getUint16_put {src : UInt16} (h : c.At r (putUint16 src ++ bytes)) :
    ∃ d, getUint16 r c = (src, d) ∧ d.At r bytes := by
  obtain ⟨hvalue, hnext⟩ := h.take
  rw [putUint16_length] at hvalue hnext
  exact ⟨_, by rw [getUint16, hvalue, ofOctets_put16], hnext⟩

theorem getUint32_put {src : UInt32} (h : c.At r (putUint32 src ++ bytes)) :
    ∃ d, getUint32 r c = (src, d) ∧ d.At r bytes := by
  obtain ⟨hvalue, hnext⟩ := h.take
  rw [putUint32_length] at hvalue hnext
  exact ⟨_, by rw [getUint32, hvalue, ofOctets_put32], hnext⟩

theorem getUint64_put {src : UInt64} (h : c.At r (putUint64 src ++ bytes)) :
    ∃ d, getUint64 r c = (src, d) ∧ d.At r bytes := by
  obtain ⟨hvalue, hnext⟩ := h.take
  rw [putUint64_length] at hvalue hnext
  exact ⟨_, by rw [getUint64, hvalue, ofOctets_put64], hnext⟩

/-- A field that is copied as it is. -/
theorem take_put {field : List UInt8} {width : ℕ} (hwidth : field.length = width)
    (h : c.At r (field ++ bytes)) : ∃ d, c.take r width = (field, d) ∧ d.At r bytes := by
  obtain ⟨hvalue, hnext⟩ := h.take
  rw [hwidth] at hvalue hnext
  exact ⟨_, by rw [← hvalue], hnext⟩

end Readers

/-- The packet that a buffer of at least twelve octets holds. -/
def readRtpPacket (bytes : List UInt8) : RtpPacket :=
  ⟨rtpHeaderUnpack (UInt16.ofNat (wordAt bytes 0 2)) (UInt16.ofNat (wordAt bytes 2 2))
      (UInt32.ofNat (wordAt bytes 4 4)) (UInt32.ofNat (wordAt bytes 8 4)),
    if bytes.drop 12 = [] then none else some (bytes.drop 12)⟩

theorem wordAt_append {front word rest : List UInt8} {off width : ℕ} (hoff : front.length = off)
    (hwidth : word.length = width) :
    wordAt (front ++ (word ++ rest)) off width = ofOctets word := by
  rw [wordAt, ← hoff, List.drop_left, ← hwidth, List.take_left]

/-- Four words in front of a payload are read back. -/
theorem readRtpPacket_put (tempHeader seq : UInt16) (timestamp ssrc : UInt32)
    (rest : List UInt8) :
    readRtpPacket (putUint16 tempHeader ++ (putUint16 seq ++
        (putUint32 timestamp ++ (putUint32 ssrc ++ rest)))) =
      ⟨rtpHeaderUnpack tempHeader seq timestamp ssrc, if rest = [] then none else some rest⟩ := by
  obtain ⟨bytes, hbytes⟩ : ∃ bytes, bytes = putUint16 tempHeader ++ (putUint16 seq ++
    (putUint32 timestamp ++ (putUint32 ssrc ++ rest))) := ⟨_, rfl⟩
  have hfirst : wordAt bytes 0 2 = ofOctets (putUint16 tempHeader) := by
    rw [hbytes, wordAt, List.drop_zero, List.take_left' (putUint16_length _)]
  have hseq : wordAt bytes 2 2 = ofOctets (putUint16 seq) := by
    rw [hbytes]
    exact wordAt_append (putUint16_length _) (putUint16_length _)
  have htimestamp : wordAt bytes 4 4 = ofOctets (putUint32 timestamp) := by
    rw [hbytes, ← List.append_assoc]
    exact wordAt_append (by simp) (putUint32_length _)
  have hssrc : wordAt bytes 8 4 = ofOctets (putUint32 ssrc) := by
    rw [hbytes, ← List.append_assoc, ← List.append_assoc]
    exact wordAt_append (by simp) (putUint32_length _)
  have hrest : bytes.drop 12 = rest := by
    rw [hbytes, ← List.append_assoc, ← List.append_assoc, ← List.append_assoc]
    exact List.drop_left' (by simp)
  rw [← hbytes, readRtpPacket, hfirst, hseq, htimestamp, hssrc, hrest, ofOctets_put16,
    ofOctets_put16, ofOctets_put32, ofOctets_put32]

/-- A packet with the whole header is read to its end. -/
theorem rtpPacketUnpack_at {r : Region} (hlen : 12 ≤ r.block.length)
    (hmax : r.block.length ≤ mallocMax) :
    ∃ c, rtpPacketUnpack r = .ok (readRtpPacket r.block, c) ∧ c.At r [] := by
  have hstart : (Cursor.start r).At r (r.block.drop 0) := Cursor.start_at r
  obtain ⟨c₁, hfirst, hc₁⟩ := getUint16_at hstart (by omega)
  obtain ⟨c₂, hseq, hc₂⟩ := getUint16_at hc₁ (by omega)
  obtain ⟨c₃, htimestamp, hc₃⟩ := getUint32_at hc₂ (by omega)
  obtain ⟨c₄, hssrc, hc₄⟩ := getUint32_at hc₃ (by omega)
  have hleft : c₄.left = r.block.length - 12 := by rw [hc₄.left_eq, List.length_drop]
  simp only [rtpPacketUnpack, hfirst, hseq, htimestamp, hssrc, readRtpPacket]
  by_cases hempty : r.block.drop 12 = []
  · have hzero : ¬ c₄.left > 0 := by rw [hc₄.left_eq, hempty]; simp
    have hend : c₄.At r [] := hempty ▸ hc₄
    exact ⟨c₄, by rw [if_neg hzero, if_pos hempty], hend⟩
  · have hpos : c₄.left > 0 := by
      rw [hc₄.left_eq]
      exact List.length_pos_of_ne_nil hempty
    have hfits : ¬ c₄.left > mallocMax := by omega
    have hcount : c₄.left = (r.block.drop 12).length := hc₄.left_eq
    rw [← List.append_nil (r.block.drop 12)] at hc₄
    obtain ⟨hpayload, hend⟩ := hc₄.take
    rw [← hcount] at hpayload hend
    exact ⟨_, by rw [if_pos hpos, if_neg hfits, if_neg hempty, hpayload], hend⟩

theorem rtpPacketUnpack_eq {r : Region} (hlen : 12 ≤ r.block.length)
    (hmax : r.block.length ≤ mallocMax) :
    ∃ c, rtpPacketUnpack r = .ok (readRtpPacket r.block, c) := by
  obtain ⟨c, hunpack, -⟩ := rtpPacketUnpack_at hlen hmax
  exact ⟨c, hunpack⟩

/-- Below twelve octets the counter wraps around and the payload has no room. -/
theorem rtpPacketUnpack_short {r : Region} (hlen : r.block.length < 12) :
    rtpPacketUnpack r = .error .nullPointer := by
  have hwrap : subWord (subWord (subWord (subWord r.block.length 2) 2) 4) 4 > mallocMax := by
    unfold subWord mallocMax
    split_ifs <;> omega
  have hpos : subWord (subWord (subWord (subWord r.block.length 2) 2) 4) 4 > 0 := by omega
  exact (if_pos hpos).trans (if_pos hwrap)

end RaveloxMidi
