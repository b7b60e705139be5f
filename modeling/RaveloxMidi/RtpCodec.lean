import RaveloxMidi.RtpPacket

/-!
# The RTP header as a codec

The packer shifts six bit-fields into one word, and the reader shifts them out
again and cuts each to its width. In numbers, the fields are the digits of the
word to mixed bases, so the two undo each other.
-/
namespace RaveloxMidi
open ByteMemory

/-- The upper octet of the word: version, padding, extension and contributor count. -/
theorem upperFields_eq (v : Fin 4) (p x : Bool) (cc : Fin 16) :
    ((UInt16.ofNat v <<< 6) <<< 8) ||| ((p.toUInt16 <<< 5) <<< 8) ||| ((x.toUInt16 <<< 4) <<< 8) |||
      ((UInt16.ofNat cc &&& 0x0f) <<< 8) =
    UInt16.ofNat (64 * v.val + 32 * p.toNat + 16 * x.toNat + cc.val) <<< 8 := by
  revert v p x cc
  decide

/-- The lower octet: marker and payload type. -/
theorem lowerFields_eq (m : Bool) (pt : Fin 128) :
    (m.toUInt16 <<< 7) ||| (UInt16.ofNat pt &&& 0x7f) = UInt16.ofNat (128 * m.toNat + pt.val) := by
  revert m pt
  decide

/-- Two octets put side by side. -/
theorem shift_or_toNat {upper lower : ℕ} (hupper : upper < 256) (hlower : lower < 256) :
    (UInt16.ofNat upper <<< 8 ||| UInt16.ofNat lower).toNat = 256 * upper + lower := by
  have hshift : (UInt16.ofNat upper <<< 8).toNat = 2 ^ 8 * upper := by
    rw [UInt16.toNat_shiftLeft, UInt16.toNat_ofNat', Nat.shiftLeft_eq]
    simp only [UInt16.reduceToNat, Nat.reduceMod, Nat.reducePow]
    omega
  rw [UInt16.toNat_or, hshift, UInt16.toNat_ofNat', Nat.mod_eq_of_lt (by omega),
    ← Nat.two_pow_add_eq_or_of_lt (by omega)]

/-- The word that the packer makes, as a number. -/
theorem rtpTempHeader_toNat (header : RtpPacketHeader) :
    (rtpTempHeader header).toNat =
      256 * (64 * header.v.val + 32 * header.p.toNat + 16 * header.x.toNat + header.cc.val) +
        (128 * header.m.toNat + header.pt.val) := by
  have hp := header.p.toNat_le
  have hx := header.x.toNat_le
  have hm := header.m.toNat_le
  rw [← shift_or_toNat (by omega) (by omega), ← upperFields_eq, ← lowerFields_eq,
    ← UInt16.or_assoc]
  rfl

theorem bit_toNat (word : UInt16) : (word &&& 1 == 1).toNat = word.toNat % 2 := by
  have hbit : (word &&& 1).toNat = word.toNat % 2 := by
    rw [UInt16.toNat_and]
    exact Nat.and_one_is_mod _
  rcases Nat.mod_two_eq_zero_or_one word.toNat with hzero | hone
  · have heq : word &&& 1 = 0 := UInt16.toNat_inj.mp (hbit.trans hzero)
    rw [heq, hzero]
    rfl
  · have heq : word &&& 1 = 1 := UInt16.toNat_inj.mp (hbit.trans hone)
    rw [heq, hone]
    rfl

/-- The fields that the reader makes of a word are the digits of its two octets. -/
theorem rtpHeaderUnpack_digits (tempHeader seq : UInt16) (timestamp ssrc : UInt32) :
    (rtpHeaderUnpack tempHeader seq timestamp ssrc).v.val = tempHeader.toNat / 256 / 64 ∧
    (rtpHeaderUnpack tempHeader seq timestamp ssrc).p.toNat = tempHeader.toNat / 256 / 32 % 2 ∧
    (rtpHeaderUnpack tempHeader seq timestamp ssrc).x.toNat = tempHeader.toNat / 256 / 16 % 2 ∧
    (rtpHeaderUnpack tempHeader seq timestamp ssrc).cc.val = tempHeader.toNat / 256 % 16 ∧
    (rtpHeaderUnpack tempHeader seq timestamp ssrc).m.toNat = tempHeader.toNat % 256 / 128 ∧
    (rtpHeaderUnpack tempHeader seq timestamp ssrc).pt.val = tempHeader.toNat % 256 % 128 := by
  have hlt := tempHeader.toNat_lt
  have hmask4 : ∀ n : ℕ, n &&& 15 = n % 16 := fun n => Nat.and_two_pow_sub_one_eq_mod n 4
  have hmask7 : ∀ n : ℕ, n &&& 127 = n % 128 := fun n => Nat.and_two_pow_sub_one_eq_mod n 7
  have hmarker : ((tempHeader &&& 0x80) >>> 7 == 1) = ((tempHeader >>> 7) &&& 1 == 1) := by
    have hshift : (tempHeader &&& 0x80) >>> 7 = (tempHeader >>> 7) &&& 1 := by
      rw [UInt16.shiftRight_and]
      rfl
    rw [hshift]
  simp only [rtpHeaderUnpack, hmarker, bit_toNat, Fin.ofNat, UInt16.toNat_and,
    UInt16.toNat_shiftRight, UInt16.reduceToNat, hmask4, hmask7, Nat.shiftRight_eq_div_pow,
    Nat.reduceMod, Nat.reducePow, true_and]
  omega

/-- The two octets of the word that the packer makes. -/
theorem rtpTempHeader_octets (header : RtpPacketHeader) :
    (rtpTempHeader header).toNat / 256 =
      64 * header.v.val + 32 * header.p.toNat + 16 * header.x.toNat + header.cc.val ∧
    (rtpTempHeader header).toNat % 256 = 128 * header.m.toNat + header.pt.val := by
  have hm := header.m.toNat_lt
  rw [rtpTempHeader_toNat]
  omega

theorem rtpTempHeader_rtpHeaderUnpack (tempHeader seq : UInt16) (timestamp ssrc : UInt32) :
    rtpTempHeader (rtpHeaderUnpack tempHeader seq timestamp ssrc) = tempHeader := by
  obtain ⟨hv, hp, hx, hcc, hm, hpt⟩ := rtpHeaderUnpack_digits tempHeader seq timestamp ssrc
  apply UInt16.toNat_inj.mp
  rw [rtpTempHeader_toNat, hv, hp, hx, hcc, hm, hpt]
  omega

theorem rtpHeaderUnpack_rtpTempHeader (header : RtpPacketHeader) :
    rtpHeaderUnpack (rtpTempHeader header) header.seq header.timestamp header.ssrc = header := by
  obtain ⟨hv, hp, hx, hcc, hm, hpt⟩ :=
    rtpHeaderUnpack_digits (rtpTempHeader header) header.seq header.timestamp header.ssrc
  have hpbit := header.p.toNat_lt
  have hxbit := header.x.toNat_lt
  have hmbit := header.m.toNat_lt
  have hbool : ∀ a b : Bool, a.toNat = b.toNat → a = b := by decide
  obtain ⟨hupper, hlower⟩ := rtpTempHeader_octets header
  rw [hupper] at hv hp hx hcc
  rw [hlower] at hm hpt
  obtain ⟨v, p, x, cc, m, pt, seq, timestamp, ssrc⟩ := header
  dsimp only at hv hp hx hcc hm hpt hpbit hxbit hmbit
  rw [rtpHeaderUnpack, RtpPacketHeader.mk.injEq]
  exact ⟨Fin.ext (hv.trans (by omega)), hbool _ _ (hp.trans (by omega)),
    hbool _ _ (hx.trans (by omega)), Fin.ext (hcc.trans (by omega)),
    hbool _ _ (hm.trans (by omega)), Fin.ext (hpt.trans (by omega)), rfl, rfl, rfl⟩

/-- A word of a buffer, written again. -/
theorem octets_wordAt {bytes : List UInt8} {off width : ℕ} (h : off + width ≤ bytes.length) :
    octets width (wordAt bytes off width) = (bytes.drop off).take width ∧
      wordAt bytes off width < 256 ^ width := by
  have hlength : ((bytes.drop off).take width).length = width := by
    rw [List.length_take, List.length_drop]
    omega
  have hlt := ofOctets_lt ((bytes.drop off).take width)
  have hback := octets_ofOctets ((bytes.drop off).take width)
  rw [hlength] at hlt hback
  exact ⟨hback, hlt⟩

theorem putUint16_wordAt {bytes : List UInt8} {off : ℕ} (h : off + 2 ≤ bytes.length) :
    putUint16 (UInt16.ofNat (wordAt bytes off 2)) = (bytes.drop off).take 2 := by
  obtain ⟨hback, hlt⟩ := octets_wordAt h
  rw [putUint16, UInt16.toNat_ofNat_of_lt' hlt, hback]

theorem putUint32_wordAt {bytes : List UInt8} {off : ℕ} (h : off + 4 ≤ bytes.length) :
    putUint32 (UInt32.ofNat (wordAt bytes off 4)) = (bytes.drop off).take 4 := by
  obtain ⟨hback, hlt⟩ := octets_wordAt h
  rw [putUint32, UInt32.toNat_ofNat_of_lt' hlt, hback]

/-- What was read from a buffer is written as that buffer. -/
theorem rtpPacketPack_readRtpPacket {bytes : List UInt8} (hlen : 12 ≤ bytes.length) :
    rtpPacketPack (readRtpPacket bytes) = .ok bytes := by
  have hpayload : (readRtpPacket bytes).payload.getD [] = bytes.drop 12 := by
    by_cases hempty : bytes.drop 12 = []
    · simp [readRtpPacket, hempty]
    · simp [readRtpPacket, hempty]
  rw [rtpPacketPack_eq, hpayload, readRtpPacket, rtpTempHeader_rtpHeaderUnpack]
  simp only [rtpHeaderUnpack]
  rw [putUint16_wordAt (by omega), putUint16_wordAt (by omega), putUint32_wordAt (by omega),
    putUint32_wordAt (by omega)]
  have hsplit : ∀ off width, (bytes.drop off).take width ++ bytes.drop (off + width) =
      bytes.drop off := fun off width => by rw [← List.drop_drop, List.take_append_drop]
  rw [hsplit 8 4, hsplit 4 4, hsplit 2 2, hsplit 0 2, List.drop_zero]

/-- What was written is read as the same header and payload; a payload of no octets comes
back null. -/
theorem rtpPacketUnpack_pack (packet : RtpPacket)
    (hpayload : 12 + (packet.payload.getD []).length ≤ mallocMax) (beyond : List UInt8) :
    ∃ bytes c, rtpPacketPack packet = .ok bytes ∧
      rtpPacketUnpack ⟨bytes, beyond⟩ = .ok (⟨packet.header,
        if packet.payload.getD [] = [] then none else packet.payload⟩, c) := by
  obtain ⟨bytes, hbytes⟩ : ∃ bytes, bytes = putUint16 (rtpTempHeader packet.header) ++
    (putUint16 packet.header.seq ++ (putUint32 packet.header.timestamp ++
      (putUint32 packet.header.ssrc ++ packet.payload.getD []))) := ⟨_, rfl⟩
  have hlength : bytes.length = 12 + (packet.payload.getD []).length := by
    rw [hbytes]
    simp only [List.length_append, putUint16_length, putUint32_length]
    omega
  obtain ⟨c, hunpack⟩ := rtpPacketUnpack_eq (r := ⟨bytes, beyond⟩)
    (hlength ▸ Nat.le_add_right _ _) (hlength ▸ hpayload)
  refine ⟨bytes, c, hbytes ▸ rtpPacketPack_eq packet, ?_⟩
  rw [hunpack, hbytes, readRtpPacket_put, rtpHeaderUnpack_rtpTempHeader]
  cases packet.payload <;> simp

/-- Packing and unpacking undo each other, for whatever fits into memory: on packets, whose
payload is taken by its octets, and on byte strings that are long enough. -/
theorem rtp_codec (packet : RtpPacket)
    (hpayload : 12 + (packet.payload.getD []).length ≤ mallocMax) (beyond : List UInt8)
    (r : Region) (hlen : 12 ≤ r.block.length) (hmax : r.block.length ≤ mallocMax) :
    (∃ bytes received c, rtpPacketPack packet = .ok bytes ∧
      rtpPacketUnpack ⟨bytes, beyond⟩ = .ok (received, c) ∧ received.header = packet.header ∧
      received.payload.getD [] = packet.payload.getD []) ∧
    (∃ received c, rtpPacketUnpack r = .ok (received, c) ∧
      rtpPacketPack received = .ok r.block) := by
  obtain ⟨bytes, c, hpack, hunpack⟩ := rtpPacketUnpack_pack packet hpayload beyond
  obtain ⟨d, hread⟩ := rtpPacketUnpack_eq hlen hmax
  refine ⟨⟨bytes, _, c, hpack, hunpack, rfl, ?_⟩, _, d, hread, rtpPacketPack_readRtpPacket hlen⟩
  by_cases hempty : packet.payload.getD [] = []
  · simp [hempty]
  · rw [if_neg hempty]

/-- A packet with every field in use, and a buffer with a payload of one octet. -/
theorem rtp_codec_full :
    (∃ bytes received c, rtpPacketPack ⟨⟨3, true, false, 9, true, 97, 0x1234, 5, 7⟩,
        some [0x90, 0x30]⟩ = .ok bytes ∧
      rtpPacketUnpack ⟨bytes, [0xff]⟩ = .ok (received, c) ∧
      received.header = ⟨3, true, false, 9, true, 97, 0x1234, 5, 7⟩ ∧
      received.payload.getD [] = [0x90, 0x30]) ∧
    (∃ received c, rtpPacketUnpack ⟨List.replicate 13 0xa5, []⟩ = .ok (received, c) ∧
      rtpPacketPack received = .ok (List.replicate 13 0xa5)) :=
  rtp_codec ⟨⟨3, true, false, 9, true, 97, 0x1234, 5, 7⟩, some [0x90, 0x30]⟩ (by decide) [0xff]
    ⟨List.replicate 13 0xa5, []⟩ (by decide) (by decide)

end RaveloxMidi
