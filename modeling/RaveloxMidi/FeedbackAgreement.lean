import RaveloxMidi.JournalFeedback

/-!
# Which SSRC a feedback carries

Each side of a session keeps two SSRCs for it: its own, under which it sends, and
that of the other side, under which it finds the connection. The answer to an RTP
packet carries the SSRC of the packet, so the sender gets back the one SSRC under
which it cannot find the connection that the packet was sent on.
-/
namespace RaveloxMidi
open ByteMemory

/-- An established session as the two tables have it: each side knows the other
under the SSRC that the other sends with. -/
structure Session (connections : List NetCtx) (i : ℕ) (ctx : NetCtx) (peers : List NetCtx) (j : ℕ)
    (peer : NetCtx) : Prop where
  here : connections[i]? = some ctx
  used : ctx.status ≠ .unused
  there : peers[j]? = some peer
  peerUsed : peer.status ≠ .unused
  ssrc : ctx.ssrc = peer.sendSsrc
  peerSsrc : peer.ssrc = ctx.sendSsrc
  distinct : ctx.sendSsrc ≠ peer.sendSsrc

/-- The octets unpack to a feedback, and the responder finds the slot for it. -/
def FeedbackMatched (connections : List NetCtx) (slot : ℕ) (r : Region) : Prop :=
  ∃ signature feedback ctx, (netApplemidiUnpack r).command =
      some ⟨signature, netApplemidiCmdFeedback, .feedback feedback⟩ ∧
    netCtxFindBySsrc connections feedback.ssrc = some (slot, ctx)

/-- The first octet of a payload without the B flag announces no more octets than
follow. -/
theorem headerPack_cons {header : MidiPayloadHeader} (hb : header.b = false) :
    ∃ first more, midiPayloadHeaderPack header = first :: more ∧
      first &&& payloadHeaderB = 0 ∧ (first &&& 0x0f).toNat ≤ 15 ∧
      (first &&& 0x0f).toNat ≤ header.len.toNat := by
  obtain ⟨b, j, z, p, len⟩ := header
  cases hb
  by_cases hshort : len ≤ 15
  · obtain ⟨hsmall, hback⟩ := low_length_octet hshort
    obtain ⟨hflag, hlow, -⟩ := first_octet j z p len _ hsmall
    refine ⟨_, _, if_pos hshort, hflag, ?_, ?_⟩
    · rw [hlow]
      exact UInt8.le_iff_toNat_le.mp hsmall
    · rw [hlow, ← UInt8.toNat_toUInt16, hback]
  · have hsmall := high_length_octet len
    obtain ⟨hflag, hlow, -⟩ := first_octet j z p len _ hsmall
    have hle := UInt8.le_iff_toNat_le.mp hsmall
    rw [UInt16.le_iff_toNat_le, not_le] at hshort
    refine ⟨_, _, if_neg (by rwa [UInt16.le_iff_toNat_le, not_le]), hflag, ?_, ?_⟩
    · rw [hlow]
      exact hle
    · rw [hlow]
      exact hle.trans hshort.le

theorem readPayload_packed {header : MidiPayloadHeader} (hb : header.b = false)
    {bytes : List UInt8} (hlength : bytes.length = header.len.toNat) (journal : List UInt8) {m : ℕ}
    (hm : 16 ≤ m) :
    ∃ payload, readPayload ((midiPayloadHeaderPack header ++ (bytes ++ journal)).take m) =
      some payload := by
  obtain ⟨first, more, hpack, hflag, hsmall, hannounced⟩ := headerPack_cons hb
  obtain ⟨m, rfl⟩ : ∃ k, m = k + 1 := ⟨m - 1, by omega⟩
  rw [hpack, List.cons_append, List.take_succ_cons]
  have hfits : 1 + (first &&& 0x0f).toUInt16.toNat ≤
      (first :: (more ++ (bytes ++ journal)).take m).length := by
    rw [UInt8.toNat_toUInt16, List.length_cons, List.length_take, List.length_append,
      List.length_append]
    omega
  rw [readPayload, payloadFrame, if_pos hflag, Option.bind_some, if_pos hfits]
  exact ⟨_, rfl⟩

theorem tempHeader_sent (seq : UInt16) (timestamp ssrc : UInt32) :
    rtpTempHeader { rtpPacketCreate.header with
      seq := seq, timestamp := timestamp, ssrc := ssrc } = 0x8061 := by
  simp only [rtpTempHeader, rtpPacketCreate]
  decide

/-- A packet of the sender is read back in full, also when a long journal is cut off
at its end. -/
theorem PacketOf.read {seq sendSsrc : UInt32} {packet : List UInt8}
    (h : PacketOf seq sendSsrc packet) {n : ℕ} (hn : 16 ≤ n) :
    12 ≤ (packet.take (12 + n)).length ∧ ¬ IsApplemidi (packet.take (12 + n)) ∧
      (readRtpPacket (packet.take (12 + n))).header.v = rtpVersion ∧
      (readRtpPacket (packet.take (12 + n))).header.ssrc = sendSsrc ∧
      (readRtpPacket (packet.take (12 + n))).header.seq = seq.toUInt16 ∧
      ∃ payload, readPayload ((packet.take (12 + n)).drop 12) = some payload := by
  obtain ⟨header, payload, bytes, journal, hpacket, hheader, hb, hlength⟩ := h
  have htemp : rtpTempHeader header = 0x8061 := by
    rw [hheader]
    exact tempHeader_sent _ _ _
  obtain ⟨front, hfront⟩ : ∃ front, front = putUint16 0x8061 ++ (putUint16 header.seq ++
    (putUint32 header.timestamp ++ putUint32 header.ssrc)) := ⟨_, rfl⟩
  have hlen : front.length = 12 := by simp [hfront]
  obtain ⟨rest, hrest⟩ : ∃ rest,
    rest = (midiPayloadHeaderPack payload ++ (bytes ++ journal)).take n := ⟨_, rfl⟩
  have hshape : packet.take (12 + n) = front ++ rest := by
    have hsplit : packet = front ++ (midiPayloadHeaderPack payload ++ (bytes ++ journal)) := by
      rw [hpacket, midiSenderParts, htemp, hfront]
      simp
    rw [hsplit, ← hlen, List.take_length_add_append, hrest]
  have hread : readRtpPacket (front ++ rest) = ⟨rtpHeaderUnpack 0x8061 header.seq header.timestamp
      header.ssrc, if rest = [] then none else some rest⟩ := by
    have hput := readRtpPacket_put 0x8061 header.seq header.timestamp header.ssrc rest
    rwa [← List.append_assoc (putUint32 _), ← List.append_assoc (putUint16 header.seq),
      ← List.append_assoc (putUint16 0x8061), ← hfront] at hput
  rw [hshape, hread]
  refine ⟨by rw [List.length_append]; omega, ?_, rfl, ?_, ?_, ?_⟩
  · rintro ⟨hfirst, -⟩
    rw [hfront] at hfirst
    simp [putUint16, octets] at hfirst
  · rw [hheader]
    rfl
  · rw [hheader]
    rfl
  · rw [List.drop_left' hlen, hrest]
    exact readPayload_packed hb hlength journal hn

/-- The answer to a packet from a known SSRC is one feedback, and it carries the SSRC
and the number of the packet. -/
theorem packet_answered {seq sendSsrc : UInt32} {packet : List UInt8}
    (h : PacketOf seq sendSsrc packet) {s : NetState} (hs : s.Valid) (host : NetHost)
    (moment : NetMoment) (hknown : ∃ ctx ∈ s.connections, ctx.status ≠ .unused ∧
      ctx.ssrc = sendSsrc) {d : Datagram} (hd : d.packet = packet.take netApplemidiUdpSize) :
    ∃ u, ∃ commands : List MidiCommand, netSocketRead host moment s d =
      .ok (u, .reply (feedbackOctets sendSsrc seq.toUInt16) ::
        commands.map fun command => .queue command sendSsrc) := by
  obtain ⟨hlong, hrtp, hversion, hssrc, hseq, payload, hpayload⟩ := h.read (n := 1460) (by omega)
  have htake : d.packet = packet.take (12 + 1460) := hd
  rw [← htake] at hlong hrtp hversion hssrc hseq hpayload
  have hmax : d.packet.length ≤ netApplemidiUdpSize := by
    rw [hd]
    exact List.length_take_le _ _
  obtain ⟨t, p, size, -, -, hread⟩ := read_eq hs host moment (by omega) hmax
  obtain ⟨ctx, hctx, hused, hctxSsrc⟩ := hknown
  rw [hread, if_neg hrtp, rtp_eq _ _ hlong (hmax.trans (by decide)), hversion, hssrc, hpayload]
  cases hfind : netCtxFindBySsrc s.connections sendSsrc with
  | none =>
    have hnot := find_none hfind ctx hctx
    simp [netCtxIsUsed, hused, hctxSsrc] at hnot
  | some found =>
    have hfound := hs.parsers _ (List.mem_of_getElem? (find_some hfind).1)
    obtain ⟨state, commands, hdeliver, -⟩ := deliver_ok s.connections found.1 hfound
      (readRtpPacket d.packet).header hpayload
    rw [hssrc, hseq] at hdeliver
    simp only [ne_eq, not_true_eq_false, if_false, hdeliver]
    exact ⟨_, commands, rfl⟩

/-- No slot with another SSRC is found for a feedback. -/
theorem feedback_elsewhere {connections : List NetCtx} {slot : ℕ} {ctx : NetCtx}
    (hctx : connections[slot]? = some ctx) {ssrc : UInt32} (hother : ctx.ssrc ≠ ssrc)
    (rtpSeq : UInt16) (beyond : List UInt8) :
    ¬ FeedbackMatched connections slot ⟨feedbackOctets ssrc rtpSeq, beyond⟩ := by
  rintro ⟨signature, feedback, found, hunpack, hfind⟩
  obtain ⟨c, hpacked, -⟩ := unpackFeedback_packed 0xffff
    ((⟨ssrc, 0⟩ : NetApplemidiFeedback).setRtpSeq1 rtpSeq) beyond
  have hcommand := congrArg NetApplemidiUnpacked.command hpacked
  cases hcommand.symm.trans hunpack
  obtain ⟨hslot, hwanted⟩ := find_some hfind
  cases hctx.symm.trans hslot
  simp only [Bool.and_eq_true, beq_iff_eq] at hwanted
  exact hother hwanted.2

/-- The two sides of a session between the SSRCs 9 and 7, and a packet that the first
of them sends. -/
theorem mirrored_session :
    ∃ created t effects packet, netCtxCreate resolvingHost = some created ∧
      (registeredConnection created 9 7).Valid ∧
      Session (registeredConnection created 7 9).connections 0
        (netCtxSet resolvingHost created 7 1 9 5004 [] none 0)
        (registeredConnection created 9 7).connections 0
        (netCtxSet resolvingHost created 9 1 7 5004 [] none 0) ∧
      midiSenderSendSingle resolvingHost (fun _ => 0) (registeredConnection created 7 9).connections
        ⟨0, 0xf8, []⟩ 0 = .ok (t, effects) ∧
      packetsTo 0 effects = [packet] := by
  obtain ⟨created, hcreated⟩ : ∃ created, netCtxCreate resolvingHost = some created := ⟨_, rfl⟩
  obtain ⟨state, hstate, hctx⟩ := Option.map_eq_some_iff.mp hcreated
  obtain ⟨hrep, -⟩ := MidiState.create_represents hstate
  have hparser : created.midiState = state := by rw [← hctx]
  have hsession : Session (registeredConnection created 7 9).connections 0
      (netCtxSet resolvingHost created 7 1 9 5004 [] none 0)
      (registeredConnection created 9 7).connections 0
      (netCtxSet resolvingHost created 9 1 7 5004 [] none 0) :=
    ⟨rfl, by simp [netCtxSet], rfl, by simp [netCtxSet], rfl, rfl, by simp [netCtxSet]⟩
  have hjournals : ∀ ctx ∈ (registeredConnection created 7 9).connections, ctx.journal.Valid := by
    simp [registeredConnection, netCtxSet, ← hctx, Journal.valid_init]
  have hevent : midiSenderEvent ⟨0, 0xf8, []⟩ = .ok .other := rfl
  obtain ⟨t, effects, hsend, -⟩ :=
    sendSingle_ok resolvingHost (fun _ => 0) hjournals hevent 0
  obtain ⟨-, -, -, -, -, -, hone⟩ := (sendSingle_spec hsend).2 0 _ hsession.here
  obtain ⟨packet, hpacket⟩ := List.length_eq_one_iff.mp
    (hone (by simp [netCtxSet]) (by simp [netCtxSet, resolvingHost]))
  refine ⟨created, t, effects, packet, hcreated, ⟨fun socket => ?_, fun ctx hctx' => ?_⟩, hsession,
    hsend, hpacket⟩
  · exact ⟨_, _, hparser ▸ hrep, by decide⟩
  · obtain rfl := List.mem_singleton.mp hctx'
    have hvalid : created.midiState.Valid := ⟨_, _, _, hparser ▸ hrep⟩
    exact hvalid.reset

/-- In an established session every RTP packet that one side sends is answered with
a feedback, and the sender never finds the connection of the session for it. -/
theorem feedback_never_matched {host : NetHost} (peerHost : NetHost) {connections t : List NetCtx}
    {i j : ℕ} {ctx peer : NetCtx} {s : NetState}
    (h : Session connections i ctx s.connections j peer)
    (hs : s.Valid) {clock : ℕ → UInt64} {command : MidiCommand} {originator : UInt32}
    {effects : List NetEffect}
    (hsend : midiSenderSendSingle host clock connections command originator = .ok (t, effects))
    {packet : List UInt8} (hpacket : packet ∈ packetsTo i effects) (moment : NetMoment)
    {d : Datagram} (hd : d.packet = packet.take netApplemidiUdpSize) :
    ∃ u answer, ∃ commands : List MidiCommand, netSocketRead peerHost moment s d =
        .ok (u, .reply answer :: commands.map fun command => .queue command ctx.sendSsrc) ∧
      ∀ later ctx', later[i]? = some ctx' → ctx'.ssrc = ctx.ssrc → ∀ beyond,
        ¬ FeedbackMatched later i ⟨answer, beyond⟩ := by
  obtain ⟨ctx', -, -, hcarries, -⟩ := (sendSingle_spec hsend).2 i ctx h.here
  obtain ⟨k, hk⟩ := List.getElem?_of_mem hpacket
  obtain ⟨u, commands, hread⟩ := packet_answered (hcarries.packetOf k packet hk) hs peerHost moment
    ⟨peer, List.mem_of_getElem? h.there, h.peerUsed, h.peerSsrc⟩ hd
  refine ⟨u, _, commands, hread, fun later ctx' hctx' hssrc beyond => ?_⟩
  have hother : ctx'.ssrc ≠ ctx.sendSsrc := by
    rw [hssrc, h.ssrc]
    exact h.distinct.symm
  exact feedback_elsewhere hctx' hother _ beyond

/-- The feedback for a packet under the SSRC 9 comes back under the SSRC 9, and the
sender knows the other side as 7. -/
theorem mirrored_feedback_unmatched :
    ∃ created t effects packet, netCtxCreate resolvingHost = some created ∧
      Session (registeredConnection created 7 9).connections 0
        (netCtxSet resolvingHost created 7 1 9 5004 [] none 0)
        (registeredConnection created 9 7).connections 0
        (netCtxSet resolvingHost created 9 1 7 5004 [] none 0) ∧
      midiSenderSendSingle resolvingHost (fun _ => 0) (registeredConnection created 7 9).connections
        ⟨0, 0xf8, []⟩ 0 = .ok (t, effects) ∧
      packetsTo 0 effects = [packet] ∧
      ∃ u, ∃ commands : List MidiCommand, netSocketRead resolvingHost quietMoment
          (registeredConnection created 9 7)
          ⟨.data, [], 5005, packet.take netApplemidiUdpSize, []⟩ =
            .ok (u, .reply (feedbackOctets 9 2) ::
              commands.map fun command => .queue command 9) ∧
        ¬ FeedbackMatched t 0 ⟨feedbackOctets 9 2, []⟩ := by
  obtain ⟨created, t, effects, packet, hcreated, hvalid, hsession, hsend, hpacket⟩ :=
    mirrored_session
  obtain ⟨state, -, hctx⟩ := Option.map_eq_some_iff.mp hcreated
  obtain ⟨ctx', hctx', hsame, hcarries, -⟩ := (sendSingle_spec hsend).2 0 _ hsession.here
  have hfirst := hcarries.packetOf 0 packet (by rw [hpacket]; rfl)
  obtain ⟨u, commands, hread⟩ := packet_answered hfirst hvalid resolvingHost quietMoment
    ⟨_, List.mem_of_getElem? hsession.there, hsession.peerUsed, hsession.peerSsrc⟩
    (d := ⟨.data, [], 5005, packet.take netApplemidiUdpSize, []⟩) rfl
  have hseq : ((netCtxSet resolvingHost created 7 1 9 5004 [] none 0).seq +
      UInt32.ofNat (0 + 1)).toUInt16 = 2 := by
    rw [← hctx]
    rfl
  rw [hseq] at hread
  refine ⟨created, t, effects, packet, hcreated, hsession, hsend, hpacket, u, commands, hread, ?_⟩
  refine feedback_elsewhere hctx' ?_ 2 []
  rw [hsame.ssrc]
  simp [netCtxSet]

theorem feedback_never_matched_mirrored :
    ∃ created t effects packet u answer, ∃ commands : List MidiCommand,
      netCtxCreate resolvingHost = some created ∧
      midiSenderSendSingle resolvingHost (fun _ => 0) (registeredConnection created 7 9).connections
        ⟨0, 0xf8, []⟩ 0 = .ok (t, effects) ∧
      packet ∈ packetsTo 0 effects ∧
      netSocketRead resolvingHost quietMoment (registeredConnection created 9 7)
          ⟨.data, [], 5005, packet.take netApplemidiUdpSize, []⟩ =
        .ok (u, .reply answer :: commands.map fun command => .queue command 9) ∧
      ¬ FeedbackMatched t 0 ⟨answer, []⟩ := by
  obtain ⟨created, t, effects, packet, hcreated, hvalid, hsession, hsend, hpacket⟩ :=
    mirrored_session
  obtain ⟨ctx', hctx', hsame, -⟩ := (sendSingle_spec hsend).2 0 _ hsession.here
  have hmem : packet ∈ packetsTo 0 effects := by
    rw [hpacket]
    exact List.mem_singleton_self packet
  obtain ⟨u, answer, commands, hread, hnever⟩ := feedback_never_matched resolvingHost
    hsession hvalid hsend hmem quietMoment
    (d := ⟨.data, [], 5005, packet.take netApplemidiUdpSize, []⟩) rfl
  exact ⟨created, t, effects, packet, u, answer, commands, hcreated, hsend, hmem, hread,
    hnever t ctx' hctx' hsame.ssrc []⟩

end RaveloxMidi
