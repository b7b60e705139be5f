import RaveloxMidi.MidiList
import RaveloxMidi.MidiSender

/-!
# From the sender's command to the receiver's

A short command is packed by the sender of one instance, with whatever journal it
puts behind it, and unpacked and parsed by another. The receiver's parser is back
at a boundary after each packet, so a whole session comes out command by command.
-/
namespace RaveloxMidi
open ByteMemory Transducer

/-- A channel command with the data bytes its status calls for, or a real-time octet. -/
def ShortCommand (command : MidiCommand) : Prop :=
  (IsChannelStatus command.status ∧
      command.data.length = (midiCommandBytesNeeded command.status).toNat ∧
      ∀ byte ∈ command.data, byte < 0x80) ∨
    (0xf8 ≤ command.status ∧ command.data = [])

/-- One command sent on one connection, with the journal octets behind it. -/
structure Transmission where
  ctx : NetCtx
  now : UInt64
  command : MidiCommand
  journal : List UInt8

namespace Transmission

/-- The packet that the sender builds. -/
def packet (sent : Transmission) : Except Fault (List UInt8) := do
  let payload ← midiCommandToPayload sent.command
  let payload := midiSenderMarkJournal payload sent.journal
  let ctx := netCtxIncrementSeq sent.ctx
  midiSenderPack (netCtxUpdateRtpFields ctx sent.now rtpPacketCreate.header) payload sent.journal

/-- The size of the block that the sender allocates for it. -/
def size (sent : Transmission) : ℕ :=
  rtpPacketHeaderSize + (1 + (1 + sent.command.data.length)) + sent.journal.length

/-- Sequence number, time stamp, source and command as the sender has them. -/
def content (sent : Transmission) : UInt16 × UInt32 × UInt32 × List (UInt8 × List UInt8) :=
  ((sent.ctx.seq + 1).toUInt16, (sent.now - sent.ctx.start).toUInt32, sent.ctx.sendSsrc,
    [sent.command.content])

end Transmission

/-- A packet on the receiver's side: both decoders, the queue and the parser. -/
def receivePacket (state : MidiState) (beyond packet : List UInt8) :
    Except Fault (MidiState × RtpPacketHeader × List MidiCommand) := do
  let packet ← rtpPacketUnpackBuffer beyond (some packet)
  let payload ← midiPayloadUnpackBuffer packet.payload
  match payload with
  | none => .error .nullPointer
  | some payload => do
    let state ← midiStateWritePayload state payload
    let sent ← midiStateSend state .rtp payload.header.z
    return (sent.1, packet.header, sent.2)

/-- What the receiver learns from a packet. -/
def receivedContent (header : RtpPacketHeader) (commands : List MidiCommand) :
    UInt16 × UInt32 × UInt32 × List (UInt8 × List UInt8) :=
  (header.seq, header.timestamp, header.ssrc, commands.map MidiCommand.content)

/-- One command on its way; `beyond` is what lies behind the received packet in memory. -/
def pipelineStep (state : MidiState) (sent : Transmission × List UInt8) :
    Except Fault (MidiState × List (UInt16 × UInt32 × UInt32 × List (UInt8 × List UInt8))) := do
  let packet ← sent.1.packet
  let received ← receivePacket state sent.2 packet
  return (received.1, [receivedContent received.2.1 received.2.2])

/-- A real-time octet has no data bytes, a channel command one or two. -/
theorem ShortCommand.length_le {command : MidiCommand} (h : ShortCommand command) :
    command.data.length ≤ 2 := by
  rcases h with ⟨hchannel, hlength, -⟩ | ⟨-, hdata⟩
  · rcases bytesNeeded_channel command.status hchannel with hn | hn <;> rw [hlength, hn] <;> decide
  · simp [hdata]

theorem ShortCommand.status_le {command : MidiCommand} (h : ShortCommand command) :
    0x80 ≤ command.status := by
  rcases h with ⟨hchannel, -⟩ | ⟨hstatus, -⟩
  · exact hchannel.1
  · exact UInt8.le_trans (by decide) hstatus

/-- The octets of a short command in a packet of their own. -/
theorem Parser.send_short {p : Parser} (hstatus : p.status = .init) (hhold : p.hold = [])
    {command : MidiCommand} (hcommand : ShortCommand command) :
    ∃ q emitted, Parser.send .rtp false p (command.status :: command.data) = (q, [emitted]) ∧
      emitted.content = command.content ∧ q.status = .init ∧ q.hold = [] ∧
      q.partialSysex = p.partialSysex := by
  obtain ⟨w, hw⟩ : ∃ w : Parser, w = { p with status := .waitCommand, currentDelta := 0 } :=
    ⟨_, rfl⟩
  have hawake : feed (step .rtp) (p, false) (command.status :: command.data) =
      feed (step .rtp) (w, false) (command.status :: command.data) := by
    rw [feed_cons, feed_cons, hw]
    simp [step, wake, hstatus]
  unfold Parser.send
  rw [hawake]
  rcases hcommand with ⟨hchannel, hlength, hseven⟩ | ⟨hrealtime, hdata⟩
  · have hfeed := feed_channel .rtp (p := w) (by rw [hw]) (by rw [hw]; exact hhold)
      ⟨command.status, command.data, hchannel, hlength, hseven⟩ false
    rw [hfeed]
    exact ⟨_, _, rfl, rfl, rfl, rfl, by rw [hw]; rfl⟩
  · rw [hdata, feed_singleton, step_realTime (by rw [hw]) false hrealtime]
    exact ⟨_, _, rfl, by rw [MidiCommand.content, MidiCommand.content, hdata]; rfl, rfl,
      by rw [hw]; exact hhold, by rw [hw]; rfl⟩

/-- A command that fills a packet is emitted from a boundary, and leaves the parser at one. -/
theorem MidiState.AtBoundary.emits_short {s : MidiState} (h : s.AtBoundary) {command : MidiCommand}
    (hcommand : ShortCommand command) (hroom : 3 ≤ s.ring.size) {payload : MidiPayload}
    (hbuffer : payload.buffer = some (command.status :: command.data))
    (hlength : command.data.length + 1 = payload.header.len.toNat)
    (hz : payload.header.z = false) :
    ∃ w t emitted, midiStateWritePayload s payload = .ok w ∧
      midiStateSend w .rtp payload.header.z = .ok (t, [emitted]) ∧
      emitted.content = command.content ∧ t.AtBoundary ∧ t.ring.size = s.ring.size := by
  have hshort := hcommand.length_le
  have hload : load (command.status :: command.data) 0 payload.header.len.toNat =
      .ok (command.status :: command.data) := by
    rw [load_ok (by rw [List.length_cons]; omega), List.drop_zero,
      List.take_of_length_le (by rw [List.length_cons]; omega)]
  obtain ⟨w, ret, hwrite, hw⟩ := MidiState.write_represents h.represents
    (command.status :: command.data) (by rw [List.length_nil, List.length_cons]; omega)
  obtain ⟨t, hsend, ht⟩ := MidiState.send_represents hw .rtp payload.header.z
  obtain ⟨q, emitted, hparse, hcontent, hq, hhold, hunfinished⟩ := Parser.send_short
    (p := ⟨.init, s.runningStatus, [], s.currentDelta, false⟩) rfl rfl hcommand
  rw [List.nil_append, hz, hparse] at ht hsend
  refine ⟨w, t, emitted, ?_, hz ▸ hsend, hcontent, ⟨?_, ?_, ?_, ?_, ?_, ?_⟩, ht.size_eq⟩
  · simp only [midiStateWritePayload, hbuffer, hload, hwrite, bind, Except.bind, pure, Except.pure]
  · exact ht.follows.status.trans hq
  · exact ht.follows.hold_valid
  · exact ht.follows.hold.trans hhold
  · exact ht.follows.partialSysex.trans hunfinished
  · exact ht.ring_valid
  · exact ht.queue_eq

/-- The payload of a command with its status octet. -/
theorem commandToPayload_eq {command : MidiCommand} (h : ShortCommand command) :
    midiCommandToPayload command =
      .ok ⟨⟨false, false, false, false, UInt16.ofNat (command.data.length + 1)⟩,
        some (command.status :: command.data)⟩ := by
  have hpresent : ∀ status : UInt8, 0x80 ≤ status → status &&& 0x80 ≠ 0 := by decide +kernel
  simp [midiCommandToPayload, midiPayloadSetBuffer, hpresent _ h.status_le, midiPayloadCreate]

/-- The packet of a short command: the two headers, the command and the journal. -/
theorem packet_octets {sent : Transmission} (hcommand : ShortCommand sent.command) :
    ∃ len j header, len.toNat = sent.command.data.length + 1 ∧ len ≤ 15 ∧
      header =
        netCtxUpdateRtpFields (netCtxIncrementSeq sent.ctx) sent.now rtpPacketCreate.header ∧
      sent.packet = .ok (putUint16 (rtpTempHeader header) ++ (putUint16 header.seq ++
        (putUint32 header.timestamp ++ (putUint32 header.ssrc ++
          (midiPayloadHeaderPack ⟨false, j, false, false, len⟩ ++
            (sent.command.status :: sent.command.data) ++ sent.journal))))) := by
  have hshort := hcommand.length_le
  obtain ⟨len, hlen⟩ : ∃ len : UInt16, len = UInt16.ofNat (sent.command.data.length + 1) :=
    ⟨_, rfl⟩
  have hcount : len.toNat = sent.command.data.length + 1 := by
    rw [hlen, UInt16.toNat_ofNat']
    omega
  have hle : len ≤ 15 := by
    rw [UInt16.le_iff_toNat_le, hcount]
    show sent.command.data.length + 1 ≤ 15
    omega
  obtain ⟨j, hmarked⟩ : ∃ j, midiSenderMarkJournal ⟨⟨false, false, false, false, len⟩,
      some (sent.command.status :: sent.command.data)⟩ sent.journal =
      ⟨⟨false, j, false, false, len⟩, some (sent.command.status :: sent.command.data)⟩ := by
    unfold midiSenderMarkJournal
    split_ifs
    · exact ⟨true, rfl⟩
    · exact ⟨false, rfl⟩
  obtain ⟨header, hheader⟩ : ∃ header, header =
    netCtxUpdateRtpFields (netCtxIncrementSeq sent.ctx) sent.now rtpPacketCreate.header := ⟨_, rfl⟩
  have hload : load (sent.command.status :: sent.command.data) 0 len.toNat =
      .ok (sent.command.status :: sent.command.data) := by
    rw [load_ok (by rw [List.length_cons]; omega), List.drop_zero,
      List.take_of_length_le (by rw [List.length_cons]; omega)]
  have hpack := senderPack_ok header ⟨⟨false, j, false, false, len⟩,
    some (sent.command.status :: sent.command.data)⟩ hload sent.journal
  refine ⟨len, j, header, hcount, hle, hheader, ?_⟩
  simp only [Transmission.packet, commandToPayload_eq hcommand, ← hlen, hmarked, ← hheader,
    hpack, bind, Except.bind]
  simp [midiSenderParts]

/-- What the receiver decodes from the packet of a short command: the journal is cut off. -/
theorem packet_decoded {sent : Transmission} (hcommand : ShortCommand sent.command)
    (hsize : sent.size ≤ mallocMax) (beyond : List UInt8) :
    ∃ packet received payload, sent.packet = .ok packet ∧
      rtpPacketUnpackBuffer beyond (some packet) = .ok received ∧
      midiPayloadUnpackBuffer received.payload = .ok (some payload) ∧
      received.header.seq = (sent.ctx.seq + 1).toUInt16 ∧
      received.header.timestamp = (sent.now - sent.ctx.start).toUInt32 ∧
      received.header.ssrc = sent.ctx.sendSsrc ∧
      payload.buffer = some (sent.command.status :: sent.command.data) ∧
      sent.command.data.length + 1 = payload.header.len.toNat ∧ payload.header.z = false := by
  obtain ⟨len, j, header, hcount, hle, hheader, hpacket⟩ := packet_octets hcommand
  obtain ⟨rest, hrest⟩ : ∃ rest, rest = midiPayloadHeaderPack ⟨false, j, false, false, len⟩ ++
    (sent.command.status :: sent.command.data) ++ sent.journal := ⟨_, rfl⟩
  have hne : rest ≠ [] := by
    rw [hrest]
    simp
  have hone : (midiPayloadHeaderPack ⟨false, j, false, false, len⟩).length = 1 := by
    rw [midiPayloadHeaderPack, if_pos hle, List.length_singleton]
  have htotal : (putUint16 (rtpTempHeader header) ++ (putUint16 header.seq ++
      (putUint32 header.timestamp ++ (putUint32 header.ssrc ++ rest)))).length = sent.size := by
    simp only [List.length_append, putUint16_length, putUint32_length, hrest, hone,
      List.length_cons, Transmission.size, rtpPacketHeaderSize]
    omega
  have hlong : 12 ≤ sent.size := by
    rw [Transmission.size, rtpPacketHeaderSize]
    omega
  rw [← hrest] at hpacket
  obtain ⟨c, hunpack⟩ := rtpPacketUnpack_eq (r := ⟨_, beyond⟩) (htotal.symm ▸ hlong)
    (htotal.symm ▸ hsize)
  rw [readRtpPacket_put, if_neg hne] at hunpack
  refine ⟨_, _, ⟨⟨false, j, false, false, len⟩,
    some (sent.command.status :: sent.command.data)⟩, hpacket,
    by simp only [rtpPacketUnpackBuffer, hunpack, Except.map]; rfl, ?_, ?_, ?_, ?_, rfl,
    hcount.symm, rfl⟩
  · rw [midiPayloadUnpackBuffer, unpack_eq, hrest,
      readPayload_short j false false hle _ (by rw [hcount, List.length_cons]) sent.journal]
  · rw [hheader]
    rfl
  · rw [hheader]
    rfl
  · rw [hheader]
    rfl

theorem pipelineStep_spec {s : MidiState} (h : s.AtBoundary) (hroom : 3 ≤ s.ring.size)
    {sent : Transmission × List UInt8} (hcommand : ShortCommand sent.1.command)
    (hsize : sent.1.size ≤ mallocMax) :
    ∃ t, pipelineStep s sent = .ok (t, [sent.1.content]) ∧ t.AtBoundary ∧ 3 ≤ t.ring.size := by
  obtain ⟨packet, received, payload, hpacket, hunpack, hpayload, hseq, htimestamp, hssrc, hbuffer,
    hlength, hz⟩ := packet_decoded hcommand hsize sent.2
  obtain ⟨w, t, emitted, hwrite, hsend, hcontent, ht, hsame⟩ :=
    h.emits_short hcommand hroom hbuffer hlength hz
  refine ⟨t, ?_, ht, hsame.symm ▸ hroom⟩
  simp only [pipelineStep, hpacket, receivePacket, hunpack, hpayload, hwrite, hsend, bind,
    Except.bind, pure, Except.pure, receivedContent, hseq, htimestamp, hssrc, List.map_cons,
    List.map_nil, hcontent, Transmission.content]

/-- By induction on the packets, from boundary to boundary. -/
theorem pipeline_run (session : List (Transmission × List UInt8)) {s : MidiState}
    (h : s.AtBoundary) (hroom : 3 ≤ s.ring.size)
    (hcommands : ∀ sent ∈ session, ShortCommand sent.1.command)
    (hsizes : ∀ sent ∈ session, sent.1.size ≤ mallocMax) :
    ∃ t, run pipelineStep s session = .ok (t, session.map fun sent => sent.1.content) := by
  induction session generalizing s with
  | nil => exact ⟨s, rfl⟩
  | cons sent session ih =>
    obtain ⟨t, hstep, ht, hroom'⟩ := pipelineStep_spec h hroom (hcommands sent (by simp))
      (hsizes sent (by simp))
    obtain ⟨u, hrest⟩ := ih ht hroom' (fun later hlater => hcommands later (by simp [hlater]))
      (fun later hlater => hsizes later (by simp [hlater]))
    exact ⟨u, run_cons_ok hstep hrest⟩

/-- The sender's loop sends such packets: what leaves for a slot is a transmission of
the command, with the journal of the context behind it. -/
theorem sendConnection_transmits {host : NetHost} {now : UInt64} {event : MidiEvent} {slot : ℕ}
    {command : MidiCommand} {packed payload payload' : MidiPayload} {ctx ctx' : NetCtx}
    {effects : List NetEffect} {j : Bool} (hpacked : midiCommandToPayload command = .ok packed)
    (hpayload : payload = { packed with header.j := j })
    (hok : midiSenderSendConnection host now event slot payload ctx =
      .ok (ctx', payload', effects)) :
    ∀ address packet, NetEffect.packet slot address packet ∈ effects →
      ∃ journal, (⟨ctx, now, command, journal⟩ : Transmission).packet = .ok packet := by
  obtain ⟨journal, hjournal, hok⟩ := bind_ok hok
  obtain ⟨written, hwritten, hok⟩ := bind_ok hok
  have hmark : midiSenderMarkJournal payload journal.2 =
      midiSenderMarkJournal packed journal.2 := by
    rw [hpayload]
    unfold midiSenderMarkJournal midiPayloadSetJ midiPayloadUnsetJ
    rfl
  have hheader : netCtxUpdateRtpFields (netCtxIncrementSeq journal.1) now rtpPacketCreate.header =
      netCtxUpdateRtpFields (netCtxIncrementSeq ctx) now rtpPacketCreate.header := by
    unfold netCtxJournalPack at hjournal
    cases hpack : journalPack ctx.journal with
    | error fault => rw [hpack] at hjournal; cases hjournal
    | ok result => rw [hpack] at hjournal; cases hjournal; rfl
  cases hok
  intro address packet hmem
  obtain ⟨sent, hsent, heq⟩ := List.mem_map.mp hmem
  cases heq
  refine ⟨journal.2, ?_⟩
  rw [hmark, hheader] at hwritten
  have hsame : sent.2 = written := by
    rw [Option.mem_toList, netCtxSend] at hsent
    by_cases hempty : written.length = 0
    · rw [if_pos hempty] at hsent
      cases hsent
    · rw [if_neg hempty] at hsent
      obtain ⟨target, -, rfl⟩ := Option.map_eq_some_iff.mp hsent
      rfl
  rw [hsame]
  simp only [Transmission.packet, hpacked, hwritten, bind, Except.bind]

/-- Every short command of a session arrives at a fresh receiver as it was sent, one to a
packet, with the sender's number, time and source. -/
theorem session_arrives {host : NetHost} {created : NetCtx}
    (hcreated : netCtxCreate host = some created) (session : List (Transmission × List UInt8))
    (hcommands : ∀ sent ∈ session, ShortCommand sent.1.command)
    (hsizes : ∀ sent ∈ session, sent.1.size ≤ mallocMax) :
    ∃ t, run pipelineStep created.midiState session =
      .ok (t, session.map fun sent => sent.1.content) := by
  obtain ⟨state, hstate, rfl⟩ := Option.map_eq_some_iff.mp hcreated
  have hroom : 0 < max netSocketDefaultRingBuffer host.ringBufferSize :=
    lt_of_lt_of_le (by decide) (le_max_left _ _)
  obtain ⟨s, hs, hboundary, hsize⟩ := MidiState.create_atBoundary hroom
  obtain rfl : s = state := Option.some.inj (hs.symm.trans hstate)
  refine pipeline_run session hboundary ?_ hcommands hsizes
  rw [hsize]
  exact le_trans (by decide) (le_max_left _ _)

/-- A note with a journal behind it, then a clock without one. -/
theorem session_arrives_note :
    ∃ created t, netCtxCreate ⟨0, none, true, fun _ _ => none⟩ = some created ∧
      run pipelineStep created.midiState
        [(⟨{ created with seq := 0xffff, sendSsrc := 7 }, 30, ⟨0, 0x90, [0x30, 0x40]⟩,
            [0x20, 0x00, 0x01]⟩, [0xaa]),
          (⟨{ created with sendSsrc := 7 }, 40, ⟨0, 0xf8, []⟩, []⟩, [])] =
        .ok (t, [(0, 30, 7, [(0x90, [0x30, 0x40])]), (2, 40, 7, [(0xf8, [])])]) := by
  obtain ⟨created, hcreated, hseq, hstart⟩ : ∃ created,
      netCtxCreate ⟨0, none, true, fun _ _ => none⟩ = some created ∧ created.seq = 1 ∧
        created.start = 0 := ⟨_, rfl, rfl, rfl⟩
  have hnote : ShortCommand ⟨0, 0x90, [0x30, 0x40]⟩ := .inl ⟨by decide, by rfl, by simp⟩
  have hclock : ShortCommand ⟨0, 0xf8, []⟩ := .inr ⟨by decide, rfl⟩
  obtain ⟨t, hrun⟩ := session_arrives hcreated
    [(⟨{ created with seq := 0xffff, sendSsrc := 7 }, 30, ⟨0, 0x90, [0x30, 0x40]⟩,
        [0x20, 0x00, 0x01]⟩, [0xaa]),
      (⟨{ created with sendSsrc := 7 }, 40, ⟨0, 0xf8, []⟩, []⟩, [])] (by simp [hnote, hclock])
    (by simp [Transmission.size, rtpPacketHeaderSize, mallocMax])
  refine ⟨created, t, hcreated, ?_⟩
  rw [hrun]
  simp [Transmission.content, hseq, hstart, MidiCommand.content]

end RaveloxMidi
