import RaveloxMidi.ApplemidiResponders
import RaveloxMidi.MidiPayload

/-!
# Reading a datagram

Every datagram goes through the ring of its socket, which is drained at once. By
its first two octets it is an AppleMIDI command or an RTP packet. The reader goes
on with what the decoders return and does not ask whether they succeeded: the
theorem of this module says for exactly which datagrams that is safe.
-/
namespace RaveloxMidi
open ByteMemory Transducer

inductive NetSocket where
  | control
  | data
  deriving Repr, DecidableEq

/-- A datagram with the address it came from, and what lies behind the copy of
it in memory. -/
structure Datagram where
  socket : NetSocket
  ipAddress : List UInt8
  port : UInt16
  packet : List UInt8
  beyond : List UInt8

structure NetState where
  connections : List NetCtx
  sockets : NetSocket → MidiState

def netReply (answer : Option (List UInt8)) : List NetEffect := answer.toList.map .reply

/-- The switch on the command code. -/
def netSocketDispatch (host : NetHost) (moment : NetMoment) (connections : List NetCtx)
    (d : Datagram) (command : NetApplemidiCommand) :
    Except Fault (List NetCtx × List NetEffect) :=
  if command.command = netApplemidiCmdInv then do
    let data ← command.data.asInv
    let answered ← applemidiInvResponder host moment connections d.ipAddress d.port data
    return (answered.1, netReply answered.2)
  else if command.command = netApplemidiCmdAccept then do
    let data ← command.data.asInv
    applemidiOkResponder host moment connections data
  else if command.command = netApplemidiCmdEnd then do
    let data ← command.data.asInv
    return (applemidiByResponder connections data, [])
  else if command.command = netApplemidiCmdSync then do
    let data ← command.data.asSync
    let answer ← applemidiSyncResponder moment connections data
    return (connections, netReply answer)
  else if command.command = netApplemidiCmdFeedback then do
    let data ← command.data.asFeedback
    return (applemidiFeedbackResponder connections data, [])
  else .ok (connections, [])

/-- The branch for AppleMIDI commands: the command is looked at and destroyed
without a check that there is one. -/
def netSocketApplemidi (host : NetHost) (moment : NetMoment) (connections : List NetCtx)
    (d : Datagram) (buffer : Option (List UInt8)) : Except Fault (List NetCtx × List NetEffect) :=
  match buffer.bind fun bytes => (netApplemidiUnpack ⟨bytes, d.beyond⟩).command with
  | none => .error .nullPointer
  | some command => do
    let handled ← netSocketDispatch host moment connections d command
    netApplemidiCmdDestroy command
    return handled

/-- `midi_state_write( current_ctx->midi_state, midi_payload->buffer, len )`. -/
def midiStateWritePayload (state : MidiState) (payload : MidiPayload) : Except Fault MidiState :=
  match payload.buffer with
  | none => .ok state
  | some buffer => do
    let bytes ← load buffer 0 payload.header.len.toNat
    let written ← midiStateWrite state bytes
    return written.1

/-- The part of the RTP branch behind the look-up of the context. -/
def netSocketDeliver (connections : List NetCtx) (slot : ℕ) (ctx : NetCtx)
    (header : RtpPacketHeader) : Option MidiPayload → Except Fault (List NetCtx × List NetEffect)
  | none => .error .nullPointer
  | some payload => do
    let state ← midiStateWritePayload ctx.midiState payload
    let response ← applemidiFeedbackCreate header.ssrc header.seq
    let sent ← midiStateSend state .rtp payload.header.z
    return (connections.set slot { ctx with midiState := sent.1 },
      netReply response ++ sent.2.map fun command => .queue command header.ssrc)

/-- Without a buffer the packet stays as it was created. -/
def rtpPacketUnpackBuffer (beyond : List UInt8) : Option (List UInt8) → Except Fault RtpPacket
  | none => .ok rtpPacketCreate
  | some bytes => (rtpPacketUnpack ⟨bytes, beyond⟩).map Prod.fst

/-- A null payload is not unpacked. -/
def midiPayloadUnpackBuffer : Option (List UInt8) → Except Fault (Option MidiPayload)
  | none => .ok none
  | some bytes => midiPayloadUnpack bytes

/-- The branch for RTP packets. -/
def netSocketRtp (connections : List NetCtx) (d : Datagram) (buffer : Option (List UInt8)) :
    Except Fault (List NetCtx × List NetEffect) := do
  let packet ← rtpPacketUnpackBuffer d.beyond buffer
  if packet.header.v ≠ rtpVersion then return (connections, [])
  let payload ← midiPayloadUnpackBuffer packet.payload
  match netCtxFindBySsrc connections packet.header.ssrc with
  | none => return (connections, [])
  | some (slot, ctx) => netSocketDeliver connections slot ctx packet.header payload

/-- `net_socket_read` on the control or the data socket. -/
def netSocketRead (host : NetHost) (moment : NetMoment) (s : NetState) (d : Datagram) :
    Except Fault (NetState × List NetEffect) := do
  if d.packet.length = 0 then return (s, [])
  let written ← midiStateWrite (s.sockets d.socket) d.packet
  let first ← midiStateCharCompare written.1 0xff 0
  let second ← midiStateCharCompare written.1 0xff 1
  let drained ← midiStateDrain written.1
  let handled ←
    if first && second then netSocketApplemidi host moment s.connections d drained.2
    else netSocketRtp s.connections d drained.2
  return (⟨handled.1, Function.update s.sockets d.socket drained.1⟩, handled.2)

/-- A datagram that begins like an AppleMIDI command. -/
def IsApplemidi (packet : List UInt8) : Prop := packet[0]? = some 0xff ∧ packet[1]? = some 0xff

instance (packet : List UInt8) : Decidable (IsApplemidi packet) :=
  inferInstanceAs (Decidable (_ ∧ _))

/-- A command is complete if its code is known and the reader finds what it asks for. -/
def CommandComplete (packet : List UInt8) : Prop :=
  netApplemidiCommandSize ≤ packet.length ∧
    ∃ room ∈ commandRoom (UInt16.ofNat (wordAt packet 2 2)),
      netApplemidiCommandSize + room ≤ packet.length

/-- An RTP packet is complete if its header is there and, unless it is dropped for
its version or an unknown SSRC, its MIDI payload too. -/
def RtpComplete (connections : List NetCtx) (packet : List UInt8) : Prop :=
  12 ≤ packet.length ∧
    ((readRtpPacket packet).header.v = rtpVersion →
      (netCtxFindBySsrc connections (readRtpPacket packet).header.ssrc).isSome →
        (readPayload (packet.drop 12)).isSome)

/-- Every decoder produces what the reader of a datagram goes on to use. -/
def Handled (connections : List NetCtx) (packet : List UInt8) : Prop :=
  if IsApplemidi packet then CommandComplete packet else RtpComplete connections packet

/-- The room that the socket rings have for a datagram at least. -/
def netApplemidiUdpSize : ℕ := 1472

/-- Between two datagrams: nothing is queued in a socket, there is room for a
datagram, and the parsers of the connections are sound. -/
structure NetState.Valid (s : NetState) : Prop where
  sockets : ∀ socket, ∃ p size, (s.sockets socket).Represents p [] size ∧
    netApplemidiUdpSize ≤ size
  parsers : ∀ ctx ∈ s.connections, ctx.midiState.Valid

/-- The switch finds the data it asks for. -/
theorem dispatch_ok (host : NetHost) (moment : NetMoment) (connections : List NetCtx)
    (d : Datagram) {command : NetApplemidiCommand} (h : command.data.Fits command.command) :
    ∃ t effects, netSocketDispatch host moment connections d command = .ok (t, effects) := by
  obtain ⟨signature, code, data⟩ := command
  unfold netSocketDispatch
  unfold NetApplemidiData.Fits at h
  simp only at h ⊢
  by_cases hinv : IsInvCommand code
  · rw [if_pos hinv] at h
    obtain ⟨inv, rfl⟩ := h
    simp only [NetApplemidiData.asInv, bind, Except.bind, pure, Except.pure]
    rcases hinv with rfl | rfl | rfl | rfl
    · obtain ⟨t, answer, hanswer⟩ :=
        invResponder_ok host moment connections d.ipAddress d.port (some inv)
      exact ⟨t, netReply answer, by rw [if_pos rfl, hanswer]⟩
    · obtain ⟨t, effects, hanswer⟩ := okResponder_ok host moment connections (some inv)
      exact ⟨t, effects, by rw [if_neg (by decide), if_pos rfl, hanswer]⟩
    · exact ⟨connections, [], rfl⟩
    · exact ⟨applemidiByResponder connections (some inv), [], rfl⟩
  · rw [if_neg hinv] at h
    by_cases hfeedback : code = netApplemidiCmdFeedback
    · rw [if_pos hfeedback] at h
      obtain ⟨feedback, rfl⟩ := h
      subst hfeedback
      exact ⟨applemidiFeedbackResponder connections (some feedback), [], rfl⟩
    · rw [if_neg hfeedback] at h
      by_cases hbitrate : code = netApplemidiCmdBitrate
      · subst hbitrate
        exact ⟨connections, [], rfl⟩
      · rw [if_neg hbitrate] at h
        by_cases hsync : code = netApplemidiCmdSync
        · rw [if_pos hsync] at h
          obtain ⟨sync, rfl⟩ := h
          subst hsync
          obtain ⟨answer, hanswer, -⟩ := syncResponder_ok moment connections (some sync)
          refine ⟨connections, netReply answer, ?_⟩
          simp only [NetApplemidiData.asSync, hanswer, bind, Except.bind, pure, Except.pure]
          rfl
        · rw [if_neg hsync] at h
          exact h.elim

section Invitations
variable (host : NetHost) (moment : NetMoment) (connections : List NetCtx) (d : Datagram)
  (signature : UInt16) (inv : NetApplemidiInv)

theorem dispatch_inv :
    netSocketDispatch host moment connections d ⟨signature, netApplemidiCmdInv, .inv inv⟩ =
      (applemidiInvResponder host moment connections d.ipAddress d.port (some inv)).map
        fun answered => (answered.1, netReply answered.2) := by
  unfold netSocketDispatch
  rw [if_pos rfl]
  simp only [NetApplemidiData.asInv, bind, Except.bind]
  cases applemidiInvResponder host moment connections d.ipAddress d.port (some inv) <;> rfl

theorem dispatch_accept :
    netSocketDispatch host moment connections d ⟨signature, netApplemidiCmdAccept, .inv inv⟩ =
      applemidiOkResponder host moment connections (some inv) := rfl

theorem dispatch_end :
    netSocketDispatch host moment connections d ⟨signature, netApplemidiCmdEnd, .inv inv⟩ =
      .ok (applemidiByResponder connections (some inv), []) := rfl

end Invitations

section Applemidi
variable (host : NetHost) (moment : NetMoment) (connections : List NetCtx) (d : Datagram)
  {bytes : List UInt8}

theorem applemidi_null (h : (netApplemidiUnpack ⟨bytes, d.beyond⟩).command = none) :
    netSocketApplemidi host moment connections d (some bytes) = .error .nullPointer := by
  simp only [netSocketApplemidi, Option.bind_some, h]

theorem applemidi_fits {command : NetApplemidiCommand}
    (h : (netApplemidiUnpack ⟨bytes, d.beyond⟩).command = some command)
    (hfits : command.data.Fits command.command) :
    ∃ t effects, netSocketApplemidi host moment connections d (some bytes) = .ok (t, effects) := by
  obtain ⟨t, effects, hdispatch⟩ := dispatch_ok host moment connections d hfits
  refine ⟨t, effects, ?_⟩
  simp only [netSocketApplemidi, Option.bind_some, h, hdispatch, destroy_fits hfits, bind,
    Except.bind, pure, Except.pure]

/-- A command whose code is unknown passes the switch and faults when it is destroyed. -/
theorem applemidi_unset (signature : UInt16) {code : UInt16} (hcode : commandRoom code = none)
    (h : (netApplemidiUnpack ⟨bytes, d.beyond⟩).command = some ⟨signature, code, .unset⟩) :
    netSocketApplemidi host moment connections d (some bytes) = .error .uninitialised := by
  unfold commandRoom at hcode
  split_ifs at hcode with hinv hfeedback hbitrate hsync
  obtain ⟨hinv, haccept, -, hend⟩ := by simpa only [IsInvCommand, not_or] using hinv
  simp only [netSocketApplemidi, Option.bind_some, h, netSocketDispatch, if_neg hinv,
    if_neg haccept, if_neg hend, if_neg hsync, if_neg hfeedback, netApplemidiCmdDestroy, bind,
    Except.bind]

theorem applemidi_iff :
    (∃ t effects, netSocketApplemidi host moment connections d (some bytes) = .ok (t, effects)) ↔
      CommandComplete bytes := by
  by_cases hshort : bytes.length < netApplemidiCommandSize
  · have hnull := applemidi_null host moment connections d
      (unpack_short (r := ⟨bytes, d.beyond⟩) hshort)
    refine iff_of_false ?_ fun h => absurd h.1 (not_le.mpr hshort)
    rintro ⟨t, effects, hok⟩
    cases hnull.symm.trans hok
  · have hlong := not_lt.mp hshort
    obtain ⟨code, hcode⟩ : ∃ code, code = UInt16.ofNat (wordAt bytes 2 2) := ⟨_, rfl⟩
    have hcomplete : CommandComplete bytes ↔ ∃ room, commandRoom code = some room ∧
        netApplemidiCommandSize + room ≤ bytes.length := by
      rw [CommandComplete, ← hcode]
      exact and_iff_right hlong
    rw [hcomplete]
    rcases unpack_reads (r := ⟨bytes, d.beyond⟩) hlong hcode with
      ⟨room, hroom, ⟨hfew, hnone⟩ | ⟨henough, signature, data, hsome, hfits⟩⟩ |
        ⟨hnone, signature, hunset⟩
    · have hnull := applemidi_null host moment connections d hnone
      refine iff_of_false ?_ ?_
      · rintro ⟨t, effects, hok⟩
        cases hnull.symm.trans hok
      · rintro ⟨room', hroom', hle⟩
        rw [hroom, Option.some.injEq] at hroom'
        simp only at hfew
        omega
    · simp only at henough
      exact iff_of_true (applemidi_fits host moment connections d hsome hfits)
        ⟨room, hroom, by omega⟩
    · have hfault := applemidi_unset host moment connections d signature hnone hunset
      refine iff_of_false ?_ ?_
      · rintro ⟨t, effects, hok⟩
        cases hfault.symm.trans hok
      · rintro ⟨room, hroom, -⟩
        rw [hnone] at hroom
        cases hroom

end Applemidi

/-- A payload that was read has as many octets as its header says. -/
theorem readPayload_buffer {buffer : List UInt8} {payload : MidiPayload}
    (h : readPayload buffer = some payload) :
    ∃ bytes, payload.buffer = some bytes ∧ bytes.length = payload.header.len.toNat := by
  unfold readPayload at h
  rw [Option.bind_eq_some_iff] at h
  obtain ⟨frame, -, hframe⟩ := h
  split_ifs at hframe with hfit
  rw [← Option.some.inj hframe]
  refine ⟨_, rfl, ?_⟩
  rw [List.length_take, List.length_drop]
  simp only
  omega

theorem MidiState.Valid.write {s : MidiState} (h : s.Valid) (bytes : List UInt8) :
    ∃ t ret, midiStateWrite s bytes = .ok (t, ret) ∧ t.Valid := by
  obtain ⟨p, queue, size, h⟩ := h
  by_cases hfit : queue.length + bytes.length ≤ size
  · obtain ⟨t, ret, hwrite, ht⟩ := MidiState.write_represents h bytes hfit
    exact ⟨t, ret, hwrite, p, _, size, ht⟩
  · obtain ⟨ret, hwrite⟩ := MidiState.write_dropped h bytes (not_le.mp hfit)
    exact ⟨s, ret, hwrite, p, queue, size, h⟩

theorem MidiState.Valid.send {s : MidiState} (h : s.Valid) (mode : MidiParseMode) (zFlag : Bool) :
    ∃ t commands, midiStateSend s mode zFlag = .ok (t, commands) ∧ t.Valid := by
  obtain ⟨p, queue, size, h⟩ := h
  obtain ⟨t, hsend, ht⟩ := MidiState.send_represents h mode zFlag
  exact ⟨t, _, hsend, _, [], size, ht⟩

/-- A payload that is there goes to the parser of the context and is confirmed. -/
theorem deliver_ok (connections : List NetCtx) (slot : ℕ) {ctx : NetCtx} (h : ctx.midiState.Valid)
    (header : RtpPacketHeader) {buffer : List UInt8} {payload : MidiPayload}
    (hpayload : readPayload buffer = some payload) :
    ∃ state, ∃ commands : List MidiCommand,
      netSocketDeliver connections slot ctx header (some payload) =
          .ok (connections.set slot { ctx with midiState := state },
            .reply (feedbackOctets header.ssrc header.seq) ::
              commands.map fun command => .queue command header.ssrc) ∧ state.Valid := by
  obtain ⟨bytes, hbuffer, hlength⟩ := readPayload_buffer hpayload
  have hload : load bytes 0 payload.header.len.toNat = .ok bytes := by
    rw [load_ok (by omega), ← hlength, List.drop_zero, List.take_length]
  obtain ⟨written, ret, hwrite, hwritten⟩ := h.write bytes
  obtain ⟨state, commands, hsend, hstate⟩ := hwritten.send .rtp payload.header.z
  refine ⟨state, commands, ?_, hstate⟩
  simp only [netSocketDeliver, midiStateWritePayload, hbuffer, hload, hwrite, feedbackCreate_ok,
    hsend, bind, Except.bind, pure, Except.pure]
  rfl

theorem unpackBuffer_eq {packet : RtpPacket} {bytes : List UInt8}
    (h : packet = readRtpPacket bytes) :
    midiPayloadUnpackBuffer packet.payload = .ok (readPayload (bytes.drop 12)) := by
  rw [h]
  by_cases hempty : bytes.drop 12 = []
  · simp [readRtpPacket, hempty, midiPayloadUnpackBuffer, readPayload, payloadFrame]
  · simp only [readRtpPacket, if_neg hempty, midiPayloadUnpackBuffer, unpack_eq]

/-- The RTP branch on a packet whose header is there. -/
theorem rtp_eq (connections : List NetCtx) (d : Datagram) {bytes : List UInt8}
    (hlong : 12 ≤ bytes.length) (hmax : bytes.length ≤ mallocMax) :
    netSocketRtp connections d (some bytes) =
      if (readRtpPacket bytes).header.v ≠ rtpVersion then .ok (connections, [])
      else match netCtxFindBySsrc connections (readRtpPacket bytes).header.ssrc with
        | none => .ok (connections, [])
        | some (slot, ctx) => netSocketDeliver connections slot ctx (readRtpPacket bytes).header
          (readPayload (bytes.drop 12)) := by
  obtain ⟨c, hunpack⟩ := rtpPacketUnpack_eq (r := ⟨bytes, d.beyond⟩) hlong hmax
  have hpacket : rtpPacketUnpackBuffer d.beyond (some bytes) = .ok (readRtpPacket bytes) := by
    rw [rtpPacketUnpackBuffer, hunpack]
    rfl
  simp only [netSocketRtp, hpacket, unpackBuffer_eq rfl, bind, Except.bind, pure, Except.pure]

theorem rtp_iff {connections : List NetCtx} (h : ∀ ctx ∈ connections, ctx.midiState.Valid)
    (d : Datagram) {bytes : List UInt8} (hmax : bytes.length ≤ mallocMax) :
    (∃ t effects, netSocketRtp connections d (some bytes) = .ok (t, effects)) ↔
      RtpComplete connections bytes := by
  by_cases hshort : bytes.length < 12
  · have hfault : netSocketRtp connections d (some bytes) = .error .nullPointer := by
      simp only [netSocketRtp, rtpPacketUnpackBuffer,
        rtpPacketUnpack_short (r := ⟨bytes, d.beyond⟩) hshort, Except.map, bind, Except.bind]
    refine iff_of_false ?_ fun hcomplete => absurd hcomplete.1 (not_le.mpr hshort)
    rintro ⟨t, effects, hok⟩
    cases hfault.symm.trans hok
  · have hlong := not_lt.mp hshort
    rw [rtp_eq connections d hlong hmax, RtpComplete, and_iff_right hlong]
    by_cases hversion : (readRtpPacket bytes).header.v = rtpVersion
    · simp only [hversion, ne_eq, not_true_eq_false, if_false, true_imp_iff]
      cases hfind : netCtxFindBySsrc connections (readRtpPacket bytes).header.ssrc with
      | none => simp
      | some found =>
        obtain ⟨slot, ctx⟩ := found
        cases hpayload : readPayload (bytes.drop 12) with
        | none => simp [netSocketDeliver]
        | some payload =>
          have hctx := h ctx (List.mem_of_getElem? (find_some hfind).1)
          obtain ⟨state, commands, hdeliver, -⟩ := deliver_ok connections slot hctx
            (readRtpPacket bytes).header hpayload
          exact iff_of_true ⟨_, _, hdeliver⟩ (by simp)
    · simp [hversion]

/-- A datagram passes through the ring of its socket and is classified by its
first two octets. -/
theorem read_eq {s : NetState} (h : s.Valid) (host : NetHost) (moment : NetMoment) {d : Datagram}
    (hpos : 0 < d.packet.length) (hmax : d.packet.length ≤ netApplemidiUdpSize) :
    ∃ t p size, t.Represents p [] size ∧ netApplemidiUdpSize ≤ size ∧
      netSocketRead host moment s d =
        (if IsApplemidi d.packet then
          netSocketApplemidi host moment s.connections d (some d.packet)
        else netSocketRtp s.connections d (some d.packet)).map fun handled =>
          (⟨handled.1, Function.update s.sockets d.socket t⟩, handled.2) := by
  obtain ⟨p, size, hrep, hsize⟩ := h.sockets d.socket
  obtain ⟨written, ret, hwrite, hwritten⟩ := MidiState.write_represents hrep d.packet (by
    rw [List.length_nil]
    omega)
  rw [List.nil_append] at hwritten
  have hne : written.ring.queue ≠ [] := by
    rw [hwritten.queue_eq]
    exact List.ne_nil_of_length_pos hpos
  obtain ⟨ring, hdrain, hvalid, hringSize, hqueue⟩ := RingBuffer.drain_spec hwritten.ring_valid hne
  have hdrained : midiStateDrain written = .ok ({ written with ring := ring }, some d.packet) := by
    simp only [midiStateDrain, hdrain, hwritten.queue_eq, bind, Except.bind, pure, Except.pure]
  have hfirst := RingBuffer.charCompare_spec hwritten.ring_valid 0xff 0
  have hsecond := RingBuffer.charCompare_spec hwritten.ring_valid 0xff 1
  rw [hwritten.queue_eq] at hfirst hsecond
  obtain ⟨hstatus, hrunning, hdelta, hunfinished, hholdValid, hhold⟩ := hwritten.follows
  refine ⟨{ written with ring := ring }, p, size, ⟨⟨hstatus, hrunning, hdelta, hunfinished,
    hholdValid, hhold⟩, hwritten.awaiting, hvalid, hqueue, hringSize.trans hwritten.size_eq⟩,
    hsize, ?_⟩
  have hclass : (d.packet[0]? == some 0xff && d.packet[1]? == some 0xff) = true ↔
      IsApplemidi d.packet := by
    simp [IsApplemidi]
  simp only [netSocketRead, if_neg (Nat.ne_of_gt hpos), hwrite, midiStateCharCompare, hfirst,
    hsecond, hdrained, bind, Except.bind, pure, Except.pure, hclass]
  split_ifs
  · cases netSocketApplemidi host moment s.connections d (some d.packet) <;> rfl
  · cases netSocketRtp s.connections d (some d.packet) <;> rfl

theorem InvPacket.isApplemidi {command : UInt16} {ssrc initiator : UInt32} {packet : List UInt8}
    (h : InvPacket command ssrc initiator packet) : IsApplemidi packet ∧ 0 < packet.length := by
  obtain ⟨version, rest, rfl⟩ := h
  exact ⟨⟨rfl, rfl⟩, by simp⟩

theorem SyncPacket.isApplemidi {packet : List UInt8} (h : SyncPacket packet) :
    IsApplemidi packet ∧ 0 < packet.length := by
  obtain ⟨rest, rfl⟩ := h
  exact ⟨⟨rfl, rfl⟩, by simp⟩

/-- A command of the invitation family goes to the switch with its SSRC and its token. -/
theorem read_invPacket {s : NetState} (h : s.Valid) (host : NetHost) (moment : NetMoment)
    {d : Datagram} {command : UInt16} {ssrc initiator : UInt32}
    (hpacket : InvPacket command ssrc initiator d.packet) (hcommand : IsInvCommand command)
    (hmax : d.packet.length ≤ netApplemidiUdpSize) :
    ∃ sockets version name, netSocketRead host moment s d =
      (netSocketDispatch host moment s.connections d
          ⟨0xffff, command, .inv ⟨ssrc, version, initiator, name⟩⟩).map fun handled =>
        (⟨handled.1, sockets⟩, handled.2) := by
  obtain ⟨hclass, hpos⟩ := hpacket.isApplemidi
  obtain ⟨state, p, size, -, -, hread⟩ := read_eq h host moment hpos hmax
  obtain ⟨version, name, hunpack⟩ := hpacket.unpack hcommand d.beyond
  refine ⟨Function.update s.sockets d.socket state, version, name, ?_⟩
  rw [hread, if_pos hclass, netSocketApplemidi, Option.bind_some, hunpack]
  simp only [netApplemidiCmdDestroy, bind, Except.bind, pure, Except.pure]
  cases netSocketDispatch host moment s.connections d
    ⟨0xffff, command, .inv ⟨ssrc, version, initiator, name⟩⟩ <;> rfl

/-- A synchronisation leaves the table as it is and is answered with another or nothing. -/
theorem read_syncPacket {s : NetState} (h : s.Valid) {host : NetHost} {moment : NetMoment}
    {d : Datagram} (hpacket : SyncPacket d.packet) (hmax : d.packet.length ≤ netApplemidiUdpSize)
    {t : NetState} {effects : List NetEffect}
    (hok : netSocketRead host moment s d = .ok (t, effects)) :
    t.connections = s.connections ∧
      ∀ effect ∈ effects, ∃ octets, effect = .reply octets ∧ SyncPacket octets := by
  obtain ⟨hclass, hpos⟩ := hpacket.isApplemidi
  obtain ⟨state, p, size, -, -, hread⟩ := read_eq h host moment hpos hmax
  rw [hread, if_pos hclass] at hok
  obtain ⟨handled, hhandled, heq⟩ := map_ok hok
  cases heq
  rcases hpacket.unpack d.beyond with hnone | ⟨signature, sync, hsome⟩
  · cases (applemidi_null host moment s.connections d hnone).symm.trans hhandled
  · rw [netSocketApplemidi, Option.bind_some, hsome] at hhandled
    obtain ⟨answer, hanswer, hpackets⟩ := syncResponder_ok moment s.connections (some sync)
    simp only [netSocketDispatch, NetApplemidiData.asSync, hanswer, netApplemidiCmdDestroy, bind,
      Except.bind, pure, Except.pure] at hhandled
    cases hhandled
    refine ⟨rfl, fun effect heffect => ?_⟩
    obtain ⟨octets, hoctets, rfl⟩ := List.mem_map.mp heffect
    exact ⟨octets, rfl, hpackets octets (by simpa using hoctets)⟩

theorem read_ok_iff {s : NetState} (h : s.Valid) (host : NetHost) (moment : NetMoment)
    {d : Datagram} (hpos : 0 < d.packet.length) (hmax : d.packet.length ≤ netApplemidiUdpSize) :
    (∃ t effects, netSocketRead host moment s d = .ok (t, effects)) ↔
      ∃ t effects, (if IsApplemidi d.packet then
        netSocketApplemidi host moment s.connections d (some d.packet)
        else netSocketRtp s.connections d (some d.packet)) = .ok (t, effects) := by
  obtain ⟨state, p, size, -, -, hread⟩ := read_eq h host moment hpos hmax
  rw [hread]
  cases (if IsApplemidi d.packet then
    netSocketApplemidi host moment s.connections d (some d.packet)
    else netSocketRtp s.connections d (some d.packet)) with
  | error fault => simp [Except.map]
  | ok handled => exact iff_of_true ⟨_, _, rfl⟩ ⟨_, _, rfl⟩

/-- Whatever the decoders do not produce is not asked for. -/
theorem read_of_handled {s : NetState} (h : s.Valid) (host : NetHost) (moment : NetMoment)
    {d : Datagram} (hpos : 0 < d.packet.length) (hmax : d.packet.length ≤ netApplemidiUdpSize)
    (hhandled : Handled s.connections d.packet) :
    ∃ t effects, netSocketRead host moment s d = .ok (t, effects) := by
  rw [read_ok_iff h host moment hpos hmax]
  unfold Handled at hhandled
  split_ifs at hhandled ⊢
  · exact (applemidi_iff host moment s.connections d).mpr hhandled
  · exact (rtp_iff h.parsers d (le_trans hmax (by decide))).mpr hhandled

/-- A datagram is read without a fault exactly when the decoders produce all that
the reader goes on to use. -/
theorem datagram_handled_iff {s : NetState} (h : s.Valid) (host : NetHost) (moment : NetMoment)
    {d : Datagram} (hpos : 0 < d.packet.length) (hmax : d.packet.length ≤ netApplemidiUdpSize) :
    (∃ t effects, netSocketRead host moment s d = .ok (t, effects)) ↔
      Handled s.connections d.packet := by
  refine ⟨fun hok => ?_, read_of_handled h host moment hpos hmax⟩
  rw [read_ok_iff h host moment hpos hmax] at hok
  unfold Handled
  split_ifs at hok ⊢
  · exact (applemidi_iff host moment s.connections d).mp hok
  · exact (rtp_iff h.parsers d (le_trans hmax (by decide))).mp hok

def quietHost : NetHost := ⟨0, none, false, fun _ _ => none⟩

def quietMoment : NetMoment := ⟨0, fun _ => 0⟩

/-- A daemon with one connection, registered for the SSRC 7. -/
def oneConnection (state : MidiState) (created : NetCtx) : NetState :=
  ⟨[netCtxSet quietHost created 7 1 9 5004 [] none 0], fun _ => state⟩

theorem oneConnection_valid :
    ∃ state created, netCtxCreate quietHost = some created ∧
      (oneConnection state created).Valid := by
  obtain ⟨state, hstate⟩ : ∃ state, midiStateCreate netSocketDefaultRingBuffer = some state :=
    ⟨_, rfl⟩
  obtain ⟨created, hcreated⟩ : ∃ created, netCtxCreate quietHost = some created := ⟨_, rfl⟩
  obtain ⟨hrep, -⟩ := MidiState.create_represents hstate
  refine ⟨state, created, hcreated, fun _ => ⟨_, _, hrep, by decide⟩, fun ctx hctx => ?_⟩
  obtain ⟨parser, hparser, rfl⟩ := Option.map_eq_some_iff.mp hcreated
  obtain rfl := List.mem_singleton.mp hctx
  have hvalid : parser.Valid := ⟨_, _, _, (MidiState.create_represents hparser).1⟩
  exact hvalid.reset

/-- Four datagrams that stop the daemon: a signature without a command, a command
with an unknown code, two octets of an RTP packet, and the header of an RTP
packet from a known SSRC. -/
theorem incomplete_datagrams_fault :
    ∃ s : NetState, s.Valid ∧
      netSocketRead quietHost quietMoment s ⟨.control, [], 0, [0xff, 0xff], []⟩ =
        .error .nullPointer ∧
      netSocketRead quietHost quietMoment s ⟨.control, [], 0, [0xff, 0xff, 0x58, 0x58], []⟩ =
        .error .uninitialised ∧
      netSocketRead quietHost quietMoment s ⟨.data, [], 0, [0x80, 0x61], []⟩ =
        .error .nullPointer ∧
      netSocketRead quietHost quietMoment s
          ⟨.data, [], 0, [0x80, 0x61, 0, 1, 0, 0, 0, 0, 0, 0, 0, 7], []⟩ =
        .error .nullPointer := by
  obtain ⟨state, created, hcreated, hvalid⟩ := oneConnection_valid
  refine ⟨_, hvalid, ?_, ?_, ?_, ?_⟩
  · obtain ⟨t, p, size, -, -, hread⟩ := read_eq hvalid quietHost quietMoment
      (d := ⟨.control, [], 0, [0xff, 0xff], []⟩) (by decide) (by decide)
    rw [hread, if_pos (by decide), applemidi_null]
    · rfl
    · exact unpack_short (by decide)
  · obtain ⟨t, p, size, -, -, hread⟩ := read_eq hvalid quietHost quietMoment
      (d := ⟨.control, [], 0, [0xff, 0xff, 0x58, 0x58], []⟩) (by decide) (by decide)
    have hcode : commandRoom 0x5858 = none := by decide
    rw [hread, if_pos (by decide), applemidi_unset quietHost quietMoment _ _ 0xffff hcode]
    · rfl
    · decide
  · obtain ⟨t, p, size, -, -, hread⟩ := read_eq hvalid quietHost quietMoment
      (d := ⟨.data, [], 0, [0x80, 0x61], []⟩) (by decide) (by decide)
    rw [hread, if_neg (by decide)]
    simp only [netSocketRtp, rtpPacketUnpackBuffer]
    rw [rtpPacketUnpack_short (by decide)]
    rfl
  · obtain ⟨t, p, size, -, -, hread⟩ := read_eq hvalid quietHost quietMoment
      (d := ⟨.data, [], 0, [0x80, 0x61, 0, 1, 0, 0, 0, 0, 0, 0, 0, 7], []⟩) (by decide) (by decide)
    rw [hread, if_neg (by decide), rtp_eq _ _ (by decide) (by decide)]
    rfl

/-- The bare signature is not complete, so it is not handled. -/
theorem datagram_handled_iff_signature :
    ∃ s : NetState, s.Valid ∧
      ((∃ t effects, netSocketRead quietHost quietMoment s
          ⟨.control, [], 0, [0xff, 0xff], []⟩ = .ok (t, effects)) ↔
        Handled s.connections [0xff, 0xff]) := by
  obtain ⟨state, created, hcreated, hvalid⟩ := oneConnection_valid
  exact ⟨_, hvalid, datagram_handled_iff hvalid quietHost quietMoment
    (d := ⟨.control, [], 0, [0xff, 0xff], []⟩) (by decide) (by decide)⟩

end RaveloxMidi
