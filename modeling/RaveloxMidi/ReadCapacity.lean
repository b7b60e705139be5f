import RaveloxMidi.SocketRead

/-!
# What becomes of the octets that a read returns

How much a read returns, how much the ring of the socket holds and what is still
in it are settled in three different places. A write to a ring that is too full
is refused as a whole, and the refusal is not passed on: it is a success for the
reader.
-/
namespace RaveloxMidi
open ByteMemory Transducer

/-- `midi_state_write` returns 1 exactly if it has queued all of the octets. -/
def WriteReported (state : MidiState) (bytes : List UInt8) : Prop :=
  ∃ written ret, midiStateWrite state bytes = .ok (written, ret) ∧
    (ret = 1 ↔ written.ring.queue = state.ring.queue ++ bytes)

/-- The write is reported, and what the read does is done with all the octets. -/
structure AllHanded (socket : RaveloxmidiSocket) (received : List UInt8)
    (machine : Parser × List UInt8 → (Parser × List UInt8) × List SocketEffect)
    (result : Except Fault (RaveloxmidiSocket × List SocketEffect)) : Prop where
  reported : WriteReported socket.state received
  handed : ∀ p queue size, socket.state.Represents p queue size →
    ∃ t, result = .ok (t, (machine (p, queue ++ received)).2) ∧
      socket.Becomes t (machine (p, queue ++ received)).1 size

/-- The payload of a packet for a connection goes to its parser as a whole. -/
def PayloadHanded (connections : List NetCtx) (d : Datagram) : Prop :=
  ∀ slot ctx payload bytes, 12 ≤ d.packet.length →
    (readRtpPacket d.packet).header.v = rtpVersion →
    netCtxFindBySsrc connections (readRtpPacket d.packet).header.ssrc = some (slot, ctx) →
    readPayload (d.packet.drop 12) = some payload → payload.buffer = some bytes →
    (bytes ≠ [] → WriteReported ctx.midiState bytes) ∧
      ∀ p queue size, ctx.midiState.Represents p queue size → ∃ state,
        netSocketRtp connections d (some d.packet) =
          .ok (connections.set slot { ctx with midiState := state },
            .reply (feedbackOctets (readRtpPacket d.packet).header.ssrc
              (readRtpPacket d.packet).header.seq) ::
              (Parser.send .rtp payload.header.z p (queue ++ bytes)).2.map fun command =>
                .queue command (readRtpPacket d.packet).header.ssrc) ∧
        state.Represents (Parser.send .rtp payload.header.z p (queue ++ bytes)).1 [] size

/-- A datagram from the network goes to one of the two decoders as a whole. -/
structure DatagramHanded (host : NetHost) (moment : NetMoment) (s : NetState) (d : Datagram) :
    Prop where
  reported : WriteReported (s.sockets d.socket) d.packet
  decoded : ∃ state, netSocketRead host moment s d =
    (if IsApplemidi d.packet then netSocketApplemidi host moment s.connections d (some d.packet)
    else netSocketRtp s.connections d (some d.packet)).map fun handled =>
      (⟨handled.1, Function.update s.sockets d.socket state⟩, handled.2)
  payload : ¬ IsApplemidi d.packet → PayloadHanded s.connections d

/-- Every octet that a read returns reaches a decoder or a parser, and each write on the
way there says whether it was done. -/
def SocketRead.Delivered (host : NetHost) (s : SocketState) : SocketRead → Prop
  | .net moment d => d.packet ≠ [] → DatagramHanded host moment s.net d.received
  | .localPort listing packet => packet ≠ [] →
    AllHanded s.localSocket (packet.take netApplemidiUdpSize)
      (localQueue listing s.localSocket.deviceHash)
      (netSocketReadLocal listing s.localSocket packet)
  | .input index packet => ∀ socket, s.inputs[index]? = some socket →
    socket.handle.isSome = true → packet.take socket.packetSize ≠ [] →
      AllHanded socket (packet.take socket.packetSize) (parseQueue socket.deviceHash)
        (netSocketReadInput socket packet)

/-- The ring of a socket has room for some octets. -/
def RaveloxmidiSocket.HasRoom (socket : RaveloxmidiSocket) (received : List UInt8) : Prop :=
  socket.state.ring.used + received.length ≤ socket.state.ring.size

/-- A read of the local port or an ALSA input returns no more than its ring has room for. -/
def SocketRead.Fits (s : SocketState) : SocketRead → Prop
  | .net _ _ => True
  | .localPort _ packet => s.localSocket.HasRoom (packet.take netApplemidiUdpSize)
  | .input index packet => ∀ socket, s.inputs[index]? = some socket →
    socket.handle.isSome = true → socket.HasRoom (packet.take socket.packetSize)

section Write
variable {state : MidiState} {p : Parser} {queue bytes : List UInt8} {size : ℕ}

end Write

section Sockets
variable {socket : RaveloxmidiSocket} {p : Parser} {queue : List UInt8} {size : ℕ}

end Sockets

end RaveloxMidi
