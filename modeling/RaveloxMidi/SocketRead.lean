import RaveloxMidi.AlsaDevice
import RaveloxMidi.NetChange

/-!
# Reading from every kind of socket

The table of sockets holds the two ports of the network, the local port and the
inputs of the ALSA devices, each with a parser and a ring of its own. What comes
from the local port or an ALSA input stays in the ring for the parser; on the
local port three words are commands.
-/
namespace RaveloxMidi
open ByteMemory Transducer

/-- `midi_sender_context_t`: the SSRC and the device that a command came from. -/
structure MidiSenderContext where
  ssrc : UInt32
  alsaCardHash : Int32
  deriving Repr, DecidableEq

/-- What `midi_sender_handler` takes the originator to be: without a context, or with one
that is empty, both numbers are zero. -/
def midiSenderOriginator (context : Option (Option MidiSenderContext)) : MidiSenderContext :=
  (context.bind id).getD ⟨0, 0⟩

/-- What a read does outside of the sockets and the connections. -/
inductive SocketEffect where
  | net (effect : NetEffect)
  | shutdown
  | queue (command : MidiCommand) (context : MidiSenderContext)
  deriving Repr, DecidableEq

/-- The originators of a packet from the network: the card is put down as zero. -/
def rtpOriginators (ssrc : UInt32) : MidiSenderContext := ⟨ssrc, 0⟩

/-- A command from the network is queued with its originators. -/
def netSocketEffect : NetEffect → SocketEffect
  | .queue command originator => .queue command (rtpOriginators originator)
  | effect => .net effect

inductive RaveloxmidiSocketType where
  | fd
  | alsa
  deriving Repr, DecidableEq

structure RaveloxmidiSocket where
  type : RaveloxmidiSocketType
  packetSize : ℕ
  state : MidiState
  deviceHash : Int32
  handle : Option SndRawmidi

/-- `alsa.input_buffer_size`, which is documented to be at most 65535, and
`read.ring_buffer_size`. -/
structure SocketConfig where
  alsaInputBufferSize : UInt16
  readRingBufferSize : Int32

/-- An `int` as a `size_t`. -/
def sizeOfInt (n : Int32) : ℕ := n.toInt64.toUInt64.toNat

/-- There is no socket when its ring is refused. -/
def netSocketCreateItem (config : SocketConfig) : Option RaveloxmidiSocket :=
  let ringBufferSize := max netSocketDefaultRingBuffer (sizeOfInt config.readRingBufferSize)
  if ringBufferSize > mallocMax then none
  else (midiStateCreate ringBufferSize).map fun state =>
    { type := .fd
      packetSize := max netApplemidiUdpSize config.alsaInputBufferSize.toNat
      state := state
      deviceHash := -1
      handle := none }

/-- What `raveloxmidi_alsa_add_poll_fd` does to the new socket. -/
def raveloxmidiAlsaAddPollFd (config : AlsaConfig) (handle : Option SndRawmidi)
    (socket : RaveloxmidiSocket) : RaveloxmidiSocket :=
  { socket with
    type := .alsa
    handle := handle
    deviceHash := raveloxmidiAlsaDeviceHash config handle }

/-- The sockets and the connections. -/
structure SocketState where
  net : NetState
  localSocket : RaveloxmidiSocket
  inputs : List RaveloxmidiSocket

/-- The daemon with the given ALSA inputs, before the first read. -/
def socketStateStart (config : SocketConfig) (alsa : AlsaConfig)
    (handles : List (Option SndRawmidi)) : Option SocketState :=
  (netSocketCreateItem config).map fun socket =>
    { net := ⟨[], fun _ => socket.state⟩
      localSocket := socket
      inputs := handles.map fun handle => raveloxmidiAlsaAddPollFd alsa handle socket }

/-- "STAT" -/
def statText : List UInt8 := [0x53, 0x54, 0x41, 0x54]

/-- "QUIT" -/
def quitText : List UInt8 := [0x51, 0x55, 0x49, 0x54]

/-- "LIST" -/
def listText : List UInt8 := [0x4c, 0x49, 0x53, 0x54]

/-- "OK" -/
def statReply : List UInt8 := [0x4f, 0x4b]

/-- "QT" -/
def quitReply : List UInt8 := [0x51, 0x54]

/-- The branch for MIDI data on the local port or from an ALSA device. -/
def netSocketMidi (socket : RaveloxmidiSocket) :
    Except Fault (RaveloxmidiSocket × List SocketEffect) := do
  let sent ← midiStateSend socket.state .simple false
  return ({ socket with state := sent.1 },
    sent.2.map fun command => .queue command ⟨0, socket.deviceHash⟩)

/-- The branches for the local port. -/
def netSocketLocal (listing : Option (List UInt8)) (socket : RaveloxmidiSocket) :
    Except Fault (RaveloxmidiSocket × List SocketEffect) := do
  if (← midiStateCompare socket.state statText 4) = 0 then
    return ({ socket with state := midiStateAdvance socket.state 4 }, [.net (.reply statReply)])
  else if (← midiStateCompare socket.state quitText 4) = 0 then
    return ({ socket with state := midiStateAdvance socket.state 4 },
      [.net (.reply quitReply), .shutdown])
  else if (← midiStateCompare socket.state listText 4) = 0 then
    return ({ socket with state := midiStateAdvance socket.state 4 },
      listing.toList.map fun text => .net (.reply text))
  else netSocketMidi socket

/-- `net_socket_read` on the local port. The listing is the text of the connections,
which names addresses inside the process. -/
def netSocketReadLocal (listing : Option (List UInt8)) (socket : RaveloxmidiSocket)
    (packet : List UInt8) : Except Fault (RaveloxmidiSocket × List SocketEffect) := do
  let received := packet.take netApplemidiUdpSize
  if received.length = 0 then return (socket, [])
  let written ← midiStateWrite socket.state received
  netSocketLocal listing { socket with state := written.1 }

/-- `net_socket_read` on an ALSA input; without a handle there is nothing to read. -/
def netSocketReadInput (socket : RaveloxmidiSocket) (packet : List UInt8) :
    Except Fault (RaveloxmidiSocket × List SocketEffect) := do
  let received := if socket.handle.isSome then packet.take socket.packetSize else []
  if received.length = 0 then return (socket, [])
  let written ← midiStateWrite socket.state received
  netSocketMidi { socket with state := written.1 }

/-- A call of `net_socket_read` on one of the sockets. -/
inductive SocketRead where
  | net (moment : NetMoment) (d : Datagram)
  | localPort (listing : Option (List UInt8)) (packet : List UInt8)
  | input (index : ℕ) (packet : List UInt8)

/-- What `recvfrom` copies of a datagram. -/
def Datagram.received (d : Datagram) : Datagram :=
  { d with packet := d.packet.take netApplemidiUdpSize }

/-- A descriptor that is not in the table is not read. -/
def socketRead (host : NetHost) (s : SocketState) :
    SocketRead → Except Fault (SocketState × List SocketEffect)
  | .net moment d => do
    let done ← netSocketRead host moment s.net d.received
    return ({ s with net := done.1 }, done.2.map netSocketEffect)
  | .localPort listing packet => do
    let done ← netSocketReadLocal listing s.localSocket packet
    return ({ s with localSocket := done.1 }, done.2)
  | .input index packet =>
    match s.inputs[index]? with
    | none => .ok (s, [])
    | some socket => do
      let done ← netSocketReadInput socket packet
      return ({ s with inputs := s.inputs.set index done.1 }, done.2)

/-- The commands of the local port. -/
inductive LocalCommand where
  | stat
  | quit
  | list
  deriving Repr, DecidableEq

def LocalCommand.text : LocalCommand → List UInt8
  | stat => statText
  | quit => quitText
  | list => listText

/-- What a command of the local port is answered with. -/
def LocalCommand.effects (listing : Option (List UInt8)) : LocalCommand → List SocketEffect
  | stat => [.net (.reply statReply)]
  | quit => [.net (.reply quitReply), .shutdown]
  | list => listing.toList.map fun text => .net (.reply text)

/-- The command that some octets begin with. -/
def localCommand? (bytes : List UInt8) : Option LocalCommand :=
  [LocalCommand.stat, .quit, .list].find? fun command => command.text.isPrefixOf bytes

/-- What waits in front of the parser goes to it as a whole. -/
def parseQueue (hash : Int32) (s : Parser × List UInt8) :
    (Parser × List UInt8) × List SocketEffect :=
  let sent := Parser.send .simple false s.1 s.2
  ((sent.1, []), sent.2.map fun command => .queue command ⟨0, hash⟩)

/-- What waits on the local port begins with a command, or goes to the parser. -/
def localQueue (listing : Option (List UInt8)) (hash : Int32) (s : Parser × List UInt8) :
    (Parser × List UInt8) × List SocketEffect :=
  match localCommand? s.2 with
  | some command => ((s.1, s.2.drop 4), command.effects listing)
  | none => parseQueue hash s

/-- The octets waiting after some more have come in: all of them if there is room. -/
def arriving (size : ℕ) (queue bytes : List UInt8) : List UInt8 :=
  if queue.length + bytes.length ≤ size then queue ++ bytes else queue

/-- Nothing is waiting, and there is room for the default ring at least. -/
def MidiState.Idle (state : MidiState) : Prop :=
  ∃ p size, netSocketDefaultRingBuffer ≤ size ∧ state.Represents p [] size

/-- A read changes nothing of a socket but its parser. -/
structure RaveloxmidiSocket.Becomes (socket t : RaveloxmidiSocket) (s : Parser × List UInt8)
    (size : ℕ) : Prop where
  represents : t.state.Represents s.1 s.2 size
  kept : t = { socket with state := t.state }

section Queue
variable {socket : RaveloxmidiSocket} {p : Parser} {queue : List UInt8} {size : ℕ}

theorem MidiState.write_arriving {state : MidiState} (h : state.Represents p queue size)
    (bytes : List UInt8) :
    ∃ t ret, midiStateWrite state bytes = .ok (t, ret) ∧
      t.Represents p (arriving size queue bytes) size := by
  unfold arriving
  split_ifs with hfit
  · exact MidiState.write_represents h bytes hfit
  · obtain ⟨ret, hwrite⟩ := MidiState.write_dropped h bytes (not_le.mp hfit)
    exact ⟨state, ret, hwrite, h⟩

theorem midi_becomes (socket : RaveloxmidiSocket) (h : socket.state.Represents p queue size) :
    ∃ t, netSocketMidi socket = .ok (t, (parseQueue socket.deviceHash (p, queue)).2) ∧
      socket.Becomes t (parseQueue socket.deviceHash (p, queue)).1 size := by
  obtain ⟨state, hsend, hstate⟩ := MidiState.send_represents h .simple false
  refine ⟨{ socket with state := state }, ?_, hstate, rfl⟩
  simp only [netSocketMidi, hsend, parseQueue, bind, Except.bind, pure, Except.pure]

/-- The comparison with a word looks at the first octets waiting. -/
theorem compare_text {state : MidiState} (h : state.Represents p queue size)
    (command : LocalCommand) :
    ∃ difference, midiStateCompare state command.text 4 = .ok difference ∧
      (difference = 0 ↔ command.text.isPrefixOf queue = true) := by
  have hlength : command.text.length = 4 := by cases command <;> rfl
  have hcompare := RingBuffer.compare_spec h.ring_valid
    (show RingBuffer.Comparable command.text 4 from ⟨le_of_eq hlength.symm, by simp⟩)
  refine ⟨_, hcompare, ?_⟩
  rw [RingBuffer.compareOctets_eq_zero_iff, h.queue_eq, RingBuffer.comparedOctets,
    if_pos (Nat.succ_pos 3), List.take_of_length_le (le_of_eq hlength),
    List.isPrefixOf_iff_prefix]

theorem advance_represents {state : MidiState} (h : state.Represents p queue size) (steps : ℕ) :
    (midiStateAdvance state steps).Represents p (queue.drop steps) size := by
  obtain ⟨hvalid, hsize, hqueue⟩ := RingBuffer.advance_spec h.ring_valid steps
  refine ⟨⟨h.follows.status, h.follows.runningStatus, h.follows.currentDelta,
    h.follows.partialSysex, h.follows.hold_valid, h.follows.hold⟩, h.awaiting, hvalid, ?_,
    hsize.trans h.size_eq⟩
  rw [← h.queue_eq]
  exact hqueue

theorem local_becomes (listing : Option (List UInt8)) (socket : RaveloxmidiSocket)
    (h : socket.state.Represents p queue size) :
    ∃ t, netSocketLocal listing socket =
        .ok (t, (localQueue listing socket.deviceHash (p, queue)).2) ∧
      socket.Becomes t (localQueue listing socket.deviceHash (p, queue)).1 size := by
  obtain ⟨stat, hstat, hstatIff⟩ := compare_text h .stat
  obtain ⟨quit, hquit, hquitIff⟩ := compare_text h .quit
  obtain ⟨list, hlist, hlistIff⟩ := compare_text h .list
  simp only [LocalCommand.text] at hstat hquit hlist hstatIff hquitIff hlistIff
  have hadvanced := advance_represents h 4
  simp only [netSocketLocal, hstat, hquit, hlist, hstatIff, hquitIff, hlistIff, bind, Except.bind,
    localQueue, localCommand?, List.find?_cons, LocalCommand.text, pure, Except.pure]
  cases statText.isPrefixOf queue with
  | true => exact ⟨_, rfl, hadvanced, rfl⟩
  | false =>
    cases quitText.isPrefixOf queue with
    | true => exact ⟨_, rfl, hadvanced, rfl⟩
    | false =>
      cases listText.isPrefixOf queue with
      | true => exact ⟨_, rfl, hadvanced, rfl⟩
      | false => exact midi_becomes socket h

/-- A read of the local port: what arrives is queued, and what waits is looked at. -/
theorem readLocal_becomes (listing : Option (List UInt8))
    (h : socket.state.Represents p queue size) {packet : List UInt8} (hpos : packet ≠ []) :
    ∃ t, netSocketReadLocal listing socket packet =
        .ok (t, (localQueue listing socket.deviceHash
          (p, arriving size queue (packet.take netApplemidiUdpSize))).2) ∧
      socket.Becomes t (localQueue listing socket.deviceHash
        (p, arriving size queue (packet.take netApplemidiUdpSize))).1 size := by
  have hread : ¬ (packet.take netApplemidiUdpSize).length = 0 := by
    have hlength := List.length_pos_of_ne_nil hpos
    simp only [List.length_take, netApplemidiUdpSize]
    omega
  obtain ⟨written, ret, hwrite, hwritten⟩ :=
    MidiState.write_arriving h (packet.take netApplemidiUdpSize)
  obtain ⟨t, hlocal, ht, hkept⟩ :=
    local_becomes listing { socket with state := written } hwritten
  refine ⟨t, ?_, ht, by rw [hkept]⟩
  simp only [netSocketReadLocal, if_neg hread, hwrite, bind, Except.bind]
  exact hlocal

/-- A read of an ALSA input that is open. -/
theorem readInput_becomes (h : socket.state.Represents p queue size)
    (hopen : socket.handle.isSome = true) {packet : List UInt8}
    (hpos : packet.take socket.packetSize ≠ []) :
    ∃ t, netSocketReadInput socket packet = .ok (t, (parseQueue socket.deviceHash
        (p, arriving size queue (packet.take socket.packetSize))).2) ∧
      socket.Becomes t (parseQueue socket.deviceHash
        (p, arriving size queue (packet.take socket.packetSize))).1 size := by
  have hread : ¬ (packet.take socket.packetSize).length = 0 :=
    fun hzero => hpos (List.length_eq_zero_iff.mp hzero)
  obtain ⟨written, ret, hwrite, hwritten⟩ :=
    MidiState.write_arriving h (packet.take socket.packetSize)
  obtain ⟨t, hmidi, ht, hkept⟩ := midi_becomes { socket with state := written } hwritten
  refine ⟨t, ?_, ht, by rw [hkept]⟩
  simp only [netSocketReadInput, hopen, if_true, if_neg hread, hwrite, bind, Except.bind]
  exact hmidi

end Queue

/-- A new socket has nothing waiting, and room for at least the default ring. -/
theorem createItem_spec {config : SocketConfig} {socket : RaveloxmidiSocket}
    (h : netSocketCreateItem config = some socket) :
    ∃ size, netSocketDefaultRingBuffer ≤ size ∧
      socket.state.Represents ⟨.init, 0, [], 0, false⟩ [] size ∧ socket.deviceHash = -1 ∧
      socket.handle = none := by
  unfold netSocketCreateItem at h
  dsimp only at h
  split_ifs at h
  obtain ⟨state, hstate, rfl⟩ := Option.map_eq_some_iff.mp h
  exact ⟨_, le_max_left _ _, (MidiState.create_represents hstate).1, rfl, rfl⟩

/-- A socket has room for a packet. -/
theorem createItem_packetSize {config : SocketConfig} {socket : RaveloxmidiSocket}
    (h : netSocketCreateItem config = some socket) : socket.packetSize ≠ 0 := by
  unfold netSocketCreateItem at h
  dsimp only at h
  split_ifs at h
  obtain ⟨state, -, rfl⟩ := Option.map_eq_some_iff.mp h
  simp only [netApplemidiUdpSize]
  omega

/-- With a ring of the default size there is always a socket. -/
theorem createItem_default (alsaInputBufferSize : UInt16) :
    ∃ socket, netSocketCreateItem ⟨alsaInputBufferSize, 0⟩ = some socket ∧
      socket.packetSize = max netApplemidiUdpSize alsaInputBufferSize.toNat ∧
      socket.state.Represents ⟨.init, 0, [], 0, false⟩ [] netSocketDefaultRingBuffer := by
  have hsize : max netSocketDefaultRingBuffer (sizeOfInt 0) = netSocketDefaultRingBuffer := by
    decide
  have hgranted : ¬ netSocketDefaultRingBuffer > mallocMax := by decide
  obtain ⟨state, hstate⟩ : ∃ state, midiStateCreate netSocketDefaultRingBuffer = some state :=
    ⟨_, MidiState.create_eq (by decide)⟩
  refine ⟨⟨.fd, max netApplemidiUdpSize alsaInputBufferSize.toNat, state, -1, none⟩, ?_, rfl,
    (MidiState.create_represents hstate).1⟩
  simp only [netSocketCreateItem, hsize, if_neg hgranted, hstate, Option.map_some]

/-- Between two reads: only the local port may have octets waiting, and only the ones
behind a command. -/
structure SocketState.Ready (s : SocketState) : Prop where
  net : s.net.Valid
  parsers : ∀ ctx ∈ s.net.connections, ctx.midiState.Idle
  localPort : s.localSocket.state.Valid
  inputs : ∀ socket ∈ s.inputs, socket.state.Valid

theorem NetCtxChange.parser_idle {host : NetHost} {cause : ChangeCause} {ctx ctx' : NetCtx}
    (h : NetCtxChange host cause ctx ctx') (hctx : ctx.midiState.Idle) : ctx'.midiState.Idle := by
  obtain ⟨p, size, hsize, hrep⟩ := hctx
  cases h with
  | registered => exact ⟨_, size, hsize, hrep.reset⟩
  | ended => exact ⟨_, size, hsize, hrep.reset⟩
  | trimmed => exact ⟨p, size, hsize, hrep⟩
  | invited => exact ⟨p, size, hsize, hrep⟩
  | established => exact ⟨p, size, hsize, hrep⟩
  | @received _ payload written state commands hwrite hsend =>
    obtain ⟨queue, hwritten⟩ : ∃ queue, written.Represents p queue size := by
      unfold midiStateWritePayload at hwrite
      split at hwrite
      · cases hwrite
        exact ⟨[], hrep⟩
      · obtain ⟨bytes, -, hwrite⟩ := bind_ok hwrite
        obtain ⟨result, hresult, hwrite⟩ := bind_ok hwrite
        obtain ⟨out, ret, hout, hrepresents⟩ := MidiState.write_arriving hrep bytes
        cases hresult.symm.trans hout
        cases hwrite
        exact ⟨_, hrepresents⟩
    obtain ⟨out, hout, hrepresents⟩ := MidiState.send_represents hwritten .rtp payload.header.z
    cases hsend.symm.trans hout
    exact ⟨_, size, hsize, hrepresents⟩

theorem NetTableChange.parsers_idle {host : NetHost} {cause : ChangeCause}
    {connections t : List NetCtx} (h : NetTableChange host cause connections t)
    (hidle : ∀ ctx ∈ connections, ctx.midiState.Idle) : ∀ ctx ∈ t, ctx.midiState.Idle := by
  intro ctx hctx
  cases h with
  | same => exact hidle ctx hctx
  | slot hslot hchange =>
    rcases List.mem_or_eq_of_mem_set hctx with hold | rfl
    · exact hidle ctx hold
    · exact hchange.parser_idle (hidle _ (List.mem_of_getElem? hslot))
  | added hcreated =>
    rcases List.mem_append.mp hctx with hold | hnew
    · exact hidle ctx hold
    · obtain ⟨state, hstate, rfl⟩ := Option.map_eq_some_iff.mp hcreated
      rw [List.mem_singleton] at hnew
      subst hnew
      exact ⟨_, _, le_max_left _ _, (MidiState.create_represents hstate).1.reset⟩

section Sockets
variable {socket t : RaveloxmidiSocket} {effects : List SocketEffect} {packet : List UInt8}

/-- Whatever a read of the local port does to the parser, it keeps the rest of the socket. -/
theorem readLocal_stays {listing : Option (List UInt8)} {p : Parser} {queue : List UInt8}
    {size : ℕ} (h : socket.state.Represents p queue size)
    (hok : netSocketReadLocal listing socket packet = .ok (t, effects)) :
    ∃ parser, socket.Becomes t parser size := by
  by_cases hempty : packet = []
  · subst hempty
    cases hok
    exact ⟨(p, queue), h, rfl⟩
  · obtain ⟨u, hread, hu⟩ := readLocal_becomes listing h hempty
    cases hread.symm.trans hok
    exact ⟨_, hu⟩

theorem readLocal_kept {listing : Option (List UInt8)} (h : socket.state.Valid)
    (hok : netSocketReadLocal listing socket packet = .ok (t, effects)) :
    t.state.Valid ∧ t = { socket with state := t.state } := by
  obtain ⟨p, queue, size, hrep⟩ := h
  obtain ⟨parser, ht⟩ := readLocal_stays hrep hok
  exact ⟨⟨_, _, size, ht.represents⟩, ht.kept⟩

theorem readInput_idle
    (h : ¬ (socket.handle.isSome = true ∧ packet.take socket.packetSize ≠ [])) :
    netSocketReadInput socket packet = .ok (socket, []) := by
  have hnothing : (if socket.handle.isSome then packet.take socket.packetSize else []) = [] := by
    by_cases hopen : socket.handle.isSome = true
    · rw [if_pos hopen]
      exact not_not.mp fun hne => h ⟨hopen, hne⟩
    · rw [if_neg hopen]
  simp only [netSocketReadInput, hnothing, List.length_nil, if_true]
  rfl

theorem readInput_stays {p : Parser} {queue : List UInt8} {size : ℕ}
    (h : socket.state.Represents p queue size)
    (hok : netSocketReadInput socket packet = .ok (t, effects)) :
    ∃ parser, socket.Becomes t parser size := by
  by_cases hreads : socket.handle.isSome = true ∧ packet.take socket.packetSize ≠ []
  · obtain ⟨u, hread, hu⟩ := readInput_becomes h hreads.1 hreads.2
    cases hread.symm.trans hok
    exact ⟨_, hu⟩
  · cases (readInput_idle hreads).symm.trans hok
    exact ⟨(p, queue), h, rfl⟩

theorem readInput_kept (h : socket.state.Valid)
    (hok : netSocketReadInput socket packet = .ok (t, effects)) :
    t.state.Valid ∧ t = { socket with state := t.state } := by
  obtain ⟨p, queue, size, hrep⟩ := h
  obtain ⟨parser, ht⟩ := readInput_stays hrep hok
  exact ⟨⟨_, _, size, ht.represents⟩, ht.kept⟩

/-- A read of an ALSA input does not fault. -/
theorem readInput_ok (h : socket.state.Valid) (packet : List UInt8) :
    ∃ t effects, netSocketReadInput socket packet = .ok (t, effects) := by
  obtain ⟨p, queue, size, hrep⟩ := h
  by_cases hreads : socket.handle.isSome = true ∧ packet.take socket.packetSize ≠ []
  · obtain ⟨t, hread, -⟩ := readInput_becomes hrep hreads.1 hreads.2
    exact ⟨t, _, hread⟩
  · exact ⟨socket, [], readInput_idle hreads⟩

end Sockets

theorem Datagram.received_length (d : Datagram) :
    d.received.packet.length ≤ netApplemidiUdpSize := by
  simp only [received, List.length_take]
  omega

/-- What a read can do: it changes its own socket, or the connections. -/
inductive SocketReadChange (host : NetHost) (s : SocketState) :
    SocketRead → SocketState → List SocketEffect → Prop where
  | net {moment : NetMoment} {d : Datagram} {net : NetState} {effects : List NetEffect}
      (hread : netSocketRead host moment s.net d.received = .ok (net, effects)) :
      SocketReadChange host s (.net moment d) { s with net := net } (effects.map netSocketEffect)
  | localPort {listing : Option (List UInt8)} {packet : List UInt8} {socket : RaveloxmidiSocket}
      {effects : List SocketEffect}
      (hread : netSocketReadLocal listing s.localSocket packet = .ok (socket, effects)) :
      SocketReadChange host s (.localPort listing packet) { s with localSocket := socket } effects
  | unknown {index : ℕ} {packet : List UInt8} :
      SocketReadChange host s (.input index packet) s []
  | input {index : ℕ} {packet : List UInt8} {socket after : RaveloxmidiSocket}
      {effects : List SocketEffect} (hsocket : s.inputs[index]? = some socket)
      (hread : netSocketReadInput socket packet = .ok (after, effects)) :
      SocketReadChange host s (.input index packet)
        { s with inputs := s.inputs.set index after } effects

theorem socketRead_changes {host : NetHost} {s t : SocketState} {read : SocketRead}
    {effects : List SocketEffect} (hok : socketRead host s read = .ok (t, effects)) :
    SocketReadChange host s read t effects := by
  cases read with
  | net moment d =>
    obtain ⟨done, hdone, hok⟩ := bind_ok hok
    cases hok
    exact .net hdone
  | localPort listing packet =>
    obtain ⟨done, hdone, hok⟩ := bind_ok hok
    cases hok
    exact .localPort hdone
  | input index packet =>
    simp only [socketRead] at hok
    cases hsocket : s.inputs[index]? with
    | none =>
      rw [hsocket] at hok
      cases hok
      exact .unknown
    | some socket =>
      rw [hsocket] at hok
      obtain ⟨done, hdone, hok⟩ := bind_ok hok
      cases hok
      exact .input hsocket hdone

/-- Where a queued command came from, and the numbers that go with it. -/
inductive ReadOrigin (host : NetHost) (s : SocketState) (command : MidiCommand) :
    SocketRead → MidiSenderContext → Prop where
  | net {moment : NetMoment} {d : Datagram} {net : NetState} {effects : List NetEffect}
      {originator : UInt32}
      (hread : netSocketRead host moment s.net d.received = .ok (net, effects))
      (hqueued : .queue command originator ∈ effects) :
      ReadOrigin host s command (.net moment d) (rtpOriginators originator)
  | localPort {listing : Option (List UInt8)} {packet : List UInt8} :
      ReadOrigin host s command (.localPort listing packet) ⟨0, s.localSocket.deviceHash⟩
  | input {index : ℕ} {packet : List UInt8} {socket : RaveloxmidiSocket}
      (hsocket : s.inputs[index]? = some socket) :
      ReadOrigin host s command (.input index packet) ⟨0, socket.deviceHash⟩

theorem parseQueue_context {hash : Int32} {s : Parser × List UInt8} {command : MidiCommand}
    {context : MidiSenderContext} (h : .queue command context ∈ (parseQueue hash s).2) :
    context = ⟨0, hash⟩ := by
  obtain ⟨other, -, heq⟩ := List.mem_map.mp h
  cases heq
  rfl

theorem localQueue_context {listing : Option (List UInt8)} {hash : Int32}
    {s : Parser × List UInt8} {command : MidiCommand} {context : MidiSenderContext}
    (h : .queue command context ∈ (localQueue listing hash s).2) : context = ⟨0, hash⟩ := by
  unfold localQueue at h
  split at h
  · next text _ => cases text <;> simp [LocalCommand.effects] at h
  · exact parseQueue_context h

theorem read_origin {host : NetHost} {s t : SocketState} (h : s.Ready) {read : SocketRead}
    {effects : List SocketEffect} (hok : socketRead host s read = .ok (t, effects))
    {command : MidiCommand} {context : MidiSenderContext}
    (hqueued : .queue command context ∈ effects) : ReadOrigin host s command read context := by
  cases socketRead_changes hok with
  | net hread =>
    obtain ⟨effect, hmem, heq⟩ := List.mem_map.mp hqueued
    cases effect <;> cases heq
    exact .net hread hmem
  | @localPort listing packet _ _ hread =>
    obtain ⟨p, queue, size, hrep⟩ := h.localPort
    by_cases hempty : packet = []
    · subst hempty
      cases hread
      cases hqueued
    · obtain ⟨u, hbecomes, -⟩ := readLocal_becomes listing hrep hempty
      cases hbecomes.symm.trans hread
      rw [localQueue_context hqueued]
      exact .localPort
  | unknown => cases hqueued
  | @input _ packet socket _ _ hsocket hread =>
    obtain ⟨p, queue, size, hrep⟩ := h.inputs socket (List.mem_of_getElem? hsocket)
    by_cases hreads : socket.handle.isSome = true ∧ packet.take socket.packetSize ≠ []
    · obtain ⟨u, hbecomes, -⟩ := readInput_becomes hrep hreads.1 hreads.2
      cases hbecomes.symm.trans hread
      rw [parseQueue_context hqueued]
      exact .input hsocket
    · rw [readInput_idle hreads] at hread
      cases hread
      cases hqueued

/-- One read leaves everything ready for the next. -/
theorem read_ready {host : NetHost} {s t : SocketState} (h : s.Ready) {read : SocketRead}
    {effects : List SocketEffect} (hok : socketRead host s read = .ok (t, effects)) : t.Ready := by
  cases socketRead_changes hok with
  | @net _ d _ _ hread =>
    exact ⟨read_valid h.net d.received_length hread, (read_changes hread).parsers_idle h.parsers,
      h.localPort, h.inputs⟩
  | localPort hread => exact ⟨h.net, h.parsers, (readLocal_kept h.localPort hread).1, h.inputs⟩
  | unknown => exact h
  | input hsocket hread =>
    refine ⟨h.net, h.parsers, h.localPort, fun other hother => ?_⟩
    rcases List.mem_or_eq_of_mem_set hother with hold | rfl
    · exact h.inputs other hold
    · exact (readInput_kept (h.inputs _ (List.mem_of_getElem? hsocket)) hread).1

theorem start_ready {config : SocketConfig} {alsa : AlsaConfig} {handles : List (Option SndRawmidi)}
    {s : SocketState} (h : socketStateStart config alsa handles = some s) : s.Ready := by
  obtain ⟨socket, hsocket, rfl⟩ := Option.map_eq_some_iff.mp h
  obtain ⟨size, hsize, hrep, -, -⟩ := createItem_spec hsocket
  refine ⟨⟨fun _ => ⟨_, size, hrep, le_trans (by decide) hsize⟩, by simp⟩, by simp,
    ⟨_, [], size, hrep⟩, fun input hinput => ?_⟩
  obtain ⟨handle, -, rfl⟩ := List.mem_map.mp hinput
  exact ⟨_, [], size, hrep⟩

end RaveloxMidi
