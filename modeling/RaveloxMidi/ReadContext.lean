import RaveloxMidi.ContextRelease

/-!
# What a read hands to the queue

All the commands that one read queues have come out of one call of the parser and
go with one context. So each read in a run of the daemon is one of the calls whose
contexts are counted.
-/
namespace RaveloxMidi
open ByteMemory Transducer

/-- The commands that are queued, with the SSRC they came from. -/
def netQueued (effects : List NetEffect) : List (MidiCommand × UInt32) :=
  effects.filterMap fun
    | .queue command originator => some (command, originator)
    | _ => none

/-- The commands that are queued, with their originators. -/
def socketQueued (effects : List SocketEffect) : List (MidiCommand × MidiSenderContext) :=
  effects.filterMap fun
    | .queue command originators => some (command, originators)
    | _ => none

/-- The commands of one call of `midi_state_send`, with a number that is the same for all. -/
def QueuedTogether {α : Type} (state : MidiState) (queued : List (MidiCommand × α)) : Prop :=
  ∃ (written : MidiState) (mode : MidiParseMode) (zFlag : Bool) (sent : MidiState)
    (commands : List MidiCommand) (originator : α), written.Valid ∧
    written.ring.size = state.ring.size ∧
    midiStateSend written mode zFlag = .ok (sent, commands) ∧
    queued = commands.map fun command => (command, originator)

section Parsers
variable {state t : MidiState}

theorem write_size (h : state.Valid) {bytes : List UInt8} {ret : ℕ}
    (hok : midiStateWrite state bytes = .ok (t, ret)) :
    t.Valid ∧ t.ring.size = state.ring.size := by
  obtain ⟨p, queue, size, hrep⟩ := h
  obtain ⟨u, ret', hwrite, hu⟩ := MidiState.write_arriving hrep bytes
  cases hwrite.symm.trans hok
  exact ⟨⟨p, _, size, hu⟩, hu.size_eq.trans hrep.size_eq.symm⟩

theorem send_size (h : state.Valid) {mode : MidiParseMode} {zFlag : Bool}
    {commands : List MidiCommand} (hok : midiStateSend state mode zFlag = .ok (t, commands)) :
    t.ring.size = state.ring.size := by
  obtain ⟨p, queue, size, hrep⟩ := h
  obtain ⟨u, hsend, hu⟩ := MidiState.send_represents hrep mode zFlag
  cases hsend.symm.trans hok
  exact hu.size_eq.trans hrep.size_eq.symm

theorem writePayload_size (h : state.Valid) {payload : MidiPayload}
    (hok : midiStateWritePayload state payload = .ok t) :
    t.Valid ∧ t.ring.size = state.ring.size := by
  unfold midiStateWritePayload at hok
  split at hok
  · cases hok
    exact ⟨h, rfl⟩
  · obtain ⟨bytes, -, hok⟩ := bind_ok hok
    obtain ⟨written, hwrite, hok⟩ := bind_ok hok
    cases hok
    exact write_size h hwrite

end Parsers

section Net
variable {host : NetHost} {moment : NetMoment} {connections t : List NetCtx} {d : Datagram}
  {effects : List NetEffect}

theorem queued_reply (answer : Option (List UInt8)) : netQueued (netReply answer) = [] := by
  cases answer <;> rfl

theorem queued_sent {sent : Option (SocketAddress × List UInt8)} (slot : ℕ) :
    netQueued (sent.toList.map fun sent => .command slot sent.1 sent.2) = [] := by
  cases sent <;> rfl

theorem okAdvance_queued {slot : ℕ} {ctx ctx' : NetCtx} {okPacket : NetApplemidiInv}
    (hok : applemidiOkAdvance host moment slot ctx okPacket = .ok (ctx', effects)) :
    netQueued effects = [] := by
  cases okAdvance_outcome hok with
  | first => exact queued_sent slot
  | second =>
    rw [netQueued, List.filterMap_append, List.append_eq_nil_iff]
    exact ⟨queued_sent slot, rfl⟩
  | other => rfl

theorem okResponder_queued {data : Option NetApplemidiInv}
    (hok : applemidiOkResponder host moment connections data = .ok (t, effects)) :
    netQueued effects = [] := by
  cases data with
  | none =>
    cases hok
    rfl
  | some okPacket =>
    simp only [applemidiOkResponder] at hok
    split at hok
    · cases hok
      rfl
    · obtain ⟨advanced, hadvance, hok⟩ := bind_ok hok
      cases hok
      exact okAdvance_queued hadvance

/-- An AppleMIDI command queues nothing. -/
theorem applemidi_queued {buffer : Option (List UInt8)}
    (hok : netSocketApplemidi host moment connections d buffer = .ok (t, effects)) :
    netQueued effects = [] := by
  unfold netSocketApplemidi at hok
  split at hok
  · cases hok
  · obtain ⟨handled, hdispatch, hok⟩ := bind_ok hok
    obtain ⟨-, -, hok⟩ := bind_ok hok
    cases hok
    unfold netSocketDispatch at hdispatch
    split_ifs at hdispatch
    · obtain ⟨data, -, hok⟩ := bind_ok hdispatch
      obtain ⟨answered, -, hok⟩ := bind_ok hok
      cases hok
      exact queued_reply _
    · obtain ⟨data, -, hok⟩ := bind_ok hdispatch
      exact okResponder_queued hok
    · obtain ⟨data, -, hok⟩ := bind_ok hdispatch
      cases hok
      rfl
    · obtain ⟨data, -, hok⟩ := bind_ok hdispatch
      obtain ⟨answer, -, hok⟩ := bind_ok hok
      cases hok
      exact queued_reply _
    · obtain ⟨data, -, hok⟩ := bind_ok hdispatch
      cases hok
      rfl
    · cases hdispatch
      rfl

/-- The payload of a packet is written to the parser of its connection, which is then run. -/
theorem deliver_queued {slot : ℕ} {ctx : NetCtx} (h : ctx.midiState.Valid)
    {header : RtpPacketHeader} {payload : Option MidiPayload}
    (hok : netSocketDeliver connections slot ctx header payload = .ok (t, effects)) :
    QueuedTogether ctx.midiState (netQueued effects) := by
  cases payload with
  | none => cases hok
  | some payload =>
    obtain ⟨written, hwrite, hok⟩ := bind_ok hok
    obtain ⟨response, -, hok⟩ := bind_ok hok
    obtain ⟨sent, hsend, hok⟩ := bind_ok hok
    cases hok
    obtain ⟨hvalid, hsize⟩ := writePayload_size h hwrite
    refine ⟨written, .rtp, payload.header.z, sent.1, sent.2, header.ssrc, hvalid, hsize, hsend, ?_⟩
    have hnone := queued_reply response
    rw [netQueued] at hnone
    rw [netQueued, List.filterMap_append, hnone, List.nil_append, List.filterMap_map,
      ← List.filterMap_eq_map]
    rfl

theorem rtp_queued (h : ∀ ctx ∈ connections, ctx.midiState.Valid) {buffer : Option (List UInt8)}
    (hok : netSocketRtp connections d buffer = .ok (t, effects)) :
    netQueued effects = [] ∨
      ∃ ctx ∈ connections, QueuedTogether ctx.midiState (netQueued effects) := by
  obtain ⟨packet, -, hok⟩ := bind_ok hok
  split_ifs at hok
  · cases hok
    exact .inl rfl
  · obtain ⟨payload, -, hok⟩ := bind_ok hok
    split at hok
    · cases hok
      exact .inl rfl
    · next slot ctx hfind =>
      have hmem := List.mem_of_getElem? (find_some hfind).1
      exact .inr ⟨ctx, hmem, deliver_queued (h ctx hmem) hok⟩

theorem read_queued {s u : NetState} (h : s.Valid)
    (hok : netSocketRead host moment s d = .ok (u, effects)) :
    netQueued effects = [] ∨
      ∃ ctx ∈ s.connections, QueuedTogether ctx.midiState (netQueued effects) := by
  obtain ⟨-, rfl⟩ | ⟨buffer, hhandled | hhandled⟩ := read_cases hok
  · exact .inl rfl
  · exact .inl (applemidi_queued hhandled)
  · exact rtp_queued h.parsers hhandled

end Net

section Sockets
variable {socket after : RaveloxmidiSocket} {packet : List UInt8} {effects : List SocketEffect}

theorem midi_queued (h : socket.state.Valid)
    (hok : netSocketMidi socket = .ok (after, effects)) :
    QueuedTogether socket.state (socketQueued effects) := by
  obtain ⟨sent, hsend, hok⟩ := bind_ok hok
  cases hok
  refine ⟨socket.state, .simple, false, sent.1, sent.2, ⟨0, socket.deviceHash⟩, h, rfl, hsend, ?_⟩
  rw [socketQueued, List.filterMap_map, ← List.filterMap_eq_map]
  rfl

theorem QueuedTogether.of_size {α : Type} {state state' : MidiState}
    {queued : List (MidiCommand × α)} (h : QueuedTogether state queued)
    (hsize : state.ring.size = state'.ring.size) : QueuedTogether state' queued := by
  obtain ⟨written, mode, zFlag, sent, commands, originator, hvalid, hwritten, hsend, hqueued⟩ := h
  exact ⟨written, mode, zFlag, sent, commands, originator, hvalid, hwritten.trans hsize, hsend,
    hqueued⟩

theorem readLocal_queued {listing : Option (List UInt8)} (h : socket.state.Valid)
    (hok : netSocketReadLocal listing socket packet = .ok (after, effects)) :
    socketQueued effects = [] ∨ QueuedTogether socket.state (socketQueued effects) := by
  simp only [netSocketReadLocal] at hok
  split_ifs at hok
  · cases hok
    exact .inl rfl
  · obtain ⟨written, hwrite, hok⟩ := bind_ok hok
    obtain ⟨hvalid, hsize⟩ := write_size h hwrite
    obtain ⟨stat, -, hok⟩ := bind_ok hok
    split_ifs at hok
    · cases hok
      exact .inl rfl
    · obtain ⟨quit, -, hok⟩ := bind_ok hok
      split_ifs at hok
      · cases hok
        exact .inl rfl
      · obtain ⟨list, -, hok⟩ := bind_ok hok
        split_ifs at hok
        · cases hok
          cases listing <;> exact .inl rfl
        · exact .inr ((midi_queued hvalid hok).of_size hsize)

theorem readInput_queued (h : socket.state.Valid)
    (hok : netSocketReadInput socket packet = .ok (after, effects)) :
    socketQueued effects = [] ∨ QueuedTogether socket.state (socketQueued effects) := by
  simp only [netSocketReadInput] at hok
  generalize (if socket.handle.isSome = true then packet.take socket.packetSize else []) = received
    at hok
  split_ifs at hok
  · cases hok
    exact .inl rfl
  · obtain ⟨written, hwrite, hok⟩ := bind_ok hok
    obtain ⟨hvalid, hsize⟩ := write_size h hwrite
    exact .inr ((midi_queued hvalid hok).of_size hsize)

end Sockets

/-- Every ring that commands are parsed from has a size that an `int` can hold. -/
structure SocketState.SmallRings (s : SocketState) : Prop where
  parsers : ∀ ctx ∈ s.net.connections, ctx.midiState.ring.size < 2 ^ 31
  localPort : s.localSocket.state.ring.size < 2 ^ 31
  inputs : ∀ socket ∈ s.inputs, socket.state.ring.size < 2 ^ 31

theorem NetCtxChange.ring_size {host : NetHost} {cause : ChangeCause} {ctx ctx' : NetCtx}
    (h : NetCtxChange host cause ctx ctx') (hctx : ctx.midiState.Valid) :
    ctx'.midiState.ring.size = ctx.midiState.ring.size := by
  obtain ⟨p, queue, size, hrep⟩ := hctx
  have hreset : (midiStateReset ctx.midiState).ring.size = ctx.midiState.ring.size :=
    hrep.reset.size_eq.trans hrep.size_eq.symm
  cases h with
  | registered => exact hreset
  | ended => exact hreset
  | trimmed => rfl
  | invited => rfl
  | established => rfl
  | received _ hwrite hsend =>
    obtain ⟨hvalid, hsize⟩ := writePayload_size ⟨p, queue, size, hrep⟩ hwrite
    exact (send_size hvalid hsend).trans hsize

theorem NetTableChange.rings_small {host : NetHost} (hhost : host.ringBufferSize < 2 ^ 31)
    {cause : ChangeCause} {connections t : List NetCtx}
    (h : NetTableChange host cause connections t)
    (hvalid : ∀ ctx ∈ connections, ctx.midiState.Valid)
    (hsmall : ∀ ctx ∈ connections, ctx.midiState.ring.size < 2 ^ 31) :
    ∀ ctx ∈ t, ctx.midiState.ring.size < 2 ^ 31 := by
  intro ctx hctx
  cases h with
  | same => exact hsmall ctx hctx
  | slot hslot hchange =>
    rcases List.mem_or_eq_of_mem_set hctx with hold | rfl
    · exact hsmall ctx hold
    · have hmem := List.mem_of_getElem? hslot
      rw [hchange.ring_size (hvalid _ hmem)]
      exact hsmall _ hmem
  | added hcreated =>
    rcases List.mem_append.mp hctx with hold | hnew
    · exact hsmall ctx hold
    · obtain ⟨state, hstate, rfl⟩ := Option.map_eq_some_iff.mp hcreated
      rw [List.mem_singleton] at hnew
      subst hnew
      have hsize := (MidiState.create_represents hstate).1.reset.size_eq
      change (midiStateReset state).ring.size < 2 ^ 31
      rw [hsize]
      exact max_lt (by decide) hhost

theorem readLocal_size {listing : Option (List UInt8)} {socket after : RaveloxmidiSocket}
    {packet : List UInt8} {effects : List SocketEffect} (h : socket.state.Valid)
    (hok : netSocketReadLocal listing socket packet = .ok (after, effects)) :
    after.state.ring.size = socket.state.ring.size := by
  obtain ⟨p, queue, size, hrep⟩ := h
  obtain ⟨parser, ht⟩ := readLocal_stays hrep hok
  exact ht.represents.size_eq.trans hrep.size_eq.symm

theorem readInput_size {socket after : RaveloxmidiSocket} {packet : List UInt8}
    {effects : List SocketEffect} (h : socket.state.Valid)
    (hok : netSocketReadInput socket packet = .ok (after, effects)) :
    after.state.ring.size = socket.state.ring.size := by
  obtain ⟨p, queue, size, hrep⟩ := h
  obtain ⟨parser, ht⟩ := readInput_stays hrep hok
  exact ht.represents.size_eq.trans hrep.size_eq.symm

theorem read_small {host : NetHost} (hhost : host.ringBufferSize < 2 ^ 31) {s t : SocketState}
    (h : s.Ready) (hsmall : s.SmallRings) {read : SocketRead} {effects : List SocketEffect}
    (hok : socketRead host s read = .ok (t, effects)) : t.SmallRings := by
  cases socketRead_changes hok with
  | net hread =>
    exact ⟨(read_changes hread).rings_small hhost h.net.parsers hsmall.parsers, hsmall.localPort,
      hsmall.inputs⟩
  | localPort hread =>
    refine ⟨hsmall.parsers, ?_, hsmall.inputs⟩
    rw [readLocal_size h.localPort hread]
    exact hsmall.localPort
  | unknown => exact hsmall
  | input hsocket hread =>
    refine ⟨hsmall.parsers, hsmall.localPort, fun other hother => ?_⟩
    have hmem := List.mem_of_getElem? hsocket
    rcases List.mem_or_eq_of_mem_set hother with hold | rfl
    · exact hsmall.inputs other hold
    · rw [readInput_size (h.inputs _ hmem) hread]
      exact hsmall.inputs _ hmem

/-- A negative size is refused. -/
theorem sizeOfInt_cases (n : Int32) : sizeOfInt n < 2 ^ 31 ∨ mallocMax < sizeOfInt n := by
  have hsize : sizeOfInt n = (n.toBitVec.signExtend 64).toNat := by
    rw [← Int32.toBitVec_toInt64]
    rfl
  have hlt := n.toBitVec.isLt
  rw [hsize, BitVec.toNat_signExtend, BitVec.toNat_setWidth, BitVec.msb_eq_decide,
    Nat.mod_eq_of_lt (lt_trans hlt (by decide))]
  simp only [decide_eq_true_eq, mallocMax]
  split_ifs with hneg
  · omega
  · omega

theorem createItem_small {config : SocketConfig} {socket : RaveloxmidiSocket}
    (h : netSocketCreateItem config = some socket) : socket.state.ring.size < 2 ^ 31 := by
  unfold netSocketCreateItem at h
  dsimp only at h
  split_ifs at h with hmax
  obtain ⟨state, hstate, rfl⟩ := Option.map_eq_some_iff.mp h
  have hsize := (MidiState.create_represents hstate).1.size_eq
  rw [hsize]
  rcases sizeOfInt_cases config.readRingBufferSize with hlt | hgt
  · exact max_lt (by decide) hlt
  · exact absurd (lt_of_lt_of_le hgt (le_max_right _ _)) hmax

theorem start_small {config : SocketConfig} {alsa : AlsaConfig} {handles : List (Option SndRawmidi)}
    {s : SocketState} (h : socketStateStart config alsa handles = some s) : s.SmallRings := by
  obtain ⟨socket, hsocket, rfl⟩ := Option.map_eq_some_iff.mp h
  have hsize := createItem_small hsocket
  refine ⟨by simp, hsize, fun input hinput => ?_⟩
  obtain ⟨handle, -, rfl⟩ := List.mem_map.mp hinput
  exact hsize

theorem parsed_nil : Parsed [] := by
  have hcreated := (MidiState.create_represents
    (MidiState.create_eq (show netSocketDefaultRingBuffer ≠ 0 by decide))).1
  obtain ⟨sent, hsent, -⟩ := MidiState.send_represents hcreated .simple false
  exact ⟨_, .simple, false, sent, ⟨_, _, _, hcreated⟩, by rw [hcreated.size_eq]; decide, hsent⟩

theorem QueuedTogether.parsed {α : Type} {state : MidiState} {queued : List (MidiCommand × α)}
    (h : QueuedTogether state queued) (hsmall : state.ring.size < 2 ^ 31) :
    ∃ originator commands, Parsed commands ∧
      queued = commands.map fun command => (command, originator) := by
  obtain ⟨written, mode, zFlag, sent, commands, originator, hvalid, hsize, hsend, hqueued⟩ := h
  exact ⟨originator, commands, ⟨written, mode, zFlag, sent, hvalid, hsize ▸ hsmall, hsend⟩, hqueued⟩

theorem socketQueued_net (effects : List NetEffect) :
    socketQueued (effects.map netSocketEffect) =
      (netQueued effects).map fun queued => (queued.1, rtpOriginators queued.2) := by
  rw [socketQueued, netQueued, List.filterMap_map, List.map_filterMap]
  congr 1
  funext effect
  cases effect <;> rfl

/-- A call of `net_socket_read` in a run of the daemon queues what the parser has parsed,
with one context for all. -/
theorem read_begins {host : NetHost} (hhost : host.ringBufferSize < 2 ^ 31)
    {config : SocketConfig} {alsa : AlsaConfig} {handles : List (Option SndRawmidi)}
    {start s t : SocketState} (hstart : socketStateStart config alsa handles = some start)
    {reads : List SocketRead} {out effects : List SocketEffect}
    (hrun : run (socketRead host) start reads = .ok (s, out)) {read : SocketRead}
    (hok : socketRead host s read = .ok (t, effects)) :
    ∃ originators commands, Parsed commands ∧
      socketQueued effects = commands.map fun command => (command, originators) := by
  have hinv : s.Ready ∧ s.SmallRings :=
    (@run_preserves Fault SocketState SocketRead SocketEffect (socketRead host) (fun _ _ => True)
      (fun s => s.Ready ∧ s.SmallRings) (fun _ => True)
      (fun _ _ _ _ hs _ hread =>
        ⟨⟨read_ready hs.1 hread, read_small hhost hs.1 hs.2 hread⟩, fun _ _ => trivial⟩)
      start s ⟨start_ready hstart, start_small hstart⟩ reads
      (along_of_forall (fun _ _ _ => trivial) start) out hrun).1
  obtain ⟨hready, hsmall⟩ := hinv
  have hnone : ∀ queued : List (MidiCommand × MidiSenderContext), queued = [] →
      ∃ originators commands, Parsed commands ∧
        queued = commands.map fun command => (command, originators) :=
    fun queued hqueued => ⟨⟨0, 0⟩, [], parsed_nil, hqueued⟩
  cases socketRead_changes hok with
  | net hread =>
    rw [socketQueued_net]
    rcases read_queued hready.net hread with hempty | ⟨ctx, hctx, htogether⟩
    · rw [hempty]
      exact hnone [] rfl
    · obtain ⟨ssrc, commands, hparsed, hqueued⟩ := htogether.parsed (hsmall.parsers ctx hctx)
      refine ⟨rtpOriginators ssrc, commands, hparsed, ?_⟩
      rw [hqueued, List.map_map]
      rfl
  | localPort hread =>
    rcases readLocal_queued hready.localPort hread with hempty | htogether
    · exact hnone _ hempty
    · exact htogether.parsed hsmall.localPort
  | unknown => exact hnone [] rfl
  | input hsocket hread =>
    have hmem := List.mem_of_getElem? hsocket
    rcases readInput_queued (hready.inputs _ hmem) hread with hempty | htogether
    · exact hnone _ hempty
    · exact htogether.parsed (hsmall.inputs _ hmem)

end RaveloxMidi
