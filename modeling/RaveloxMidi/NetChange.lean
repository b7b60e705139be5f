import RaveloxMidi.NetSocket

/-!
# What a datagram can change

A datagram changes at most one slot of the connection table, in one of six ways,
or adds one slot at its end. Every fact about the table in a run is read off
these cases. The first of them: the parsers stay sound, so a daemon whose
datagrams are all complete never faults.
-/
namespace RaveloxMidi
open ByteMemory Transducer

/-- Which contexts an event can end, and which it can move forward with an OK. -/
structure ChangeCause where
  ends : NetCtx → Prop
  accepts : NetCtx → Prop

/-- The changes of one context. -/
inductive NetCtxChange (host : NetHost) (cause : ChangeCause) (ctx : NetCtx) : NetCtx → Prop
  | registered (h : ctx.status = .unused) (ssrc initiator sendSsrc : UInt32) (port : UInt16)
      (ipAddress : List UInt8) (name : Option (List UInt8)) (now : UInt64) :
      NetCtxChange host cause ctx
        (netCtxSet host ctx ssrc initiator sendSsrc port ipAddress name now)
  | ended (h : cause.ends ctx) : NetCtxChange host cause ctx (netCtxReset ctx)
  | trimmed : NetCtxChange host cause ctx (netCtxJournalReset ctx)
  | invited (haccepts : cause.accepts ctx) (h : ctx.status = .firstInv) (ssrc : UInt32) :
      NetCtxChange host cause ctx { ctx with ssrc := ssrc, status := .secondInv }
  | established (haccepts : cause.accepts ctx) (h : ctx.status = .secondInv) :
      NetCtxChange host cause ctx { ctx with status := .remoteConnection }
  | received (h : netCtxIsUsed ctx = true) {payload : MidiPayload} {written state : MidiState}
      {commands : List MidiCommand}
      (hwrite : midiStateWritePayload ctx.midiState payload = .ok written)
      (hsend : midiStateSend written .rtp payload.header.z = .ok (state, commands)) :
      NetCtxChange host cause ctx { ctx with midiState := state }

/-- The changes of the table. -/
inductive NetTableChange (host : NetHost) (cause : ChangeCause) (connections : List NetCtx) :
    List NetCtx → Prop
  | same : NetTableChange host cause connections connections
  | slot {slot : ℕ} {ctx ctx' : NetCtx} (hslot : connections[slot]? = some ctx)
      (hchange : NetCtxChange host cause ctx ctx') :
      NetTableChange host cause connections (connections.set slot ctx')
  | added {created : NetCtx} (hcreated : netCtxCreate host = some created)
      (ssrc initiator sendSsrc : UInt32) (port : UInt16) (ipAddress : List UInt8)
      (name : Option (List UInt8)) (now : UInt64) :
      NetTableChange host cause connections
        (connections ++ [netCtxSet host created ssrc initiator sendSsrc port ipAddress name now])

theorem NetTableChange.mono {host : NetHost} {cause cause' : ChangeCause}
    {connections t : List NetCtx} (h : NetTableChange host cause connections t)
    (hends : ∀ ctx, cause.ends ctx → cause'.ends ctx)
    (haccepts : ∀ ctx, cause.accepts ctx → cause'.accepts ctx) :
    NetTableChange host cause' connections t := by
  cases h with
  | same => exact .same
  | slot hslot hchange =>
    refine .slot hslot ?_
    cases hchange with
    | registered h => exact .registered h ..
    | ended h => exact .ended (hends _ h)
    | trimmed => exact .trimmed
    | invited h hstatus ssrc => exact .invited (haccepts _ h) hstatus ssrc
    | established h hstatus => exact .established (haccepts _ h) hstatus
    | received h hwrite hsend => exact .received h hwrite hsend
  | added hcreated => exact .added hcreated ..

section Responders
variable {host : NetHost} {moment : NetMoment} {cause : ChangeCause}
  {connections t : List NetCtx}

theorem register_changes (ssrc initiator : UInt32) (ipAddress : List UInt8) (port : UInt16)
    (name : Option (List UInt8)) (random : UInt32) (now : UInt64) :
    NetTableChange host cause connections
      (netCtxRegister host connections ssrc initiator ipAddress port name random now).1 := by
  unfold netCtxRegister
  cases hfind : netCtxFindBySsrc connections ssrc with
  | some found => exact .same
  | none =>
    cases hunused : netCtxFindUnused connections with
    | some found =>
      obtain ⟨hslot, hstatus⟩ := find_some hunused
      exact .slot hslot (.registered (by simpa using hstatus) ..)
    | none =>
      cases hcreate : netCtxCreate host with
      | none => exact .same
      | some created => exact .added hcreate ..

theorem invResponder_changes {ipAddress : List UInt8} {port : UInt16}
    {data : Option NetApplemidiInv} {answer : Option (List UInt8)}
    (hok : applemidiInvResponder host moment connections ipAddress port data = .ok (t, answer)) :
    NetTableChange host cause connections t := by
  cases data with
  | none =>
    cases hok
    exact .same
  | some inv =>
    have hctx : NetTableChange host cause connections
        (applemidiInvContext host moment connections ipAddress port inv).1 := by
      unfold applemidiInvContext
      cases netCtxFindBySsrc connections inv.ssrc with
      | some found => exact .same
      | none => exact register_changes ..
    simp only [applemidiInvResponder] at hok
    cases hfound : (applemidiInvContext host moment connections ipAddress port inv).2 with
    | none =>
      rw [hfound] at hok
      cases hok
      exact hctx
    | some found =>
      obtain ⟨octets, haccept, -⟩ := accept_ok host found.2
      simp only [hfound, haccept, bind, Except.bind, pure, Except.pure, Except.ok.injEq,
        Prod.mk.injEq] at hok
      exact hok.1 ▸ hctx

theorem okAdvance_changes {slot : ℕ} {ctx ctx' : NetCtx} {okPacket : NetApplemidiInv}
    {effects : List NetEffect} (haccepts : cause.accepts ctx)
    (hok : applemidiOkAdvance host moment slot ctx okPacket = .ok (ctx', effects)) :
    ctx' = ctx ∨ NetCtxChange host cause ctx ctx' := by
  cases okAdvance_outcome hok with
  | first hfirst => exact .inr (.invited haccepts hfirst okPacket.ssrc)
  | second hsecond => exact .inr (.established haccepts hsecond)
  | other => exact .inl rfl

theorem okResponder_changes {data : Option NetApplemidiInv} {effects : List NetEffect}
    (haccepts : ∀ inv slot ctx, data = some inv →
      netCtxFindByInitiator connections inv.initiator = some (slot, ctx) → cause.accepts ctx)
    (hok : applemidiOkResponder host moment connections data = .ok (t, effects)) :
    NetTableChange host cause connections t := by
  cases data with
  | none =>
    cases hok
    exact .same
  | some okPacket =>
    simp only [applemidiOkResponder] at hok
    cases hfind : netCtxFindByInitiator connections okPacket.initiator with
    | none =>
      rw [hfind] at hok
      cases hok
      exact .same
    | some found =>
      obtain ⟨hslot, -⟩ := find_some hfind
      rw [hfind] at hok
      obtain ⟨advanced, hadvance, hok⟩ := bind_ok hok
      cases hok
      rcases okAdvance_changes (haccepts okPacket _ _ rfl hfind) hadvance with hsame | hchange
      · obtain ⟨hlt, hkept⟩ := List.getElem?_eq_some_iff.mp hslot
        rw [hsame, ← hkept, List.set_getElem_self hlt]
        exact .same
      · exact .slot hslot hchange

theorem byResponder_changes (data : Option NetApplemidiInv)
    (hends : ∀ inv slot ctx, data = some inv →
      netCtxFindBySsrc connections inv.ssrc = some (slot, ctx) → cause.ends ctx) :
    NetTableChange host cause connections (applemidiByResponder connections data) := by
  cases data with
  | none => exact .same
  | some inv =>
    simp only [applemidiByResponder]
    cases hfind : netCtxFindBySsrc connections inv.ssrc with
    | none => exact .same
    | some found => exact .slot (find_some hfind).1 (.ended (hends inv _ _ rfl hfind))

theorem feedbackResponder_changes (data : Option NetApplemidiFeedback) :
    NetTableChange host cause connections (applemidiFeedbackResponder connections data) := by
  cases data with
  | none => exact .same
  | some feedback =>
    simp only [applemidiFeedbackResponder, applemidiFeedbackResets]
    cases hfind : netCtxFindBySsrc connections feedback.ssrc with
    | none => exact .same
    | some found =>
      obtain ⟨hslot, -⟩ := find_some hfind
      dsimp only
      split_ifs
      · exact .slot hslot .trimmed
      · exact .same

end Responders

/-- The connection that a command ends, if it is a BY. -/
def commandEnds (connections : List NetCtx) (command : NetApplemidiCommand) :
    Option (ℕ × NetCtx) :=
  match command.data with
  | .inv inv =>
    if command.command = netApplemidiCmdEnd then netCtxFindBySsrc connections inv.ssrc else none
  | _ => none

/-- The connection that a command moves forward, if it is an OK. -/
def commandAccepts (connections : List NetCtx) (command : NetApplemidiCommand) :
    Option (ℕ × NetCtx) :=
  match command.data with
  | .inv inv =>
    if command.command = netApplemidiCmdAccept then
      netCtxFindByInitiator connections inv.initiator
    else none
  | _ => none

/-- The connection that a datagram ends. -/
def datagramEnds (connections : List NetCtx) (packet beyond : List UInt8) : Option (ℕ × NetCtx) :=
  (netApplemidiUnpack ⟨packet, beyond⟩).command.bind (commandEnds connections)

/-- The connection that a datagram moves forward. -/
def datagramAccepts (connections : List NetCtx) (packet beyond : List UInt8) :
    Option (ℕ × NetCtx) :=
  (netApplemidiUnpack ⟨packet, beyond⟩).command.bind (commandAccepts connections)

def commandCause (connections : List NetCtx) (command : NetApplemidiCommand) : ChangeCause where
  ends ctx := ∃ slot, commandEnds connections command = some (slot, ctx)
  accepts ctx := ∃ slot, commandAccepts connections command = some (slot, ctx)

def datagramCause (connections : List NetCtx) (packet beyond : List UInt8) : ChangeCause where
  ends ctx := ∃ slot, datagramEnds connections packet beyond = some (slot, ctx)
  accepts ctx := ∃ slot, datagramAccepts connections packet beyond = some (slot, ctx)

/-- Only a datagram that begins like an AppleMIDI command ends a connection or moves
it forward. -/
def readCause (connections : List NetCtx) (d : Datagram) : ChangeCause where
  ends ctx := IsApplemidi d.packet ∧ (datagramCause connections d.packet d.beyond).ends ctx
  accepts ctx := IsApplemidi d.packet ∧ (datagramCause connections d.packet d.beyond).accepts ctx

theorem asInv_inv {data : NetApplemidiData} {inv : NetApplemidiInv}
    (h : data.asInv = .ok (some inv)) : data = .inv inv := by
  cases data <;> cases h
  rfl

section Read
variable {host : NetHost} {moment : NetMoment} {connections t : List NetCtx} {d : Datagram}
  {effects : List NetEffect}

theorem dispatch_changes {command : NetApplemidiCommand}
    (hok : netSocketDispatch host moment connections d command = .ok (t, effects)) :
    NetTableChange host (commandCause connections command) connections t := by
  unfold netSocketDispatch at hok
  split_ifs at hok
  · obtain ⟨data, -, hok⟩ := bind_ok hok
    obtain ⟨answered, hanswered, hok⟩ := bind_ok hok
    cases hok
    exact invResponder_changes hanswered
  · obtain ⟨data, hdata, hok⟩ := bind_ok hok
    refine okResponder_changes (fun inv slot ctx hinv hfind => ⟨slot, ?_⟩) hok
    rw [hinv] at hdata
    rw [commandAccepts, asInv_inv hdata]
    exact (if_pos ‹_›).trans hfind
  · obtain ⟨data, hdata, hok⟩ := bind_ok hok
    cases hok
    refine byResponder_changes data fun inv slot ctx hinv hfind => ⟨slot, ?_⟩
    rw [hinv] at hdata
    rw [commandEnds, asInv_inv hdata]
    exact (if_pos ‹_›).trans hfind
  · obtain ⟨data, -, hok⟩ := bind_ok hok
    obtain ⟨answer, -, hok⟩ := bind_ok hok
    cases hok
    exact .same
  · obtain ⟨data, -, hok⟩ := bind_ok hok
    cases hok
    exact feedbackResponder_changes data
  · cases hok
    exact .same

theorem applemidi_changes {buffer : Option (List UInt8)}
    (hok : netSocketApplemidi host moment connections d buffer = .ok (t, effects)) :
    ∃ packet, buffer = some packet ∧
      NetTableChange host (datagramCause connections packet d.beyond) connections t := by
  unfold netSocketApplemidi at hok
  split at hok
  · cases hok
  · next command hcommand =>
    obtain ⟨packet, hpacket, hunpack⟩ := Option.bind_eq_some_iff.mp hcommand
    obtain ⟨handled, hdispatch, hok⟩ := bind_ok hok
    obtain ⟨-, -, hok⟩ := bind_ok hok
    cases hok
    refine ⟨packet, hpacket, (dispatch_changes hdispatch).mono ?_ ?_⟩
    · rintro ctx ⟨slot, hends⟩
      exact ⟨slot, by rwa [datagramEnds, hunpack]⟩
    · rintro ctx ⟨slot, haccepts⟩
      exact ⟨slot, by rwa [datagramAccepts, hunpack]⟩

theorem writePayload_valid {state written : MidiState} {payload : MidiPayload}
    (h : state.Valid) (hok : midiStateWritePayload state payload = .ok written) :
    written.Valid := by
  unfold midiStateWritePayload at hok
  split at hok
  · cases hok
    exact h
  · obtain ⟨bytes, -, hok⟩ := bind_ok hok
    obtain ⟨result, hwrite, hok⟩ := bind_ok hok
    obtain ⟨out, ret, hout, hvalid⟩ := h.write bytes
    cases hwrite.symm.trans hout
    cases hok
    exact hvalid

theorem deliver_changes {cause : ChangeCause} {slot : ℕ} {ctx : NetCtx}
    (hslot : connections[slot]? = some ctx) (hused : netCtxIsUsed ctx = true)
    {header : RtpPacketHeader} {payload : Option MidiPayload}
    (hok : netSocketDeliver connections slot ctx header payload = .ok (t, effects)) :
    NetTableChange host cause connections t := by
  cases payload with
  | none => cases hok
  | some payload =>
    obtain ⟨state, hwrite, hok⟩ := bind_ok hok
    obtain ⟨response, -, hok⟩ := bind_ok hok
    obtain ⟨sent, hsend, hok⟩ := bind_ok hok
    cases hok
    exact .slot hslot (.received hused hwrite hsend)

theorem rtp_changes {cause : ChangeCause} {buffer : Option (List UInt8)}
    (hok : netSocketRtp connections d buffer = .ok (t, effects)) :
    NetTableChange host cause connections t := by
  obtain ⟨packet, -, hok⟩ := bind_ok hok
  split_ifs at hok
  · cases hok
    exact .same
  · obtain ⟨payload, -, hok⟩ := bind_ok hok
    split at hok
    · cases hok
      exact .same
    · next slot ctx hfind =>
      obtain ⟨hslot, hwanted⟩ := find_some hfind
      exact deliver_changes hslot (Bool.and_eq_true_iff.mp hwanted).1 hok

/-- What a read does to the table and outside of it is done in one of the two
branches, if there is anything to read. -/
theorem read_cases {s u : NetState} (hok : netSocketRead host moment s d = .ok (u, effects)) :
    (u.connections = s.connections ∧ effects = []) ∨ ∃ buffer,
      netSocketApplemidi host moment s.connections d buffer = .ok (u.connections, effects) ∨
        netSocketRtp s.connections d buffer = .ok (u.connections, effects) := by
  unfold netSocketRead at hok
  split_ifs at hok
  · cases hok
    exact .inl ⟨rfl, rfl⟩
  · obtain ⟨written, -, hok⟩ := bind_ok hok
    obtain ⟨first, -, hok⟩ := bind_ok hok
    obtain ⟨second, -, hok⟩ := bind_ok hok
    obtain ⟨drained, -, hok⟩ := bind_ok hok
    refine .inr ⟨drained.2, ?_⟩
    dsimp only at hok
    split_ifs at hok
    · obtain ⟨handled, hhandled, hok⟩ := bind_ok hok
      cases hok
      exact .inl hhandled
    · obtain ⟨handled, hhandled, hok⟩ := bind_ok hok
      cases hok
      exact .inr hhandled

/-- A datagram makes one change of the table. -/
theorem read_changes {s u : NetState}
    (hok : netSocketRead host moment s d = .ok (u, effects)) :
    NetTableChange host ⟨fun _ => True, fun _ => True⟩ s.connections u.connections := by
  obtain ⟨hsame, -⟩ | ⟨buffer, hhandled | hhandled⟩ := read_cases hok
  · rw [hsame]
    exact .same
  · obtain ⟨packet, -, hchange⟩ := applemidi_changes hhandled
    exact hchange.mono (fun _ _ => trivial) fun _ _ => trivial
  · exact rtp_changes hhandled

/-- Between two datagrams, what a datagram does is seen from its own octets. -/
theorem read_caused {s u : NetState} (h : s.Valid) (hmax : d.packet.length ≤ netApplemidiUdpSize)
    (hok : netSocketRead host moment s d = .ok (u, effects)) :
    NetTableChange host (readCause s.connections d) s.connections u.connections := by
  by_cases hpos : 0 < d.packet.length
  · obtain ⟨state, p, size, -, -, hread⟩ := read_eq h host moment hpos hmax
    rw [hread] at hok
    obtain ⟨handled, hhandled, heq⟩ := map_ok hok
    cases heq
    by_cases hclass : IsApplemidi d.packet
    · rw [if_pos hclass] at hhandled
      obtain ⟨packet, hpacket, hchange⟩ := applemidi_changes hhandled
      cases hpacket
      exact hchange.mono (fun _ hends => ⟨hclass, hends⟩) fun _ haccepts => ⟨hclass, haccepts⟩
    · rw [if_neg hclass] at hhandled
      exact rtp_changes hhandled
  · have hempty : d.packet.length = 0 := by omega
    rw [netSocketRead, if_pos hempty] at hok
    cases hok
    exact .same

end Read

theorem NetCtxChange.parser_valid {host : NetHost} {cause : ChangeCause} {ctx ctx' : NetCtx}
    (h : NetCtxChange host cause ctx ctx') (hctx : ctx.midiState.Valid) : ctx'.midiState.Valid := by
  cases h with
  | registered => exact hctx.reset
  | ended => exact hctx.reset
  | trimmed => exact hctx
  | invited => exact hctx
  | established => exact hctx
  | @received _ payload _ _ _ hwrite hsend =>
    obtain ⟨out, commands, hout, hvalid⟩ :=
      (writePayload_valid hctx hwrite).send .rtp payload.header.z
    cases hsend.symm.trans hout
    exact hvalid

theorem NetTableChange.parsers_valid {host : NetHost} {cause : ChangeCause}
    {connections t : List NetCtx} (h : NetTableChange host cause connections t)
    (hparsers : ∀ ctx ∈ connections, ctx.midiState.Valid) :
    ∀ ctx ∈ t, ctx.midiState.Valid := by
  intro ctx hctx
  cases h with
  | same => exact hparsers ctx hctx
  | slot hslot hchange =>
    rcases List.mem_or_eq_of_mem_set hctx with hold | rfl
    · exact hparsers ctx hold
    · exact hchange.parser_valid (hparsers _ (List.mem_of_getElem? hslot))
  | added hcreated =>
    rcases List.mem_append.mp hctx with hold | hnew
    · exact hparsers ctx hold
    · obtain ⟨state, hstate, rfl⟩ := Option.map_eq_some_iff.mp hcreated
      rw [List.mem_singleton] at hnew
      subst hnew
      have hvalid : state.Valid := ⟨_, _, _, (MidiState.create_represents hstate).1⟩
      exact hvalid.reset

/-- Between two datagrams the daemon is in the same shape again. -/
theorem read_valid {host : NetHost} {moment : NetMoment} {s u : NetState} {d : Datagram}
    {effects : List NetEffect} (h : s.Valid) (hmax : d.packet.length ≤ netApplemidiUdpSize)
    (hok : netSocketRead host moment s d = .ok (u, effects)) : u.Valid := by
  refine ⟨fun socket => ?_, (read_changes hok).parsers_valid h.parsers⟩
  by_cases hpos : 0 < d.packet.length
  · obtain ⟨state, p, size, hrep, hsize, hread⟩ := read_eq h host moment hpos hmax
    rw [hread] at hok
    obtain ⟨handled, -, heq⟩ := map_ok hok
    cases heq
    by_cases hsocket : socket = d.socket
    · subst hsocket
      exact ⟨p, size, by simpa using hrep, hsize⟩
    · simpa [hsocket] using h.sockets socket
  · have hempty : d.packet.length = 0 := by omega
    rw [netSocketRead, if_pos hempty] at hok
    cases hok
    exact h.sockets socket

/-- The daemon before the first datagram. -/
def netStateStart (host : NetHost) : Option NetState :=
  (midiStateCreate (max netSocketDefaultRingBuffer host.ringBufferSize)).map fun state =>
    ⟨[], fun _ => state⟩

theorem start_valid {host : NetHost} {s : NetState} (h : netStateStart host = some s) :
    s.Valid := by
  obtain ⟨state, hstate, rfl⟩ := Option.map_eq_some_iff.mp h
  have hsize : netApplemidiUdpSize ≤ max netSocketDefaultRingBuffer host.ringBufferSize :=
    le_max_of_le_left (by decide)
  exact ⟨fun _ => ⟨_, _, (MidiState.create_represents hstate).1, hsize⟩, by simp⟩

theorem start_connections {host : NetHost} {s : NetState} (h : netStateStart host = some s) :
    s.connections = [] := by
  obtain ⟨state, -, rfl⟩ := Option.map_eq_some_iff.mp h
  rfl

/-- A datagram that a socket can receive, and that is complete. -/
def Received (s : NetState) (read : NetMoment × Datagram) : Prop :=
  0 < read.2.packet.length ∧ read.2.packet.length ≤ netApplemidiUdpSize ∧
    Handled s.connections read.2.packet

/-- A daemon that receives only complete datagrams never faults. -/
theorem received_run {host : NetHost} {s : NetState} (h : netStateStart host = some s)
    (reads : List (NetMoment × Datagram))
    (hreads : Along (fun s read => netSocketRead host read.1 s read.2) Received s reads) :
    ∃ t effects, run (fun s read => netSocketRead host read.1 s read.2) s reads = .ok (t, effects) ∧
      t.Valid := by
  have hstep : ∀ (s : NetState) (read : NetMoment × Datagram), s.Valid → Received s read →
      ∃ t now, netSocketRead host read.1 s read.2 = .ok (t, now) ∧ t.Valid ∧ ∀ _ ∈ now, True := by
    intro s read hs hread
    obtain ⟨hpos, hmax, hhandled⟩ := hread
    obtain ⟨t, effects, hok⟩ := read_of_handled hs host read.1 hpos hmax hhandled
    exact ⟨t, effects, hok, read_valid hs hmax hok, fun _ _ => trivial⟩
  obtain ⟨t, effects, hrun, hvalid, -⟩ := run_invariant hstep (start_valid h) reads hreads
  exact ⟨t, effects, hrun, hvalid⟩

end RaveloxMidi
