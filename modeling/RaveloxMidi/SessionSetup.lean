import RaveloxMidi.Handshake
import RaveloxMidi.NameLookup
import RaveloxMidi.SessionLink

/-!
# From the invitation to the commands

A handshake leaves each side with a context for the other. To carry commands, these
contexts need more than the numbers that the sides agree on: an address to send to,
and a parser that waits for the first octet of a command. Both are there from the
registration on, and no datagram of a handshake touches them.
-/
namespace RaveloxMidi
open ByteMemory Transducer

/-- No slot that is free was left in the middle of a command. -/
structure TablePrepared (connections : List NetCtx) : Prop where
  journals : JournalsValid connections
  parsers : ∀ ctx ∈ connections, ctx.midiState.Idle
  free : ∀ ctx ∈ connections, netCtxIsUsed ctx = false → ctx.midiState.AtBoundary

/-- The session with the token waits for its first command, and can be sent to. -/
structure SessionPrepared (initiator : UInt32) (connections : List NetCtx) : Prop extends
    TablePrepared connections where
  session : ∀ ctx ∈ connections, netCtxIsUsed ctx = true → ctx.initiator = initiator →
    ctx.midiState.AtBoundary ∧ ctx.dataAddress ≠ none

theorem TablePrepared.unused {connections : List NetCtx} {ssrc initiator : UInt32}
    (h : TablePrepared connections) (hunused : NumbersUnused connections ssrc initiator) :
    SessionPrepared initiator connections :=
  ⟨h, fun ctx hctx hused htoken => absurd htoken (hunused ctx hctx hused).2⟩

/-- Where a parser is that represents a parser with nothing in hand. -/
theorem MidiState.Represents.boundary {state : MidiState} {runningStatus : UInt8}
    {currentDelta : UInt64} {size : ℕ}
    (h : state.Represents ⟨.init, runningStatus, [], currentDelta, false⟩ [] size) :
    state.AtBoundary :=
  ⟨h.follows.status, h.follows.hold_valid, h.follows.hold, h.follows.partialSysex, h.ring_valid,
    h.queue_eq⟩

section Tables
variable {host : NetHost} {connections : List NetCtx} {initiator : UInt32}

/-- What is in the table after a registration. -/
theorem register_mem (h : TablePrepared connections) {ssrc token random : UInt32}
    {ipAddress : List UInt8} {port : UInt16} {name : Option (List UInt8)} {now : UInt64}
    {ctx : NetCtx} (hctx : ctx ∈
      (netCtxRegister host connections ssrc token ipAddress port name random now).1) :
    ctx ∈ connections ∨ netCtxIsUsed ctx = true ∧ ctx.midiState.AtBoundary ∧
      ctx.dataAddress = host.getSockInfo ipAddress (port + 1) := by
  unfold netCtxRegister at hctx
  cases hfind : netCtxFindBySsrc connections ssrc with
  | some found =>
    rw [hfind] at hctx
    exact .inl hctx
  | none =>
    rw [hfind] at hctx
    cases hunused : netCtxFindUnused connections with
    | some found =>
      rw [hunused] at hctx
      rcases List.mem_or_eq_of_mem_set hctx with hold | rfl
      · exact .inl hold
      · obtain ⟨hslot, hstatus⟩ := find_some hunused
        have hfree : netCtxIsUsed found.2 = false := by simpa [netCtxIsUsed] using hstatus
        have hboundary := h.free found.2 (List.mem_of_getElem? hslot) hfree
        exact .inr ⟨rfl, hboundary.represents.reset.boundary, rfl⟩
    | none =>
      rw [hunused] at hctx
      obtain ⟨created, hcreated, -⟩ := exists_created host
      simp only [hcreated] at hctx
      rcases List.mem_append.mp hctx with hold | hnew
      · exact .inl hold
      · obtain ⟨state, hstate, rfl⟩ := Option.map_eq_some_iff.mp hcreated
        rw [List.mem_singleton] at hnew
        subst hnew
        exact .inr ⟨rfl, (MidiState.create_represents hstate).1.reset.boundary, rfl⟩

theorem SessionPrepared.registered (h : SessionPrepared initiator connections)
    {ssrc token random : UInt32} {ipAddress : List UInt8} {port : UInt16}
    {name : Option (List UInt8)} {now : UInt64} {table : List NetCtx × Option (ℕ × NetCtx)}
    (hregister : netCtxRegister host connections ssrc token ipAddress port name random now = table)
    (hresolves : host.getSockInfo ipAddress (port + 1) ≠ none) :
    SessionPrepared initiator table.1 := by
  have hchange : NetTableChange host ⟨fun _ => True, fun _ => True⟩ connections table.1 :=
    hregister ▸ register_changes ..
  refine ⟨⟨hchange.journals_valid h.journals, hchange.parsers_idle h.parsers,
    fun ctx hctx hfree => ?_⟩, fun ctx hctx hused htoken => ?_⟩
  · rcases register_mem h.toTablePrepared (hregister ▸ hctx) with hold | ⟨hused, -⟩
    · exact h.free ctx hold hfree
    · rw [hused] at hfree
      cases hfree
  · rcases register_mem h.toTablePrepared (hregister ▸ hctx) with hold | ⟨-, hboundary, haddress⟩
    · exact h.session ctx hold hused htoken
    · exact ⟨hboundary, haddress ▸ hresolves⟩

/-- A context that moves forward is the one in its slot, but for its status and its SSRC. -/
structure MovesForward (ctx next : NetCtx) : Prop where
  used : netCtxIsUsed next = netCtxIsUsed ctx
  initiator : next.initiator = ctx.initiator
  midiState : next.midiState = ctx.midiState
  journal : next.journal = ctx.journal
  dataAddress : next.dataAddress = ctx.dataAddress

theorem SessionPrepared.set (h : SessionPrepared initiator connections) {slot : ℕ}
    {ctx next : NetCtx} (hslot : connections[slot]? = some ctx) (hnext : MovesForward ctx next) :
    SessionPrepared initiator (connections.set slot next) := by
  have hold := List.mem_of_getElem? hslot
  refine ⟨⟨fun c hc => ?_, fun c hc => ?_, fun c hc hfree => ?_⟩, fun c hc hused htoken => ?_⟩
  · rcases List.mem_or_eq_of_mem_set hc with hc | rfl
    · exact h.journals c hc
    · exact hnext.journal ▸ h.journals ctx hold
  · rcases List.mem_or_eq_of_mem_set hc with hc | rfl
    · exact h.parsers c hc
    · exact hnext.midiState ▸ h.parsers ctx hold
  · rcases List.mem_or_eq_of_mem_set hc with hc | rfl
    · exact h.free c hc hfree
    · exact hnext.midiState ▸ h.free ctx hold (hnext.used ▸ hfree)
  · rcases List.mem_or_eq_of_mem_set hc with hc | rfl
    · exact h.session c hc hused htoken
    · rw [hnext.midiState, hnext.dataAddress]
      exact h.session ctx hold (hnext.used ▸ hused) (hnext.initiator ▸ htoken)

theorem okAdvance_forward {moment : NetMoment} {slot : ℕ} {ctx next : NetCtx}
    {okPacket : NetApplemidiInv} {effects : List NetEffect}
    (hok : applemidiOkAdvance host moment slot ctx okPacket = .ok (next, effects)) :
    MovesForward ctx next := by
  cases okAdvance_outcome hok with
  | first hfirst => exact ⟨by rw [netCtxIsUsed, netCtxIsUsed, hfirst]; rfl, rfl, rfl, rfl, rfl⟩
  | second hsecond => exact ⟨by rw [netCtxIsUsed, netCtxIsUsed, hsecond]; rfl, rfl, rfl, rfl, rfl⟩
  | other => exact ⟨rfl, rfl, rfl, rfl, rfl⟩

end Tables

section Arrivals
variable {invitedHost invitingHost : NetHost} {s t : Handshake} {ssrc initiator : UInt32}
  {slot : ℕ}

theorem read_invitation {host : NetHost} {moment : NetMoment} {s t : NetState} {d : Datagram}
    {token : UInt32} {effects : List NetEffect} (hvalid : s.Valid)
    (h : SessionPrepared initiator s.connections)
    (hpacket : InvPacket netApplemidiCmdInv ssrc token d.packet)
    (hfits : d.packet.length ≤ netApplemidiUdpSize)
    (hresolves : host.getSockInfo d.ipAddress (d.port + 1) ≠ none)
    (hok : netSocketRead host moment s d = .ok (t, effects)) :
    SessionPrepared initiator t.connections := by
  obtain ⟨sockets, version, name, hread⟩ :=
    read_invPacket hvalid host moment hpacket (by decide) hfits
  rw [hread, dispatch_inv] at hok
  obtain ⟨handled, hhandled, heq⟩ := map_ok hok
  obtain ⟨answered, hanswered, hreply⟩ := map_ok hhandled
  cases heq
  cases hreply
  rw [invResponder_table hanswered]
  exact h.registered rfl hresolves

/-- The inviting side has its context from the start. -/
theorem connect_prepared {host : NetHost} {moment : NetMoment} {b connected : NetState}
    {foundService : FoundService} {effects : List NetEffect}
    (h : SessionPrepared initiator b.connections)
    (hfind : netCtxFindBySsrc b.connections (moment.random 0) = none)
    (hresolves : host.getSockInfo foundService.ipAddress (foundService.port + 1) ≠ none)
    (hconnect : sessionCall host b (.connect moment foundService) = .ok (connected, effects)) :
    SessionPrepared initiator connected.connections := by
  obtain ⟨t, slot, ctx, hregister, hregistered, hnew, -⟩ :=
    register_fresh host hfind (moment.random 1) foundService.ipAddress foundService.port
      (some foundService.name) (moment.random 2) moment.now
  obtain ⟨octets, hpack, -⟩ := responseInv_ok (moment.random 0) (moment.random 1)
    (some (host.serviceName.getD defaultClientName))
  have hprepared : SessionPrepared initiator t := h.registered hregister hresolves
  simp only [sessionCall, remoteConnectInit, hpack, hregister, bind, Except.bind, pure,
    Except.pure] at hconnect
  cases hconnect
  have hused : netCtxIsUsed ctx = true := by simp [netCtxIsUsed, hnew.status]
  exact hprepared.set hregistered.here ⟨hused.symm, rfl, rfl, rfl, rfl⟩

/-- The address that an INV comes from can be sent to. -/
def Reached (invitedHost : NetHost) : HandshakeCall → Prop
  | .atInvited delivery =>
    invitedHost.getSockInfo delivery.ipAddress (delivery.port + 1) ≠ none
  | .atInviting _ => True

/-- Both sides of a handshake are prepared for the commands after it. -/
structure HandshakePrepared (initiator : UInt32) (s : Handshake) : Prop where
  invited : SessionPrepared initiator s.invited.connections
  inviting : SessionPrepared initiator s.inviting.connections

theorem handshake_prepared {call : HandshakeCall} {effects : List NetEffect}
    (hinv : HandshakeInv ssrc initiator slot s) (h : HandshakePrepared initiator s)
    (hreached : Reached invitedHost call)
    (hok : handshakeCall invitedHost invitingHost s call = .ok (t, effects)) :
    HandshakePrepared initiator t := by
  cases call with
  | atInvited delivery =>
    cases hoctets : s.toInvited[delivery.index]? with
    | none =>
      simp only [handshakeCall, hoctets] at hok
      cases hok
      exact h
    | some octets =>
      simp only [handshakeCall, hoctets] at hok
      obtain ⟨read, hread, hok⟩ := bind_ok hok
      cases hok
      have hfits := delivery.fits octets
      refine ⟨?_, h.inviting⟩
      rcases hinv.invitations octets (List.mem_of_getElem? hoctets) with hpacket | hsync
      · exact read_invitation hinv.invited h.invited (hpacket.arrives delivery) hfits hreached hread
      · obtain ⟨hsame, -⟩ := read_syncPacket hinv.invited (hsync.arrives delivery) hfits hread
        exact hsame ▸ h.invited
  | atInviting delivery =>
    cases hoctets : s.toInviting[delivery.index]? with
    | none =>
      simp only [handshakeCall, hoctets] at hok
      cases hok
      exact h
    | some octets =>
      simp only [handshakeCall, hoctets] at hok
      obtain ⟨read, hread, hok⟩ := bind_ok hok
      cases hok
      have hfits := delivery.fits octets
      refine ⟨h.invited, ?_⟩
      obtain ⟨ctx, hctx, hstage⟩ := hinv.stage
      have hkind : (∃ peerSsrc, InvPacket netApplemidiCmdAccept peerSsrc initiator octets) ∨
          SyncPacket octets := by
        have hmem := List.mem_of_getElem? hoctets
        rcases hstage with hunheard | ⟨other, peer, -, hheard⟩
        · exact .inr (hunheard.quiet octets hmem)
        · exact (hheard.accepts octets hmem).imp_left fun haccept => ⟨peer.sendSsrc, haccept⟩
      rcases hkind with ⟨peerSsrc, haccept⟩ | hsync
      · obtain ⟨sockets, okPacket, -, hadvances⟩ := read_accept hinv.inviting invitingHost
          delivery.moment hfits (haccept.arrives delivery) hctx.find
        rw [hadvances] at hread
        obtain ⟨advanced, hadvance, heq⟩ := map_ok hread
        cases heq
        exact h.inviting.set hctx.here (okAdvance_forward hadvance)
      · obtain ⟨hsame, -⟩ := read_syncPacket hinv.inviting (hsync.arrives delivery) hfits hread
        exact hsame ▸ h.inviting

end Arrivals

/-- What a daemon has besides its connections. -/
structure Daemon where
  host : NetHost
  alsa : AlsaConfig
  outputs : List SndRawmidi
  localSocket : RaveloxmidiSocket
  inputs : List RaveloxmidiSocket

structure Daemon.Ready (daemon : Daemon) : Prop where
  localPort : daemon.localSocket.state.Valid
  inputs : ∀ socket ∈ daemon.inputs, socket.state.Valid

/-- The session from a context to the one that a peer has for it. -/
def Daemon.ends (daemon peer : Daemon) (slot : ℕ) (ctx : NetCtx) (peerSlot : ℕ) : LinkEnds :=
  ⟨daemon.host, daemon.alsa, daemon.outputs, slot, ctx.sendSsrc, peer.host, peerSlot, ctx.ssrc⟩

/-- Nothing has been queued or sent yet. -/
def Daemon.link (daemon : Daemon) (net peer : NetState) : Link :=
  ⟨⟨net, daemon.localSocket, daemon.inputs⟩, [], [], peer⟩

/-- Whatever the two daemons read and send, and whatever becomes of the packets: each packet that
arrives makes the peer queue the command that it was sent for, under the SSRC of the sender. -/
def Link.Plays (e : LinkEnds) (s : Link) : Prop :=
  ∀ moves, Along (linkStep e) (LinkUndisturbed e) s moves →
    ∃ t out, run (linkStep e) s moves = .ok (t, out) ∧ ∀ n commands, .played n commands ∈ out →
      ∃ command, (out.filterMap (LinkEvent.carried e.peerSsrc))[n]? = some command ∧
        commands.map (fun played => (played.1.content, played.2)) = [(command.content, e.ssrc)]

theorem Link.Open.plays {e : LinkEnds} {s : Link} (h : s.Open e) (hwaiting : s.waiting = [])
    (hpackets : s.packets = []) : s.Plays e := by
  intro moves hmoves
  obtain ⟨t, out, hrun, -, hplays⟩ := run_plays (h.start hwaiting hpackets) hmoves
  exact ⟨t, out, hrun, fun n commands hplayed => hplays _ hplayed n commands rfl⟩

theorem SessionPrepared.opens {sender : Daemon} (peer : Daemon) {net peerNet : NetState}
    {initiator : UInt32} {slot peerSlot : ℕ} {ctx peerCtx : NetCtx} (hready : sender.Ready)
    (hnet : net.Valid) (hpeer : peerNet.Valid) (h : SessionPrepared initiator net.connections)
    (hthere : SessionPrepared initiator peerNet.connections)
    (hctx : net.connections[slot]? = some ctx) (hused : netCtxIsUsed ctx = true)
    (htoken : ctx.initiator = initiator)
    (hfind : netCtxFindBySsrc peerNet.connections ctx.sendSsrc = some (peerSlot, peerCtx))
    (hpeerToken : peerCtx.initiator = initiator) :
    (sender.link net peerNet).Open (sender.ends peer slot ctx peerSlot) := by
  obtain ⟨-, haddress⟩ := h.session ctx (List.mem_of_getElem? hctx) hused htoken
  obtain ⟨hslot, hwanted⟩ := find_some hfind
  have hmem := List.mem_of_getElem? hslot
  obtain ⟨hboundary, -⟩ :=
    hthere.session peerCtx hmem (Bool.and_eq_true_iff.mp hwanted).1 hpeerToken
  obtain ⟨p, size, hsize, hrep⟩ := hthere.parsers peerCtx hmem
  have hroom : 3 ≤ peerCtx.midiState.ring.size := by
    rw [hrep.size_eq]
    exact le_trans (by decide) hsize
  exact ⟨⟨hnet, h.parsers, hready.localPort, hready.inputs⟩, h.journals,
    ⟨ctx, hctx, slotOf_eq_some_iff.mpr ⟨hused, rfl⟩, rfl, haddress⟩, hpeer,
    ⟨peerCtx, hfind, hboundary, hroom⟩⟩

/-- After an invitation, and whatever has become of its datagrams: as soon as the inviting side
has had an OK, the two sides agree on the session, and each is understood by the other when it
sends commands. -/
theorem handshake_plays {invited inviting : Daemon} {a b connected : NetState}
    {moment : NetMoment} {foundService : FoundService} {effects later : List NetEffect}
    {calls : List HandshakeCall} {s : Handshake} (hreadyInvited : invited.Ready)
    (hreadyInviting : inviting.Ready) (ha : a.Valid) (hb : b.Valid)
    (hpreparedInvited : TablePrepared a.connections)
    (hpreparedInviting : TablePrepared b.connections)
    (hinvited : NumbersUnused a.connections (moment.random 0) (moment.random 1))
    (hinviting : NumbersUnused b.connections (moment.random 0) (moment.random 1))
    (hresolves : inviting.host.getSockInfo foundService.ipAddress (foundService.port + 1) ≠ none)
    (hconnect : sessionCall inviting.host b (.connect moment foundService) =
      .ok (connected, effects))
    (halong : Along (handshakeCall invited.host inviting.host)
      (fun s call => DrawsDistinct (moment.random 0) s call ∧ Reached invited.host call)
      ⟨a, connected, datagramsSent effects, []⟩ calls)
    (hrun : run (handshakeCall invited.host inviting.host)
      ⟨a, connected, datagramsSent effects, []⟩ calls = .ok (s, later))
    {slot : ℕ} {ctx : NetCtx} (hctx : s.inviting.connections[slot]? = some ctx)
    (htoken : ctx.initiator = moment.random 1)
    (hstatus : ctx.status = .secondInv ∨ ctx.status = .remoteConnection) :
    Agreed s slot ctx ∧ ∃ other peer,
      netCtxFindBySsrc s.invited.connections ctx.sendSsrc = some (other, peer) ∧
      netCtxFindBySsrc s.inviting.connections peer.sendSsrc = some (slot, ctx) ∧
      (inviting.link s.inviting s.invited).Plays (inviting.ends invited slot ctx other) ∧
      (invited.link s.invited s.inviting).Plays (invited.ends inviting other peer slot) := by
  obtain ⟨own, hstart⟩ := connect_inv ha hb hinvited hinviting hconnect
  have hprepared : HandshakePrepared (moment.random 1)
      ⟨a, connected, datagramsSent effects, []⟩ := by
    have hfind := findBySsrc_none fun c hc hused => (hinviting c hc hused).1
    exact ⟨hpreparedInvited.unused hinvited,
      connect_prepared (hpreparedInviting.unused hinviting) hfind hresolves hconnect⟩
  have hstep : ∀ s call t (now : List NetEffect),
      HandshakeInv (moment.random 0) (moment.random 1) own s ∧
        HandshakePrepared (moment.random 1) s →
      DrawsDistinct (moment.random 0) s call ∧ Reached invited.host call →
      handshakeCall invited.host inviting.host s call = .ok (t, now) →
      (HandshakeInv (moment.random 0) (moment.random 1) own t ∧
        HandshakePrepared (moment.random 1) t) ∧ ∀ effect ∈ now, True := by
    intro s call t now ⟨h, hprepared⟩ ⟨hdraws, hreached⟩ hok
    refine ⟨⟨?_, handshake_prepared h hprepared hreached hok⟩, fun _ _ => trivial⟩
    cases call with
    | atInvited delivery => exact atInvited_inv h hdraws hok
    | atInviting delivery => exact atInviting_inv h hok
  obtain ⟨⟨h, hs⟩, -⟩ := run_preserves hstep ⟨hstart, hprepared⟩ halong hrun
  obtain ⟨other, peer, honly, hnamed, hfind, hback⟩ := h.agreed hctx htoken hstatus
  have hused : netCtxIsUsed ctx = true := by
    rcases hstatus with h | h <;> simp [netCtxIsUsed, h]
  have hpeerToken : peer.initiator = moment.random 1 := honly.initiator.trans htoken
  have hforth := hs.inviting.opens invited hreadyInviting h.inviting h.invited hs.invited
    hctx hused htoken hfind hpeerToken
  have hreturn := hs.invited.opens inviting hreadyInvited h.invited h.inviting hs.inviting
    honly.here honly.used hpeerToken hback htoken
  exact ⟨⟨other, peer, honly, hnamed, hfind, hback⟩, other, peer, hfind, hback,
    hforth.plays rfl rfl, hreturn.plays rfl rfl⟩

/-- Two daemons that have just been started: after the first OK both can send. -/
theorem handshake_plays_first : ∃ a connected effects s later localSocket, ∃ slot other : ℕ,
    ∃ ctx peer : NetCtx, netStateStart resolvingHost = some a ∧
    netSocketCreateItem ⟨4096, 0⟩ = some localSocket ∧
    sessionCall resolvingHost a (.connect (drawing 7) ⟨[], [], 5004⟩) = .ok (connected, effects) ∧
    run (handshakeCall resolvingHost resolvingHost) ⟨a, connected, datagramsSent effects, []⟩
      [.atInvited firstDelivery, .atInviting firstDelivery] = .ok (s, later) ∧
    s.inviting.connections[slot]? = some ctx ∧ ctx.status = .secondInv ∧ Agreed s slot ctx ∧
    netCtxFindBySsrc s.invited.connections ctx.sendSsrc = some (other, peer) ∧
    Link.Plays
      ⟨resolvingHost, ⟨false, none⟩, [], slot, ctx.sendSsrc, resolvingHost, other, ctx.ssrc⟩
      ⟨⟨s.inviting, localSocket, []⟩, [], [], s.invited⟩ := by
  obtain ⟨a, connected, effects, s, later, slot, ctx, hstart, hunused, hconnect, hdraws, hrun,
    hhere, htoken, hstatus⟩ := first_round
  obtain ⟨localSocket, hsocket, -, hrep⟩ := createItem_default 4096
  have hvalid := start_valid hstart
  let daemon : Daemon := ⟨resolvingHost, ⟨false, none⟩, [], localSocket, []⟩
  have hready : daemon.Ready := ⟨⟨_, [], _, hrep⟩, by simp [daemon]⟩
  have hprepared : TablePrepared a.connections := by
    have hempty := start_connections hstart
    refine ⟨fun c hc => ?_, fun c hc => ?_, fun c hc => ?_⟩ <;> (rw [hempty] at hc; cases hc)
  have halong : Along (handshakeCall daemon.host daemon.host)
      (fun s call => DrawsDistinct 7 s call ∧ Reached daemon.host call)
      ⟨a, connected, datagramsSent effects, []⟩
      [.atInvited firstDelivery, .atInviting firstDelivery] :=
    ⟨⟨hdraws, by simp [Reached, daemon, resolvingHost]⟩,
      fun _ _ _ => ⟨⟨trivial, trivial⟩, fun _ _ _ => trivial⟩⟩
  obtain ⟨hagreed, other, peer, hfind, -, hplays, -⟩ :=
    handshake_plays hready hready hvalid hvalid hprepared hprepared hunused hunused
      (by simp [daemon, resolvingHost]) hconnect halong hrun hhere htoken (.inl hstatus)
  exact ⟨a, connected, effects, s, later, localSocket, slot, other, ctx, peer, hstart, hsocket,
    hconnect, hrun, hhere, hstatus, hagreed, hfind, hplays⟩

end RaveloxMidi
