import RaveloxMidi.JournalFeedback

/-!
# Inviting a remote service

The side that invites registers a context with the SSRC and the token it has just
drawn, gives it that SSRC as its own too, and sends the first INV to the control
port. From then on the OK responder moves the context forward.
-/
namespace RaveloxMidi
open ByteMemory Transducer

/-- What the discovery has found for the configured service. -/
structure FoundService where
  name : List UInt8
  ipAddress : List UInt8
  port : UInt16

/-- `remote_connect_init` from the service found on. -/
def remoteConnectInit (host : NetHost) (moment : NetMoment) (connections : List NetCtx)
    (foundService : FoundService) : Except Fault (List NetCtx × List NetEffect) := do
  let ssrc := moment.random 0
  let initiator := moment.random 1
  let response ← netResponseInv ssrc initiator (some (host.serviceName.getD defaultClientName))
  match response with
  | none => return (connections, [])
  | some buffer =>
    let registered := netCtxRegister host connections ssrc initiator foundService.ipAddress
      foundService.port (some foundService.name) (moment.random 2) moment.now
    match registered.2 with
    | none => return (registered.1, [])
    | some (slot, ctx) =>
      let ctx := { ctx with sendSsrc := ssrc, status := .firstInv }
      return (registered.1.set slot ctx,
        (netCtxSend ctx buffer true).toList.map fun sent => .command slot sent.1 sent.2)

/-- What the daemon does, with the invitation of a remote service. -/
inductive SessionCall where
  | daemon (call : DaemonCall)
  | connect (moment : NetMoment) (foundService : FoundService)

/-- A datagram is no longer than the socket reads at once. -/
def SessionCall.Fits : SessionCall → Prop
  | .daemon (.read _ d) => d.packet.length ≤ netApplemidiUdpSize
  | _ => True

def sessionCall (host : NetHost) (s : NetState) :
    SessionCall → Except Fault (NetState × List NetEffect)
  | .daemon call => daemonCall host s call
  | .connect moment foundService => do
    let connected ← remoteConnectInit host moment s.connections foundService
    return (⟨connected.1, s.sockets⟩, connected.2)

/-- The only context that is wanted is the one found. -/
theorem find_of_unique {wanted : NetCtx → Bool} {connections : List NetCtx} {slot : ℕ}
    {ctx : NetCtx} (hctx : connections[slot]? = some ctx) (hwanted : wanted ctx = true)
    (hothers : ∀ other ≠ slot, ∀ c, connections[other]? = some c → wanted c = false) :
    netCtxFind wanted connections = some (slot, ctx) :=
  find_iff.mpr ⟨hctx, hwanted, fun other hother => hothers other (Nat.ne_of_lt hother)⟩

theorem findBySsrc_of_unique {connections : List NetCtx} {slot : ℕ} {ctx : NetCtx}
    (hctx : connections[slot]? = some ctx) (hused : netCtxIsUsed ctx = true)
    (hothers : ∀ other ≠ slot, ∀ c, connections[other]? = some c → netCtxIsUsed c = true →
      c.ssrc ≠ ctx.ssrc) : netCtxFindBySsrc connections ctx.ssrc = some (slot, ctx) := by
  refine find_of_unique hctx (by simp [hused]) fun other hother c hc => ?_
  by_cases hin : netCtxIsUsed c = true
  · simp [hin, hothers other hother c hc hin]
  · simp [hin]

/-- A registration gives back the context that is in its slot. -/
theorem register_slot {host : NetHost} {connections t : List NetCtx} {ssrc initiator : UInt32}
    {ipAddress : List UInt8} {port : UInt16} {name : Option (List UInt8)} {random : UInt32}
    {now : UInt64} {slot : ℕ} {ctx : NetCtx}
    (h : netCtxRegister host connections ssrc initiator ipAddress port name random now =
      (t, some (slot, ctx))) : t[slot]? = some ctx ∧ netCtxIsUsed ctx = true := by
  unfold netCtxRegister at h
  cases hfind : netCtxFindBySsrc connections ssrc with
  | some found =>
    rw [hfind] at h
    cases h
    obtain ⟨hslot, hwanted⟩ := find_some hfind
    exact ⟨hslot, (Bool.and_eq_true_iff.mp hwanted).1⟩
  | none =>
    cases hunused : netCtxFindUnused connections with
    | some free =>
      rw [hfind, hunused] at h
      cases h
      have hlt := (List.getElem?_eq_some_iff.mp (find_some hunused).1).1
      exact ⟨List.getElem?_set_self hlt, rfl⟩
    | none =>
      cases hcreate : netCtxCreate host with
      | none =>
        rw [hfind, hunused, hcreate] at h
        cases h
      | some created =>
        rw [hfind, hunused, hcreate] at h
        cases h
        exact ⟨by simp, rfl⟩

/-- The invitation is made of a registration and a change of the context registered. -/
theorem connect_changes {host : NetHost} {moment : NetMoment} {connections t : List NetCtx}
    {foundService : FoundService} {effects : List NetEffect}
    (hok : remoteConnectInit host moment connections foundService = .ok (t, effects)) :
    ∃ u, NetTableChange host ⟨fun _ => False, fun _ => False⟩ connections u ∧
      (t = u ∨ ∃ slot ctx, u[slot]? = some ctx ∧
        t = u.set slot { ctx with sendSsrc := moment.random 0, status := .firstInv }) := by
  obtain ⟨response, -, hok⟩ := bind_ok hok
  cases response with
  | none =>
    cases hok
    exact ⟨_, .same, .inl rfl⟩
  | some buffer =>
    refine ⟨_, register_changes (moment.random 0) (moment.random 1) foundService.ipAddress
      foundService.port (some foundService.name) (moment.random 2) moment.now, ?_⟩
    dsimp only at hok
    split at hok
    · cases hok
      exact .inl rfl
    · next slot ctx hregistered =>
      cases hok
      exact .inr ⟨slot, ctx, (register_slot (Prod.ext rfl hregistered)).1, rfl⟩

/-- With an SSRC that is not in use, the invitation is one new context and one INV. -/
theorem connect_fresh (host : NetHost) (moment : NetMoment) {connections : List NetCtx}
    (foundService : FoundService)
    (hfind : netCtxFindBySsrc connections (moment.random 0) = none) :
    ∃ t slot ctx octets, remoteConnectInit host moment connections foundService =
        .ok (t, (netCtxSend ctx octets true).toList.map fun sent =>
          .command slot sent.1 sent.2) ∧
      Registered connections t slot ctx ∧ ctx.status = .firstInv ∧
      ctx.sendSsrc = moment.random 0 ∧ ctx.initiator = moment.random 1 ∧
      ctx.ssrc = moment.random 0 ∧
      ctx.controlAddress = host.getSockInfo foundService.ipAddress foundService.port ∧
      ctx.dataAddress = host.getSockInfo foundService.ipAddress (foundService.port + 1) ∧
      InvPacket netApplemidiCmdInv (moment.random 0) (moment.random 1) octets := by
  obtain ⟨t, slot, ctx, hregister, ⟨hhere, hothers, hfree⟩, hnew, hcontrol, hdata⟩ :=
    register_fresh host hfind (moment.random 1) foundService.ipAddress foundService.port
      (some foundService.name) (moment.random 2) moment.now
  obtain ⟨octets, hpack, hpacket⟩ := responseInv_ok (moment.random 0) (moment.random 1)
    (some (host.serviceName.getD defaultClientName))
  have hlt := (List.getElem?_eq_some_iff.mp hhere).1
  refine ⟨t.set slot { ctx with sendSsrc := moment.random 0, status := .firstInv }, slot,
    { ctx with sendSsrc := moment.random 0, status := .firstInv }, octets, ?_,
    ⟨List.getElem?_set_self hlt, fun other hother => ?_, hfree⟩, rfl, rfl, hnew.initiator,
    hnew.ssrc, hcontrol, hdata, hpacket⟩
  · simp only [remoteConnectInit, hpack, hregister, bind, Except.bind, pure, Except.pure]
  · rw [List.getElem?_set_ne (Ne.symm hother), hothers other hother]

/-- All that goes out is the INV. -/
theorem connect_commands {host : NetHost} {moment : NetMoment} {connections t : List NetCtx}
    {foundService : FoundService} {effects : List NetEffect}
    (hok : remoteConnectInit host moment connections foundService = .ok (t, effects)) :
    ∀ effect ∈ effects, ∃ slot address octets, effect = .command slot address octets := by
  obtain ⟨response, -, hok⟩ := bind_ok hok
  cases response with
  | none =>
    cases hok
    simp
  | some buffer =>
    dsimp only at hok
    split at hok
    · cases hok
      simp
    · next slot ctx hregistered =>
      cases hok
      intro effect heffect
      obtain ⟨sent, -, rfl⟩ := List.mem_map.mp heffect
      exact ⟨slot, sent.1, sent.2, rfl⟩

section Calls
variable {host : NetHost} {s t : NetState} {effects : List NetEffect}

theorem connect_call {moment : NetMoment} {foundService : FoundService}
    (hok : sessionCall host s (.connect moment foundService) = .ok (t, effects)) :
    ∃ u, NetTableChange host ⟨fun _ => False, fun _ => False⟩ s.connections u ∧
      (t.connections = u ∨ ∃ slot ctx, u[slot]? = some ctx ∧ t.connections =
        u.set slot { ctx with sendSsrc := moment.random 0, status := .firstInv }) := by
  obtain ⟨connected, hconnected, hok⟩ := bind_ok hok
  cases hok
  exact connect_changes hconnected

/-- Every context after a send is a context before it that has been served. -/
theorem send_served {clock : ℕ → UInt64} {command : MidiCommand} {originator : UInt32}
    (hok : sessionCall host s (.daemon (.send clock command originator)) = .ok (t, effects))
    {ctx' : NetCtx} (hctx' : ctx' ∈ t.connections) :
    ∃ slot ctx, s.connections[slot]? = some ctx ∧
      Served originator ctx ctx' (packetsTo slot effects) := by
  obtain ⟨sent, hsent, hok⟩ := bind_ok hok
  cases hok
  obtain ⟨hlength, hspec⟩ := sendSingle_spec hsent
  obtain ⟨slot, hslot⟩ := List.getElem?_of_mem hctx'
  have hlt : slot < s.connections.length := by
    rw [← hlength]
    exact (List.getElem?_eq_some_iff.mp hslot).1
  obtain ⟨next, hnext, hserved⟩ := hspec slot _ (List.getElem?_eq_getElem hlt)
  cases hslot.symm.trans hnext
  exact ⟨slot, _, List.getElem?_eq_getElem hlt, hserved⟩

/-- Between two calls the daemon is in the same shape again. -/
theorem call_valid {call : SessionCall} (h : s.Valid) (hfits : call.Fits)
    (hok : sessionCall host s call = .ok (t, effects)) : t.Valid := by
  cases call with
  | daemon call =>
    cases call with
    | read moment d => exact read_valid h hfits hok
    | send clock command originator =>
      refine ⟨?_, fun ctx' hctx' => ?_⟩
      · obtain ⟨sent, -, hok⟩ := bind_ok hok
        cases hok
        exact h.sockets
      · obtain ⟨slot, ctx, hctx, hserved⟩ := send_served hok hctx'
        rw [hserved.same.midiState]
        exact h.parsers ctx (List.mem_of_getElem? hctx)
  | connect moment foundService =>
    refine ⟨?_, ?_⟩
    · obtain ⟨connected, -, hok⟩ := bind_ok hok
      cases hok
      exact h.sockets
    · obtain ⟨u, hchange, hset⟩ := connect_call hok
      have hparsers := hchange.parsers_valid h.parsers
      obtain hsame | ⟨slot, ctx, hslot, hset⟩ := hset
      · exact hsame ▸ hparsers
      · intro other hother
        rw [hset] at hother
        rcases List.mem_or_eq_of_mem_set hother with hold | rfl
        · exact hparsers other hold
        · exact hparsers ctx (List.mem_of_getElem? hslot)

end Calls

section Handshake
variable {s : NetState} (h : s.Valid) (host : NetHost) (moment : NetMoment) {d : Datagram}
  {ssrc initiator : UInt32} (hmax : d.packet.length ≤ netApplemidiUdpSize)
include h hmax

/-- An INV for a connection there is is answered with an OK. -/
theorem read_known (hpacket : InvPacket netApplemidiCmdInv ssrc initiator d.packet) {slot : ℕ}
    {ctx : NetCtx} (hfind : netCtxFindBySsrc s.connections ssrc = some (slot, ctx)) :
    ∃ sockets octets, netSocketRead host moment s d =
        .ok (⟨s.connections, sockets⟩, [.reply octets]) ∧
      InvPacket netApplemidiCmdAccept ctx.sendSsrc ctx.initiator octets := by
  obtain ⟨sockets, version, name, hread⟩ :=
    read_invPacket h host moment hpacket (by decide) hmax
  obtain ⟨octets, haccept, hok⟩ := accept_ok host ctx
  refine ⟨sockets, octets, ?_, hok⟩
  rw [hread, dispatch_inv]
  simp only [applemidiInvResponder, applemidiInvContext, hfind, haccept, bind, Except.bind, pure,
    Except.pure, Except.map]
  rfl

/-- An INV with an SSRC that is not in use registers it first. -/
theorem read_unknown (hpacket : InvPacket netApplemidiCmdInv ssrc initiator d.packet)
    (hfind : netCtxFindBySsrc s.connections ssrc = none) :
    ∃ t slot ctx sockets octets, netSocketRead host moment s d =
        .ok (⟨t, sockets⟩, [.reply octets]) ∧
      Registered s.connections t slot ctx ∧ NewSession ctx ssrc initiator (moment.random 0) ∧
      InvPacket netApplemidiCmdAccept ctx.sendSsrc ctx.initiator octets := by
  obtain ⟨sockets, version, name, hread⟩ :=
    read_invPacket h host moment hpacket (by decide) hmax
  obtain ⟨t, slot, ctx, hregister, hregistered, hnew, -, -⟩ :=
    register_fresh host hfind initiator d.ipAddress d.port name (moment.random 0) moment.now
  obtain ⟨octets, haccept, hok⟩ := accept_ok host ctx
  refine ⟨t, slot, ctx, sockets, octets, ?_, hregistered, hnew, hok⟩
  rw [hread, dispatch_inv]
  simp only [applemidiInvResponder, applemidiInvContext, hfind, hregister, haccept, bind,
    Except.bind, pure, Except.pure, Except.map]
  rfl

/-- An OK moves the context with its token forward. -/
theorem read_accept (hpacket : InvPacket netApplemidiCmdAccept ssrc initiator d.packet) {slot : ℕ}
    {ctx : NetCtx} (hfind : netCtxFindByInitiator s.connections initiator = some (slot, ctx)) :
    ∃ sockets okPacket, okPacket.ssrc = ssrc ∧ netSocketRead host moment s d =
      (applemidiOkAdvance host moment slot ctx okPacket).map fun advanced =>
        (⟨s.connections.set slot advanced.1, sockets⟩, advanced.2) := by
  obtain ⟨sockets, version, name, hread⟩ :=
    read_invPacket h host moment hpacket (by decide) hmax
  refine ⟨sockets, ⟨ssrc, version, initiator, name⟩, rfl, ?_⟩
  rw [hread, dispatch_accept]
  simp only [applemidiOkResponder, hfind, bind, Except.bind]
  cases applemidiOkAdvance host moment slot ctx ⟨ssrc, version, initiator, name⟩ <;> rfl

end Handshake

end RaveloxMidi
