import Mathlib.Data.Fintype.EquivFin
import RaveloxMidi.ReadContext
import RaveloxMidi.Relaying
import RaveloxMidi.SessionLink

/-!
# Daemons that relay to each other

A daemon sends each command that it queues to all of its connections but the one that
the command came from, so a command goes on from daemon to daemon. Each daemon of a mesh
runs its reader and its sender, the network delays, reorders and loses packets, and each
daemon reads whatever else there is. The mesh follows the relaying over its graph of
sessions, step by step.
-/
namespace RaveloxMidi
open ByteMemory Transducer SlotTable Relaying

/-- Status and data of a command. -/
abbrev Content := UInt8 × List UInt8

/-- Some daemons and the sessions between them: the SSRC that one sends to the other under,
and the slot in which it has it. -/
structure Mesh (V : Type) where
  peers : V → List V
  ssrc : V → V → UInt32
  slot : V → V → ℕ
  host : V → NetHost
  alsa : V → AlsaConfig
  outputs : V → List SndRawmidi
  nodup : ∀ v, (peers v).Nodup
  back : ∀ v w, w ∈ peers v → v ∈ peers w
  other : ∀ v, v ∉ peers v
  apart : ∀ v, ∀ w ∈ peers v, ∀ u ∈ peers v, ssrc w v = ssrc u v → w = u
  nonzero : ∀ v, ∀ w ∈ peers v, ssrc w v ≠ 0

def Mesh.graph {V : Type} (mesh : Mesh V) : SimpleGraph V where
  Adj v w := w ∈ mesh.peers v
  symm := ⟨fun v w h => mesh.back v w h⟩
  loopless := ⟨fun v h => mesh.other v h⟩

structure MeshNode where
  daemon : SocketState
  waiting : List (MidiCommand × MidiSenderContext)

/-- The octets of a packet, with what they were sent for. -/
structure MeshPacket (V : Type) where
  sender : V
  receiver : V
  content : Content
  octets : List UInt8

structure MeshState (V : Type) where
  nodes : V → MeshNode
  packets : List (MeshPacket V)

inductive MeshMove (V : Type) where
  | read (v : V) (read : SocketRead)
  | send (v : V) (clock : ℕ → UInt64)
  | arrive (n : ℕ) (moment : NetMoment) (d : Datagram)
  | lose (n : ℕ)

section Definitions
variable {V : Type} [DecidableEq V]

/-- The packets that a send has for the neighbours. -/
def Mesh.sentBy (mesh : Mesh V) (v : V) (content : Content) (effects : List NetEffect) :
    List (MeshPacket V) :=
  (mesh.peers v).flatMap fun w =>
    (packetsTo (mesh.slot v w) effects).map fun octets => ⟨v, w, content, octets⟩

/-- One step of one of the daemons, or a loss. A packet arrives at the data port. -/
def meshStep (mesh : Mesh V) (s : MeshState V) :
    MeshMove V → Except Fault (MeshState V × List (Event V Content))
  | .read v read => do
    let done ← socketRead (mesh.host v) (s.nodes v).daemon read
    let items := done.2.filterMap SocketEffect.queued
    return (⟨Function.update s.nodes v ⟨done.1, (s.nodes v).waiting ++ items⟩, s.packets⟩,
      items.map fun item => .entered v item.1.content)
  | .send v clock =>
    match (s.nodes v).waiting with
    | [] => .ok (s, [])
    | (command, context) :: waiting => do
      let sent ← midiSenderHandler (mesh.host v) clock (mesh.alsa v) (mesh.outputs v)
        (s.nodes v).daemon.net.connections command (some (some context))
      return (⟨Function.update s.nodes v
          ⟨{ (s.nodes v).daemon with net.connections := sent.1 }, waiting⟩,
        s.packets ++ mesh.sentBy v command.content sent.2.1⟩, [])
  | .arrive n moment d =>
    match s.packets[n]? with
    | none => .ok (s, [])
    | some packet => do
      let node := s.nodes packet.receiver
      let done ← socketRead (mesh.host packet.receiver) node.daemon
        (.net moment { d with packet := packet.octets })
      let items := done.2.filterMap SocketEffect.queued
      return (⟨Function.update s.nodes packet.receiver ⟨done.1, node.waiting ++ items⟩,
          s.packets.eraseIdx n⟩,
        items.map fun item => .passed packet.receiver item.1.content)
  | .lose n =>
    match s.packets[n]? with
    | none => .ok (s, [])
    | some packet =>
      .ok (⟨s.nodes, s.packets.eraseIdx n⟩, [.lost packet.sender packet.receiver packet.content])

/-- The neighbour that an SSRC is the one of. -/
def Mesh.origin (mesh : Mesh V) (v : V) (ssrc : UInt32) : Option V :=
  (mesh.peers v).find? fun w => mesh.ssrc w v == ssrc

/-- A command that waits, as what the relaying knows of it. -/
def Mesh.item (mesh : Mesh V) (v : V) (item : MidiCommand × MidiSenderContext) :
    Option V × Content :=
  (mesh.origin v item.2.ssrc, item.1.content)

def MeshPacket.flight (packet : MeshPacket V) : V × V × Content :=
  (packet.sender, packet.receiver, packet.content)

/-- The relaying that the mesh does. -/
def MeshState.relaying (mesh : Mesh V) (s : MeshState V) : Net V Content :=
  ⟨fun v => (s.nodes v).waiting.map (mesh.item v), s.packets.map MeshPacket.flight⟩

end Definitions

/-- A session in a table: the slot in which the other side is found, with what it takes to send
to it and to hear from it. -/
def SessionAt (ssrc sendSsrc : UInt32) (slot : ℕ) (connections : List NetCtx) : Prop :=
  ∃ ctx, netCtxFindBySsrc connections ssrc = some (slot, ctx) ∧ ctx.sendSsrc = sendSsrc ∧
    ctx.dataAddress ≠ none ∧ ctx.midiState.AtBoundary ∧ 3 ≤ ctx.midiState.ring.size

theorem findBySsrc_kept {connections t : List NetCtx} (hslots : slotsOf t = slotsOf connections)
    {ssrc : UInt32} {slot : ℕ} {ctx : NetCtx}
    (hfind : netCtxFindBySsrc connections ssrc = some (slot, ctx)) :
    ∃ ctx', netCtxFindBySsrc t ssrc = some (slot, ctx') := by
  rw [findBySsrc_firstAt, hslots]
  exact findBySsrc_firstAt.mp ⟨ctx, hfind⟩

section Sessions
variable {host : NetHost} {connections t : List NetCtx} {ssrc sendSsrc : UInt32} {slot : ℕ}

/-- A datagram of another session leaves a session as it is. -/
theorem SessionAt.read {s u : NetState} (h : SessionAt ssrc sendSsrc slot s.connections)
    (hs : s.Valid) {moment : NetMoment} {d : Datagram}
    (hmax : d.packet.length ≤ netApplemidiUdpSize) {effects : List NetEffect}
    (hread : netSocketRead host moment s d = .ok (u, effects))
    (hspares : (datagramOp s.connections d).Spares slot ssrc)
    (helsewhere : Elsewhere ssrc d.packet) : SessionAt ssrc sendSsrc slot u.connections := by
  obtain ⟨ctx, hfind, hssrc, haddress, hboundary, hroom⟩ := h
  obtain ⟨hctx, hwanted⟩ := find_some hfind
  obtain ⟨hused, hown⟩ := Bool.and_eq_true_iff.mp hwanted
  have hfirst := (findBySsrc_firstAt.mp ⟨ctx, hfind⟩).apply hspares
  rw [← read_slots hs hmax hread] at hfirst
  obtain ⟨ctx', hfind'⟩ := findBySsrc_firstAt.mpr hfirst
  obtain ⟨hctx', hwanted'⟩ := find_some hfind'
  have hused' := (Bool.and_eq_true_iff.mp hwanted').1
  obtain ⟨hsame, haddress'⟩ := change_addressed (read_changes hread) hctx hused hctx' hused'
  have hparser := read_keeps hs hmax hread hctx hused (beq_iff_eq.mp hown ▸ helsewhere) hctx' hused'
  exact ⟨ctx', hfind', hsame.trans hssrc, haddress' ▸ haddress, hparser ▸ hboundary,
    hparser ▸ hroom⟩

/-- What is sent leaves every session as it is. -/
theorem SessionAt.sent {s : NetState} (h : SessionAt ssrc sendSsrc slot s.connections)
    {clock : ℕ → UInt64} {command : MidiCommand} {originator : UInt32} {effects : List NetEffect}
    (hok : midiSenderSendSingle host clock s.connections command originator = .ok (t, effects)) :
    SessionAt ssrc sendSsrc slot t := by
  obtain ⟨ctx, hfind, hssrc, haddress, hboundary, hroom⟩ := h
  have hcall : sessionCall host s (.daemon (.send clock command originator)) =
      .ok (⟨t, s.sockets⟩, effects) := by
    simp only [sessionCall, daemonCall, hok, bind, Except.bind, pure, Except.pure]
  obtain ⟨ctx', hfind'⟩ := findBySsrc_kept (send_slots hcall) hfind
  obtain ⟨served, hserved, hspec⟩ := (sendSingle_spec hok).2 slot ctx (find_some hfind).1
  cases hserved.symm.trans (find_some hfind').1
  exact ⟨ctx', hfind', hspec.same.sendSsrc.trans hssrc, hspec.same.dataAddress ▸ haddress,
    hspec.same.midiState ▸ hboundary, hspec.same.midiState ▸ hroom⟩

/-- A parser that is between two commands again can be put back into its slot. -/
theorem SessionAt.set (h : SessionAt ssrc sendSsrc slot connections) {changed : ℕ} {old : NetCtx}
    (hold : connections[changed]? = some old) {state : MidiState} (hstate : state.AtBoundary)
    (hsize : state.ring.size = old.midiState.ring.size) :
    SessionAt ssrc sendSsrc slot (connections.set changed { old with midiState := state }) := by
  obtain ⟨ctx, hfind, hssrc, haddress, hboundary, hroom⟩ := h
  have hslots : slotsOf (connections.set changed { old with midiState := state }) =
      slotsOf connections := slots_set_same hold rfl
  obtain ⟨ctx', hfind'⟩ := findBySsrc_kept hslots hfind
  have hctx := (find_some hfind).1
  have hctx' := (find_some hfind').1
  by_cases hsame : changed = slot
  · subst hsame
    rw [List.getElem?_set_self (List.getElem?_eq_some_iff.mp hold).1] at hctx'
    cases hold.symm.trans hctx
    cases hctx'
    exact ⟨_, hfind', hssrc, haddress, hstate, hsize ▸ hroom⟩
  · rw [List.getElem?_set_ne hsame] at hctx'
    cases hctx.symm.trans hctx'
    exact ⟨ctx, hfind', hssrc, haddress, hboundary, hroom⟩

end Sessions

section Originators
variable {host : NetHost}

theorem mem_queued {effects : List SocketEffect} {item : MidiCommand × MidiSenderContext} :
    item ∈ effects.filterMap SocketEffect.queued ↔ .queue item.1 item.2 ∈ effects := by
  rw [List.mem_filterMap]
  constructor
  · rintro ⟨effect, hmem, hqueued⟩
    cases effect with
    | queue command context =>
      cases hqueued
      exact hmem
    | _ => cases hqueued
  · exact fun hmem => ⟨_, hmem, rfl⟩

theorem deliver_originator {connections t : List NetCtx} {slot : ℕ} {ctx : NetCtx}
    {header : RtpPacketHeader} {payload : Option MidiPayload} {effects : List NetEffect}
    (hok : netSocketDeliver connections slot ctx header payload = .ok (t, effects))
    {command : MidiCommand} {originator : UInt32} (hmem : .queue command originator ∈ effects) :
    originator = header.ssrc := by
  cases payload with
  | none => cases hok
  | some payload =>
    obtain ⟨written, -, hok⟩ := bind_ok hok
    obtain ⟨response, -, hok⟩ := bind_ok hok
    obtain ⟨sent, -, hok⟩ := bind_ok hok
    cases hok
    rcases List.mem_append.mp hmem with hreply | hqueue
    · cases response <;> simp [netReply] at hreply
    · obtain ⟨_, -, heq⟩ := List.mem_map.mp hqueue
      cases heq
      rfl

/-- A command from the network is queued with the SSRC in its packet. -/
theorem netRead_originator {s u : NetState} (h : s.Valid) {moment : NetMoment} {d : Datagram}
    (hmax : d.packet.length ≤ netApplemidiUdpSize) {effects : List NetEffect}
    (hok : netSocketRead host moment s d = .ok (u, effects)) {command : MidiCommand}
    {originator : UInt32} (hmem : .queue command originator ∈ effects) :
    ¬ IsApplemidi d.packet ∧ originator = (readRtpPacket d.packet).header.ssrc := by
  by_cases hpos : 0 < d.packet.length
  · obtain ⟨state, p, size, -, -, hread⟩ := read_eq h host moment hpos hmax
    rw [hread] at hok
    obtain ⟨handled, hhandled, heq⟩ := map_ok hok
    cases heq
    by_cases hclass : IsApplemidi d.packet
    · rw [if_pos hclass] at hhandled
      have hqueued : (command, originator) ∈ netQueued handled.2 :=
        List.mem_filterMap.mpr ⟨_, hmem, rfl⟩
      rw [applemidi_queued hhandled] at hqueued
      cases hqueued
    · rw [if_neg hclass] at hhandled
      by_cases hlong : 12 ≤ d.packet.length
      · rw [rtp_eq _ _ hlong (hmax.trans (by decide))] at hhandled
        split_ifs at hhandled
        · cases hhandled
          cases hmem
        · split at hhandled
          · cases hhandled
            cases hmem
          · exact ⟨hclass, deliver_originator hhandled hmem⟩
      · cases (rtp_short (not_le.mp hlong)).symm.trans hhandled
  · rw [netSocketRead, if_pos (by omega)] at hok
    cases hok
    cases hmem

/-- Where a queued command came from: an RTP packet, or not from the network. -/
theorem queued_originator {s t : SocketState} (h : s.Ready) {read : SocketRead}
    {effects : List SocketEffect} (hok : socketRead host s read = .ok (t, effects))
    {command : MidiCommand} {context : MidiSenderContext}
    (hqueued : .queue command context ∈ effects) :
    context.ssrc = 0 ∨ ∃ moment d, read = .net moment d ∧ ¬ IsApplemidi d.received.packet ∧
      context.ssrc = (readRtpPacket d.received.packet).header.ssrc := by
  cases read_origin h hok hqueued with
  | @net moment d _ _ originator hread hmem =>
    obtain ⟨hrtp, hssrc⟩ := netRead_originator h.net d.received_length hread hmem
    exact .inr ⟨moment, d, rfl, hrtp, hssrc⟩
  | localPort | input => exact .inl rfl

end Originators

section Origin
variable {V : Type} {mesh : Mesh V} {v w : V} {ssrc : UInt32}

theorem origin_none (h : ∀ w ∈ mesh.peers v, mesh.ssrc w v ≠ ssrc) : mesh.origin v ssrc = none := by
  rw [Mesh.origin, List.find?_eq_none]
  intro w hw
  simpa using h w hw

theorem origin_iff (hw : w ∈ mesh.peers v) :
    mesh.origin v ssrc = some w ↔ mesh.ssrc w v = ssrc := by
  constructor
  · intro h
    simpa using List.find?_some h
  · rintro rfl
    cases horigin : mesh.origin v (mesh.ssrc w v) with
    | none =>
      rw [Mesh.origin, List.find?_eq_none] at horigin
      exact absurd (beq_self_eq_true _) (horigin w hw)
    | some u =>
      have hsame : mesh.ssrc u v = mesh.ssrc w v := by simpa using List.find?_some horigin
      rw [mesh.apart v u (List.mem_of_find?_eq_some horigin) w hw hsame]

end Origin

section Steps
variable {V : Type} [DecidableEq V] {mesh : Mesh V}

/-- A daemon with its sessions up, whose queue holds short commands. -/
structure MeshNode.Open (mesh : Mesh V) (v : V) (node : MeshNode) : Prop where
  ready : node.daemon.Ready
  journals : JournalsValid node.daemon.net.connections
  sessions : ∀ w ∈ mesh.peers v,
    SessionAt (mesh.ssrc w v) (mesh.ssrc v w) (mesh.slot v w) node.daemon.net.connections
  short : ∀ item ∈ node.waiting, ShortCommand item.1

/-- A packet that was sent for a command to a neighbour. -/
def MeshPacket.Genuine (mesh : Mesh V) (packet : MeshPacket V) : Prop :=
  packet.receiver ∈ mesh.peers packet.sender ∧ ∃ command, ShortCommand command ∧
    command.content = packet.content ∧
    Bears (mesh.ssrc packet.sender packet.receiver) command packet.octets

structure MeshState.Open (mesh : Mesh V) (s : MeshState V) : Prop where
  nodes : ∀ v, (s.nodes v).Open mesh v
  packets : ∀ packet ∈ s.packets, packet.Genuine mesh

/-- A read that goes through, and is about none of the sessions of the mesh. -/
def Mesh.Apart (mesh : Mesh V) (v : V) (s : SocketState) : SocketRead → Prop
  | .net _ d => d.Complete s.net.connections ∧ ∀ w ∈ mesh.peers v,
    (datagramOp s.net.connections d.received).Spares (mesh.slot v w) (mesh.ssrc w v) ∧
      Elsewhere (mesh.ssrc w v) d.received.packet
  | _ => True

/-- Nothing else that is read is about a session of the mesh, and it brings in short commands
only. -/
def MeshUndisturbed (mesh : Mesh V) (s : MeshState V) : MeshMove V → Prop
  | .read v read => mesh.Apart v (s.nodes v).daemon read ∧ ∀ t effects,
    socketRead (mesh.host v) (s.nodes v).daemon read = .ok (t, effects) →
      ∀ item ∈ effects.filterMap SocketEffect.queued, ShortCommand item.1
  | _ => True

/-- A step goes through, and is a step of the relaying. -/
def MeshState.Follows (mesh : Mesh V) (s : MeshState V) (move : MeshMove V) : Prop :=
  ∃ t now relayed, meshStep mesh s move = .ok (t, now) ∧ t.Open mesh ∧
    Relaying.step mesh.peers (s.relaying mesh) relayed = (t.relaying mesh, now)

theorem relaying_update (s : MeshState V) (v : V) (node : MeshNode)
    (packets : List (MeshPacket V)) :
    MeshState.relaying mesh ⟨Function.update s.nodes v node, packets⟩ =
      ⟨Function.update (s.relaying mesh).waiting v (node.waiting.map (mesh.item v)),
        packets.map MeshPacket.flight⟩ := by
  rw [MeshState.relaying]
  congr 1
  funext w
  by_cases hw : w = v
  · subst hw
    simp
  · simp [Function.update_of_ne hw, MeshState.relaying]

theorem MeshState.Open.update {s : MeshState V} (h : s.Open mesh) {v : V} {node : MeshNode}
    (hnode : node.Open mesh v) {packets : List (MeshPacket V)}
    (hpackets : ∀ packet ∈ packets, packet.Genuine mesh) :
    MeshState.Open mesh ⟨Function.update s.nodes v node, packets⟩ := by
  refine ⟨fun w => ?_, hpackets⟩
  dsimp only
  by_cases hw : w = v
  · subst hw
    rw [Function.update_self]
    exact hnode
  · rw [Function.update_of_ne hw]
    exact h.nodes w

omit [DecidableEq V] in
/-- A read is not about the mesh, so what it brings in comes from no neighbour. -/
theorem Mesh.Apart.origin {v : V} {s t : SocketState} (hs : s.Ready) {read : SocketRead}
    (hread : mesh.Apart v s read) {effects : List SocketEffect}
    (hok : socketRead (mesh.host v) s read = .ok (t, effects))
    {item : MidiCommand × MidiSenderContext}
    (hitem : item ∈ effects.filterMap SocketEffect.queued) :
    mesh.origin v item.2.ssrc = none := by
  refine origin_none fun w hw hsame => ?_
  rcases queued_originator hs hok (mem_queued.mp hitem) with hlocal | ⟨moment, d, rfl, hrtp, hssrc⟩
  · exact mesh.nonzero v w hw (hsame.trans hlocal)
  · exact (hread.2 w hw).2 hrtp (hssrc.symm.trans hsame.symm)

omit [DecidableEq V] in
theorem Mesh.Apart.open {v : V} {node : MeshNode} (h : node.Open mesh v) {read : SocketRead}
    (hread : mesh.Apart v node.daemon read) {t : SocketState} {effects : List SocketEffect}
    (hok : socketRead (mesh.host v) node.daemon read = .ok (t, effects))
    (hshort : ∀ item ∈ effects.filterMap SocketEffect.queued, ShortCommand item.1) :
    MeshNode.Open mesh v ⟨t, node.waiting ++ effects.filterMap SocketEffect.queued⟩ := by
  have hwaiting : ∀ item ∈ node.waiting ++ effects.filterMap SocketEffect.queued,
      ShortCommand item.1 := by
    intro item hitem
    rcases List.mem_append.mp hitem with hold | hnew
    · exact h.short item hold
    · exact hshort item hnew
  have hready := read_ready h.ready hok
  cases socketRead_changes hok with
  | net hnet =>
    exact ⟨hready, (read_changes hnet).journals_valid h.journals, fun w hw =>
      (h.sessions w hw).read h.ready.net (Datagram.received_length _) hnet (hread.2 w hw).1
        (hread.2 w hw).2, hwaiting⟩
  | localPort | unknown | input => exact ⟨hready, h.journals, h.sessions, hwaiting⟩

theorem read_follows {s : MeshState V} (h : s.Open mesh) {v : V} {read : SocketRead}
    (hmove : MeshUndisturbed mesh s (.read v read)) : s.Follows mesh (.read v read) := by
  obtain ⟨hapart, hshort⟩ := hmove
  have hnode := h.nodes v
  have hcomplete : read.Complete (s.nodes v).daemon := by
    cases read with
    | net moment d => exact hapart.1
    | localPort listing packet => trivial
    | input index packet => trivial
  obtain ⟨t, effects, hok⟩ := hnode.ready.read (mesh.host v) hcomplete
  have hopen := hapart.open hnode hok (hshort t effects hok)
  have horigin : ∀ item ∈ effects.filterMap SocketEffect.queued,
      mesh.item v item = (none, item.1.content) := fun item hitem => by
    rw [Mesh.item, hapart.origin hnode.ready hok hitem]
  obtain ⟨items, hitems⟩ : ∃ items, items = effects.filterMap SocketEffect.queued := ⟨_, rfl⟩
  rw [← hitems] at hopen horigin
  refine ⟨⟨Function.update s.nodes v ⟨t, (s.nodes v).waiting ++ items⟩, s.packets⟩,
    items.map fun item => .entered v item.1.content,
    .enter v (items.map fun item => item.1.content), ?_, h.update hopen h.packets, ?_⟩
  · simp only [meshStep, hok, ← hitems, bind, Except.bind, pure, Except.pure]
  · have hnone : (items.map fun item => item.1.content).map (fun m => ((none : Option V), m)) =
        items.map (mesh.item v) := by
      rw [List.map_map]
      exact List.map_congr_left fun item hitem => (horigin item hitem).symm
    simp only [Relaying.step, hnone, relaying_update, List.map_append, List.map_map]
    rfl

/-- What is sent for a command goes to the neighbours that the relaying hands it to. -/
theorem sentBy_flights {v : V} {content : Content} {effects : List NetEffect} {origin : Option V}
    (hsent : ∀ w ∈ mesh.peers v,
      (packetsTo (mesh.slot v w) effects).length = if origin = some w then 0 else 1) :
    (mesh.sentBy v content effects).map MeshPacket.flight =
      forwards mesh.peers v (origin, content) := by
  rw [Mesh.sentBy, forwards]
  generalize mesh.peers v = peers at hsent
  induction peers with
  | nil => rfl
  | cons w rest ih =>
    have hrest := ih fun u hu => hsent u (List.mem_cons_of_mem _ hu)
    have hnow := hsent w List.mem_cons_self
    rw [List.flatMap_cons, List.map_append, hrest]
    by_cases horigin : origin = some w
    · rw [if_pos horigin] at hnow
      rw [List.length_eq_zero_iff.mp hnow, List.filter_cons_of_neg (by simpa using horigin)]
      rfl
    · rw [if_neg horigin] at hnow
      obtain ⟨packet, hpacket⟩ := List.length_eq_one_iff.mp hnow
      rw [hpacket, List.filter_cons_of_pos (by simpa using horigin)]
      rfl

omit [DecidableEq V] in
theorem mem_sentBy {v : V} {content : Content} {effects : List NetEffect} {packet : MeshPacket V}
    (h : packet ∈ mesh.sentBy v content effects) : packet.sender = v ∧ packet.content = content ∧
      packet.receiver ∈ mesh.peers v ∧
      packet.octets ∈ packetsTo (mesh.slot v packet.receiver) effects := by
  obtain ⟨w, hw, hmem⟩ := List.mem_flatMap.mp h
  obtain ⟨octets, hoctets, rfl⟩ := List.mem_map.mp hmem
  exact ⟨rfl, rfl, hw, hoctets⟩

theorem send_follows {s : MeshState V} (h : s.Open mesh) (v : V) (clock : ℕ → UInt64) :
    s.Follows mesh (.send v clock) := by
  have hnode := h.nodes v
  cases hwaiting : (s.nodes v).waiting with
  | nil =>
    refine ⟨s, [], .forward v, by simp only [meshStep, hwaiting], h, ?_⟩
    simp only [Relaying.step, MeshState.relaying, hwaiting, List.map_nil]
  | cons item waiting =>
    obtain ⟨command, context⟩ := item
    obtain ⟨hnow, hlater⟩ := List.forall_mem_cons.mp
      (show ∀ item ∈ (command, context) :: waiting, ShortCommand item.1 from
        fun item hitem => hnode.short item (hwaiting ▸ hitem))
    obtain ⟨event, hevent⟩ := hnow.event
    obtain ⟨t, effects, hok, hjournals⟩ :=
      sendSingle_ok (mesh.host v) clock hnode.journals hevent context.ssrc
    obtain ⟨daemon, hdaemon⟩ : ∃ daemon : SocketState,
        daemon = { (s.nodes v).daemon with net.connections := t } := ⟨_, rfl⟩
    have hready := hnode.ready.sent hok
    rw [← hdaemon] at hready
    have htable : daemon.net.connections = t := by rw [hdaemon]
    -- what goes to a neighbour, and what it is
    have hsession : ∀ w ∈ mesh.peers v, ∃ ctx,
        (s.nodes v).daemon.net.connections[mesh.slot v w]? = some ctx ∧
        ctx.sendSsrc = mesh.ssrc v w ∧
        (packetsTo (mesh.slot v w) effects).length =
          if mesh.origin v context.ssrc = some w then 0 else 1 := by
      intro w hw
      obtain ⟨ctx, hfind, hssrc, haddress, -⟩ := hnode.sessions w hw
      obtain ⟨hctx, hwanted⟩ := find_some hfind
      have hown : ctx.ssrc = mesh.ssrc w v := beq_iff_eq.mp (Bool.and_eq_true_iff.mp hwanted).2
      obtain ⟨ctx', -, hserved⟩ := (sendSingle_spec hok).2 _ ctx hctx
      refine ⟨ctx, hctx, hssrc, ?_⟩
      simp only [origin_iff hw, ← hown]
      split_ifs with horigin
      · rw [(hserved.skipped horigin).2, List.length_nil]
      · exact hserved.sent horigin haddress
    refine ⟨⟨Function.update s.nodes v ⟨daemon, waiting⟩,
      s.packets ++ mesh.sentBy v command.content effects⟩, [], .forward v, ?_,
      h.update ⟨hready, htable.symm ▸ hjournals,
        fun w hw => htable.symm ▸ (hnode.sessions w hw).sent hok, hlater⟩ ?_, ?_⟩
    · simp only [meshStep, hwaiting, midiSenderHandler, midiSenderOriginator, Option.bind_some, id,
        Option.getD_some, hok, hdaemon, bind, Except.bind, pure, Except.pure]
    · intro packet hpacket
      rcases List.mem_append.mp hpacket with hold | hnew
      · exact h.packets packet hold
      · obtain ⟨hsender, hcontent, hpeer, hoctets⟩ := mem_sentBy hnew
        obtain ⟨ctx, hctx, hssrc, -⟩ := hsession _ hpeer
        refine ⟨hsender ▸ hpeer, command, hnow, hcontent.symm, ?_⟩
        rw [hsender, ← hssrc]
        exact sendSingle_bears hok hctx hoctets
    · have hflights : (mesh.sentBy v command.content effects).map MeshPacket.flight =
          forwards mesh.peers v (mesh.item v (command, context)) :=
        sentBy_flights fun w hw => (hsession w hw).choose_spec.2.2
      have hfirst : (s.relaying mesh).waiting v =
          mesh.item v (command, context) :: waiting.map (mesh.item v) := by
        rw [MeshState.relaying]
        simp only [hwaiting, List.map_cons]
      simp only [Relaying.step, hfirst, relaying_update, List.map_append, hflights]
      rfl

theorem arrive_follows {s : MeshState V} (h : s.Open mesh) (n : ℕ) (moment : NetMoment)
    (d : Datagram) : s.Follows mesh (.arrive n moment d) := by
  cases hpacket : s.packets[n]? with
  | none =>
    refine ⟨s, [], .arrive n, by simp only [meshStep, hpacket], h, ?_⟩
    simp only [Relaying.step, MeshState.relaying, List.getElem?_map, hpacket, Option.map_none]
  | some packet =>
    obtain ⟨sender, receiver, content, octets⟩ := packet
    obtain ⟨hpeer, command, hshort, rfl, hbears⟩ := h.packets _ (List.mem_of_getElem? hpacket)
    dsimp only at hpeer hbears
    have hback := mesh.back _ _ hpeer
    have hnode := h.nodes receiver
    obtain ⟨payload, hdecodes⟩ := hbears.decodes hshort
    obtain ⟨ctx, hfind, -, -, hboundary, hroom⟩ := hnode.sessions sender hback
    obtain ⟨u, state, seq, emitted, hread, hcontent, hconnections, hstate, hsize⟩ :=
      read_decoded hnode.ready.net (mesh.host receiver) moment
        (Datagram.received_length { d with packet := octets }) hdecodes hshort hfind hboundary hroom
    obtain ⟨daemon, hdaemon⟩ : ∃ daemon : SocketState,
        daemon = { (s.nodes receiver).daemon with net := u } := ⟨_, rfl⟩
    have hok : socketRead (mesh.host receiver) (s.nodes receiver).daemon
        (.net moment { d with packet := octets }) = .ok (daemon,
          [NetEffect.reply (feedbackOctets (mesh.ssrc sender receiver) seq),
            .queue emitted (mesh.ssrc sender receiver)].map netSocketEffect) := by
      simp only [socketRead, hread, hdaemon, bind, Except.bind, pure, Except.pure]
    have hitem : mesh.item receiver (emitted, rtpOriginators (mesh.ssrc sender receiver)) =
        (some sender, command.content) := by
      rw [Mesh.item, hcontent]
      exact congrArg (·, command.content) ((origin_iff hback).mpr rfl)
    have htable : daemon.net.connections =
        (s.nodes receiver).daemon.net.connections.set (mesh.slot receiver sender)
          { ctx with midiState := state } := by
      rw [hdaemon, ← hconnections]
    refine ⟨⟨Function.update s.nodes receiver ⟨daemon, (s.nodes receiver).waiting ++
        [(emitted, rtpOriginators (mesh.ssrc sender receiver))]⟩, s.packets.eraseIdx n⟩,
      [.passed receiver emitted.content], .arrive n, ?_,
      h.update ⟨read_ready hnode.ready hok, ?_, fun w hw => ?_, fun item hitem => ?_⟩
        fun other hother => h.packets other (List.mem_of_mem_eraseIdx hother), ?_⟩
    · simp only [meshStep, hpacket, hok, bind, Except.bind, pure, Except.pure]
      rfl
    · rw [hdaemon]
      exact (read_changes hread).journals_valid hnode.journals
    · rw [htable]
      exact (hnode.sessions w hw).set (find_some hfind).1 hstate hsize
    · rcases List.mem_append.mp hitem with hold | hnew
      · exact hnode.short item hold
      · rw [List.mem_singleton.mp hnew]
        exact .of_content (show ShortCommand ⟨0, command.content.1, command.content.2⟩ from hshort)
          hcontent
    · have hflight : (s.relaying mesh).flying[n]? = some (sender, receiver, command.content) := by
        rw [MeshState.relaying, List.getElem?_map, hpacket]
        rfl
      have hleft : (s.relaying mesh).flying.eraseIdx n =
          (s.packets.eraseIdx n).map MeshPacket.flight := List.eraseIdx_map ..
      simp only [Relaying.step, hflight, hleft, relaying_update, List.map_append, List.map_cons,
        List.map_nil, hitem, hcontent]
      rfl

theorem lose_follows {s : MeshState V} (h : s.Open mesh) (n : ℕ) :
    s.Follows mesh (.lose n) := by
  cases hpacket : s.packets[n]? with
  | none =>
    refine ⟨s, [], .lose n, by simp only [meshStep, hpacket], h, ?_⟩
    simp only [Relaying.step, MeshState.relaying, List.getElem?_map, hpacket, Option.map_none]
  | some packet =>
    refine ⟨⟨s.nodes, s.packets.eraseIdx n⟩,
      [.lost packet.sender packet.receiver packet.content], .lose n,
      by simp only [meshStep, hpacket],
      ⟨h.nodes, fun other hother => h.packets other (List.mem_of_mem_eraseIdx hother)⟩, ?_⟩
    simp only [Relaying.step, MeshState.relaying, List.getElem?_map, hpacket, Option.map_some,
      MeshPacket.flight, List.eraseIdx_map]

theorem move_follows {s : MeshState V} (h : s.Open mesh) {move : MeshMove V}
    (hmove : MeshUndisturbed mesh s move) : s.Follows mesh move := by
  cases move with
  | read v read => exact read_follows h hmove
  | send v clock => exact send_follows h v clock
  | arrive n moment d => exact arrive_follows h n moment d
  | lose n => exact lose_follows h n

/-- A run is a run of the relaying: by induction on the moves. -/
theorem run_follows {s : MeshState V} (h : s.Open mesh) {moves : List (MeshMove V)}
    (hmoves : Along (meshStep mesh) (MeshUndisturbed mesh) s moves) :
    ∃ t out relayed, run (meshStep mesh) s moves = .ok (t, out) ∧
      feed (Relaying.step mesh.peers) (s.relaying mesh) relayed = (t.relaying mesh, out) := by
  induction moves generalizing s with
  | nil => exact ⟨s, [], [], rfl, rfl⟩
  | cons move moves ih =>
    obtain ⟨t, now, first, hstep, ht, hfirst⟩ := move_follows h hmoves.1
    obtain ⟨u, later, rest, hrun, hrest⟩ := ih ht (hmoves.2 t now hstep)
    exact ⟨u, now ++ later, first :: rest, run_cons_ok hstep hrun, by
      rw [feed_cons, hfirst, hrest]⟩

end Steps

/-- Over sessions without a cycle, and however the daemons and the network take turns, nothing
faults. No daemon queues a command more often than it has entered at the daemons that are
connected to it; and when no command waits and no packet is on the way, those that a daemon
has not queued are those whose packets have been lost on the way to it. -/
theorem mesh_relays {V : Type} [Fintype V] [DecidableEq V] (mesh : Mesh V)
    (hacyclic : mesh.graph.IsAcyclic) {s : MeshState V} (hopen : s.Open mesh)
    (hwaiting : ∀ v, (s.nodes v).waiting = []) (hpackets : s.packets = [])
    (moves : List (MeshMove V)) (hmoves : Along (meshStep mesh) (MeshUndisturbed mesh) s moves) :
    ∃ t out, run (meshStep mesh) s moves = .ok (t, out) ∧ ∀ v,
      total (Event.seen v) out + total (Event.missed mesh.graph v) out ≤
        total (Event.owed mesh.graph v) out ∧
      ((∀ w, (t.nodes w).waiting = []) → t.packets = [] →
        total (Event.seen v) out + total (Event.missed mesh.graph v) out =
          total (Event.owed mesh.graph v) out) := by
  have hforest : Forest mesh.graph mesh.peers := ⟨hacyclic, fun _ _ => Iff.rfl, mesh.nodup⟩
  have hidle : ∀ u : MeshState V, (∀ w, (u.nodes w).waiting = []) → u.packets = [] →
      (u.relaying mesh).Idle := by
    intro u hnodes hflying
    exact ⟨fun w => by simp [MeshState.relaying, hnodes w], by simp [MeshState.relaying, hflying]⟩
  obtain ⟨t, out, relayed, hrun, hfeed⟩ := run_follows hopen hmoves
  refine ⟨t, out, hrun, fun v => ?_⟩
  obtain ⟨hatMost, hall⟩ := feed_relays hforest (hidle s hwaiting hpackets) relayed v
  rw [hfeed] at hatMost hall
  exact ⟨hatMost, fun hnodes hflying => hall (hidle t hnodes hflying)⟩

/-- Two daemons with a session, the one under the SSRC 9 and the other under 7. -/
def mirroredMesh : Mesh Bool where
  peers v := [!v]
  ssrc v _ := if v then 7 else 9
  slot _ _ := 0
  host _ := resolvingHost
  alsa _ := ⟨false, none⟩
  outputs _ := []
  nodup := by decide
  back := by decide
  other := by decide
  apart := by decide
  nonzero := by decide

def mirroredNodes (created : NetCtx) (socket : RaveloxmidiSocket) : MeshState Bool where
  nodes v := ⟨⟨if v then registeredConnection created 9 7 else registeredConnection created 7 9,
    socket, []⟩, []⟩
  packets := []

/-- A clock is written to one local port, relayed, and not sent back. -/
def relayedClock : List (MeshMove Bool) :=
  [.read false (.localPort none [0xf8]), .send false fun _ => 0,
    .arrive 0 quietMoment ⟨.data, [], 5004, [], []⟩, .send true fun _ => 0]

theorem mesh_relays_clock : ∃ created socket t out,
    run (meshStep mirroredMesh) (mirroredNodes created socket) relayedClock = .ok (t, out) ∧
      ∀ v, total (Event.seen v) out + total (Event.missed mirroredMesh.graph v) out ≤
        total (Event.owed mirroredMesh.graph v) out := by
  obtain ⟨created, socket, -, -, hport, hready⟩ := registered_ready
  have hopen : (mirroredNodes created socket).Open mirroredMesh := by
    refine ⟨fun v => ?_, by simp [mirroredNodes]⟩
    cases v with
    | false =>
      obtain ⟨hdaemon, hjournals, hsession⟩ := hready 7 9
      exact ⟨hdaemon, journalsValid_init hjournals,
        fun w hw => List.mem_singleton.mp hw ▸ hsession, by simp [mirroredNodes]⟩
    | true =>
      obtain ⟨hdaemon, hjournals, hsession⟩ := hready 9 7
      exact ⟨hdaemon, journalsValid_init hjournals,
        fun w hw => List.mem_singleton.mp hw ▸ hsession, by simp [mirroredNodes]⟩
  have hqueue : (localQueue none socket.deviceHash (⟨.init, 0, [], 0, false⟩,
      arriving netSocketDefaultRingBuffer [] ([0xf8].take netApplemidiUdpSize))).2 =
      [.queue ⟨0, 0xf8, []⟩ ⟨0, socket.deviceHash⟩] := rfl
  obtain ⟨u, hread, -⟩ := readLocal_becomes none hport (show [0xf8] ≠ [] by decide)
  rw [hqueue] at hread
  have hmoves : Along (meshStep mirroredMesh) (MeshUndisturbed mirroredMesh)
      (mirroredNodes created socket) relayedClock := by
    refine ⟨⟨trivial, fun t effects hok item hitem => ?_⟩, fun _ _ _ => ⟨trivial, fun _ _ _ =>
      ⟨trivial, fun _ _ _ => ⟨trivial, fun _ _ _ => trivial⟩⟩⟩⟩
    simp only [socketRead, mirroredNodes, hread, bind, Except.bind, pure, Except.pure] at hok
    cases hok
    cases List.mem_singleton.mp hitem
    exact .inr ⟨(by decide : (0xf8 : UInt8) ≤ 0xf8), rfl⟩
  obtain ⟨t, out, hrun, hrelays⟩ := mesh_relays mirroredMesh
    (SimpleGraph.IsAcyclic.of_card_le_two (by simp)) hopen (fun _ => rfl) rfl relayedClock hmoves
  exact ⟨created, socket, t, out, hrun, fun v => (hrelays v).1⟩

end RaveloxMidi
