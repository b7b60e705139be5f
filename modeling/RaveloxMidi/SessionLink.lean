import RaveloxMidi.AlsaWriteback
import RaveloxMidi.SessionPackets

/-!
# The commands of a session, from daemon to daemon

The sender reads its sockets and queues what it reads; its other thread takes one
command after the other and sends it. The network keeps every packet, so a packet
can arrive early, late, more than once or never. Each arrival makes the peer queue
the one command that the packet was sent for, whatever else the two daemons read.
-/
namespace RaveloxMidi
open ByteMemory Transducer SlotTable

/-- The two ends of a session: the slots that the tables have it in, and the SSRCs that the
two sides send under. -/
structure LinkEnds where
  host : NetHost
  alsa : AlsaConfig
  outputs : List SndRawmidi
  slot : ℕ
  ssrc : UInt32
  peerHost : NetHost
  peerSlot : ℕ
  peerSsrc : UInt32

/-- The sender with its queue, the packets that it has sent to the slot, and the peer. -/
structure Link where
  sender : SocketState
  waiting : List (MidiCommand × MidiSenderContext)
  packets : List (List UInt8)
  peer : NetState

/-- What can happen next. The octets of the datagram that arrives are those of a packet. -/
inductive LinkMove where
  | read (read : SocketRead)
  | send (clock : ℕ → UInt64)
  | arrive (n : ℕ) (moment : NetMoment) (d : Datagram)
  | peerRead (moment : NetMoment) (d : Datagram)

inductive LinkEvent where
  | queued (command : MidiCommand) (context : MidiSenderContext)
  | played (n : ℕ) (commands : List (MidiCommand × UInt32))

def SocketEffect.queued : SocketEffect → Option (MidiCommand × MidiSenderContext)
  | .queue command context => some (command, context)
  | _ => none

def NetEffect.queued : NetEffect → Option (MidiCommand × UInt32)
  | .queue queued originator => some (queued, originator)
  | _ => none

/-- One step of one of the two daemons. -/
def linkStep (e : LinkEnds) (s : Link) : LinkMove → Except Fault (Link × List LinkEvent)
  | .read read => do
    let done ← socketRead e.host s.sender read
    let items := done.2.filterMap SocketEffect.queued
    return ({ s with sender := done.1, waiting := s.waiting ++ items },
      items.map fun item => .queued item.1 item.2)
  | .send clock =>
    match s.waiting with
    | [] => .ok (s, [])
    | (command, context) :: waiting => do
      let sent ← midiSenderHandler e.host clock e.alsa e.outputs s.sender.net.connections command
        (some (some context))
      return ({ s with
        sender.net.connections := sent.1
        waiting := waiting
        packets := s.packets ++ packetsTo e.slot sent.2.1 }, [])
  | .arrive n moment d =>
    match s.packets[n]? with
    | none => .ok (s, [])
    | some packet => do
      let done ← netSocketRead e.peerHost moment s.peer { d with packet := packet }.received
      return ({ s with peer := done.1 }, [.played n (done.2.filterMap NetEffect.queued)])
  | .peerRead moment d => do
    let done ← netSocketRead e.peerHost moment s.peer d.received
    return ({ s with peer := done.1 }, [])

/-- The command, unless it came from the peer itself, to which it is not sent back. -/
def carriedTo (peerSsrc : UInt32) (item : MidiCommand × MidiSenderContext) : Option MidiCommand :=
  if item.2.ssrc = peerSsrc then none else some item.1

/-- The commands that are queued for the peer. -/
def LinkEvent.carried (peerSsrc : UInt32) : LinkEvent → Option MidiCommand
  | queued command context => carriedTo peerSsrc (command, context)
  | played _ _ => none

/-- The session is established on both sides. -/
structure Link.Open (e : LinkEnds) (s : Link) : Prop where
  ready : s.sender.Ready
  journals : JournalsValid s.sender.net.connections
  here : ∃ ctx, s.sender.net.connections[e.slot]? = some ctx ∧ slotOf ctx = some e.peerSsrc ∧
    ctx.sendSsrc = e.ssrc ∧ ctx.dataAddress ≠ none
  peer : s.peer.Valid
  there : ∃ ctx, netCtxFindBySsrc s.peer.connections e.ssrc = some (e.peerSlot, ctx) ∧
    ctx.midiState.AtBoundary ∧ 3 ≤ ctx.midiState.ring.size

/-- A datagram that is complete, or empty. -/
def Datagram.Complete (connections : List NetCtx) (d : Datagram) : Prop :=
  d.received.packet = [] ∨ Handled connections d.received.packet

/-- A read that goes through. -/
def SocketRead.Complete (s : SocketState) : SocketRead → Prop
  | .net _ d => d.Complete s.net.connections
  | _ => True

/-- A read that goes through, and is not about the end of the session or a change of its SSRC. -/
def SocketRead.Apart (e : LinkEnds) (s : SocketState) : SocketRead → Prop
  | .net _ d => d.Complete s.net.connections ∧
    (datagramOp s.net.connections d.received).Spares e.slot e.peerSsrc
  | _ => True

/-- Nothing ends the session, the commands are short ones, and no other datagram that the
peer reads is an RTP packet with the SSRC of the sender. -/
def LinkUndisturbed (e : LinkEnds) (s : Link) : LinkMove → Prop
  | .read read => read.Apart e s.sender ∧ ∀ t effects,
    socketRead e.host s.sender read = .ok (t, effects) →
      ∀ item ∈ effects.filterMap SocketEffect.queued, ShortCommand item.1
  | .peerRead _ d => d.Complete s.peer.connections ∧
    (datagramOp s.peer.connections d.received).Spares e.peerSlot e.ssrc ∧
    Elsewhere e.ssrc d.received.packet
  | _ => True

/-- What has been queued for the peer so far is in its packets, or still waits. -/
structure Link.Holds (e : LinkEnds) (s : Link) (carried : List MidiCommand) : Prop extends
    s.Open e where
  short : ∀ item ∈ s.waiting, ShortCommand item.1
  sent : ∃ handled, carried = handled ++ s.waiting.filterMap (carriedTo e.peerSsrc) ∧
    List.Forall₂ (fun command packet => ShortCommand command ∧ Bears e.ssrc command packet) handled
      s.packets

theorem Link.Open.start {e : LinkEnds} {s : Link} (h : s.Open e) (hwaiting : s.waiting = [])
    (hpackets : s.packets = []) : s.Holds e [] := by
  refine ⟨h, by simp [hwaiting], [], by simp [hwaiting], ?_⟩
  rw [hpackets]
  exact .nil

section Ready
variable {host : NetHost} {s t : SocketState}

/-- A read of an empty or complete datagram goes through. -/
theorem Datagram.Complete.read {s : NetState} {d : Datagram} (h : d.Complete s.connections)
    (hs : s.Valid) (host : NetHost) (moment : NetMoment) :
    ∃ t effects, netSocketRead host moment s d.received = .ok (t, effects) := by
  rcases List.eq_nil_or_concat d.received.packet with hempty | ⟨lead, last, hpacket⟩
  · exact ⟨s, [], by simp [netSocketRead, hempty, pure, Except.pure]⟩
  · have hpos : 0 < d.received.packet.length := by simp [hpacket]
    refine read_of_handled hs host moment hpos d.received_length (h.resolve_left ?_)
    exact List.ne_nil_of_length_pos hpos

theorem SocketRead.Apart.complete {e : LinkEnds} {read : SocketRead} (h : read.Apart e s) :
    read.Complete s := by
  cases read with
  | net moment d => exact h.1
  | localPort listing packet => trivial
  | input index packet => trivial

theorem SocketState.Ready.read (h : s.Ready) (host : NetHost) {read : SocketRead}
    (hread : read.Complete s) : ∃ t effects, socketRead host s read = .ok (t, effects) := by
  cases read with
  | net moment d =>
    obtain ⟨t, effects, hok⟩ := Datagram.Complete.read hread h.net host moment
    refine ⟨{ s with net := t }, effects.map netSocketEffect, ?_⟩
    simp only [socketRead, hok, bind, Except.bind, pure, Except.pure]
  | localPort listing packet =>
    obtain ⟨t, effects, hok⟩ : ∃ t effects,
        netSocketReadLocal listing s.localSocket packet = .ok (t, effects) := by
      by_cases hempty : packet = []
      · exact ⟨s.localSocket, [], by simp [netSocketReadLocal, hempty, pure, Except.pure]⟩
      · obtain ⟨p, queue, size, hrep⟩ := h.localPort
        obtain ⟨t, hok, -⟩ := readLocal_becomes listing hrep hempty
        exact ⟨t, _, hok⟩
    refine ⟨{ s with localSocket := t }, effects, ?_⟩
    simp only [socketRead, hok, bind, Except.bind, pure, Except.pure]
  | input index packet =>
    cases hsocket : s.inputs[index]? with
    | none => exact ⟨s, [], by simp only [socketRead, hsocket]⟩
    | some socket =>
      obtain ⟨t, effects, hok⟩ :=
        readInput_ok (h.inputs socket (List.mem_of_getElem? hsocket)) packet
      refine ⟨{ s with inputs := s.inputs.set index t }, effects, ?_⟩
      simp only [socketRead, hsocket, hok, bind, Except.bind, pure, Except.pure]

/-- What is sent leaves the parsers of the connections alone. -/
theorem SocketState.Ready.sent (h : s.Ready) {clock : ℕ → UInt64} {command : MidiCommand}
    {originator : UInt32} {connections : List NetCtx} {effects : List NetEffect}
    (hok : midiSenderSendSingle host clock s.net.connections command originator =
      .ok (connections, effects)) : { s with net.connections := connections }.Ready := by
  have hparser : ∀ ctx' ∈ connections, ∃ ctx ∈ s.net.connections,
      ctx'.midiState = ctx.midiState := by
    intro ctx' hctx'
    have hcall : sessionCall host s.net (.daemon (.send clock command originator)) =
        .ok (⟨connections, s.net.sockets⟩, effects) := by
      simp only [sessionCall, daemonCall, hok, bind, Except.bind, pure, Except.pure]
    obtain ⟨slot, ctx, hctx, hserved⟩ := send_served hcall hctx'
    exact ⟨ctx, List.mem_of_getElem? hctx, hserved.same.midiState⟩
  refine ⟨⟨h.net.sockets, fun ctx' hctx' => ?_⟩, fun ctx' hctx' => ?_, h.localPort, h.inputs⟩
  · obtain ⟨ctx, hctx, hsame⟩ := hparser ctx' hctx'
    rw [hsame]
    exact h.net.parsers ctx hctx
  · obtain ⟨ctx, hctx, hsame⟩ := hparser ctx' hctx'
    rw [hsame]
    exact h.parsers ctx hctx

end Ready

section Steps
variable {e : LinkEnds} {s : Link} {carried : List MidiCommand}

/-- What the peer queues for the packets that arrive in a step. -/
def PlaysOnly (ssrc : UInt32) (carried : List MidiCommand) (event : LinkEvent) : Prop :=
  ∀ n commands, event = .played n commands → ∃ command, carried[n]? = some command ∧
    commands.map (fun played => (played.1.content, played.2)) = [(command.content, ssrc)]

/-- What a step keeps, with the commands that it queues for the peer. -/
def Link.Steps (e : LinkEnds) (s : Link) (carried : List MidiCommand) (move : LinkMove) : Prop :=
  ∃ t now, linkStep e s move = .ok (t, now) ∧
    t.Holds e (carried ++ now.filterMap (LinkEvent.carried e.peerSsrc)) ∧
    ∀ event ∈ now, PlaysOnly e.ssrc carried event

theorem read_steps (h : s.Holds e carried) {read : SocketRead}
    (hmove : LinkUndisturbed e s (.read read)) : s.Steps e carried (.read read) := by
  obtain ⟨hapart, hshort⟩ := hmove
  obtain ⟨t, effects, hok⟩ := h.ready.read e.host hapart.complete
  obtain ⟨items, hitems⟩ : ∃ items, items = effects.filterMap SocketEffect.queued := ⟨_, rfl⟩
  obtain ⟨ctx, hctx, hslot, hssrc, haddress⟩ := h.here
  obtain ⟨hused, -⟩ := slotOf_eq_some_iff.mp hslot
  have hnet : JournalsValid t.net.connections ∧ ∃ ctx', t.net.connections[e.slot]? = some ctx' ∧
      slotOf ctx' = some e.peerSsrc ∧ ctx'.sendSsrc = e.ssrc ∧ ctx'.dataAddress ≠ none := by
    cases socketRead_changes hok with
    | @net moment d u now hread =>
      have hchange := read_changes hread
      have hslots := read_slots h.ready.net d.received_length hread
      have hhere : (slotsOf s.sender.net.connections)[e.slot]? = some (some e.peerSsrc) := by
        rw [slots_get, hctx, Option.map_some, hslot]
      have hstill := apply_here hhere hapart.2
      rw [← hslots, slots_get, Option.map_eq_some_iff] at hstill
      obtain ⟨ctx', hctx', hslot'⟩ := hstill
      obtain ⟨hsame, haddress'⟩ := change_addressed hchange hctx hused hctx'
        (slotOf_eq_some_iff.mp hslot').1
      exact ⟨hchange.journals_valid h.journals, ctx', hctx', hslot', hsame.trans hssrc,
        haddress' ▸ haddress⟩
    | localPort => exact ⟨h.journals, ctx, hctx, hslot, hssrc, haddress⟩
    | unknown => exact ⟨h.journals, ctx, hctx, hslot, hssrc, haddress⟩
    | input => exact ⟨h.journals, ctx, hctx, hslot, hssrc, haddress⟩
  have hcarried : (items.map fun item => LinkEvent.queued item.1 item.2).filterMap
      (LinkEvent.carried e.peerSsrc) = items.filterMap (carriedTo e.peerSsrc) := by
    rw [List.filterMap_map]
    rfl
  refine ⟨{ s with sender := t, waiting := s.waiting ++ items },
    items.map fun item => .queued item.1 item.2, ?_, ?_, ?_⟩
  · simp only [linkStep, hok, ← hitems, bind, Except.bind, pure, Except.pure]
  · refine ⟨⟨read_ready h.ready hok, hnet.1, hnet.2, h.peer, h.there⟩, ?_, ?_⟩
    · intro item hitem
      rcases List.mem_append.mp hitem with hold | hnew
      · exact h.short item hold
      · exact hshort t effects hok item (hitems ▸ hnew)
    · obtain ⟨handled, rfl, hsent⟩ := h.sent
      refine ⟨handled, ?_, hsent⟩
      rw [hcarried, List.filterMap_append, List.append_assoc]
  · rintro event hevent n commands rfl
    obtain ⟨item, -, heq⟩ := List.mem_map.mp hevent
    cases heq

theorem ShortCommand.of_content {command : MidiCommand} {content : UInt8 × List UInt8}
    (h : ShortCommand ⟨0, content.1, content.2⟩) (hcontent : command.content = content) :
    ShortCommand command := by
  subst hcontent
  exact h

/-- A short command is sent without a fault. -/
theorem ShortCommand.event {command : MidiCommand} (h : ShortCommand command) :
    ∃ event, midiSenderEvent command = .ok event := by
  refine senderEvent_ok fun hchannel => ?_
  rcases h with ⟨-, hlength, -⟩ | ⟨hrealTime, -⟩
  · exact hlength
  · exact absurd (UInt8.lt_of_le_of_lt hrealTime hchannel.2) (by decide)

theorem send_steps (h : s.Holds e carried) (clock : ℕ → UInt64) :
    s.Steps e carried (.send clock) := by
  obtain ⟨handled, rfl, hsent⟩ := h.sent
  cases hwaiting : s.waiting with
  | nil =>
    refine ⟨s, [], by simp only [linkStep, hwaiting], ?_, by simp⟩
    simpa only [List.filterMap_nil, List.append_nil, hwaiting] using h
  | cons item waiting =>
    obtain ⟨command, context⟩ := item
    have hshort : ∀ item ∈ (command, context) :: waiting, ShortCommand item.1 :=
      fun item hitem => h.short item (hwaiting ▸ hitem)
    obtain ⟨hnow, hlater⟩ := List.forall_mem_cons.mp hshort
    obtain ⟨event, hevent⟩ := hnow.event
    obtain ⟨t, effects, hok, hjournals⟩ :=
      sendSingle_ok e.host clock h.journals hevent context.ssrc
    obtain ⟨ctx, hctx, hslot, hssrc, haddress⟩ := h.here
    obtain ⟨hused, hpeer⟩ := slotOf_eq_some_iff.mp hslot
    obtain ⟨ctx', hctx', hserved⟩ := (sendSingle_spec hok).2 e.slot ctx hctx
    have hslot' : slotOf ctx' = some e.peerSsrc := by
      rw [slotOf_eq_some_iff, hserved.same.ssrc]
      exact ⟨by simpa [netCtxIsUsed, hserved.same.status] using hused, hpeer⟩
    obtain ⟨sender, hsender⟩ : ∃ sender : SocketState,
        sender = { s.sender with net.connections := t } := ⟨_, rfl⟩
    have hready := h.ready.sent hok
    rw [← hsender] at hready
    have htable : sender.net.connections = t := by rw [hsender]
    refine ⟨⟨sender, waiting, s.packets ++ packetsTo e.slot effects, s.peer⟩, [], ?_,
      ⟨⟨hready, htable.symm ▸ hjournals, ⟨ctx', htable.symm ▸ hctx', hslot',
        hserved.same.sendSsrc.trans hssrc, hserved.same.dataAddress ▸ haddress⟩, h.peer, h.there⟩,
        hlater, ?_⟩, by simp⟩
    · simp only [linkStep, hwaiting, midiSenderHandler, midiSenderOriginator, Option.bind_some, id,
        Option.getD_some, hok, hsender, bind, Except.bind, pure, Except.pure]
    rw [List.filterMap_nil, List.append_nil]
    by_cases horigin : context.ssrc = e.peerSsrc
    · have hnone : packetsTo e.slot effects = [] :=
        (hserved.skipped (hpeer.trans horigin.symm)).2
      refine ⟨handled, ?_, ?_⟩
      · have hback : carriedTo e.peerSsrc (command, context) = none := if_pos horigin
        rw [List.filterMap_cons_none hback]
      · rw [hnone, List.append_nil]
        exact hsent
    · have hother : ctx.ssrc ≠ context.ssrc := fun hsame => horigin (hsame.symm.trans hpeer)
      obtain ⟨packet, hpacket⟩ := List.length_eq_one_iff.mp (hserved.sent hother haddress)
      have hbears := sendSingle_bears hok hctx (hpacket ▸ List.mem_singleton_self packet)
      refine ⟨handled ++ [command], ?_, ?_⟩
      · have hforth : carriedTo e.peerSsrc (command, context) = some command := if_neg horigin
        rw [List.filterMap_cons_some hforth, List.append_assoc]
        rfl
      · rw [hpacket]
        exact List.rel_append hsent (.cons ⟨hnow, hssrc ▸ hbears⟩ .nil)

theorem forall₂_get {α β : Type*} {R : α → β → Prop} {xs : List α} {ys : List β}
    (h : List.Forall₂ R xs ys) {n : ℕ} {y : β} (hy : ys[n]? = some y) :
    ∃ x, xs[n]? = some x ∧ R x y := by
  induction h generalizing n with
  | nil => cases hy
  | @cons first last _ _ hfirst _ ih =>
    cases n with
    | zero =>
      cases hy
      exact ⟨first, rfl, hfirst⟩
    | succ n => exact ih hy

/-- The packet of a command makes the peer queue this command, and leaves it ready for the
next one. -/
theorem arrive_steps (h : s.Holds e carried) (n : ℕ) (moment : NetMoment) (d : Datagram) :
    s.Steps e carried (.arrive n moment d) := by
  cases hpacket : s.packets[n]? with
  | none =>
    refine ⟨s, [], by simp only [linkStep, hpacket], ?_, by simp⟩
    rw [List.filterMap_nil, List.append_nil]
    exact h
  | some packet =>
    obtain ⟨handled, rfl, hsent⟩ := h.sent
    obtain ⟨command, hcommand, hshort, hbears⟩ := forall₂_get hsent hpacket
    obtain ⟨payload, hdecodes⟩ := hbears.decodes hshort
    obtain ⟨ctx, hfind, hboundary, hroom⟩ := h.there
    obtain ⟨u, state, seq, emitted, hread, hcontent, hconnections, hstate, hsize⟩ :=
      read_decoded h.peer e.peerHost moment (Datagram.received_length { d with packet := packet })
        hdecodes hshort hfind hboundary hroom
    obtain ⟨hslot, -⟩ := find_some hfind
    have hfirst : FirstAt e.peerSlot e.ssrc (slotsOf u.connections) := by
      have hsame : slotsOf (s.peer.connections.set e.peerSlot { ctx with midiState := state }) =
          slotsOf s.peer.connections := slots_set_same hslot rfl
      rw [hconnections, hsame]
      exact findBySsrc_firstAt.mp ⟨ctx, hfind⟩
    obtain ⟨ctx', hfind'⟩ := findBySsrc_firstAt.mpr hfirst
    have hctx' : ctx' = { ctx with midiState := state } := by
      obtain ⟨hslot', -⟩ := find_some hfind'
      rw [hconnections, List.getElem?_set_self (List.getElem?_eq_some_iff.mp hslot).1] at hslot'
      exact (Option.some.inj hslot').symm
    refine ⟨{ s with peer := u }, [.played n [(emitted, e.ssrc)]], ?_, ⟨⟨h.ready, h.journals,
      h.here, read_valid h.peer (Datagram.received_length _) hread, ctx', hfind', ?_, ?_⟩,
      h.short, handled, ?_, hsent⟩, ?_⟩
    · simp only [linkStep, hpacket, hread, bind, Except.bind, pure, Except.pure]
      rfl
    · rw [hctx']
      exact hstate
    · rw [hctx', hsize]
      exact hroom
    · simp [LinkEvent.carried]
    · intro event hevent n' commands heq
      rw [List.mem_singleton.mp hevent] at heq
      cases heq
      have hlt := (List.getElem?_eq_some_iff.mp hcommand).1
      exact ⟨command, by rwa [List.getElem?_append_left hlt], by simp [hcontent]⟩

/-- What else the peer reads leaves its end of the session as it is. -/
theorem peerRead_steps (h : s.Holds e carried) {moment : NetMoment} {d : Datagram}
    (hmove : LinkUndisturbed e s (.peerRead moment d)) :
    s.Steps e carried (.peerRead moment d) := by
  obtain ⟨hcomplete, hspares, helsewhere⟩ := hmove
  obtain ⟨u, effects, hread⟩ := hcomplete.read h.peer e.peerHost moment
  obtain ⟨ctx, hfind, hboundary, hroom⟩ := h.there
  obtain ⟨hslot, hwanted⟩ := find_some hfind
  obtain ⟨hused, hssrc⟩ := Bool.and_eq_true_iff.mp hwanted
  have hslots := read_slots h.peer d.received_length hread
  have hfirst := (findBySsrc_firstAt.mp ⟨ctx, hfind⟩).apply hspares
  rw [← hslots] at hfirst
  obtain ⟨ctx', hfind'⟩ := findBySsrc_firstAt.mpr hfirst
  obtain ⟨hslot', hwanted'⟩ := find_some hfind'
  have hparser := read_keeps h.peer d.received_length hread hslot hused
    (beq_iff_eq.mp hssrc ▸ helsewhere) hslot' (Bool.and_eq_true_iff.mp hwanted').1
  refine ⟨{ s with peer := u }, [], ?_, ⟨⟨h.ready, h.journals, h.here,
    read_valid h.peer d.received_length hread, ctx', hfind', hparser ▸ hboundary,
    hparser ▸ hroom⟩, h.short, ?_⟩, by simp⟩
  · simp only [linkStep, hread, bind, Except.bind, pure, Except.pure]
  · rw [List.filterMap_nil, List.append_nil]
    exact h.sent

theorem move_steps (h : s.Holds e carried) {move : LinkMove}
    (hmove : LinkUndisturbed e s move) : s.Steps e carried move := by
  cases move with
  | read read => exact read_steps h hmove
  | send clock => exact send_steps h clock
  | arrive n moment d => exact arrive_steps h n moment d
  | peerRead moment d => exact peerRead_steps h hmove

end Steps

/-- The invariant of a run: by induction on the moves. -/
theorem run_plays {e : LinkEnds} {s : Link} {carried : List MidiCommand} (h : s.Holds e carried)
    {moves : List LinkMove} (hmoves : Along (linkStep e) (LinkUndisturbed e) s moves) :
    ∃ t out, run (linkStep e) s moves = .ok (t, out) ∧
      t.Holds e (carried ++ out.filterMap (LinkEvent.carried e.peerSsrc)) ∧
      ∀ event ∈ out,
        PlaysOnly e.ssrc (carried ++ out.filterMap (LinkEvent.carried e.peerSsrc)) event := by
  induction moves generalizing s carried with
  | nil => exact ⟨s, [], rfl, by simpa using h, by simp⟩
  | cons move moves ih =>
    obtain ⟨t, now, hstep, ht, hplays⟩ := move_steps h hmoves.1
    obtain ⟨u, later, hrest, hu, hlater⟩ := ih ht (hmoves.2 t now hstep)
    rw [List.append_assoc, ← List.filterMap_append] at hu hlater
    refine ⟨u, now ++ later, run_cons_ok hstep hrest, hu, fun event hevent => ?_⟩
    rcases List.mem_append.mp hevent with hnow | hthen
    · intro n commands heq
      obtain ⟨command, hcommand, hplayed⟩ := hplays event hnow n commands heq
      have hlt := (List.getElem?_eq_some_iff.mp hcommand).1
      exact ⟨command, by rwa [List.getElem?_append_left hlt], hplayed⟩
    · exact hlater event hthen

/-- However the two daemons and the network take turns, nothing faults; each packet that
arrives makes the peer queue the one command that the packet was sent for, with the SSRC of
the sender; and the packets are sent in the order in which their commands were queued, none
of which is lost before it is sent. -/
theorem session_plays {e : LinkEnds} {s : Link} (hopen : s.Open e) (hwaiting : s.waiting = [])
    (hpackets : s.packets = []) (moves : List LinkMove)
    (hmoves : Along (linkStep e) (LinkUndisturbed e) s moves) :
    ∃ t out, run (linkStep e) s moves = .ok (t, out) ∧
      (∀ n commands, .played n commands ∈ out →
        ∃ command, (out.filterMap (LinkEvent.carried e.peerSsrc))[n]? = some command ∧
          commands.map (fun played => (played.1.content, played.2)) =
            [(command.content, e.ssrc)]) ∧
      (out.filterMap (LinkEvent.carried e.peerSsrc)).length =
        t.packets.length + (t.waiting.filterMap (carriedTo e.peerSsrc)).length := by
  obtain ⟨t, out, hrun, ht, hplays⟩ := run_plays (hopen.start hwaiting hpackets) hmoves
  rw [List.nil_append] at ht
  refine ⟨t, out, hrun, fun n commands hplayed => ?_, ?_⟩
  · obtain ⟨command, hcommand, honly⟩ := hplays _ hplayed n commands rfl
    exact ⟨command, by simpa using hcommand, honly⟩
  · obtain ⟨handled, hcarried, hsent⟩ := ht.sent
    rw [hcarried, List.length_append, hsent.length_eq]

/-- A daemon with one registered connection is ready for it. -/
theorem registered_ready : ∃ created socket, netCtxCreate resolvingHost = some created ∧
    netSocketCreateItem ⟨4096, 0⟩ = some socket ∧
    socket.state.Represents ⟨.init, 0, [], 0, false⟩ [] netSocketDefaultRingBuffer ∧
    ∀ ssrc sendSsrc, SocketState.Ready ⟨registeredConnection created ssrc sendSsrc, socket, []⟩ ∧
      (∀ ctx ∈ (registeredConnection created ssrc sendSsrc).connections,
        ctx.journal = journalInit) ∧
      ∃ ctx, netCtxFindBySsrc (registeredConnection created ssrc sendSsrc).connections ssrc =
          some (0, ctx) ∧ ctx.sendSsrc = sendSsrc ∧ ctx.dataAddress ≠ none ∧
        ctx.midiState.AtBoundary ∧ 3 ≤ ctx.midiState.ring.size := by
  obtain ⟨created, hcreated⟩ : ∃ created, netCtxCreate resolvingHost = some created := ⟨_, rfl⟩
  obtain ⟨socket, hsocket, -, hport⟩ := createItem_default 4096
  obtain ⟨state, hstate, hctx⟩ := Option.map_eq_some_iff.mp hcreated
  have hparser : created.midiState = state := by rw [← hctx]
  have hrep := (MidiState.create_represents hstate).1
  rw [← hparser] at hrep
  have hreset := hrep.reset
  have hroom : netSocketDefaultRingBuffer ≤
      max netSocketDefaultRingBuffer resolvingHost.ringBufferSize := le_max_left _ _
  refine ⟨created, socket, hcreated, hsocket, hport, fun ssrc sendSsrc => ?_⟩
  obtain ⟨ctx, hset⟩ : ∃ ctx,
      ctx = netCtxSet resolvingHost created ssrc 1 sendSsrc 5004 [] none 0 := ⟨_, rfl⟩
  have hown : ctx.midiState = midiStateReset created.midiState := by rw [hset]; rfl
  have hmem : ∀ other ∈ (registeredConnection created ssrc sendSsrc).connections, other = ctx :=
    fun other hother => (List.mem_singleton.mp hother).trans hset.symm
  rw [← hown] at hreset
  refine ⟨⟨⟨fun _ => ⟨_, _, hrep, le_trans (by decide) hroom⟩, fun other hother => ?_⟩,
    fun other hother => ?_, ⟨_, _, _, hport⟩, by simp⟩, fun other hother => ?_, ctx, ?_, ?_, ?_,
    ?_, ?_⟩
  · exact hmem other hother ▸ ⟨_, _, _, hreset⟩
  · exact hmem other hother ▸ ⟨_, _, hroom, hreset⟩
  · rw [hmem other hother, hset, ← hctx]
    rfl
  · rw [hset, netCtxFindBySsrc, find_iff]
    exact ⟨rfl, by simp [netCtxIsUsed, netCtxSet], fun other hother => by omega⟩
  · rw [hset]
    rfl
  · rw [hset]
    simp [netCtxSet, resolvingHost]
  · exact ⟨hreset.follows.status, hreset.follows.hold_valid, hreset.follows.hold,
      hreset.follows.partialSysex, hreset.ring_valid, hreset.queue_eq⟩
  · exact le_of_le_of_eq (le_trans (by decide) hroom) hreset.size_eq.symm

/-- The two sides of a session between the SSRCs 9 and 7, and a local port. -/
def mirroredLink (created : NetCtx) (socket : RaveloxmidiSocket) : Link :=
  ⟨⟨registeredConnection created 7 9, socket, []⟩, [], [], registeredConnection created 9 7⟩

def mirroredEnds : LinkEnds := ⟨resolvingHost, ⟨false, none⟩, [], 0, 9, resolvingHost, 0, 7⟩

theorem mirroredLink_open : ∃ created socket,
    netSocketCreateItem ⟨4096, 0⟩ = some socket ∧
      socket.state.Represents ⟨.init, 0, [], 0, false⟩ [] netSocketDefaultRingBuffer ∧
      (mirroredLink created socket).Open mirroredEnds := by
  obtain ⟨created, socket, -, hsocket, hport, hready⟩ := registered_ready
  obtain ⟨hhere, hjournals, -⟩ := hready 7 9
  obtain ⟨hthere, -, ctx, hfind, -, -, hboundary, hroom⟩ := hready 9 7
  exact ⟨created, socket, hsocket, hport, hhere, journalsValid_init hjournals,
    ⟨_, rfl, rfl, rfl, by simp [netCtxSet, resolvingHost]⟩, hthere.net, ctx, hfind, hboundary,
    hroom⟩

/-- A clock is written to the local port, and its packet arrives twice. -/
def repeatedClock : List LinkMove :=
  [.read (.localPort none [0xf8]), .send fun _ => 0,
    .arrive 0 quietMoment ⟨.data, [], 5004, [], []⟩,
    .arrive 0 quietMoment ⟨.data, [], 5004, [], []⟩]

theorem session_plays_clock : ∃ created socket t out,
    run (linkStep mirroredEnds) (mirroredLink created socket) repeatedClock = .ok (t, out) ∧
      (∀ n commands, .played n commands ∈ out →
        ∃ command, (out.filterMap (LinkEvent.carried 7))[n]? = some command ∧
          commands.map (fun played => (played.1.content, played.2)) = [(command.content, 9)]) := by
  obtain ⟨created, socket, -, hport, hopen⟩ := mirroredLink_open
  have hqueue : (localQueue none socket.deviceHash (⟨.init, 0, [], 0, false⟩,
      arriving netSocketDefaultRingBuffer [] ([0xf8].take netApplemidiUdpSize))).2 =
      [.queue ⟨0, 0xf8, []⟩ ⟨0, socket.deviceHash⟩] := rfl
  obtain ⟨u, hread, -⟩ := readLocal_becomes none hport (show [0xf8] ≠ [] by decide)
  rw [hqueue] at hread
  have hmoves : Along (linkStep mirroredEnds) (LinkUndisturbed mirroredEnds)
      (mirroredLink created socket) repeatedClock := by
    refine ⟨⟨trivial, fun t effects hok item hitem => ?_⟩, fun _ _ _ => ⟨trivial, fun _ _ _ =>
      ⟨trivial, fun _ _ _ => ⟨trivial, fun _ _ _ => trivial⟩⟩⟩⟩
    simp only [socketRead, mirroredLink, hread, bind, Except.bind, pure, Except.pure] at hok
    cases hok
    cases List.mem_singleton.mp hitem
    exact .inr ⟨(by decide : (0xf8 : UInt8) ≤ 0xf8), rfl⟩
  obtain ⟨t, out, hrun, hplays, -⟩ := session_plays hopen rfl rfl repeatedClock hmoves
  exact ⟨created, socket, t, out, hrun, hplays⟩

end RaveloxMidi
