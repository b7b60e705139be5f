import RaveloxMidi.ApplemidiRoundTrip
import RaveloxMidi.Handshake
import RaveloxMidi.JournalSession
import RaveloxMidi.SyncThread

/-!
# What a session knows of the other clock

The inviting side asks, the invited side answers, the inviting side replies, and from
the three times in the reply the invited side estimates how far the clock of the session
is ahead on the inviting side. Nothing is remembered between two of these datagrams,
and any of them can be late, repeated or lost.
-/
namespace RaveloxMidi
open ByteMemory Transducer SlotTable

/-- `offset_estimate` -/
def applemidiSyncOffset (sync : NetApplemidiSync) : Int64 :=
  ((sync.timestamp3 + sync.timestamp1) / 2 - sync.timestamp2).toInt64

/-- The estimate that the responder comes to. -/
def applemidiSyncEstimate (connections : List NetCtx) (sync : NetApplemidiSync) : Option Int64 :=
  match netCtxFindBySsrc connections sync.ssrc with
  | none => none
  | some _ => if sync.count = 2 then some (applemidiSyncOffset sync) else none

/-- The synchronisation in a datagram. -/
def datagramSync (d : Datagram) : Option NetApplemidiSync :=
  if IsApplemidi d.packet then
    match (netApplemidiUnpack ⟨d.packet, d.beyond⟩).command with
    | some ⟨_, code, .sync sync⟩ => if code = netApplemidiCmdSync then some sync else none
    | _ => none
  else none

/-- The estimate that a datagram leads to for the session with an SSRC. -/
def datagramEstimate (ssrc : UInt32) (connections : List NetCtx) (d : Datagram) : Option Int64 :=
  (datagramSync d).bind fun sync =>
    if sync.ssrc = ssrc then applemidiSyncEstimate connections sync else none

def callEstimate (ssrc : UInt32) (connections : List NetCtx) : DaemonCall → Option Int64
  | .read _ d => datagramEstimate ssrc connections d
  | .send _ _ _ => none

/-- One side: its slot of the session, the SSRC it sends under, when its clock started the
session, and how long ago that was. -/
structure SyncEnd where
  host : NetHost
  slot : ℕ
  ssrc : UInt32
  start : UInt64
  elapsed : ℕ

structure SyncEnds where
  serviceName : List UInt8
  config : KvTable
  inviting : SyncEnd
  invited : SyncEnd

/-- The time since the start of the session. -/
def SyncEnd.stamp (e : SyncEnd) (time : ℕ) : UInt64 := UInt64.ofNat (e.elapsed + time)

def SyncEnd.moment (e : SyncEnd) (time : ℕ) (random : ℕ → UInt32) : NetMoment :=
  ⟨e.start + e.stamp time, random⟩

/-- How far the clock of the session is ahead on the inviting side. -/
def SyncEnds.offset (e : SyncEnds) : ℤ := e.inviting.elapsed - e.invited.elapsed

/-- The two sides at a time, and all the synchronisations that each has sent. -/
structure SyncSession where
  time : ℕ
  thread : SyncThread
  inviting : NetState
  invited : NetState
  toInvited : List (List UInt8)
  toInviting : List (List UInt8)

/-- What can happen next. The octets of a datagram that arrives are those of one that was
sent. -/
inductive SyncMove where
  | pass (duration : ℕ)
  | thread (random : ℕ → UInt32)
  | atInvited (n : ℕ) (random : ℕ → UInt32) (d : Datagram)
  | atInviting (n : ℕ) (random : ℕ → UInt32) (d : Datagram)
  | invited (call : DaemonCall)
  | inviting (call : DaemonCall)

inductive SyncEvent where
  | asked (time : ℕ)
  | answered (time : ℕ)
  | replied (time : ℕ)
  | estimated (offset : Int64)

def syncStep (e : SyncEnds) (s : SyncSession) :
    SyncMove → Except Fault (SyncSession × List SyncEvent)
  | .pass duration => .ok ({ s with time := s.time + duration }, [])
  | .thread random => do
    let done ← remoteConnectSyncThread (e.inviting.moment s.time random) false e.serviceName
      e.config s.inviting.connections s.thread
    let sent := datagramsSent done.2
    return ({ s with thread := done.1, toInvited := s.toInvited ++ sent },
      sent.map fun _ => .asked s.time)
  | .atInvited n random d =>
    match s.toInvited[n]? with
    | none => .ok (s, [])
    | some packet => do
      let d := { d with packet := packet }.received
      let done ← netSocketRead e.invited.host (e.invited.moment s.time random) s.invited d
      let sent := datagramsSent done.2
      return ({ s with invited := done.1, toInviting := s.toInviting ++ sent },
        (datagramEstimate e.inviting.ssrc s.invited.connections d).toList.map .estimated ++
          sent.map fun _ => .answered s.time)
  | .atInviting n random d =>
    match s.toInviting[n]? with
    | none => .ok (s, [])
    | some packet => do
      let d := { d with packet := packet }.received
      let done ← netSocketRead e.inviting.host (e.inviting.moment s.time random) s.inviting d
      let sent := datagramsSent done.2
      return ({ s with inviting := done.1, toInvited := s.toInvited ++ sent },
        (datagramEstimate e.invited.ssrc s.inviting.connections d).toList.map .estimated ++
          sent.map fun _ => .replied s.time)
  | .invited call => do
    let done ← daemonCall e.invited.host s.invited call
    return ({ s with invited := done.1 },
      (callEstimate e.inviting.ssrc s.invited.connections call).toList.map .estimated)
  | .inviting call => do
    let done ← daemonCall e.inviting.host s.inviting call
    return ({ s with inviting := done.1 },
      (callEstimate e.invited.ssrc s.inviting.connections call).toList.map .estimated)

/-- One side has the session in its slot, under the SSRC of the other side. -/
structure SyncEnd.Open (e : SyncEnd) (ssrc : UInt32) (s : NetState) : Prop where
  valid : s.Valid
  journals : JournalsValid s.connections
  here : ∃ ctx, netCtxFindBySsrc s.connections ssrc = some (e.slot, ctx) ∧
    ctx.sendSsrc = e.ssrc ∧ ctx.start = e.start

/-- A call that can be made and leaves a session in its slot. -/
def Spared (slot : ℕ) (ssrc : UInt32) (s : NetState) : DaemonCall → Prop
  | .read _ d => d.packet.length ≤ netApplemidiUdpSize ∧
    (d.packet = [] ∨ Handled s.connections d.packet) ∧
    (datagramOp s.connections d).Spares slot ssrc
  | .send _ command _ => command.Readable

/-- The clocks are far from their ends. -/
def SyncEnds.Early (e : SyncEnds) (time : ℕ) : Prop :=
  e.inviting.elapsed + time < 2 ^ 63 ∧ e.invited.elapsed + time < 2 ^ 63

/-- The session is established on both sides, and the thread is in it. -/
structure SyncSession.Open (e : SyncEnds) (s : SyncSession) : Prop where
  early : e.Early s.time
  thread : s.thread.In e.inviting.slot
  inviting : e.inviting.Open e.invited.ssrc s.inviting
  invited : e.invited.Open e.inviting.ssrc s.invited

section Datagrams
variable {s : NetState} {d : Datagram} {sync : NetApplemidiSync}

theorem syncPacket_length (sync : NetApplemidiSync) : (syncPacket sync).length = 36 := by
  simp [syncPacket, commandOctets, syncOctets, putUint16, putUint32, putUint64]

theorem syncPacket_unpack (sync : NetApplemidiSync) (beyond : List UInt8) :
    (netApplemidiUnpack ⟨syncPacket sync, beyond⟩).command =
      some ⟨0xffff, netApplemidiCmdSync, .sync sync⟩ := by
  obtain ⟨c, hc, hunpack⟩ := unpack_command (r := ⟨syncPacket sync, beyond⟩) rfl
  obtain ⟨d, hd, -⟩ := unpackSync_packed 0xffff hc
  have hcode : ¬ IsInvCommand netApplemidiCmdSync ∧
      netApplemidiCmdSync ≠ netApplemidiCmdFeedback ∧
      netApplemidiCmdSync ≠ netApplemidiCmdBitrate := by decide
  rw [hunpack, if_neg hcode.1, if_neg hcode.2.1, if_neg hcode.2.2, if_pos rfl, hd]

/-- A synchronisation is answered by the responder, and the table stays. -/
theorem read_sync (h : s.Valid) (host : NetHost) (moment : NetMoment)
    (hpacket : d.packet = syncPacket sync) :
    ∃ t answer, netSocketRead host moment s d = .ok (t, netReply answer) ∧ t.Valid ∧
      t.connections = s.connections ∧
      applemidiSyncResponder moment s.connections (some sync) = .ok answer := by
  have hlength : d.packet.length = 36 := hpacket ▸ syncPacket_length sync
  have hmax : d.packet.length ≤ netApplemidiUdpSize := by
    rw [hlength]
    decide
  obtain ⟨hclass, hpos⟩ := (hpacket ▸ SyncPacket.packed sync : SyncPacket d.packet).isApplemidi
  obtain ⟨state, p, size, -, -, hread⟩ := read_eq h host moment hpos hmax
  obtain ⟨answer, hanswer, -⟩ := syncResponder_ok moment s.connections (some sync)
  have hok : netSocketRead host moment s d =
      .ok (⟨s.connections, Function.update s.sockets d.socket state⟩, netReply answer) := by
    rw [hread, if_pos hclass, netSocketApplemidi, Option.bind_some, hpacket, syncPacket_unpack]
    simp only [netSocketDispatch, NetApplemidiData.asSync, hanswer, netApplemidiCmdDestroy, bind,
      Except.bind, pure, Except.pure]
    rfl
  exact ⟨_, answer, hok, read_valid h hmax hok, rfl, hanswer⟩

theorem syncResponder_answers {moment : NetMoment} {connections : List NetCtx} {slot : ℕ}
    {ctx : NetCtx} (hfind : netCtxFindBySsrc connections sync.ssrc = some (slot, ctx))
    (hcount : sync.count ≠ 2) : applemidiSyncResponder moment connections (some sync) =
      .ok (some (syncPacket (applemidiSyncAnswer moment ctx sync))) := by
  simp only [applemidiSyncResponder, hfind, if_neg hcount]
  exact packSync_ok 0xffff _

theorem datagramEstimate_sync {ssrc : UInt32} (connections : List NetCtx)
    (hpacket : d.packet = syncPacket sync) (hssrc : sync.ssrc = ssrc) :
    datagramEstimate ssrc connections d = applemidiSyncEstimate connections sync := by
  have hclass := (hpacket ▸ SyncPacket.packed sync : SyncPacket d.packet).isApplemidi.1
  have hsync : datagramSync d = some sync := by
    rw [datagramSync, if_pos hclass, hpacket, syncPacket_unpack]
    exact if_pos rfl
  rw [datagramEstimate, hsync, Option.bind_some, if_pos hssrc]

end Datagrams

/-- The parts of a context that a session keeps. -/
structure SameSession (ctx ctx' : NetCtx) : Prop where
  sendSsrc : ctx'.sendSsrc = ctx.sendSsrc
  initiator : ctx'.initiator = ctx.initiator
  start : ctx'.start = ctx.start
  controlAddress : ctx'.controlAddress = ctx.controlAddress

section Calls
variable {host : NetHost} {s : NetState} {slot : ℕ} {ssrc : UInt32}

theorem sendConnection_context {now : UInt64} {event : MidiEvent} {payload payload' : MidiPayload}
    {ctx ctx' : NetCtx} {effects : List NetEffect}
    (hok : midiSenderSendConnection host now event slot payload ctx =
      .ok (ctx', payload', effects)) : SameSession ctx ctx' := by
  obtain ⟨packed, hpacked, hok⟩ := bind_ok hok
  obtain ⟨packet, -, hok⟩ := bind_ok hok
  cases hok
  obtain ⟨journal, hjournal, hpacked⟩ := bind_ok hpacked
  cases hpacked
  split_ifs
  · cases event <;> exact ⟨rfl, rfl, rfl, rfl⟩
  · exact ⟨rfl, rfl, rfl, rfl⟩

/-- What is sent leaves the sessions alone. -/
theorem send_session {clock : ℕ → UInt64} {connections t : List NetCtx} {command : MidiCommand}
    {originator : UInt32} {effects : List NetEffect}
    (hok : midiSenderSendSingle host clock connections command originator = .ok (t, effects))
    {ctx ctx' : NetCtx} (hctx : connections[slot]? = some ctx) (hctx' : t[slot]? = some ctx') :
    SameSession ctx ctx' := by
  by_cases horigin : ctx.ssrc = originator
  · cases hctx'.symm.trans (sendSingle_skips hok hctx horigin).1
    exact ⟨rfl, rfl, rfl, rfl⟩
  · obtain ⟨packed, event, j, now, payload, sent, -, -, hconnection, hnow, -⟩ :=
      sendSingle_slot hok hctx horigin
    cases hctx'.symm.trans hnow
    exact sendConnection_context hconnection

/-- The session is still the first one with its SSRC. -/
theorem find_apply {t : NetState} {ctx : NetCtx}
    (hfind : netCtxFindBySsrc s.connections ssrc = some (slot, ctx)) {op : Op UInt32}
    (hspares : op.Spares slot ssrc)
    (hslots : slotsOf t.connections = op.apply (slotsOf s.connections))
    (hkept : ∀ ctx', netCtxIsUsed ctx = true → s.connections[slot]? = some ctx →
      t.connections[slot]? = some ctx' → netCtxIsUsed ctx' = true → SameSession ctx ctx') :
    ∃ ctx', netCtxFindBySsrc t.connections ssrc = some (slot, ctx') ∧ SameSession ctx ctx' := by
  have hfirst := (findBySsrc_firstAt.mp ⟨ctx, hfind⟩).apply hspares
  rw [← hslots] at hfirst
  obtain ⟨ctx', hfind'⟩ := findBySsrc_firstAt.mpr hfirst
  obtain ⟨hctx, hwanted⟩ := find_some hfind
  obtain ⟨hctx', hwanted'⟩ := find_some hfind'
  exact ⟨ctx', hfind', hkept ctx' (Bool.and_eq_true_iff.mp hwanted).1 hctx hctx'
    (Bool.and_eq_true_iff.mp hwanted').1⟩

/-- A call goes through, and the session goes on. -/
theorem call_spared (hs : s.Valid) (hjournals : JournalsValid s.connections) {ctx : NetCtx}
    (hfind : netCtxFindBySsrc s.connections ssrc = some (slot, ctx)) {call : DaemonCall}
    (hcall : Spared slot ssrc s call) :
    ∃ t effects ctx', daemonCall host s call = .ok (t, effects) ∧ t.Valid ∧
      JournalsValid t.connections ∧ netCtxFindBySsrc t.connections ssrc = some (slot, ctx') ∧
      SameSession ctx ctx' := by
  cases call with
  | read moment d =>
    obtain ⟨hmax, hcomplete, hspares⟩ := hcall
    obtain ⟨t, effects, hok⟩ : ∃ t effects, netSocketRead host moment s d = .ok (t, effects) := by
      by_cases hempty : d.packet = []
      · exact ⟨s, [], by simp [netSocketRead, hempty, pure, Except.pure]⟩
      · exact read_of_handled hs host moment (List.length_pos_iff.mpr hempty) hmax
          (hcomplete.resolve_left hempty)
    have hkept : Kept (fun ctx => (ctx.sendSsrc, ctx.initiator, ctx.start, ctx.controlAddress))
        s.connections t.connections :=
      read_kept hs hmax hok (fun _ _ _ => rfl) (fun _ _ => rfl) fun _ _ => rfl
    obtain ⟨ctx', hfind', hsame⟩ := find_apply hfind hspares (read_slots hs hmax hok)
      fun ctx' hused hctx hctx' hused' => by
        have hparts := hkept slot ctx ctx' hctx hused hctx' hused'
        simp only [Prod.mk.injEq] at hparts
        exact ⟨hparts.1, hparts.2.1, hparts.2.2.1, hparts.2.2.2⟩
    exact ⟨t, effects, ctx', hok, read_valid hs hmax hok,
      (read_changes hok).journals_valid hjournals, hfind', hsame⟩
  | send clock command originator =>
    obtain ⟨event, hevent⟩ := (senderEvent_iff command).mpr hcall
    obtain ⟨t, effects, hok, ht⟩ := sendSingle_ok host clock hjournals hevent originator
    have hsession : sessionCall host s (.daemon (.send clock command originator)) =
        .ok (⟨t, s.sockets⟩, effects) := by
      simp only [sessionCall, daemonCall, hok, bind, Except.bind, pure, Except.pure]
    have hvalid : NetState.Valid ⟨t, s.sockets⟩ := by
      refine ⟨hs.sockets, fun other hother => ?_⟩
      obtain ⟨i, old, hold, hserved⟩ := send_served hsession hother
      rw [hserved.same.midiState]
      exact hs.parsers old (List.mem_of_getElem? hold)
    have hidle : Op.Spares slot ssrc .idle := trivial
    obtain ⟨ctx', hfind', hsame⟩ := find_apply hfind hidle (send_slots hsession)
      fun ctx' _ hctx hctx' _ => send_session hok hctx hctx'
    exact ⟨⟨t, s.sockets⟩, effects, ctx', hsession, hvalid, ht, hfind', hsame⟩

variable {e : SyncEnd}

theorem SyncEnd.Open.call (h : e.Open ssrc s) {call : DaemonCall}
    (hcall : Spared e.slot ssrc s call) :
    ∃ t effects, daemonCall e.host s call = .ok (t, effects) ∧ e.Open ssrc t := by
  obtain ⟨ctx, hfind, hssrc, hstart⟩ := h.here
  obtain ⟨t, effects, ctx', hok, ht, hjournals, hfind', hsame⟩ :=
    call_spared h.valid h.journals hfind hcall
  exact ⟨t, effects, hok, ht, hjournals, ctx', hfind', hsame.sendSsrc.trans hssrc,
    hsame.start.trans hstart⟩

variable {sync : NetApplemidiSync}

/-- A synchronisation that is not the last one of an exchange is answered. -/
theorem SyncEnd.Open.answers (h : e.Open ssrc s) (hssrc : sync.ssrc = ssrc)
    (hcount : sync.count ≠ 2) (moment : NetMoment) {d : Datagram}
    (hpacket : d.packet = syncPacket sync) :
    ∃ t effects ctx, netSocketRead e.host moment s d = .ok (t, effects) ∧ e.Open ssrc t ∧
      ctx.sendSsrc = e.ssrc ∧ ctx.start = e.start ∧
      datagramsSent effects = [syncPacket (applemidiSyncAnswer moment ctx sync)] ∧
      datagramEstimate ssrc s.connections d = none := by
  obtain ⟨ctx, hfind, hsendSsrc, hstart⟩ := h.here
  obtain ⟨t, answer, hok, ht, hsame, hanswer⟩ := read_sync h.valid e.host moment hpacket
  rw [← hssrc] at hfind
  cases hanswer.symm.trans (syncResponder_answers hfind hcount)
  refine ⟨t, _, ctx, hok, ⟨ht, hsame ▸ h.journals, hsame ▸ h.here⟩, hsendSsrc, hstart, rfl, ?_⟩
  rw [datagramEstimate_sync s.connections hpacket hssrc, applemidiSyncEstimate, hfind]
  exact if_neg hcount

/-- The last one makes the side that reads it estimate. -/
theorem SyncEnd.Open.estimates (h : e.Open ssrc s) (hssrc : sync.ssrc = ssrc)
    (hcount : sync.count = 2) (moment : NetMoment) {d : Datagram}
    (hpacket : d.packet = syncPacket sync) :
    ∃ t effects, netSocketRead e.host moment s d = .ok (t, effects) ∧ e.Open ssrc t ∧
      datagramsSent effects = [] ∧
      datagramEstimate ssrc s.connections d = some (applemidiSyncOffset sync) := by
  obtain ⟨ctx, hfind, -, -⟩ := h.here
  obtain ⟨t, answer, hok, ht, hsame, hanswer⟩ := read_sync h.valid e.host moment hpacket
  rw [← hssrc] at hfind
  simp only [applemidiSyncResponder, hfind, if_pos hcount, Except.ok.injEq] at hanswer
  subst hanswer
  refine ⟨t, _, hok, ⟨ht, hsame ▸ h.journals, hsame ▸ h.here⟩, rfl, ?_⟩
  rw [datagramEstimate_sync s.connections hpacket hssrc, applemidiSyncEstimate, hfind]
  exact if_pos hcount

end Calls

section Estimate

variable {e : SyncEnds} {sync : NetApplemidiSync} {a b c : ℕ}

end Estimate

section Exchange
variable (e : SyncEnds) (log : List SyncEvent) (time : ℕ)

/-- A synchronisation in which the inviting side asks. -/
def Asks (packet : List UInt8) : Prop :=
  ∃ a sync, packet = syncPacket sync ∧ sync.ssrc = e.inviting.ssrc ∧ sync.count = 0 ∧
    sync.timestamp1 = e.inviting.stamp a ∧ a ≤ time ∧ List.Sublist [.asked a] log

/-- A synchronisation in which the invited side answers. -/
def Answers (packet : List UInt8) : Prop :=
  ∃ a b sync, packet = syncPacket sync ∧ sync.ssrc = e.invited.ssrc ∧ sync.count = 1 ∧
    sync.timestamp1 = e.inviting.stamp a ∧ sync.timestamp2 = e.invited.stamp b ∧
    a ≤ b ∧ b ≤ time ∧ List.Sublist [.asked a, .answered b] log

/-- A synchronisation in which the inviting side replies. -/
def Replies (packet : List UInt8) : Prop :=
  ∃ a b c sync, packet = syncPacket sync ∧ sync.ssrc = e.inviting.ssrc ∧ sync.count = 2 ∧
    sync.timestamp1 = e.inviting.stamp a ∧ sync.timestamp2 = e.invited.stamp b ∧
    sync.timestamp3 = e.inviting.stamp c ∧ a ≤ b ∧ b ≤ c ∧ c ≤ time ∧
    List.Sublist [.asked a, .answered b, .replied c] log

/-- The estimate comes from a whole exchange, and is as good as its round trip is short. -/
def Estimates (offset : Int64) : Prop :=
  ∃ a b c : ℕ, List.Sublist [.asked a, .answered b, .replied c] log ∧ a ≤ b ∧ b ≤ c ∧
    |2 * (offset.toInt - e.offset)| ≤ c - a + 1

variable {e log time}

theorem Asks.later {packet : List UInt8} (h : Asks e log time packet) (now : List SyncEvent)
    {then' : ℕ} (hle : time ≤ then') : Asks e (log ++ now) then' packet := by
  obtain ⟨a, sync, hpacket, hssrc, hcount, hfirst, ha, hlog⟩ := h
  exact ⟨a, sync, hpacket, hssrc, hcount, hfirst, ha.trans hle,
    hlog.trans (List.sublist_append_left log now)⟩

theorem Answers.later {packet : List UInt8} (h : Answers e log time packet)
    (now : List SyncEvent) {then' : ℕ} (hle : time ≤ then') :
    Answers e (log ++ now) then' packet := by
  obtain ⟨a, b, sync, hpacket, hssrc, hcount, hfirst, hsecond, hab, hb, hlog⟩ := h
  exact ⟨a, b, sync, hpacket, hssrc, hcount, hfirst, hsecond, hab, hb.trans hle,
    hlog.trans (List.sublist_append_left log now)⟩

theorem Replies.later {packet : List UInt8} (h : Replies e log time packet)
    (now : List SyncEvent) {then' : ℕ} (hle : time ≤ then') :
    Replies e (log ++ now) then' packet := by
  obtain ⟨a, b, c, sync, hpacket, hssrc, hcount, hfirst, hsecond, hthird, hab, hbc, hc, hlog⟩ := h
  exact ⟨a, b, c, sync, hpacket, hssrc, hcount, hfirst, hsecond, hthird, hab, hbc, hc.trans hle,
    hlog.trans (List.sublist_append_left log now)⟩

end Exchange

/-- What the datagrams carry and what has been estimated so far. -/
structure SyncSession.Holds (e : SyncEnds) (s : SyncSession) (log : List SyncEvent) : Prop extends
    s.Open e where
  toInvited : ∀ packet ∈ s.toInvited, Asks e log s.time packet ∨ Replies e log s.time packet
  toInviting : ∀ packet ∈ s.toInviting, Answers e log s.time packet
  estimates : ∀ n offset, log[n]? = some (.estimated offset) → Estimates e (log.take n) offset

section Steps
variable {e : SyncEnds} {s : SyncSession} {log : List SyncEvent}

/-- A step goes through and keeps what holds. -/
def SyncSession.Steps (e : SyncEnds) (s : SyncSession) (log : List SyncEvent) (move : SyncMove) :
    Prop :=
  ∃ t now, syncStep e s move = .ok (t, now) ∧ t.Holds e (log ++ now)

/-- Nothing has been estimated in a step but what holds of the steps before. -/
theorem estimates_append {now : List SyncEvent}
    (h : ∀ n offset, log[n]? = some (.estimated offset) → Estimates e (log.take n) offset)
    (hnow : ∀ n offset, now[n]? = some (.estimated offset) →
      Estimates e (log ++ now.take n) offset) (n : ℕ) (offset : Int64)
    (hn : (log ++ now)[n]? = some (.estimated offset)) :
    Estimates e ((log ++ now).take n) offset := by
  by_cases hlt : n < log.length
  · rw [List.getElem?_append_left hlt] at hn
    rw [List.take_append_of_le_length hlt.le]
    exact h n offset hn
  · rw [List.getElem?_append_right (not_lt.mp hlt)] at hn
    rw [List.take_append, List.take_of_length_le (not_lt.mp hlt)]
    exact hnow _ offset hn

/-- A step in which nothing is sent or estimated. -/
theorem SyncSession.Holds.quiet (h : s.Holds e log) {t : SyncSession} (hopen : t.Open e)
    (htime : s.time ≤ t.time) (hinvited : t.toInvited = s.toInvited)
    (hinviting : t.toInviting = s.toInviting) : t.Holds e (log ++ []) := by
  refine ⟨hopen, fun packet hpacket => ?_, fun packet hpacket => ?_, ?_⟩
  · exact (h.toInvited packet (hinvited ▸ hpacket)).imp (·.later [] htime) (·.later [] htime)
  · exact (h.toInviting packet (hinviting ▸ hpacket)).later [] htime
  · exact estimates_append h.estimates fun n offset hn => by cases hn

end Steps

end RaveloxMidi
