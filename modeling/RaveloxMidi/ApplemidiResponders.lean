import RaveloxMidi.NetApplemidi
import RaveloxMidi.NetConnection

/-!
# Answers to AppleMIDI commands

Each responder takes the data of a command, changes the connection table and may
give the octets of an answer. A null pointer is answered with nothing.
-/
namespace RaveloxMidi
open ByteMemory

/-- What a call reads from the clock and draws from the random generator. -/
structure NetMoment where
  now : UInt64
  random : ℕ → UInt32

/-- What the daemon does besides changing its state: an answer to the sender of a
datagram, a command or an RTP packet sent to the address of a slot, a MIDI
command queued for the sender thread with the SSRC it came from, and the start
of the thread that keeps a remote connection in step. -/
inductive NetEffect where
  | reply (octets : List UInt8)
  | command (slot : ℕ) (address : SocketAddress) (octets : List UInt8)
  | packet (slot : ℕ) (address : SocketAddress) (octets : List UInt8)
  | queue (command : MidiCommand) (originator : UInt32)
  | syncStart
  deriving Repr, DecidableEq

/-- "RaveloxMIDI" -/
def defaultServiceName : List UInt8 :=
  [0x52, 0x61, 0x76, 0x65, 0x6c, 0x6f, 0x78, 0x4d, 0x49, 0x44, 0x49]

/-- "RaveloxMIDIClient" -/
def defaultClientName : List UInt8 := defaultServiceName ++ [0x43, 0x6c, 0x69, 0x65, 0x6e, 0x74]

def netResponseInv (ssrc initiator : UInt32) (name : Option (List UInt8)) :
    Except Fault (Option (List UInt8)) :=
  netApplemidiPack ((netApplemidiCmdCreate netApplemidiCmdInv).setData
    (.inv ⟨ssrc, 2, initiator, some (name.getD defaultClientName)⟩))

def netResponseSync (moment : NetMoment) (sendSsrc : UInt32) (start : UInt64) :
    Except Fault (Option (List UInt8)) :=
  netApplemidiPack ((netApplemidiCmdCreate netApplemidiCmdSync).setData
    (.sync ⟨sendSsrc, 0, fun _ => 0, moment.now - start, (moment.random 0).toUInt64,
      (moment.random 1).toUInt64⟩))

/-- The acceptance of an invitation, from the context it is answered for. -/
def applemidiAccept (host : NetHost) (ctx : NetCtx) : Except Fault (Option (List UInt8)) :=
  netApplemidiPack ((netApplemidiCmdCreate netApplemidiCmdAccept).setData
    (.inv ⟨ctx.sendSsrc, 2, ctx.initiator, some (host.serviceName.getD defaultServiceName)⟩))

/-- The context an invitation is for, registered if there is none. -/
def applemidiInvContext (host : NetHost) (moment : NetMoment) (connections : List NetCtx)
    (ipAddress : List UInt8) (port : UInt16) (inv : NetApplemidiInv) :
    List NetCtx × Option (ℕ × NetCtx) :=
  match netCtxFindBySsrc connections inv.ssrc with
  | some found => (connections, some found)
  | none => netCtxRegister host connections inv.ssrc inv.initiator ipAddress port inv.name
      (moment.random 0) moment.now

def applemidiInvResponder (host : NetHost) (moment : NetMoment) (connections : List NetCtx)
    (ipAddress : List UInt8) (port : UInt16) :
    Option NetApplemidiInv → Except Fault (List NetCtx × Option (List UInt8))
  | none => .ok (connections, none)
  | some inv =>
    let found := applemidiInvContext host moment connections ipAddress port inv
    match found.2 with
    | none => .ok (found.1, none)
    | some (_, ctx) => do
      let answer ← applemidiAccept host ctx
      return (found.1, answer)

/-- A command sent to one of the two ports of a context. -/
def netCtxSendCommand (slot : ℕ) (ctx : NetCtx) (useControl : Bool) :
    Option (List UInt8) → Except Fault (List NetEffect)
  | none => .error .nullPointer
  | some buffer => .ok ((netCtxSend ctx buffer useControl).toList.map fun sent =>
      .command slot sent.1 sent.2)

/-- The switch on the status of the context. -/
def applemidiOkAdvance (host : NetHost) (moment : NetMoment) (slot : ℕ) (ctx : NetCtx)
    (okPacket : NetApplemidiInv) : Except Fault (NetCtx × List NetEffect) :=
  match ctx.status with
  | .firstInv => do
    let response ← netResponseInv ctx.sendSsrc ctx.initiator host.serviceName
    let ctx := { ctx with ssrc := okPacket.ssrc }
    let sent ← netCtxSendCommand slot ctx false response
    return ({ ctx with status := .secondInv }, sent)
  | .secondInv => do
    let response ← netResponseSync moment ctx.sendSsrc ctx.start
    let sent ← netCtxSendCommand slot ctx true response
    return ({ ctx with status := .remoteConnection }, sent ++ [.syncStart])
  | _ => .ok (ctx, [])

def applemidiOkResponder (host : NetHost) (moment : NetMoment) (connections : List NetCtx) :
    Option NetApplemidiInv → Except Fault (List NetCtx × List NetEffect)
  | none => .ok (connections, [])
  | some okPacket =>
    match netCtxFindByInitiator connections okPacket.initiator with
    | none => .ok (connections, [])
    | some (slot, ctx) => do
      let (ctx, effects) ← applemidiOkAdvance host moment slot ctx okPacket
      return (connections.set slot ctx, effects)

def applemidiByResponder (connections : List NetCtx) : Option NetApplemidiInv → List NetCtx
  | none => connections
  | some inv =>
    match netCtxFindBySsrc connections inv.ssrc with
    | none => connections
    | some (slot, ctx) => connections.set slot (netCtxReset ctx)

/-- The synchronisation that answers another one. -/
def applemidiSyncAnswer (moment : NetMoment) (ctx : NetCtx) (sync : NetApplemidiSync) :
    NetApplemidiSync :=
  let count := if sync.count < 2 then sync.count + 1 else 0
  let localTimestamp := moment.now - ctx.start
  { sync with
    ssrc := ctx.sendSsrc
    count := count
    timestamp1 := if count = 0 then localTimestamp else sync.timestamp1
    timestamp2 := if count = 1 then localTimestamp else sync.timestamp2
    timestamp3 := if count = 2 then localTimestamp else sync.timestamp3 }

def applemidiSyncResponder (moment : NetMoment) (connections : List NetCtx) :
    Option NetApplemidiSync → Except Fault (Option (List UInt8))
  | none => .ok none
  | some sync =>
    match netCtxFindBySsrc connections sync.ssrc with
    | none => .ok none
    | some (_, ctx) =>
      if sync.count = 2 then .ok none
      else netApplemidiPack ((netApplemidiCmdCreate netApplemidiCmdSync).setData
        (.sync (applemidiSyncAnswer moment ctx sync)))

/-- The context whose journal a feedback resets: sixteen bits are compared with
thirty-two. -/
def applemidiFeedbackResets (connections : List NetCtx) (feedback : NetApplemidiFeedback) :
    Option (ℕ × NetCtx) :=
  match netCtxFindBySsrc connections feedback.ssrc with
  | none => none
  | some (slot, ctx) => if feedback.rtpSeq1.toUInt32 ≥ ctx.seq then some (slot, ctx) else none

def applemidiFeedbackResponder (connections : List NetCtx) :
    Option NetApplemidiFeedback → List NetCtx
  | none => connections
  | some feedback =>
    match applemidiFeedbackResets connections feedback with
    | none => connections
    | some (slot, ctx) => connections.set slot (netCtxJournalReset ctx)

def applemidiFeedbackCreate (ssrc : UInt32) (rtpSeq : UInt16) :
    Except Fault (Option (List UInt8)) :=
  netApplemidiPack ((netApplemidiCmdCreate netApplemidiCmdFeedback).setData
    (.feedback ((⟨ssrc, 0⟩ : NetApplemidiFeedback).setRtpSeq1 rtpSeq)))

/-- The octets of a feedback for a packet. -/
def feedbackOctets (ssrc : UInt32) (rtpSeq : UInt16) : List UInt8 :=
  let feedback := (⟨ssrc, 0⟩ : NetApplemidiFeedback).setRtpSeq1 rtpSeq
  commandOctets 0xffff netApplemidiCmdFeedback ++
    (putUint32 feedback.ssrc ++ putUint32 feedback.appleSeq)

theorem feedbackCreate_ok (ssrc : UInt32) (rtpSeq : UInt16) :
    applemidiFeedbackCreate ssrc rtpSeq = .ok (some (feedbackOctets ssrc rtpSeq)) :=
  packFeedback_ok 0xffff _

theorem accept_ok (host : NetHost) (ctx : NetCtx) :
    ∃ octets, applemidiAccept host ctx = .ok (some octets) ∧
      InvPacket netApplemidiCmdAccept ctx.sendSsrc ctx.initiator octets :=
  ⟨_, packInv_ok 0xffff (by decide) _, .packed netApplemidiCmdAccept
    ⟨ctx.sendSsrc, 2, ctx.initiator, some (host.serviceName.getD defaultServiceName)⟩⟩

theorem responseInv_ok (ssrc initiator : UInt32) (name : Option (List UInt8)) :
    ∃ octets, netResponseInv ssrc initiator name = .ok (some octets) ∧
      InvPacket netApplemidiCmdInv ssrc initiator octets :=
  ⟨_, packInv_ok 0xffff (by decide) _, .packed netApplemidiCmdInv
    ⟨ssrc, 2, initiator, some (name.getD defaultClientName)⟩⟩

theorem responseSync_ok (moment : NetMoment) (sendSsrc : UInt32) (start : UInt64) :
    ∃ octets, netResponseSync moment sendSsrc start = .ok (some octets) ∧ SyncPacket octets :=
  ⟨_, packSync_ok 0xffff _, .packed _⟩

/-- An invitation is answered with an acceptance or nothing. -/
theorem invResponder_ok (host : NetHost) (moment : NetMoment) (connections : List NetCtx)
    (ipAddress : List UInt8) (port : UInt16) (data : Option NetApplemidiInv) :
    ∃ t answer, applemidiInvResponder host moment connections ipAddress port data =
      .ok (t, answer) := by
  cases data with
  | none => exact ⟨_, _, rfl⟩
  | some inv =>
    cases hctx : (applemidiInvContext host moment connections ipAddress port inv).2 with
    | none =>
      refine ⟨(applemidiInvContext host moment connections ipAddress port inv).1, none, ?_⟩
      simp only [applemidiInvResponder, hctx]
    | some found =>
      obtain ⟨octets, haccept, -⟩ := accept_ok host found.2
      refine ⟨(applemidiInvContext host moment connections ipAddress port inv).1, some octets, ?_⟩
      simp only [applemidiInvResponder, hctx, haccept, bind, Except.bind, pure, Except.pure]

section Advance
variable (host : NetHost) (moment : NetMoment) (slot : ℕ) {ctx : NetCtx}
  (okPacket : NetApplemidiInv)

/-- The first OK names the other side and is answered with an INV to its data port. -/
theorem okAdvance_first (hstatus : ctx.status = .firstInv) :
    ∃ octets, InvPacket netApplemidiCmdInv ctx.sendSsrc ctx.initiator octets ∧
      applemidiOkAdvance host moment slot ctx okPacket =
        .ok ({ ctx with ssrc := okPacket.ssrc, status := .secondInv },
          (netCtxSend ctx octets false).toList.map fun sent => .command slot sent.1 sent.2) := by
  obtain ⟨octets, hpack, hpacket⟩ :=
    responseInv_ok ctx.sendSsrc ctx.initiator host.serviceName
  refine ⟨octets, hpacket, ?_⟩
  simp only [applemidiOkAdvance, hstatus, hpack, netCtxSendCommand, netCtxSend, bind, Except.bind,
    pure, Except.pure]

/-- The second one establishes the connection. -/
theorem okAdvance_second (hstatus : ctx.status = .secondInv) :
    ∃ octets, SyncPacket octets ∧ applemidiOkAdvance host moment slot ctx okPacket =
      .ok ({ ctx with status := .remoteConnection },
        (netCtxSend ctx octets true).toList.map (fun sent => .command slot sent.1 sent.2) ++
          [.syncStart]) := by
  obtain ⟨octets, hpack, hpacket⟩ := responseSync_ok moment ctx.sendSsrc ctx.start
  refine ⟨octets, hpacket, ?_⟩
  simp only [applemidiOkAdvance, hstatus, hpack, netCtxSendCommand, bind, Except.bind, pure,
    Except.pure]

/-- A context that waits for no OK is left alone. -/
theorem okAdvance_other (hfirst : ctx.status ≠ .firstInv) (hsecond : ctx.status ≠ .secondInv) :
    applemidiOkAdvance host moment slot ctx okPacket = .ok (ctx, []) := by
  cases hstatus : ctx.status with
  | firstInv => exact absurd hstatus hfirst
  | secondInv => exact absurd hstatus hsecond
  | idle | remoteConnection | unused => simp only [applemidiOkAdvance, hstatus]

theorem okAdvance_ok (ctx : NetCtx) :
    ∃ t effects, applemidiOkAdvance host moment slot ctx okPacket = .ok (t, effects) := by
  by_cases hfirst : ctx.status = .firstInv
  · obtain ⟨octets, -, hok⟩ := okAdvance_first host moment slot okPacket hfirst
    exact ⟨_, _, hok⟩
  by_cases hsecond : ctx.status = .secondInv
  · obtain ⟨octets, -, hok⟩ := okAdvance_second host moment slot okPacket hsecond
    exact ⟨_, _, hok⟩
  · exact ⟨_, _, okAdvance_other host moment slot okPacket hfirst hsecond⟩

end Advance

/-- What an OK does to a context, and what is sent for it. -/
inductive OkAdvanced (slot : ℕ) (ctx : NetCtx) (okPacket : NetApplemidiInv) :
    NetCtx → List NetEffect → Prop
  | first (hstatus : ctx.status = .firstInv) {octets : List UInt8}
      (hpacket : InvPacket netApplemidiCmdInv ctx.sendSsrc ctx.initiator octets) :
      OkAdvanced slot ctx okPacket { ctx with ssrc := okPacket.ssrc, status := .secondInv }
        ((netCtxSend ctx octets false).toList.map fun sent => .command slot sent.1 sent.2)
  | second (hstatus : ctx.status = .secondInv) {octets : List UInt8}
      (hpacket : SyncPacket octets) :
      OkAdvanced slot ctx okPacket { ctx with status := .remoteConnection }
        ((netCtxSend ctx octets true).toList.map (fun sent => .command slot sent.1 sent.2) ++
          [.syncStart])
  | other (hfirst : ctx.status ≠ .firstInv) (hsecond : ctx.status ≠ .secondInv) :
      OkAdvanced slot ctx okPacket ctx []

theorem okAdvance_outcome {host : NetHost} {moment : NetMoment} {slot : ℕ} {ctx next : NetCtx}
    {okPacket : NetApplemidiInv} {effects : List NetEffect}
    (hok : applemidiOkAdvance host moment slot ctx okPacket = .ok (next, effects)) :
    OkAdvanced slot ctx okPacket next effects := by
  by_cases hfirst : ctx.status = .firstInv
  · obtain ⟨octets, hpacket, hadvance⟩ := okAdvance_first host moment slot okPacket hfirst
    cases hadvance.symm.trans hok
    exact .first hfirst hpacket
  by_cases hsecond : ctx.status = .secondInv
  · obtain ⟨octets, hpacket, hadvance⟩ := okAdvance_second host moment slot okPacket hsecond
    cases hadvance.symm.trans hok
    exact .second hsecond hpacket
  · cases (okAdvance_other host moment slot okPacket hfirst hsecond).symm.trans hok
    exact .other hfirst hsecond

theorem okResponder_ok (host : NetHost) (moment : NetMoment) (connections : List NetCtx)
    (data : Option NetApplemidiInv) :
    ∃ t effects, applemidiOkResponder host moment connections data = .ok (t, effects) := by
  cases data with
  | none => exact ⟨_, _, rfl⟩
  | some okPacket =>
    cases hfind : netCtxFindByInitiator connections okPacket.initiator with
    | none => exact ⟨connections, [], by simp only [applemidiOkResponder, hfind]⟩
    | some found =>
      obtain ⟨t, effects, hadvance⟩ := okAdvance_ok host moment found.1 okPacket found.2
      refine ⟨connections.set found.1 t, effects, ?_⟩
      simp only [applemidiOkResponder, hfind, hadvance, bind, Except.bind, pure, Except.pure]

theorem syncResponder_ok (moment : NetMoment) (connections : List NetCtx)
    (data : Option NetApplemidiSync) :
    ∃ answer, applemidiSyncResponder moment connections data = .ok answer ∧
      ∀ octets ∈ answer, SyncPacket octets := by
  cases data with
  | none => exact ⟨none, rfl, by simp⟩
  | some sync =>
    cases hfind : netCtxFindBySsrc connections sync.ssrc with
    | none => exact ⟨none, by simp only [applemidiSyncResponder, hfind], by simp⟩
    | some found =>
      by_cases hdone : sync.count = 2
      · exact ⟨none, by simp only [applemidiSyncResponder, hfind, if_pos hdone], by simp⟩
      · have hpack := packSync_ok 0xffff (applemidiSyncAnswer moment found.2 sync)
        refine ⟨some (commandOctets 0xffff netApplemidiCmdSync ++
          syncOctets (applemidiSyncAnswer moment found.2 sync)), ?_, ?_⟩
        · simp only [applemidiSyncResponder, hfind, if_neg hdone]
          exact hpack
        · rintro octets hoctets
          cases hoctets
          exact .packed _

end RaveloxMidi
