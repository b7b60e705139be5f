import RaveloxMidi.ClockSync

/-!
# The end of a session

A request ends the main loop, the listener of the ALSA inputs and the thread of the session,
each of them when it comes to look. The main thread waits for the listener, stops the sender
and waits for it, waits for the thread of the session and then takes leave of the remote
side, which gives up its end of the session for this one datagram only. What is read from
the local port and from ALSA only fills the queue of the sender. The lock of the flag is left
out, also that it is destroyed before the thread of the session has ended.
-/
namespace RaveloxMidi
open ByteMemory Transducer SlotTable

/-- How far the main thread is: in its loop, behind it and waiting for the listener, behind the
teardowns of ALSA and of the loop, waiting for the sender that it has stopped, waiting for
the thread of the session, and behind its leave. -/
inductive MainPoint where
  | looping
  | left
  | alsaTornDown
  | loopTornDown
  | senderStopping
  | senderStopped
  | done
  deriving Repr, DecidableEq

/-- The flag of the queue is set. -/
def MainPoint.stopsSender : MainPoint → Bool
  | looping | left | alsaTornDown | loopTornDown => false
  | senderStopping | senderStopped | done => true

/-- A command in the queue of the sender, with the times at which it is sent. -/
structure SendingItem where
  clock : ℕ → UInt64
  command : MidiCommand
  originator : UInt32

/-- Where the thread of the sender is: before the lock of its queue or waiting for data, with an
item in hand, behind the sending of it, and at its end. -/
inductive SendingPoint where
  | locking
  | acting (item : SendingItem)
  | freeing
  | stopped

/-- The side that has invited, with the numbers it sends under, and the remote side. -/
structure EndingSides where
  serviceName : List UInt8
  config : KvTable
  host : NetHost
  slot : ℕ
  ssrc : UInt32
  initiator : UInt32
  peerHost : NetHost
  peerSlot : ℕ
  peerSsrc : UInt32

/-- The two daemons, and what the session has sent from its slot. The listener is there or has
ended. -/
structure Ending where
  point : MainPoint
  shutdown : Bool
  listener : Bool
  sender : SendingPoint
  thread : SyncThread
  here : NetState
  sent : List (List UInt8)
  peer : NetState

/-- What can happen next: a request, a step of the main thread or a datagram that it reads, a
look of the listener at the flag, a step of the sender with what it would find in its
queue, or a step of the thread of the session. The octets of the datagram that arrives are
those of one that was sent. -/
inductive EndingMove where
  | request
  | main
  | read (moment : NetMoment) (d : Datagram)
  | listener
  | sender (queued : Option SendingItem)
  | thread (moment : NetMoment)
  | arrive (n : ℕ) (moment : NetMoment) (d : Datagram)
  | peer (call : DaemonCall)

/-- A datagram has arrived, and the remote side still holds the session or has given it up. -/
inductive EndingEvent where
  | arrived (n : ℕ) (held : Bool)
  deriving DecidableEq

/-- A slot is in use with an SSRC. -/
def holdsSession (slot : ℕ) (ssrc : UInt32) (connections : List NetCtx) : Bool :=
  (slotsOf connections)[slot]? == some (some ssrc)

/-- The end of `main`, with the waits in `raveloxmidi_wait_for_alsa`, in `midi_sender_stop` and in
`remote_connect_teardown`. -/
def endingMain (e : EndingSides) (s : Ending) : Except Fault Ending :=
  match s.point with
  | .looping => .ok { s with point := if s.shutdown then .left else .looping }
  | .left => .ok { s with point := if s.listener then .left else .alsaTornDown }
  | .alsaTornDown => .ok { s with point := .loopTornDown }
  | .loopTornDown => .ok { s with point := .senderStopping }
  | .senderStopping =>
    match s.sender with
    | .stopped => .ok { s with point := .senderStopped }
    | _ => .ok s
  | .senderStopped =>
    match s.thread with
    | .ended => do
      let effects ← remoteConnectTeardown e.serviceName s.here.connections
      return { s with point := .done, sent := s.sent ++ datagramsSent effects }
    | _ => .ok s
  | .done => .ok s

/-- A call of this daemon, and what it sends to the session. -/
def endingCall (e : EndingSides) (s : Ending) (call : DaemonCall) : Except Fault Ending := do
  let done ← daemonCall e.host s.here call
  return { s with here := done.1, sent := s.sent ++ packetsTo e.slot done.2 }

/-- The thread of the sender, `data_queue_handler`. -/
def endingSender (e : EndingSides) (s : Ending) (queued : Option SendingItem) :
    Except Fault Ending :=
  match s.sender with
  | .locking =>
    if s.point.stopsSender then .ok { s with sender := .stopped }
    else
      match queued with
      | none => .ok s
      | some item => .ok { s with sender := .acting item }
  | .acting item => do
    let t ← endingCall e s (.send item.clock item.command item.originator)
    return { t with sender := .freeing }
  | .freeing => .ok { s with sender := .locking }
  | .stopped => .ok s

def endingStep (e : EndingSides) (s : Ending) :
    EndingMove → Except Fault (Ending × List EndingEvent)
  | .request => .ok ({ s with shutdown := true }, [])
  | .main => do
    let t ← endingMain e s
    return (t, [])
  | .thread moment => do
    let done ← remoteConnectSyncThread moment s.shutdown e.serviceName e.config
      s.here.connections s.thread
    return ({ s with thread := done.1, sent := s.sent ++ datagramsSent done.2 }, [])
  | .read moment d =>
    if s.point = .looping then do
      let t ← endingCall e s (.read moment d)
      return (t, [])
    else .ok (s, [])
  | .listener => .ok ({ s with listener := s.listener && !s.shutdown }, [])
  | .sender queued => do
    let t ← endingSender e s queued
    return (t, [])
  | .arrive n moment d =>
    match s.sent[n]? with
    | none => .ok (s, [])
    | some packet => do
      let done ← netSocketRead e.peerHost moment s.peer { d with packet := packet }.received
      return ({ s with peer := done.1 },
        [.arrived n (holdsSession e.peerSlot e.ssrc done.1.connections)])
  | .peer call => do
    let done ← daemonCall e.peerHost s.peer call
    return ({ s with peer := done.1 }, [])

/-- The lookup by name finds the session. -/
def Ending.Named (e : EndingSides) (s : Ending) : Prop :=
  ∃ ctx, netCtxFindByName s.here.connections e.serviceName = .ok (some (e.slot, ctx))

/-- The leave that is taken of the remote side. -/
def EndingSides.IsBye (e : EndingSides) (packet : List UInt8) : Prop :=
  InvPacket netApplemidiCmdEnd e.ssrc e.initiator packet

/-- What the session sends as long as it lasts. -/
def EndingSides.IsPlain (e : EndingSides) (packet : List UInt8) : Prop :=
  (∃ sync, packet = syncPacket sync ∧ sync.ssrc = e.ssrc) ∨ ∃ seq, PacketOf seq e.ssrc packet

/-- The session is established. -/
structure Ending.Open (e : EndingSides) (s : Ending) : Prop where
  thread : s.thread.In e.slot
  valid : s.here.Valid
  journals : JournalsValid s.here.connections
  here : ∃ ctx, netCtxFindBySsrc s.here.connections e.peerSsrc = some (e.slot, ctx) ∧
    ctx.sendSsrc = e.ssrc ∧ ctx.initiator = e.initiator ∧ ctx.controlAddress ≠ none
  peerValid : s.peer.Valid
  peerJournals : JournalsValid s.peer.connections

/-- What has been sent: the leave is the last datagram, and the threads have ended by then. -/
inductive Ending.Sent (e : EndingSides) (s : Ending) : Prop
  | lasting (hpoint : s.point ≠ .done) (hplain : ∀ packet ∈ s.sent, e.IsPlain packet)
  | finished (hpoint : s.point = .done) (hthread : s.thread = .ended) (before : List (List UInt8))
      (bye : List UInt8) (hsent : s.sent = before ++ [bye])
      (hplain : ∀ packet ∈ before, e.IsPlain packet) (hbye : e.IsBye bye)

/-- What the sender has in hand can be read, and it has ended when it has been waited for. -/
structure Ending.Serves (s : Ending) : Prop where
  inHand : ∀ item, s.sender = .acting item → item.command.Readable
  stopped : s.point = .senderStopped ∨ s.point = .done → s.sender = .stopped

structure Ending.Holds (e : EndingSides) (s : Ending) : Prop extends s.Open e where
  sent : s.Sent e
  serves : s.Serves

section Datagrams
variable {e : EndingSides} {packet : List UInt8}

end Datagrams

section Peer
variable {host : NetHost} {s : NetState} {slot : ℕ} {ssrc : UInt32} {ctx : NetCtx}

variable {e : EndingSides}

end Peer

section Steps
variable {e : EndingSides} {s : Ending}

/-- A step goes through, what holds is kept, and what has arrived has ended the session only if
it was the leave. -/
def Ending.Steps (e : EndingSides) (s : Ending) (move : EndingMove) : Prop :=
  ∃ t now, endingStep e s move = .ok (t, now) ∧ t.Holds e ∧ s.sent <+: t.sent ∧
    ∀ n held, .arrived n held ∈ now →
      ∃ packet, s.sent[n]? = some packet ∧ (held = false ↔ e.IsBye packet)

/-- What holds is about the numbers of the session. -/
theorem Ending.Holds.kept (h : s.Holds e) {t : Ending} (hopen : t.Open e)
    (hpoint : t.point = s.point) (hsender : t.sender = s.sender) (hthread : t.thread = s.thread)
    (hsent : t.sent = s.sent) : t.Holds e ∧ s.sent <+: t.sent := by
  have hserves : t.Serves :=
    ⟨by rw [hsender]; exact h.serves.inHand, by rw [hpoint, hsender]; exact h.serves.stopped⟩
  refine ⟨⟨hopen, ?_, hserves⟩, hsent ▸ List.prefix_refl _⟩
  cases h.sent with
  | lasting hlasting hplain => exact .lasting (hpoint ▸ hlasting) (hsent ▸ hplain)
  | finished hdone hended before bye hall hplain hbye =>
    exact .finished (hpoint.trans hdone) (hthread.trans hended) before bye (hsent.trans hall)
      hplain hbye

/-- The numbers of the session are those of the context that its name is found at. -/
theorem Ending.Open.named (h : s.Open e) (hnamed : s.Named e) : ∃ ctx,
    netCtxFindByName s.here.connections e.serviceName = .ok (some (e.slot, ctx)) ∧
      ctx.sendSsrc = e.ssrc ∧ ctx.initiator = e.initiator ∧ ctx.controlAddress ≠ none := by
  obtain ⟨ctx, hname⟩ := hnamed
  obtain ⟨found, hfind, hparts⟩ := h.here
  cases (findByName_slot hname).symm.trans (find_some hfind).1
  exact ⟨ctx, hname, hparts⟩

end Steps

end RaveloxMidi
