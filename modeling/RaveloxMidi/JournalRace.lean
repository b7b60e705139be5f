import RaveloxMidi.JournalFeedback

/-!
# The sender and the responder on one connection

Two threads work on a connection. For each command the sender packs the journal,
counts up, sends the packet and adds the event; for each feedback the responder
reads the counter and then, if the feedback has caught up with it, resets the
journal. Each of these six is one critical section, and the threads may take turns
between any two of them. A ledger beside the connection lists the events that the
journal stands for, each with the counter it was added under.
-/
namespace RaveloxMidi
open ByteMemory Transducer

structure LedgerEntry where
  seq : UInt32
  event : JournalEvent
  deriving Repr, DecidableEq

/-- How far the sender is in its pass over the connection. -/
inductive SenderPoint where
  | idle
  | packed (event : MidiEvent) (payload : MidiPayload) (journal : List UInt8)
  | counted (event : MidiEvent) (payload : MidiPayload) (journal : List UInt8)
  | sent (event : MidiEvent)

/-- How far the responder is with a feedback. -/
inductive ResponderPoint where
  | idle
  | read (feedback : NetApplemidiFeedback) (seq : UInt32)

/-- A connection with its two threads, what has been sent on it and the numbers of the
feedbacks received. -/
structure ConnectionThreads where
  ctx : NetCtx
  sender : SenderPoint
  responder : ResponderPoint
  packets : List (List UInt8)
  received : List UInt16
  ledger : List LedgerEntry

inductive ThreadCall where
  | pack (event : MidiEvent) (payload : MidiPayload)
  | count
  | send (now : UInt64)
  | add
  | receive (feedback : NetApplemidiFeedback)
  | finish

/-- An entry that a reset removes, and the feedback received until then. -/
structure Removal where
  entry : LedgerEntry
  received : List UInt16

def MidiEvent.journal? : MidiEvent → Option JournalEvent
  | .note midiNote => some (.note midiNote)
  | .control midiControl => some (.control midiControl)
  | .program midiProgram => some (.program midiProgram)
  | .other => none

/-- What the sender adds to the ledger: nothing if the journal is not written, or refuses
the event. -/
def ledgerEntries (host : NetHost) (seq : UInt32) (event : MidiEvent) : List LedgerEntry :=
  if host.journalWrite then
    (event.journal?.filter JournalEvent.recorded).toList.map fun event => ⟨seq, event⟩
  else []

/-- One critical section. A thread that is somewhere else does nothing. -/
def threadCall (host : NetHost) (s : ConnectionThreads) :
    ThreadCall → Except Fault (ConnectionThreads × List Removal)
  | .pack event payload =>
    match s.sender with
    | .idle => do
      let packed ← netCtxJournalPack s.ctx
      return ({ s with
        ctx := packed.1
        sender := .packed event (midiSenderMarkJournal payload packed.2) packed.2 }, [])
    | _ => .ok (s, [])
  | .count =>
    match s.sender with
    | .packed event payload journal =>
      .ok ({ s with
        ctx := netCtxIncrementSeq s.ctx
        sender := .counted event payload journal }, [])
    | _ => .ok (s, [])
  | .send now =>
    match s.sender with
    | .counted event payload journal => do
      let header := netCtxUpdateRtpFields s.ctx now rtpPacketCreate.header
      let packet ← midiSenderPack header payload journal
      return ({ s with
        sender := .sent event
        packets := s.packets ++ (netCtxSend s.ctx packet false).toList.map Prod.snd }, [])
    | _ => .ok (s, [])
  | .add =>
    match s.sender with
    | .sent event =>
      .ok ({ s with
        ctx := if host.journalWrite then netCtxAddEvent s.ctx event else s.ctx
        sender := .idle
        ledger := s.ledger ++ ledgerEntries host s.ctx.seq event }, [])
    | _ => .ok (s, [])
  | .receive feedback =>
    match s.responder with
    | .idle =>
      .ok ({ s with
        responder := .read feedback s.ctx.seq
        received := s.received ++ [feedback.rtpSeq1] }, [])
    | _ => .ok (s, [])
  | .finish =>
    match s.responder with
    | .read feedback seq =>
      if feedback.rtpSeq1.toUInt32 ≥ seq then
        .ok ({ s with ctx := netCtxJournalReset s.ctx, responder := .idle, ledger := [] },
          s.ledger.map fun entry => ⟨entry, s.received⟩)
      else .ok ({ s with responder := .idle }, [])
    | _ => .ok (s, [])

/-- A connection whose threads have not begun. -/
def threadsStart (ctx : NetCtx) : ConnectionThreads := ⟨ctx, .idle, .idle, [], [], []⟩

/-- Sixteen bits can only confirm numbers below 65536. -/
def Removal.Acknowledged (removal : Removal) : Prop :=
  removal.entry.seq.toNat < 65536 →
    ∃ number ∈ removal.received, removal.entry.seq.toNat ≤ number.toNat

/-- The feedback is for a packet that was sent. -/
def Delivered (s : ConnectionThreads) : ThreadCall → Prop
  | .receive feedback => feedback.rtpSeq1 ∈ s.packets.map packetSeq
  | _ => True

/-- The responder has found the feedback to have caught up, and not reset the journal yet. -/
def AboutToReset (s : ConnectionThreads) (feedback : NetApplemidiFeedback) : Prop :=
  ∃ seq, s.responder = .read feedback seq ∧ seq ≤ feedback.rtpSeq1.toUInt32

/-- While the responder is about to reset the journal, nothing is added to it under a
number above the one confirmed; and the counter does not start again at zero while the
journal has an event with a small number. -/
def KeepsUnconfirmed (host : NetHost) (s : ConnectionThreads) : ThreadCall → Prop
  | .add => ∀ feedback event, AboutToReset s feedback → s.sender = .sent event →
      ∀ entry ∈ ledgerEntries host s.ctx.seq event,
        entry.seq.toNat < 65536 → entry.seq.toNat ≤ feedback.rtpSeq1.toNat
  | .count => ∀ event payload journal, s.sender = .packed event payload journal →
      s.ctx.seq + 1 = 0 → ∀ entry ∈ s.ledger, 65536 ≤ entry.seq.toNat
  | _ => True

theorem ledgerEntries_seq {host : NetHost} {seq : UInt32} {event : MidiEvent} {entry : LedgerEntry}
    (h : entry ∈ ledgerEntries host seq event) : entry.seq = seq := by
  unfold ledgerEntries at h
  split_ifs at h
  · obtain ⟨_, -, rfl⟩ := List.mem_map.mp h
    rfl
  · cases h

theorem addEvent_seq (host : NetHost) (ctx : NetCtx) (event : MidiEvent) :
    (if host.journalWrite then netCtxAddEvent ctx event else ctx).seq = ctx.seq := by
  split_ifs
  · exact (addEvent_same ctx event).2
  · rfl

/-- What one call can do. -/
inductive ThreadStep (host : NetHost) (s : ConnectionThreads) :
    ThreadCall → ConnectionThreads → List Removal → Prop
  | elsewhere (call : ThreadCall) : ThreadStep host s call s []
  | packed {event : MidiEvent} {payload : MidiPayload} {journal : Journal} {octets : List UInt8}
      (h : s.sender = .idle) (hpack : journalPack s.ctx.journal = .ok (journal, octets)) :
      ThreadStep host s (.pack event payload)
        { s with
          ctx := { s.ctx with journal := journal }
          sender := .packed event (midiSenderMarkJournal payload octets) octets } []
  | counted {event : MidiEvent} {payload : MidiPayload} {journal : List UInt8}
      (h : s.sender = .packed event payload journal) :
      ThreadStep host s .count
        { s with ctx := netCtxIncrementSeq s.ctx, sender := .counted event payload journal } []
  | sent {event : MidiEvent} {payload : MidiPayload} {journal : List UInt8} {now : UInt64}
      (h : s.sender = .counted event payload journal) (packets : List (List UInt8)) :
      ThreadStep host s (.send now)
        { s with sender := .sent event, packets := s.packets ++ packets } []
  | added {event : MidiEvent} (h : s.sender = .sent event) :
      ThreadStep host s .add
        { s with
          ctx := if host.journalWrite then netCtxAddEvent s.ctx event else s.ctx
          sender := .idle
          ledger := s.ledger ++ ledgerEntries host s.ctx.seq event } []
  | received {feedback : NetApplemidiFeedback} (h : s.responder = .idle) :
      ThreadStep host s (.receive feedback)
        { s with
          responder := .read feedback s.ctx.seq
          received := s.received ++ [feedback.rtpSeq1] } []
  | reset {feedback : NetApplemidiFeedback} {seq : UInt32}
      (h : s.responder = .read feedback seq) (hcaught : feedback.rtpSeq1.toUInt32 ≥ seq) :
      ThreadStep host s .finish
        { s with ctx := netCtxJournalReset s.ctx, responder := .idle, ledger := [] }
        (s.ledger.map fun entry => ⟨entry, s.received⟩)
  | behind {feedback : NetApplemidiFeedback} {seq : UInt32}
      (h : s.responder = .read feedback seq) :
      ThreadStep host s .finish { s with responder := .idle } []

theorem threadCall_cases {host : NetHost} {s t : ConnectionThreads} {call : ThreadCall}
    {removed : List Removal} (hok : threadCall host s call = .ok (t, removed)) :
    ThreadStep host s call t removed := by
  cases call with
  | pack event payload =>
    cases hpoint : s.sender with
    | idle =>
      simp only [threadCall, hpoint] at hok
      obtain ⟨packed, hpacked, hok⟩ := bind_ok hok
      obtain ⟨journal, hjournal, rfl⟩ := map_ok hpacked
      cases hok
      exact .packed hpoint hjournal
    | packed | counted | sent =>
      simp only [threadCall, hpoint] at hok
      cases hok
      exact .elsewhere _
  | count =>
    cases hpoint : s.sender with
    | packed event payload journal =>
      simp only [threadCall, hpoint] at hok
      cases hok
      exact .counted hpoint
    | idle | counted | sent =>
      simp only [threadCall, hpoint] at hok
      cases hok
      exact .elsewhere _
  | send now =>
    cases hpoint : s.sender with
    | counted event payload journal =>
      simp only [threadCall, hpoint] at hok
      obtain ⟨packet, -, hok⟩ := bind_ok hok
      cases hok
      exact .sent hpoint _
    | idle | packed | sent =>
      simp only [threadCall, hpoint] at hok
      cases hok
      exact .elsewhere _
  | add =>
    cases hpoint : s.sender with
    | sent event =>
      simp only [threadCall, hpoint] at hok
      cases hok
      exact .added hpoint
    | idle | packed | counted =>
      simp only [threadCall, hpoint] at hok
      cases hok
      exact .elsewhere _
  | receive feedback =>
    cases hpoint : s.responder with
    | idle =>
      simp only [threadCall, hpoint] at hok
      cases hok
      exact .received hpoint
    | read =>
      simp only [threadCall, hpoint] at hok
      cases hok
      exact .elsewhere _
  | finish =>
    cases hpoint : s.responder with
    | read feedback seq =>
      simp only [threadCall, hpoint] at hok
      split_ifs at hok with hcaught
      · cases hok
        exact .reset hpoint hcaught
      · cases hok
        exact .behind hpoint
    | idle =>
      simp only [threadCall, hpoint] at hok
      cases hok
      exact .elsewhere _

/-- What the proofs keep of the ledger: no small number is above the counter, nor above
the feedback for which the journal is about to be reset. -/
structure LedgerConfirmed (s : ConnectionThreads) : Prop where
  counted : ∀ entry ∈ s.ledger, entry.seq.toNat < 65536 → entry.seq.toNat ≤ s.ctx.seq.toNat
  received : ∀ feedback seq, s.responder = .read feedback seq → feedback.rtpSeq1 ∈ s.received
  confirmed : ∀ feedback, AboutToReset s feedback → ∀ entry ∈ s.ledger,
    entry.seq.toNat < 65536 → entry.seq.toNat ≤ feedback.rtpSeq1.toNat

theorem succ_toNat {n : UInt32} (h : n + 1 ≠ 0) : (n + 1).toNat = n.toNat + 1 := by
  have hlt := n.toNat_lt
  by_contra hne
  apply h
  apply UInt32.toNat.inj
  rw [UInt32.toNat_add] at hne ⊢
  simp only [UInt32.reduceToNat] at hne ⊢
  omega

section Step
variable {host : NetHost} {s t : ConnectionThreads} {call : ThreadCall} {removed : List Removal}

/-- One step keeps the ledger confirmed, and removes only what has been. -/
theorem step_confirmed (h : LedgerConfirmed s) (hkeeps : KeepsUnconfirmed host s call)
    (hstep : ThreadStep host s call t removed) :
    LedgerConfirmed t ∧ ∀ removal ∈ removed, removal.Acknowledged := by
  obtain ⟨hcounted, hreceived, hconfirmed⟩ := h
  cases hstep with
  | elsewhere => exact ⟨⟨hcounted, hreceived, hconfirmed⟩, by simp⟩
  | packed => exact ⟨⟨hcounted, hreceived, hconfirmed⟩, by simp⟩
  | counted hpoint =>
    refine ⟨⟨fun entry hentry hsmall => ?_, hreceived, hconfirmed⟩, by simp⟩
    by_cases hwrap : s.ctx.seq + 1 = 0
    · exact absurd hsmall (not_lt.mpr (hkeeps _ _ _ hpoint hwrap entry hentry))
    · show entry.seq.toNat ≤ (s.ctx.seq + 1).toNat
      rw [succ_toNat hwrap]
      exact (hcounted entry hentry hsmall).trans (Nat.le_succ _)
  | sent => exact ⟨⟨hcounted, hreceived, hconfirmed⟩, by simp⟩
  | @added event hpoint =>
    refine ⟨⟨fun entry hentry hsmall => ?_, hreceived,
      fun feedback habout entry hentry hsmall => ?_⟩, by simp⟩
    · show entry.seq.toNat ≤
        (if host.journalWrite then netCtxAddEvent s.ctx event else s.ctx).seq.toNat
      rw [addEvent_seq]
      rcases List.mem_append.mp hentry with hold | hnew
      · exact hcounted entry hold hsmall
      · rw [ledgerEntries_seq hnew]
    · rcases List.mem_append.mp hentry with hold | hnew
      · exact hconfirmed feedback habout entry hold hsmall
      · exact hkeeps feedback event habout hpoint entry hnew hsmall
  | @received feedback =>
    refine ⟨⟨hcounted, fun other seq hpoint => ?_, fun other habout entry hentry hsmall => ?_⟩,
      by simp⟩
    · cases hpoint
      exact List.mem_append_right _ (List.mem_singleton_self _)
    · -- the counter was read in this step
      obtain ⟨seq, hpoint, hle⟩ := habout
      cases hpoint
      have hread := UInt32.le_iff_toNat_le.mp hle
      rw [UInt16.toNat_toUInt32] at hread
      exact (hcounted entry hentry hsmall).trans hread
  | @reset feedback seq hpoint hcaught =>
    refine ⟨⟨by simp, by simp, by simp⟩, fun removal hremoval hsmall => ?_⟩
    obtain ⟨entry, hentry, rfl⟩ := List.mem_map.mp hremoval
    exact ⟨feedback.rtpSeq1, hreceived feedback seq hpoint,
      hconfirmed feedback ⟨seq, hpoint, hcaught⟩ entry hentry hsmall⟩
  | behind =>
    refine ⟨⟨hcounted, by simp, ?_⟩, by simp⟩
    rintro other ⟨seq, hpoint, -⟩
    cases hpoint

end Step

/-- In every interleaving in which nothing unconfirmed is added while the responder is
about to reset the journal, and the counter does not start again below such an event, a
reset removes only events that a feedback has confirmed. -/
theorem removed_acknowledged {host : NetHost} (ctx : NetCtx) {calls : List ThreadCall}
    {t : ConnectionThreads} {removed : List Removal}
    (hkeeps : Along (threadCall host) (KeepsUnconfirmed host) (threadsStart ctx) calls)
    (hrun : run (threadCall host) (threadsStart ctx) calls = .ok (t, removed)) :
    ∀ removal ∈ removed, removal.Acknowledged := by
  have hstart : LedgerConfirmed (threadsStart ctx) := by
    refine ⟨by simp [threadsStart], by simp [threadsStart], ?_⟩
    rintro feedback ⟨seq, hpoint, -⟩
    cases hpoint
  exact (run_preserves (fun s call t now hs hcall hok =>
    step_confirmed hs hcall (threadCall_cases hok)) hstart hkeeps hrun).2

/-- The journal stands for the events of the ledger. -/
def Ledgered (s : ConnectionThreads) : Prop :=
  ∃ earlier seq, s.ctx.journal.Reflects ⟨earlier, s.ledger.map LedgerEntry.event, seq⟩

theorem added_ledgered (host : NetHost) {s : ConnectionThreads} (h : Ledgered s)
    (event : MidiEvent) :
    ∃ earlier seq,
      (if host.journalWrite then netCtxAddEvent s.ctx event else s.ctx).journal.Reflects
        ⟨earlier, (s.ledger ++ ledgerEntries host s.ctx.seq event).map LedgerEntry.event, seq⟩ := by
  obtain ⟨earlier, seq, hreflects⟩ := h
  have hadd : ∀ journalEvent : JournalEvent, ∃ seq',
      (midiJournalAddEvent s.ctx.journal s.ctx.seq journalEvent).Reflects
        ⟨earlier, s.ledger.map LedgerEntry.event ++
          ((some journalEvent).filter JournalEvent.recorded).toList, seq'⟩ := by
    intro journalEvent
    obtain ⟨journal, hcall, hnext⟩ := hreflects.call (.add s.ctx.seq journalEvent)
    obtain ⟨rfl, -⟩ := Prod.mk.inj (Except.ok.inj hcall)
    simp only [JournalHistory.step, JournalHistory.call] at hnext
    by_cases hrecorded : journalEvent.recorded = true
    · rw [if_pos hrecorded] at hnext
      exact ⟨s.ctx.seq.toUInt16, by simpa [Option.filter, hrecorded] using hnext⟩
    · rw [if_neg hrecorded] at hnext
      exact ⟨seq, by simpa [Option.filter, hrecorded] using hnext⟩
  unfold ledgerEntries
  by_cases hwrite : host.journalWrite = true
  · simp only [if_pos hwrite, List.map_append, List.map_map, Function.comp_def, List.map_id']
    cases event with
    | note midiNote => exact ⟨earlier, hadd (.note midiNote)⟩
    | control midiControl => exact ⟨earlier, hadd (.control midiControl)⟩
    | program midiProgram => exact ⟨earlier, hadd (.program midiProgram)⟩
    | other => exact ⟨earlier, seq, by simpa [MidiEvent.journal?, netCtxAddEvent] using hreflects⟩
  · simp only [if_neg hwrite, List.append_nil]
    exact ⟨earlier, seq, hreflects⟩

/-- Whatever the two threads do, the ledger says what is in the journal. -/
theorem run_ledgered {host : NetHost} {ctx : NetCtx} {earlier : List JournalEvent} {seq : UInt16}
    (hctx : ctx.journal.Reflects ⟨earlier, [], seq⟩) {calls : List ThreadCall}
    {t : ConnectionThreads} {removed : List Removal}
    (hrun : run (threadCall host) (threadsStart ctx) calls = .ok (t, removed)) : Ledgered t := by
  have hstep : ∀ (s : ConnectionThreads) (call : ThreadCall) (t : ConnectionThreads)
      (now : List Removal), Ledgered s → True → threadCall host s call = .ok (t, now) →
      Ledgered t ∧ ∀ _ ∈ now, True := by
    intro s call t now hs _ hok
    refine ⟨?_, fun _ _ => trivial⟩
    obtain ⟨before, last, hreflects⟩ := id hs
    cases threadCall_cases hok with
    | elsewhere => exact hs
    | packed _ hpack =>
      obtain ⟨journal, hpacked, hforget, hvalid⟩ := Journal.pack_spec hreflects.valid
      obtain ⟨rfl, -⟩ := Prod.mk.inj (Except.ok.inj (hpack.symm.trans hpacked))
      exact ⟨before, last, hforget.trans hreflects.journal_eq, hvalid⟩
    | counted => exact hs
    | sent => exact hs
    | @added event => exact added_ledgered host hs event
    | received => exact hs
    | reset =>
      obtain ⟨journal, hcall, hnext⟩ := hreflects.call .reset
      obtain ⟨rfl, -⟩ := Prod.mk.inj (Except.ok.inj hcall)
      exact ⟨_, _, hnext⟩
    | behind => exact hs
  exact (run_preserves hstep ⟨earlier, seq, hctx⟩
    (along_of_forall (fun _ _ _ => trivial) _) hrun).1

/-- The four steps of the sender in a row are one pass of its loop. -/
theorem sender_alone {host : NetHost} {s : ConnectionThreads} (hidle : s.sender = .idle)
    {now : UInt64} {event : MidiEvent} {slot : ℕ} {payload payload' : MidiPayload} {ctx' : NetCtx}
    {effects : List NetEffect}
    (hsend : midiSenderSendConnection host now event slot payload s.ctx =
      .ok (ctx', payload', effects)) :
    run (threadCall host) s [.pack event payload, .count, .send now, .add] =
      .ok ({ s with
        ctx := ctx'
        sender := .idle
        packets := s.packets ++ packetsTo slot effects
        ledger := s.ledger ++ ledgerEntries host ctx'.seq event }, []) := by
  obtain ⟨packed, hpacked, hsend⟩ := bind_ok hsend
  obtain ⟨packet, hpacket, hsend⟩ := bind_ok hsend
  cases hsend
  have hsent : packetsTo slot ((netCtxSend (netCtxIncrementSeq packed.1) packet false).toList.map
      fun sent => NetEffect.packet slot sent.1 sent.2) =
        (netCtxSend (netCtxIncrementSeq packed.1) packet false).toList.map Prod.snd := by
    cases netCtxSend (netCtxIncrementSeq packed.1) packet false <;> simp [packetsTo]
  rw [hsent, addEvent_seq]
  simp only [run, threadCall, hidle, hpacked, hpacket, bind, Except.bind, pure, Except.pure,
    List.nil_append]

/-- The two steps of the responder in a row are the responder. -/
theorem responder_alone {host : NetHost} {s : ConnectionThreads} (hidle : s.responder = .idle)
    {connections : List NetCtx} {slot : ℕ} {feedback : NetApplemidiFeedback}
    (hfind : netCtxFindBySsrc connections feedback.ssrc = some (slot, s.ctx)) :
    ∃ t removed, run (threadCall host) s [.receive feedback, .finish] = .ok (t, removed) ∧
      applemidiFeedbackResponder connections (some feedback) = connections.set slot t.ctx := by
  have hslot := (find_some hfind).1
  simp only [run, threadCall, hidle, applemidiFeedbackResponder, applemidiFeedbackResets, hfind]
  by_cases hcaught : feedback.rtpSeq1.toUInt32 ≥ s.ctx.seq
  · simp only [if_pos hcaught]
    exact ⟨_, _, rfl, rfl⟩
  · simp only [if_neg hcaught]
    obtain ⟨hlt, hkept⟩ := List.getElem?_eq_some_iff.mp hslot
    refine ⟨_, _, rfl, ?_⟩
    show connections = connections.set slot s.ctx
    rw [← hkept, List.set_getElem_self hlt]

/-- A host that writes journals. -/
def journalingHost : NetHost := { resolvingHost with journalWrite := true }

def middleC : MidiEvent := .note ⟨0, 9, 60, 100⟩

/-- The sender's part of one command. -/
def senderPass (payload : MidiPayload) : List ThreadCall :=
  [.pack middleC payload, .count, .send 0, .add]

/-- A pass sends one packet and puts the note into the ledger. -/
theorem senderPass_run {s : ConnectionThreads} (hidle : s.sender = .idle)
    (hjournal : s.ctx.journal.Valid) {address : SocketAddress}
    (haddress : s.ctx.dataAddress = some address) {payload : MidiPayload}
    (hpayload : PayloadReady payload) (hb : payload.header.b = false) :
    ∃ ctx' packet, run (threadCall journalingHost) s (senderPass payload) =
        .ok ({ s with
          ctx := ctx'
          sender := .idle
          packets := s.packets ++ [packet]
          ledger := s.ledger ++ ledgerEntries journalingHost ctx'.seq middleC }, []) ∧
      ctx'.seq = s.ctx.seq + 1 ∧ packetSeq packet = ctx'.seq.toUInt16 ∧ ctx'.journal.Valid ∧
      ctx'.dataAddress = some address := by
  obtain ⟨ctx', payload', effects, hsend, hvalid, -⟩ :=
    sendConnection_ok journalingHost 0 middleC 0 hpayload hjournal
  obtain ⟨hsame, hseq, -, packet, rfl, hpacket⟩ := sendConnection_spec hb hsend
  have hrun := sender_alone hidle hsend
  rw [haddress, Option.toList_some, packetsTo_sent, if_pos rfl] at hrun
  exact ⟨ctx', packet, hrun, hseq, by rw [hpacket.seq_eq, hseq], hvalid,
    hsame.dataAddress.trans haddress⟩

/-- The feedback for the packet with the number 2. -/
def feedbackTwo : NetApplemidiFeedback := (⟨7, 0⟩ : NetApplemidiFeedback).setRtpSeq1 2

theorem feedbackTwo_seq : feedbackTwo.rtpSeq1 = 2 := rtpSeq1_set 7 2

/-- A new connection after the first note, which went out under the number 2. -/
theorem first_pass : ∃ created payload t, netCtxCreate journalingHost = some created ∧
    PayloadReady payload ∧ payload.header.b = false ∧
    run (threadCall journalingHost)
        (threadsStart (netCtxSet journalingHost created 7 1 9 5004 [] none 0))
        (senderPass payload) = .ok (t, []) ∧
      t.sender = .idle ∧ t.responder = .idle ∧ t.ctx.seq = 2 ∧ t.ctx.journal.Valid ∧
      t.ctx.dataAddress = some ⟨[], 5005⟩ ∧ t.packets.map packetSeq = [2] ∧
      t.received = [] ∧ t.ledger = ledgerEntries journalingHost 2 middleC := by
  obtain ⟨created, hcreated⟩ : ∃ created, netCtxCreate journalingHost = some created := ⟨_, rfl⟩
  obtain ⟨state, -, hctx⟩ := Option.map_eq_some_iff.mp hcreated
  obtain ⟨payload, hpack, hready⟩ := commandToPayload_ready ⟨0, 0x90, [60, 100]⟩
  have hb := commandToPayload_b hpack
  obtain ⟨ctx', packet, hrun, hseq, hnumber, hvalid, haddress⟩ := senderPass_run
    (s := threadsStart (netCtxSet journalingHost created 7 1 9 5004 [] none 0)) rfl
    (by rw [← hctx]; exact Journal.valid_init) rfl hready hb
  have htwo : ctx'.seq = 2 := by
    rw [hseq, ← hctx]
    rfl
  refine ⟨created, payload, _, hcreated, hready, hb, hrun, rfl, rfl, htwo, hvalid, haddress,
    ?_, rfl, ?_⟩
  · show [packetSeq packet] = [2]
    rw [hnumber, htwo]
    rfl
  · show [] ++ ledgerEntries journalingHost ctx'.seq middleC = _
    rw [htwo, List.nil_append]

/-- The feedback for the first note has caught up; the second note is added before the
journal is reset, and goes with it. -/
theorem unconfirmed_removed : ∃ created payload t removed,
    netCtxCreate journalingHost = some created ∧
    Along (threadCall journalingHost) Delivered
      (threadsStart (netCtxSet journalingHost created 7 1 9 5004 [] none 0))
      (senderPass payload ++ (.receive feedbackTwo :: (senderPass payload ++ [.finish]))) ∧
    run (threadCall journalingHost)
        (threadsStart (netCtxSet journalingHost created 7 1 9 5004 [] none 0))
        (senderPass payload ++ (.receive feedbackTwo :: (senderPass payload ++ [.finish]))) =
      .ok (t, removed) ∧
    ¬ ∀ removal ∈ removed, removal.Acknowledged := by
  obtain ⟨created, payload, t, hcreated, hready, hb, hfirst, hsender, hresponder, hseq, hvalid,
    haddress, hpackets, hreceived, hledger⟩ := first_pass
  obtain ⟨u, hu⟩ : ∃ u : ConnectionThreads, u = { t with
    responder := .read feedbackTwo t.ctx.seq
    received := t.received ++ [feedbackTwo.rtpSeq1] } := ⟨_, rfl⟩
  have hreceive : threadCall journalingHost t (.receive feedbackTwo) = .ok (u, []) := by
    simp only [threadCall, hresponder, hu]
  obtain ⟨ctx', packet, hsecond, hseq', -, -, -⟩ := senderPass_run (s := u)
    (by rw [hu]; exact hsender) (by rw [hu]; exact hvalid) (by rw [hu]; exact haddress) hready hb
  have hthree : ctx'.seq = 3 := by
    rw [hseq', hu]
    show t.ctx.seq + 1 = 3
    rw [hseq]
    rfl
  obtain ⟨v, hv⟩ : ∃ v : ConnectionThreads, v = { u with
    ctx := ctx'
    sender := .idle
    packets := u.packets ++ [packet]
    ledger := u.ledger ++ ledgerEntries journalingHost ctx'.seq middleC } := ⟨_, rfl⟩
  rw [← hv] at hsecond
  have hfinish : threadCall journalingHost v .finish =
      .ok ({ v with ctx := netCtxJournalReset v.ctx, responder := .idle, ledger := [] },
        v.ledger.map fun entry => ⟨entry, v.received⟩) := by
    have hpoint : v.responder = .read feedbackTwo 2 := by
      rw [hv, hu]
      show ResponderPoint.read feedbackTwo t.ctx.seq = _
      rw [hseq]
    have hcaught : feedbackTwo.rtpSeq1.toUInt32 ≥ 2 := by
      rw [feedbackTwo_seq]
      decide
    simp only [threadCall, hpoint, if_pos hcaught]
  have hnumbers : v.received = [2] := by
    rw [hv, hu]
    show t.received ++ [feedbackTwo.rtpSeq1] = [2]
    rw [hreceived, feedbackTwo_seq]
    rfl
  refine ⟨created, payload, _, _, hcreated, ?_,
    run_append_ok hfirst (run_cons_ok hreceive
      (run_append_ok hsecond (run_cons_ok hfinish (run_nil _ _)))), fun hall => ?_⟩
  · refine along_append (along_of_forall (by simp [senderPass, Delivered]) _) fun t' out hrun => ?_
    cases hfirst.symm.trans hrun
    refine ⟨?_, fun _ _ _ => along_of_forall (by simp [senderPass, Delivered]) _⟩
    show feedbackTwo.rtpSeq1 ∈ t.packets.map packetSeq
    rw [hpackets, feedbackTwo_seq]
    exact List.mem_singleton_self _
  · have hentry : (⟨3, .note ⟨0, 9, 60, 100⟩⟩ : LedgerEntry) ∈ v.ledger := by
      rw [hv, hthree]
      exact List.mem_append_right _ (List.mem_singleton_self _)
    obtain ⟨number, hnumber, hle⟩ := hall ⟨⟨3, .note ⟨0, 9, 60, 100⟩⟩, v.received⟩
      (by
        simp only [List.nil_append, List.append_nil]
        exact List.mem_map_of_mem hentry)
      (show (3 : UInt32).toNat < 65536 by decide)
    simp only [hnumbers, List.mem_singleton] at hnumber
    rw [hnumber] at hle
    exact absurd hle (show ¬ (3 : UInt32).toNat ≤ (2 : UInt16).toNat by decide)

/-- The ledger stays empty and the responder idle until the sender adds or a feedback comes. -/
theorem stays_quiet {s t : ConnectionThreads} {call : ThreadCall} {removed : List Removal}
    (hok : threadCall journalingHost s call = .ok (t, removed))
    (hquiet : s.responder = .idle ∧ s.ledger = []) (hadd : call ≠ .add)
    (hreceive : ∀ feedback, call ≠ .receive feedback) : t.responder = .idle ∧ t.ledger = [] := by
  cases threadCall_cases hok with
  | elsewhere => exact hquiet
  | packed => exact hquiet
  | counted => exact hquiet
  | sent => exact hquiet
  | added => exact absurd rfl hadd
  | received => exact absurd rfl (hreceive _)
  | reset => exact ⟨rfl, rfl⟩
  | behind => exact ⟨rfl, hquiet.2⟩

/-- A pass of the sender with no responder about to reset. -/
theorem senderPass_keeps {s : ConnectionThreads} (hresponder : s.responder = .idle)
    (hledger : s.ledger = []) (payload : MidiPayload) :
    Along (threadCall journalingHost) (KeepsUnconfirmed journalingHost) s (senderPass payload) := by
  refine ⟨trivial, fun t₁ _ h₁ => ?_⟩
  have hquiet₁ := stays_quiet h₁ ⟨hresponder, hledger⟩ (by simp) (by simp)
  refine ⟨fun _ _ _ _ _ => by simp [hquiet₁.2], fun t₂ _ h₂ => ?_⟩
  have hquiet₂ := stays_quiet h₂ hquiet₁ (by simp) (by simp)
  refine ⟨trivial, fun t₃ _ h₃ => ⟨?_, fun _ _ _ => trivial⟩⟩
  obtain ⟨hidle₃, -⟩ := stays_quiet h₃ hquiet₂ (by simp) (by simp)
  rintro feedback event ⟨seq, hpoint, -⟩
  rw [hidle₃] at hpoint
  cases hpoint

/-- The first note is confirmed before the journal is reset. -/
theorem removed_acknowledged_first : ∃ created payload t removed,
    netCtxCreate journalingHost = some created ∧
    run (threadCall journalingHost)
        (threadsStart (netCtxSet journalingHost created 7 1 9 5004 [] none 0))
        (senderPass payload ++ [.receive feedbackTwo, .finish]) = .ok (t, removed) ∧
      removed.length = 1 ∧ ∀ removal ∈ removed, removal.Acknowledged := by
  obtain ⟨created, payload, t, hcreated, -, -, hfirst, -, hresponder, hseq, -, -, -, -, hledger⟩ :=
    first_pass
  have hcaught : feedbackTwo.rtpSeq1.toUInt32 ≥ t.ctx.seq := by
    rw [feedbackTwo_seq, hseq]
    decide
  obtain ⟨u, removed, hlast, hlength⟩ : ∃ u removed, run (threadCall journalingHost) t
      [.receive feedbackTwo, .finish] = .ok (u, removed) ∧ removed.length = 1 := by
    simp only [run, threadCall, hresponder, if_pos hcaught]
    refine ⟨_, _, rfl, ?_⟩
    rw [List.append_nil, List.nil_append, List.length_map, hledger]
    rfl
  have hrun := run_append_ok hfirst hlast
  refine ⟨created, payload, u, removed, hcreated, hrun, hlength,
    removed_acknowledged _
      (along_append (senderPass_keeps rfl rfl payload) fun t' out _ => ?_) hrun⟩
  exact along_of_forall (by simp [KeepsUnconfirmed]) t'

end RaveloxMidi
