import RaveloxMidi.JournalRace
import RaveloxMidi.SessionLink

/-!
# The journal behind each packet

A session is told by a history: the commands that were journaled before the last
feedback that trimmed the journal, and those since. Each packet carries the journal
of the history before it. Whatever else the daemon reads and sends to other
connections, the packets of a connection that stays in use are those of its history.
-/
namespace RaveloxMidi
open ByteMemory Transducer

/-- What happens to the session in a slot. -/
inductive SlotEvent where
  | sent (now : UInt64) (command : MidiCommand) (event : MidiEvent)
  | trimmed

/-- The feedback in a datagram. -/
def datagramFeedback (d : Datagram) : Option NetApplemidiFeedback :=
  if IsApplemidi d.packet then
    match (netApplemidiUnpack ⟨d.packet, d.beyond⟩).command with
    | some ⟨_, code, .feedback feedback⟩ =>
      if code = netApplemidiCmdFeedback then some feedback else none
    | _ => none
  else none

/-- The slot whose journal a datagram trims. -/
def feedbackTrims (connections : List NetCtx) (d : Datagram) : Option ℕ :=
  ((datagramFeedback d).bind (applemidiFeedbackResets connections)).map Prod.fst

def slotEvents (slot : ℕ) (connections : List NetCtx) : DaemonCall → List SlotEvent
  | .read _ d => if feedbackTrims connections d = some slot then [.trimmed] else []
  | .send clock command originator =>
    match connections[slot]?, midiSenderEvent command with
    | some ctx, .ok event =>
      if ctx.ssrc = originator then [] else [.sent (clock slot) command event]
    | _, _ => []

/-- What happens to the session in a slot during a run. -/
def slotLog (host : NetHost) (slot : ℕ) : NetState → List DaemonCall → List SlotEvent
  | _, [] => []
  | s, call :: calls =>
    slotEvents slot s.connections call ++
      match daemonCall host s call with
      | .ok (t, _) => slotLog host slot t calls
      | .error _ => []

/-- A session: the number of the last packet, and the history behind its journal. -/
structure SlotSession where
  seq : UInt32
  history : JournalHistory

/-- A command is journaled after its packet has been sent. -/
def SlotSession.step (host : NetHost) (ctx : NetCtx) (s : SlotSession) :
    SlotEvent → SlotSession × List (Except Fault (List UInt8))
  | .sent now command event =>
    let sent : Transmission := ⟨{ ctx with seq := s.seq }, now, command, s.history.journal.octets⟩
    (⟨s.seq + 1, if host.journalWrite then
        match event.journal? with
        | some event => s.history.call (.add (s.seq + 1) event)
        | none => s.history
      else s.history⟩, [sent.packet])
  | .trimmed => (⟨s.seq, s.history.call .reset⟩, [])

/-- A context in its session. -/
structure SlotSession.Tracks (ctx : NetCtx) (s : SlotSession) (now : NetCtx) : Prop where
  used : netCtxIsUsed now = true
  sendSsrc : now.sendSsrc = ctx.sendSsrc
  start : now.start = ctx.start
  address : now.dataAddress = ctx.dataAddress
  seq : now.seq = s.seq
  journal : now.journal.Reflects s.history

/-- A call that can be made: the datagram is complete, or the command can be read. The connection
stays in use. -/
def InSession (host : NetHost) (slot : ℕ) (s : NetState) (call : DaemonCall) : Prop :=
  (match call with
    | .read _ d => d.packet.length ≤ netApplemidiUdpSize ∧
      (d.packet = [] ∨ Handled s.connections d.packet)
    | .send _ command _ => command.Readable) ∧
  StaysInUse host slot s call

section Read
variable {host : NetHost} {moment : NetMoment} {s u : NetState} {d : Datagram}
  {effects : List NetEffect} {α : Type} {part : NetCtx → α}

theorem rtp_kept (hparser : ∀ ctx state, part { ctx with midiState := state } = part ctx)
    {connections t : List NetCtx} {buffer : Option (List UInt8)}
    (hok : netSocketRtp connections d buffer = .ok (t, effects)) : Kept part connections t := by
  obtain ⟨packet, -, hok⟩ := bind_ok hok
  split_ifs at hok
  · cases hok
    exact .refl _ _
  · obtain ⟨payload, -, hok⟩ := bind_ok hok
    split at hok
    · cases hok
      exact .refl _ _
    · next slot ctx hfind =>
      cases payload with
      | none => cases hok
      | some payload =>
        obtain ⟨written, -, hok⟩ := bind_ok hok
        obtain ⟨response, -, hok⟩ := bind_ok hok
        obtain ⟨sent, -, hok⟩ := bind_ok hok
        cases hok
        exact .set (find_some hfind).1 fun _ => hparser _ _

/-- A datagram is handed to one of the two decoders whole. -/
theorem read_branch (h : s.Valid) (hmax : d.packet.length ≤ netApplemidiUdpSize)
    (hok : netSocketRead host moment s d = .ok (u, effects)) :
    u.connections = s.connections ∧ ¬ IsApplemidi d.packet ∨
      netSocketRtp s.connections d (some d.packet) = .ok (u.connections, effects) ∧
        ¬ IsApplemidi d.packet ∨
      IsApplemidi d.packet ∧
        ∃ command, (netApplemidiUnpack ⟨d.packet, d.beyond⟩).command = some command ∧
          netSocketDispatch host moment s.connections d command = .ok (u.connections, effects) := by
  by_cases hpos : 0 < d.packet.length
  · obtain ⟨t, p, size, -, -, hread⟩ := read_eq h host moment hpos hmax
    rw [hread] at hok
    obtain ⟨handled, hhandled, heq⟩ := map_ok hok
    cases heq
    by_cases hclass : IsApplemidi d.packet
    · rw [if_pos hclass] at hhandled
      unfold netSocketApplemidi at hhandled
      split at hhandled
      · cases hhandled
      · next command hcommand =>
        obtain ⟨done, hdispatch, hhandled⟩ := bind_ok hhandled
        obtain ⟨-, -, hhandled⟩ := bind_ok hhandled
        cases hhandled
        exact .inr (.inr ⟨hclass, command, hcommand, hdispatch⟩)
    · rw [if_neg hclass] at hhandled
      exact .inr (.inl ⟨hhandled, hclass⟩)
  · have hempty : d.packet = [] := List.eq_nil_of_length_eq_zero (by omega)
    rw [netSocketRead, if_pos (by omega)] at hok
    cases hok
    exact .inl ⟨rfl, by simp [IsApplemidi, hempty]⟩

/-- A datagram without a feedback touches nothing but SSRC, status and parser of a connection
that stays in use; a feedback touches its journal too. -/
theorem read_kept (h : s.Valid) (hmax : d.packet.length ≤ netApplemidiUdpSize)
    (hok : netSocketRead host moment s d = .ok (u, effects))
    (hpart : ∀ ctx ssrc status, part { ctx with ssrc := ssrc, status := status } = part ctx)
    (hparser : ∀ ctx state, part { ctx with midiState := state } = part ctx)
    (htrim : datagramFeedback d ≠ none → ∀ ctx, part (netCtxJournalReset ctx) = part ctx) :
    Kept part s.connections u.connections := by
  rcases read_branch h hmax hok with ⟨hsame, -⟩ | ⟨hrtp, -⟩ | ⟨hclass, command, hcommand, hdispatch⟩
  · rw [hsame]
    exact .refl _ _
  · exact rtp_kept hparser hrtp
  · refine dispatch_kept hpart (fun feedback hcode hdata => htrim ?_) hdispatch
    obtain ⟨signature, code, data⟩ := command
    cases data with
    | feedback data => simp [datagramFeedback, hclass, hcommand, show code = _ from hcode]
    | unset | null | inv | sync | bitrate => cases hdata

/-- A feedback does what the responder does for it. -/
theorem read_feedback (h : s.Valid) (hmax : d.packet.length ≤ netApplemidiUdpSize)
    (hok : netSocketRead host moment s d = .ok (u, effects)) {feedback : NetApplemidiFeedback}
    (hfeedback : datagramFeedback d = some feedback) :
    u.connections = applemidiFeedbackResponder s.connections (some feedback) := by
  have hclass : IsApplemidi d.packet := by
    by_contra hnot
    rw [datagramFeedback, if_neg hnot] at hfeedback
    cases hfeedback
  rcases read_branch h hmax hok with ⟨-, hnot⟩ | ⟨-, hnot⟩ | ⟨-, command, hcommand, hdispatch⟩
  · exact absurd hclass hnot
  · exact absurd hclass hnot
  · rw [datagramFeedback, if_pos hclass, hcommand] at hfeedback
    obtain ⟨signature, code, data⟩ := command
    cases data with
    | feedback data =>
      simp only at hfeedback
      split_ifs at hfeedback with hcode
      cases hfeedback
      subst hcode
      have hcodes : netApplemidiCmdFeedback ≠ netApplemidiCmdInv ∧
          netApplemidiCmdFeedback ≠ netApplemidiCmdAccept ∧
          netApplemidiCmdFeedback ≠ netApplemidiCmdEnd ∧
          netApplemidiCmdFeedback ≠ netApplemidiCmdSync := by decide
      simp only [netSocketDispatch, if_neg hcodes.1, if_neg hcodes.2.1, if_neg hcodes.2.2.1,
        if_neg hcodes.2.2.2, if_true, NetApplemidiData.asFeedback, bind, Except.bind, pure,
        Except.pure, Except.ok.injEq, Prod.mk.injEq] at hdispatch
      exact hdispatch.1.symm
    | unset | null | inv | sync | bitrate => simp at hfeedback

end Read

section Tracks
variable {host : NetHost} {s u : NetState} {effects : List NetEffect} {slot : ℕ}
  {ctx now now' : NetCtx} {session : SlotSession}

/-- What a call does to the session in a slot: the history goes on with the events of the call,
and the packets are those of the history. -/
def SlotSession.Goes (host : NetHost) (ctx : NetCtx) (slot : ℕ) (session : SlotSession)
    (events : List SlotEvent) (now' : NetCtx) (effects : List NetEffect) : Prop :=
  SlotSession.Tracks ctx (feed (SlotSession.step host ctx) session events).1 now' ∧
    (packetsTo slot effects).map Except.ok = (feed (SlotSession.step host ctx) session events).2

theorem resets_slot {connections : List NetCtx} {feedback : NetApplemidiFeedback} {changed : ℕ}
    {old : NetCtx} (h : applemidiFeedbackResets connections feedback = some (changed, old)) :
    connections[changed]? = some old := by
  unfold applemidiFeedbackResets at h
  split at h
  · cases h
  · next hfind =>
    split_ifs at h
    cases h
    exact (find_some hfind).1

theorem read_goes (h : s.Valid) {moment : NetMoment} {d : Datagram}
    (hmax : d.packet.length ≤ netApplemidiUdpSize) (hnow : s.connections[slot]? = some now)
    (htracks : session.Tracks ctx now)
    (hok : netSocketRead host moment s d = .ok (u, effects))
    (hnow' : u.connections[slot]? = some now') (hused' : netCtxIsUsed now' = true) :
    session.Goes host ctx slot (slotEvents slot s.connections (.read moment d)) now' effects := by
  rw [SlotSession.Goes, read_silent slot hok, slotEvents, feedbackTrims]
  cases hfeedback : datagramFeedback d with
  | none =>
    have hkept : Kept (fun ctx => (ctx.sendSsrc, ctx.start, ctx.dataAddress, ctx.seq, ctx.journal))
        s.connections u.connections :=
      read_kept h hmax hok (fun _ _ _ => rfl) (fun _ _ => rfl) fun hne => absurd hfeedback hne
    have hsame := hkept slot now now' hnow htracks.used hnow' hused'
    simp only [Prod.mk.injEq] at hsame
    obtain ⟨hssrc, hstart, haddress, hseq, hjournal⟩ := hsame
    exact ⟨⟨hused', hssrc.trans htracks.sendSsrc, hstart.trans htracks.start,
      haddress.trans htracks.address, hseq.trans htracks.seq, hjournal ▸ htracks.journal⟩, rfl⟩
  | some feedback =>
    have htable := read_feedback h hmax hok hfeedback
    rw [applemidiFeedbackResponder] at htable
    cases hresets : applemidiFeedbackResets s.connections feedback with
    | none =>
      rw [hresets] at htable
      rw [htable] at hnow'
      cases hnow.symm.trans hnow'
      simpa [hresets] using htracks
    | some found =>
      obtain ⟨changed, old⟩ := found
      have hold := resets_slot hresets
      rw [hresets] at htable
      dsimp only at htable
      rw [htable] at hnow'
      by_cases hchanged : changed = slot
      · subst hchanged
        rw [List.getElem?_set_self (List.getElem?_eq_some_iff.mp hold).1] at hnow'
        cases hold.symm.trans hnow
        cases hnow'
        obtain ⟨k, hreset, hk⟩ := htracks.journal.call .reset
        cases hreset
        simp only [hresets, Option.bind_some, Option.map_some, if_true, feed_singleton,
          SlotSession.step]
        exact ⟨⟨hused', htracks.sendSsrc, htracks.start, htracks.address, htracks.seq, hk⟩, rfl⟩
      · rw [List.getElem?_set_ne hchanged] at hnow'
        cases hnow.symm.trans hnow'
        have hne : ¬ some changed = some slot := fun heq => hchanged (Option.some.inj heq)
        simp only [hresets, Option.bind_some, Option.map_some, if_neg hne, feed_nil]
        exact ⟨htracks, rfl⟩

theorem addEvent_eq (ctx : NetCtx) (event : MidiEvent) : netCtxAddEvent ctx event =
    match event.journal? with
    | some event => netCtxAddJournal ctx event
    | none => ctx := by
  cases event <;> rfl

/-- What is journaled for a command. -/
theorem journaled_reflects {event : MidiEvent} {history : JournalHistory}
    (h : now.journal.Reflects history) :
    (if host.journalWrite then netCtxAddEvent now event else now).journal.Reflects
      (if host.journalWrite then
        match event.journal? with
        | some event => history.call (.add now.seq event)
        | none => history
      else history) := by
  split_ifs
  · rw [addEvent_eq]
    cases event.journal? with
    | none => exact h
    | some event =>
      obtain ⟨k, hadd, hk⟩ := h.call (.add now.seq event)
      cases hadd
      exact hk
  · exact h

theorem journalPack_reflects {history : JournalHistory} (h : now.journal.Reflects history) :
    ∃ k octets, octets = history.journal.octets ∧
      netCtxJournalPack now = .ok ({ now with journal := k }, octets) ∧ k.Reflects history := by
  obtain ⟨k, hpack, hforget, hk⟩ := Journal.pack_spec h.valid
  refine ⟨k, _, h.octets_eq, ?_, hforget.trans h.journal_eq, hk⟩
  rw [netCtxJournalPack, hpack]
  rfl

/-- One pass of the loop: the journal is packed, the packet is numbered and sent, and the
command is added behind it. -/
theorem sendConnection_goes {clock : UInt64} {command : MidiCommand} {event : MidiEvent}
    {packed payload' : MidiPayload} {j : Bool} (hpacked : midiCommandToPayload command = .ok packed)
    (haddress : ctx.dataAddress ≠ none) (htracks : session.Tracks ctx now)
    (hok : midiSenderSendConnection host clock event slot { packed with header.j := j } now =
      .ok (now', payload', effects)) :
    session.Goes host ctx slot [.sent clock command event] now' effects := by
  obtain ⟨hsame, hseq, -, packet, heffects, -⟩ :=
    sendConnection_spec (commandToPayload_b hpacked : packed.header.b = false) hok
  obtain ⟨address, hknown⟩ := Option.ne_none_iff_exists'.mp haddress
  have hpackets : packetsTo slot effects = [packet] := by
    rw [heffects, packetsTo_sent, if_pos rfl, htracks.address, hknown]
    rfl
  obtain ⟨k, octets, hoctets, hpack, hreflects⟩ := journalPack_reflects htracks.journal
  obtain ⟨journal, hjournal, hok⟩ := bind_ok hok
  cases hpack.symm.trans hjournal
  obtain ⟨written, hwritten, hok⟩ := bind_ok hok
  cases hok
  -- the packet is the one that was written
  have hpacket : packet = written := by
    rw [htracks.address, hknown] at heffects
    by_cases hempty : written.length = 0
    · simp [netCtxSend, hempty] at heffects
    · simpa [netCtxSend, hempty, netCtxIncrementSeq, htracks.address, hknown] using heffects.symm
  have hmark : midiSenderMarkJournal { packed with header.j := j } octets =
      midiSenderMarkJournal packed octets := by
    unfold midiSenderMarkJournal midiPayloadSetJ midiPayloadUnsetJ
    rfl
  have hheader : netCtxUpdateRtpFields (netCtxIncrementSeq { now with journal := k }) clock
      rtpPacketCreate.header = netCtxUpdateRtpFields
        (netCtxIncrementSeq { ctx with seq := session.seq }) clock rtpPacketCreate.header := by
    simp only [netCtxUpdateRtpFields, netCtxIncrementSeq, htracks.seq, htracks.start,
      htracks.sendSsrc]
  rw [hmark, hheader] at hwritten
  have hsent : Transmission.packet ⟨{ ctx with seq := session.seq }, clock, command,
      octets⟩ = .ok packet := by
    rw [hpacket]
    simp only [Transmission.packet, hpacked, hwritten, bind, Except.bind]
  have hjournaled : (if host.journalWrite then netCtxAddEvent
      (netCtxIncrementSeq { now with journal := k }) event else
        netCtxIncrementSeq { now with journal := k }).journal.Reflects _ :=
    journaled_reflects hreflects
  rw [SlotSession.Goes, hpackets, feed_singleton]
  refine ⟨⟨?_, hsame.sendSsrc.trans htracks.sendSsrc, ?_, hsame.dataAddress.trans htracks.address,
    ?_, ?_⟩, ?_⟩
  · have hused := htracks.used
    rwa [netCtxIsUsed, hsame.status]
  · rw [← htracks.start]
    split_ifs
    · cases event <;> rfl
    · rfl
  · rw [hseq, htracks.seq]
    rfl
  · simp only [SlotSession.step, ← htracks.seq]
    exact hjournaled
  · simp only [SlotSession.step, ← hoctets, hsent, List.map_cons, List.map_nil]

theorem send_goes {clock : ℕ → UInt64} {command : MidiCommand} {originator : UInt32}
    (haddress : ctx.dataAddress ≠ none) (hnow : s.connections[slot]? = some now)
    (htracks : session.Tracks ctx now)
    (hok : daemonCall host s (.send clock command originator) = .ok (u, effects)) :
    ∃ now', u.connections[slot]? = some now' ∧ session.Goes host ctx slot
      (slotEvents slot s.connections (.send clock command originator)) now' effects := by
  obtain ⟨sent, hsent, hok⟩ := bind_ok hok
  cases hok
  by_cases horigin : now.ssrc = originator
  · obtain ⟨hnow', hnone⟩ := sendSingle_skips hsent hnow horigin
    refine ⟨now, hnow', ?_⟩
    have hevents : slotEvents slot s.connections (.send clock command originator) = [] := by
      rw [slotEvents, hnow]
      cases midiSenderEvent command with
      | ok event => simp only [if_pos horigin]
      | error fault => rfl
    rw [SlotSession.Goes, hnone, hevents]
    exact ⟨htracks, rfl⟩
  · obtain ⟨packed, event, j, now', payload', effects', hpacked, hevent, hconnection, hnow',
      hpackets⟩ := sendSingle_slot hsent hnow horigin
    refine ⟨now', hnow', ?_⟩
    have hevents : slotEvents slot s.connections (.send clock command originator) =
        [.sent (clock slot) command event] := by
      simp only [slotEvents, hnow, hevent, if_neg horigin]
    rw [SlotSession.Goes, hpackets, hevents]
    exact sendConnection_goes hpacked haddress htracks hconnection

/-- A call goes through and takes the session on. -/
theorem call_goes (hs : s.Valid) (hjournals : JournalsValid s.connections)
    (haddress : ctx.dataAddress ≠ none) (hnow : s.connections[slot]? = some now)
    (htracks : session.Tracks ctx now) {call : DaemonCall} (hcall : InSession host slot s call) :
    ∃ u effects now', daemonCall host s call = .ok (u, effects) ∧ u.Valid ∧
      JournalsValid u.connections ∧ u.connections[slot]? = some now' ∧
      session.Goes host ctx slot (slotEvents slot s.connections call) now' effects := by
  obtain ⟨hfits, hstays⟩ := hcall
  cases call with
  | read moment d =>
    obtain ⟨hmax, hcomplete⟩ := hfits
    obtain ⟨u, effects, hok⟩ : ∃ u effects, netSocketRead host moment s d = .ok (u, effects) := by
      by_cases hempty : d.packet = []
      · exact ⟨s, [], by simp [netSocketRead, hempty, pure, Except.pure]⟩
      · exact read_of_handled hs host moment (List.length_pos_iff.mpr hempty) hmax
          (hcomplete.resolve_left hempty)
    obtain ⟨now', hnow', hused'⟩ := hstays u effects hok
    exact ⟨u, effects, now', hok, read_valid hs hmax hok,
      (read_changes hok).journals_valid hjournals, hnow',
      read_goes hs hmax hnow htracks hok hnow' (by simpa [netCtxIsUsed] using hused')⟩
  | send clock command originator =>
    obtain ⟨event, hevent⟩ := (senderEvent_iff command).mpr hfits
    obtain ⟨t, effects, hok, ht⟩ := sendSingle_ok host clock hjournals hevent originator
    have hcall : daemonCall host s (.send clock command originator) =
        .ok (⟨t, s.sockets⟩, effects) := by
      simp only [daemonCall, hok, bind, Except.bind, pure, Except.pure]
    obtain ⟨now', hnow', hgoes⟩ := send_goes haddress hnow htracks hcall
    refine ⟨_, effects, now', hcall, ⟨hs.sockets, fun other hother => ?_⟩, ht, hnow', hgoes⟩
    have hsession : sessionCall host s (.daemon (.send clock command originator)) =
        .ok (⟨t, s.sockets⟩, effects) := hcall
    obtain ⟨i, old, hold, hserved⟩ := send_served hsession hother
    rw [hserved.same.midiState]
    exact hs.parsers old (List.mem_of_getElem? hold)

/-- A run takes the session on: by induction on the calls. -/
theorem run_goes_on (hs : s.Valid) (hjournals : JournalsValid s.connections)
    (haddress : ctx.dataAddress ≠ none) (hnow : s.connections[slot]? = some now)
    (htracks : session.Tracks ctx now) {calls : List DaemonCall}
    (hcalls : Along (daemonCall host) (InSession host slot) s calls) :
    ∃ u effects now', run (daemonCall host) s calls = .ok (u, effects) ∧
      u.connections[slot]? = some now' ∧
      session.Goes host ctx slot (slotLog host slot s calls) now' effects := by
  induction calls generalizing s now session with
  | nil => exact ⟨s, [], now, rfl, hnow, htracks, rfl⟩
  | cons call calls ih =>
    obtain ⟨t, first, next, hok, ht, htable, hnext, hfirst, hpackets⟩ :=
      call_goes hs hjournals haddress hnow htracks hcalls.1
    obtain ⟨u, rest, now', hrun, hnow', hlast, hlater⟩ :=
      ih ht htable hnext hfirst (hcalls.2 t first hok)
    refine ⟨u, first ++ rest, now', run_cons_ok hok hrun, hnow', ?_⟩
    rw [SlotSession.Goes, slotLog, hok, feed_append, packetsTo_append, List.map_append, hpackets,
      hlater]
    exact ⟨hlast, rfl⟩

end Tracks

/-- Whatever else a daemon reads and sends, and whichever feedback it reads, the packets to a
connection that stays in use are those of its history: each has the number after the last
one and carries the journal of the commands that were journaled before it, those since the
last feedback that trimmed the journal apart from those before. -/
theorem packets_journaled {host : NetHost} {s : NetState} (hs : s.Valid)
    (hjournals : JournalsValid s.connections) {slot : ℕ} {ctx : NetCtx}
    (hctx : s.connections[slot]? = some ctx) (hused : netCtxIsUsed ctx = true)
    (haddress : ctx.dataAddress ≠ none) {history : JournalHistory}
    (hhistory : ctx.journal.Reflects history) (calls : List DaemonCall)
    (hcalls : Along (daemonCall host) (InSession host slot) s calls) :
    ∃ t effects ctx', run (daemonCall host) s calls = .ok (t, effects) ∧
      t.connections[slot]? = some ctx' ∧
      (packetsTo slot effects).map Except.ok =
        (feed (SlotSession.step host ctx) ⟨ctx.seq, history⟩ (slotLog host slot s calls)).2 ∧
      ctx'.journal.Reflects
        (feed (SlotSession.step host ctx) ⟨ctx.seq, history⟩
          (slotLog host slot s calls)).1.history := by
  have htracks : SlotSession.Tracks ctx ⟨ctx.seq, history⟩ ctx :=
    ⟨hused, rfl, rfl, rfl, rfl, hhistory⟩
  obtain ⟨t, effects, ctx', hrun, hctx', hgoes, hpackets⟩ :=
    run_goes_on hs hjournals haddress hctx htracks hcalls
  exact ⟨t, effects, ctx', hrun, hctx', hpackets, hgoes.journal⟩

/-- Two notes are sent. -/
def twoNotes : List DaemonCall :=
  [.send (fun _ => 0) ⟨0, 0x90, [60, 100]⟩ 0, .send (fun _ => 0) ⟨0, 0x90, [62, 100]⟩ 0]

theorem send_stays {host : NetHost} {s : NetState} {slot : ℕ} (h : UsedAt s slot)
    (clock : ℕ → UInt64) (command : MidiCommand) (originator : UInt32) :
    StaysInUse host slot s (.send clock command originator) := by
  intro t effects hok
  obtain ⟨sent, hsent, hok⟩ := bind_ok hok
  cases hok
  obtain ⟨ctx, hctx, hused⟩ := h
  obtain ⟨ctx', hctx', hserved⟩ := (sendSingle_spec hsent).2 slot ctx hctx
  exact ⟨ctx', hctx', hserved.same.status ▸ hused⟩

theorem packets_journaled_notes : ∃ created ctx t effects,
    run (daemonCall journalingHost) (registeredConnection created 7 9) twoNotes =
      .ok (t, effects) ∧ (packetsTo 0 effects).map Except.ok =
        (feed (SlotSession.step journalingHost ctx) ⟨ctx.seq, .start⟩
          (slotLog journalingHost 0 (registeredConnection created 7 9) twoNotes)).2 := by
  obtain ⟨created, socket, -, -, -, hready⟩ := registered_ready
  obtain ⟨hdaemon, hjournals, ctx, hfind, -, haddress, -⟩ := hready 7 9
  obtain ⟨hctx, hwanted⟩ := find_some hfind
  obtain ⟨hused, -⟩ := Bool.and_eq_true_iff.mp hwanted
  have hstart : UsedAt (registeredConnection created 7 9) 0 :=
    ⟨ctx, hctx, by simpa [netCtxIsUsed] using hused⟩
  have hcalls : Along (daemonCall journalingHost) (InSession journalingHost 0)
      (registeredConnection created 7 9) twoNotes := by
    have hreadable : MidiCommand.Readable ⟨0, 0x90, [60, 100]⟩ ∧
        MidiCommand.Readable ⟨0, 0x90, [62, 100]⟩ := by decide
    refine ⟨⟨hreadable.1, send_stays hstart _ _ _⟩, fun t now hok => ⟨⟨hreadable.2, ?_⟩,
      fun _ _ _ => trivial⟩⟩
    exact send_stays (send_stays hstart _ _ _ t now hok) _ _ _
  have hhistory : ctx.journal.Reflects .start := by
    rw [hjournals ctx (List.mem_of_getElem? hctx)]
    exact Journal.reflects_init
  obtain ⟨t, effects, ctx', hrun, -, hpackets, -⟩ := packets_journaled hdaemon.net
    (journalsValid_init hjournals) hctx hused haddress hhistory twoNotes hcalls
  exact ⟨created, ctx, t, effects, hrun, hpackets⟩

end RaveloxMidi
