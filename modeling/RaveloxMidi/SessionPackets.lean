import RaveloxMidi.ConnectionSlots
import RaveloxMidi.FeedbackAgreement
import RaveloxMidi.MidiPipeline
import RaveloxMidi.SocketRead

/-!
# The packets of one session

A packet is built for one command and names the SSRC of its sender. The reader of
the other side finds the connection by that SSRC and queues the command again.
What else the two sides read meanwhile leaves the two slots of the session as
they are, unless it is about the session itself.
-/
namespace RaveloxMidi
open ByteMemory Transducer SlotTable

/-- A packet that is sent for a command under an SSRC. -/
def Bears (sendSsrc : UInt32) (command : MidiCommand) (packet : List UInt8) : Prop :=
  ∃ sent : Transmission, sent.ctx.sendSsrc = sendSsrc ∧ sent.command = command ∧
    sent.packet = .ok packet

/-- What the reader finds in a packet. -/
structure Decodes (ssrc : UInt32) (command : MidiCommand) (packet : List UInt8)
    (payload : MidiPayload) : Prop where
  long : 12 ≤ packet.length
  rtp : ¬ IsApplemidi packet
  version : (readRtpPacket packet).header.v = rtpVersion
  ssrc : (readRtpPacket packet).header.ssrc = ssrc
  read : readPayload (packet.drop 12) = some payload
  buffer : payload.buffer = some (command.status :: command.data)
  length : command.data.length + 1 = payload.header.len.toNat
  noDelta : payload.header.z = false

/-- The header that is sent is read back, whatever is behind it. -/
theorem sentHeader_read (seq : UInt16) (timestamp ssrc : UInt32) (rest : List UInt8)
    {packet : List UInt8} (hpacket : packet = putUint16 0x8061 ++ (putUint16 seq ++
      (putUint32 timestamp ++ (putUint32 ssrc ++ rest)))) :
    12 ≤ packet.length ∧ ¬ IsApplemidi packet ∧ (readRtpPacket packet).header.v = rtpVersion ∧
      (readRtpPacket packet).header.ssrc = ssrc ∧ packet.drop 12 = rest := by
  subst hpacket
  rw [readRtpPacket_put]
  refine ⟨by simp; omega, ?_, rfl, rfl, ?_⟩
  · rintro ⟨hfirst, -⟩
    simp [putUint16, octets] at hfirst
  · rw [← List.append_assoc (putUint32 _), ← List.append_assoc (putUint16 seq),
      ← List.append_assoc (putUint16 0x8061), List.drop_left' (by simp)]

/-- A short command is in front of the journal, so it is read also from a packet that is
cut off at the end of the buffer. -/
theorem Bears.decodes {ssrc : UInt32} {command : MidiCommand} {packet : List UInt8}
    (h : Bears ssrc command packet) (hshort : ShortCommand command) :
    ∃ payload, Decodes ssrc command (packet.take netApplemidiUdpSize) payload := by
  obtain ⟨sent, rfl, rfl, hpacket⟩ := h
  obtain ⟨len, j, header, hcount, hle, hheader, hoctets⟩ := packet_octets hshort
  cases hpacket.symm.trans hoctets
  have hdata := hshort.length_le
  obtain ⟨body, hbody⟩ : ∃ body, body = midiPayloadHeaderPack ⟨false, j, false, false, len⟩ ++
    (sent.command.status :: sent.command.data) := ⟨_, rfl⟩
  have hone : (midiPayloadHeaderPack ⟨false, j, false, false, len⟩).length = 1 := by
    rw [midiPayloadHeaderPack, if_pos hle, List.length_singleton]
  have hlength : body.length ≤ 4 := by
    rw [hbody, List.length_append, hone, List.length_cons]
    omega
  obtain ⟨m, hm⟩ : ∃ m, netApplemidiUdpSize = 12 + (body.length + m) :=
    ⟨1460 - body.length, by rw [netApplemidiUdpSize]; omega⟩
  have htemp : rtpTempHeader header = 0x8061 := by
    rw [hheader]
    exact tempHeader_sent _ _ _
  obtain ⟨front, hfront⟩ : ∃ front, front = putUint16 0x8061 ++ (putUint16 header.seq ++
    (putUint32 header.timestamp ++ putUint32 header.ssrc)) := ⟨_, rfl⟩
  have htwelve : front.length = 12 := by simp [hfront]
  have hcut : (putUint16 (rtpTempHeader header) ++ (putUint16 header.seq ++
      (putUint32 header.timestamp ++ (putUint32 header.ssrc ++ (body ++ sent.journal))))).take
        netApplemidiUdpSize =
      putUint16 0x8061 ++ (putUint16 header.seq ++ (putUint32 header.timestamp ++
        (putUint32 header.ssrc ++ (body ++ sent.journal.take m)))) := by
    have hsplit : ∀ rest, putUint16 0x8061 ++ (putUint16 header.seq ++
        (putUint32 header.timestamp ++ (putUint32 header.ssrc ++ rest))) = front ++ rest := by
      intro rest
      simp only [hfront, List.append_assoc]
    rw [htemp, hsplit, hsplit, hm, ← htwelve, List.take_length_add_append,
      List.take_length_add_append]
  obtain ⟨hlong, hrtp, hversion, hssrc, hrest⟩ := sentHeader_read header.seq header.timestamp
    header.ssrc (body ++ sent.journal.take m) hcut
  refine ⟨⟨⟨false, j, false, false, len⟩, some (sent.command.status :: sent.command.data)⟩,
    hbody ▸ hlong, hbody ▸ hrtp, hbody ▸ hversion, ?_, ?_, rfl, hcount.symm, rfl⟩
  · rw [← hbody, hssrc, hheader]
    rfl
  · rw [← hbody, hrest, hbody]
    exact readPayload_short j false false hle _ (by rw [hcount, List.length_cons]) _

/-- A packet is answered and its command queued, with the SSRC of its sender. -/
theorem read_decoded {s : NetState} (hs : s.Valid) (host : NetHost) (moment : NetMoment)
    {d : Datagram} (hmax : d.packet.length ≤ netApplemidiUdpSize) {ssrc : UInt32}
    {command : MidiCommand} {payload : MidiPayload} (h : Decodes ssrc command d.packet payload)
    (hshort : ShortCommand command) {slot : ℕ} {ctx : NetCtx}
    (hfind : netCtxFindBySsrc s.connections ssrc = some (slot, ctx))
    (hboundary : ctx.midiState.AtBoundary) (hroom : 3 ≤ ctx.midiState.ring.size) :
    ∃ u state seq emitted, netSocketRead host moment s d =
        .ok (u, [.reply (feedbackOctets ssrc seq), .queue emitted ssrc]) ∧
      emitted.content = command.content ∧
      u.connections = s.connections.set slot { ctx with midiState := state } ∧
      state.AtBoundary ∧ state.ring.size = ctx.midiState.ring.size := by
  obtain ⟨t, p, size, -, -, hread⟩ := read_eq hs host moment (by have := h.long; omega) hmax
  obtain ⟨written, state, emitted, hwrite, hsend, hcontent, hstate, hsize⟩ :=
    hboundary.emits_short hshort hroom h.buffer h.length h.noDelta
  refine ⟨⟨s.connections.set slot { ctx with midiState := state },
    Function.update s.sockets d.socket t⟩, state, (readRtpPacket d.packet).header.seq, emitted,
    ?_, hcontent, rfl, hstate, hsize⟩
  rw [hread, if_neg h.rtp, rtp_eq _ _ h.long (hmax.trans (by decide)), h.version, h.ssrc,
    h.read, hfind]
  simp only [ne_eq, not_true_eq_false, if_false, netSocketDeliver, hwrite, feedbackCreate_ok,
    hsend, h.ssrc, bind, Except.bind, pure, Except.pure]
  rfl

theorem mem_packetsTo {slot : ℕ} {effects : List NetEffect} {packet : List UInt8} :
    packet ∈ packetsTo slot effects ↔
      ∃ address, NetEffect.packet slot address packet ∈ effects := by
  rw [packetsTo, List.mem_filterMap]
  constructor
  · rintro ⟨effect, hmem, hsent⟩
    split at hsent
    · split_ifs at hsent with hslot
      cases hsent
      exact ⟨_, hslot ▸ hmem⟩
    · cases hsent
  · rintro ⟨address, hmem⟩
    exact ⟨_, hmem, by simp⟩

/-- What the loop does for one slot is one pass with the payload of the command, but for the
J flag that the pass before has left: by induction on the contexts left. -/
theorem senderLoop_slot {host : NetHost} {clock : ℕ → UInt64} {originator : UInt32}
    {event : MidiEvent} {first : ℕ} {command : MidiCommand} {packed payload : MidiPayload}
    {j : Bool} (hpacked : midiCommandToPayload command = .ok packed)
    (hpayload : payload = { packed with header.j := j }) {connections t : List NetCtx}
    {effects : List NetEffect}
    (hok : midiSenderLoop host clock originator event first payload connections =
      .ok (t, effects)) {slot : ℕ} {ctx : NetCtx} (hctx : connections[slot]? = some ctx)
    (hother : ctx.ssrc ≠ originator) :
    ∃ j' ctx' payload' sent, midiSenderSendConnection host (clock (first + slot)) event
        (first + slot) { packed with header.j := j' } ctx = .ok (ctx', payload', sent) ∧
      t[slot]? = some ctx' ∧ packetsTo (first + slot) effects = packetsTo (first + slot) sent := by
  induction connections generalizing first payload j t effects slot with
  | nil => cases hctx
  | cons head rest ih =>
    have hb : payload.header.b = false := by
      rw [hpayload]
      exact (commandToPayload_b hpacked : packed.header.b = false)
    have hnext : ∀ slot, first + (slot + 1) = first + 1 + slot := fun slot => by omega
    unfold midiSenderLoop at hok
    split_ifs at hok with horigin
    · obtain ⟨later, hlater, hok⟩ := bind_ok hok
      cases hok
      cases slot with
      | zero =>
        cases hctx
        exact absurd horigin hother
      | succ slot =>
        obtain ⟨j', ctx', payload', sent, hsent, hctx', hpackets⟩ := ih hpayload hlater hctx
        rw [hnext]
        exact ⟨j', ctx', payload', sent, hsent, hctx', hpackets⟩
    · obtain ⟨⟨next, payload', sent⟩, hnow, hok⟩ := bind_ok hok
      obtain ⟨later, hlater, hok⟩ := bind_ok hok
      cases hok
      obtain ⟨-, -, hb', bytes, hsentHere, -⟩ := sendConnection_spec hb hnow
      cases slot with
      | zero =>
        cases hctx
        refine ⟨j, next, payload', sent, ?_, rfl, ?_⟩
        · rw [Nat.add_zero, ← hpayload]
          exact hnow
        · rw [packetsTo_append, Nat.add_zero,
            (senderLoop_spec hb' hlater).1 first (Nat.lt_succ_self _), List.append_nil]
      | succ slot =>
        have hnone : packetsTo (first + (slot + 1)) sent = [] := by
          rw [hsentHere, packetsTo_sent, if_neg (by omega)]
        obtain ⟨journal, -, hmarked⟩ := bind_ok hnow
        obtain ⟨written, -, hmarked⟩ := bind_ok hmarked
        cases hmarked
        have hpayload' : ∃ j', midiSenderMarkJournal payload journal.2 =
            { packed with header.j := j' } := by
          rw [hpayload]
          unfold midiSenderMarkJournal
          split_ifs
          · exact ⟨true, rfl⟩
          · exact ⟨false, rfl⟩
        obtain ⟨j', hpayload'⟩ := hpayload'
        obtain ⟨j'', ctx', payload'', later', hsent, hctx', hpackets⟩ := ih hpayload' hlater hctx
        rw [packetsTo_append, hnone, List.nil_append, hnext]
        exact ⟨j'', ctx', payload'', later', hsent, hctx', hpackets⟩

/-- The originator gets nothing, and stays as it is. -/
theorem sendSingle_skips {host : NetHost} {clock : ℕ → UInt64} {connections t : List NetCtx}
    {command : MidiCommand} {originator : UInt32} {effects : List NetEffect}
    (hok : midiSenderSendSingle host clock connections command originator = .ok (t, effects))
    {slot : ℕ} {ctx : NetCtx} (hctx : connections[slot]? = some ctx)
    (horigin : ctx.ssrc = originator) : t[slot]? = some ctx ∧ packetsTo slot effects = [] := by
  obtain ⟨ctx', hctx', hserved⟩ := (sendSingle_spec hok).2 slot ctx hctx
  obtain ⟨rfl, hnone⟩ := hserved.skipped horigin
  exact ⟨hctx', hnone⟩

theorem sendSingle_slot {host : NetHost} {clock : ℕ → UInt64} {connections t : List NetCtx}
    {command : MidiCommand} {originator : UInt32} {effects : List NetEffect}
    (hok : midiSenderSendSingle host clock connections command originator = .ok (t, effects))
    {slot : ℕ} {ctx : NetCtx} (hctx : connections[slot]? = some ctx)
    (hother : ctx.ssrc ≠ originator) :
    ∃ packed event j ctx' payload' sent, midiCommandToPayload command = .ok packed ∧
      midiSenderEvent command = .ok event ∧
      midiSenderSendConnection host (clock slot) event slot { packed with header.j := j } ctx =
        .ok (ctx', payload', sent) ∧
      t[slot]? = some ctx' ∧ packetsTo slot effects = packetsTo slot sent := by
  obtain ⟨packed, hpacked, hok⟩ := bind_ok hok
  obtain ⟨event, hevent, hok⟩ := bind_ok hok
  have hslot := senderLoop_slot hpacked rfl hok hctx hother
  rw [Nat.zero_add] at hslot
  obtain ⟨j, ctx', payload', sent, hsent, hctx', hpackets⟩ := hslot
  exact ⟨packed, event, j, ctx', payload', sent, hpacked, hevent, hsent, hctx', hpackets⟩

/-- What is sent to a connection for a command. -/
theorem sendSingle_bears {host : NetHost} {clock : ℕ → UInt64} {connections t : List NetCtx}
    {command : MidiCommand} {originator : UInt32} {effects : List NetEffect}
    (hok : midiSenderSendSingle host clock connections command originator = .ok (t, effects))
    {slot : ℕ} {ctx : NetCtx} (hctx : connections[slot]? = some ctx) {packet : List UInt8}
    (hsent : packet ∈ packetsTo slot effects) : Bears ctx.sendSsrc command packet := by
  by_cases horigin : ctx.ssrc = originator
  · rw [(sendSingle_skips hok hctx horigin).2] at hsent
    cases hsent
  · obtain ⟨packed, event, j, ctx', payload', sent, hpacked, -, hconnection, -, hpackets⟩ :=
      sendSingle_slot hok hctx horigin
    obtain ⟨address, hmem⟩ := mem_packetsTo.mp (hpackets ▸ hsent)
    obtain ⟨journal, hbuilt⟩ :=
      sendConnection_transmits hpacked rfl hconnection address packet hmem
    exact ⟨_, rfl, rfl, hbuilt⟩

/-- The journals of a table can be packed. -/
def JournalsValid (connections : List NetCtx) : Prop := ∀ ctx ∈ connections, ctx.journal.Valid

theorem journalsValid_init {connections : List NetCtx}
    (h : ∀ ctx ∈ connections, ctx.journal = journalInit) : JournalsValid connections :=
  fun ctx hctx => h ctx hctx ▸ Journal.valid_init

theorem NetTableChange.journals_valid {host : NetHost} {cause : ChangeCause}
    {connections t : List NetCtx} (h : NetTableChange host cause connections t)
    (hjournals : JournalsValid connections) : JournalsValid t := by
  intro ctx hctx
  cases h with
  | same => exact hjournals ctx hctx
  | @slot slot old new hslot hchange =>
    rcases List.mem_or_eq_of_mem_set hctx with hold | rfl
    · exact hjournals ctx hold
    · have hvalid := hjournals old (List.mem_of_getElem? hslot)
      cases hchange with
      | ended => exact Journal.valid_reset _
      | trimmed => exact Journal.valid_reset _
      | registered => exact hvalid
      | invited => exact hvalid
      | established => exact hvalid
      | received => exact hvalid
  | added hcreated =>
    rcases List.mem_append.mp hctx with hold | hnew
    · exact hjournals ctx hold
    · obtain ⟨state, -, rfl⟩ := Option.map_eq_some_iff.mp hcreated
      rw [List.mem_singleton.mp hnew]
      exact Journal.valid_init

section Slot
variable {host : NetHost} {connections t : List NetCtx} {slot : ℕ} {ctx ctx' : NetCtx}

/-- A connection that stays in use keeps its own SSRC and the address of the other side. -/
theorem change_addressed {cause : ChangeCause} (h : NetTableChange host cause connections t)
    (hctx : connections[slot]? = some ctx) (hused : netCtxIsUsed ctx = true)
    (hctx' : t[slot]? = some ctx') (hused' : netCtxIsUsed ctx' = true) :
    ctx'.sendSsrc = ctx.sendSsrc ∧ ctx'.dataAddress = ctx.dataAddress := by
  have hlt := (List.getElem?_eq_some_iff.mp hctx).1
  cases h with
  | same =>
    cases hctx.symm.trans hctx'
    exact ⟨rfl, rfl⟩
  | @slot changed old new hslot hchange =>
    by_cases hsame : changed = slot
    · subst hsame
      rw [List.getElem?_set_self hlt] at hctx'
      cases hctx'
      cases hslot.symm.trans hctx
      cases hchange with
      | registered hfree => simp [netCtxIsUsed, hfree] at hused
      | ended => simp [netCtxIsUsed, netCtxReset] at hused'
      | trimmed | invited | established | received => exact ⟨rfl, rfl⟩
    · rw [List.getElem?_set_ne hsame, hctx] at hctx'
      cases hctx'
      exact ⟨rfl, rfl⟩
  | added =>
    rw [List.getElem?_append_left hlt, hctx] at hctx'
    cases hctx'
    exact ⟨rfl, rfl⟩

end Slot

/-- A connection that stays in use keeps a part of its context. -/
def Kept {α : Type} (part : NetCtx → α) (connections t : List NetCtx) : Prop :=
  ∀ (slot : ℕ) (ctx ctx' : NetCtx), connections[slot]? = some ctx → netCtxIsUsed ctx = true →
    t[slot]? = some ctx' → netCtxIsUsed ctx' = true → part ctx' = part ctx

namespace Kept
variable {α : Type} (part : NetCtx → α)

theorem refl (connections : List NetCtx) : Kept part connections connections := by
  intro slot ctx ctx' hctx _ hctx' _
  cases hctx.symm.trans hctx'
  rfl

variable {part}

theorem set {connections : List NetCtx} {slot : ℕ} {old new : NetCtx}
    (hold : connections[slot]? = some old)
    (hkept : netCtxIsUsed new = true → part new = part old) :
    Kept part connections (connections.set slot new) := by
  intro other ctx ctx' hctx _ hctx' hused'
  by_cases hother : slot = other
  · subst hother
    rw [List.getElem?_set_self (List.getElem?_eq_some_iff.mp hctx).1] at hctx'
    cases hctx'
    cases hold.symm.trans hctx
    exact hkept hused'
  · rw [List.getElem?_set_ne hother, hctx] at hctx'
    cases hctx'
    rfl

end Kept

section Responders
variable {host : NetHost} {moment : NetMoment} {connections t : List NetCtx} {α : Type}
  {part : NetCtx → α}

theorem invResponder_kept {ipAddress : List UInt8} {port : UInt16}
    {data : Option NetApplemidiInv} {answer : Option (List UInt8)}
    (hok : applemidiInvResponder host moment connections ipAddress port data = .ok (t, answer)) :
    Kept part connections t := by
  cases data with
  | none =>
    cases hok
    exact .refl _ _
  | some inv =>
    have htable : t = (applemidiInvContext host moment connections ipAddress port inv).1 := by
      simp only [applemidiInvResponder] at hok
      split at hok
      · cases hok
        rfl
      · obtain ⟨octets, -, hok⟩ := bind_ok hok
        cases hok
        rfl
    unfold applemidiInvContext at htable
    cases hfind : netCtxFindBySsrc connections inv.ssrc with
    | some found =>
      rw [htable, hfind]
      exact .refl _ _
    | none =>
      obtain ⟨u, changed, new, hregister, ⟨-, hothers, hfree⟩, -⟩ := register_fresh host hfind
        inv.initiator ipAddress port inv.name (moment.random 0) moment.now
      rw [htable, hfind, hregister]
      intro slot ctx ctx' hctx hused hctx' _
      have hother : slot ≠ changed := by
        rintro rfl
        simp [netCtxIsUsed, hfree ctx hctx] at hused
      rw [hothers slot hother, hctx] at hctx'
      cases hctx'
      rfl

theorem okResponder_kept
    (hpart : ∀ ctx ssrc status, part { ctx with ssrc := ssrc, status := status } = part ctx)
    {data : Option NetApplemidiInv} {effects : List NetEffect}
    (hok : applemidiOkResponder host moment connections data = .ok (t, effects)) :
    Kept part connections t := by
  cases data with
  | none =>
    cases hok
    exact .refl _ _
  | some okPacket =>
    simp only [applemidiOkResponder] at hok
    cases hfind : netCtxFindByInitiator connections okPacket.initiator with
    | none =>
      rw [hfind] at hok
      cases hok
      exact .refl _ _
    | some found =>
      rw [hfind] at hok
      obtain ⟨⟨next, sent⟩, hadvance, hok⟩ := bind_ok hok
      cases hok
      refine .set (find_some hfind).1 fun _ => ?_
      cases okAdvance_outcome hadvance with
      | first => exact hpart _ _ _
      | second => exact hpart _ found.2.ssrc _
      | other => rfl

theorem byResponder_kept (data : Option NetApplemidiInv) :
    Kept part connections (applemidiByResponder connections data) := by
  cases data with
  | none => exact .refl _ _
  | some inv =>
    simp only [applemidiByResponder]
    cases hfind : netCtxFindBySsrc connections inv.ssrc with
    | none => exact .refl _ _
    | some found =>
      refine .set (find_some hfind).1 fun hused => ?_
      simp [netCtxIsUsed, netCtxReset] at hused

theorem feedbackResponder_kept (hpart : ∀ ctx, part (netCtxJournalReset ctx) = part ctx)
    (data : Option NetApplemidiFeedback) :
    Kept part connections (applemidiFeedbackResponder connections data) := by
  cases data with
  | none => exact .refl _ _
  | some feedback =>
    simp only [applemidiFeedbackResponder, applemidiFeedbackResets]
    cases hfind : netCtxFindBySsrc connections feedback.ssrc with
    | none => exact .refl _ _
    | some found =>
      dsimp only
      split_ifs
      · exact .set (find_some hfind).1 fun _ => hpart _
      · exact .refl _ _

/-- An AppleMIDI command touches the SSRC and the status of a connection that stays in use, and
its journal if it is a feedback. -/
theorem dispatch_kept
    (hpart : ∀ ctx ssrc status, part { ctx with ssrc := ssrc, status := status } = part ctx)
    {d : Datagram} {command : NetApplemidiCommand}
    (htrim : ∀ feedback, command.command = netApplemidiCmdFeedback →
      command.data.asFeedback = .ok (some feedback) →
        ∀ ctx, part (netCtxJournalReset ctx) = part ctx) {effects : List NetEffect}
    (hok : netSocketDispatch host moment connections d command = .ok (t, effects)) :
    Kept part connections t := by
  unfold netSocketDispatch at hok
  split_ifs at hok with hinv haccept hend hsync hfeedback
  · obtain ⟨data, -, hok⟩ := bind_ok hok
    obtain ⟨answered, hanswered, hok⟩ := bind_ok hok
    cases hok
    exact invResponder_kept hanswered
  · obtain ⟨data, -, hok⟩ := bind_ok hok
    exact okResponder_kept hpart hok
  · obtain ⟨data, -, hok⟩ := bind_ok hok
    cases hok
    exact byResponder_kept data
  · obtain ⟨data, -, hok⟩ := bind_ok hok
    obtain ⟨answer, -, hok⟩ := bind_ok hok
    cases hok
    exact .refl _ _
  · obtain ⟨data, hdata, hok⟩ := bind_ok hok
    cases hok
    cases data with
    | none => exact .refl _ _
    | some feedback => exact feedbackResponder_kept (htrim feedback hfeedback hdata) _
  · cases hok
    exact .refl _ _

/-- A packet without the whole of a header is not read. -/
theorem rtp_short {d : Datagram} {packet : List UInt8} (hshort : packet.length < 12) :
    netSocketRtp connections d (some packet) = .error .nullPointer := by
  simp only [netSocketRtp, rtpPacketUnpackBuffer,
    rtpPacketUnpack_short (r := ⟨packet, d.beyond⟩) hshort, Except.map, bind, Except.bind]

/-- An RTP packet goes to the parser of the connection that it names, and to no other. -/
theorem rtp_keeps {d : Datagram} {packet : List UInt8} {effects : List NetEffect}
    (hmax : packet.length ≤ mallocMax)
    (hok : netSocketRtp connections d (some packet) = .ok (t, effects)) {slot : ℕ} {ctx : NetCtx}
    (hctx : connections[slot]? = some ctx)
    (hother : (readRtpPacket packet).header.ssrc ≠ ctx.ssrc) : t[slot]? = some ctx := by
  by_cases hlong : 12 ≤ packet.length
  · rw [rtp_eq connections d hlong hmax] at hok
    split_ifs at hok
    · cases hok
      exact hctx
    · cases hfind : netCtxFindBySsrc connections (readRtpPacket packet).header.ssrc with
      | none =>
        rw [hfind] at hok
        cases hok
        exact hctx
      | some found =>
        obtain ⟨hfound, hwanted⟩ := find_some hfind
        rw [hfind] at hok
        have hne : found.1 ≠ slot := by
          rintro rfl
          cases hfound.symm.trans hctx
          simp only [Bool.and_eq_true, beq_iff_eq] at hwanted
          exact hother hwanted.2.symm
        cases hpayload : readPayload (packet.drop 12) with
        | none =>
          rw [hpayload] at hok
          cases hok
        | some payload =>
          rw [hpayload] at hok
          obtain ⟨written, -, hok⟩ := bind_ok hok
          obtain ⟨response, -, hok⟩ := bind_ok hok
          obtain ⟨sent, -, hok⟩ := bind_ok hok
          cases hok
          rw [List.getElem?_set_ne hne]
          exact hctx
  · cases (rtp_short (not_le.mp hlong)).symm.trans hok

end Responders

/-- A datagram that is no RTP packet of the session, read by the side that receives it. -/
def Elsewhere (ssrc : UInt32) (packet : List UInt8) : Prop :=
  ¬ IsApplemidi packet → (readRtpPacket packet).header.ssrc ≠ ssrc

theorem read_keeps {s u : NetState} (h : s.Valid) {host : NetHost} {moment : NetMoment}
    {d : Datagram} (hmax : d.packet.length ≤ netApplemidiUdpSize) {effects : List NetEffect}
    (hok : netSocketRead host moment s d = .ok (u, effects)) {slot : ℕ} {ctx ctx' : NetCtx}
    (hctx : s.connections[slot]? = some ctx) (hused : netCtxIsUsed ctx = true)
    (helsewhere : Elsewhere ctx.ssrc d.packet) (hctx' : u.connections[slot]? = some ctx')
    (hused' : netCtxIsUsed ctx' = true) : ctx'.midiState = ctx.midiState := by
  by_cases hpos : 0 < d.packet.length
  · obtain ⟨t, p, size, -, -, hread⟩ := read_eq h host moment hpos hmax
    rw [hread] at hok
    obtain ⟨handled, hhandled, heq⟩ := map_ok hok
    cases heq
    by_cases hclass : IsApplemidi d.packet
    · rw [if_pos hclass] at hhandled
      unfold netSocketApplemidi at hhandled
      split at hhandled
      · cases hhandled
      · obtain ⟨done, hdispatch, hhandled⟩ := bind_ok hhandled
        obtain ⟨-, -, hhandled⟩ := bind_ok hhandled
        cases hhandled
        have hkept : Kept NetCtx.midiState s.connections handled.1 :=
          dispatch_kept (fun _ _ _ => rfl) (fun _ _ _ _ => rfl) hdispatch
        exact hkept slot ctx ctx' hctx hused hctx' hused'
    · rw [if_neg hclass] at hhandled
      have hsame := rtp_keeps (hmax.trans (by decide)) hhandled hctx (helsewhere hclass)
      cases hsame.symm.trans hctx'
      rfl
  · rw [netSocketRead, if_pos (by omega)] at hok
    cases hok
    cases hctx.symm.trans hctx'
    rfl

/-- A connection is found by its SSRC where its slot is the first one with it. -/
theorem findBySsrc_firstAt {connections : List NetCtx} {slot : ℕ} {ssrc : UInt32} :
    (∃ ctx, netCtxFindBySsrc connections ssrc = some (slot, ctx)) ↔
      FirstAt slot ssrc (slotsOf connections) := by
  have hwanted : ∀ ctx : NetCtx, (netCtxIsUsed ctx && ctx.ssrc == ssrc) = true ↔
      slotOf ctx = some ssrc := by
    intro ctx
    rw [slotOf_eq_some_iff, Bool.and_eq_true, beq_iff_eq]
  constructor
  · rintro ⟨ctx, hfind⟩
    obtain ⟨hctx, hhere, hbefore⟩ := find_iff.mp hfind
    refine ⟨?_, fun other hother hheld => ?_⟩
    · rw [slots_get, hctx, Option.map_some, (hwanted ctx).mp hhere]
    · rw [slots_get, Option.map_eq_some_iff] at hheld
      obtain ⟨earlier, hearlier, hslot⟩ := hheld
      have hnot := hbefore other hother earlier hearlier
      rw [(hwanted earlier).mpr hslot] at hnot
      cases hnot
  · rintro ⟨hhere, hfirst⟩
    rw [slots_get, Option.map_eq_some_iff] at hhere
    obtain ⟨ctx, hctx, hslot⟩ := hhere
    refine ⟨ctx, find_iff.mpr ⟨hctx, (hwanted ctx).mpr hslot,
      fun other hother earlier hearlier => ?_⟩⟩
    rw [Bool.eq_false_iff]
    intro hheld
    refine hfirst other hother ?_
    rw [slots_get, hearlier, Option.map_some, (hwanted earlier).mp hheld]

end RaveloxMidi
