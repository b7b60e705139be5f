import RaveloxMidi.NetSocket

/-!
# Sending a MIDI command to every connection

For each slot of the table the sender packs the journal of the context, counts
up its sequence number, writes one packet and adds the event to the journal. The
loop does not ask whether a slot is in use; it only skips the context that the
command came from.
-/
namespace RaveloxMidi
open ByteMemory

def rtpPacketHeaderSize : ℕ := 12

/-- The time runs from the start of the context and is cut to 32 bits, the
sequence number to sixteen. -/
def netCtxUpdateRtpFields (ctx : NetCtx) (now : UInt64) (header : RtpPacketHeader) :
    RtpPacketHeader :=
  { header with
    seq := ctx.seq.toUInt16
    timestamp := (now - ctx.start).toUInt32
    ssrc := ctx.sendSsrc }

/-- `packed_payload_len`. -/
def packedPayloadLen (header : MidiPayloadHeader) : ℕ :=
  1 + header.len.toNat + if header.len > 15 then 1 else 0

/-- The parts of a packet in the order in which they are written. The octets of
the payload header are those of `midi_payload_pack`, whose code the sender repeats. -/
def midiSenderParts (header : RtpPacketHeader) (payload : MidiPayloadHeader)
    (bytes journal : List UInt8) : List (List UInt8) :=
  [putUint16 (rtpTempHeader header), putUint16 header.seq, putUint32 header.timestamp,
    putUint32 header.ssrc, midiPayloadHeaderPack payload, bytes, journal]

def midiSenderPack (header : RtpPacketHeader) (payload : MidiPayload) (journal : List UInt8) :
    Except Fault (List UInt8) := do
  let bytes ← load (payload.buffer.getD []) 0 payload.header.len.toNat
  let size := rtpPacketHeaderSize + packedPayloadLen payload.header + journal.length
  let out ← (Writer.alloc size).putAll (midiSenderParts header payload.header bytes journal)
  return out.written

/-- What an event adds to the journal of a context. -/
def netCtxAddEvent (ctx : NetCtx) : MidiEvent → NetCtx
  | .note midiNote => netCtxAddJournal ctx (.note midiNote)
  | .control midiControl => netCtxAddJournal ctx (.control midiControl)
  | .program midiProgram => netCtxAddJournal ctx (.program midiProgram)
  | .other => ctx

/-- The J flag says whether a journal follows. -/
def midiSenderMarkJournal (payload : MidiPayload) (journal : List UInt8) : MidiPayload :=
  if journal.length > 0 then midiPayloadSetJ payload else midiPayloadUnsetJ payload

/-- One pass of the loop. The payload is kept for the next one. -/
def midiSenderSendConnection (host : NetHost) (now : UInt64) (event : MidiEvent) (slot : ℕ)
    (payload : MidiPayload) (ctx : NetCtx) :
    Except Fault (NetCtx × MidiPayload × List NetEffect) := do
  let packed ← netCtxJournalPack ctx
  let payload := midiSenderMarkJournal payload packed.2
  let ctx := netCtxIncrementSeq packed.1
  let header := netCtxUpdateRtpFields ctx now rtpPacketCreate.header
  let packet ← midiSenderPack header payload packed.2
  let sent := (netCtxSend ctx packet false).toList.map fun sent =>
    NetEffect.packet slot sent.1 sent.2
  return (if host.journalWrite then netCtxAddEvent ctx event else ctx, payload, sent)

/-- The clock is read again for each slot. -/
def midiSenderLoop (host : NetHost) (clock : ℕ → UInt64) (originator : UInt32)
    (event : MidiEvent) : ℕ → MidiPayload → List NetCtx →
    Except Fault (List NetCtx × List NetEffect)
  | _, _, [] => .ok ([], [])
  | slot, payload, ctx :: rest =>
    if ctx.ssrc = originator then do
      let later ← midiSenderLoop host clock originator event (slot + 1) payload rest
      return (ctx :: later.1, later.2)
    else do
      let sent ← midiSenderSendConnection host (clock slot) event slot payload ctx
      let later ← midiSenderLoop host clock originator event (slot + 1) sent.2.1 rest
      return (sent.1 :: later.1, sent.2.2 ++ later.2)

def midiSenderSendSingle (host : NetHost) (clock : ℕ → UInt64) (connections : List NetCtx)
    (command : MidiCommand) (originator : UInt32) :
    Except Fault (List NetCtx × List NetEffect) := do
  let payload ← midiCommandToPayload command
  let event ← midiSenderEvent command
  midiSenderLoop host clock originator event 0 payload connections

theorem headerPack_length (header : MidiPayloadHeader) :
    (midiPayloadHeaderPack header).length + header.len.toNat = packedPayloadLen header := by
  unfold midiPayloadHeaderPack packedPayloadLen
  by_cases hshort : header.len ≤ 15
  · have hnot : ¬ header.len > 15 := UInt16.not_lt.mpr hshort
    rw [if_pos hshort, if_neg hnot, List.length_singleton, Nat.add_zero]
  · have hlong : header.len > 15 := UInt16.not_le.mp hshort
    rw [if_neg hshort, if_pos hlong, List.length_cons, List.length_singleton]
    omega

/-- The parts fill the packet exactly. -/
theorem senderPack_ok (header : RtpPacketHeader) (payload : MidiPayload) {bytes : List UInt8}
    (hload : load (payload.buffer.getD []) 0 payload.header.len.toNat = .ok bytes)
    (journal : List UInt8) :
    midiSenderPack header payload journal =
      .ok (midiSenderParts header payload.header bytes journal).flatten := by
  have hlength := load_length hload
  have hpacked := headerPack_length payload.header
  obtain ⟨out, hput, hout⟩ := (Writer.alloc_holds
    (rtpPacketHeaderSize + packedPayloadLen payload.header + journal.length)).putAll
    (midiSenderParts header payload.header bytes journal) (by
      simp only [midiSenderParts, List.flatten_cons, List.flatten_nil, List.length_append,
        putUint16_length, putUint32_length, List.length_nil, rtpPacketHeaderSize]
      omega)
  rw [midiSenderPack, hload]
  simp only [hput, hout.written_eq, bind, Except.bind, pure, Except.pure, List.nil_append]

/-- The sequence number of a packet. -/
def packetSeq (packet : List UInt8) : UInt16 := UInt16.ofNat (wordAt packet 2 2)

theorem packetSeq_parts (header : RtpPacketHeader) (payload : MidiPayloadHeader)
    (bytes journal : List UInt8) :
    packetSeq (midiSenderParts header payload bytes journal).flatten = header.seq := by
  simp only [packetSeq, midiSenderParts, List.flatten_cons]
  rw [wordAt_append (putUint16_length _) (putUint16_length _), ofOctets_put16]

/-- A packet with the number and the source of a context. It carries as many octets
as its payload header counts, and the header does not have the B flag. -/
def PacketOf (seq : UInt32) (sendSsrc : UInt32) (packet : List UInt8) : Prop :=
  ∃ (header : RtpPacketHeader) (payload : MidiPayloadHeader) (bytes journal : List UInt8),
    packet = (midiSenderParts header payload bytes journal).flatten ∧
      header = { rtpPacketCreate.header with
        seq := seq.toUInt16, timestamp := header.timestamp, ssrc := sendSsrc } ∧
      payload.b = false ∧ bytes.length = payload.len.toNat

theorem PacketOf.seq_eq {seq sendSsrc : UInt32} {packet : List UInt8}
    (h : PacketOf seq sendSsrc packet) : packetSeq packet = seq.toUInt16 := by
  obtain ⟨header, payload, bytes, journal, rfl, hheader, -⟩ := h
  rw [packetSeq_parts, hheader]

/-- What a send leaves alone in a context. -/
structure SameConnection (ctx ctx' : NetCtx) : Prop where
  status : ctx'.status = ctx.status
  ssrc : ctx'.ssrc = ctx.ssrc
  sendSsrc : ctx'.sendSsrc = ctx.sendSsrc
  initiator : ctx'.initiator = ctx.initiator
  dataAddress : ctx'.dataAddress = ctx.dataAddress
  midiState : ctx'.midiState = ctx.midiState

theorem SameConnection.rfl {ctx : NetCtx} : SameConnection ctx ctx :=
  ⟨Eq.refl _, Eq.refl _, Eq.refl _, Eq.refl _, Eq.refl _, Eq.refl _⟩

theorem addEvent_same (ctx : NetCtx) (event : MidiEvent) :
    SameConnection ctx (netCtxAddEvent ctx event) ∧ (netCtxAddEvent ctx event).seq = ctx.seq := by
  cases event <;> exact ⟨⟨rfl, rfl, rfl, rfl, rfl, rfl⟩, rfl⟩

theorem markJournal_b (payload : MidiPayload) (journal : List UInt8) :
    (midiSenderMarkJournal payload journal).header.b = payload.header.b := by
  unfold midiSenderMarkJournal
  split_ifs <;> rfl

/-- One pass counts up by one and sends one packet, if the address is known. -/
theorem sendConnection_spec {host : NetHost} {now : UInt64} {event : MidiEvent} {slot : ℕ}
    {payload payload' : MidiPayload} {ctx ctx' : NetCtx} {effects : List NetEffect}
    (hb : payload.header.b = false)
    (hok : midiSenderSendConnection host now event slot payload ctx =
      .ok (ctx', payload', effects)) :
    SameConnection ctx ctx' ∧ ctx'.seq = ctx.seq + 1 ∧ payload'.header.b = false ∧
      ∃ packet, effects = ctx.dataAddress.toList.map (fun address => .packet slot address packet) ∧
        PacketOf (ctx.seq + 1) ctx.sendSsrc packet := by
  obtain ⟨packed, hpacked, hok⟩ := bind_ok hok
  obtain ⟨packet, hpacket, hok⟩ := bind_ok hok
  obtain ⟨bytes, hbytes, -⟩ := bind_ok hpacket
  have hsent := Except.ok.inj ((senderPack_ok _ _ hbytes packed.2).symm.trans hpacket)
  obtain ⟨journal, hjournal⟩ : ∃ journal, packed.1 = { ctx with journal := journal } := by
    unfold netCtxJournalPack at hpacked
    cases hpack : journalPack ctx.journal with
    | error fault => rw [hpack] at hpacked; cases hpacked
    | ok result =>
      rw [hpack] at hpacked
      exact ⟨result.1, by cases hpacked; rfl⟩
  have hlength : packet.length ≠ 0 := by
    rw [← hsent]
    simp [midiSenderParts]
  have hcounted : SameConnection ctx (if host.journalWrite then
        netCtxAddEvent (netCtxIncrementSeq packed.1) event else netCtxIncrementSeq packed.1) ∧
      (if host.journalWrite then netCtxAddEvent (netCtxIncrementSeq packed.1) event
        else netCtxIncrementSeq packed.1).seq = ctx.seq + 1 := by
    rw [hjournal]
    split_ifs
    · obtain ⟨⟨hstatus, hssrc, hsendSsrc, hinitiator, haddress, hparser⟩, hseq⟩ :=
        addEvent_same (netCtxIncrementSeq { ctx with journal := journal }) event
      exact ⟨⟨hstatus, hssrc, hsendSsrc, hinitiator, haddress, hparser⟩, hseq⟩
    · exact ⟨⟨rfl, rfl, rfl, rfl, rfl, rfl⟩, rfl⟩
  cases hok
  refine ⟨hcounted.1, hcounted.2, (markJournal_b payload packed.2).trans hb, packet, ?_, ?_⟩
  · rw [netCtxSend, if_neg hlength, hjournal]
    cases ctx.dataAddress <;> simp [netCtxIncrementSeq]
  · refine ⟨_, _, bytes, packed.2, hsent.symm, ?_, (markJournal_b _ _).trans hb,
      load_length hbytes⟩
    rw [hjournal]
    rfl

/-- The packets among some effects that went to a slot. -/
def packetsTo (slot : ℕ) (effects : List NetEffect) : List (List UInt8) :=
  effects.filterMap fun
    | .packet other _ packet => if other = slot then some packet else none
    | _ => none

theorem packetsTo_append (slot : ℕ) (effects later : List NetEffect) :
    packetsTo slot (effects ++ later) = packetsTo slot effects ++ packetsTo slot later :=
  List.filterMap_append ..

theorem packetsTo_sent (slot other : ℕ) (addresses : List SocketAddress) (packet : List UInt8) :
    packetsTo slot (addresses.map fun address => .packet other address packet) =
      if other = slot then List.replicate addresses.length packet else [] := by
  induction addresses with
  | nil => simp [packetsTo]
  | cons address addresses ih =>
    simp only [packetsTo] at ih ⊢
    rw [List.map_cons, List.filterMap_cons, ih]
    by_cases hslot : other = slot
    · simp [hslot, List.replicate_succ]
    · simp [hslot]

/-- What the packets sent to a context have to do with its counter. Without an
address nothing is sent at all. -/
structure Carries (ctx ctx' : NetCtx) (packets : List (List UInt8)) : Prop where
  sendSsrc : ctx'.sendSsrc = ctx.sendSsrc
  dataAddress : ctx'.dataAddress = ctx.dataAddress
  silent : ctx.dataAddress = none → packets = []
  counted : ctx.dataAddress ≠ none → ctx'.seq = ctx.seq + UInt32.ofNat packets.length
  packetOf : ∀ k packet, packets[k]? = some packet →
    PacketOf (ctx.seq + UInt32.ofNat (k + 1)) ctx.sendSsrc packet

namespace Carries

/-- Nothing is sent and nothing counted. -/
theorem still {ctx ctx' : NetCtx} (hsendSsrc : ctx'.sendSsrc = ctx.sendSsrc)
    (haddress : ctx'.dataAddress = ctx.dataAddress) (hseq : ctx'.seq = ctx.seq) :
    Carries ctx ctx' [] :=
  ⟨hsendSsrc, haddress, fun _ => rfl, fun _ => by simp [hseq], by simp⟩

theorem trans {ctx ctx' ctx'' : NetCtx} {packets later : List (List UInt8)}
    (h : Carries ctx ctx' packets) (h' : Carries ctx' ctx'' later) :
    Carries ctx ctx'' (packets ++ later) := by
  have haddress := h.dataAddress
  refine ⟨h'.sendSsrc.trans h.sendSsrc, h'.dataAddress.trans haddress, ?_, ?_, ?_⟩
  · intro hnone
    rw [h.silent hnone, h'.silent (haddress.trans hnone), List.append_nil]
  · intro hsome
    rw [h'.counted (haddress ▸ hsome), h.counted hsome, List.length_append, UInt32.ofNat_add,
      UInt32.add_assoc]
  · intro k packet hpacket
    by_cases hk : k < packets.length
    · rw [List.getElem?_append_left hk] at hpacket
      exact h.packetOf k packet hpacket
    · rw [List.getElem?_append_right (not_lt.mp hk)] at hpacket
      have hsome : ctx.dataAddress ≠ none := by
        intro hnone
        rw [h'.silent (haddress.trans hnone)] at hpacket
        cases hpacket
      have hsent := h'.packetOf _ packet hpacket
      rw [h.counted hsome, h.sendSsrc, UInt32.add_assoc, ← UInt32.ofNat_add] at hsent
      rwa [show packets.length + (k - packets.length + 1) = k + 1 by omega] at hsent

/-- One packet, or none without an address. -/
theorem single {ctx ctx' : NetCtx} {packet : List UInt8} (hsame : SameConnection ctx ctx')
    (hseq : ctx'.seq = ctx.seq + 1) (hpacket : PacketOf (ctx.seq + 1) ctx.sendSsrc packet) :
    Carries ctx ctx' (List.replicate ctx.dataAddress.toList.length packet) := by
  cases haddress : ctx.dataAddress with
  | none =>
    exact ⟨hsame.sendSsrc, hsame.dataAddress, fun _ => rfl,
      fun hsome => absurd haddress hsome, by simp⟩
  | some address =>
    refine ⟨hsame.sendSsrc, hsame.dataAddress, fun hnone => ?_, fun _ => hseq,
      fun k other hother => ?_⟩
    · rw [haddress] at hnone
      cases hnone
    · cases k with
      | zero =>
        cases hother
        exact hpacket
      | succ k => cases hother

end Carries

/-- What a send does for one slot: the originator is left alone, every other context is
counted up and gets one packet if its address is known. -/
structure Served (originator : UInt32) (ctx ctx' : NetCtx) (packets : List (List UInt8)) :
    Prop where
  same : SameConnection ctx ctx'
  carries : Carries ctx ctx' packets
  skipped : ctx.ssrc = originator → ctx' = ctx ∧ packets = []
  counted : ctx.ssrc ≠ originator → ctx'.seq = ctx.seq + 1
  sent : ctx.ssrc ≠ originator → ctx.dataAddress ≠ none → packets.length = 1

/-- The loop over the slots: by induction on the contexts left. -/
theorem senderLoop_spec {host : NetHost} {clock : ℕ → UInt64} {originator : UInt32}
    {event : MidiEvent} {slot : ℕ} {payload : MidiPayload} {connections t : List NetCtx}
    {effects : List NetEffect} (hb : payload.header.b = false)
    (hok : midiSenderLoop host clock originator event slot payload connections =
      .ok (t, effects)) :
    (∀ other < slot, packetsTo other effects = []) ∧ t.length = connections.length ∧
      ∀ i ctx, connections[i]? = some ctx → ∃ ctx', t[i]? = some ctx' ∧
        Served originator ctx ctx' (packetsTo (slot + i) effects) := by
  induction connections generalizing slot payload t effects with
  | nil =>
    cases hok
    exact ⟨fun _ _ => rfl, rfl, by simp⟩
  | cons ctx rest ih =>
    unfold midiSenderLoop at hok
    by_cases horigin : ctx.ssrc = originator
    · rw [if_pos horigin] at hok
      obtain ⟨later, hlater, hok⟩ := bind_ok hok
      cases hok
      obtain ⟨hbefore, hlength, hrest⟩ := ih hb hlater
      refine ⟨fun other hother => hbefore other (by omega), by simp [hlength],
        fun i ctx' hctx' => ?_⟩
      cases i with
      | zero =>
        cases hctx'
        refine ⟨ctx, rfl, ?_⟩
        rw [Nat.add_zero, hbefore slot (by omega)]
        exact ⟨.rfl, .still rfl rfl rfl, fun _ => ⟨rfl, rfl⟩,
          fun hne => absurd horigin hne, fun hne => absurd horigin hne⟩
      | succ i =>
        have hslot : slot + (i + 1) = slot + 1 + i := by omega
        rw [hslot]
        exact hrest i ctx' hctx'
    · rw [if_neg horigin] at hok
      obtain ⟨⟨next, payload', sent⟩, hsent, hok⟩ := bind_ok hok
      obtain ⟨later, hlater, hok⟩ := bind_ok hok
      cases hok
      obtain ⟨hsame, hseq, hb', packet, rfl, hpacket⟩ := sendConnection_spec hb hsent
      obtain ⟨hbefore, hlength, hrest⟩ := ih hb' hlater
      refine ⟨fun other hother => ?_, by simp [hlength], fun i ctx' hctx' => ?_⟩
      · rw [packetsTo_append, packetsTo_sent, if_neg (by omega), hbefore other (by omega)]
        rfl
      · cases i with
        | zero =>
          cases hctx'
          rw [Nat.add_zero, packetsTo_append, packetsTo_sent, if_pos rfl,
            hbefore slot (by omega), List.append_nil]
          refine ⟨next, rfl, hsame, .single hsame hseq hpacket, fun he => absurd he horigin,
            fun _ => hseq, fun _ hsome => ?_⟩
          cases haddress : ctx.dataAddress with
          | none => exact absurd haddress hsome
          | some address => rfl
        | succ i =>
          have hslot : slot + (i + 1) = slot + 1 + i := by omega
          rw [packetsTo_append, packetsTo_sent, if_neg (by omega), List.nil_append, hslot]
          exact hrest i ctx' hctx'

/-- The loop emits nothing but packets. -/
theorem senderLoop_packets {host : NetHost} {clock : ℕ → UInt64} {originator : UInt32}
    {event : MidiEvent} {slot : ℕ} {payload : MidiPayload} {connections t : List NetCtx}
    {effects : List NetEffect}
    (hok : midiSenderLoop host clock originator event slot payload connections =
      .ok (t, effects)) :
    ∀ effect ∈ effects, ∃ slot address packet, effect = .packet slot address packet := by
  induction connections generalizing slot payload t effects with
  | nil =>
    cases hok
    simp
  | cons ctx rest ih =>
    unfold midiSenderLoop at hok
    by_cases horigin : ctx.ssrc = originator
    · rw [if_pos horigin] at hok
      obtain ⟨later, hlater, hok⟩ := bind_ok hok
      cases hok
      exact ih hlater
    · rw [if_neg horigin] at hok
      obtain ⟨sent, hsent, hok⟩ := bind_ok hok
      obtain ⟨later, hlater, hok⟩ := bind_ok hok
      obtain ⟨packed, -, hsent⟩ := bind_ok hsent
      obtain ⟨packet, -, hsent⟩ := bind_ok hsent
      cases hok
      cases hsent
      intro effect heffect
      rcases List.mem_append.mp heffect with hnow | hthen
      · obtain ⟨sent, -, rfl⟩ := List.mem_map.mp hnow
        exact ⟨slot, sent.1, sent.2, rfl⟩
      · exact ih hlater effect hthen

theorem commandToPayload_b {command : MidiCommand} {payload : MidiPayload}
    (h : midiCommandToPayload command = .ok payload) : payload.header.b = false := by
  cases h
  rfl

/-- Every context is served with its own counter. -/
theorem sendSingle_spec {host : NetHost} {clock : ℕ → UInt64} {connections t : List NetCtx}
    {command : MidiCommand} {originator : UInt32} {effects : List NetEffect}
    (hok : midiSenderSendSingle host clock connections command originator = .ok (t, effects)) :
    t.length = connections.length ∧
      ∀ slot ctx, connections[slot]? = some ctx → ∃ ctx', t[slot]? = some ctx' ∧
        Served originator ctx ctx' (packetsTo slot effects) := by
  obtain ⟨payload, hpayload, hok⟩ := bind_ok hok
  obtain ⟨event, -, hok⟩ := bind_ok hok
  obtain ⟨-, hlength, hspec⟩ := senderLoop_spec (commandToPayload_b hpayload) hok
  refine ⟨hlength, fun slot ctx hctx => ?_⟩
  have hserved := hspec slot ctx hctx
  rwa [Nat.zero_add] at hserved

/-- There are as many octets as the header counts. -/
def PayloadReady (payload : MidiPayload) : Prop :=
  ∃ bytes, load (payload.buffer.getD []) 0 payload.header.len.toNat = .ok bytes

theorem commandToPayload_ready (command : MidiCommand) :
    ∃ payload, midiCommandToPayload command = .ok payload ∧ PayloadReady payload := by
  have hready : ∀ bytes : List UInt8, PayloadReady
      { midiPayloadCreate with header.len := UInt16.ofNat bytes.length, buffer := some bytes } := by
    intro bytes
    have hle : (UInt16.ofNat bytes.length).toNat ≤ bytes.length := by
      rw [UInt16.toNat_ofNat']
      exact Nat.mod_le _ _
    exact ⟨_, load_ok (by simpa using hle)⟩
  exact ⟨_, rfl, hready _⟩

theorem PayloadReady.mark {payload : MidiPayload} (h : PayloadReady payload)
    (journal : List UInt8) : PayloadReady (midiSenderMarkJournal payload journal) := by
  unfold midiSenderMarkJournal
  split_ifs
  · exact h
  · exact h

theorem addEvent_valid {ctx : NetCtx} (h : ctx.journal.Valid) (event : MidiEvent) :
    (netCtxAddEvent ctx event).journal.Valid := by
  cases event with
  | note midiNote => exact Journal.valid_addEvent h ctx.seq (.note midiNote)
  | control midiControl => exact Journal.valid_addEvent h ctx.seq (.control midiControl)
  | program midiProgram => exact Journal.valid_addEvent h ctx.seq (.program midiProgram)
  | other => exact h

theorem sendConnection_ok (host : NetHost) (now : UInt64) (event : MidiEvent) (slot : ℕ)
    {payload : MidiPayload} (hpayload : PayloadReady payload) {ctx : NetCtx}
    (h : ctx.journal.Valid) :
    ∃ ctx' payload' effects, midiSenderSendConnection host now event slot payload ctx =
      .ok (ctx', payload', effects) ∧ ctx'.journal.Valid ∧ PayloadReady payload' := by
  obtain ⟨journal, hpack, -, hvalid⟩ := Journal.pack_spec h
  have hpacked : netCtxJournalPack ctx =
      .ok ({ ctx with journal := journal }, ctx.journal.octets) := by
    rw [netCtxJournalPack, hpack]
    rfl
  have hready := hpayload.mark ctx.journal.octets
  obtain ⟨bytes, hbytes⟩ := hready
  have hcounted : (netCtxIncrementSeq { ctx with journal := journal }).journal.Valid := hvalid
  simp only [midiSenderSendConnection, hpacked, senderPack_ok _ _ hbytes, bind, Except.bind, pure,
    Except.pure]
  refine ⟨_, _, _, rfl, ?_, bytes, hbytes⟩
  split_ifs
  · exact addEvent_valid hcounted event
  · exact hcounted

theorem senderLoop_ok (host : NetHost) (clock : ℕ → UInt64) (originator : UInt32)
    (event : MidiEvent) (slot : ℕ) {payload : MidiPayload} (hpayload : PayloadReady payload)
    {connections : List NetCtx} (h : ∀ ctx ∈ connections, ctx.journal.Valid) :
    ∃ t effects, midiSenderLoop host clock originator event slot payload connections =
      .ok (t, effects) ∧ ∀ ctx ∈ t, ctx.journal.Valid := by
  induction connections generalizing slot payload with
  | nil => exact ⟨[], [], rfl, by simp⟩
  | cons ctx rest ih =>
    obtain ⟨hctx, hrest⟩ := List.forall_mem_cons.mp h
    by_cases horigin : ctx.ssrc = originator
    · obtain ⟨t, effects, hlater, ht⟩ := ih (slot + 1) hpayload hrest
      refine ⟨ctx :: t, effects, ?_, List.forall_mem_cons.mpr ⟨hctx, ht⟩⟩
      simp only [midiSenderLoop, if_pos horigin, hlater, bind, Except.bind, pure, Except.pure]
    · obtain ⟨ctx', payload', sent, hsent, hctx', hpayload'⟩ :=
        sendConnection_ok host (clock slot) event slot hpayload hctx
      obtain ⟨t, effects, hlater, ht⟩ := ih (slot + 1) hpayload' hrest
      refine ⟨ctx' :: t, sent ++ effects, ?_, List.forall_mem_cons.mpr ⟨hctx', ht⟩⟩
      simp only [midiSenderLoop, if_neg horigin, hsent, hlater, bind, Except.bind, pure,
        Except.pure]

/-- With sound journals a command that carries its data is sent without a fault. -/
theorem sendSingle_ok (host : NetHost) (clock : ℕ → UInt64) {connections : List NetCtx}
    (h : ∀ ctx ∈ connections, ctx.journal.Valid) {command : MidiCommand} {event : MidiEvent}
    (hevent : midiSenderEvent command = .ok event) (originator : UInt32) :
    ∃ t effects, midiSenderSendSingle host clock connections command originator =
      .ok (t, effects) ∧ ∀ ctx ∈ t, ctx.journal.Valid := by
  obtain ⟨payload, hpayload, hready⟩ := commandToPayload_ready command
  obtain ⟨t, effects, hloop, ht⟩ := senderLoop_ok host clock originator event 0 hready h
  refine ⟨t, effects, ?_, ht⟩
  simp only [midiSenderSendSingle, hpayload, hevent, bind, Except.bind, hloop]

end RaveloxMidi
