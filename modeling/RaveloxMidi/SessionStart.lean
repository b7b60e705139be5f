import RaveloxMidi.RemoteConnection

/-!
# What a new session finds in its slot

A slot is cleaned when its session ends, and a registration takes it as it finds
it: it sets neither the sequence number nor the journal, and of the parser all
but the mark of an unfinished SysEx. So a session starts clean if nothing has
touched the slot since, and if no SysEx was under way when the old session ended.
-/
namespace RaveloxMidi
open ByteMemory Transducer

/-- The parser is the one of a context that has just been created. -/
structure ParserFresh (state created : MidiState) : Prop where
  status : state.status = created.status
  runningStatus : state.runningStatus = created.runningStatus
  hold : state.hold = created.hold
  ring : state.ring = created.ring
  partialSysex : state.partialSysex = created.partialSysex

/-- A context as a session should find it. -/
structure StartsClean (host : NetHost) (ctx : NetCtx) : Prop where
  seq : ctx.seq = 1
  journal : ∃ journal, journalPack ctx.journal = .ok (journal, [])
  parser : ∃ created, netCtxCreate host = some created ∧
    ParserFresh ctx.midiState created.midiState

/-- Whatever is registered next, under an SSRC that is not in use, starts clean. -/
def RegistersClean (host : NetHost) (connections : List NetCtx) : Prop :=
  ∀ (ssrc initiator : UInt32) (ipAddress : List UInt8) (port : UInt16)
    (name : Option (List UInt8)) (random : UInt32) (now : UInt64) (t : List NetCtx) (slot : ℕ)
    (ctx : NetCtx), netCtxFindBySsrc connections ssrc = none →
      netCtxRegister host connections ssrc initiator ipAddress port name random now =
        (t, some (slot, ctx)) → StartsClean host ctx

/-- The sender passes over the unused slots: the SSRC that each has kept is the one
that the command came from. -/
def PassesUnused (connections : List NetCtx) (originator : UInt32) : Prop :=
  ∀ ctx ∈ connections, netCtxIsUsed ctx = false → ctx.ssrc = originator

/-- No SysEx is under way on the connection that the datagram ends. -/
def EndsWhole (connections : List NetCtx) (d : Datagram) : Prop :=
  IsApplemidi d.packet → ∀ slot ctx,
    datagramEnds connections d.packet d.beyond = some (slot, ctx) →
      ctx.midiState.partialSysex = false

/-- The call leaves the unused slots clean. -/
def KeepsClean (s : NetState) : SessionCall → Prop
  | .daemon (.read _ d) => EndsWhole s.connections d
  | .daemon (.send _ _ originator) => PassesUnused s.connections originator
  | .connect _ _ => True

/-- A parser of the host: only its octets have changed since it was created. -/
structure HostParser (host : NetHost) (state : MidiState) : Prop where
  represents : ∃ p queue,
    state.Represents p queue (max netSocketDefaultRingBuffer host.ringBufferSize)
  blockSize : state.hold.blockSize = dbufferDefaultBlockSize

namespace HostParser
variable {host : NetHost} {state written : MidiState}

theorem created {ctx : NetCtx} (h : netCtxCreate host = some ctx) :
    HostParser host ctx.midiState ∧ ctx.midiState.partialSysex = false := by
  obtain ⟨ctx', h', hparser⟩ := exists_created host
  cases h.symm.trans h'
  obtain ⟨state, hstate, rfl⟩ := Option.map_eq_some_iff.mp h
  exact ⟨⟨⟨_, _, (MidiState.create_represents hstate).1⟩, by rw [hparser]⟩, by rw [hparser]⟩

theorem reset (h : HostParser host state) : HostParser host (midiStateReset state) := by
  obtain ⟨⟨p, queue, hrep⟩, hblock⟩ := h
  exact ⟨⟨_, [], hrep.reset⟩, hblock⟩

/-- A reset parser is a new one, but for the mark of an unfinished SysEx. -/
theorem reset_fresh (h : HostParser host state) (hwhole : state.partialSysex = false)
    {ctx : NetCtx} (hcreated : netCtxCreate host = some ctx) :
    ParserFresh (midiStateReset state) ctx.midiState := by
  obtain ⟨⟨p, queue, hrep⟩, hblock⟩ := h
  obtain ⟨ctx', hcreated', hparser⟩ := exists_created host
  cases hcreated.symm.trans hcreated'
  rw [hparser]
  refine ⟨rfl, rfl, ?_, ?_, hwhole⟩
  · rw [← hblock]
    rfl
  · rw [← hrep.size_eq]
    rfl

theorem write (h : HostParser host state) {payload : MidiPayload}
    (hok : midiStateWritePayload state payload = .ok written) : HostParser host written := by
  unfold midiStateWritePayload at hok
  split at hok
  · cases hok
    exact h
  · obtain ⟨bytes, -, hok⟩ := bind_ok hok
    obtain ⟨⟨result, ret⟩, hwrite, hok⟩ := bind_ok hok
    cases hok
    obtain ⟨⟨p, queue, hrep⟩, hblock⟩ := h
    refine ⟨?_, (MidiState.write_blockSize hwrite).trans hblock⟩
    by_cases hfit : queue.length + bytes.length ≤
        max netSocketDefaultRingBuffer host.ringBufferSize
    · obtain ⟨out, ret', hout, hnext⟩ := MidiState.write_represents hrep bytes hfit
      cases hwrite.symm.trans hout
      exact ⟨p, _, hnext⟩
    · obtain ⟨ret', hout⟩ := MidiState.write_dropped hrep bytes (not_le.mp hfit)
      cases hwrite.symm.trans hout
      exact ⟨p, queue, hrep⟩

theorem send (h : HostParser host state) {mode : MidiParseMode} {zFlag : Bool}
    {commands : List MidiCommand}
    (hok : midiStateSend state mode zFlag = .ok (written, commands)) :
    HostParser host written := by
  obtain ⟨⟨p, queue, hrep⟩, hblock⟩ := h
  obtain ⟨out, hout, hnext⟩ := MidiState.send_represents hrep mode zFlag
  cases hok.symm.trans hout
  exact ⟨⟨_, [], hnext⟩, (MidiState.sendLoop_blockSize hok).trans hblock⟩

end HostParser

/-- What holds of every slot: an unused one is as the last session should have left it. -/
structure SlotKept (host : NetHost) (ctx : NetCtx) : Prop where
  parser : HostParser host ctx.midiState
  unused : netCtxIsUsed ctx = false →
    ctx.seq = 1 ∧ journalHasData ctx.journal = false ∧ ctx.midiState.partialSysex = false

namespace SlotKept
variable {host : NetHost} {ctx ctx' : NetCtx}

/-- A slot that is in use owes nothing but its parser. -/
theorem inUse (hparser : HostParser host ctx.midiState) (hused : netCtxIsUsed ctx = true) :
    SlotKept host ctx :=
  ⟨hparser, fun hfree => absurd (hused.symm.trans hfree) (by decide)⟩

theorem change {cause : ChangeCause}
    (hends : ∀ ctx, cause.ends ctx → ctx.midiState.partialSysex = false) (h : SlotKept host ctx)
    (hchange : NetCtxChange host cause ctx ctx') : SlotKept host ctx' := by
  cases hchange with
  | registered => exact inUse h.parser.reset rfl
  | ended hended => exact ⟨h.parser.reset, fun _ => ⟨rfl, rfl, hends ctx hended⟩⟩
  | trimmed =>
    refine ⟨h.parser, fun hfree => ?_⟩
    obtain ⟨hseq, -, hpartial⟩ := h.unused hfree
    exact ⟨hseq, rfl, hpartial⟩
  | invited => exact inUse h.parser rfl
  | established => exact inUse h.parser rfl
  | received hused hwrite hsend => exact inUse ((h.parser.write hwrite).send hsend) hused

/-- The sender touches neither the parser nor, if it passes over them, the unused slots. -/
theorem served {originator : UInt32} {packets : List (List UInt8)} (h : SlotKept host ctx)
    (hserved : Served originator ctx ctx' packets)
    (hpasses : netCtxIsUsed ctx = false → ctx.ssrc = originator) : SlotKept host ctx' := by
  refine ⟨hserved.same.midiState ▸ h.parser, fun hfree => ?_⟩
  have hfree' : netCtxIsUsed ctx = false := by
    rwa [netCtxIsUsed, hserved.same.status] at hfree
  rw [(hserved.skipped (hpasses hfree')).1]
  exact h.unused hfree'

end SlotKept

/-- What holds of the table between two calls. -/
def TableKept (host : NetHost) (connections : List NetCtx) : Prop :=
  ∀ ctx ∈ connections, SlotKept host ctx

section Table
variable {host : NetHost} {connections t : List NetCtx}

theorem table_kept {cause : ChangeCause}
    (hends : ∀ ctx, cause.ends ctx → ctx.midiState.partialSysex = false)
    (h : TableKept host connections) (hchange : NetTableChange host cause connections t) :
    TableKept host t := by
  intro ctx hctx
  cases hchange with
  | same => exact h ctx hctx
  | slot hslot hchange =>
    rcases List.mem_or_eq_of_mem_set hctx with hold | rfl
    · exact h ctx hold
    · exact (h _ (List.mem_of_getElem? hslot)).change hends hchange
  | added hcreated =>
    rcases List.mem_append.mp hctx with hold | hnew
    · exact h ctx hold
    · rw [List.mem_singleton] at hnew
      rw [hnew]
      exact SlotKept.inUse (HostParser.created hcreated).1.reset rfl

/-- As long as the slots are kept, a registration finds its slot clean. -/
theorem TableKept.registersClean (h : TableKept host connections) :
    RegistersClean host connections := by
  intro ssrc initiator ipAddress port name random now t slot ctx hfind hregister
  obtain ⟨created, hcreated, -⟩ := exists_created host
  have hempty : ∀ journal, journalHasData journal = false →
      ∃ packed, journalPack journal = .ok (packed, []) := fun journal hnone =>
    ⟨journal, by rw [journalPack, hnone]; rfl⟩
  unfold netCtxRegister at hregister
  rw [hfind] at hregister
  cases hunused : netCtxFindUnused connections with
  | some free =>
    obtain ⟨hslot, hstatus⟩ := find_some hunused
    have hkept := h _ (List.mem_of_getElem? hslot)
    obtain ⟨hseq, hjournal, hpartial⟩ := hkept.unused (by simpa [netCtxIsUsed] using hstatus)
    rw [hunused] at hregister
    cases hregister
    exact ⟨hseq, hempty _ hjournal, created, hcreated, hkept.parser.reset_fresh hpartial hcreated⟩
  | none =>
    obtain ⟨hparser, hpartial⟩ := HostParser.created hcreated
    rw [hunused, hcreated] at hregister
    cases hregister
    refine ⟨?_, ?_, created, hcreated, hparser.reset_fresh hpartial hcreated⟩
    · obtain ⟨state, -, rfl⟩ := Option.map_eq_some_iff.mp hcreated
      rfl
    · obtain ⟨state, -, rfl⟩ := Option.map_eq_some_iff.mp hcreated
      exact hempty _ rfl

end Table

section Run
variable {host : NetHost} {s t : NetState}

/-- Each call keeps the slots: one case for each kind of call. -/
theorem call_kept {call : SessionCall} {effects : List NetEffect} (hvalid : s.Valid)
    (h : TableKept host s.connections) (hfits : call.Fits) (hclean : KeepsClean s call)
    (hok : sessionCall host s call = .ok (t, effects)) : TableKept host t.connections := by
  cases call with
  | daemon call =>
    cases call with
    | read moment d =>
      refine table_kept ?_ h (read_caused hvalid hfits hok)
      rintro ctx ⟨happle, slot, hends⟩
      exact hclean happle slot ctx hends
    | send clock command originator =>
      intro ctx' hctx'
      obtain ⟨slot, ctx, hctx, hserved⟩ := send_served hok hctx'
      have hmem := List.mem_of_getElem? hctx
      exact (h ctx hmem).served hserved (hclean ctx hmem)
  | connect moment foundService =>
    obtain ⟨u, hchange, hset⟩ := connect_call hok
    have hkept : TableKept host u := table_kept (fun _ hends => False.elim hends) h hchange
    obtain hsame | ⟨slot, ctx, hslot, hset⟩ := hset
    · exact hsame ▸ hkept
    · intro other hother
      rw [hset] at hother
      rcases List.mem_or_eq_of_mem_set hother with hold | rfl
      · exact hkept other hold
      · exact SlotKept.inUse (hkept ctx (List.mem_of_getElem? hslot)).parser rfl

/-- In a run of the daemon in which the sender passes over the unused slots and no
connection ends within a SysEx, every new session starts clean. -/
theorem session_starts_clean {calls : List SessionCall} {effects : List NetEffect}
    (hstart : netStateStart host = some s) (hfits : ∀ call ∈ calls, call.Fits)
    (hclean : Along (sessionCall host) KeepsClean s calls)
    (hrun : run (sessionCall host) s calls = .ok (t, effects)) :
    RegistersClean host t.connections := by
  have hempty : TableKept host s.connections := by
    rw [start_connections hstart]
    exact fun ctx hctx => by cases hctx
  have hstep : ∀ (s : NetState) (call : SessionCall) (t : NetState) (now : List NetEffect),
      s.Valid ∧ TableKept host s.connections → call.Fits ∧ KeepsClean s call →
      sessionCall host s call = .ok (t, now) →
      (t.Valid ∧ TableKept host t.connections) ∧ ∀ _ ∈ now, True :=
    fun s call t now hs hcall hok =>
      ⟨⟨call_valid hs.1 hcall.1 hok, call_kept hs.1 hs.2 hcall.1 hcall.2 hok⟩, fun _ _ => trivial⟩
  have hcond : Along (sessionCall host) (fun s call => call.Fits ∧ KeepsClean s call) s calls :=
    along_and hfits hclean
  obtain ⟨⟨-, hkept⟩, -⟩ := run_preserves hstep ⟨start_valid hstart, hempty⟩ hcond hrun
  exact hkept.registersClean

end Run

/-- A datagram of an invitation or its end, with the SSRC 7. -/
def sevenDatagram (command : UInt16) : Datagram :=
  ⟨.control, [], 5004, commandOctets 0xffff command ++ invOctets ⟨7, 2, 1, none⟩, []⟩

theorem sevenDatagram_packet (command : UInt16) :
    InvPacket command 7 1 (sevenDatagram command).packet ∧
      (sevenDatagram command).packet.length ≤ netApplemidiUdpSize :=
  ⟨.packed command ⟨7, 2, 1, none⟩, by simp [sevenDatagram, commandOctets, invOctets,
    netApplemidiUdpSize]⟩

/-- The invitation registers the only context there is. -/
theorem seven_invited {s : NetState} (h : s.Valid) (hempty : s.connections = []) {created : NetCtx}
    (hcreated : netCtxCreate resolvingHost = some created) :
    ∃ u effects name, netSocketRead resolvingHost quietMoment s (sevenDatagram netApplemidiCmdInv) =
        .ok (u, effects) ∧
      u.connections = [netCtxSet resolvingHost created 7 1 0 5004 [] name 0] := by
  obtain ⟨hpacket, hmax⟩ := sevenDatagram_packet netApplemidiCmdInv
  obtain ⟨sockets, version, name, hread⟩ :=
    read_invPacket h resolvingHost quietMoment hpacket (by decide) hmax
  have hregister : applemidiInvContext resolvingHost quietMoment [] [] 5004
      ⟨7, version, 1, name⟩ =
        ([netCtxSet resolvingHost created 7 1 0 5004 [] name 0],
          some (0, netCtxSet resolvingHost created 7 1 0 5004 [] name 0)) := by
    simp only [applemidiInvContext, netCtxRegister, netCtxFindBySsrc, netCtxFindUnused, netCtxFind,
      hcreated]
    rfl
  obtain ⟨octets, haccept, -⟩ := accept_ok resolvingHost
    (netCtxSet resolvingHost created 7 1 0 5004 [] name 0)
  rw [hempty] at hread
  refine ⟨⟨[netCtxSet resolvingHost created 7 1 0 5004 [] name 0], sockets⟩,
    netReply (some octets), name, ?_, rfl⟩
  rw [hread, dispatch_inv]
  simp only [applemidiInvResponder, sevenDatagram, hregister, haccept, bind, Except.bind, pure,
    Except.pure, Except.map]

/-- The end resets it. -/
theorem seven_ended {s : NetState} (h : s.Valid) {ctx : NetCtx} (hctx : s.connections = [ctx])
    (hused : netCtxIsUsed ctx = true) (hssrc : ctx.ssrc = 7) :
    ∃ u, netSocketRead resolvingHost quietMoment s (sevenDatagram netApplemidiCmdEnd) =
        .ok (u, []) ∧ u.connections = [netCtxReset ctx] ∧
      datagramEnds s.connections (sevenDatagram netApplemidiCmdEnd).packet [] = some (0, ctx) := by
  obtain ⟨hpacket, hmax⟩ := sevenDatagram_packet netApplemidiCmdEnd
  obtain ⟨sockets, version, name, hread⟩ :=
    read_invPacket h resolvingHost quietMoment hpacket (by decide) hmax
  have hfind : netCtxFindBySsrc [ctx] 7 = some (0, ctx) := by
    simp [netCtxFindBySsrc, netCtxFind, hused, hssrc]
  rw [hctx] at hread
  refine ⟨⟨[netCtxReset ctx], sockets⟩, ?_, rfl, ?_⟩
  · rw [hread, dispatch_end]
    simp only [applemidiByResponder, hfind]
    rfl
  · obtain ⟨version, name, hunpack⟩ := hpacket.unpack (by decide) []
    rw [datagramEnds, hunpack, Option.bind_some, commandEnds, hctx]
    exact hfind

/-- A session that has come and gone. -/
def sevenSession : List SessionCall :=
  [.daemon (.read quietMoment (sevenDatagram netApplemidiCmdInv)),
    .daemon (.read quietMoment (sevenDatagram netApplemidiCmdEnd))]

theorem sevenSession_fits : ∀ call ∈ sevenSession, call.Fits := by
  intro call hcall
  simp only [sevenSession, List.mem_cons, List.not_mem_nil, or_false] at hcall
  rcases hcall with rfl | rfl
  · exact (sevenDatagram_packet netApplemidiCmdInv).2
  · exact (sevenDatagram_packet netApplemidiCmdEnd).2

/-- It leaves one unused slot behind, and every call of it keeps the slots clean. -/
theorem sevenSession_run : ∃ s t effects ctx, netStateStart resolvingHost = some s ∧
    run (sessionCall resolvingHost) s sevenSession = .ok (t, effects) ∧
    Along (sessionCall resolvingHost) KeepsClean s sevenSession ∧
    t.connections = [netCtxReset ctx] ∧ ctx.ssrc = 7 := by
  obtain ⟨created, hcreated, hparser⟩ := exists_created resolvingHost
  obtain ⟨s, hstart⟩ : ∃ s, netStateStart resolvingHost = some s := ⟨_, rfl⟩
  have hvalid := start_valid hstart
  have hempty := start_connections hstart
  obtain ⟨u, invited, name, hinv, hu⟩ := seven_invited hvalid hempty hcreated
  have hnext := read_valid hvalid (sevenDatagram_packet netApplemidiCmdInv).2 hinv
  obtain ⟨t, hend, ht, hends⟩ := seven_ended hnext hu rfl rfl
  refine ⟨s, t, invited ++ ([] ++ []), _, hstart,
    run_cons_ok hinv (run_cons_ok hend (run_nil _ _)), ⟨?_, ?_⟩, ht, rfl⟩
  · intro _ slot ctx hnothing
    obtain ⟨version, name, hunpack⟩ := (sevenDatagram_packet netApplemidiCmdInv).1.unpack
      (by decide) (sevenDatagram netApplemidiCmdInv).beyond
    rw [datagramEnds, hunpack] at hnothing
    cases hnothing
  · intro u' now hinv'
    cases hinv.symm.trans hinv'
    refine ⟨fun _ slot ctx hended => ?_, fun _ _ _ => trivial⟩
    cases hends.symm.trans hended
    show created.midiState.partialSysex = false
    rw [hparser]

/-- After a session that has come and gone, the next one starts clean. -/
theorem session_starts_clean_seven : ∃ s t effects, netStateStart resolvingHost = some s ∧
    run (sessionCall resolvingHost) s sevenSession = .ok (t, effects) ∧
    RegistersClean resolvingHost t.connections := by
  obtain ⟨s, t, effects, ctx, hstart, hrun, hclean, -, -⟩ := sevenSession_run
  exact ⟨s, t, effects, hstart, hrun,
    session_starts_clean hstart sevenSession_fits hclean hrun⟩

/-- A clock from the local socket is counted on the slot that the session has left, and
the next session finds the count. -/
theorem next_session_counted : ∃ s t effects, netStateStart resolvingHost = some s ∧
    (∀ call ∈ sevenSession ++ [.daemon timingClock], call.Fits) ∧
    run (sessionCall resolvingHost) s (sevenSession ++ [.daemon timingClock]) =
      .ok (t, effects) ∧ ¬ RegistersClean resolvingHost t.connections := by
  obtain ⟨s, u, effects, ctx, hstart, hrun, -, hu, hssrc⟩ := sevenSession_run
  have hjournals : ∀ ctx ∈ u.connections, ctx.journal.Valid := by
    intro ctx' hctx'
    rw [hu, List.mem_singleton] at hctx'
    rw [hctx']
    exact Journal.valid_reset _
  have hevent : midiSenderEvent ⟨0, 0xf8, []⟩ = .ok .other := rfl
  obtain ⟨sent, now, hsend, -⟩ := sendSingle_ok resolvingHost (fun _ => 0) hjournals hevent 0
  obtain ⟨hlength, hspec⟩ := sendSingle_spec hsend
  obtain ⟨ctx', hctx', hserved⟩ := hspec 0 (netCtxReset ctx) (by rw [hu]; rfl)
  have hseq : ctx'.seq = 2 := hserved.counted (by
    show ctx.ssrc ≠ 0
    rw [hssrc]
    decide)
  have hstatus : ctx'.status = .unused := hserved.same.status
  have hsent : sent = [ctx'] := by
    rw [hu] at hlength
    obtain ⟨only, rfl⟩ := List.length_eq_one_iff.mp hlength
    cases hctx'
    rfl
  have hcall : sessionCall resolvingHost u (.daemon timingClock) =
      .ok (⟨sent, u.sockets⟩, now) := by
    simp only [sessionCall, daemonCall, timingClock, hsend, bind, Except.bind, pure, Except.pure]
  refine ⟨s, ⟨sent, u.sockets⟩, effects ++ (now ++ []), hstart, ?_,
    run_append_ok hrun (run_cons_ok hcall (run_nil _ _)), fun hclean => ?_⟩
  · intro call hcall
    rcases List.mem_append.mp hcall with hold | hnew
    · exact sevenSession_fits call hold
    · rw [List.mem_singleton] at hnew
      rw [hnew]
      trivial
  · have hregister : netCtxRegister resolvingHost [ctx'] 8 1 [] 5004 none 9 0 =
        ([netCtxSet resolvingHost ctx' 8 1 9 5004 [] none 0],
          some (0, netCtxSet resolvingHost ctx' 8 1 9 5004 [] none 0)) := by
      simp [netCtxRegister, netCtxFindBySsrc, netCtxFindUnused, netCtxFind, netCtxIsUsed, hstatus]
    have hfind : netCtxFindBySsrc [ctx'] 8 = none := by
      simp [netCtxFindBySsrc, netCtxFind, netCtxIsUsed, hstatus]
    rw [hsent] at hclean
    have hone : ctx'.seq = 1 := (hclean 8 1 [] 5004 none 9 0 _ 0 _ hfind hregister).seq
    rw [hseq] at hone
    exact absurd hone (by decide)

end RaveloxMidi
