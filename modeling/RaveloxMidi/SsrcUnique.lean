import RaveloxMidi.BothInvitations
import RaveloxMidi.ConnectionSlots

/-!
# One connection for each SSRC

A registration looks for its SSRC first and does not give it a second slot. The OK
that answers our first INV writes its SSRC over the one of the context without
looking: a peer that has invited us, and then accepts our invitation, is in two
slots from then on.
-/
namespace RaveloxMidi
open ByteMemory Transducer SlotTable

/-- No two slots in use have the same SSRC. -/
def UniqueSsrcs (connections : List NetCtx) : Prop :=
  ∀ (i j : ℕ) (a b : NetCtx), connections[i]? = some a → connections[j]? = some b →
    netCtxIsUsed a = true → netCtxIsUsed b = true → a.ssrc = b.ssrc → i = j

/-- An OK that is read while its context waits for the first one carries an SSRC that no
other slot in use has. -/
def OkFresh (s : NetState) : SessionCall → Prop
  | .daemon (.read _ d) => ∀ command inv slot ctx, IsApplemidi d.packet →
    (netApplemidiUnpack ⟨d.packet, d.beyond⟩).command = some command →
    command.command = netApplemidiCmdAccept → command.data = .inv inv →
    netCtxFindByInitiator s.connections inv.initiator = some (slot, ctx) →
    ctx.status = .firstInv → ∀ other ≠ slot, ∀ ctx', s.connections[other]? = some ctx' →
      netCtxIsUsed ctx' = true → ctx'.ssrc ≠ inv.ssrc
  | _ => True

theorem uniqueSsrcs_iff {connections : List NetCtx} :
    UniqueSsrcs connections ↔ Distinct (slotsOf connections) := by
  constructor
  · intro h i j ssrc hi hj
    rw [slots_get, Option.map_eq_some_iff] at hi hj
    obtain ⟨a, ha, haSlot⟩ := hi
    obtain ⟨b, hb, hbSlot⟩ := hj
    obtain ⟨haUsed, haSsrc⟩ := slotOf_eq_some_iff.mp haSlot
    obtain ⟨hbUsed, hbSsrc⟩ := slotOf_eq_some_iff.mp hbSlot
    exact h i j a b ha hb haUsed hbUsed (haSsrc.trans hbSsrc.symm)
  · intro h i j a b ha hb haUsed hbUsed hssrc
    have hi : (slotsOf connections)[i]? = some (some a.ssrc) := by
      rw [slots_get, ha, Option.map_some, slotOf_eq_some_iff.mpr ⟨haUsed, rfl⟩]
    have hj : (slotsOf connections)[j]? = some (some a.ssrc) := by
      rw [slots_get, hb, Option.map_some, slotOf_eq_some_iff.mpr ⟨hbUsed, hssrc.symm⟩]
    exact h i j a.ssrc hi hj

/-- A slot is renamed by an OK for its context, and by nothing else. -/
theorem datagramOp_rename_iff {connections : List NetCtx} {d : Datagram} {slot : ℕ}
    {ssrc : UInt32} : datagramOp connections d = .rename slot ssrc ↔
      ∃ command inv ctx, IsApplemidi d.packet ∧
        (netApplemidiUnpack ⟨d.packet, d.beyond⟩).command = some command ∧
        command.command = netApplemidiCmdAccept ∧ command.data = .inv inv ∧
        netCtxFindByInitiator connections inv.initiator = some (slot, ctx) ∧
        ctx.status = .firstInv ∧ inv.ssrc = ssrc := by
  constructor
  · intro h
    unfold datagramOp at h
    split_ifs at h with hclass
    cases hcommand : (netApplemidiUnpack ⟨d.packet, d.beyond⟩).command with
    | none =>
      rw [hcommand] at h
      cases h
    | some command =>
      obtain ⟨signature, code, data⟩ := command
      rw [hcommand, Option.map_some, Option.getD_some] at h
      cases data with
      | inv inv =>
        simp only [commandOp] at h
        split_ifs at h with hinv haccept
        split at h
        · next other ctx hfind =>
          split_ifs at h with hfirst
          cases h
          exact ⟨_, inv, ctx, hclass, rfl, haccept, rfl, hfind, hfirst, rfl⟩
        · cases h
      | _ => cases h
  · rintro ⟨⟨signature, code, data⟩, inv, ctx, hclass, hcommand, rfl, rfl, hfind, hfirst, rfl⟩
    rw [datagramOp, if_pos hclass, hcommand, Option.map_some, Option.getD_some, commandOp]
    simp [hfind, hfirst, netApplemidiCmdAccept, netApplemidiCmdInv]

theorem okFresh_iff (s : NetState) (call : SessionCall) :
    OkFresh s call ↔ (callOp s call).Fresh (slotsOf s.connections) := by
  cases call with
  | connect moment foundService => exact Iff.rfl
  | daemon call =>
    cases call with
    | send clock command originator => exact Iff.rfl
    | read moment d =>
      constructor
      · intro h
        cases hop : callOp s (.daemon (.read moment d)) with
        | rename slot ssrc =>
          obtain ⟨command, inv, ctx, hclass, hcommand, haccept, hdata, hfind, hfirst, rfl⟩ :=
            datagramOp_rename_iff.mp hop
          intro _ other hother hheld
          rw [slots_get, Option.map_eq_some_iff] at hheld
          obtain ⟨ctx', hctx', hslot⟩ := hheld
          obtain ⟨hused, hssrc⟩ := slotOf_eq_some_iff.mp hslot
          exact h command inv slot ctx hclass hcommand haccept hdata hfind hfirst other hother ctx'
            hctx' hused hssrc
        | _ => trivial
      · intro h command inv slot ctx hclass hcommand haccept hdata hfind hfirst other hother ctx'
          hctx' hused hssrc
        have hop : callOp s (.daemon (.read moment d)) = .rename slot inv.ssrc :=
          datagramOp_rename_iff.mpr ⟨command, inv, ctx, hclass, hcommand, haccept, hdata, hfind,
            hfirst, rfl⟩
        obtain ⟨hslot, hwanted⟩ := find_some hfind
        have hold : (slotsOf s.connections)[slot]? = some (some ctx.ssrc) := by
          rw [slots_get, hslot, Option.map_some,
            slotOf_eq_some_iff.mpr ⟨(Bool.and_eq_true_iff.mp hwanted).1, rfl⟩]
        rw [hop] at h
        refine h ⟨ctx.ssrc, hold⟩ other hother ?_
        rw [slots_get, hctx', Option.map_some, slotOf_eq_some_iff.mpr ⟨hused, hssrc⟩]

/-- The OK of a rename is read without a fault. -/
theorem rename_ok {s : NetState} (h : s.Valid) (host : NetHost) {call : SessionCall}
    (hfits : call.Fits) {slot : ℕ} {ssrc : UInt32} (hop : callOp s call = .rename slot ssrc) :
    ∃ t effects, sessionCall host s call = .ok (t, effects) := by
  cases call with
  | connect moment foundService => cases hop
  | daemon call =>
    cases call with
    | send clock command originator => cases hop
    | read moment d =>
      obtain ⟨⟨signature, code, data⟩, inv, ctx, hclass, hcommand, rfl, rfl, -⟩ :=
        datagramOp_rename_iff.mp hop
      have hpos : 0 < d.packet.length := by
        cases hpacket : d.packet with
        | nil => simp [hpacket, IsApplemidi] at hclass
        | cons => simp
      have hdata : (NetApplemidiData.inv inv).Fits netApplemidiCmdAccept := by
        rw [NetApplemidiData.Fits, if_pos (by decide)]
        exact ⟨inv, rfl⟩
      obtain ⟨t, effects, hok⟩ :=
        applemidi_fits host moment s.connections d hcommand hdata
      refine (read_ok_iff h host moment hpos hfits).mpr ⟨t, effects, ?_⟩
      rw [if_pos hclass]
      exact hok

/-- A call keeps the SSRCs apart exactly if it is not an OK with the SSRC of another slot. -/
theorem call_unique_iff (host : NetHost) {s : NetState} (h : s.Valid)
    (hunique : UniqueSsrcs s.connections) {call : SessionCall} (hfits : call.Fits) :
    (∀ t effects, sessionCall host s call = .ok (t, effects) → UniqueSsrcs t.connections) ↔
      OkFresh s call := by
  have hstep : ∀ t effects, sessionCall host s call = .ok (t, effects) →
      (UniqueSsrcs t.connections ↔ (callOp s call).Fresh (slotsOf s.connections)) := by
    intro t effects hok
    rw [uniqueSsrcs_iff, call_slots h hfits hok]
    exact distinct_apply_iff (uniqueSsrcs_iff.mp hunique) _
  rw [okFresh_iff]
  constructor
  · intro hkept
    cases hop : callOp s call with
    | rename slot ssrc =>
      obtain ⟨t, effects, hok⟩ := rename_ok h host hfits hop
      rw [← hop]
      exact (hstep t effects hok).mp (hkept t effects hok)
    | _ => trivial
  · exact fun hfresh t effects hok => (hstep t effects hok).mpr hfresh

/-- In every run the SSRCs of the slots in use stay apart if and only if each OK for a
context that waits for the first one carries an SSRC that no other slot in use has. -/
theorem ssrcs_unique_iff {host : NetHost} {s : NetState} (hstart : netStateStart host = some s)
    {calls : List SessionCall} (hfits : ∀ call ∈ calls, call.Fits) :
    (∀ t, Reaches (sessionCall host) s calls t → UniqueSsrcs t.connections) ↔
      Along (sessionCall host) OkFresh s calls := by
  have hempty : UniqueSsrcs s.connections := by
    rw [start_connections hstart]
    intro i j a b ha
    cases ha
  exact safe_iff (fun _ _ _ _ hvalid hfits hok => call_valid hvalid hfits hok)
    (fun _ _ hvalid hunique hfits => call_unique_iff host hvalid hunique hfits)
    (start_valid hstart) hempty hfits

/-- An INV from the SSRC 9 with the token 2. -/
def nineDatagram : Datagram :=
  ⟨.control, [], 5004, commandOctets 0xffff netApplemidiCmdInv ++ invOctets ⟨9, 2, 2, none⟩, []⟩

theorem nineDatagram_packet : InvPacket netApplemidiCmdInv 9 2 nineDatagram.packet ∧
    nineDatagram.packet.length ≤ netApplemidiUdpSize :=
  ⟨.packed netApplemidiCmdInv ⟨9, 2, 2, none⟩,
    by simp [nineDatagram, commandOctets, invOctets, netApplemidiUdpSize]⟩

/-- We invite the peer, the peer invites us, and then it accepts. -/
def crossedInvitations : List SessionCall :=
  [.connect invitingMoment someService, .daemon (.read quietMoment nineDatagram),
    .daemon (.read quietMoment (okDatagram .control))]

theorem crossedInvitations_fit : ∀ call ∈ crossedInvitations, call.Fits := by
  intro call hcall
  simp only [crossedInvitations, List.mem_cons, List.not_mem_nil, or_false] at hcall
  rcases hcall with rfl | rfl | rfl
  · trivial
  · exact nineDatagram_packet.2
  · exact (okDatagram_packet .control).2

theorem ssrcs_unique_iff_crossed : ∃ s, netStateStart resolvingHost = some s ∧
    ((∀ t, Reaches (sessionCall resolvingHost) s crossedInvitations t →
        UniqueSsrcs t.connections) ↔
      Along (sessionCall resolvingHost) OkFresh s crossedInvitations) := by
  obtain ⟨s, hstart⟩ : ∃ s, netStateStart resolvingHost = some s := ⟨_, rfl⟩
  exact ⟨s, hstart, ssrcs_unique_iff hstart crossedInvitations_fit⟩

/-- The peer is in two slots. -/
theorem crossed_invitations_collide : ∃ s t effects, netStateStart resolvingHost = some s ∧
    run (sessionCall resolvingHost) s crossedInvitations = .ok (t, effects) ∧
    ¬ UniqueSsrcs t.connections := by
  obtain ⟨s, hstart⟩ : ∃ s, netStateStart resolvingHost = some s := ⟨_, rfl⟩
  have hempty := start_connections hstart
  obtain ⟨t₁, slot, ctx, octets, hconnect, ⟨hhere, hothers, -⟩, hstatus, -, htoken, hssrc, -⟩ :=
    connect_fresh resolvingHost invitingMoment someService
      (show netCtxFindBySsrc [] (invitingMoment.random 0) = none from rfl)
  have honly : ∀ other ≠ slot, t₁[other]? = none := fun other hother => hothers other hother
  have hused : netCtxIsUsed ctx = true := by simp [netCtxIsUsed, hstatus]
  have hcall₁ : sessionCall resolvingHost s (.connect invitingMoment someService) =
      .ok (⟨t₁, s.sockets⟩, (netCtxSend ctx octets true).toList.map fun sent =>
        .command slot sent.1 sent.2) := by
    simp only [sessionCall, hempty, hconnect, bind, Except.bind, pure, Except.pure]
  have hvalid₁ := call_valid (start_valid hstart)
    (show (SessionCall.connect invitingMoment someService).Fits from trivial) hcall₁
  have habsent : netCtxFindBySsrc t₁ 9 = none := by
    cases hfind : netCtxFindBySsrc t₁ 9 with
    | none => rfl
    | some found =>
      obtain ⟨hfound, hwanted⟩ := find_some hfind
      by_cases hother : found.1 = slot
      · rw [hother, hhere] at hfound
        cases hfound
        rw [hssrc] at hwanted
        simp [invitingMoment] at hwanted
      · rw [honly _ hother] at hfound
        cases hfound
  obtain ⟨hpacket₂, hmax₂⟩ := nineDatagram_packet
  obtain ⟨t₂, slot', ctx', sockets₂, answer, hread₂, hregistered, hnew, -⟩ :=
    read_unknown hvalid₁ resolvingHost quietMoment hmax₂ hpacket₂ habsent
  have hvalid₂ := read_valid hvalid₁ hmax₂ hread₂
  have hslots : slot ≠ slot' := by
    rintro rfl
    have hfree := hregistered.free ctx hhere
    rw [hstatus] at hfree
    cases hfree
  have hlt := (List.getElem?_eq_some_iff.mp
    ((hregistered.others slot hslots).trans hhere)).1
  have hfind : netCtxFindByInitiator t₂ 1 = some (slot, ctx) := by
    refine find_of_unique ((hregistered.others slot hslots).trans hhere)
      (by simp [hused, htoken, invitingMoment]) fun other hother c hc => ?_
    by_cases hnine : other = slot'
    · rw [hnine, hregistered.here] at hc
      cases hc
      simp [hnew.initiator]
    · rw [hregistered.others other hnine, honly other hother] at hc
      cases hc
  obtain ⟨hpacket₃, hmax₃⟩ := okDatagram_packet .control
  obtain ⟨sockets₃, okPacket, hokSsrc, hread₃⟩ :=
    read_accept hvalid₂ resolvingHost quietMoment hmax₃ hpacket₃ hfind
  obtain ⟨invitation, -, hadvance⟩ :=
    okAdvance_first resolvingHost quietMoment slot okPacket hstatus
  rw [hadvance] at hread₃
  refine ⟨s, _, _, hstart, run_cons_ok hcall₁ (run_cons_ok hread₂ (run_cons_ok hread₃
    (run_nil _ _))), fun hunique => hslots ?_⟩
  refine hunique slot slot' { ctx with ssrc := okPacket.ssrc, status := .secondInv } ctx'
    (List.getElem?_set_self hlt) ?_ rfl (by simp [netCtxIsUsed, hnew.status])
    (hokSsrc.trans hnew.ssrc.symm)
  exact (List.getElem?_set_ne hslots).trans hregistered.here

end RaveloxMidi
