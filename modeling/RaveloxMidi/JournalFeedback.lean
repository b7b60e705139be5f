import RaveloxMidi.MidiSender
import RaveloxMidi.NetChange

/-!
# When feedback trims the journal

A connection counts its packets in 32 bits and writes the low sixteen into each
of them. Feedback brings those sixteen bits back, and the responder compares them
with all 32. A run of the daemon reads datagrams and sends commands; what a
connection has sent in it fixes its counter, and the counter decides which
feedback resets the journal.
-/
namespace RaveloxMidi
open ByteMemory Transducer

/-- What the two threads of the daemon do, one call at a time. -/
inductive DaemonCall where
  | read (moment : NetMoment) (d : Datagram)
  | send (clock : ℕ → UInt64) (command : MidiCommand) (originator : UInt32)

def daemonCall (host : NetHost) (s : NetState) :
    DaemonCall → Except Fault (NetState × List NetEffect)
  | .read moment d => netSocketRead host moment s d
  | .send clock command originator => do
    let sent ← midiSenderSendSingle host clock s.connections command originator
    return (⟨sent.1, s.sockets⟩, sent.2)

section Silent
variable {host : NetHost} {moment : NetMoment} {connections t : List NetCtx}
  {effects : List NetEffect} (slot : ℕ)

theorem packetsTo_reply (answer : Option (List UInt8)) : packetsTo slot (netReply answer) = [] := by
  cases answer <;> rfl

theorem packetsTo_queue (commands : List MidiCommand) (originator : UInt32) :
    packetsTo slot (commands.map fun command => .queue command originator) = [] := by
  simp [packetsTo, List.filterMap_map]

theorem packetsTo_command (other : ℕ) (sent : List (SocketAddress × List UInt8)) :
    packetsTo slot (sent.map fun sent => .command other sent.1 sent.2) = [] := by
  simp [packetsTo, List.filterMap_map]

theorem okAdvance_silent {other : ℕ} {ctx ctx' : NetCtx} {okPacket : NetApplemidiInv}
    (hok : applemidiOkAdvance host moment other ctx okPacket = .ok (ctx', effects)) :
    packetsTo slot effects = [] := by
  cases okAdvance_outcome hok with
  | first => exact packetsTo_command slot other _
  | second =>
    rw [packetsTo_append, packetsTo_command]
    rfl
  | other => rfl

theorem okResponder_silent {data : Option NetApplemidiInv}
    (hok : applemidiOkResponder host moment connections data = .ok (t, effects)) :
    packetsTo slot effects = [] := by
  cases data with
  | none =>
    cases hok
    rfl
  | some okPacket =>
    simp only [applemidiOkResponder] at hok
    cases hfind : netCtxFindByInitiator connections okPacket.initiator with
    | none =>
      rw [hfind] at hok
      cases hok
      rfl
    | some found =>
      rw [hfind] at hok
      obtain ⟨advanced, hadvance, hok⟩ := bind_ok hok
      cases hok
      exact okAdvance_silent slot hadvance

theorem dispatch_silent {d : Datagram} {command : NetApplemidiCommand}
    (hok : netSocketDispatch host moment connections d command = .ok (t, effects)) :
    packetsTo slot effects = [] := by
  unfold netSocketDispatch at hok
  split_ifs at hok
  · obtain ⟨data, -, hok⟩ := bind_ok hok
    obtain ⟨answered, -, hok⟩ := bind_ok hok
    cases hok
    exact packetsTo_reply slot answered.2
  · obtain ⟨data, -, hok⟩ := bind_ok hok
    exact okResponder_silent slot hok
  · obtain ⟨data, -, hok⟩ := bind_ok hok
    cases hok
    rfl
  · obtain ⟨data, -, hok⟩ := bind_ok hok
    obtain ⟨answer, -, hok⟩ := bind_ok hok
    cases hok
    exact packetsTo_reply slot answer
  · obtain ⟨data, -, hok⟩ := bind_ok hok
    cases hok
    rfl
  · cases hok
    rfl

theorem deliver_silent {other : ℕ} {ctx : NetCtx} {header : RtpPacketHeader}
    {payload : Option MidiPayload}
    (hok : netSocketDeliver connections other ctx header payload = .ok (t, effects)) :
    packetsTo slot effects = [] := by
  cases payload with
  | none => cases hok
  | some payload =>
    obtain ⟨state, -, hok⟩ := bind_ok hok
    obtain ⟨response, -, hok⟩ := bind_ok hok
    obtain ⟨sent, -, hok⟩ := bind_ok hok
    cases hok
    rw [packetsTo_append, packetsTo_reply, packetsTo_queue]
    rfl

theorem applemidi_silent {d : Datagram} {buffer : Option (List UInt8)}
    (hok : netSocketApplemidi host moment connections d buffer = .ok (t, effects)) :
    packetsTo slot effects = [] := by
  unfold netSocketApplemidi at hok
  split at hok
  · cases hok
  · obtain ⟨handled, hdispatch, hok⟩ := bind_ok hok
    obtain ⟨-, -, hok⟩ := bind_ok hok
    cases hok
    exact dispatch_silent slot hdispatch

theorem rtp_silent {d : Datagram} {buffer : Option (List UInt8)}
    (hok : netSocketRtp connections d buffer = .ok (t, effects)) :
    packetsTo slot effects = [] := by
  obtain ⟨packet, -, hok⟩ := bind_ok hok
  split_ifs at hok
  · cases hok
    rfl
  · obtain ⟨payload, -, hok⟩ := bind_ok hok
    split at hok
    · cases hok
      rfl
    · exact deliver_silent slot hok

/-- Reading a datagram sends no RTP packet. -/
theorem read_silent {s u : NetState} {d : Datagram}
    (hok : netSocketRead host moment s d = .ok (u, effects)) : packetsTo slot effects = [] := by
  obtain ⟨-, rfl⟩ | ⟨buffer, hhandled | hhandled⟩ := read_cases hok
  · rfl
  · exact applemidi_silent slot hhandled
  · exact rtp_silent slot hhandled

end Silent

/-- The slot holds a registered connection. -/
def UsedAt (s : NetState) (slot : ℕ) : Prop :=
  ∃ ctx, s.connections[slot]? = some ctx ∧ ctx.status ≠ .unused

/-- The call does not end the connection. -/
def StaysInUse (host : NetHost) (slot : ℕ) (s : NetState) (call : DaemonCall) : Prop :=
  ∀ t effects, daemonCall host s call = .ok (t, effects) → UsedAt t slot

/-- A datagram that leaves a connection in use leaves its counter alone. -/
theorem change_carries {host : NetHost} {cause : ChangeCause} {connections t : List NetCtx}
    {slot : ℕ} {ctx ctx' : NetCtx} (h : NetTableChange host cause connections t)
    (hctx : connections[slot]? = some ctx) (hused : ctx.status ≠ .unused)
    (hctx' : t[slot]? = some ctx') (hused' : ctx'.status ≠ .unused) : Carries ctx ctx' [] := by
  have hlt : slot < connections.length := (List.getElem?_eq_some_iff.mp hctx).1
  have hkept : ctx' = ctx → Carries ctx ctx' [] := by
    rintro rfl
    exact .still rfl rfl rfl
  cases h with
  | same => exact hkept (Option.some.inj (hctx'.symm.trans hctx))
  | @slot changed old new hslot hchange =>
    by_cases hsame : changed = slot
    · subst hsame
      rw [List.getElem?_set_self hlt] at hctx'
      cases hctx'
      cases hslot.symm.trans hctx
      cases hchange with
      | registered hfree => exact absurd hfree hused
      | ended => exact absurd rfl hused'
      | trimmed => exact .still rfl rfl rfl
      | invited => exact .still rfl rfl rfl
      | established => exact .still rfl rfl rfl
      | received => exact .still rfl rfl rfl
    · rw [List.getElem?_set_ne hsame] at hctx'
      exact hkept (Option.some.inj (hctx'.symm.trans hctx))
  | added =>
    rw [List.getElem?_append_left hlt] at hctx'
    exact hkept (Option.some.inj (hctx'.symm.trans hctx))

theorem call_carries {host : NetHost} {s t : NetState} {call : DaemonCall} {slot : ℕ}
    {ctx : NetCtx} {effects : List NetEffect} (hctx : s.connections[slot]? = some ctx)
    (hused : ctx.status ≠ .unused) (hstays : StaysInUse host slot s call)
    (hok : daemonCall host s call = .ok (t, effects)) :
    ∃ ctx', t.connections[slot]? = some ctx' ∧ ctx'.status ≠ .unused ∧
      Carries ctx ctx' (packetsTo slot effects) := by
  obtain ⟨ctx', hctx', hused'⟩ := hstays t effects hok
  refine ⟨ctx', hctx', hused', ?_⟩
  cases call with
  | read moment d =>
    rw [read_silent slot hok]
    exact change_carries (read_changes hok) hctx hused hctx' hused'
  | send clock command originator =>
    obtain ⟨sent, hsent, hok⟩ := bind_ok hok
    cases hok
    obtain ⟨next, hnext, hserved⟩ := (sendSingle_spec hsent).2 slot ctx hctx
    cases hnext.symm.trans hctx'
    exact hserved.carries

/-- The counter after a run, and the numbers of the packets sent in it: by
induction on the calls. -/
theorem run_carries {host : NetHost} {s t : NetState} {calls : List DaemonCall} {slot : ℕ}
    {ctx : NetCtx} {effects : List NetEffect} (hctx : s.connections[slot]? = some ctx)
    (hused : ctx.status ≠ .unused)
    (hstays : Along (daemonCall host) (StaysInUse host slot) s calls)
    (hrun : run (daemonCall host) s calls = .ok (t, effects)) :
    ∃ ctx', t.connections[slot]? = some ctx' ∧ ctx'.status ≠ .unused ∧
      Carries ctx ctx' (packetsTo slot effects) := by
  induction calls generalizing s ctx effects with
  | nil =>
    cases hrun
    exact ⟨ctx, hctx, hused, .still rfl rfl rfl⟩
  | cons call calls ih =>
    obtain ⟨u, now, later, hnow, hlater, rfl⟩ := run_cons_inv hrun
    obtain ⟨next, hnext, hnextUsed, hfirst⟩ := call_carries hctx hused hstays.1 hnow
    obtain ⟨ctx', hctx', hused', hrest⟩ := ih hnext hnextUsed (hstays.2 u now hnow) hlater
    refine ⟨ctx', hctx', hused', ?_⟩
    rw [packetsTo_append]
    exact hfirst.trans hrest

/-- The responder resets the journal of the slot. -/
def FeedbackResets (connections : List NetCtx) (slot : ℕ) (feedback : NetApplemidiFeedback) :
    Prop :=
  ∃ ctx, applemidiFeedbackResets connections feedback = some (slot, ctx)

/-- Of the packets sent, the last one is confirmed by feedback and resets the
journal of the connection, and one up to 32767 packets older does not. -/
def FeedbackTrims (connections : List NetCtx) (slot : ℕ) (packets : List (List UInt8)) : Prop :=
  ∀ ctx feedback, connections[slot]? = some ctx → feedback.ssrc = ctx.ssrc →
    ∀ back ≤ 32767, ∀ packet, packets.reverse[back]? = some packet →
      feedback.rtpSeq1 = packetSeq packet →
        (FeedbackResets connections slot feedback ↔ back = 0)

/-- No connection in use further up in the table has the SSRC of the slot. -/
def FirstWithSsrc (connections : List NetCtx) (slot : ℕ) : Prop :=
  ∀ ctx, connections[slot]? = some ctx → ∀ other < slot, ∀ earlier,
    connections[other]? = some earlier → earlier.status ≠ .unused → earlier.ssrc ≠ ctx.ssrc

/-- A find function returns the first context that is wanted. -/
theorem find_iff {wanted : NetCtx → Bool} {connections : List NetCtx} {slot : ℕ} {ctx : NetCtx} :
    netCtxFind wanted connections = some (slot, ctx) ↔
      connections[slot]? = some ctx ∧ wanted ctx = true ∧
        ∀ other < slot, ∀ earlier, connections[other]? = some earlier →
          wanted earlier = false := by
  induction connections generalizing slot with
  | nil => simp [netCtxFind]
  | cons first rest ih =>
    unfold netCtxFind
    by_cases hfirst : wanted first = true
    · rw [if_pos hfirst, Option.some.injEq, Prod.mk.injEq]
      constructor
      · rintro ⟨rfl, rfl⟩
        exact ⟨rfl, hfirst, by simp⟩
      · rintro ⟨hctx, -, hbefore⟩
        cases slot with
        | zero => exact ⟨rfl, Option.some.inj hctx⟩
        | succ slot =>
          have hnot := hbefore 0 (by omega) first rfl
          rw [hfirst] at hnot
          cases hnot
    · rw [if_neg hfirst]
      cases slot with
      | zero =>
        simp only [Option.map_eq_some_iff, Prod.mk.injEq, Nat.add_one_ne_zero, false_and, and_false,
          exists_false, false_iff, List.getElem?_cons_zero, Option.some.injEq]
        rintro ⟨rfl, hwanted, -⟩
        exact hfirst hwanted
      | succ slot =>
        have hmap : (netCtxFind wanted rest).map (fun found => (found.1 + 1, found.2)) =
            some (slot + 1, ctx) ↔ netCtxFind wanted rest = some (slot, ctx) := by
          cases netCtxFind wanted rest with
          | none => simp
          | some found =>
            obtain ⟨i, other⟩ := found
            simp
        rw [hmap, ih, List.getElem?_cons_succ]
        refine and_congr_right fun _ => and_congr_right fun _ => ⟨fun h other hother => ?_,
          fun h other hother => h (other + 1) (by omega)⟩
        cases other with
        | zero =>
          rintro earlier hearlier
          cases hearlier
          simpa using hfirst
        | succ other => exact h other (by omega)

theorem findBySsrc_iff {connections : List NetCtx} {slot : ℕ} {ctx : NetCtx}
    (hctx : connections[slot]? = some ctx) (hused : ctx.status ≠ .unused) :
    (∃ found, netCtxFindBySsrc connections ctx.ssrc = some (slot, found)) ↔
      FirstWithSsrc connections slot := by
  constructor
  · rintro ⟨found, hfound⟩ ctx' hctx' other hother earlier hearlier hearlierUsed hssrc
    cases hctx.symm.trans hctx'
    have hnot := (find_iff.mp hfound).2.2 other hother earlier hearlier
    simp [netCtxIsUsed, hearlierUsed, hssrc] at hnot
  · intro hfirst
    refine ⟨ctx, find_iff.mpr ⟨hctx, by simp [netCtxIsUsed, hused], ?_⟩⟩
    intro other hother earlier hearlier
    by_cases hearlierUsed : earlier.status = .unused
    · simp [netCtxIsUsed, hearlierUsed]
    · have hne := hfirst ctx hctx other hother earlier hearlier hearlierUsed
      simp [hne]

/-- The responder as a condition on the counter of the slot. -/
theorem resets_iff {connections : List NetCtx} {slot : ℕ} {ctx : NetCtx}
    (hctx : connections[slot]? = some ctx) (hused : ctx.status ≠ .unused)
    {feedback : NetApplemidiFeedback} (hssrc : feedback.ssrc = ctx.ssrc) :
    FeedbackResets connections slot feedback ↔
      FirstWithSsrc connections slot ∧ ctx.seq.toNat ≤ feedback.rtpSeq1.toNat := by
  rw [← findBySsrc_iff hctx hused, ← hssrc]
  unfold FeedbackResets applemidiFeedbackResets
  cases hfind : netCtxFindBySsrc connections feedback.ssrc with
  | none => simp
  | some result =>
    obtain ⟨i, found⟩ := result
    have hfound := (find_some hfind).1
    by_cases hslot : i = slot
    · subst hslot
      cases hfound.symm.trans hctx
      simp only [ge_iff_le, UInt32.le_iff_toNat_le, UInt16.toNat_toUInt32]
      split_ifs with hle <;> simp [hle]
    · simp only [Option.some.injEq, Prod.mk.injEq, hslot, false_and, exists_false, iff_false]
      split_ifs <;> simp [hslot]

theorem rtpSeq1_set (ssrc : UInt32) (rtpSeq : UInt16) :
    ((⟨ssrc, 0⟩ : NetApplemidiFeedback).setRtpSeq1 rtpSeq).rtpSeq1 = rtpSeq := by
  have hlt := rtpSeq.toNat_lt
  apply UInt16.toNat.inj
  simp only [NetApplemidiFeedback.rtpSeq1, NetApplemidiFeedback.setRtpSeq1]
  simp
  omega

/-- The packet some places before the last one carries the counter less as much. -/
theorem Carries.seq_back {ctx ctx' : NetCtx} {packets : List (List UInt8)}
    (h : Carries ctx ctx' packets) {back : ℕ} {packet : List UInt8}
    (hpacket : packets.reverse[back]? = some packet) :
    back < packets.length ∧
      (packetSeq packet).toNat = (ctx.seq.toNat + (packets.length - back)) % 65536 := by
  have hback : back < packets.length := by
    rw [← List.length_reverse]
    exact (List.getElem?_eq_some_iff.mp hpacket).1
  rw [List.getElem?_reverse hback] at hpacket
  rw [(h.packetOf _ packet hpacket).seq_eq]
  refine ⟨hback, ?_⟩
  rw [UInt32.toNat_toUInt16, UInt32.toNat_add, UInt32.toNat_ofNat']
  omega

section Trims
variable {ctx ctx' : NetCtx} {packets : List (List UInt8)} {connections : List NetCtx} {slot : ℕ}

/-- The counter of a connection that has sent something. -/
theorem Carries.seq_toNat (h : Carries ctx ctx' packets) (hne : packets ≠ []) :
    ctx'.seq.toNat = (ctx.seq.toNat + packets.length) % 2 ^ 32 := by
  rw [h.counted fun hnone => hne (h.silent hnone), UInt32.toNat_add, UInt32.toNat_ofNat']
  omega

/-- Feedback for the packet some places before the last one resets the journal if
the counter is no larger than the number that the packet carries. -/
theorem Carries.resets_back (h : Carries ctx ctx' packets) (hctx : connections[slot]? = some ctx')
    (hused : ctx'.status ≠ .unused) {feedback : NetApplemidiFeedback}
    (hssrc : feedback.ssrc = ctx'.ssrc) {back : ℕ} {packet : List UInt8}
    (hpacket : packets.reverse[back]? = some packet) (hseq : feedback.rtpSeq1 = packetSeq packet) :
    FeedbackResets connections slot feedback ↔ FirstWithSsrc connections slot ∧
      (ctx.seq.toNat + packets.length) % 2 ^ 32 ≤
        (ctx.seq.toNat + (packets.length - back)) % 65536 := by
  obtain ⟨hback, hnumber⟩ := h.seq_back hpacket
  have hne : packets ≠ [] := List.ne_nil_of_length_pos (by omega)
  rw [resets_iff hctx hused hssrc, h.seq_toNat hne, hseq, hnumber]

/-- Sixteen bits tell the last packet from the older ones as long as the counter
has not left them and has passed the packets in question. -/
theorem Carries.trims_iff (h : Carries ctx ctx' packets) (hctx : connections[slot]? = some ctx')
    (hused : ctx'.status ≠ .unused) :
    FeedbackTrims connections slot packets ↔
      packets = [] ∨ (FirstWithSsrc connections slot ∧
        (ctx.seq.toNat + packets.length) % 2 ^ 32 < 65536 ∧
        min (packets.length - 1) 32767 ≤ (ctx.seq.toNat + packets.length) % 2 ^ 32) := by
  constructor
  · intro htrims
    by_cases hempty : packets = []
    · exact .inl hempty
    have hpos : 0 < packets.length := List.length_pos_of_ne_nil hempty
    have hresets : ∀ back, back ≤ 32767 → back < packets.length →
        ((FirstWithSsrc connections slot ∧ (ctx.seq.toNat + packets.length) % 2 ^ 32 ≤
          (ctx.seq.toNat + (packets.length - back)) % 65536) ↔ back = 0) := by
      intro back hfar hback
      obtain ⟨packet, hpacket⟩ : ∃ packet, packets.reverse[back]? = some packet :=
        ⟨_, List.getElem?_eq_getElem (by rwa [List.length_reverse])⟩
      have hseq := rtpSeq1_set ctx'.ssrc (packetSeq packet)
      rw [← h.resets_back hctx hused rfl hpacket hseq]
      exact htrims ctx' _ hctx rfl back hfar packet hpacket hseq
    obtain ⟨hfirst, hlast⟩ := (hresets 0 (by omega) hpos).mpr rfl
    refine .inr ⟨hfirst, by omega, ?_⟩
    by_contra hwrapped
    have holder := (hresets (min (packets.length - 1) 32767) (by omega) (by omega)).mp
      ⟨hfirst, by omega⟩
    omega
  · rintro hwhen found feedback hfound hssrc back hfar packet hpacket hseq
    cases hctx.symm.trans hfound
    rw [h.resets_back hctx hused hssrc hpacket hseq]
    obtain ⟨hback, -⟩ := h.seq_back hpacket
    obtain rfl | ⟨hfirst, hsmall, hpassed⟩ := hwhen
    · cases hback
    · rw [and_iff_right hfirst]
      omega

end Trims

/-- Sending one command again and again: every time one packet goes to a slot whose
address is known. -/
theorem sends_run (host : NetHost) {slot : ℕ} (clock : ℕ → UInt64) {command : MidiCommand}
    {event : MidiEvent} (hevent : midiSenderEvent command = .ok event) (originator : UInt32)
    (n : ℕ) {s : NetState} (hjournals : ∀ ctx ∈ s.connections, ctx.journal.Valid) {ctx : NetCtx}
    (hctx : s.connections[slot]? = some ctx) (hused : ctx.status ≠ .unused)
    (hother : ctx.ssrc ≠ originator) (haddress : ctx.dataAddress ≠ none) :
    ∃ t effects, run (daemonCall host) s (List.replicate n (.send clock command originator)) =
        .ok (t, effects) ∧
      Along (daemonCall host) (StaysInUse host slot) s
        (List.replicate n (.send clock command originator)) ∧
      (packetsTo slot effects).length = n := by
  induction n generalizing s ctx with
  | zero => exact ⟨s, [], rfl, trivial, rfl⟩
  | succ n ih =>
    obtain ⟨sent, now, hsend, hnext⟩ := sendSingle_ok host clock hjournals hevent originator
    obtain ⟨ctx', hctx', hsame, -, -, -, hone⟩ := (sendSingle_spec hsend).2 slot ctx hctx
    have hused' : ctx'.status ≠ .unused := hsame.status ▸ hused
    have hcall : daemonCall host s (.send clock command originator) =
        .ok (⟨sent, s.sockets⟩, now) := by
      simp only [daemonCall, hsend, bind, Except.bind, pure, Except.pure]
    obtain ⟨t, later, hrun, hstays, hcount⟩ := ih (s := ⟨sent, s.sockets⟩) hnext hctx' hused'
      (hsame.ssrc ▸ hother) (hsame.dataAddress ▸ haddress)
    refine ⟨t, now ++ later, run_cons_ok hcall hrun, ⟨?_, ?_⟩, ?_⟩
    · intro u effects hok
      cases hcall.symm.trans hok
      exact ⟨ctx', hctx', hused'⟩
    · intro u effects hok
      cases hcall.symm.trans hok
      exact hstays
    · rw [packetsTo_append, List.length_append, hone hother haddress, hcount, Nat.add_comm]

/-- In a run in which a connection stays in use, feedback trims its journal as it
should exactly if nothing was sent, or the connection is the first with its SSRC
and its counter is below 65536 and has not wrapped around within the last packets. -/
theorem feedback_trims_iff {host : NetHost} {s t : NetState} {calls : List DaemonCall} {slot : ℕ}
    {ctx : NetCtx} {effects : List NetEffect} (hctx : s.connections[slot]? = some ctx)
    (hused : ctx.status ≠ .unused)
    (hstays : Along (daemonCall host) (StaysInUse host slot) s calls)
    (hrun : run (daemonCall host) s calls = .ok (t, effects)) :
    FeedbackTrims t.connections slot (packetsTo slot effects) ↔
      packetsTo slot effects = [] ∨ (FirstWithSsrc t.connections slot ∧
        (ctx.seq.toNat + (packetsTo slot effects).length) % 2 ^ 32 < 65536 ∧
        min ((packetsTo slot effects).length - 1) 32767 ≤
          (ctx.seq.toNat + (packetsTo slot effects).length) % 2 ^ 32) := by
  obtain ⟨ctx', hctx', hused', hcarries⟩ := run_carries hctx hused hstays hrun
  exact hcarries.trims_iff hctx' hused'

/-- A host whose resolver takes every address as it is. -/
def resolvingHost : NetHost := ⟨0, none, false, fun host port => some ⟨host, port⟩⟩

/-- A daemon with one connection, whose address is known. -/
def registeredConnection (created : NetCtx) (ssrc sendSsrc : UInt32) : NetState :=
  ⟨[netCtxSet resolvingHost created ssrc 1 sendSsrc 5004 [] none 0], fun _ => created.midiState⟩

def timingClock : DaemonCall := .send (fun _ => 0) ⟨0, 0xf8, []⟩ 0

theorem clocks_run (n : ℕ) :
    ∃ created t effects, netCtxCreate resolvingHost = some created ∧
      run (daemonCall resolvingHost) (registeredConnection created 7 9)
          (List.replicate n timingClock) = .ok (t, effects) ∧
      Along (daemonCall resolvingHost) (StaysInUse resolvingHost 0)
          (registeredConnection created 7 9) (List.replicate n timingClock) ∧
      (packetsTo 0 effects).length = n := by
  obtain ⟨created, hcreated⟩ : ∃ created, netCtxCreate resolvingHost = some created := ⟨_, rfl⟩
  obtain ⟨state, hstate, hctx⟩ := Option.map_eq_some_iff.mp hcreated
  have hevent : midiSenderEvent ⟨0, 0xf8, []⟩ = .ok .other := rfl
  have hslot : (registeredConnection created 7 9).connections[0]? =
      some (netCtxSet resolvingHost created 7 1 9 5004 [] none 0) := rfl
  obtain ⟨t, effects, hrun, hstays, hcount⟩ := sends_run resolvingHost (fun _ => 0) hevent 0 n
    (by simp [registeredConnection, netCtxSet, ← hctx, Journal.valid_init]) hslot
    (by simp [netCtxSet]) (by simp [netCtxSet]) (by simp [netCtxSet, resolvingHost])
  exact ⟨created, t, effects, hcreated, hrun, hstays, hcount⟩

/-- After 65535 packets the counter is 65536 and the last packet carries 0: the
feedback for it no longer resets the journal. -/
theorem long_session_not_trimmed :
    ∃ created t effects, netCtxCreate resolvingHost = some created ∧
      run (daemonCall resolvingHost) (registeredConnection created 7 9)
          (List.replicate 65535 timingClock) = .ok (t, effects) ∧
      (packetsTo 0 effects).length = 65535 ∧ UsedAt t 0 ∧
      ¬ FeedbackTrims t.connections 0 (packetsTo 0 effects) := by
  obtain ⟨created, t, effects, hcreated, hrun, hstays, hcount⟩ := clocks_run 65535
  obtain ⟨state, -, hctx⟩ := Option.map_eq_some_iff.mp hcreated
  obtain ⟨ctx', hctx', hused', hcarries⟩ := run_carries rfl (by simp [netCtxSet]) hstays hrun
  refine ⟨created, t, effects, hcreated, hrun, hcount, ⟨ctx', hctx', hused'⟩, ?_⟩
  rw [hcarries.trims_iff hctx' hused', hcount]
  rintro (hempty | ⟨-, hsmall, -⟩)
  · rw [hempty] at hcount
    cases hcount
  · simp [netCtxSet, ← hctx] at hsmall

/-- After one packet feedback trims the journal as it should. -/
theorem feedback_trims_iff_first :
    ∃ created t effects, netCtxCreate resolvingHost = some created ∧
      run (daemonCall resolvingHost) (registeredConnection created 7 9) [timingClock] =
        .ok (t, effects) ∧
      (packetsTo 0 effects).length = 1 ∧ FeedbackTrims t.connections 0 (packetsTo 0 effects) := by
  obtain ⟨created, t, effects, hcreated, hrun, hstays, hcount⟩ := clocks_run 1
  obtain ⟨state, -, hctx⟩ := Option.map_eq_some_iff.mp hcreated
  refine ⟨created, t, effects, hcreated, hrun, hcount,
    (feedback_trims_iff rfl (by simp [netCtxSet]) hstays hrun).mpr (.inr ⟨?_, ?_, ?_⟩)⟩
  · intro ctx hctx other hother
    cases hother
  · simp [netCtxSet, ← hctx, hcount]
  · simp [hcount]

end RaveloxMidi
