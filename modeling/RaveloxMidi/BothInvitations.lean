import RaveloxMidi.RemoteConnection

/-!
# When a remote session is established

A context that has been invited waits for two OKs, the first for the INV to the
control port and the second for the INV to the data port that the first one causes.
Each INV leaves from the socket of the same name, and what answers it comes back to
that socket. The responder does not ask which of the two an OK answers: it counts.
-/
namespace RaveloxMidi
open ByteMemory Transducer

/-- The call reads an OK with a token from one of the sockets. -/
def OkRead (socket : NetSocket) (token : UInt32) : SessionCall → Prop
  | .daemon (.read _ d) => d.socket = socket ∧ ∃ signature inv,
      (netApplemidiUnpack ⟨d.packet, d.beyond⟩).command =
        some ⟨signature, netApplemidiCmdAccept, .inv inv⟩ ∧ inv.initiator = token
  | _ => False

/-- Among the calls there is an OK for each of the two invitations with a token. -/
def BothAccepted (calls : List SessionCall) (token : UInt32) : Prop :=
  (∃ call ∈ calls, OkRead .control token call) ∧ ∃ call ∈ calls, OkRead .data token call

theorem BothAccepted.later {calls : List SessionCall} {token : UInt32}
    (h : BothAccepted calls token) (more : List SessionCall) :
    BothAccepted (calls ++ more) token := by
  obtain ⟨⟨first, hfirst, hread⟩, second, hsecond, hread'⟩ := h
  exact ⟨⟨first, List.mem_append_left _ hfirst, hread⟩, second,
    List.mem_append_left _ hsecond, hread'⟩

/-- An OK answers the invitation that its context is waiting for: the one to the control
port, before which no other has been sent, and then the one to the data port. -/
def AnswersInTurn (s : NetState) : SessionCall → Prop
  | .daemon (.read _ d) => IsApplemidi d.packet → ∀ slot ctx,
      datagramAccepts s.connections d.packet d.beyond = some (slot, ctx) →
        (ctx.status = .firstInv → d.socket = .control) ∧
          (ctx.status = .secondInv → d.socket = .data)
  | _ => True

/-- What a context has to show for its status. -/
structure Accepted (calls : List SessionCall) (ctx : NetCtx) : Prop where
  second : ctx.status = .secondInv → ∃ call ∈ calls, OkRead .control ctx.initiator call
  remote : ctx.status = .remoteConnection → BothAccepted calls ctx.initiator

namespace Accepted
variable {calls : List SessionCall} {ctx ctx' : NetCtx}

/-- Any other status asks for nothing. -/
theorem other (hsecond : ctx.status ≠ .secondInv) (hremote : ctx.status ≠ .remoteConnection) :
    Accepted calls ctx :=
  ⟨fun h => absurd h hsecond, fun h => absurd h hremote⟩

theorem of_same (h : Accepted calls ctx) (hstatus : ctx'.status = ctx.status)
    (hinitiator : ctx'.initiator = ctx.initiator) : Accepted calls ctx' := by
  refine ⟨fun hsecond => ?_, fun hremote => ?_⟩
  · rw [hinitiator]
    exact h.second (hstatus ▸ hsecond)
  · rw [hinitiator]
    exact h.remote (hstatus ▸ hremote)

theorem later (h : Accepted calls ctx) (more : List SessionCall) :
    Accepted (calls ++ more) ctx := by
  refine ⟨fun hsecond => ?_, fun hremote => (h.remote hremote).later more⟩
  obtain ⟨call, hcall, hread⟩ := h.second hsecond
  exact ⟨call, List.mem_append_left _ hcall, hread⟩

end Accepted

/-- The context that a datagram moves forward is found by the token of an OK. -/
theorem datagramAccepts_some {connections : List NetCtx} {packet beyond : List UInt8} {slot : ℕ}
    {ctx : NetCtx} (h : datagramAccepts connections packet beyond = some (slot, ctx)) :
    connections[slot]? = some ctx ∧ ∃ signature inv,
      (netApplemidiUnpack ⟨packet, beyond⟩).command =
        some ⟨signature, netApplemidiCmdAccept, .inv inv⟩ ∧ inv.initiator = ctx.initiator := by
  obtain ⟨⟨signature, code, data⟩, hunpack, hcommand⟩ := Option.bind_eq_some_iff.mp h
  cases data with
  | inv inv =>
    simp only [commandAccepts] at hcommand
    split_ifs at hcommand with hcode
    obtain ⟨hslot, hwanted⟩ := find_some hcommand
    have htoken : ctx.initiator = inv.initiator := by
      simpa using (Bool.and_eq_true_iff.mp hwanted).2
    exact ⟨hslot, signature, inv, hcode ▸ hunpack, htoken.symm⟩
  | unset | null | sync | feedback | bitrate => cases hcommand

section Sync
variable {host : NetHost} {moment : NetMoment} {connections t : List NetCtx}
  {effects : List NetEffect} {d : Datagram}

theorem syncStart_okResponder {data : Option NetApplemidiInv}
    (hok : applemidiOkResponder host moment connections data = .ok (t, effects))
    (hsync : NetEffect.syncStart ∈ effects) :
    ∃ inv slot ctx, data = some inv ∧
      netCtxFindByInitiator connections inv.initiator = some (slot, ctx) ∧
      ctx.status = .secondInv := by
  cases data with
  | none =>
    cases hok
    cases hsync
  | some okPacket =>
    simp only [applemidiOkResponder] at hok
    cases hfind : netCtxFindByInitiator connections okPacket.initiator with
    | none =>
      rw [hfind] at hok
      cases hok
      cases hsync
    | some found =>
      rw [hfind] at hok
      obtain ⟨⟨next, sent⟩, hadvance, hok⟩ := bind_ok hok
      cases hok
      refine ⟨okPacket, found.1, found.2, rfl, hfind, ?_⟩
      cases okAdvance_outcome hadvance with
      | first => simp at hsync
      | second hsecond => exact hsecond
      | other => cases hsync

theorem syncStart_reply {answer : Option (List UInt8)} :
    NetEffect.syncStart ∉ netReply answer := by
  simp [netReply]

theorem syncStart_dispatch {command : NetApplemidiCommand}
    (hok : netSocketDispatch host moment connections d command = .ok (t, effects))
    (hsync : NetEffect.syncStart ∈ effects) :
    ∃ slot ctx, commandAccepts connections command = some (slot, ctx) ∧
      ctx.status = .secondInv := by
  unfold netSocketDispatch at hok
  split_ifs at hok
  · obtain ⟨data, -, hok⟩ := bind_ok hok
    obtain ⟨answered, -, hok⟩ := bind_ok hok
    cases hok
    exact absurd hsync syncStart_reply
  · obtain ⟨data, hdata, hok⟩ := bind_ok hok
    obtain ⟨inv, slot, ctx, hinv, hfind, hstatus⟩ := syncStart_okResponder hok hsync
    rw [hinv] at hdata
    refine ⟨slot, ctx, ?_, hstatus⟩
    rw [commandAccepts, asInv_inv hdata]
    exact (if_pos ‹_›).trans hfind
  · obtain ⟨data, -, hok⟩ := bind_ok hok
    cases hok
    cases hsync
  · obtain ⟨data, -, hok⟩ := bind_ok hok
    obtain ⟨answer, -, hok⟩ := bind_ok hok
    cases hok
    exact absurd hsync syncStart_reply
  · obtain ⟨data, -, hok⟩ := bind_ok hok
    cases hok
    cases hsync
  · cases hok
    cases hsync

theorem syncStart_rtp {buffer : Option (List UInt8)}
    (hok : netSocketRtp connections d buffer = .ok (t, effects)) :
    NetEffect.syncStart ∉ effects := by
  obtain ⟨packet, -, hok⟩ := bind_ok hok
  split_ifs at hok
  · cases hok
    simp
  · obtain ⟨payload, -, hok⟩ := bind_ok hok
    split at hok
    · cases hok
      simp
    · cases payload with
      | none => cases hok
      | some payload =>
        obtain ⟨state, -, hok⟩ := bind_ok hok
        obtain ⟨response, -, hok⟩ := bind_ok hok
        obtain ⟨sent, -, hok⟩ := bind_ok hok
        cases hok
        simp [netReply]

/-- The thread is started by an OK for a context that has had one already. -/
theorem syncStart_read {s u : NetState} (h : s.Valid)
    (hmax : d.packet.length ≤ netApplemidiUdpSize)
    (hok : netSocketRead host moment s d = .ok (u, effects))
    (hsync : NetEffect.syncStart ∈ effects) :
    IsApplemidi d.packet ∧ ∃ slot ctx,
      datagramAccepts s.connections d.packet d.beyond = some (slot, ctx) ∧
        ctx.status = .secondInv := by
  by_cases hpos : 0 < d.packet.length
  · obtain ⟨state, p, size, -, -, hread⟩ := read_eq h host moment hpos hmax
    rw [hread] at hok
    obtain ⟨handled, hhandled, heq⟩ := map_ok hok
    cases heq
    by_cases hclass : IsApplemidi d.packet
    · rw [if_pos hclass] at hhandled
      unfold netSocketApplemidi at hhandled
      split at hhandled
      · cases hhandled
      · next command hcommand =>
        obtain ⟨result, hdispatch, hhandled⟩ := bind_ok hhandled
        obtain ⟨-, -, hhandled⟩ := bind_ok hhandled
        cases hhandled
        obtain ⟨slot, ctx, haccepts, hstatus⟩ := syncStart_dispatch hdispatch hsync
        rw [Option.bind_some] at hcommand
        exact ⟨hclass, slot, ctx, by rwa [datagramAccepts, hcommand], hstatus⟩
    · rw [if_neg hclass] at hhandled
      exact absurd hsync (syncStart_rtp hhandled)
  · have hempty : d.packet.length = 0 := by omega
    rw [netSocketRead, if_pos hempty] at hok
    cases hok
    cases hsync

end Sync

section Step
variable {host : NetHost} {connections t : List NetCtx} {calls : List SessionCall}

/-- A change of one context: only an OK for it moves it forward. -/
theorem change_accepted {cause : ChangeCause} {ctx ctx' : NetCtx} (call : SessionCall)
    (hcause : cause.accepts ctx →
      (ctx.status = .firstInv → OkRead .control ctx.initiator call) ∧
        (ctx.status = .secondInv → OkRead .data ctx.initiator call))
    (h : Accepted calls ctx) (hchange : NetCtxChange host cause ctx ctx') :
    Accepted (calls ++ [call]) ctx' := by
  have hlast : call ∈ calls ++ [call] := List.mem_append_right _ (List.mem_singleton_self _)
  cases hchange with
  | registered => exact .other (by simp [netCtxSet]) (by simp [netCtxSet])
  | ended => exact .other (by simp [netCtxReset]) (by simp [netCtxReset])
  | trimmed => exact (h.later [call]).of_same rfl rfl
  | invited haccepts hfirst =>
    exact ⟨fun _ => ⟨call, hlast, (hcause haccepts).1 hfirst⟩, by simp⟩
  | established haccepts hsecond =>
    obtain ⟨first, hfirst, hread⟩ := h.second hsecond
    exact ⟨by simp, fun _ => ⟨⟨first, List.mem_append_left _ hfirst, hread⟩,
      call, hlast, (hcause haccepts).2 hsecond⟩⟩
  | received => exact (h.later [call]).of_same rfl rfl

theorem table_accepted {cause : ChangeCause} (call : SessionCall)
    (hcause : ∀ ctx, cause.accepts ctx →
      (ctx.status = .firstInv → OkRead .control ctx.initiator call) ∧
        (ctx.status = .secondInv → OkRead .data ctx.initiator call))
    (h : ∀ ctx ∈ connections, Accepted calls ctx)
    (hchange : NetTableChange host cause connections t) :
    ∀ ctx ∈ t, Accepted (calls ++ [call]) ctx := by
  intro ctx hctx
  cases hchange with
  | same => exact (h ctx hctx).later [call]
  | slot hslot hchange =>
    rcases List.mem_or_eq_of_mem_set hctx with hold | rfl
    · exact (h ctx hold).later [call]
    · exact change_accepted call (hcause _) (h _ (List.mem_of_getElem? hslot)) hchange
  | added =>
    rcases List.mem_append.mp hctx with hold | hnew
    · exact (h ctx hold).later [call]
    · rw [List.mem_singleton] at hnew
      rw [hnew]
      exact .other (by simp [netCtxSet]) (by simp [netCtxSet])

variable {s u : NetState} {effects : List NetEffect}

/-- A datagram: what it moves forward it has answered. -/
theorem read_accepted {moment : NetMoment} {d : Datagram} (hvalid : s.Valid)
    (h : ∀ ctx ∈ s.connections, Accepted calls ctx) (hfits : d.packet.length ≤ netApplemidiUdpSize)
    (hturn : AnswersInTurn s (.daemon (.read moment d)))
    (hok : netSocketRead host moment s d = .ok (u, effects)) :
    (∀ ctx ∈ u.connections, Accepted (calls ++ [.daemon (.read moment d)]) ctx) ∧
      (NetEffect.syncStart ∈ effects →
        ∃ token, BothAccepted (calls ++ [.daemon (.read moment d)]) token) := by
  have hreads : ∀ slot ctx, datagramAccepts s.connections d.packet d.beyond =
      some (slot, ctx) → ∀ socket, d.socket = socket →
        OkRead socket ctx.initiator (.daemon (.read moment d)) := by
    intro slot ctx haccepts socket hsocket
    obtain ⟨-, signature, inv, hunpack, htoken⟩ := datagramAccepts_some haccepts
    exact ⟨hsocket, signature, inv, hunpack, htoken⟩
  refine ⟨table_accepted _ ?_ h (read_caused hvalid hfits hok), fun hsync => ?_⟩
  · rintro ctx ⟨happle, slot, haccepts⟩
    obtain ⟨hfirst, hsecond⟩ := hturn happle slot ctx haccepts
    exact ⟨fun hstatus => hreads slot ctx haccepts _ (hfirst hstatus),
      fun hstatus => hreads slot ctx haccepts _ (hsecond hstatus)⟩
  · obtain ⟨happle, slot, ctx, haccepts, hstatus⟩ := syncStart_read hvalid hfits hok hsync
    obtain ⟨hslot, -⟩ := datagramAccepts_some haccepts
    obtain ⟨first, hfirst, hread⟩ := (h ctx (List.mem_of_getElem? hslot)).second hstatus
    exact ⟨ctx.initiator, ⟨first, List.mem_append_left _ hfirst, hread⟩, _,
      List.mem_append_right _ (List.mem_singleton_self _),
      hreads slot ctx haccepts _ ((hturn happle slot ctx haccepts).2 hstatus)⟩

/-- An invitation of a remote service: only the new context has another status. -/
theorem connect_accepted {moment : NetMoment} {foundService : FoundService}
    (h : ∀ ctx ∈ s.connections, Accepted calls ctx)
    (hok : sessionCall host s (.connect moment foundService) = .ok (u, effects)) :
    (∀ ctx ∈ u.connections, Accepted (calls ++ [.connect moment foundService]) ctx) ∧
      NetEffect.syncStart ∉ effects := by
  constructor
  · obtain ⟨v, hchange, hset⟩ := connect_call hok
    have hkept := table_accepted (.connect moment foundService)
      (fun _ haccepts => False.elim haccepts) h hchange
    obtain hsame | ⟨slot, ctx, hslot, hset⟩ := hset
    · exact hsame ▸ hkept
    · intro other hother
      rw [hset] at hother
      rcases List.mem_or_eq_of_mem_set hother with hold | rfl
      · exact hkept other hold
      · exact .other (by simp) (by simp)
  · intro hsync
    obtain ⟨connected, hconnected, hok⟩ := bind_ok hok
    cases hok
    obtain ⟨slot, address, octets, hcommand⟩ := connect_commands hconnected _ hsync
    cases hcommand

/-- One call: the statuses stay accounted for, and the thread is not started before. -/
theorem call_accepted {call : SessionCall}
    (hvalid : s.Valid) (h : ∀ ctx ∈ s.connections, Accepted calls ctx) (hfits : call.Fits)
    (hturn : AnswersInTurn s call) (hok : sessionCall host s call = .ok (u, effects)) :
    (∀ ctx ∈ u.connections, Accepted (calls ++ [call]) ctx) ∧
      (NetEffect.syncStart ∈ effects → ∃ token, BothAccepted (calls ++ [call]) token) := by
  cases call with
  | daemon call =>
    cases call with
    | read moment d => exact read_accepted hvalid h hfits hturn hok
    | send clock command originator =>
      refine ⟨fun ctx' hctx' => ?_, fun hsync => ?_⟩
      · obtain ⟨slot, ctx, hctx, hserved⟩ := send_served hok hctx'
        exact ((h ctx (List.mem_of_getElem? hctx)).later _).of_same hserved.same.status
          hserved.same.initiator
      · obtain ⟨sent, hsent, hok⟩ := bind_ok hok
        cases hok
        obtain ⟨payload, -, hsent⟩ := bind_ok hsent
        obtain ⟨event, -, hloop⟩ := bind_ok hsent
        obtain ⟨slot, address, packet, hpacket⟩ := senderLoop_packets hloop _ hsync
        cases hpacket
  | connect moment foundService =>
    obtain ⟨hkept, hnot⟩ := connect_accepted h hok
    exact ⟨hkept, fun hsync => absurd hsync hnot⟩

end Step

/-- By induction on the calls, with the calls before them. -/
theorem run_accepted {host : NetHost} {s t : NetState} {before calls : List SessionCall}
    {effects : List NetEffect} (hvalid : s.Valid)
    (h : ∀ ctx ∈ s.connections, Accepted before ctx) (hfits : ∀ call ∈ calls, call.Fits)
    (hturn : Along (sessionCall host) AnswersInTurn s calls)
    (hrun : run (sessionCall host) s calls = .ok (t, effects)) :
    (∀ ctx ∈ t.connections, Accepted (before ++ calls) ctx) ∧
      (NetEffect.syncStart ∈ effects → ∃ token, BothAccepted (before ++ calls) token) := by
  induction calls generalizing s before effects with
  | nil =>
    cases hrun
    exact ⟨fun ctx hctx => (h ctx hctx).later [], by simp⟩
  | cons call calls ih =>
    obtain ⟨u, now, later, hnow, hlater, rfl⟩ := run_cons_inv hrun
    obtain ⟨hfirst, hrest⟩ := List.forall_mem_cons.mp hfits
    obtain ⟨hkept, hsync⟩ := call_accepted hvalid h hfirst hturn.1 hnow
    obtain ⟨hlast, hlaterSync⟩ := ih (call_valid hvalid hfirst hnow) hkept hrest
      (hturn.2 u now hnow) hlater
    rw [show before ++ call :: calls = before ++ [call] ++ calls by simp]
    refine ⟨hlast, fun hmem => ?_⟩
    rcases List.mem_append.mp hmem with hthen | hthen
    · obtain ⟨token, hboth⟩ := hsync hthen
      exact ⟨token, hboth.later calls⟩
    · exact hlaterSync hthen

/-- In a run from the start of the daemon in which every OK answers the invitation that its
context waits for, a remote session is established, and the thread for it is started,
only after both invitations were accepted. -/
theorem established_accepted {host : NetHost} {s t : NetState} {calls : List SessionCall}
    {effects : List NetEffect} (hstart : netStateStart host = some s)
    (hfits : ∀ call ∈ calls, call.Fits)
    (hturn : Along (sessionCall host) AnswersInTurn s calls)
    (hrun : run (sessionCall host) s calls = .ok (t, effects)) :
    (∀ ctx ∈ t.connections, ctx.status = .remoteConnection → BothAccepted calls ctx.initiator) ∧
      (NetEffect.syncStart ∈ effects → ∃ token, BothAccepted calls token) := by
  have hempty : ∀ ctx ∈ s.connections, Accepted [] ctx := by
    simp [start_connections hstart]
  obtain ⟨hkept, hsync⟩ := run_accepted (start_valid hstart) hempty hfits hturn hrun
  exact ⟨fun ctx hctx => (hkept ctx hctx).remote, hsync⟩

/-- Draws the SSRC 7, the token 1 and 9 after them. -/
def invitingMoment : NetMoment := ⟨0, fun n => if n = 0 then 7 else if n = 1 then 1 else 9⟩

def someService : FoundService := ⟨[], [], 5004⟩

/-- An OK from the SSRC 9 with the token 1. -/
def okDatagram (socket : NetSocket) : Datagram :=
  ⟨socket, [], 5004, commandOctets 0xffff netApplemidiCmdAccept ++ invOctets ⟨9, 2, 1, none⟩, []⟩

theorem okDatagram_packet (socket : NetSocket) :
    InvPacket netApplemidiCmdAccept 9 1 (okDatagram socket).packet ∧
      (okDatagram socket).packet.length ≤ netApplemidiUdpSize :=
  ⟨.packed netApplemidiCmdAccept ⟨9, 2, 1, none⟩,
    by simp [okDatagram, commandOctets, invOctets, netApplemidiUdpSize]⟩

/-- An invitation, an OK on the control socket, and an OK on one of the two sockets. -/
def twoOks (socket : NetSocket) : List SessionCall :=
  [.connect invitingMoment someService, .daemon (.read quietMoment (okDatagram .control)),
    .daemon (.read quietMoment (okDatagram socket))]

theorem twoOks_fit (socket : NetSocket) : ∀ call ∈ twoOks socket, call.Fits := by
  intro call hcall
  simp only [twoOks, List.mem_cons, List.not_mem_nil, or_false] at hcall
  rcases hcall with rfl | rfl | rfl
  · trivial
  · exact (okDatagram_packet .control).2
  · exact (okDatagram_packet socket).2

theorem accepts_invPacket (connections : List NetCtx) {ssrc initiator : UInt32}
    {packet : List UInt8} (h : InvPacket netApplemidiCmdAccept ssrc initiator packet)
    (beyond : List UInt8) :
    datagramAccepts connections packet beyond = netCtxFindByInitiator connections initiator := by
  obtain ⟨version, name, hunpack⟩ := h.unpack (by decide) beyond
  rw [datagramAccepts, hunpack]
  rfl

/-- The session is established, wherever the second OK has come in. -/
theorem twoOks_run (socket : NetSocket) : ∃ s t effects ctx,
    netStateStart resolvingHost = some s ∧
    run (sessionCall resolvingHost) s (twoOks socket) = .ok (t, effects) ∧
    (socket = .data → Along (sessionCall resolvingHost) AnswersInTurn s (twoOks socket)) ∧
    ctx ∈ t.connections ∧ ctx.status = .remoteConnection ∧ ctx.initiator = 1 := by
  obtain ⟨s, hstart⟩ : ∃ s, netStateStart resolvingHost = some s := ⟨_, rfl⟩
  have hempty := start_connections hstart
  obtain ⟨t₁, slot, ctx, octets, hconnect, ⟨hhere, hothers, -⟩, hstatus, -, htoken, -⟩ :=
    connect_fresh resolvingHost invitingMoment someService
      (show netCtxFindBySsrc [] (invitingMoment.random 0) = none from rfl)
  have hlt := (List.getElem?_eq_some_iff.mp hhere).1
  have hfind : ∀ next : NetCtx, next.initiator = 1 → netCtxIsUsed next = true →
      netCtxFindByInitiator (t₁.set slot next) 1 = some (slot, next) := by
    intro next hnext hused
    refine find_of_unique (List.getElem?_set_self hlt) (by simp [hnext, hused]) ?_
    intro other hother c hc
    rw [List.getElem?_set_ne (Ne.symm hother), hothers other hother] at hc
    cases hc
  have hkept : t₁.set slot ctx = t₁ := by
    rw [← (List.getElem?_eq_some_iff.mp hhere).2, List.set_getElem_self hlt]
  have hfind₁ := hfind ctx htoken (by simp [netCtxIsUsed, hstatus])
  rw [hkept] at hfind₁
  have hcall₁ : sessionCall resolvingHost s (.connect invitingMoment someService) =
      .ok (⟨t₁, s.sockets⟩, (netCtxSend ctx octets true).toList.map fun sent =>
        .command slot sent.1 sent.2) := by
    simp only [sessionCall, hempty, hconnect, bind, Except.bind, pure, Except.pure]
  have hfits₁ : (SessionCall.connect invitingMoment someService).Fits := trivial
  have hvalid₁ := call_valid (start_valid hstart) hfits₁ hcall₁
  obtain ⟨hpacket₁, hmax₁⟩ := okDatagram_packet .control
  obtain ⟨sockets₁, okPacket₁, -, hread₁⟩ :=
    read_accept hvalid₁ resolvingHost quietMoment hmax₁ hpacket₁ hfind₁
  obtain ⟨invitation, -, hadvance₁⟩ :=
    okAdvance_first resolvingHost quietMoment slot okPacket₁ hstatus
  obtain ⟨next, hnext⟩ : ∃ next : NetCtx, next =
    { ctx with ssrc := okPacket₁.ssrc, status := .secondInv } := ⟨_, rfl⟩
  have hwaits : next.status = .secondInv := by rw [hnext]
  have hsame : next.initiator = 1 := by rw [hnext]; exact htoken
  rw [hadvance₁, ← hnext] at hread₁
  have hvalid₂ := read_valid hvalid₁ hmax₁ hread₁
  have hfind₂ := hfind next hsame (by simp [netCtxIsUsed, hwaits])
  obtain ⟨hpacket₂, hmax₂⟩ := okDatagram_packet socket
  obtain ⟨sockets₂, okPacket₂, -, hread₂⟩ :=
    read_accept hvalid₂ resolvingHost quietMoment hmax₂ hpacket₂ hfind₂
  obtain ⟨sync, -, hadvance₂⟩ :=
    okAdvance_second resolvingHost quietMoment slot okPacket₂ hwaits
  rw [hadvance₂] at hread₂
  refine ⟨s, _, _, _, hstart, run_cons_ok hcall₁ (run_cons_ok hread₁ (run_cons_ok hread₂
    (run_nil _ _))), fun hdata => ?_, List.mem_of_getElem? (List.getElem?_set_self ?_), rfl, hsame⟩
  · refine ⟨trivial, fun u₁ now₁ h₁ => ?_⟩
    cases hcall₁.symm.trans h₁
    refine ⟨fun _ other found haccepts => ?_, fun u₂ now₂ h₂ => ?_⟩
    · rw [accepts_invPacket _ hpacket₁, hfind₁] at haccepts
      cases haccepts
      exact ⟨fun _ => rfl, fun hsecond => absurd (hstatus.symm.trans hsecond) (by decide)⟩
    · cases hread₁.symm.trans h₂
      refine ⟨fun _ other found haccepts => ?_, fun _ _ _ => trivial⟩
      rw [accepts_invPacket _ hpacket₂] at haccepts
      cases hfind₂.symm.trans haccepts
      exact ⟨fun hfirst => absurd (hwaits.symm.trans hfirst) (by decide), fun _ => hdata⟩
  · simpa using hlt

/-- With an OK on each socket both invitations were accepted. -/
theorem established_accepted_in_turn : ∃ s t effects ctx,
    netStateStart resolvingHost = some s ∧
    run (sessionCall resolvingHost) s (twoOks .data) = .ok (t, effects) ∧
    ctx ∈ t.connections ∧ ctx.status = .remoteConnection ∧
    BothAccepted (twoOks .data) ctx.initiator := by
  obtain ⟨s, t, effects, ctx, hstart, hrun, hturn, hctx, hstatus, -⟩ := twoOks_run .data
  exact ⟨s, t, effects, ctx, hstart, hrun, hctx, hstatus,
    (established_accepted hstart (twoOks_fit .data) (hturn rfl) hrun).1 ctx hctx hstatus⟩

/-- The same OK read twice establishes the session: nothing has come from the data port. -/
theorem repeated_ok_establishes : ∃ s t effects ctx,
    netStateStart resolvingHost = some s ∧ (∀ call ∈ twoOks .control, call.Fits) ∧
    run (sessionCall resolvingHost) s (twoOks .control) = .ok (t, effects) ∧
    ctx ∈ t.connections ∧ ctx.status = .remoteConnection ∧
    ¬ BothAccepted (twoOks .control) ctx.initiator := by
  obtain ⟨s, t, effects, ctx, hstart, hrun, -, hctx, hstatus, -⟩ := twoOks_run .control
  refine ⟨s, t, effects, ctx, hstart, twoOks_fit .control, hrun, hctx, hstatus, ?_⟩
  rintro ⟨-, call, hcall, hread⟩
  simp only [twoOks, List.mem_cons, List.not_mem_nil, or_false] at hcall
  rcases hcall with rfl | rfl | rfl
  · exact hread
  · cases hread.1
  · cases hread.1

end RaveloxMidi
