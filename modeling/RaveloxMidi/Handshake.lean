import RaveloxMidi.RemoteConnection

/-!
# The handshake of two daemons

One side invites the other, and each of them registers the session under numbers
that the other has drawn, at different moments. Between the two, datagrams can be
delayed, overtaken, repeated and lost. What the sides have to agree on is read off
an invariant with two stages: before and after the invited side has read an INV.
-/
namespace RaveloxMidi
open ByteMemory Transducer

/-- The two sides, and all the datagrams that each has sent to the other. None of them is
ever taken out: any of them can arrive now, again, or never. -/
structure Handshake where
  invited : NetState
  inviting : NetState
  toInvited : List (List UInt8)
  toInviting : List (List UInt8)

/-- The arrival of one of the datagrams sent. -/
structure Delivery where
  moment : NetMoment
  index : ℕ
  socket : NetSocket
  ipAddress : List UInt8
  port : UInt16
  beyond : List UInt8

/-- The socket reads no more than its buffer holds. -/
def Delivery.datagram (delivery : Delivery) (octets : List UInt8) : Datagram :=
  ⟨delivery.socket, delivery.ipAddress, delivery.port, octets.take netApplemidiUdpSize,
    delivery.beyond⟩

inductive HandshakeCall where
  | atInvited (delivery : Delivery)
  | atInviting (delivery : Delivery)

/-- The octets that an effect puts on the network. -/
def NetEffect.octets : NetEffect → Option (List UInt8)
  | .reply octets => some octets
  | .command _ _ octets => some octets
  | .packet _ _ octets => some octets
  | _ => none

def datagramsSent (effects : List NetEffect) : List (List UInt8) :=
  effects.filterMap NetEffect.octets

/-- One side reads a datagram of the other, and what it sends is on its way then. -/
def handshakeCall (invitedHost invitingHost : NetHost) (s : Handshake) :
    HandshakeCall → Except Fault (Handshake × List NetEffect)
  | .atInvited delivery =>
    match s.toInvited[delivery.index]? with
    | none => .ok (s, [])
    | some octets => do
      let read ← netSocketRead invitedHost delivery.moment s.invited (delivery.datagram octets)
      return ({ s with
        invited := read.1
        toInviting := s.toInviting ++ datagramsSent read.2 }, read.2)
  | .atInviting delivery =>
    match s.toInviting[delivery.index]? with
    | none => .ok (s, [])
    | some octets => do
      let read ← netSocketRead invitingHost delivery.moment s.inviting (delivery.datagram octets)
      return ({ s with
        inviting := read.1
        toInvited := s.toInvited ++ datagramsSent read.2 }, read.2)

/-- No context in use has the SSRC or the token. -/
def NumbersUnused (connections : List NetCtx) (ssrc initiator : UInt32) : Prop :=
  ∀ ctx ∈ connections, netCtxIsUsed ctx = true → ctx.ssrc ≠ ssrc ∧ ctx.initiator ≠ initiator

/-- The SSRC that the invited side draws, when it registers the inviting one, is not in use
on the inviting side. -/
def DrawsDistinct (ssrc : UInt32) (s : Handshake) : HandshakeCall → Prop
  | .atInvited delivery => netCtxFindBySsrc s.invited.connections ssrc = none →
      ∀ ctx ∈ s.inviting.connections, netCtxIsUsed ctx = true → ctx.ssrc ≠ delivery.moment.random 0
  | .atInviting _ => True

/-- The one context in use with an SSRC, which is the one with a token too. -/
structure OnlyContext (connections : List NetCtx) (slot : ℕ) (ctx : NetCtx)
    (ssrc initiator : UInt32) : Prop where
  here : connections[slot]? = some ctx
  used : netCtxIsUsed ctx = true
  others : ∀ other ≠ slot, ∀ c, connections[other]? = some c → netCtxIsUsed c = true →
    c.ssrc ≠ ssrc ∧ c.initiator ≠ initiator
  ssrc : ctx.ssrc = ssrc
  initiator : ctx.initiator = initiator

/-- The invited side has one context for a context of the inviting side, each side has the
SSRC of the other, and by these the contexts are found. -/
def Agreed (s : Handshake) (slot : ℕ) (ctx : NetCtx) : Prop :=
  ∃ other peer, OnlyContext s.invited.connections other peer ctx.sendSsrc ctx.initiator ∧
    ctx.ssrc = peer.sendSsrc ∧
    netCtxFindBySsrc s.invited.connections ctx.sendSsrc = some (other, peer) ∧
    netCtxFindBySsrc s.inviting.connections peer.sendSsrc = some (slot, ctx)

/-- The context of the inviting side, the only one in use with its token. -/
structure InvitingContext (connections : List NetCtx) (slot : ℕ) (ctx : NetCtx)
    (ssrc initiator : UInt32) : Prop where
  here : connections[slot]? = some ctx
  others : ∀ other ≠ slot, ∀ c, connections[other]? = some c → netCtxIsUsed c = true →
    c.initiator ≠ initiator
  status : ctx.status = .firstInv ∨ ctx.status = .secondInv ∨ ctx.status = .remoteConnection
  sendSsrc : ctx.sendSsrc = ssrc
  initiator : ctx.initiator = initiator

/-- No INV has been read, and so no OK is under way. -/
structure Unheard (s : Handshake) (ctx : NetCtx) (ssrc initiator : UInt32) : Prop where
  unused : NumbersUnused s.invited.connections ssrc initiator
  status : ctx.status = .firstInv
  quiet : ∀ octets ∈ s.toInviting, SyncPacket octets

/-- The invited side has registered the session, and every OK names its context. -/
structure Heard (s : Handshake) (slot : ℕ) (ctx peer : NetCtx) (initiator : UInt32) : Prop where
  accepts : ∀ octets ∈ s.toInviting,
    InvPacket netApplemidiCmdAccept peer.sendSsrc initiator octets ∨ SyncPacket octets
  named : ctx.status ≠ .firstInv → ctx.ssrc = peer.sendSsrc
  distinct : ∀ other ≠ slot, ∀ c, s.inviting.connections[other]? = some c →
    netCtxIsUsed c = true → c.ssrc ≠ peer.sendSsrc

/-- What holds between two arrivals. -/
structure HandshakeInv (ssrc initiator : UInt32) (slot : ℕ) (s : Handshake) : Prop where
  invited : s.invited.Valid
  inviting : s.inviting.Valid
  invitations : ∀ octets ∈ s.toInvited,
    InvPacket netApplemidiCmdInv ssrc initiator octets ∨ SyncPacket octets
  stage : ∃ ctx, InvitingContext s.inviting.connections slot ctx ssrc initiator ∧
    (Unheard s ctx ssrc initiator ∨ ∃ other peer,
      OnlyContext s.invited.connections other peer ssrc initiator ∧
        Heard s slot ctx peer initiator)

/-- An SSRC that no context in use has is not found. -/
theorem findBySsrc_none {connections : List NetCtx} {ssrc : UInt32}
    (h : ∀ ctx ∈ connections, netCtxIsUsed ctx = true → ctx.ssrc ≠ ssrc) :
    netCtxFindBySsrc connections ssrc = none := by
  cases hfind : netCtxFindBySsrc connections ssrc with
  | none => rfl
  | some found =>
    obtain ⟨hslot, hwanted⟩ := find_some hfind
    obtain ⟨hused, hssrc⟩ := Bool.and_eq_true_iff.mp hwanted
    exact absurd (by simpa using hssrc) (h found.2 (List.mem_of_getElem? hslot) hused)

theorem OnlyContext.find {connections : List NetCtx} {slot : ℕ} {ctx : NetCtx}
    {ssrc initiator : UInt32} (h : OnlyContext connections slot ctx ssrc initiator) :
    netCtxFindBySsrc connections ssrc = some (slot, ctx) := by
  have hssrc := h.ssrc
  subst hssrc
  exact findBySsrc_of_unique h.here h.used fun other hother c hc hused =>
    (h.others other hother c hc hused).1

namespace InvitingContext
variable {connections : List NetCtx} {slot : ℕ} {ctx : NetCtx} {ssrc initiator : UInt32}
  (h : InvitingContext connections slot ctx ssrc initiator)
include h

theorem used : netCtxIsUsed ctx = true := by
  rcases h.status with hstatus | hstatus | hstatus <;> simp [netCtxIsUsed, hstatus]

theorem find : netCtxFindByInitiator connections initiator = some (slot, ctx) := by
  refine find_of_unique h.here (by simp [h.used, h.initiator]) fun other hother c hc => ?_
  by_cases hused : netCtxIsUsed c = true
  · simp [hused, h.others other hother c hc hused]
  · simp [hused]

/-- The context can move forward as long as it keeps its numbers. -/
theorem set {next : NetCtx} (hssrc : next.sendSsrc = ctx.sendSsrc)
    (hinitiator : next.initiator = ctx.initiator)
    (hstatus : next.status = .firstInv ∨ next.status = .secondInv ∨
      next.status = .remoteConnection) :
    InvitingContext (connections.set slot next) slot next ssrc initiator := by
  refine ⟨List.getElem?_set_self (List.getElem?_eq_some_iff.mp h.here).1,
    fun other hother c hc => ?_, hstatus, hssrc.trans h.sendSsrc, hinitiator.trans h.initiator⟩
  rw [List.getElem?_set_ne (Ne.symm hother)] at hc
  exact h.others other hother c hc

end InvitingContext

/-- A registration under numbers that are not in use makes the only context with them. -/
theorem Registered.only {connections t : List NetCtx} {slot : ℕ} {ctx : NetCtx}
    {ssrc initiator sendSsrc : UInt32} (h : Registered connections t slot ctx)
    (hnew : NewSession ctx ssrc initiator sendSsrc)
    (hunused : NumbersUnused connections ssrc initiator) :
    OnlyContext t slot ctx ssrc initiator := by
  refine ⟨h.here, by simp [netCtxIsUsed, hnew.status], fun other hother c hc hused => ?_,
    hnew.ssrc, hnew.initiator⟩
  rw [h.others other hother] at hc
  exact hunused c (List.mem_of_getElem? hc) hused

section Sent
variable {octets : List UInt8}

theorem mem_datagramsSent {effects : List NetEffect} (h : octets ∈ datagramsSent effects) :
    ∃ effect ∈ effects, effect.octets = some octets :=
  List.mem_filterMap.mp h

/-- What goes to a context is the packet, if its address is known. -/
theorem mem_sentCommand {ctx : NetCtx} {packet : List UInt8} {useControl : Bool} {slot : ℕ}
    (h : octets ∈ datagramsSent ((netCtxSend ctx packet useControl).toList.map fun sent =>
      .command slot sent.1 sent.2)) : octets = packet := by
  obtain ⟨effect, heffect, hoctets⟩ := mem_datagramsSent h
  obtain ⟨sent, hsent, rfl⟩ := List.mem_map.mp heffect
  rw [Option.mem_toList, netCtxSend] at hsent
  split_ifs at hsent
  · obtain ⟨address, -, rfl⟩ := Option.map_eq_some_iff.mp hsent
    exact (Option.some.inj hoctets).symm
  · obtain ⟨address, -, rfl⟩ := Option.map_eq_some_iff.mp hsent
    exact (Option.some.inj hoctets).symm

theorem mem_sentReplies {effects : List NetEffect}
    (heffects : ∀ effect ∈ effects, ∃ packet, effect = .reply packet ∧ SyncPacket packet)
    (h : octets ∈ datagramsSent effects) : SyncPacket octets := by
  obtain ⟨effect, heffect, hoctets⟩ := mem_datagramsSent h
  obtain ⟨packet, rfl, hpacket⟩ := heffects effect heffect
  exact Option.some.inj hoctets ▸ hpacket

end Sent

theorem Delivery.fits (delivery : Delivery) (octets : List UInt8) :
    (delivery.datagram octets).packet.length ≤ netApplemidiUdpSize :=
  List.length_take_le _ _

/-- A datagram that is cut off still has its fixed part. -/
theorem InvPacket.arrives {command : UInt16} {ssrc initiator : UInt32} {octets : List UInt8}
    (h : InvPacket command ssrc initiator octets) (delivery : Delivery) :
    InvPacket command ssrc initiator (delivery.datagram octets).packet :=
  h.take (netApplemidiUdpSize - 16)

theorem SyncPacket.arrives {octets : List UInt8} (h : SyncPacket octets) (delivery : Delivery) :
    SyncPacket (delivery.datagram octets).packet :=
  h.take (netApplemidiUdpSize - netApplemidiCommandSize)

/-- What an OK does to a context of an invitation. -/
structure Advanced (ctx next : NetCtx) (okSsrc : UInt32) (effects : List NetEffect) : Prop where
  sendSsrc : next.sendSsrc = ctx.sendSsrc
  initiator : next.initiator = ctx.initiator
  status : next.status = .secondInv ∨ next.status = .remoteConnection
  ssrc : next.ssrc = if ctx.status = .firstInv then okSsrc else ctx.ssrc
  sent : ∀ octets ∈ datagramsSent effects,
    InvPacket netApplemidiCmdInv ctx.sendSsrc ctx.initiator octets ∨ SyncPacket octets

theorem okAdvance_advanced {host : NetHost} {moment : NetMoment} {slot : ℕ} {ctx next : NetCtx}
    {okPacket : NetApplemidiInv} {effects : List NetEffect}
    (hstatus : ctx.status = .firstInv ∨ ctx.status = .secondInv ∨ ctx.status = .remoteConnection)
    (hok : applemidiOkAdvance host moment slot ctx okPacket = .ok (next, effects)) :
    Advanced ctx next okPacket.ssrc effects := by
  cases okAdvance_outcome hok with
  | first hfirst hpacket =>
    refine ⟨rfl, rfl, .inl rfl, by rw [if_pos hfirst], fun octets hoctets => .inl ?_⟩
    rw [mem_sentCommand hoctets]
    exact hpacket
  | second hsecond hpacket =>
    refine ⟨rfl, rfl, .inr rfl, by simp [hsecond], fun octets hoctets => .inr ?_⟩
    rw [datagramsSent, List.filterMap_append] at hoctets
    rcases List.mem_append.mp hoctets with hsent | hnone
    · rw [mem_sentCommand hsent]
      exact hpacket
    · cases hnone
  | other hfirst hsecond =>
    have hremote := (hstatus.resolve_left hfirst).resolve_left hsecond
    exact ⟨rfl, rfl, .inr hremote, by rw [if_neg hfirst], fun octets hoctets => by cases hoctets⟩

section Arrivals
variable {invitedHost invitingHost : NetHost} {s t : Handshake} {delivery : Delivery}
  {effects : List NetEffect} {ssrc initiator : UInt32} {slot : ℕ}

theorem handshakeCall_invited (invitingHost : NetHost) {octets : List UInt8} {read : NetState}
    (hoctets : s.toInvited[delivery.index]? = some octets)
    (hread : netSocketRead invitedHost delivery.moment s.invited (delivery.datagram octets) =
      .ok (read, effects)) :
    handshakeCall invitedHost invitingHost s (.atInvited delivery) =
      .ok ({ s with invited := read, toInviting := s.toInviting ++ datagramsSent effects },
        effects) := by
  simp only [handshakeCall, hoctets, hread, bind, Except.bind, pure, Except.pure]

theorem handshakeCall_inviting (invitedHost : NetHost) {octets : List UInt8} {read : NetState}
    (hoctets : s.toInviting[delivery.index]? = some octets)
    (hread : netSocketRead invitingHost delivery.moment s.inviting (delivery.datagram octets) =
      .ok (read, effects)) :
    handshakeCall invitedHost invitingHost s (.atInviting delivery) =
      .ok ({ s with inviting := read, toInvited := s.toInvited ++ datagramsSent effects },
        effects) := by
  simp only [handshakeCall, hoctets, hread, bind, Except.bind, pure, Except.pure]

/-- The invited side registers the session at the first INV and repeats its OK after it. -/
theorem atInvited_inv (h : HandshakeInv ssrc initiator slot s)
    (hdraws : DrawsDistinct ssrc s (.atInvited delivery))
    (hok : handshakeCall invitedHost invitingHost s (.atInvited delivery) = .ok (t, effects)) :
    HandshakeInv ssrc initiator slot t := by
  cases hoctets : s.toInvited[delivery.index]? with
  | none =>
    simp only [handshakeCall, hoctets] at hok
    cases hok
    exact h
  | some octets =>
    simp only [handshakeCall, hoctets] at hok
    obtain ⟨read, hread, hok⟩ := bind_ok hok
    cases hok
    have hfits := delivery.fits octets
    have hvalid := read_valid h.invited hfits hread
    obtain ⟨ctx, hctx, hstage⟩ := h.stage
    refine ⟨hvalid, h.inviting, h.invitations, ctx, hctx, ?_⟩
    rcases h.invitations octets (List.mem_of_getElem? hoctets) with hinv | hsync
    · have hpacket := hinv.arrives delivery
      rcases hstage with hunheard | ⟨other, peer, honly, hheard⟩
      · have hfind := findBySsrc_none fun c hc hused => (hunheard.unused c hc hused).1
        obtain ⟨connections, other, peer, sockets, answer, hreply, hregistered, hnew, haccept⟩ :=
          read_unknown h.invited invitedHost delivery.moment hfits hpacket hfind
        cases hreply.symm.trans hread
        have hdistinct := hdraws hfind
        rw [← hnew.sendSsrc] at hdistinct
        rw [hnew.initiator] at haccept
        refine .inr ⟨other, peer, hregistered.only hnew hunheard.unused, ?_,
          fun hlater => absurd hunheard.status hlater,
          fun other hother c hc => hdistinct c (List.mem_of_getElem? hc)⟩
        refine List.forall_mem_append.mpr
          ⟨fun packet hpacket => .inr (hunheard.quiet packet hpacket),
            fun packet hpacket => .inl ?_⟩
        rw [List.mem_singleton.mp hpacket]
        exact haccept
      · obtain ⟨sockets, answer, hreply, haccept⟩ :=
          read_known h.invited invitedHost delivery.moment hfits hpacket honly.find
        cases hreply.symm.trans hread
        rw [honly.initiator] at haccept
        refine .inr ⟨other, peer, honly, ?_, hheard.named, hheard.distinct⟩
        refine List.forall_mem_append.mpr ⟨hheard.accepts, fun packet hpacket => .inl ?_⟩
        rw [List.mem_singleton.mp hpacket]
        exact haccept
    · have hpacket := hsync.arrives delivery
      obtain ⟨hsame, hreplies⟩ := read_syncPacket h.invited hpacket hfits hread
      rcases hstage with hunheard | ⟨other, peer, honly, hheard⟩
      · refine .inl ⟨hsame ▸ hunheard.unused, hunheard.status, ?_⟩
        exact List.forall_mem_append.mpr ⟨hunheard.quiet, fun _ => mem_sentReplies hreplies⟩
      · refine .inr ⟨other, peer, hsame ▸ honly, ?_, hheard.named, hheard.distinct⟩
        exact List.forall_mem_append.mpr ⟨hheard.accepts,
          fun _ hmem => .inr (mem_sentReplies hreplies hmem)⟩

/-- An OK is one of the invited side's, and its context moves forward with the SSRC in it. -/
theorem atInviting_inv (h : HandshakeInv ssrc initiator slot s)
    (hok : handshakeCall invitedHost invitingHost s (.atInviting delivery) = .ok (t, effects)) :
    HandshakeInv ssrc initiator slot t := by
  cases hoctets : s.toInviting[delivery.index]? with
  | none =>
    simp only [handshakeCall, hoctets] at hok
    cases hok
    exact h
  | some octets =>
    simp only [handshakeCall, hoctets] at hok
    obtain ⟨read, hread, hok⟩ := bind_ok hok
    cases hok
    have hfits := delivery.fits octets
    have hvalid := read_valid h.inviting hfits hread
    obtain ⟨ctx, hctx, hstage⟩ := h.stage
    have hmem := List.mem_of_getElem? hoctets
    have hkind : SyncPacket octets ∨ ∃ other peer,
        InvPacket netApplemidiCmdAccept peer.sendSsrc initiator octets ∧
        OnlyContext s.invited.connections other peer ssrc initiator ∧
          Heard s slot ctx peer initiator := by
      rcases hstage with hunheard | ⟨other, peer, honly, hheard⟩
      · exact .inl (hunheard.quiet octets hmem)
      · rcases hheard.accepts octets hmem with haccept | hsync
        · exact .inr ⟨other, peer, haccept, honly, hheard⟩
        · exact .inl hsync
    rcases hkind with hsync | ⟨other, peer, haccept, honly, hheard⟩
    · have hpacket := hsync.arrives delivery
      obtain ⟨hsame, hreplies⟩ := read_syncPacket h.inviting hpacket hfits hread
      refine ⟨h.invited, hvalid, ?_, ctx, hsame ▸ hctx, ?_⟩
      · exact List.forall_mem_append.mpr ⟨h.invitations,
          fun _ hmem => .inr (mem_sentReplies hreplies hmem)⟩
      · rcases hstage with hunheard | ⟨other, peer, honly, hheard⟩
        · exact .inl ⟨hunheard.unused, hunheard.status, hunheard.quiet⟩
        · exact .inr ⟨other, peer, honly, hheard.accepts, hheard.named, hsame ▸ hheard.distinct⟩
    · have hpacket := haccept.arrives delivery
      obtain ⟨sockets, okPacket, hssrc, hadvances⟩ :=
        read_accept h.inviting invitingHost delivery.moment hfits hpacket hctx.find
      rw [hadvances] at hread
      obtain ⟨advanced, hadvance, heq⟩ := map_ok hread
      cases heq
      have hnext := okAdvance_advanced hctx.status hadvance
      refine ⟨h.invited, hvalid, ?_, advanced.1,
        hctx.set hnext.sendSsrc hnext.initiator (.inr hnext.status),
        .inr ⟨other, peer, honly, hheard.accepts, fun _ => ?_, fun i hi c hc => ?_⟩⟩
      · have hsent := hnext.sent
        rw [hctx.sendSsrc, hctx.initiator] at hsent
        exact List.forall_mem_append.mpr ⟨h.invitations, hsent⟩
      · by_cases hfirst : ctx.status = .firstInv
        · rw [hnext.ssrc, if_pos hfirst, hssrc]
        · rw [hnext.ssrc, if_neg hfirst, hheard.named hfirst]
      · rw [List.getElem?_set_ne (Ne.symm hi)] at hc
        exact hheard.distinct i hi c hc

end Arrivals

/-- Numbers that are not in use on either side make the two sides begin in the first stage. -/
theorem connect_inv {invitingHost : NetHost} {a b connected : NetState} {moment : NetMoment}
    {foundService : FoundService} {effects : List NetEffect} (ha : a.Valid) (hb : b.Valid)
    (hinvited : NumbersUnused a.connections (moment.random 0) (moment.random 1))
    (hinviting : NumbersUnused b.connections (moment.random 0) (moment.random 1))
    (hconnect : sessionCall invitingHost b (.connect moment foundService) =
      .ok (connected, effects)) :
    ∃ slot, HandshakeInv (moment.random 0) (moment.random 1) slot
      ⟨a, connected, datagramsSent effects, []⟩ := by
  have hfind := findBySsrc_none fun c hc hused => (hinviting c hc hused).1
  obtain ⟨t, slot, ctx, octets, hinit, hregistered, hstatus, hsend, htoken, -, -, -, hpacket⟩ :=
    connect_fresh invitingHost moment foundService hfind
  have hfits : (SessionCall.connect moment foundService).Fits := trivial
  have hvalid := call_valid hb hfits hconnect
  simp only [sessionCall, hinit, bind, Except.bind, pure, Except.pure] at hconnect
  cases hconnect
  refine ⟨slot, ha, hvalid, fun sent hsent => .inl ?_, ctx,
    ⟨hregistered.here, fun other hother c hc hused => ?_, .inl hstatus, hsend, htoken⟩,
    .inl ⟨hinvited, hstatus, by simp⟩⟩
  · rw [mem_sentCommand hsent]
    exact hpacket
  · rw [hregistered.others other hother] at hc
    exact (hinviting c (List.mem_of_getElem? hc) hused).2

/-- As soon as the inviting side has had an OK, the two sides agree. -/
theorem HandshakeInv.agreed {s : Handshake} {ssrc initiator : UInt32} {slot own : ℕ} {ctx : NetCtx}
    (h : HandshakeInv ssrc initiator own s) (hctx : s.inviting.connections[slot]? = some ctx)
    (htoken : ctx.initiator = initiator)
    (hstatus : ctx.status = .secondInv ∨ ctx.status = .remoteConnection) : Agreed s slot ctx := by
  obtain ⟨ctx', hown, hstage⟩ := h.stage
  have hused : netCtxIsUsed ctx = true := by
    rcases hstatus with h | h <;> simp [netCtxIsUsed, h]
  have hslot : slot = own := by
    by_contra hother
    exact hown.others slot hother ctx hctx hused htoken
  subst hslot
  cases hctx.symm.trans hown.here
  have hlater : ctx.status ≠ .firstInv := by
    rcases hstatus with h | h <;> simp [h]
  rcases hstage with hunheard | ⟨other, peer, honly, hheard⟩
  · exact absurd hunheard.status hlater
  · have hnamed := hheard.named hlater
    have hdistinct := hheard.distinct
    rw [← hown.sendSsrc, ← htoken] at honly
    rw [← hnamed] at hdistinct
    refine ⟨other, peer, honly, hnamed, honly.find, ?_⟩
    rw [← hnamed]
    exact findBySsrc_of_unique hctx hused hdistinct

section Completion
variable {invitedHost invitingHost : NetHost} {s t : Handshake} {delivery : Delivery}
  {effects : List NetEffect} {ssrc initiator : UInt32} {slot : ℕ} {octets : List UInt8}

/-- The INV arrives, perhaps again, and an OK for it is on its way. -/
theorem invitation_answered (invitedHost invitingHost : NetHost)
    (h : HandshakeInv ssrc initiator slot s)
    (hoctets : s.toInvited[delivery.index]? = some octets)
    (hinv : InvPacket netApplemidiCmdInv ssrc initiator octets) :
    ∃ t effects answer peerSsrc,
      handshakeCall invitedHost invitingHost s (.atInvited delivery) = .ok (t, effects) ∧
      t.inviting = s.inviting ∧ t.toInvited = s.toInvited ∧
      t.toInviting = s.toInviting ++ [answer] ∧
      InvPacket netApplemidiCmdAccept peerSsrc initiator answer := by
  have hfits := delivery.fits octets
  have hpacket := hinv.arrives delivery
  obtain ⟨ctx, -, hunheard | ⟨other, peer, honly, -⟩⟩ := h.stage
  · obtain ⟨connections, other, peer, sockets, answer, hreply, -, hnew, haccept⟩ :=
      read_unknown h.invited invitedHost delivery.moment hfits hpacket
        (findBySsrc_none fun c hc hused => (hunheard.unused c hc hused).1)
    rw [hnew.initiator] at haccept
    exact ⟨_, _, answer, peer.sendSsrc, handshakeCall_invited invitingHost hoctets hreply, rfl, rfl,
      rfl, haccept⟩
  · obtain ⟨sockets, answer, hreply, haccept⟩ :=
      read_known h.invited invitedHost delivery.moment hfits hpacket honly.find
    rw [honly.initiator] at haccept
    exact ⟨_, _, answer, peer.sendSsrc, handshakeCall_invited invitingHost hoctets hreply, rfl, rfl,
      rfl, haccept⟩

/-- The OK arrives, and the inviting side takes the step that it waits for. -/
theorem accept_advances (invitedHost invitingHost : NetHost)
    (h : HandshakeInv ssrc initiator slot s) {ctx : NetCtx}
    (hctx : InvitingContext s.inviting.connections slot ctx ssrc initiator) {peerSsrc : UInt32}
    (hoctets : s.toInviting[delivery.index]? = some octets)
    (haccept : InvPacket netApplemidiCmdAccept peerSsrc initiator octets) :
    ∃ t effects next,
      handshakeCall invitedHost invitingHost s (.atInviting delivery) = .ok (t, effects) ∧
      t.inviting.connections[slot]? = some next ∧ next.initiator = initiator ∧
      (ctx.status = .firstInv → next.status = .secondInv) ∧
      (ctx.status = .secondInv → next.status = .remoteConnection ∧ .syncStart ∈ effects) := by
  have hlt := (List.getElem?_eq_some_iff.mp hctx.here).1
  obtain ⟨sockets, okPacket, -, hadvances⟩ := read_accept h.inviting invitingHost delivery.moment
    (delivery.fits octets) (haccept.arrives delivery) hctx.find
  rcases hctx.status with hfirst | hsecond | hremote
  · obtain ⟨packet, -, hadvance⟩ :=
      okAdvance_first invitingHost delivery.moment slot okPacket hfirst
    rw [hadvance] at hadvances
    exact ⟨_, _, _, handshakeCall_inviting invitedHost hoctets hadvances,
      List.getElem?_set_self hlt, hctx.initiator, fun _ => rfl, by simp [hfirst]⟩
  · obtain ⟨packet, -, hadvance⟩ :=
      okAdvance_second invitingHost delivery.moment slot okPacket hsecond
    rw [hadvance] at hadvances
    exact ⟨_, _, _, handshakeCall_inviting invitedHost hoctets hadvances,
      List.getElem?_set_self hlt, hctx.initiator, by simp [hsecond], fun _ => ⟨rfl, by simp⟩⟩
  · obtain ⟨next, effects, hadvance⟩ := okAdvance_ok invitingHost delivery.moment slot okPacket ctx
    rw [hadvance] at hadvances
    have hfirst : ctx.status ≠ .firstInv := by simp [hremote]
    have hsecond : ctx.status ≠ .secondInv := by simp [hremote]
    cases (okAdvance_other invitingHost delivery.moment slot okPacket hfirst hsecond).symm.trans
      hadvance
    exact ⟨_, _, _, handshakeCall_inviting invitedHost hoctets hadvances,
      List.getElem?_set_self hlt, hctx.initiator, by simp [hremote], by simp [hremote]⟩

/-- Nothing that has been sent is lost for good. -/
theorem toInvited_grows {call : HandshakeCall}
    (hok : handshakeCall invitedHost invitingHost s call = .ok (t, effects)) :
    s.toInvited <+: t.toInvited := by
  cases call with
  | atInvited delivery =>
    cases hoctets : s.toInvited[delivery.index]? with
    | none =>
      simp only [handshakeCall, hoctets, Except.ok.injEq, Prod.mk.injEq] at hok
      exact hok.1 ▸ List.prefix_refl _
    | some octets =>
      simp only [handshakeCall, hoctets] at hok
      obtain ⟨read, -, hok⟩ := bind_ok hok
      cases hok
      exact List.prefix_refl _
  | atInviting delivery =>
    cases hoctets : s.toInviting[delivery.index]? with
    | none =>
      simp only [handshakeCall, hoctets, Except.ok.injEq, Prod.mk.injEq] at hok
      exact hok.1 ▸ List.prefix_refl _
    | some octets =>
      simp only [handshakeCall, hoctets] at hok
      obtain ⟨read, -, hok⟩ := bind_ok hok
      cases hok
      exact List.prefix_append _ _

theorem first_kept {call : HandshakeCall}
    (hok : handshakeCall invitedHost invitingHost s call = .ok (t, effects))
    (hfirst : s.toInvited[0]? = some octets) : t.toInvited[0]? = some octets := by
  obtain ⟨more, hmore⟩ := toInvited_grows hok
  rw [← hmore]
  exact (List.getElem?_append_left (List.getElem?_eq_some_iff.mp hfirst).1).trans hfirst

/-- The first INV arrives once more, and then the OK for it. -/
def roundCalls (fresh : NetMoment) (s : Handshake) : List HandshakeCall :=
  [.atInvited ⟨fresh, 0, .control, [], 5004, []⟩,
    .atInviting ⟨fresh, s.toInviting.length, .control, [], 5004, []⟩]

theorem round_advances (invitedHost invitingHost : NetHost) (fresh : NetMoment)
    (h : HandshakeInv ssrc initiator slot s) (hoctets : s.toInvited[0]? = some octets)
    (hinv : InvPacket netApplemidiCmdInv ssrc initiator octets)
    (hdraws : DrawsDistinct ssrc s (.atInvited ⟨fresh, 0, .control, [], 5004, []⟩))
    {ctx : NetCtx} (hctx : InvitingContext s.inviting.connections slot ctx ssrc initiator) :
    ∃ t effects next,
      run (handshakeCall invitedHost invitingHost) s (roundCalls fresh s) = .ok (t, effects) ∧
      HandshakeInv ssrc initiator slot t ∧ t.toInvited[0]? = some octets ∧
      t.inviting.connections[slot]? = some next ∧ next.initiator = initiator ∧
      (ctx.status = .firstInv → next.status = .secondInv) ∧
      (ctx.status = .secondInv → next.status = .remoteConnection ∧ .syncStart ∈ effects) := by
  let invitation : Delivery := ⟨fresh, 0, .control, [], 5004, []⟩
  let answered : Delivery := { invitation with index := s.toInviting.length }
  have hnext : s.toInvited[invitation.index]? = some octets := hoctets
  obtain ⟨r, first, answer, peerSsrc, hfirst, hinviting, hsent, hanswers, haccept⟩ :=
    invitation_answered invitedHost invitingHost h hnext hinv
  have hr := atInvited_inv h hdraws hfirst
  have hanswer : r.toInviting[answered.index]? = some answer := by
    rw [hanswers]
    exact List.getElem?_concat_length
  obtain ⟨t, second, next, hsecond, hhere, hinitiator, hwaits, hlast⟩ :=
    accept_advances invitedHost invitingHost hr (hinviting.symm ▸ hctx) hanswer haccept
  have hkept : t.toInvited[0]? = some octets := first_kept hsecond (by rw [hsent, hoctets])
  refine ⟨t, first ++ (second ++ []), next,
    run_cons_ok hfirst (run_cons_ok hsecond (run_nil _ _)), atInviting_inv hr hsecond, hkept,
    hhere, hinitiator, hwaits, fun hstatus => ?_⟩
  obtain ⟨hremote, hsync⟩ := hlast hstatus
  exact ⟨hremote, by simp [hsync]⟩

/-- The context ends up connected: two INVs are enough for a new one. -/
theorem session_completes (invitedHost invitingHost : NetHost) {fresh : NetMoment}
    (h : HandshakeInv ssrc initiator slot s) (hoctets : s.toInvited[0]? = some octets)
    (hinv : InvPacket netApplemidiCmdInv ssrc initiator octets)
    (hfresh : ∀ ctx ∈ s.inviting.connections, netCtxIsUsed ctx = true →
      ctx.ssrc ≠ fresh.random 0) :
    ∃ calls t effects, ∃ ctx last : NetCtx, calls.length ≤ 4 ∧
      run (handshakeCall invitedHost invitingHost) s calls = .ok (t, effects) ∧
      s.inviting.connections[slot]? = some ctx ∧
      (ctx.status = .remoteConnection ∨ .syncStart ∈ effects) ∧
      t.inviting.connections[slot]? = some last ∧ last.initiator = initiator ∧
      last.status = .remoteConnection := by
  obtain ⟨ctx, hctx, -⟩ := h.stage
  rcases hctx.status with hfirst | hsecond | hremote
  · obtain ⟨r, now, next, hround, hr, hkept, hhere, -, hwaits, -⟩ :=
      round_advances invitedHost invitingHost fresh h hoctets hinv (fun _ => hfresh) hctx
    have hstatus := hwaits hfirst
    -- The session is registered by now, and nothing is drawn for it again.
    obtain ⟨ctx', hctx', hstage⟩ := hr.stage
    cases hhere.symm.trans hctx'.here
    have hknown : DrawsDistinct ssrc r (.atInvited ⟨fresh, 0, .control, [], 5004, []⟩) := by
      intro hfind
      rcases hstage with hunheard | ⟨other, peer, honly, -⟩
      · cases hstatus.symm.trans hunheard.status
      · cases hfind.symm.trans honly.find
    obtain ⟨t, more, last, hround', -, -, hlast, hinitiator, -, hconnected⟩ :=
      round_advances invitedHost invitingHost fresh hr hkept hinv hknown hctx'
    obtain ⟨hremote, hsync⟩ := hconnected hstatus
    exact ⟨roundCalls fresh s ++ roundCalls fresh r, t, now ++ more, ctx, last,
      by simp [roundCalls], run_append_ok hround hround', hctx.here,
      .inr (List.mem_append_right _ hsync), hlast, hinitiator, hremote⟩
  · obtain ⟨t, effects, last, hround, -, -, hlast, hinitiator, -, hconnected⟩ :=
      round_advances invitedHost invitingHost fresh h hoctets hinv (fun _ => hfresh) hctx
    obtain ⟨hremote, hsync⟩ := hconnected hsecond
    exact ⟨roundCalls fresh s, t, effects, ctx, last, by simp [roundCalls], hround, hctx.here,
      .inr hsync, hlast, hinitiator, hremote⟩
  · exact ⟨[], s, [], ctx, ctx, by simp, run_nil _ _, hctx.here, .inl hremote, hctx.here,
      hctx.initiator, hremote⟩

end Completion

/-- What an invitation sends is an INV with its numbers. -/
theorem connect_sends {invitingHost : NetHost} {b connected : NetState} {moment : NetMoment}
    {foundService : FoundService} {effects : List NetEffect} {octets : List UInt8}
    (hinviting : NumbersUnused b.connections (moment.random 0) (moment.random 1))
    (hconnect : sessionCall invitingHost b (.connect moment foundService) =
      .ok (connected, effects)) (hsent : octets ∈ datagramsSent effects) :
    InvPacket netApplemidiCmdInv (moment.random 0) (moment.random 1) octets := by
  have hfind := findBySsrc_none fun c hc hused => (hinviting c hc hused).1
  obtain ⟨t, slot, ctx, packet, hinit, -, -, -, -, -, -, -, hpacket⟩ :=
    connect_fresh invitingHost moment foundService hfind
  simp only [sessionCall, hinit, bind, Except.bind, pure, Except.pure] at hconnect
  cases hconnect
  rw [mem_sentCommand hsent]
  exact hpacket

/-- Draws one number, and 1 from then on. -/
def drawing (first : UInt32) : NetMoment := ⟨0, fun n => if n = 0 then first else 1⟩

/-- The datagram sent first, on the control socket. -/
def firstDelivery : Delivery := ⟨drawing 9, 0, .control, [], 5004, []⟩

/-- A daemon that has just been started invites another one, which draws a number then. -/
theorem start_invites : ∃ a connected effects octets, netStateStart resolvingHost = some a ∧
    NumbersUnused a.connections 7 1 ∧
    sessionCall resolvingHost a (.connect (drawing 7) ⟨[], [], 5004⟩) = .ok (connected, effects) ∧
    datagramsSent effects = [octets] ∧
    ∀ ctx ∈ connected.connections, ctx.status = .firstInv ∧ ctx.ssrc ≠ (drawing 9).random 0 := by
  obtain ⟨a, hstart⟩ : ∃ a, netStateStart resolvingHost = some a := ⟨_, rfl⟩
  have hempty := start_connections hstart
  obtain ⟨t, slot, ctx, octets, hinit, hregistered, hstatus, -, -, hssrc, hcontrol, -, hpacket⟩ :=
    connect_fresh resolvingHost (drawing 7) ⟨[], [], 5004⟩
      (show netCtxFindBySsrc a.connections 7 = none by rw [hempty]; rfl)
  have hconnect : sessionCall resolvingHost a (.connect (drawing 7) ⟨[], [], 5004⟩) =
      .ok (⟨t, a.sockets⟩, (netCtxSend ctx octets true).toList.map fun sent =>
        .command slot sent.1 sent.2) := by
    simp only [sessionCall, hinit, bind, Except.bind, pure, Except.pure]
  refine ⟨a, _, _, octets, hstart, by simp [NumbersUnused, hempty], hconnect, ?_, fun c hc => ?_⟩
  · rw [netCtxSend, if_neg (Nat.ne_of_gt hpacket.isApplemidi.2), if_pos rfl, hcontrol]
    rfl
  · obtain ⟨i, hi⟩ := List.getElem?_of_mem hc
    by_cases hslot : i = slot
    · subst hslot
      cases hregistered.here.symm.trans hi
      exact ⟨hstatus, by rw [hssrc]; decide⟩
    · rw [hregistered.others i hslot, hempty] at hi
      cases hi

/-- The first round of two daemons that have just been started. -/
theorem first_round : ∃ a connected effects s later, ∃ slot : ℕ, ∃ ctx : NetCtx,
    netStateStart resolvingHost = some a ∧ NumbersUnused a.connections 7 1 ∧
    sessionCall resolvingHost a (.connect (drawing 7) ⟨[], [], 5004⟩) = .ok (connected, effects) ∧
    DrawsDistinct 7 ⟨a, connected, datagramsSent effects, []⟩ (.atInvited firstDelivery) ∧
    run (handshakeCall resolvingHost resolvingHost) ⟨a, connected, datagramsSent effects, []⟩
      [.atInvited firstDelivery, .atInviting firstDelivery] = .ok (s, later) ∧
    s.inviting.connections[slot]? = some ctx ∧ ctx.initiator = 1 ∧ ctx.status = .secondInv := by
  obtain ⟨a, connected, effects, octets, hstart, hunused, hconnect, hsent, hnew⟩ := start_invites
  have hvalid := start_valid hstart
  obtain ⟨own, hinv⟩ := connect_inv hvalid hvalid hunused hunused hconnect
  obtain ⟨ctx, hctx, -⟩ := hinv.stage
  have hpacket := connect_sends hunused hconnect (show octets ∈ _ by simp [hsent])
  have hdraws : DrawsDistinct 7 ⟨a, connected, datagramsSent effects, []⟩
      (.atInvited firstDelivery) := fun _ c hc _ => (hnew c hc).2
  obtain ⟨s, later, next, hrun, -, -, hhere, htoken, hwaits, -⟩ :=
    round_advances resolvingHost resolvingHost (drawing 9) hinv (by rw [hsent]; rfl) hpacket hdraws
      hctx
  have hstatus := hwaits (hnew ctx (List.mem_of_getElem? hctx.here)).1
  exact ⟨a, connected, effects, s, later, own, next, hstart, hunused, hconnect, hdraws, hrun, hhere,
    htoken, hstatus⟩

/-- Whatever becomes of the datagrams after an invitation, as soon as the inviting side has
had an OK the two sides agree on the session. -/
theorem handshake_agrees {invitedHost invitingHost : NetHost} {a b connected : NetState}
    {moment : NetMoment} {foundService : FoundService} {effects later : List NetEffect}
    {calls : List HandshakeCall} {s : Handshake} (ha : a.Valid) (hb : b.Valid)
    (hinvited : NumbersUnused a.connections (moment.random 0) (moment.random 1))
    (hinviting : NumbersUnused b.connections (moment.random 0) (moment.random 1))
    (hconnect : sessionCall invitingHost b (.connect moment foundService) =
      .ok (connected, effects))
    (hdraws : Along (handshakeCall invitedHost invitingHost) (DrawsDistinct (moment.random 0))
      ⟨a, connected, datagramsSent effects, []⟩ calls)
    (hrun : run (handshakeCall invitedHost invitingHost)
      ⟨a, connected, datagramsSent effects, []⟩ calls = .ok (s, later))
    {slot : ℕ} {ctx : NetCtx} (hctx : s.inviting.connections[slot]? = some ctx)
    (htoken : ctx.initiator = moment.random 1)
    (hstatus : ctx.status = .secondInv ∨ ctx.status = .remoteConnection) : Agreed s slot ctx := by
  obtain ⟨own, hstart⟩ := connect_inv ha hb hinvited hinviting hconnect
  have hstep : ∀ s call t (now : List NetEffect),
      HandshakeInv (moment.random 0) (moment.random 1) own s →
      DrawsDistinct (moment.random 0) s call →
      handshakeCall invitedHost invitingHost s call = .ok (t, now) →
      HandshakeInv (moment.random 0) (moment.random 1) own t ∧ ∀ effect ∈ now, True := by
    intro s call t now h hdraws hok
    cases call with
    | atInvited delivery => exact ⟨atInvited_inv h hdraws hok, fun _ _ => trivial⟩
    | atInviting delivery => exact ⟨atInviting_inv h hok, fun _ _ => trivial⟩
  exact (run_preserves hstep hstart hdraws hrun).1.agreed hctx htoken hstatus

/-- The INV arrives, and so does the OK for it: the inviting side waits for the second OK. -/
theorem handshake_agrees_first : ∃ a connected effects s later slot ctx,
    netStateStart resolvingHost = some a ∧
    sessionCall resolvingHost a (.connect (drawing 7) ⟨[], [], 5004⟩) = .ok (connected, effects) ∧
    run (handshakeCall resolvingHost resolvingHost) ⟨a, connected, datagramsSent effects, []⟩
      [.atInvited firstDelivery, .atInviting firstDelivery] = .ok (s, later) ∧
    ctx.status = .secondInv ∧ Agreed s slot ctx := by
  obtain ⟨a, connected, effects, s, later, slot, ctx, hstart, hunused, hconnect, hdraws, hrun,
    hhere, htoken, hstatus⟩ := first_round
  have hvalid := start_valid hstart
  have halong : Along (handshakeCall resolvingHost resolvingHost) (DrawsDistinct 7)
      ⟨a, connected, datagramsSent effects, []⟩
      [.atInvited firstDelivery, .atInviting firstDelivery] :=
    ⟨hdraws, fun _ _ _ => ⟨trivial, fun _ _ _ => trivial⟩⟩
  exact ⟨a, connected, effects, s, later, slot, ctx, hstart, hconnect, hrun, hstatus,
    handshake_agrees hvalid hvalid hunused hunused hconnect halong hrun hhere htoken
      (.inl hstatus)⟩

/-- Whatever has become of the datagrams after an invitation, the session can still be set up:
at most four of those sent have to arrive, and then the inviting side synchronises. -/
theorem handshake_completes {invitedHost invitingHost : NetHost} {a b connected : NetState}
    {moment : NetMoment} {foundService : FoundService} {effects earlier : List NetEffect}
    {calls : List HandshakeCall} {s : Handshake} (ha : a.Valid) (hb : b.Valid)
    (hinvited : NumbersUnused a.connections (moment.random 0) (moment.random 1))
    (hinviting : NumbersUnused b.connections (moment.random 0) (moment.random 1))
    (hconnect : sessionCall invitingHost b (.connect moment foundService) =
      .ok (connected, effects))
    (hsent : datagramsSent effects ≠ [])
    (hdraws : Along (handshakeCall invitedHost invitingHost) (DrawsDistinct (moment.random 0))
      ⟨a, connected, datagramsSent effects, []⟩ calls)
    (hrun : run (handshakeCall invitedHost invitingHost)
      ⟨a, connected, datagramsSent effects, []⟩ calls = .ok (s, earlier))
    {fresh : NetMoment} (hfresh : ∀ ctx ∈ s.inviting.connections, netCtxIsUsed ctx = true →
      ctx.ssrc ≠ fresh.random 0) :
    ∃ later t more, ∃ slot : ℕ, ∃ ctx last : NetCtx, later.length ≤ 4 ∧
      run (handshakeCall invitedHost invitingHost) s later = .ok (t, more) ∧
      s.inviting.connections[slot]? = some ctx ∧
      (ctx.status = .remoteConnection ∨ .syncStart ∈ more) ∧
      t.inviting.connections[slot]? = some last ∧ last.initiator = moment.random 1 ∧
      last.status = .remoteConnection := by
  obtain ⟨own, hstart⟩ := connect_inv ha hb hinvited hinviting hconnect
  obtain ⟨octets, rest, hoctets⟩ := List.exists_cons_of_ne_nil hsent
  have hinv : InvPacket netApplemidiCmdInv (moment.random 0) (moment.random 1) octets :=
    connect_sends hinviting hconnect (by simp [hoctets])
  have hstep : ∀ s call t (now : List NetEffect),
      HandshakeInv (moment.random 0) (moment.random 1) own s ∧ s.toInvited[0]? = some octets →
      DrawsDistinct (moment.random 0) s call →
      handshakeCall invitedHost invitingHost s call = .ok (t, now) →
      (HandshakeInv (moment.random 0) (moment.random 1) own t ∧ t.toInvited[0]? = some octets) ∧
        ∀ effect ∈ now, True := by
    intro s call t now ⟨h, hfirst⟩ hdraws hok
    have hkept := first_kept hok hfirst
    cases call with
    | atInvited delivery => exact ⟨⟨atInvited_inv h hdraws hok, hkept⟩, fun _ _ => trivial⟩
    | atInviting delivery => exact ⟨⟨atInviting_inv h hok, hkept⟩, fun _ _ => trivial⟩
  obtain ⟨⟨h, hfirst⟩, -⟩ := run_preserves hstep ⟨hstart, by simp [hoctets]⟩ hdraws hrun
  obtain ⟨later, t, more, ctx, last, hlen, hlater, hhere, hsync, hlast⟩ :=
    session_completes invitedHost invitingHost h hfirst hinv hfresh
  exact ⟨later, t, more, own, ctx, last, hlen, hlater, hhere, hsync, hlast⟩

/-- Nothing has arrived yet: the INV that was sent is all that the two sides need. -/
theorem handshake_completes_start : ∃ a connected effects later t more, ∃ slot : ℕ,
    ∃ last : NetCtx, netStateStart resolvingHost = some a ∧
    sessionCall resolvingHost a (.connect (drawing 7) ⟨[], [], 5004⟩) = .ok (connected, effects) ∧
    later.length ≤ 4 ∧ run (handshakeCall resolvingHost resolvingHost)
      ⟨a, connected, datagramsSent effects, []⟩ later = .ok (t, more) ∧
    t.inviting.connections[slot]? = some last ∧ last.initiator = 1 ∧
    last.status = .remoteConnection := by
  obtain ⟨a, connected, effects, octets, hstart, hunused, hconnect, hsent, hnew⟩ := start_invites
  have hvalid := start_valid hstart
  have halong : Along (handshakeCall resolvingHost resolvingHost) (DrawsDistinct 7)
      ⟨a, connected, datagramsSent effects, []⟩ [] := trivial
  obtain ⟨later, u, more, slot, -, last, hlen, hlater, -, -, hlast⟩ :=
    handshake_completes hvalid hvalid hunused hunused hconnect (by simp [hsent]) halong
      (run_nil _ _) fun ctx hctx _ => (hnew ctx hctx).2
  exact ⟨a, connected, effects, later, u, more, slot, last, hstart, hconnect, hlen, hlater, hlast⟩

end RaveloxMidi
