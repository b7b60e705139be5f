import RaveloxMidi.JournalFeedback

/-!
# The token of an acceptance

An OK is made from the context that the table has for the SSRC of an invitation. A
context that has just been registered has the token of that invitation; one that was
there before keeps the token it was registered with, and the side that has drawn a
new one does not know the OK as an answer to it.
-/
namespace RaveloxMidi
open ByteMemory

/-- An instance that has sent an invitation with some token, and whose table holds the
context of it, finds that context by an OK as its reader delivers it. -/
def RecognisesAnswer (initiator : UInt32) (okPacket : NetApplemidiInv) : Prop :=
  ∀ (host : NetHost) (moment : NetMoment) (connections : List NetCtx) (slot : ℕ) (ctx : NetCtx),
    netCtxFindByInitiator connections initiator = some (slot, ctx) →
    applemidiOkResponder host moment connections (some okPacket) =
      (applemidiOkAdvance host moment slot ctx okPacket).map fun advanced =>
        (connections.set slot advanced.1, advanced.2)

/-- The OK for an invitation carries its token, and the instance that sent it takes the OK
as the answer. -/
def AnswersInvitation (host : NetHost) (moment : NetMoment) (connections : List NetCtx)
    (ipAddress : List UInt8) (port : UInt16) (inv : NetApplemidiInv) : Prop :=
  ∃ t octets ssrc,
    applemidiInvResponder host moment connections ipAddress port (some inv) =
      .ok (t, some octets) ∧
    InvPacket netApplemidiCmdAccept ssrc inv.initiator octets ∧
    ∀ beyond, ∃ okPacket,
      (netApplemidiUnpack ⟨octets.take netApplemidiUdpSize, beyond⟩).command =
        some ⟨0xffff, netApplemidiCmdAccept, .inv okPacket⟩ ∧
      okPacket.ssrc = ssrc ∧ RecognisesAnswer inv.initiator okPacket

/-- The token decides which context an OK is for. -/
theorem recognises_token {initiator : UInt32} {okPacket : NetApplemidiInv}
    (h : okPacket.initiator = initiator) : RecognisesAnswer initiator okPacket := by
  intro host moment connections slot ctx hfind
  subst h
  simp only [applemidiOkResponder, hfind, bind, Except.bind]
  cases applemidiOkAdvance host moment slot ctx okPacket <;> rfl

/-- The octets of a command of the invitation family have one token. -/
theorem invPacket_token {command : UInt16} (hcommand : IsInvCommand command)
    {ssrc ssrc' initiator initiator' : UInt32} {packet : List UInt8}
    (h : InvPacket command ssrc initiator packet)
    (h' : InvPacket command ssrc' initiator' packet) : initiator = initiator' := by
  obtain ⟨version, name, hread⟩ := h.unpack hcommand []
  obtain ⟨version', name', hread'⟩ := h'.unpack hcommand []
  rw [hread] at hread'
  cases hread'
  rfl

/-- What the reader of the other side makes of an OK of any length. -/
theorem accept_read {ssrc initiator : UInt32} {octets : List UInt8}
    (h : InvPacket netApplemidiCmdAccept ssrc initiator octets) (beyond : List UInt8) :
    ∃ okPacket, (netApplemidiUnpack ⟨octets.take netApplemidiUdpSize, beyond⟩).command =
        some ⟨0xffff, netApplemidiCmdAccept, .inv okPacket⟩ ∧
      okPacket.ssrc = ssrc ∧ okPacket.initiator = initiator := by
  obtain ⟨version, name, hread⟩ :=
    (h.take (netApplemidiUdpSize - 16)).unpack (by decide) beyond
  exact ⟨⟨ssrc, version, initiator, name⟩, hread, rfl, rfl⟩

section Responder
variable (host : NetHost) (moment : NetMoment) (connections : List NetCtx)
  (ipAddress : List UInt8) (port : UInt16) (inv : NetApplemidiInv)

/-- An invitation is always answered, with the token of the context that is found for its
SSRC, or with its own if there is none. -/
theorem responder_token :
    ∃ t octets ssrc, applemidiInvResponder host moment connections ipAddress port (some inv) =
        .ok (t, some octets) ∧
      InvPacket netApplemidiCmdAccept ssrc
        (((netCtxFindBySsrc connections inv.ssrc).map fun found => found.2.initiator).getD
          inv.initiator) octets := by
  cases hfind : netCtxFindBySsrc connections inv.ssrc with
  | some found =>
    obtain ⟨slot, ctx⟩ := found
    obtain ⟨octets, haccept, hpacket⟩ := accept_ok host ctx
    refine ⟨connections, octets, ctx.sendSsrc, ?_, hpacket⟩
    simp only [applemidiInvResponder, applemidiInvContext, hfind, haccept, bind, Except.bind, pure,
      Except.pure]
  | none =>
    obtain ⟨t, slot, ctx, hregister, -, hnew, -⟩ :=
      register_fresh host hfind inv.initiator ipAddress port inv.name (moment.random 0) moment.now
    obtain ⟨octets, haccept, hpacket⟩ := accept_ok host ctx
    rw [hnew.initiator] at hpacket
    refine ⟨t, octets, ctx.sendSsrc, ?_, hpacket⟩
    simp only [applemidiInvResponder, applemidiInvContext, hfind, hregister, haccept, bind,
      Except.bind, pure, Except.pure]

/-- The answer has the token that it should have exactly if the context found has it. -/
theorem answers_of_token :
    AnswersInvitation host moment connections ipAddress port inv ↔
      ((netCtxFindBySsrc connections inv.ssrc).map fun found => found.2.initiator).getD
        inv.initiator = inv.initiator := by
  obtain ⟨t, octets, ssrc, hresponder, hpacket⟩ :=
    responder_token host moment connections ipAddress port inv
  constructor
  · rintro ⟨t', octets', ssrc', hresponder', hpacket', -⟩
    rw [hresponder] at hresponder'
    cases hresponder'
    exact invPacket_token (by decide) hpacket hpacket'
  · intro htoken
    rw [htoken] at hpacket
    refine ⟨t, octets, ssrc, hresponder, hpacket, fun beyond => ?_⟩
    obtain ⟨okPacket, hread, hssrc, hinitiator⟩ := accept_read hpacket beyond
    exact ⟨okPacket, hread, hssrc, recognises_token hinitiator⟩

/-- The OK answers the invitation exactly if the first slot in use that has its SSRC, when
there is one, was registered with its token. -/
theorem answers_invitation_iff :
    AnswersInvitation host moment connections ipAddress port inv ↔
      ∀ slot ctx, netCtxFindBySsrc connections inv.ssrc = some (slot, ctx) →
        ctx.initiator = inv.initiator := by
  rw [answers_of_token]
  cases hfind : netCtxFindBySsrc connections inv.ssrc with
  | none => simp
  | some found =>
    obtain ⟨slot, ctx⟩ := found
    simp

end Responder

/-- A peer that has lost its session without a BY invites again with a new token and is
answered with the old one. -/
theorem reinvitation_not_answered :
    ∃ t octets, applemidiInvResponder quietHost quietMoment [] [] 5004
        (some ⟨9, 2, 1, none⟩) = .ok (t, some octets) ∧
      (∃ t' octets', applemidiInvResponder quietHost quietMoment t [] 5004
          (some ⟨9, 2, 2, none⟩) = .ok (t', some octets') ∧
        InvPacket netApplemidiCmdAccept 0 1 octets') ∧
      ¬ AnswersInvitation quietHost quietMoment t [] 5004 ⟨9, 2, 2, none⟩ := by
  obtain ⟨t, slot, ctx, hregister, hregistered, hnew, -⟩ :=
    register_fresh quietHost (show netCtxFindBySsrc [] 9 = none from rfl) 1 [] 5004 none 0 0
  obtain ⟨octets, haccept, -⟩ := accept_ok quietHost ctx
  have hfirst : applemidiInvResponder quietHost quietMoment [] [] 5004 (some ⟨9, 2, 1, none⟩) =
      .ok (t, some octets) := by
    simp only [applemidiInvResponder, applemidiInvContext, quietMoment, hregister, haccept,
      show netCtxFindBySsrc [] 9 = none from rfl, bind, Except.bind, pure, Except.pure]
  have hfind : netCtxFindBySsrc t 9 = some (slot, ctx) := by
    refine find_iff.mpr ⟨hregistered.here, ?_, fun other hother c hc => ?_⟩
    · simp [netCtxIsUsed, hnew.status, hnew.ssrc]
    · rw [hregistered.others other (Nat.ne_of_lt hother)] at hc
      cases hc
  obtain ⟨octets', haccept', hpacket'⟩ := accept_ok quietHost ctx
  rw [hnew.initiator, hnew.sendSsrc] at hpacket'
  refine ⟨t, octets, hfirst, ⟨t, octets', ?_, hpacket'⟩, fun hanswers => ?_⟩
  · simp only [applemidiInvResponder, applemidiInvContext, hfind, haccept', bind, Except.bind,
      pure, Except.pure]
  · rw [answers_of_token, hfind] at hanswers
    simp [hnew.initiator] at hanswers

end RaveloxMidi
