import RaveloxMidi.SlotReuse

/-!
# The limit of connections

The configuration documents a maximum number of incoming connections. Nothing on
the way of an INV asks for it: the SSRC is looked for, then an unused slot, and
then the table grows.
-/
namespace RaveloxMidi
open ByteMemory Transducer SlotTable

/-- `network.max_connections` as it is documented. -/
def maxConnections (configured : Option ℕ) : ℕ := configured.getD 8

/-- The call reads an INV or a BY. -/
def InvOrBy : SessionCall → Prop
  | .daemon (.read _ d) => d.packet.length ≤ netApplemidiUdpSize ∧ ∃ ssrc initiator,
    InvPacket netApplemidiCmdInv ssrc initiator d.packet ∨
      InvPacket netApplemidiCmdEnd ssrc initiator d.packet
  | _ => False

/-- An INV for one more connection than there may be. -/
def BeyondLimit (limit : ℕ) (s : NetState) : SessionCall → Prop
  | .daemon (.read _ d) => ∃ ssrc initiator, InvPacket netApplemidiCmdInv ssrc initiator d.packet ∧
    netCtxFindBySsrc s.connections ssrc = none ∧ limit ≤ inUse s.connections
  | _ => False

/-- Such an INV is not answered with an OK. -/
def RefusesBeyond (host : NetHost) (limit : ℕ) (s : NetState) (call : SessionCall) : Prop :=
  BeyondLimit limit s call → ∀ t effects, sessionCall host s call = .ok (t, effects) →
    ∀ octets, .reply octets ∈ effects →
      ∀ ssrc initiator, ¬ InvPacket netApplemidiCmdAccept ssrc initiator octets

theorem InvOrBy.fits {call : SessionCall} (h : InvOrBy call) : call.Fits := by
  cases call with
  | daemon call =>
    cases call with
    | read moment d => exact h.1
    | send => exact h.elim
  | connect => exact h.elim

section Ops
variable (connections : List NetCtx) {d : Datagram} {ssrc initiator : UInt32}

theorem datagramOp_inv (h : InvPacket netApplemidiCmdInv ssrc initiator d.packet) :
    datagramOp connections d = .register ssrc := by
  obtain ⟨version, name, hunpack⟩ := h.unpack (by decide) d.beyond
  rw [datagramOp, if_pos h.isApplemidi.1, hunpack]
  rfl

theorem datagramOp_end (h : InvPacket netApplemidiCmdEnd ssrc initiator d.packet) :
    datagramOp connections d = .release ssrc := by
  obtain ⟨version, name, hunpack⟩ := h.unpack (by decide) d.beyond
  rw [datagramOp, if_pos h.isApplemidi.1, hunpack]
  rfl

end Ops

/-- An INV or a BY keeps the limit exactly if it is not an INV beyond it. -/
theorem call_limit_iff (host : NetHost) (limit : ℕ) {s : NetState} (h : s.Valid)
    (hlimit : inUse s.connections ≤ limit) {call : SessionCall} (hcall : InvOrBy call) :
    (∀ t effects, sessionCall host s call = .ok (t, effects) → inUse t.connections ≤ limit) ↔
      ¬ BeyondLimit limit s call := by
  have hslots : ∀ t effects, sessionCall host s call = .ok (t, effects) →
      inUse t.connections = occupied ((callOp s call).apply (slotsOf s.connections)) := by
    intro t effects hok
    rw [← occupied_slots, call_slots h hcall.fits hok]
  cases call with
  | connect => exact hcall.elim
  | daemon call =>
    cases call with
    | send => exact hcall.elim
    | read moment d =>
      obtain ⟨hmax, ssrc, initiator, hpacket⟩ := hcall
      constructor
      · rintro hkept ⟨ssrc, initiator, hinv, hfind, hfull⟩
        obtain ⟨t, slot, ctx, sockets, octets, hread, -⟩ :=
          read_unknown h host moment hmax hinv hfind
        have hle := hkept _ _ hread
        rw [hslots _ _ hread, callOp, datagramOp_inv s.connections hinv, Op.apply, register,
          if_neg (findBySsrc_none_iff.mp hfind), occupied_fill, occupied_slots] at hle
        omega
      · intro hwithin t effects hok
        rw [hslots t effects hok]
        rcases hpacket with hinv | hend
        · rw [callOp, datagramOp_inv s.connections hinv, Op.apply, register]
          split_ifs with hknown
          · rwa [occupied_slots]
          · rw [occupied_fill, occupied_slots]
            have hroom : ¬ limit ≤ inUse s.connections := fun hfull =>
              hwithin ⟨ssrc, initiator, hinv, findBySsrc_none_iff.mpr hknown, hfull⟩
            omega
        · rw [callOp, datagramOp_end s.connections hend, Op.apply]
          have hle := occupied_release ssrc (slotsOf s.connections)
          rw [occupied_slots] at hle
          exact le_trans hle hlimit

/-- In a run of INV and BY messages the documented limit is kept, and no INV beyond it is
accepted, if and only if there is no INV beyond it. -/
theorem limit_kept_iff {host : NetHost} {s : NetState} (hstart : netStateStart host = some s)
    {calls : List SessionCall} (hcalls : ∀ call ∈ calls, InvOrBy call) (configured : Option ℕ) :
    ((∀ t, Reaches (sessionCall host) s calls t →
        inUse t.connections ≤ maxConnections configured) ∧
      Along (sessionCall host) (RefusesBeyond host (maxConnections configured)) s calls) ↔
      Along (sessionCall host) (fun s call => ¬ BeyondLimit (maxConnections configured) s call)
        s calls := by
  have hempty : inUse s.connections ≤ maxConnections configured := by
    rw [start_connections hstart]
    exact Nat.zero_le _
  have hkept : (∀ t, Reaches (sessionCall host) s calls t →
      inUse t.connections ≤ maxConnections configured) ↔
      Along (sessionCall host) (fun s call => ¬ BeyondLimit (maxConnections configured) s call)
        s calls :=
    safe_iff (fun _ _ _ _ hvalid hcall hok => call_valid hvalid hcall.fits hok)
      (fun _ _ hvalid hlimit hcall => call_limit_iff host _ hvalid hlimit hcall)
      (start_valid hstart) hempty hcalls
  constructor
  · exact fun h => hkept.mp h.1
  · exact fun h => ⟨hkept.mpr h, along_mono (fun _ _ hwithin hbeyond => absurd hbeyond hwithin) h⟩

/-- An INV from an SSRC, with the same number for a token. -/
def inviteDatagram (ssrc : UInt32) : Datagram :=
  ⟨.control, [], 5004, commandOctets 0xffff netApplemidiCmdInv ++ invOctets ⟨ssrc, 2, ssrc, none⟩,
    []⟩

theorem inviteDatagram_packet (ssrc : UInt32) :
    InvPacket netApplemidiCmdInv ssrc ssrc (inviteDatagram ssrc).packet ∧
      (inviteDatagram ssrc).packet.length ≤ netApplemidiUdpSize :=
  ⟨.packed netApplemidiCmdInv ⟨ssrc, 2, ssrc, none⟩,
    by simp [inviteDatagram, commandOctets, invOctets, netApplemidiUdpSize]⟩

def invites (ssrcs : List UInt32) : List SessionCall :=
  ssrcs.map fun ssrc => .daemon (.read quietMoment (inviteDatagram ssrc))

theorem invites_invOrBy (ssrcs : List UInt32) : ∀ call ∈ invites ssrcs, InvOrBy call := by
  intro call hcall
  obtain ⟨ssrc, -, rfl⟩ := List.mem_map.mp hcall
  obtain ⟨hpacket, hmax⟩ := inviteDatagram_packet ssrc
  exact ⟨hmax, ssrc, ssrc, .inl hpacket⟩

theorem limit_kept_iff_invite : ∃ s, netStateStart quietHost = some s ∧
    (((∀ t, Reaches (sessionCall quietHost) s (invites [7]) t →
        inUse t.connections ≤ maxConnections none) ∧
      Along (sessionCall quietHost) (RefusesBeyond quietHost (maxConnections none)) s
        (invites [7])) ↔
      Along (sessionCall quietHost) (fun s call => ¬ BeyondLimit (maxConnections none) s call) s
        (invites [7])) := by
  obtain ⟨s, hstart⟩ : ∃ s, netStateStart quietHost = some s := ⟨_, rfl⟩
  exact ⟨s, hstart, limit_kept_iff hstart (invites_invOrBy [7]) none⟩

/-- Every INV is answered, and registers its SSRC. -/
theorem invites_run (host : NetHost) (ssrcs : List UInt32) {s : NetState} (h : s.Valid) :
    ∃ t effects, run (sessionCall host) s (invites ssrcs) = .ok (t, effects) ∧
      slotsOf t.connections =
        ssrcs.foldl (fun slots ssrc => register ssrc slots) (slotsOf s.connections) := by
  induction ssrcs generalizing s with
  | nil => exact ⟨s, [], rfl, rfl⟩
  | cons ssrc rest ih =>
    obtain ⟨hpacket, hmax⟩ := inviteDatagram_packet ssrc
    have hfits : (SessionCall.daemon (.read quietMoment (inviteDatagram ssrc))).Fits := hmax
    obtain ⟨t, effects, hread⟩ : ∃ t effects,
        sessionCall host s (.daemon (.read quietMoment (inviteDatagram ssrc))) =
          .ok (t, effects) := by
      cases hfind : netCtxFindBySsrc s.connections ssrc with
      | some found =>
        obtain ⟨sockets, octets, hread, -⟩ := read_known h host quietMoment hmax hpacket hfind
        exact ⟨_, _, hread⟩
      | none =>
        obtain ⟨t, slot, ctx, sockets, octets, hread, -⟩ :=
          read_unknown h host quietMoment hmax hpacket hfind
        exact ⟨_, _, hread⟩
    have hslots := call_slots h hfits hread
    rw [callOp, datagramOp_inv s.connections hpacket, Op.apply] at hslots
    obtain ⟨u, later, hrun, hlast⟩ := ih (call_valid h hfits hread)
    refine ⟨u, effects ++ later, run_cons_ok hread hrun, ?_⟩
    rw [hlast, hslots, List.foldl_cons]

/-- Nine peers invite the daemon, with no limit configured: nine connections are in use. -/
theorem ninth_invite_accepted : ∃ s t effects, netStateStart quietHost = some s ∧
    run (sessionCall quietHost) s (invites [1, 2, 3, 4, 5, 6, 7, 8, 9]) = .ok (t, effects) ∧
    maxConnections none < inUse t.connections := by
  obtain ⟨s, hstart⟩ : ∃ s, netStateStart quietHost = some s := ⟨_, rfl⟩
  obtain ⟨t, effects, hrun, hslots⟩ :=
    invites_run quietHost [1, 2, 3, 4, 5, 6, 7, 8, 9] (start_valid hstart)
  refine ⟨s, t, effects, hstart, hrun, ?_⟩
  rw [← occupied_slots, hslots, start_connections hstart]
  decide

end RaveloxMidi
