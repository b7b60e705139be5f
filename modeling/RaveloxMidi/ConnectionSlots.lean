import RaveloxMidi.RemoteConnection
import RaveloxMidi.SlotTable

/-!
# The connection table as a table of slots

A slot of the table is free while its context is unused, and otherwise held by
the SSRC of the peer. Seen so, an INV and an invitation of our own register an
SSRC, a BY releases one, and the OK that answers our first INV renames the slot
to the SSRC that it carries. Nothing else that the daemon does shows.
-/
namespace RaveloxMidi
open ByteMemory Transducer SlotTable

def slotOf (ctx : NetCtx) : Option UInt32 := if netCtxIsUsed ctx then some ctx.ssrc else none

def slotsOf (connections : List NetCtx) : List (Option UInt32) := connections.map slotOf

/-- What an AppleMIDI command does to the slots. -/
def commandOp (connections : List NetCtx) (command : NetApplemidiCommand) : Op UInt32 :=
  match command.data with
  | .inv inv =>
    if command.command = netApplemidiCmdInv then .register inv.ssrc
    else if command.command = netApplemidiCmdAccept then
      match netCtxFindByInitiator connections inv.initiator with
      | some (slot, ctx) => if ctx.status = .firstInv then .rename slot inv.ssrc else .idle
      | none => .idle
    else if command.command = netApplemidiCmdEnd then .release inv.ssrc
    else .idle
  | _ => .idle

def datagramOp (connections : List NetCtx) (d : Datagram) : Op UInt32 :=
  if IsApplemidi d.packet then
    ((netApplemidiUnpack ⟨d.packet, d.beyond⟩).command.map (commandOp connections)).getD .idle
  else .idle

/-- What a call does to the slots. -/
def callOp (s : NetState) : SessionCall → Op UInt32
  | .daemon (.read _ d) => datagramOp s.connections d
  | .daemon (.send _ _ _) => .idle
  | .connect moment _ => .register (moment.random 0)

section Slots
variable {connections : List NetCtx} {slot : ℕ} {old ctx : NetCtx} {ssrc : UInt32}

theorem slotOf_eq_some_iff :
    slotOf ctx = some ssrc ↔ netCtxIsUsed ctx = true ∧ ctx.ssrc = ssrc := by
  simp [slotOf]

theorem slotOf_eq_none_iff : slotOf ctx = none ↔ ctx.status = .unused := by
  simp [slotOf, netCtxIsUsed]

theorem slots_get (connections : List NetCtx) (slot : ℕ) :
    (slotsOf connections)[slot]? = connections[slot]?.map slotOf :=
  List.getElem?_map ..

theorem findBySsrc_none_iff : netCtxFindBySsrc connections ssrc = none ↔
    some ssrc ∉ slotsOf connections := by
  constructor
  · intro hnone hmem
    obtain ⟨ctx, hctx, hslot⟩ := List.mem_map.mp hmem
    have hnot := find_none hnone ctx hctx
    simp [slotOf_eq_some_iff.mp hslot] at hnot
  · intro hnot
    cases hfind : netCtxFindBySsrc connections ssrc with
    | none => rfl
    | some found =>
      obtain ⟨hslot, hwanted⟩ := find_some hfind
      refine absurd (List.mem_map.mpr ⟨found.2, List.mem_of_getElem? hslot, ?_⟩) hnot
      simpa [slotOf_eq_some_iff] using hwanted

/-- A context that keeps its SSRC and stays in use does not show in the slots. -/
theorem slots_set_same (hslot : connections[slot]? = some old) (hsame : slotOf ctx = slotOf old) :
    slotsOf (connections.set slot ctx) = slotsOf connections := by
  obtain ⟨hlt, rfl⟩ := List.getElem?_eq_some_iff.mp hslot
  rw [slotsOf, List.map_set, hsame, ← List.map_set, List.set_getElem_self]
  rfl

theorem slots_fill_unused (hunused : netCtxFindUnused connections = some (slot, old))
    (hctx : slotOf ctx = some ssrc) :
    slotsOf (connections.set slot ctx) = fill ssrc (slotsOf connections) := by
  induction connections generalizing slot with
  | nil => cases hunused
  | cons first rest ih =>
    simp only [netCtxFindUnused, netCtxFind] at hunused
    split_ifs at hunused with hfirst
    · cases hunused
      have hfree : slotOf old = none := slotOf_eq_none_iff.mpr (by simpa using hfirst)
      simp [slotsOf, hfree, hctx, fill]
    · obtain ⟨⟨other, ctx'⟩, hrest, heq⟩ := Option.map_eq_some_iff.mp hunused
      cases heq
      have hheld : slotOf first = some first.ssrc := by
        simpa [slotOf_eq_some_iff, netCtxIsUsed] using hfirst
      have hlater := ih hrest
      simp only [slotsOf] at hlater
      simp [slotsOf, hheld, hlater, fill]

theorem slots_fill_new (hunused : netCtxFindUnused connections = none)
    (hctx : slotOf ctx = some ssrc) :
    slotsOf (connections ++ [ctx]) = fill ssrc (slotsOf connections) := by
  induction connections with
  | nil => simp [slotsOf, hctx, fill]
  | cons first rest ih =>
    simp only [netCtxFindUnused, netCtxFind] at hunused
    split_ifs at hunused with hfirst
    have hheld : slotOf first = some first.ssrc := by
      simpa [slotOf_eq_some_iff, netCtxIsUsed] using hfirst
    have hlater := ih (Option.map_eq_none_iff.mp hunused)
    simp only [slotsOf] at hlater
    simp [slotsOf, hheld, hlater, fill]

theorem slots_release (hfind : netCtxFindBySsrc connections ssrc = some (slot, old))
    (hctx : slotOf ctx = none) :
    slotsOf (connections.set slot ctx) = release ssrc (slotsOf connections) := by
  induction connections generalizing slot with
  | nil => cases hfind
  | cons first rest ih =>
    simp only [netCtxFindBySsrc, netCtxFind] at hfind
    split_ifs at hfind with hfirst
    · cases hfind
      have hheld : slotOf old = some ssrc := by simpa [slotOf_eq_some_iff] using hfirst
      simp [slotsOf, hheld, hctx, release]
    · obtain ⟨⟨other, ctx'⟩, hrest, heq⟩ := Option.map_eq_some_iff.mp hfind
      cases heq
      have hother : slotOf first ≠ some ssrc := by simpa [slotOf_eq_some_iff] using hfirst
      have hlater := ih hrest
      simp only [slotsOf] at hlater
      simp [slotsOf, hother, hlater, release]

theorem slots_rename (hslot : connections[slot]? = some old) (hused : netCtxIsUsed old = true)
    (hctx : slotOf ctx = some ssrc) :
    slotsOf (connections.set slot ctx) = rename slot ssrc (slotsOf connections) := by
  have hlt := (List.getElem?_eq_some_iff.mp hslot).1
  have hheld : slotOf old = some old.ssrc := slotOf_eq_some_iff.mpr ⟨hused, rfl⟩
  refine List.ext_getElem? fun i => ?_
  rw [slots_get, rename, List.getElem?_modify, slots_get]
  by_cases hi : slot = i
  · subst hi
    rw [List.getElem?_set_self hlt, hslot]
    simp [hheld, hctx]
  · rw [List.getElem?_set_ne hi]
    simp [hi]

end Slots

section Calls
variable {host : NetHost} {moment : NetMoment} {connections t : List NetCtx}
  {effects : List NetEffect}

theorem register_slots (host : NetHost) (connections : List NetCtx) (ssrc initiator : UInt32)
    (ipAddress : List UInt8) (port : UInt16) (name : Option (List UInt8)) (random : UInt32)
    (now : UInt64) :
    slotsOf (netCtxRegister host connections ssrc initiator ipAddress port name random now).1 =
      register ssrc (slotsOf connections) := by
  unfold netCtxRegister register
  cases hfind : netCtxFindBySsrc connections ssrc with
  | some found =>
    have hmem : some ssrc ∈ slotsOf connections := by
      by_contra hnot
      rw [findBySsrc_none_iff.mpr hnot] at hfind
      cases hfind
    rw [if_pos hmem]
  | none =>
    rw [if_neg (findBySsrc_none_iff.mp hfind)]
    cases hunused : netCtxFindUnused connections with
    | some found => exact slots_fill_unused hunused rfl
    | none =>
      obtain ⟨created, hcreated, -⟩ := exists_created host
      rw [hcreated]
      exact slots_fill_new hunused rfl

theorem invResponder_slots {ipAddress : List UInt8} {port : UInt16} {inv : NetApplemidiInv}
    {answer : Option (List UInt8)}
    (hok : applemidiInvResponder host moment connections ipAddress port (some inv) =
      .ok (t, answer)) : slotsOf t = register inv.ssrc (slotsOf connections) := by
  have hcontext : slotsOf (applemidiInvContext host moment connections ipAddress port inv).1 =
      register inv.ssrc (slotsOf connections) := by
    unfold applemidiInvContext
    cases hfind : netCtxFindBySsrc connections inv.ssrc with
    | some found =>
      have hregister := register_slots host connections inv.ssrc inv.initiator ipAddress port
        inv.name (moment.random 0) moment.now
      rw [netCtxRegister, hfind] at hregister
      exact hregister
    | none => exact register_slots ..
  simp only [applemidiInvResponder] at hok
  split at hok
  · cases hok
    exact hcontext
  · obtain ⟨answer, -, hok⟩ := bind_ok hok
    cases hok
    exact hcontext

theorem okResponder_slots {signature : UInt16} {inv : NetApplemidiInv}
    (hok : applemidiOkResponder host moment connections (some inv) = .ok (t, effects)) :
    slotsOf t = (commandOp connections ⟨signature, netApplemidiCmdAccept, .inv inv⟩).apply
      (slotsOf connections) := by
  have hop : commandOp connections ⟨signature, netApplemidiCmdAccept, .inv inv⟩ =
      match netCtxFindByInitiator connections inv.initiator with
      | some (slot, ctx) => if ctx.status = .firstInv then .rename slot inv.ssrc else .idle
      | none => .idle := rfl
  rw [hop]
  simp only [applemidiOkResponder] at hok
  cases hfind : netCtxFindByInitiator connections inv.initiator with
  | none =>
    rw [hfind] at hok
    cases hok
    rfl
  | some found =>
    obtain ⟨slot, ctx⟩ := found
    obtain ⟨hslot, hwanted⟩ := find_some hfind
    have hused := (Bool.and_eq_true_iff.mp hwanted).1
    rw [hfind] at hok
    obtain ⟨⟨next, sent⟩, hadvance, hok⟩ := bind_ok hok
    cases hok
    dsimp only
    cases okAdvance_outcome hadvance with
    | first hfirst =>
      rw [if_pos hfirst]
      exact slots_rename hslot hused rfl
    | second hsecond =>
      rw [if_neg (by simp [hsecond])]
      refine slots_set_same hslot ?_
      simp [slotOf, netCtxIsUsed, hsecond]
    | other hfirst =>
      rw [if_neg hfirst]
      exact slots_set_same hslot rfl

theorem byResponder_slots (connections : List NetCtx) (inv : NetApplemidiInv) :
    slotsOf (applemidiByResponder connections (some inv)) =
      release inv.ssrc (slotsOf connections) := by
  simp only [applemidiByResponder]
  cases hfind : netCtxFindBySsrc connections inv.ssrc with
  | none => exact (release_absent (findBySsrc_none_iff.mp hfind)).symm
  | some found => exact slots_release hfind rfl

theorem feedbackResponder_slots (connections : List NetCtx) (data : Option NetApplemidiFeedback) :
    slotsOf (applemidiFeedbackResponder connections data) = slotsOf connections := by
  cases data with
  | none => rfl
  | some feedback =>
    simp only [applemidiFeedbackResponder, applemidiFeedbackResets]
    cases hfind : netCtxFindBySsrc connections feedback.ssrc with
    | none => rfl
    | some found =>
      dsimp only
      split_ifs
      · exact slots_set_same (find_some hfind).1 rfl
      · rfl

theorem dispatch_slots {d : Datagram} {command : NetApplemidiCommand}
    (hok : netSocketDispatch host moment connections d command = .ok (t, effects)) :
    slotsOf t = (commandOp connections command).apply (slotsOf connections) := by
  obtain ⟨signature, code, data⟩ := command
  unfold netSocketDispatch at hok
  dsimp only at hok
  split_ifs at hok with hinv haccept hend hsync hfeedback
  · subst hinv
    obtain ⟨data', hdata, hok⟩ := bind_ok hok
    obtain ⟨answered, hanswered, hok⟩ := bind_ok hok
    cases hok
    cases data <;> cases hdata
    · cases hanswered
      rfl
    · exact invResponder_slots hanswered
  · subst haccept
    obtain ⟨data', hdata, hok⟩ := bind_ok hok
    cases data <;> cases hdata
    · cases hok
      rfl
    · exact okResponder_slots hok
  · subst hend
    obtain ⟨data', hdata, hok⟩ := bind_ok hok
    cases hok
    cases data <;> cases hdata
    · rfl
    · exact byResponder_slots ..
  · subst hsync
    obtain ⟨data', -, hok⟩ := bind_ok hok
    obtain ⟨answer, -, hok⟩ := bind_ok hok
    cases hok
    cases data <;> rfl
  · subst hfeedback
    obtain ⟨data', -, hok⟩ := bind_ok hok
    cases hok
    rw [feedbackResponder_slots]
    cases data <;> rfl
  · cases hok
    cases data with
    | inv inv => simp only [commandOp, if_neg hinv, if_neg haccept, if_neg hend]; rfl
    | _ => rfl

theorem rtp_slots {d : Datagram} {buffer : Option (List UInt8)}
    (hok : netSocketRtp connections d buffer = .ok (t, effects)) :
    slotsOf t = slotsOf connections := by
  obtain ⟨packet, -, hok⟩ := bind_ok hok
  split_ifs at hok
  · cases hok
    rfl
  · obtain ⟨payload, -, hok⟩ := bind_ok hok
    split at hok
    · cases hok
      rfl
    · next slot ctx hfind =>
      cases payload with
      | none => cases hok
      | some payload =>
        obtain ⟨state, -, hok⟩ := bind_ok hok
        obtain ⟨response, -, hok⟩ := bind_ok hok
        obtain ⟨sent, -, hok⟩ := bind_ok hok
        cases hok
        exact slots_set_same (find_some hfind).1 rfl

/-- What a datagram does to the slots is seen from its own octets. -/
theorem read_slots {s u : NetState} (h : s.Valid) {d : Datagram}
    (hmax : d.packet.length ≤ netApplemidiUdpSize)
    (hok : netSocketRead host moment s d = .ok (u, effects)) :
    slotsOf u.connections = (datagramOp s.connections d).apply (slotsOf s.connections) := by
  by_cases hpos : 0 < d.packet.length
  · obtain ⟨state, p, size, -, -, hread⟩ := read_eq h host moment hpos hmax
    rw [hread] at hok
    obtain ⟨handled, hhandled, heq⟩ := map_ok hok
    cases heq
    unfold datagramOp
    split_ifs at hhandled ⊢
    · simp only [netSocketApplemidi, Option.bind_some] at hhandled
      split at hhandled
      · cases hhandled
      · next command hcommand =>
        obtain ⟨done, hdispatch, hok⟩ := bind_ok hhandled
        obtain ⟨-, -, hok⟩ := bind_ok hok
        cases hok
        rw [hcommand]
        exact dispatch_slots hdispatch
    · exact rtp_slots hhandled
  · have hempty : d.packet = [] := List.eq_nil_of_length_eq_zero (by omega)
    have hidle : datagramOp s.connections d = .idle := by
      simp [datagramOp, IsApplemidi, hempty]
    rw [netSocketRead, if_pos (by rw [hempty, List.length_nil])] at hok
    cases hok
    rw [hidle]
    rfl

theorem send_slots {s u : NetState} {clock : ℕ → UInt64} {command : MidiCommand}
    {originator : UInt32}
    (hok : sessionCall host s (.daemon (.send clock command originator)) = .ok (u, effects)) :
    slotsOf u.connections = slotsOf s.connections := by
  obtain ⟨sent, hsent, hok⟩ := bind_ok hok
  cases hok
  obtain ⟨hlength, hspec⟩ := sendSingle_spec hsent
  refine List.ext_getElem? fun i => ?_
  rw [slots_get, slots_get]
  cases hctx : s.connections[i]? with
  | none =>
    have hend := List.getElem?_eq_none_iff.mp hctx
    rw [← hlength] at hend
    rw [List.getElem?_eq_none hend]
  | some ctx =>
    obtain ⟨ctx', hctx', hserved⟩ := hspec i ctx hctx
    rw [hctx', Option.map_some, Option.map_some, slotOf, slotOf, netCtxIsUsed, netCtxIsUsed,
      hserved.same.status, hserved.same.ssrc]

theorem connect_slots {foundService : FoundService}
    (hok : remoteConnectInit host moment connections foundService = .ok (t, effects)) :
    slotsOf t = register (moment.random 0) (slotsOf connections) := by
  obtain ⟨octets, hpack, -⟩ := responseInv_ok (moment.random 0) (moment.random 1)
    (some (host.serviceName.getD defaultClientName))
  have hregister := register_slots host connections (moment.random 0) (moment.random 1)
    foundService.ipAddress foundService.port (some foundService.name) (moment.random 2) moment.now
  simp only [remoteConnectInit, hpack, bind, Except.bind, pure, Except.pure] at hok
  split at hok
  · cases hok
    exact hregister
  · next slot ctx hregistered =>
    cases hok
    obtain ⟨hslot, hused⟩ := register_slot (Prod.ext rfl hregistered)
    rw [← hregister]
    refine slots_set_same hslot ?_
    simp [slotOf, netCtxIsUsed] at hused ⊢
    exact hused

/-- Every call of the daemon is one operation on the slots. -/
theorem call_slots {s u : NetState} (h : s.Valid) {call : SessionCall} (hfits : call.Fits)
    (hok : sessionCall host s call = .ok (u, effects)) :
    slotsOf u.connections = (callOp s call).apply (slotsOf s.connections) := by
  cases call with
  | daemon call =>
    cases call with
    | read moment d => exact read_slots h hfits hok
    | send clock command originator => exact send_slots hok
  | connect moment foundService =>
    obtain ⟨connected, hconnected, hok⟩ := bind_ok hok
    cases hok
    exact connect_slots hconnected

end Calls

end RaveloxMidi
