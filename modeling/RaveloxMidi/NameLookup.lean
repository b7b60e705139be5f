import RaveloxMidi.SsrcUnique

/-!
# Looking a connection up by its name

An invitation may come without a name, and its context then has none. The lookup
compares the name of every slot in use with the one it wants, up to the first that is
equal, and does not ask whether there is one to compare.
-/
namespace RaveloxMidi
open ByteMemory Transducer

/-- `strcmp` of the name of a context with another one. -/
def netCtxNameIs (ctx : NetCtx) (name : List UInt8) : Except Fault Bool :=
  match ctx.name with
  | none => .error .nullPointer
  | some ctxName => .ok (ctxName == name)

def netCtxFindByName : List NetCtx → List UInt8 → Except Fault (Option (ℕ × NetCtx))
  | [], _ => .ok none
  | ctx :: rest, name => do
    if netCtxIsUsed ctx then
      if ← netCtxNameIs ctx name then return some (0, ctx)
    let found ← netCtxFindByName rest name
    return found.map fun found => (found.1 + 1, found.2)

/-- For every name the lookup compares only names that are there, and gives back the first
slot in use that has the name. -/
def LookupSafe (connections : List NetCtx) : Prop :=
  ∀ name, netCtxFindByName connections name =
    .ok (netCtxFind (fun ctx => netCtxIsUsed ctx && ctx.name == some name) connections)

/-- Every slot in use has a name. -/
def AllNamed (connections : List NetCtx) : Prop :=
  ∀ ctx ∈ connections, netCtxIsUsed ctx = true → ctx.name ≠ none

/-- An INV for an SSRC that is not in use comes with a name. -/
def InvitesByName (s : NetState) : SessionCall → Prop
  | .daemon (.read _ d) => ∀ command inv, IsApplemidi d.packet →
    (netApplemidiUnpack ⟨d.packet, d.beyond⟩).command = some command →
    command.command = netApplemidiCmdInv → command.data = .inv inv →
    netCtxFindBySsrc s.connections inv.ssrc = none → inv.name ≠ none
  | _ => True

section Lookup
variable {connections : List NetCtx}

theorem find_of_allNamed (h : AllNamed connections) (name : List UInt8) :
    netCtxFindByName connections name =
      .ok (netCtxFind (fun ctx => netCtxIsUsed ctx && ctx.name == some name) connections) := by
  induction connections with
  | nil => rfl
  | cons ctx rest ih =>
    obtain ⟨hfirst, hrest⟩ := List.forall_mem_cons.mp h
    rw [netCtxFindByName, netCtxFind, ih hrest]
    by_cases hused : netCtxIsUsed ctx = true
    · obtain ⟨ctxName, hname⟩ := Option.ne_none_iff_exists'.mp (hfirst hused)
      by_cases hsame : ctxName = name
      · simp [hused, netCtxNameIs, hname, hsame, bind, Except.bind, pure, Except.pure]
      · simp [hused, netCtxNameIs, hname, hsame, bind, Except.bind, pure, Except.pure]
    · simp [hused, bind, Except.bind, pure, Except.pure]

/-- A lookup that gets to a slot in use without a name. -/
theorem find_faults {ctx : NetCtx} (hctx : ctx ∈ connections) (hused : netCtxIsUsed ctx = true)
    (hnone : ctx.name = none) {name : List UInt8}
    (hother : ∀ other ∈ connections, other.name ≠ some name) :
    netCtxFindByName connections name = .error .nullPointer := by
  induction connections with
  | nil => cases hctx
  | cons first rest ih =>
    obtain ⟨hfirst, hrest⟩ := List.forall_mem_cons.mp hother
    rw [netCtxFindByName]
    by_cases hinUse : netCtxIsUsed first = true
    · cases hname : first.name with
      | none => simp [hinUse, netCtxNameIs, hname, bind, Except.bind]
      | some firstName =>
        have hlater : ctx ∈ rest := by
          rcases List.mem_cons.mp hctx with rfl | hlater
          · rw [hnone] at hname
            cases hname
          · exact hlater
        have hdiffer : firstName ≠ name := fun hsame => hfirst (hsame ▸ hname)
        simp [hinUse, netCtxNameIs, hname, hdiffer, ih hlater hrest, bind, Except.bind]
    · have hlater : ctx ∈ rest := by
        rcases List.mem_cons.mp hctx with rfl | hlater
        · exact absurd hused hinUse
        · exact hlater
      simp [hinUse, ih hlater hrest, bind, Except.bind]

/-- There is always a name that no slot has. -/
theorem exists_unknown (connections : List NetCtx) :
    ∃ name, ∀ ctx ∈ connections, ctx.name ≠ some name := by
  obtain ⟨name, hname⟩ :=
    Infinite.exists_notMem_finset (connections.filterMap NetCtx.name).toFinset
  refine ⟨name, fun ctx hctx hsame => hname ?_⟩
  rw [List.mem_toFinset, List.mem_filterMap]
  exact ⟨ctx, hctx, hsame⟩

theorem lookupSafe_iff (connections : List NetCtx) :
    LookupSafe connections ↔ AllNamed connections := by
  constructor
  · intro h ctx hctx hused hnone
    obtain ⟨name, hunknown⟩ := exists_unknown connections
    have hfound := h name
    rw [find_faults hctx hused hnone hunknown] at hfound
    cases hfound
  · exact find_of_allNamed

end Lookup

section Kept
variable {host : NetHost} {moment : NetMoment} {connections t : List NetCtx}
  {effects : List NetEffect}

theorem named_set (h : AllNamed connections) {slot : ℕ} {ctx : NetCtx}
    (hctx : netCtxIsUsed ctx = true → ctx.name ≠ none) : AllNamed (connections.set slot ctx) := by
  intro other hother hused
  rcases List.mem_or_eq_of_mem_set hother with hold | rfl
  · exact h other hold hused
  · exact hctx hused

/-- A context that keeps its name, and was in use before if it is now. -/
theorem named_set_same (h : AllNamed connections) {slot : ℕ} {old ctx : NetCtx}
    (hslot : connections[slot]? = some old) (hname : ctx.name = old.name)
    (hused : netCtxIsUsed ctx = true → netCtxIsUsed old = true) :
    AllNamed (connections.set slot ctx) := by
  refine named_set h fun hnow => ?_
  rw [hname]
  exact h old (List.mem_of_getElem? hslot) (hused hnow)

theorem register_named (h : AllNamed connections) (host : NetHost) {ssrc : UInt32}
    (initiator : UInt32) (ipAddress : List UInt8) (port : UInt16) {name : Option (List UInt8)}
    (hname : netCtxFindBySsrc connections ssrc = none → name ≠ none) (random : UInt32)
    (now : UInt64) :
    AllNamed (netCtxRegister host connections ssrc initiator ipAddress port name random now).1 := by
  unfold netCtxRegister
  cases hfind : netCtxFindBySsrc connections ssrc with
  | some found => exact h
  | none =>
    cases netCtxFindUnused connections with
    | some found => exact named_set h fun _ => hname hfind
    | none =>
      cases netCtxCreate host with
      | none => exact h
      | some created =>
        intro ctx hctx hused
        rcases List.mem_append.mp hctx with hold | hnew
        · exact h ctx hold hused
        · rw [List.mem_singleton.mp hnew]
          exact hname hfind

/-- The context that a registration makes has the name it is given. -/
theorem register_name (host : NetHost) {ssrc : UInt32}
    (hfind : netCtxFindBySsrc connections ssrc = none) (initiator : UInt32)
    (ipAddress : List UInt8) (port : UInt16) (name : Option (List UInt8)) (random : UInt32)
    (now : UInt64) :
    ∃ ctx ∈ (netCtxRegister host connections ssrc initiator ipAddress port name random now).1,
      netCtxIsUsed ctx = true ∧ ctx.name = name := by
  unfold netCtxRegister
  rw [hfind]
  cases hunused : netCtxFindUnused connections with
  | some found =>
    obtain ⟨hlt, -⟩ := List.getElem?_eq_some_iff.mp (find_some hunused).1
    exact ⟨_, List.mem_set hlt _, rfl, rfl⟩
  | none =>
    obtain ⟨created, hcreated, -⟩ := exists_created host
    rw [hcreated]
    exact ⟨_, List.mem_append_right _ (List.mem_singleton_self _), rfl, rfl⟩

theorem invContext_eq (host : NetHost) (moment : NetMoment) (connections : List NetCtx)
    (ipAddress : List UInt8) (port : UInt16) (inv : NetApplemidiInv) :
    applemidiInvContext host moment connections ipAddress port inv =
      netCtxRegister host connections inv.ssrc inv.initiator ipAddress port inv.name
        (moment.random 0) moment.now := by
  unfold applemidiInvContext
  cases hfind : netCtxFindBySsrc connections inv.ssrc with
  | some found => simp only [netCtxRegister, hfind]
  | none => rfl

/-- The table after an INV is the one after its registration. -/
theorem invResponder_table {ipAddress : List UInt8} {port : UInt16} {inv : NetApplemidiInv}
    {answer : Option (List UInt8)}
    (hok : applemidiInvResponder host moment connections ipAddress port (some inv) =
      .ok (t, answer)) :
    t = (netCtxRegister host connections inv.ssrc inv.initiator ipAddress port inv.name
      (moment.random 0) moment.now).1 := by
  simp only [applemidiInvResponder, invContext_eq] at hok
  split at hok
  · cases hok
    rfl
  · obtain ⟨answer, -, hok⟩ := bind_ok hok
    cases hok
    rfl

theorem okAdvance_name {slot : ℕ} {ctx ctx' : NetCtx} {okPacket : NetApplemidiInv}
    (hok : applemidiOkAdvance host moment slot ctx okPacket = .ok (ctx', effects)) :
    ctx'.name = ctx.name := by
  cases okAdvance_outcome hok <;> rfl

theorem okResponder_named (h : AllNamed connections) {data : Option NetApplemidiInv}
    (hok : applemidiOkResponder host moment connections data = .ok (t, effects)) :
    AllNamed t := by
  cases data with
  | none =>
    cases hok
    exact h
  | some okPacket =>
    simp only [applemidiOkResponder] at hok
    cases hfind : netCtxFindByInitiator connections okPacket.initiator with
    | none =>
      rw [hfind] at hok
      cases hok
      exact h
    | some found =>
      obtain ⟨hslot, hwanted⟩ := find_some hfind
      rw [hfind] at hok
      obtain ⟨advanced, hadvance, hok⟩ := bind_ok hok
      cases hok
      exact named_set_same h hslot (okAdvance_name hadvance)
        fun _ => (Bool.and_eq_true_iff.mp hwanted).1

/-- A BY leaves an unused slot, whatever name stays in it. -/
theorem byResponder_named (h : AllNamed connections) (data : Option NetApplemidiInv) :
    AllNamed (applemidiByResponder connections data) := by
  cases data with
  | none => exact h
  | some inv =>
    simp only [applemidiByResponder]
    cases netCtxFindBySsrc connections inv.ssrc with
    | none => exact h
    | some found => exact named_set h fun hused => by cases hused

theorem feedbackResponder_named (h : AllNamed connections) (data : Option NetApplemidiFeedback) :
    AllNamed (applemidiFeedbackResponder connections data) := by
  cases data with
  | none => exact h
  | some feedback =>
    simp only [applemidiFeedbackResponder, applemidiFeedbackResets]
    cases hfind : netCtxFindBySsrc connections feedback.ssrc with
    | none => exact h
    | some found =>
      dsimp only
      split_ifs
      · exact named_set_same h (find_some hfind).1 rfl id
      · exact h

theorem dispatch_named (h : AllNamed connections) {d : Datagram} {command : NetApplemidiCommand}
    (hinvites : ∀ inv, command.command = netApplemidiCmdInv → command.data = .inv inv →
      netCtxFindBySsrc connections inv.ssrc = none → inv.name ≠ none)
    (hok : netSocketDispatch host moment connections d command = .ok (t, effects)) :
    AllNamed t := by
  unfold netSocketDispatch at hok
  split_ifs at hok with hinv
  · obtain ⟨data, hdata, hok⟩ := bind_ok hok
    obtain ⟨answered, hanswered, hok⟩ := bind_ok hok
    cases hok
    cases data with
    | none =>
      cases hanswered
      exact h
    | some inv =>
      rw [invResponder_table hanswered]
      exact register_named h host inv.initiator d.ipAddress d.port
        (hinvites inv hinv (asInv_inv hdata)) (moment.random 0) moment.now
  · obtain ⟨data, -, hok⟩ := bind_ok hok
    exact okResponder_named h hok
  · obtain ⟨data, -, hok⟩ := bind_ok hok
    cases hok
    exact byResponder_named h data
  · obtain ⟨data, -, hok⟩ := bind_ok hok
    obtain ⟨answer, -, hok⟩ := bind_ok hok
    cases hok
    exact h
  · obtain ⟨data, -, hok⟩ := bind_ok hok
    cases hok
    exact feedbackResponder_named h data
  · cases hok
    exact h

theorem rtp_named (h : AllNamed connections) {d : Datagram} {buffer : Option (List UInt8)}
    (hok : netSocketRtp connections d buffer = .ok (t, effects)) : AllNamed t := by
  obtain ⟨packet, -, hok⟩ := bind_ok hok
  split_ifs at hok
  · cases hok
    exact h
  · obtain ⟨payload, -, hok⟩ := bind_ok hok
    split at hok
    · cases hok
      exact h
    · next slot ctx hfind =>
      cases payload with
      | none => cases hok
      | some payload =>
        obtain ⟨state, -, hok⟩ := bind_ok hok
        obtain ⟨response, -, hok⟩ := bind_ok hok
        obtain ⟨sent, -, hok⟩ := bind_ok hok
        cases hok
        exact named_set_same h (find_some hfind).1 rfl id

theorem read_named {s u : NetState} (hvalid : s.Valid) (h : AllNamed s.connections)
    {d : Datagram} (hmax : d.packet.length ≤ netApplemidiUdpSize)
    (hinvites : InvitesByName s (.daemon (.read moment d)))
    (hok : netSocketRead host moment s d = .ok (u, effects)) : AllNamed u.connections := by
  by_cases hpos : 0 < d.packet.length
  · obtain ⟨state, p, size, -, -, hread⟩ := read_eq hvalid host moment hpos hmax
    rw [hread] at hok
    obtain ⟨handled, hhandled, heq⟩ := map_ok hok
    cases heq
    split_ifs at hhandled with hclass
    · simp only [netSocketApplemidi, Option.bind_some] at hhandled
      split at hhandled
      · cases hhandled
      · next command hcommand =>
        obtain ⟨done, hdispatch, hok⟩ := bind_ok hhandled
        obtain ⟨-, -, hok⟩ := bind_ok hok
        cases hok
        exact dispatch_named h (fun inv => hinvites command inv hclass hcommand) hdispatch
    · exact rtp_named h hhandled
  · have hempty : d.packet.length = 0 := by omega
    rw [netSocketRead, if_pos hempty] at hok
    cases hok
    exact h

/-- The sender changes no name, and takes no slot into use. -/
theorem sendConnection_name {now : UInt64} {event : MidiEvent} {slot : ℕ}
    {payload payload' : MidiPayload} {ctx ctx' : NetCtx}
    (hok : midiSenderSendConnection host now event slot payload ctx =
      .ok (ctx', payload', effects)) : ctx'.name = ctx.name ∧ ctx'.status = ctx.status := by
  obtain ⟨packed, hpacked, hok⟩ := bind_ok hok
  obtain ⟨packet, -, hok⟩ := bind_ok hok
  obtain ⟨result, -, rfl⟩ := map_ok hpacked
  cases hok
  split_ifs
  · cases event <;> exact ⟨rfl, rfl⟩
  · exact ⟨rfl, rfl⟩

theorem senderLoop_named {clock : ℕ → UInt64} {originator : UInt32} {event : MidiEvent}
    {slot : ℕ} {payload : MidiPayload} (h : AllNamed connections)
    (hok : midiSenderLoop host clock originator event slot payload connections =
      .ok (t, effects)) : AllNamed t := by
  induction connections generalizing slot payload t effects with
  | nil =>
    cases hok
    exact h
  | cons ctx rest ih =>
    obtain ⟨hfirst, hrest⟩ := List.forall_mem_cons.mp h
    unfold midiSenderLoop at hok
    split_ifs at hok
    · obtain ⟨later, hlater, hok⟩ := bind_ok hok
      cases hok
      exact List.forall_mem_cons.mpr ⟨hfirst, ih hrest hlater⟩
    · obtain ⟨⟨next, payload', sent⟩, hsent, hok⟩ := bind_ok hok
      obtain ⟨later, hlater, hok⟩ := bind_ok hok
      cases hok
      obtain ⟨hname, hstatus⟩ := sendConnection_name hsent
      refine List.forall_mem_cons.mpr ⟨fun hused => ?_, ih hrest hlater⟩
      rw [netCtxIsUsed, hstatus] at hused
      rw [hname]
      exact hfirst hused

/-- The service we invite has been found by its name. -/
theorem connect_named (h : AllNamed connections) {foundService : FoundService}
    (hok : remoteConnectInit host moment connections foundService = .ok (t, effects)) :
    AllNamed t := by
  obtain ⟨response, -, hok⟩ := bind_ok hok
  cases response with
  | none =>
    cases hok
    exact h
  | some buffer =>
    have hregistered : AllNamed (netCtxRegister host connections (moment.random 0)
        (moment.random 1) foundService.ipAddress foundService.port (some foundService.name)
        (moment.random 2) moment.now).1 :=
      register_named h host _ _ _ (by simp) _ _
    dsimp only at hok
    split at hok
    · cases hok
      exact hregistered
    · next slot ctx hslot =>
      cases hok
      obtain ⟨hctx, hused⟩ := register_slot (Prod.ext rfl hslot)
      exact named_set_same hregistered hctx rfl fun _ => hused

end Kept

/-- A call keeps every slot in use named exactly if it is not an INV without a name that
registers an SSRC. -/
theorem call_named_iff (host : NetHost) {s : NetState} (hvalid : s.Valid)
    (h : AllNamed s.connections) {call : SessionCall} (hfits : call.Fits) :
    (∀ t effects, sessionCall host s call = .ok (t, effects) → AllNamed t.connections) ↔
      InvitesByName s call := by
  cases call with
  | connect moment foundService =>
    refine iff_of_true (fun t effects hok => ?_) trivial
    obtain ⟨connected, hconnected, hok⟩ := bind_ok hok
    cases hok
    exact connect_named h hconnected
  | daemon call =>
    cases call with
    | send clock command originator =>
      refine iff_of_true (fun t effects hok => ?_) trivial
      obtain ⟨sent, hsent, hok⟩ := bind_ok hok
      cases hok
      obtain ⟨payload, -, hsent⟩ := bind_ok hsent
      obtain ⟨event, -, hsent⟩ := bind_ok hsent
      exact senderLoop_named h hsent
    | read moment d =>
      refine ⟨?_, fun hinvites t effects hok => read_named hvalid h hfits hinvites hok⟩
      rintro hkept ⟨signature, code, data⟩ inv hclass hcommand rfl rfl hfind hnone
      have hpos : 0 < d.packet.length := by
        cases hpacket : d.packet with
        | nil => simp [hpacket, IsApplemidi] at hclass
        | cons => simp
      obtain ⟨state, p, size, -, -, hread⟩ := read_eq hvalid host moment hpos hfits
      obtain ⟨table, answer, hanswer⟩ :=
        invResponder_ok host moment s.connections d.ipAddress d.port (some inv)
      have happlemidi : netSocketApplemidi host moment s.connections d (some d.packet) =
          .ok (table, netReply answer) := by
        simp only [netSocketApplemidi, Option.bind_some, hcommand, dispatch_inv, hanswer,
          netApplemidiCmdDestroy, bind, Except.bind, Except.map, pure, Except.pure]
      rw [if_pos hclass, happlemidi] at hread
      obtain ⟨ctx, hctx, hused, hname⟩ := register_name host hfind inv.initiator d.ipAddress
        d.port inv.name (moment.random 0) moment.now
      rw [← invResponder_table hanswer] at hctx
      exact hkept _ _ hread ctx hctx hused (hname.trans hnone)

/-- In every run, every state reached has a safe lookup by name if and only if each INV
for an SSRC that is not in use comes with a name. -/
theorem lookup_safe_run_iff {host : NetHost} {s : NetState} (hstart : netStateStart host = some s)
    {calls : List SessionCall} (hfits : ∀ call ∈ calls, call.Fits) :
    (∀ t, Reaches (sessionCall host) s calls t → LookupSafe t.connections) ↔
      Along (sessionCall host) InvitesByName s calls := by
  have hempty : AllNamed s.connections := by
    rw [start_connections hstart]
    simp [AllNamed]
  have hrun : (∀ t, Reaches (sessionCall host) s calls t → AllNamed t.connections) ↔
      Along (sessionCall host) InvitesByName s calls :=
    safe_iff (fun _ _ _ _ hvalid hfits hok => call_valid hvalid hfits hok)
      (fun _ _ hvalid hnamed hfits => call_named_iff host hvalid hnamed hfits)
      (start_valid hstart) hempty hfits
  rw [← hrun]
  exact forall₂_congr fun t _ => lookupSafe_iff t.connections

/-- A peer without a name invites us, and we look for a remote service. -/
theorem lookup_safe_run_iff_nameless : ∃ s, netStateStart resolvingHost = some s ∧
    ((∀ t, Reaches (sessionCall resolvingHost) s [.daemon (.read quietMoment nineDatagram)] t →
        LookupSafe t.connections) ↔
      Along (sessionCall resolvingHost) InvitesByName s
        [.daemon (.read quietMoment nineDatagram)]) := by
  obtain ⟨s, hstart⟩ : ∃ s, netStateStart resolvingHost = some s := ⟨_, rfl⟩
  have hfits : ∀ call ∈ [SessionCall.daemon (.read quietMoment nineDatagram)], call.Fits := by
    intro call hcall
    rw [List.mem_singleton.mp hcall]
    exact nineDatagram_packet.2
  exact ⟨s, hstart, lookup_safe_run_iff hstart hfits⟩

/-- The lookup of any name then compares with the missing one. -/
theorem nameless_lookup_faults : ∃ s t effects, netStateStart resolvingHost = some s ∧
    sessionCall resolvingHost s (.daemon (.read quietMoment nineDatagram)) = .ok (t, effects) ∧
    netCtxFindByName t.connections [0x61] = .error .nullPointer ∧
    ¬ LookupSafe t.connections := by
  obtain ⟨s, hstart⟩ : ∃ s, netStateStart resolvingHost = some s := ⟨_, rfl⟩
  have hempty := start_connections hstart
  obtain ⟨hclass, hpos⟩ := nineDatagram_packet.1.isApplemidi
  obtain ⟨state, p, size, -, -, hread⟩ :=
    read_eq (start_valid hstart) resolvingHost quietMoment hpos nineDatagram_packet.2
  obtain ⟨table, answer, hanswer⟩ := invResponder_ok resolvingHost quietMoment [] [] 5004
    (some ⟨9, 2, 2, none⟩)
  have hcommand : (netApplemidiUnpack ⟨nineDatagram.packet, nineDatagram.beyond⟩).command =
      some ⟨0xffff, netApplemidiCmdInv, .inv ⟨9, 2, 2, none⟩⟩ := by
    decide +kernel
  have happlemidi : netSocketApplemidi resolvingHost quietMoment s.connections nineDatagram
      (some nineDatagram.packet) = .ok (table, netReply answer) := by
    simp only [netSocketApplemidi, Option.bind_some, hcommand, dispatch_inv, hempty]
    simp only [nineDatagram, hanswer, netApplemidiCmdDestroy, bind, Except.bind, Except.map, pure,
      Except.pure]
  rw [if_pos hclass, happlemidi] at hread
  have htable := invResponder_table hanswer
  obtain ⟨ctx, hctx, hused, hname⟩ := register_name resolvingHost
    (show netCtxFindBySsrc [] 9 = none from rfl) 2 [] 5004 none (quietMoment.random 0)
    quietMoment.now
  rw [← htable] at hctx
  have honly : ∀ other ∈ table, other.name ≠ some [0x61] := by
    rw [htable]
    unfold netCtxRegister
    obtain ⟨created, hcreated, -⟩ := exists_created resolvingHost
    rw [hcreated]
    simp [netCtxFindBySsrc, netCtxFindUnused, netCtxFind, netCtxSet]
  have hfault := find_faults hctx hused hname honly
  refine ⟨s, _, _, hstart, hread, hfault, fun hsafe => ?_⟩
  rw [hsafe [0x61]] at hfault
  cases hfault

end RaveloxMidi
