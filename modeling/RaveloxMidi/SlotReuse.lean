import RaveloxMidi.ConnectionSlots
import RaveloxMidi.DataTable

/-!
# Connection slots are taken over again

The table of the connections is a table of items, all of them used: no item is
ever given up. What is free is told from the status of the contexts alone, by
loops over the numbers of the items. A registration takes the lowest slot whose
context is unused, so the table is as long as it has had to be at some moment.
-/
namespace RaveloxMidi
open ByteMemory Transducer SlotTable

/-- The loop of the find functions over the items of the table. -/
def netCtxFindItem (wanted : NetCtx → Bool) (connections : DataTable NetCtx) :
    Option (ℕ × NetCtx) :=
  (List.range (dataTableItemCount connections)).findSome? fun i =>
    (dataTableItemGet connections i).bind fun ctx => if wanted ctx then some (i, ctx) else none

/-- `net_ctx_register` on the table of items, with the number of the item. -/
def netCtxRegisterItem (host : NetHost) (connections : DataTable NetCtx)
    (ssrc initiator : UInt32) (ipAddress : List UInt8) (port : UInt16) (name : Option (List UInt8))
    (random : UInt32) (now : UInt64) : DataTable NetCtx × Option (ℕ × NetCtx) :=
  match netCtxFindItem (fun ctx => netCtxIsUsed ctx && ctx.ssrc == ssrc) connections with
  | some found => (connections, some found)
  | none =>
    match netCtxFindItem (fun ctx => ctx.status == .unused) connections with
    | some (slot, unused) =>
      let ctx := netCtxSet host unused ssrc initiator random port ipAddress name now
      (connections.write slot ctx, some (slot, ctx))
    | none =>
      match netCtxCreate host with
      | none => (connections, none)
      | some created =>
        let ctx := netCtxSet host created ssrc initiator random port ipAddress name now
        ((dataTableAddItem connections (some ctx)).1, some (dataTableSlot connections, ctx))

/-- How many connections are in use. -/
def inUse (connections : List NetCtx) : ℕ := connections.countP netCtxIsUsed

/-- The lowest slot that is unused, or a new one if there is none. -/
def LowestUnused (connections : List NetCtx) (slot : ℕ) : Prop :=
  (∃ old, connections[slot]? = some old ∧ old.status = .unused ∧
    ∀ other < slot, ∀ ctx, connections[other]? = some ctx → ctx.status ≠ .unused) ∨
  (slot = connections.length ∧ ∀ ctx ∈ connections, ctx.status ≠ .unused)

theorem findSome_range {α : Type*} (wanted : NetCtx → Bool) (connections : List NetCtx)
    (result : ℕ → NetCtx → α) :
    (List.range connections.length).findSome? (fun i => connections[i]?.bind fun ctx =>
      if wanted ctx then some (result i ctx) else none) =
      (netCtxFind wanted connections).map fun found => result found.1 found.2 := by
  induction connections generalizing result with
  | nil => rfl
  | cons first rest ih =>
    rw [List.length_cons, List.range_succ_eq_map, List.findSome?_cons]
    simp only [List.getElem?_cons_zero, Option.bind_some, netCtxFind]
    by_cases hfirst : wanted first = true
    · simp [hfirst]
    · have hlater := ih fun i => result (i + 1)
      simp only [hfirst, if_false, List.findSome?_map, Function.comp_def, List.getElem?_cons_succ,
        hlater, Option.map_map, Bool.false_eq_true]

/-- The loop finds what is found in the list of the contexts. -/
theorem findItem_ofList (wanted : NetCtx → Bool) (connections : List NetCtx) :
    netCtxFindItem wanted (.ofList connections) = netCtxFind wanted connections := by
  simp only [netCtxFindItem, itemCount_ofList, itemGet_ofList, findSome_range wanted connections]
  exact Option.map_id' ..

/-- A registration on the table of items is one on the list of the contexts. -/
theorem registerItem_ofList (host : NetHost) (connections : List NetCtx) (ssrc initiator : UInt32)
    (ipAddress : List UInt8) (port : UInt16) (name : Option (List UInt8)) (random : UInt32)
    (now : UInt64) {t : List NetCtx} {registered : Option (ℕ × NetCtx)}
    (h : netCtxRegister host connections ssrc initiator ipAddress port name random now =
      (t, registered)) :
    netCtxRegisterItem host (.ofList connections) ssrc initiator ipAddress port name random now =
      (.ofList t, registered) := by
  unfold netCtxRegister netCtxFindBySsrc netCtxFindUnused at h
  unfold netCtxRegisterItem
  rw [findItem_ofList, findItem_ofList]
  cases hfind : netCtxFind (fun ctx => netCtxIsUsed ctx && ctx.ssrc == ssrc) connections with
  | some found =>
    rw [hfind] at h
    cases h
    rfl
  | none =>
    rw [hfind] at h
    dsimp only at h ⊢
    cases hunused : netCtxFind (fun ctx => ctx.status == .unused) connections with
    | some found =>
      rw [hunused] at h
      cases h
      simp only [write_ofList]
    | none =>
      rw [hunused] at h
      dsimp only at h ⊢
      cases hcreate : netCtxCreate host with
      | none =>
        rw [hcreate] at h
        cases h
        rfl
      | some created =>
        rw [hcreate] at h
        cases h
        simp only [addItem_ofList, slot_ofList]

theorem occupied_slots (connections : List NetCtx) :
    occupied (slotsOf connections) = inUse connections := by
  rw [occupied, slotsOf, List.countP_map, inUse]
  congr 1
  funext ctx
  by_cases hused : netCtxIsUsed ctx = true <;> simp [slotOf, hused]

theorem register_lowest {host : NetHost} {connections t : List NetCtx} {ssrc initiator : UInt32}
    {ipAddress : List UInt8} {port : UInt16} {name : Option (List UInt8)} {random : UInt32}
    {now : UInt64} {slot : ℕ} {ctx : NetCtx} (hfind : netCtxFindBySsrc connections ssrc = none)
    (h : netCtxRegister host connections ssrc initiator ipAddress port name random now =
      (t, some (slot, ctx))) : LowestUnused connections slot := by
  unfold netCtxRegister at h
  rw [hfind] at h
  cases hunused : netCtxFindUnused connections with
  | some free =>
    rw [hunused] at h
    cases h
    obtain ⟨hslot, hstatus, hlower⟩ := find_iff.mp hunused
    exact .inl ⟨free.2, hslot, by simpa using hstatus,
      fun other hother ctx hctx => by simpa using hlower other hother ctx hctx⟩
  | none =>
    obtain ⟨created, hcreated, -⟩ := exists_created host
    rw [hunused, hcreated] at h
    cases h
    exact .inr ⟨rfl, fun ctx hctx => by simpa using find_none hunused ctx hctx⟩

/-- A call leaves the table as long as it was, or as long as is now in use. -/
theorem call_length {host : NetHost} {s t : NetState} (h : s.Valid) {call : SessionCall}
    (hfits : call.Fits) {effects : List NetEffect}
    (hok : sessionCall host s call = .ok (t, effects)) :
    t.connections.length = max s.connections.length (inUse t.connections) := by
  have hlength := length_apply (slotsOf s.connections) (callOp s call)
  rw [← call_slots h hfits hok, occupied_slots] at hlength
  simpa only [slotsOf, List.length_map] using hlength

/-- After every run the table has as many items as there were connections in use at once,
and an SSRC that is not in use is registered in the lowest unused slot. The registrations
of the run are those of the table of items. -/
theorem slots_not_leaked {host : NetHost} {s t : NetState} (hstart : netStateStart host = some s)
    {calls : List SessionCall} (hfits : ∀ call ∈ calls, call.Fits) {effects : List NetEffect}
    (hrun : run (sessionCall host) s calls = .ok (t, effects)) :
    IsGreatest {n | ∃ u, Reaches (sessionCall host) s calls u ∧ inUse u.connections = n}
        (dataTableItemCount (.ofList t.connections)) ∧
      (∀ connections ssrc initiator ipAddress port name random now,
        netCtxRegisterItem host (.ofList connections) ssrc initiator ipAddress port name random
            now =
          (.ofList (netCtxRegister host connections ssrc initiator ipAddress port name random
            now).1,
          (netCtxRegister host connections ssrc initiator ipAddress port name random now).2)) ∧
      ∀ ssrc initiator ipAddress port name random now,
        netCtxFindBySsrc t.connections ssrc = none →
        ∃ u slot ctx, netCtxRegisterItem host (.ofList t.connections) ssrc initiator ipAddress port
            name random now = (.ofList u, some (slot, ctx)) ∧
          Registered t.connections u slot ctx ∧ NewSession ctx ssrc initiator random ∧
          LowestUnused t.connections slot := by
  have hempty := start_connections hstart
  refine ⟨?_, fun connections ssrc initiator ipAddress port name random now =>
    registerItem_ofList host connections ssrc initiator ipAddress port name random now rfl, ?_⟩
  · have hgreatest := size_isGreatest
      (fun _ _ _ _ hvalid hfits hok =>
        ⟨call_valid hvalid hfits hok, call_length hvalid hfits hok⟩)
      (start_valid hstart) List.countP_le_length hfits hrun
    have hfirst : s.connections.length ∈
        {n | ∃ u, Reaches (sessionCall host) s calls u ∧ inUse u.connections = n} :=
      ⟨s, reaches_start _ s calls, by rw [hempty]; rfl⟩
    rw [itemCount_ofList]
    rwa [Set.insert_eq_of_mem hfirst] at hgreatest
  · intro ssrc initiator ipAddress port name random now hfind
    obtain ⟨u, slot, ctx, hregister, hregistered, hnew, -⟩ :=
      register_fresh host hfind initiator ipAddress port name random now
    exact ⟨u, slot, ctx, registerItem_ofList host t.connections ssrc initiator ipAddress port name
      random now hregister, hregistered, hnew, register_lowest hfind hregister⟩

theorem slots_not_leaked_connect : ∃ s t effects, netStateStart quietHost = some s ∧
    run (sessionCall quietHost) s [.connect quietMoment ⟨[], [], 5004⟩] = .ok (t, effects) ∧
    IsGreatest {n | ∃ u, Reaches (sessionCall quietHost) s
        [.connect quietMoment ⟨[], [], 5004⟩] u ∧ inUse u.connections = n}
      (dataTableItemCount (.ofList t.connections)) := by
  obtain ⟨s, hstart⟩ : ∃ s, netStateStart quietHost = some s := ⟨_, rfl⟩
  obtain ⟨t, slot, ctx, octets, hconnect, -⟩ := connect_fresh quietHost quietMoment ⟨[], [], 5004⟩
    (show netCtxFindBySsrc [] (quietMoment.random 0) = none from rfl)
  have hcall : sessionCall quietHost s (.connect quietMoment ⟨[], [], 5004⟩) =
      .ok (⟨t, s.sockets⟩, (netCtxSend ctx octets true).toList.map fun sent =>
        .command slot sent.1 sent.2) := by
    simp only [sessionCall, start_connections hstart, hconnect, bind, Except.bind, pure,
      Except.pure]
  have hrun := run_cons_ok hcall (run_nil _ _)
  have hfits : ∀ call ∈ [SessionCall.connect quietMoment ⟨[], [], 5004⟩], call.Fits := by
    intro call hcall
    rw [List.mem_singleton.mp hcall]
    trivial
  exact ⟨s, _, _, hstart, hrun, (slots_not_leaked hstart hfits hrun).1⟩

end RaveloxMidi
