import RaveloxMidi.Handshake
import RaveloxMidi.NameLookup
import RaveloxMidi.RemoteAddress

/-!
# The thread that keeps a session in step

Once the remote side has accepted both invitations, a thread asks it for its clock at
an interval. The thread looks the session up by its name before it waits, and sends by
the slot it has found. It ends with the daemon, which then takes its leave.
-/
namespace RaveloxMidi
open ByteMemory

/-- How far the thread is in its loop. -/
inductive SyncThread where
  | looking
  | waiting (slot : ℕ)
  | sending (slot : ℕ)
  | ended
  deriving Repr, DecidableEq

def useControlForCkKey : List UInt8 := ascii "remote.use_control_for_ck"

/-- The port that the synchronisations are sent to: the control port unless the option says
otherwise. -/
def remoteUseControlForCk (config : KvTable) : Bool :=
  if configIsSet config useControlForCkKey then isYes (configStringGet config useControlForCkKey)
  else true

/-- A step of the thread: the lookup, the end of the wait, or a synchronisation. -/
def remoteConnectSyncThread (moment : NetMoment) (shutdown : Bool) (serviceName : List UInt8)
    (config : KvTable) (connections : List NetCtx) :
    SyncThread → Except Fault (SyncThread × List NetEffect)
  | .looking => do
    match ← netCtxFindByName connections serviceName with
    | none => return (.ended, [])
    | some (slot, _) => return (.waiting slot, [])
  | .waiting slot => .ok (if shutdown then .ended else .sending slot, [])
  | .sending slot =>
    match connections[slot]? with
    | none => .error .nullPointer
    | some ctx => do
      let response ← netResponseSync moment ctx.sendSsrc ctx.start
      let sent ← netCtxSendCommand slot ctx (remoteUseControlForCk config) response
      return (.looking, sent)
  | .ended => .ok (.ended, [])

/-- `remote_connect_teardown` after it has joined the thread. -/
def remoteConnectTeardown (serviceName : List UInt8) (connections : List NetCtx) :
    Except Fault (List NetEffect) := do
  match ← netCtxFindByName connections serviceName with
  | none => return []
  | some (slot, ctx) =>
    let response ← netApplemidiPack ((netApplemidiCmdCreate netApplemidiCmdEnd).setData
      (.inv ⟨ctx.sendSsrc, 2, ctx.initiator, none⟩))
    match response with
    | none => return []
    | some buffer =>
      return (netCtxSend ctx buffer true).toList.map fun sent => .command slot sent.1 sent.2

def syncPacket (sync : NetApplemidiSync) : List UInt8 :=
  commandOctets 0xffff netApplemidiCmdSync ++ syncOctets sync

/-- How many steps the thread takes to its end, once the daemon ends. -/
def SyncThread.rank : SyncThread → ℕ
  | .sending _ => 3
  | .looking => 2
  | .waiting _ => 1
  | .ended => 0

theorem SyncThread.rank_eq_zero {thread : SyncThread} : thread.rank = 0 ↔ thread = .ended := by
  cases thread <;> simp [SyncThread.rank]

/-- The thread waits for the session in a slot, or sends to it. -/
def SyncThread.In (slot : ℕ) (thread : SyncThread) : Prop :=
  ∀ other, thread = .waiting other ∨ thread = .sending other → other = slot

section Thread
variable {connections : List NetCtx} {serviceName : List UInt8} {slot : ℕ} {ctx : NetCtx}

/-- The lookup gives back the context of the slot. -/
theorem findByName_slot {name : List UInt8}
    (h : netCtxFindByName connections name = .ok (some (slot, ctx))) :
    connections[slot]? = some ctx := by
  induction connections generalizing slot with
  | nil => cases h
  | cons first rest ih =>
    have hrest : ∀ found, netCtxFindByName rest name = .ok found →
        found.map (fun found => (found.1 + 1, found.2)) = some (slot, ctx) →
          (first :: rest)[slot]? = some ctx := by
      intro found hfound hslot
      obtain ⟨⟨other, later⟩, rfl, heq⟩ := Option.map_eq_some_iff.mp hslot
      cases heq
      exact ih hfound
    rw [netCtxFindByName] at h
    split_ifs at h
    · obtain ⟨same, -, h⟩ := bind_ok h
      cases same with
      | true =>
        cases h
        rfl
      | false =>
        obtain ⟨found, hfound, h⟩ := bind_ok h
        exact hrest found hfound (Except.ok.inj h)
    · obtain ⟨found, hfound, h⟩ := bind_ok h
      exact hrest found hfound (Except.ok.inj h)

end Thread

end RaveloxMidi
