import RaveloxMidi.MidiParser
import RaveloxMidi.JournalHistory

/-!
# The connection table

The table only grows: a connection that ends leaves an unused slot behind, which
the next registration takes over. A context is known by its slot, and what the
find functions return is a slot together with the context in it.
-/
namespace RaveloxMidi
open ByteMemory

inductive NetCtxStatus where
  | idle
  | firstInv
  | secondInv
  | remoteConnection
  | unused
  deriving Repr, DecidableEq

structure SocketAddress where
  host : List UInt8
  port : UInt16
  deriving Repr, DecidableEq

/-- `none` is an address that has not been resolved, of length zero. -/
structure NetCtx where
  status : NetCtxStatus
  ssrc : UInt32
  sendSsrc : UInt32
  initiator : UInt32
  seq : UInt32
  controlPort : UInt16
  dataPort : UInt16
  controlAddress : Option SocketAddress
  dataAddress : Option SocketAddress
  start : UInt64
  ipAddress : Option (List UInt8)
  name : Option (List UInt8)
  journal : Journal
  midiState : MidiState

/-- What the configuration and the resolver say. -/
structure NetHost where
  ringBufferSize : ℕ
  serviceName : Option (List UInt8)
  journalWrite : Bool
  getSockInfo : List UInt8 → UInt16 → Option SocketAddress

/-- The first context that meets a condition, with its slot. -/
def netCtxFind (wanted : NetCtx → Bool) : List NetCtx → Option (ℕ × NetCtx)
  | [] => none
  | ctx :: rest =>
    if wanted ctx then some (0, ctx)
    else (netCtxFind wanted rest).map fun found => (found.1 + 1, found.2)

def netCtxIsUsed (ctx : NetCtx) : Bool := ctx.status != .unused

def netCtxFindUnused (connections : List NetCtx) : Option (ℕ × NetCtx) :=
  netCtxFind (fun ctx => ctx.status == .unused) connections

def netCtxFindBySsrc (connections : List NetCtx) (ssrc : UInt32) : Option (ℕ × NetCtx) :=
  netCtxFind (fun ctx => netCtxIsUsed ctx && ctx.ssrc == ssrc) connections

def netCtxFindByInitiator (connections : List NetCtx) (initiator : UInt32) :
    Option (ℕ × NetCtx) :=
  netCtxFind (fun ctx => netCtxIsUsed ctx && ctx.initiator == initiator) connections

def netSocketDefaultRingBuffer : ℕ := 10240

/-- The ring is never of size zero, so the parser is there. -/
def netCtxCreate (host : NetHost) : Option NetCtx :=
  (midiStateCreate (max netSocketDefaultRingBuffer host.ringBufferSize)).map fun midiState =>
    { status := .unused
      ssrc := 0
      sendSsrc := 0
      initiator := 0
      seq := 1
      controlPort := 0
      dataPort := 0
      controlAddress := none
      dataAddress := none
      start := 0
      ipAddress := none
      name := none
      journal := journalInit
      midiState := midiState }

/-- The sequence number and the journal are left as they are. -/
def netCtxSet (host : NetHost) (ctx : NetCtx) (ssrc initiator sendSsrc : UInt32) (port : UInt16)
    (ipAddress : List UInt8) (name : Option (List UInt8)) (now : UInt64) : NetCtx :=
  { ctx with
    ssrc := ssrc
    sendSsrc := sendSsrc
    initiator := initiator
    controlPort := port
    dataPort := port + 1
    start := now
    ipAddress := some ipAddress
    controlAddress := host.getSockInfo ipAddress port
    dataAddress := host.getSockInfo ipAddress (port + 1)
    name := name
    midiState := midiStateReset ctx.midiState
    status := .idle }

def netCtxJournalReset (ctx : NetCtx) : NetCtx := { ctx with journal := journalReset ctx.journal }

def netCtxReset (ctx : NetCtx) : NetCtx :=
  { netCtxJournalReset ctx with
    seq := 1
    status := .unused
    controlAddress := none
    dataAddress := none
    midiState := midiStateReset ctx.midiState }

/-- The context for an SSRC: the one that has it, else an unused one, else a new
one at the end of the table. -/
def netCtxRegister (host : NetHost) (connections : List NetCtx) (ssrc initiator : UInt32)
    (ipAddress : List UInt8) (port : UInt16) (name : Option (List UInt8)) (random : UInt32)
    (now : UInt64) : List NetCtx × Option (ℕ × NetCtx) :=
  match netCtxFindBySsrc connections ssrc with
  | some found => (connections, some found)
  | none =>
    match netCtxFindUnused connections with
    | some (slot, unused) =>
      let ctx := netCtxSet host unused ssrc initiator random port ipAddress name now
      (connections.set slot ctx, some (slot, ctx))
    | none =>
      match netCtxCreate host with
      | none => (connections, none)
      | some created =>
        let ctx := netCtxSet host created ssrc initiator random port ipAddress name now
        (connections ++ [ctx], some (connections.length, ctx))

def netCtxJournalPack (ctx : NetCtx) : Except Fault (NetCtx × List UInt8) :=
  (journalPack ctx.journal).map fun packed => ({ ctx with journal := packed.1 }, packed.2)

/-- The three functions that add to the journal of a context. -/
def netCtxAddJournal (ctx : NetCtx) (event : JournalEvent) : NetCtx :=
  { ctx with journal := midiJournalAddEvent ctx.journal ctx.seq event }

def netCtxIncrementSeq (ctx : NetCtx) : NetCtx := { ctx with seq := ctx.seq + 1 }

/-- What goes out to the cached address of one of the two ports, if anything. -/
def netCtxSend (ctx : NetCtx) (buffer : List UInt8) (useControl : Bool) :
    Option (SocketAddress × List UInt8) :=
  if buffer.length = 0 then none
  else (if useControl then ctx.controlAddress else ctx.dataAddress).map fun address =>
    (address, buffer)

/-- A parser that some calls have led to. -/
def MidiState.Valid (s : MidiState) : Prop := ∃ p queue size, s.Represents p queue size

theorem MidiState.Valid.reset {s : MidiState} (h : s.Valid) : (midiStateReset s).Valid := by
  obtain ⟨p, queue, size, h⟩ := h
  exact ⟨_, [], size, h.reset⟩

section Find
variable {wanted : NetCtx → Bool}

/-- The context found is the one in its slot, and it is wanted. -/
theorem find_some {connections : List NetCtx} {slot : ℕ} {ctx : NetCtx}
    (h : netCtxFind wanted connections = some (slot, ctx)) :
    connections[slot]? = some ctx ∧ wanted ctx = true := by
  induction connections generalizing slot with
  | nil => cases h
  | cons first rest ih =>
    unfold netCtxFind at h
    by_cases hfirst : wanted first = true
    · rw [if_pos hfirst, Option.some.injEq, Prod.mk.injEq] at h
      obtain ⟨rfl, rfl⟩ := h
      exact ⟨rfl, hfirst⟩
    · rw [if_neg hfirst, Option.map_eq_some_iff] at h
      obtain ⟨⟨found, foundCtx⟩, hrest, heq⟩ := h
      rw [Prod.mk.injEq] at heq
      obtain ⟨rfl, rfl⟩ := heq
      exact ih hrest

theorem find_none {connections : List NetCtx} (h : netCtxFind wanted connections = none) :
    ∀ ctx ∈ connections, wanted ctx = false := by
  induction connections with
  | nil => simp
  | cons first rest ih =>
    unfold netCtxFind at h
    by_cases hfirst : wanted first = true
    · rw [if_pos hfirst] at h
      cases h
    · rw [if_neg hfirst, Option.map_eq_none_iff] at h
      simpa using ⟨by simpa using hfirst, ih h⟩

end Find

theorem exists_created (host : NetHost) : ∃ ctx, netCtxCreate host = some ctx ∧
    ctx.midiState = ⟨.init, 0,
      ringBufferReset (max netSocketDefaultRingBuffer host.ringBufferSize),
      ⟨0, dbufferDefaultBlockSize, 0, none⟩, 0, false⟩ := by
  have hsize : max netSocketDefaultRingBuffer host.ringBufferSize ≠ 0 := by
    have hdefault : 0 < netSocketDefaultRingBuffer := by decide
    omega
  rw [netCtxCreate, MidiState.create_eq hsize]
  exact ⟨_, rfl, rfl⟩

/-- A slot of the table is taken over, or added at its end, and nothing else happens. -/
structure Registered (connections t : List NetCtx) (slot : ℕ) (ctx : NetCtx) : Prop where
  here : t[slot]? = some ctx
  others : ∀ other ≠ slot, t[other]? = connections[other]?
  free : ∀ old, connections[slot]? = some old → old.status = .unused

/-- The context registered for an SSRC that is not in use. -/
structure NewSession (ctx : NetCtx) (ssrc initiator sendSsrc : UInt32) : Prop where
  status : ctx.status = .idle
  ssrc : ctx.ssrc = ssrc
  initiator : ctx.initiator = initiator
  sendSsrc : ctx.sendSsrc = sendSsrc

theorem register_fresh (host : NetHost) {connections : List NetCtx} {ssrc : UInt32}
    (hfind : netCtxFindBySsrc connections ssrc = none) (initiator : UInt32)
    (ipAddress : List UInt8) (port : UInt16) (name : Option (List UInt8)) (random : UInt32)
    (now : UInt64) :
    ∃ t slot ctx, netCtxRegister host connections ssrc initiator ipAddress port name random now =
        (t, some (slot, ctx)) ∧
      Registered connections t slot ctx ∧ NewSession ctx ssrc initiator random ∧
      ctx.controlAddress = host.getSockInfo ipAddress port ∧
      ctx.dataAddress = host.getSockInfo ipAddress (port + 1) := by
  unfold netCtxRegister
  rw [hfind]
  cases hunused : netCtxFindUnused connections with
  | some found =>
    obtain ⟨hslot, hstatus⟩ := find_some hunused
    obtain ⟨hlt, -⟩ := List.getElem?_eq_some_iff.mp hslot
    refine ⟨_, _, _, rfl, ⟨List.getElem?_set_self hlt, fun other hother => ?_, fun old hold => ?_⟩,
      ⟨rfl, rfl, rfl, rfl⟩, rfl, rfl⟩
    · exact List.getElem?_set_ne (Ne.symm hother)
    · cases hslot.symm.trans hold
      simpa using hstatus
  | none =>
    obtain ⟨created, hcreated, -⟩ := exists_created host
    rw [hcreated]
    refine ⟨_, _, _, rfl, ⟨List.getElem?_concat_length, fun other hother => ?_, fun old hold => ?_⟩,
      ⟨rfl, rfl, rfl, rfl⟩, rfl, rfl⟩
    · by_cases hlt : other < connections.length
      · rw [List.getElem?_append_left hlt]
      · rw [List.getElem?_eq_none (by simp; omega), List.getElem?_eq_none (by omega)]
    · rw [List.getElem?_eq_none (le_refl _)] at hold
      cases hold

end RaveloxMidi
