import RaveloxMidi.Transducer
import RaveloxMidi.MidiState

/-!
# The parser as a machine on octets

Here the hold buffer is just the octets it holds, and the ring is a list still
to be read. A step of this machine is one pass of the source's loop; the
concrete parser follows it without ever faulting, so facts about the machine
are facts about `midi_state_send`.
-/
namespace RaveloxMidi
open ByteMemory Transducer

structure Parser where
  status : MidiStateStatus
  runningStatus : UInt8
  hold : List UInt8
  currentDelta : UInt64
  partialSysex : Bool
  deriving Repr, DecidableEq

namespace Parser

/-- A data byte that opens a command under running status. -/
def runningByte (p : Parser) (byte : UInt8) : Parser :=
  let bytesNeeded := midiCommandBytesNeeded p.runningStatus
  { p with
    hold := p.hold ++ [p.runningStatus] ++ [byte]
    status :=
      if bytesNeeded = 1 then .commandReceived
      else if bytesNeeded = 2 then .waitByte1
      else p.status }

/-- A status byte in command position. -/
def statusByte (p : Parser) (byte : UInt8) : Parser :=
  if byte = 0xf0 ∨ (p.partialSysex = true ∧ byte = 0xf7) then
    { p with hold := p.hold ++ [byte], status := .waitEndSysex, runningStatus := 0 }
  else
    let bytesNeeded := midiCommandBytesNeeded (byte &&& 0xf0)
    { p with
      hold := p.hold ++ [byte]
      status :=
        if bytesNeeded = 1 then .waitByte1
        else if bytesNeeded = 2 then .waitByte2
        else .commandReceived
      runningStatus := byte }

def commandByte (p : Parser) (byte : UInt8) : Parser :=
  if byte < 0x80 then if p.runningStatus = 0 then p else p.runningByte byte
  else p.statusByte byte

def dataByte (p : Parser) (byte : UInt8) (next : MidiStateStatus) : Parser :=
  { p with hold := p.hold ++ [byte], status := next }

def sysexByte (p : Parser) (byte : UInt8) : Parser :=
  { p with
    hold := p.hold ++ [byte]
    status :=
      if byte = 0xf0 ∨ byte = 0xf7 ∨ (p.partialSysex = true ∧ byte = 0xf4) then .commandReceived
      else p.status
    partialSysex :=
      if byte = 0xf0 then true
      else if byte = 0xf7 ∨ (p.partialSysex = true ∧ byte = 0xf4) then false
      else p.partialSysex
    runningStatus := 0 }

/-- The branch for a byte that is neither part of a delta time nor real-time. -/
def absorb (p : Parser) (byte : UInt8) : Parser :=
  match p.status with
  | .waitCommand => p.commandByte byte
  | .waitByte2 => p.dataByte byte .waitByte1
  | .waitByte1 => p.dataByte byte .commandReceived
  | .waitEndSysex => p.sysexByte byte
  | _ => p

/-- Emit the held octets as one command. -/
def deliver (mode : MidiParseMode) (p : Parser) (getDelta : Bool) :
    (Parser × Bool) × List MidiCommand :=
  (({ p with hold := [], status := .init }, if mode = .rtp then true else getDelta),
    match p.hold with
    | [] => []
    | status :: data => [midiCommandSet p.currentDelta status data])

def deltaByte (p : Parser) (byte : UInt8) : Parser :=
  { p with
    currentDelta := (p.currentDelta <<< 8) + (byte &&& 0x7f).toUInt64
    status := if byte &&& 0x80 = 0 then .waitCommand else .waitDelta }

/-- Leaving the initial status: a delta time or a command is next. -/
def wake (p : Parser) (getDelta : Bool) : Parser :=
  if p.status = .init then
    { p with status := if getDelta then .waitDelta else .waitCommand, currentDelta := 0 }
  else p

/-- What follows once the parser is awake. -/
def awakeStep (mode : MidiParseMode) (p : Parser) (getDelta : Bool) (byte : UInt8) :
    (Parser × Bool) × List MidiCommand :=
  if p.status = .waitDelta then ((p.deltaByte byte, getDelta), [])
  else if byte ≥ midiTimingClock then
    ((p, getDelta), [midiCommandSet p.currentDelta byte []])
  else if (p.absorb byte).status = .commandReceived then deliver mode (p.absorb byte) getDelta
  else ((p.absorb byte, getDelta), [])

/-- One octet; the flag says whether a delta time precedes the next command. -/
def step (mode : MidiParseMode) (s : Parser × Bool) (byte : UInt8) :
    (Parser × Bool) × List MidiCommand :=
  awakeStep mode (s.1.wake s.2) s.2 byte

def endOfBuffer (mode : MidiParseMode) (p : Parser) : Parser :=
  if mode = .rtp then { p with status := .init } else p

/-- One `midi_state_send` on the queued octets. -/
def send (mode : MidiParseMode) (zFlag : Bool) (p : Parser) (bytes : List UInt8) :
    Parser × List MidiCommand :=
  let final := feed (step mode) (p, zFlag) bytes
  (endOfBuffer mode final.1.1, final.2)

/-- One call on a parser with octets still queued in a ring of the given size. -/
def call (size : ℕ) (s : Parser × List UInt8) :
    MidiStateCall → (Parser × List UInt8) × List MidiCommand
  | .write bytes =>
    (if s.2.length + bytes.length ≤ size then (s.1, s.2 ++ bytes) else s, [])
  | .send mode zFlag => (((send mode zFlag s.1 s.2).1, []), (send mode zFlag s.1 s.2).2)

/-- Octets that are written to an empty ring and parsed. -/
theorem feed_write_send {size : ℕ} {bytes : List UInt8} (hfit : bytes.length ≤ size) (p : Parser)
    (mode : MidiParseMode) (zFlag : Bool) :
    (feed (call size) (p, []) [.write bytes, .send mode zFlag]).2 =
      (send mode zFlag p bytes).2 := by
  simp [feed_cons, call, hfit]

end Parser

namespace Parser

/-- A command is only complete once something has been put into the hold buffer. -/
theorem absorb_hold_ne_nil {p : Parser} (byte : UInt8) (hp : p.status ≠ .commandReceived)
    (h : (p.absorb byte).status = .commandReceived) : (p.absorb byte).hold ≠ [] := by
  cases hs : p.status <;> simp only [absorb, hs] at h ⊢
  case waitCommand =>
    unfold commandByte at h ⊢
    split_ifs at h ⊢
    · exact absurd (hs.symm.trans h) (by simp)
    · simp [runningByte]
    · unfold statusByte
      split_ifs <;> simp
  case commandReceived => exact absurd hs hp
  case init | waitDelta => cases h
  all_goals simp [dataByte, sysexByte]

theorem awakeStep_awaiting {mode : MidiParseMode} {p : Parser} (getDelta : Bool) (byte : UInt8)
    (hp : p.status ≠ .commandReceived) :
    (awakeStep mode p getDelta byte).1.1.status ≠ .commandReceived := by
  unfold awakeStep
  split_ifs with hdelta hrealtime hdone
  · simp only [deltaByte]
    split_ifs <;> simp
  · exact hp
  · simp [deliver]
  · exact hdone

theorem wake_awaiting {p : Parser} (getDelta : Bool) (hp : p.status ≠ .commandReceived) :
    (p.wake getDelta).status ≠ .commandReceived := by
  unfold wake
  split_ifs <;> simp_all

theorem step_awaiting {mode : MidiParseMode} {s : Parser × Bool} (byte : UInt8)
    (h : s.1.status ≠ .commandReceived) : (step mode s byte).1.1.status ≠ .commandReceived :=
  awakeStep_awaiting s.2 byte (wake_awaiting s.2 h)

/-- An octet completes at most one command. -/
theorem step_length_le (mode : MidiParseMode) (s : Parser × Bool) (byte : UInt8) :
    (step mode s byte).2.length ≤ 1 := by
  unfold step awakeStep
  split_ifs
  · exact Nat.zero_le _
  · exact le_refl _
  · simp only [deliver]
    split <;> simp
  · exact Nat.zero_le _

end Parser

/-- The fields of a concrete parser other than its ring, as a machine state. -/
structure MidiState.Follows (s : MidiState) (p : Parser) : Prop where
  status : s.status = p.status
  runningStatus : s.runningStatus = p.runningStatus
  currentDelta : s.currentDelta = p.currentDelta
  partialSysex : s.partialSysex = p.partialSysex
  hold_valid : s.hold.Valid
  hold : s.hold.contents = p.hold

/-- A concrete parser between two passes: its machine state, the octets still
queued, and the size of its ring. -/
structure MidiState.Represents (s : MidiState) (p : Parser) (queue : List UInt8) (size : ℕ) :
    Prop where
  follows : s.Follows p
  awaiting : p.status ≠ .commandReceived
  ring_valid : s.ring.Valid
  queue_eq : s.ring.queue = queue
  size_eq : s.ring.size = size

namespace MidiState

/-- A concrete parser stands for one machine state only. -/
theorem Represents.unique {s : MidiState} {p p' : Parser} {queue queue' : List UInt8}
    {size size' : ℕ} (h : s.Represents p queue size) (h' : s.Represents p' queue' size') :
    p = p' ∧ queue = queue' ∧ size = size' := by
  refine ⟨?_, h.queue_eq.symm.trans h'.queue_eq, h.size_eq.symm.trans h'.size_eq⟩
  obtain ⟨status, runningStatus, hold, currentDelta, partialSysex⟩ := p
  obtain ⟨status', runningStatus', hold', currentDelta', partialSysex'⟩ := p'
  rw [Parser.mk.injEq]
  exact ⟨h.follows.status.symm.trans h'.follows.status,
    h.follows.runningStatus.symm.trans h'.follows.runningStatus,
    h.follows.hold.symm.trans h'.follows.hold,
    h.follows.currentDelta.symm.trans h'.follows.currentDelta,
    h.follows.partialSysex.symm.trans h'.follows.partialSysex⟩

theorem create_eq {size : ℕ} (h : size ≠ 0) : midiStateCreate size =
    some ⟨.init, 0, ringBufferReset size, ⟨0, dbufferDefaultBlockSize, 0, none⟩, 0, false⟩ := by
  simp [midiStateCreate, dbufferCreate, dbufferDefaultBlockSize, ringBufferCreate, h]

theorem create_represents {size : ℕ} {s : MidiState} (h : midiStateCreate size = some s) :
    s.Represents ⟨.init, 0, [], 0, false⟩ [] size ∧ 0 < size := by
  by_cases hsize : size = 0
  · simp [midiStateCreate, dbufferCreate, dbufferDefaultBlockSize, ringBufferCreate, hsize] at h
  · simp only [midiStateCreate, dbufferCreate, dbufferDefaultBlockSize, ringBufferCreate, hsize,
      if_false, Option.pure_def, Option.bind_eq_bind, Option.bind_some, OfNat.ofNat_ne_zero,
      Option.some.injEq] at h
    subst h
    have hpos : 0 < size := Nat.pos_of_ne_zero hsize
    exact ⟨⟨⟨rfl, rfl, rfl, rfl, Dbuffer.valid_create (by decide), rfl⟩, by simp,
      RingBuffer.valid_reset hpos, RingBuffer.queue_reset size, rfl⟩, hpos⟩

theorem Represents.reset {s : MidiState} {p : Parser} {queue : List UInt8} {size : ℕ}
    (h : s.Represents p queue size) :
    (midiStateReset s).Represents ⟨.init, 0, [], p.currentDelta, p.partialSysex⟩ [] size := by
  have hpos : 0 < s.ring.size := h.ring_valid.size_pos
  exact ⟨⟨rfl, rfl, h.follows.currentDelta, h.follows.partialSysex,
      Dbuffer.valid_reset h.follows.hold_valid, Dbuffer.contents_reset _⟩,
    by simp, RingBuffer.valid_reset hpos, RingBuffer.queue_reset _, h.size_eq⟩

/-- Queueing octets that fit. -/
theorem write_represents {s : MidiState} {p : Parser} {queue : List UInt8} {size : ℕ}
    (h : s.Represents p queue size) (bytes : List UInt8)
    (hfit : queue.length + bytes.length ≤ size) :
    ∃ t ret, midiStateWrite s bytes = .ok (t, ret) ∧ t.Represents p (queue ++ bytes) size := by
  by_cases hzero : bytes.length = 0
  · refine ⟨s, 0, by simp [midiStateWrite, hzero, pure, Except.pure], ?_⟩
    simpa [List.length_eq_zero_iff.mp hzero] using h
  · have hused : s.ring.used = queue.length := by rw [← h.queue_eq, RingBuffer.queue_length]
    obtain ⟨ring, hwrite, hvalid, hsize, hqueue⟩ := RingBuffer.write_spec h.ring_valid bytes
      (by rw [hused, h.size_eq]; exact hfit)
    refine ⟨{ s with ring := ring }, 1, ?_, ⟨h.follows.1, h.follows.2, h.follows.3, h.follows.4,
      h.follows.5, h.follows.6⟩, h.awaiting, hvalid, ?_, hsize.trans h.size_eq⟩
    · simp [midiStateWrite, hzero, hwrite, bind, Except.bind, pure, Except.pure]
    · rw [hqueue, h.queue_eq]

/-- Octets that do not fit are dropped as a whole. -/
theorem write_dropped {s : MidiState} {p : Parser} {queue : List UInt8} {size : ℕ}
    (h : s.Represents p queue size) (bytes : List UInt8)
    (hfull : size < queue.length + bytes.length) :
    ∃ ret, midiStateWrite s bytes = .ok (s, ret) := by
  have hused : s.ring.used = queue.length := by rw [← h.queue_eq, RingBuffer.queue_length]
  have hwrite := RingBuffer.write_full (r := s.ring) bytes (by rw [hused, h.size_eq]; exact hfull)
  by_cases hzero : bytes.length = 0
  · exact ⟨0, by simp [midiStateWrite, hzero, pure, Except.pure]⟩
  · exact ⟨1, by simp [midiStateWrite, hzero, hwrite, bind, Except.bind, pure, Except.pure]⟩

theorem hold_follows {s : MidiState} {p : Parser} (h : s.Follows p) (bytes : List UInt8) :
    ∃ t, midiStateHold s bytes = .ok t ∧ t.Follows { p with hold := p.hold ++ bytes } ∧
      t.ring = s.ring := by
  obtain ⟨hold, hwrite, hvalid, hcontents⟩ := Dbuffer.write_spec h.hold_valid bytes
  refine ⟨{ s with hold := hold }, ?_, ⟨h.status, h.runningStatus, h.currentDelta, h.partialSysex,
    hvalid, ?_⟩, rfl⟩
  · simp [midiStateHold, hwrite, bind, Except.bind, pure, Except.pure]
  · rw [hcontents, h.hold]

theorem waitByte_follows {s : MidiState} {p : Parser} (h : s.Follows p) (byte : UInt8)
    (next : MidiStateStatus) :
    ∃ t, midiStateWaitByte s byte next = .ok t ∧ t.Follows (p.dataByte byte next) ∧
      t.ring = s.ring := by
  obtain ⟨t, hhold, ht, hring⟩ := hold_follows h [byte]
  refine ⟨{ t with status := next }, ?_, ⟨rfl, ht.runningStatus, ht.currentDelta, ht.partialSysex,
    ht.hold_valid, ht.hold⟩, hring⟩
  simp [midiStateWaitByte, hhold, bind, Except.bind, pure, Except.pure]

theorem waitCommand_follows {s : MidiState} {p : Parser} (h : s.Follows p) (byte : UInt8) :
    ∃ t, midiStateWaitCommand s byte = .ok t ∧ t.Follows (p.commandByte byte) ∧
      t.ring = s.ring := by
  by_cases hdata : byte < 0x80
  · by_cases hrunning : p.runningStatus = 0
    · refine ⟨s, ?_, ?_, rfl⟩
      · simp [midiStateWaitCommand, hdata, h.runningStatus, hrunning, pure, Except.pure]
      · simpa [Parser.commandByte, hdata, hrunning] using h
    · obtain ⟨t, hfirst, ht, htring⟩ := hold_follows h [s.runningStatus]
      obtain ⟨u, hsecond, hu, huring⟩ := hold_follows ht [byte]
      rw [h.runningStatus] at hu
      by_cases hone : midiCommandBytesNeeded p.runningStatus = 1
      · refine ⟨{ u with status := .commandReceived }, ?_, ?_, huring.trans htring⟩
        · simp [midiStateWaitCommand, hdata, h.runningStatus, hrunning, hone,
            h.runningStatus ▸ hfirst, hsecond, bind, Except.bind, pure, Except.pure]
        · simp only [Parser.commandByte, Parser.runningByte, if_pos hdata, if_neg hrunning,
            if_pos hone]
          exact ⟨rfl, hu.runningStatus, hu.currentDelta, hu.partialSysex, hu.hold_valid, hu.hold⟩
      · by_cases htwo : midiCommandBytesNeeded p.runningStatus = 2
        · refine ⟨{ u with status := .waitByte1 }, ?_, ?_, huring.trans htring⟩
          · simp [midiStateWaitCommand, hdata, h.runningStatus, hrunning, htwo,
              h.runningStatus ▸ hfirst, hsecond, bind, Except.bind, pure, Except.pure]
          · simp only [Parser.commandByte, Parser.runningByte, if_pos hdata, if_neg hrunning,
              if_neg hone, if_pos htwo]
            exact ⟨rfl, hu.runningStatus, hu.currentDelta, hu.partialSysex, hu.hold_valid, hu.hold⟩
        · refine ⟨u, ?_, ?_, huring.trans htring⟩
          · simp [midiStateWaitCommand, hdata, h.runningStatus, hrunning, hone, htwo,
              h.runningStatus ▸ hfirst, hsecond, bind, Except.bind, pure, Except.pure]
          · simp only [Parser.commandByte, Parser.runningByte, if_pos hdata, if_neg hrunning,
              if_neg hone, if_neg htwo]
            exact hu
  · obtain ⟨t, hhold, ht, hring⟩ := hold_follows h [byte]
    have hnotEnd : byte ≠ midiEndSysex := by
      intro he
      subst he
      exact hdata (by decide)
    have hunfinished : t.partialSysex = p.partialSysex := ht.partialSysex
    by_cases hsysex : byte = 0xf0 ∨ (p.partialSysex = true ∧ byte = 0xf7)
    · refine ⟨{ t with status := .waitEndSysex, runningStatus := 0 }, ?_, ?_, hring⟩
      · simp only [midiStateWaitCommand, if_neg hdata, hhold, hunfinished, if_pos hsysex, bind,
          Except.bind, pure, Except.pure]
      · simp only [Parser.commandByte, Parser.statusByte, if_neg hdata, if_pos hsysex]
        exact ⟨rfl, rfl, ht.currentDelta, ht.partialSysex, ht.hold_valid, ht.hold⟩
    · refine ⟨{ t with
        status := if midiCommandBytesNeeded (byte &&& 0xf0) = 1 then .waitByte1
          else if midiCommandBytesNeeded (byte &&& 0xf0) = 2 then .waitByte2
          else .commandReceived
        runningStatus := byte }, ?_, ?_, hring⟩
      · simp only [midiStateWaitCommand, if_neg hdata, hhold, hunfinished, if_neg hsysex,
          if_neg hnotEnd, bind, Except.bind, pure, Except.pure]
      · simp only [Parser.commandByte, Parser.statusByte, if_neg hdata, if_neg hsysex]
        exact ⟨rfl, rfl, ht.currentDelta, ht.partialSysex, ht.hold_valid, ht.hold⟩

theorem waitEndSysex_follows {s : MidiState} {p : Parser} (h : s.Follows p) (byte : UInt8) :
    ∃ t, midiStateWaitEndSysex s byte = .ok t ∧ t.Follows (p.sysexByte byte) ∧
      t.ring = s.ring := by
  obtain ⟨t, hhold, ht, hring⟩ := hold_follows h [byte]
  have hstatus : t.status = p.status := ht.status
  have hunfinished : t.partialSysex = p.partialSysex := ht.partialSysex
  refine ⟨{ t with
    status := (p.sysexByte byte).status
    partialSysex := (p.sysexByte byte).partialSysex
    runningStatus := 0 }, ?_, ⟨rfl, rfl, ht.currentDelta, rfl, ht.hold_valid, ht.hold⟩, hring⟩
  simp only [midiStateWaitEndSysex, hhold, Parser.sysexByte, bind, Except.bind, pure, Except.pure]
  by_cases hopen : byte = 0xf0
  · subst hopen
    by_cases hp : p.partialSysex = true <;> simp [hunfinished, hp]
  · by_cases hclose : byte = 0xf7 ∨ (p.partialSysex = true ∧ byte = 0xf4)
    · simp [hopen, hclose, hunfinished]
    · simp [hopen, hclose, hunfinished, hstatus]

theorem deliver_follows {s : MidiState} {p : Parser} (h : s.Follows p) (mode : MidiParseMode)
    (getDelta : Bool) (hne : p.hold ≠ []) :
    ∃ t, midiStateDeliver mode s getDelta =
        .ok (t, (Parser.deliver mode p getDelta).1.2, (Parser.deliver mode p getDelta).2) ∧
      t.Follows (Parser.deliver mode p getDelta).1.1 ∧ t.ring = s.ring := by
  have hread := Dbuffer.read_spec h.hold_valid
  rw [h.hold] at hread
  cases hbytes : p.hold with
  | nil => exact absurd hbytes hne
  | cons status data =>
    rw [hbytes] at hread
    refine ⟨{ s with hold := dbufferReset s.hold, status := .init }, ?_,
      ⟨rfl, h.runningStatus, h.currentDelta, h.partialSysex, Dbuffer.valid_reset h.hold_valid,
        Dbuffer.contents_reset s.hold⟩, rfl⟩
    simp [midiStateDeliver, hread, Parser.deliver, hbytes, h.currentDelta, bind, Except.bind,
      pure, Except.pure]

theorem absorb_follows {s : MidiState} {p : Parser} (h : s.Follows p) (byte : UInt8) :
    ∃ t, midiStateAbsorb s byte = .ok t ∧ t.Follows (p.absorb byte) ∧ t.ring = s.ring := by
  unfold midiStateAbsorb
  rw [h.status]
  cases hs : p.status <;> simp only [Parser.absorb, hs]
  case waitCommand => exact waitCommand_follows h byte
  case waitByte2 => exact waitByte_follows h byte .waitByte1
  case waitByte1 => exact waitByte_follows h byte .commandReceived
  case waitEndSysex => exact waitEndSysex_follows h byte
  all_goals exact ⟨s, rfl, h, rfl⟩

theorem wake_follows {s : MidiState} {p : Parser} (h : s.Follows p) (getDelta : Bool) :
    (if s.status = .init then
      { s with
        status := if getDelta then .waitDelta else .waitCommand
        currentDelta := 0 }
    else s : MidiState).Follows (p.wake getDelta) := by
  unfold Parser.wake
  rw [h.status]
  by_cases hinit : p.status = .init
  · simp only [if_pos hinit]
    exact ⟨rfl, h.runningStatus, rfl, h.partialSysex, h.hold_valid, h.hold⟩
  · simp only [if_neg hinit]
    exact h

/-- One pass of the loop is one step of the machine. -/
theorem sendByte_follows {s : MidiState} {p : Parser} (h : s.Follows p)
    (hp : p.status ≠ .commandReceived) (mode : MidiParseMode) (getDelta : Bool) (byte : UInt8) :
    ∃ t, midiStateSendByte mode s getDelta byte =
        .ok (t, (Parser.step mode (p, getDelta) byte).1.2,
          (Parser.step mode (p, getDelta) byte).2) ∧
      t.Follows (Parser.step mode (p, getDelta) byte).1.1 ∧ t.ring = s.ring := by
  obtain ⟨w, hw⟩ : ∃ w : MidiState, w = if s.status = .init then
      { s with
        status := if getDelta then .waitDelta else .waitCommand
        currentDelta := 0 }
    else s := ⟨_, rfl⟩
  have hfollows : w.Follows (p.wake getDelta) := hw ▸ wake_follows h getDelta
  have hring : w.ring = s.ring := by rw [hw]; split_ifs <;> rfl
  simp only [midiStateSendByte, ← hw, Parser.step, Parser.awakeStep, hfollows.status]
  by_cases hdelta : (p.wake getDelta).status = .waitDelta
  · refine ⟨{ w with
      currentDelta := (w.currentDelta <<< 8) + (byte &&& 0x7f).toUInt64
      status := if byte &&& 0x80 = 0 then .waitCommand else .waitDelta },
      by simp only [if_pos hdelta]; rfl, ?_, hring⟩
    simp only [if_pos hdelta, Parser.deltaByte]
    exact ⟨rfl, hfollows.runningStatus, by simp only [hfollows.currentDelta],
      hfollows.partialSysex, hfollows.hold_valid, hfollows.hold⟩
  · by_cases hrealtime : byte ≥ midiTimingClock
    · refine ⟨w, by simp only [if_neg hdelta, if_pos hrealtime, hfollows.currentDelta]; rfl, ?_,
        hring⟩
      simpa only [if_neg hdelta, if_pos hrealtime] using hfollows
    · obtain ⟨t, habsorb, ht, htring⟩ := absorb_follows hfollows byte
      by_cases hdone : ((p.wake getDelta).absorb byte).status = .commandReceived
      · have hne := Parser.absorb_hold_ne_nil byte (Parser.wake_awaiting getDelta hp) hdone
        obtain ⟨u, hdeliver, hu, huring⟩ := deliver_follows ht mode getDelta hne
        refine ⟨u, ?_, ?_, huring.trans (htring.trans hring)⟩
        · simp only [if_neg hdelta, if_neg hrealtime, habsorb, bind, Except.bind, ht.status,
            if_pos hdone, hdeliver]
        · simpa only [if_neg hdelta, if_neg hrealtime, if_pos hdone] using hu
      · refine ⟨t, ?_, ?_, htring.trans hring⟩
        · simp only [if_neg hdelta, if_neg hrealtime, habsorb, bind, Except.bind, ht.status,
            if_neg hdone, pure, Except.pure]
        · simpa only [if_neg hdelta, if_neg hrealtime, if_neg hdone] using ht

/-- A pass that takes an octet off the ring. -/
theorem pass_represents {s : MidiState} {p : Parser} {byte : UInt8} {queue : List UInt8} {size : ℕ}
    (h : s.Represents p (byte :: queue) size) (mode : MidiParseMode) (getDelta : Bool) :
    ∃ r t, midiStateReadByte s = .ok (r, some byte) ∧
      midiStateSendByte mode r getDelta byte =
        .ok (t, (Parser.step mode (p, getDelta) byte).1.2,
          (Parser.step mode (p, getDelta) byte).2) ∧
      t.Represents (Parser.step mode (p, getDelta) byte).1.1 queue size := by
  obtain ⟨ring, hread, hvalid, hsize, hqueue⟩ := RingBuffer.readByte_cons h.ring_valid h.queue_eq
  have hfollows : ({ s with ring := ring } : MidiState).Follows p :=
    ⟨h.follows.1, h.follows.2, h.follows.3, h.follows.4, h.follows.5, h.follows.6⟩
  obtain ⟨t, hbyte, ht, hring⟩ := sendByte_follows hfollows h.awaiting mode getDelta byte
  refine ⟨{ s with ring := ring }, t, ?_, hbyte, ht, Parser.step_awaiting byte h.awaiting,
    hring ▸ hvalid, hring ▸ hqueue, hring ▸ hsize.trans h.size_eq⟩
  simp [midiStateReadByte, hread, bind, Except.bind, pure, Except.pure]

/-- The loop reads the queue to its end: by induction on the queued octets. -/
theorem sendLoop_represents (mode : MidiParseMode) (queue : List UInt8) {s : MidiState}
    {p : Parser} {size : ℕ} (h : s.Represents p queue size) (getDelta : Bool) (fuel : ℕ)
    (hfuel : queue.length < fuel) :
    ∃ t, midiStateSendLoop mode fuel s getDelta =
        .ok (t, (feed (Parser.step mode) (p, getDelta) queue).2) ∧
      t.Represents (Parser.endOfBuffer mode (feed (Parser.step mode) (p, getDelta) queue).1.1)
        [] size := by
  induction queue generalizing s p getDelta fuel with
  | nil =>
    obtain ⟨fuel, rfl⟩ := Nat.exists_eq_succ_of_ne_zero (Nat.ne_of_gt hfuel)
    have hread := RingBuffer.readByte_nil h.queue_eq true
    refine ⟨midiStateEndOfBuffer mode s, ?_, ?_⟩
    · simp [midiStateSendLoop, midiStateReadByte, hread, bind, Except.bind, pure, Except.pure]
    · cases mode with
      | simple =>
        simpa [midiStateEndOfBuffer, Parser.endOfBuffer] using h
      | rtp =>
        simp only [midiStateEndOfBuffer, Parser.endOfBuffer, feed_nil, if_true]
        exact ⟨⟨rfl, h.follows.2, h.follows.3, h.follows.4, h.follows.5, h.follows.6⟩, by simp,
          h.ring_valid, h.queue_eq, h.size_eq⟩
  | cons byte queue ih =>
    obtain ⟨fuel, rfl⟩ := Nat.exists_eq_succ_of_ne_zero (Nat.ne_of_gt (Nat.zero_lt_of_lt hfuel))
    obtain ⟨r, t, hread, hbyte, ht⟩ := pass_represents h mode getDelta
    obtain ⟨u, hloop, hu⟩ := ih ht (Parser.step mode (p, getDelta) byte).1.2 fuel
      (by simpa using hfuel)
    refine ⟨u, ?_, hu⟩
    simp [midiStateSendLoop, hread, hbyte, hloop, feed_cons, bind, Except.bind, pure, Except.pure]

/-- `midi_state_send` is the machine run over the whole queue, and empties it. -/
theorem send_represents {s : MidiState} {p : Parser} {queue : List UInt8} {size : ℕ}
    (h : s.Represents p queue size) (mode : MidiParseMode) (zFlag : Bool) :
    ∃ t, midiStateSend s mode zFlag = .ok (t, (Parser.send mode zFlag p queue).2) ∧
      t.Represents (Parser.send mode zFlag p queue).1 [] size := by
  have hused : s.ring.used = queue.length := by rw [← h.queue_eq, RingBuffer.queue_length]
  exact sendLoop_represents mode queue h zFlag _ (by omega)

theorem call_represents {size : ℕ} {s : MidiState} {p : Parser × List UInt8}
    (h : s.Represents p.1 p.2 size) (call : MidiStateCall) :
    ∃ t, midiStateCall s call = .ok (t, (Parser.call size p call).2) ∧
      t.Represents (Parser.call size p call).1.1 (Parser.call size p call).1.2 size := by
  cases call with
  | write bytes =>
    simp only [Parser.call, midiStateCall]
    by_cases hfit : p.2.length + bytes.length ≤ size
    · obtain ⟨t, ret, hwrite, ht⟩ := write_represents h bytes hfit
      refine ⟨t, by simp [hwrite, bind, Except.bind, pure, Except.pure], ?_⟩
      simpa only [if_pos hfit] using ht
    · obtain ⟨ret, hwrite⟩ := write_dropped h bytes (by omega)
      refine ⟨s, by simp [hwrite, bind, Except.bind, pure, Except.pure], ?_⟩
      simpa only [if_neg hfit] using h
  | send mode zFlag => exact send_represents h mode zFlag

/-- A run of calls never faults, whatever is written. -/
theorem calls_represent {size : ℕ} {s : MidiState} {p : Parser × List UInt8}
    (h : s.Represents p.1 p.2 size) (calls : List MidiStateCall) :
    ∃ t, run midiStateCall s calls = .ok (t, (feed (Parser.call size) p calls).2) ∧
      t.Represents (feed (Parser.call size) p calls).1.1 (feed (Parser.call size) p calls).1.2
        size :=
  run_simulates (R := fun (s : MidiState) (p : Parser × List UInt8) => s.Represents p.1 p.2 size)
    (fun _ _ call h => call_represents h call) h calls

section BlockSize
variable {s t : MidiState}

theorem hold_blockSize {bytes : List UInt8} (hok : midiStateHold s bytes = .ok t) :
    t.hold.blockSize = s.hold.blockSize := by
  obtain ⟨written, hwrite, hok⟩ := bind_ok hok
  cases hok
  unfold dbufferWrite at hwrite
  dsimp only at hwrite
  split_ifs at hwrite
  · obtain ⟨cleared, -, hwrite⟩ := bind_ok hwrite
    obtain ⟨block, -, hwrite⟩ := bind_ok hwrite
    cases hwrite
    rfl
  · obtain ⟨block, -, hwrite⟩ := bind_ok hwrite
    cases hwrite
    rfl

theorem waitCommand_blockSize {byte : UInt8} (hok : midiStateWaitCommand s byte = .ok t) :
    t.hold.blockSize = s.hold.blockSize := by
  unfold midiStateWaitCommand at hok
  by_cases hdata : byte < 0x80
  · rw [if_pos hdata] at hok
    by_cases hrunning : s.runningStatus = 0
    · rw [if_pos hrunning] at hok
      cases hok
      rfl
    · rw [if_neg hrunning] at hok
      obtain ⟨first, hfirst, hok⟩ := bind_ok hok
      obtain ⟨second, hsecond, hok⟩ := bind_ok hok
      have hsize := (hold_blockSize hsecond).trans (hold_blockSize hfirst)
      split_ifs at hok <;> cases hok <;> exact hsize
  · rw [if_neg hdata] at hok
    obtain ⟨held, hheld, hok⟩ := bind_ok hok
    have hsize := hold_blockSize hheld
    split_ifs at hok <;> cases hok <;> exact hsize

theorem waitEndSysex_blockSize {byte : UInt8} (hok : midiStateWaitEndSysex s byte = .ok t) :
    t.hold.blockSize = s.hold.blockSize := by
  obtain ⟨held, hheld, hok⟩ := bind_ok hok
  have hsize := hold_blockSize hheld
  cases hok
  dsimp only
  split_ifs <;> exact hsize

theorem absorb_blockSize {byte : UInt8} (hok : midiStateAbsorb s byte = .ok t) :
    t.hold.blockSize = s.hold.blockSize := by
  unfold midiStateAbsorb at hok
  split at hok
  · exact waitCommand_blockSize hok
  · obtain ⟨held, hheld, hok⟩ := bind_ok hok
    cases hok
    exact hold_blockSize (t := held) hheld
  · obtain ⟨held, hheld, hok⟩ := bind_ok hok
    cases hok
    exact hold_blockSize (t := held) hheld
  · exact waitEndSysex_blockSize hok
  · cases hok
    rfl

theorem deliver_blockSize {mode : MidiParseMode} {getDelta getDelta' : Bool}
    {commands : List MidiCommand}
    (hok : midiStateDeliver mode s getDelta = .ok (t, getDelta', commands)) :
    t.hold.blockSize = s.hold.blockSize := by
  obtain ⟨buffer, -, hok⟩ := bind_ok hok
  cases buffer with
  | nil => cases hok
  | cons status data =>
    cases hok
    rfl

theorem sendByte_blockSize {mode : MidiParseMode} {getDelta getDelta' : Bool} {byte : UInt8}
    {commands : List MidiCommand}
    (hok : midiStateSendByte mode s getDelta byte = .ok (t, getDelta', commands)) :
    t.hold.blockSize = s.hold.blockSize := by
  unfold midiStateSendByte at hok
  dsimp only at hok
  obtain ⟨awake, hawake⟩ : ∃ awake, awake = (if s.status = .init then
      { s with status := if getDelta then .waitDelta else .waitCommand, currentDelta := 0 }
    else s) := ⟨_, rfl⟩
  have hsize : awake.hold.blockSize = s.hold.blockSize := by
    rw [hawake]
    split_ifs <;> rfl
  rw [← hawake] at hok
  by_cases hdelta : awake.status = .waitDelta
  · rw [if_pos hdelta] at hok
    cases hok
    exact hsize
  rw [if_neg hdelta] at hok
  by_cases hrealtime : byte ≥ midiTimingClock
  · rw [if_pos hrealtime] at hok
    cases hok
    exact hsize
  · rw [if_neg hrealtime] at hok
    obtain ⟨absorbed, habsorbed, hok⟩ := bind_ok hok
    have hnext := (absorb_blockSize habsorbed).trans hsize
    split_ifs at hok
    · exact (deliver_blockSize hok).trans hnext
    · cases hok
      exact hnext

/-- The hold buffer keeps its block size: by induction on the passes. -/
theorem sendLoop_blockSize {mode : MidiParseMode} {fuel : ℕ} {getDelta : Bool}
    {commands : List MidiCommand}
    (hok : midiStateSendLoop mode fuel s getDelta = .ok (t, commands)) :
    t.hold.blockSize = s.hold.blockSize := by
  induction fuel generalizing s getDelta commands with
  | zero => cases hok
  | succ fuel ih =>
    obtain ⟨⟨r, byte⟩, hread, hok⟩ := bind_ok hok
    have hring : r.hold.blockSize = s.hold.blockSize := by
      obtain ⟨read, -, hread⟩ := bind_ok hread
      cases hread
      rfl
    cases byte with
    | none =>
      cases hok
      unfold midiStateEndOfBuffer
      split_ifs <;> exact hring
    | some byte =>
      obtain ⟨⟨passed, getDelta', now⟩, hpass, hok⟩ := bind_ok hok
      obtain ⟨⟨last, later⟩, hlater, hok⟩ := bind_ok hok
      cases hok
      exact (ih hlater).trans ((sendByte_blockSize hpass).trans hring)

theorem write_blockSize {bytes : List UInt8} {ret : ℕ}
    (hok : midiStateWrite s bytes = .ok (t, ret)) : t.hold.blockSize = s.hold.blockSize := by
  unfold midiStateWrite at hok
  split_ifs at hok
  · cases hok
    rfl
  · obtain ⟨written, -, hok⟩ := bind_ok hok
    cases hok
    rfl

end BlockSize

end MidiState
end RaveloxMidi
