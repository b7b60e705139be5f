import RaveloxMidi.RingBuffer
import RaveloxMidi.Dbuffer
import RaveloxMidi.MidiCommand

/-!
# The MIDI parser

One parser belongs to a local socket or to a connection. `midi_state_write`
queues octets in its ring; `midi_state_send` takes them out one at a time,
collects each command in the hold buffer and hands it to the sender. The loop
is cut at its branches: each wait state has its own function, and the common
tail delivers a command once its last octet is in.
-/
namespace RaveloxMidi
open ByteMemory

inductive MidiStateStatus where
  | init
  | waitDelta
  | waitCommand
  | waitByte1
  | waitByte2
  | waitEndSysex
  | commandReceived
  deriving Repr, DecidableEq

inductive MidiParseMode where
  | simple
  | rtp
  deriving Repr, DecidableEq

structure MidiState where
  status : MidiStateStatus
  runningStatus : UInt8
  ring : RingBuffer
  hold : Dbuffer
  currentDelta : UInt64
  partialSysex : Bool
  deriving Repr, DecidableEq

/-- The enumeration constant `MIDI_TIMING_CLOCK`. -/
def midiTimingClock : UInt8 := 0xf8

/-- The enumeration constant `MIDI_END_SYSEX`, which follows `MIDI_TUNE_REQUEST`
in counting from zero: it is not the octet 0xF7. -/
def midiEndSysex : UInt8 := 13

/-- `current_delta` is left unset by the source; it is cleared before the first
octet is looked at. -/
def midiStateCreate (bufferSize : ℕ) : Option MidiState := do
  let hold ← dbufferCreate dbufferDefaultBlockSize
  let ring ← ringBufferCreate bufferSize
  return ⟨.init, 0, ring, hold, 0, false⟩

def midiStateReset (state : MidiState) : MidiState :=
  { state with
    status := .init
    runningStatus := 0
    hold := dbufferReset state.hold
    ring := ringBufferReset (ringBufferGetSize state.ring) }

/-- The result of the ring write is not looked at. -/
def midiStateWrite (state : MidiState) (inBuffer : List UInt8) : Except Fault (MidiState × ℕ) := do
  if inBuffer.length = 0 then return (state, 0)
  let (ring, _) ← ringBufferWrite state.ring inBuffer
  return ({ state with ring := ring }, 1)

def midiStateCharCompare (state : MidiState) (compare : UInt8) (index : ℕ) : Except Fault Bool :=
  ringBufferCharCompare state.ring compare index

def midiStateCompare (state : MidiState) (compare : List UInt8) (compareLen : ℕ) :
    Except Fault ℤ :=
  ringBufferCompare state.ring compare compareLen

def midiStateDrain (state : MidiState) : Except Fault (MidiState × Option (List UInt8)) := do
  let (ring, data) ← ringBufferDrain state.ring
  return ({ state with ring := ring }, data)

def midiStateAdvance (state : MidiState) (steps : ℕ) : MidiState :=
  { state with ring := ringBufferAdvance state.ring steps }

def midiStateReadByte (state : MidiState) : Except Fault (MidiState × Option UInt8) := do
  let (ring, byte) ← ringBufferReadByte state.ring true
  return ({ state with ring := ring }, byte)

/-- Append octets to the hold buffer. -/
def midiStateHold (state : MidiState) (bytes : List UInt8) : Except Fault MidiState := do
  let (hold, _) ← dbufferWrite state.hold bytes
  return { state with hold := hold }

/-- The branch for `MIDI_STATE_WAIT_COMMAND`. -/
def midiStateWaitCommand (state : MidiState) (byte : UInt8) : Except Fault MidiState := do
  if byte < 0x80 then
    -- a data byte without running status is skipped
    if state.runningStatus = 0 then return state
    let bytesNeeded := midiCommandBytesNeeded state.runningStatus
    let state ← midiStateHold state [state.runningStatus]
    let state ← midiStateHold state [byte]
    if bytesNeeded = 1 then return { state with status := .commandReceived }
    else if bytesNeeded = 2 then return { state with status := .waitByte1 }
    else return state
  else
    let state ← midiStateHold state [byte]
    if byte = 0xf0 ∨ (state.partialSysex = true ∧ byte = 0xf7) then
      return { state with status := .waitEndSysex, runningStatus := 0 }
    else if byte = midiEndSysex then
      return { state with status := .commandReceived, runningStatus := 0 }
    else
      let bytesNeeded := midiCommandBytesNeeded (byte &&& 0xf0)
      let status : MidiStateStatus :=
        if bytesNeeded = 1 then .waitByte1
        else if bytesNeeded = 2 then .waitByte2
        else .commandReceived
      return { state with status := status, runningStatus := byte }

/-- The branches for `MIDI_STATE_WAIT_BYTE_2` and `MIDI_STATE_WAIT_BYTE_1`. -/
def midiStateWaitByte (state : MidiState) (byte : UInt8) (next : MidiStateStatus) :
    Except Fault MidiState := do
  let state ← midiStateHold state [byte]
  return { state with status := next }

/-- The branch for `MIDI_STATE_WAIT_END_SYSEX`. -/
def midiStateWaitEndSysex (state : MidiState) (byte : UInt8) : Except Fault MidiState := do
  let state ← midiStateHold state [byte]
  let state : MidiState :=
    if byte = 0xf7 ∨ (state.partialSysex = true ∧ byte = 0xf4) then
      { state with status := .commandReceived, partialSysex := false }
    else state
  let state : MidiState :=
    if byte = 0xf0 then { state with status := .commandReceived, partialSysex := true } else state
  return { state with runningStatus := 0 }

/-- The chain of branches that put an octet into the hold buffer. -/
def midiStateAbsorb (state : MidiState) (byte : UInt8) : Except Fault MidiState :=
  match state.status with
  | .waitCommand => midiStateWaitCommand state byte
  | .waitByte2 => midiStateWaitByte state byte .waitByte1
  | .waitByte1 => midiStateWaitByte state byte .commandReceived
  | .waitEndSysex => midiStateWaitEndSysex state byte
  | _ => .ok state

/-- The tail of the loop for a complete command: `buffer_value[0]` is the status. -/
def midiStateDeliver (mode : MidiParseMode) (state : MidiState) (getDelta : Bool) :
    Except Fault (MidiState × Bool × List MidiCommand) := do
  let buffer ← dbufferRead state.hold
  match buffer with
  | [] => .error .outOfBounds
  | status :: data =>
    return ({ state with hold := dbufferReset state.hold, status := .init },
      (if mode = .rtp then true else getDelta), [midiCommandSet state.currentDelta status data])

/-- One pass of the loop, from the octet just read to the end of the pass. -/
def midiStateSendByte (mode : MidiParseMode) (state : MidiState) (getDelta : Bool) (byte : UInt8) :
    Except Fault (MidiState × Bool × List MidiCommand) := do
  let state : MidiState :=
    if state.status = .init then
      { state with
        status := if getDelta then .waitDelta else .waitCommand
        currentDelta := 0 }
    else state
  if state.status = .waitDelta then
    let delta := (state.currentDelta <<< 8) + (byte &&& 0x7f).toUInt64
    -- the final octet of a delta time does not have bit 7 set
    let status : MidiStateStatus := if byte &&& 0x80 = 0 then .waitCommand else .waitDelta
    return ({ state with currentDelta := delta, status := status }, getDelta, [])
  else if byte ≥ midiTimingClock then
    return (state, getDelta, [midiCommandSet state.currentDelta byte []])
  else
    let state ← midiStateAbsorb state byte
    if state.status = .commandReceived then midiStateDeliver mode state getDelta
    else return (state, getDelta, [])

/-- What the loop does when no octet is left. -/
def midiStateEndOfBuffer (mode : MidiParseMode) (state : MidiState) : MidiState :=
  if mode = .rtp then { state with status := .init } else state

/-- The loop, with fuel for its passes. -/
def midiStateSendLoop (mode : MidiParseMode) :
    ℕ → MidiState → Bool → Except Fault (MidiState × List MidiCommand)
  | 0, _, _ => .error .uninitialised
  | fuel + 1, state, getDelta => do
    let (state, byte) ← midiStateReadByte state
    match byte with
    | none => return (midiStateEndOfBuffer mode state, [])
    | some byte =>
      let (state, getDelta, now) ← midiStateSendByte mode state getDelta byte
      let (state, later) ← midiStateSendLoop mode fuel state getDelta
      return (state, now ++ later)

/-- The final state and the commands handed to the sender, in order. Every pass
but the last takes one octet off the ring, so this much fuel is never used up. -/
def midiStateSend (state : MidiState) (mode : MidiParseMode) (zFlag : Bool) :
    Except Fault (MidiState × List MidiCommand) :=
  midiStateSendLoop mode (state.ring.used + 1) state zFlag

/-- The calls made on one parser. -/
inductive MidiStateCall where
  | write (bytes : List UInt8)
  | send (mode : MidiParseMode) (zFlag : Bool)
  deriving Repr, DecidableEq

def midiStateCall (state : MidiState) : MidiStateCall → Except Fault (MidiState × List MidiCommand)
  | .write bytes => do
    let (state, _) ← midiStateWrite state bytes
    return (state, [])
  | .send mode zFlag => midiStateSend state mode zFlag

end RaveloxMidi
