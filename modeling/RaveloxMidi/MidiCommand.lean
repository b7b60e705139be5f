import RaveloxMidi.ByteMemory

/-!
# MIDI commands

The message table, the number of data bytes a status calls for, and the three
readers that turn a channel command into a note, a control change or a program
change. The readers take `data[0]` and `data[1]` on trust: a read past
`data_len` is a fault here.
-/
namespace RaveloxMidi
open ByteMemory

inductive MidiMessageType where
  | null
  | noteOff
  | noteOn
  | polyPressure
  | controlChange
  | programChange
  | channelPressure
  | pitchBend
  | sysex
  | timeCodeQf
  | songPosition
  | songSelect
  | tuneRequest
  | endSysex
  | timingClock
  | start
  | continue
  | stop
  | activeSensing
  | reset
  deriving Repr, DecidableEq

structure MidiMessage where
  message : UInt8
  type : MidiMessageType
  description : String
  len : UInt8
  deriving Repr

/-- The table without its terminating null entry. -/
def midiMessageMap : List MidiMessage := [
  ⟨0x8, .noteOff, "Note Off", 2⟩,
  ⟨0x9, .noteOn, "Note On", 2⟩,
  ⟨0xa, .polyPressure, "Polyphonic Key Pressure (Aftertouch)", 2⟩,
  ⟨0xb, .controlChange, "Control Change", 2⟩,
  ⟨0xc, .programChange, "Program Change", 1⟩,
  ⟨0xd, .channelPressure, "Channel Pressure (Aftertouch)", 1⟩,
  ⟨0xe, .pitchBend, "Pitch Bend Change", 2⟩,
  ⟨0xf0, .sysex, "System Exclusive", 0⟩,
  ⟨0xf1, .timeCodeQf, "Midi Time Code QF", 1⟩,
  ⟨0xf2, .songPosition, "Song Position", 2⟩,
  ⟨0xf3, .songSelect, "Song Select", 1⟩,
  ⟨0xf4, .null, "Reserved", 0⟩,
  ⟨0xf5, .null, "Reserved", 0⟩,
  ⟨0xf6, .tuneRequest, "Tune Request", 0⟩,
  ⟨0xf7, .endSysex, "End SysEx", 0⟩,
  ⟨0xf8, .timingClock, "Timing Clock", 0⟩,
  ⟨0xf9, .null, "Reserved", 0⟩,
  ⟨0xfa, .start, "Start", 0⟩,
  ⟨0xfb, .continue, "Continue", 0⟩,
  ⟨0xfc, .stop, "Stop", 0⟩,
  ⟨0xfd, .null, "Reserved", 0⟩,
  ⟨0xfe, .activeSensing, "Active Sensing", 0⟩,
  ⟨0xff, .reset, "RESET", 0⟩]

/-- `data_len` is the length of `data`; a null `data` and an empty one are read alike. -/
structure MidiCommand where
  delta : UInt64
  status : UInt8
  data : List UInt8
  deriving Repr, DecidableEq

/-- Status byte and data bytes, without the time stamp. -/
def MidiCommand.content (command : MidiCommand) : UInt8 × List UInt8 :=
  (command.status, command.data)

def midiCommandSet (delta : UInt64) (status : UInt8) (data : List UInt8) : MidiCommand :=
  ⟨delta, status, data⟩

def midiCommandMap (command : MidiCommand) : String × MidiMessageType :=
  let found := midiMessageMap.find? (fun entry =>
    if command.status ≥ 0xf0 then entry.message == command.status
    else entry.message == (command.status &&& 0xf0) >>> 4)
  match found with
  | some entry => (entry.description, entry.type)
  | none => ("Unknown", .null)

def midiCommandBytesNeeded (command : UInt8) : UInt8 :=
  let command := if command < 0xf0 then (command &&& 0xf0) >>> 4 else command
  match midiMessageMap.find? (fun entry => entry.message == command) with
  | some entry => entry.len
  | none => 0

/-- Both ways to make a note mask its number and velocity to seven bits. -/
structure MidiNote where
  channel : Fin 16
  command : Fin 16
  note : Fin 128
  velocity : Fin 128
  deriving Repr, DecidableEq

def midiCommandNoteOn : Fin 16 := 0x09
def midiCommandNoteOff : Fin 16 := 0x08

structure MidiControl where
  channel : Fin 16
  command : Fin 16
  controllerNumber : UInt8
  controllerValue : UInt8
  deriving Repr, DecidableEq

structure MidiProgram where
  channel : Fin 16
  command : Fin 16
  program : UInt8
  deriving Repr, DecidableEq

/-- The low and high halves of the status byte, as the bit-fields lay them out. -/
def MidiCommand.channel (command : MidiCommand) : Fin 16 :=
  ⟨command.status.toNat % 16, Nat.mod_lt _ (by decide)⟩

def MidiCommand.message (command : MidiCommand) : Fin 16 :=
  ⟨command.status.toNat / 16, by have := command.status.toNat_lt; omega⟩

/-- `command->data[i]`. -/
def MidiCommand.dataAt (command : MidiCommand) (i : ℕ) : Except Fault UInt8 :=
  match command.data[i]? with
  | some byte => .ok byte
  | none => .error .outOfBounds

/-- `byte & 0x7f`. -/
def lowSevenBits (byte : UInt8) : Fin 128 := ⟨byte.toNat % 128, Nat.mod_lt _ (by decide)⟩

def midiNoteFromCommand (command : MidiCommand) : Except Fault MidiNote := do
  if command.data.length > 0 then
    let note ← command.dataAt 0
    let velocity ← command.dataAt 1
    return ⟨command.channel, command.message, lowSevenBits note, lowSevenBits velocity⟩
  else
    return ⟨command.channel, command.message, 0, 0⟩

def midiControlFromCommand (command : MidiCommand) : Except Fault MidiControl := do
  if command.data.length > 0 then
    let number ← command.dataAt 0
    let value ← command.dataAt 1
    return ⟨command.channel, command.message, number &&& 0x7f, value &&& 0x7f⟩
  else
    return ⟨command.channel, command.message, 0, 0⟩

def midiProgramFromCommand (command : MidiCommand) : Except Fault MidiProgram := do
  if command.data.length > 0 then
    let program ← command.dataAt 0
    return ⟨command.channel, command.message, program &&& 0x7f⟩
  else
    return ⟨command.channel, command.message, 0⟩

/-- What the sender keeps of a command for the journals. -/
inductive MidiEvent where
  | note (midiNote : MidiNote)
  | control (midiControl : MidiControl)
  | program (midiProgram : MidiProgram)
  | other
  deriving Repr, DecidableEq

/-- The switch on the message type at the head of `midi_sender_send_single`. -/
def midiSenderEvent (command : MidiCommand) : Except Fault MidiEvent :=
  match (midiCommandMap command).2 with
  | .noteOff | .noteOn => (midiNoteFromCommand command).map .note
  | .controlChange => (midiControlFromCommand command).map .control
  | .programChange => (midiProgramFromCommand command).map .program
  | _ => .ok .other

/-- Channel-voice status bytes. -/
def IsChannelStatus (status : UInt8) : Prop := 0x80 ≤ status ∧ status < 0xf0

instance (status : UInt8) : Decidable (IsChannelStatus status) :=
  inferInstanceAs (Decidable (_ ∧ _))

theorem bytesNeeded_channel (status : UInt8) (h : IsChannelStatus status) :
    midiCommandBytesNeeded status = 1 ∨ midiCommandBytesNeeded status = 2 := by
  revert status
  decide +kernel

/-- Dropping the channel does not change what a channel status calls for. -/
theorem bytesNeeded_mask_channel (status : UInt8) (h : IsChannelStatus status) :
    midiCommandBytesNeeded (status &&& 0xf0) = midiCommandBytesNeeded status := by
  revert status
  decide +kernel

/-- Masking turns every system status into 0xF0, which calls for no data. -/
theorem bytesNeeded_mask_system (status : UInt8) (h : 0xf0 ≤ status) :
    midiCommandBytesNeeded (status &&& 0xf0) = 0 := by
  revert status
  decide +kernel

/-- Notes and control changes carry two data bytes. -/
theorem bytesNeeded_of_type (command : MidiCommand) :
    (midiCommandMap command).2 ∈
        [MidiMessageType.noteOff, MidiMessageType.noteOn, MidiMessageType.controlChange] →
      IsChannelStatus command.status ∧ midiCommandBytesNeeded command.status = 2 := by
  have hall : ∀ status : UInt8,
      (midiCommandMap ⟨0, status, []⟩).2 ∈
          [MidiMessageType.noteOff, MidiMessageType.noteOn, MidiMessageType.controlChange] →
        IsChannelStatus status ∧ midiCommandBytesNeeded status = 2 := by
    decide +kernel
  exact hall command.status

/-- A note or a control change does not have exactly one octet of data: the second is read
without a look at the length, unless there is no data at all. -/
def MidiCommand.Readable (command : MidiCommand) : Prop :=
  (midiCommandMap command).2 ∈
      [MidiMessageType.noteOff, MidiMessageType.noteOn, MidiMessageType.controlChange] →
    command.data.length ≠ 1

instance (command : MidiCommand) : Decidable command.Readable :=
  inferInstanceAs (Decidable (_ → _))

/-- Two octets are read from data that is not empty. -/
theorem noteFromCommand_iff (command : MidiCommand) :
    (∃ midiNote, midiNoteFromCommand command = .ok midiNote) ↔ command.data.length ≠ 1 := by
  rcases hdata : command.data with - | ⟨first, - | ⟨second, rest⟩⟩ <;>
    simp [midiNoteFromCommand, MidiCommand.dataAt, hdata, bind, Except.bind, pure, Except.pure]

theorem controlFromCommand_iff (command : MidiCommand) :
    (∃ midiControl, midiControlFromCommand command = .ok midiControl) ↔
      command.data.length ≠ 1 := by
  rcases hdata : command.data with - | ⟨first, - | ⟨second, rest⟩⟩ <;>
    simp [midiControlFromCommand, MidiCommand.dataAt, hdata, bind, Except.bind, pure, Except.pure]

theorem programFromCommand_ok (command : MidiCommand) :
    ∃ midiProgram, midiProgramFromCommand command = .ok midiProgram := by
  rcases hdata : command.data with - | ⟨first, rest⟩ <;>
    simp [midiProgramFromCommand, MidiCommand.dataAt, hdata, bind, Except.bind, pure, Except.pure]

theorem exists_map_ok {α β ε : Type} {f : α → β} {x : Except ε α} :
    (∃ b, x.map f = .ok b) ↔ ∃ a, x = .ok a := by
  cases x <;> simp [Except.map]

/-- The readers stay inside exactly the commands that are readable. -/
theorem senderEvent_iff (command : MidiCommand) :
    (∃ event, midiSenderEvent command = .ok event) ↔ command.Readable := by
  unfold midiSenderEvent MidiCommand.Readable
  cases (midiCommandMap command).2
  case noteOff | noteOn =>
    simp only [exists_map_ok, noteFromCommand_iff]
    simp
  case controlChange =>
    simp only [exists_map_ok, controlFromCommand_iff]
    simp
  case programChange =>
    simp only [exists_map_ok, programFromCommand_ok]
    simp
  all_goals simp

/-- The readers stay inside a command that carries the data its status calls for. -/
theorem senderEvent_ok {command : MidiCommand}
    (h : IsChannelStatus command.status →
      command.data.length = (midiCommandBytesNeeded command.status).toNat) :
    ∃ event, midiSenderEvent command = .ok event := by
  refine (senderEvent_iff command).mpr fun hpair => ?_
  obtain ⟨hchannel, hneeded⟩ := bytesNeeded_of_type command hpair
  rw [h hchannel, hneeded]
  decide

end RaveloxMidi
