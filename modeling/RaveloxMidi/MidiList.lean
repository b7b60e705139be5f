import RaveloxMidi.MidiParser

/-!
# MIDI lists

The command list of an RTP MIDI packet, from the sender's side: each command is
well formed by construction, and its octets may leave out a status byte that is
still running. The parser reads such a list back command by command, up to a
real-time command: its shortcut leaves the parser waiting for a command, so the
delta time of the next command is read as one.
-/
namespace RaveloxMidi
open Transducer

/-- A delta time of one to four octets: all but the last have bit 7 set. -/
structure DeltaTime where
  lead : List UInt8
  final : UInt8
  lead_length : lead.length ≤ 3
  lead_continues : ∀ byte ∈ lead, 0x80 ≤ byte
  final_stops : final < 0x80

def DeltaTime.octets (delta : DeltaTime) : List UInt8 := delta.lead ++ [delta.final]

/-- A channel command with exactly the data bytes its status calls for. -/
structure ChannelCommand where
  status : UInt8
  data : List UInt8
  channel : IsChannelStatus status
  data_length : data.length = (midiCommandBytesNeeded status).toNat
  seven_bit : ∀ byte ∈ data, byte < 0x80

/-- A command of the list; a channel command says whether its status is left out. -/
inductive ListCommand where
  | channel (command : ChannelCommand) (running : Bool)
  | sysex (body : List UInt8) (seven_bit : ∀ byte ∈ body, byte < 0x80)
  | realTime (status : UInt8) (real_time : 0xf8 ≤ status)

namespace ListCommand

def octets : ListCommand → List UInt8
  | channel command running => if running then command.data else command.status :: command.data
  | sysex body _ => 0xf0 :: body ++ [0xf7]
  | realTime status _ => [status]

/-- The status and data bytes the parser is to emit. -/
def content : ListCommand → UInt8 × List UInt8
  | channel command _ => (command.status, command.data)
  | sysex body _ => (0xf0, body ++ [0xf7])
  | realTime status _ => (status, [])

def IsRealTime : ListCommand → Prop
  | realTime _ _ => True
  | _ => False

instance (command : ListCommand) : Decidable command.IsRealTime :=
  match command with
  | realTime _ _ => .isTrue trivial
  | channel _ _ => .isFalse id
  | sysex _ _ => .isFalse id

/-- A status may be left out only while it is the running status of the list. -/
def Allowed (running : Option UInt8) : ListCommand → Prop
  | channel command true => running = some command.status
  | _ => True

/-- The running status after a command: a SysEx cancels it, a real-time command does not. -/
def runningAfter (running : Option UInt8) : ListCommand → Option UInt8
  | channel command _ => some command.status
  | sysex _ _ => none
  | realTime _ _ => running

/-- Running status is used properly throughout the list. -/
def AllAllowed : Option UInt8 → List ListCommand → Prop
  | _, [] => True
  | running, command :: commands =>
    command.Allowed running ∧ AllAllowed (command.runningAfter running) commands

end ListCommand

/-- A list starts without a running status. -/
structure MidiList where
  commands : List ListCommand
  allowed : ListCommand.AllAllowed none commands

/-- The octets of a list; the flag says whether the first delta time is present. -/
def serialise : Bool → List (DeltaTime × ListCommand) → List UInt8
  | _, [] => []
  | hasDelta, item :: items =>
    (if hasDelta then item.1.octets else []) ++ item.2.octets ++ serialise true items

/-- A parser between two packets, with nothing held and nothing queued. -/
structure MidiState.AtBoundary (s : MidiState) : Prop where
  status : s.status = .init
  hold_valid : s.hold.Valid
  hold_empty : s.hold.contents = []
  no_partial : s.partialSysex = false
  ring_valid : s.ring.Valid
  ring_empty : s.ring.queue = []

/-- From every boundary state, every serialisation of the list that fits into the
ring is emitted as the list itself. -/
def EmitsList (commands : List ListCommand) : Prop :=
  ∀ (s : MidiState) (items : List (DeltaTime × ListCommand)) (zFlag : Bool), s.AtBoundary →
    items.map Prod.snd = commands → (serialise zFlag items).length ≤ s.ring.size →
    ∃ t out, run midiStateCall s [.write (serialise zFlag items), .send .rtp zFlag] =
        .ok (t, out) ∧
      out.map MidiCommand.content = commands.map ListCommand.content

namespace Parser

/-- Between two commands of a list, under the running status of the list. -/
structure Ready (running : Option UInt8) (p : Parser) : Prop where
  hold : p.hold = []
  no_partial : p.partialSysex = false
  running : ∀ status, running = some status → p.runningStatus = status

theorem final_octet_iff (byte : UInt8) : byte &&& 0x80 = 0 ↔ byte < 0x80 := by
  revert byte
  decide +kernel

theorem step_delta {mode : MidiParseMode} {p : Parser} (hp : p.status = .waitDelta)
    (getDelta : Bool) (byte : UInt8) :
    step mode (p, getDelta) byte = ((p.deltaByte byte, getDelta), []) := by
  simp [step, awakeStep, wake, hp]

/-- What the octets of a delta time make of `current_delta`. -/
def deltaAfter (delta : UInt64) (octets : List UInt8) : UInt64 :=
  octets.foldl (fun delta byte => (delta <<< 8) + (byte &&& 0x7f).toUInt64) delta

/-- The octets of a delta time are taken in without emitting anything. -/
theorem feed_delta (mode : MidiParseMode) (lead : List UInt8) {final : UInt8}
    (hlead : ∀ byte ∈ lead, 0x80 ≤ byte) (hfinal : final < 0x80) {p : Parser}
    (hp : p.status = .waitDelta) (getDelta : Bool) :
    feed (step mode) (p, getDelta) (lead ++ [final]) =
      (({ p with
          status := .waitCommand
          currentDelta := deltaAfter p.currentDelta (lead ++ [final]) }, getDelta), []) := by
  induction lead generalizing p with
  | nil =>
    rw [List.nil_append, feed_singleton, step_delta hp]
    simp [deltaByte, deltaAfter, (final_octet_iff final).mpr hfinal]
  | cons byte lead ih =>
    have hcontinues : ¬ byte &&& 0x80 = 0 := by
      rw [final_octet_iff]
      exact UInt8.not_lt.mpr (hlead byte (by simp))
    have hnext : (p.deltaByte byte).status = .waitDelta := by simp [deltaByte, hcontinues]
    have hfeed := ih (fun b hb => hlead b (by simp [hb])) hnext
    rw [List.cons_append, feed_cons, step_delta hp, hfeed]
    simp [deltaByte, deltaAfter]

/-- Where a delta time is expected, it is read to its last octet and no further. -/
theorem feed_deltaTime (mode : MidiParseMode) (delta : DeltaTime) {p : Parser}
    (hp : p.status = .init) :
    feed (step mode) (p, true) delta.octets =
      (({ p with status := .waitCommand, currentDelta := deltaAfter 0 delta.octets }, true),
        []) := by
  have hfeed := feed_delta mode delta.lead delta.lead_continues delta.final_stops
    (p := { p with status := .waitDelta, currentDelta := 0 }) rfl true
  have hwake : feed (step mode) (p, true) delta.octets =
      feed (step mode) ({ p with status := .waitDelta, currentDelta := 0 }, true)
        delta.octets := by
    unfold DeltaTime.octets
    cases delta.lead <;> simp [feed_cons, step, wake, hp]
  rw [hwake]
  exact hfeed

/-- Up to its command, an item only brings the parser into command position. -/
theorem feed_opening (mode : MidiParseMode) (delta : DeltaTime) {p : Parser}
    (hp : p.status = .init) (getDelta : Bool) :
    ∃ time, ∀ byte rest,
      feed (step mode) (p, getDelta) ((if getDelta then delta.octets else []) ++ byte :: rest) =
        feed (step mode) ({ p with status := .waitCommand, currentDelta := time }, getDelta)
          (byte :: rest) := by
  cases getDelta with
  | false =>
    refine ⟨0, fun byte rest => ?_⟩
    simp [feed_cons, step, wake, hp]
  | true =>
    refine ⟨deltaAfter 0 delta.octets, fun byte rest => ?_⟩
    rw [if_pos rfl, feed_append, feed_deltaTime mode delta hp]
    simp

/-- A real-time octet is emitted at once and leaves the parser where it is. -/
theorem step_realTime {mode : MidiParseMode} {p : Parser} (hp : p.status = .waitCommand)
    (getDelta : Bool) {byte : UInt8} (hbyte : 0xf8 ≤ byte) :
    step mode (p, getDelta) byte = ((p, getDelta), [midiCommandSet p.currentDelta byte []]) := by
  have hrealtime : byte ≥ midiTimingClock := hbyte
  simp [step, awakeStep, wake, hp, hrealtime]

/-- Any other octet is absorbed. -/
theorem step_absorb {mode : MidiParseMode} {p : Parser} (hinit : p.status ≠ .init)
    (hdelta : p.status ≠ .waitDelta) (getDelta : Bool) {byte : UInt8} (hbyte : byte < 0xf8) :
    step mode (p, getDelta) byte =
      if (p.absorb byte).status = .commandReceived then deliver mode (p.absorb byte) getDelta
      else ((p.absorb byte, getDelta), []) := by
  have hrealtime : ¬ byte ≥ midiTimingClock := UInt8.not_le.mpr hbyte
  simp only [step, awakeStep, wake, if_neg hinit, if_neg hdelta, if_neg hrealtime]

theorem sevenBit_lt {byte : UInt8} (h : byte < 0x80) : byte < 0xf8 :=
  UInt8.lt_trans h (by decide)

/-- The data bytes a held status still waits for complete its command. -/
theorem feed_data (mode : MidiParseMode) {p : Parser} (status : UInt8) (held : List UInt8)
    {data : List UInt8}
    (hhold : p.hold = status :: held)
    (hstatus : (p.status = .waitByte1 ∧ data.length = 1) ∨
      (p.status = .waitByte2 ∧ data.length = 2))
    (hdata : ∀ byte ∈ data, byte < 0x80) (getDelta : Bool) :
    feed (step mode) (p, getDelta) data =
      (({ p with hold := [], status := .init }, if mode = .rtp then true else getDelta),
        [midiCommandSet p.currentDelta status (held ++ data)]) := by
  have hlast : ∀ (q : Parser) (held : List UInt8) (byte : UInt8), q.hold = status :: held →
      q.status = .waitByte1 → byte < 0x80 →
      step mode (q, getDelta) byte = (({ q with hold := [], status := .init },
          if mode = .rtp then true else getDelta),
        [midiCommandSet q.currentDelta status (held ++ [byte])]) := by
    intro q held byte hhold hstatus hbyte
    rw [step_absorb (by simp [hstatus]) (by simp [hstatus]) getDelta (sevenBit_lt hbyte)]
    simp [absorb, hstatus, dataByte, deliver, hhold]
  rcases hstatus with ⟨hone, hlength⟩ | ⟨htwo, hlength⟩
  · obtain ⟨byte, rfl⟩ := List.length_eq_one_iff.mp hlength
    rw [feed_singleton, hlast p held byte hhold hone (hdata byte (by simp))]
  · obtain ⟨first, second, rfl⟩ := List.length_eq_two.mp hlength
    have hfirst : step mode (p, getDelta) first =
        (({ p with hold := p.hold ++ [first], status := .waitByte1 }, getDelta), []) := by
      rw [step_absorb (by simp [htwo]) (by simp [htwo]) getDelta
        (sevenBit_lt (hdata first (by simp)))]
      simp [absorb, htwo, dataByte]
    rw [feed_cons, hfirst, feed_singleton, hlast _ (held ++ [first]) second (by simp [hhold]) rfl
      (hdata second (by simp))]
    simp

/-- The octets that end a SysEx or a segment of one. -/
def EndsSysex (p : Parser) (closing : UInt8) : Prop :=
  closing = 0xf0 ∨ closing = 0xf7 ∨ (p.partialSysex = true ∧ closing = 0xf4)

/-- The body of a SysEx is held up to the octet that ends it. -/
theorem feed_sysex (mode : MidiParseMode) (body : List UInt8)
    (hbody : ∀ byte ∈ body, byte < 0x80) {p : Parser} {opening closing : UInt8} (held : List UInt8)
    (hhold : p.hold = opening :: held) (hstatus : p.status = .waitEndSysex)
    (hrunning : p.runningStatus = 0) (hclosing : p.EndsSysex closing) (getDelta : Bool) :
    feed (step mode) (p, getDelta) (body ++ [closing]) =
      (({ p with hold := [], status := .init, partialSysex := decide (closing = 0xf0) },
        if mode = .rtp then true else getDelta),
        [midiCommandSet p.currentDelta opening (held ++ body ++ [closing])]) := by
  induction body generalizing p held with
  | nil =>
    have hbyte : closing < 0xf8 := by
      rcases hclosing with rfl | rfl | ⟨-, rfl⟩ <;> decide
    rw [List.nil_append, feed_singleton, step_absorb (by simp [hstatus]) (by simp [hstatus])
      getDelta hbyte]
    rcases hclosing with rfl | rfl | ⟨hunfinished, rfl⟩
    · simp [absorb, hstatus, sysexByte, deliver, hhold, hrunning]
    · simp [absorb, hstatus, sysexByte, deliver, hhold, hrunning]
    · simp [absorb, hstatus, sysexByte, deliver, hhold, hrunning, hunfinished]
  | cons byte body ih =>
    have hbyte := hbody byte (by simp)
    have hopen : byte ≠ 0xf0 := fun he => absurd (he ▸ hbyte) (by decide)
    have hclose : byte ≠ 0xf7 := fun he => absurd (he ▸ hbyte) (by decide)
    have hcancel : byte ≠ 0xf4 := fun he => absurd (he ▸ hbyte) (by decide)
    have hfirst : step mode (p, getDelta) byte =
        (({ p with hold := p.hold ++ [byte] }, getDelta), []) := by
      rw [step_absorb (by simp [hstatus]) (by simp [hstatus]) getDelta (sevenBit_lt hbyte)]
      simp [absorb, hstatus, sysexByte, hopen, hclose, hcancel, hrunning]
    have hrest := ih (fun b hb => hbody b (by simp [hb])) (p := { p with hold := p.hold ++ [byte] })
      (held ++ [byte]) (by simp [hhold]) hstatus hrunning hclosing
    rw [List.cons_append, feed_cons, hfirst, hrest]
    simp

/-- An explicit channel status in command position. -/
theorem step_channelStatus {mode : MidiParseMode} {p : Parser} (hstatus : p.status = .waitCommand)
    (hhold : p.hold = []) {status : UInt8} (hchannel : IsChannelStatus status) (getDelta : Bool) :
    step mode (p, getDelta) status =
      (({ p with
          hold := [status]
          status := if midiCommandBytesNeeded status = 1 then .waitByte1 else .waitByte2
          runningStatus := status }, getDelta), []) := by
  obtain ⟨hlow, hhigh⟩ := hchannel
  have hdata : ¬ status < 0x80 := UInt8.not_lt.mpr hlow
  have hsysex : ¬ (status = 0xf0 ∨ (p.partialSysex = true ∧ status = 0xf7)) := by
    rintro (rfl | ⟨-, rfl⟩) <;> exact absurd hhigh (by decide)
  rw [step_absorb (by simp [hstatus]) (by simp [hstatus]) getDelta
    (UInt8.lt_trans hhigh (by decide))]
  simp only [absorb, hstatus, commandByte, if_neg hdata, statusByte, if_neg hsysex,
    bytesNeeded_mask_channel status ⟨hlow, hhigh⟩, hhold, List.nil_append]
  rcases bytesNeeded_channel status ⟨hlow, hhigh⟩ with hone | htwo
  · simp [hone]
  · simp [htwo]

/-- A data byte in command position, under a channel status that needs two. -/
theorem step_runningByte {mode : MidiParseMode} {p : Parser} (hstatus : p.status = .waitCommand)
    (hhold : p.hold = []) (hchannel : IsChannelStatus p.runningStatus)
    (htwo : midiCommandBytesNeeded p.runningStatus = 2)
    {byte : UInt8} (hbyte : byte < 0x80) (getDelta : Bool) :
    step mode (p, getDelta) byte =
      (({ p with hold := [p.runningStatus, byte], status := .waitByte1 }, getDelta), []) := by
  have hzero : p.runningStatus ≠ 0 := fun he => absurd (he ▸ hchannel.1) (by decide)
  rw [step_absorb (by simp [hstatus]) (by simp [hstatus]) getDelta (sevenBit_lt hbyte)]
  simp [absorb, hstatus, commandByte, hbyte, hzero, runningByte, htwo, hhold]

/-- The only data byte of a command under running status. -/
theorem step_runningByte_last {mode : MidiParseMode} {p : Parser}
    (hstatus : p.status = .waitCommand) (hhold : p.hold = [])
    (hchannel : IsChannelStatus p.runningStatus) (hone : midiCommandBytesNeeded p.runningStatus = 1)
    {byte : UInt8} (hbyte : byte < 0x80) (getDelta : Bool) :
    step mode (p, getDelta) byte =
      (({ p with hold := [], status := .init }, if mode = .rtp then true else getDelta),
        [midiCommandSet p.currentDelta p.runningStatus [byte]]) := by
  have hzero : p.runningStatus ≠ 0 := fun he => absurd (he ▸ hchannel.1) (by decide)
  rw [step_absorb (by simp [hstatus]) (by simp [hstatus]) getDelta (sevenBit_lt hbyte)]
  simp [absorb, hstatus, commandByte, hbyte, hzero, runningByte, hone, hhold, deliver]

theorem feed_channel (mode : MidiParseMode) {p : Parser} (hstatus : p.status = .waitCommand)
    (hhold : p.hold = []) (command : ChannelCommand) (getDelta : Bool) :
    feed (step mode) (p, getDelta) (command.status :: command.data) =
      (({ p with hold := [], status := .init, runningStatus := command.status },
        if mode = .rtp then true else getDelta),
        [midiCommandSet p.currentDelta command.status command.data]) := by
  rw [feed_cons, step_channelStatus hstatus hhold command.channel]
  rw [feed_data mode command.status [] rfl ?_ command.seven_bit]
  · simp
  · have hlength := command.data_length
    rcases bytesNeeded_channel command.status command.channel with hone | htwo
    · exact .inl ⟨by simp [hone], by rw [hlength, hone]; rfl⟩
    · exact .inr ⟨by simp [htwo], by rw [hlength, htwo]; rfl⟩

theorem feed_running (mode : MidiParseMode) {p : Parser} (hstatus : p.status = .waitCommand)
    (hhold : p.hold = []) (command : ChannelCommand)
    (hrunning : p.runningStatus = command.status) (getDelta : Bool) :
    feed (step mode) (p, getDelta) command.data =
      (({ p with hold := [], status := .init }, if mode = .rtp then true else getDelta),
        [midiCommandSet p.currentDelta command.status command.data]) := by
  have hchannel := command.channel
  have hlength := command.data_length
  have hseven := command.seven_bit
  rw [← hrunning] at hchannel hlength ⊢
  rcases bytesNeeded_channel p.runningStatus hchannel with hone | htwo
  · rw [hone] at hlength
    obtain ⟨byte, hdata⟩ := List.length_eq_one_iff.mp hlength
    rw [hdata] at hseven ⊢
    rw [feed_singleton, step_runningByte_last hstatus hhold hchannel hone (hseven byte (by simp))]
  · rw [htwo] at hlength
    obtain ⟨first, second, hdata⟩ := List.length_eq_two.mp hlength
    rw [hdata] at hseven ⊢
    rw [feed_cons, step_runningByte hstatus hhold hchannel htwo (hseven first (by simp)),
      feed_data mode p.runningStatus [first] rfl (.inl ⟨rfl, rfl⟩)
        (fun byte hbyte => hseven byte (by simp_all))]
    simp

/-- A SysEx or a segment of one, in command position. -/
theorem feed_segment (mode : MidiParseMode) {p : Parser} (hstatus : p.status = .waitCommand)
    (hhold : p.hold = []) {opening closing : UInt8}
    (hopening : opening = 0xf0 ∨ (p.partialSysex = true ∧ opening = 0xf7))
    (hclosing : p.EndsSysex closing) (body : List UInt8) (hbody : ∀ byte ∈ body, byte < 0x80)
    (getDelta : Bool) :
    feed (step mode) (p, getDelta) (opening :: body ++ [closing]) =
      (({ p with
          hold := []
          status := .init
          runningStatus := 0
          partialSysex := decide (closing = 0xf0) }, if mode = .rtp then true else getDelta),
        [midiCommandSet p.currentDelta opening (body ++ [closing])]) := by
  have hplain : opening < 0xf8 ∧ ¬ opening < 0x80 := by
    rcases hopening with rfl | ⟨-, rfl⟩ <;> decide
  have hopen : step mode (p, getDelta) opening =
      (({ p with hold := [opening], status := .waitEndSysex, runningStatus := 0 }, getDelta),
        []) := by
    rw [step_absorb (by simp [hstatus]) (by simp [hstatus]) getDelta hplain.1]
    simp [absorb, hstatus, commandByte, statusByte, hhold, hplain.2, hopening]
  have hrest := feed_sysex mode body hbody
    (p := { p with hold := [opening], status := .waitEndSysex, runningStatus := 0 }) [] rfl rfl rfl
    hclosing getDelta
  rw [List.cons_append, feed_cons, hopen, hrest]
  simp

/-- A command other than a real-time one, in command position. -/
theorem feed_command (mode : MidiParseMode) {running : Option UInt8} {p : Parser}
    (hstatus : p.status = .waitCommand) (h : p.Ready running) (command : ListCommand)
    (hallowed : command.Allowed running) (hplain : ¬ command.IsRealTime) (getDelta : Bool) :
    ∃ q emitted, feed (step mode) (p, getDelta) command.octets =
        ((q, if mode = .rtp then true else getDelta), [emitted]) ∧
      emitted.content = command.content ∧ q.status = .init ∧
      q.Ready (command.runningAfter running) := by
  cases command with
  | channel command explicit =>
    cases explicit with
    | false =>
      refine ⟨_, _, feed_channel mode hstatus h.hold command getDelta, rfl, rfl, rfl,
        h.no_partial, ?_⟩
      rintro status ⟨⟩
      rfl
    | true =>
      have hrunning := h.running command.status hallowed
      refine ⟨_, _, feed_running mode hstatus h.hold command hrunning getDelta, rfl, rfl, rfl,
        h.no_partial, ?_⟩
      rintro status ⟨⟩
      exact hrunning
  | sysex body hbody =>
    exact ⟨_, _, feed_segment mode hstatus h.hold (.inl rfl) (.inr (.inl rfl)) body hbody getDelta,
      rfl, rfl, rfl, rfl, by simp [ListCommand.runningAfter]⟩
  | realTime status hrealtime => exact absurd trivial hplain

theorem octets_ne_nil (command : ListCommand) : ∃ byte rest, command.octets = byte :: rest := by
  cases command with
  | channel command running =>
    cases running with
    | false => exact ⟨_, _, rfl⟩
    | true =>
      have hlength := command.data_length
      cases hdata : command.data with
      | nil =>
        rw [hdata] at hlength
        rcases bytesNeeded_channel command.status command.channel with hn | hn <;>
          rw [hn] at hlength <;> exact absurd hlength (by decide)
      | cons byte rest => exact ⟨byte, rest, hdata⟩
  | sysex body hbody => exact ⟨_, _, rfl⟩
  | realTime status hrealtime => exact ⟨_, _, rfl⟩

/-- A whole item is the command alone, in command position. -/
theorem feed_item_opening {p : Parser} (hp : p.status = .init) (getDelta : Bool)
    (item : DeltaTime × ListCommand) :
    ∃ time, ∀ rest, feed (step .rtp) (p, getDelta)
        ((if getDelta then item.1.octets else []) ++ item.2.octets ++ rest) =
      feed (step .rtp) ({ p with status := .waitCommand, currentDelta := time }, getDelta)
        (item.2.octets ++ rest) := by
  obtain ⟨byte, octets, hoctets⟩ := octets_ne_nil item.2
  obtain ⟨time, hfeed⟩ := feed_opening .rtp item.1 hp getDelta
  refine ⟨time, fun rest => ?_⟩
  rw [hoctets, List.append_assoc, List.cons_append, hfeed]

theorem feed_item {running : Option UInt8} {p : Parser} (hp : p.status = .init)
    (h : p.Ready running) (item : DeltaTime × ListCommand) (hallowed : item.2.Allowed running)
    (hplain : ¬ item.2.IsRealTime) (getDelta : Bool) :
    ∃ q emitted, emitted.content = item.2.content ∧ q.status = .init ∧
      q.Ready (item.2.runningAfter running) ∧
      ∀ rest, (feed (step .rtp) (p, getDelta)
          ((if getDelta then item.1.octets else []) ++ item.2.octets ++ rest)).2 =
        emitted :: (feed (step .rtp) (q, true) rest).2 := by
  obtain ⟨time, hopening⟩ := feed_item_opening hp getDelta item
  obtain ⟨q, emitted, hfeed, hcontent, hq, hready⟩ := feed_command .rtp
    (p := { p with status := .waitCommand, currentDelta := time }) rfl
    ⟨h.hold, h.no_partial, h.running⟩ item.2 hallowed hplain getDelta
  refine ⟨q, emitted, hcontent, hq, hready, fun rest => ?_⟩
  rw [hopening, feed_append, hfeed]
  rfl

/-- A real-time item leaves the parser in command position. -/
theorem feed_realTime {p : Parser} (hp : p.status = .init) (getDelta : Bool) (delta : DeltaTime)
    {status : UInt8} (hstatus : 0xf8 ≤ status) :
    ∃ time, ∀ rest, (feed (step .rtp) (p, getDelta)
        ((if getDelta then delta.octets else []) ++ [status] ++ rest)).2 =
      midiCommandSet time status [] ::
        (feed (step .rtp) ({ p with status := .waitCommand, currentDelta := time }, getDelta)
          rest).2 := by
  obtain ⟨time, hopening⟩ := feed_item_opening hp getDelta (delta, .realTime status hstatus)
  refine ⟨time, fun rest => ?_⟩
  have hfeed := hopening rest
  simp only [ListCommand.octets] at hfeed
  rw [hfeed, List.singleton_append, feed_cons, step_realTime rfl getDelta hstatus]
  rfl

/-- A list whose real-time commands, if any, come last is emitted as it is. -/
theorem feed_list (items : List (DeltaTime × ListCommand)) {running : Option UInt8} {p : Parser}
    (hp : p.status = .init) (h : p.Ready running)
    (hallowed : ListCommand.AllAllowed running (items.map Prod.snd))
    (hplain : ∀ command ∈ (items.map Prod.snd).dropLast, ¬ command.IsRealTime)
    (getDelta : Bool) :
    (feed (step .rtp) (p, getDelta) (serialise getDelta items)).2.map MidiCommand.content =
      (items.map Prod.snd).map ListCommand.content := by
  induction items generalizing running p getDelta with
  | nil => rfl
  | cons item items ih =>
    obtain ⟨delta, command⟩ := item
    obtain ⟨hfirst, hrest⟩ := hallowed
    by_cases hrealtime : command.IsRealTime
    · have hlast : items = [] := by
        by_contra hne
        obtain ⟨next, rest, rfl⟩ := List.exists_cons_of_ne_nil hne
        exact hplain command (by simp) hrealtime
      subst hlast
      cases command with
      | realTime status hstatus =>
        obtain ⟨time, hfeed⟩ := feed_realTime hp getDelta delta hstatus
        rw [serialise, serialise, ListCommand.octets, hfeed]
        rfl
      | channel _ _ => exact hrealtime.elim
      | sysex _ _ => exact hrealtime.elim
    · obtain ⟨q, emitted, hcontent, hq, hready, hfeed⟩ :=
        feed_item hp h (delta, command) hfirst hrealtime getDelta
      rw [serialise, hfeed, List.map_cons, ih hq hready hrest ?_ true, hcontent]
      · rfl
      · intro later hmem
        apply hplain
        cases items with
        | nil => simp at hmem
        | cons next items => simpa using .inr hmem

/-- The shortest delta time. -/
def zeroDelta : DeltaTime := ⟨[], 0, by decide, by simp, by decide⟩

/-- A delta time whose first octet is also a real-time status. -/
def clockDelta (status : UInt8) (hstatus : 0xf8 ≤ status) : DeltaTime :=
  ⟨[status], 0, by simp, by simpa using UInt8.le_trans (by decide : (0x80 : UInt8) ≤ 0xf8) hstatus,
    by decide⟩

/-- There is a real-time status that is not the whole of a given command. -/
theorem exists_other_realTime (content : UInt8 × List UInt8) :
    ∃ status : UInt8, 0xf8 ≤ status ∧ (status, []) ≠ content := by
  by_cases h : content = (0xf8, [])
  · exact ⟨0xf9, by decide, by rw [h]; decide⟩
  · exact ⟨0xf8, by decide, fun he => h he.symm⟩

/-- With a command after a real-time command, some choice of delta times is misread:
by induction up to the first real-time command of the list. -/
theorem feed_early_realTime (commands : List ListCommand) {running : Option UInt8} {p : Parser}
    (hp : p.status = .init) (h : p.Ready running)
    (hallowed : ListCommand.AllAllowed running commands)
    (hearly : ∃ command ∈ commands.dropLast, command.IsRealTime) (getDelta : Bool) :
    ∃ items, items.map Prod.snd = commands ∧
      (feed (step .rtp) (p, getDelta) (serialise getDelta items)).2.map MidiCommand.content ≠
        commands.map ListCommand.content := by
  induction commands generalizing running p getDelta with
  | nil => simp at hearly
  | cons command commands ih =>
    obtain ⟨hfirst, hrest⟩ := hallowed
    obtain ⟨next, later, rfl⟩ : ∃ next later, commands = next :: later := by
      cases commands with
      | nil => simp at hearly
      | cons next later => exact ⟨next, later, rfl⟩
    by_cases hrealtime : command.IsRealTime
    · cases command with
      | realTime status hstatus =>
        obtain ⟨other, hother, hne⟩ := exists_other_realTime next.content
        refine ⟨(zeroDelta, .realTime status hstatus) :: (clockDelta other hother, next) ::
          later.map (Prod.mk zeroDelta), by simp [Function.comp_def], ?_⟩
        obtain ⟨time, hfeed⟩ := feed_realTime hp getDelta zeroDelta hstatus
        rw [serialise, ListCommand.octets, hfeed, serialise, if_pos rfl, DeltaTime.octets,
          clockDelta, List.append_assoc, List.append_assoc, List.singleton_append, feed_cons,
          step_realTime rfl getDelta hother]
        intro heq
        simp only [List.map_cons, List.singleton_append, List.cons.injEq] at heq
        exact hne heq.2.1
      | channel _ _ => exact hrealtime.elim
      | sysex _ _ => exact hrealtime.elim
    · obtain ⟨q, emitted, hcontent, hq, hready, hfeed⟩ :=
        feed_item hp h (zeroDelta, command) hfirst hrealtime getDelta
      obtain ⟨items, hitems, hne⟩ := ih hq hready hrest (by simpa [hrealtime] using hearly) true
      refine ⟨(zeroDelta, command) :: items, by simp [hitems], ?_⟩
      rw [serialise, hfeed, List.map_cons, List.map_cons, hcontent]
      exact fun heq => hne (List.cons.inj heq).2

end Parser

namespace MidiState

theorem AtBoundary.represents {s : MidiState} (h : s.AtBoundary) :
    s.Represents ⟨.init, s.runningStatus, [], s.currentDelta, false⟩ [] s.ring.size :=
  ⟨⟨h.status, rfl, rfl, h.no_partial, h.hold_valid, h.hold_empty⟩, by simp, h.ring_valid,
    h.ring_empty, rfl⟩

/-- The commands of a packet that fits into the ring, from a boundary state. -/
theorem AtBoundary.run_packet {s : MidiState} (h : s.AtBoundary) (payload : List UInt8)
    (zFlag : Bool) (hfit : payload.length ≤ s.ring.size) :
    ∃ t, run midiStateCall s [.write payload, .send .rtp zFlag] =
      .ok (t, (feed (Parser.step .rtp)
        (⟨.init, s.runningStatus, [], s.currentDelta, false⟩, zFlag) payload).2) := by
  obtain ⟨t, hrun, -⟩ := calls_represent (p := (_, _)) h.represents
    [.write payload, .send .rtp zFlag]
  refine ⟨t, ?_⟩
  rw [hrun, Parser.feed_write_send hfit]
  rfl

/-- A fresh parser is at a boundary. -/
theorem create_atBoundary {size : ℕ} (hsize : 0 < size) :
    ∃ s, midiStateCreate size = some s ∧ s.AtBoundary ∧ s.ring.size = size := by
  obtain ⟨s, hs⟩ : ∃ s, midiStateCreate size = some s := by
    have hne : size ≠ 0 := Nat.pos_iff_ne_zero.mp hsize
    simp [midiStateCreate, dbufferCreate, dbufferDefaultBlockSize, ringBufferCreate, hne]
  obtain ⟨h, -⟩ := create_represents hs
  exact ⟨s, hs, ⟨h.follows.status, h.follows.hold_valid, h.follows.hold, h.follows.partialSysex,
    h.ring_valid, h.queue_eq⟩, h.size_eq⟩

end MidiState

/-- A list comes out as it went in, whatever its delta times, exactly when no
real-time command of it has a command behind it. -/
theorem emits_list_iff (list : MidiList) :
    EmitsList list.commands ↔ ∀ command ∈ list.commands.dropLast, ¬ command.IsRealTime := by
  constructor
  · intro hemits
    by_contra hearly
    push Not at hearly
    obtain ⟨items, hitems, hne⟩ := Parser.feed_early_realTime list.commands
      (p := ⟨.init, 0, [], 0, false⟩) rfl ⟨rfl, rfl, by simp⟩ list.allowed hearly false
    obtain ⟨s, hs, hboundary, hsize⟩ := MidiState.create_atBoundary
      (Nat.succ_pos (serialise false items).length)
    obtain ⟨hrep, -⟩ := MidiState.create_represents hs
    have hfit : (serialise false items).length ≤ s.ring.size := by omega
    obtain ⟨t, out, hrun, hout⟩ := hemits s items false hboundary hitems hfit
    obtain ⟨t', hrun'⟩ := hboundary.run_packet (serialise false items) false hfit
    rw [hrun', Except.ok.injEq, Prod.mk.injEq] at hrun
    apply hne
    rw [← hout, ← hrun.2, hrep.follows.runningStatus, hrep.follows.currentDelta]
  · intro hplain s items zFlag hboundary hitems hfit
    obtain ⟨t, hrun⟩ := hboundary.run_packet (serialise zFlag items) zFlag hfit
    refine ⟨t, _, hrun, ?_⟩
    rw [← hitems]
    exact Parser.feed_list items rfl ⟨rfl, rfl, by simp⟩ (hitems ▸ list.allowed)
      (hitems ▸ hplain) zFlag

/-- A note on the first channel. -/
def noteOn (note : UInt8) (h : note < 0x80) : ListCommand :=
  .channel ⟨0x90, [note, 0x40], by decide, by rfl, by simpa using h⟩ false

/-- A clock between two notes, all delta times zero: the second note loses its
delta time to running status. -/
theorem clock_between_notes_misread :
    ∃ (s t : MidiState) (out : List MidiCommand), s.AtBoundary ∧
      run midiStateCall s [.write (serialise false
          [(Parser.zeroDelta, noteOn 0x3c (by decide)),
            (Parser.zeroDelta, .realTime 0xf8 (by decide)),
            (Parser.zeroDelta, noteOn 0x3e (by decide))]), .send .rtp false] = .ok (t, out) ∧
      out.map MidiCommand.content = [(0x90, [0x3c, 0x40]), (0xf8, []), (0x90, [0x00, 0x90])] ∧
      ¬ EmitsList [noteOn 0x3c (by decide), .realTime 0xf8 (by decide),
        noteOn 0x3e (by decide)] := by
  obtain ⟨s, hs, hboundary, hsize⟩ := MidiState.create_atBoundary (by decide : 0 < 10240)
  obtain ⟨hrep, -⟩ := MidiState.create_represents hs
  have hfit : (serialise false [(Parser.zeroDelta, noteOn 0x3c (by decide)),
      (Parser.zeroDelta, .realTime 0xf8 (by decide)),
      (Parser.zeroDelta, noteOn 0x3e (by decide))]).length ≤ s.ring.size := by
    rw [hsize]
    decide
  obtain ⟨t, hrun⟩ := hboundary.run_packet _ false hfit
  rw [hrep.follows.runningStatus, hrep.follows.currentDelta] at hrun
  refine ⟨s, t, _, hboundary, hrun, by decide, fun hemits => ?_⟩
  obtain ⟨t', out, hrun', hout⟩ := hemits s _ false hboundary rfl hfit
  rw [hrun, Except.ok.injEq, Prod.mk.injEq] at hrun'
  rw [← hrun'.2] at hout
  exact absurd hout (by decide)

end RaveloxMidi
