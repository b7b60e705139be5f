import RaveloxMidi.SessionStart
import RaveloxMidi.SocketRead

/-!
# Which outputs a command is not written to

A command from an ALSA input is not to be written back to the device it came
from. The number of that device goes with the command through the queue to the
sender, and zero goes with the commands from the network: it is the number of
the first card.
-/
namespace RaveloxMidi
open ByteMemory Transducer

/-- `midi_sender_handler`: the command goes to the connections and to the outputs. -/
def midiSenderHandler (host : NetHost) (clock : ℕ → UInt64) (alsa : AlsaConfig)
    (outputs : List SndRawmidi) (connections : List NetCtx) (command : MidiCommand)
    (context : Option (Option MidiSenderContext)) :
    Except Fault (List NetCtx × List NetEffect × List (ℕ × List UInt8)) := do
  let originator := midiSenderOriginator context
  let sent ← midiSenderSendSingle host clock connections command originator.ssrc
  return (sent.1, sent.2,
    raveloxmidiAlsaWrite alsa outputs (command.status :: command.data) originator.alsaCardHash)

def SocketRead.isNet : SocketRead → Bool
  | .net _ _ => true
  | _ => false

/-- The ALSA device that is read. -/
def SocketRead.device (s : SocketState) : SocketRead → Option SndRawmidi
  | .input index _ => s.inputs[index]?.bind RaveloxmidiSocket.handle
  | _ => none

/-- A command that is queued by a read in some run of the daemon. -/
structure QueuedBy (host : NetHost) (config : SocketConfig) (alsa : AlsaConfig)
    (handles : List (Option SndRawmidi)) (s : SocketState) (read : SocketRead)
    (command : MidiCommand) (context : MidiSenderContext) : Prop where
  reached : ∃ start reads out, socketStateStart config alsa handles = some start ∧
    run (socketRead host) start reads = .ok (s, out)
  queued : ∃ t effects, socketRead host s read = .ok (t, effects) ∧
    .queue command context ∈ effects

/-- Every output is written to, but for those of the device that the command came from. -/
def WrittenElsewhere (level : WritebackLevel) (device : Option SndRawmidi)
    (outputs : List SndRawmidi) (buffer : List UInt8) (written : List (ℕ × List UInt8)) : Prop :=
  ∀ i output, outputs[i]? = some output →
    (i, buffer) ∈ written ∨ ∃ handle ∈ device, SameDevice level handle output

/-- A device whose number is zero. -/
def NumberedZero : WritebackLevel → SndRawmidi → Prop
  | .card, output => output.card = 0
  | .device, output => cardResidue output = 0 ∧ output.device = 0

/-- Two devices with one number, which is not negative. -/
def NumberedSame : WritebackLevel → SndRawmidi → SndRawmidi → Prop
  | .card, handle, output => handle.card = output.card
  | .device, handle, output =>
    (handle.device = output.device ∧ cardResidue handle = cardResidue output) ∧
      cardResidue output < 2 ^ 19

/-- No output has the number of an originator that is another device, or none. -/
structure NumberedApart (level : WritebackLevel) (isNet : Bool) (device : Option SndRawmidi)
    (outputs : List SndRawmidi) : Prop where
  zero : isNet = true → ∀ output ∈ outputs, ¬ NumberedZero level output
  wrapped : level = .device → ∀ handle ∈ device, ∀ output ∈ outputs,
    handle.device = output.device → cardResidue handle = cardResidue output →
      cardResidue output < 2 ^ 19 → handle.card = output.card

/-- The numbers that the sockets were given at the start are kept. -/
structure SocketState.Numbered (alsa : AlsaConfig) (s : SocketState) : Prop where
  ready : s.Ready
  localPort : s.localSocket.deviceHash = -1
  inputs : ∀ socket ∈ s.inputs, socket.deviceHash = raveloxmidiAlsaDeviceHash alsa socket.handle

theorem start_numbered {config : SocketConfig} {alsa : AlsaConfig}
    {handles : List (Option SndRawmidi)} {s : SocketState}
    (h : socketStateStart config alsa handles = some s) : s.Numbered alsa := by
  have hready := start_ready h
  obtain ⟨socket, hsocket, rfl⟩ := Option.map_eq_some_iff.mp h
  obtain ⟨-, -, -, hhash, -⟩ := createItem_spec hsocket
  refine ⟨hready, hhash, fun input hinput => ?_⟩
  obtain ⟨handle, -, rfl⟩ := List.mem_map.mp hinput
  rfl

theorem read_numbered {host : NetHost} {alsa : AlsaConfig} {s t : SocketState}
    (h : s.Numbered alsa) {read : SocketRead} {effects : List SocketEffect}
    (hok : socketRead host s read = .ok (t, effects)) : t.Numbered alsa := by
  have hready := read_ready h.ready hok
  cases socketRead_changes hok with
  | net hread => exact ⟨hready, h.localPort, h.inputs⟩
  | localPort hread =>
    refine ⟨hready, ?_, h.inputs⟩
    rw [(readLocal_kept h.ready.localPort hread).2]
    exact h.localPort
  | unknown => exact h
  | @input _ _ socket _ _ hsocket hread =>
    refine ⟨hready, h.localPort, fun other hother => ?_⟩
    have hmem := List.mem_of_getElem? hsocket
    rcases List.mem_or_eq_of_mem_set hother with hold | rfl
    · exact h.inputs other hold
    · rw [(readInput_kept (h.ready.inputs socket hmem) hread).2]
      exact h.inputs socket hmem

/-- The number that goes with a command. -/
theorem queued_context {host : NetHost} {alsa : AlsaConfig} {s t : SocketState}
    (h : s.Numbered alsa) {read : SocketRead} {effects : List SocketEffect}
    (hok : socketRead host s read = .ok (t, effects)) {command : MidiCommand}
    {context : MidiSenderContext} (hqueued : .queue command context ∈ effects) :
    context.alsaCardHash =
      if read.isNet = true then 0 else raveloxmidiAlsaDeviceHash alsa (read.device s) := by
  cases read_origin h.ready hok hqueued with
  | net => rfl
  | localPort => exact h.localPort
  | @input _ _ socket hsocket =>
    have hhash := h.inputs socket (List.mem_of_getElem? hsocket)
    simp only [SocketRead.isNet, Bool.false_eq_true, if_false, SocketRead.device, hsocket,
      Option.bind_some, ← hhash]

/-- An output is written to unless its number is the one that goes with the command, and
is a number at all. -/
theorem mem_write_iff {alsa : AlsaConfig} (hoff : alsa.writeback = false)
    {outputs : List SndRawmidi} {i : ℕ} {output : SndRawmidi} (houtput : outputs[i]? = some output)
    (buffer : List UInt8) (hash : Int32) :
    (i, buffer) ∈ raveloxmidiAlsaWrite alsa outputs buffer hash ↔
      ¬ (hash = raveloxmidiAlsaDeviceHash alsa (some output) ∧
        ¬ raveloxmidiAlsaDeviceHash alsa (some output) < 0) := by
  have hwrites : alsaWrites alsa hash output = true ↔
      ¬ (hash = raveloxmidiAlsaDeviceHash alsa (some output) ∧
        ¬ raveloxmidiAlsaDeviceHash alsa (some output) < 0) := by
    simp only [alsaWrites, hoff, Bool.or_false, Bool.or_eq_true, decide_eq_true_eq, not_and_or,
      not_not]
  rw [← hwrites, raveloxmidiAlsaWrite, List.mem_map]
  constructor
  · rintro ⟨⟨other, j⟩, hmem, heq⟩
    obtain ⟨hindex, hother⟩ := List.mem_filter.mp hmem
    cases heq
    rw [List.mk_mem_zipIdx_iff_getElem?] at hindex
    cases houtput.symm.trans hindex
    exact hother
  · intro hother
    exact ⟨(output, i), List.mem_filter.mpr
      ⟨List.mk_mem_zipIdx_iff_getElem?.mpr houtput, hother⟩, rfl⟩

section Numbers
variable {alsa : AlsaConfig} {level : WritebackLevel}
  (hlevel : writebackLevel alsa.level = some level) {handle output : SndRawmidi}
  (houtput : output.Reported level)
include hlevel houtput

/-- The outputs that a command from the network is not written to. -/
theorem zero_number_iff :
    (0 = raveloxmidiAlsaDeviceHash alsa (some output) ∧
      ¬ raveloxmidiAlsaDeviceHash alsa (some output) < 0) ↔ NumberedZero level output := by
  have hzero : ∀ hash : Int32, (0 = hash ∧ ¬ hash < 0) ↔ hash = 0 := by
    intro hash
    constructor
    · exact fun h => h.1.symm
    · rintro rfl
      exact ⟨rfl, by decide⟩
  rw [hzero]
  cases level with
  | card => rw [hash_card hlevel houtput, NumberedZero]
  | device =>
    have hfirst : (⟨0, 0⟩ : SndRawmidi).Reported .device :=
      ⟨by decide, by decide, fun _ => by decide⟩
    have hnumber : raveloxmidiAlsaDeviceHash alsa (some ⟨0, 0⟩) = 0 := by
      rw [hash_eq hfirst]
      simp
    have hresidue : cardResidue ⟨0, 0⟩ = 0 := by decide
    rw [← hnumber, hash_eq_iff hlevel houtput hfirst, hresidue, NumberedZero, and_comm]

/-- The outputs that a command from an ALSA input is not written to. -/
theorem same_number_iff (hhandle : handle.Reported level) :
    (raveloxmidiAlsaDeviceHash alsa (some handle) = raveloxmidiAlsaDeviceHash alsa (some output) ∧
      ¬ raveloxmidiAlsaDeviceHash alsa (some output) < 0) ↔ NumberedSame level handle output := by
  cases level with
  | card =>
    have hvalid : ¬ output.card < 0 := Int32.not_lt.mpr houtput.card
    rw [hash_card hlevel houtput, hash_card hlevel hhandle]
    exact and_iff_left hvalid
  | device =>
    rw [hash_eq_iff hlevel hhandle houtput, hash_nonneg_iff hlevel houtput, NumberedSame]

end Numbers

section Elsewhere
variable {alsa : AlsaConfig} {level : WritebackLevel} {outputs : List SndRawmidi}

/-- What comes from the network has the number zero. -/
theorem written_net_iff (hoff : alsa.writeback = false)
    (hlevel : writebackLevel alsa.level = some level)
    (houtputs : ∀ output ∈ outputs, output.Reported level) (buffer : List UInt8) :
    WrittenElsewhere level none outputs buffer (raveloxmidiAlsaWrite alsa outputs buffer 0) ↔
      NumberedApart level true none outputs := by
  constructor
  · intro h
    refine ⟨fun _ output hmem hzero => ?_, fun _ handle hhandle => (by cases hhandle)⟩
    obtain ⟨i, hi⟩ := List.mem_iff_getElem?.mp hmem
    rcases h i output hi with hwritten | ⟨handle, hhandle, -⟩
    · rw [mem_write_iff hoff hi] at hwritten
      exact hwritten ((zero_number_iff hlevel (houtputs output hmem)).mpr hzero)
    · cases hhandle
  · intro h i output hi
    have hmem := List.mem_of_getElem? hi
    refine .inl ?_
    rw [mem_write_iff hoff hi, zero_number_iff hlevel (houtputs output hmem)]
    exact h.zero rfl output hmem

/-- What comes from no device and not from the network has the number -1, and goes everywhere. -/
theorem written_everywhere (hoff : alsa.writeback = false) (buffer : List UInt8) :
    WrittenElsewhere level none outputs buffer (raveloxmidiAlsaWrite alsa outputs buffer
      (raveloxmidiAlsaDeviceHash alsa none)) := by
  intro i output hi
  refine .inl ?_
  rw [mem_write_iff hoff hi]
  rintro ⟨hsame, hvalid⟩
  have hnone : raveloxmidiAlsaDeviceHash alsa none = -1 := rfl
  rw [← hsame, hnone] at hvalid
  exact hvalid (by decide)

theorem written_device_iff (hoff : alsa.writeback = false)
    (hlevel : writebackLevel alsa.level = some level)
    (houtputs : ∀ output ∈ outputs, output.Reported level) {handle : SndRawmidi}
    (hhandle : handle.Reported level) (buffer : List UInt8) :
    WrittenElsewhere level (some handle) outputs buffer (raveloxmidiAlsaWrite alsa outputs buffer
        (raveloxmidiAlsaDeviceHash alsa (some handle))) ↔
      NumberedApart level false (some handle) outputs := by
  constructor
  · intro h
    refine ⟨fun hnot => (by cases hnot), fun hdeviceLevel other hother output hmem hsame
      hresidue hhalf => ?_⟩
    cases hother
    subst hdeviceLevel
    obtain ⟨i, hi⟩ := List.mem_iff_getElem?.mp hmem
    rcases h i output hi with hwritten | ⟨other, hother, hcard⟩
    · rw [mem_write_iff hoff hi, same_number_iff hlevel (houtputs output hmem) hhandle]
        at hwritten
      exact absurd ⟨⟨hsame, hresidue⟩, hhalf⟩ hwritten
    · cases hother
      exact hcard.1
  · intro h i output hi
    have hmem := List.mem_of_getElem? hi
    rw [mem_write_iff hoff hi, same_number_iff hlevel (houtputs output hmem) hhandle]
    by_cases hskipped : NumberedSame level handle output
    · refine .inr ⟨handle, rfl, ?_⟩
      cases level with
      | card => exact hskipped
      | device =>
        obtain ⟨⟨hsame, hresidue⟩, hhalf⟩ := hskipped
        exact ⟨h.wrapped rfl handle rfl output hmem hsame hresidue hhalf, hsame⟩
    · exact .inl hskipped

/-- A command is written everywhere but to its own device exactly if the numbers keep the
other outputs apart. -/
theorem written_elsewhere_iff (hoff : alsa.writeback = false)
    (hlevel : writebackLevel alsa.level = some level)
    (houtputs : ∀ output ∈ outputs, output.Reported level)
    {isNet : Bool} {device : Option SndRawmidi} (hnet : isNet = true → device = none)
    (hdevice : ∀ handle ∈ device, handle.Reported level) (buffer : List UInt8) :
    WrittenElsewhere level device outputs buffer (raveloxmidiAlsaWrite alsa outputs buffer
        (if isNet = true then 0 else raveloxmidiAlsaDeviceHash alsa device)) ↔
      NumberedApart level isNet device outputs := by
  cases isNet with
  | true =>
    obtain rfl := hnet rfl
    exact written_net_iff hoff hlevel houtputs buffer
  | false =>
    simp only [Bool.false_eq_true, if_false]
    cases device with
    | none =>
      exact iff_of_true (written_everywhere hoff buffer)
        ⟨fun hnot => (by cases hnot), fun _ handle hhandle => (by cases hhandle)⟩
    | some handle => exact written_device_iff hoff hlevel houtputs (hdevice handle rfl) buffer

end Elsewhere

/-- Whatever is read and whatever the outputs are, with the write-back off a queued
command is written to every output but those of the device it was read from if and only if
no other output has the number that goes with the command. -/
theorem writeback_suppressed_iff {host : NetHost} {config : SocketConfig} {alsa : AlsaConfig}
    {handles : List (Option SndRawmidi)} {s : SocketState} {read : SocketRead}
    {command : MidiCommand} {context : MidiSenderContext}
    (hqueued : QueuedBy host config alsa handles s read command context)
    (hoff : alsa.writeback = false) {level : WritebackLevel}
    (hlevel : writebackLevel alsa.level = some level) {outputs : List SndRawmidi}
    (houtputs : ∀ output ∈ outputs, output.Reported level)
    (hdevice : ∀ handle ∈ read.device s, handle.Reported level)
    {clock : ℕ → UInt64} {connections t : List NetCtx} {packets : List NetEffect}
    {written : List (ℕ × List UInt8)}
    (hhandled : midiSenderHandler host clock alsa outputs connections command
      (some (some context)) = .ok (t, packets, written)) :
    WrittenElsewhere level (read.device s) outputs (command.status :: command.data) written ↔
      NumberedApart level read.isNet (read.device s) outputs := by
  obtain ⟨⟨start, reads, out, hstart, hrun⟩, u, effects, hread, hmem⟩ := hqueued
  have hnumbered : s.Numbered alsa :=
    (@run_preserves Fault SocketState SocketRead SocketEffect (socketRead host) (fun _ _ => True)
      (fun s => s.Numbered alsa) (fun _ => True)
      (fun _ _ _ _ hs _ hok => ⟨read_numbered hs hok, fun _ _ => trivial⟩)
      _ _ (start_numbered hstart) _ (along_of_forall (fun _ _ _ => trivial) start) _ hrun).1
  have hcontext := queued_context hnumbered hread hmem
  obtain ⟨sent, -, hhandled⟩ := bind_ok hhandled
  cases hhandled
  have horiginator : midiSenderOriginator (some (some context)) = context := rfl
  rw [horiginator, hcontext]
  refine written_elsewhere_iff hoff hlevel houtputs (fun hnet => ?_) hdevice _
  cases read <;> first | rfl | cases hnet

/-- A clock on the local port goes with the number -1, to both outputs. -/
theorem writeback_suppressed_iff_clock : ∃ s command context t packets written,
    QueuedBy quietHost ⟨4096, 0⟩ ⟨false, none⟩ [] s (.localPort none [0xf8]) command context ∧
      midiSenderHandler quietHost (fun _ => 0) ⟨false, none⟩ [⟨0, 0⟩, ⟨1, 2⟩] [] command
        (some (some context)) = .ok (t, packets, written) ∧
      (WrittenElsewhere .device none [⟨0, 0⟩, ⟨1, 2⟩] (command.status :: command.data) written ↔
        NumberedApart .device false none [⟨0, 0⟩, ⟨1, 2⟩]) := by
  obtain ⟨socket, hsocket, -, hrep⟩ := createItem_default 4096
  obtain ⟨s, hs⟩ : ∃ s : SocketState, s = ⟨⟨[], fun _ => socket.state⟩, socket, []⟩ := ⟨_, rfl⟩
  have hstart : socketStateStart ⟨4096, 0⟩ ⟨false, none⟩ [] = some s := by
    rw [socketStateStart, hsocket, hs]
    rfl
  have heffects : (localQueue none socket.deviceHash (⟨.init, 0, [], 0, false⟩,
      arriving netSocketDefaultRingBuffer [] ([0xf8].take netApplemidiUdpSize))).2 =
      [.queue ⟨0, 0xf8, []⟩ ⟨0, socket.deviceHash⟩] := rfl
  obtain ⟨u, hread, -⟩ := readLocal_becomes none hrep (show [0xf8] ≠ [] by decide)
  rw [heffects] at hread
  have hqueued : QueuedBy quietHost ⟨4096, 0⟩ ⟨false, none⟩ [] s (.localPort none [0xf8])
      ⟨0, 0xf8, []⟩ ⟨0, socket.deviceHash⟩ := by
    refine ⟨⟨s, [], [], hstart, rfl⟩, { s with localSocket := u },
      [.queue ⟨0, 0xf8, []⟩ ⟨0, socket.deviceHash⟩], ?_, List.mem_singleton_self _⟩
    rw [hs]
    simp only [socketRead, hread, bind, Except.bind, pure, Except.pure]
  have hhandled : midiSenderHandler quietHost (fun _ => 0) ⟨false, none⟩ [⟨0, 0⟩, ⟨1, 2⟩] []
      ⟨0, 0xf8, []⟩ (some (some ⟨0, socket.deviceHash⟩)) = .ok ([], [],
        raveloxmidiAlsaWrite ⟨false, none⟩ [⟨0, 0⟩, ⟨1, 2⟩] [0xf8] socket.deviceHash) := rfl
  have houtputs : ∀ output ∈ [(⟨0, 0⟩ : SndRawmidi), ⟨1, 2⟩], output.Reported .device := by
    simp only [List.mem_cons, List.not_mem_nil, or_false, forall_eq_or_imp, forall_eq]
    exact ⟨⟨by decide, by decide, fun _ => by decide⟩, ⟨by decide, by decide, fun _ => by decide⟩⟩
  exact ⟨s, _, _, _, _, _, hqueued, hhandled, writeback_suppressed_iff hqueued rfl rfl houtputs
    (by simp [SocketRead.device]) hhandled⟩

/-- A payload that the ring has room for goes through the parser. -/
theorem deliver_sends (connections : List NetCtx) (slot : ℕ) {ctx : NetCtx} {p : Parser} {size : ℕ}
    (h : ctx.midiState.Represents p [] size) (header : RtpPacketHeader) {payload : MidiPayload}
    {bytes : List UInt8} (hbuffer : payload.buffer = some bytes)
    (hlength : bytes.length = payload.header.len.toNat) (hfit : bytes.length ≤ size) :
    ∃ t, netSocketDeliver connections slot ctx header (some payload) = .ok (t,
      .reply (feedbackOctets header.ssrc header.seq) ::
        (Parser.send .rtp payload.header.z p bytes).2.map fun command =>
          .queue command header.ssrc) := by
  have hload : load bytes 0 payload.header.len.toNat = .ok bytes := by
    rw [load_ok (by omega), ← hlength, List.drop_zero, List.take_length]
  obtain ⟨written, ret, hwrite, hwritten⟩ := MidiState.write_represents h bytes (by
    rw [List.length_nil]
    omega)
  obtain ⟨state, hsend, -⟩ := MidiState.send_represents hwritten .rtp payload.header.z
  rw [List.nil_append] at hsend
  refine ⟨connections.set slot { ctx with midiState := state }, ?_⟩
  simp only [netSocketDeliver, midiStateWritePayload, hbuffer, hload, hwrite, feedbackCreate_ok,
    hsend, bind, Except.bind, pure, Except.pure]
  rfl

/-- A note from the source 7. -/
def sevenNote : Datagram :=
  ⟨.data, [], 5004, [0x80, 0x61, 0, 1, 0, 0, 0, 0, 0, 0, 0, 7, 3, 0x90, 60, 64], []⟩

theorem sevenNote_read {s : NetState} (h : s.Valid) {ctx : NetCtx} (hctx : s.connections = [ctx])
    (hfind : netCtxFindBySsrc [ctx] 7 = some (0, ctx)) {size : ℕ}
    (hparser : ctx.midiState.Represents ⟨.init, 0, [], 0, false⟩ [] size) (hfit : 3 ≤ size) :
    ∃ t effects, netSocketRead resolvingHost quietMoment s sevenNote = .ok (t, effects) ∧
      .queue ⟨0, 0x90, [60, 64]⟩ 7 ∈ effects := by
  obtain ⟨payload, hpayload⟩ : ∃ payload : MidiPayload,
    payload = ⟨⟨false, false, false, false, 3⟩, some [0x90, 60, 64]⟩ := ⟨_, rfl⟩
  have hunpacked : readPayload (sevenNote.packet.drop 12) = some payload := by
    rw [hpayload]
    decide
  have hparsed : (Parser.send .rtp payload.header.z ⟨.init, 0, [], 0, false⟩ [0x90, 60, 64]).2 =
      [⟨0, 0x90, [60, 64]⟩] := by
    rw [hpayload]
    decide
  have hssrc : (readRtpPacket sevenNote.packet).header.ssrc = 7 := by decide
  obtain ⟨t, hdeliver⟩ := deliver_sends [ctx] 0 hparser (readRtpPacket sevenNote.packet).header
    (show payload.buffer = some [0x90, 60, 64] by rw [hpayload]) (by rw [hpayload]; rfl) hfit
  rw [hparsed, hssrc] at hdeliver
  obtain ⟨state, p, size, -, -, hread⟩ := read_eq h resolvingHost quietMoment
    (show 0 < sevenNote.packet.length by decide) (by decide)
  rw [if_neg (by decide), rtp_eq _ _ (by decide) (by decide), if_neg (by decide), hssrc, hctx,
    hfind, hunpacked] at hread
  simp only [hdeliver, Except.map] at hread
  exact ⟨_, _, hread, by simp⟩

/-- The invitation of the source 7, and then its note. -/
theorem sevenNote_queued : ∃ s ctx, QueuedBy resolvingHost ⟨4096, 0⟩ ⟨false, none⟩ [] s
    (.net quietMoment sevenNote) ⟨0, 0x90, [60, 64]⟩ ⟨7, 0⟩ ∧
      s.net.connections = [ctx] ∧ ctx.ssrc = 7 := by
  obtain ⟨socket, hsocket, -⟩ := createItem_default 4096
  obtain ⟨start, hs⟩ : ∃ s : SocketState, s = ⟨⟨[], fun _ => socket.state⟩, socket, []⟩ := ⟨_, rfl⟩
  have hstart : socketStateStart ⟨4096, 0⟩ ⟨false, none⟩ [] = some start := by
    rw [socketStateStart, hsocket, hs]
    rfl
  have hvalid : start.net.Valid := (start_ready hstart).net
  obtain ⟨created, hcreated, -⟩ := exists_created resolvingHost
  obtain ⟨invited, effects, name, hinvited, hconnections⟩ :=
    seven_invited hvalid (by rw [hs]) hcreated
  obtain ⟨ctx, hctx⟩ : ∃ ctx, ctx = netCtxSet resolvingHost created 7 1 0 5004 [] name 0 := ⟨_, rfl⟩
  rw [← hctx] at hconnections
  have hparser : ctx.midiState.Represents ⟨.init, 0, [], 0, false⟩ []
      (max netSocketDefaultRingBuffer resolvingHost.ringBufferSize) := by
    obtain ⟨parser, hparser, rfl⟩ := Option.map_eq_some_iff.mp hcreated
    rw [hctx]
    exact (MidiState.create_represents hparser).1.reset
  have hfind : netCtxFindBySsrc [ctx] 7 = some (0, ctx) := by
    rw [hctx]
    rfl
  obtain ⟨-, hmax⟩ := sevenDatagram_packet netApplemidiCmdInv
  have hwhole : (sevenDatagram netApplemidiCmdInv).received = sevenDatagram netApplemidiCmdInv := by
    rw [Datagram.received, List.take_of_length_le hmax]
  obtain ⟨t, sent, hread, hmem⟩ := sevenNote_read (read_valid hvalid hmax hinvited) hconnections
    hfind hparser (by decide)
  have hshort : sevenNote.received = sevenNote := rfl
  refine ⟨{ start with net := invited }, ctx, ⟨⟨start, [.net quietMoment
    (sevenDatagram netApplemidiCmdInv)], effects.map netSocketEffect, hstart, ?_⟩,
      { start with net := t }, sent.map netSocketEffect, ?_, ?_⟩, hconnections, by rw [hctx]; rfl⟩
  · simp only [run, socketRead, hwhole, hinvited, bind, Except.bind, pure, Except.pure,
      List.append_nil]
  · simp only [socketRead, hshort, hread, bind, Except.bind, pure, Except.pure]
  · exact List.mem_map.mpr ⟨_, hmem, rfl⟩

/-- The first device of the first card, which the daemon does not read from, is left out
when the command comes from the network. -/
theorem network_note_skipped : ∃ s ctx,
    QueuedBy resolvingHost ⟨4096, 0⟩ ⟨false, none⟩ [] s (.net quietMoment sevenNote)
      ⟨0, 0x90, [60, 64]⟩ ⟨7, 0⟩ ∧ s.net.connections = [ctx] ∧
    midiSenderHandler resolvingHost (fun _ => 0) ⟨false, none⟩ [⟨0, 0⟩] [ctx]
      ⟨0, 0x90, [60, 64]⟩ (some (some ⟨7, 0⟩)) = .ok ([ctx], [], []) := by
  obtain ⟨s, ctx, hqueued, hctx, hssrc⟩ := sevenNote_queued
  obtain ⟨payload, hpayload⟩ : ∃ payload,
    midiCommandToPayload ⟨0, 0x90, [60, 64]⟩ = .ok payload := ⟨_, rfl⟩
  obtain ⟨event, hevent⟩ : ∃ event, midiSenderEvent ⟨0, 0x90, [60, 64]⟩ = .ok event := ⟨_, rfl⟩
  have hskipped : raveloxmidiAlsaWrite ⟨false, none⟩ [⟨0, 0⟩] [0x90, 60, 64] 0 = [] := by decide
  refine ⟨s, ctx, hqueued, hctx, ?_⟩
  simp only [midiSenderHandler, midiSenderOriginator, midiSenderSendSingle, hpayload, hevent,
    midiSenderLoop, hssrc, Option.bind_some, id, Option.getD_some, if_true, hskipped, bind,
    Except.bind, pure, Except.pure]

end RaveloxMidi
