import Mathlib.Logic.Relation
import RaveloxMidi.MidiParser

/-!
# Framing of the emitted commands

The length of an emitted command is the length of the hold buffer. What ties the
two together is an invariant on the hold buffer for each status of the parser.
It breaks in one place: the end of an RTP payload sets the status back without
clearing the hold buffer, so the octets of an unfinished channel command open
the next command. The run theorem asks that this does not happen; the pair
theorem says what such a leftover makes visible in the next packet.
-/
namespace RaveloxMidi
open ByteMemory Transducer

/-- A status byte with exactly the data bytes a channel status calls for. -/
def MidiCommand.Framed (command : MidiCommand) : Prop :=
  0x80 ≤ command.status ∧
    (IsChannelStatus command.status →
      command.data.length = (midiCommandBytesNeeded command.status).toNat)

/-- One pass of the loop that takes an octet off the ring. -/
inductive MidiStatePass (mode : MidiParseMode) : MidiState × Bool → MidiState × Bool → Prop where
  | octet {s r t : MidiState} {getDelta next : Bool} {byte : UInt8} {out : List MidiCommand}
      (hread : midiStateReadByte s = .ok (r, some byte))
      (hbyte : midiStateSendByte mode r getDelta byte = .ok (t, next, out)) :
      MidiStatePass mode (s, getDelta) (t, next)

/-- A held command that does not open with a channel status. -/
def SystemHeld (hold : List UInt8) : Prop :=
  ∃ status data, hold = status :: data ∧ 0xf0 ≤ status

/-- In RTP mode, the passes of the call find the ring empty only when no channel
command is being held. -/
def EndsBetweenCommands (s : MidiState) : MidiStateCall → Prop
  | .send .rtp zFlag =>
    ∀ t getDelta, Relation.ReflTransGen (MidiStatePass .rtp) (s, zFlag) (t, getDelta) →
      t.ring.used = 0 → t.hold.contents = [] ∨ SystemHeld t.hold.contents
  | _ => True

/-- The held octets are a command that still calls for `n` data bytes. -/
def Lacks (hold : List UInt8) (n : ℕ) : Prop :=
  ∃ status data, hold = status :: data ∧ 0x80 ≤ status ∧
    (IsChannelStatus status → data.length + n = (midiCommandBytesNeeded status).toNat)

namespace Parser

/-- The hold buffer, status by status. -/
structure WellHeld (p : Parser) : Prop where
  running : p.runningStatus = 0 ∨ 0x80 ≤ p.runningStatus
  hold : match p.status with
    | .waitByte2 => Lacks p.hold 2
    | .waitByte1 => Lacks p.hold 1
    | .commandReceived => Lacks p.hold 0
    | .waitEndSysex => SystemHeld p.hold
    | _ => p.hold = [] ∨ SystemHeld p.hold

end Parser

theorem SystemHeld.append {hold : List UInt8} (h : SystemHeld hold) (bytes : List UInt8) :
    SystemHeld (hold ++ bytes) := by
  obtain ⟨status, data, rfl, hstatus⟩ := h
  exact ⟨status, data ++ bytes, rfl, hstatus⟩

/-- A system command is framed whatever follows its status. -/
theorem SystemHeld.lacks {hold : List UInt8} (h : SystemHeld hold) (n : ℕ) : Lacks hold n := by
  obtain ⟨status, data, rfl, hstatus⟩ := h
  refine ⟨status, data, rfl, UInt8.le_trans (by decide : (0x80 : UInt8) ≤ 0xf0) hstatus, ?_⟩
  intro hchannel
  exact absurd hchannel.2 (UInt8.not_lt.mpr hstatus)

theorem Lacks.append {hold : List UInt8} {n : ℕ} (h : Lacks hold (n + 1)) (byte : UInt8) :
    Lacks (hold ++ [byte]) n := by
  obtain ⟨status, data, rfl, hstatus, hlength⟩ := h
  refine ⟨status, data ++ [byte], rfl, hstatus, ?_⟩
  intro hchannel
  have := hlength hchannel
  simp only [List.length_append, List.length_singleton]
  omega

/-- A status byte put behind an empty or a system hold. -/
theorem held_open {hold : List UInt8} (h : hold = [] ∨ SystemHeld hold) {status : UInt8}
    (hstatus : 0x80 ≤ status) (data : List UInt8) {n : ℕ}
    (hlength : IsChannelStatus status →
      data.length + n = (midiCommandBytesNeeded status).toNat) :
    Lacks (hold ++ status :: data) n := by
  rcases h with rfl | hsystem
  · exact ⟨status, data, rfl, hstatus, hlength⟩
  · exact (hsystem.append _).lacks n

theorem held_system {hold : List UInt8} (h : hold = [] ∨ SystemHeld hold) {status : UInt8}
    (hstatus : 0xf0 ≤ status) (data : List UInt8) : SystemHeld (hold ++ status :: data) := by
  rcases h with rfl | hsystem
  · exact ⟨status, data, rfl, hstatus⟩
  · exact hsystem.append _

theorem Lacks.framed {hold : List UInt8} {status : UInt8} {data : List UInt8}
    (h : Lacks hold 0) (hhold : hold = status :: data) (delta : UInt64) :
    (midiCommandSet delta status data).Framed := by
  obtain ⟨status', data', heq, hstatus, hlength⟩ := h
  rw [hhold, List.cons.injEq] at heq
  obtain ⟨rfl, rfl⟩ := heq
  exact ⟨hstatus, hlength⟩

namespace Parser

theorem wellHeld_wake {p : Parser} (h : p.WellHeld) (getDelta : Bool) :
    (p.wake getDelta).WellHeld := by
  unfold wake
  by_cases hinit : p.status = .init
  · rw [if_pos hinit]
    have hhold := h.hold
    rw [hinit] at hhold
    refine ⟨h.running, ?_⟩
    cases getDelta <;> exact hhold
  · rwa [if_neg hinit]

theorem wellHeld_runningByte {p : Parser} (hrunning : 0x80 ≤ p.runningStatus)
    (hstatus : p.status = .waitCommand) (hhold : p.hold = [] ∨ SystemHeld p.hold) (byte : UInt8) :
    (p.runningByte byte).WellHeld := by
  have happend : p.hold ++ [p.runningStatus] ++ [byte] = p.hold ++ p.runningStatus :: [byte] := by
    simp
  refine ⟨.inr hrunning, ?_⟩
  simp only [runningByte, happend]
  by_cases hone : midiCommandBytesNeeded p.runningStatus = 1
  · simp only [if_pos hone]
    exact held_open hhold hrunning [byte] (fun _ => by rw [hone]; rfl)
  · by_cases htwo : midiCommandBytesNeeded p.runningStatus = 2
    · simp only [if_neg hone, if_pos htwo]
      exact held_open hhold hrunning [byte] (fun _ => by rw [htwo]; rfl)
    · simp only [if_neg hone, if_neg htwo, hstatus]
      -- a channel status calls for one or two data bytes, so this one is a system status
      have hsystem : 0xf0 ≤ p.runningStatus := by
        by_contra hlow
        rcases bytesNeeded_channel p.runningStatus ⟨hrunning, UInt8.not_le.mp hlow⟩ with h | h
        · exact hone h
        · exact htwo h
      exact .inr (held_system hhold hsystem [byte])

theorem wellHeld_statusByte {p : Parser} {byte : UInt8} (hbyte : 0x80 ≤ byte)
    (hhold : p.hold = [] ∨ SystemHeld p.hold) : (p.statusByte byte).WellHeld := by
  unfold statusByte
  by_cases hsysex : byte = 0xf0 ∨ (p.partialSysex = true ∧ byte = 0xf7)
  · rw [if_pos hsysex]
    have hsystem : 0xf0 ≤ byte := by
      rcases hsysex with rfl | ⟨-, rfl⟩ <;> decide
    exact ⟨.inl rfl, held_system hhold hsystem []⟩
  · rw [if_neg hsysex]
    refine ⟨.inr hbyte, ?_⟩
    by_cases hchannel : byte < 0xf0
    · have hmask := bytesNeeded_mask_channel byte ⟨hbyte, hchannel⟩
      rcases bytesNeeded_channel byte ⟨hbyte, hchannel⟩ with hone | htwo
      · simp only [hmask, hone, if_true]
        exact held_open hhold hbyte [] (fun _ => by rw [hone]; rfl)
      · simp only [hmask, htwo, show ((2 : UInt8) = 1) = False by simp, if_false, if_true]
        exact held_open hhold hbyte [] (fun _ => by rw [htwo]; rfl)
    · have hsystem : 0xf0 ≤ byte := UInt8.not_lt.mp hchannel
      simp only [bytesNeeded_mask_system byte hsystem, show ((0 : UInt8) = 1) = False by simp,
        show ((0 : UInt8) = 2) = False by simp, if_false]
      exact (held_system hhold hsystem []).lacks 0

theorem wellHeld_sysexByte {p : Parser} (hstatus : p.status = .waitEndSysex)
    (hhold : SystemHeld p.hold) (byte : UInt8) : (p.sysexByte byte).WellHeld := by
  have happend := hhold.append [byte]
  refine ⟨.inl rfl, ?_⟩
  unfold sysexByte
  by_cases hdone : byte = 0xf0 ∨ byte = 0xf7 ∨ (p.partialSysex = true ∧ byte = 0xf4)
  · simp only [if_pos hdone]
    exact happend.lacks 0
  · simpa only [if_neg hdone, hstatus] using happend

theorem wellHeld_absorb {p : Parser} (h : p.WellHeld) (byte : UInt8) :
    (p.absorb byte).WellHeld := by
  obtain ⟨hrunning, hhold⟩ := h
  cases hs : p.status <;> simp only [hs] at hhold <;> simp only [absorb, hs]
  case waitCommand =>
    unfold commandByte
    by_cases hdata : byte < 0x80
    · by_cases hzero : p.runningStatus = 0
      · simp only [if_pos hdata, if_pos hzero]
        exact ⟨hrunning, by simpa only [hs] using hhold⟩
      · simp only [if_pos hdata, if_neg hzero]
        exact wellHeld_runningByte (hrunning.resolve_left hzero) hs hhold byte
    · simp only [if_neg hdata]
      exact wellHeld_statusByte (UInt8.not_lt.mp hdata) hhold
  case waitByte2 => exact ⟨hrunning, hhold.append byte⟩
  case waitByte1 => exact ⟨hrunning, hhold.append byte⟩
  case waitEndSysex => exact wellHeld_sysexByte hs hhold byte
  all_goals exact ⟨hrunning, by simpa only [hs] using hhold⟩

theorem wellHeld_deliver {p : Parser} (h : p.WellHeld) (hdone : p.status = .commandReceived)
    (mode : MidiParseMode) (getDelta : Bool) :
    (deliver mode p getDelta).1.1.WellHeld ∧
      ∀ command ∈ (deliver mode p getDelta).2, command.Framed := by
  have hhold := h.hold
  simp only [hdone] at hhold
  refine ⟨⟨h.running, .inl rfl⟩, ?_⟩
  intro command hcommand
  cases hbytes : p.hold with
  | nil => simp [deliver, hbytes] at hcommand
  | cons status data =>
    simp only [deliver, hbytes, List.mem_singleton] at hcommand
    subst hcommand
    exact hhold.framed hbytes p.currentDelta

/-- The step lemma: one octet keeps the invariant and emits framed commands only. -/
theorem wellHeld_step {mode : MidiParseMode} {s : Parser × Bool} (byte : UInt8)
    (h : s.1.WellHeld) :
    (step mode s byte).1.1.WellHeld ∧ ∀ command ∈ (step mode s byte).2, command.Framed := by
  have hawake := wellHeld_wake h s.2
  unfold step awakeStep
  by_cases hdelta : (s.1.wake s.2).status = .waitDelta
  · simp only [if_pos hdelta]
    refine ⟨⟨hawake.running, ?_⟩, by simp⟩
    have hhold := hawake.hold
    simp only [hdelta] at hhold
    simp only [deltaByte]
    by_cases hfinal : byte &&& 0x80 = 0
    · simpa only [if_pos hfinal] using hhold
    · simpa only [if_neg hfinal] using hhold
  · by_cases hrealtime : byte ≥ midiTimingClock
    · simp only [if_neg hdelta, if_pos hrealtime]
      refine ⟨hawake, ?_⟩
      intro command hcommand
      rw [List.mem_singleton] at hcommand
      subst hcommand
      have hsystem : SystemHeld [byte] :=
        ⟨byte, [], rfl, UInt8.le_trans (by decide : (0xf0 : UInt8) ≤ midiTimingClock) hrealtime⟩
      exact (hsystem.lacks 0).framed rfl _
    · have habsorb := wellHeld_absorb hawake byte
      by_cases hdone : ((s.1.wake s.2).absorb byte).status = .commandReceived
      · simp only [if_neg hdelta, if_neg hrealtime, if_pos hdone]
        exact wellHeld_deliver habsorb hdone mode s.2
      · simp only [if_neg hdelta, if_neg hrealtime, if_neg hdone]
        exact ⟨habsorb, by simp⟩

/-- The end of a payload keeps the invariant unless a channel command is held. -/
theorem wellHeld_endOfBuffer {mode : MidiParseMode} {p : Parser} (h : p.WellHeld)
    (hclean : mode = .rtp → p.hold = [] ∨ SystemHeld p.hold) :
    (endOfBuffer mode p).WellHeld := by
  cases mode with
  | simple => exact h
  | rtp => exact ⟨h.running, hclean rfl⟩

end Parser

namespace MidiState

/-- The passes of a send do reach the end of the queue. -/
theorem passes_reach_end (mode : MidiParseMode) (queue : List UInt8) {s : MidiState} {p : Parser}
    {size : ℕ} (h : s.Represents p queue size) (getDelta : Bool) :
    ∃ t, Relation.ReflTransGen (MidiStatePass mode) (s, getDelta)
        (t, (feed (Parser.step mode) (p, getDelta) queue).1.2) ∧
      t.Represents (feed (Parser.step mode) (p, getDelta) queue).1.1 [] size := by
  induction queue generalizing s p getDelta with
  | nil => exact ⟨s, .refl, h⟩
  | cons byte queue ih =>
    obtain ⟨r, t, hread, hbyte, ht⟩ := pass_represents h mode getDelta
    obtain ⟨u, hreach, hu⟩ := ih ht (Parser.step mode (p, getDelta) byte).1.2
    exact ⟨u, .head (.octet hread hbyte) hreach, hu⟩

/-- A pass follows the machine: the octet it reads is the head of the queue. -/
theorem pass_follows {mode : MidiParseMode} {s t : MidiState} {getDelta next : Bool} {p : Parser}
    {queue : List UInt8} {size : ℕ} (h : s.Represents p queue size)
    (hpass : MidiStatePass mode (s, getDelta) (t, next)) :
    ∃ byte rest, queue = byte :: rest ∧
      t.Represents (Parser.step mode (p, getDelta) byte).1.1 rest size ∧
      next = (Parser.step mode (p, getDelta) byte).1.2 := by
  obtain ⟨hread, hbyte⟩ := hpass
  cases queue with
  | nil => simp [midiStateReadByte, RingBuffer.readByte_nil h.queue_eq, bind, Except.bind, pure,
      Except.pure] at hread
  | cons first rest =>
    obtain ⟨r, u, hread', hbyte', hu⟩ := pass_represents h mode getDelta
    rw [hread', Except.ok.injEq, Prod.mk.injEq, Option.some.injEq] at hread
    obtain ⟨rfl, rfl⟩ := hread
    rw [hbyte', Except.ok.injEq, Prod.mk.injEq, Prod.mk.injEq] at hbyte
    obtain ⟨rfl, rfl, -⟩ := hbyte
    exact ⟨first, rest, rfl, hu, rfl⟩

/-- Every state between two passes is the machine on the octets taken so far. -/
theorem passes_follow {mode : MidiParseMode} {s t : MidiState} {getDelta next : Bool} {p : Parser}
    {queue : List UInt8} {size : ℕ} (h : s.Represents p queue size)
    (hreach : Relation.ReflTransGen (MidiStatePass mode) (s, getDelta) (t, next)) :
    ∃ taken rest, queue = taken ++ rest ∧
      t.Represents (feed (Parser.step mode) (p, getDelta) taken).1.1 rest size ∧
      next = (feed (Parser.step mode) (p, getDelta) taken).1.2 := by
  generalize hlast : (t, next) = last at hreach
  induction hreach generalizing t next with
  | refl =>
    cases hlast
    exact ⟨[], queue, rfl, h, rfl⟩
  | @tail mid last _ hpass ih =>
    subst hlast
    obtain ⟨taken, rest, hqueue, hmid, hnext⟩ := @ih mid.1 mid.2 rfl
    obtain ⟨byte, rest', rfl, ht, hlast⟩ := pass_follows hmid hpass
    refine ⟨taken ++ [byte], rest', by simp [hqueue], ?_, ?_⟩
    · simpa only [feed_append, feed_singleton, hnext] using ht
    · simpa only [feed_append, feed_singleton, hnext] using hlast

/-- The condition on the passes, read off the machine. -/
theorem endsBetweenCommands_iff {s : MidiState} {p : Parser} {queue : List UInt8} {size : ℕ}
    (h : s.Represents p queue size) (zFlag : Bool) :
    EndsBetweenCommands s (.send .rtp zFlag) ↔
      (feed (Parser.step .rtp) (p, zFlag) queue).1.1.hold = [] ∨
        SystemHeld (feed (Parser.step .rtp) (p, zFlag) queue).1.1.hold := by
  constructor
  · intro hends
    obtain ⟨t, hreach, ht⟩ := passes_reach_end .rtp queue h zFlag
    have hclean := hends t _ hreach ((RingBuffer.used_eq_zero_iff _).mpr ht.queue_eq)
    rwa [ht.follows.hold] at hclean
  · intro hclean t next hreach hempty
    obtain ⟨taken, rest, hqueue, ht, -⟩ := passes_follow h hreach
    have hrest : rest = [] := ht.queue_eq ▸ (RingBuffer.used_eq_zero_iff _).mp hempty
    rw [hrest, List.append_nil] at hqueue
    rwa [ht.follows.hold, ← hqueue]

/-- A call that ends between commands keeps the invariant. -/
theorem call_wellHeld {size : ℕ} {s : MidiState} {p : Parser} {queue : List UInt8}
    (h : s.Represents p queue size) (hp : p.WellHeld) (call : MidiStateCall)
    (hends : EndsBetweenCommands s call) :
    (Parser.call size (p, queue) call).1.1.WellHeld ∧
      ∀ command ∈ (Parser.call size (p, queue) call).2, command.Framed := by
  cases call with
  | write bytes =>
    simp only [Parser.call]
    by_cases hfit : queue.length + bytes.length ≤ size
    · simpa [hfit] using hp
    · simpa [hfit] using hp
  | send mode zFlag =>
    have hstep : ∀ (s : Parser × Bool) (byte : UInt8), s.1.WellHeld →
        (Parser.step mode s byte).1.1.WellHeld ∧
          ∀ command ∈ (Parser.step mode s byte).2, command.Framed :=
      fun s byte hs => Parser.wellHeld_step byte hs
    have hstart : ((p, zFlag) : Parser × Bool).1.WellHeld := hp
    obtain ⟨hlast, hout⟩ := feed_invariant hstep hstart queue
    refine ⟨Parser.wellHeld_endOfBuffer hlast ?_, hout⟩
    rintro rfl
    exact (endsBetweenCommands_iff h zFlag).mp hends

/-- A condition along a run, call by call. -/
theorem along_cons {Cond : MidiState → MidiStateCall → Prop} {size : ℕ} {s : MidiState}
    {p : Parser × List UInt8} (h : s.Represents p.1 p.2 size) {call : MidiStateCall}
    {calls : List MidiStateCall} (hcond : Cond s call)
    (hrest : ∀ t : MidiState, t.Represents (Parser.call size p call).1.1
      (Parser.call size p call).1.2 size → Along midiStateCall Cond t calls) :
    Along midiStateCall Cond s (call :: calls) := by
  refine ⟨hcond, fun t now hnow => ?_⟩
  obtain ⟨u, hcall, hu⟩ := call_represents h call
  rw [hcall, Except.ok.injEq, Prod.mk.injEq] at hnow
  exact hrest t (hnow.1 ▸ hu)

/-- Every command of a run whose RTP payloads end between commands is framed,
and the readers of the sender stay inside its data. -/
theorem emitted_commands_framed {bufferSize : ℕ} {s : MidiState}
    (hcreate : midiStateCreate bufferSize = some s) (calls : List MidiStateCall)
    (hends : Along midiStateCall EndsBetweenCommands s calls) :
    ∃ t out, run midiStateCall s calls = .ok (t, out) ∧
      ∀ command ∈ out, command.Framed ∧ ∃ event, midiSenderEvent command = .ok event := by
  obtain ⟨hrep, -⟩ := create_represents hcreate
  have hstep : ∀ (s : MidiState) (call : MidiStateCall),
      (∃ p queue, s.Represents p queue bufferSize ∧ p.WellHeld) → EndsBetweenCommands s call →
      ∃ t now, midiStateCall s call = .ok (t, now) ∧
        (∃ p queue, t.Represents p queue bufferSize ∧ p.WellHeld) ∧
        ∀ command ∈ now, command.Framed := by
    rintro s call ⟨p, queue, h, hp⟩ hends
    obtain ⟨t, hcall, ht⟩ := call_represents (p := (p, queue)) h call
    obtain ⟨hkept, hnow⟩ := call_wellHeld h hp call hends
    exact ⟨t, _, hcall, ⟨_, _, ht, hkept⟩, hnow⟩
  obtain ⟨t, out, hrun, -, hout⟩ := run_invariant hstep
    ⟨_, _, hrep, ⟨.inl rfl, .inl rfl⟩⟩ calls hends
  exact ⟨t, out, hrun, fun command hmem =>
    ⟨hout command hmem, senderEvent_ok (hout command hmem).2⟩⟩

/-- Two whole packets: a note, then a tune request. -/
theorem emitted_commands_framed_whole_packets :
    ∃ s t out, midiStateCreate 10240 = some s ∧
      run midiStateCall s [.write [0x90, 0x3c, 0x40], .send .rtp false, .write [0xf6],
        .send .rtp false] = .ok (t, out) ∧
      ∀ command ∈ out, command.Framed ∧ ∃ event, midiSenderEvent command = .ok event := by
  obtain ⟨s, hs⟩ : ∃ s, midiStateCreate 10240 = some s := ⟨_, rfl⟩
  obtain ⟨h, -⟩ := create_represents hs
  obtain ⟨t, out, hrun, hout⟩ := emitted_commands_framed hs
    [.write [0x90, 0x3c, 0x40], .send .rtp false, .write [0xf6], .send .rtp false]
    (along_cons (p := (_, _)) h trivial fun _ h =>
      along_cons h ((endsBetweenCommands_iff h false).mpr (.inl (by decide))) fun _ h =>
        along_cons h trivial fun _ h =>
          along_cons h ((endsBetweenCommands_iff h false).mpr (.inl (by decide)))
            fun _ _ => trivial)
  exact ⟨s, t, out, hs, hrun, hout⟩

/-- A note cut off by the end of its packet takes the next packet's tune request
as its data, and the note reader then reads past it. -/
theorem truncated_packet_misframed :
    ∃ s t out, midiStateCreate 10240 = some s ∧
      run midiStateCall s [.write [0x90], .send .rtp false, .write [0xf6], .send .rtp false] =
        .ok (t, out) ∧
      ∃ command ∈ out, ¬ command.Framed ∧ midiNoteFromCommand command = .error .outOfBounds ∧
        midiSenderEvent command = .error .outOfBounds := by
  obtain ⟨s, hs⟩ : ∃ s, midiStateCreate 10240 = some s := ⟨_, rfl⟩
  obtain ⟨h, -⟩ := create_represents hs
  obtain ⟨t, hrun, -⟩ := calls_represent (p := (_, _)) h
    [.write [0x90], .send .rtp false, .write [0xf6], .send .rtp false]
  refine ⟨s, t, _, hs, hrun, ⟨0, 0x90, [0xf6]⟩, by decide, ?_, by decide, by decide⟩
  intro hframed
  exact absurd (hframed.2 (by decide)) (by decide)

/-- A `midi_state_send` in RTP mode has just returned with this state. -/
def AtPacketEnd (bufferSize : ℕ) (s : MidiState) : Prop :=
  ∃ first calls zFlag out, midiStateCreate bufferSize = some first ∧
    run midiStateCall first (calls ++ [.send .rtp zFlag]) = .ok (s, out)

/-- The commands emitted from one more packet. -/
def packetCommands (s : MidiState) (payload : List UInt8) (zFlag : Bool) :
    Except Fault (List MidiCommand) :=
  (run midiStateCall s [.write payload, .send .rtp zFlag]).map Prod.snd

/-- At the end of a packet the parser is back in its initial status with an empty ring. -/
theorem atPacketEnd_represents {bufferSize : ℕ} {s : MidiState} (h : AtPacketEnd bufferSize s) :
    0 < bufferSize ∧ ∃ p, s.Represents p [] bufferSize ∧ p.status = .init := by
  obtain ⟨first, calls, zFlag, out, hcreate, hrun⟩ := h
  obtain ⟨hrep, hpos⟩ := create_represents hcreate
  obtain ⟨t, hrun', ht⟩ := calls_represent (p := (_, _)) hrep (calls ++ [.send .rtp zFlag])
  rw [hrun', Except.ok.injEq, Prod.mk.injEq] at hrun
  rw [hrun.1, feed_append, feed_singleton] at ht
  exact ⟨hpos, _, ht, rfl⟩

theorem packetCommands_eq {s : MidiState} {p : Parser} {size : ℕ} (h : s.Represents p [] size)
    (payload : List UInt8) (zFlag : Bool) :
    packetCommands s payload zFlag =
      .ok (Parser.send .rtp zFlag p (if payload.length ≤ size then payload else [])).2 := by
  obtain ⟨t, hrun, -⟩ := calls_represent (p := (p, [])) h [.write payload, .send .rtp zFlag]
  simp only [packetCommands, hrun, Except.map, feed_cons, feed_nil, Parser.call, List.length_nil,
    zero_add, List.nil_append, List.append_nil]
  split_ifs <;> rfl

end MidiState

/-- Leaving the initial status forgets the old delta time. -/
theorem Parser.send_congr {p q : Parser} (hp : p.status = .init) (hq : q.status = .init)
    (hrunning : p.runningStatus = q.runningStatus) (hunfinished : p.partialSysex = q.partialSysex)
    (hhold : p.hold = q.hold) (mode : MidiParseMode) (zFlag : Bool) (bytes : List UInt8) :
    (send mode zFlag p bytes).2 = (send mode zFlag q bytes).2 := by
  cases bytes with
  | nil => rfl
  | cons byte bytes =>
    have hwake : p.wake zFlag = q.wake zFlag := by
      simp only [wake, hp, hq, if_true, hrunning, hunfinished, hhold]
    simp only [send, feed_cons, step, hwake]

/-- A tune request is emitted behind whatever is still held. -/
theorem Parser.send_tuneRequest {p : Parser} (hp : p.status = .init) :
    ((send .rtp false p [0xf6]).2.map fun command => command.status :: command.data) =
      [p.hold ++ [0xf6]] := by
  have hneeded : midiCommandBytesNeeded (0xf6 &&& 0xf0) = 0 := by decide
  cases hhold : p.hold with
  | nil =>
    simp [send, feed_cons, step, awakeStep, wake, hp, absorb, commandByte, statusByte, deliver,
      hhold, hneeded, midiTimingClock, midiCommandSet]
  | cons status data => simp [send, feed_cons, step, awakeStep, wake, hp, absorb, commandByte,
      statusByte, deliver, hhold, hneeded, midiTimingClock, midiCommandSet]

namespace MidiState

/-- Two parsers at the end of a packet that agree on running status and partial
SysEx cannot be told apart by a next packet exactly when they hold the same
octets. Packets are compared that both rings take, or neither. -/
theorem packets_isolated_iff {size₁ size₂ : ℕ} {s₁ s₂ : MidiState} (h₁ : AtPacketEnd size₁ s₁)
    (h₂ : AtPacketEnd size₂ s₂) (hrunning : s₁.runningStatus = s₂.runningStatus)
    (hunfinished : s₁.partialSysex = s₂.partialSysex) :
    (∀ payload zFlag, (payload.length ≤ size₁ ↔ payload.length ≤ size₂) →
      packetCommands s₁ payload zFlag = packetCommands s₂ payload zFlag) ↔
      s₁.hold.contents = s₂.hold.contents := by
  obtain ⟨hpos₁, p₁, hrep₁, hinit₁⟩ := atPacketEnd_represents h₁
  obtain ⟨hpos₂, p₂, hrep₂, hinit₂⟩ := atPacketEnd_represents h₂
  rw [hrep₁.follows.runningStatus, hrep₂.follows.runningStatus] at hrunning
  rw [hrep₁.follows.partialSysex, hrep₂.follows.partialSysex] at hunfinished
  rw [hrep₁.follows.hold, hrep₂.follows.hold]
  constructor
  · intro hsame
    have htune := hsame [0xf6] false (by simp only [List.length_singleton]; omega)
    rw [packetCommands_eq hrep₁, packetCommands_eq hrep₂, List.length_singleton,
      if_pos (Nat.succ_le_of_lt hpos₁), if_pos (Nat.succ_le_of_lt hpos₂), Except.ok.injEq] at htune
    have hheld := congrArg (List.map fun command => command.status :: command.data) htune
    rw [Parser.send_tuneRequest hinit₁, Parser.send_tuneRequest hinit₂] at hheld
    simpa using hheld
  · intro hhold payload zFlag hfits
    rw [packetCommands_eq hrep₁, packetCommands_eq hrep₂, Except.ok.injEq]
    simp only [hfits]
    exact Parser.send_congr hinit₁ hinit₂ hrunning hunfinished hhold _ _ _

/-- A whole note before, on one side under an earlier history. -/
theorem packets_isolated_iff_whole_note :
    ∃ s₁ s₂, AtPacketEnd 10240 s₁ ∧ AtPacketEnd 10240 s₂ ∧
      ((∀ payload zFlag, packetCommands s₁ payload zFlag = packetCommands s₂ payload zFlag) ↔
        s₁.hold.contents = s₂.hold.contents) := by
  obtain ⟨s, hs⟩ : ∃ s, midiStateCreate 10240 = some s := ⟨_, rfl⟩
  obtain ⟨h, -⟩ := create_represents hs
  obtain ⟨s₁, hrun₁, hrep₁⟩ := calls_represent (p := (_, _)) h
    ([.write [0x90, 0x3c, 0x40]] ++ [.send .rtp false])
  obtain ⟨s₂, hrun₂, hrep₂⟩ := calls_represent (p := (_, _)) h
    ([.write [0xf6], .send .rtp false, .write [0x90, 0x3c, 0x41]] ++ [.send .rtp false])
  have hend₁ : AtPacketEnd 10240 s₁ := ⟨s, _, _, _, hs, hrun₁⟩
  have hend₂ : AtPacketEnd 10240 s₂ := ⟨s, _, _, _, hs, hrun₂⟩
  refine ⟨s₁, s₂, hend₁, hend₂, ?_⟩
  have hiff := packets_isolated_iff hend₁ hend₂
    (by rw [hrep₁.follows.runningStatus, hrep₂.follows.runningStatus]; decide)
    (by rw [hrep₁.follows.partialSysex, hrep₂.follows.partialSysex]; decide)
  simpa using hiff

/-- The same running status with and without a cut-off note behind it: the next
packet's tune request comes out once as itself and once as the note's data. -/
theorem truncated_packet_not_isolated :
    ∃ s₁ s₂, AtPacketEnd 10240 s₁ ∧ AtPacketEnd 10240 s₂ ∧
      s₁.runningStatus = s₂.runningStatus ∧ s₁.partialSysex = s₂.partialSysex ∧
      packetCommands s₁ [0xf6] false = .ok [⟨0, 0xf6, []⟩] ∧
      packetCommands s₂ [0xf6] false = .ok [⟨0, 0x90, [0xf6]⟩] := by
  obtain ⟨s, hs⟩ : ∃ s, midiStateCreate 10240 = some s := ⟨_, rfl⟩
  obtain ⟨h, -⟩ := create_represents hs
  obtain ⟨s₁, hrun₁, hrep₁⟩ := calls_represent (p := (_, _)) h
    ([.write [0x90, 0x3c, 0x40]] ++ [.send .rtp false])
  obtain ⟨s₂, hrun₂, hrep₂⟩ := calls_represent (p := (_, _)) h
    ([.write [0x90]] ++ [.send .rtp false])
  refine ⟨s₁, s₂, ⟨s, _, _, _, hs, hrun₁⟩, ⟨s, _, _, _, hs, hrun₂⟩, ?_, ?_, ?_, ?_⟩
  · rw [hrep₁.follows.runningStatus, hrep₂.follows.runningStatus]
    decide
  · rw [hrep₁.follows.partialSysex, hrep₂.follows.partialSysex]
    decide
  · rw [packetCommands_eq hrep₁]
    decide
  · rw [packetCommands_eq hrep₂]
    decide

end MidiState
end RaveloxMidi
