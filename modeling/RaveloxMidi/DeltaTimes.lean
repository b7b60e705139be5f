import RaveloxMidi.MidiSimple
import Mathlib.Data.Nat.Digits.Defs

/-!
# Delta times

A delta time comes in one to four octets with seven bits of its value each. The
parser takes in just these octets, but it makes room for eight bits each time:
what it passes on reads the groups as digits to the base 256.
-/
namespace RaveloxMidi
open ByteMemory Transducer

/-- The same digits make the same number in a larger base only if it has one digit. -/
theorem ofDigits_eq_iff_lt {b c : ℕ} (hbase : b < c) {digit : ℕ} (hdigit : digit < b)
    (digits : List ℕ) :
    Nat.ofDigits c (digit :: digits) = Nat.ofDigits b (digit :: digits) ↔
      Nat.ofDigits b (digit :: digits) < b := by
  have hmono := Nat.ofDigits_monotone digits hbase.le
  rw [Nat.ofDigits_cons, Nat.ofDigits_cons, add_right_inj]
  constructor
  · intro hsame
    have hzero : Nat.ofDigits b digits = 0 := by
      have hle := Nat.mul_le_mul_left c hmono
      rw [hsame] at hle
      by_contra hne
      exact absurd (Nat.mul_lt_mul_of_pos_right hbase (Nat.pos_of_ne_zero hne)) (not_lt.mpr hle)
    rw [hzero]
    simpa using hdigit
  · intro hlt
    have hzero : Nat.ofDigits b digits = 0 := by
      by_contra hne
      have hle := Nat.le_mul_of_pos_right b (Nat.pos_of_ne_zero hne)
      omega
    have hall := Nat.digits_zero_of_eq_zero (Nat.ne_zero_of_lt hdigit) hzero
    rw [List.eq_replicate_of_mem hall, Nat.ofDigits_replicate_zero, Nat.ofDigits_replicate_zero,
      mul_zero, mul_zero]

/-- The value bits of the octets, the least significant group first. -/
def groups (octets : List UInt8) : List ℕ := octets.reverse.map fun byte => byte.toNat % 128

/-- The value that the octets encode. -/
def DeltaTime.value (delta : DeltaTime) : ℕ := Nat.ofDigits 128 (groups delta.octets)

theorem groups_concat (octets : List UInt8) (byte : UInt8) :
    groups (octets ++ [byte]) = byte.toNat % 128 :: groups octets := by
  simp [groups]

theorem groups_length (octets : List UInt8) : (groups octets).length = octets.length := by
  simp [groups]

namespace Parser

/-- Up to eight groups fit into `current_delta`, eight bits for each. -/
theorem deltaAfter_toNat (octets : List UInt8) (hlength : octets.length ≤ 8) :
    (deltaAfter 0 octets).toNat = Nat.ofDigits 256 (groups octets) := by
  induction octets using List.reverseRecOn with
  | nil => rfl
  | append_singleton octets byte ih =>
    rw [List.length_append, List.length_singleton] at hlength
    have hlt := Nat.ofDigits_lt_base_pow_length (b := 256) (l := groups octets) (by decide)
      (by simp only [groups, List.mem_map]; omega)
    have hpow : 256 ^ (groups octets).length ≤ 256 ^ 7 :=
      Nat.pow_le_pow_right (by decide) (by rw [groups_length]; omega)
    have hbyte : (byte &&& 0x7f).toUInt64.toNat = byte.toNat % 128 := by
      rw [UInt8.toNat_toUInt64, UInt8.toNat_and]
      exact Nat.and_two_pow_sub_one_eq_mod _ 7
    rw [deltaAfter, List.foldl_append, List.foldl_cons, List.foldl_nil, ← deltaAfter,
      UInt64.toNat_add, UInt64.toNat_shiftLeft, hbyte, ih (by omega), groups_concat,
      Nat.ofDigits_cons, Nat.shiftLeft_eq]
    have height : 2 ^ ((8 : UInt64).toNat % 64) = 256 := rfl
    rw [height]
    omega

theorem deltaAfter_eq_value_iff (delta : DeltaTime) :
    (deltaAfter 0 delta.octets).toNat = delta.value ↔ delta.value < 128 := by
  have hlength : delta.octets.length ≤ 8 := by
    have := delta.lead_length
    rw [DeltaTime.octets, List.length_append, List.length_singleton]
    omega
  rw [deltaAfter_toNat delta.octets hlength, DeltaTime.value, DeltaTime.octets, groups_concat]
  exact ofDigits_eq_iff_lt (by decide) (Nat.mod_lt _ (by decide)) _

theorem absorb_currentDelta (p : Parser) (byte : UInt8) :
    (p.absorb byte).currentDelta = p.currentDelta := by
  cases hs : p.status <;> simp only [absorb, hs]
  case waitCommand =>
    unfold commandByte
    split_ifs
    · rfl
    · rfl
    · unfold statusByte
      split_ifs <;> rfl
  all_goals rfl

/-- Past the delta time, the next command comes with it, whatever octets it takes. -/
theorem feed_head_delta (mode : MidiParseMode) {p : Parser} (h : p.Between)
    (hinit : p.status ≠ .init) (getDelta : Bool) (bytes : List UInt8) :
    ∀ command ∈ (feed (step mode) (p, getDelta) bytes).2.head?,
      command.delta = p.currentDelta := by
  induction bytes generalizing p with
  | nil => simp
  | cons byte bytes ih =>
    intro command hcommand
    rw [feed_cons] at hcommand
    by_cases hbyte : byte < 0xf8
    · rw [step_absorb hinit h.no_delta getDelta hbyte] at hcommand
      by_cases hdone : (p.absorb byte).status = .commandReceived
      · have hne := absorb_hold_ne_nil byte h.awaiting hdone
        obtain ⟨status, data, hhold⟩ := List.exists_cons_of_ne_nil hne
        simp only [if_pos hdone, deliver, hhold, List.cons_append, List.head?_cons,
          Option.mem_some_iff] at hcommand
        rw [← hcommand]
        exact absorb_currentDelta p byte
      · obtain ⟨hinit', hdelta'⟩ := absorb_status h hinit byte
        rw [if_neg hdone, List.nil_append] at hcommand
        rw [ih ⟨hdelta', hdone⟩ hinit' command hcommand, absorb_currentDelta]
    · have hrealtime : byte ≥ midiTimingClock := UInt8.not_lt.mp hbyte
      simp only [step, awakeStep, wake, if_neg hinit, if_neg h.no_delta, if_pos hrealtime,
        List.cons_append, List.head?_cons, Option.mem_some_iff] at hcommand
      rw [← hcommand]
      rfl

end Parser

namespace MidiState

/-- The parser is at the start of a command, with octets to read. -/
structure AtCommand (s : MidiState) (queue : List UInt8) : Prop where
  status : s.status = .init
  hold_valid : s.hold.Valid
  ring_valid : s.ring.Valid
  queue_eq : s.ring.queue = queue

theorem AtCommand.represents {s : MidiState} {queue : List UInt8} (h : s.AtCommand queue) :
    s.Represents ⟨.init, s.runningStatus, s.hold.contents, s.currentDelta, s.partialSysex⟩ queue
      s.ring.size :=
  ⟨⟨h.status, rfl, rfl, rfl, h.hold_valid, rfl⟩, by simp, h.ring_valid, h.queue_eq, rfl⟩

/-- The first passes of the loop take the first octets off the ring: by induction on these. -/
theorem passes_represent (mode : MidiParseMode) (octets : List UInt8) {rest : List UInt8}
    {s : MidiState} {p : Parser} {size : ℕ} (h : s.Represents p (octets ++ rest) size)
    (getDelta : Bool) (hquiet : (feed (Parser.step mode) (p, getDelta) octets).2 = []) :
    ∃ t : MidiState, t.Represents (feed (Parser.step mode) (p, getDelta) octets).1.1 rest size ∧
      ∀ fuel, midiStateSendLoop mode (octets.length + fuel) s getDelta =
        midiStateSendLoop mode fuel t (feed (Parser.step mode) (p, getDelta) octets).1.2 := by
  induction octets generalizing s p getDelta with
  | nil => exact ⟨s, h, fun fuel => by rw [List.length_nil, Nat.zero_add]; rfl⟩
  | cons byte octets ih =>
    obtain ⟨r, u, hread, hbyte, hu⟩ := pass_represents h mode getDelta
    rw [feed_cons, List.append_eq_nil_iff] at hquiet
    obtain ⟨hnow, hlater⟩ := hquiet
    obtain ⟨t, ht, hloop⟩ := ih hu (Parser.step mode (p, getDelta) byte).1.2 hlater
    refine ⟨t, ht, fun fuel => ?_⟩
    have hsucc : (byte :: octets).length + fuel = octets.length + fuel + 1 := by
      rw [List.length_cons]
      omega
    rw [hsucc, midiStateSendLoop, hread]
    simp only [bind, Except.bind, hbyte, hnow, hloop, pure, Except.pure, List.nil_append]
    rw [feed_cons]
    cases midiStateSendLoop mode fuel t
      (feed (Parser.step mode) (Parser.step mode (p, getDelta) byte).1 octets).1.2 <;> rfl

/-- The passes over a delta time: its octets and no others are read, nothing is emitted,
and the parser waits for a command with the value at hand. -/
structure TakesDelta (delta : DeltaTime) (rest : List UInt8) (s t : MidiState) : Prop where
  passes : ∀ fuel, midiStateSendLoop .rtp (delta.octets.length + fuel) s true =
    midiStateSendLoop .rtp fuel t true
  status : t.status = .waitCommand
  queue_eq : t.ring.queue = rest
  value : t.currentDelta.toNat = delta.value

/-- Nothing is left over from earlier commands that a command could be mixed up with. -/
structure Expects (s : MidiState) (command : ListCommand) : Prop where
  hold_empty : s.hold.contents = []
  no_partial : s.partialSysex = false
  allowed : command.Allowed (some s.runningStatus)

end MidiState

/-- Wherever the delta time is read, it is taken in whole, and the command behind it is
emitted with its value. -/
def DecodesDelta (delta : DeltaTime) : Prop :=
  ∀ (s : MidiState) (rest : List UInt8), s.AtCommand (delta.octets ++ rest) →
    (∃ t, MidiState.TakesDelta delta rest s t) ∧
    ∃ t commands, midiStateSend s .rtp true = .ok (t, commands) ∧
      (∀ first ∈ commands.head?, first.delta.toNat = delta.value) ∧
      ∀ command later, rest = ListCommand.octets command ++ later → s.Expects command →
        ∃ first ∈ commands.head?, first.content = command.content

namespace Parser

/-- In command position, the octets of a command are emitted as that command first. -/
theorem feed_command_first {p : Parser} (hstatus : p.status = .waitCommand)
    (h : p.Ready (some p.runningStatus)) (command : ListCommand)
    (hallowed : command.Allowed (some p.runningStatus)) (later : List UInt8) :
    ∃ first ∈ (feed (step .rtp) (p, true) (command.octets ++ later)).2.head?,
      first.content = command.content := by
  by_cases hrealtime : command.IsRealTime
  · cases command with
    | realTime status hlow =>
      refine ⟨midiCommandSet p.currentDelta status [], ?_, rfl⟩
      rw [ListCommand.octets, List.singleton_append, feed_cons, step_realTime hstatus true hlow]
      rfl
    | channel _ _ => exact hrealtime.elim
    | sysex _ _ => exact hrealtime.elim
  · obtain ⟨q, emitted, hfeed, hcontent, -, -⟩ :=
      feed_command .rtp hstatus h command hallowed hrealtime true
    refine ⟨emitted, ?_, hcontent⟩
    rw [feed_append, hfeed]
    rfl

end Parser

/-- A delta time is decoded exactly if its value fits into one octet: the other octets,
if any, are then all zero. -/
theorem decodes_delta_iff (delta : DeltaTime) : DecodesDelta delta ↔ delta.value < 128 := by
  constructor
  · intro hdecodes
    obtain ⟨fresh, hfresh, hboundary, hsize⟩ :=
      MidiState.create_atBoundary (Nat.succ_pos delta.octets.length)
    obtain ⟨s, ret, hwrite, hs⟩ := MidiState.write_represents hboundary.represents
      (delta.octets ++ [0xf8]) (by simp [hsize])
    obtain ⟨-, t, commands, hsend, hdelta, -⟩ := hdecodes s [0xf8]
      ⟨hs.follows.status, hs.follows.hold_valid, hs.ring_valid, hs.queue_eq⟩
    obtain ⟨t', hsend', -⟩ := MidiState.send_represents hs .rtp true
    cases hsend.symm.trans hsend'
    rw [Parser.send, List.nil_append, feed_append, Parser.feed_deltaTime .rtp delta rfl,
      feed_singleton, Parser.step_realTime rfl true (by decide)] at hdelta
    rw [← Parser.deltaAfter_eq_value_iff]
    exact hdelta _ rfl
  · intro hvalue s rest hs
    have hrep := hs.represents
    have hdelta := (Parser.deltaAfter_eq_value_iff delta).mpr hvalue
    have hfeed := Parser.feed_deltaTime .rtp delta (p := ⟨.init, s.runningStatus,
      s.hold.contents, s.currentDelta, s.partialSysex⟩) rfl
    obtain ⟨t, ht, hpasses⟩ := MidiState.passes_represent .rtp delta.octets hrep true
      (by rw [hfeed])
    rw [hfeed] at ht hpasses
    refine ⟨⟨t, hpasses, ht.follows.status, ht.queue_eq, ?_⟩, ?_⟩
    · rw [ht.follows.currentDelta]
      exact hdelta
    obtain ⟨u, hsend, -⟩ := MidiState.send_represents hrep .rtp true
    rw [Parser.send, feed_append, hfeed] at hsend
    refine ⟨u, _, hsend, fun first hfirst => ?_, fun command later hrest hexpects => ?_⟩
    · rw [← hdelta]
      exact congrArg UInt64.toNat
        (Parser.feed_head_delta .rtp ⟨by simp, by simp⟩ (by simp) true rest first hfirst)
    · rw [hrest]
      exact Parser.feed_command_first rfl
        ⟨hexpects.hold_empty, hexpects.no_partial, fun _ h => Option.some.inj h⟩ command
        hexpects.allowed later

/-- The shortest delta time of two octets: 128 is read as 256. -/
theorem decodes_delta_128_misread :
    ∃ (delta : DeltaTime) (s t : MidiState), delta.octets = [0x81, 0x00] ∧ delta.value = 128 ∧
      s.AtCommand [0x81, 0x00, 0x90, 0x30, 0x40] ∧
      midiStateSend s .rtp true = .ok (t, [midiCommandSet 256 0x90 [0x30, 0x40]]) ∧
      ¬ DecodesDelta delta := by
  obtain ⟨fresh, hfresh, hboundary, hsize⟩ := MidiState.create_atBoundary (by decide : 0 < 5)
  obtain ⟨delta, hoctets⟩ : ∃ delta : DeltaTime, delta.octets = [0x81, 0x00] :=
    ⟨⟨[0x81], 0x00, by decide, by simp, by decide⟩, rfl⟩
  obtain ⟨s, ret, hwrite, hs⟩ := MidiState.write_represents hboundary.represents
    (delta.octets ++ [0x90, 0x30, 0x40]) (by simp [hsize, hoctets])
  obtain ⟨t, hsend, -⟩ := MidiState.send_represents hs .rtp true
  have hnote := Parser.feed_channel .rtp (p := ⟨.waitCommand, fresh.runningStatus, [],
    Parser.deltaAfter 0 delta.octets, false⟩) rfl rfl
    ⟨0x90, [0x30, 0x40], by decide, by rfl, by simp⟩ true
  rw [Parser.send, List.nil_append, feed_append, Parser.feed_deltaTime .rtp delta rfl, hnote,
    hoctets] at hsend
  have hcommand : s.AtCommand [0x81, 0x00, 0x90, 0x30, 0x40] :=
    ⟨hs.follows.status, hs.follows.hold_valid, hs.ring_valid, by rw [hs.queue_eq, hoctets]; rfl⟩
  have hvalue : delta.value = 128 := by
    rw [DeltaTime.value, hoctets]
    rfl
  refine ⟨delta, s, t, hoctets, hvalue, hcommand, hsend, fun hdecodes => ?_⟩
  obtain ⟨-, t', commands, hsend', hdelta, -⟩ := hdecodes s [0x90, 0x30, 0x40]
    (by rw [hoctets]; exact hcommand)
  rw [hsend, Except.ok.injEq, Prod.mk.injEq] at hsend'
  rw [← hsend'.2] at hdelta
  have hmisread : (Parser.deltaAfter 0 [0x81, 0x00]).toNat = 128 := (hdelta _ rfl).trans hvalue
  exact absurd hmisread (by decide)

end RaveloxMidi
