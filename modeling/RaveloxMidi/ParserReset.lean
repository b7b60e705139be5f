import RaveloxMidi.MidiSimple

/-!
# Resetting a parser

`midi_state_reset` puts back the status, the running status, the hold buffer and
the ring. It leaves two fields alone. The delta time is overwritten before it is
used again; the mark of an unfinished SysEx is not, and the next 0xF7 reads it.
-/
namespace RaveloxMidi
open ByteMemory Transducer

namespace Parser

/-- The parser without a delta time that it overwrites on waking up. -/
def forgetDelta (p : Parser) : Parser :=
  if p.status = .init then { p with currentDelta := 0 } else p

theorem wake_forgetDelta (p : Parser) (getDelta : Bool) :
    p.forgetDelta.wake getDelta = p.wake getDelta := by
  unfold forgetDelta
  by_cases hinit : p.status = .init
  · simp only [wake, if_pos hinit]
  · rw [if_neg hinit]

theorem step_forgetDelta (mode : MidiParseMode) (p : Parser) (getDelta : Bool) (byte : UInt8) :
    step mode (p.forgetDelta, getDelta) byte = step mode (p, getDelta) byte := by
  rw [step, step, wake_forgetDelta]

theorem forgetDelta_idem (p : Parser) : p.forgetDelta.forgetDelta = p.forgetDelta := by
  unfold forgetDelta
  by_cases hinit : p.status = .init
  · simp only [if_pos hinit]
  · simp only [if_neg hinit]

/-- What is forgotten is not seen by a whole `midi_state_send` either. -/
theorem send_forgetDelta (mode : MidiParseMode) (zFlag : Bool) (p : Parser) (bytes : List UInt8) :
    (send mode zFlag p.forgetDelta bytes).2 = (send mode zFlag p bytes).2 ∧
      (send mode zFlag p.forgetDelta bytes).1.forgetDelta =
        (send mode zFlag p bytes).1.forgetDelta := by
  cases bytes with
  | nil =>
    refine ⟨rfl, ?_⟩
    cases mode with
    | simple => exact forgetDelta_idem p
    | rtp =>
      by_cases hinit : p.status = .init <;>
        simp [send, endOfBuffer, forgetDelta, hinit]
  | cons byte bytes => simp only [send, feed_cons, step_forgetDelta, and_self]

/-- Two parsers, with the octets queued for them, that differ at most in a forgotten delta
time. -/
structure Alike (s t : Parser × List UInt8) : Prop where
  parser : s.1.forgetDelta = t.1.forgetDelta
  queue : s.2 = t.2

theorem Alike.call (size : ℕ) {s t : Parser × List UInt8} (h : Alike s t) (call : MidiStateCall) :
    (Parser.call size s call).2 = (Parser.call size t call).2 ∧
      Alike (Parser.call size s call).1 (Parser.call size t call).1 := by
  obtain ⟨p, queue⟩ := s
  obtain ⟨q, queue'⟩ := t
  obtain ⟨hforget, rfl⟩ := h
  cases call with
  | write bytes =>
    by_cases hfit : queue.length + bytes.length ≤ size
    · simp only [Parser.call, if_pos hfit, true_and]
      exact ⟨hforget, rfl⟩
    · simp only [Parser.call, if_neg hfit, true_and]
      exact ⟨hforget, rfl⟩
  | send mode zFlag =>
    obtain ⟨hout, hnext⟩ := send_forgetDelta mode zFlag p queue
    obtain ⟨hout', hnext'⟩ := send_forgetDelta mode zFlag q queue
    dsimp only at hforget
    rw [hforget] at hout hnext
    exact ⟨hout.symm.trans hout', hnext.symm.trans hnext', rfl⟩

end Parser

namespace MidiState

/-- The commands that later calls hand to the sender. -/
def emitted (s : MidiState) (calls : List MidiStateCall) : Except Fault (List MidiCommand) :=
  (run midiStateCall s calls).map Prod.snd

theorem Represents.emitted_eq {s : MidiState} {p : Parser} {queue : List UInt8} {size : ℕ}
    (h : s.Represents p queue size) (calls : List MidiStateCall) :
    s.emitted calls = .ok (feed (Parser.call size) (p, queue) calls).2 := by
  obtain ⟨t, hrun, -⟩ := calls_represent (p := (p, queue)) h calls
  rw [emitted, hrun]
  rfl

/-- After a reset, a parser does whatever a new one does exactly if it was not in the
middle of a segmented SysEx. -/
theorem reset_complete_iff {size : ℕ} {fresh s : MidiState} {before : List MidiStateCall}
    {out : List MidiCommand} (hfresh : midiStateCreate size = some fresh)
    (hrun : run midiStateCall fresh before = .ok (s, out)) :
    (∀ later, (midiStateReset s).emitted later = fresh.emitted later) ↔
      s.partialSysex = false := by
  obtain ⟨hnew, hsize⟩ := create_represents hfresh
  obtain ⟨t, hrun', hrep⟩ := calls_represent (p := (_, _)) hnew before
  cases hrun.symm.trans hrun'
  have hreset := hrep.reset
  rw [← hrep.follows.partialSysex, ← hrep.follows.currentDelta] at hreset
  constructor
  · intro hsame
    have hend := hsame [.write [0xf7], .send .simple false]
    rw [hreset.emitted_eq, hnew.emitted_eq] at hend
    cases hunfinished : s.partialSysex with
    | false => rfl
    | true =>
      -- 0xF7 goes on with the SysEx in the one and is a command of its own in the other
      have hfit : [(0xf7 : UInt8)].length ≤ size := hsize
      rw [hunfinished, Parser.feed_write_send hfit, Parser.feed_write_send hfit] at hend
      cases hend
  · intro hwhole later
    rw [hreset.emitted_eq, hnew.emitted_eq, hwhole]
    have hstart : Parser.Alike (⟨.init, 0, [], s.currentDelta, false⟩, [])
        (⟨.init, 0, [], 0, false⟩, []) := ⟨rfl, rfl⟩
    obtain ⟨hout, -⟩ := feed_simulates (fun _ _ call h => h.call size call) hstart later
    rw [hout]

/-- A SysEx that ended with its first segment: the 0xF7 of the next session is lost. -/
theorem reset_keeps_partialSysex :
    ∃ fresh s out, midiStateCreate 8 = some fresh ∧
      run midiStateCall fresh [.write [0xf0, 0x01, 0xf0], .send .simple false] = .ok (s, out) ∧
      (midiStateReset s).emitted [.write [0xf7], .send .simple false] = .ok [] ∧
      fresh.emitted [.write [0xf7], .send .simple false] = .ok [midiCommandSet 0 0xf7 []] := by
  obtain ⟨fresh, hfresh, -⟩ := create_atBoundary (by decide : 0 < 8)
  obtain ⟨hnew, -⟩ := create_represents hfresh
  obtain ⟨s, hrun, hrep⟩ := calls_represent (p := (_, _)) hnew
    [.write [0xf0, 0x01, 0xf0], .send .simple false]
  refine ⟨fresh, s, _, hfresh, hrun, ?_, ?_⟩
  · rw [hrep.reset.emitted_eq]
    rfl
  · rw [hnew.emitted_eq]
    rfl

/-- A note that is cut short before the reset leaves no trace. -/
theorem reset_complete_note :
    ∃ fresh s out, midiStateCreate 8 = some fresh ∧
      run midiStateCall fresh [.write [0x90, 0x30], .send .simple false] = .ok (s, out) ∧
      ((∀ later, (midiStateReset s).emitted later = fresh.emitted later) ↔
        s.partialSysex = false) := by
  obtain ⟨fresh, hfresh, -⟩ := create_atBoundary (by decide : 0 < 8)
  obtain ⟨hnew, -⟩ := create_represents hfresh
  obtain ⟨s, hrun, -⟩ := calls_represent (p := (_, _)) hnew
    [.write [0x90, 0x30], .send .simple false]
  exact ⟨fresh, s, _, hfresh, hrun, reset_complete_iff hfresh hrun⟩

end MidiState
end RaveloxMidi
