import RaveloxMidi.MidiSimple

/-!
# System common messages

A stream may mix channel messages with system common ones. For a status byte the
parser looks up the number of data bytes under the high half alone, so it finds
the entry of SysEx for every status from 0xF0 on: no data bytes. That is right
for a tune request; of the other messages only the status comes out, as a
command of its own.
-/
namespace RaveloxMidi
open ByteMemory Transducer

/-- The statuses of system common messages, with the number of data bytes of each. -/
def systemCommonLengths : List (UInt8 × ℕ) := [(0xf1, 1), (0xf2, 2), (0xf3, 1), (0xf6, 0)]

structure SystemCommon where
  status : UInt8
  data : List UInt8
  known : (status, data.length) ∈ systemCommonLengths
  seven_bit : ∀ byte ∈ data, byte < 0x80

/-- A message of the stream; a channel message says whether its status is left out. -/
inductive StreamMessage where
  | channel (command : ChannelCommand) (running : Bool)
  | common (message : SystemCommon)

namespace StreamMessage

def octets : StreamMessage → List UInt8
  | channel command running => (ListCommand.channel command running).octets
  | common message => message.status :: message.data

def content : StreamMessage → UInt8 × List UInt8
  | channel command _ => (command.status, command.data)
  | common message => (message.status, message.data)

def Allowed (running : Option UInt8) : StreamMessage → Prop
  | channel command leftOut => (ListCommand.channel command leftOut).Allowed running
  | common _ => True

/-- A system common message cancels the running status. -/
def runningAfter : StreamMessage → Option UInt8
  | channel command _ => some command.status
  | common _ => none

/-- Running status is used properly throughout the stream. -/
def AllAllowed : Option UInt8 → List StreamMessage → Prop
  | _, [] => True
  | running, message :: messages =>
    message.Allowed running ∧ AllAllowed message.runningAfter messages

def marked (message : StreamMessage) : List MarkedOctet := markedAs message.octets message.content

/-- A system common message other than a tune request. -/
def TakesData : StreamMessage → Prop
  | channel _ _ => False
  | common message => message.status ∈ [(0xf1 : UInt8), 0xf2, 0xf3]

instance (message : StreamMessage) : Decidable message.TakesData :=
  match message with
  | channel _ _ => .isFalse id
  | common message => inferInstanceAs (Decidable (message.status ∈ [(0xf1 : UInt8), 0xf2, 0xf3]))

theorem allAllowed_append {running : Option UInt8} {messages later : List StreamMessage}
    (h : AllAllowed running (messages ++ later)) : AllAllowed running messages := by
  induction messages generalizing running with
  | nil => trivial
  | cons message messages ih => exact ⟨h.1, ih h.2⟩

end StreamMessage

namespace SystemCommon

/-- Only a tune request comes without data bytes. -/
theorem status_cases (message : SystemCommon) :
    (message.status ∈ [(0xf1 : UInt8), 0xf2, 0xf3] ∧ message.data ≠ []) ∨
      (message.status = 0xf6 ∧ message.data = []) := by
  have hknown := message.known
  simp only [systemCommonLengths, List.mem_cons, Prod.mk.injEq, List.not_mem_nil, or_false]
    at hknown ⊢
  rcases hknown with ⟨hstatus, hlength⟩ | ⟨hstatus, hlength⟩ | ⟨hstatus, hlength⟩ |
    ⟨hstatus, hlength⟩
  · exact .inl ⟨.inl hstatus, List.ne_nil_of_length_pos (by omega)⟩
  · exact .inl ⟨.inr (.inl hstatus), List.ne_nil_of_length_pos (by omega)⟩
  · exact .inl ⟨.inr (.inr hstatus), List.ne_nil_of_length_pos (by omega)⟩
  · exact .inr ⟨hstatus, List.length_eq_zero_iff.mp hlength⟩

theorem data_ne_nil {message : SystemCommon} (h : (StreamMessage.common message).TakesData) :
    message.data ≠ [] := by
  obtain ⟨-, hdata⟩ | ⟨hstatus, -⟩ := message.status_cases
  · exact hdata
  · have hmem : message.status ∈ [(0xf1 : UInt8), 0xf2, 0xf3] := h
    rw [hstatus] at hmem
    exact absurd hmem (by decide)

/-- Neither real-time nor SysEx, and without data bytes as far as the table is concerned. -/
theorem status_plain (message : SystemCommon) :
    message.status < 0xf8 ∧ ¬ message.status < 0x80 ∧ message.status ≠ 0xf0 ∧
      message.status ≠ 0xf7 ∧ midiCommandBytesNeeded (message.status &&& 0xf0) = 0 := by
  have hknown := message.known
  simp only [systemCommonLengths, List.mem_cons, Prod.mk.injEq, List.not_mem_nil, or_false]
    at hknown
  rcases hknown with ⟨hstatus, -⟩ | ⟨hstatus, -⟩ | ⟨hstatus, -⟩ | ⟨hstatus, -⟩ <;>
    rw [hstatus] <;> decide

end SystemCommon

namespace Parser

/-- A system common status in command position is a command of its own. -/
theorem step_commonStatus {p : Parser} (hstatus : p.status = .waitCommand) (hhold : p.hold = [])
    (message : SystemCommon) :
    step .simple (p, false) message.status =
      (({ p with hold := [], status := .init, runningStatus := message.status }, false),
        [midiCommandSet p.currentDelta message.status []]) := by
  obtain ⟨hplain, hdata, hopen, hend, hneeded⟩ := message.status_plain
  have hsysex : ¬ (message.status = 0xf0 ∨ (p.partialSysex = true ∧ message.status = 0xf7)) := by
    rintro (heq | ⟨-, heq⟩)
    · exact hopen heq
    · exact hend heq
  rw [step_absorb (by simp [hstatus]) (by simp [hstatus]) false hplain]
  simp [absorb, hstatus, commandByte, hdata, statusByte, hsysex, hneeded, deliver, hhold]

/-- A channel message or a tune request is parsed whole. -/
theorem parses_message {running : Option UInt8} {p : Parser} (hp : p.status = .init)
    (h : p.Ready running) (message : StreamMessage) (hallowed : message.Allowed running)
    (hdata : ¬ message.TakesData) :
    ∃ q, p.Parses message.octets message.content q ∧ q.Ready message.runningAfter := by
  cases message with
  | channel command leftOut =>
    exact parses_command hp h (.channel command leftOut) hallowed id
  | common message =>
    obtain ⟨htakes, -⟩ | ⟨hstatus, hempty⟩ := message.status_cases
    · exact absurd htakes hdata
    have hstep := step_commonStatus (p := p.wake false) (by rw [wake_of_init hp])
      (by rw [wake_of_init hp]; exact h.hold) message
    rw [wake_of_init hp] at hstep
    refine ⟨⟨.init, message.status, [], 0, p.partialSysex⟩, ⟨by simp [StreamMessage.octets], ?_,
      ⟨midiCommandSet 0 message.status [], ?_, ?_⟩, rfl⟩, rfl, h.no_partial,
      by simp [StreamMessage.runningAfter]⟩
    · simp [StreamMessage.octets, hstatus, hempty]
    · rw [StreamMessage.octets, hempty, feed_singleton, wake_of_init hp]
      exact hstep
    · rw [StreamMessage.content, hempty]
      rfl

/-- Whatever real-time octets come first, the next command of a stream is one of them or the
one that its octets are to complete. -/
theorem head_completed {octets rest stream : List MarkedOctet} (lead : List UInt8) (last : UInt8)
    (content : UInt8 × List UInt8)
    (hoctets : octets = lead.map (·, none) ++ (last, some content) :: rest)
    (hstream : WithRealTime octets stream) :
    ∃ first ∈ (stream.filterMap Prod.snd).head?, first = content ∨ 0xf8 ≤ first.1 := by
  induction hstream generalizing lead with
  | nil => simp at hoctets
  | keep octet hrest ih =>
    cases lead with
    | nil =>
      obtain ⟨rfl, -⟩ := List.cons.inj hoctets
      exact ⟨content, by simp, .inl rfl⟩
    | cons byte lead =>
      obtain ⟨rfl, htail⟩ := List.cons.inj hoctets
      simpa using ih lead htail
  | @insert status hstatus octets stream hrest ih => exact ⟨(status, []), by simp, .inr hstatus⟩

/-- From a message with data bytes on, the stream comes out differently: its status is
emitted at once, alone. -/
theorem feed_takesData_ne (message : SystemCommon) (hdata : message.data ≠ [])
    {octets rest stream : List MarkedOctet}
    (hoctets : octets = (StreamMessage.common message).marked ++ rest)
    (hstream : WithRealTime octets stream) {p : Parser} (h : p.Between)
    (hstatus : (p.wake false).status = .waitCommand) (hhold : p.hold = []) :
    (feed (step .simple) (p, false) (stream.map Prod.fst)).2.map MidiCommand.content ≠
      stream.filterMap Prod.snd := by
  have hmarked : (StreamMessage.common message).marked =
      (message.status, none) :: (message.data.dropLast.map (·, none) ++
        [(message.data.getLast hdata, some (message.status, message.data))]) := by
    simp [StreamMessage.marked, markedAs, StreamMessage.octets, StreamMessage.content,
      List.dropLast_cons_of_ne_nil hdata, List.getLast?_eq_getLast_of_ne_nil,
      List.getLast_cons hdata]
  induction hstream generalizing p with
  | nil => simp [hmarked] at hoctets
  | @keep octet octets stream hrest ih =>
    rw [hmarked, List.cons_append, List.append_assoc] at hoctets
    obtain ⟨rfl, hlater⟩ := List.cons.inj hoctets
    obtain ⟨first, hfirst, hcases⟩ := head_completed _ _ _ hlater hrest
    rw [List.map_cons, feed_cons, ← step_of_wake h,
      step_commonStatus hstatus ((wake_kept p false).1.trans hhold) message]
    intro hsame
    rw [List.filterMap_cons_none rfl] at hsame
    rw [← hsame] at hfirst
    obtain rfl : (message.status, []) = first := Option.some.inj hfirst
    rcases hcases with heq | hlow
    · exact hdata (Prod.mk.inj heq).2.symm
    · exact absurd message.status_plain.1 (UInt8.not_lt.mpr hlow)
  | @insert status hlow octets stream hrest ih =>
    rw [List.map_cons, feed_cons, step_realTime_wake h hlow]
    intro hsame
    obtain ⟨-, hrest'⟩ := List.cons.inj hsame
    refine ih hoctets (wake_between h).1 ?_ ?_ hrest'
    · rw [wake_idem h]
      exact hstatus
    · rw [(wake_kept p false).1]
      exact hhold

/-- Messages that the parser can take whole, from the start of the first. -/
structure ReadsWhole (p : Parser) (messages : List StreamMessage) : Prop where
  init : p.status = .init
  running : ∃ running, p.Ready running ∧ StreamMessage.AllAllowed running messages
  no_data : ∀ message ∈ messages, ¬ message.TakesData

theorem ReadsWhole.emits {p : Parser} {messages : List StreamMessage}
    (h : p.ReadsWhole messages) :
    p.EmitsMarked (messages.flatMap StreamMessage.marked) ∧
      (p.after (messages.flatMap StreamMessage.octets)).ReadsWhole [] := by
  refine emitsMarked_flatMap (fun p message messages hwhole => ?_) h
  obtain ⟨hinit, ⟨running, hready, hfirst, hrest⟩, hdata⟩ := hwhole
  obtain ⟨hdataFirst, hdataRest⟩ := List.forall_mem_cons.mp hdata
  obtain ⟨q, hparses, hnext⟩ := parses_message hinit hready message hfirst hdataFirst
  exact ⟨hinit, q, hparses, hparses.init, ⟨_, hnext, hrest⟩, hdataRest⟩

end Parser

namespace MidiState

/-- A fresh parser emits the messages of a stream, and its real-time octets among them,
exactly if there is no system common message in it but tune requests. -/
theorem common_emits_messages_iff {size : ℕ} {s : MidiState}
    (hs : midiStateCreate size = some s) (messages : List StreamMessage)
    (hallowed : StreamMessage.AllAllowed none messages) {stream : List MarkedOctet}
    (hstream : WithRealTime (messages.flatMap StreamMessage.marked) stream)
    (chunks : List (List UInt8)) (hcut : chunks.flatten = stream.map Prod.fst)
    (hfit : ∀ chunk ∈ chunks, chunk.length ≤ size) :
    (∃ t out, run midiStateCall s (feedChunks false chunks) = .ok (t, out) ∧
      out.map MidiCommand.content = stream.filterMap Prod.snd) ↔
    ∀ message ∈ messages, ¬ message.TakesData := by
  obtain ⟨hrep, -⟩ := create_represents hs
  obtain ⟨t, hrun, -⟩ := chunks_represent false chunks hrep hfit
  rw [hcut] at hrun
  have hready : (⟨.init, 0, [], 0, false⟩ : Parser).Ready none := ⟨rfl, rfl, by simp⟩
  have hbetween : (⟨.init, 0, [], 0, false⟩ : Parser).Between := ⟨by simp, by simp⟩
  constructor
  · rintro ⟨t', out, hrun', hout⟩
    cases hrun.symm.trans hrun'
    by_contra hdata
    -- the stream up to the first message that takes data bytes, and from there on
    obtain ⟨message, hfound⟩ : ∃ message,
        messages.find? (fun message => decide message.TakesData) = some message := by
      rw [← Option.isSome_iff_exists, List.find?_isSome]
      push Not at hdata
      simpa using hdata
    obtain ⟨htakes, before, rest, rfl, hbefore⟩ := List.find?_eq_some_iff_append.mp hfound
    cases message with
    | channel command leftOut => exact (of_decide_eq_true htakes).elim
    | common message =>
      rw [List.flatMap_append, List.flatMap_cons] at hstream
      obtain ⟨first, second, rfl, hfirst, hsecond⟩ := hstream.append_inv
      have hwhole : Parser.ReadsWhole ⟨.init, 0, [], 0, false⟩ before :=
        ⟨rfl, ⟨none, hready, StreamMessage.allAllowed_append hallowed⟩, by simpa using hbefore⟩
      obtain ⟨hemits, hlast⟩ := hwhole.emits
      obtain ⟨running, hquiet, -⟩ := hlast.running
      have hoctets : (before.flatMap StreamMessage.marked).map Prod.fst =
          before.flatMap StreamMessage.octets := flatMap_markedAs_octets _ _ before
      have hstate := Parser.wake_after_withRealTime hfirst hbetween
      obtain ⟨hhold, -, -⟩ := Parser.after_withRealTime hfirst hbetween
      rw [hoctets] at hstate hhold
      rw [Parser.wake_of_init hlast.init] at hstate
      rw [List.map_append, Parser.feed_simple_append, List.map_append, List.filterMap_append,
        (hemits.withRealTime hfirst hbetween).feed_eq] at hout
      refine Parser.feed_takesData_ne message (SystemCommon.data_ne_nil (of_decide_eq_true htakes))
        rfl hsecond (Parser.after_between hbetween _) ?_ ?_ (List.append_cancel_left hout)
      · rw [hstate]
      · exact hhold.trans hquiet.hold
  · intro hdata
    have hwhole : Parser.ReadsWhole ⟨.init, 0, [], 0, false⟩ messages :=
      ⟨rfl, ⟨none, hready, hallowed⟩, hdata⟩
    exact ⟨t, _, hrun, (hwhole.emits.1.withRealTime hstream hbetween).feed_eq⟩

/-- A song position comes out twice, the first time without its data bytes. -/
theorem common_songPosition_split :
    ∃ s t out, midiStateCreate 8 = some s ∧
      run midiStateCall s (feedChunks false [[0xf2, 0x01, 0x02]]) = .ok (t, out) ∧
      out.map MidiCommand.content = [(0xf2, []), (0xf2, [0x01, 0x02])] := by
  obtain ⟨s, hs, -⟩ := create_atBoundary (by decide : 0 < 8)
  obtain ⟨hrep, -⟩ := create_represents hs
  obtain ⟨t, hrun, -⟩ := chunks_represent false [[0xf2, 0x01, 0x02]] hrep (by decide)
  exact ⟨s, t, _, hs, hrun, by decide⟩

/-- A tune request between two notes, with a clock in the second. -/
theorem common_emits_tuneRequest :
    ∃ s t out, midiStateCreate 16 = some s ∧
      run midiStateCall s (feedChunks false
          [[0x90, 0x30, 0x40, 0xf6, 0x90], [0xf8, 0x31, 0x00]]) = .ok (t, out) ∧
      out.map MidiCommand.content =
        [(0x90, [0x30, 0x40]), (0xf6, []), (0xf8, []), (0x90, [0x31, 0x00])] := by
  obtain ⟨s, hs, -⟩ := create_atBoundary (by decide : 0 < 16)
  have hiff := common_emits_messages_iff hs
    [.channel ⟨0x90, [0x30, 0x40], by decide, by rfl, by simp⟩ false,
      .common ⟨0xf6, [], by simp [systemCommonLengths], by simp⟩,
      .channel ⟨0x90, [0x31, 0x00], by decide, by rfl, by simp⟩ false]
    ⟨trivial, trivial, trivial, trivial⟩
    (.keep (0x90, none) (.keep (0x30, none) (.keep (0x40, some (0x90, [0x30, 0x40]))
      (.keep (0xf6, some (0xf6, [])) (.keep (0x90, none)
        (.insert (by decide : (0xf8 : UInt8) ≤ 0xf8) (.keep (0x31, none)
          (.keep (0x00, some (0x90, [0x31, 0x00])) .nil))))))))
    [[0x90, 0x30, 0x40, 0xf6, 0x90], [0xf8, 0x31, 0x00]] rfl (by decide)
  obtain ⟨t, out, hrun, hout⟩ := hiff.mpr (by simp [StreamMessage.TakesData])
  exact ⟨s, t, out, hs, hrun, hout⟩

end MidiState
end RaveloxMidi
