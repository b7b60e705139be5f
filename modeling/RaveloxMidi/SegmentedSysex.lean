import RaveloxMidi.MidiSimple

/-!
# SysEx in segments

A sender may cut a SysEx into segments. The first is opened by 0xF0, the others by
0xF7; each but the last is closed by 0xF0, and the last by 0xF7, or by 0xF4 where
the sender gives the SysEx up. The parser emits every segment as a command of its
own and keeps in `partial_sysex` whether another one is to come.
-/
namespace RaveloxMidi
open ByteMemory Transducer

structure SysexSegment where
  opening : UInt8
  body : List UInt8
  closing : UInt8

namespace SysexSegment

def octets (segment : SysexSegment) : List UInt8 :=
  segment.opening :: segment.body ++ [segment.closing]

/-- The command that the parser is to emit. -/
def content (segment : SysexSegment) : UInt8 × List UInt8 :=
  (segment.opening, segment.body ++ [segment.closing])

def marked (segment : SysexSegment) : List MarkedOctet := markedAs segment.octets segment.content

end SysexSegment

/-- What follows the first segment of a SysEx: at least one more segment. -/
inductive SysexRest : List UInt8 → List SysexSegment → Prop
  | last (body : List UInt8) : SysexRest body [⟨0xf7, body, 0xf7⟩]
  | cancelled (body : List UInt8) : SysexRest body [⟨0xf7, body, 0xf4⟩]
  | middle (piece : List UInt8) {body : List UInt8} {segments : List SysexSegment}
    (h : SysexRest body segments) : SysexRest (piece ++ body) (⟨0xf7, piece, 0xf0⟩ :: segments)

/-- The ways to send a body: whole, or cut into any number of pieces. -/
inductive SysexSplit : List UInt8 → List SysexSegment → Prop
  | whole (body : List UInt8) : SysexSplit body [⟨0xf0, body, 0xf7⟩]
  | first (piece : List UInt8) {body : List UInt8} {segments : List SysexSegment}
    (h : SysexRest body segments) : SysexSplit (piece ++ body) (⟨0xf0, piece, 0xf0⟩ :: segments)

/-- The pieces make up the body. -/
theorem SysexRest.flatMap_body {body : List UInt8} {segments : List SysexSegment}
    (h : SysexRest body segments) : segments.flatMap SysexSegment.body = body := by
  induction h with
  | last body => simp
  | cancelled body => simp
  | middle piece h ih => rw [List.flatMap_cons, ih]

theorem SysexSplit.flatMap_body {body : List UInt8} {segments : List SysexSegment}
    (h : SysexSplit body segments) : segments.flatMap SysexSegment.body = body := by
  cases h with
  | whole body => simp
  | first piece h => rw [List.flatMap_cons, h.flatMap_body]

namespace Parser

/-- At the start of a segment that the parser can take, or behind the last one. -/
structure ReadsSegments (p : Parser) (segments : List SysexSegment) : Prop where
  init : p.status = .init
  hold : p.hold = []
  running : p.runningStatus = 0
  seven_bit : ∀ segment ∈ segments, ∀ byte ∈ segment.body, byte < 0x80
  expected : (p.partialSysex = false ∧ (segments = [] ∨ ∃ body, SysexSplit body segments)) ∨
    (p.partialSysex = true ∧ ∃ body, SysexRest body segments)

/-- A segment is emitted whole, and leaves the mark that its last octet asks for. -/
theorem parses_segment {p : Parser} (hp : p.status = .init) (hhold : p.hold = [])
    (segment : SysexSegment)
    (hopening : segment.opening = 0xf0 ∨ (p.partialSysex = true ∧ segment.opening = 0xf7))
    (hclosing : p.EndsSysex segment.closing) (hbody : ∀ byte ∈ segment.body, byte < 0x80) :
    p.Parses segment.octets segment.content
      ⟨.init, 0, [], 0, decide (segment.closing = 0xf0)⟩ := by
  have hfeed := feed_segment .simple (p := ⟨.waitCommand, p.runningStatus, p.hold, 0,
    p.partialSysex⟩) rfl hhold hopening hclosing segment.body hbody false
  refine ⟨by simp [SysexSegment.octets], fun byte hbyte => ?_,
    ⟨midiCommandSet 0 segment.opening (segment.body ++ [segment.closing]), ?_, rfl⟩, rfl⟩
  · rw [SysexSegment.octets, List.mem_append, List.mem_cons, List.mem_singleton] at hbyte
    rcases hbyte with (rfl | hmem) | rfl
    · rcases hopening with heq | ⟨-, heq⟩ <;> rw [heq] <;> decide
    · exact sevenBit_lt (hbody byte hmem)
    · rcases hclosing with heq | heq | ⟨-, heq⟩ <;> rw [heq] <;> decide
  · rw [wake_of_init hp]
    exact hfeed

/-- By cases on how the segment to be read was cut off. -/
theorem ReadsSegments.parses {p : Parser} {segment : SysexSegment} {segments : List SysexSegment}
    (h : p.ReadsSegments (segment :: segments)) :
    ∃ q, p.Parses segment.octets segment.content q ∧ q.ReadsSegments segments := by
  obtain ⟨hinit, hhold, -, hseven, hexpected⟩ := h
  obtain ⟨hbody, hbodies⟩ := List.forall_mem_cons.mp hseven
  have hparses : (segment.opening = 0xf0 ∨ (p.partialSysex = true ∧ segment.opening = 0xf7)) →
      p.EndsSysex segment.closing → p.Parses segment.octets segment.content
        ⟨.init, 0, [], 0, decide (segment.closing = 0xf0)⟩ := fun hopening hclosing =>
    parses_segment hinit hhold segment hopening hclosing hbody
  rcases hexpected with ⟨-, hnil | ⟨body, hsplit⟩⟩ | ⟨hunfinished, body, hrest⟩
  · cases hnil
  · cases hsplit with
    | whole body =>
      exact ⟨_, hparses (.inl rfl) (.inr (.inl rfl)), rfl, rfl, rfl, hbodies, .inl ⟨rfl, .inl rfl⟩⟩
    | first piece hrest =>
      exact ⟨_, hparses (.inl rfl) (.inl rfl), rfl, rfl, rfl, hbodies, .inr ⟨rfl, _, hrest⟩⟩
  · cases hrest with
    | last body =>
      exact ⟨_, hparses (.inr ⟨hunfinished, rfl⟩) (.inr (.inl rfl)), rfl, rfl, rfl, hbodies,
        .inl ⟨rfl, .inl rfl⟩⟩
    | cancelled body =>
      exact ⟨_, hparses (.inr ⟨hunfinished, rfl⟩) (.inr (.inr ⟨hunfinished, rfl⟩)), rfl, rfl, rfl,
        hbodies, .inl ⟨rfl, .inl rfl⟩⟩
    | middle piece hrest =>
      exact ⟨_, hparses (.inr ⟨hunfinished, rfl⟩) (.inl rfl), rfl, rfl, rfl, hbodies,
        .inr ⟨rfl, _, hrest⟩⟩

theorem ReadsSegments.emits {p : Parser} {segments : List SysexSegment}
    (h : p.ReadsSegments segments) :
    p.EmitsMarked (segments.flatMap SysexSegment.marked) ∧
      (p.after (segments.flatMap SysexSegment.octets)).ReadsSegments [] :=
  emitsMarked_flatMap (fun _ _ _ hreads => ⟨hreads.init, hreads.parses⟩) h

end Parser

theorem SysexSplit.opening_lt {body : List UInt8} {segments : List SysexSegment}
    (h : SysexSplit body segments) : ∀ segment ∈ segments, segment.opening < 0xf8 := by
  have hlater : ∀ {body segments}, SysexRest body segments →
      ∀ segment ∈ segments, segment.opening < 0xf8 := by
    intro body segments hrest
    induction hrest with
    | last body => simp
    | cancelled body => simp
    | middle piece h ih => exact List.forall_mem_cons.mpr ⟨by simp, ih⟩
  cases h with
  | whole body => simp
  | first piece h => exact List.forall_mem_cons.mpr ⟨by simp, hlater h⟩

/-- Without its real-time commands, a stream completes what it completed before they were
put in. -/
theorem WithRealTime.filter_eq {octets stream : List MarkedOctet} (h : WithRealTime octets stream)
    (hplain : ∀ content ∈ octets.filterMap Prod.snd, content.1 < 0xf8) :
    (stream.filterMap Prod.snd).filter (fun content => content.1 < 0xf8) =
      octets.filterMap Prod.snd := by
  induction h with
  | nil => rfl
  | keep octet hrest ih =>
    obtain ⟨byte, completes⟩ := octet
    cases completes with
    | none => exact ih hplain
    | some content =>
      obtain ⟨hfirst, hrest⟩ := List.forall_mem_cons.mp hplain
      simp [hfirst, ih hrest]
  | insert hstatus hrest ih =>
    have hlow := UInt8.not_lt.mpr hstatus
    simpa [hlow] using ih hplain

namespace MidiState

/-- However a SysEx is cut into segments, and wherever real-time octets are put in, a fresh
parser emits each segment as it is, and is done with the SysEx after the last. -/
theorem sysex_segments_emitted {size : ℕ} {s : MidiState} (hs : midiStateCreate size = some s)
    {body : List UInt8} (hbody : ∀ byte ∈ body, byte < 0x80) {segments : List SysexSegment}
    (hsplit : SysexSplit body segments) {stream : List MarkedOctet}
    (hstream : WithRealTime (segments.flatMap SysexSegment.marked) stream)
    (chunks : List (List UInt8)) (hcut : chunks.flatten = stream.map Prod.fst)
    (hfit : ∀ chunk ∈ chunks, chunk.length ≤ size) :
    ∃ t out, run midiStateCall s (feedChunks false chunks) = .ok (t, out) ∧
      out.map MidiCommand.content = stream.filterMap Prod.snd ∧
      (out.map MidiCommand.content).filter (fun content => content.1 < 0xf8) =
        segments.map SysexSegment.content ∧
      segments.flatMap SysexSegment.body = body ∧
      t.partialSysex = false ∧ t.runningStatus = 0 ∧ t.hold.contents = [] := by
  obtain ⟨hrep, -⟩ := create_represents hs
  obtain ⟨t, hrun, ht⟩ := chunks_represent false chunks hrep hfit
  rw [hcut] at hrun ht
  have hbetween : (⟨.init, 0, [], 0, false⟩ : Parser).Between := ⟨by simp, by simp⟩
  have hreads : Parser.ReadsSegments ⟨.init, 0, [], 0, false⟩ segments := by
    refine ⟨rfl, rfl, rfl, fun segment hmem byte hbyte => hbody byte ?_,
      .inl ⟨rfl, .inr ⟨body, hsplit⟩⟩⟩
    rw [← hsplit.flatMap_body]
    exact List.mem_flatMap.mpr ⟨segment, hmem, hbyte⟩
  obtain ⟨hemits, hlast⟩ := hreads.emits
  have hout := (hemits.withRealTime hstream hbetween).feed_eq
  have hcompletes : (segments.flatMap SysexSegment.marked).filterMap Prod.snd =
      segments.map SysexSegment.content := by
    have hone : ∀ segment : SysexSegment,
        segment.marked.filterMap Prod.snd = [segment.content] := fun segment =>
      markedAs_completes (by simp [SysexSegment.octets]) segment.content
    simp only [List.filterMap_flatMap, hone, List.map_eq_flatMap]
  refine ⟨t, _, hrun, hout, ?_, hsplit.flatMap_body, ?_⟩
  · rw [hout, ← hcompletes]
    apply hstream.filter_eq
    rw [hcompletes]
    intro content hmem
    obtain ⟨segment, hsegment, rfl⟩ := List.mem_map.mp hmem
    exact hsplit.opening_lt segment hsegment
  · obtain ⟨hhold, hrunning, hunfinished⟩ := Parser.after_withRealTime hstream hbetween
    have hoctets : (segments.flatMap SysexSegment.marked).map Prod.fst =
        segments.flatMap SysexSegment.octets := flatMap_markedAs_octets _ _ segments
    rw [hoctets] at hhold hrunning hunfinished
    refine ⟨ht.follows.partialSysex.trans (hunfinished.trans ?_),
      ht.follows.runningStatus.trans (hrunning.trans hlast.running),
      ht.follows.hold.trans (hhold.trans hlast.hold)⟩
    obtain ⟨hwhole, -⟩ | ⟨-, rest, hrest⟩ := hlast.expected
    · exact hwhole
    · cases hrest

/-- Three segments of a SysEx of four octets, a clock in the middle one, the last of them
cancelled. -/
theorem sysex_segments_three :
    ∃ s t out, midiStateCreate 16 = some s ∧
      run midiStateCall s (feedChunks false
        [[0xf0, 0x01, 0xf0, 0xf7, 0x02], [0xf8, 0x03, 0xf0, 0xf7, 0x04, 0xf4]]) = .ok (t, out) ∧
      out.map MidiCommand.content =
        [(0xf0, [0x01, 0xf0]), (0xf8, []), (0xf7, [0x02, 0x03, 0xf0]), (0xf7, [0x04, 0xf4])] ∧
      t.partialSysex = false ∧ t.runningStatus = 0 ∧ t.hold.contents = [] := by
  obtain ⟨s, hs, -⟩ := create_atBoundary (by decide : 0 < 16)
  have hbody : ∀ byte ∈ ([0x01, 0x02, 0x03, 0x04] : List UInt8), byte < 0x80 := by simp
  obtain ⟨t, out, hrun, hout, -, -, hdone⟩ := sysex_segments_emitted hs hbody
    (.first [0x01] (.middle [0x02, 0x03] (.cancelled [0x04])))
    (.keep (0xf0, none) (.keep (0x01, none) (.keep (0xf0, some (0xf0, [0x01, 0xf0]))
      (.keep (0xf7, none) (.keep (0x02, none) (.insert (by decide : (0xf8 : UInt8) ≤ 0xf8)
        (.keep (0x03, none) (.keep (0xf0, some (0xf7, [0x02, 0x03, 0xf0])) (.keep (0xf7, none)
          (.keep (0x04, none) (.keep (0xf4, some (0xf7, [0x04, 0xf4])) .nil)))))))))))
    [[0xf0, 0x01, 0xf0, 0xf7, 0x02], [0xf8, 0x03, 0xf0, 0xf7, 0x04, 0xf4]] rfl (by decide)
  exact ⟨s, t, out, hs, hrun, hout, hdone⟩

end MidiState
end RaveloxMidi
