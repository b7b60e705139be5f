import RaveloxMidi.MidiList

/-!
# The parser on a plain octet stream

A local socket or an ALSA device delivers MIDI octets without delta times, cut at
arbitrary places. In simple mode the parser keeps everything it knows between two
calls, so the cuts do not matter, and on a stream of the MIDI grammar it emits
each command at the octet that completes it.
-/
namespace RaveloxMidi
open ByteMemory Transducer

/-- The states a parser can come into by calls of its interface. -/
inductive MidiState.Reachable : MidiState → Prop
  | create {size : ℕ} {s : MidiState} (h : midiStateCreate size = some s) : Reachable s
  | call {s t : MidiState} {call : MidiStateCall} {out : List MidiCommand} (hs : Reachable s)
      (h : midiStateCall s call = .ok (t, out)) : Reachable t
  | drain {s t : MidiState} {data : Option (List UInt8)} (hs : Reachable s)
      (h : midiStateDrain s = .ok (t, data)) : Reachable t
  | readByte {s t : MidiState} {byte : Option UInt8} (hs : Reachable s)
      (h : midiStateReadByte s = .ok (t, byte)) : Reachable t
  | advance {s : MidiState} (hs : Reachable s) (steps : ℕ) : Reachable (midiStateAdvance s steps)
  | reset {s : MidiState} (hs : Reachable s) : Reachable (midiStateReset s)

/-- One chunk after the other is queued and parsed. -/
def feedChunks (zFlag : Bool) (chunks : List (List UInt8)) : List MidiStateCall :=
  chunks.flatMap fun chunk => [.write chunk, .send .simple zFlag]

namespace Parser

/-- Without a list of delta times, the flag never changes. -/
theorem step_simple_flag (s : Parser × Bool) (byte : UInt8) :
    (step .simple s byte).1.2 = s.2 := by
  unfold step awakeStep
  split_ifs <;> rfl

theorem feed_simple_flag (s : Parser × Bool) (bytes : List UInt8) :
    (feed (step .simple) s bytes).1.2 = s.2 := by
  induction bytes generalizing s with
  | nil => rfl
  | cons byte bytes ih => rw [feed_cons, ih, step_simple_flag]

end Parser

namespace MidiState

theorem Represents.ring_step {s : MidiState} {p : Parser} {queue : List UInt8} {size : ℕ}
    (h : s.Represents p queue size) {ring : RingBuffer} (hvalid : ring.Valid)
    (hsize : ring.size = s.ring.size) :
    ({ s with ring := ring } : MidiState).Represents p ring.queue size :=
  ⟨⟨h.follows.1, h.follows.2, h.follows.3, h.follows.4, h.follows.5, h.follows.6⟩, h.awaiting,
    hvalid, rfl, hsize.trans h.size_eq⟩

/-- Every reachable parser is some machine state with some octets queued. -/
theorem Reachable.represents {s : MidiState} (hs : s.Reachable) :
    ∃ p queue, s.Represents p queue s.ring.size := by
  induction hs with
  | create h =>
    obtain ⟨hrep, -⟩ := create_represents h
    exact ⟨_, _, hrep.size_eq ▸ hrep⟩
  | @call s t call out hs h ih =>
    obtain ⟨p, queue, hrep⟩ := ih
    obtain ⟨u, hcall, hu⟩ := call_represents (p := (p, queue)) hrep call
    rw [hcall, Except.ok.injEq, Prod.mk.injEq] at h
    obtain ⟨rfl, -⟩ := h
    exact ⟨_, _, hu.size_eq ▸ hu⟩
  | @drain s t data hs h ih =>
    obtain ⟨p, queue, hrep⟩ := ih
    by_cases hempty : s.ring.queue = []
    · simp only [midiStateDrain, RingBuffer.drain_nil hempty, bind, Except.bind, pure, Except.pure,
        Except.ok.injEq, Prod.mk.injEq] at h
      obtain ⟨rfl, -⟩ := h
      exact ⟨p, queue, hrep⟩
    · obtain ⟨ring, hdrain, hvalid, hsize, -⟩ := RingBuffer.drain_spec hrep.ring_valid hempty
      simp only [midiStateDrain, hdrain, bind, Except.bind, pure, Except.pure, Except.ok.injEq,
        Prod.mk.injEq] at h
      obtain ⟨rfl, -⟩ := h
      exact ⟨p, _, hsize ▸ hrep.ring_step hvalid hsize⟩
  | @readByte s t byte hs h ih =>
    obtain ⟨p, queue, hrep⟩ := ih
    cases hqueue : s.ring.queue with
    | nil =>
      simp only [midiStateReadByte, RingBuffer.readByte_nil hqueue, bind, Except.bind, pure,
        Except.pure, Except.ok.injEq, Prod.mk.injEq] at h
      obtain ⟨rfl, -⟩ := h
      exact ⟨p, queue, hrep⟩
    | cons first rest =>
      obtain ⟨ring, hread, hvalid, hsize, -⟩ := RingBuffer.readByte_cons hrep.ring_valid hqueue
      simp only [midiStateReadByte, hread, bind, Except.bind, pure, Except.pure, Except.ok.injEq,
        Prod.mk.injEq] at h
      obtain ⟨rfl, -⟩ := h
      exact ⟨p, _, hsize ▸ hrep.ring_step hvalid hsize⟩
  | @advance s hs steps ih =>
    obtain ⟨p, queue, hrep⟩ := ih
    obtain ⟨hvalid, hsize, -⟩ := RingBuffer.advance_spec hrep.ring_valid steps
    exact ⟨p, _, hsize ▸ hrep.ring_step hvalid hsize⟩
  | @reset s hs ih =>
    obtain ⟨p, queue, hrep⟩ := ih
    exact ⟨_, [], hrep.reset⟩

/-- Chunks that fit into the empty ring are parsed as the octets they make up. -/
theorem chunks_represent (zFlag : Bool) (chunks : List (List UInt8)) {s : MidiState} {p : Parser}
    {size : ℕ} (h : s.Represents p [] size) (hfit : ∀ chunk ∈ chunks, chunk.length ≤ size) :
    ∃ t, run midiStateCall s (feedChunks zFlag chunks) =
        .ok (t, (feed (Parser.step .simple) (p, zFlag) chunks.flatten).2) ∧
      t.Represents (feed (Parser.step .simple) (p, zFlag) chunks.flatten).1.1 [] size := by
  induction chunks generalizing s p with
  | nil => exact ⟨s, rfl, h⟩
  | cons chunk chunks ih =>
    obtain ⟨w, ret, hwrite, hw⟩ := write_represents h chunk (by simpa using hfit chunk (by simp))
    obtain ⟨u, hsend, hu⟩ := send_represents hw .simple zFlag
    obtain ⟨t, hrest, ht⟩ := ih hu (fun c hc => hfit c (by simp [hc]))
    have hflag : (feed (Parser.step .simple) (p, zFlag) chunk).1 =
        ((feed (Parser.step .simple) (p, zFlag) chunk).1.1, zFlag) :=
      Prod.ext rfl (Parser.feed_simple_flag (p, zFlag) chunk)
    have hcall : midiStateCall s (.write chunk) = .ok (w, []) := by
      simp [midiStateCall, hwrite, bind, Except.bind, pure, Except.pure]
    have hparse : midiStateCall w (.send .simple zFlag) = .ok (u, _) := hsend
    have hall := run_cons_ok hcall (run_cons_ok hparse hrest)
    refine ⟨t, ?_, ?_⟩
    · rw [List.flatten_cons, feed_append, hflag]
      exact hall
    · rw [List.flatten_cons, feed_append, hflag]
      exact ht

/-- From an empty ring, wherever its ends lie, only the octets count and not how they
were cut into chunks. -/
theorem chunks_irrelevant {s : MidiState} (hs : s.Reachable) (hempty : s.ring.used = 0)
    (zFlag : Bool) (chunks chunks' : List (List UInt8))
    (hfit : ∀ chunk ∈ chunks ++ chunks', chunk.length ≤ s.ring.size)
    (hsame : chunks.flatten = chunks'.flatten) :
    ∃ t t' out, run midiStateCall s (feedChunks zFlag chunks) = .ok (t, out) ∧
      run midiStateCall s (feedChunks zFlag chunks') = .ok (t', out) ∧
      t.status = t'.status ∧ t.runningStatus = t'.runningStatus ∧
      t.hold.contents = t'.hold.contents ∧ t.partialSysex = t'.partialSysex ∧
      t.ring.used = 0 ∧ t'.ring.used = 0 := by
  obtain ⟨p, queue, hrep⟩ := hs.represents
  obtain rfl : queue = [] := hrep.queue_eq.symm.trans ((RingBuffer.used_eq_zero_iff _).mp hempty)
  obtain ⟨t, hrun, ht⟩ := chunks_represent zFlag chunks hrep
    (fun chunk hc => hfit chunk (by simp [hc]))
  obtain ⟨t', hrun', ht'⟩ := chunks_represent zFlag chunks' hrep
    (fun chunk hc => hfit chunk (by simp [hc]))
  rw [← hsame] at hrun' ht'
  refine ⟨t, t', _, hrun, hrun', ht.follows.status.trans ht'.follows.status.symm,
    ht.follows.runningStatus.trans ht'.follows.runningStatus.symm,
    ht.follows.hold.trans ht'.follows.hold.symm,
    ht.follows.partialSysex.trans ht'.follows.partialSysex.symm, ?_, ?_⟩
  · exact (RingBuffer.used_eq_zero_iff _).mpr ht.queue_eq
  · exact (RingBuffer.used_eq_zero_iff _).mpr ht'.queue_eq

/-- A note, cut after its status or after its first data byte. -/
theorem chunks_irrelevant_note :
    ∃ s t t' out, midiStateCreate 3 = some s ∧
      run midiStateCall s (feedChunks false [[0x90], [0x30, 0x40]]) = .ok (t, out) ∧
      run midiStateCall s (feedChunks false [[0x90, 0x30], [0x40]]) = .ok (t', out) ∧
      t.status = t'.status ∧ t.runningStatus = t'.runningStatus ∧
      t.hold.contents = t'.hold.contents ∧ t.partialSysex = t'.partialSysex ∧
      t.ring.used = 0 ∧ t'.ring.used = 0 := by
  obtain ⟨s, hs, hboundary, hsize⟩ := create_atBoundary (by decide : 0 < 3)
  obtain ⟨t, t', out, h⟩ := chunks_irrelevant (.create hs)
    ((RingBuffer.used_eq_zero_iff _).mpr hboundary.ring_empty) false [[0x90], [0x30, 0x40]]
    [[0x90, 0x30], [0x40]] (by rw [hsize]; decide) rfl
  exact ⟨s, t, t', out, hs, h⟩

end MidiState

/-- An octet of a stream together with the command it completes, if any. -/
abbrev MarkedOctet := UInt8 × Option (UInt8 × List UInt8)

/-- Octets of which the last completes a command. -/
def markedAs (octets : List UInt8) (content : UInt8 × List UInt8) : List MarkedOctet :=
  octets.dropLast.map (·, none) ++ octets.getLast?.toList.map (·, some content)

theorem markedAs_octets (octets : List UInt8) (content : UInt8 × List UInt8) :
    (markedAs octets content).map Prod.fst = octets := by
  rcases List.eq_nil_or_concat octets with rfl | ⟨lead, last, rfl⟩
  · rfl
  · simp [markedAs, Function.comp_def]

theorem markedAs_completes {octets : List UInt8} (hne : octets ≠ [])
    (content : UInt8 × List UInt8) : (markedAs octets content).filterMap Prod.snd = [content] := by
  have hlead : (octets.dropLast.map (·, (none : Option (UInt8 × List UInt8)))).filterMap
      Prod.snd = [] := by
    rw [List.filterMap_map, List.filterMap_eq_nil_iff]
    exact fun byte _ => rfl
  rw [markedAs, List.filterMap_append, hlead, List.getLast?_eq_getLast_of_ne_nil hne]
  rfl

theorem flatMap_markedAs_octets {ι : Type*} (octets : ι → List UInt8)
    (content : ι → UInt8 × List UInt8) (messages : List ι) :
    (messages.flatMap fun message => markedAs (octets message) (content message)).map Prod.fst =
      messages.flatMap octets := by
  simp only [List.map_flatMap, markedAs_octets]

/-- Only the last octet of a command completes it. -/
def ListCommand.marked (command : ListCommand) : List MarkedOctet :=
  command.octets.dropLast.map (·, none) ++
    command.octets.getLast?.toList.map (·, some command.content)

/-- A stream with real-time octets put in anywhere, each of them a command of its own. -/
inductive WithRealTime : List MarkedOctet → List MarkedOctet → Prop
  | nil : WithRealTime [] []
  | keep (octet : MarkedOctet) {octets stream : List MarkedOctet} (h : WithRealTime octets stream) :
    WithRealTime (octet :: octets) (octet :: stream)
  | insert {status : UInt8} (hstatus : 0xf8 ≤ status) {octets stream : List MarkedOctet}
    (h : WithRealTime octets stream) :
    WithRealTime octets ((status, some (status, [])) :: stream)

namespace WithRealTime

/-- What a stream is made of can be cut anywhere, and the stream with it. -/
theorem append_inv {octets later stream : List MarkedOctet}
    (h : WithRealTime (octets ++ later) stream) :
    ∃ first second, stream = first ++ second ∧ WithRealTime octets first ∧
      WithRealTime later second := by
  obtain ⟨whole, hwhole⟩ : ∃ whole, whole = octets ++ later := ⟨_, rfl⟩
  rw [← hwhole] at h
  induction h generalizing octets with
  | nil =>
    obtain ⟨rfl, rfl⟩ := List.append_eq_nil_iff.mp hwhole.symm
    exact ⟨[], [], rfl, .nil, .nil⟩
  | @keep octet rest stream hrest ih =>
    cases octets with
    | nil =>
      rw [List.nil_append] at hwhole
      exact ⟨[], octet :: stream, rfl, .nil, hwhole ▸ .keep octet hrest⟩
    | cons first octets =>
      obtain ⟨rfl, htail⟩ := List.cons.inj hwhole
      obtain ⟨before, after, rfl, hbefore, hafter⟩ := ih htail
      exact ⟨octet :: before, after, rfl, .keep octet hbefore, hafter⟩
  | insert hstatus hrest ih =>
    obtain ⟨before, after, rfl, hbefore, hafter⟩ := ih hwhole
    exact ⟨_ :: before, after, rfl, .insert hstatus hbefore, hafter⟩

end WithRealTime

namespace Parser

/-- The state after octets in simple mode. -/
def after (p : Parser) (bytes : List UInt8) : Parser := (feed (step .simple) (p, false) bytes).1.1

/-- Each octet of the stream emits the command it is marked with. -/
def EmitsMarked : Parser → List MarkedOctet → Prop
  | _, [] => True
  | p, octet :: octets =>
    (step .simple (p, false) octet.1).2.map MidiCommand.content = octet.2.toList ∧
      EmitsMarked (p.after [octet.1]) octets

theorem step_after (p : Parser) (byte : UInt8) :
    (step .simple (p, false) byte).1 = (p.after [byte], false) := by
  ext
  · rw [after, feed_singleton]
  · rw [step_simple_flag]

theorem feed_simple_cons (p : Parser) (byte : UInt8) (bytes : List UInt8) :
    feed (step .simple) (p, false) (byte :: bytes) =
      ((feed (step .simple) (p.after [byte], false) bytes).1,
        (step .simple (p, false) byte).2 ++
          (feed (step .simple) (p.after [byte], false) bytes).2) := by
  rw [feed_cons, step_after]

theorem after_cons (p : Parser) (byte : UInt8) (bytes : List UInt8) :
    p.after (byte :: bytes) = (p.after [byte]).after bytes := by
  show (feed (step .simple) (p, false) (byte :: bytes)).1.1 = _
  rw [feed_simple_cons]
  rfl

theorem after_append (p : Parser) (bytes later : List UInt8) :
    p.after (bytes ++ later) = (p.after bytes).after later := by
  induction bytes generalizing p with
  | nil => rfl
  | cons byte bytes ih => rw [List.cons_append, after_cons, ih, ← after_cons]

theorem feed_simple_append (p : Parser) (bytes later : List UInt8) :
    (feed (step .simple) (p, false) (bytes ++ later)).2 =
      (feed (step .simple) (p, false) bytes).2 ++
        (feed (step .simple) (p.after bytes, false) later).2 := by
  have hflag : (feed (step .simple) (p, false) bytes).1 = (p.after bytes, false) :=
    Prod.ext rfl (feed_simple_flag (p, false) bytes)
  rw [feed_append, hflag]

/-- Octets marked with what they emit one by one are marked with what they emit together. -/
theorem EmitsMarked.feed_eq {p : Parser} {stream : List MarkedOctet} (h : p.EmitsMarked stream) :
    (feed (step .simple) (p, false) (stream.map Prod.fst)).2.map MidiCommand.content =
      stream.filterMap Prod.snd := by
  induction stream generalizing p with
  | nil => rfl
  | cons octet stream ih =>
    obtain ⟨hnow, hlater⟩ := h
    rw [List.map_cons, feed_simple_cons, List.map_append, hnow, ih hlater]
    cases hmark : octet.2 <;> simp [hmark]

theorem emitsMarked_append (p : Parser) (octets stream : List MarkedOctet) :
    p.EmitsMarked (octets ++ stream) ↔
      p.EmitsMarked octets ∧ (p.after (octets.map Prod.fst)).EmitsMarked stream := by
  induction octets generalizing p with
  | nil => simp [EmitsMarked, after]
  | cons octet octets ih =>
    rw [List.cons_append, EmitsMarked, EmitsMarked, ih, List.map_cons,
      after_cons p octet.1 (octets.map Prod.fst), and_assoc]

/-- Octets that together emit nothing emit nothing one by one. -/
theorem emitsMarked_none {p : Parser} {bytes : List UInt8}
    (h : (feed (step .simple) (p, false) bytes).2 = []) :
    p.EmitsMarked (bytes.map (·, none)) := by
  induction bytes generalizing p with
  | nil => trivial
  | cons byte bytes ih =>
    rw [feed_simple_cons, List.append_eq_nil_iff] at h
    exact ⟨by simp [h.1], ih h.2⟩

/-- Between two octets in simple mode: never in a delta time, never with a command complete. -/
structure Between (p : Parser) : Prop where
  no_delta : p.status ≠ .waitDelta
  awaiting : p.status ≠ .commandReceived

theorem wake_between {p : Parser} (h : p.Between) :
    (p.wake false).Between ∧ (p.wake false).status ≠ .init := by
  by_cases hinit : p.status = .init
  · rw [wake, if_pos hinit]
    exact ⟨⟨by simp, by simp⟩, by simp⟩
  · rw [wake, if_neg hinit]
    exact ⟨h, hinit⟩

/-- Taking in an octet never starts a command over, nor a delta time. -/
theorem absorb_status {p : Parser} (h : p.Between) (hinit : p.status ≠ .init) (byte : UInt8) :
    (p.absorb byte).status ≠ .init ∧ (p.absorb byte).status ≠ .waitDelta := by
  obtain ⟨hdelta, hawaiting⟩ := h
  cases hs : p.status <;> simp only [absorb, hs]
  case waitCommand =>
    unfold commandByte
    split_ifs
    · simp [hs]
    · unfold runningByte
      simp only [hs]
      split_ifs <;> simp
    · unfold statusByte
      split_ifs
      · simp
      · simp only
        split_ifs <;> simp
  case waitEndSysex =>
    simp only [sysexByte, hs]
    split_ifs <;> simp
  case waitByte1 | waitByte2 => simp [dataByte]
  all_goals simp_all

/-- A step on an octet that is not real-time. -/
theorem step_wake {p : Parser} (h : p.Between) {byte : UInt8} (hbyte : byte < 0xf8) :
    step .simple (p, false) byte =
      if ((p.wake false).absorb byte).status = .commandReceived then
        deliver .simple ((p.wake false).absorb byte) false
      else (((p.wake false).absorb byte, false), []) := by
  obtain ⟨hbetween, -⟩ := wake_between h
  have hrealtime : ¬ byte ≥ midiTimingClock := UInt8.not_le.mpr hbyte
  simp only [step, awakeStep, if_neg hbetween.no_delta, if_neg hrealtime]

/-- The parser is back in its initial status exactly when it has emitted a command it held. -/
theorem after_init_iff {p : Parser} (h : p.Between) {byte : UInt8} (hbyte : byte < 0xf8) :
    (p.after [byte]).status = .init ↔ (step .simple (p, false) byte).2 ≠ [] := by
  obtain ⟨hbetween, hinit⟩ := wake_between h
  rw [after, feed_singleton, step_wake h hbyte]
  by_cases hdone : ((p.wake false).absorb byte).status = .commandReceived
  · have hne := absorb_hold_ne_nil byte hbetween.awaiting hdone
    rw [if_pos hdone]
    cases hhold : ((p.wake false).absorb byte).hold with
    | nil => exact absurd hhold hne
    | cons status data => simp [deliver, hhold]
  · rw [if_neg hdone]
    simpa using (absorb_status hbetween hinit byte).1

/-- A real-time octet is emitted at once; the parser only wakes up. -/
theorem step_realTime_wake {p : Parser} (h : p.Between) {status : UInt8} (hstatus : 0xf8 ≤ status) :
    step .simple (p, false) status =
      ((p.wake false, false), [midiCommandSet (p.wake false).currentDelta status []]) := by
  obtain ⟨hbetween, -⟩ := wake_between h
  have hrealtime : status ≥ midiTimingClock := hstatus
  simp only [step, awakeStep, if_neg hbetween.no_delta, if_pos hrealtime]

theorem step_between {p : Parser} (h : p.Between) (byte : UInt8) : (p.after [byte]).Between := by
  obtain ⟨hbetween, hinit⟩ := wake_between h
  have hawaiting : (p.after [byte]).status ≠ .commandReceived := by
    rw [after, feed_singleton]
    exact step_awaiting (s := (p, false)) byte h.awaiting
  refine ⟨?_, hawaiting⟩
  rw [after, feed_singleton]
  by_cases hbyte : byte < 0xf8
  · rw [step_wake h hbyte]
    split_ifs
    · simp [deliver]
    · exact (absorb_status hbetween hinit byte).2
  · rw [step_realTime_wake h (UInt8.not_lt.mp hbyte)]
    exact hbetween.no_delta

theorem after_between {p : Parser} (h : p.Between) (bytes : List UInt8) :
    (p.after bytes).Between := by
  induction bytes generalizing p with
  | nil => exact h
  | cons byte bytes ih =>
    rw [after_cons]
    exact ih (step_between h byte)

/-- Waking up only touches the status and the delta time. -/
theorem wake_kept (p : Parser) (getDelta : Bool) :
    (p.wake getDelta).hold = p.hold ∧ (p.wake getDelta).runningStatus = p.runningStatus ∧
      (p.wake getDelta).partialSysex = p.partialSysex := by
  unfold wake
  split_ifs <;> exact ⟨rfl, rfl, rfl⟩

theorem wake_idem {p : Parser} (h : p.Between) : (p.wake false).wake false = p.wake false := by
  rw [wake, if_neg (wake_between h).2]

/-- Waking up early changes nothing for the next octet. -/
theorem step_of_wake {p : Parser} (h : p.Between) (byte : UInt8) :
    step .simple (p.wake false, false) byte = step .simple (p, false) byte := by
  rw [step, step, wake_idem h]

theorem after_of_wake {p : Parser} (h : p.Between) (byte : UInt8) :
    (p.wake false).after [byte] = p.after [byte] := by
  rw [after, after, feed_singleton, feed_singleton, step_of_wake h]

theorem emitsMarked_wake {p : Parser} (h : p.Between) (stream : List MarkedOctet) :
    (p.wake false).EmitsMarked stream ↔ p.EmitsMarked stream := by
  cases stream with
  | nil => rfl
  | cons octet stream => rw [EmitsMarked, EmitsMarked, step_of_wake h, after_of_wake h]

/-- Real-time octets put in anywhere disturb nothing. -/
theorem EmitsMarked.withRealTime {octets stream : List MarkedOctet}
    (hstream : WithRealTime octets stream) {p : Parser} (h : p.Between)
    (hp : p.EmitsMarked octets) : p.EmitsMarked stream := by
  induction hstream generalizing p with
  | nil => trivial
  | keep octet hrest ih => exact ⟨hp.1, ih (after_between h _) hp.2⟩
  | @insert status hstatus octets stream hrest ih =>
    have hstep := step_realTime_wake h hstatus
    have hafter : p.after [status] = p.wake false := by rw [after, feed_singleton, hstep]
    refine ⟨by rw [hstep]; rfl, ?_⟩
    rw [hafter]
    exact ih (wake_between h).1 ((emitsMarked_wake h octets).mpr hp)

/-- Nor do they leave anything behind, but that the parser may be awake. -/
theorem wake_after_withRealTime {octets stream : List MarkedOctet}
    (hstream : WithRealTime octets stream) {p : Parser} (h : p.Between) :
    (p.after (stream.map Prod.fst)).wake false = (p.after (octets.map Prod.fst)).wake false := by
  induction hstream generalizing p with
  | nil => rfl
  | keep octet hrest ih =>
    rw [List.map_cons, List.map_cons, after_cons, after_cons p octet.1 (List.map _ _)]
    exact ih (after_between h _)
  | @insert status hstatus octets stream hrest ih =>
    have hafter : p.after [status] = p.wake false := by
      rw [after, feed_singleton, step_realTime_wake h hstatus]
    rw [List.map_cons, after_cons, hafter, ih (wake_between h).1]
    cases octets with
    | nil => exact wake_idem h
    | cons octet octets => rw [List.map_cons, after_cons, after_of_wake h, ← after_cons]

theorem after_withRealTime {octets stream : List MarkedOctet}
    (hstream : WithRealTime octets stream) {p : Parser} (h : p.Between) :
    (p.after (stream.map Prod.fst)).hold = (p.after (octets.map Prod.fst)).hold ∧
      (p.after (stream.map Prod.fst)).runningStatus =
        (p.after (octets.map Prod.fst)).runningStatus ∧
      (p.after (stream.map Prod.fst)).partialSysex =
        (p.after (octets.map Prod.fst)).partialSysex := by
  obtain ⟨hhold, hrunning, hpartial⟩ := wake_kept (p.after (stream.map Prod.fst)) false
  obtain ⟨hhold', hrunning', hpartial'⟩ := wake_kept (p.after (octets.map Prod.fst)) false
  rw [wake_after_withRealTime hstream h] at hhold hrunning hpartial
  exact ⟨hhold.symm.trans hhold', hrunning.symm.trans hrunning', hpartial.symm.trans hpartial'⟩

theorem octets_lt {command : ListCommand} (hplain : ¬ command.IsRealTime) :
    ∀ byte ∈ command.octets, byte < 0xf8 := by
  intro byte hbyte
  cases command with
  | channel command running =>
    have hstatus : command.status < 0xf8 := UInt8.lt_trans command.channel.2 (by decide)
    have hdata : byte ∈ command.data → byte < 0xf8 :=
      fun hmem => sevenBit_lt (command.seven_bit byte hmem)
    cases running with
    | false =>
      rcases List.mem_cons.mp hbyte with rfl | hmem
      · exact hstatus
      · exact hdata hmem
    | true => exact hdata hbyte
  | sysex body hbody =>
    simp only [ListCommand.octets, List.cons_append, List.mem_cons, List.mem_append,
      List.not_mem_nil, or_false] at hbyte
    rcases hbyte with rfl | hmem | rfl
    · decide
    · exact sevenBit_lt (hbody byte hmem)
    · decide
  | realTime status hstatus => exact absurd trivial hplain

/-- From the start of a message: octets that come out as one command. -/
structure Parses (p : Parser) (octets : List UInt8) (content : UInt8 × List UInt8) (q : Parser) :
    Prop where
  ne_nil : octets ≠ []
  plain : ∀ byte ∈ octets, byte < 0xf8
  feed_eq : ∃ emitted, feed (step .simple) (p.wake false, false) octets = ((q, false), [emitted]) ∧
    emitted.content = content
  init : q.status = .init

theorem feed_of_wake {p : Parser} (h : p.Between) {octets : List UInt8} (hne : octets ≠ []) :
    feed (step .simple) (p.wake false, false) octets = feed (step .simple) (p, false) octets := by
  obtain ⟨byte, rest, rfl⟩ := List.exists_cons_of_ne_nil hne
  rw [feed_cons, feed_cons, step_of_wake h]

/-- A whole message emits only at its last octet. -/
theorem Parses.emitsMarked {p q : Parser} {octets : List UInt8} {content : UInt8 × List UInt8}
    (h : p.Parses octets content q) (hbetween : p.Between) :
    p.EmitsMarked (markedAs octets content) ∧ p.after octets = q := by
  obtain ⟨hne, hlt, ⟨emitted, hfeed, hcontent⟩, hq⟩ := h
  rw [feed_of_wake hbetween hne] at hfeed
  have hafter : p.after octets = q := by rw [after, hfeed]
  refine ⟨?_, hafter⟩
  obtain ⟨lead, last, rfl⟩ : ∃ lead last, octets = lead ++ [last] :=
    ⟨octets.dropLast, octets.getLast hne, (List.dropLast_append_getLast hne).symm⟩
  have hinit : ((p.after lead).after [last]).status = .init := by
    rw [← after_append, hafter, hq]
  have hlast := (after_init_iff (after_between hbetween lead) (hlt last (by simp))).mp hinit
  have hout : (feed (step .simple) (p, false) lead).2 ++
      (step .simple (p.after lead, false) last).2 = [emitted] := by
    rw [← feed_singleton (step .simple), ← feed_simple_append, hfeed]
  obtain ⟨hnothing, hone⟩ : (feed (step .simple) (p, false) lead).2 = [] ∧
      (step .simple (p.after lead, false) last).2 = [emitted] := by
    rcases List.append_eq_singleton_iff.mp hout with hsplit | hsplit
    · exact hsplit
    · exact absurd hsplit.2 hlast
  have hmarked : markedAs (lead ++ [last]) content =
      lead.map (·, none) ++ [(last, some content)] := by
    simp [markedAs]
  rw [hmarked, emitsMarked_append]
  refine ⟨emitsMarked_none hnothing, ?_, trivial⟩
  simpa [Function.comp_def, hone] using hcontent

/-- Messages of any kind, each parsed from where the one before it has left the parser: by
induction on the messages still to come. -/
theorem emitsMarked_flatMap {ι : Type*} {octets : ι → List UInt8} {content : ι → UInt8 × List UInt8}
    {Good : Parser → List ι → Prop}
    (hgood : ∀ p message messages, Good p (message :: messages) →
      p.status = .init ∧ ∃ q, p.Parses (octets message) (content message) q ∧ Good q messages)
    {p : Parser} {messages : List ι} (h : Good p messages) :
    p.EmitsMarked (messages.flatMap fun message => markedAs (octets message) (content message)) ∧
      Good (p.after (messages.flatMap octets)) [] := by
  induction messages generalizing p with
  | nil => exact ⟨trivial, h⟩
  | cons message messages ih =>
    obtain ⟨hp, q, hparses, hq⟩ := hgood p message messages h
    obtain ⟨hemits, hafter⟩ := hparses.emitsMarked ⟨by simp [hp], by simp [hp]⟩
    obtain ⟨hrest, hlast⟩ := ih hq
    rw [List.flatMap_cons, List.flatMap_cons, emitsMarked_append, markedAs_octets, after_append,
      hafter]
    exact ⟨⟨hemits, hrest⟩, hlast⟩

theorem wake_of_init {p : Parser} (hp : p.status = .init) :
    p.wake false = { p with status := .waitCommand, currentDelta := 0 } := by
  rw [wake, if_pos hp]
  rfl

/-- A command other than a real-time one is parsed whole, under the running status. -/
theorem parses_command {running : Option UInt8} {p : Parser} (hp : p.status = .init)
    (h : p.Ready running) (command : ListCommand) (hallowed : command.Allowed running)
    (hplain : ¬ command.IsRealTime) :
    ∃ q, p.Parses command.octets command.content q ∧ q.Ready (command.runningAfter running) := by
  obtain ⟨q, emitted, hfeed, hcontent, hq, hready⟩ := feed_command .simple (p := p.wake false)
    (by rw [wake_of_init hp]) (by rw [wake_of_init hp]; exact ⟨h.hold, h.no_partial, h.running⟩)
    command hallowed hplain false
  obtain ⟨byte, rest, hcons⟩ := octets_ne_nil command
  exact ⟨q, ⟨by simp [hcons], octets_lt hplain, ⟨emitted, hfeed, hcontent⟩, hq⟩, hready⟩

/-- A parser between two messages, with the messages to come. -/
def ReadyFor (p : Parser) (messages : List ListCommand) : Prop :=
  p.status = .init ∧ ∃ running, p.Ready running ∧ ListCommand.AllAllowed running messages ∧
    ∀ message ∈ messages, ¬ message.IsRealTime

/-- Running status carries over from each message to the next. -/
theorem emitsMarked_messages (messages : List ListCommand) {running : Option UInt8} {p : Parser}
    (hp : p.status = .init) (h : p.Ready running)
    (hallowed : ListCommand.AllAllowed running messages)
    (hplain : ∀ message ∈ messages, ¬ message.IsRealTime) :
    p.EmitsMarked (messages.flatMap ListCommand.marked) := by
  have hready : p.ReadyFor messages := ⟨hp, running, h, hallowed, hplain⟩
  refine (emitsMarked_flatMap ?_ hready).1
  rintro p message messages ⟨hp, running, h, ⟨hfirst, hrest⟩, hplain⟩
  obtain ⟨hplainFirst, hplainRest⟩ := List.forall_mem_cons.mp hplain
  obtain ⟨q, hparses, hready⟩ := parses_command hp h message hfirst hplainFirst
  exact ⟨hp, q, hparses, hparses.init, _, hready, hrest, hplainRest⟩

end Parser

namespace MidiState

/-- A fresh parser emits the messages of a stream, and its real-time octets among them,
each at the octet that completes it. -/
theorem simple_emits_messages {size : ℕ} {s : MidiState} (hs : midiStateCreate size = some s)
    (messages : List ListCommand) (hallowed : ListCommand.AllAllowed none messages)
    (hplain : ∀ message ∈ messages, ¬ message.IsRealTime) {stream : List MarkedOctet}
    (hstream : WithRealTime (messages.flatMap ListCommand.marked) stream)
    (chunks : List (List UInt8)) (hcut : chunks.flatten = stream.map Prod.fst)
    (hfit : ∀ chunk ∈ chunks, chunk.length ≤ size) :
    ∃ t out, run midiStateCall s (feedChunks false chunks) = .ok (t, out) ∧
      out.map MidiCommand.content = stream.filterMap Prod.snd := by
  obtain ⟨hrep, -⟩ := create_represents hs
  obtain ⟨t, hrun, -⟩ := chunks_represent false chunks hrep hfit
  refine ⟨t, _, hrun, ?_⟩
  rw [hcut]
  have hmessages := Parser.emitsMarked_messages messages (p := ⟨.init, 0, [], 0, false⟩) rfl
    ⟨rfl, rfl, by simp⟩ hallowed hplain
  exact (hmessages.withRealTime hstream ⟨by simp, by simp⟩).feed_eq

/-- A note with a clock inside, then the same status left out. -/
theorem simple_emits_notes :
    ∃ s t out, midiStateCreate 8 = some s ∧
      run midiStateCall s (feedChunks false [[0x90, 0xf8, 0x30], [0x40, 0x31, 0x00]]) =
        .ok (t, out) ∧
      out.map MidiCommand.content = [(0xf8, []), (0x90, [0x30, 0x40]), (0x90, [0x31, 0x00])] := by
  obtain ⟨s, hs, -⟩ := create_atBoundary (by decide : 0 < 8)
  have hdata : ∀ byte ∈ [(0x31 : UInt8), 0x00], byte < 0x80 := by simp
  obtain ⟨t, out, hrun, hout⟩ := simple_emits_messages hs
    [noteOn 0x30 (by decide), .channel ⟨0x90, [0x31, 0x00], by decide, by rfl, hdata⟩ true]
    ⟨trivial, rfl, trivial⟩ (by simp [noteOn, ListCommand.IsRealTime])
    (.keep (0x90, none) (.insert (by decide : (0xf8 : UInt8) ≤ 0xf8) (.keep (0x30, none)
      (.keep (0x40, some (0x90, [0x30, 0x40])) (.keep (0x31, none)
        (.keep (0x00, some (0x90, [0x31, 0x00])) .nil))))))
    [[0x90, 0xf8, 0x30], [0x40, 0x31, 0x00]] rfl (by decide)
  exact ⟨s, t, out, hs, hrun, hout⟩

end MidiState
end RaveloxMidi
