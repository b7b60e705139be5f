import RaveloxMidi.JournalHistory

/-!
# The order of events on different channels

A journal keeps apart what is added on different channels: packs in between, the sequence
numbers and the order of events across channels leave no trace in what is packed, except
for the sequence number itself.
-/
namespace RaveloxMidi
open ByteMemory Transducer

def JournalCall.added? : JournalCall → Option JournalEvent
  | add _ event => some event
  | _ => none

/-- What the calls add to the journal, whether it is recorded or not. -/
def addedEvents (calls : List JournalCall) : List JournalEvent :=
  calls.filterMap JournalCall.added?

/-- Octets that agree outside the sequence number of the journal header. -/
def SameButSeq (xs ys : List UInt8) : Prop :=
  xs.length = ys.length ∧ ∀ i, i ≠ 1 → i ≠ 2 → xs[i]? = ys[i]?

/-- Without a reset, the history is what was added. -/
theorem history_added {calls : List JournalCall} (h : JournalCall.reset ∉ calls) :
    (historyOf calls).earlier = [] ∧
      (historyOf calls).recent = (addedEvents calls).filter JournalEvent.recorded := by
  induction calls using List.reverseRecOn with
  | nil => exact ⟨rfl, rfl⟩
  | append_singleton calls call ih =>
    obtain ⟨hearlier, hrecent⟩ := ih fun hmem => h (List.mem_append_left _ hmem)
    rw [historyOf_snoc, addedEvents, List.filterMap_append, List.filter_append]
    cases call with
    | add seq event =>
      by_cases hrecorded : event.recorded = true
      · refine ⟨by rw [JournalHistory.call, if_pos hrecorded, hearlier], ?_⟩
        rw [JournalHistory.call, if_pos hrecorded, hrecent]
        simp [JournalCall.added?, addedEvents, hrecorded]
      · refine ⟨by rw [JournalHistory.call, if_neg hrecorded, hearlier], ?_⟩
        rw [JournalHistory.call, if_neg hrecorded, hrecent]
        simp [JournalCall.added?, addedEvents, hrecorded]
    | pack =>
      refine ⟨hearlier, ?_⟩
      rw [JournalHistory.call, hrecent]
      simp [JournalCall.added?, addedEvents]
    | reset => exact absurd (List.mem_append_right _ (List.mem_singleton_self _)) h

theorem eventsOn_recorded (channel : Fin 16) (events : List JournalEvent) :
    eventsOn channel (events.filter JournalEvent.recorded) =
      (eventsOn channel events).filter JournalEvent.recorded := by
  rw [eventsOn, eventsOn, List.filter_filter, List.filter_filter]
  simp only [Bool.and_comm]

theorem eq_nil_iff_eventsOn (events : List JournalEvent) :
    events = [] ↔ ∀ channel, eventsOn channel events = [] := by
  simp only [eventsOn, List.filter_eq_nil_iff, decide_eq_true_eq]
  constructor
  · rintro rfl channel event hevent
    cases hevent
  · intro h
    exact List.eq_nil_iff_forall_not_mem.mpr fun event hevent => h event.channel event hevent rfl

/-- The journal is a function of what happened on each channel, and of the last sequence
number. -/
theorem JournalHistory.journal_congr {h k : JournalHistory}
    (hearlier : ∀ i, eventsOn i h.earlier = eventsOn i k.earlier)
    (hrecent : ∀ i, eventsOn i h.recent = eventsOn i k.recent) :
    h.journal = { k.journal with header.seq := h.seq } := by
  have hnone : h.recent = [] ↔ k.recent = [] := by
    rw [eq_nil_iff_eventsOn, eq_nil_iff_eventsOn k.recent]
    simp only [hrecent]
  simp only [JournalHistory.journal, JournalHistory.counted, hearlier, hrecent, hnone]

theorem Journal.octets_seq (j : Journal) (seq : UInt16) :
    SameButSeq { j with header.seq := seq }.octets j.octets := by
  have hsegments : { j with header.seq := seq }.segments = j.segments := rfl
  have hdata : journalHasData { j with header.seq := seq } = journalHasData j := rfl
  rw [octets, octets, hsegments, hdata]
  by_cases hj : journalHasData j = true
  · rw [if_pos hj, if_pos hj]
    refine ⟨?_, fun i hone htwo => ?_⟩
    · simp only [List.length_append, journalHeaderPack, List.length_cons,
        ByteMemory.octets_length]
    · rcases i with - | - | - | i
      · rfl
      · exact absurd rfl hone
      · exact absurd rfl htwo
      · rfl
  · rw [if_neg hj, if_neg hj]
    exact ⟨rfl, fun _ _ _ => rfl⟩

/-- Two sequences of additions to a new journal, with the same events on each channel, lead to
the same octets but for the sequence number. -/
theorem channels_independent (calls others : List JournalCall)
    (hcalls : JournalCall.reset ∉ calls) (hothers : JournalCall.reset ∉ others)
    (hsame : ∀ channel, eventsOn channel (addedEvents calls) =
      eventsOn channel (addedEvents others)) :
    ∃ j out k otherOut jPacked packed kPacked otherPacked,
      run journalCall journalInit calls = .ok (j, out) ∧
      run journalCall journalInit others = .ok (k, otherOut) ∧
      journalPack j = .ok (jPacked, packed) ∧ journalPack k = .ok (kPacked, otherPacked) ∧
      SameButSeq packed otherPacked := by
  obtain ⟨j, hrun, hj⟩ := run_journal calls
  obtain ⟨k, hrunOther, hk⟩ := run_journal others
  obtain ⟨jPacked, hpack, -, -⟩ := Journal.pack_spec hj.valid
  obtain ⟨kPacked, hpackOther, -, -⟩ := Journal.pack_spec hk.valid
  refine ⟨j, _, k, _, jPacked, _, kPacked, _, hrun, hrunOther, hpack, hpackOther, ?_⟩
  obtain ⟨hearlier, hrecent⟩ := history_added hcalls
  obtain ⟨hearlierOther, hrecentOther⟩ := history_added hothers
  have hjournal : (historyOf calls).journal = _ := JournalHistory.journal_congr
    (h := historyOf calls) (k := historyOf others)
    (fun i => by rw [hearlier, hearlierOther])
    (fun i => by rw [hrecent, hrecentOther, eventsOn_recorded, eventsOn_recorded, hsame])
  rw [hj.octets_eq, hk.octets_eq, hjournal]
  exact Journal.octets_seq _ _

/-- Program changes on two channels, the other way round and with a pack in between. -/
theorem channels_independent_two :
    ∃ j out k otherOut jPacked packed kPacked otherPacked,
      run journalCall journalInit
        [.add 1 (.program ⟨0, 0xc, 5⟩), .add 2 (.program ⟨1, 0xc, 6⟩)] = .ok (j, out) ∧
      run journalCall journalInit
        [.add 7 (.program ⟨1, 0xc, 6⟩), .pack, .add 9 (.program ⟨0, 0xc, 5⟩)] =
          .ok (k, otherOut) ∧
      journalPack j = .ok (jPacked, packed) ∧ journalPack k = .ok (kPacked, otherPacked) ∧
      SameButSeq packed otherPacked :=
  channels_independent [.add 1 (.program ⟨0, 0xc, 5⟩), .add 2 (.program ⟨1, 0xc, 6⟩)]
    [.add 7 (.program ⟨1, 0xc, 6⟩), .pack, .add 9 (.program ⟨0, 0xc, 5⟩)] (by decide) (by decide)
    (by decide)

end RaveloxMidi
