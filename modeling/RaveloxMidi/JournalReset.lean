import RaveloxMidi.JournalHistory

/-!
# What a reset leaves behind

After a reset the journal is to be as good as new. What is kept shows in three
places: a channel used before is packed even when it is idle now, an old program
change is packed until a new one replaces it, and the NoteOff octets start at
zero instead of at the lowest note. The first theorem compares a journal that
was reset with a fresh one under the same later events, the second asks whether
the table of contents lists the chapters that are there.
-/
namespace RaveloxMidi
open ByteMemory Transducer

/-- The octets packed after some calls on a fresh journal. -/
def packAfter (calls : List JournalCall) : Except Fault (List UInt8) := do
  let (journal, _) ← run journalCall journalInit calls
  let (_, packed) ← journalPack journal
  return packed

theorem packAfter_eq (calls : List JournalCall) :
    packAfter calls = .ok (historyOf calls).journal.octets := by
  obtain ⟨j, hrun, hj⟩ := run_journal calls
  obtain ⟨k, hpack, -, -⟩ := Journal.pack_spec hj.valid
  simp only [packAfter, hrun, hpack, hj.octets_eq, bind, Except.bind, pure, Except.pure]

/-- A run of add calls. -/
def addAll (events : List (UInt32 × JournalEvent)) : List JournalCall :=
  events.map fun event => .add event.1 event.2

/-- The events of a run of add calls that the journal takes. -/
def recordedEvents (events : List (UInt32 × JournalEvent)) : List JournalEvent :=
  (events.map Prod.snd).filter JournalEvent.recorded

/-- How often the events of a fresh journal are counted. -/
def eventCount (recent : List JournalEvent) : ℕ :=
  ∑ channel : Fin 16, countOn channel (eventsOn channel recent)

theorem foldl_addAll (events : List (UInt32 × JournalEvent)) (earlier earlier' : List JournalEvent)
    (recent : List JournalEvent) (seq : UInt16) :
    ∃ last, (addAll events).foldl JournalHistory.call ⟨earlier, recent, seq⟩ =
        ⟨earlier, recent ++ recordedEvents events, last⟩ ∧
      (addAll events).foldl JournalHistory.call ⟨earlier', recent, seq⟩ =
        ⟨earlier', recent ++ recordedEvents events, last⟩ := by
  induction events generalizing recent seq with
  | nil => exact ⟨seq, by simp [addAll, recordedEvents], by simp [addAll, recordedEvents]⟩
  | cons event events ih =>
    by_cases hrecorded : event.2.recorded = true
    · obtain ⟨last, hfirst, hsecond⟩ := ih (recent ++ [event.2]) event.1.toUInt16
      refine ⟨last, ?_, ?_⟩
      · simpa [addAll, recordedEvents, JournalHistory.call, hrecorded] using hfirst
      · simpa [addAll, recordedEvents, JournalHistory.call, hrecorded] using hsecond
    · obtain ⟨last, hfirst, hsecond⟩ := ih recent seq
      refine ⟨last, ?_, ?_⟩
      · simpa [addAll, recordedEvents, JournalHistory.call, hrecorded] using hfirst
      · simpa [addAll, recordedEvents, JournalHistory.call, hrecorded] using hsecond

namespace ChapterC

/-- Two chapters that differ at most in the S bit of logs not in use. -/
structure Alike (c d : ChapterC) : Prop where
  s : c.s = d.s
  logs : ∀ index, { c.controllerLog index with s := 1 } = { d.controllerLog index with s := 1 }
  used : ∀ index, c.inUse index = true → c.controllerLog index = d.controllerLog index

theorem Alike.inUse_eq {c d : ChapterC} (h : c.Alike d) : c.inUse = d.inUse := by
  funext index
  have hnumber := congrArg ControllerLog.number (h.logs index)
  simp only at hnumber
  simp only [inUse, hnumber]

theorem Alike.octets_eq {c d : ChapterC} (h : c.Alike d) : c.octets = d.octets := by
  have hcount : c.count = d.count := by rw [count, count, h.inUse_eq]
  have hloop := packLoop_congr h.inUse_eq h.used
  simp only [octets, hcount, hloop, h.s]

theorem Alike.add {c d : ChapterC} (h : c.Alike d) (midiControl : MidiControl) :
    (chapterCAdd midiControl c).Alike (chapterCAdd midiControl d) := by
  obtain ⟨controller, hcontroller⟩ : ∃ controller : Fin 128, controller =
    ⟨midiControl.controllerNumber.toNat % 128, Nat.mod_lt _ (by decide)⟩ := ⟨_, rfl⟩
  have hlog := h.logs controller
  rw [ControllerLog.mk.injEq] at hlog
  obtain ⟨-, -, ha, ht, -⟩ := hlog
  refine ⟨h.s, fun index => ?_, fun index huse => ?_⟩
  · simp only [chapterCAdd, ← hcontroller]
    by_cases hi : index = controller
    · subst hi
      simp [ha, ht]
    · simpa only [Function.update_of_ne hi] using h.logs index
  · simp only [chapterCAdd, inUse, ← hcontroller] at huse ⊢
    by_cases hi : index = controller
    · subst hi
      simp [ha, ht]
    · simp only [Function.update_of_ne hi] at huse ⊢
      exact h.used index huse

theorem alike_blank : (chapterCReset chapterCCreate).Alike chapterCCreate := by
  refine ⟨rfl, fun _ => rfl, fun index huse => ?_⟩
  have hunused : ∀ index : Fin 128, ((255 : UInt8) == UInt8.ofNat index) = false := by decide
  simp [inUse, chapterCReset, hunused] at huse

theorem alike_fold (controls : List MidiControl) {c d : ChapterC} (h : c.Alike d) :
    (controls.foldl (fun chapter event => chapterCAdd event chapter) c).Alike
      (controls.foldl (fun chapter event => chapterCAdd event chapter) d) := by
  induction controls generalizing c d with
  | nil => exact h
  | cons control controls ih => exact ih (h.add control)

/-- No controller, no octets. -/
theorem blank_octets : (chapterCReset chapterCCreate).octets = [] := by
  have hcount : (chapterCReset chapterCCreate).count = 0 := by decide
  rw [octets, if_pos hcount]

end ChapterC

/-- Chapter C comes out of a reset as good as new. -/
theorem packedC_fresh (earlier recent : List JournalEvent) :
    ((chapterCOf earlier recent).map ChapterC.octets).getD [] =
      ((chapterCOf [] recent).map ChapterC.octets).getD [] := by
  unfold chapterCOf
  generalize earlier.filterMap JournalEvent.control? = before
  generalize recent.filterMap JournalEvent.control? = controls
  by_cases hbefore : before = []
  · simp [hbefore]
  · by_cases hcontrols : controls = []
    · simp [chapterOf, hbefore, hcontrols, ChapterC.blank_octets]
    · have halike := ChapterC.alike_fold controls ChapterC.alike_blank
      simp [chapterOf, hbefore, hcontrols, halike.octets_eq]

namespace ChapterN

/-- The same chapter with its LOW field at zero. -/
def lowered (chapter : ChapterN) : ChapterN := { chapter with header.low := 0 }

theorem add_lowered (midiNote : MidiNote) (chapter : ChapterN) :
    chapterNAdd midiNote chapter.lowered = (chapterNAdd midiNote chapter).lowered := by
  have hmin : ∀ offset : Fin 16, min offset 0 = 0 := by decide
  by_cases hoff : midiNote.command = midiCommandNoteOff
  · simp only [chapterNAdd, lowered, hmin, if_pos hoff]
  · by_cases hfull : chapter.notes.length = maxChapterNNotes
    · simp [chapterNAdd, lowered, hoff, hfull]
    · simp [chapterNAdd, lowered, hoff, hfull]

/-- A chapter that was reset is a new one, but for LOW: by induction on the notes. -/
theorem fold_blank (notes : List MidiNote) (chapter : ChapterN) :
    notes.foldl (fun chapter event => chapterNAdd event chapter) chapter.lowered =
      (notes.foldl (fun chapter event => chapterNAdd event chapter) chapter).lowered := by
  induction notes generalizing chapter with
  | nil => rfl
  | cons note notes ih => rw [List.foldl_cons, add_lowered, ih, List.foldl_cons]

theorem valid_fold (notes : List MidiNote) {chapter : ChapterN} (h : chapter.Valid) :
    (notes.foldl (fun chapter event => chapterNAdd event chapter) chapter).Valid := by
  induction notes generalizing chapter with
  | nil => exact h
  | cons note notes ih => exact ih (valid_add h note)

/-- LOW ends at zero when it starts there or a NoteOff is for one of the eight lowest notes. -/
theorem fold_low (notes : List MidiNote) (chapter : ChapterN) :
    (notes.foldl (fun chapter event => chapterNAdd event chapter) chapter).header.low = 0 ↔
      chapter.header.low = 0 ∨
        ∃ note ∈ notes, note.command = midiCommandNoteOff ∧ note.note < 8 := by
  have hmin : ∀ a b : Fin 16, min a b = 0 ↔ a = 0 ∨ b = 0 := by decide
  have hoffset : ∀ note : Fin 128, noteOffset note = 0 ↔ note < 8 := by decide
  induction notes generalizing chapter with
  | nil => simp
  | cons note notes ih =>
    have hadd : (chapterNAdd note chapter).header.low = 0 ↔
        chapter.header.low = 0 ∨ (note.command = midiCommandNoteOff ∧ note.note < 8) := by
      unfold chapterNAdd
      by_cases hoff : note.command = midiCommandNoteOff
      · simp only [if_pos hoff, hmin, hoffset]
        tauto
      · by_cases hfull : chapter.notes.length = maxChapterNNotes <;> simp [hoff, hfull]
    refine (ih (chapterNAdd note chapter)).trans ?_
    rw [hadd, List.exists_mem_cons_iff]
    tauto

/-- Lowering LOW makes the chapter longer unless LOW was zero already. -/
theorem lowered_length {chapter : ChapterN} (h : chapter.Valid) :
    chapter.octets.length ≤ chapter.lowered.octets.length ∧
      (chapter.octets.length = chapter.lowered.octets.length ↔ chapter.header.low = 0) := by
  have hlowered : chapter.lowered.octets.length =
      2 + 2 * chapter.notes.length + (chapter.header.high + 1) :=
    octets_length (show chapter.lowered.Valid from ⟨h.notes_le, h.offbits_length⟩)
  rw [hlowered, octets_length h]
  constructor
  · omega
  · rw [Fin.ext_iff]
    have hzero : ((0 : Fin 16) : ℕ) = 0 := rfl
    omega

theorem lowered_eq {chapter : ChapterN} (h : chapter.header.low = 0) :
    chapter.lowered = chapter := by
  cases chapter with
  | mk header notes offbits =>
    cases header with
    | mk b len low high => simp only [lowered] at h ⊢; rw [h]

theorem octets_length_pos {chapter : ChapterN} (h : chapter.Valid) : 0 < chapter.octets.length := by
  rw [octets_length h]
  omega

end ChapterN

/-- A NoteOff for one of the eight lowest notes. -/
def HasLowNoteOff (recent : List JournalEvent) : Prop :=
  ∃ midiNote ∈ recent.filterMap JournalEvent.note?,
    midiNote.command = midiCommandNoteOff ∧ midiNote.note < 8

/-- Chapter N after a reset is at least as long as a new one, and the same octets
when a low NoteOff has come since. -/
theorem packedN_fresh (earlier recent : List JournalEvent) :
    ((chapterNOf [] recent).map ChapterN.octets).getD [] =
        ((chapterNOf earlier recent).map ChapterN.octets).getD [] ∧
        (earlier.filterMap JournalEvent.note? ≠ [] → HasLowNoteOff recent) ∨
      (((chapterNOf [] recent).map ChapterN.octets).getD []).length <
        (((chapterNOf earlier recent).map ChapterN.octets).getD []).length ∧
        earlier.filterMap JournalEvent.note? ≠ [] ∧ ¬ HasLowNoteOff recent := by
  unfold chapterNOf HasLowNoteOff
  generalize earlier.filterMap JournalEvent.note? = before
  generalize recent.filterMap JournalEvent.note? = notes
  have hblank : chapterNReset chapterNCreate = chapterNCreate.lowered := rfl
  have hvalid := ChapterN.valid_fold notes ChapterN.valid_create
  have hlow := ChapterN.fold_low notes chapterNCreate
  have hfresh : ¬ chapterNCreate.header.low = 0 := by decide
  obtain ⟨hle, hlength⟩ := ChapterN.lowered_length hvalid
  by_cases hbefore : before = []
  · exact .inl ⟨by simp [hbefore], by simp [hbefore]⟩
  · by_cases hoff : ∃ note ∈ notes, note.command = midiCommandNoteOff ∧ note.note < 8
    · have hnotes : notes ≠ [] := by
        rintro rfl
        simp at hoff
      have hzero := hlow.mpr (.inr hoff)
      refine .inl ⟨?_, fun _ => hoff⟩
      simp [chapterOf, hbefore, hnotes, hblank, ChapterN.fold_blank, ChapterN.lowered_eq hzero]
    · refine .inr ⟨?_, hbefore, hoff⟩
      have hne := mt hlow.mp (by simp [hfresh, hoff])
      have hlt := lt_of_le_of_ne hle (mt hlength.mp hne)
      by_cases hnotes : notes = []
      · have hpos := ChapterN.octets_length_pos hvalid
        simp only [chapterOf, hbefore, hnotes, hblank] at hpos hlt ⊢
        simp at hpos hlt ⊢
        omega
      · simpa [chapterOf, hbefore, hnotes, hblank, ChapterN.fold_blank] using hlt

/-- Chapter P after a reset, likewise. -/
theorem packedP_fresh (earlier recent : List JournalEvent) :
    ((chapterPOf [] recent).map chapterPPack).getD [] =
        ((chapterPOf earlier recent).map chapterPPack).getD [] ∧
        (earlier.filterMap JournalEvent.program? ≠ [] →
          recent.filterMap JournalEvent.program? ≠ []) ∨
      (((chapterPOf [] recent).map chapterPPack).getD []).length <
        (((chapterPOf earlier recent).map chapterPPack).getD []).length ∧
        earlier.filterMap JournalEvent.program? ≠ [] ∧
        recent.filterMap JournalEvent.program? = [] := by
  simp only [chapterPOf, List.filterMap_append, List.nil_append]
  generalize earlier.filterMap JournalEvent.program? = before
  generalize recent.filterMap JournalEvent.program? = programs
  by_cases hprograms : programs = []
  · by_cases hbefore : before = []
    · exact .inl ⟨by simp [hbefore], by simp [hbefore]⟩
    · refine .inr ⟨?_, hbefore, hprograms⟩
      obtain ⟨last, hlast⟩ := List.getLast?_isSome.mpr hbefore |> Option.isSome_iff_exists.mp
      simp [hprograms, hlast, chapterPPack]
  · exact .inl ⟨by rw [List.getLast?_append_of_ne_nil _ hprograms], fun _ => hprograms⟩

theorem Channel.octets_length (channel : Channel) :
    channel.octets.length =
      3 + channel.packedP.length + channel.packedC.length + channel.packedN.length := by
  simp only [Channel.octets, List.length_append, channelHeaderPack, ByteMemory.octets_length,
    List.length_singleton]

theorem Channel.octets_eq_of {c d : Channel} (hheader : c.header = d.header)
    (hp : c.packedP = d.packedP) (hc : c.packedC = d.packedC) (hn : c.packedN = d.packedN) :
    c.octets = d.octets := by
  simp only [Channel.octets, Channel.packedHeader, hheader, hp, hc, hn]

/-- What the events since a reset must contain so that the events before it do
not show in a channel journal. -/
structure Refreshed (earlier recent : List JournalEvent) : Prop where
  used : earlier ≠ [] → recent ≠ []
  program : earlier.filterMap JournalEvent.program? ≠ [] →
    recent.filterMap JournalEvent.program? ≠ []
  note : earlier.filterMap JournalEvent.note? ≠ [] → HasLowNoteOff recent

/-- The octets of one channel of a journal, none if it has no node. -/
def segmentOf (channel : Fin 16) (earlier recent : List JournalEvent) : List UInt8 :=
  ((channelOf channel earlier recent).map Channel.octets).getD []

theorem segmentOf_nil (channel : Fin 16) : segmentOf channel [] [] = [] := rfl

theorem segmentOf_body (channel : Fin 16) {earlier recent : List JournalEvent}
    (h : ¬ (earlier = [] ∧ recent = [])) :
    segmentOf channel earlier recent = (channelBody channel earlier recent).octets := by
  rw [segmentOf, channelOf, if_neg h]
  rfl

theorem segment_fresh (channel : Fin 16) (earlier recent : List JournalEvent) :
    (segmentOf channel [] recent = segmentOf channel earlier recent ∧ Refreshed earlier recent) ∨
      ((segmentOf channel [] recent).length < (segmentOf channel earlier recent).length ∧
        ¬ Refreshed earlier recent) := by
  by_cases hearlier : earlier = []
  · subst hearlier
    exact .inl ⟨rfl, by simp, by simp, by simp⟩
  · have hold : ¬ (earlier = [] ∧ recent = []) := fun h => hearlier h.1
    by_cases hrecent : recent = []
    · refine .inr ⟨?_, fun h => h.used hearlier hrecent⟩
      rw [segmentOf_body channel hold, Channel.octets_length, hrecent, segmentOf_nil,
        List.length_nil]
      omega
    · have hnew : ¬ (([] : List JournalEvent) = [] ∧ recent = []) := fun h => hrecent h.2
      have hc : (channelBody channel earlier recent).packedC =
          (channelBody channel [] recent).packedC := packedC_fresh earlier recent
      have hn : (channelBody channel [] recent).packedN =
            (channelBody channel earlier recent).packedN ∧ _ ∨
          (channelBody channel [] recent).packedN.length <
            (channelBody channel earlier recent).packedN.length ∧ _ := packedN_fresh earlier recent
      have hp : (channelBody channel [] recent).packedP =
            (channelBody channel earlier recent).packedP ∧ _ ∨
          (channelBody channel [] recent).packedP.length <
            (channelBody channel earlier recent).packedP.length ∧ _ := packedP_fresh earlier recent
      rw [segmentOf_body channel hold, segmentOf_body channel hnew]
      rcases hp with ⟨hp, hprogram⟩ | ⟨hp, hbefore, hprogram⟩
      · rcases hn with ⟨hn, hnote⟩ | ⟨hn, hbefore, hnote⟩
        · exact .inl ⟨Channel.octets_eq_of rfl hp hc.symm hn, fun _ => hrecent, hprogram, hnote⟩
        · refine .inr ⟨?_, fun h => hnote (h.note hbefore)⟩
          rw [Channel.octets_length, Channel.octets_length, hp, hc]
          omega
      · refine .inr ⟨?_, fun h => h.program hbefore hprogram⟩
        have hle : (channelBody channel [] recent).packedN.length ≤
            (channelBody channel earlier recent).packedN.length := by
          rcases hn with ⟨hn, -⟩ | ⟨hn, -⟩
          · rw [hn]
          · exact le_of_lt hn
        rw [Channel.octets_length, Channel.octets_length, hc]
        omega

theorem segments_flatten (h : JournalHistory) :
    h.journal.segments.flatten =
      (List.finRange 16).flatMap fun i =>
        segmentOf i (eventsOn i h.earlier) (eventsOn i h.recent) := by
  simp only [Journal.segments, JournalHistory.journal]
  induction List.finRange 16 with
  | nil => rfl
  | cons i indices ih =>
    rw [List.flatMap_cons, ← ih, List.filterMap_cons]
    unfold segmentOf
    cases channelOf i (eventsOn i h.earlier) (eventsOn i h.recent) <;> rfl

/-- The octets of all channels agree exactly when each channel is refreshed. -/
theorem segments_fresh (earlier recent : List JournalEvent) (seq : UInt16) :
    (⟨earlier, recent, seq⟩ : JournalHistory).journal.segments.flatten =
        (⟨[], recent, seq⟩ : JournalHistory).journal.segments.flatten ↔
      ∀ channel, Refreshed (eventsOn channel earlier) (eventsOn channel recent) := by
  have hfresh : ∀ i, eventsOn i [] = [] := fun _ => rfl
  rw [segments_flatten, segments_flatten]
  simp only [hfresh]
  constructor
  · intro heq
    have hlength := congrArg List.length heq
    simp only [List.length_flatMap, ← Fin.sum_univ_def] at hlength
    have hle : ∀ i ∈ (Finset.univ : Finset (Fin 16)),
        (segmentOf i [] (eventsOn i recent)).length ≤
          (segmentOf i (eventsOn i earlier) (eventsOn i recent)).length := by
      intro i _
      rcases segment_fresh i (eventsOn i earlier) (eventsOn i recent) with ⟨hsame, -⟩ | ⟨hlt, -⟩
      · rw [hsame]
      · exact le_of_lt hlt
    have hall := (Finset.sum_eq_sum_iff_of_le hle).mp hlength.symm
    intro channel
    rcases segment_fresh channel (eventsOn channel earlier) (eventsOn channel recent) with
      ⟨-, h⟩ | ⟨hlt, -⟩
    · exact h
    · exact absurd (hall channel (Finset.mem_univ _)) (Nat.ne_of_lt hlt)
  · intro h
    congr 1
    funext i
    rcases segment_fresh i (eventsOn i earlier) (eventsOn i recent) with ⟨hsame, -⟩ | ⟨-, hnot⟩
    · exact hsame.symm
    · exact absurd (h i) hnot

theorem hasData_iff (h : JournalHistory) :
    journalHasData h.journal = true ↔ ¬ eventCount h.recent % 256 = 0 := by
  have hcount : h.counted = eventCount h.recent := rfl
  rw [journalHasData, decide_eq_true_eq, gt_iff_lt, UInt8.lt_iff_toNat_lt,
    JournalHistory.journal_header, UInt8.toNat_ofNat', hcount]
  exact Nat.pos_iff_ne_zero

/-- A journal that was reset packs like a fresh one after the same events exactly
when there is nothing to pack or each channel used before is refreshed. -/
theorem reset_fresh_iff (before : List JournalCall) (events : List (UInt32 × JournalEvent)) :
    packAfter (before ++ [.reset] ++ addAll events) = packAfter (addAll events) ↔
      eventCount (recordedEvents events) % 256 = 0 ∨
        ∀ channel, Refreshed
          (eventsOn channel ((historyOf before).earlier ++ (historyOf before).recent))
          (eventsOn channel (recordedEvents events)) := by
  obtain ⟨last, hold, hnew⟩ := foldl_addAll events
    ((historyOf before).earlier ++ (historyOf before).recent) [] [] 0
  have hreset : historyOf (before ++ [.reset] ++ addAll events) =
      ⟨(historyOf before).earlier ++ (historyOf before).recent, recordedEvents events, last⟩ := by
    rw [historyOf, List.foldl_append, List.foldl_append]
    exact hold
  have hfresh : historyOf (addAll events) = ⟨[], recordedEvents events, last⟩ := hnew
  rw [packAfter_eq, packAfter_eq, hreset, hfresh, Except.ok.injEq, ← segments_fresh _ _ last]
  simp only [Journal.octets, hasData_iff]
  by_cases hnone : eventCount (recordedEvents events) % 256 = 0
  · simp [hnone]
  · simp only [hnone, not_false_eq_true, if_true, false_or, JournalHistory.journal_header]
    exact ⟨fun h => List.append_cancel_left h, fun h => by rw [h]; rfl⟩

/-- A channel used only before the reset is packed again behind a new one. -/
theorem idle_channel_packed_again :
    packAfter [.add 2 (.program ⟨0, 0xc, 5⟩), .reset, .add 3 (.program ⟨1, 0xc, 9⟩)] ≠
      packAfter [.add 3 (.program ⟨1, 0xc, 9⟩)] := by
  rw [packAfter_eq, packAfter_eq]
  intro h
  have hlength := congrArg List.length (Except.ok.inj h)
  revert hlength
  decide

end RaveloxMidi
