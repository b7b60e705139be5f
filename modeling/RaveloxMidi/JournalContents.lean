import RaveloxMidi.JournalReset

/-!
# The table of contents of a channel journal

A receiver finds the chapters of a channel journal by its table of contents and
the length fields of the chapters. The add functions set the bits and a reset
clears them, but the packer goes by the chapters that exist.
-/
namespace RaveloxMidi
open ByteMemory Transducer

/-- Leave `n` octets behind, if there are as many. -/
def skip (n : ℕ) (bytes : List UInt8) : Option (List UInt8) :=
  if n ≤ bytes.length then some (bytes.drop n) else none

/-- The size of chapter C by its header. -/
def chapterCSize (bytes : List UInt8) : ℕ := 1 + 2 * (((bytes.headD 0) &&& 0x7f).toNat + 1)

/-- The size of chapter N by its header. A receiver may know that LEN = 127 with
LOW = 15 and HIGH = 0 stands for 128 logs. -/
def chapterNSize (knows128 : Bool) (bytes : List UInt8) : ℕ :=
  let len := ((bytes.headD 0) &&& 0x7f).toNat
  let low := ((bytes.drop 1).headD 0).toNat / 16
  let high := ((bytes.drop 1).headD 0).toNat % 16
  let logs := if knows128 = true ∧ len = 127 ∧ low = 15 ∧ high = 0 then 128 else len
  2 + 2 * logs + (high + 1 - low)

/-- Leave a chapter behind if its bit is set. -/
def skipChapter (contents flag : UInt8) (size : List UInt8 → ℕ) (bytes : List UInt8) :
    Option (List UInt8) :=
  if contents &&& flag ≠ 0 then skip (size bytes) bytes else some bytes

/-- Walk a channel journal from its table of contents; the result is what is left over. -/
def walkChannel (knows128 : Bool) : List UInt8 → Option (List UInt8)
  | _ :: _ :: contents :: bytes => do
    let bytes ← skipChapter contents chapterPFlag (fun _ => 3) bytes
    let bytes ← skipChapter contents chapterCFlag chapterCSize bytes
    skipChapter contents chapterNFlag (chapterNSize knows128) bytes
  | _ => none

/-- The table of contents lists exactly the chapters that follow, and a receiver
that goes by it reads exactly the channel journal. -/
structure Channel.ContentsExact (knows128 : Bool) (channel : Channel) : Prop where
  chapterP : channel.header.bitfield &&& chapterPFlag ≠ 0 ↔ channel.packedP ≠ []
  chapterC : channel.header.bitfield &&& chapterCFlag ≠ 0 ↔ channel.packedC ≠ []
  chapterN : channel.header.bitfield &&& chapterNFlag ≠ 0 ↔ channel.packedN ≠ []
  walk : walkChannel knows128 channel.octets = some []

/-- What is packed, if anything, is listed channel by channel. -/
def Journal.ContentsExact (knows128 : Bool) (j : Journal) : Prop :=
  journalHasData j = true → ∀ i, ∀ channel ∈ j.channels i, channel.ContentsExact knows128

/-- Only note logs, and at least 127 of them, in a chapter that is new. -/
def FullOfLogs (earlier recent : List JournalEvent) : Prop :=
  earlier.filterMap JournalEvent.note? = [] ∧
    127 ≤ (recent.filterMap JournalEvent.note?).length ∧
    ∀ midiNote ∈ recent.filterMap JournalEvent.note?, midiNote.command ≠ midiCommandNoteOff

/-- The NoteOns that there is room for. -/
def loggedNotes (notes : List MidiNote) : List MidiNote :=
  (notes.filter fun midiNote => midiNote.command ≠ midiCommandNoteOff).take 127

/-- What the events on a channel must be like for its contents to be exact. -/
structure Listed (knows128 : Bool) (earlier recent : List JournalEvent) : Prop where
  program : earlier.filterMap JournalEvent.program? ≠ [] →
    recent.filterMap JournalEvent.program? ≠ []
  note : earlier.filterMap JournalEvent.note? ≠ [] → recent.filterMap JournalEvent.note? ≠ []
  logs : knows128 = true → ¬ FullOfLogs earlier recent

theorem or_and_ne_zero (a b flag : UInt8) :
    (a ||| b) &&& flag ≠ 0 ↔ a &&& flag ≠ 0 ∨ b &&& flag ≠ 0 := by
  rw [or_mask, ne_eq, UInt8.or_eq_zero_iff, not_and_or]

/-- A bit of the contents is set by the events of its chapter. -/
theorem contents_bit {α : Type} (select : JournalEvent → Option α) (flag : UInt8)
    (hflag : ∀ event : JournalEvent, event.flag &&& flag ≠ 0 ↔ (select event).isSome)
    (recent : List JournalEvent) :
    contentsOf recent &&& flag ≠ 0 ↔ recent.filterMap select ≠ [] := by
  induction recent using List.reverseRecOn with
  | nil => simp [contentsOf]
  | append_singleton recent event ih =>
    have hsnoc : contentsOf (recent ++ [event]) = contentsOf recent ||| event.flag := by
      simp [contentsOf]
    rw [hsnoc, or_and_ne_zero, ih, hflag, List.filterMap_append, ne_eq, ne_eq,
      List.append_eq_nil_iff, not_and_or]
    cases hselect : select event <;> simp [hselect]

theorem contents_program (recent : List JournalEvent) :
    contentsOf recent &&& chapterPFlag ≠ 0 ↔ recent.filterMap JournalEvent.program? ≠ [] := by
  refine contents_bit _ _ (fun event => ?_) recent
  cases event <;> simp [JournalEvent.flag, JournalEvent.program?] <;> decide

theorem contents_control (recent : List JournalEvent) :
    contentsOf recent &&& chapterCFlag ≠ 0 ↔ recent.filterMap JournalEvent.control? ≠ [] := by
  refine contents_bit _ _ (fun event => ?_) recent
  cases event <;> simp [JournalEvent.flag, JournalEvent.control?] <;> decide

theorem contents_note (recent : List JournalEvent) :
    contentsOf recent &&& chapterNFlag ≠ 0 ↔ recent.filterMap JournalEvent.note? ≠ [] := by
  refine contents_bit _ _ (fun event => ?_) recent
  cases event <;> simp [JournalEvent.flag, JournalEvent.note?] <;> decide

namespace ChapterC

theorem count_pos_of_inUse {chapter : ChapterC} {index : Fin 128}
    (h : chapter.inUse index = true) : 0 < chapter.count :=
  List.length_pos_of_mem (List.mem_filter.mpr ⟨List.mem_finRange index, h⟩)

/-- A controller just added is in use. -/
theorem count_add_pos (midiControl : MidiControl) (chapter : ChapterC) :
    0 < (chapterCAdd midiControl chapter).count := by
  have hin : (chapterCAdd midiControl chapter).inUse
      ⟨midiControl.controllerNumber.toNat % 128, Nat.mod_lt _ (by decide)⟩ = true := by
    simp [inUse, chapterCAdd]
  exact count_pos_of_inUse hin

theorem octets_ne_nil_iff (chapter : ChapterC) : chapter.octets ≠ [] ↔ 0 < chapter.count := by
  unfold octets
  split_ifs with hzero
  · simp [hzero]
  · simpa using Nat.pos_of_ne_zero hzero

/-- The bit in front does not get into the seven below it. -/
theorem low_seven (s low : UInt8) : ((s <<< 7) ||| (low &&& 0x7f)) &&& 0x7f = low &&& 0x7f := by
  have hs : ∀ s : UInt8, (s <<< 7) &&& 0x7f = 0 := by decide +kernel
  have hl : ∀ low : UInt8, (low &&& 0x7f) &&& 0x7f = low &&& 0x7f := by decide +kernel
  rw [or_mask, hs, hl, UInt8.zero_or]

/-- The length field is one less than the number of logs. -/
theorem count_field {chapter : ChapterC} (h : 0 < chapter.count) :
    ((UInt8.ofNat chapter.count - 1) &&& 0x7f).toNat + 1 = chapter.count := by
  have hle := chapter.count_le
  have hall : ∀ n : Fin 129, 0 < n.val → ((UInt8.ofNat n - 1) &&& 0x7f).toNat + 1 = n.val := by
    decide +kernel
  exact hall ⟨chapter.count, by omega⟩ h

/-- The size is the one its header announces. -/
theorem size_eq {chapter : ChapterC} (h : 0 < chapter.count) (rest : List UInt8) :
    chapterCSize (chapter.octets ++ rest) = chapter.octets.length := by
  rw [octets_length, if_neg (by omega), octets, if_neg (by omega)]
  simp only [chapterCSize, List.cons_append, List.headD_cons, low_seven, count_field h]

end ChapterC

namespace ChapterN

theorem len_field (b : Bool) (n : Fin 128) :
    (flagged b (UInt8.ofNat n) &&& 0x7f).toNat = n.val := by
  revert b n
  decide +kernel

theorem low_field (low high : Fin 16) :
    ((UInt8.ofNat low <<< 4) ||| UInt8.ofNat high).toNat / 16 = low.val := by
  revert low high
  decide +kernel

theorem high_field (low high : Fin 16) :
    ((UInt8.ofNat low <<< 4) ||| UInt8.ofNat high).toNat % 16 = high.val := by
  revert low high
  decide +kernel

/-- The header fields as they are read from the octets. -/
theorem header_fields {chapter : ChapterN} (h : chapter.Valid) :
    (chapter.octets.headD 0 &&& 0x7f).toNat = chapter.notes.length ∧
      ((chapter.octets.drop 1).headD 0).toNat / 16 = chapter.header.low.val ∧
      ((chapter.octets.drop 1).headD 0).toNat % 16 = chapter.header.high.val := by
  have hnotes := h.notes_le
  have hlen := len_field chapter.header.b ⟨chapter.notes.length, by omega⟩
  have hmod : chapter.notes.length % 128 = chapter.notes.length := by omega
  have hfirst : chapter.octets.headD 0 =
      flagged chapter.header.b (UInt8.ofNat (chapter.notes.length % 128)) := rfl
  have hsecond : (chapter.octets.drop 1).headD 0 =
      (UInt8.ofNat chapter.header.low <<< 4) ||| UInt8.ofNat chapter.header.high := rfl
  rw [hfirst, hsecond, hmod]
  exact ⟨hlen, low_field _ _, high_field _ _⟩

/-- The size that the header announces: the right one, unless a receiver takes
the full list of logs for one of 128. -/
theorem size_eq {chapter : ChapterN} (h : chapter.Valid) (knows128 : Bool) :
    chapterNSize knows128 chapter.octets = chapter.octets.length +
      if knows128 = true ∧ chapter.notes.length = 127 ∧ chapter.header.low = 15 ∧
        chapter.header.high = 0 then 2 else 0 := by
  have hfull : (chapter.header.low.val = 15 ↔ chapter.header.low = 15) ∧
      (chapter.header.high.val = 0 ↔ chapter.header.high = 0) := ⟨by omega, by omega⟩
  rw [octets_length h]
  simp only [chapterNSize, header_fields h, hfull]
  split_ifs with hspecial
  · omega
  · omega

/-- LOW stays where it started and HIGH at zero exactly without a NoteOff: by
induction from the last note. -/
theorem fold_create_header (notes : List MidiNote) :
    ((notes.foldl (fun chapter event => chapterNAdd event chapter) chapterNCreate).header.low = 15 ∧
      (notes.foldl (fun chapter event => chapterNAdd event chapter)
        chapterNCreate).header.high = 0) ↔
      ∀ note ∈ notes, note.command ≠ midiCommandNoteOff := by
  have hapart : ∀ offset low high : Fin 16, ¬ (min offset low = 15 ∧ max offset high = 0) := by
    decide +kernel
  induction notes using List.reverseRecOn with
  | nil => simp [chapterNCreate, chapterNHeaderCreate]
  | append_singleton notes note ih =>
    rw [List.foldl_append, List.foldl_cons, List.foldl_nil]
    by_cases hoff : note.command = midiCommandNoteOff
    · simp only [chapterNAdd, if_pos hoff]
      refine iff_of_false (hapart _ _ _) fun h => h note (by simp) hoff
    · have hheader : ∀ chapter : ChapterN,
          (chapterNAdd note chapter).header.low = chapter.header.low ∧
            (chapterNAdd note chapter).header.high = chapter.header.high := by
        intro chapter
        by_cases hfull : chapter.notes.length = maxChapterNNotes <;>
          simp [chapterNAdd, hoff, hfull]
      rw [(hheader _).1, (hheader _).2]
      refine ih.trans ?_
      simp [or_imp, forall_and, hoff]

/-- Every NoteOn is logged until there is no room: by induction from the last note. -/
theorem fold_notes {chapter : ChapterN} (hempty : chapter.notes = []) (notes : List MidiNote) :
    (notes.foldl (fun chapter event => chapterNAdd event chapter) chapter).notes =
      (loggedNotes notes).map fun midiNote =>
        { chapterNNoteCreate with num := midiNote.note, velocity := midiNote.velocity } := by
  induction notes using List.reverseRecOn with
  | nil => exact hempty
  | append_singleton notes note ih =>
    rw [List.foldl_append, List.foldl_cons, List.foldl_nil]
    generalize notes.foldl (fun chapter event => chapterNAdd event chapter) chapter = before at ih ⊢
    by_cases hoff : note.command = midiCommandNoteOff
    · simp only [chapterNAdd, if_pos hoff, ih, loggedNotes, List.filter_append]
      simp [hoff]
    · have hfilter : (notes ++ [note]).filter
          (fun midiNote => midiNote.command ≠ midiCommandNoteOff) =
            notes.filter (fun midiNote => midiNote.command ≠ midiCommandNoteOff) ++ [note] := by
        simp [List.filter_append, hoff]
      have hlength := congrArg List.length ih
      rw [loggedNotes, List.length_map, List.length_take] at hlength
      by_cases hfull : before.notes.length = maxChapterNNotes
      · have hfit : 127 ≤ (notes.filter fun midiNote =>
            midiNote.command ≠ midiCommandNoteOff).length := by
          rw [hfull, maxChapterNNotes] at hlength
          omega
        simp only [chapterNAdd, if_neg hoff, if_pos hfull]
        rw [ih, loggedNotes, loggedNotes, hfilter, List.take_append_of_le_length hfit]
      · have hfit : (notes.filter fun midiNote =>
            midiNote.command ≠ midiCommandNoteOff).length < 127 := by
          rw [maxChapterNNotes] at hfull
          omega
        simp only [chapterNAdd, if_neg hoff, if_neg hfull]
        rw [ih, loggedNotes, loggedNotes, hfilter, List.take_of_length_le hfit.le,
          List.take_of_length_le (by simpa using hfit), List.map_append]
        rfl

/-- Note logs are taken until the list is full. -/
theorem fold_create_logs {notes : List MidiNote}
    (h : ∀ note ∈ notes, note.command ≠ midiCommandNoteOff) :
    (notes.foldl (fun chapter event => chapterNAdd event chapter) chapterNCreate).notes.length =
      min 127 notes.length := by
  have hall : notes.filter (fun midiNote => midiNote.command ≠ midiCommandNoteOff) = notes :=
    List.filter_eq_self.mpr fun note hnote => by simpa using h note hnote
  rw [fold_notes rfl, List.length_map, loggedNotes, hall, List.length_take]

end ChapterN

theorem skipChapter_eq {contents flag : UInt8} (size : List UInt8 → ℕ) {front : List UInt8}
    (rest : List UInt8) (hbit : contents &&& flag ≠ 0 ↔ front ≠ [])
    (hsize : front ≠ [] → size (front ++ rest) = front.length) :
    skipChapter contents flag size (front ++ rest) = some rest := by
  by_cases hempty : front = []
  · rw [skipChapter, if_neg (fun h => hbit.mp h hempty), hempty, List.nil_append]
  · rw [skipChapter, if_pos (hbit.mpr hempty), hsize hempty]
    simp [skip]

theorem skip_all (bytes : List UInt8) (extra : ℕ) :
    skip (bytes.length + extra) bytes = some [] ↔ extra = 0 := by
  by_cases hextra : extra = 0
  · simp [skip, hextra]
  · simp [skip, hextra]

/-- The chapter C of some events has a log exactly when there is a control among
those since the reset. -/
theorem chapterCOf_count (earlier recent : List JournalEvent) :
    (∃ chapter ∈ chapterCOf earlier recent, 0 < chapter.count) ↔
      recent.filterMap JournalEvent.control? ≠ [] := by
  have hcreate : chapterCCreate.count = 0 := by decide
  have hblank : (chapterCReset chapterCCreate).count = 0 := by decide
  unfold chapterCOf
  generalize earlier.filterMap JournalEvent.control? = before
  generalize recent.filterMap JournalEvent.control? = controls
  induction controls using List.reverseRecOn with
  | nil =>
    by_cases hbefore : before = []
    · simp [chapterOf, hbefore]
    · simp [chapterOf, hbefore, hblank]
  | append_singleton controls control =>
    simp [chapterOf_snoc, ChapterC.count_add_pos]

theorem packedC_ne_nil_iff (i : Fin 16) (earlier recent : List JournalEvent) :
    (channelBody i earlier recent).packedC ≠ [] ↔ recent.filterMap JournalEvent.control? ≠ [] := by
  rw [← chapterCOf_count earlier recent, Channel.packedC]
  change ((chapterCOf earlier recent).map ChapterC.octets).getD [] ≠ [] ↔ _
  cases hchapter : chapterCOf earlier recent with
  | none => simp
  | some chapter => simp [← ChapterC.octets_ne_nil_iff]

theorem packedP_ne_nil_iff (i : Fin 16) (earlier recent : List JournalEvent) :
    (channelBody i earlier recent).packedP ≠ [] ↔
      earlier.filterMap JournalEvent.program? ≠ [] ∨
        recent.filterMap JournalEvent.program? ≠ [] := by
  change ((chapterPOf earlier recent).map chapterPPack).getD [] ≠ [] ↔ _
  rw [← not_and_or, ← List.append_eq_nil_iff, ← List.filterMap_append, chapterPOf]
  generalize (earlier ++ recent).filterMap JournalEvent.program? = programs
  cases hlast : programs.getLast? with
  | none => simp [List.getLast?_eq_none_iff.mp hlast]
  | some program =>
    have hne : programs ≠ [] := by
      rintro rfl
      cases hlast
    simp [chapterPPack, hne]

theorem chapterNOf_isSome (earlier recent : List JournalEvent) :
    (chapterNOf earlier recent).isSome ↔
      earlier.filterMap JournalEvent.note? ≠ [] ∨ recent.filterMap JournalEvent.note? ≠ [] := by
  rw [chapterNOf, chapterOf_isSome_iff, ne_eq, List.append_eq_nil_iff, not_and_or]

theorem valid_chapterNOf (earlier recent : List JournalEvent) :
    ∀ chapter ∈ chapterNOf earlier recent, chapter.Valid := by
  intro chapter hchapter
  obtain ⟨start, rfl | rfl, rfl⟩ := chapterOf_eq_some hchapter
  · exact ChapterN.valid_fold _ ChapterN.valid_create
  · exact ChapterN.valid_fold _ (ChapterN.valid_reset _)

theorem packedN_ne_nil_iff (i : Fin 16) (earlier recent : List JournalEvent) :
    (channelBody i earlier recent).packedN ≠ [] ↔
      earlier.filterMap JournalEvent.note? ≠ [] ∨ recent.filterMap JournalEvent.note? ≠ [] := by
  rw [← chapterNOf_isSome]
  change ((chapterNOf earlier recent).map ChapterN.octets).getD [] ≠ [] ↔ _
  have hvalid := valid_chapterNOf earlier recent
  cases hchapter : chapterNOf earlier recent with
  | none => simp
  | some chapter =>
    have hpos := ChapterN.octets_length_pos (hvalid chapter hchapter)
    simpa using List.ne_nil_of_length_pos hpos

/-- The list of logs is full in a chapter N that looks like one with 128 logs
exactly when the events say so. -/
theorem chapterNOf_full (earlier recent : List JournalEvent) :
    (∃ chapter ∈ chapterNOf earlier recent, chapter.notes.length = 127 ∧
        chapter.header.low = 15 ∧ chapter.header.high = 0) ↔
      FullOfLogs earlier recent := by
  unfold chapterNOf FullOfLogs
  generalize earlier.filterMap JournalEvent.note? = before
  generalize recent.filterMap JournalEvent.note? = notes
  by_cases hbefore : before = []
  · by_cases hnotes : notes = []
    · simp [chapterOf, hbefore, hnotes]
    · have hheader := ChapterN.fold_create_header notes
      simp only [chapterOf, hbefore, hnotes, and_false, if_false, if_true, true_and,
        Option.mem_def, Option.some.injEq, exists_eq_left', hheader]
      refine and_congr_left fun hoff => ?_
      rw [ChapterN.fold_create_logs hoff]
      omega
  · -- LOW is zero since the reset
    have hblank : chapterNReset chapterNCreate = chapterNCreate.lowered := rfl
    refine iff_of_false ?_ fun h => hbefore h.1
    rintro ⟨chapter, hchapter, -, hlow, -⟩
    simp only [chapterOf, hbefore, false_and, if_false, hblank, ChapterN.fold_blank,
      Option.mem_def, Option.some.injEq] at hchapter
    rw [← hchapter] at hlow
    cases hlow

namespace Channel

theorem packedP_length {channel : Channel} (h : channel.packedP ≠ []) :
    channel.packedP.length = 3 := by
  unfold packedP at h ⊢
  cases hchapter : channel.chapterP with
  | none => simp [hchapter] at h
  | some chapter => rfl

theorem packedC_size {channel : Channel} (h : channel.packedC ≠ []) (rest : List UInt8) :
    chapterCSize (channel.packedC ++ rest) = channel.packedC.length := by
  unfold packedC at h ⊢
  cases hchapter : channel.chapterC with
  | none => simp [hchapter] at h
  | some chapter =>
    simp only [hchapter, Option.map_some, Option.getD_some] at h ⊢
    exact ChapterC.size_eq (chapter.octets_ne_nil_iff.mp h) _

/-- Where the bits of P and C are right a receiver arrives at chapter N. -/
theorem walk_eq (channel : Channel) (knows128 : Bool)
    (hp : channel.header.bitfield &&& chapterPFlag ≠ 0 ↔ channel.packedP ≠ [])
    (hc : channel.header.bitfield &&& chapterCFlag ≠ 0 ↔ channel.packedC ≠ []) :
    walkChannel knows128 channel.octets =
      skipChapter channel.header.bitfield chapterNFlag (chapterNSize knows128)
        channel.packedN := by
  obtain ⟨first, second, hheader⟩ : ∃ first second,
      channelHeaderPack channel.packedHeader = [first, second, channel.header.bitfield] :=
    ⟨_, _, rfl⟩
  have hskipP := skipChapter_eq (fun _ => 3) (channel.packedC ++ channel.packedN) hp
    fun h => (packedP_length h).symm
  have hskipC := skipChapter_eq chapterCSize channel.packedN hc
    fun h => packedC_size h _
  simp only [octets, hheader, List.cons_append, List.nil_append, List.append_assoc, walkChannel,
    hskipP, hskipC, Option.bind_eq_bind, Option.bind_some]

end Channel

/-- At a chapter N that is listed when it is there, a receiver gets to the end
unless it takes a full list of logs for one more. -/
theorem skipN_iff (i : Fin 16) (knows128 : Bool) (earlier recent : List JournalEvent)
    (hnote : earlier.filterMap JournalEvent.note? ≠ [] →
      recent.filterMap JournalEvent.note? ≠ []) :
    skipChapter (contentsOf recent) chapterNFlag (chapterNSize knows128)
        (channelBody i earlier recent).packedN = some [] ↔
      (knows128 = true → ¬ FullOfLogs earlier recent) := by
  have hbit := contents_note recent
  have hempty := packedN_ne_nil_iff i earlier recent
  by_cases hnotes : recent.filterMap JournalEvent.note? = []
  · have hnone : (channelBody i earlier recent).packedN = [] := by
      by_contra hne
      exact (hempty.mp hne).elim (fun h => hnote h hnotes) (fun h => h hnotes)
    have hnotFull : ¬ FullOfLogs earlier recent := by
      rintro ⟨-, hlength, -⟩
      rw [hnotes, List.length_nil] at hlength
      omega
    have hclear : ¬ contentsOf recent &&& chapterNFlag ≠ 0 := fun h => hbit.mp h hnotes
    rw [hnone, skipChapter, if_neg hclear]
    simp [hnotFull]
  · obtain ⟨chapter, hchapter⟩ := Option.isSome_iff_exists.mp
      ((chapterNOf_isSome earlier recent).mpr (.inr hnotes))
    have hvalid := valid_chapterNOf earlier recent chapter hchapter
    have hpacked : (channelBody i earlier recent).packedN =
        ((chapterNOf earlier recent).map ChapterN.octets).getD [] := rfl
    rw [hpacked, hchapter, Option.map_some, Option.getD_some, skipChapter,
      if_pos (hbit.mpr hnotes), ChapterN.size_eq hvalid, skip_all, ← chapterNOf_full]
    simp only [hchapter, Option.mem_def, Option.some.injEq, exists_eq_left']
    split_ifs with hspecial
    · simp [hspecial]
    · simpa [not_and] using hspecial

/-- The contents of one channel are exact when its events are listed. -/
theorem contentsExact_iff (i : Fin 16) (knows128 : Bool) (earlier recent : List JournalEvent) :
    (channelBody i earlier recent).ContentsExact knows128 ↔ Listed knows128 earlier recent := by
  have hbitfield : (channelBody i earlier recent).header.bitfield = contentsOf recent := rfl
  have hbitP := contents_program recent
  have hbitC := contents_control recent
  have hbitN := contents_note recent
  have hP := packedP_ne_nil_iff i earlier recent
  have hC := packedC_ne_nil_iff i earlier recent
  have hN := packedN_ne_nil_iff i earlier recent
  have hwalk := Channel.walk_eq (channelBody i earlier recent) knows128
  rw [hbitfield, hbitP, hbitC, hP, hC] at hwalk
  constructor
  · rintro ⟨hexactP, -, hexactN, hexact⟩
    rw [hbitfield, hbitP, hP] at hexactP
    rw [hbitfield, hbitN, hN] at hexactN
    have hnote := fun h => hexactN.mpr (.inl h)
    rw [hwalk hexactP Iff.rfl, skipN_iff i knows128 earlier recent hnote] at hexact
    exact ⟨fun h => hexactP.mpr (.inl h), hnote, hexact⟩
  · rintro ⟨hprogram, hnote, hlogs⟩
    have hexactP : recent.filterMap JournalEvent.program? ≠ [] ↔
        earlier.filterMap JournalEvent.program? ≠ [] ∨
          recent.filterMap JournalEvent.program? ≠ [] := ⟨.inr, fun h => h.elim hprogram id⟩
    refine ⟨?_, ?_, ?_, ?_⟩
    · rw [hbitfield, hbitP, hP]
      exact hexactP
    · rw [hbitfield, hbitC, hC]
    · rw [hbitfield, hbitN, hN]
      exact ⟨.inr, fun h => h.elim hnote id⟩
    · rw [hwalk hexactP Iff.rfl, skipN_iff i knows128 earlier recent hnote]
      exact hlogs

theorem Channel.contentsExact_forget (knows128 : Bool) (channel : Channel) :
    channel.forgetLengths.ContentsExact knows128 ↔ channel.ContentsExact knows128 := by
  have hheader : channel.forgetLengths.header.bitfield = channel.header.bitfield := rfl
  have hp : channel.forgetLengths.packedP = channel.packedP := rfl
  constructor
  · rintro ⟨hP, hC, hN, hwalk⟩
    rw [hheader, Channel.packedC_forget] at hC
    rw [hheader, Channel.packedN_forget] at hN
    rw [Channel.octets_forget] at hwalk
    exact ⟨hP, hC, hN, hwalk⟩
  · rintro ⟨hP, hC, hN, hwalk⟩
    refine ⟨hP, ?_, ?_, ?_⟩
    · rw [hheader, Channel.packedC_forget]
      exact hC
    · rw [hheader, Channel.packedN_forget]
      exact hN
    · rw [Channel.octets_forget]
      exact hwalk

/-- In every state the calls lead to, the table of contents of each channel that
is packed is exact just when there is nothing to pack or the events on each
channel are listed. -/
theorem contents_exact_iff (calls : List JournalCall) :
    ∃ j out, run journalCall journalInit calls = .ok (j, out) ∧
      ∀ knows128, j.ContentsExact knows128 ↔
        eventCount (historyOf calls).recent % 256 = 0 ∨
          ∀ channel, Listed knows128 (eventsOn channel (historyOf calls).earlier)
            (eventsOn channel (historyOf calls).recent) := by
  obtain ⟨j, hrun, hj⟩ := run_journal calls
  refine ⟨j, _, hrun, fun knows128 => ?_⟩
  have hdata : journalHasData j = true ↔ ¬ eventCount (historyOf calls).recent % 256 = 0 := by
    rw [← hasData_iff, ← hj.journal_eq]
    rfl
  have hchannels : ∀ i, (∀ channel ∈ j.channels i, channel.ContentsExact knows128) ↔
      Listed knows128 (eventsOn i (historyOf calls).earlier)
        (eventsOn i (historyOf calls).recent) := by
    intro i
    have hforget := hj.channel_eq i
    by_cases hnone : eventsOn i (historyOf calls).earlier = [] ∧
        eventsOn i (historyOf calls).recent = []
    · rw [channelOf, if_pos hnone, Option.map_eq_none_iff] at hforget
      rw [hforget, hnone.1, hnone.2]
      refine iff_of_true (fun channel h => by cases h) ⟨by simp, by simp, fun _ => ?_⟩
      rintro ⟨-, hlength, -⟩
      simp at hlength
    · rw [channelOf, if_neg hnone, Option.map_eq_some_iff] at hforget
      obtain ⟨channel, hchannel, hbody⟩ := hforget
      rw [← contentsExact_iff i knows128, ← hbody, Channel.contentsExact_forget, hchannel]
      simp
  rw [Journal.ContentsExact, hdata]
  simp only [hchannels]
  exact (or_iff_not_imp_left).symm

/-- A program change from before the reset is packed but not listed: a receiver
takes its octets for the control log. -/
theorem old_program_not_listed :
    ∃ j out, run journalCall journalInit
        [.add 2 (.program ⟨0, 0xc, 5⟩), .reset, .add 3 (.control ⟨0, 0xb, 7, 100⟩)] = .ok (j, out) ∧
      ∀ knows128, ¬ j.ContentsExact knows128 := by
  obtain ⟨j, hrun, hj⟩ := run_journal
    [.add 2 (.program ⟨0, 0xc, 5⟩), .reset, .add 3 (.control ⟨0, 0xb, 7, 100⟩)]
  have hdata : journalHasData j = true := by
    have hheader : j.forgetLengths.header.totchan = 1 := by
      rw [hj.journal_eq]
      decide
    rw [journalHasData, decide_eq_true_eq]
    exact lt_of_lt_of_eq (by decide) hheader.symm
  have hchannel : ∃ channel ∈ j.channels 0, channel.header.bitfield &&& chapterPFlag = 0 ∧
      channel.packedP = [0x85, 0, 0] := by
    have hforget : (j.channels 0).map Channel.forgetLengths =
        channelOf 0 [.program ⟨0, 0xc, 5⟩] [.control ⟨0, 0xb, 7, 100⟩] :=
      hj.channel_eq 0
    rw [channelOf, if_neg (by simp), Option.map_eq_some_iff] at hforget
    obtain ⟨channel, hchannel, hbody⟩ := hforget
    have hbits : channel.forgetLengths.header.bitfield &&& chapterPFlag = 0 := by
      rw [hbody]
      decide
    have hpacked : channel.forgetLengths.packedP = [0x85, 0, 0] := by
      rw [hbody]
      decide
    exact ⟨channel, hchannel, hbits, hpacked⟩
  obtain ⟨channel, hmem, hclear, hpacked⟩ := hchannel
  refine ⟨j, _, hrun, fun knows128 h => ?_⟩
  exact (h hdata 0 channel hmem).chapterP.mpr (by simp [hpacked]) hclear

end RaveloxMidi
