import RaveloxMidi.JournalContents

/-!
# The NoteOff bits of chapter N

A receiver finds note 8k + i in octet k, the first of the eight notes at the most
significant bit. The journal sets the bits from the other end of the octet, one
place further down, and never clears one. So the first note of an octet is not
told at all, and any other is told as the note opposite to it.
-/
namespace RaveloxMidi
open ByteMemory Transducer

/-- Whether a receiver of a chapter N is told that a note is off. -/
def announcesOff (packed : List UInt8) (note : Fin 128) : Bool :=
  let len := ((packed.headD 0) &&& 0x7f).toNat
  let low := ((packed.drop 1).headD 0).toNat / 16
  let high := ((packed.drop 1).headD 0).toNat % 16
  let octet := note.val / 8
  decide (low ≤ octet ∧ octet ≤ high) &&
    ((packed.drop (2 + 2 * len + (octet - low))).headD 0).toNat.testBit (7 - note.val % 8)

/-- The note was switched off at some time. -/
def HadOff (notes : List MidiNote) (note : Fin 128) : Prop :=
  ∃ midiNote ∈ notes, midiNote.note = note ∧ midiNote.command = midiCommandNoteOff

/-- The most recent event of a note. -/
def latestEvent (notes : List MidiNote) (note : Fin 128) : Option MidiNote :=
  (notes.filter fun midiNote => midiNote.note = note).getLast?

def LatestOff (notes : List MidiNote) (note : Fin 128) : Prop :=
  ∃ midiNote ∈ latestEvent notes note, midiNote.command = midiCommandNoteOff

theorem LatestOff.hadOff {notes : List MidiNote} {note : Fin 128} (h : LatestOff notes note) :
    HadOff notes note := by
  obtain ⟨midiNote, hlatest, hoff⟩ := h
  have hmem := List.mem_filter.mp (List.mem_of_getLast? hlatest)
  exact ⟨midiNote, hmem.1, of_decide_eq_true hmem.2, hoff⟩

/-- The note that the bit of a note stands for. -/
def oppositeNote (note : Fin 128) : Fin 128 :=
  ⟨8 * (note.val / 8) + (8 - note.val % 8) % 8, by omega⟩

/-- What the note events must be like for the bits to tell the truth. -/
structure OffsMirrored (notes : List MidiNote) : Prop where
  first : ∀ note : Fin 128, note.val % 8 = 0 → ¬ LatestOff notes note
  final : ∀ note : Fin 128, note.val % 8 ≠ 0 → HadOff notes note → LatestOff notes note
  opposite : ∀ note : Fin 128, note.val % 8 ≠ 0 → HadOff notes note →
    HadOff notes (oppositeNote note)

namespace ChapterN

/-- The bits are those of the NoteOffs so far, all of them between LOW and HIGH. -/
structure RecordsOffs (chapter : ChapterN) (notes : List MidiNote) : Prop where
  bits : ∀ octet bit : ℕ, (chapter.offbits.getD octet 0).toNat.testBit bit = true ↔
    ∃ midiNote ∈ notes, midiNote.command = midiCommandNoteOff ∧
      midiNote.note.val / 8 = octet ∧ midiNote.note.val % 8 = bit + 1
  window : ∀ midiNote ∈ notes, midiNote.command = midiCommandNoteOff →
    chapter.header.low.val ≤ midiNote.note.val / 8 ∧
      midiNote.note.val / 8 ≤ chapter.header.high.val

theorem records_blank {chapter : ChapterN} (h : chapter.offbits = List.replicate 16 0) :
    chapter.RecordsOffs [] := by
  constructor
  · intro octet bit
    have hzero : chapter.offbits.getD octet 0 = 0 := by
      rw [h, List.getD_eq_getElem?_getD, List.getElem?_replicate]
      split_ifs <;> rfl
    rw [hzero]
    simp
  · intro midiNote hmem
    cases hmem

/-- The bit of a note inside its octet, none for the first note. -/
theorem noteOffBit_testBit (note : Fin 128) (bit : ℕ) :
    (noteOffBit note).toNat.testBit bit = true ↔ note.val % 8 = bit + 1 := by
  by_cases hsmall : bit < 8
  · have hall : ∀ (note : Fin 128) (bit : Fin 8),
        (noteOffBit note).toNat.testBit bit = true ↔ note.val % 8 = bit.val + 1 := by
      decide +kernel
    exact hall note ⟨bit, hsmall⟩
  · have hlt : (noteOffBit note).toNat < 2 ^ bit :=
      lt_of_lt_of_le (noteOffBit note).toNat_lt (Nat.pow_le_pow_right (by omega) (by omega))
    rw [Nat.testBit_lt_two_pow hlt]
    simp only [Bool.false_eq_true, false_iff]
    omega

/-- One event more: a NoteOff adds its bit and widens the window, anything else
leaves both alone. -/
theorem records_add {chapter : ChapterN} {notes : List MidiNote} (hvalid : chapter.Valid)
    (h : chapter.RecordsOffs notes) (midiNote : MidiNote) :
    (chapterNAdd midiNote chapter).RecordsOffs (notes ++ [midiNote]) := by
  by_cases hoff : midiNote.command = midiCommandNoteOff
  · have hoctet : (noteOffset midiNote.note).val = midiNote.note.val / 8 := rfl
    have hlength := hvalid.offbits_length
    constructor
    · intro octet bit
      have hcell : ((chapterNAdd midiNote chapter).offbits.getD octet 0).toNat.testBit bit = true ↔
          (chapter.offbits.getD octet 0).toNat.testBit bit = true ∨
            (midiNote.note.val / 8 = octet ∧ midiNote.note.val % 8 = bit + 1) := by
        simp only [chapterNAdd, if_pos hoff, List.getD_eq_getElem?_getD, List.getElem?_modify,
          hoctet]
        by_cases hsame : midiNote.note.val / 8 = octet
        · have hin : octet < chapter.offbits.length := by omega
          simp only [List.getElem?_eq_getElem hin, Option.map_eq_map, Option.map_some,
            Option.getD_some, hsame, if_true, UInt8.toNat_or, Nat.testBit_or, Bool.or_eq_true,
            noteOffBit_testBit, true_and]
        · simp [hsame]
      rw [hcell, h.bits]
      constructor
      · rintro (⟨other, hmem, hother⟩ | hnew)
        · exact ⟨other, List.mem_append_left _ hmem, hother⟩
        · exact ⟨midiNote, by simp, hoff, hnew⟩
      · rintro ⟨other, hmem, hother⟩
        rcases List.mem_append.mp hmem with hold | hnew
        · exact .inl ⟨other, hold, hother⟩
        · cases List.mem_singleton.mp hnew
          exact .inr hother.2
    · intro other hmem hotherOff
      have hlow : (chapterNAdd midiNote chapter).header.low =
          min (noteOffset midiNote.note) chapter.header.low := by
        simp only [chapterNAdd, if_pos hoff]
      have hhigh : (chapterNAdd midiNote chapter).header.high =
          max (noteOffset midiNote.note) chapter.header.high := by
        simp only [chapterNAdd, if_pos hoff]
      rw [hlow, hhigh, Fin.coe_min, Fin.coe_max, hoctet]
      rcases List.mem_append.mp hmem with hold | hnew
      · have hwindow := h.window other hold hotherOff
        omega
      · cases List.mem_singleton.mp hnew
        omega
  · have hkept : (chapterNAdd midiNote chapter).offbits = chapter.offbits ∧
        (chapterNAdd midiNote chapter).header.low = chapter.header.low ∧
        (chapterNAdd midiNote chapter).header.high = chapter.header.high := by
      by_cases hfull : chapter.notes.length = maxChapterNNotes <;>
        simp [chapterNAdd, hoff, hfull]
    constructor
    · intro octet bit
      rw [hkept.1, h.bits]
      simp [or_and_right, exists_or, hoff]
    · intro other hmem hotherOff
      rw [hkept.2.1, hkept.2.2]
      rcases List.mem_append.mp hmem with hold | hnew
      · exact h.window other hold hotherOff
      · cases List.mem_singleton.mp hnew
        exact absurd hotherOff hoff

/-- All the events, from the last one. -/
theorem records_fold {chapter : ChapterN} (hvalid : chapter.Valid)
    (h : chapter.offbits = List.replicate 16 0) (notes : List MidiNote) :
    (notes.foldl (fun chapter event => chapterNAdd event chapter) chapter).RecordsOffs notes := by
  induction notes using List.reverseRecOn with
  | nil => exact records_blank h
  | append_singleton notes note ih =>
    rw [List.foldl_append, List.foldl_cons, List.foldl_nil]
    exact records_add (valid_fold notes hvalid) ih note

/-- The octet of a note lies behind the header and the logs. -/
theorem announcesOff_octets {chapter : ChapterN} (h : chapter.Valid) (note : Fin 128) :
    announcesOff chapter.octets note = true ↔
      (chapter.header.low.val ≤ note.val / 8 ∧ note.val / 8 ≤ chapter.header.high.val) ∧
        (chapter.offbits.getD (note.val / 8) 0).toNat.testBit (7 - note.val % 8) = true := by
  obtain ⟨front, hfront⟩ : ∃ front, front = chapterNHeaderPack (chapterNSetLen chapter).header ++
    (chapter.notes.map chapterNNotePack).flatten := ⟨_, rfl⟩
  have hlength : front.length = 2 + 2 * chapter.notes.length := by
    rw [hfront, List.length_append, notes_flatten_length]
    rfl
  have hoctets : chapter.octets = front ++ chapter.offOctets := by rw [octets, hfront]
  simp only [announcesOff, header_fields h, Bool.and_eq_true, decide_eq_true_eq]
  refine and_congr_right fun hwindow => ?_
  have hcell : (chapter.octets.drop (2 + 2 * chapter.notes.length +
      (note.val / 8 - chapter.header.low.val))).headD 0 =
        chapter.offbits.getD (note.val / 8) 0 := by
    rw [hoctets, ← hlength, List.drop_append, List.drop_eq_nil_of_le (by omega),
      List.nil_append, Nat.add_sub_cancel_left, List.headD_eq_head?_getD, List.head?_drop,
      offOctets, List.getElem?_take_of_lt (by omega), List.getElem?_drop,
      List.getD_eq_getElem?_getD]
    congr 2
    omega
  rw [hcell]

/-- What the bits tell of a note is what happened to the opposite one. -/
theorem announcesOff_iff {chapter : ChapterN} {notes : List MidiNote} (hvalid : chapter.Valid)
    (h : chapter.RecordsOffs notes) (note : Fin 128) :
    announcesOff chapter.octets note = true ↔
      note.val % 8 ≠ 0 ∧ HadOff notes (oppositeNote note) := by
  rw [announcesOff_octets hvalid, h.bits]
  constructor
  · rintro ⟨-, midiNote, hmem, hoff, hoctet, hbit⟩
    have hnonzero : note.val % 8 ≠ 0 := by omega
    refine ⟨hnonzero, midiNote, hmem, ?_, hoff⟩
    apply Fin.ext
    simp only [oppositeNote]
    omega
  · rintro ⟨hnonzero, midiNote, hmem, hnote, hoff⟩
    have hvalue := congrArg Fin.val hnote
    simp only [oppositeNote] at hvalue
    have hoctet : midiNote.note.val / 8 = note.val / 8 := by omega
    have hwindow := h.window midiNote hmem hoff
    rw [hoctet] at hwindow
    exact ⟨hwindow, midiNote, hmem, hoff, hoctet, by omega⟩

end ChapterN

/-- The bits tell exactly the notes whose most recent event is a NoteOff if and only
if the events are mirrored. -/
theorem announces_latest_iff (notes : List MidiNote) :
    (∀ note : Fin 128, (note.val % 8 ≠ 0 ∧ HadOff notes (oppositeNote note)) ↔
        LatestOff notes note) ↔ OffsMirrored notes := by
  have hopposite : ∀ note : Fin 128, oppositeNote (oppositeNote note) = note := by
    decide +kernel
  have hinside : ∀ note : Fin 128, note.val % 8 ≠ 0 → (oppositeNote note).val % 8 ≠ 0 := by
    decide +kernel
  constructor
  · intro h
    have hback : ∀ note : Fin 128, note.val % 8 ≠ 0 → HadOff notes note →
        HadOff notes (oppositeNote note) := by
      intro note hnonzero hoff
      rw [← hopposite note] at hoff
      exact ((h (oppositeNote note)).mp ⟨hinside note hnonzero, hoff⟩).hadOff
    constructor
    · intro note hzero hlatest
      exact ((h note).mpr hlatest).1 hzero
    · intro note hnonzero hoff
      exact (h note).mp ⟨hnonzero, hback note hnonzero hoff⟩
    · exact hback
  · intro h note
    constructor
    · rintro ⟨hnonzero, hoff⟩
      have hown := h.opposite (oppositeNote note) (hinside note hnonzero) hoff
      rw [hopposite] at hown
      exact h.final note hnonzero hown
    · intro hlatest
      have hnonzero : note.val % 8 ≠ 0 := fun hzero => h.first note hzero hlatest
      exact ⟨hnonzero, h.opposite note hnonzero hlatest.hadOff⟩

/-- The note events on a channel since its chapter N was created or last reset. -/
def notesSince (calls : List JournalCall) (channel : Fin 16) : List MidiNote :=
  (eventsOn channel (historyOf calls).recent).filterMap JournalEvent.note?

/-- The chapter N of a channel, if there is one. -/
def Journal.chapterNOn (j : Journal) (channel : Fin 16) : Option ChapterN :=
  (j.channels channel).bind Channel.chapterN

/-- What holds of the octets that a chapter is packed as, if there is one. -/
theorem packed_iff {α : Type} {chapters : Option α} {pack : α → Except Fault (α × List UInt8)}
    {octets : α → List UInt8} {Holds : List UInt8 → Prop}
    (hpack : ∀ chapter ∈ chapters, (pack chapter).map Prod.snd = .ok (octets chapter)) :
    (∀ chapter ∈ chapters, ∃ packed, (pack chapter).map Prod.snd = .ok packed ∧ Holds packed) ↔
      ∀ chapter ∈ chapters, Holds (octets chapter) := by
  constructor
  · intro h chapter hchapter
    obtain ⟨packed, hpacked, hholds⟩ := h chapter hchapter
    cases (hpack chapter hchapter).symm.trans hpacked
    exact hholds
  · exact fun h chapter hchapter => ⟨_, hpack chapter hchapter, h chapter hchapter⟩

/-- What a packed chapter N tells of each note is what its most recent event was. -/
def Journal.OffsExact (j : Journal) (channel : Fin 16) (notes : List MidiNote) : Prop :=
  ∀ chapter ∈ j.chapterNOn channel, ∃ packed,
    (chapterNPack chapter).map Prod.snd = .ok packed ∧
      ∀ note, announcesOff packed note = true ↔ LatestOff notes note

namespace Journal.Reflects
variable {j : Journal} {calls : List JournalCall} (hj : j.Reflects (historyOf calls))
include hj

theorem chapterN_eq (i : Fin 16) :
    (j.chapterNOn i).map (fun chapter => { chapter with header.len := 0 }) =
      chapterNOf (eventsOn i (historyOf calls).earlier) (eventsOn i (historyOf calls).recent) :=
  hj.chapter_eq i (fun _ => rfl) (fun _ _ => rfl) rfl

theorem chapterN_valid {i : Fin 16} {chapter : ChapterN} (hchapter : chapter ∈ j.chapterNOn i) :
    chapter.Valid := by
  obtain ⟨channel, hchannel, hmem⟩ := Option.bind_eq_some_iff.mp hchapter
  exact hj.valid i channel hchannel chapter hmem

theorem chapterN_pack {i : Fin 16} {chapter : ChapterN} (hchapter : chapter ∈ j.chapterNOn i) :
    (chapterNPack chapter).map Prod.snd = .ok chapter.octets := by
  rw [ChapterN.pack_eq (chapterN_valid hj hchapter)]
  rfl

/-- The chapter is what the notes since it was created or last reset have made of a clear one. -/
theorem chapterN_fold {i : Fin 16} {chapter : ChapterN} (hchapter : chapter ∈ j.chapterNOn i) :
    ∃ start : ChapterN, start.Valid ∧ start.notes = [] ∧
      start.offbits = List.replicate 16 0 ∧
      { chapter with header.len := 0 } =
        (notesSince calls i).foldl (fun chapter event => chapterNAdd event chapter) start := by
  have heq := chapterN_eq hj i
  rw [Option.mem_def.mp hchapter, Option.map_some, chapterNOf] at heq
  obtain ⟨start, rfl | rfl, hfold⟩ := chapterOf_eq_some heq.symm
  · exact ⟨_, ChapterN.valid_create, rfl, rfl, hfold.symm⟩
  · exact ⟨_, ChapterN.valid_reset chapterNCreate, rfl, rfl, hfold.symm⟩

/-- The chapter holds the notes since it was created or last reset. -/
theorem records {i : Fin 16} {chapter : ChapterN} (hchapter : chapter ∈ j.chapterNOn i) :
    chapter.RecordsOffs (notesSince calls i) := by
  obtain ⟨start, hvalid, -, hoffbits, hfold⟩ := chapterN_fold hj hchapter
  have hrecords := ChapterN.records_fold hvalid hoffbits (notesSince calls i)
  rw [← hfold] at hrecords
  exact ⟨hrecords.bits, hrecords.window⟩

theorem no_notes {i : Fin 16} (hnone : j.chapterNOn i = none) : notesSince calls i = [] := by
  have heq := chapterN_eq hj i
  rw [hnone, Option.map_none, chapterNOf, chapterOf] at heq
  split_ifs at heq with hempty
  exact hempty.2

/-- The bits of a channel are exact if and only if its notes are mirrored. -/
theorem offsExact_iff (i : Fin 16) :
    j.OffsExact i (notesSince calls i) ↔ OffsMirrored (notesSince calls i) := by
  rw [← announces_latest_iff, OffsExact, packed_iff fun _ => chapterN_pack hj]
  cases hchapter : j.chapterNOn i with
  | none =>
    rw [no_notes hj hchapter]
    simp [HadOff, LatestOff, latestEvent]
  | some chapter =>
    have hannounces :=
      ChapterN.announcesOff_iff (chapterN_valid hj hchapter) (records hj hchapter)
    simp only [Option.mem_def, Option.some.injEq, forall_eq', hannounces]

end Journal.Reflects

/-- After any calls on a journal, the NoteOff bits of a channel tell exactly the notes
whose most recent event is a NoteOff if and only if no first note of an octet ends with
one, no other note that had one ends differently, and those come with their opposites. -/
theorem offbits_exact_iff (calls : List JournalCall) :
    ∃ j packed, run journalCall journalInit calls = .ok (j, packed) ∧
      ∀ i, j.OffsExact i (notesSince calls i) ↔ OffsMirrored (notesSince calls i) := by
  obtain ⟨j, hrun, hj⟩ := run_journal calls
  exact ⟨j, _, hrun, hj.offsExact_iff⟩

/-- The NoteOff of note 61 is told as one of note 59. -/
theorem noteOff_misannounced :
    ∃ j packed chapter octets,
      run journalCall journalInit [.add 1 (.note ⟨0, midiCommandNoteOff, 61, 0⟩)] =
        .ok (j, packed) ∧
      j.chapterNOn 0 = some chapter ∧ (chapterNPack chapter).map Prod.snd = .ok octets ∧
      announcesOff octets 61 = false ∧ announcesOff octets 59 = true ∧
      LatestOff (notesSince [.add 1 (.note ⟨0, midiCommandNoteOff, 61, 0⟩)] 0) 61 ∧
      ¬ LatestOff (notesSince [.add 1 (.note ⟨0, midiCommandNoteOff, 61, 0⟩)] 0) 59 := by
  refine ⟨_, _, _, _, rfl, rfl, rfl, ?_, ?_, ?_, ?_⟩
  · decide +kernel
  · decide +kernel
  · exact ⟨⟨0, midiCommandNoteOff, 61, 0⟩, by decide, rfl⟩
  · rintro ⟨midiNote, hlatest, -⟩
    cases hlatest

end RaveloxMidi
