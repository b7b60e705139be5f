import RaveloxMidi.OffBits

/-!
# The note logs of chapter N

A chapter has room for 127 note logs, and a NoteOn finds no place in one that is full. The
logs packed are those of the first 127 NoteOns, in their order, so that the last log of a
note is its latest NoteOn unless that one came too late.
-/
namespace RaveloxMidi
open ByteMemory Transducer

/-- The number and velocity that a log is about. -/
def noteLogOf (midiNote : MidiNote) : ℕ × ℕ := (midiNote.note.val, midiNote.velocity.val)

/-- Number and velocity of each note log of two octets, without the S and Y bits. -/
def readNotes : List UInt8 → List (ℕ × ℕ)
  | first :: second :: rest =>
    ((first &&& 0x7f).toNat, (second &&& 0x7f).toNat) :: readNotes rest
  | _ => []

/-- The logs that the header announces: LEN = 127 stands for 128 with LOW = 15 and HIGH = 0. -/
def noteLogCount (packed : List UInt8) : ℕ :=
  let len := ((packed.headD 0) &&& 0x7f).toNat
  let low := ((packed.drop 1).headD 0).toNat / 16
  let high := ((packed.drop 1).headD 0).toNat % 16
  if len = 127 ∧ low = 15 ∧ high = 0 then 128 else len

/-- The given number of logs behind the header. -/
def noteLogs (packed : List UInt8) (count : ℕ) : List (ℕ × ℕ) :=
  readNotes ((packed.drop 2).take (2 * count))

/-- The logs that a receiver finds, if there are as many as the header announces. -/
def receivedNotes (packed : List UInt8) : Option (List (ℕ × ℕ)) :=
  if 2 + 2 * noteLogCount packed ≤ packed.length then some (noteLogs packed (noteLogCount packed))
  else none

/-- The latest event of its note, and a NoteOn that finds room for a log. -/
def LatestLogged (notes : List MidiNote) (midiNote : MidiNote) : Prop :=
  ∃ before after, notes = before ++ midiNote :: after ∧
    midiNote.command ≠ midiCommandNoteOff ∧ (∀ later ∈ after, later.note ≠ midiNote.note) ∧
    (before.filter fun earlier => earlier.command ≠ midiCommandNoteOff).length < 127

/-- The last log kept of a note is that of its latest event. -/
theorem LatestLogged.getLast {notes : List MidiNote} {midiNote : MidiNote}
    (h : LatestLogged notes midiNote) :
    ((loggedNotes notes).filter fun logged => logged.note = midiNote.note).getLast? =
      some midiNote := by
  obtain ⟨before, after, rfl, hon, hafter, hroom⟩ := h
  obtain ⟨rest, hrest⟩ : ∃ rest,
      127 - (before.filter fun earlier => earlier.command ≠ midiCommandNoteOff).length =
        rest + 1 := ⟨_, (Nat.succ_pred_eq_of_pos (by omega)).symm⟩
  rw [loggedNotes, List.filter_append, List.filter_cons_of_pos (by simpa using hon),
    List.take_append, List.take_of_length_le hroom.le, hrest, List.take_succ_cons,
    List.filter_append, List.filter_cons_of_pos (by simp)]
  have hnone : ((after.filter fun later => later.command ≠ midiCommandNoteOff).take rest).filter
      (fun logged => logged.note = midiNote.note) = [] := by
    rw [List.filter_eq_nil_iff]
    intro later hlater
    have hmem := (List.mem_filter.mp (List.mem_of_mem_take hlater)).1
    simpa using hafter later hmem
  rw [hnone]
  simp

namespace ChapterN

theorem readNotes_packed (notes : List ChapterNNote) :
    readNotes (notes.map chapterNNotePack).flatten =
      notes.map fun note => (note.num.val, note.velocity.val) := by
  induction notes with
  | nil => rfl
  | cons note notes ih =>
    simp only [List.map_cons, List.flatten_cons, chapterNNotePack, List.cons_append,
      List.nil_append, readNotes, len_field, ih]

/-- As many logs as notes lie behind the header. -/
theorem noteLogs_octets (chapter : ChapterN) :
    noteLogs chapter.octets chapter.notes.length =
      chapter.notes.map fun note => (note.num.val, note.velocity.val) := by
  have hdrop : chapter.octets.drop 2 =
      (chapter.notes.map chapterNNotePack).flatten ++ chapter.offOctets := rfl
  rw [noteLogs, hdrop, ← notes_flatten_length, List.take_left, readNotes_packed]

section
variable {chapter : ChapterN} (h : chapter.Valid)
include h

theorem noteLogCount_octets :
    noteLogCount chapter.octets =
      if chapter.notes.length = 127 ∧ chapter.header.low = 15 ∧ chapter.header.high = 0 then 128
      else chapter.notes.length := by
  have hfull : (chapter.header.low.val = 15 ↔ chapter.header.low = 15) ∧
      (chapter.header.high.val = 0 ↔ chapter.header.high = 0) := ⟨by omega, by omega⟩
  simp only [noteLogCount, header_fields h, hfull]

/-- A receiver finds the logs written, unless it takes them for 128. -/
theorem receivedNotes_octets
    (hplain : ¬ (chapter.notes.length = 127 ∧ chapter.header.low = 15 ∧
      chapter.header.high = 0)) :
    receivedNotes chapter.octets = some (noteLogs chapter.octets chapter.notes.length) := by
  have hlength := octets_length h
  rw [receivedNotes, noteLogCount_octets h, if_neg hplain, if_pos (by omega)]

end

end ChapterN

/-- The packed logs are those of the NoteOns that there was room for, and so the last one of
a note is that of its latest event, if that is among them. -/
structure ChapterN.LogsNotes (chapter : ChapterN) (packed : List UInt8)
    (notes : List MidiNote) : Prop where
  packs : (chapterNPack chapter).map Prod.snd = .ok packed
  written : noteLogs packed chapter.notes.length = (loggedNotes notes).map noteLogOf
  latest : ∀ midiNote, LatestLogged notes midiNote →
    ((noteLogs packed chapter.notes.length).filter fun log =>
      log.1 = midiNote.note.val).getLast? = some (noteLogOf midiNote)

theorem last_logged {notes : List MidiNote} {midiNote : MidiNote}
    (h : LatestLogged notes midiNote) :
    (((loggedNotes notes).map noteLogOf).filter fun log =>
      log.1 = midiNote.note.val).getLast? = some (noteLogOf midiNote) := by
  have hsame : (fun logged : MidiNote => decide ((noteLogOf logged).1 = midiNote.note.val)) =
      fun logged : MidiNote => decide (logged.note = midiNote.note) := by
    funext logged
    exact decide_eq_decide.mpr Fin.ext_iff.symm
  rw [List.filter_map, List.getLast?_map, Function.comp_def, hsame, h.getLast, Option.map_some]

namespace Journal.Reflects
variable {j : Journal} {calls : List JournalCall} (hj : j.Reflects (historyOf calls))
include hj

/-- The chapter has logged the notes since it was created or last reset. -/
theorem notes_eq {i : Fin 16} {chapter : ChapterN} (hchapter : chapter ∈ j.chapterNOn i) :
    chapter.notes.map (fun note => (note.num.val, note.velocity.val)) =
      (loggedNotes (notesSince calls i)).map noteLogOf := by
  obtain ⟨start, -, hempty, -, hfold⟩ := chapterN_fold hj hchapter
  have hnotes := ChapterN.fold_notes hempty (notesSince calls i)
  rw [← hfold] at hnotes
  rw [hnotes, List.map_map]
  rfl

theorem logsNotes {i : Fin 16} {chapter : ChapterN} (hchapter : chapter ∈ j.chapterNOn i) :
    chapter.LogsNotes chapter.octets (notesSince calls i) := by
  have hwritten : noteLogs chapter.octets chapter.notes.length =
      (loggedNotes (notesSince calls i)).map noteLogOf := by
    rw [ChapterN.noteLogs_octets, notes_eq hj hchapter]
  refine ⟨chapterN_pack hj hchapter, hwritten, fun midiNote hlatest => ?_⟩
  rw [hwritten]
  exact last_logged hlatest

/-- LEN, LOW and HIGH are read as they are meant, unless a new chapter is full of note logs. -/
theorem receivedNotes_eq {i : Fin 16} {chapter : ChapterN} (hchapter : chapter ∈ j.chapterNOn i)
    (hfull : ¬ FullOfLogs (eventsOn i (historyOf calls).earlier)
      (eventsOn i (historyOf calls).recent)) :
    receivedNotes chapter.octets = some (noteLogs chapter.octets chapter.notes.length) := by
  refine ChapterN.receivedNotes_octets (chapterN_valid hj hchapter) fun hspecial => hfull ?_
  have heq := chapterN_eq hj i
  rw [Option.mem_def.mp hchapter, Option.map_some] at heq
  exact (chapterNOf_full _ _).mp ⟨_, heq.symm, hspecial⟩

end Journal.Reflects

/-- After any calls on a journal, the note logs packed for a channel are those of the first 127
NoteOns since its chapter N was created or last reset: the last log of each note is that of its
latest event, if this is one of them, and a receiver finds exactly these logs, except perhaps
in a chapter that was never reset and is full of them without a NoteOff. -/
theorem note_logs_packed (calls : List JournalCall) :
    ∃ j out, run journalCall journalInit calls = .ok (j, out) ∧ ∀ i,
      (notesSince calls i ≠ [] → (j.chapterNOn i).isSome = true) ∧
      ∀ chapter ∈ j.chapterNOn i, ∃ packed, chapter.LogsNotes packed (notesSince calls i) ∧
        (¬ FullOfLogs (eventsOn i (historyOf calls).earlier)
            (eventsOn i (historyOf calls).recent) →
          receivedNotes packed = some (noteLogs packed chapter.notes.length)) := by
  obtain ⟨j, hrun, hj⟩ := run_journal calls
  refine ⟨j, _, hrun, fun i => ⟨fun hnotes => ?_, fun chapter hchapter => ?_⟩⟩
  · exact Option.isSome_iff_ne_none.mpr fun hnone => hnotes (hj.no_notes hnone)
  · exact ⟨chapter.octets, hj.logsNotes hchapter, hj.receivedNotes_eq hchapter⟩

/-- A NoteOn after 127 others. -/
def lateNotes : List MidiNote :=
  ⟨0, midiCommandNoteOff, 61, 0⟩ :: List.replicate 127 ⟨0, midiCommandNoteOn, 60, 64⟩ ++
    [⟨0, midiCommandNoteOn, 61, 100⟩]

/-- There is no log for it. -/
theorem late_note_lost :
    ∃ j out chapter packed,
      run journalCall journalInit (lateNotes.map fun note => .add 1 (.note note)) =
        .ok (j, out) ∧
      latestEvent (notesSince (lateNotes.map fun note => .add 1 (.note note)) 0) 61 =
        some ⟨0, midiCommandNoteOn, 61, 100⟩ ∧
      j.chapterNOn 0 = some chapter ∧ (chapterNPack chapter).map Prod.snd = .ok packed ∧
      ∀ log ∈ noteLogs packed chapter.notes.length, log.1 ≠ 61 := by
  have hnotes : notesSince (lateNotes.map fun note => .add 1 (.note note)) 0 = lateNotes := by
    decide +kernel
  have hlogs : ∀ log ∈ (loggedNotes lateNotes).map noteLogOf, log.1 ≠ 61 := by decide +kernel
  obtain ⟨j, hrun, hj⟩ := run_journal (lateNotes.map fun note => .add 1 (.note note))
  have hne : j.chapterNOn 0 ≠ none := by
    intro hnone
    have hempty := hj.no_notes hnone
    rw [hnotes] at hempty
    cases hempty
  obtain ⟨chapter, hchapter⟩ := Option.ne_none_iff_exists'.mp hne
  have hlogged := hj.logsNotes hchapter
  refine ⟨j, _, chapter, _, hrun, ?_, hchapter, hlogged.packs, ?_⟩
  · rw [hnotes]
    decide +kernel
  · rw [hlogged.written, hnotes]
    exact hlogs

end RaveloxMidi
