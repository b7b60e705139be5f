import RaveloxMidi.ByteMemory
import RaveloxMidi.MidiCommand

/-!
# The chapters of a channel journal

Chapter P holds the last program change, chapter C one log for each controller,
chapter N the note logs and the NoteOff bits. Each packer works out the sizes it
allocates as the source does and copies into the allocation; what it emits is
then given as plain octets. The `len` fields are set by the packers.
-/
namespace RaveloxMidi
open ByteMemory

/-- One flag on top of seven bits. -/
def flagged (flag : Bool) (low : UInt8) : UInt8 := (if flag then 0x80 else 0) ||| (low &&& 0x7f)

structure ChapterP where
  s : UInt8
  program : UInt8
  b : UInt8
  bankMsb : UInt8
  x : UInt8
  bankLsb : UInt8
  deriving Repr, DecidableEq

def chapterPCreate : ChapterP := ⟨0, 0, 0, 0, 0, 0⟩

def chapterPPack (chapter : ChapterP) : List UInt8 :=
  [((chapter.s &&& 0x01) <<< 7) ||| (chapter.program &&& 0x7f),
    ((chapter.b &&& 0x01) <<< 7) ||| (chapter.bankMsb &&& 0x7f),
    ((chapter.x &&& 0x01) <<< 7) ||| (chapter.bankLsb &&& 0x7f)]

/-- The tail of `midi_journal_add_program`: a chapter that is there is set like a new one. -/
def chapterPAdd (midiProgram : MidiProgram) : ChapterP :=
  { chapterPCreate with s := 1, program := midiProgram.program }

def maxChapterCControllers : ℕ := 128

structure ControllerLog where
  s : UInt8
  number : UInt8
  a : UInt8
  t : UInt8
  value : UInt8
  deriving Repr, DecidableEq

structure ChapterC where
  s : UInt8
  len : UInt8
  controllerLog : Fin 128 → ControllerLog

def chapterCCreate : ChapterC := ⟨1, 0, fun _ => ⟨0, 255, 0, 0, 0⟩⟩

def chapterCReset (_ : ChapterC) : ChapterC := ⟨1, 0, fun _ => ⟨1, 255, 0, 0, 0⟩⟩

/-- A log in use carries its own index as its number. -/
def ChapterC.inUse (chapter : ChapterC) (index : Fin 128) : Bool :=
  (chapter.controllerLog index).number == UInt8.ofNat index

/-- The tail of `midi_journal_add_control`, behind its check that the controller
number is below 128. -/
def chapterCAdd (midiControl : MidiControl) (chapter : ChapterC) : ChapterC :=
  let controller : Fin 128 := ⟨midiControl.controllerNumber.toNat % 128, Nat.mod_lt _ (by decide)⟩
  { chapter with
    controllerLog := Function.update chapter.controllerLog controller
      { chapter.controllerLog controller with
        s := 1
        number := UInt8.ofNat controller
        value := midiControl.controllerValue } }

def controllerLogPack (log : ControllerLog) : List UInt8 :=
  [(log.s <<< 7) ||| (log.number &&& 0x7f),
    if log.a = 1 then (log.a <<< 7) ||| (log.t <<< 6) ||| (log.value &&& 0x3f)
    else (log.a <<< 7) ||| (log.value &&& 0x7f)]

/-- The loop over the controllers; `current_size` is a single octet. -/
def chapterCPackLoop (chapter : ChapterC) : List (Fin 128) → UInt8 → List (List UInt8)
  | [], _ => []
  | index :: rest, currentSize =>
    if currentSize < 2 then []
    else if chapter.inUse index then
      controllerLogPack (chapter.controllerLog index) ::
        chapterCPackLoop chapter rest (currentSize - 2)
    else chapterCPackLoop chapter rest currentSize

/-- The number of logs in use, which is at most 128. -/
def ChapterC.count (chapter : ChapterC) : ℕ :=
  ((List.finRange 128).filter chapter.inUse).length

def chapterCPack (chapter : ChapterC) : Except Fault (ChapterC × List UInt8) := do
  let chapter := { chapter with len := UInt8.ofNat chapter.count }
  if chapter.len = 0 then return (chapter, [])
  let size := 1 + chapter.len.toNat * 2
  let currentSize := UInt8.ofNat size
  let header := (chapter.s <<< 7) ||| ((chapter.len - 1) &&& 0x7f)
  let packed ← assemble size
    ([header] :: chapterCPackLoop chapter (List.finRange 128) (currentSize - 1))
  return (chapter, packed)

def maxChapterNNotes : ℕ := 127
def maxOffbits : ℕ := 16

structure ChapterNNote where
  s : Bool
  num : Fin 128
  y : Bool
  velocity : Fin 128
  deriving Repr, DecidableEq

def chapterNNoteCreate : ChapterNNote := ⟨false, 0, false, 0⟩

def chapterNNotePack (note : ChapterNNote) : List UInt8 :=
  [flagged note.s (UInt8.ofNat note.num), flagged note.y (UInt8.ofNat note.velocity)]

structure ChapterNHeader where
  b : Bool
  len : Fin 128
  low : Fin 16
  high : Fin 16
  deriving Repr, DecidableEq

def chapterNHeaderCreate : ChapterNHeader := ⟨false, 0, 0x0f, 0x00⟩

def chapterNHeaderReset (_ : ChapterNHeader) : ChapterNHeader := ⟨false, 0, 0, 0⟩

def chapterNHeaderPack (header : ChapterNHeader) : List UInt8 :=
  [flagged header.b (UInt8.ofNat header.len),
    (UInt8.ofNat header.low <<< 4) ||| UInt8.ofNat header.high]

/-- `num_notes` is the length of `notes`. -/
structure ChapterN where
  header : ChapterNHeader
  notes : List ChapterNNote
  offbits : List UInt8
  deriving Repr, DecidableEq

def chapterNCreate : ChapterN := ⟨chapterNHeaderCreate, [], List.replicate maxOffbits 0⟩

def chapterNReset (chapter : ChapterN) : ChapterN :=
  ⟨chapterNHeaderReset chapter.header, [], List.replicate maxOffbits 0⟩

/-- `header->len = num_notes`, in seven bits. -/
def chapterNSetLen (chapter : ChapterN) : ChapterN :=
  { chapter with header.len := ⟨chapter.notes.length % 128, Nat.mod_lt _ (by decide)⟩ }

/-- The size of the NoteOff octets as the source computes it, possibly negative. -/
def chapterNOffbitsSize (chapter : ChapterN) : ℤ :=
  (chapter.header.high : ℤ) - chapter.header.low + 1

def chapterNOffbits (chapter : ChapterN) : Except Fault (List UInt8) :=
  if chapterNOffbitsSize chapter > 0 then
    load chapter.offbits chapter.header.low (chapterNOffbitsSize chapter).toNat
  else .ok []

def chapterNPack (chapter : ChapterN) : Except Fault (ChapterN × List UInt8) := do
  let chapter := chapterNSetLen chapter
  let packedHeader := chapterNHeaderPack chapter.header
  let noteBuffer ← assemble (2 * chapter.notes.length) (chapter.notes.map chapterNNotePack)
  let offbitsBuffer ← chapterNOffbits chapter
  let size := 2 + 2 * chapter.notes.length + (chapterNOffbitsSize chapter).toNat
  let packed ← assemble size [packedHeader, noteBuffer, offbitsBuffer]
  return (chapter, packed)

/-- The octet of the NoteOff bits that a note belongs to. -/
def noteOffset (note : Fin 128) : Fin 16 := ⟨note / 8, by omega⟩

/-- `1 << shift`. The shift is 255 for the first note of each octet: the value is
undefined, and on the machines in use has no bit inside the octet. -/
def noteOffBit (note : Fin 128) : UInt8 :=
  let shift := UInt8.ofNat note - UInt8.ofNat (noteOffset note) * 8 - 1
  if shift < 8 then 1 <<< shift else 0

/-- What `midi_journal_add_note` does to the chapter. -/
def chapterNAdd (midiNote : MidiNote) (chapter : ChapterN) : ChapterN :=
  let chapter := { chapter with header.b := true }
  if midiNote.command = midiCommandNoteOff then
    let offset := noteOffset midiNote.note
    { chapter with
      header.high := max offset chapter.header.high
      header.low := min offset chapter.header.low
      offbits := chapter.offbits.modify offset (· ||| noteOffBit midiNote.note) }
  else if chapter.notes.length = maxChapterNNotes then chapter
  else
    { chapter with notes := chapter.notes ++
      [{ chapterNNoteCreate with num := midiNote.note, velocity := midiNote.velocity }] }

namespace ChapterC

/-- The octets of chapter C: nothing without a log in use, else the header, the
logs the loop gets round to, and cleared octets up to the size announced. -/
def octets (chapter : ChapterC) : List UInt8 :=
  if chapter.count = 0 then []
  else
    let logs := (chapterCPackLoop chapter (List.finRange 128)
      (UInt8.ofNat (1 + chapter.count * 2) - 1)).flatten
    ((chapter.s <<< 7) ||| ((UInt8.ofNat chapter.count - 1) &&& 0x7f)) ::
      (logs ++ List.replicate (chapter.count * 2 - logs.length) 0)

theorem count_le (chapter : ChapterC) : chapter.count ≤ 128 :=
  le_trans (List.length_filter_le _ _) (by simp)

theorem packLoop_congr {c d : ChapterC} (huse : c.inUse = d.inUse)
    (hlog : ∀ index, c.inUse index = true → c.controllerLog index = d.controllerLog index)
    (indices : List (Fin 128)) (currentSize : UInt8) :
    chapterCPackLoop c indices currentSize = chapterCPackLoop d indices currentSize := by
  induction indices generalizing currentSize with
  | nil => rfl
  | cons index indices ih =>
    simp only [chapterCPackLoop, ih, ← huse]
    by_cases hin : c.inUse index = true
    · simp only [hin, if_true, hlog index hin]
    · simp only [if_neg hin]

/-- The loop writes two octets for each log in use, at most. -/
theorem packLoop_length_le (chapter : ChapterC) (indices : List (Fin 128)) (currentSize : UInt8) :
    (chapterCPackLoop chapter indices currentSize).flatten.length ≤
      2 * (indices.filter chapter.inUse).length := by
  induction indices generalizing currentSize with
  | nil => simp [chapterCPackLoop]
  | cons index indices ih =>
    unfold chapterCPackLoop
    by_cases hin : chapter.inUse index = true
    · have hrest := ih (currentSize - 2)
      rw [List.filter_cons_of_pos hin, List.length_cons]
      split_ifs
      · simp
      · simp only [List.flatten_cons, List.length_append, controllerLogPack, List.length_cons,
          List.length_nil]
        omega
    · have hrest := ih currentSize
      rw [List.filter_cons_of_neg hin]
      split_ifs
      · simp
      · exact hrest

theorem octets_len (chapter : ChapterC) (len : UInt8) :
    { chapter with len := len }.octets = chapter.octets := by
  have hcount : { chapter with len := len }.count = chapter.count := rfl
  have hloop := packLoop_congr (c := { chapter with len := len }) (d := chapter) rfl
    (fun _ _ => rfl)
  simp only [octets, hcount, hloop]

theorem octets_length (chapter : ChapterC) :
    chapter.octets.length = if chapter.count = 0 then 0 else 1 + 2 * chapter.count := by
  have hle := packLoop_length_le chapter (List.finRange 128)
    (UInt8.ofNat (1 + chapter.count * 2) - 1)
  have hcount : ((List.finRange 128).filter chapter.inUse).length = chapter.count := rfl
  unfold octets
  split_ifs
  · rfl
  · simp only [List.length_cons, List.length_append, List.length_replicate]
    omega

theorem pack_eq (chapter : ChapterC) :
    chapterCPack chapter =
      .ok ({ chapter with len := UInt8.ofNat chapter.count }, chapter.octets) := by
  have hcount := chapter.count_le
  have hnat : (UInt8.ofNat chapter.count).toNat = chapter.count := by
    rw [UInt8.toNat_ofNat']
    omega
  have hloop := packLoop_congr (c := { chapter with len := UInt8.ofNat chapter.count })
    (d := chapter) rfl (fun _ _ => rfl)
  by_cases hzero : chapter.count = 0
  · simp [chapterCPack, octets, hzero, pure, Except.pure]
  · have hne : ¬ UInt8.ofNat chapter.count = 0 := by
      intro he
      rw [he] at hnat
      exact hzero hnat.symm
    have hle := packLoop_length_le chapter (List.finRange 128)
      (UInt8.ofNat (1 + chapter.count * 2) - 1)
    have hfilter : ((List.finRange 128).filter chapter.inUse).length = chapter.count := rfl
    have hpacked := assemble_padded (1 + chapter.count * 2)
      ([(chapter.s <<< 7) ||| ((UInt8.ofNat chapter.count - 1) &&& 0x7f)] ::
        chapterCPackLoop chapter (List.finRange 128) (UInt8.ofNat (1 + chapter.count * 2) - 1))
      (by simp only [List.flatten_cons, List.length_append, List.length_singleton]; omega)
    simp only [chapterCPack, if_neg hne, hnat, hloop, hpacked, bind, Except.bind, pure, Except.pure,
      octets, if_neg hzero, List.flatten_cons, List.length_cons, List.nil_append, Nat.add_comm _ 1,
      Nat.add_sub_add_left, List.cons_append]

end ChapterC

namespace ChapterN

/-- Room for the note logs and for every NoteOff octet. -/
structure Valid (chapter : ChapterN) : Prop where
  notes_le : chapter.notes.length ≤ 127
  offbits_length : chapter.offbits.length = 16

/-- The NoteOff octets from LOW to HIGH, if any. -/
def offOctets (chapter : ChapterN) : List UInt8 :=
  (chapter.offbits.drop chapter.header.low).take (chapter.header.high + 1 - chapter.header.low)

def octets (chapter : ChapterN) : List UInt8 :=
  chapterNHeaderPack (chapterNSetLen chapter).header ++
    (chapter.notes.map chapterNNotePack).flatten ++ chapter.offOctets

theorem valid_create : chapterNCreate.Valid := ⟨by decide, by decide⟩

theorem valid_reset (chapter : ChapterN) : (chapterNReset chapter).Valid :=
  ⟨by simp [chapterNReset], by simp [chapterNReset, maxOffbits]⟩

theorem valid_add {chapter : ChapterN} (h : chapter.Valid) (midiNote : MidiNote) :
    (chapterNAdd midiNote chapter).Valid := by
  obtain ⟨hnotes, hoff⟩ := h
  unfold chapterNAdd
  by_cases hoffCommand : midiNote.command = midiCommandNoteOff
  · simp only [if_pos hoffCommand]
    exact ⟨hnotes, by simpa using hoff⟩
  · by_cases hfull : chapter.notes.length = maxChapterNNotes
    · simp only [if_neg hoffCommand, if_pos hfull]
      exact ⟨hnotes, hoff⟩
    · simp only [if_neg hoffCommand, if_neg hfull]
      refine ⟨?_, hoff⟩
      simp only [List.length_append, List.length_singleton]
      unfold maxChapterNNotes at hfull
      omega

@[simp] theorem notes_flatten_length (notes : List ChapterNNote) :
    (notes.map chapterNNotePack).flatten.length = 2 * notes.length := by
  induction notes with
  | nil => rfl
  | cons note notes ih =>
    simp only [List.map_cons, List.flatten_cons, List.length_append, ih, chapterNNotePack,
      List.length_cons, List.length_nil]
    omega

theorem offOctets_length {chapter : ChapterN} (h : chapter.Valid) :
    chapter.offOctets.length = chapter.header.high + 1 - chapter.header.low := by
  have hhigh := chapter.header.high.isLt
  simp only [offOctets, List.length_take, List.length_drop, h.offbits_length]
  omega

theorem octets_length {chapter : ChapterN} (h : chapter.Valid) :
    chapter.octets.length =
      2 + 2 * chapter.notes.length + (chapter.header.high + 1 - chapter.header.low) := by
  simp only [octets, List.length_append, notes_flatten_length, offOctets_length h,
    chapterNHeaderPack, List.length_cons, List.length_nil]

theorem offbits_eq {chapter : ChapterN} (h : chapter.Valid) :
    chapterNOffbits chapter = .ok chapter.offOctets := by
  have hhigh := chapter.header.high.isLt
  have hoff := h.offbits_length
  unfold chapterNOffbits chapterNOffbitsSize
  by_cases horder : (chapter.header.high : ℤ) - chapter.header.low + 1 > 0
  · have hsize : ((chapter.header.high : ℤ) - chapter.header.low + 1).toNat =
        chapter.header.high + 1 - chapter.header.low := by omega
    rw [if_pos horder, hsize, load_ok (by omega)]
    rfl
  · have hsize : (chapter.header.high : ℕ) + 1 - chapter.header.low = 0 := by omega
    rw [if_neg horder, offOctets, hsize, List.take_zero]

theorem pack_eq {chapter : ChapterN} (h : chapter.Valid) :
    chapterNPack chapter = .ok (chapterNSetLen chapter, chapter.octets) := by
  have hnotes := assemble_ok _ _ (notes_flatten_length chapter.notes)
  have hoff : chapterNOffbits (chapterNSetLen chapter) = .ok chapter.offOctets :=
    offbits_eq (show (chapterNSetLen chapter).Valid from ⟨h.notes_le, h.offbits_length⟩)
  have hsize : (chapterNOffbitsSize (chapterNSetLen chapter)).toNat = chapter.offOctets.length := by
    simp only [chapterNOffbitsSize, chapterNSetLen, offOctets_length h]
    omega
  have hall := assemble_ok (2 + 2 * chapter.notes.length + chapter.offOctets.length)
    ([chapterNHeaderPack (chapterNSetLen chapter).header,
      (chapter.notes.map chapterNNotePack).flatten, chapter.offOctets])
    (by
      simp only [List.flatten_cons, List.flatten_nil, List.length_append, List.length_nil,
        notes_flatten_length, chapterNHeaderPack, List.length_cons]
      omega)
  have hkept : (chapterNSetLen chapter).notes = chapter.notes := rfl
  simp only [chapterNPack, hkept, hnotes, hoff, hsize, hall, bind, Except.bind, pure, Except.pure,
    List.flatten_cons, List.flatten_nil, List.append_nil, octets, List.append_assoc]

end ChapterN
end RaveloxMidi
