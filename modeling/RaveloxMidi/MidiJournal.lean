import RaveloxMidi.Transducer
import RaveloxMidi.JournalChapters

/-!
# The recovery journal

A journal has one optional channel journal for each of the sixteen channels; a
channel journal has three optional chapters. The add functions create what is
missing and set the table of contents; the reset functions walk the same tree
and keep every node. What the packers emit is given as plain octets, for which
the `len` fields they leave behind do not matter.
-/
namespace RaveloxMidi
open ByteMemory Transducer

def chapterPFlag : UInt8 := 0x80
def chapterCFlag : UInt8 := 0x40
def chapterNFlag : UInt8 := 0x08

structure ChannelHeader where
  s : Bool
  chan : Fin 16
  h : Bool
  len : Fin 1024
  bitfield : UInt8
  deriving Repr, DecidableEq

structure Channel where
  header : ChannelHeader
  chapterP : Option ChapterP
  chapterN : Option ChapterN
  chapterC : Option ChapterC

def journalHeaderSFlag : UInt8 := 0x08
def journalHeaderAFlag : UInt8 := 0x02

structure JournalHeader where
  bitfield : UInt8
  totchan : UInt8
  seq : UInt16
  deriving Repr, DecidableEq

structure Journal where
  header : JournalHeader
  channels : Fin 16 → Option Channel

def channelHeaderCreate : ChannelHeader := ⟨true, 0, false, 0, 0⟩

def channelHeaderReset (header : ChannelHeader) : ChannelHeader :=
  { header with chan := 0, s := true, h := false, bitfield := 0 }

/-- The bit fields do not overlap, so the source's `|=` are sums. -/
def channelHeaderPack (header : ChannelHeader) : List UInt8 :=
  let chan := if header.chan = 0 then 0 else header.chan.val - 1
  octets 2 (header.s.toNat * 2 ^ 15 + chan * 2 ^ 11 + header.h.toNat * 2 ^ 10 + header.len) ++
    [header.bitfield]

def channelCreate : Channel := ⟨channelHeaderCreate, none, none, none⟩

/-- Chapter P is not touched. -/
def channelJournalReset (channel : Channel) : Channel :=
  { channel with
    header := channelHeaderReset channel.header
    chapterN := channel.chapterN.map chapterNReset
    chapterC := channel.chapterC.map chapterCReset }

/-- A chapter is packed if it is there; an absent one has size zero. -/
def packChapter {α : Type} (pack : α → Except Fault (α × List UInt8)) :
    Option α → Except Fault (Option α × List UInt8)
  | none => .ok (none, [])
  | some chapter => (pack chapter).map fun packed => (some packed.1, packed.2)

def channelHeaderPackedSize : ℕ := 3

def channelPack (channel : Channel) : Except Fault (Channel × List UInt8) := do
  let packedP := (channel.chapterP.map chapterPPack).getD []
  let (chapterC, packedC) ← packChapter chapterCPack channel.chapterC
  let (chapterN, packedN) ← packChapter chapterNPack channel.chapterN
  let len := channelHeaderPackedSize + packedP.length + packedC.length + packedN.length
  let header := { channel.header with len := ⟨len % 1024, Nat.mod_lt _ (by decide)⟩ }
  let packedHeader := channelHeaderPack header
  let packed ← assemble (packedHeader.length + packedN.length + packedC.length + packedP.length)
    [packedHeader, packedP, packedC, packedN]
  return ({ channel with header := header, chapterC := chapterC, chapterN := chapterN }, packed)

def journalHeaderCreate : JournalHeader := ⟨journalHeaderSFlag, 0, 0⟩

def journalHeaderReset (_ : JournalHeader) : JournalHeader := ⟨journalHeaderSFlag, 0, 0⟩

def journalHeaderPack (header : JournalHeader) : List UInt8 :=
  let totchan := if header.totchan = 0 then 0 else header.totchan - 1
  (((header.bitfield &&& 0x0f) <<< 4) ||| (totchan &&& 0x0f)) :: octets 2 header.seq.toNat

def journalInit : Journal := ⟨journalHeaderCreate, fun _ => none⟩

def journalHasData (journal : Journal) : Bool := journal.header.totchan > 0

def journalReset (journal : Journal) : Journal :=
  { header := journalHeaderReset journal.header
    channels := fun i => (journal.channels i).map channelJournalReset }

/-- The loop of `journal_pack`: the buffer is grown by the size of each channel
and the channel is copied to its end. -/
def journalPackLoop : List (Fin 16) → Journal → List UInt8 → Except Fault (Journal × List UInt8)
  | [], journal, buffer => .ok (journal, buffer)
  | i :: rest, journal, buffer =>
    match journal.channels i with
    | none => journalPackLoop rest journal buffer
    | some channel => do
      let (channel, packed) ← channelPack channel
      let buffer ← store (buffer ++ List.replicate packed.length 0) buffer.length packed
      journalPackLoop rest
        { journal with channels := Function.update journal.channels i (some channel) } buffer

/-- Without data nothing is packed, and the size is zero. -/
def journalPack (journal : Journal) : Except Fault (Journal × List UInt8) :=
  if journalHasData journal then do
    let packedHeader := journalHeaderPack journal.header
    let (journal, buffer) ← journalPackLoop (List.finRange 16) journal []
    let packed ← assemble (packedHeader.length + buffer.length) [packedHeader, buffer]
    return (journal, packed)
  else .ok (journal, [])

/-- `channel + 1` in the four bits of `chan`. -/
def chanField (channel : Fin 16) : Fin 16 := ⟨(channel + 1) % 16, Nat.mod_lt _ (by decide)⟩

/-- What the three add functions have in common: the channel is created when it
is missing, marked with its chapter, and counted when its `chan` field is not
`channel + 1` yet. -/
def midiJournalAdd (journal : Journal) (seq : UInt32) (channel : Fin 16) (flag : UInt8)
    (record : Channel → Channel) : Journal :=
  let current := (journal.channels channel).getD channelCreate
  let current := record { current with header.bitfield := current.header.bitfield ||| flag }
  -- the comparison is made in `int`: a four-bit field never equals 16
  let counted := current.header.chan.val ≠ channel.val + 1
  { header :=
      { bitfield := journal.header.bitfield ||| (journalHeaderAFlag ||| journalHeaderSFlag)
        totchan := if counted then journal.header.totchan + 1 else journal.header.totchan
        seq := seq.toUInt16 }
    channels := Function.update journal.channels channel
      (some (if counted then { current with header.chan := chanField channel } else current)) }

def midiJournalAddNote (journal : Journal) (seq : UInt32) (midiNote : MidiNote) : Journal :=
  midiJournalAdd journal seq midiNote.channel chapterNFlag fun channel =>
    { channel with chapterN := some (chapterNAdd midiNote (channel.chapterN.getD chapterNCreate)) }

def midiJournalAddControl (journal : Journal) (seq : UInt32) (midiControl : MidiControl) :
    Journal :=
  if midiControl.controllerNumber.toNat > maxChapterCControllers - 1 then journal
  else
    midiJournalAdd journal seq midiControl.channel chapterCFlag fun channel =>
      { channel with
        chapterC := some (chapterCAdd midiControl (channel.chapterC.getD chapterCCreate)) }

def midiJournalAddProgram (journal : Journal) (seq : UInt32) (midiProgram : MidiProgram) :
    Journal :=
  midiJournalAdd journal seq midiProgram.channel chapterPFlag fun channel =>
    { channel with chapterP := some (chapterPAdd midiProgram) }

/-- What can be added to a journal. -/
inductive JournalEvent where
  | note (midiNote : MidiNote)
  | control (midiControl : MidiControl)
  | program (midiProgram : MidiProgram)
  deriving Repr, DecidableEq

def JournalEvent.channel : JournalEvent → Fin 16
  | note midiNote => midiNote.channel
  | control midiControl => midiControl.channel
  | program midiProgram => midiProgram.channel

def midiJournalAddEvent (journal : Journal) (seq : UInt32) : JournalEvent → Journal
  | .note midiNote => midiJournalAddNote journal seq midiNote
  | .control midiControl => midiJournalAddControl journal seq midiControl
  | .program midiProgram => midiJournalAddProgram journal seq midiProgram

/-- The calls made on one journal. -/
inductive JournalCall where
  | add (seq : UInt32) (event : JournalEvent)
  | pack
  | reset
  deriving Repr, DecidableEq

/-- A call gives the journal after it and, for a pack, the octets packed. -/
def journalCall (journal : Journal) : JournalCall → Except Fault (Journal × List (List UInt8))
  | .add seq event => .ok (midiJournalAddEvent journal seq event, [])
  | .pack => (journalPack journal).map fun packed => (packed.1, [packed.2])
  | .reset => .ok (journalReset journal, [])

namespace Channel

def Valid (channel : Channel) : Prop := ∀ chapter ∈ channel.chapterN, chapter.Valid

def packedP (channel : Channel) : List UInt8 := (channel.chapterP.map chapterPPack).getD []

def packedC (channel : Channel) : List UInt8 := (channel.chapterC.map ChapterC.octets).getD []

def packedN (channel : Channel) : List UInt8 := (channel.chapterN.map ChapterN.octets).getD []

/-- The header as it is packed, with the size of the channel journal. -/
def packedHeader (channel : Channel) : ChannelHeader :=
  { channel.header with
    len := ⟨(3 + channel.packedP.length + channel.packedC.length + channel.packedN.length) % 1024,
      Nat.mod_lt _ (by decide)⟩ }

/-- The octets of a channel journal. -/
def octets (channel : Channel) : List UInt8 :=
  channelHeaderPack channel.packedHeader ++ channel.packedP ++ channel.packedC ++ channel.packedN

/-- The channel with every `len` field cleared. -/
def forgetLengths (channel : Channel) : Channel :=
  { channel with
    header.len := 0
    chapterC := channel.chapterC.map fun chapter => { chapter with len := 0 }
    chapterN := channel.chapterN.map fun chapter => { chapter with header.len := 0 } }

/-- The channel as its packer leaves it. -/
def setLengths (channel : Channel) : Channel :=
  { channel with
    header := channel.packedHeader
    chapterC := channel.chapterC.map fun chapter =>
      { chapter with len := UInt8.ofNat chapter.count }
    chapterN := channel.chapterN.map chapterNSetLen }

theorem packedC_forget (channel : Channel) : channel.forgetLengths.packedC = channel.packedC := by
  simp only [packedC, forgetLengths, Option.map_map]
  cases channel.chapterC with
  | none => simp only [Option.map_none]
  | some chapter =>
    simp only [Option.map_some, Option.getD_some, Function.comp, ChapterC.octets_len]

theorem packedN_forget (channel : Channel) : channel.forgetLengths.packedN = channel.packedN := by
  simp only [packedN, forgetLengths, Option.map_map]
  cases channel.chapterN <;> rfl

theorem octets_forget (channel : Channel) : channel.forgetLengths.octets = channel.octets := by
  have hp : channel.forgetLengths.packedP = channel.packedP := rfl
  have hheader : channel.forgetLengths.packedHeader = channel.packedHeader := by
    simp only [packedHeader, packedC_forget, packedN_forget, hp]
    rfl
  simp only [octets, hheader, packedC_forget, packedN_forget, hp]

theorem forget_setLengths (channel : Channel) :
    channel.setLengths.forgetLengths = channel.forgetLengths := by
  simp only [setLengths, forgetLengths, packedHeader, Option.map_map]
  rfl

theorem valid_setLengths {channel : Channel} (h : channel.Valid) : channel.setLengths.Valid := by
  intro chapter hchapter
  obtain ⟨first, hfirst, rfl⟩ := Option.mem_map.mp hchapter
  exact ⟨(h first hfirst).notes_le, (h first hfirst).offbits_length⟩

theorem packChapterC_eq (chapter : Option ChapterC) :
    packChapter chapterCPack chapter =
      .ok (chapter.map fun chapter => { chapter with len := UInt8.ofNat chapter.count },
        (chapter.map ChapterC.octets).getD []) := by
  cases chapter with
  | none => rfl
  | some chapter => simp [packChapter, ChapterC.pack_eq, Except.map]

theorem packChapterN_eq {chapter : Option ChapterN} (h : ∀ c ∈ chapter, c.Valid) :
    packChapter chapterNPack chapter =
      .ok (chapter.map chapterNSetLen, (chapter.map ChapterN.octets).getD []) := by
  cases chapter with
  | none => rfl
  | some chapter => simp [packChapter, ChapterN.pack_eq (h chapter rfl), Except.map]

theorem pack_eq {channel : Channel} (h : channel.Valid) :
    channelPack channel = .ok (channel.setLengths, channel.octets) := by
  have hall := assemble_ok
    ((channelHeaderPack channel.packedHeader).length + channel.packedN.length +
      channel.packedC.length + channel.packedP.length)
    ([channelHeaderPack channel.packedHeader, channel.packedP, channel.packedC,
      channel.packedN])
    (by
      simp only [List.flatten_cons, List.flatten_nil, List.length_append, List.length_nil]
      omega)
  simp only [packedHeader, packedP, packedC, packedN] at hall
  simp only [channelPack, packChapterC_eq, packChapterN_eq h, channelHeaderPackedSize, hall, bind,
    Except.bind, pure, Except.pure, setLengths, octets, packedHeader, packedP, packedC, packedN,
    List.flatten_cons, List.flatten_nil, List.append_nil, List.append_assoc]

end Channel

namespace Journal

def Valid (journal : Journal) : Prop := ∀ i, ∀ channel ∈ journal.channels i, channel.Valid

def forgetLengths (journal : Journal) : Journal :=
  { journal with channels := fun i => (journal.channels i).map Channel.forgetLengths }

/-- The channel journals in the order in which they are packed. -/
def segments (journal : Journal) : List (List UInt8) :=
  (List.finRange 16).filterMap fun i => (journal.channels i).map Channel.octets

def octets (journal : Journal) : List UInt8 :=
  if journalHasData journal then journalHeaderPack journal.header ++ journal.segments.flatten
  else []

theorem channel_octets_congr {j k : Journal} (h : j.forgetLengths = k.forgetLengths) (i : Fin 16) :
    (j.channels i).map Channel.octets = (k.channels i).map Channel.octets := by
  have hi : (j.channels i).map Channel.forgetLengths = (k.channels i).map Channel.forgetLengths :=
    congrFun (congrArg Journal.channels h) i
  have hoctets : Channel.octets ∘ Channel.forgetLengths = Channel.octets :=
    funext Channel.octets_forget
  have := congrArg (Option.map Channel.octets) hi
  simpa only [Option.map_map, hoctets] using this

theorem octets_congr {j k : Journal} (h : j.forgetLengths = k.forgetLengths) :
    j.octets = k.octets := by
  have hheader : j.forgetLengths.header = k.forgetLengths.header := by rw [h]
  simp only [octets, journalHasData, segments, channel_octets_congr h]
  change (if decide (j.forgetLengths.header.totchan > 0) = true then
    journalHeaderPack j.forgetLengths.header ++ _ else []) = _
  rw [hheader]
  rfl

/-- The loop emits the channel journals in turn: by induction on the channels left. -/
theorem packLoop_spec (indices : List (Fin 16)) {j : Journal} (h : j.Valid) (buffer : List UInt8) :
    ∃ k, journalPackLoop indices j buffer =
        .ok (k, buffer ++
          (indices.filterMap fun i => (j.channels i).map Channel.octets).flatten) ∧
      k.forgetLengths = j.forgetLengths ∧ k.Valid := by
  induction indices generalizing j buffer with
  | nil => exact ⟨j, by simp [journalPackLoop], rfl, h⟩
  | cons i indices ih =>
    cases hchannel : j.channels i with
    | none =>
      obtain ⟨k, hloop, hforget, hk⟩ := ih h buffer
      exact ⟨k, by simp [journalPackLoop, hchannel, hloop], hforget, hk⟩
    | some channel =>
      have hvalid : channel.Valid := h i channel hchannel
      let next : Journal :=
        { j with channels := Function.update j.channels i (some channel.setLengths) }
      have hnext : next.forgetLengths = j.forgetLengths := by
        simp only [next, forgetLengths, Journal.mk.injEq, true_and]
        funext i'
        by_cases hi : i' = i
        · subst hi
          simp [hchannel, Channel.forget_setLengths]
        · simp [hi]
      have hnextValid : next.Valid := by
        intro i' channel' hchannel'
        by_cases hi : i' = i
        · subst hi
          simp only [next, Function.update_self, Option.mem_def, Option.some.injEq] at hchannel'
          exact hchannel' ▸ Channel.valid_setLengths hvalid
        · simp only [next, Function.update_of_ne hi] at hchannel'
          exact h i' channel' hchannel'
      have hstore := store_middle buffer (List.replicate channel.octets.length 0) []
        channel.octets (by simp)
      simp only [List.append_nil] at hstore
      obtain ⟨k, hloop, hforget, hk⟩ := ih hnextValid (buffer ++ channel.octets)
      refine ⟨k, ?_, hforget.trans hnext, hk⟩
      simp only [channel_octets_congr hnext] at hloop
      simp only [journalPackLoop, hchannel, Channel.pack_eq hvalid, hstore, bind, Except.bind,
        List.filterMap_cons, Option.map_some, List.flatten_cons, ← List.append_assoc]
      exact hloop

theorem pack_spec {j : Journal} (h : j.Valid) :
    ∃ k, journalPack j = .ok (k, j.octets) ∧ k.forgetLengths = j.forgetLengths ∧ k.Valid := by
  by_cases hdata : journalHasData j = true
  · obtain ⟨k, hloop, hforget, hk⟩ := packLoop_spec (List.finRange 16) h []
    refine ⟨k, ?_, hforget, hk⟩
    have hall := assemble_ok ((journalHeaderPack j.header).length + j.segments.flatten.length)
      [journalHeaderPack j.header, j.segments.flatten] (by simp)
    rw [List.nil_append] at hloop
    simp only [segments] at hall
    simp only [journalPack, if_pos hdata, hloop, hall, octets, segments, bind, Except.bind, pure,
      Except.pure, List.flatten_cons, List.flatten_nil, List.append_nil]
  · exact ⟨j, by simp [journalPack, octets, hdata], rfl, h⟩

end Journal
end RaveloxMidi
