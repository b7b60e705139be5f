import RaveloxMidi.JournalChannels
import RaveloxMidi.OffBits

/-!
# The sizes of a packed journal

The size of a channel journal is added up in ten bits of its header and again in the sizes
of its chapters, the NoteOff octets from LOW and HIGH as a signed number. With at most 127
note logs, 16 NoteOff octets and 128 controllers it does not exceed 535 octets, which ten bits
can hold.
-/
namespace RaveloxMidi
open ByteMemory Transducer

/-- The LENGTH field of a packed channel journal. -/
def lengthField (segment : List UInt8) : ℕ := ofOctets (segment.take 2) % 1024

/-- The channels that are packed, in the order in which they are. -/
def Journal.emitted (j : Journal) : List Channel := (List.finRange 16).filterMap j.channels

/-- Every channel packed has its own size in its header, and the journal is as long as the
sizes say, if it is packed. -/
structure Journal.LengthsExact (j : Journal) (segments : List (List UInt8)) : Prop where
  packs : j.emitted.map (fun channel => (channelPack channel).map Prod.snd) =
    segments.map Except.ok
  length : ∀ segment ∈ segments, lengthField segment = segment.length
  length_le : ∀ segment ∈ segments, segment.length ≤ 535
  total : ∃ k packed, journalPack j = .ok (k, packed) ∧
    packed = (if journalHasData j = true then journalHeaderPack j.header ++ segments.flatten
      else []) ∧
    packed.length = if journalHasData j = true then 3 + (segments.map lengthField).sum else 0
  offbits : ∀ i, ∀ chapter ∈ j.chapterNOn i, chapter.offbits.length = 16 ∧
    (0 < chapterNOffbitsSize chapter →
      chapter.header.low + (chapterNOffbitsSize chapter).toNat ≤ 16)

theorem ChapterC.octets_length_le (chapter : ChapterC) : chapter.octets.length ≤ 257 := by
  have hcount := chapter.count_le
  rw [octets_length]
  split_ifs <;> omega

theorem ChapterN.octets_length_le {chapter : ChapterN} (h : chapter.Valid) :
    chapter.octets.length ≤ 272 := by
  have hnotes := h.notes_le
  have hhigh := chapter.header.high.isLt
  rw [octets_length h]
  omega

namespace Channel

theorem octets_length_le {channel : Channel} (h : channel.Valid) :
    channel.octets.length ≤ 535 := by
  have hp : channel.packedP.length ≤ 3 := by
    unfold packedP
    cases channel.chapterP with
    | none => exact Nat.zero_le 3
    | some chapter => exact le_refl 3
  have hc : channel.packedC.length ≤ 257 := by
    unfold packedC
    cases channel.chapterC with
    | none => exact Nat.zero_le 257
    | some chapter => exact chapter.octets_length_le
  have hn : channel.packedN.length ≤ 272 := by
    unfold packedN
    cases hchapter : channel.chapterN with
    | none => exact Nat.zero_le 272
    | some chapter => exact ChapterN.octets_length_le (h chapter hchapter)
  rw [octets_length]
  omega

/-- Ten bits are enough for the size. -/
theorem lengthField_octets {channel : Channel} (h : channel.Valid) :
    lengthField channel.octets = channel.octets.length := by
  have hle := octets_length_le h
  have hlen : channel.packedHeader.len.val = channel.octets.length % 1024 := by
    rw [octets_length]
    rfl
  rw [lengthField, headerWord_octets, hlen]
  omega

end Channel

namespace Journal

theorem segments_eq (j : Journal) : j.segments = j.emitted.map Channel.octets := by
  rw [segments, emitted, List.map_filterMap]

theorem valid_emitted {j : Journal} (h : j.Valid) : ∀ channel ∈ j.emitted, channel.Valid := by
  intro channel hchannel
  obtain ⟨i, -, hi⟩ := List.mem_filterMap.mp hchannel
  exact h i channel hi

/-- All of it follows from room for the note logs and the NoteOff octets. -/
theorem lengthsExact_of_valid {j : Journal} (h : j.Valid) : j.LengthsExact j.segments := by
  have hvalid := valid_emitted h
  refine ⟨?_, ?_, ?_, ?_, ?_⟩
  · rw [segments_eq, List.map_map]
    refine List.map_congr_left fun channel hchannel => ?_
    rw [Channel.pack_eq (hvalid channel hchannel)]
    rfl
  · rw [segments_eq]
    intro segment hsegment
    obtain ⟨channel, hchannel, rfl⟩ := List.mem_map.mp hsegment
    exact Channel.lengthField_octets (hvalid channel hchannel)
  · rw [segments_eq]
    intro segment hsegment
    obtain ⟨channel, hchannel, rfl⟩ := List.mem_map.mp hsegment
    exact Channel.octets_length_le (hvalid channel hchannel)
  · obtain ⟨k, hpack, -, -⟩ := pack_spec h
    refine ⟨k, j.octets, hpack, rfl, ?_⟩
    have hsum : j.segments.map lengthField = j.segments.map List.length := by
      rw [segments_eq, List.map_map, List.map_map]
      exact List.map_congr_left fun channel hchannel =>
        Channel.lengthField_octets (hvalid channel hchannel)
    rw [octets, hsum, ← List.length_flatten]
    split_ifs
    · simp only [List.length_append, journalHeaderPack, List.length_cons,
        ByteMemory.octets_length]
    · rfl
  · intro i chapter hchapter
    obtain ⟨channel, hchannel, hmem⟩ := Option.bind_eq_some_iff.mp hchapter
    have hoffbits := (h i channel hchannel chapter hmem).offbits_length
    have hhigh := chapter.header.high.isLt
    refine ⟨hoffbits, fun hpos => ?_⟩
    unfold chapterNOffbitsSize at hpos ⊢
    omega

end Journal

/-- After any calls on a journal every copy stays inside its buffer, every LENGTH field is the
size of its channel journal, at most 535, and a journal with data is packed as three octets
and as many as the fields say. -/
theorem lengths_exact (calls : List JournalCall) :
    ∃ j out segments, run journalCall journalInit calls = .ok (j, out) ∧
      j.LengthsExact segments := by
  obtain ⟨j, hrun, hj⟩ := run_journal calls
  exact ⟨j, _, j.segments, hrun, Journal.lengthsExact_of_valid hj.valid⟩

/-- Nothing is packed of a new journal, not even the three octets of the header. -/
theorem new_journal_unpacked :
    ∃ j out k packed, ∃ segments : List (List UInt8),
      run journalCall journalInit [] = .ok (j, out) ∧
      j.emitted.map (fun channel => (channelPack channel).map Prod.snd) =
        segments.map Except.ok ∧
      journalPack j = .ok (k, packed) ∧ packed.length ≠ 3 + (segments.map lengthField).sum :=
  ⟨journalInit, [], journalInit, [], [], rfl, rfl, rfl, by decide⟩

end RaveloxMidi
