import RaveloxMidi.NetSocket

/-!
# From a datagram to its MIDI list

The payload decoder asks for every octet before it looks at it: it gives back the
payload that its buffer begins with, or nothing. The reader of the packet in front
of it asks for none, and what it counts in the end is right only for a datagram
that holds the whole header.
-/
namespace RaveloxMidi
open ByteMemory

/-- The octets of a payload header: four flags, and a length of four bits or, with the
first flag set, of twelve. -/
inductive PayloadHeaderOctets : List UInt8 → MidiPayloadHeader → Prop where
  | short (first : UInt8) (len : UInt16) (hflag : first.toNat.testBit 7 = false)
      (hlen : len.toNat = first.toNat % 16) :
      PayloadHeaderOctets [first] ⟨false, first.toNat.testBit 6, first.toNat.testBit 5,
        first.toNat.testBit 4, len⟩
  | long (first next : UInt8) (len : UInt16) (hflag : first.toNat.testBit 7 = true)
      (hlen : len.toNat = first.toNat % 16 * 256 + next.toNat) :
      PayloadHeaderOctets [first, next] ⟨true, first.toNat.testBit 6, first.toNat.testBit 5,
        first.toNat.testBit 4, len⟩

/-- A header, the octets it declares, and whatever follows. -/
def BeginsWithPayload (buffer : List UInt8) (payload : MidiPayload) : Prop :=
  ∃ header body rest, buffer = header ++ body ++ rest ∧
    PayloadHeaderOctets header payload.header ∧ body.length = payload.header.len.toNat ∧
    payload.buffer = some body

/-- The flags read from an octet are its four upper bits. -/
theorem readFlags_bits (first : UInt8) :
    (midiPayloadReadFlags first).header = ⟨first.toNat.testBit 7, first.toNat.testBit 6,
      first.toNat.testBit 5, first.toNat.testBit 4, 0⟩ := by
  revert first
  decide +kernel

theorem headerB_bit (first : UInt8) :
    first &&& payloadHeaderB = 0 ↔ first.toNat.testBit 7 = false := by
  revert first
  decide +kernel

theorem short_length (first : UInt8) :
    (first &&& 0x0f).toUInt16.toNat = first.toNat % 16 := by
  revert first
  decide +kernel

theorem long_length (first next : UInt8) :
    ((first &&& 0x0f).toUInt16 <<< 8 + next.toUInt16).toNat =
      first.toNat % 16 * 256 + next.toNat := by
  have hfirst := short_length first
  have hnext := next.toNat_lt
  rw [UInt16.toNat_add, UInt16.toNat_shiftLeft, hfirst, UInt8.toNat_toUInt16]
  simp only [UInt16.reduceToNat, Nat.reduceMod, Nat.shiftLeft_eq]
  omega

/-- The position behind a header and the length it declares are those of the frame. -/
theorem frame_of_header {header : List UInt8} {fields : MidiPayloadHeader}
    (h : PayloadHeaderOctets header fields) (rest : List UInt8) :
    payloadFrame (header ++ rest) = some (header.length, fields.len) ∧
      { (midiPayloadReadFlags ((header ++ rest).headD 0)).header with len := fields.len } =
        fields := by
  cases h with
  | short first len hflag hlen =>
    have hsame : (first &&& 0x0f).toUInt16 = len := by
      apply UInt16.toNat_inj.mp
      rw [short_length, hlen]
    refine ⟨?_, ?_⟩
    · simp [payloadFrame, (headerB_bit first).mpr hflag, hsame]
    · simp [readFlags_bits, hflag]
  | long first next len hflag hlen =>
    have hset : ¬ first &&& payloadHeaderB = 0 := by
      rw [headerB_bit, hflag]
      simp
    have hsame : (first &&& 0x0f).toUInt16 <<< 8 + next.toUInt16 = len := by
      apply UInt16.toNat_inj.mp
      rw [long_length, hlen]
    refine ⟨?_, ?_⟩
    · rw [← hsame, List.cons_append, payloadFrame, if_neg hset]
      rfl
    · simp [readFlags_bits, hflag]

/-- A buffer with a frame begins with the octets of a header. -/
theorem header_of_frame {buffer : List UInt8} {start : ℕ} {len : UInt16}
    (h : payloadFrame buffer = some (start, len)) :
    start ≤ buffer.length ∧ PayloadHeaderOctets (buffer.take start)
      { (midiPayloadReadFlags (buffer.headD 0)).header with len := len } := by
  cases buffer with
  | nil => cases h
  | cons first rest =>
    rw [payloadFrame] at h
    split_ifs at h with hflag
    · cases h
      rw [List.headD_cons, readFlags_bits, (headerB_bit first).mp hflag]
      exact ⟨by simp, .short first _ ((headerB_bit first).mp hflag) (short_length first)⟩
    · obtain ⟨next, hnext, heq⟩ := Option.map_eq_some_iff.mp h
      cases heq
      obtain ⟨tail, rfl⟩ := List.head?_eq_some_iff.mp hnext
      rw [headerB_bit, Bool.not_eq_false] at hflag
      rw [List.headD_cons, readFlags_bits, hflag]
      exact ⟨by simp, .long first next _ hflag (long_length first next)⟩

theorem readPayload_iff (buffer : List UInt8) (payload : MidiPayload) :
    readPayload buffer = some payload ↔ BeginsWithPayload buffer payload := by
  constructor
  · intro h
    obtain ⟨⟨start, len⟩, hframe, hfilled⟩ := Option.bind_eq_some_iff.mp h
    obtain ⟨-, hheader⟩ := header_of_frame hframe
    split_ifs at hfilled with hfits
    cases hfilled
    have hlength : ((buffer.drop start).take len.toNat).length = len.toNat := by
      dsimp only at hfits
      rw [List.length_take, List.length_drop]
      omega
    refine ⟨buffer.take start, (buffer.drop start).take len.toNat,
      (buffer.drop start).drop len.toNat, ?_, hheader, hlength, rfl⟩
    rw [List.append_assoc, List.take_append_drop, List.take_append_drop]
  · rintro ⟨header, body, rest, rfl, hheader, hlength, hbody⟩
    obtain ⟨hframe, hfields⟩ := frame_of_header hheader (body ++ rest)
    obtain ⟨fields, buffer⟩ := payload
    dsimp only at hbody hlength hheader hframe hfields
    subst hbody
    have hfits : header.length + fields.len.toNat ≤ (header ++ (body ++ rest)).length := by
      simp only [List.length_append]
      omega
    rw [List.append_assoc, readPayload, hframe, Option.bind_some, if_pos hfits, hfields,
      List.drop_left, List.take_left' hlength]

/-- For every buffer that is not empty the decoder stays inside it and gives back the
payload that the buffer begins with, if there is one, and nothing otherwise. -/
theorem payload_unpack_exact (first : UInt8) (rest : List UInt8) :
    ∃ result, midiPayloadUnpack (first :: rest) = .ok result ∧
      ∀ payload, result = some payload ↔ BeginsWithPayload (first :: rest) payload :=
  ⟨_, unpack_eq _, readPayload_iff _⟩

/-- A packet is read and its payload decoded; the position is the one behind the packet. -/
def rtpReceive (r : Region) : Except Fault (Cursor × Option MidiPayload) := do
  let (packet, c) ← rtpPacketUnpack r
  let payload ← midiPayloadUnpackBuffer packet.payload
  return (c, payload)

/-- No octet but those of the datagram is read, the counter and the position make up its
length, and a MIDI list is a slice of it behind the two headers. -/
def ReceivesInside (r : Region) : Prop :=
  ∃ c payload, rtpReceive r = .ok (c, payload) ∧ c.strayed = false ∧
    c.pos + c.left = r.block.length ∧
    ∀ received ∈ payload, ∀ bytes ∈ received.buffer, ∃ start,
      start = 12 + (if received.header.b then 2 else 1) ∧
      start + bytes.length ≤ r.block.length ∧ bytes = (r.block.drop start).take bytes.length

/-- The list of a payload lies behind its header. -/
theorem readPayload_slice {buffer : List UInt8} {payload : MidiPayload}
    (h : readPayload buffer = some payload) {bytes : List UInt8} (hbytes : bytes ∈ payload.buffer) :
    (if payload.header.b then 2 else 1) + bytes.length ≤ buffer.length ∧
      bytes = (buffer.drop (if payload.header.b then 2 else 1)).take bytes.length := by
  obtain ⟨header, body, rest, rfl, hheader, -, hbody⟩ := (readPayload_iff buffer payload).mp h
  have hsame : bytes = body := by
    rw [hbody] at hbytes
    exact (Option.some.inj hbytes).symm
  have hstart : (if payload.header.b then 2 else 1) = header.length := by
    generalize payload.header = fields at hheader
    cases hheader <;> rfl
  rw [hsame, hstart]
  refine ⟨?_, ?_⟩
  · simp only [List.length_append]
    omega
  · rw [List.append_assoc, List.drop_left, List.take_left]

theorem receive_long {r : Region} (hlen : 12 ≤ r.block.length)
    (hmax : r.block.length ≤ mallocMax) :
    ∃ c, rtpReceive r = .ok (c, readPayload (r.block.drop 12)) ∧ c.At r [] := by
  obtain ⟨c, hunpack, hc⟩ := rtpPacketUnpack_at hlen hmax
  refine ⟨c, ?_, hc⟩
  simp only [rtpReceive, hunpack, unpackBuffer_eq rfl, bind, Except.bind, pure, Except.pure]

/-- The chain stays inside the datagram exactly if the header of the packet is there. -/
theorem receives_inside_iff {r : Region} (hmax : r.block.length ≤ mallocMax) :
    ReceivesInside r ↔ 12 ≤ r.block.length := by
  constructor
  · rintro ⟨c, payload, hreceive, -⟩
    by_contra hshort
    rw [rtpReceive, rtpPacketUnpack_short (not_le.mp hshort)] at hreceive
    cases hreceive
  · intro hlen
    obtain ⟨c, hreceive, hc⟩ := receive_long hlen hmax
    refine ⟨c, _, hreceive, hc.strayed, ?_, ?_⟩
    · have hrest := congrArg List.length hc.rest_eq
      have hinside := hc.inside
      rw [List.length_drop, List.length_nil] at hrest
      rw [hc.left_eq, List.length_nil]
      omega
    · intro received hreceived bytes hbytes
      obtain ⟨hfits, hslice⟩ := readPayload_slice hreceived hbytes
      rw [List.length_drop] at hfits
      rw [List.drop_drop] at hslice
      exact ⟨_, rfl, by omega, hslice⟩

/-- A datagram with a list of two octets behind its headers. -/
theorem receives_inside_iff_two :
    ReceivesInside ⟨List.replicate 12 0x80 ++ [0x02, 0x90, 0x40], [0xff]⟩ ↔
      12 ≤ (List.replicate 12 (0x80 : UInt8) ++ [0x02, 0x90, 0x40]).length :=
  receives_inside_iff (r := ⟨List.replicate 12 0x80 ++ [0x02, 0x90, 0x40], [0xff]⟩)
    (by simp [mallocMax])

/-- After eleven octets the counter has wrapped around. -/
theorem eleven_octets_stray :
    rtpReceive ⟨List.replicate 11 0x80, []⟩ = .error .nullPointer ∧
      ¬ ReceivesInside ⟨List.replicate 11 0x80, []⟩ := by
  have hfault : rtpReceive ⟨List.replicate 11 0x80, []⟩ = .error .nullPointer := by
    rw [rtpReceive, rtpPacketUnpack_short (by simp)]
    rfl
  refine ⟨hfault, ?_⟩
  rintro ⟨c, payload, hreceive, -⟩
  rw [hfault] at hreceive
  cases hreceive

end RaveloxMidi
