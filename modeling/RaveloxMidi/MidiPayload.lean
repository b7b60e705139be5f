import RaveloxMidi.ByteMemory
import RaveloxMidi.MidiCommand

/-!
# The MIDI payload of an RTP packet

A payload is a command section header with four flags and a length, and the
octets themselves. The packer writes a length of up to 15 in four bits and a
longer one in twelve; which of the two the reader expects is told by the B flag,
and no function on the sending side sets it.
-/
namespace RaveloxMidi
open ByteMemory

structure MidiPayloadHeader where
  b : Bool
  j : Bool
  z : Bool
  p : Bool
  len : UInt16
  deriving Repr, DecidableEq

/-- `none` is a null buffer. -/
structure MidiPayload where
  header : MidiPayloadHeader
  buffer : Option (List UInt8)
  deriving Repr, DecidableEq

def payloadHeaderB : UInt8 := 0x80
def payloadHeaderJ : UInt8 := 0x40
def payloadHeaderZ : UInt8 := 0x20
def payloadHeaderP : UInt8 := 0x10

/-- The file-wide `running_status`, which nothing assigns. -/
def midiPayloadRunningStatus : UInt8 := 0

def midiPayloadCreate : MidiPayload := ⟨⟨false, false, false, false, 0⟩, none⟩

def midiPayloadSetB (payload : MidiPayload) : MidiPayload :=
  { payload with header.b := true }

def midiPayloadSetJ (payload : MidiPayload) : MidiPayload :=
  { payload with header.j := true }

def midiPayloadSetZ (payload : MidiPayload) : MidiPayload :=
  { payload with header.z := true }

def midiPayloadSetP (payload : MidiPayload) : MidiPayload :=
  { payload with header.p := true }

def midiPayloadUnsetJ (payload : MidiPayload) : MidiPayload :=
  { payload with header.j := false }

def midiPayloadUnsetZ (payload : MidiPayload) : MidiPayload :=
  { payload with header.z := false }

def midiPayloadUnsetP (payload : MidiPayload) : MidiPayload :=
  { payload with header.p := false }

/-- The length is stored in sixteen bits; the octets are kept as they are, behind
a status octet when they come without one. -/
def midiPayloadSetBuffer (payload : MidiPayload) (buffer : List UInt8) :
    Except Fault MidiPayload :=
  match buffer with
  | [] => .error .outOfBounds
  | first :: rest =>
    let bytes :=
      if first &&& 0x80 ≠ 0 then first :: rest else midiPayloadRunningStatus :: first :: rest
    .ok { payload with header.len := UInt16.ofNat bytes.length, buffer := some bytes }

/-- The flag bits of the first octet. -/
def midiPayloadFlags (header : MidiPayloadHeader) : UInt8 :=
  (if header.b then payloadHeaderB else 0) ||| (if header.j then payloadHeaderJ else 0) |||
    (if header.z then payloadHeaderZ else 0) ||| (if header.p then payloadHeaderP else 0)

/-- The one or two header octets of `midi_payload_pack`. -/
def midiPayloadHeaderPack (header : MidiPayloadHeader) : List UInt8 :=
  if header.len ≤ 15 then [midiPayloadFlags header ||| (header.len &&& 0x0f).toUInt8]
  else [midiPayloadFlags header ||| ((header.len &&& 0x0f00) >>> 8).toUInt8,
    (header.len &&& 0x00ff).toUInt8]

/-- `none` when there is nothing to pack. -/
def midiPayloadPack (payload : MidiPayload) : Except Fault (Option (List UInt8)) :=
  match payload.buffer with
  | none => .ok none
  | some buffer => do
    let bytes ← load buffer 0 payload.header.len.toNat
    return some (midiPayloadHeaderPack payload.header ++ bytes)

/-- One octet of a buffer. -/
def byteAt (buffer : List UInt8) (i : ℕ) : Except Fault UInt8 :=
  match buffer[i]? with
  | some byte => .ok byte
  | none => .error .outOfBounds

/-- A new payload with the flags of the first octet. -/
def midiPayloadReadFlags (first : UInt8) : MidiPayload :=
  let payload := midiPayloadCreate
  let payload := if first &&& payloadHeaderB ≠ 0 then midiPayloadSetB payload else payload
  let payload := if first &&& payloadHeaderJ ≠ 0 then midiPayloadSetJ payload else payload
  let payload := if first &&& payloadHeaderZ ≠ 0 then midiPayloadSetZ payload else payload
  if first &&& payloadHeaderP ≠ 0 then midiPayloadSetP payload else payload

/-- The end of `midi_payload_unpack`, when the length is known: `current_len` has
been counted down by the octets of the header. -/
def midiPayloadFill (payload : MidiPayload) (buffer : List UInt8) (start : ℕ) (tempLen : UInt16) :
    Except Fault (Option MidiPayload) := do
  if buffer.length - start < tempLen.toNat then return none
  let bytes ← load buffer start tempLen.toNat
  return some ⟨{ payload.header with len := tempLen }, some bytes⟩

/-- `none` is the null payload left by every failure. -/
def midiPayloadUnpack (buffer : List UInt8) : Except Fault (Option MidiPayload) := do
  if buffer.length = 0 then return none
  let first ← byteAt buffer 0
  let payload := midiPayloadReadFlags first
  if payload.header.b = true ∧ buffer.length = 1 then return none
  let tempLen : UInt16 := (first &&& 0x0f).toUInt16
  if payload.header.b = true then
    let next ← byteAt buffer 1
    midiPayloadFill payload buffer 2 ((tempLen <<< 8) + next.toUInt16)
  else midiPayloadFill payload buffer 1 tempLen

def midiCommandToPayload (command : MidiCommand) : Except Fault MidiPayload :=
  midiPayloadSetBuffer midiPayloadCreate (command.status :: command.data)

theorem readFlags_eq (first : UInt8) :
    midiPayloadReadFlags first =
      ⟨⟨decide (first &&& payloadHeaderB ≠ 0), decide (first &&& payloadHeaderJ ≠ 0),
        decide (first &&& payloadHeaderZ ≠ 0), decide (first &&& payloadHeaderP ≠ 0), 0⟩,
        none⟩ := by
  revert first
  decide +kernel

/-- Where the octets of a payload start and how many are announced, as far as
the header itself is there. -/
def payloadFrame : List UInt8 → Option (ℕ × UInt16)
  | [] => none
  | first :: rest =>
    if first &&& payloadHeaderB = 0 then some (1, (first &&& 0x0f).toUInt16)
    else rest.head?.map fun next => (2, ((first &&& 0x0f).toUInt16 <<< 8) + next.toUInt16)

/-- The payload that a buffer announces and contains in full. -/
def readPayload (buffer : List UInt8) : Option MidiPayload :=
  (payloadFrame buffer).bind fun frame =>
    if frame.1 + frame.2.toNat ≤ buffer.length then
      some ⟨{ (midiPayloadReadFlags (buffer.headD 0)).header with len := frame.2 },
        some ((buffer.drop frame.1).take frame.2.toNat)⟩
    else none

theorem fill_eq (payload : MidiPayload) {buffer : List UInt8} {start : ℕ}
    (hstart : start ≤ buffer.length) (tempLen : UInt16) :
    midiPayloadFill payload buffer start tempLen =
      .ok (if start + tempLen.toNat ≤ buffer.length then
        some ⟨{ payload.header with len := tempLen }, some ((buffer.drop start).take tempLen.toNat)⟩
      else none) := by
  by_cases hlen : start + tempLen.toNat ≤ buffer.length
  · have hcount : ¬ buffer.length - start < tempLen.toNat := by omega
    simp only [midiPayloadFill, if_neg hcount, load_ok hlen, if_pos hlen, bind, Except.bind, pure,
      Except.pure]
  · have hcount : buffer.length - start < tempLen.toNat := by omega
    simp only [midiPayloadFill, if_pos hcount, if_neg hlen, pure, Except.pure]

/-- The reader never leaves the buffer. -/
theorem unpack_eq (buffer : List UInt8) : midiPayloadUnpack buffer = .ok (readPayload buffer) := by
  cases buffer with
  | nil => rfl
  | cons first rest =>
    have hfirst : byteAt (first :: rest) 0 = .ok first := rfl
    have hne : ¬ (first :: rest).length = 0 := by simp
    by_cases hb : first &&& payloadHeaderB = 0
    · have hflag : (midiPayloadReadFlags first).header.b = false := by simp [readFlags_eq, hb]
      simp only [midiPayloadUnpack, if_neg hne, hfirst, hflag, hb, Bool.false_eq_true, false_and,
        if_false, if_true, bind, Except.bind, readPayload, payloadFrame, List.headD_cons,
        Option.bind, fill_eq _ (show 1 ≤ (first :: rest).length by simp)]
    · have hflag : (midiPayloadReadFlags first).header.b = true := by simp [readFlags_eq, hb]
      cases rest with
      | nil => simp [midiPayloadUnpack, hfirst, hflag, hb, readPayload, payloadFrame, bind,
          Except.bind, pure, Except.pure]
      | cons next rest =>
        have hnext : byteAt (first :: next :: rest) 1 = .ok next := rfl
        have hone : ¬ (first :: next :: rest).length = 1 := by simp
        simp only [midiPayloadUnpack, if_neg hne, hfirst, hflag, hb, hone, and_false, if_false,
          if_true, hnext, bind, Except.bind, readPayload, payloadFrame, List.headD_cons,
          List.head?_cons, Option.map_some, Option.bind,
          fill_eq _ (show 2 ≤ (first :: next :: rest).length by simp)]

/-- A command packed with the given flags and unpacked again, with the octets of
a journal behind it. -/
def payloadTransfer (command : MidiCommand) (j z p : Bool) (journal : List UInt8) :
    Except Fault (Option MidiPayload) := do
  let payload ← midiCommandToPayload command
  let payload := if j then midiPayloadSetJ payload else midiPayloadUnsetJ payload
  let payload := if z then midiPayloadSetZ payload else midiPayloadUnsetZ payload
  let payload := if p then midiPayloadSetP payload else midiPayloadUnsetP payload
  match ← midiPayloadPack payload with
  | none => return none
  | some packed => midiPayloadUnpack (packed ++ journal)

/-- The receiver gets the flags and the octets of the command. -/
def PayloadRecovered (command : MidiCommand) (j z p : Bool) (journal : List UInt8) : Prop :=
  ∃ payload, payloadTransfer command j z p journal = .ok (some payload) ∧
    payload.header.j = j ∧ payload.header.z = z ∧ payload.header.p = p ∧
    payload.buffer = some (command.status :: command.data)

/-- Without the B flag the first octet gives back its flags and its low half. -/
theorem first_octet (j z p : Bool) (len : UInt16) (low : UInt8) (hlow : low ≤ 15) :
    (midiPayloadFlags ⟨false, j, z, p, len⟩ ||| low) &&& payloadHeaderB = 0 ∧
      (midiPayloadFlags ⟨false, j, z, p, len⟩ ||| low) &&& 0x0f = low ∧
      (midiPayloadReadFlags (midiPayloadFlags ⟨false, j, z, p, len⟩ ||| low)).header =
        ⟨false, j, z, p, 0⟩ := by
  have hall : ∀ (j z p : Bool) (low : UInt8), low ≤ 15 →
      (midiPayloadFlags ⟨false, j, z, p, 0⟩ ||| low) &&& payloadHeaderB = 0 ∧
        (midiPayloadFlags ⟨false, j, z, p, 0⟩ ||| low) &&& 0x0f = low ∧
        (midiPayloadReadFlags (midiPayloadFlags ⟨false, j, z, p, 0⟩ ||| low)).header =
          ⟨false, j, z, p, 0⟩ := by
    decide +kernel
  exact hall j z p low hlow

theorem high_length_octet (len : UInt16) : ((len &&& 0x0f00) >>> 8).toUInt8 ≤ 15 := by
  have hle : len.toNat &&& 0x0f00 ≤ 0x0f00 := Nat.and_le_right
  rw [UInt8.le_iff_toNat_le]
  simp only [UInt16.toNat_toUInt8, UInt16.toNat_shiftRight, UInt16.toNat_and]
  simp only [UInt16.reduceToNat, Nat.reduceMod, Nat.shiftRight_eq_div_pow, UInt8.reduceToNat]
  omega

theorem low_length_octet {len : UInt16} (h : len ≤ 15) :
    (len &&& 0x0f).toUInt8 ≤ 15 ∧ (len &&& 0x0f).toUInt8.toUInt16 = len := by
  have hle : len.toNat ≤ 15 := UInt16.le_iff_toNat_le.mp h
  have hmask : len.toNat &&& 15 = len.toNat := by
    rw [Nat.and_two_pow_sub_one_eq_mod len.toNat 4]
    omega
  have hnat : (len &&& 0x0f).toUInt8.toNat = len.toNat := by
    simp only [UInt16.toNat_toUInt8, UInt16.toNat_and, UInt16.reduceToNat, hmask]
    omega
  refine ⟨?_, ?_⟩
  · rw [UInt8.le_iff_toNat_le, hnat]
    exact hle
  · apply UInt16.toNat_inj.mp
    rw [UInt8.toNat_toUInt16, hnat]

/-- What is sent: header octets, then the command. -/
theorem transfer_eq {command : MidiCommand} (hstatus : 0x80 ≤ command.status)
    (hlength : command.data.length + 1 ≤ 4095) (j z p : Bool) (journal : List UInt8) :
    payloadTransfer command j z p journal =
      .ok (readPayload (midiPayloadHeaderPack
        ⟨false, j, z, p, UInt16.ofNat (command.data.length + 1)⟩ ++
          (command.status :: command.data) ++ journal)) := by
  have hpresent : ∀ status : UInt8, 0x80 ≤ status → status &&& 0x80 ≠ 0 := by decide +kernel
  have hlen : (UInt16.ofNat (command.data.length + 1)).toNat = command.data.length + 1 := by
    rw [UInt16.toNat_ofNat']
    omega
  have hfits : 0 + (UInt16.ofNat (command.data.length + 1)).toNat ≤
      (command.status :: command.data).length := by
    rw [hlen]
    simp
  have hload := load_ok hfits
  rw [hlen, List.drop_zero, List.take_of_length_le (by simp)] at hload
  have hpayload : midiCommandToPayload command =
      .ok ⟨⟨false, false, false, false, UInt16.ofNat (command.data.length + 1)⟩,
        some (command.status :: command.data)⟩ := by
    simp [midiCommandToPayload, midiPayloadSetBuffer, hpresent _ hstatus, midiPayloadCreate]
  cases j <;> cases z <;> cases p <;>
    simp only [payloadTransfer, hpayload, midiPayloadSetJ, midiPayloadSetZ, midiPayloadSetP,
      midiPayloadUnsetJ, midiPayloadUnsetZ, midiPayloadUnsetP, if_true, if_false,
      Bool.false_eq_true, midiPayloadPack, hlen, hload, unpack_eq, bind, Except.bind, pure,
      Except.pure]

/-- A payload whose length fits into four bits is read back, whatever lies behind it. -/
theorem readPayload_short (j z p : Bool) {len : UInt16} (hshort : len ≤ 15) (bytes : List UInt8)
    (hbytes : bytes.length = len.toNat) (journal : List UInt8) :
    readPayload (midiPayloadHeaderPack ⟨false, j, z, p, len⟩ ++ bytes ++ journal) =
      some ⟨⟨false, j, z, p, len⟩, some bytes⟩ := by
  obtain ⟨hsmall, hback⟩ := low_length_octet hshort
  obtain ⟨hb, hlow, hflags⟩ := first_octet j z p len _ hsmall
  simp only [midiPayloadHeaderPack, if_pos hshort, readPayload, payloadFrame, List.cons_append,
    List.nil_append, hb, if_true, hlow, hback, Option.bind_some, List.headD_cons, hflags]
  rw [if_pos (by simp [hbytes]; omega), List.drop_one, List.tail_cons,
    List.take_left' hbytes]

/-- Packing and unpacking gives the command back exactly when its length fits
into the four-bit field. -/
theorem payload_recovered_iff {command : MidiCommand} (hstatus : 0x80 ≤ command.status)
    (hlength : command.data.length + 1 ≤ 4095) (j z p : Bool) (journal : List UInt8) :
    PayloadRecovered command j z p journal ↔ command.data.length + 1 ≤ 15 := by
  have hlen : (UInt16.ofNat (command.data.length + 1)).toNat = command.data.length + 1 := by
    rw [UInt16.toNat_ofNat']
    omega
  have hhigh := high_length_octet (UInt16.ofNat (command.data.length + 1))
  unfold PayloadRecovered
  rw [transfer_eq hstatus hlength]
  generalize hn : UInt16.ofNat (command.data.length + 1) = len at hlen hhigh ⊢
  constructor
  · rintro ⟨payload, hread, -, -, -, hbuffer⟩
    by_contra hlong
    have hle : ¬ len ≤ 15 := by
      rw [UInt16.le_iff_toNat_le, hlen]
      exact hlong
    obtain ⟨hb, hlow, -⟩ := first_octet j z p len _ hhigh
    -- the length is read from the four low bits alone
    simp only [midiPayloadHeaderPack, if_neg hle, Except.ok.injEq, readPayload, payloadFrame,
      List.cons_append, hb, if_true, hlow, Option.bind_some] at hread
    rw [UInt8.le_iff_toNat_le] at hhigh
    split_ifs at hread
    · rw [Option.some.injEq] at hread
      subst hread
      have hcount := congrArg List.length (Option.some.inj hbuffer)
      simp only [List.length_take, UInt8.toNat_toUInt16, List.length_cons] at hcount
      have : (15 : UInt8).toNat = 15 := rfl
      omega
  · intro hshort
    have hle : len ≤ 15 := by
      rw [UInt16.le_iff_toNat_le, hlen]
      exact hshort
    have hread := readPayload_short j z p hle (command.status :: command.data)
      (by rw [hlen, List.length_cons]) journal
    exact ⟨_, congrArg Except.ok hread, rfl, rfl, rfl, rfl⟩

/-- A program change fits. -/
theorem payload_recovered_iff_program :
    PayloadRecovered ⟨0, 0xc0, [5]⟩ true false false [0x20] ↔ 1 + 1 ≤ 15 :=
  payload_recovered_iff (show 0x80 ≤ (⟨0, 0xc0, [5]⟩ : MidiCommand).status by decide) (by decide)
    true false false [0x20]

/-- A SysEx of sixteen octets arrives empty: its length is read as 16 >> 8. -/
theorem long_sysex_truncated :
    payloadTransfer ⟨0, 0xf0, List.replicate 14 0x01 ++ [0xf7]⟩ false false false [] =
        .ok (some ⟨⟨false, false, false, false, 0⟩, some []⟩) ∧
      ¬ PayloadRecovered ⟨0, 0xf0, List.replicate 14 0x01 ++ [0xf7]⟩ false false false [] := by
  have htransfer : payloadTransfer ⟨0, 0xf0, List.replicate 14 0x01 ++ [0xf7]⟩ false false false []
      = .ok (some ⟨⟨false, false, false, false, 0⟩, some []⟩) := by
    decide +kernel
  refine ⟨htransfer, ?_⟩
  rintro ⟨payload, hpayload, -, -, -, hbuffer⟩
  rw [htransfer, Except.ok.injEq, Option.some.injEq] at hpayload
  subst hpayload
  cases hbuffer

end RaveloxMidi
