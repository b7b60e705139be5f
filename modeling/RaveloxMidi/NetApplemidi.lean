import RaveloxMidi.RtpPacket

/-!
# AppleMIDI commands

A command record has a data pointer to one of four structures. The record comes
from an allocation that is not cleared, and the reader sets the pointer only for
the command codes it knows; what is left unset is kept apart here from null.
-/
namespace RaveloxMidi
open ByteMemory

def netApplemidiCmdInv : UInt16 := 0x494e
def netApplemidiCmdSync : UInt16 := 0x434b
def netApplemidiCmdAccept : UInt16 := 0x4f4b
def netApplemidiCmdReject : UInt16 := 0x4e4f
def netApplemidiCmdEnd : UInt16 := 0x4259
def netApplemidiCmdFeedback : UInt16 := 0x5253
def netApplemidiCmdBitrate : UInt16 := 0x524c

def netApplemidiCommandSize : ℕ := 4
def netApplemidiInvStaticSize : ℕ := 16
def netApplemidiSyncSize : ℕ := 36
def netApplemidiFeedbackSize : ℕ := 8
def netApplemidiBitrateSize : ℕ := 8

/-- `sizeof( char * )`. -/
def pointerSize : ℕ := 8

/-- `sizeof( net_applemidi_sync )`: eight octets and three 64-bit timestamps. -/
def netApplemidiSyncStructSize : ℕ := 32

inductive NetApplemidiRet where
  | done
  | needData
  deriving Repr, DecidableEq

/-- A name is kept without its terminator. -/
structure NetApplemidiInv where
  ssrc : UInt32
  version : UInt32
  initiator : UInt32
  name : Option (List UInt8)
  deriving Repr, DecidableEq

/-- `count` has type `char`, which is taken to be signed. -/
structure NetApplemidiSync where
  ssrc : UInt32
  count : Int8
  padding : Fin 3 → UInt8
  timestamp1 : UInt64
  timestamp2 : UInt64
  timestamp3 : UInt64
  deriving DecidableEq

structure NetApplemidiFeedback where
  ssrc : UInt32
  appleSeq : UInt32
  deriving Repr, DecidableEq

/-- `rtp_seq[1]` of the union with `apple_seq`, on a little-endian machine. -/
def NetApplemidiFeedback.rtpSeq1 (feedback : NetApplemidiFeedback) : UInt16 :=
  (feedback.appleSeq >>> 16).toUInt16

def NetApplemidiFeedback.setRtpSeq1 (feedback : NetApplemidiFeedback) (seq : UInt16) :
    NetApplemidiFeedback :=
  { feedback with appleSeq := (seq.toUInt32 <<< 16) ||| (feedback.appleSeq &&& 0xffff) }

structure NetApplemidiBitrate where
  ssrc : UInt32
  limit : UInt32
  deriving Repr, DecidableEq

/-- What the data pointer of a command leads to. -/
inductive NetApplemidiData where
  | unset
  | null
  | inv (inv : NetApplemidiInv)
  | sync (sync : NetApplemidiSync)
  | feedback (feedback : NetApplemidiFeedback)
  | bitrate (bitrate : NetApplemidiBitrate)
  deriving DecidableEq

structure NetApplemidiCommand where
  signature : UInt16
  command : UInt16
  data : NetApplemidiData
  deriving DecidableEq

namespace NetApplemidiData

/-- The pointer as one to an invitation; any other structure is not one. -/
def asInv : NetApplemidiData → Except Fault (Option NetApplemidiInv)
  | unset => .error .uninitialised
  | null => .ok none
  | inv data => .ok (some data)
  | _ => .error .outOfBounds

def asSync : NetApplemidiData → Except Fault (Option NetApplemidiSync)
  | unset => .error .uninitialised
  | null => .ok none
  | sync data => .ok (some data)
  | _ => .error .outOfBounds

def asFeedback : NetApplemidiData → Except Fault (Option NetApplemidiFeedback)
  | unset => .error .uninitialised
  | null => .ok none
  | feedback data => .ok (some data)
  | _ => .error .outOfBounds

def asBitrate : NetApplemidiData → Except Fault (Option NetApplemidiBitrate)
  | unset => .error .uninitialised
  | null => .ok none
  | bitrate data => .ok (some data)
  | _ => .error .outOfBounds

end NetApplemidiData

/-- The codes whose data is a `net_applemidi_inv`. -/
def IsInvCommand (command : UInt16) : Prop :=
  command = netApplemidiCmdInv ∨ command = netApplemidiCmdAccept ∨
    command = netApplemidiCmdReject ∨ command = netApplemidiCmdEnd

instance (command : UInt16) : Decidable (IsInvCommand command) :=
  inferInstanceAs (Decidable (_ ∨ _))

def netApplemidiCmdCreate (command : UInt16) : NetApplemidiCommand := ⟨0xffff, command, .null⟩

/-- `cmd->data = data`. -/
def NetApplemidiCommand.setData (command : NetApplemidiCommand) (data : NetApplemidiData) :
    NetApplemidiCommand :=
  { command with data := data }

/-- The data pointer is looked at for every command, whatever its code. -/
def netApplemidiCmdDestroy (command : NetApplemidiCommand) : Except Fault Unit :=
  match command.data with
  | .unset => .error .uninitialised
  | _ => .ok ()

/-- What a reader leaves behind. `none` is the null command. -/
structure NetApplemidiUnpacked where
  ret : NetApplemidiRet
  command : Option NetApplemidiCommand
  cursor : Cursor
  deriving DecidableEq

/-- `X_STRDUP( p )`: the octets up to the first zero, wherever that is; the count
is set to zero afterwards. -/
def getName (r : Region) (c : Cursor) : List UInt8 × Cursor :=
  let name := ((r.block ++ r.beyond).drop c.pos).takeWhile (· ≠ 0)
  (name, ⟨c.pos + name.length + 1, 0,
    c.strayed || decide (r.block.length < c.pos + name.length + 1)⟩)

/-- The fixed part of an invitation is compared with 16 - 8 octets. -/
def netApplemidiUnpackInv (r : Region) (signature command : UInt16) (c : Cursor) :
    NetApplemidiUnpacked :=
  if c.left < netApplemidiInvStaticSize - pointerSize then ⟨.needData, none, c⟩
  else
    let (version, c) := getUint32 r c
    let (initiator, c) := getUint32 r c
    let (ssrc, c) := getUint32 r c
    if c.left > 0 then
      let (name, c) := getName r c
      ⟨.done, some ⟨signature, command, .inv ⟨ssrc, version, initiator, some name⟩⟩, c⟩
    else ⟨.done, some ⟨signature, command, .inv ⟨ssrc, version, initiator, none⟩⟩, c⟩

def netApplemidiUnpackFeedback (r : Region) (signature command : UInt16) (c : Cursor) :
    NetApplemidiUnpacked :=
  if c.left < netApplemidiFeedbackSize then ⟨.needData, none, c⟩
  else
    let (ssrc, c) := getUint32 r c
    let (appleSeq, c) := getUint32 r c
    ⟨.done, some ⟨signature, command, .feedback ⟨ssrc, appleSeq⟩⟩, c⟩

def netApplemidiUnpackBitrate (r : Region) (signature command : UInt16) (c : Cursor) :
    NetApplemidiUnpacked :=
  if c.left < netApplemidiBitrateSize then ⟨.needData, none, c⟩
  else
    let (ssrc, c) := getUint32 r c
    let (limit, c) := getUint32 r c
    ⟨.done, some ⟨signature, command, .bitrate ⟨ssrc, limit⟩⟩, c⟩

def netApplemidiUnpackSync (r : Region) (signature command : UInt16) (c : Cursor) :
    NetApplemidiUnpacked :=
  if c.left < netApplemidiSyncStructSize then ⟨.needData, none, c⟩
  else
    let (ssrc, c) := getUint32 r c
    let (count, c) := c.take r 1
    let (padding, c) := c.take r 3
    let (timestamp1, c) := getUint64 r c
    let (timestamp2, c) := getUint64 r c
    let (timestamp3, c) := getUint64 r c
    ⟨.done, some ⟨signature, command, .sync ⟨ssrc, (count.headD 0).toInt8,
      fun i => padding.getD i 0, timestamp1, timestamp2, timestamp3⟩⟩, c⟩

/-- A code that none of the branches knows leaves its data unset. -/
def netApplemidiUnpack (r : Region) : NetApplemidiUnpacked :=
  let c := Cursor.start r
  if c.left < netApplemidiCommandSize then ⟨.needData, none, c⟩
  else
    let (signature, c) := getUint16 r c
    let (command, c) := getUint16 r c
    if IsInvCommand command then netApplemidiUnpackInv r signature command c
    else if command = netApplemidiCmdFeedback then netApplemidiUnpackFeedback r signature command c
    else if command = netApplemidiCmdBitrate then netApplemidiUnpackBitrate r signature command c
    else if command = netApplemidiCmdSync then netApplemidiUnpackSync r signature command c
    else ⟨.done, some ⟨signature, command, .unset⟩, c⟩

/-- The invitation part of `net_applemidi_pack`. -/
def netApplemidiPackInv (out : Writer) (inv : NetApplemidiInv) : Except Fault Writer := do
  let out := out.resize (netApplemidiCommandSize + netApplemidiInvStaticSize)
  let out ← out.putAll [putUint32 inv.version, putUint32 inv.initiator, putUint32 inv.ssrc]
  match inv.name with
  | none => return out
  | some name => (out.resize (out.len + name.length + 1)).putAll [name, [0]]

def netApplemidiPackSync (out : Writer) (sync : NetApplemidiSync) : Except Fault Writer :=
  (out.resize (netApplemidiCommandSize + netApplemidiSyncSize)).putAll
    [putUint32 sync.ssrc, [sync.count.toUInt8], List.ofFn sync.padding,
      putUint64 sync.timestamp1, putUint64 sync.timestamp2, putUint64 sync.timestamp3]

/-- Two 32-bit words behind the command: the feedback and the bitrate command. -/
def netApplemidiPackPair (out : Writer) (size : ℕ) (first second : UInt32) : Except Fault Writer :=
  (out.resize (netApplemidiCommandSize + size)).putAll [putUint32 first, putUint32 second]

/-- `none` is a null buffer; the null data of a synchronisation is not checked for. -/
def netApplemidiPack (command : NetApplemidiCommand) : Except Fault (Option (List UInt8)) := do
  let out ← (Writer.alloc netApplemidiCommandSize).putAll
    [putUint16 command.signature, putUint16 command.command]
  if IsInvCommand command.command then
    match ← command.data.asInv with
    | none => return none
    | some inv => return some (← netApplemidiPackInv out inv).written
  else if command.command = netApplemidiCmdFeedback then
    match ← command.data.asFeedback with
    | none => return none
    | some feedback =>
      return some (← netApplemidiPackPair out netApplemidiFeedbackSize feedback.ssrc
        feedback.appleSeq).written
  else if command.command = netApplemidiCmdBitrate then
    match ← command.data.asBitrate with
    | none => return none
    | some bitrate =>
      return some (← netApplemidiPackPair out netApplemidiBitrateSize bitrate.ssrc
        bitrate.limit).written
  else if command.command = netApplemidiCmdSync then
    match ← command.data.asSync with
    | none => .error .nullPointer
    | some sync => return some (← netApplemidiPackSync out sync).written
  else return some out.written

/-- The data behind a command that the reader knows. -/
def NetApplemidiData.Fits (data : NetApplemidiData) (command : UInt16) : Prop :=
  if IsInvCommand command then ∃ inv, data = .inv inv
  else if command = netApplemidiCmdFeedback then ∃ feedback, data = .feedback feedback
  else if command = netApplemidiCmdBitrate then ∃ bitrate, data = .bitrate bitrate
  else if command = netApplemidiCmdSync then ∃ sync, data = .sync sync
  else False

/-- The number of octets the reader asks for behind a command code it knows. -/
def commandRoom (command : UInt16) : Option ℕ :=
  if IsInvCommand command then some (netApplemidiInvStaticSize - pointerSize)
  else if command = netApplemidiCmdFeedback then some netApplemidiFeedbackSize
  else if command = netApplemidiCmdBitrate then some netApplemidiBitrateSize
  else if command = netApplemidiCmdSync then some netApplemidiSyncStructSize
  else none

/-- What a reader for one kind of command does with the octets in front of it. -/
def ReadsData (command : UInt16) (room left : ℕ) (unpacked : NetApplemidiUnpacked) : Prop :=
  (left < room ∧ unpacked.command = none) ∨
    (room ≤ left ∧ ∃ signature data,
      unpacked.command = some ⟨signature, command, data⟩ ∧ data.Fits command)

section Unpack
variable {r : Region} {c : Cursor} (signature : UInt16) {command : UInt16}

theorem unpackInv_reads (h : IsInvCommand command) :
    ReadsData command (netApplemidiInvStaticSize - pointerSize) c.left
      (netApplemidiUnpackInv r signature command c) := by
  unfold netApplemidiUnpackInv
  by_cases hshort : c.left < netApplemidiInvStaticSize - pointerSize
  · exact .inl ⟨hshort, by rw [if_pos hshort]⟩
  · refine .inr ⟨not_lt.mp hshort, ?_⟩
    rw [if_neg hshort]
    simp only [NetApplemidiData.Fits, if_pos h]
    split_ifs
    · exact ⟨_, _, rfl, _, rfl⟩
    · exact ⟨_, _, rfl, _, rfl⟩

theorem unpackFeedback_reads :
    ReadsData netApplemidiCmdFeedback netApplemidiFeedbackSize c.left
      (netApplemidiUnpackFeedback r signature netApplemidiCmdFeedback c) := by
  unfold netApplemidiUnpackFeedback
  by_cases hshort : c.left < netApplemidiFeedbackSize
  · exact .inl ⟨hshort, by rw [if_pos hshort]⟩
  · rw [if_neg hshort]
    exact .inr ⟨not_lt.mp hshort, _, _, rfl, _, rfl⟩

theorem unpackBitrate_reads :
    ReadsData netApplemidiCmdBitrate netApplemidiBitrateSize c.left
      (netApplemidiUnpackBitrate r signature netApplemidiCmdBitrate c) := by
  unfold netApplemidiUnpackBitrate
  by_cases hshort : c.left < netApplemidiBitrateSize
  · exact .inl ⟨hshort, by rw [if_pos hshort]⟩
  · rw [if_neg hshort]
    exact .inr ⟨not_lt.mp hshort, _, _, rfl, _, rfl⟩

theorem unpackSync_reads :
    ReadsData netApplemidiCmdSync netApplemidiSyncStructSize c.left
      (netApplemidiUnpackSync r signature netApplemidiCmdSync c) := by
  unfold netApplemidiUnpackSync
  by_cases hshort : c.left < netApplemidiSyncStructSize
  · exact .inl ⟨hshort, by rw [if_pos hshort]⟩
  · rw [if_neg hshort]
    exact .inr ⟨not_lt.mp hshort, _, _, rfl, _, rfl⟩

theorem unpack_short (h : r.block.length < netApplemidiCommandSize) :
    (netApplemidiUnpack r).command = none := by
  rw [netApplemidiUnpack, if_pos (show (Cursor.start r).left < _ from h)]

/-- A reader that knows the code produces the command exactly when the octets it
asks for are there; for an unknown code the data stays unset. -/
theorem unpack_reads (h : netApplemidiCommandSize ≤ r.block.length) {code : UInt16}
    (hcode : code = UInt16.ofNat (wordAt r.block 2 2)) :
    (∃ room, commandRoom code = some room ∧
      ReadsData code room (r.block.length - netApplemidiCommandSize) (netApplemidiUnpack r)) ∨
    (commandRoom code = none ∧
      ∃ signature, (netApplemidiUnpack r).command = some ⟨signature, code, .unset⟩) := by
  unfold netApplemidiCommandSize at h
  have hstart : (Cursor.start r).At r (r.block.drop 0) := Cursor.start_at r
  obtain ⟨c₁, hsignature, hc₁⟩ := getUint16_at hstart (by omega)
  obtain ⟨c₂, hcommand, hc₂⟩ := getUint16_at hc₁ (by omega)
  have hleft : r.block.length - netApplemidiCommandSize = c₂.left := by
    rw [hc₂.left_eq, List.length_drop]
    rfl
  have hlong : ¬ (Cursor.start r).left < netApplemidiCommandSize := not_lt.mpr h
  unfold netApplemidiUnpack
  simp only [if_neg hlong, hsignature, hcommand, Nat.zero_add, hleft, ← hcode]
  unfold commandRoom
  by_cases hinv : IsInvCommand code
  · simp only [if_pos hinv]
    exact .inl ⟨_, rfl, unpackInv_reads _ hinv⟩
  · simp only [if_neg hinv]
    by_cases hfeedback : code = netApplemidiCmdFeedback
    · subst hfeedback
      exact .inl ⟨_, rfl, unpackFeedback_reads _⟩
    · simp only [if_neg hfeedback]
      by_cases hbitrate : code = netApplemidiCmdBitrate
      · subst hbitrate
        exact .inl ⟨_, rfl, unpackBitrate_reads _⟩
      · simp only [if_neg hbitrate]
        by_cases hsync : code = netApplemidiCmdSync
        · subst hsync
          exact .inl ⟨_, rfl, unpackSync_reads _⟩
        · simp only [if_neg hsync]
          exact .inr ⟨trivial, _, rfl⟩

end Unpack

/-- A command whose data fits its code is destroyed without a fault. -/
theorem destroy_fits {command : NetApplemidiCommand} (h : command.data.Fits command.command) :
    netApplemidiCmdDestroy command = .ok () := by
  unfold netApplemidiCmdDestroy
  split
  · next hunset =>
    rw [hunset] at h
    unfold NetApplemidiData.Fits at h
    split_ifs at h <;> simp at h
  · rfl

section Pack
variable (signature command : UInt16)

/-- The four octets every packet starts with. -/
def commandOctets : List UInt8 := putUint16 signature ++ putUint16 command

theorem packCommand_holds : ∃ out,
    (Writer.alloc netApplemidiCommandSize).putAll [putUint16 signature, putUint16 command] =
        .ok out ∧
      out.Holds (commandOctets signature command) 0 := by
  have hall := (Writer.alloc_holds netApplemidiCommandSize).putAll
    [putUint16 signature, putUint16 command]
    (by simp [netApplemidiCommandSize])
  simpa [commandOctets, netApplemidiCommandSize] using hall

/-- The octets of an invitation, with a terminated name if there is one. -/
def invOctets (inv : NetApplemidiInv) : List UInt8 :=
  putUint32 inv.version ++ putUint32 inv.initiator ++ putUint32 inv.ssrc ++
    (inv.name.map (· ++ [0])).getD []

theorem packInv_ok {command : UInt16} (h : IsInvCommand command) (inv : NetApplemidiInv) :
    netApplemidiPack ⟨signature, command, .inv inv⟩ =
      .ok (some (commandOctets signature command ++ invOctets inv)) := by
  obtain ⟨out, hout, hholds⟩ := packCommand_holds signature command
  have hgrown := hholds.resize (netApplemidiCommandSize + netApplemidiInvStaticSize)
    (by simp [commandOctets, netApplemidiCommandSize])
  obtain ⟨fixed, hfixed, hfixedHolds⟩ := hgrown.putAll
    [putUint32 inv.version, putUint32 inv.initiator, putUint32 inv.ssrc]
    (by simp [commandOctets, netApplemidiCommandSize, netApplemidiInvStaticSize])
  simp only [netApplemidiPack, hout, if_pos h, NetApplemidiData.asInv, netApplemidiPackInv, hfixed,
    bind, Except.bind, pure, Except.pure]
  cases hname : inv.name with
  | none =>
    simp only [hfixedHolds.written_eq]
    simp [invOctets, hname]
  | some name =>
    have hroom := hfixedHolds.resize (fixed.len + name.length + 1)
      (by rw [hfixedHolds.len]; omega)
    obtain ⟨named, hnamed, hnamedHolds⟩ := hroom.putAll [name, [0]]
      (by rw [hfixedHolds.len]; simp; omega)
    simp only [hnamed, hnamedHolds.written_eq]
    simp [invOctets, hname]

/-- The octets of two 32-bit words behind a command. -/
theorem packPair_ok {out : Writer} {bytes : List UInt8} (h : out.Holds bytes 0)
    (hbytes : bytes.length = netApplemidiCommandSize) (first second : UInt32) :
    ∃ t, netApplemidiPackPair out 8 first second = .ok t ∧
      t.written = bytes ++ (putUint32 first ++ putUint32 second) := by
  have hgrown := h.resize (netApplemidiCommandSize + 8) (by omega)
  obtain ⟨t, hall, ht⟩ := hgrown.putAll [putUint32 first, putUint32 second]
    (by simp; omega)
  exact ⟨t, hall, by simpa using ht.written_eq⟩

theorem packFeedback_ok (feedback : NetApplemidiFeedback) :
    netApplemidiPack ⟨signature, netApplemidiCmdFeedback, .feedback feedback⟩ =
      .ok (some (commandOctets signature netApplemidiCmdFeedback ++
        (putUint32 feedback.ssrc ++ putUint32 feedback.appleSeq))) := by
  obtain ⟨out, hout, hholds⟩ := packCommand_holds signature netApplemidiCmdFeedback
  obtain ⟨t, hpair, ht⟩ := packPair_ok hholds (by simp [commandOctets, netApplemidiCommandSize])
    feedback.ssrc feedback.appleSeq
  have hcode : ¬ IsInvCommand netApplemidiCmdFeedback := by decide
  rw [netApplemidiPack, hout]
  simp only [if_neg hcode, if_true, NetApplemidiData.asFeedback, netApplemidiFeedbackSize, hpair,
    ht, bind, Except.bind, pure, Except.pure]

theorem packBitrate_ok (bitrate : NetApplemidiBitrate) :
    netApplemidiPack ⟨signature, netApplemidiCmdBitrate, .bitrate bitrate⟩ =
      .ok (some (commandOctets signature netApplemidiCmdBitrate ++
        (putUint32 bitrate.ssrc ++ putUint32 bitrate.limit))) := by
  obtain ⟨out, hout, hholds⟩ := packCommand_holds signature netApplemidiCmdBitrate
  obtain ⟨t, hpair, ht⟩ := packPair_ok hholds (by simp [commandOctets, netApplemidiCommandSize])
    bitrate.ssrc bitrate.limit
  have hinv : ¬ IsInvCommand netApplemidiCmdBitrate := by decide
  have hfeedback : ¬ netApplemidiCmdBitrate = netApplemidiCmdFeedback := by decide
  rw [netApplemidiPack, hout]
  simp only [if_neg hinv, if_neg hfeedback, if_true, NetApplemidiData.asBitrate,
    netApplemidiBitrateSize, hpair, ht, bind, Except.bind, pure, Except.pure]

/-- The octets of a synchronisation; the count and the padding are copied as they are. -/
def syncOctets (sync : NetApplemidiSync) : List UInt8 :=
  putUint32 sync.ssrc ++ ([sync.count.toUInt8] ++ (List.ofFn sync.padding ++
    (putUint64 sync.timestamp1 ++ (putUint64 sync.timestamp2 ++ putUint64 sync.timestamp3))))

theorem packSync_ok (sync : NetApplemidiSync) :
    netApplemidiPack ⟨signature, netApplemidiCmdSync, .sync sync⟩ =
      .ok (some (commandOctets signature netApplemidiCmdSync ++ syncOctets sync)) := by
  obtain ⟨out, hout, hholds⟩ := packCommand_holds signature netApplemidiCmdSync
  have hgrown := hholds.resize (netApplemidiCommandSize + netApplemidiSyncSize)
    (by simp [commandOctets, netApplemidiCommandSize])
  obtain ⟨t, hall, ht⟩ := hgrown.putAll
    [putUint32 sync.ssrc, [sync.count.toUInt8], List.ofFn sync.padding,
      putUint64 sync.timestamp1, putUint64 sync.timestamp2, putUint64 sync.timestamp3]
    (by simp [commandOctets, netApplemidiCommandSize, netApplemidiSyncSize])
  have hinv : ¬ IsInvCommand netApplemidiCmdSync := by decide
  have hfeedback : ¬ netApplemidiCmdSync = netApplemidiCmdFeedback := by decide
  have hbitrate : ¬ netApplemidiCmdSync = netApplemidiCmdBitrate := by decide
  simp only [netApplemidiPack, hout, if_neg hinv, if_neg hfeedback, if_neg hbitrate, if_true,
    NetApplemidiData.asSync, netApplemidiPackSync, hall, ht.written_eq, bind, Except.bind, pure,
    Except.pure]
  simp [syncOctets]

end Pack

/-- The octets of a synchronisation, whatever follows the command. -/
def SyncPacket (packet : List UInt8) : Prop :=
  ∃ rest, packet = putUint16 0xffff ++ (putUint16 netApplemidiCmdSync ++ rest)

namespace SyncPacket

theorem packed (sync : NetApplemidiSync) :
    SyncPacket (commandOctets 0xffff netApplemidiCmdSync ++ syncOctets sync) :=
  ⟨syncOctets sync, List.append_assoc _ _ _⟩

variable {packet : List UInt8} (h : SyncPacket packet)
include h

theorem take (n : ℕ) : SyncPacket (packet.take (4 + n)) := by
  obtain ⟨rest, rfl⟩ := h
  obtain ⟨front, hfront⟩ : ∃ front, front =
    putUint16 0xffff ++ putUint16 netApplemidiCmdSync := ⟨_, rfl⟩
  have hlength : front.length = 4 := by simp [hfront]
  refine ⟨rest.take n, ?_⟩
  rw [← List.append_assoc, ← List.append_assoc, ← hfront, ← hlength,
    List.take_length_add_append]

/-- The reader gives back a synchronisation or nothing. -/
theorem unpack (beyond : List UInt8) :
    (netApplemidiUnpack ⟨packet, beyond⟩).command = none ∨
      ∃ signature sync, (netApplemidiUnpack ⟨packet, beyond⟩).command =
        some ⟨signature, netApplemidiCmdSync, .sync sync⟩ := by
  obtain ⟨rest, rfl⟩ := h
  have hword : wordAt (putUint16 0xffff ++ (putUint16 netApplemidiCmdSync ++ rest)) 2 2 =
      ofOctets (putUint16 netApplemidiCmdSync) :=
    wordAt_append (putUint16_length _) (putUint16_length _)
  have hcode : netApplemidiCmdSync = UInt16.ofNat
      (wordAt (putUint16 0xffff ++ (putUint16 netApplemidiCmdSync ++ rest)) 2 2) := by
    rw [hword]
    rfl
  rcases unpack_reads (r := ⟨_, beyond⟩) (by simp [netApplemidiCommandSize]; omega) hcode with
    ⟨room, -, ⟨-, hnone⟩ | ⟨-, signature, data, hsome, hfits⟩⟩ | ⟨hunknown, -⟩
  · exact .inl hnone
  · obtain ⟨sync, rfl⟩ := hfits
    exact .inr ⟨signature, sync, hsome⟩
  · cases hunknown

end SyncPacket

/-- The reader for the code of a command starts behind the command. -/
theorem unpack_command {r : Region} {signature command : UInt16} {body : List UInt8}
    (hblock : r.block = commandOctets signature command ++ body) :
    ∃ c, c.At r body ∧ netApplemidiUnpack r =
      if IsInvCommand command then netApplemidiUnpackInv r signature command c
      else if command = netApplemidiCmdFeedback then
        netApplemidiUnpackFeedback r signature command c
      else if command = netApplemidiCmdBitrate then netApplemidiUnpackBitrate r signature command c
      else if command = netApplemidiCmdSync then netApplemidiUnpackSync r signature command c
      else ⟨.done, some ⟨signature, command, .unset⟩, c⟩ := by
  have hstart := Cursor.start_at r
  rw [hblock, commandOctets, List.append_assoc] at hstart
  obtain ⟨c₁, hsignature, hc₁⟩ := getUint16_put hstart
  obtain ⟨c₂, hcommand, hc₂⟩ := getUint16_put hc₁
  have hlong : ¬ (Cursor.start r).left < netApplemidiCommandSize := by
    rw [show (Cursor.start r).left = r.block.length from rfl, hblock]
    simp [commandOctets, netApplemidiCommandSize]
    omega
  refine ⟨c₂, hc₂, ?_⟩
  rw [netApplemidiUnpack, if_neg hlong]
  simp only [hsignature, hcommand]

/-- Two words behind a command. -/
theorem getPair_put {r : Region} {c : Cursor} {first second : UInt32}
    (h : c.At r (putUint32 first ++ putUint32 second)) :
    c.left = 8 ∧ ∃ d e, getUint32 r c = (first, d) ∧ getUint32 r d = (second, e) ∧
      e.strayed = false := by
  rw [← List.append_nil (putUint32 second)] at h
  obtain ⟨d, hfirst, hd⟩ := getUint32_put h
  obtain ⟨e, hsecond, he⟩ := getUint32_put hd
  refine ⟨?_, d, e, hfirst, hsecond, he.strayed⟩
  rw [h.left_eq]
  simp

/-- A feedback command comes back from its octets, whatever lies behind them. -/
theorem unpackFeedback_packed (signature : UInt16) (feedback : NetApplemidiFeedback)
    (beyond : List UInt8) :
    ∃ c, netApplemidiUnpack ⟨commandOctets signature netApplemidiCmdFeedback ++
        (putUint32 feedback.ssrc ++ putUint32 feedback.appleSeq), beyond⟩ =
          ⟨.done, some ⟨signature, netApplemidiCmdFeedback, .feedback feedback⟩, c⟩ ∧
      c.strayed = false := by
  obtain ⟨r, hr⟩ : ∃ r : Region, r = ⟨commandOctets signature netApplemidiCmdFeedback ++
      (putUint32 feedback.ssrc ++ putUint32 feedback.appleSeq), beyond⟩ := ⟨_, rfl⟩
  obtain ⟨c, hc, hunpack⟩ := unpack_command (r := r) (by rw [hr])
  obtain ⟨hleft, d, e, hssrc, hseq, hinside⟩ := getPair_put hc
  have hroom : ¬ c.left < netApplemidiFeedbackSize := by
    rw [hleft, netApplemidiFeedbackSize]
    omega
  have hcode : ¬ IsInvCommand netApplemidiCmdFeedback := by decide
  refine ⟨e, ?_, hinside⟩
  rw [← hr, hunpack]
  simp only [if_neg hcode, if_true, netApplemidiUnpackFeedback, if_neg hroom, hssrc, hseq]

/-- The octets of a command of the invitation family with an SSRC and a token, whatever
name follows. -/
def InvPacket (command : UInt16) (ssrc initiator : UInt32) (packet : List UInt8) : Prop :=
  ∃ version rest, packet = putUint16 0xffff ++ (putUint16 command ++
    (putUint32 version ++ (putUint32 initiator ++ (putUint32 ssrc ++ rest))))

namespace InvPacket
variable {command : UInt16} {ssrc initiator : UInt32} {packet : List UInt8}

theorem packed (command : UInt16) (inv : NetApplemidiInv) :
    InvPacket command inv.ssrc inv.initiator (commandOctets 0xffff command ++ invOctets inv) :=
  ⟨inv.version, (inv.name.map (· ++ [0])).getD [], by simp [commandOctets, invOctets]⟩

/-- What the socket reads of a long packet has the same fixed part. -/
theorem take (h : InvPacket command ssrc initiator packet) (n : ℕ) :
    InvPacket command ssrc initiator (packet.take (16 + n)) := by
  obtain ⟨version, rest, rfl⟩ := h
  obtain ⟨front, hfront⟩ : ∃ front, front = putUint16 0xffff ++ (putUint16 command ++
    (putUint32 version ++ (putUint32 initiator ++ putUint32 ssrc))) := ⟨_, rfl⟩
  have hlength : front.length = 16 := by simp [hfront]
  refine ⟨version, rest.take n, ?_⟩
  have hsplit : putUint16 0xffff ++ (putUint16 command ++ (putUint32 version ++
      (putUint32 initiator ++ (putUint32 ssrc ++ rest)))) = front ++ rest := by
    simp [hfront]
  rw [hsplit, ← hlength, List.take_length_add_append, hfront]
  simp

/-- The reader gives back the SSRC and the token. -/
theorem unpack (h : InvPacket command ssrc initiator packet) (hcommand : IsInvCommand command)
    (beyond : List UInt8) :
    ∃ version name, (netApplemidiUnpack ⟨packet, beyond⟩).command =
      some ⟨0xffff, command, .inv ⟨ssrc, version, initiator, name⟩⟩ := by
  obtain ⟨version, rest, hpacket⟩ := h
  obtain ⟨r, hr⟩ : ∃ r : Region, r = ⟨packet, beyond⟩ := ⟨_, rfl⟩
  have hblock : r.block = commandOctets 0xffff command ++
      (putUint32 version ++ (putUint32 initiator ++ (putUint32 ssrc ++ rest))) := by
    rw [hr, hpacket, commandOctets, List.append_assoc]
  obtain ⟨c₂, hc₂, hunpack⟩ := unpack_command hblock
  obtain ⟨c₃, hversion, hc₃⟩ := getUint32_put hc₂
  obtain ⟨c₄, hinitiator, hc₄⟩ := getUint32_put hc₃
  obtain ⟨c₅, hssrc, -⟩ := getUint32_put hc₄
  have hroom : ¬ c₂.left < netApplemidiInvStaticSize - pointerSize := by
    rw [hc₂.left_eq]
    simp [netApplemidiInvStaticSize, pointerSize]
    omega
  rw [← hr, hunpack]
  simp only [if_pos hcommand, netApplemidiUnpackInv, if_neg hroom, hversion, hinitiator, hssrc]
  split_ifs
  · exact ⟨version, _, rfl⟩
  · exact ⟨version, none, rfl⟩

end InvPacket

end RaveloxMidi
