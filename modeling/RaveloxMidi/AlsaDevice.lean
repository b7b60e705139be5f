import RaveloxMidi.ByteMemory

/-!
# ALSA devices and where a command came from

A device is told from another by a single number, made from its card and device
numbers. Every command carries such a number along with it, whatever it came
from, and an output with the same number is left out.
-/
namespace RaveloxMidi

/-- What `snd_rawmidi_info` says of an open handle; negative numbers are errors. -/
structure SndRawmidi where
  card : Int32
  device : Int32
  deriving Repr, DecidableEq

/-- `alsa.writeback` and `alsa.writeback.level`. -/
structure AlsaConfig where
  writeback : Bool
  level : Option (List UInt8)

/-- `tolower` on one octet. -/
def lowerCase (b : UInt8) : UInt8 := if 0x41 ≤ b ∧ b ≤ 0x5a then b + 0x20 else b

/-- `strncasecmp( text, word, strlen( word ) ) == 0`. -/
def beginsWith (word text : List UInt8) : Bool :=
  (text.take word.length).map lowerCase == word.map lowerCase

/-- "card" -/
def levelCard : List UInt8 := [0x63, 0x61, 0x72, 0x64]

/-- "device" -/
def levelDevice : List UInt8 := [0x64, 0x65, 0x76, 0x69, 0x63, 0x65]

/-- `card_multiplier` and `device_multiplier`. -/
def alsaMultipliers : Option (List UInt8) → Int32 × Int32
  | none => (4096, 1)
  | some level =>
    let multipliers := if beginsWith levelCard level then (1, 0) else (0, 0)
    if beginsWith levelDevice level then (4096, 1) else multipliers

/-- The sum and the products are taken in 32 bits. -/
def raveloxmidiAlsaDeviceHash (config : AlsaConfig) : Option SndRawmidi → Int32
  | none => -1
  | some handle =>
    if handle.card < 0 ∨ handle.device < 0 then -1
    else
      let multipliers := alsaMultipliers config.level
      handle.card * multipliers.1 + handle.device * multipliers.2

/-- The outputs that are written to. -/
def alsaWrites (config : AlsaConfig) (originatorDeviceHash : Int32) (handle : SndRawmidi) : Bool :=
  let deviceHash := raveloxmidiAlsaDeviceHash config (some handle)
  originatorDeviceHash ≠ deviceHash || config.writeback || deviceHash < 0

/-- What `raveloxmidi_alsa_write` hands to each output of the table, by its index. -/
def raveloxmidiAlsaWrite (config : AlsaConfig) (outputs : List SndRawmidi) (buffer : List UInt8)
    (originatorDeviceHash : Int32) : List (ℕ × List UInt8) :=
  (outputs.zipIdx.filter fun output => alsaWrites config originatorDeviceHash output.1).map
    fun output => (output.2, buffer)

/-- The two granularities that are documented. -/
inductive WritebackLevel where
  | card
  | device
  deriving Repr, DecidableEq

/-- What the level in the configuration stands for. -/
def writebackLevel : Option (List UInt8) → Option WritebackLevel
  | none => some .device
  | some text =>
    if beginsWith levelDevice text then some .device
    else if beginsWith levelCard text then some .card
    else none

/-- A device as alsa-lib reports it, with a device number that the pseudo-hash has room for. -/
structure SndRawmidi.Reported (level : WritebackLevel) (handle : SndRawmidi) : Prop where
  card : 0 ≤ handle.card
  device : 0 ≤ handle.device
  small : level = .device → handle.device < 4096

/-- The devices that are not told apart at a level. -/
def SameDevice : WritebackLevel → SndRawmidi → SndRawmidi → Prop
  | .card, a, b => a.card = b.card
  | .device, a, b => a.card = b.card ∧ a.device = b.device

/-- The card number as far as the multiplication by 4096 leaves it in 32 bits. -/
def cardResidue (handle : SndRawmidi) : ℤ := handle.card.toInt % 2 ^ 20

theorem multipliers_eq (level : Option (List UInt8)) :
    alsaMultipliers level = match writebackLevel level with
      | some .card => (1, 0)
      | some .device => (4096, 1)
      | none => (0, 0) := by
  cases level with
  | none => rfl
  | some text =>
    simp only [alsaMultipliers, writebackLevel]
    split_ifs <;> rfl

/-- A device that is reported has a number. -/
theorem hash_eq {config : AlsaConfig} {level : WritebackLevel} {handle : SndRawmidi}
    (h : handle.Reported level) :
    raveloxmidiAlsaDeviceHash config (some handle) =
      handle.card * (alsaMultipliers config.level).1 +
        handle.device * (alsaMultipliers config.level).2 := by
  have hvalid : ¬ (handle.card < 0 ∨ handle.device < 0) :=
    not_or.mpr ⟨Int32.not_lt.mpr h.card, Int32.not_lt.mpr h.device⟩
  rw [raveloxmidiAlsaDeviceHash, if_neg hvalid]

theorem hash_card {config : AlsaConfig} (hlevel : writebackLevel config.level = some .card)
    {handle : SndRawmidi} (h : handle.Reported .card) :
    raveloxmidiAlsaDeviceHash config (some handle) = handle.card := by
  rw [hash_eq h, multipliers_eq, hlevel]
  simp

theorem hash_device {config : AlsaConfig} (hlevel : writebackLevel config.level = some .device)
    {handle : SndRawmidi} (h : handle.Reported .device) :
    (raveloxmidiAlsaDeviceHash config (some handle)).toInt =
      (handle.card.toInt * 4096 + handle.device.toInt).bmod (2 ^ 32) := by
  have hfactor : (4096 : Int32).toInt = 4096 := by decide
  rw [hash_eq h, multipliers_eq, hlevel]
  simp only [Int32.mul_one, Int32.toInt_add, Int32.toInt_mul, hfactor, Int.bmod_add_bmod]

/-- Two devices with the same number have the same device number, and card numbers that
the pseudo-hash does not tell apart. -/
theorem hash_eq_iff {config : AlsaConfig} (hlevel : writebackLevel config.level = some .device)
    {a b : SndRawmidi} (ha : a.Reported .device) (hb : b.Reported .device) :
    raveloxmidiAlsaDeviceHash config (some a) = raveloxmidiAlsaDeviceHash config (some b) ↔
      a.device = b.device ∧ cardResidue a = cardResidue b := by
  have haDevice := Int32.le_iff_toInt_le.mp ha.device
  have hbDevice := Int32.le_iff_toInt_le.mp hb.device
  have haSmall := Int32.lt_iff_toInt_lt.mp (ha.small rfl)
  have hbSmall := Int32.lt_iff_toInt_lt.mp (hb.small rfl)
  have hzero : (0 : Int32).toInt = 0 := by decide
  have hbound : (4096 : Int32).toInt = 4096 := by decide
  rw [hzero] at haDevice hbDevice
  rw [hbound] at haSmall hbSmall
  rw [← Int32.toInt_inj, hash_device hlevel ha, hash_device hlevel hb, ← Int32.toInt_inj,
    Int.bmod_def, Int.bmod_def, cardResidue, cardResidue]
  constructor
  · intro h
    split_ifs at h <;> omega
  · rintro ⟨hdevice, hcard⟩
    have hsum : (a.card.toInt * 4096 + a.device.toInt) % ((2 ^ 32 : ℕ) : ℤ) =
        (b.card.toInt * 4096 + b.device.toInt) % ((2 ^ 32 : ℕ) : ℤ) := by
      omega
    rw [hsum]

/-- The number of a device is not negative exactly for the lower half of the card numbers
that are told apart. -/
theorem hash_nonneg_iff {config : AlsaConfig} (hlevel : writebackLevel config.level = some .device)
    {handle : SndRawmidi} (h : handle.Reported .device) :
    ¬ raveloxmidiAlsaDeviceHash config (some handle) < 0 ↔ cardResidue handle < 2 ^ 19 := by
  have hdevice := Int32.le_iff_toInt_le.mp h.device
  have hsmall := Int32.lt_iff_toInt_lt.mp (h.small rfl)
  have hzero : (0 : Int32).toInt = 0 := by decide
  have hbound : (4096 : Int32).toInt = 4096 := by decide
  rw [hzero] at hdevice
  rw [hbound] at hsmall
  rw [Int32.lt_iff_toInt_lt, hzero, hash_device hlevel h, Int.bmod_def, cardResidue]
  constructor
  · intro hnot
    split_ifs at hnot <;> omega
  · intro hhalf
    split_ifs <;> omega

end RaveloxMidi
