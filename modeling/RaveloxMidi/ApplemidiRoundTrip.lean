import RaveloxMidi.NetApplemidi

/-!
# What the AppleMIDI packer writes, the reader gives back

One packer and one reader serve seven kinds of command. The packer grows its
block kind by kind and the reader asks for a size kind by kind; for each kind the
two agree octet for octet, and the reader never leaves the block.
-/
namespace RaveloxMidi
open ByteMemory

/-- A C string: no octet of it is zero. -/
def IsCString (name : List UInt8) : Prop := ∀ b ∈ name, b ≠ 0

/-- A command of a kind that carries data, with the data of its kind. -/
structure NetApplemidiCommand.WellFormed (command : NetApplemidiCommand) : Prop where
  fits : command.data.Fits command.command
  name : ∀ inv, command.data = .inv inv → ∀ name ∈ inv.name, IsCString name

/-- The name runs up to its terminator and no further. -/
theorem getName_at {r : Region} {c : Cursor} {name : List UInt8} (hname : IsCString name)
    (h : c.At r (name ++ [0])) :
    ∃ d, getName r c = (name, d) ∧ d.strayed = false := by
  have hlength := congrArg List.length h.rest_eq
  rw [List.length_drop, List.length_append, List.length_singleton] at hlength
  have hfound : ((r.block ++ r.beyond).drop c.pos).takeWhile (· ≠ 0) = name := by
    rw [List.drop_append_of_le_length h.inside, h.rest_eq, List.append_assoc,
      List.takeWhile_append_of_pos (fun b hb => decide_eq_true (hname b hb))]
    simp
  refine ⟨_, by rw [getName, hfound], ?_⟩
  simp only [h.strayed, Bool.false_or, decide_eq_false_iff_not]
  omega

section Kinds
variable (signature : UInt16) {command : UInt16} {r : Region} {c : Cursor}

theorem unpackInv_packed {inv : NetApplemidiInv} (hname : ∀ name ∈ inv.name, IsCString name)
    (h : c.At r (invOctets inv)) :
    ∃ d, netApplemidiUnpackInv r signature command c =
        ⟨.done, some ⟨signature, command, .inv inv⟩, d⟩ ∧ d.strayed = false := by
  obtain ⟨ssrc, version, initiator, name⟩ := inv
  have hroom : ¬ c.left < netApplemidiInvStaticSize - pointerSize := by
    rw [h.left_eq]
    simp [invOctets, netApplemidiInvStaticSize, pointerSize]
    omega
  rw [invOctets, List.append_assoc, List.append_assoc] at h
  obtain ⟨c₁, hversion, hc₁⟩ := getUint32_put h
  obtain ⟨c₂, hinitiator, hc₂⟩ := getUint32_put hc₁
  obtain ⟨c₃, hssrc, hc₃⟩ := getUint32_put hc₂
  simp only [netApplemidiUnpackInv, if_neg hroom, hversion, hinitiator, hssrc]
  cases name with
  | none =>
    have hend : ¬ c₃.left > 0 := by
      rw [hc₃.left_eq]
      simp
    rw [if_neg hend]
    exact ⟨c₃, rfl, hc₃.strayed⟩
  | some name =>
    have hmore : c₃.left > 0 := by
      rw [hc₃.left_eq]
      simp
    obtain ⟨d, hd, hinside⟩ := getName_at (hname name rfl) hc₃
    rw [if_pos hmore, hd]
    exact ⟨d, rfl, hinside⟩

theorem unpackBitrate_packed {bitrate : NetApplemidiBitrate}
    (h : c.At r (putUint32 bitrate.ssrc ++ putUint32 bitrate.limit)) :
    ∃ d, netApplemidiUnpackBitrate r signature command c =
        ⟨.done, some ⟨signature, command, .bitrate bitrate⟩, d⟩ ∧ d.strayed = false := by
  obtain ⟨hleft, d, e, hssrc, hlimit, hinside⟩ := getPair_put h
  have hroom : ¬ c.left < netApplemidiBitrateSize := by
    rw [hleft, netApplemidiBitrateSize]
    omega
  simp only [netApplemidiUnpackBitrate, if_neg hroom, hssrc, hlimit]
  exact ⟨e, rfl, hinside⟩

theorem ofFn_padding (padding : Fin 3 → UInt8) :
    (fun i : Fin 3 => (List.ofFn padding).getD i 0) = padding := by
  funext i
  rw [List.getD_eq_getElem?_getD, List.getElem?_ofFn, dif_pos i.isLt, Option.getD_some]

theorem unpackSync_packed {sync : NetApplemidiSync} (h : c.At r (syncOctets sync)) :
    ∃ d, netApplemidiUnpackSync r signature command c =
        ⟨.done, some ⟨signature, command, .sync sync⟩, d⟩ ∧ d.strayed = false := by
  obtain ⟨ssrc, count, padding, timestamp1, timestamp2, timestamp3⟩ := sync
  have hroom : ¬ c.left < netApplemidiSyncStructSize := by
    rw [h.left_eq]
    simp [syncOctets, netApplemidiSyncStructSize]
  rw [syncOctets, ← List.append_nil (putUint64 timestamp3)] at h
  obtain ⟨c₁, hssrc, hc₁⟩ := getUint32_put h
  obtain ⟨c₂, hcount, hc₂⟩ := take_put (show [count.toUInt8].length = 1 from rfl) hc₁
  obtain ⟨c₃, hpadding, hc₃⟩ :=
    take_put (show (List.ofFn padding).length = 3 from List.length_ofFn) hc₂
  obtain ⟨c₄, hfirst, hc₄⟩ := getUint64_put hc₃
  obtain ⟨c₅, hsecond, hc₅⟩ := getUint64_put hc₄
  obtain ⟨c₆, hthird, hc₆⟩ := getUint64_put hc₅
  simp only [netApplemidiUnpackSync, if_neg hroom, hssrc, hcount, hpadding, hfirst, hsecond,
    hthird, ofFn_padding]
  exact ⟨c₆, rfl, hc₆.strayed⟩

end Kinds

/-- Packing a command of any of the seven kinds stays inside the block, and reading the
octets back, whatever lies behind them, gives the same command without leaving them. -/
theorem pack_unpack (command : NetApplemidiCommand) (h : command.WellFormed)
    (beyond : List UInt8) :
    ∃ octets c, netApplemidiPack command = .ok (some octets) ∧
      netApplemidiUnpack ⟨octets, beyond⟩ = ⟨.done, some command, c⟩ ∧ c.strayed = false := by
  obtain ⟨⟨signature, code, data⟩, hcommand⟩ : ∃ t, t = command := ⟨_, rfl⟩
  obtain ⟨hfits, hname⟩ := h
  subst hcommand
  simp only at hfits hname
  unfold NetApplemidiData.Fits at hfits
  by_cases hinv : IsInvCommand code
  · rw [if_pos hinv] at hfits
    obtain ⟨inv, rfl⟩ := hfits
    obtain ⟨c, hc, hunpack⟩ := unpack_command (r := ⟨_, beyond⟩) rfl
    obtain ⟨d, hd, hinside⟩ := unpackInv_packed signature (hname inv rfl) hc
    exact ⟨_, d, packInv_ok signature hinv inv, by rw [hunpack, if_pos hinv, hd], hinside⟩
  rw [if_neg hinv] at hfits
  by_cases hfeedback : code = netApplemidiCmdFeedback
  · rw [if_pos hfeedback] at hfits
    obtain ⟨feedback, rfl⟩ := hfits
    subst hfeedback
    obtain ⟨d, hd, hinside⟩ := unpackFeedback_packed signature feedback beyond
    exact ⟨_, d, packFeedback_ok signature feedback, hd, hinside⟩
  rw [if_neg hfeedback] at hfits
  by_cases hbitrate : code = netApplemidiCmdBitrate
  · rw [if_pos hbitrate] at hfits
    obtain ⟨bitrate, rfl⟩ := hfits
    subst hbitrate
    obtain ⟨c, hc, hunpack⟩ := unpack_command (r := ⟨_, beyond⟩) rfl
    obtain ⟨d, hd, hinside⟩ := unpackBitrate_packed signature hc
    refine ⟨_, d, packBitrate_ok signature bitrate, ?_, hinside⟩
    rw [hunpack, if_neg hinv, if_neg hfeedback, if_pos rfl, hd]
  rw [if_neg hbitrate] at hfits
  by_cases hsync : code = netApplemidiCmdSync
  · rw [if_pos hsync] at hfits
    obtain ⟨sync, rfl⟩ := hfits
    subst hsync
    obtain ⟨c, hc, hunpack⟩ := unpack_command (r := ⟨_, beyond⟩) rfl
    obtain ⟨d, hd, hinside⟩ := unpackSync_packed signature hc
    refine ⟨_, d, packSync_ok signature sync, ?_, hinside⟩
    rw [hunpack, if_neg hinv, if_neg hfeedback, if_neg hbitrate, if_pos rfl, hd]
  · rw [if_neg hsync] at hfits
    exact hfits.elim

/-- An invitation with a name of two octets. -/
theorem pack_unpack_named : ∃ octets c,
    netApplemidiPack ⟨0xffff, netApplemidiCmdInv, .inv ⟨7, 2, 9, some [0x68, 0x69]⟩⟩ =
      .ok (some octets) ∧
    netApplemidiUnpack ⟨octets, [0x55]⟩ =
      ⟨.done, some ⟨0xffff, netApplemidiCmdInv, .inv ⟨7, 2, 9, some [0x68, 0x69]⟩⟩, c⟩ ∧
    c.strayed = false := by
  apply pack_unpack
  have hkind : IsInvCommand netApplemidiCmdInv := by decide
  constructor
  · rw [NetApplemidiData.Fits, if_pos hkind]
    exact ⟨_, rfl⟩
  · intro inv hinv name hname
    cases hinv
    cases hname
    simp [IsCString]

end RaveloxMidi
