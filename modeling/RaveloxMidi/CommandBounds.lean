import RaveloxMidi.NetApplemidi

/-!
# How far the AppleMIDI reader reads

Each kind of command has its own test for the octets it is going to read. The one
for the invitation family asks for eight octets where twelve are read, and the
name behind them is copied up to its terminator, wherever that is.
-/
namespace RaveloxMidi
open ByteMemory

/-- The octets on the wire behind a command code, without a name. -/
def wireRoom (command : UInt16) : ℕ :=
  if IsInvCommand command then 12
  else if command = netApplemidiCmdFeedback then 8
  else if command = netApplemidiCmdBitrate then 8
  else if command = netApplemidiCmdSync then 32
  else 0

/-- The code of the command in a buffer that has one. -/
def commandCode (block : List UInt8) : UInt16 := UInt16.ofNat (wordAt block 2 2)

/-- The fixed fields and the name of a command are read inside the buffer: the counter and
the position make up its length, up to a name at the sixteenth octet, and that name ends
at a zero inside. -/
structure ReadInside (r : Region) (unpacked : NetApplemidiUnpacked) : Prop where
  inside : unpacked.cursor.strayed = false
  counted : unpacked.cursor.pos + unpacked.cursor.left = r.block.length ∨
    ∃ c : Cursor, c.pos = 16 ∧ c.pos + c.left = r.block.length ∧
      unpacked.cursor = (getName r c).2
  named : ∀ command inv name, unpacked.command = some command → command.data = .inv inv →
    inv.name = some name → ∃ rest, r.block.drop 16 = name ++ 0 :: rest

/-- A buffer that is too short for its kind of command is refused. -/
def ShortRefused (r : Region) (unpacked : NetApplemidiUnpacked) : Prop :=
  (r.block.length < 4 ∨ r.block.length < 4 + wireRoom (commandCode r.block)) →
    unpacked.ret = .needData ∧ unpacked.command = none

/-- The buffers that the reader of the invitation family does not leave: too short for
its test, without a name, or with a name that has its terminator. -/
def InvBounded (block : List UInt8) : Prop :=
  block.length < 12 ∨ block.length = 16 ∨ (16 < block.length ∧ 0 ∈ block.drop 16)

section Readers
variable {r : Region} {c : Cursor} {signature command : UInt16} {rest : List UInt8}

theorem at_counts (h : c.At r rest) : c.pos + c.left = r.block.length := by
  have hlength := congrArg List.length h.rest_eq
  have hinside := h.inside
  rw [List.length_drop] at hlength
  rw [h.left_eq]
  omega

/-- Nothing is read any more, and nothing given back. -/
theorem refused_inside (hc : c.At r rest) : ReadInside r ⟨.needData, none, c⟩ :=
  ⟨hc.strayed, .inl (at_counts hc), by simp⟩

/-- A command without a name that is read to some position. -/
theorem fixed_inside (hc : c.At r rest) {data : NetApplemidiData}
    (hdata : ∀ inv, data = .inv inv → inv.name = none) :
    ReadInside r ⟨.done, some ⟨signature, command, data⟩, c⟩ := by
  refine ⟨hc.strayed, .inl (at_counts hc), ?_⟩
  rintro read inv name hread hinv hname
  cases hread
  rw [hdata inv hinv] at hname
  cases hname

/-- A name with a terminator in the buffer is copied up to it. -/
theorem getName_terminated {name : List UInt8} (hrest : r.block.drop c.pos = name ++ 0 :: rest)
    (hname : 0 ∉ name) :
    getName r c = (name, ⟨c.pos + name.length + 1, 0, c.strayed⟩) := by
  have hlength := congrArg List.length hrest
  rw [List.length_drop, List.length_append, List.length_cons] at hlength
  have hwhile : ((r.block ++ r.beyond).drop c.pos).takeWhile (· ≠ 0) = name := by
    rw [List.drop_append_of_le_length (by omega), hrest, List.append_assoc, List.cons_append,
      List.takeWhile_append_of_pos]
    · simp
    · intro octet hoctet
      simp only [ne_eq, decide_eq_true_eq]
      rintro rfl
      exact hname hoctet
  have hinside : ¬ r.block.length < c.pos + name.length + 1 := by omega
  simp only [getName, hwhile, hinside, decide_false, Bool.or_false]

/-- A copy that stays inside has found its terminator there. -/
theorem terminator_of_inside (hpos : c.pos ≤ r.block.length)
    (h : (getName r c).2.strayed = false) : 0 ∈ r.block.drop c.pos := by
  obtain ⟨octets, hoctets⟩ : ∃ octets, octets = (r.block ++ r.beyond).drop c.pos := ⟨_, rfl⟩
  simp only [getName, ← hoctets, Bool.or_eq_false_iff, decide_eq_false_iff_not] at h
  have hsplit := List.takeWhile_append_dropWhile (p := (· ≠ 0)) (l := octets)
  by_contra hnone
  have hwhole : ∀ octet ∈ r.block.drop c.pos, octet ≠ 0 := fun octet hoctet hzero =>
    hnone (hzero ▸ hoctet)
  rw [List.drop_append_of_le_length hpos] at hoctets
  rw [hoctets, List.takeWhile_append_of_pos (by simpa using hwhole), List.length_append,
    List.length_drop] at h
  omega

/-- The reader of the invitation family where its fixed part is there. -/
theorem unpackInv_at (signature command : UInt16) (hc : c.At r (r.block.drop 4))
    (hlong : 16 ≤ r.block.length) :
    ∃ inv d, d.At r (r.block.drop 16) ∧ d.pos = 16 ∧ inv.name = none ∧
      netApplemidiUnpackInv r signature command c =
        if d.left > 0 then
          ⟨.done, some ⟨signature, command, .inv { inv with name := some (getName r d).1 }⟩,
            (getName r d).2⟩
        else ⟨.done, some ⟨signature, command, .inv inv⟩, d⟩ := by
  obtain ⟨c₁, hversion, hc₁⟩ := getUint32_at hc (by omega)
  obtain ⟨c₂, hinitiator, hc₂⟩ := getUint32_at hc₁ (by omega)
  obtain ⟨d, hssrc, hd⟩ := getUint32_at hc₂ (by omega)
  have hroom : ¬ c.left < netApplemidiInvStaticSize - pointerSize := by
    rw [hc.left_eq, List.length_drop, netApplemidiInvStaticSize, pointerSize]
    omega
  refine ⟨⟨UInt32.ofNat (wordAt r.block 12 4), UInt32.ofNat (wordAt r.block 4 4),
    UInt32.ofNat (wordAt r.block 8 4), none⟩, d, hd, ?_, rfl, ?_⟩
  · have hlength := congrArg List.length hd.rest_eq
    have hinside := hd.inside
    rw [List.length_drop, List.length_drop] at hlength
    omega
  · rw [netApplemidiUnpackInv, if_neg hroom]
    simp only [hversion, hinitiator, hssrc]

/-- A command with a name is read inside if there is a terminator for the name. -/
theorem named_inside_iff {d : Cursor} (hd : d.At r (r.block.drop 16)) (hpos : d.pos = 16)
    (inv : NetApplemidiInv) :
    ReadInside r ⟨.done, some ⟨signature, command, .inv { inv with name := some (getName r d).1 }⟩,
        (getName r d).2⟩ ↔ 0 ∈ r.block.drop 16 := by
  constructor
  · intro hinside
    rw [← hpos]
    exact terminator_of_inside hd.inside hinside.inside
  · intro hzero
    obtain ⟨name, rest, hrest, hfirst⟩ := List.eq_append_cons_of_mem hzero
    have hcopied := getName_terminated (r := r) (c := d) (by rw [hpos, hrest]) hfirst
    refine ⟨?_, .inr ⟨d, hpos, at_counts hd, rfl⟩, ?_⟩
    · rw [hcopied]
      exact hd.strayed
    · rintro read copied copy hread hinv hcopy
      cases hread
      cases hinv
      rw [hcopied] at hcopy
      cases hcopy
      exact ⟨rest, hrest⟩

/-- The invitation family: what is asked for does not say whether the reader stays inside. -/
theorem unpackInv_bounded_iff (hc : c.At r (r.block.drop 4)) (hlong : 4 ≤ r.block.length) :
    ReadInside r (netApplemidiUnpackInv r signature command c) ∧
      (r.block.length < 16 → (netApplemidiUnpackInv r signature command c).ret = .needData ∧
        (netApplemidiUnpackInv r signature command c).command = none) ↔
      InvBounded r.block := by
  have hleft : c.left = r.block.length - 4 := by rw [hc.left_eq, List.length_drop]
  by_cases hroom : c.left < netApplemidiInvStaticSize - pointerSize
  · have hrefused : netApplemidiUnpackInv r signature command c = ⟨.needData, none, c⟩ := by
      rw [netApplemidiUnpackInv, if_pos hroom]
    rw [netApplemidiInvStaticSize, pointerSize] at hroom
    rw [hrefused]
    exact iff_of_true ⟨refused_inside hc, fun _ => ⟨rfl, rfl⟩⟩ (.inl (by omega))
  by_cases hfixed : r.block.length < 16
  · -- the test is passed, but the fixed part is not there
    have hdone : (netApplemidiUnpackInv r signature command c).ret = .done := by
      rw [netApplemidiUnpackInv, if_neg hroom]
      simp only
      split_ifs <;> rfl
    rw [netApplemidiInvStaticSize, pointerSize] at hroom
    refine iff_of_false ?_ ?_
    · rintro ⟨-, hshort⟩
      rw [hdone] at hshort
      cases (hshort hfixed).1
    · rintro (hshort | hexact | ⟨hname, -⟩) <;> omega
  obtain ⟨inv, d, hd, hpos, hnone, hunpack⟩ :=
    unpackInv_at signature command hc (not_lt.mp hfixed)
  have hcount : d.left = r.block.length - 16 := by rw [hd.left_eq, List.length_drop]
  rw [hunpack]
  by_cases hname : d.left > 0
  · rw [if_pos hname]
    constructor
    · rintro ⟨hinside, -⟩
      exact .inr (.inr ⟨by omega, (named_inside_iff hd hpos inv).mp hinside⟩)
    · rintro (hshort | hexact | ⟨-, hzero⟩)
      · omega
      · omega
      · exact ⟨(named_inside_iff hd hpos inv).mpr hzero, fun hshort => by omega⟩
  · rw [if_neg hname]
    refine iff_of_true ⟨fixed_inside hd ?_, fun hshort => by omega⟩ (.inr (.inl (by omega)))
    rintro other hother
    cases hother
    exact hnone

/-- What a reader does that asks for all the octets it reads. -/
def BoundedBy (room : ℕ) (r : Region) (unpacked : NetApplemidiUnpacked) : Prop :=
  ReadInside r unpacked ∧
    (r.block.length < 4 + room → unpacked.ret = .needData ∧ unpacked.command = none)

/-- Too few octets: nothing is read. -/
theorem refused_bounded (hc : c.At r rest) (room : ℕ) :
    BoundedBy room r ⟨.needData, none, c⟩ :=
  ⟨refused_inside hc, fun _ => ⟨rfl, rfl⟩⟩

/-- Two words behind a command. -/
theorem pair_bounded (hc : c.At r (r.block.drop 4)) (data : UInt32 → UInt32 → NetApplemidiData)
    (hdata : ∀ first second inv, data first second ≠ .inv inv) :
    BoundedBy 8 r (if c.left < 8 then ⟨.needData, none, c⟩
      else
        let (first, c) := getUint32 r c
        let (second, c) := getUint32 r c
        ⟨.done, some ⟨signature, command, data first second⟩, c⟩) := by
  have hleft : c.left = r.block.length - 4 := by rw [hc.left_eq, List.length_drop]
  by_cases hroom : c.left < 8
  · rw [if_pos hroom]
    exact refused_bounded hc 8
  · rw [if_neg hroom]
    obtain ⟨d, hfirst, hd⟩ := getUint32_at hc (by omega)
    obtain ⟨e, hsecond, he⟩ := getUint32_at hd (by omega)
    simp only [hfirst, hsecond]
    exact ⟨fixed_inside he fun inv hinv => absurd hinv (hdata _ _ inv), fun hshort => by omega⟩

theorem unpackFeedback_bounded (hc : c.At r (r.block.drop 4)) :
    BoundedBy 8 r (netApplemidiUnpackFeedback r signature command c) :=
  pair_bounded hc (fun ssrc appleSeq => .feedback ⟨ssrc, appleSeq⟩) (by simp)

theorem unpackBitrate_bounded (hc : c.At r (r.block.drop 4)) :
    BoundedBy 8 r (netApplemidiUnpackBitrate r signature command c) :=
  pair_bounded hc (fun ssrc limit => .bitrate ⟨ssrc, limit⟩) (by simp)

theorem unpackSync_bounded (hc : c.At r (r.block.drop 4)) :
    BoundedBy 32 r (netApplemidiUnpackSync r signature command c) := by
  have hleft : c.left = r.block.length - 4 := by rw [hc.left_eq, List.length_drop]
  unfold netApplemidiUnpackSync
  by_cases hroom : c.left < netApplemidiSyncStructSize
  · rw [if_pos hroom]
    exact refused_bounded hc 32
  · rw [if_neg hroom]
    rw [netApplemidiSyncStructSize] at hroom
    obtain ⟨c₁, hssrc, hc₁⟩ := getUint32_at hc (by omega)
    obtain ⟨-, hc₂⟩ := take_at hc₁ (show 4 + 4 + 1 ≤ r.block.length by omega)
    obtain ⟨-, hc₃⟩ := take_at hc₂ (show 4 + 4 + 1 + 3 ≤ r.block.length by omega)
    obtain ⟨c₄, hfirst, hc₄⟩ := getUint64_at hc₃ (by omega)
    obtain ⟨c₅, hsecond, hc₅⟩ := getUint64_at hc₄ (by omega)
    obtain ⟨c₆, hthird, hc₆⟩ := getUint64_at hc₅ (by omega)
    simp only [hssrc, hfirst, hsecond, hthird]
    exact ⟨fixed_inside hc₆ (by simp), fun hshort => by omega⟩

end Readers

/-- The readers for the four kinds of command start behind the code. -/
theorem unpack_at {r : Region} (hlong : 4 ≤ r.block.length) :
    ∃ signature c, c.At r (r.block.drop 4) ∧ netApplemidiUnpack r =
      if IsInvCommand (commandCode r.block) then
        netApplemidiUnpackInv r signature (commandCode r.block) c
      else if commandCode r.block = netApplemidiCmdFeedback then
        netApplemidiUnpackFeedback r signature (commandCode r.block) c
      else if commandCode r.block = netApplemidiCmdBitrate then
        netApplemidiUnpackBitrate r signature (commandCode r.block) c
      else if commandCode r.block = netApplemidiCmdSync then
        netApplemidiUnpackSync r signature (commandCode r.block) c
      else ⟨.done, some ⟨signature, commandCode r.block, .unset⟩, c⟩ := by
  have hstart : (Cursor.start r).At r (r.block.drop 0) := Cursor.start_at r
  obtain ⟨c₁, hsignature, hc₁⟩ := getUint16_at hstart (by omega)
  obtain ⟨c₂, hcommand, hc₂⟩ := getUint16_at hc₁ (by omega)
  have hroom : ¬ (Cursor.start r).left < netApplemidiCommandSize := not_lt.mpr hlong
  refine ⟨UInt16.ofNat (wordAt r.block 0 2), c₂, hc₂, ?_⟩
  rw [netApplemidiUnpack, if_neg hroom]
  simp only [hsignature, hcommand]
  rfl

/-- The reader stays inside its buffer, and refuses a buffer that is too short for its kind
of command, exactly if the command is not an invitation or one of its kin or the buffer
bounds what their reader reads. -/
theorem unpack_inside_iff (r : Region) :
    ReadInside r (netApplemidiUnpack r) ∧ ShortRefused r (netApplemidiUnpack r) ↔
      r.block.length < 4 ∨ ¬ IsInvCommand (commandCode r.block) ∨ InvBounded r.block := by
  by_cases hlong : 4 ≤ r.block.length
  · obtain ⟨signature, c, hc, hunpack⟩ := unpack_at hlong
    have hrefused : ShortRefused r (netApplemidiUnpack r) ↔
        (r.block.length < 4 + wireRoom (commandCode r.block) →
          (netApplemidiUnpack r).ret = .needData ∧ (netApplemidiUnpack r).command = none) := by
      rw [ShortRefused, or_iff_right (not_lt.mpr hlong)]
    rw [hrefused, or_iff_right (not_lt.mpr hlong), hunpack]
    unfold wireRoom
    by_cases hinv : IsInvCommand (commandCode r.block)
    · rw [if_pos hinv, if_pos hinv, or_iff_right (not_not_intro hinv)]
      exact unpackInv_bounded_iff hc hlong
    · refine iff_of_true ?_ (.inl hinv)
      rw [if_neg hinv, if_neg hinv]
      split_ifs
      · exact unpackFeedback_bounded hc
      · exact unpackBitrate_bounded hc
      · exact unpackSync_bounded hc
      · exact ⟨fixed_inside hc (by simp), fun hshort => by omega⟩
  · have hshort : netApplemidiUnpack r = ⟨.needData, none, Cursor.start r⟩ := by
      rw [netApplemidiUnpack, if_pos (show (Cursor.start r).left < netApplemidiCommandSize from
        not_le.mp hlong)]
    refine iff_of_true ?_ (.inl (not_le.mp hlong))
    rw [hshort]
    exact ⟨refused_inside (Cursor.start_at r), fun _ => ⟨rfl, rfl⟩⟩

/-- An invitation cut off behind its token: the SSRC is read from behind the buffer, and
the command is given back all the same. -/
theorem cut_invitation_strays :
    (netApplemidiUnpack ⟨commandOctets 0xffff netApplemidiCmdInv ++
        [0, 0, 0, 2, 0, 0, 0, 1], [7, 7, 7, 7, 0]⟩).ret = .done ∧
      (netApplemidiUnpack ⟨commandOctets 0xffff netApplemidiCmdInv ++
        [0, 0, 0, 2, 0, 0, 0, 1], [7, 7, 7, 7, 0]⟩).cursor.strayed = true ∧
      ¬ (ReadInside ⟨commandOctets 0xffff netApplemidiCmdInv ++
          [0, 0, 0, 2, 0, 0, 0, 1], [7, 7, 7, 7, 0]⟩
          (netApplemidiUnpack ⟨commandOctets 0xffff netApplemidiCmdInv ++
            [0, 0, 0, 2, 0, 0, 0, 1], [7, 7, 7, 7, 0]⟩) ∧
        ShortRefused ⟨commandOctets 0xffff netApplemidiCmdInv ++
          [0, 0, 0, 2, 0, 0, 0, 1], [7, 7, 7, 7, 0]⟩
          (netApplemidiUnpack ⟨commandOctets 0xffff netApplemidiCmdInv ++
            [0, 0, 0, 2, 0, 0, 0, 1], [7, 7, 7, 7, 0]⟩)) := by
  have hstrayed : (netApplemidiUnpack ⟨commandOctets 0xffff netApplemidiCmdInv ++
      [0, 0, 0, 2, 0, 0, 0, 1], [7, 7, 7, 7, 0]⟩).cursor.strayed = true := by
    decide +kernel
  refine ⟨by decide +kernel, hstrayed, ?_⟩
  rintro ⟨hinside, -⟩
  rw [hinside.inside] at hstrayed
  cases hstrayed

end RaveloxMidi
