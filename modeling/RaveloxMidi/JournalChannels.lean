import RaveloxMidi.JournalHistory

/-!
# The channels a journal announces

The header counts channels, the packing loop emits one channel journal for each
node of the tree, and each channel journal names its channel in four bits that
hold the number plus one. The three agree with the events since the last reset
as long as the last channel is not among them and no channel was used before
the reset only.
-/
namespace RaveloxMidi
open ByteMemory Transducer

/-- The channels with an event since the last reset. -/
def usedSinceReset (calls : List JournalCall) : Finset (Fin 16) :=
  ((historyOf calls).recent.map JournalEvent.channel).toFinset

/-- The channels with an event since the journal was made. -/
def everUsed (calls : List JournalCall) : Finset (Fin 16) :=
  (((historyOf calls).earlier ++ (historyOf calls).recent).map JournalEvent.channel).toFinset

/-- The TOTCHAN field of a packed journal. -/
def totchanField (packed : List UInt8) : ℕ := (packed.headD 0).toNat % 16

/-- The CHAN field of a packed channel journal. -/
def chanOf (segment : List UInt8) : ℕ := ofOctets (segment.take 2) / 2 ^ 11 % 16

/-- The journal announces and emits one channel journal for each of the given channels. -/
structure Journal.Announces (j : Journal) (used : Finset (Fin 16)) : Prop where
  has_data : journalHasData j = true
  totchan : j.header.totchan.toNat = used.card
  packed : ∃ k packed, journalPack j = .ok (k, packed) ∧
    packed = journalHeaderPack j.header ++ j.segments.flatten ∧
    j.segments.length = totchanField packed + 1
  chans_nodup : (j.segments.map chanOf).Nodup
  chans_mem : ∀ n, n ∈ j.segments.map chanOf ↔ ∃ channel ∈ used, channel.val = n

theorem mem_channels {channel : Fin 16} {events : List JournalEvent} :
    channel ∈ (events.map JournalEvent.channel).toFinset ↔ eventsOn channel events ≠ [] := by
  simp [eventsOn, List.filter_eq_nil_iff]

theorem mem_usedSinceReset {calls : List JournalCall} {channel : Fin 16} :
    channel ∈ usedSinceReset calls ↔ eventsOn channel (historyOf calls).recent ≠ [] :=
  mem_channels

theorem mem_everUsed {calls : List JournalCall} {channel : Fin 16} :
    channel ∈ everUsed calls ↔ ¬ (eventsOn channel (historyOf calls).earlier = [] ∧
      eventsOn channel (historyOf calls).recent = []) := by
  rw [everUsed, mem_channels, eventsOn_append, ne_eq, List.append_eq_nil_iff]

theorem used_subset_ever (calls : List JournalCall) : usedSinceReset calls ⊆ everUsed calls := by
  intro channel h
  rw [mem_usedSinceReset] at h
  rw [mem_everUsed]
  exact fun hnone => h hnone.2

/-- The first two octets of a channel journal, with the size of the whole. -/
theorem headerWord_octets (channel : Channel) :
    ofOctets (channel.octets.take 2) =
      channel.header.s.toNat * 2 ^ 15 +
        (if channel.header.chan = 0 then 0 else channel.header.chan.val - 1) * 2 ^ 11 +
        channel.header.h.toNat * 2 ^ 10 + channel.packedHeader.len := by
  have hlen := channel.packedHeader.len.isLt
  have hchan := channel.header.chan.isLt
  have hs := Bool.toNat_le channel.header.s
  have hh := Bool.toNat_le channel.header.h
  have htake : channel.octets.take 2 = ByteMemory.octets 2
      (channel.header.s.toNat * 2 ^ 15 +
        (if channel.header.chan = 0 then 0 else channel.header.chan.val - 1) * 2 ^ 11 +
        channel.header.h.toNat * 2 ^ 10 + channel.packedHeader.len) := by
    simp only [Channel.octets, channelHeaderPack, List.append_assoc]
    rw [List.take_append_of_le_length (by simp), List.take_of_length_le (by simp)]
    rfl
  rw [htake, ofOctets_octets]
  split_ifs <;> omega

/-- The CHAN field is the stored field minus one, or zero. -/
theorem chanOf_octets (channel : Channel) :
    chanOf channel.octets =
      if channel.header.chan = 0 then 0 else channel.header.chan.val - 1 := by
  have hlen := channel.packedHeader.len.isLt
  have hchan := channel.header.chan.isLt
  have hh := Bool.toNat_le channel.header.h
  rw [chanOf, headerWord_octets]
  split_ifs <;> omega

/-- The CHAN field a channel is packed with. -/
def packedChan (channel : Fin 16) (recent : List JournalEvent) : ℕ :=
  if recent = [] ∨ channel = 15 then 0 else channel

theorem packedChan_body (channel : Fin 16) (earlier recent : List JournalEvent) :
    chanOf (channelBody channel earlier recent).octets = packedChan channel recent := by
  have hfield : ∀ i : Fin 16, (if chanField i = 0 then 0 else (chanField i).val - 1) =
      if i = 15 then 0 else i.val := by decide
  rw [chanOf_octets]
  by_cases hnone : recent = []
  · simp [channelBody, packedChan, hnone]
  · simpa [channelBody, packedChan, hnone] using hfield channel

/-- One channel journal for each channel ever used. -/
theorem segments_chans {j : Journal} {calls : List JournalCall}
    (hj : j.Reflects (historyOf calls)) :
    j.segments.map chanOf =
      ((List.finRange 16).filter fun i => i ∈ everUsed calls).map fun i =>
        packedChan i (eventsOn i (historyOf calls).recent) := by
  have hoctets : Channel.octets ∘ Channel.forgetLengths = Channel.octets :=
    funext Channel.octets_forget
  have hsegment : ∀ i, (j.channels i).map Channel.octets =
      if i ∈ everUsed calls then some (channelBody i (eventsOn i (historyOf calls).earlier)
        (eventsOn i (historyOf calls).recent)).octets else none := by
    intro i
    have hmap : (j.channels i).map Channel.octets =
        ((j.channels i).map Channel.forgetLengths).map Channel.octets := by
      rw [Option.map_map, hoctets]
    rw [hmap, hj.channel_eq, channelOf]
    by_cases hi : i ∈ everUsed calls
    · rw [if_pos hi, if_neg (mem_everUsed.mp hi), Option.map_some]
    · rw [if_neg hi, if_pos (not_not.mp fun hnot => hi (mem_everUsed.mpr hnot)), Option.map_none]
  simp only [Journal.segments, hsegment]
  induction List.finRange 16 with
  | nil => rfl
  | cons i indices ih =>
    by_cases hi : i ∈ everUsed calls
    · simp [hi, ih, packedChan_body]
    · simp [hi, ih]

theorem counted_eq (calls : List JournalCall) (hlast : 15 ∉ usedSinceReset calls) :
    (historyOf calls).counted = (usedSinceReset calls).card := by
  have hone : ∀ i : Fin 16, countOn i (eventsOn i (historyOf calls).recent) =
      if i ∈ usedSinceReset calls then 1 else 0 := by
    intro i
    rw [countOn]
    by_cases hi : i = 15
    · subst hi
      rw [if_neg hlast]
      rw [mem_usedSinceReset, not_not] at hlast
      simp [hlast]
    · by_cases hnone : eventsOn i (historyOf calls).recent = [] <;>
        simp [hi, hnone, mem_usedSinceReset]
  simp only [JournalHistory.counted, hone, Finset.sum_ite_mem, Finset.univ_inter]
  simp

theorem low_nibble (high low : UInt8) :
    (((high &&& 0x0f) <<< 4) ||| (low &&& 0x0f)).toNat % 16 = low.toNat % 16 := by
  have hhigh : ∀ high : UInt8, ((high &&& 0x0f) <<< 4).toNat % 2 ^ 4 = 0 := by decide +kernel
  have hlow : ∀ low : UInt8, (low &&& 0x0f).toNat % 2 ^ 4 = low.toNat % 16 := by decide +kernel
  change _ % 2 ^ 4 = _
  rw [UInt8.toNat_or, Nat.or_mod_two_pow, hhigh, hlow, Nat.zero_or]

theorem totchanField_pack (header : JournalHeader) (rest : List UInt8)
    (h : header.totchan.toNat ≤ 16) (hpos : 0 < header.totchan.toNat) :
    totchanField (journalHeaderPack header ++ rest) = header.totchan.toNat - 1 := by
  have hne : header.totchan ≠ 0 := by
    intro he
    rw [he] at hpos
    exact absurd hpos (by decide)
  have hone : (1 : UInt8) ≤ header.totchan := UInt8.le_iff_toNat_le.mpr hpos
  have hsub : (header.totchan - 1).toNat = header.totchan.toNat - 1 :=
    UInt8.toNat_sub_of_le _ _ hone
  simp only [totchanField, journalHeaderPack, if_neg hne, List.cons_append, List.headD_cons,
    low_nibble, hsub]
  omega

theorem channelList_length (used : Finset (Fin 16)) :
    ((List.finRange 16).filter fun i => i ∈ used).length = used.card := by
  rw [← List.toFinset_card_of_nodup ((List.nodup_finRange 16).filter _)]
  congr 1
  ext i
  simp

/-- Only as many channel journals as channels in use are announced one for one. -/
theorem announced_used {j : Journal} {calls : List JournalCall}
    (hj : j.Reflects (historyOf calls)) (h : j.Announces (usedSinceReset calls)) :
    everUsed calls = usedSinceReset calls ∧ 15 ∉ usedSinceReset calls := by
  have hchans := segments_chans hj
  constructor
  · have hlength : (j.segments.map chanOf).toFinset.card = (everUsed calls).card := by
      rw [List.toFinset_card_of_nodup h.chans_nodup, hchans, List.length_map, channelList_length]
    have hset : (j.segments.map chanOf).toFinset = (usedSinceReset calls).image Fin.val := by
      ext n
      rw [List.mem_toFinset, h.chans_mem, Finset.mem_image]
    rw [hset, Finset.card_image_of_injective _ Fin.val_injective] at hlength
    exact (Finset.eq_of_subset_of_card_le (used_subset_ever calls) (le_of_eq hlength.symm)).symm
  · intro hlast
    -- no channel is packed with 15 in its CHAN field
    have hmem := (h.chans_mem 15).mpr ⟨15, hlast, rfl⟩
    rw [hchans, List.mem_map] at hmem
    obtain ⟨i, -, hi⟩ := hmem
    unfold packedChan at hi
    split_ifs at hi with hzero
    exact hzero (.inr (Fin.ext hi))

theorem used_announced {j : Journal} {calls : List JournalCall}
    (hj : j.Reflects (historyOf calls)) (hne : usedSinceReset calls ≠ ∅)
    (hever : everUsed calls = usedSinceReset calls) (hlast : 15 ∉ usedSinceReset calls) :
    j.Announces (usedSinceReset calls) := by
  have hchans : j.segments.map chanOf =
      ((List.finRange 16).filter fun i => i ∈ usedSinceReset calls).map Fin.val := by
    rw [segments_chans hj, hever]
    refine List.map_congr_left fun i hi => ?_
    have hi : i ∈ usedSinceReset calls := by simpa using hi
    have hnone : eventsOn i (historyOf calls).recent ≠ [] := mem_usedSinceReset.mp hi
    have hfifteen : i ≠ 15 := fun he => hlast (he ▸ hi)
    simp [packedChan, hnone, hfifteen]
  have hlength : j.segments.length = (usedSinceReset calls).card := by
    rw [← channelList_length, ← List.length_map (f := Fin.val), ← hchans, List.length_map]
  have hcard := Finset.card_le_univ (usedSinceReset calls)
  rw [Fintype.card_fin] at hcard
  have hpos : 0 < (usedSinceReset calls).card :=
    Finset.card_pos.mpr (Finset.nonempty_iff_ne_empty.mpr hne)
  have htotchan : j.header.totchan.toNat = (usedSinceReset calls).card := by
    rw [hj.totchan, counted_eq calls hlast, UInt8.toNat_ofNat']
    omega
  have hdata : journalHasData j = true := by
    rw [journalHasData, decide_eq_true_eq, gt_iff_lt, UInt8.lt_iff_toNat_lt, htotchan]
    exact hpos
  obtain ⟨k, hpack, -, -⟩ := Journal.pack_spec hj.valid
  have hoctets : j.octets = journalHeaderPack j.header ++ j.segments.flatten := by
    rw [Journal.octets, if_pos hdata]
  refine ⟨hdata, htotchan, ⟨k, j.octets, hpack, hoctets, ?_⟩, ?_, ?_⟩
  · rw [hoctets, totchanField_pack _ _ (by omega) (by omega), hlength]
    omega
  · rw [hchans]
    exact ((List.nodup_finRange 16).filter _).map Fin.val_injective
  · intro n
    rw [hchans]
    simp

/-- The channels are announced as they should be, in every state the calls lead
to, exactly when each channel ever used was used since the last reset and the
last channel is not among them. -/
theorem announces_iff (calls : List JournalCall) :
    ∃ j out, run journalCall journalInit calls = .ok (j, out) ∧
      ((usedSinceReset calls ≠ ∅ → j.Announces (usedSinceReset calls)) ↔
        (usedSinceReset calls ≠ ∅ →
          everUsed calls = usedSinceReset calls ∧ 15 ∉ usedSinceReset calls)) := by
  obtain ⟨j, hrun, hj⟩ := run_journal calls
  exact ⟨j, _, hrun, imp_congr_right fun hne =>
    ⟨announced_used hj, fun h => used_announced hj hne h.1 h.2⟩⟩

/-- A program change on the last channel is announced as one on the first. -/
theorem last_channel_misannounced :
    ∃ j out, run journalCall journalInit [.add 2 (.program ⟨15, 0xc, 7⟩)] = .ok (j, out) ∧
      usedSinceReset [.add 2 (.program ⟨15, 0xc, 7⟩)] = {15} ∧
      j.segments.map chanOf = [0] ∧
      ¬ j.Announces (usedSinceReset [.add 2 (.program ⟨15, 0xc, 7⟩)]) := by
  obtain ⟨j, hrun, hj⟩ := run_journal [.add 2 (.program ⟨15, 0xc, 7⟩)]
  have hused : usedSinceReset [.add 2 (.program ⟨15, 0xc, 7⟩)] = {15} := by decide
  refine ⟨j, _, hrun, hused, ?_, fun h => ?_⟩
  · rw [segments_chans hj]
    decide
  · exact (announced_used hj h).2 (by rw [hused]; simp)

end RaveloxMidi
