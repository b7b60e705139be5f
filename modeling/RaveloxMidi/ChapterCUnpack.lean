import RaveloxMidi.OddPeriod
import RaveloxMidi.ControllerLogs

/-!
# Unpacking chapter C

The unpacker reads the header and does not go on to the octet behind it, so it takes the
header for the first octet of a log, the first octet of each log for the value of the one
before, and leaves the last octet over. What it makes of a packed chapter is the chapter
again only if the octets repeat themselves half-way.
-/
namespace RaveloxMidi
open ByteMemory OddPeriod

/-- The two octets of a log, as `chapter_c_unpack` reads them. -/
def controllerLogUnpack (first second : UInt8) : ControllerLog :=
  let a := (second &&& 0x80) >>> 7
  { s := (first &&& 0x80) >>> 7
    number := first &&& 0x7f
    a := a
    t := if a = 1 then (second &&& 0x40) >>> 6 else 0
    value := if a = 1 then second &&& 0x3f else second &&& 0x7f }

/-- The loop over the octets, two at a time. -/
def chapterCUnpackLoop (chapter : ChapterC) : List UInt8 → ChapterC
  | first :: second :: rest =>
    let index : Fin 128 := ⟨(first &&& 0x7f).toNat % 128, Nat.mod_lt _ (by decide)⟩
    chapterCUnpackLoop
      { chapter with
        controllerLog :=
          Function.update chapter.controllerLog index (controllerLogUnpack first second) } rest
  | _ => chapter

/-- The loop starts at the header: `p` is not moved past it. -/
def chapterCUnpack : List UInt8 → Option ChapterC
  | [] => none
  | header :: rest =>
    some (chapterCUnpackLoop
      { chapterCCreate with s := (header &&& 0x80) >>> 7, len := header &&& 0x7f }
      (header :: rest))

namespace ControllerLog

/-- A log with one bit for S and seven bits for its value: all of them without A, one for T
and six for the value with it. -/
structure WellFormed (log : ControllerLog) (index : Fin 128) : Prop where
  s_lt : log.s < 2
  number : log.number = UInt8.ofNat index
  value : log.a = 0 ∧ log.t = 0 ∧ log.value < 128 ∨ log.a = 1 ∧ log.t < 2 ∧ log.value < 64

/-- The two octets of a packed log. -/
def first (log : ControllerLog) : UInt8 := (log.s <<< 7) ||| (log.number &&& 0x7f)

def second (log : ControllerLog) : UInt8 :=
  if log.a = 1 then (log.a <<< 7) ||| (log.t <<< 6) ||| (log.value &&& 0x3f)
  else (log.a <<< 7) ||| (log.value &&& 0x7f)

/-- The seven bits behind A. -/
def valueBits (log : ControllerLog) : UInt8 :=
  if log.a = 1 then (log.t <<< 6) ||| log.value else log.value

theorem lt_two {bit : UInt8} (h : bit < 2) : bit = 0 ∨ bit = 1 := by
  revert bit
  decide +kernel

/-- One bit in front of seven. -/
theorem split_octet {bit low : UInt8} (hbit : bit < 2) (hlow : low < 128) :
    (((bit <<< 7) ||| low) &&& 0x80) >>> 7 = bit ∧ ((bit <<< 7) ||| low) &&& 0x7f = low := by
  have hclear : ∀ low : UInt8, low < 128 →
      ((((0 : UInt8) <<< 7) ||| low) &&& 0x80) >>> 7 = 0 ∧
        (((0 : UInt8) <<< 7) ||| low) &&& 0x7f = low := by
    decide +kernel
  have hset : ∀ low : UInt8, low < 128 →
      ((((1 : UInt8) <<< 7) ||| low) &&& 0x80) >>> 7 = 1 ∧
        (((1 : UInt8) <<< 7) ||| low) &&& 0x7f = low := by
    decide +kernel
  rcases lt_two hbit with rfl | rfl
  · exact hclear low hlow
  · exact hset low hlow

theorem octet_inj {bit low bit' low' : UInt8} (hbit : bit < 2) (hlow : low < 128)
    (hbit' : bit' < 2) (hlow' : low' < 128) :
    (bit <<< 7) ||| low = (bit' <<< 7) ||| low' ↔ bit = bit' ∧ low = low' := by
  constructor
  · intro h
    obtain ⟨hb, hl⟩ := split_octet hbit hlow
    obtain ⟨hb', hl'⟩ := split_octet hbit' hlow'
    exact ⟨by rw [← hb, h, hb'], by rw [← hl, h, hl']⟩
  · rintro ⟨rfl, rfl⟩
    rfl

/-- One bit in front of six, behind a bit that is set. -/
theorem split_seven {bit low : UInt8} (hbit : bit < 2) (hlow : low < 64) :
    (bit <<< 6) ||| low < 128 ∧
      ((((1 : UInt8) <<< 7) ||| ((bit <<< 6) ||| low)) &&& 0x40) >>> 6 = bit ∧
      (((1 : UInt8) <<< 7) ||| ((bit <<< 6) ||| low)) &&& 0x3f = low := by
  have hclear : ∀ low : UInt8, low < 64 → ((0 : UInt8) <<< 6) ||| low < 128 ∧
      ((((1 : UInt8) <<< 7) ||| (((0 : UInt8) <<< 6) ||| low)) &&& 0x40) >>> 6 = 0 ∧
      (((1 : UInt8) <<< 7) ||| (((0 : UInt8) <<< 6) ||| low)) &&& 0x3f = low := by
    decide +kernel
  have hset : ∀ low : UInt8, low < 64 → ((1 : UInt8) <<< 6) ||| low < 128 ∧
      ((((1 : UInt8) <<< 7) ||| (((1 : UInt8) <<< 6) ||| low)) &&& 0x40) >>> 6 = 1 ∧
      (((1 : UInt8) <<< 7) ||| (((1 : UInt8) <<< 6) ||| low)) &&& 0x3f = low := by
    decide +kernel
  rcases lt_two hbit with rfl | rfl
  · exact hclear low hlow
  · exact hset low hlow

/-- Packing undoes unpacking. -/
theorem first_unpack (first second : UInt8) : (controllerLogUnpack first second).first = first := by
  have hall : ∀ first : UInt8,
      (((first &&& 0x80) >>> 7) <<< 7) ||| ((first &&& 0x7f) &&& 0x7f) = first := by
    decide +kernel
  exact hall first

theorem second_unpack (first second : UInt8) :
    (controllerLogUnpack first second).second = second := by
  have hall : ∀ second : UInt8, (controllerLogUnpack 0 second).second = second := by
    decide +kernel
  exact hall second

section
variable {log : ControllerLog} {index : Fin 128}

theorem WellFormed.number_lt (h : log.WellFormed index) : log.number < 128 := by
  have hall : ∀ index : Fin 128, UInt8.ofNat index < 128 := by decide +kernel
  rw [h.number]
  exact hall index

theorem WellFormed.first_eq (h : log.WellFormed index) :
    log.first = (log.s <<< 7) ||| log.number := by
  have hall : ∀ index : Fin 128, UInt8.ofNat index &&& 0x7f = UInt8.ofNat index := by
    decide +kernel
  rw [ControllerLog.first, h.number, hall]

theorem WellFormed.a_lt (h : log.WellFormed index) : log.a < 2 := by
  rcases h.value with ⟨ha, -⟩ | ⟨ha, -⟩ <;> rw [ha] <;> decide

theorem WellFormed.valueBits_lt (h : log.WellFormed index) : log.valueBits < 128 := by
  rcases h.value with ⟨ha, -, hvalue⟩ | ⟨ha, ht, hvalue⟩
  · rw [valueBits, ha, if_neg (by decide)]
    exact hvalue
  · rw [valueBits, if_pos ha]
    exact (split_seven ht hvalue).1

theorem WellFormed.second_eq (h : log.WellFormed index) :
    log.second = (log.a <<< 7) ||| log.valueBits := by
  have hsix : ∀ value : UInt8, value < 64 → value &&& 0x3f = value := by decide +kernel
  have hseven : ∀ value : UInt8, value < 128 → value &&& 0x7f = value := by decide +kernel
  rcases h.value with ⟨ha, -, hvalue⟩ | ⟨ha, -, hvalue⟩
  · have hplain : ¬ log.a = 1 := by
      rw [ha]
      decide
    rw [second, valueBits, if_neg hplain, if_neg hplain, hseven _ hvalue]
  · rw [second, valueBits, if_pos ha, if_pos ha, hsix _ hvalue, UInt8.or_assoc]

/-- Unpacking undoes packing, for a log by itself. -/
theorem WellFormed.unpack_pack (h : log.WellFormed index) :
    controllerLogUnpack log.first log.second = log := by
  obtain ⟨hs, hnumber⟩ := split_octet h.s_lt h.number_lt
  obtain ⟨ha, hbits⟩ := split_octet h.a_lt h.valueBits_lt
  rw [h.first_eq, h.second_eq]
  simp only [controllerLogUnpack, hs, hnumber, ha, hbits]
  obtain ⟨s, number, a, t, value⟩ := log
  rcases h.value with ⟨rfl, rfl, -⟩ | ⟨rfl, ht, hvalue⟩
  · rfl
  · simp only [valueBits, if_true, (split_seven ht hvalue).2]

end

end ControllerLog

namespace ChapterC

/-- A chapter whose logs in use can be packed. -/
structure WellFormed (chapter : ChapterC) : Prop where
  s_lt : chapter.s < 2
  logs : ∀ index, chapter.inUse index = true → (chapter.controllerLog index).WellFormed index

/-- The same S bit and the same logs in use. -/
structure SameLogs (chapter decoded : ChapterC) : Prop where
  s_eq : decoded.s = chapter.s
  inUse_eq : ∀ index, decoded.inUse index = chapter.inUse index
  log_eq : ∀ index, chapter.inUse index = true →
    decoded.controllerLog index = chapter.controllerLog index

/-- The octets repeat themselves half-way: the middle log looks like the header, and the
one half the logs further on, around the end, looks like the value of a log. -/
structure Recurs (chapter : ChapterC) : Prop where
  odd : chapter.count % 2 = 1
  middle : ∀ log ∈ chapter.logs[chapter.count / 2]?,
    log.s = chapter.s ∧ log.number.toNat = chapter.count - 1
  opposite : ∀ k < chapter.count, ∀ log ∈ chapter.logs[k]?,
    ∀ other ∈ chapter.logs[(k + (chapter.count + 1) / 2) % chapter.count]?,
      other.s = log.a ∧ other.number = log.valueBits

/-- The last pair of octets for a controller, as a log. -/
def lastLog (pairs : List (UInt8 × UInt8)) (index : Fin 128) : Option ControllerLog :=
  (pairs.filter fun pair => (pair.1 &&& 0x7f).toNat = index.val).getLast?.map fun pair =>
    controllerLogUnpack pair.1 pair.2

theorem lastLog_cons (first second : UInt8) (pairs : List (UInt8 × UInt8)) (index : Fin 128) :
    lastLog ((first, second) :: pairs) index =
      if (first &&& 0x7f).toNat = index.val then
        some ((lastLog pairs index).getD (controllerLogUnpack first second))
      else lastLog pairs index := by
  unfold lastLog
  rw [List.filter_cons]
  split_ifs with hslot hindex hindex
  · rw [List.getLast?_cons]
    cases (pairs.filter _).getLast? <;> rfl
  · exact absurd (of_decide_eq_true hslot) hindex
  · exact absurd (decide_eq_true hindex) hslot
  · rfl

/-- The last pair of octets for a controller decides: along the octets. -/
theorem unpackLoop_log (chapter : ChapterC) (bytes : List UInt8) (index : Fin 128) :
    (chapterCUnpackLoop chapter bytes).controllerLog index =
      (lastLog (pairsOf bytes) index).getD (chapter.controllerLog index) := by
  have hsmall : ∀ first : UInt8, (first &&& 0x7f).toNat % 128 = (first &&& 0x7f).toNat := by
    decide +kernel
  induction chapter, bytes using chapterCUnpackLoop.induct with
  | case1 chapter first second rest slot ih =>
    rw [chapterCUnpackLoop, ih, pairsOf, lastLog_cons]
    by_cases hslot : (first &&& 0x7f).toNat = index.val
    · have hindex : slot = index := Fin.ext ((hsmall first).trans hslot)
      simp only [if_pos hslot, hindex, Function.update_self, Option.getD_some]
    · have hindex : index ≠ slot := by
        rintro rfl
        exact hslot (hsmall first).symm
      simp only [if_neg hslot, Function.update_of_ne hindex]
  | case2 bytes chapter hshort =>
    rw [chapterCUnpackLoop.eq_2 chapter bytes hshort, pairsOf.eq_2 bytes hshort]
    rfl

theorem unpackLoop_s (chapter : ChapterC) (bytes : List UInt8) :
    (chapterCUnpackLoop chapter bytes).s = chapter.s := by
  induction chapter, bytes using chapterCUnpackLoop.induct with
  | case1 chapter first second rest slot ih => rw [chapterCUnpackLoop, ih]
  | case2 bytes chapter hshort => rw [chapterCUnpackLoop.eq_2 chapter bytes hshort]

theorem lastLog_mem {pairs : List (UInt8 × UInt8)} {index : Fin 128} {log : ControllerLog}
    (h : lastLog pairs index = some log) :
    ∃ pair ∈ pairs, (pair.1 &&& 0x7f).toNat = index.val ∧
      controllerLogUnpack pair.1 pair.2 = log := by
  obtain ⟨pair, hlast, hlog⟩ := Option.map_eq_some_iff.mp h
  obtain ⟨hmem, hindex⟩ := List.mem_filter.mp (List.mem_of_getLast? hlast)
  exact ⟨pair, hmem, of_decide_eq_true hindex, hlog⟩

theorem lastLog_eq_none_iff {pairs : List (UInt8 × UInt8)} {index : Fin 128} :
    lastLog pairs index = none ↔ ∀ pair ∈ pairs, (pair.1 &&& 0x7f).toNat ≠ index.val := by
  simp only [lastLog, Option.map_eq_none_iff, List.getLast?_eq_none_iff, List.filter_eq_nil_iff,
    decide_eq_true_eq, ne_eq]

/-- The octets of a list of logs: by induction on the logs. -/
theorem packed_getElem (logs : List ControllerLog) (k : ℕ) :
    (logs.map controllerLogPack).flatten[2 * k]? = logs[k]?.map ControllerLog.first ∧
      (logs.map controllerLogPack).flatten[2 * k + 1]? = logs[k]?.map ControllerLog.second := by
  induction logs generalizing k with
  | nil => exact ⟨rfl, rfl⟩
  | cons log logs ih =>
    cases k with
    | zero => exact ⟨rfl, rfl⟩
    | succ k => exact ih k

theorem mem_logs {chapter : ChapterC} {log : ControllerLog} :
    log ∈ chapter.logs ↔
      ∃ index, chapter.inUse index = true ∧ chapter.controllerLog index = log := by
  simp [logs]

section
variable {chapter : ChapterC} (h : chapter.WellFormed) (hpos : 0 < chapter.count)
  (hmax : chapter.count ≤ 127)

include hpos hmax in
theorem octets_getElem (k : ℕ) :
    chapter.octets[2 * k + 1]? = chapter.logs[k]?.map ControllerLog.first ∧
      chapter.octets[2 * k + 2]? = chapter.logs[k]?.map ControllerLog.second := by
  rw [octets_eq_logs hpos hmax]
  exact packed_getElem chapter.logs k

include h in
theorem number_of_first {index : Fin 128} (hindex : chapter.inUse index = true) :
    ((chapter.controllerLog index).first &&& 0x7f).toNat = index.val := by
  have hnat : ∀ index : Fin 128, (UInt8.ofNat index).toNat = index.val := by decide +kernel
  have hlog := h.logs index hindex
  rw [hlog.first_eq, (ControllerLog.split_octet hlog.s_lt hlog.number_lt).2, hlog.number, hnat]

include h hpos hmax

theorem starts_differ : StartsDiffer (fun t => chapter.octets[t]?) chapter.count := by
  intro i hi j hj hsame
  have hnodup : (chapter.logs.map ControllerLog.first).Nodup := by
    rw [logs, List.map_map]
    refine List.Nodup.map_on ?_ ((List.nodup_finRange 128).filter _)
    intro index hindex other hother hfirst
    have hfirst := congrArg (fun octet => (octet &&& 0x7f).toNat) hfirst
    simp only [Function.comp, number_of_first h (List.mem_filter.mp hindex).2,
      number_of_first h (List.mem_filter.mp hother).2] at hfirst
    exact Fin.ext hfirst
  simp only [octets_getElem hpos hmax, ← List.getElem?_map] at hsame
  have hlength : (chapter.logs.map ControllerLog.first).length = chapter.count := by
    rw [List.length_map, logs_length]
  exact (List.getElem?_inj (by omega) hnodup).mp hsame

omit h hmax in
theorem place_lt {t : ℕ} {octet : UInt8} (ht : chapter.octets[2 * t + 1]? = some octet) :
    t < chapter.count := by
  obtain ⟨hlt, -⟩ := List.getElem?_eq_some_iff.mp ht
  rw [octets_length, if_neg hpos.ne'] at hlt
  omega

omit h in
/-- Every log comes again among the pairs that are read. -/
theorem readsBack_iff_mem : ReadsBack (fun t => chapter.octets[t]?) chapter.count ↔
    ∀ log ∈ chapter.logs, (log.first, log.second) ∈ pairsOf chapter.octets := by
  constructor
  · intro hread log hlog
    obtain ⟨k, hk⟩ := List.mem_iff_getElem?.mp hlog
    obtain ⟨hfirst, hsecond⟩ := octets_getElem hpos hmax k
    rw [hk] at hfirst hsecond
    obtain ⟨j, -, hj, hnext⟩ := hread k (place_lt hpos hfirst)
    exact mem_pairsOf_iff.mpr ⟨j, hj.trans hfirst, hnext.trans hsecond⟩
  · intro hmem k hk
    have hlog := List.getElem?_eq_getElem (l := chapter.logs) (i := k) (by rwa [logs_length])
    obtain ⟨hfirst, hsecond⟩ := octets_getElem hpos hmax k
    rw [hlog] at hfirst hsecond
    obtain ⟨j, hj, hnext⟩ := mem_pairsOf_iff.mp (hmem _ (List.getElem_mem _))
    exact ⟨j, place_lt hpos hnext, hj.trans hfirst.symm, hnext.trans hsecond.symm⟩

/-- If so, there are no other pairs. -/
theorem pairs_written (hread : ReadsBack (fun t => chapter.octets[t]?) chapter.count)
    {pair : UInt8 × UInt8} (hpair : pair ∈ pairsOf chapter.octets) :
    ∃ index, chapter.inUse index = true ∧
      pair = ((chapter.controllerLog index).first, (chapter.controllerLog index).second) := by
  obtain ⟨j, hfirst, hsecond⟩ := mem_pairsOf_iff.mp hpair
  obtain ⟨k, hk, hj, hnext⟩ :=
    hread.written (starts_differ h hpos hmax) (place_lt hpos hsecond)
  obtain ⟨log, hlog⟩ : ∃ log, chapter.logs[k]? = some log :=
    ⟨_, List.getElem?_eq_getElem (by rwa [logs_length])⟩
  obtain ⟨index, hindex, hcell⟩ := mem_logs.mp (List.mem_of_getElem? hlog)
  obtain ⟨hlogFirst, hlogSecond⟩ := octets_getElem hpos hmax k
  rw [hlog] at hlogFirst hlogSecond
  refine ⟨index, hindex, ?_⟩
  rw [hcell]
  exact Prod.ext (Option.some.inj (hfirst.symm.trans (hj.trans hlogFirst)))
    (Option.some.inj (hsecond.symm.trans (hnext.trans hlogSecond)))

omit hmax in
theorem unpack_octets : ∃ start decoded, chapterCUnpack chapter.octets = some decoded ∧
    decoded = chapterCUnpackLoop start chapter.octets ∧ start.s = chapter.s ∧
      start.controllerLog = chapterCCreate.controllerLog := by
  have hlow : ∀ low : UInt8, low &&& 0x7f < 128 := by decide +kernel
  rw [octets, if_neg hpos.ne']
  exact ⟨_, _, rfl, rfl, (ControllerLog.split_octet h.s_lt (hlow _)).1, rfl⟩

/-- If every log comes again, a controller in use is decided by its log, and any other by no
pair at all. -/
theorem lastLog_of_readsBack (hread : ReadsBack (fun t => chapter.octets[t]?) chapter.count)
    (index : Fin 128) : lastLog (pairsOf chapter.octets) index =
      if chapter.inUse index then some (chapter.controllerLog index) else none := by
  have hmem := (readsBack_iff_mem hpos hmax).mp hread
  cases hlast : lastLog (pairsOf chapter.octets) index with
  | none =>
    rw [lastLog_eq_none_iff] at hlast
    rw [if_neg]
    intro hindex
    exact hlast _ (hmem _ (mem_logs.mpr ⟨index, hindex, rfl⟩)) (number_of_first h hindex)
  | some log =>
    obtain ⟨pair, hpair, hnumber, hlog⟩ := lastLog_mem hlast
    obtain ⟨other, hother, rfl⟩ := pairs_written h hpos hmax hread hpair
    have hsame : other = index := Fin.ext ((number_of_first h hother).symm.trans hnumber)
    subst hsame
    rw [if_pos hother, ← hlog, (h.logs other hother).unpack_pack]

/-- What is unpacked is the chapter again if and only if every log comes again. -/
theorem sameLogs_iff_readsBack {start decoded : ChapterC}
    (hdecoded : decoded = chapterCUnpackLoop start chapter.octets) (hs : start.s = chapter.s)
    (hstart : start.controllerLog = chapterCCreate.controllerLog) :
    chapter.SameLogs decoded ↔ ReadsBack (fun t => chapter.octets[t]?) chapter.count := by
  have hsmall : ∀ index : Fin 128, UInt8.ofNat index ≠ 255 := by decide +kernel
  have hlog : ∀ index, decoded.controllerLog index =
      (lastLog (pairsOf chapter.octets) index).getD ⟨0, 255, 0, 0, 0⟩ := by
    intro index
    rw [hdecoded, unpackLoop_log, hstart]
    rfl
  constructor
  · rintro ⟨-, -, hsame⟩
    rw [readsBack_iff_mem hpos hmax]
    intro log hmem
    obtain ⟨index, hindex, rfl⟩ := mem_logs.mp hmem
    have hcell := hsame index hindex
    rw [hlog] at hcell
    cases hlast : lastLog (pairsOf chapter.octets) index with
    | none =>
      rw [hlast] at hcell
      have hnumber := congrArg ControllerLog.number hcell
      rw [(h.logs index hindex).number] at hnumber
      exact absurd hnumber.symm (hsmall index)
    | some log =>
      rw [hlast, Option.getD_some] at hcell
      obtain ⟨pair, hpair, -, hunpack⟩ := lastLog_mem hlast
      rw [← hcell, ← hunpack, ControllerLog.first_unpack, ControllerLog.second_unpack]
      exact hpair
  · intro hread
    have hlast := lastLog_of_readsBack h hpos hmax hread
    have hsame : ∀ index, chapter.inUse index = true →
        decoded.controllerLog index = chapter.controllerLog index := by
      intro index hindex
      rw [hlog, hlast, if_pos hindex, Option.getD_some]
    refine ⟨?_, fun index => ?_, hsame⟩
    · rw [hdecoded, unpackLoop_s, hs]
    · by_cases hindex : chapter.inUse index = true
      · rw [inUse, hsame index hindex]
        rfl
      · rw [Bool.not_eq_true] at hindex
        rw [hindex, inUse, hlog, hlast, hindex]
        exact beq_false_of_ne (hsmall index).symm

omit hpos hmax in
theorem second_eq_first_iff {index other : Fin 128} (hindex : chapter.inUse index = true)
    (hother : chapter.inUse other = true) :
    (chapter.controllerLog index).second = (chapter.controllerLog other).first ↔
      (chapter.controllerLog other).s = (chapter.controllerLog index).a ∧
        (chapter.controllerLog other).number = (chapter.controllerLog index).valueBits := by
  have hlog := h.logs index hindex
  have hnext := h.logs other hother
  rw [hlog.second_eq, hnext.first_eq, eq_comm]
  exact ControllerLog.octet_inj hnext.s_lt hnext.number_lt hlog.a_lt hlog.valueBits_lt

omit hmax in
theorem header_eq_first_iff {index : Fin 128} (hindex : chapter.inUse index = true) :
    chapter.header = (chapter.controllerLog index).first ↔
      (chapter.controllerLog index).s = chapter.s ∧
        (chapter.controllerLog index).number.toNat = chapter.count - 1 := by
  have hlow : ∀ low : UInt8, low &&& 0x7f < 128 := by decide +kernel
  have hlog := h.logs index hindex
  have hnumber : ∀ number : UInt8, number = (UInt8.ofNat chapter.count - 1) &&& 0x7f ↔
      number.toNat = chapter.count - 1 := by
    intro number
    have hcount := count_field hpos
    rw [← UInt8.toNat_inj]
    omega
  rw [hlog.first_eq, header, eq_comm,
    ControllerLog.octet_inj hlog.s_lt hlog.number_lt h.s_lt (hlow _), hnumber]

/-- The octets have their own number of logs as a period if and only if the logs recur. -/
theorem period_iff : (chapter.count % 2 = 1 ∧
    ∀ t ≤ chapter.count, chapter.octets[t + chapter.count]? = chapter.octets[t]?) ↔
      chapter.Recurs := by
  have hheader : chapter.octets[0]? = some chapter.header := by
    rw [octets_eq_logs hpos hmax]
    rfl
  have hlogs : ∀ k < chapter.count, ∃ index, chapter.inUse index = true ∧
      chapter.logs[k]? = some (chapter.controllerLog index) := by
    intro k hk
    have hlog := List.getElem?_eq_getElem (l := chapter.logs) (i := k) (by rwa [logs_length])
    obtain ⟨index, hindex, hcell⟩ := mem_logs.mp (List.mem_of_getElem? hlog)
    exact ⟨index, hindex, hlog.trans (congrArg some hcell.symm)⟩
  constructor
  · rintro ⟨hodd, hperiod⟩
    obtain ⟨hmiddle, hopposite⟩ :=
      (period_iff_opposite (x := fun t => chapter.octets[t]?) hodd).mp hperiod
    simp only [octets_getElem hpos hmax, hheader] at hmiddle hopposite
    refine ⟨hodd, ?_, ?_⟩
    · intro log hlog
      obtain ⟨index, hindex, hcell⟩ := hlogs (chapter.count / 2) (by omega)
      rw [hcell] at hlog hmiddle
      cases hlog
      exact (header_eq_first_iff h hpos hindex).mp (Option.some.inj hmiddle)
    · intro k hk log hlog other hother
      obtain ⟨index, hindex, hcell⟩ := hlogs k hk
      obtain ⟨next, hnext, hcellNext⟩ := hlogs _ (Nat.mod_lt (k + (chapter.count + 1) / 2) hpos)
      have hsame := hopposite k hk
      rw [hcell] at hlog hsame
      rw [hcellNext] at hother hsame
      cases hlog
      cases hother
      exact (second_eq_first_iff h hindex hnext).mp (Option.some.inj hsame)
  · rintro ⟨hodd, hmiddle, hopposite⟩
    refine ⟨hodd, (period_iff_opposite (x := fun t => chapter.octets[t]?) hodd).mpr ⟨?_, ?_⟩⟩
    · obtain ⟨index, hindex, hcell⟩ := hlogs (chapter.count / 2) (by omega)
      have hsame := (header_eq_first_iff h hpos hindex).mpr (hmiddle _ hcell)
      simp only [octets_getElem hpos hmax, hheader, hcell, Option.map_some, hsame]
    · intro k hk
      obtain ⟨index, hindex, hcell⟩ := hlogs k hk
      obtain ⟨next, hnext, hcellNext⟩ := hlogs _ (Nat.mod_lt (k + (chapter.count + 1) / 2) hpos)
      have hsame := (second_eq_first_iff h hindex hnext).mpr (hopposite k hk _ hcell _ hcellNext)
      simp only [octets_getElem hpos hmax, hcell, hcellNext, Option.map_some, hsame]

end

/-- What the packer makes of a chapter is unpacked as the chapter again. -/
def RoundTrips (chapter : ChapterC) : Prop :=
  ∃ packed decoded, (chapterCPack chapter).map Prod.snd = .ok packed ∧
    chapterCUnpack packed = some decoded ∧ chapter.SameLogs decoded

/-- A chapter with up to 127 logs comes back from its octets if and only if they recur. -/
theorem roundTrips_iff (chapter : ChapterC) (h : chapter.WellFormed) (hpos : 0 < chapter.count)
    (hmax : chapter.count ≤ 127) : chapter.RoundTrips ↔ chapter.Recurs := by
  have hpack := chapter.pack_octets
  obtain ⟨start, decoded, hunpack, hdecoded, hs, hstart⟩ := unpack_octets h hpos
  have hsame := sameLogs_iff_readsBack h hpos hmax hdecoded hs hstart
  rw [← period_iff h hpos hmax, ← readsBack_iff hpos (starts_differ h hpos hmax), ← hsame]
  constructor
  · rintro ⟨packed, other, hpacked, hother, hlogs⟩
    cases hpack.symm.trans hpacked
    cases hunpack.symm.trans hother
    exact hlogs
  · exact fun hlogs => ⟨_, _, hpack, hunpack, hlogs⟩

end ChapterC

/-- Three logs that recur: header 02, logs 00 05, 02 00 and 05 02. -/
def recurringChapter : ChapterC where
  s := 0
  len := 0
  controllerLog := fun index =>
    if index = 0 then ⟨0, 0, 0, 0, 5⟩
    else if index = 2 then ⟨0, 2, 0, 0, 0⟩
    else if index = 5 then ⟨0, 5, 0, 0, 2⟩
    else ⟨0, 255, 0, 0, 0⟩

theorem recurring_roundTrips : recurringChapter.RoundTrips := by
  have hlogs : recurringChapter.logs =
      [⟨0, 0, 0, 0, 5⟩, ⟨0, 2, 0, 0, 0⟩, ⟨0, 5, 0, 0, 2⟩] := by decide +kernel
  have hcount : recurringChapter.count = 3 := by decide +kernel
  have hform : ∀ index, recurringChapter.inUse index = true →
      (recurringChapter.controllerLog index).s < 2 ∧
        (recurringChapter.controllerLog index).number = UInt8.ofNat index ∧
        (recurringChapter.controllerLog index).a = 0 ∧
        (recurringChapter.controllerLog index).t = 0 ∧
        (recurringChapter.controllerLog index).value < 128 := by
    decide +kernel
  have hwell : recurringChapter.WellFormed := by
    refine ⟨by decide, fun index hindex => ?_⟩
    obtain ⟨hs, hnumber, hvalue⟩ := hform index hindex
    exact ⟨hs, hnumber, .inl hvalue⟩
  refine (ChapterC.roundTrips_iff recurringChapter hwell (by omega) (by omega)).mpr ⟨?_, ?_, ?_⟩
  · rw [hcount]
  · rw [hlogs, hcount]
    decide
  · rw [hlogs, hcount]
    decide

/-- The chapter with controller 7 alone is unpacked as one with controller 0 alone. -/
theorem controller_misread :
    ∃ packed decoded,
      (chapterCAdd ⟨0, 0xb, 7, 100⟩ chapterCCreate).WellFormed ∧
      (chapterCAdd ⟨0, 0xb, 7, 100⟩ chapterCCreate).count = 1 ∧
      (chapterCPack (chapterCAdd ⟨0, 0xb, 7, 100⟩ chapterCCreate)).map Prod.snd = .ok packed ∧
      packed = [0x80, 0x87, 0x64] ∧ chapterCUnpack packed = some decoded ∧
      decoded.inUse 0 = true ∧ decoded.inUse 7 = false ∧
      ¬ (chapterCAdd ⟨0, 0xb, 7, 100⟩ chapterCCreate).SameLogs decoded := by
  have hlogs : ∀ index, (chapterCAdd ⟨0, 0xb, 7, 100⟩ chapterCCreate).inUse index = true →
      index = 7 := by
    decide +kernel
  refine ⟨[0x80, 0x87, 0x64], _, ⟨by decide, fun index hindex => ?_⟩, by decide +kernel, ?_, rfl,
    rfl, by decide, by decide, fun h => ?_⟩
  · rw [hlogs index hindex]
    exact ⟨by decide, by decide, .inl (by decide)⟩
  · rw [ChapterC.pack_octets]
    exact congrArg Except.ok (by decide +kernel)
  · exact absurd (h.inUse_eq 7) (by decide)

end RaveloxMidi
