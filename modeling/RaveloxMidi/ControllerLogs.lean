import RaveloxMidi.OffBits

/-!
# The controller logs of chapter C

A receiver reads one log for each controller that occurred, with its last value.
The packer counts the octets still free in a single octet. With all 128
controllers in use there are 257 to begin with, the count starts out at zero, and
no log is written at all.
-/
namespace RaveloxMidi
open ByteMemory Transducer

/-- The control changes on a channel since its chapter C was created or last reset. -/
def controlsSince (calls : List JournalCall) (channel : Fin 16) : List MidiControl :=
  (eventsOn channel (historyOf calls).recent).filterMap JournalEvent.control?

/-- The most recent value of a controller. -/
def latestValue (controls : List MidiControl) (number : Fin 128) : Option UInt8 :=
  (controls.filter fun control => control.controllerNumber.toNat = number.val).getLast?.map
    MidiControl.controllerValue

/-- The controllers that occurred, in ascending order, each with its most recent value. -/
def latestControls (controls : List MidiControl) : List (ℕ × ℕ) :=
  (List.finRange 128).filterMap fun number =>
    (latestValue controls number).map fun value => (number.val, value.toNat)

/-- Number and value of each log of two octets; the S bit says nothing about them. -/
def readLogs : List UInt8 → List (ℕ × ℕ)
  | first :: second :: rest => ((first &&& 0x7f).toNat, second.toNat) :: readLogs rest
  | _ => []

/-- The logs that a header announces, if they are all that follows. A chapter that is not
packed has none. -/
def readControls : List UInt8 → Option (List (ℕ × ℕ))
  | [] => some []
  | header :: rest =>
    if rest.length = 2 * ((header &&& 0x7f).toNat + 1) then some (readLogs rest) else none

theorem controlsSince_lt (calls : List JournalCall) (i : Fin 16) :
    ∀ control ∈ controlsSince calls i, control.controllerNumber.toNat < 128 := by
  intro control hcontrol
  obtain ⟨event, hevent, hselect⟩ := List.mem_filterMap.mp hcontrol
  have hrecorded := history_recorded calls event (List.mem_filter.mp hevent).1
  cases event with
  | control midiControl =>
    cases Option.some.inj hselect
    exact of_decide_eq_true hrecorded
  | note midiNote => cases hselect
  | program midiProgram => cases hselect

theorem latestValue_snoc (controls : List MidiControl) (control : MidiControl)
    (number : Fin 128) :
    latestValue (controls ++ [control]) number =
      if control.controllerNumber.toNat = number.val then some control.controllerValue
      else latestValue controls number := by
  by_cases hnumber : control.controllerNumber.toNat = number.val <;>
    simp [latestValue, List.filter_append, hnumber]

theorem latestValue_eq_none_iff (controls : List MidiControl) (number : Fin 128) :
    latestValue controls number = none ↔
      ∀ control ∈ controls, control.controllerNumber.toNat ≠ number.val := by
  simp [latestValue]

theorem latestValue_mem {controls : List MidiControl} {number : Fin 128} {value : UInt8}
    (h : latestValue controls number = some value) :
    ∃ control ∈ controls, control.controllerValue = value := by
  obtain ⟨control, hlast, rfl⟩ := Option.map_eq_some_iff.mp h
  exact ⟨control, (List.mem_filter.mp (List.mem_of_getLast? hlast)).1, rfl⟩

namespace ChapterC

/-- The logs in use, in the order of their numbers. -/
def logs (chapter : ChapterC) : List ControllerLog :=
  ((List.finRange 128).filter chapter.inUse).map chapter.controllerLog

theorem logs_length (chapter : ChapterC) : chapter.logs.length = chapter.count :=
  List.length_map _

/-- The count of free octets does not wrap around up to 127 logs. -/
theorem room_octets {room : ℕ} (hmax : room ≤ 127) :
    (UInt8.ofNat (2 * room) < 2 ↔ room = 0) ∧
      (0 < room → UInt8.ofNat (2 * room) - 2 = UInt8.ofNat (2 * (room - 1))) := by
  have hall : ∀ room : Fin 128, (UInt8.ofNat (2 * room.val) < 2 ↔ room.val = 0) ∧
      (0 < room.val → UInt8.ofNat (2 * room.val) - 2 = UInt8.ofNat (2 * (room.val - 1))) := by
    decide +kernel
  exact hall ⟨room, by omega⟩

/-- With room for them, the loop writes all the logs: by induction on the indices left. -/
theorem packLoop_all (chapter : ChapterC) (indices : List (Fin 128)) (room : ℕ)
    (hroom : (indices.filter chapter.inUse).length ≤ room) (hmax : room ≤ 127) :
    chapterCPackLoop chapter indices (UInt8.ofNat (2 * room)) =
      ((indices.filter chapter.inUse).map chapter.controllerLog).map controllerLogPack := by
  induction indices generalizing room with
  | nil => rfl
  | cons index indices ih =>
    obtain ⟨hnone, hnext⟩ := room_octets hmax
    by_cases hin : chapter.inUse index = true
    · rw [List.filter_cons_of_pos hin, List.length_cons] at hroom
      have hleft : ¬ UInt8.ofNat (2 * room) < 2 := by
        rw [hnone]
        omega
      rw [chapterCPackLoop, if_neg hleft, if_pos hin, hnext (by omega),
        ih (room - 1) (by omega) (by omega), List.filter_cons_of_pos hin, List.map_cons,
        List.map_cons]
    · rw [List.filter_cons_of_neg hin] at hroom ⊢
      by_cases hleft : UInt8.ofNat (2 * room) < 2
      · have hempty : indices.filter chapter.inUse = [] :=
          List.length_eq_zero_iff.mp (by rw [hnone] at hleft; omega)
        rw [chapterCPackLoop, if_pos hleft, hempty]
        rfl
      · rw [chapterCPackLoop, if_neg hleft, if_neg hin, ih room hroom hmax]

theorem packed_length (logs : List ControllerLog) :
    (logs.map controllerLogPack).flatten.length = 2 * logs.length := by
  induction logs with
  | nil => rfl
  | cons log logs ih =>
    rw [List.map_cons, List.flatten_cons, List.length_append, ih, List.length_cons]
    simp only [controllerLogPack, List.length_cons, List.length_nil]
    omega

def header (chapter : ChapterC) : UInt8 :=
  (chapter.s <<< 7) ||| ((UInt8.ofNat chapter.count - 1) &&& 0x7f)

/-- Up to 127 logs are packed whole. -/
theorem octets_eq_logs {chapter : ChapterC} (hpos : 0 < chapter.count)
    (hmax : chapter.count ≤ 127) :
    chapter.octets = chapter.header :: (chapter.logs.map controllerLogPack).flatten := by
  have hfilter : ((List.finRange 128).filter chapter.inUse).length = chapter.count := rfl
  have hroom : UInt8.ofNat (1 + chapter.count * 2) - 1 = UInt8.ofNat (2 * chapter.count) := by
    rw [Nat.add_comm, UInt8.ofNat_add, Nat.mul_comm]
    exact UInt8.add_sub_cancel _ _
  have hloop : chapterCPackLoop chapter (List.finRange 128) (UInt8.ofNat (2 * chapter.count)) =
      chapter.logs.map controllerLogPack :=
    packLoop_all chapter (List.finRange 128) chapter.count hfilter.le hmax
  have hpadding : chapter.count * 2 - 2 * chapter.count = 0 := by omega
  simp only [octets, if_neg hpos.ne', hroom, hloop, packed_length, logs_length, hpadding,
    List.replicate_zero, List.append_nil, header]

/-- With all 128 controllers in use, the header is followed by cleared octets. -/
theorem octets_eq_cleared {chapter : ChapterC} (hall : chapter.count = 128) :
    chapter.octets = chapter.header :: List.replicate 256 0 := by
  have hloop : chapterCPackLoop chapter (List.finRange 128) 0 = [] := by
    rw [List.finRange_succ]
    rfl
  have hroom : UInt8.ofNat (1 + 128 * 2) - 1 = 0 := by decide
  rw [octets, hall, if_neg (by decide), hroom, hloop, header, hall]
  rfl

/-- A controller is in use from its first change on, and keeps its A and T bits. -/
theorem fold_controllerLog (chapter : ChapterC) {controls : List MidiControl}
    (hsmall : ∀ control ∈ controls, control.controllerNumber.toNat < 128) (number : Fin 128) :
    (controls.foldl (fun chapter event => chapterCAdd event chapter) chapter).controllerLog number =
      match latestValue controls number with
      | none => chapter.controllerLog number
      | some value => { chapter.controllerLog number with
          s := 1
          number := UInt8.ofNat number
          value := value } := by
  induction controls using List.reverseRecOn with
  | nil => rfl
  | append_singleton controls control ih =>
    have hold := ih fun other hother => hsmall other (List.mem_append_left _ hother)
    have hnew := hsmall control (by simp)
    rw [List.foldl_append, List.foldl_cons, List.foldl_nil, latestValue_snoc]
    generalize controls.foldl (fun chapter event => chapterCAdd event chapter) chapter = before
      at hold ⊢
    by_cases hnumber : control.controllerNumber.toNat = number.val
    · have hindex : control.controllerNumber.toNat % 128 = number.val :=
        (Nat.mod_eq_of_lt hnew).trans hnumber
      rw [if_pos hnumber]
      simp only [chapterCAdd, hindex, Fin.eta, Function.update_self, hold]
      cases latestValue controls number <;> rfl
    · have hindex : number ≠ ⟨control.controllerNumber.toNat % 128, Nat.mod_lt _ (by decide)⟩ := by
        intro h
        have hvalue := congrArg Fin.val h
        simp only [Nat.mod_eq_of_lt hnew] at hvalue
        exact hnumber hvalue.symm
      rw [if_neg hnumber, ← hold]
      simp only [chapterCAdd, Function.update_of_ne hindex]

theorem readLogs_packed {logs : List ControllerLog} (h : ∀ log ∈ logs, log.a = 0) :
    readLogs (logs.map controllerLogPack).flatten =
      logs.map fun log => ((log.number &&& 0x7f).toNat, (log.value &&& 0x7f).toNat) := by
  induction logs with
  | nil => rfl
  | cons log logs ih =>
    have hclear := h log (by simp)
    have hplain : ¬ (0 : UInt8) = 1 := by decide
    have hshift : (0 : UInt8) <<< 7 = 0 := by decide
    simp only [List.map_cons, List.flatten_cons, controllerLogPack, hclear, if_neg hplain, hshift,
      UInt8.zero_or, List.cons_append, List.nil_append, readLogs, low_seven,
      ih fun other hother => h other (List.mem_cons_of_mem _ hother)]

/-- A chapter that has recorded the given control changes and no others. -/
structure RecordsControls (chapter : ChapterC) (controls : List MidiControl) : Prop where
  used : ∀ number value, latestValue controls number = some value →
    chapter.controllerLog number = ⟨1, UInt8.ofNat number, 0, 0, value⟩
  unused : ∀ number, latestValue controls number = none →
    (chapter.controllerLog number).number = 255

theorem records_controls_fold {chapter : ChapterC} {controls : List MidiControl}
    (hblank : ∀ number, ∃ s, chapter.controllerLog number = ⟨s, 255, 0, 0, 0⟩)
    (hsmall : ∀ control ∈ controls, control.controllerNumber.toNat < 128) :
    (controls.foldl (fun chapter event => chapterCAdd event chapter) chapter).RecordsControls
      controls := by
  constructor
  · intro number value hvalue
    obtain ⟨s, hs⟩ := hblank number
    rw [fold_controllerLog chapter hsmall, hvalue]
    simp only [hs]
  · intro number hnone
    obtain ⟨s, hs⟩ := hblank number
    rw [fold_controllerLog chapter hsmall, hnone]
    simp only [hs]

section Records
variable {chapter : ChapterC} {controls : List MidiControl}

theorem RecordsControls.inUse_iff (h : chapter.RecordsControls controls) (number : Fin 128) :
    chapter.inUse number = true ↔ (latestValue controls number).isSome = true := by
  have hsmall : ∀ number : Fin 128, UInt8.ofNat number ≠ 255 := by decide +kernel
  cases hvalue : latestValue controls number with
  | none => simpa [inUse, h.unused number hvalue] using (hsmall number).symm
  | some value => simp [inUse, h.used number value hvalue]

/-- The logs read back are those of the controllers that occurred: along the indices. -/
theorem RecordsControls.logs_eq (h : chapter.RecordsControls controls)
    (hvalues : ∀ control ∈ controls, control.controllerValue < 128) :
    readLogs (chapter.logs.map controllerLogPack).flatten = latestControls controls := by
  have hnumber : ∀ number : Fin 128, (UInt8.ofNat number &&& 0x7f).toNat = number.val := by
    decide +kernel
  have hvalue : ∀ value : UInt8, value < 128 → value &&& 0x7f = value := by decide +kernel
  have hclear : ∀ log ∈ chapter.logs, log.a = 0 := by
    intro log hlog
    obtain ⟨number, hmem, rfl⟩ := List.mem_map.mp hlog
    have hin := (h.inUse_iff number).mp (List.mem_filter.mp hmem).2
    obtain ⟨value, hsome⟩ := Option.isSome_iff_exists.mp hin
    rw [h.used number value hsome]
  rw [readLogs_packed hclear, logs, latestControls, List.map_map]
  induction List.finRange 128 with
  | nil => rfl
  | cons number numbers ih =>
    cases hsome : latestValue controls number with
    | none =>
      have hout : ¬ chapter.inUse number = true := by
        rw [h.inUse_iff, hsome]
        simp
      rw [List.filter_cons_of_neg hout, ih, List.filterMap_cons, hsome]
      rfl
    | some value =>
      have hin : chapter.inUse number = true := by
        rw [h.inUse_iff, hsome]
        rfl
      obtain ⟨control, hmem, hcontrol⟩ := latestValue_mem hsome
      have hsmall : value < 128 := hcontrol ▸ hvalues control hmem
      rw [List.filter_cons_of_pos hin, List.map_cons, ih, List.filterMap_cons, hsome]
      simp only [Function.comp, h.used number value hsome, hnumber, hvalue value hsmall,
        Option.map_some]

/-- With a controller to spare, the octets list the controllers as they should. -/
theorem RecordsControls.exact (h : chapter.RecordsControls controls)
    (hvalues : ∀ control ∈ controls, control.controllerValue < 128) (hmax : chapter.count < 128) :
    readControls chapter.octets = some (latestControls controls) := by
  have hlogs := h.logs_eq hvalues
  by_cases hzero : chapter.count = 0
  · have hempty : chapter.logs = [] := List.length_eq_zero_iff.mp (by rw [logs_length, hzero])
    rw [hempty] at hlogs
    rw [octets, if_pos hzero, readControls, ← hlogs]
    rfl
  · have hpos := Nat.pos_of_ne_zero hzero
    rw [octets_eq_logs hpos (by omega), readControls, header, low_seven, count_field hpos,
      packed_length, logs_length, if_pos rfl, hlogs]

theorem readLogs_cleared (n : ℕ) : ∀ log ∈ readLogs (List.replicate (2 * n) 0), log = (0, 0) := by
  induction n with
  | zero => simp [readLogs]
  | succ n ih =>
    rw [Nat.mul_succ, List.replicate_succ, List.replicate_succ, readLogs]
    intro log hlog
    rcases List.mem_cons.mp hlog with rfl | hrest
    · rfl
    · exact ih log hrest

/-- Without one, the log of controller 1 is missing. -/
theorem cleared_not_exact (hall : chapter.count = 128)
    (hused : (latestValue controls 1).isSome = true) :
    readControls chapter.octets ≠ some (latestControls controls) := by
  obtain ⟨value, hvalue⟩ := Option.isSome_iff_exists.mp hused
  have hmem : (1, value.toNat) ∈ latestControls controls := by
    refine List.mem_filterMap.mpr ⟨1, List.mem_finRange _, ?_⟩
    rw [hvalue]
    rfl
  rw [octets_eq_cleared hall, readControls]
  intro hread
  split_ifs at hread with hlength
  rw [← Option.some.inj hread] at hmem
  have hzero := readLogs_cleared 128 _ hmem
  simp at hzero

theorem count_lt_iff : chapter.count < 128 ↔ ∃ number, ¬ chapter.inUse number = true := by
  have hlt := List.length_filter_lt_length_iff_exists (l := List.finRange 128)
    (p := chapter.inUse)
  rw [List.length_finRange] at hlt
  rw [count, hlt]
  simp

theorem RecordsControls.exact_iff (h : chapter.RecordsControls controls)
    (hvalues : ∀ control ∈ controls, control.controllerValue < 128) :
    readControls chapter.octets = some (latestControls controls) ↔
      ∃ number, latestValue controls number = none := by
  have hunused : (∃ number, latestValue controls number = none) ↔ chapter.count < 128 := by
    simp only [count_lt_iff, h.inUse_iff, Option.not_isSome_iff_eq_none]
  rw [hunused]
  constructor
  · intro hread
    by_contra hmax
    have hall : chapter.count = 128 := le_antisymm chapter.count_le (not_lt.mp hmax)
    rw [← hunused] at hmax
    refine cleared_not_exact hall ?_ hread
    exact Option.isSome_iff_ne_none.mpr fun hnone => hmax ⟨1, hnone⟩
  · exact h.exact hvalues

end Records

end ChapterC

theorem ChapterC.pack_octets (chapter : ChapterC) :
    (chapterCPack chapter).map Prod.snd = .ok chapter.octets := by
  rw [pack_eq]
  rfl

/-- The chapter C of a channel, if there is one. -/
def Journal.chapterCOn (j : Journal) (channel : Fin 16) : Option ChapterC :=
  (j.channels channel).bind Channel.chapterC

/-- What a packed chapter C lists is each controller with its most recent value. -/
def Journal.ControlsExact (j : Journal) (channel : Fin 16) (controls : List MidiControl) : Prop :=
  ∀ chapter ∈ j.chapterCOn channel, ∃ packed,
    (chapterCPack chapter).map Prod.snd = .ok packed ∧
      readControls packed = some (latestControls controls)

namespace Journal.Reflects
variable {j : Journal} {calls : List JournalCall} (hj : j.Reflects (historyOf calls))
include hj

theorem chapterC_eq (i : Fin 16) :
    (j.chapterCOn i).map (fun chapter => { chapter with len := 0 }) =
      chapterCOf (eventsOn i (historyOf calls).earlier) (eventsOn i (historyOf calls).recent) :=
  hj.chapter_eq i (fun _ => rfl) (fun _ _ => rfl) rfl

/-- The chapter holds the control changes since it was created or last reset. -/
theorem records_controls {i : Fin 16} {chapter : ChapterC} (hchapter : chapter ∈ j.chapterCOn i) :
    chapter.RecordsControls (controlsSince calls i) := by
  have hsmall := controlsSince_lt calls i
  have heq := chapterC_eq hj i
  rw [Option.mem_def.mp hchapter, Option.map_some, chapterCOf] at heq
  obtain ⟨start, hstart, hfold⟩ := chapterOf_eq_some heq.symm
  have hblank : ∀ number, ∃ s, start.controllerLog number = ⟨s, 255, 0, 0, 0⟩ := by
    rcases hstart with rfl | rfl
    · exact fun _ => ⟨0, rfl⟩
    · exact fun _ => ⟨1, rfl⟩
  have hrecords := ChapterC.records_controls_fold hblank hsmall
  rw [controlsSince, hfold] at hrecords
  exact ⟨hrecords.used, hrecords.unused⟩

theorem no_controls {i : Fin 16} (hnone : j.chapterCOn i = none) : controlsSince calls i = [] := by
  have heq := chapterC_eq hj i
  rw [hnone, Option.map_none, chapterCOf, chapterOf] at heq
  split_ifs at heq with hempty
  exact hempty.2

theorem controlsExact_iff (i : Fin 16)
    (hvalues : ∀ control ∈ controlsSince calls i, control.controllerValue < 128) :
    j.ControlsExact i (controlsSince calls i) ↔
      ∃ number : Fin 128, ∀ control ∈ controlsSince calls i,
        control.controllerNumber.toNat ≠ number.val := by
  rw [ControlsExact, packed_iff fun chapter _ => chapter.pack_octets]
  cases hchapter : j.chapterCOn i with
  | none =>
    rw [no_controls hj hchapter]
    simp
  | some chapter =>
    have hexact := (records_controls hj hchapter).exact_iff hvalues
    simp only [latestValue_eq_none_iff] at hexact
    simp only [Option.mem_def, Option.some.injEq, forall_eq', hexact]

end Journal.Reflects

/-- After any calls on a journal, chapter C of a channel lists exactly the controllers that
occurred, with their most recent values, if and only if not all 128 did. -/
theorem controls_exact_iff (calls : List JournalCall) (channel : Fin 16)
    (hvalues : ∀ control ∈ controlsSince calls channel, control.controllerValue < 128) :
    ∃ j packed, run journalCall journalInit calls = .ok (j, packed) ∧
      (j.ControlsExact channel (controlsSince calls channel) ↔
        ∃ number : Fin 128, ∀ control ∈ controlsSince calls channel,
          control.controllerNumber.toNat ≠ number.val) := by
  obtain ⟨j, hrun, hj⟩ := run_journal calls
  exact ⟨j, _, hrun, hj.controlsExact_iff channel hvalues⟩
/-- Two changes of one controller and one of another are listed as two logs. -/
theorem controls_exact_two :
    ∃ j packed, run journalCall journalInit
        [.add 1 (.control ⟨0, 0xb, 7, 100⟩), .add 2 (.control ⟨0, 0xb, 1, 3⟩),
          .add 3 (.control ⟨0, 0xb, 7, 90⟩)] = .ok (j, packed) ∧
      j.ControlsExact 0 [⟨0, 0xb, 7, 100⟩, ⟨0, 0xb, 1, 3⟩, ⟨0, 0xb, 7, 90⟩] ∧
      latestControls [⟨0, 0xb, 7, 100⟩, ⟨0, 0xb, 1, 3⟩, ⟨0, 0xb, 7, 90⟩] = [(1, 3), (7, 90)] := by
  obtain ⟨j, packed, hrun, hexact⟩ := controls_exact_iff
    [.add 1 (.control ⟨0, 0xb, 7, 100⟩), .add 2 (.control ⟨0, 0xb, 1, 3⟩),
      .add 3 (.control ⟨0, 0xb, 7, 90⟩)] 0 (by decide)
  exact ⟨j, packed, hrun, hexact.mpr ⟨0, by decide⟩, by decide +kernel⟩

/-- One change of every controller. -/
def allControls : List MidiControl :=
  (List.finRange 128).map fun number => ⟨0, 0xb, UInt8.ofNat number, 100⟩

/-- With all of them in use, their values are not listed. -/
theorem all_controls_lost :
    ∃ j packed, run journalCall journalInit
        (allControls.map fun control => .add 1 (.control control)) = .ok (j, packed) ∧
      controlsSince (allControls.map fun control => .add 1 (.control control)) 0 = allControls ∧
      ¬ j.ControlsExact 0 allControls := by
  have hcontrols : controlsSince (allControls.map fun control => .add 1 (.control control)) 0 =
      allControls := by
    decide +kernel
  have hall : ∀ number : Fin 128, ¬ ∀ control ∈ allControls,
      control.controllerNumber.toNat ≠ number.val := by
    decide +kernel
  obtain ⟨j, hrun, hj⟩ := run_journal (allControls.map fun control => .add 1 (.control control))
  have hexact := hj.controlsExact_iff 0
  rw [hcontrols] at hexact
  refine ⟨j, _, hrun, hcontrols, fun h => ?_⟩
  obtain ⟨number, hnumber⟩ := (hexact (by decide +kernel)).mp h
  exact hall number hnumber

end RaveloxMidi
