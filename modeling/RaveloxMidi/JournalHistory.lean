import Mathlib.Algebra.BigOperators.Fin
import RaveloxMidi.MidiJournal

/-!
# A journal as a function of its history

What a journal says about its purpose is the list of events added since the last
reset. What it holds also depends on the events before: the reset functions keep
every node of the tree. Both lists together determine the journal, channel by
channel; each call on the journal is a step on these lists.
-/
namespace RaveloxMidi
open ByteMemory Transducer

namespace JournalEvent

/-- Controllers from 128 on are refused by the journal. -/
def recorded : JournalEvent → Bool
  | control midiControl => decide (midiControl.controllerNumber.toNat < 128)
  | _ => true

def note? : JournalEvent → Option MidiNote
  | note midiNote => some midiNote
  | _ => none

def control? : JournalEvent → Option MidiControl
  | control midiControl => some midiControl
  | _ => none

def program? : JournalEvent → Option MidiProgram
  | program midiProgram => some midiProgram
  | _ => none

/-- The table-of-contents bit of the chapter an event goes into. -/
def flag : JournalEvent → UInt8
  | note _ => chapterNFlag
  | control _ => chapterCFlag
  | program _ => chapterPFlag

end JournalEvent

/-- The recorded events before the last reset and since, and the last sequence
number since the reset. -/
structure JournalHistory where
  earlier : List JournalEvent
  recent : List JournalEvent
  seq : UInt16

def JournalHistory.call (h : JournalHistory) : JournalCall → JournalHistory
  | .add seq event =>
    if event.recorded then ⟨h.earlier, h.recent ++ [event], seq.toUInt16⟩ else h
  | .pack => h
  | .reset => ⟨h.earlier ++ h.recent, [], 0⟩

def JournalHistory.start : JournalHistory := ⟨[], [], 0⟩

def historyOf (calls : List JournalCall) : JournalHistory :=
  calls.foldl JournalHistory.call JournalHistory.start

theorem historyOf_snoc (calls : List JournalCall) (call : JournalCall) :
    historyOf (calls ++ [call]) = (historyOf calls).call call := by
  rw [historyOf, List.foldl_append]
  rfl

theorem history_recorded (calls : List JournalCall) :
    ∀ event ∈ (historyOf calls).recent, event.recorded = true := by
  induction calls using List.reverseRecOn with
  | nil => simp [historyOf, JournalHistory.start]
  | append_singleton calls call ih =>
    rw [historyOf_snoc]
    intro event hevent
    cases call with
    | add seq added =>
      rw [JournalHistory.call] at hevent
      split_ifs at hevent with hrecorded
      · rcases List.mem_append.mp hevent with hold | hnew
        · exact ih event hold
        · rw [List.mem_singleton.mp hnew]
          exact hrecorded
      · exact ih event hevent
    | pack => exact ih event hevent
    | reset => cases hevent

/-- The events on one channel. -/
def eventsOn (channel : Fin 16) (events : List JournalEvent) : List JournalEvent :=
  events.filter fun event => event.channel = channel

/-- A chapter that is created with its first event and made blank by a reset. -/
def chapterOf {α β : Type} (create blank : α) (add : β → α → α) (earlier recent : List β) :
    Option α :=
  if earlier = [] ∧ recent = [] then none
  else some (recent.foldl (fun chapter event => add event chapter)
    (if earlier = [] then create else blank))

section Chapters
variable {α β : Type} {create blank : α} {add : β → α → α}

theorem chapterOf_snoc (earlier recent : List β) (event : β) :
    chapterOf create blank add earlier (recent ++ [event]) =
      some (add event ((chapterOf create blank add earlier recent).getD create)) := by
  by_cases hnone : earlier = [] ∧ recent = []
  · obtain ⟨rfl, rfl⟩ := hnone
    simp [chapterOf]
  · simp only [chapterOf, if_neg hnone, Option.getD_some, List.foldl_append]
    simp

theorem chapterOf_reset (create : α) (add : β → α → α) {reset : α → α}
    (hreset : ∀ a, reset a = blank) (earlier recent : List β) :
    (chapterOf create blank add earlier recent).map reset =
      chapterOf create blank add (earlier ++ recent) [] := by
  by_cases hnone : earlier = [] ∧ recent = []
  · obtain ⟨rfl, rfl⟩ := hnone
    simp [chapterOf]
  · have hne : earlier ++ recent ≠ [] := by simpa using hnone
    simp [chapterOf, if_neg hnone, hne, hreset]

/-- A chapter is what the recent events make of one that is new or blank. -/
theorem chapterOf_eq_some {earlier recent : List β} {chapter : α}
    (h : chapterOf create blank add earlier recent = some chapter) :
    ∃ start, (start = create ∨ start = blank) ∧
      recent.foldl (fun chapter event => add event chapter) start = chapter := by
  unfold chapterOf at h
  split_ifs at h with hnone hcreated
  · exact ⟨create, .inl rfl, Option.some.inj h⟩
  · exact ⟨blank, .inr rfl, Option.some.inj h⟩

theorem chapterOf_isSome_iff (earlier recent : List β) :
    (chapterOf create blank add earlier recent).isSome ↔ earlier ++ recent ≠ [] := by
  by_cases hnone : earlier = [] ∧ recent = [] <;> simp_all [chapterOf]

end Chapters

def chapterPOf (earlier recent : List JournalEvent) : Option ChapterP :=
  ((earlier ++ recent).filterMap JournalEvent.program?).getLast?.map chapterPAdd

def chapterNOf (earlier recent : List JournalEvent) : Option ChapterN :=
  chapterOf chapterNCreate (chapterNReset chapterNCreate) chapterNAdd
    (earlier.filterMap JournalEvent.note?) (recent.filterMap JournalEvent.note?)

def chapterCOf (earlier recent : List JournalEvent) : Option ChapterC :=
  chapterOf chapterCCreate (chapterCReset chapterCCreate) chapterCAdd
    (earlier.filterMap JournalEvent.control?) (recent.filterMap JournalEvent.control?)

/-- The table of contents lists the chapters of the events since the reset. -/
def contentsOf (recent : List JournalEvent) : UInt8 :=
  recent.foldl (fun bits event => bits ||| event.flag) 0

/-- A channel journal after the given events on it. -/
def channelBody (channel : Fin 16) (earlier recent : List JournalEvent) : Channel where
  header := ⟨true, if recent = [] then 0 else chanField channel, false, 0, contentsOf recent⟩
  chapterP := chapterPOf earlier recent
  chapterN := chapterNOf earlier recent
  chapterC := chapterCOf earlier recent

def channelOf (channel : Fin 16) (earlier recent : List JournalEvent) : Option Channel :=
  if earlier = [] ∧ recent = [] then none else some (channelBody channel earlier recent)

/-- How often a channel is counted: the last channel once for each event, any
other channel once. -/
def countOn (channel : Fin 16) (recent : List JournalEvent) : ℕ :=
  if channel = 15 then recent.length else if recent = [] then 0 else 1

namespace JournalHistory

def counted (h : JournalHistory) : ℕ :=
  ∑ channel : Fin 16, countOn channel (eventsOn channel h.recent)

/-- The journal that a history leads to. -/
def journal (h : JournalHistory) : Journal where
  header := ⟨if h.recent = [] then journalHeaderSFlag
    else journalHeaderAFlag ||| journalHeaderSFlag,
    UInt8.ofNat h.counted, h.seq⟩
  channels := fun channel =>
    channelOf channel (eventsOn channel h.earlier) (eventsOn channel h.recent)

/-- The calls as steps on the history: a pack emits the journal of the history. -/
def step (h : JournalHistory) (call : JournalCall) : JournalHistory × List (List UInt8) :=
  (h.call call, match call with
    | .pack => [h.journal.octets]
    | _ => [])

end JournalHistory

theorem eventsOn_append (channel : Fin 16) (xs ys : List JournalEvent) :
    eventsOn channel (xs ++ ys) = eventsOn channel xs ++ eventsOn channel ys :=
  List.filter_append ..

theorem eventsOn_own (event : JournalEvent) : eventsOn event.channel [event] = [event] := by
  simp [eventsOn]

theorem eventsOn_other {event : JournalEvent} {channel : Fin 16} (h : channel ≠ event.channel) :
    eventsOn channel [event] = [] := by
  simp [eventsOn, Ne.symm h]

/-- A missing channel is created blank. -/
theorem channelOf_getD (channel : Fin 16) (earlier recent : List JournalEvent) :
    (channelOf channel earlier recent).getD channelCreate = channelBody channel earlier recent := by
  by_cases hnone : earlier = [] ∧ recent = []
  · obtain ⟨rfl, rfl⟩ := hnone
    rfl
  · simp [channelOf, hnone]

theorem channelOf_reset (channel : Fin 16) (earlier recent : List JournalEvent) :
    (channelOf channel earlier recent).map channelJournalReset =
      channelOf channel (earlier ++ recent) [] := by
  by_cases hnone : earlier = [] ∧ recent = []
  · obtain ⟨rfl, rfl⟩ := hnone
    simp [channelOf]
  · have hne : ¬ (earlier ++ recent = [] ∧ ([] : List JournalEvent) = []) := by simpa using hnone
    have hn := chapterOf_reset chapterNCreate chapterNAdd
      (show ∀ chapter, chapterNReset chapter = chapterNReset chapterNCreate from fun _ => rfl)
      (earlier.filterMap JournalEvent.note?) (recent.filterMap JournalEvent.note?)
    have hc := chapterOf_reset chapterCCreate chapterCAdd
      (show ∀ chapter, chapterCReset chapter = chapterCReset chapterCCreate from fun _ => rfl)
      (earlier.filterMap JournalEvent.control?) (recent.filterMap JournalEvent.control?)
    rw [channelOf, channelOf, if_neg hnone, if_neg hne]
    simp only [Option.map_some, channelJournalReset, channelBody, channelHeaderReset, chapterNOf,
      chapterCOf, hn, hc, List.filterMap_append, List.filterMap_nil, chapterPOf, List.append_nil]
    rfl

/-- Counting one more event. -/
theorem countOn_snoc (channel : Fin 16) (recent : List JournalEvent) (event : JournalEvent) :
    countOn channel (recent ++ [event]) =
      countOn channel recent + if recent = [] ∨ channel = 15 then 1 else 0 := by
  unfold countOn
  by_cases hlast : channel = 15
  · simp [hlast]
  · by_cases hnone : recent = [] <;> simp [hlast, hnone]

/-- The comparison with `channel + 1` fails for a fresh channel, and always for the last one. -/
theorem chan_ne_iff (channel : Fin 16) (recent : List JournalEvent) :
    ((if recent = [] then 0 else chanField channel : Fin 16).val ≠ channel.val + 1) ↔
      (recent = [] ∨ channel = 15) := by
  by_cases hnone : recent = []
  · simp [hnone]
  · simp only [hnone, if_false, false_or, chanField]
    omega

namespace JournalHistory

theorem counted_snoc (h : JournalHistory) (event : JournalEvent) (seq : UInt16) :
    (⟨h.earlier, h.recent ++ [event], seq⟩ : JournalHistory).counted =
      h.counted +
        if eventsOn event.channel h.recent = [] ∨ event.channel = 15 then 1 else 0 := by
  have hsplit : ∀ i : Fin 16,
      countOn i (eventsOn i (h.recent ++ [event])) = countOn i (eventsOn i h.recent) +
        if i = event.channel then
          (if eventsOn event.channel h.recent = [] ∨ event.channel = 15 then 1 else 0)
        else 0 := by
    intro i
    rw [eventsOn_append]
    by_cases hi : i = event.channel
    · subst hi
      rw [eventsOn_own, countOn_snoc, if_pos rfl]
    · rw [eventsOn_other hi, List.append_nil, if_neg hi, Nat.add_zero]
  simp only [counted, hsplit, Finset.sum_add_distrib, Finset.sum_ite_eq', Finset.mem_univ, if_true]

/-- The common part of the add functions, given the channel with its chapter recorded. -/
theorem add_current {j : Journal} {seq : UInt32} {channel : Fin 16} {flag : UInt8}
    {record : Channel → Channel} {body current : Channel}
    (hbody : (j.channels channel).getD channelCreate = body)
    (hcurrent : record { body with header.bitfield := body.header.bitfield ||| flag } = current) :
    midiJournalAdd j seq channel flag record =
      { header :=
          { bitfield := j.header.bitfield ||| (journalHeaderAFlag ||| journalHeaderSFlag)
            totchan := if current.header.chan.val ≠ channel.val + 1 then j.header.totchan + 1
              else j.header.totchan
            seq := seq.toUInt16 }
        channels := Function.update j.channels channel
          (some (if current.header.chan.val ≠ channel.val + 1 then
            { current with header.chan := chanField channel } else current)) } := by
  subst hbody
  subst hcurrent
  rfl

theorem journal_header (h : JournalHistory) : h.journal.header =
    ⟨if h.recent = [] then journalHeaderSFlag else journalHeaderAFlag ||| journalHeaderSFlag,
      UInt8.ofNat h.counted, h.seq⟩ := rfl

theorem ofNat_succ (n : ℕ) : UInt8.ofNat (n + 1) = UInt8.ofNat n + 1 := by
  rw [UInt8.ofNat_add]
  rfl

/-- An event of the history, given what it does to its chapter. -/
theorem add_eq (h : JournalHistory) (seq : UInt32) (event : JournalEvent)
    (record : Channel → Channel)
    (hrecord : ∀ header : ChannelHeader,
      record { channelBody event.channel (eventsOn event.channel h.earlier)
          (eventsOn event.channel h.recent) with header := header } =
        { channelBody event.channel (eventsOn event.channel h.earlier)
          (eventsOn event.channel h.recent ++ [event]) with header := header }) :
    midiJournalAdd h.journal seq event.channel event.flag record =
      (⟨h.earlier, h.recent ++ [event], seq.toUInt16⟩ : JournalHistory).journal := by
  obtain ⟨earlier, hearlier⟩ : ∃ earlier, earlier = eventsOn event.channel h.earlier := ⟨_, rfl⟩
  obtain ⟨recent, hrecent⟩ : ∃ recent, recent = eventsOn event.channel h.recent := ⟨_, rfl⟩
  rw [← hearlier, ← hrecent] at hrecord
  have hne : h.recent ++ [event] ≠ [] := by simp
  have hflags : ∀ bits : UInt8, (bits = journalHeaderSFlag ∨
      bits = journalHeaderAFlag ||| journalHeaderSFlag) →
      bits ||| (journalHeaderAFlag ||| journalHeaderSFlag) =
        journalHeaderAFlag ||| journalHeaderSFlag := by
    rintro bits (rfl | rfl) <;> decide
  have hcontents : contentsOf (recent ++ [event]) = contentsOf recent ||| event.flag := by
    simp [contentsOf]
  have hsnoc : ¬ (earlier = [] ∧ recent ++ [event] = []) := by simp
  have hchan := chan_ne_iff event.channel recent
  have hcount := counted_snoc h event seq.toUInt16
  rw [← hrecent] at hcount
  have hcurrent : (h.journal.channels event.channel).getD channelCreate =
      channelBody event.channel earlier recent := by
    rw [hearlier, hrecent]
    exact channelOf_getD ..
  have hheader := hrecord { (channelBody event.channel earlier recent).header with
    bitfield := contentsOf recent ||| event.flag }
  rw [add_current hcurrent hheader]
  simp only [channelBody, hchan, journal, Journal.mk.injEq, JournalHeader.mk.injEq, and_true]
  refine ⟨⟨?_, ?_⟩, ?_⟩
  · rw [if_neg hne, hflags]
    by_cases hnone : h.recent = [] <;> simp [hnone]
  · rw [hcount]
    split_ifs
    · rw [ofNat_succ]
    · rw [Nat.add_zero]
  · funext i
    rw [eventsOn_append]
    by_cases hi : i = event.channel
    · subst hi
      rw [Function.update_self, eventsOn_own, ← hearlier, ← hrecent, channelOf, if_neg hsnoc,
        Option.some.injEq]
      simp only [channelBody, hcontents]
      by_cases hcounted : recent = [] ∨ event.channel = 15
      · simp [hcounted]
      · simp [(not_or.mp hcounted).1]
    · rw [Function.update_of_ne hi, eventsOn_other hi, List.append_nil]

/-- The chapter parts of the three add functions. -/
theorem addEvent_eq (h : JournalHistory) (seq : UInt32) (event : JournalEvent) :
    midiJournalAddEvent h.journal seq event = (h.call (.add seq event)).journal := by
  by_cases hrecorded : event.recorded = true
  · rw [JournalHistory.call, if_pos hrecorded]
    cases event with
    | note midiNote =>
      rw [midiJournalAddEvent, midiJournalAddNote]
      refine add_eq h seq (.note midiNote) _ fun header => ?_
      simp [channelBody, chapterNOf, chapterCOf, chapterPOf, chapterOf_snoc, List.filterMap_cons,
        JournalEvent.note?, JournalEvent.control?, JournalEvent.program?]
    | control midiControl =>
      have hsmall : ¬ midiControl.controllerNumber.toNat > maxChapterCControllers - 1 := by
        simp only [JournalEvent.recorded, decide_eq_true_eq] at hrecorded
        unfold maxChapterCControllers
        omega
      rw [midiJournalAddEvent, midiJournalAddControl, if_neg hsmall]
      refine add_eq h seq (.control midiControl) _ fun header => ?_
      simp [channelBody, chapterNOf, chapterCOf, chapterPOf, chapterOf_snoc, List.filterMap_cons,
        JournalEvent.note?, JournalEvent.control?, JournalEvent.program?]
    | program midiProgram =>
      rw [midiJournalAddEvent, midiJournalAddProgram]
      refine add_eq h seq (.program midiProgram) _ fun header => ?_
      simp [channelBody, chapterNOf, chapterCOf, chapterPOf, List.filterMap_cons,
        JournalEvent.note?, JournalEvent.control?, JournalEvent.program?, ← List.append_assoc]
  · rw [JournalHistory.call, if_neg hrecorded]
    cases event with
    | control midiControl =>
      have hlarge : midiControl.controllerNumber.toNat > maxChapterCControllers - 1 := by
        simp only [JournalEvent.recorded, decide_eq_true_eq] at hrecorded
        unfold maxChapterCControllers
        omega
      rw [midiJournalAddEvent, midiJournalAddControl, if_pos hlarge]
    | note midiNote => exact absurd rfl hrecorded
    | program midiProgram => exact absurd rfl hrecorded

theorem reset_eq (h : JournalHistory) : journalReset h.journal = (h.call .reset).journal := by
  have hcount : (⟨h.earlier ++ h.recent, [], 0⟩ : JournalHistory).counted = 0 := by
    simp [counted, eventsOn, countOn]
  rw [journalReset, call, journal, journal, hcount, Journal.mk.injEq]
  refine ⟨rfl, ?_⟩
  funext i
  rw [channelOf_reset, eventsOn_append]
  rfl

end JournalHistory

namespace Journal

/-- The add functions do not look at the `len` fields. -/
theorem forget_midiJournalAdd (j : Journal) (seq : UInt32) (channel : Fin 16) (flag : UInt8)
    {record : Channel → Channel}
    (hrecord : ∀ current, (record current).forgetLengths = record current.forgetLengths) :
    (midiJournalAdd j seq channel flag record).forgetLengths =
      midiJournalAdd j.forgetLengths seq channel flag record := by
  have hcurrent : ((j.channels channel).map Channel.forgetLengths).getD channelCreate =
      ((j.channels channel).getD channelCreate).forgetLengths := by
    cases j.channels channel <;> rfl
  obtain ⟨body, hbody⟩ : ∃ body, (j.channels channel).getD channelCreate = body := ⟨_, rfl⟩
  obtain ⟨current, hrecorded⟩ : ∃ current, record { body with
      header.bitfield := body.header.bitfield ||| flag } = current := ⟨_, rfl⟩
  have hforgotten := hrecord { body with header.bitfield := body.header.bitfield ||| flag }
  rw [hrecorded] at hforgotten
  rw [hbody] at hcurrent
  rw [JournalHistory.add_current hbody hrecorded,
    JournalHistory.add_current (j := j.forgetLengths) hcurrent hforgotten.symm]
  simp only [forgetLengths, Journal.mk.injEq]
  refine ⟨rfl, ?_⟩
  funext i
  by_cases hi : i = channel
  · subst hi
    simp only [Function.update_self, Option.map_some]
    by_cases hcounted : current.header.chan.val ≠ i.val + 1
    · rw [if_pos hcounted, if_pos (show current.forgetLengths.header.chan.val ≠ _ from hcounted)]
      rfl
    · rw [if_neg hcounted, if_neg (show ¬ current.forgetLengths.header.chan.val ≠ _ from hcounted)]
  · simp only [Function.update_of_ne hi]

theorem forget_addEvent (j : Journal) (seq : UInt32) (event : JournalEvent) :
    (midiJournalAddEvent j seq event).forgetLengths =
      midiJournalAddEvent j.forgetLengths seq event := by
  cases event with
  | note midiNote =>
    refine forget_midiJournalAdd j seq _ _ fun current => ?_
    simp only [Channel.forgetLengths, Option.map_some]
    cases current.chapterN with
    | none =>
      simp only [Option.getD_none, Option.map_none, chapterNAdd]
      split_ifs <;> rfl
    | some chapter =>
      simp only [Option.getD_some, Option.map_some, chapterNAdd]
      split_ifs <;> rfl
  | control midiControl =>
    simp only [midiJournalAddEvent, midiJournalAddControl]
    split_ifs
    · rfl
    · refine forget_midiJournalAdd j seq _ _ fun current => ?_
      simp only [Channel.forgetLengths, Option.map_some]
      cases current.chapterC <;> rfl
  | program midiProgram =>
    exact forget_midiJournalAdd j seq _ _ fun current => rfl

theorem forget_reset (j : Journal) :
    (journalReset j).forgetLengths = journalReset j.forgetLengths := by
  simp only [journalReset, forgetLengths, Option.map_map, Journal.mk.injEq, true_and]
  funext i
  congr 1
  funext channel
  simp only [Function.comp, Channel.forgetLengths, channelJournalReset, Option.map_map]
  rfl

theorem valid_init : journalInit.Valid := fun _ _ h => by cases h

theorem valid_midiJournalAdd {j : Journal} (h : j.Valid) (seq : UInt32) (channel : Fin 16)
    (flag : UInt8) {record : Channel → Channel}
    (hrecord : ∀ current, current.Valid → (record current).Valid) :
    (midiJournalAdd j seq channel flag record).Valid := by
  obtain ⟨body, hbody⟩ : ∃ body, (j.channels channel).getD channelCreate = body := ⟨_, rfl⟩
  have hbodyValid : body.Valid := by
    subst hbody
    cases hchannel : j.channels channel with
    | none => exact fun _ h => by cases h
    | some current => exact h channel current hchannel
  have hcurrent := hrecord { body with header.bitfield := body.header.bitfield ||| flag } hbodyValid
  rw [JournalHistory.add_current hbody rfl]
  intro i current hi
  by_cases hsame : i = channel
  · subst hsame
    simp only [Function.update_self, Option.mem_def, Option.some.injEq] at hi
    subst hi
    split_ifs <;> exact hcurrent
  · simp only [Function.update_of_ne hsame] at hi
    exact h i current hi

theorem valid_addEvent {j : Journal} (h : j.Valid) (seq : UInt32) (event : JournalEvent) :
    (midiJournalAddEvent j seq event).Valid := by
  cases event with
  | note midiNote =>
    rw [midiJournalAddEvent, midiJournalAddNote]
    refine valid_midiJournalAdd h seq _ _ fun current hcurrent chapter hchapter => ?_
    simp only [Option.mem_def, Option.some.injEq] at hchapter
    subst hchapter
    cases hn : current.chapterN with
    | none => exact ChapterN.valid_add ChapterN.valid_create midiNote
    | some first => exact ChapterN.valid_add (hcurrent first hn) midiNote
  | control midiControl =>
    simp only [midiJournalAddEvent, midiJournalAddControl]
    split_ifs
    · exact h
    · exact valid_midiJournalAdd h seq _ _ fun current hcurrent => hcurrent
  | program midiProgram =>
    rw [midiJournalAddEvent, midiJournalAddProgram]
    exact valid_midiJournalAdd h seq _ _ fun current hcurrent => hcurrent

theorem valid_reset (j : Journal) : (journalReset j).Valid := by
  intro i channel hchannel chapter hchapter
  obtain ⟨first, hfirst, rfl⟩ := Option.mem_map.mp hchannel
  obtain ⟨old, hold, rfl⟩ := Option.mem_map.mp hchapter
  exact ChapterN.valid_reset old

/-- A concrete journal and the history it stands for. -/
structure Reflects (j : Journal) (h : JournalHistory) : Prop where
  journal_eq : j.forgetLengths = h.journal
  valid : j.Valid

theorem Reflects.totchan {j : Journal} {h : JournalHistory} (hj : j.Reflects h) :
    j.header.totchan = UInt8.ofNat h.counted := by
  calc j.header.totchan = j.forgetLengths.header.totchan := rfl
    _ = h.journal.header.totchan := by rw [hj.journal_eq]
    _ = UInt8.ofNat h.counted := rfl

theorem Reflects.channel_eq {j : Journal} {h : JournalHistory} (hj : j.Reflects h) (i : Fin 16) :
    (j.channels i).map Channel.forgetLengths =
      channelOf i (eventsOn i h.earlier) (eventsOn i h.recent) :=
  congrFun (congrArg Journal.channels hj.journal_eq) i

/-- A chapter of a channel is a function of the events on it, but for its length field. -/
theorem Reflects.chapter_eq {α : Type} {j : Journal} {h : JournalHistory} (hj : j.Reflects h)
    (i : Fin 16) {select : Channel → Option α} {forget : α → α}
    {chapterOn : List JournalEvent → List JournalEvent → Option α}
    (hforget : ∀ channel, select channel.forgetLengths = (select channel).map forget)
    (hbody : ∀ earlier recent, select (channelBody i earlier recent) = chapterOn earlier recent)
    (hnone : chapterOn [] [] = none) :
    ((j.channels i).bind select).map forget =
      chapterOn (eventsOn i h.earlier) (eventsOn i h.recent) := by
  have hchapter : (channelOf i (eventsOn i h.earlier) (eventsOn i h.recent)).bind select =
      chapterOn (eventsOn i h.earlier) (eventsOn i h.recent) := by
    unfold channelOf
    split_ifs with hempty
    · rw [hempty.1, hempty.2, hnone]
      rfl
    · exact hbody _ _
  rw [← hchapter, ← hj.channel_eq]
  cases j.channels i with
  | none => rfl
  | some channel => exact (hforget channel).symm

theorem reflects_init : journalInit.Reflects .start := by
  refine ⟨?_, valid_init⟩
  have hcount : JournalHistory.start.counted = 0 := by
    simp [JournalHistory.start, JournalHistory.counted, eventsOn, countOn]
  rw [JournalHistory.journal, hcount]
  rfl

theorem Reflects.octets_eq {j : Journal} {h : JournalHistory} (hj : j.Reflects h) :
    j.octets = h.journal.octets := by
  have hsame : j.forgetLengths = h.journal.forgetLengths := by
    rw [← hj.journal_eq]
    simp only [forgetLengths, Option.map_map, Journal.mk.injEq, true_and]
    funext i
    congr 1
    funext channel
    simp only [Function.comp, Channel.forgetLengths, Option.map_map]
    rfl
  exact octets_congr hsame

/-- Each call on a journal is a step of its history. -/
theorem Reflects.call {j : Journal} {h : JournalHistory} (hj : j.Reflects h) (call : JournalCall) :
    ∃ k, journalCall j call = .ok (k, (h.step call).2) ∧ k.Reflects (h.step call).1 := by
  cases call with
  | add seq event =>
    refine ⟨_, rfl, ?_, valid_addEvent hj.valid seq event⟩
    rw [forget_addEvent, hj.journal_eq, JournalHistory.addEvent_eq]
    rfl
  | pack =>
    obtain ⟨k, hpack, hforget, hk⟩ := pack_spec hj.valid
    refine ⟨k, ?_, hforget.trans hj.journal_eq, hk⟩
    simp only [journalCall, hpack, Except.map, hj.octets_eq, JournalHistory.step]
  | reset =>
    refine ⟨_, rfl, ?_, valid_reset j⟩
    rw [forget_reset, hj.journal_eq, JournalHistory.reset_eq]
    rfl

end Journal

theorem feed_history (calls : List JournalCall) (h : JournalHistory) :
    (feed JournalHistory.step h calls).1 = calls.foldl JournalHistory.call h := by
  induction calls generalizing h with
  | nil => rfl
  | cons call calls ih => exact ih (h.call call)

/-- Every journal that calls lead to, and everything packed on the way, is told
by the history of the calls. -/
theorem run_journal (calls : List JournalCall) :
    ∃ j, run journalCall journalInit calls =
        .ok (j, (feed JournalHistory.step .start calls).2) ∧
      j.Reflects (historyOf calls) := by
  obtain ⟨j, hrun, hj⟩ := run_simulates (R := Journal.Reflects)
    (fun _ _ call h => h.call call) Journal.reflects_init calls
  rw [feed_history] at hj
  exact ⟨j, hrun, hj⟩

end RaveloxMidi
