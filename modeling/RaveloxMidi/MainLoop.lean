import Mathlib.Logic.Function.Basic
import RaveloxMidi.PollTable

/-!
# The main loop and the requests to stop

The loop fills the table of descriptors, polls it and reads what is ready. Who asks the
daemon to stop sets a flag, under a lock, and then writes into the shutdown pipe, so that a
loop that waits sees the flag. A handler of a signal closes both ends of the pipe
afterwards. It interrupts a thread, which goes on when the handler is done; a handler that
interrupts the thread which holds the lock waits for it for ever. Nothing is logged here:
logging has a lock of its own.
-/
namespace RaveloxMidi
open ByteMemory Transducer

/-- The main thread, and the threads that look at the flag: the listener of the ALSA inputs and
the sync thread. -/
inductive LoopThread where
  | main
  | other (i : ℕ)
  deriving Repr, DecidableEq

/-- How far a handler of a signal, `net_socket_loop_shutdown`, has come. At `setting` it holds
the lock; behind `readClosed` it has returned. -/
inductive RequestPoint where
  | locking
  | setting
  | flagged
  | written
  | readClosed
  deriving Repr, DecidableEq

/-- Where the main thread is. It waits for the lock at `checking` and at `locking`, and holds it
at `locked` and at `setting`. -/
inductive LoopPoint where
  | checking
  | locked
  | settingFds
  | polling
  | scanning (i : ℕ)
  | locking (i : ℕ)
  | setting (i : ℕ)
  | signalling (i : ℕ)
  | left
  deriving Repr, DecidableEq

/-- The handlers that run in a thread come latest first: only the first one goes on. -/
structure FdLoop where
  shutdown : Bool
  lock : Option LoopThread
  pipe : ShutdownPipe
  requests : LoopThread → List RequestPoint
  table : PollTable
  main : LoopPoint

/-- A signal interrupts a thread, the main thread goes on, or another one does. -/
inductive LoopAction where
  | signal (thread : LoopThread)
  | main (moment : LoopMoment)
  | other (i : ℕ)

/-- A socket is found to be ready or is read, or a thread finds that another one holds the
lock. -/
inductive LoopEvent where
  | ready (fd : Int32)
  | read (fd : Int32)
  | waited (thread : LoopThread)
  deriving Repr, DecidableEq

/-- The flag is checked once before the loop is entered. -/
def fdLoopStart : FdLoop where
  shutdown := false
  lock := none
  pipe := ⟨0, true, true⟩
  requests := fun _ => []
  table := ⟨[], 0, 0⟩
  main := .checking

/-- `pthread_mutex_lock` on `shutdown_lock`, of which the thread that holds it is no exception. -/
def FdLoop.take (s : FdLoop) (thread : LoopThread) (taken : FdLoop) : FdLoop × List LoopEvent :=
  if s.lock = none then ({ taken with lock := some thread }, []) else (s, [.waited thread])

/-- The handler that runs in a thread has come to another point. -/
def FdLoop.advance (s : FdLoop) (thread : LoopThread) (handlers : List RequestPoint) : FdLoop :=
  { s with requests := Function.update s.requests thread handlers }

section Steps
variable (shutdownFd : Int32) (sockets : List Int32)

/-- `poll`: it waits while nothing is ready, until it is interrupted or its time is over. -/
def mainPoll (s : FdLoop) (moment : LoopMoment) :
    Except LoopStop (FdLoop × List LoopEvent) :=
  match s.table.polled shutdownFd s.pipe moment with
  | .error fault => .error (.fault fault)
  | .ok found =>
    if found.any fun d => d.revents ≠ 0 then
      .ok ({ s with
        table := { s.table with
          cells := found.map some ++ s.table.cells.drop found.length }
        main := .scanning 0 },
        (found.filter fun d => d.Readable shutdownFd).map fun d => .ready d.fd)
    else if moment.interrupted ∨ moment.elapsed then .ok ({ s with main := .checking }, [])
    else .ok (s, [])

/-- The body of the loop over the entries. -/
def mainScan (s : FdLoop) (moment : LoopMoment) (i : ℕ) :
    Except LoopStop (FdLoop × List LoopEvent) :=
  if s.table.count ≤ i then .ok ({ s with main := .checking }, [])
  else
    match s.table.load i with
    | .error fault => .error (.fault fault)
    | .ok d =>
      let next := { s with main := .scanning (i + 1) }
      if d.revents = 0 then .ok (next, [])
      else if d.fd = shutdownFd then
        .ok ({ next with pipe := netSocketDrainShutdownSignal s.pipe }, [])
      else if d.revents &&& pollIn ≠ 0 then
        if moment.quit then .ok ({ s with main := .locking i }, [.read d.fd])
        else .ok (next, [.read d.fd])
      else .ok (next, [])

/-- `net_socket_fd_loop`, from one access to what the threads share to the next. -/
def mainStep (s : FdLoop) (moment : LoopMoment) : Except LoopStop (FdLoop × List LoopEvent) :=
  match s.main with
  | .checking => .ok (s.take .main { s with main := .locked })
  | .locked =>
    .ok ({ s with lock := none, main := if s.shutdown then .left else .settingFds }, [])
  | .settingFds =>
    match netSocketSetFds shutdownFd sockets s.table with
    | .error fault => .error (.fault fault)
    | .ok table => .ok ({ s with table := table, main := .polling }, [])
  | .polling => mainPoll shutdownFd s moment
  | .scanning i => mainScan shutdownFd s moment i
  | .locking i => .ok (s.take .main { s with main := .setting i })
  | .setting i => .ok ({ s with shutdown := true, lock := none, main := .signalling i }, [])
  | .signalling i =>
    (netSocketSignalShutdown s.pipe).map fun pipe =>
      ({ s with pipe := pipe, main := .scanning (i + 1) }, [])
  | .left => .ok (s, [])

/-- `net_socket_get_shutdown_status` in another thread. -/
def otherStep (s : FdLoop) (thread : LoopThread) : FdLoop × List LoopEvent :=
  if s.lock = some thread then ({ s with lock := none }, []) else s.take thread s

/-- `net_socket_loop_shutdown`. -/
def requestStep (s : FdLoop) (thread : LoopThread) (point : RequestPoint)
    (below : List RequestPoint) : Except LoopStop (FdLoop × List LoopEvent) :=
  match point with
  | .locking => .ok (s.take thread (s.advance thread (.setting :: below)))
  | .setting =>
    .ok ({ s.advance thread (.flagged :: below) with shutdown := true, lock := none }, [])
  | .flagged =>
    (netSocketSignalShutdown s.pipe).map fun pipe =>
      ({ s.advance thread (.written :: below) with pipe := pipe }, [])
  | .written => .ok ({ s.advance thread (.readClosed :: below) with
      pipe := { s.pipe with readOpen := false } }, [])
  | .readClosed => .ok ({ s.advance thread below with
      pipe := { s.pipe with writeOpen := false } }, [])

def loopStep (s : FdLoop) : LoopAction → Except LoopStop (FdLoop × List LoopEvent)
  | .signal thread => .ok (s.advance thread (.locking :: s.requests thread), [])
  | .main moment =>
    match s.requests .main with
    | [] => mainStep shutdownFd sockets s moment
    | point :: below => requestStep s .main point below
  | .other i =>
    match s.requests (.other i) with
    | [] => .ok (otherStep s (.other i))
    | point :: below => requestStep s (.other i) point below

end Steps

/-- The flag has been set. -/
def RequestPoint.Flagged : RequestPoint → Prop
  | locking | setting => False
  | flagged | written | readClosed => True

/-- The pipe has been written to. -/
def RequestPoint.Written : RequestPoint → Prop
  | locking | setting | flagged => False
  | written | readClosed => True

namespace LoopPoint

/-- The main thread waits, or will before it looks at the flag again. -/
def Waits : LoopPoint → Prop
  | settingFds => True
  | polling => True
  | _ => False

/-- The main thread is about to write into the pipe. -/
def Signals : LoopPoint → Prop
  | signalling _ => True
  | _ => False

instance : DecidablePred Signals
  | signalling _ => .isTrue trivial
  | checking | locked | settingFds | polling | scanning _ | locking _ | setting _ | left =>
    .isFalse id

/-- The main thread holds the lock. -/
def Locked : LoopPoint → Prop
  | locked => True
  | setting _ => True
  | _ => False

end LoopPoint

namespace LoopEvent

def found : LoopEvent → Option Int32
  | ready fd => some fd
  | _ => none

def taken : LoopEvent → Option Int32
  | read fd => some fd
  | _ => none

end LoopEvent

/-- A handler has come as far as that, in whatever thread, or has returned. -/
def FdLoop.Asked (s : FdLoop) (Far : RequestPoint → Prop) : Prop :=
  s.pipe.writeOpen = false ∨ ∃ thread, ∃ r ∈ s.requests thread, Far r

section Asked
variable {s : FdLoop} {thread : LoopThread} {Far : RequestPoint → Prop}

@[simp] theorem advance_requests (handlers : List RequestPoint) :
    (s.advance thread handlers).requests thread = handlers := Function.update_self ..

theorem advance_requests_of_ne {other : LoopThread} (h : other ≠ thread)
    (handlers : List RequestPoint) :
    (s.advance thread handlers).requests other = s.requests other := Function.update_of_ne h ..

@[simp] theorem advance_advance (handlers handlers' : List RequestPoint) :
    (s.advance thread handlers).advance thread handlers' = s.advance thread handlers' := by
  simp only [FdLoop.advance, Function.update_idem]

theorem advance_self {handlers : List RequestPoint} (h : s.requests thread = handlers) :
    s.advance thread handlers = s := by
  simp only [FdLoop.advance, ← h, Function.update_eq_self]

/-- The latest handler of a thread, and all the others. -/
theorem asked_cons {point : RequestPoint} {below : List RequestPoint}
    (h : s.requests thread = point :: below) :
    s.Asked Far ↔ Far point ∨ (s.advance thread below).Asked Far := by
  constructor
  · rintro (hclosed | ⟨other, r, hr, hfar⟩)
    · exact .inr (.inl hclosed)
    by_cases hsame : other = thread
    · subst hsame
      rw [h] at hr
      obtain rfl | hr := List.mem_cons.mp hr
      · exact .inl hfar
      · exact .inr (.inr ⟨other, r, by rwa [advance_requests], hfar⟩)
    · exact .inr (.inr ⟨other, r, by rwa [advance_requests_of_ne hsame], hfar⟩)
  · rintro (hfar | hclosed | ⟨other, r, hr, hfar⟩)
    · exact .inr ⟨thread, point, by simp [h], hfar⟩
    · exact .inl hclosed
    by_cases hsame : other = thread
    · subst hsame
      rw [advance_requests] at hr
      exact .inr ⟨other, r, by simp [h, hr], hfar⟩
    · rw [advance_requests_of_ne hsame] at hr
      exact .inr ⟨other, r, hr, hfar⟩

theorem asked_advance {t : FdLoop} {point : RequestPoint} {below : List RequestPoint}
    (hrequests : t.requests = (s.advance thread (point :: below)).requests)
    (hwrite : t.pipe.writeOpen = s.pipe.writeOpen) :
    t.Asked Far ↔ Far point ∨ (s.advance thread below).Asked Far := by
  have hsame : t.Asked Far ↔ (s.advance thread (point :: below)).Asked Far := by
    rw [FdLoop.Asked, hrequests, hwrite]
    rfl
  rw [hsame, asked_cons (advance_requests (point :: below)), advance_advance]

theorem asked_mono {Far' : RequestPoint → Prop} (hfar : ∀ r, Far r → Far' r) (h : s.Asked Far) :
    s.Asked Far' :=
  h.imp_right fun ⟨thread, r, hr, hr'⟩ => ⟨thread, r, hr, hfar r hr'⟩

end Asked

section Invariant
variable {shutdownFd : Int32} {sockets : List Int32} {s t : FdLoop} {held : List Int32}

/-- The table where the main thread uses it, and the sockets that it has still to read. -/
def FdLoop.Scans (shutdownFd : Int32) (sockets : List Int32) (s : FdLoop) (held : List Int32) :
    Prop :=
  match s.main with
  | .checking | .locked | .settingFds | .left => held = []
  | .polling => held = [] ∧
    s.table.Used ((shutdownFd :: polledFds sockets).map fun fd => ⟨fd, pollEvents, 0⟩)
  | .scanning i => ∃ ds, s.table.Used ds ∧
    ds.map PollDescriptor.fd = shutdownFd :: polledFds sockets ∧ i ≤ ds.length ∧
    held = readyFds shutdownFd (ds.drop i)
  | .locking i | .setting i | .signalling i => ∃ ds, s.table.Used ds ∧
    ds.map PollDescriptor.fd = shutdownFd :: polledFds sockets ∧ i < ds.length ∧
    held = readyFds shutdownFd (ds.drop (i + 1))

/-- The octets of a request stay in the pipe until the flag has been looked at again. -/
structure FdLoop.Holds (shutdownFd : Int32) (sockets : List Int32) (s : FdLoop)
    (held : List Int32) : Prop where
  flagged : s.Asked RequestPoint.Flagged → s.shutdown = true
  waits : s.main.Waits → s.shutdown = true → s.Asked RequestPoint.Flagged
  readable : s.main.Waits → s.Asked RequestPoint.Written → 0 < s.pipe.bytes
  sized : s.table.cells.length = s.table.capacity
  scans : s.Scans shutdownFd sockets held

theorem fdLoopStart_holds : fdLoopStart.Holds shutdownFd sockets [] where
  flagged := by
    rintro (hclosed | ⟨thread, r, hr, -⟩)
    · cases hclosed
    · cases hr
  waits := fun h => h.elim
  readable := fun h => h.elim
  sized := rfl
  scans := rfl

/-- The flag is set, and a main thread that waits will be woken. -/
def FdLoop.Ending (s : FdLoop) : Prop :=
  s.shutdown = true ∧ (s.main.Waits → 0 < s.pipe.bytes)

/-- How many steps the main thread takes at most before it leaves the loop, when `n` descriptors
are polled. -/
def LoopPoint.remaining (n : ℕ) : LoopPoint → ℕ
  | settingFds => 4 * n + 5
  | polling => 4 * n + 4
  | scanning i => 4 * (n - i) + 3
  | locking i => 4 * (n - i) + 2
  | setting i => 4 * (n - i) + 1
  | signalling i => 4 * (n - i)
  | checking => 2
  | locked => 1
  | left => 0

theorem ending_busy (hflag : t.shutdown = true) (hbusy : ¬ t.main.Waits) : t.Ending :=
  ⟨hflag, fun hwaits => absurd hwaits hbusy⟩

/-- A main thread that is at work looks at the flag before it waits. -/
theorem holds_busy (h : s.Holds shutdownFd sockets held) {held' : List Int32}
    (hrequests : t.requests = s.requests) (hflag : s.shutdown = true → t.shutdown = true)
    (hwrite : t.pipe.writeOpen = s.pipe.writeOpen)
    (hsized : t.table.cells.length = t.table.capacity) (hbusy : ¬ t.main.Waits)
    (hscans : t.Scans shutdownFd sockets held') : t.Holds shutdownFd sockets held' where
  flagged := by
    intro hasked
    rw [FdLoop.Asked, hrequests, hwrite] at hasked
    exact hflag (h.flagged hasked)
  waits := fun hwaits => absurd hwaits hbusy
  readable := fun hwaits => absurd hwaits hbusy
  sized := hsized
  scans := hscans

/-- What becomes of the lock when a thread goes on that is inside of the section that the lock
guards before the step, or after it: the lock stays where it is, or is given back, or taken. -/
def LockPassed (s t : FdLoop) (thread : LoopThread) (before after : Prop) : Prop :=
  (before → s.lock ≠ some thread) ∧ t.lock = s.lock ∨ before ∧ t.lock = none ∨
    s.lock = none ∧ t.lock = some thread ∧ after

theorem lock_kept {thread : LoopThread} {before after : Prop} (hbefore : ¬ before)
    (hlock : t.lock = s.lock) : LockPassed s t thread before after :=
  .inl ⟨fun h => absurd h hbefore, hlock⟩

/-- What a step of the main thread keeps, and that it comes nearer to the end of the loop
unless it waits for the lock. -/
structure MainKept (shutdownFd : Int32) (sockets : List Int32) (s : FdLoop) (held : List Int32)
    (t : FdLoop) (now : List LoopEvent) (held' : List Int32) : Prop where
  holds : t.Holds shutdownFd sockets held'
  flow : held ++ now.filterMap LoopEvent.found = now.filterMap LoopEvent.taken ++ held'
  requests : t.requests = s.requests
  lock : LockPassed s t .main s.main.Locked t.main.Locked
  ends : s.Ending → t.Ending ∧ (s.main ≠ .left →
    t.main.remaining (pollCount sockets) + 1 ≤
      s.main.remaining (pollCount sockets) + now.count (.waited .main))

/-- The main thread works on the table or the pipe, without the lock. -/
theorem works_kept (h : s.Holds shutdownFd sockets held) (hfree : ¬ s.main.Locked)
    {pipe : ShutdownPipe} {table : PollTable} (point : LoopPoint) {now : List LoopEvent}
    {earlier held' : List Int32} (hwrite : pipe.writeOpen = s.pipe.writeOpen)
    (hsized : table.cells.length = table.capacity) (hbusy : ¬ point.Waits)
    (hscans : FdLoop.Scans shutdownFd sockets
      { s with pipe := pipe, table := table, main := point } held')
    (hflow : earlier ++ now.filterMap LoopEvent.found = now.filterMap LoopEvent.taken ++ held')
    (hless : point.remaining (pollCount sockets) + 1 ≤ s.main.remaining (pollCount sockets)) :
    MainKept shutdownFd sockets s earlier
      { s with pipe := pipe, table := table, main := point } now held' where
  holds := holds_busy h rfl id hwrite hsized hbusy hscans
  flow := hflow
  requests := rfl
  lock := lock_kept hfree rfl
  ends := fun hending => ⟨ending_busy hending.1 hbusy, fun _ => Nat.le_add_right_of_le hless⟩

/-- The main thread takes the lock, or waits for it. -/
theorem take_kept (h : s.Holds shutdownFd sockets held) (point : LoopPoint)
    (hbusy : ¬ s.main.Waits ∧ ¬ point.Waits) (hlocked : ¬ s.main.Locked ∧ point.Locked)
    (hscans : FdLoop.Scans shutdownFd sockets { s with main := point } held)
    (hless : point.remaining (pollCount sockets) + 1 ≤ s.main.remaining (pollCount sockets)) :
    MainKept shutdownFd sockets s held (s.take .main { s with main := point }).1
      (s.take .main { s with main := point }).2 held := by
  unfold FdLoop.take
  split_ifs with hlock
  · exact {
      holds := holds_busy (t := { s with lock := some .main, main := point }) h rfl id rfl h.sized
        hbusy.2 hscans
      flow := List.append_nil held
      requests := rfl
      lock := .inr (.inr ⟨hlock, rfl, hlocked.2⟩)
      ends := fun hending => ⟨ending_busy hending.1 hbusy.2, fun _ => hless⟩ }
  · exact {
      holds := h
      flow := List.append_nil held
      requests := rfl
      lock := lock_kept hlocked.1 rfl
      ends := fun hending => ⟨hending, fun _ => by simp⟩ }

theorem locked_kept (h : s.Holds shutdownFd sockets held) (hmain : s.main = .locked)
    (moment : LoopMoment) : ∃ t, mainStep shutdownFd sockets s moment = .ok (t, []) ∧
      MainKept shutdownFd sockets s held t [] held := by
  have hscans := h.scans
  simp only [FdLoop.Scans, hmain] at hscans
  cases hflag : s.shutdown with
  | true =>
    refine ⟨{ s with lock := none, main := .left }, by simp [mainStep, hmain, hflag], ?_⟩
    exact {
      holds := holds_busy h rfl id rfl h.sized id hscans
      flow := List.append_nil held
      requests := rfl
      lock := .inr (.inl ⟨by rw [hmain]; trivial, rfl⟩)
      ends := fun _ => ⟨ending_busy hflag id, fun _ => by simp [hmain, LoopPoint.remaining]⟩ }
  | false =>
    refine ⟨{ s with lock := none, main := .settingFds }, by simp [mainStep, hmain, hflag], ?_⟩
    have hnone : ¬ s.Asked RequestPoint.Flagged := by
      intro hasked
      rw [h.flagged hasked] at hflag
      cases hflag
    have hwritten : ∀ r, RequestPoint.Written r → r.Flagged := by
      intro r hr
      cases r <;> trivial
    exact {
      holds := {
        flagged := h.flagged
        waits := fun _ hset => by
          rw [hflag] at hset
          cases hset
        readable := fun _ hasked => absurd (asked_mono hwritten hasked) hnone
        sized := h.sized
        scans := hscans }
      flow := List.append_nil held
      requests := rfl
      lock := .inr (.inl ⟨by rw [hmain]; trivial, rfl⟩)
      ends := fun hending => by
        rw [hending.1] at hflag
        cases hflag }

theorem settingFds_kept (hfd : 0 < shutdownFd) (h : s.Holds shutdownFd sockets held)
    (hmain : s.main = .settingFds) (moment : LoopMoment) :
    ∃ t, mainStep shutdownFd sockets s moment = .ok (t, []) ∧
      MainKept shutdownFd sockets s held t [] held := by
  obtain ⟨table, hset, hused⟩ := setFds_used h.sized hfd sockets
  have hscans := h.scans
  simp only [FdLoop.Scans, hmain] at hscans
  have hwaits : s.main.Waits := by rw [hmain]; trivial
  refine ⟨{ s with table := table, main := .polling }, by simp only [mainStep, hmain, hset], ?_⟩
  exact {
    holds := {
      flagged := h.flagged
      waits := fun _ => h.waits hwaits
      readable := fun _ => h.readable hwaits
      sized := hused.sized
      scans := ⟨hscans, hused⟩ }
    flow := List.append_nil held
    requests := rfl
    lock := lock_kept (by rw [hmain]; exact id) rfl
    ends := fun hending => ⟨⟨hending.1, fun _ => hending.2 hwaits⟩, fun _ => by
      simp [hmain, LoopPoint.remaining]⟩ }

theorem ready_found (ds : List PollDescriptor) :
    ((ds.filter fun d => d.Readable shutdownFd).map fun d => LoopEvent.ready d.fd).filterMap
      LoopEvent.found = readyFds shutdownFd ds := by
  rw [List.filterMap_map]
  exact congrFun (List.filterMap_eq_map (f := PollDescriptor.fd)) _

theorem ready_taken (ds : List PollDescriptor) :
    ((ds.filter fun d => d.Readable shutdownFd).map fun d => LoopEvent.ready d.fd).filterMap
      LoopEvent.taken = [] := by
  rw [List.filterMap_map, List.filterMap_eq_nil_iff]
  exact fun _ _ => rfl

/-- The wait ends, or nothing was in the pipe. -/
theorem polling_kept (h : s.Holds shutdownFd sockets held) (hmain : s.main = .polling)
    (moment : LoopMoment) : ∃ t now held', mainStep shutdownFd sockets s moment = .ok (t, now) ∧
      MainKept shutdownFd sockets s held t now held' := by
  have hscans := h.scans
  simp only [FdLoop.Scans, hmain] at hscans
  obtain ⟨rfl, hused⟩ := hscans
  have hfree : ¬ s.main.Locked := by simp [hmain, LoopPoint.Locked]
  have hfound := polled_used hused shutdownFd s.pipe moment
  generalize hds : ((shutdownFd :: polledFds sockets).map
    fun fd => (⟨fd, pollEvents, 0⟩ : PollDescriptor)).mapIdx
      (PollDescriptor.polled shutdownFd s.pipe moment) = ds at hfound
  have hlength : ds.length = (shutdownFd :: polledFds sockets).length := by simp [← hds]
  have hfds : ds.map PollDescriptor.fd = shutdownFd :: polledFds sockets := by
    rw [← hds, mapIdx_fd, List.map_map]
    exact List.map_id' _
  by_cases hany : ds.any fun d => d.revents ≠ 0
  · obtain ⟨rest, hcells⟩ := hused.cells
    have hdrop : s.table.cells.drop ds.length = rest := by
      rw [hcells, List.drop_left' (by simp [hlength])]
    have hnew : PollTable.Used { s.table with
        cells := ds.map some ++ s.table.cells.drop ds.length } ds := by
      refine ⟨?_, ?_, _, rfl⟩
      · rw [← h.sized, hdrop, hcells]
        simp only [List.length_append, List.length_map, hlength]
      · rw [hlength, hused.count]
        simp
    refine ⟨{ s with
        table := { s.table with cells := ds.map some ++ s.table.cells.drop ds.length }
        main := .scanning 0 }, (ds.filter fun d => d.Readable shutdownFd).map fun d => .ready d.fd,
      readyFds shutdownFd ds, ?_, ?_⟩
    · simp only [mainStep, hmain, mainPoll, hfound, if_pos hany]
    · refine works_kept h hfree (.scanning 0) rfl hnew.sized id
        ⟨ds, hnew, hfds, Nat.zero_le _, rfl⟩ ?_ ?_
      · rw [ready_found, ready_taken]
      · simp [hmain, LoopPoint.remaining]
  · by_cases hends : moment.interrupted ∨ moment.elapsed
    · refine ⟨{ s with main := .checking }, [], [], ?_, ?_⟩
      · simp only [mainStep, hmain, mainPoll, hfound, if_neg hany, if_pos hends]
      · refine works_kept h hfree .checking rfl h.sized id rfl rfl ?_
        simp only [hmain, LoopPoint.remaining]
        omega
    · have hquiet : s.pipe.bytes = 0 := by
        refine revents_pipe ?_
        simp [← hds, PollDescriptor.polled] at hany
        exact hany.1
      refine ⟨s, [], [], ?_, ?_⟩
      · simp only [mainStep, hmain, mainPoll, hfound, if_neg hany, if_neg hends]
      · exact {
          holds := h
          flow := rfl
          requests := rfl
          lock := lock_kept hfree rfl
          ends := fun hending => by
            have hsome := hending.2 (by rw [hmain]; trivial)
            omega }

theorem scanning_kept (h : s.Holds shutdownFd sockets held) {i : ℕ} (hmain : s.main = .scanning i)
    (moment : LoopMoment) : ∃ t now held', mainStep shutdownFd sockets s moment = .ok (t, now) ∧
      MainKept shutdownFd sockets s held t now held' := by
  have hscans := h.scans
  simp only [FdLoop.Scans, hmain] at hscans
  obtain ⟨ds, hused, hfds, hi, rfl⟩ := hscans
  have hcount := fds_length hfds
  have hfree : ¬ s.main.Locked := by simp [hmain, LoopPoint.Locked]
  simp only [mainStep, hmain, mainScan, hused.count]
  by_cases hend : ds.length ≤ i
  · refine ⟨{ s with main := .checking }, [], [], by rw [if_pos hend], ?_⟩
    refine works_kept h hfree .checking rfl h.sized id rfl ?_ ?_
    · rw [List.drop_of_length_le hend]
      rfl
    · simp only [hmain, LoopPoint.remaining]
      omega
  · have hlt : i < ds.length := Nat.lt_of_not_le hend
    have hinside : i < pollCount sockets := hcount ▸ hlt
    rw [if_neg hend, load_used hused hlt, List.drop_eq_getElem_cons hlt, readyFds_cons]
    -- The entry is done with, and what was still to be read is so.
    have hnext : ∀ (pipe : ShutdownPipe) (now : List LoopEvent),
        pipe.writeOpen = s.pipe.writeOpen → now.filterMap LoopEvent.found = [] →
        now.filterMap LoopEvent.taken =
          (if ds[i].Readable shutdownFd then [ds[i].fd] else []) →
        MainKept shutdownFd sockets s ((if ds[i].Readable shutdownFd then [ds[i].fd] else []) ++
            readyFds shutdownFd (ds.drop (i + 1)))
          { s with pipe := pipe, main := .scanning (i + 1) } now
          (readyFds shutdownFd (ds.drop (i + 1))) := by
      intro pipe now hwrite hfound htaken
      refine works_kept h hfree (.scanning (i + 1)) hwrite h.sized id ⟨ds, hused, hfds, hlt, rfl⟩
        ?_ ?_
      · rw [hfound, htaken, List.append_nil]
      · simp only [hmain, LoopPoint.remaining]
        omega
    by_cases hquiet : ds[i].revents = 0
    · have hnot : ¬ ds[i].Readable shutdownFd := fun hready => hready.2 (by rw [hquiet]; rfl)
      exact ⟨_, [], _, by simp only [if_pos hquiet], hnext s.pipe [] rfl rfl (by simp [hnot])⟩
    by_cases hpipe : ds[i].fd = shutdownFd
    · have hnot : ¬ ds[i].Readable shutdownFd := fun hready => hready.1 hpipe
      refine ⟨_, [], _, by simp only [if_neg hquiet, if_pos hpipe],
        hnext (netSocketDrainShutdownSignal s.pipe) [] ?_ rfl (by simp [hnot])⟩
      unfold netSocketDrainShutdownSignal
      split_ifs <;> rfl
    by_cases hin : ds[i].revents &&& pollIn ≠ 0
    · have hready : ds[i].Readable shutdownFd := ⟨hpipe, hin⟩
      by_cases hquit : moment.quit
      · refine ⟨{ s with main := .locking i }, [.read ds[i].fd],
          readyFds shutdownFd (ds.drop (i + 1)),
          by simp only [if_neg hquiet, if_neg hpipe, if_pos hin, if_pos hquit], ?_⟩
        refine works_kept h hfree (.locking i) rfl h.sized id ⟨ds, hused, hfds, hlt, rfl⟩ ?_ ?_
        · rw [if_pos hready]
          exact List.append_nil _
        · simp only [hmain, LoopPoint.remaining]
          omega
      · exact ⟨_, [.read ds[i].fd], _,
          by simp only [if_neg hquiet, if_neg hpipe, if_pos hin, if_neg hquit],
          hnext s.pipe [.read ds[i].fd] rfl rfl (by rw [if_pos hready]; rfl)⟩
    · have hnot : ¬ ds[i].Readable shutdownFd := fun hready => hin hready.2
      exact ⟨_, [], _, by simp only [if_neg hquiet, if_neg hpipe, if_neg hin],
        hnext s.pipe [] rfl rfl (by simp [hnot])⟩

/-- The main thread sets the flag and writes into the pipe, as a socket has asked it to. -/
theorem asking_kept (h : s.Holds shutdownFd sockets held) {i : ℕ}
    (hmain : s.main = .setting i ∨ s.main = .signalling i)
    (hopen : s.main.Signals → s.pipe.readOpen = false → s.pipe.writeOpen = false)
    (moment : LoopMoment) : ∃ t, mainStep shutdownFd sockets s moment = .ok (t, []) ∧
      MainKept shutdownFd sockets s held t [] held := by
  have hscans := h.scans
  obtain hmain | hmain := hmain <;> simp only [FdLoop.Scans, hmain] at hscans
  · refine ⟨{ s with shutdown := true, lock := none, main := .signalling i },
      by simp only [mainStep, hmain], ?_⟩
    exact {
      holds := holds_busy h rfl (fun _ => rfl) rfl h.sized id hscans
      flow := List.append_nil held
      requests := rfl
      lock := .inr (.inl ⟨by rw [hmain]; trivial, rfl⟩)
      ends := fun _ => ⟨ending_busy rfl id, fun _ => by simp [hmain, LoopPoint.remaining]⟩ }
  · obtain ⟨ds, hused, hfds, hi, rfl⟩ := hscans
    have hcount := fds_length hfds
    obtain ⟨pipe, hpipe, hwrite, -⟩ := signal_open (hopen (by rw [hmain]; trivial))
    refine ⟨{ s with pipe := pipe, main := .scanning (i + 1) }, ?_, ?_⟩
    · simp only [mainStep, hmain, hpipe, Except.map]
    · refine works_kept h (by simp [hmain, LoopPoint.Locked]) (.scanning (i + 1)) hwrite h.sized id
        ⟨ds, hused, hfds, hi, rfl⟩ (List.append_nil _) ?_
      simp only [hmain, LoopPoint.remaining]
      omega

theorem main_goes (hfd : 0 < shutdownFd) (h : s.Holds shutdownFd sockets held)
    (hopen : s.main.Signals → s.pipe.readOpen = false → s.pipe.writeOpen = false)
    (moment : LoopMoment) : ∃ t now held', mainStep shutdownFd sockets s moment = .ok (t, now) ∧
      MainKept shutdownFd sockets s held t now held' := by
  have hscans := h.scans
  cases hmain : s.main with
  | checking =>
    simp only [FdLoop.Scans, hmain] at hscans
    refine ⟨_, _, held, by simp only [mainStep, hmain], take_kept h .locked ?_ ?_ hscans ?_⟩
    · simp [hmain, LoopPoint.Waits]
    · simp [hmain, LoopPoint.Locked]
    · simp [hmain, LoopPoint.remaining]
  | locked =>
    obtain ⟨t, hstep, hkept⟩ := locked_kept h hmain moment
    exact ⟨t, [], held, hstep, hkept⟩
  | settingFds =>
    obtain ⟨t, hstep, hkept⟩ := settingFds_kept hfd h hmain moment
    exact ⟨t, [], held, hstep, hkept⟩
  | polling => exact polling_kept h hmain moment
  | scanning i => exact scanning_kept h hmain moment
  | locking i =>
    simp only [FdLoop.Scans, hmain] at hscans
    refine ⟨_, _, held, by simp only [mainStep, hmain], take_kept h (.setting i) ?_ ?_ hscans ?_⟩
    · simp [hmain, LoopPoint.Waits]
    · simp [hmain, LoopPoint.Locked]
    · simp [hmain, LoopPoint.remaining]
  | setting i =>
    obtain ⟨t, hstep, hkept⟩ := asking_kept h (.inl hmain) hopen moment
    exact ⟨t, [], held, hstep, hkept⟩
  | signalling i =>
    obtain ⟨t, hstep, hkept⟩ := asking_kept h (.inr hmain) hopen moment
    exact ⟨t, [], held, hstep, hkept⟩
  | left =>
    refine ⟨s, [], held, by simp only [mainStep, hmain], ?_⟩
    exact {
      holds := h
      flow := List.append_nil held
      requests := rfl
      lock := lock_kept (by rw [hmain]; exact id) rfl
      ends := fun hending => ⟨hending, fun hbusy => absurd hmain hbusy⟩ }

/-- How many steps a handler has still to take. -/
def RequestPoint.remaining : RequestPoint → ℕ
  | locking => 5
  | setting => 4
  | flagged => 3
  | written => 2
  | readClosed => 1

/-- How many steps the handlers that have interrupted the main thread have still to take. -/
def FdLoop.handling (s : FdLoop) : ℕ := ((s.requests .main).map RequestPoint.remaining).sum

/-- The thread goes on inside the section that the lock guards. -/
def FdLoop.Inside (s : FdLoop) (thread : LoopThread) : Prop :=
  match s.requests thread with
  | [] => thread = .main → s.main.Locked
  | point :: _ => point = .setting

theorem inside_cons {thread : LoopThread} {point : RequestPoint} {below : List RequestPoint}
    (h : s.requests thread = point :: below) : s.Inside thread ↔ point = .setting := by
  simp only [FdLoop.Inside, h]

/-- What a step of a handler keeps, and that it comes nearer to its end unless it waits for the
lock. -/
structure RequestKept (shutdownFd : Int32) (sockets : List Int32) (s : FdLoop)
    (held : List Int32) (thread : LoopThread) (t : FdLoop) (now : List LoopEvent) : Prop where
  holds : t.Holds shutdownFd sockets held
  silent : now.filterMap LoopEvent.found = [] ∧ now.filterMap LoopEvent.taken = []
  main : t.main = s.main
  others : ∀ other ≠ thread, t.requests other = s.requests other
  lock : LockPassed s t thread (s.Inside thread) (t.Inside thread)
  ending : s.Ending → t.Ending
  handling : if thread = .main then t.handling + 1 ≤ s.handling + now.count (.waited .main)
    else t.handling = s.handling ∧ now.count (.waited .main) = 0

theorem handling_advance {thread : LoopThread} {point : RequestPoint}
    {below handlers : List RequestPoint} (hrequests : s.requests thread = point :: below)
    (hhandlers : t.requests = (s.advance thread handlers).requests)
    (hless : (handlers.map RequestPoint.remaining).sum + 1 ≤
      point.remaining + (below.map RequestPoint.remaining).sum) :
    if thread = .main then t.handling + 1 ≤ s.handling else t.handling = s.handling := by
  rw [FdLoop.handling, hhandlers, FdLoop.handling]
  split_ifs with hthread
  · subst hthread
    simpa only [hrequests, advance_requests, List.map_cons, List.sum_cons] using hless
  · rw [advance_requests_of_ne (Ne.symm hthread)]

/-- A handler goes on, and the main thread is where it was. -/
theorem advance_kept (h : s.Holds shutdownFd sockets held) {thread : LoopThread}
    {point next : RequestPoint} {below : List RequestPoint}
    (hrequests : s.requests thread = point :: below)
    (hhandlers : t.requests = (s.advance thread (next :: below)).requests)
    (hmain : t.main = s.main ∧ t.table = s.table) (hwrite : t.pipe.writeOpen = s.pipe.writeOpen)
    (hlock : LockPassed s t thread (point = .setting) (next = .setting))
    (hless : next.remaining + 1 ≤ point.remaining) (hfar : point.Flagged → next.Flagged)
    (hflag : t.shutdown = true ↔ s.shutdown = true ∨ next.Flagged)
    (hbytes : 0 < s.pipe.bytes → 0 < t.pipe.bytes)
    (hwritten : s.main.Waits → next.Written → 0 < t.pipe.bytes) :
    RequestKept shutdownFd sockets s held thread t [] where
  holds := {
    flagged := by
      rw [asked_advance hhandlers hwrite, hflag]
      rintro (hnext | hothers)
      · exact .inr hnext
      · exact .inl (h.flagged ((asked_cons hrequests).mpr (.inr hothers)))
    waits := by
      rw [hmain.1, hflag, asked_advance hhandlers hwrite]
      rintro hwaits (hset | hnext)
      · exact ((asked_cons hrequests).mp (h.waits hwaits hset)).imp_left hfar
      · exact .inl hnext
    readable := by
      rw [hmain.1, asked_advance hhandlers hwrite]
      rintro hwaits (hnext | hothers)
      · exact hwritten hwaits hnext
      · exact hbytes (h.readable hwaits ((asked_cons hrequests).mpr (.inr hothers)))
    sized := by
      rw [hmain.2]
      exact h.sized
    scans := by
      rw [FdLoop.Scans, hmain.1, hmain.2]
      exact h.scans }
  silent := ⟨rfl, rfl⟩
  main := hmain.1
  others := fun other hne => by rw [hhandlers, advance_requests_of_ne hne]
  lock := by
    rwa [inside_cons hrequests, inside_cons (by rw [hhandlers, advance_requests])]
  ending := fun hending =>
    ⟨hflag.mpr (.inl hending.1), fun hwaits => hbytes (hending.2 (hmain.1 ▸ hwaits))⟩
  handling := by
    have hmeasure := handling_advance hrequests hhandlers (by simpa using by omega)
    split_ifs at hmeasure ⊢
    · exact hmeasure
    · exact ⟨hmeasure, rfl⟩

/-- A handler returns. -/
theorem return_kept (h : s.Holds shutdownFd sockets held) {thread : LoopThread}
    {below : List RequestPoint} (hrequests : s.requests thread = .readClosed :: below) :
    RequestKept shutdownFd sockets s held thread
      { s.advance thread below with pipe := { s.pipe with writeOpen := false } } [] where
  holds := {
    flagged := fun _ => h.flagged ((asked_cons hrequests).mpr (.inl trivial))
    waits := fun _ _ => .inl rfl
    readable := fun hwaits _ => h.readable hwaits ((asked_cons hrequests).mpr (.inl trivial))
    sized := h.sized
    scans := h.scans }
  silent := ⟨rfl, rfl⟩
  main := rfl
  others := fun other hne => advance_requests_of_ne hne below
  lock := lock_kept (by simp [inside_cons hrequests]) rfl
  ending := id
  handling := by
    have hmeasure := handling_advance (t := { s.advance thread below with
      pipe := { s.pipe with writeOpen := false } }) hrequests rfl (by
        simp only [RequestPoint.remaining]
        omega)
    split_ifs at hmeasure ⊢
    · exact hmeasure
    · exact ⟨hmeasure, rfl⟩

theorem request_goes (h : s.Holds shutdownFd sockets held) {thread : LoopThread}
    {point : RequestPoint} {below : List RequestPoint}
    (hrequests : s.requests thread = point :: below)
    (hopen : point = .flagged → s.pipe.readOpen = false → s.pipe.writeOpen = false) :
    ∃ t now, requestStep s thread point below = .ok (t, now) ∧
      RequestKept shutdownFd sockets s held thread t now := by
  cases point with
  | locking =>
    by_cases hlock : s.lock = none
    · refine ⟨{ s.advance thread (.setting :: below) with lock := some thread }, [], ?_,
        advance_kept h hrequests rfl ⟨rfl, rfl⟩ rfl (.inr (.inr ⟨hlock, rfl, rfl⟩)) (le_refl _) id
          (or_iff_left id).symm id fun _ => nofun⟩
      simp only [requestStep, FdLoop.take, if_pos hlock]
    · refine ⟨s, [.waited thread], by simp only [requestStep, FdLoop.take, if_neg hlock], ?_⟩
      exact {
        holds := h
        silent := ⟨rfl, rfl⟩
        main := rfl
        others := fun _ _ => rfl
        lock := lock_kept (by simp [inside_cons hrequests]) rfl
        ending := id
        handling := by
          split_ifs with hthread
          · simp [hthread]
          · simp [hthread] }
  | setting =>
    exact ⟨_, [], rfl, advance_kept h hrequests rfl ⟨rfl, rfl⟩ rfl (.inr (.inl ⟨rfl, rfl⟩))
      (le_refl _) nofun ⟨fun _ => .inr trivial, fun _ => rfl⟩ id fun _ => nofun⟩
  | flagged =>
    obtain ⟨pipe, hpipe, hwrite, hbytes⟩ := signal_open (hopen rfl)
    have hset : s.shutdown = true := h.flagged ((asked_cons hrequests).mpr (.inl trivial))
    refine ⟨{ s.advance thread (.written :: below) with pipe := pipe }, [], ?_,
      advance_kept h hrequests rfl ⟨rfl, rfl⟩ hwrite (lock_kept nofun rfl) (le_refl _) id
        ⟨fun _ => .inl hset, fun _ => hset⟩ ?_ ?_⟩
    · simp only [requestStep, hpipe, Except.map]
    · rcases hbytes with hsent | ⟨-, hsame⟩
      · exact fun _ => hsent
      · exact fun hbefore => hsame ▸ hbefore
    · intro hmain _
      rcases hbytes with hsent | ⟨hclosed, hsame⟩
      · exact hsent
      · exact hsame ▸ h.readable hmain (.inl hclosed)
  | written =>
    have hset : s.shutdown = true := h.flagged ((asked_cons hrequests).mpr (.inl trivial))
    refine ⟨_, [], rfl, advance_kept h hrequests rfl ⟨rfl, rfl⟩ rfl (lock_kept nofun rfl)
      (le_refl _) id ⟨fun _ => .inl hset, fun _ => hset⟩ id fun hmain _ => ?_⟩
    exact h.readable hmain ((asked_cons hrequests).mpr (.inl trivial))
  | readClosed => exact ⟨_, [], rfl, return_kept h hrequests⟩

namespace LoopAction

def isMain : LoopAction → Bool
  | main _ => true
  | _ => false

/-- A signal that interrupts the main thread. -/
def interrupts : LoopAction → Bool
  | signal .main => true
  | _ => false

/-- The thread that goes on. -/
def thread : LoopAction → Option LoopThread
  | signal _ => none
  | main _ => some .main
  | other i => some (.other i)

end LoopAction

/-- The thread is about to write into the pipe. -/
def FdLoop.Writes (s : FdLoop) (thread : LoopThread) : Prop :=
  match s.requests thread with
  | [] => thread = .main ∧ s.main.Signals
  | point :: _ => point = .flagged

instance (s : FdLoop) (thread : LoopThread) : Decidable (s.Writes thread) := by
  unfold FdLoop.Writes
  split <;> infer_instance

/-- Nothing is written into the pipe while a handler is between its two closes of it. -/
def Alone (s : FdLoop) (a : LoopAction) : Prop :=
  ∀ thread ∈ a.thread, s.Writes thread → s.pipe.readOpen = false → s.pipe.writeOpen = false

instance (s : FdLoop) (a : LoopAction) : Decidable (Alone s a) :=
  inferInstanceAs (Decidable (∀ thread ∈ a.thread, _))

/-- A thread goes on, the others are where they were, and the lock is passed. -/
structure WentOn (s t : FdLoop) (thread : LoopThread) : Prop where
  others : ∀ other ≠ thread, t.requests other = s.requests other
  main : thread ≠ .main → t.main = s.main
  lock : LockPassed s t thread (s.Inside thread) (t.Inside thread)

/-- What a step keeps, and how much nearer to the end of the loop it brings the main thread. -/
structure LoopKept (shutdownFd : Int32) (sockets : List Int32) (s : FdLoop) (held : List Int32)
    (a : LoopAction) (t : FdLoop) (now : List LoopEvent) (held' : List Int32) : Prop where
  holds : t.Holds shutdownFd sockets held'
  flow : held ++ now.filterMap LoopEvent.found = now.filterMap LoopEvent.taken ++ held'
  ending : s.Ending → t.Ending
  left : s.main = .left → t.main = .left
  wentOn : ∀ thread ∈ a.thread, WentOn s t thread
  nearer : s.Ending → s.main ≠ .left →
    t.main.remaining (pollCount sockets) + t.handling + (if a.isMain then 1 else 0) ≤
      s.main.remaining (pollCount sockets) + s.handling + (if a.interrupts then 5 else 0) +
        now.count (.waited .main)

theorem signal_kept (h : s.Holds shutdownFd sockets held) (thread : LoopThread) :
    LoopKept shutdownFd sockets s held (.signal thread)
      (s.advance thread (.locking :: s.requests thread)) [] held := by
  have hasked : ∀ {Far : RequestPoint → Prop}, ¬ Far .locking →
      (s.advance thread (.locking :: s.requests thread)).Asked Far → s.Asked Far := by
    intro Far hnot hasked
    rw [asked_advance rfl rfl, advance_self rfl] at hasked
    exact hasked.resolve_left hnot
  exact {
    holds := {
      flagged := fun hflagged => h.flagged (hasked id hflagged)
      waits := fun hwaits hset => (asked_advance rfl rfl).mpr <| .inr <| by
        rw [advance_self rfl]
        exact h.waits hwaits hset
      readable := fun hwaits hwritten => h.readable hwaits (hasked id hwritten)
      sized := h.sized
      scans := h.scans }
    flow := List.append_nil held
    ending := id
    left := id
    wentOn := nofun
    nearer := fun _ _ => by
      cases thread with
      | main =>
        simp only [FdLoop.handling, advance_requests, List.map_cons, List.sum_cons]
        simp [LoopAction.isMain, LoopAction.interrupts, RequestPoint.remaining, FdLoop.advance]
        omega
      | other i =>
        simp [LoopAction.isMain, LoopAction.interrupts, FdLoop.handling, FdLoop.advance] }

theorem request_kept {a : LoopAction} {thread : LoopThread} (ha : a.thread = some thread)
    {now : List LoopEvent} (hkept : RequestKept shutdownFd sockets s held thread t now) :
    LoopKept shutdownFd sockets s held a t now held where
  holds := hkept.holds
  flow := by rw [hkept.silent.1, hkept.silent.2, List.append_nil, List.nil_append]
  ending := hkept.ending
  left := fun hleft => hkept.main.trans hleft
  wentOn := fun other hother => by
    obtain rfl : thread = other := Option.some.inj (ha.symm.trans hother)
    exact ⟨hkept.others, fun _ => hkept.main, hkept.lock⟩
  nearer := fun _ _ => by
    have hhandling := hkept.handling
    rw [hkept.main]
    cases a with
    | signal thread => cases ha
    | main moment =>
      cases ha
      simp only [if_true] at hhandling
      simp [LoopAction.isMain, LoopAction.interrupts]
      omega
    | other i =>
      cases ha
      simp only [reduceCtorEq, if_false] at hhandling
      simp [LoopAction.isMain, LoopAction.interrupts]
      omega

/-- Looking at the flag, another thread takes the lock and gives it back. -/
theorem other_kept (h : s.Holds shutdownFd sockets held) {i : ℕ}
    (hrequests : s.requests (.other i) = []) :
    LoopKept shutdownFd sockets s held (.other i) (otherStep s (.other i)).1
      (otherStep s (.other i)).2 held := by
  have hinside : s.Inside (.other i) := by simp [FdLoop.Inside, hrequests]
  have hlock : ∀ lock now, now.filterMap LoopEvent.found = [] →
      now.filterMap LoopEvent.taken = [] →
      LockPassed s { s with lock := lock } (.other i) (s.Inside (.other i))
        (s.Inside (.other i)) →
      LoopKept shutdownFd sockets s held (.other i) { s with lock := lock } now held := by
    intro lock now hfound htaken hpassed
    exact {
      holds := ⟨h.flagged, h.waits, h.readable, h.sized, h.scans⟩
      flow := by rw [hfound, htaken, List.append_nil, List.nil_append]
      ending := id
      left := id
      wentOn := by
        rintro _ ⟨⟩
        exact ⟨fun _ _ => rfl, fun _ => rfl, hpassed⟩
      nearer := fun _ _ => by
        simp [LoopAction.isMain, LoopAction.interrupts, FdLoop.handling] }
  unfold otherStep FdLoop.take
  split_ifs with hholds hfree
  · exact hlock none [] rfl rfl (.inr (.inl ⟨hinside, rfl⟩))
  · exact hlock (some (.other i)) [] rfl rfl (.inr (.inr ⟨hfree, rfl, hinside⟩))
  · exact hlock s.lock [.waited (.other i)] rfl rfl (.inl ⟨fun _ => hholds, rfl⟩)

theorem loop_goes (hfd : 0 < shutdownFd) (h : s.Holds shutdownFd sockets held) {a : LoopAction}
    (halone : Alone s a) : ∃ t now held', loopStep shutdownFd sockets s a = .ok (t, now) ∧
      LoopKept shutdownFd sockets s held a t now held' := by
  cases a with
  | signal thread => exact ⟨_, [], held, rfl, signal_kept h thread⟩
  | main moment =>
    have hopen := halone .main rfl
    cases hrequests : s.requests .main with
    | nil =>
      simp only [FdLoop.Writes, hrequests, true_and] at hopen
      obtain ⟨t, now, held', hstep, hkept⟩ := main_goes hfd h hopen moment
      refine ⟨t, now, held', by simp only [loopStep, hrequests, hstep], ?_⟩
      exact {
        holds := hkept.holds
        flow := hkept.flow
        ending := fun hending => (hkept.ends hending).1
        left := fun hleft => by
          simp only [mainStep, hleft] at hstep
          cases hstep
          exact hleft
        wentOn := by
          rintro _ ⟨⟩
          refine ⟨fun _ _ => by rw [hkept.requests], fun hne => absurd rfl hne, ?_⟩
          simpa only [FdLoop.Inside, hkept.requests, hrequests, true_implies] using hkept.lock
        nearer := fun hending hbusy => by
          have hless := (hkept.ends hending).2 hbusy
          simp only [FdLoop.handling, hkept.requests]
          simp [LoopAction.isMain, LoopAction.interrupts]
          omega }
    | cons point below =>
      simp only [FdLoop.Writes, hrequests] at hopen
      obtain ⟨t, now, hstep, hkept⟩ := request_goes h hrequests hopen
      exact ⟨t, now, held, by simp only [loopStep, hrequests, hstep], request_kept rfl hkept⟩
  | other i =>
    have hopen := halone (.other i) rfl
    cases hrequests : s.requests (.other i) with
    | nil => exact ⟨_, _, held, by simp only [loopStep, hrequests], other_kept h hrequests⟩
    | cons point below =>
      simp only [FdLoop.Writes, hrequests] at hopen
      obtain ⟨t, now, hstep, hkept⟩ := request_goes h hrequests hopen
      exact ⟨t, now, held, by simp only [loopStep, hrequests, hstep], request_kept rfl hkept⟩

theorem loop_kept (hfd : 0 < shutdownFd) (h : s.Holds shutdownFd sockets held) {a : LoopAction}
    (halone : Alone s a) {now : List LoopEvent}
    (hstep : loopStep shutdownFd sockets s a = .ok (t, now)) :
    ∃ held', LoopKept shutdownFd sockets s held a t now held' := by
  obtain ⟨t', now', held', hstep', hkept⟩ := loop_goes hfd h halone
  cases hstep.symm.trans hstep'
  exact ⟨held', hkept⟩

theorem run_goes_alone (hfd : 0 < shutdownFd) (h : s.Holds shutdownFd sockets held)
    {actions : List LoopAction} (halone : Along (loopStep shutdownFd sockets) Alone s actions) :
    ∃ t out held', run (loopStep shutdownFd sockets) s actions = .ok (t, out) ∧
      t.Holds shutdownFd sockets held' ∧
      held ++ out.filterMap LoopEvent.found = out.filterMap LoopEvent.taken ++ held' := by
  obtain ⟨t, out, hrun, -, -⟩ := @run_invariant _ _ _ _ (loopStep shutdownFd sockets) Alone
    (fun s => ∃ held, s.Holds shutdownFd sockets held) (fun _ => True)
    (fun _ _ h halone => by
      obtain ⟨held, h⟩ := h
      obtain ⟨t, now, held', hstep, hkept⟩ := loop_goes hfd h halone
      exact ⟨t, now, hstep, ⟨held', hkept.holds⟩, fun _ _ => trivial⟩)
    s ⟨held, h⟩ actions halone
  obtain ⟨held', hholds, hflow⟩ := run_flow (fun s a t now held h halone hstep => by
    obtain ⟨held', hkept⟩ := loop_kept hfd h halone hstep
    exact ⟨held', hkept.holds, hkept.flow⟩) h halone hrun
  exact ⟨t, out, held', hrun, hholds, hflow⟩

/-- The second descriptor is ready. -/
def momentReady : LoopMoment := ⟨fun i => if i = 1 then pollIn else 0, false, false, false⟩

/-- A round of the loop, with a signal in the middle of it. -/
def loopInterrupted : List LoopAction :=
  List.replicate 6 (.main momentReady) ++ [.signal (.other 0)] ++ List.replicate 5 (.other 0) ++
    List.replicate 4 (.main momentReady)

/-- Whatever threads do, the main thread never leaves the table of descriptors, polls the
shutdown pipe and every socket, and reads each socket that is found to be ready once, in
the order of the table, before it polls again. -/
theorem loop_reads (hfd : 0 < shutdownFd) (sockets : List Int32) (actions : List LoopAction)
    (halone : Along (loopStep shutdownFd sockets) Alone fdLoopStart actions) :
    ∃ t out held, run (loopStep shutdownFd sockets) fdLoopStart actions = .ok (t, out) ∧
      out.filterMap LoopEvent.found = out.filterMap LoopEvent.taken ++ held ∧
      (t.main = .checking ∨ t.main = .settingFds ∨ t.main = .polling ∨ t.main = .left →
        held = []) ∧
      (t.main = .polling →
        t.table.Used ((shutdownFd :: polledFds sockets).map fun fd => ⟨fd, pollEvents, 0⟩)) := by
  obtain ⟨t, out, held, hrun, hholds, hflow⟩ := run_goes_alone hfd fdLoopStart_holds halone
  have hscans := hholds.scans
  refine ⟨t, out, held, hrun, hflow, ?_, fun hmain => ?_⟩
  · rintro (hmain | hmain | hmain | hmain) <;> simp only [FdLoop.Scans, hmain] at hscans
    · exact hscans
    · exact hscans
    · exact hscans.1
    · exact hscans
  · simp only [FdLoop.Scans, hmain] at hscans
    exact hscans.2

/-- One of two sockets is ready, a signal arrives while it is read, and the loop ends. -/
theorem loop_reads_two : ∃ t out held, run (loopStep 5 [3, 4]) fdLoopStart loopInterrupted =
      .ok (t, out) ∧
    out.filterMap LoopEvent.found = out.filterMap LoopEvent.taken ++ held ∧
    (t.main = .checking ∨ t.main = .settingFds ∨ t.main = .polling ∨ t.main = .left →
      held = []) ∧
    (t.main = .polling →
      t.table.Used ((5 :: polledFds [3, 4]).map fun fd => ⟨fd, pollEvents, 0⟩)) :=
  loop_reads (by decide) [3, 4] loopInterrupted (by decide)

end Invariant

end RaveloxMidi
