import RaveloxMidi.AlsaListener

/-!
# The poll table and the shutdown pipe

The main loop polls a table of descriptors that it fills anew for each round: the reading
end of the shutdown pipe first, then every socket. The block of the table grows by eight
entries at a time. An octet in the pipe makes its reading end ready, and so does closing
either end.
-/
namespace RaveloxMidi
open ByteMemory Transducer

/-- `POLLHUP` -/
def pollHup : UInt16 := 0x0010

/-- `POLLNVAL` -/
def pollNval : UInt16 := 0x0020

/-- Why the loop does not go on: an access outside of the table, or a write into a pipe that
has lost its reader, which ends the process. -/
inductive LoopStop where
  | fault (fault : Fault)
  | brokenPipe
  deriving Repr, DecidableEq

/-- `poll_fds` and its counters. What has not been written is not known. -/
structure PollTable where
  cells : List (Option PollDescriptor)
  count : ℕ
  capacity : ℕ

def PollTable.store (table : PollTable) (i : ℕ) (d : PollDescriptor) : Except Fault PollTable :=
  if i < table.cells.length then .ok { table with cells := table.cells.set i (some d) }
  else .error .outOfBounds

def PollTable.load (table : PollTable) (i : ℕ) : Except Fault PollDescriptor :=
  match table.cells[i]? with
  | none => .error .outOfBounds
  | some none => .error .uninitialised
  | some (some d) => .ok d

/-- The block is made larger by eight descriptors when it is full. -/
def PollTable.grow (table : PollTable) : PollTable :=
  if table.count ≥ table.capacity then
    { table with
      cells := (table.cells ++ List.replicate (table.capacity + 8) none).take (table.capacity + 8)
      capacity := table.capacity + 8 }
  else table

def netSocketPollFdsAdd (fd : Int32) (table : PollTable) : Except Fault PollTable :=
  if fd ≤ 0 then .ok table
  else do
    let table ← table.grow.store table.grow.count ⟨fd, pollEvents, 0⟩
    return { table with count := table.count + 1 }

/-- The shutdown pipe comes first, then every socket. -/
def netSocketSetFds (shutdownFd : Int32) (sockets : List Int32) (table : PollTable) :
    Except Fault PollTable := do
  let table ← netSocketPollFdsAdd shutdownFd { table with count := 0 }
  sockets.foldlM (fun table fd => if 0 < fd then netSocketPollFdsAdd fd table else .ok table) table

/-- The pipe: the octets in it, and which of its ends are open. -/
structure ShutdownPipe where
  bytes : ℕ
  readOpen : Bool
  writeOpen : Bool

/-- What a pipe takes before it is full. -/
def pipeCapacity : ℕ := 65536

/-- A full pipe takes nothing, and neither does a closed one. -/
def netSocketSignalShutdown (pipe : ShutdownPipe) : Except LoopStop ShutdownPipe :=
  if pipe.writeOpen = false then .ok pipe
  else if pipe.readOpen = false then .error .brokenPipe
  else .ok { pipe with bytes := min pipeCapacity (pipe.bytes + 1) }

/-- All that is in the pipe is read. -/
def netSocketDrainShutdownSignal (pipe : ShutdownPipe) : ShutdownPipe :=
  if pipe.readOpen then { pipe with bytes := 0 } else pipe

/-- What `poll` finds for the reading end. -/
def ShutdownPipe.revents (pipe : ShutdownPipe) : UInt16 :=
  if pipe.readOpen = false then pollNval
  else (if 0 < pipe.bytes then pollIn else 0) ||| (if pipe.writeOpen = false then pollHup else 0)

/-- What the main thread finds: the events of the sockets, whether its wait ends for another
reason, and whether what it reads from a socket asks it to stop. -/
structure LoopMoment where
  revents : ℕ → UInt16
  interrupted : Bool
  elapsed : Bool
  quit : Bool

/-- The entry has something to be read that is not the shutdown signal. -/
def PollDescriptor.Readable (shutdownFd : Int32) (d : PollDescriptor) : Prop :=
  d.fd ≠ shutdownFd ∧ d.revents &&& pollIn ≠ 0

instance (shutdownFd : Int32) (d : PollDescriptor) : Decidable (d.Readable shutdownFd) :=
  inferInstanceAs (Decidable (_ ∧ _))

section Poll
variable (shutdownFd : Int32)

/-- An entry after `poll`. -/
def PollDescriptor.polled (pipe : ShutdownPipe) (moment : LoopMoment) (i : ℕ) (d : PollDescriptor) :
    PollDescriptor :=
  { d with revents := if d.fd = shutdownFd then pipe.revents else moment.revents i }

/-- The entries in use after `poll`. -/
def PollTable.polled (pipe : ShutdownPipe) (moment : LoopMoment) (table : PollTable) :
    Except Fault (List PollDescriptor) :=
  (List.range table.count).mapM fun i =>
    (table.load i).map (PollDescriptor.polled shutdownFd pipe moment i)

end Poll

section Table
variable {table : PollTable} {ds : List PollDescriptor}

/-- The entries in use, in a block that is as large as it is said to be. -/
structure PollTable.Used (table : PollTable) (ds : List PollDescriptor) : Prop where
  sized : table.cells.length = table.capacity
  count : table.count = ds.length
  cells : ∃ rest, table.cells = ds.map some ++ rest

theorem load_used (h : table.Used ds) {i : ℕ} (hi : i < ds.length) :
    table.load i = .ok ds[i] := by
  obtain ⟨rest, hcells⟩ := h.cells
  have hcell : table.cells[i]? = some (some ds[i]) := by
    rw [hcells, List.getElem?_append_left (by simpa using hi), List.getElem?_map,
      List.getElem?_eq_getElem hi, Option.map_some]
  simp only [PollTable.load, hcell]

theorem grow_used (h : table.Used ds) :
    table.grow.Used ds ∧ table.grow.count < table.grow.cells.length := by
  obtain ⟨rest, hcells⟩ := h.cells
  have hcount := h.count
  have hlength : ds.length + rest.length = table.capacity := by
    rw [← h.sized, hcells, List.length_append, List.length_map]
  by_cases hfull : table.count ≥ table.capacity
  · have hnone : rest = [] := by
      rw [← List.length_eq_zero_iff]
      omega
    have hcapacity : table.capacity = ds.length := by
      rw [hnone] at hlength
      simpa using hlength.symm
    have hgrown : (table.cells ++ List.replicate (table.capacity + 8) none).take
        (table.capacity + 8) = ds.map some ++ List.replicate 8 none := by
      rw [hcells, hnone, List.append_nil, hcapacity, List.take_append, List.length_map,
        List.take_of_length_le (by simp), List.take_replicate]
      congr 2
      omega
    rw [PollTable.grow, if_pos hfull, hgrown]
    refine ⟨⟨?_, hcount, _, rfl⟩, ?_⟩
    · simp [hcapacity]
    · simp [hcount]
  · rw [PollTable.grow, if_neg hfull]
    refine ⟨h, ?_⟩
    rw [h.sized]
    omega

/-- An entry is put behind the others, and never outside of the block. -/
theorem add_used (h : table.Used ds) {fd : Int32} (hfd : 0 < fd) :
    ∃ table', netSocketPollFdsAdd fd table = .ok table' ∧
      table'.Used (ds ++ [⟨fd, pollEvents, 0⟩]) := by
  obtain ⟨hgrown, hroom⟩ := grow_used h
  obtain ⟨rest, hcells⟩ := hgrown.cells
  have hpositive : ¬ fd ≤ 0 := by
    rw [Int32.not_le]
    exact hfd
  have hstored := hgrown.count
  cases rest with
  | nil =>
    rw [hcells, hstored] at hroom
    simp at hroom
  | cons cell rest =>
    have hset : table.grow.cells.set table.grow.count (some ⟨fd, pollEvents, 0⟩) =
        (ds ++ [(⟨fd, pollEvents, 0⟩ : PollDescriptor)]).map some ++ rest := by
      rw [hcells, hstored, List.set_append_right _ _ (by simp)]
      simp
    refine ⟨⟨table.grow.cells.set table.grow.count (some ⟨fd, pollEvents, 0⟩),
      table.grow.count + 1, table.grow.capacity⟩, ?_, ⟨?_, ?_, rest, hset⟩⟩
    · simp only [netSocketPollFdsAdd, if_neg hpositive, PollTable.store, if_pos hroom, bind,
        Except.bind, pure, Except.pure]
    · simp only [List.length_set, hgrown.sized]
    · simp only [hstored, List.length_append, List.length_singleton]

/-- The sockets that are polled. -/
def polledFds (sockets : List Int32) : List Int32 := sockets.filter fun fd => 0 < fd

/-- How many descriptors are polled. -/
def pollCount (sockets : List Int32) : ℕ := (polledFds sockets).length + 1

theorem fds_length {shutdownFd : Int32} {sockets : List Int32}
    (h : ds.map PollDescriptor.fd = shutdownFd :: polledFds sockets) :
    ds.length = pollCount sockets := by
  rw [← List.length_map PollDescriptor.fd, h, pollCount, List.length_cons]

theorem addAll_used (sockets : List Int32) (h : table.Used ds) :
    ∃ table', sockets.foldlM
        (fun table fd => if 0 < fd then netSocketPollFdsAdd fd table else .ok table) table =
          .ok table' ∧
      table'.Used (ds ++ (polledFds sockets).map fun fd => ⟨fd, pollEvents, 0⟩) := by
  induction sockets generalizing table ds with
  | nil => exact ⟨table, rfl, by simpa [polledFds] using h⟩
  | cons fd sockets ih =>
    by_cases hfd : 0 < fd
    · obtain ⟨added, hadd, hused⟩ := add_used h hfd
      obtain ⟨last, hlast, hall⟩ := ih hused
      refine ⟨last, ?_, ?_⟩
      · simp only [List.foldlM_cons, if_pos hfd, hadd, bind, Except.bind]
        exact hlast
      · simpa [polledFds, hfd] using hall
    · obtain ⟨last, hlast, hall⟩ := ih h
      refine ⟨last, ?_, ?_⟩
      · simp only [List.foldlM_cons, if_neg hfd, bind, Except.bind]
        exact hlast
      · simpa [polledFds, hfd] using hall

/-- Whatever was in the table, it then holds the shutdown pipe and every socket. -/
theorem setFds_used (hsized : table.cells.length = table.capacity) {shutdownFd : Int32}
    (hfd : 0 < shutdownFd) (sockets : List Int32) :
    ∃ table', netSocketSetFds shutdownFd sockets table = .ok table' ∧
      table'.Used ((shutdownFd :: polledFds sockets).map fun fd => ⟨fd, pollEvents, 0⟩) := by
  have hempty : ({ table with count := 0 } : PollTable).Used [] := ⟨hsized, rfl, _, rfl⟩
  obtain ⟨first, hfirst, hused⟩ := add_used hempty hfd
  obtain ⟨last, hlast, hall⟩ := addAll_used sockets hused
  refine ⟨last, ?_, hall⟩
  simp only [netSocketSetFds, hfirst, bind, Except.bind]
  exact hlast

theorem mapM_ok {ι γ ε : Type} {l : List ι} {f : ι → Except ε γ} {g : ι → γ}
    (h : ∀ i ∈ l, f i = .ok (g i)) : l.mapM f = .ok (l.map g) := by
  induction l with
  | nil => rfl
  | cons i l ih =>
    obtain ⟨hi, hl⟩ := List.forall_mem_cons.mp h
    rw [List.mapM_cons, hi, ih hl]
    rfl

/-- `poll` looks at the entries in use. -/
theorem polled_used (h : table.Used ds) (shutdownFd : Int32) (pipe : ShutdownPipe)
    (moment : LoopMoment) :
    table.polled shutdownFd pipe moment =
      .ok (ds.mapIdx (PollDescriptor.polled shutdownFd pipe moment)) := by
  have hload : ∀ i ∈ List.range ds.length, (table.load i).map
      (PollDescriptor.polled shutdownFd pipe moment i) =
        .ok (PollDescriptor.polled shutdownFd pipe moment i (ds.getD i ⟨0, 0, 0⟩)) := by
    intro i hi
    have hlt : i < ds.length := List.mem_range.mp hi
    have hget : ds.getD i ⟨0, 0, 0⟩ = ds[i] := by simp [hlt]
    rw [load_used h hlt, hget]
    rfl
  rw [PollTable.polled, h.count, mapM_ok hload]
  refine congrArg Except.ok (List.ext_getElem (by simp) fun i hi hi' => ?_)
  have hlt : i < ds.length := by simpa using hi
  simp [hlt]

end Table

/-- The sockets found to be ready among some entries. -/
def readyFds (shutdownFd : Int32) (ds : List PollDescriptor) : List Int32 :=
  (ds.filter fun d => d.Readable shutdownFd).map PollDescriptor.fd

section Pipe
variable {shutdownFd : Int32}

theorem readyFds_cons (d : PollDescriptor) (ds : List PollDescriptor) :
    readyFds shutdownFd (d :: ds) =
      (if d.Readable shutdownFd then [d.fd] else []) ++ readyFds shutdownFd ds := by
  unfold readyFds
  split_ifs with hready
  · rw [List.filter_cons_of_pos (by simpa using hready)]
    rfl
  · rw [List.filter_cons_of_neg (by simpa using hready)]
    rfl

/-- A write into a pipe that is not half closed, and what it leaves of it. -/
theorem signal_open {pipe : ShutdownPipe} (h : pipe.readOpen = false → pipe.writeOpen = false) :
    ∃ pipe', netSocketSignalShutdown pipe = .ok pipe' ∧ pipe'.writeOpen = pipe.writeOpen ∧
      (0 < pipe'.bytes ∨ pipe.writeOpen = false ∧ pipe'.bytes = pipe.bytes) := by
  by_cases hwrite : pipe.writeOpen = false
  · exact ⟨pipe, by simp only [netSocketSignalShutdown, if_pos hwrite], rfl, .inr ⟨hwrite, rfl⟩⟩
  · have hread : pipe.readOpen ≠ false := fun hclosed => hwrite (h hclosed)
    refine ⟨{ pipe with bytes := min pipeCapacity (pipe.bytes + 1) }, ?_, rfl, .inl ?_⟩
    · simp only [netSocketSignalShutdown, if_neg hwrite, if_neg hread]
    · simp [pipeCapacity]

/-- An octet in the pipe is seen. -/
theorem revents_pipe {pipe : ShutdownPipe} (h : pipe.revents = 0) : pipe.bytes = 0 := by
  unfold ShutdownPipe.revents at h
  split_ifs at h with hread hbytes hwrite <;> first | omega | exact absurd h (by decide)

theorem mapIdx_fd (pipe : ShutdownPipe) (moment : LoopMoment) (ds : List PollDescriptor) :
    (ds.mapIdx (PollDescriptor.polled shutdownFd pipe moment)).map PollDescriptor.fd =
      ds.map PollDescriptor.fd := by
  refine List.ext_getElem (by simp) fun i hi hi' => ?_
  simp [PollDescriptor.polled]

end Pipe

end RaveloxMidi
