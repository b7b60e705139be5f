import RaveloxMidi.SocketRead

/-!
# The thread that listens to the ALSA inputs

The table of descriptors is guarded by a lock that is not recursive: a thread that
asks for it a second time waits for itself. The thread holds it over the whole loop
that reads the ready descriptors, and the read of a device that is gone takes its
descriptor out of the table, under the lock.
-/
namespace RaveloxMidi
open ByteMemory Transducer

/-- `POLLIN` -/
def pollIn : UInt16 := 0x0001

/-- `POLLIN | POLLERR | POLLNVAL | POLLHUP` -/
def pollEvents : UInt16 := 0x0039

/-- `ENODEV` -/
def enodev : ℕ := 19

/-- `struct pollfd` -/
structure PollDescriptor where
  fd : Int32
  events : UInt16
  revents : UInt16
  deriving Repr, DecidableEq

/-- Why the thread does not go on: it waits for a lock that it holds itself, or an access
has failed. -/
inductive ListenerStop where
  | blocked
  | fault (fault : Fault)
  deriving Repr, DecidableEq

/-- The state of the listener. The table is the address of the array of descriptors, zero
being a null pointer, and no address is given out twice. -/
structure AlsaListener where
  locked : Bool
  table : ℕ
  allocated : ℕ
  descriptors : List PollDescriptor
  sockets : List (Int32 × RaveloxmidiSocket)
  inAvailable : Bool
  shutdownFd : Int32

/-- What `snd_rawmidi_read` gives: some octets, or an error with its number. -/
inductive RawRead where
  | data (octets : List UInt8)
  | error (errno : ℕ)
  deriving Repr, DecidableEq

/-- One round of the listener: what `poll` returns, the events it sets for each
descriptor, and what the read of each would give. -/
structure PollMoment where
  err : Int32
  revents : ℕ → UInt16
  reads : ℕ → RawRead

namespace AlsaListener

def pollDescriptorsLock (s : AlsaListener) : Except ListenerStop AlsaListener :=
  if s.locked then .error .blocked else .ok { s with locked := true }

def pollDescriptorsUnlock (s : AlsaListener) : AlsaListener := { s with locked := false }

/-- `raveloxmidi_alsa_add_poll_fd`. -/
def addPollFd (config : SocketConfig) (alsa : AlsaConfig) (handle : Option SndRawmidi)
    (fd : Int32) (s : AlsaListener) : Except ListenerStop AlsaListener := do
  if fd < 0 then return s
  let s ← pollDescriptorsLock s
  let sockets := (netSocketCreateItem config).toList.map fun socket =>
    (fd, raveloxmidiAlsaAddPollFd alsa handle socket)
  return pollDescriptorsUnlock
    { s with
      table := s.allocated + 1
      allocated := s.allocated + 1
      descriptors := s.descriptors ++ [⟨fd, pollEvents, 0⟩]
      sockets := s.sockets ++ sockets }

/-- `raveloxmidi_alsa_disable_poll_fd`. -/
def disablePollFd (fd : Int32) (s : AlsaListener) : Except ListenerStop AlsaListener := do
  if fd < 0 then return s
  let s ← pollDescriptorsLock s
  return pollDescriptorsUnlock
    { s with
      table := s.allocated + 1
      allocated := s.allocated + 1
      descriptors := s.descriptors.filter fun d => d.fd ≠ fd }

/-- `raveloxmidi_alsa_read`: the octets read, none if the read has failed. -/
def alsaRead (fd : Int32) (socket : RaveloxmidiSocket) (read : RawRead) (s : AlsaListener) :
    Except ListenerStop (AlsaListener × List UInt8) :=
  if socket.packetSize = 0 then .ok (s, [])
  else
    match socket.handle, read with
    | none, _ => .ok (s, [])
    | some _, .data octets => .ok (s, octets.take socket.packetSize)
    | some _, .error errno =>
      if errno = enodev then do
        let s ← disablePollFd fd s
        return (s, [])
      else .ok (s, [])

/-- The first socket with the descriptor is replaced. -/
def setSocket (fd : Int32) (socket : RaveloxmidiSocket)
    (sockets : List (Int32 × RaveloxmidiSocket)) : List (Int32 × RaveloxmidiSocket) :=
  sockets.replaceF fun entry => if entry.1 = fd then some (fd, socket) else none

/-- `net_socket_read` on a descriptor of the table. -/
def readFd (fd : Int32) (read : RawRead) (s : AlsaListener) :
    Except ListenerStop (AlsaListener × List SocketEffect) :=
  match s.sockets.find? fun entry => entry.1 = fd with
  | none => .ok (s, [])
  | some (_, socket) => do
    let (s, received) ← alsaRead fd socket read s
    match netSocketReadInput socket received with
    | .error fault => .error (.fault fault)
    | .ok (socket, effects) =>
      return ({ s with sockets := setSocket fd socket s.sockets }, effects)

/-- The descriptors after `poll`: their events are cleared before. -/
def polled (moment : PollMoment) (descriptors : List PollDescriptor) : List PollDescriptor :=
  (descriptors.map fun d => { d with revents := 0 }).mapIdx fun i d =>
    { d with revents := moment.revents i }

/-- The first descriptor with something to read decides: 2 for the shutdown pipe, 1 for a
device. -/
def pollResult (shutdownFd : Int32) (descriptors : List PollDescriptor) : ℕ :=
  match descriptors.find? fun d => d.revents &&& pollIn ≠ 0 with
  | none => 0
  | some d => if d.fd = shutdownFd then 2 else 1

/-- `raveloxmidi_alsa_poll`. -/
def alsaPoll (moment : PollMoment) (s : AlsaListener) : Except ListenerStop (AlsaListener × ℕ) := do
  if s.table = 0 then return (s, 0)
  if ¬ s.inAvailable then return (s, 0)
  let s ← pollDescriptorsLock s
  let s := pollDescriptorsUnlock { s with descriptors := polled moment s.descriptors }
  if 0 < moment.err then
    let s ← pollDescriptorsLock s
    return (pollDescriptorsUnlock s, pollResult s.shutdownFd s.descriptors)
  else return (s, 0)

/-- The body of the loop over the descriptors. -/
def readDescriptor (moment : PollMoment) (s : AlsaListener) (i : ℕ) :
    Except ListenerStop (AlsaListener × List SocketEffect) :=
  match s.descriptors[i]? with
  | none => .ok (s, [])
  | some d => if d.revents &&& pollIn ≠ 0 then readFd d.fd (moment.reads i) s else .ok (s, [])

/-- One round of `raveloxmidi_alsa_listener`. The lock is also taken to dump the table. -/
def listenerRound (s : AlsaListener) (moment : PollMoment) :
    Except ListenerStop (AlsaListener × List SocketEffect) := do
  let (s, result) ← alsaPoll moment s
  let s ← pollDescriptorsLock s
  let s := pollDescriptorsUnlock s
  if result = 1 then
    let s ← pollDescriptorsLock s
    let (s, effects) ← run (readDescriptor moment) s (List.range s.descriptors.length)
    return (pollDescriptorsUnlock s, effects)
  else return (s, [])

/-- The descriptors that are added, with their handles: those of every input, in the order
in which the inputs are opened, and then the shutdown pipe by the thread itself. -/
def addedFds (inputs : List (SndRawmidi × List Int32)) (shutdownFd : Int32) :
    List (Option SndRawmidi × Int32) :=
  (inputs.flatMap fun input => input.2.map fun fd => (some input.1, fd)) ++ [(none, shutdownFd)]

/-- Nothing is polled yet. -/
def listenerEmpty (inAvailable : Bool) (shutdownFd : Int32) : AlsaListener where
  locked := false
  table := 0
  allocated := 0
  descriptors := []
  sockets := []
  inAvailable := inAvailable
  shutdownFd := shutdownFd

/-- The listener before its first round. -/
def listenerStart (config : SocketConfig) (alsa : AlsaConfig)
    (inputs : List (SndRawmidi × List Int32)) (shutdownFd : Int32) :
    Except ListenerStop AlsaListener :=
  (addedFds inputs shutdownFd).foldlM (fun s added => addPollFd config alsa added.1 added.2 s)
    (listenerEmpty (!inputs.isEmpty) shutdownFd)

/-- The thread never asks for the lock while it holds it, and the array of descriptors
stays the one that it was: an array put in its place would have another address. -/
structure NeverBlocks (s : AlsaListener) (rounds : List PollMoment) : Prop where
  unblocked : run listenerRound s rounds ≠ .error .blocked
  table : ∀ t, Reaches listenerRound s rounds t → t.table = s.table

/-- The handle that a read of the descriptor goes to. -/
def handleOf (s : AlsaListener) (fd : Int32) : Option SndRawmidi :=
  (s.sockets.find? fun entry => entry.1 = fd).bind fun entry => entry.2.handle

/-- The descriptor is ready, and the device behind it is gone. -/
def GoneAt (s : AlsaListener) (moment : PollMoment) (i : ℕ) : Prop :=
  ∃ d, s.descriptors[i]? = some d ∧ moment.revents i &&& pollIn ≠ 0 ∧
    (s.handleOf d.fd).isSome = true ∧ moment.reads i = .error enodev

/-- The thread goes over the descriptors in this round. -/
def ReadsDevices (s : AlsaListener) (moment : PollMoment) : Prop :=
  s.inAvailable = true ∧ 0 < moment.err ∧
    pollResult s.shutdownFd (polled moment s.descriptors) = 1

/-- The thread goes over the descriptors, and one of those that are ready belongs to a
device that is gone. -/
def ReadsGoneDevice (s : AlsaListener) (moment : PollMoment) : Prop :=
  s.ReadsDevices moment ∧ ∃ i, s.GoneAt moment i

/-- The descriptors without the events found last. -/
def cleared (s : AlsaListener) : List PollDescriptor :=
  s.descriptors.map fun d => { d with revents := 0 }

/-- What a round changes of the listener is only the events and the parsers. -/
structure Keeps (s t : AlsaListener) : Prop where
  table : t.table = s.table
  inAvailable : t.inAvailable = s.inAvailable
  shutdownFd : t.shutdownFd = s.shutdownFd
  cleared : t.cleared = s.cleared
  handles : ∀ fd, t.handleOf fd = s.handleOf fd

/-- The descriptors are real ones, there is an array for them, and every socket can be
read. -/
structure Ready (s : AlsaListener) : Prop where
  table : s.descriptors ≠ [] → s.table ≠ 0
  fds : ∀ d ∈ s.descriptors, ¬ d.fd < 0
  sockets : ∀ entry ∈ s.sockets, entry.2.state.Valid ∧ entry.2.packetSize ≠ 0

theorem Keeps.refl (s : AlsaListener) : s.Keeps s := ⟨rfl, rfl, rfl, rfl, fun _ => rfl⟩

theorem Keeps.trans {s t u : AlsaListener} (h : s.Keeps t) (h' : t.Keeps u) : s.Keeps u :=
  ⟨h'.table.trans h.table, h'.inAvailable.trans h.inAvailable, h'.shutdownFd.trans h.shutdownFd,
    h'.cleared.trans h.cleared, fun fd => (h'.handles fd).trans (h.handles fd)⟩

section Read
variable {s : AlsaListener} {fd : Int32} {read : RawRead} {socket : RaveloxmidiSocket}

theorem setSocket_cons (first : Int32 × RaveloxmidiSocket)
    (rest : List (Int32 × RaveloxmidiSocket)) :
    setSocket fd socket (first :: rest) =
      if first.1 = fd then (fd, socket) :: rest else first :: setSocket fd socket rest := by
  rw [setSocket, List.replaceF_cons]
  by_cases hfd : first.1 = fd
  · simp only [if_pos hfd]
  · simp only [if_neg hfd]
    rfl

theorem setSocket_mem {sockets : List (Int32 × RaveloxmidiSocket)}
    {entry : Int32 × RaveloxmidiSocket} (h : entry ∈ setSocket fd socket sockets) :
    entry ∈ sockets ∨ entry = (fd, socket) := by
  induction sockets with
  | nil => simp [setSocket] at h
  | cons first rest ih =>
    rw [setSocket_cons] at h
    split_ifs at h with hfd
    · exact (List.mem_cons.mp h).symm.imp_left (List.mem_cons_of_mem _)
    · rcases List.mem_cons.mp h with rfl | h
      · exact .inl (List.mem_cons_self ..)
      · exact (ih h).imp_left (List.mem_cons_of_mem _)

/-- A socket put in the place of one with the same handle. -/
theorem setSocket_find {sockets : List (Int32 × RaveloxmidiSocket)}
    {entry : Int32 × RaveloxmidiSocket}
    (hfound : (sockets.find? fun entry => entry.1 = fd) = some entry)
    (hhandle : socket.handle = entry.2.handle) (other : Int32) :
    (((setSocket fd socket sockets).find? fun entry => entry.1 = other).bind
        fun entry => entry.2.handle) =
      ((sockets.find? fun entry => entry.1 = other).bind fun entry => entry.2.handle) := by
  induction sockets with
  | nil => rfl
  | cons first rest ih =>
    rw [setSocket_cons]
    split_ifs with hfd
    · rw [List.find?_cons_of_pos (by simpa using hfd)] at hfound
      cases hfound
      simp only [List.find?_cons, hfd]
      by_cases hother : fd = other
      · simp [hother, hhandle]
      · simp [hother]
    · rw [List.find?_cons_of_neg (by simpa using hfd)] at hfound
      simp only [List.find?_cons]
      by_cases hother : first.1 = other
      · simp [hother]
      · simpa [hother] using ih hfound

/-- A read that does not find the device gone leaves the table alone. -/
theorem alsaRead_goes (hsafe : socket.handle.isSome = true → read ≠ .error enodev) :
    ∃ received, alsaRead fd socket read s = .ok (s, received) := by
  unfold alsaRead
  split_ifs with hsize
  · exact ⟨[], rfl⟩
  · cases hhandle : socket.handle with
    | none => exact ⟨[], rfl⟩
    | some handle =>
      cases read with
      | data octets => exact ⟨_, rfl⟩
      | error errno =>
        have herrno : errno ≠ enodev := fun heq => hsafe (by rw [hhandle]; rfl) (by rw [heq])
        exact ⟨[], by simp only [if_neg herrno]⟩

/-- A device that is gone is taken out of the table, for which the lock is needed. -/
theorem readFd_gone (h : s.Ready) (hlocked : s.locked = true) (hfd : ¬ fd < 0)
    (hhandle : (s.handleOf fd).isSome = true) : readFd fd (.error enodev) s = .error .blocked := by
  obtain ⟨handle, hhandle⟩ := Option.isSome_iff_exists.mp hhandle
  obtain ⟨entry, hfound, hhandle⟩ := Option.bind_eq_some_iff.mp hhandle
  have hsize := (h.sockets entry (List.mem_of_find?_eq_some hfound)).2
  have hblocked : disablePollFd fd s = .error .blocked := by
    simp only [disablePollFd, if_neg hfd, pollDescriptorsLock, hlocked, if_true]
    rfl
  simp only [readFd, hfound, alsaRead, if_neg hsize, hhandle, hblocked, if_true]
  rfl

/-- Every other read changes no more than the parser of the socket. -/
theorem readFd_goes (h : s.Ready)
    (hsafe : (s.handleOf fd).isSome = true → read ≠ .error enodev) :
    ∃ t effects, readFd fd read s = .ok (t, effects) ∧ t.locked = s.locked ∧
      t.descriptors = s.descriptors ∧ s.Keeps t ∧ t.Ready := by
  cases hfound : s.sockets.find? fun entry => entry.1 = fd with
  | none => exact ⟨s, [], by simp only [readFd, hfound], rfl, rfl, Keeps.refl s, h⟩
  | some entry =>
    have hhandle : s.handleOf fd = entry.2.handle := by rw [handleOf, hfound, Option.bind_some]
    obtain ⟨hvalid, hsize⟩ := h.sockets entry (List.mem_of_find?_eq_some hfound)
    have hgoes : entry.2.handle.isSome = true → read ≠ .error enodev := hhandle ▸ hsafe
    obtain ⟨received, hread⟩ : ∃ received, alsaRead fd entry.2 read s = .ok (s, received) :=
      alsaRead_goes hgoes
    obtain ⟨t, effects, hinput⟩ := readInput_ok hvalid received
    obtain ⟨ht, hkept⟩ := readInput_kept hvalid hinput
    refine ⟨{ s with sockets := setSocket fd t s.sockets }, effects, ?_, rfl, rfl,
      ⟨rfl, rfl, rfl, rfl, setSocket_find hfound (by rw [hkept])⟩, h.table, h.fds, ?_⟩
    · simp only [readFd, hfound, hread, hinput, bind, Except.bind, pure, Except.pure]
    · intro other hother
      rcases setSocket_mem hother with hold | rfl
      · exact h.sockets other hold
      · exact ⟨ht, by rw [hkept]; exact hsize⟩

end Read

section Round
variable {s t : AlsaListener} {moment : PollMoment}

theorem polled_eq (moment : PollMoment) (s : AlsaListener) :
    polled moment s.descriptors =
      s.cleared.mapIdx fun i d => { d with revents := moment.revents i } := rfl

theorem polled_cleared (moment : PollMoment) (s : AlsaListener) :
    ({ s with descriptors := polled moment s.descriptors } : AlsaListener).cleared = s.cleared := by
  refine List.ext_getElem? fun i => ?_
  simp only [cleared, polled, List.getElem?_map, List.getElem?_mapIdx, Option.map_map]
  cases s.descriptors[i]? <;> rfl

/-- The same descriptor stands at an index, but for its events. -/
theorem Keeps.descriptor (h : s.Keeps t) {i : ℕ} {d : PollDescriptor}
    (hd : t.descriptors[i]? = some d) : ∃ d', s.descriptors[i]? = some d' ∧ d'.fd = d.fd := by
  have hcleared := congrArg (fun descriptors => descriptors[i]?) h.cleared
  simp only [AlsaListener.cleared, List.getElem?_map, hd, Option.map_some] at hcleared
  obtain ⟨d', hd', heq⟩ := Option.map_eq_some_iff.mp hcleared.symm
  exact ⟨d', hd', (PollDescriptor.mk.inj heq).1⟩

theorem Keeps.symm (h : s.Keeps t) : t.Keeps s :=
  ⟨h.table.symm, h.inAvailable.symm, h.shutdownFd.symm, h.cleared.symm,
    fun fd => (h.handles fd).symm⟩

theorem Keeps.goneAt (h : s.Keeps t) {i : ℕ} (hgone : t.GoneAt moment i) : s.GoneAt moment i := by
  obtain ⟨d, hd, hready, hhandle, hread⟩ := hgone
  obtain ⟨d', hd', hfd⟩ := h.descriptor hd
  exact ⟨d', hd', hready, by rw [hfd, ← h.handles]; exact hhandle, hread⟩

theorem Keeps.readsDevices_iff (h : s.Keeps t) : t.ReadsDevices moment ↔ s.ReadsDevices moment := by
  rw [ReadsDevices, ReadsDevices, h.inAvailable, h.shutdownFd, polled_eq, polled_eq, h.cleared]

theorem Keeps.readsGoneDevice_iff (h : s.Keeps t) :
    t.ReadsGoneDevice moment ↔ s.ReadsGoneDevice moment :=
  and_congr h.readsDevices_iff
    ⟨fun ⟨i, hi⟩ => ⟨i, h.goneAt hi⟩, fun ⟨i, hi⟩ => ⟨i, h.symm.goneAt hi⟩⟩

/-- The listener within the loop over the descriptors, which began in the first state. -/
structure Looping (s t : AlsaListener) : Prop where
  locked : t.locked = true
  descriptors : t.descriptors = s.descriptors
  keeps : s.Keeps t
  ready : t.Ready

theorem readDescriptor_goes
    (hevents : ∀ i d, s.descriptors[i]? = some d → d.revents = moment.revents i)
    (h : Looping s t) {i : ℕ} (hgone : ¬ s.GoneAt moment i) :
    ∃ u effects, readDescriptor moment t i = .ok (u, effects) ∧ Looping s u := by
  unfold readDescriptor
  rw [h.descriptors]
  cases hd : s.descriptors[i]? with
  | none => exact ⟨t, [], rfl, h⟩
  | some d =>
    by_cases hready : d.revents &&& pollIn ≠ 0
    · have hsafe : (t.handleOf d.fd).isSome = true → moment.reads i ≠ .error enodev := by
        intro hhandle hread
        refine hgone ⟨d, hd, ?_, by rw [← h.keeps.handles]; exact hhandle, hread⟩
        rw [← hevents i d hd]
        exact hready
      obtain ⟨u, effects, hread, hlocked, hdescriptors, hkeeps, hnext⟩ :=
        readFd_goes h.ready hsafe
      exact ⟨u, effects, by simp only [if_pos hready, hread], hlocked.trans h.locked,
        hdescriptors.trans h.descriptors, h.keeps.trans hkeeps, hnext⟩
    · exact ⟨t, [], by simp only [if_neg hready], h⟩

theorem readDescriptor_blocks
    (hevents : ∀ i d, s.descriptors[i]? = some d → d.revents = moment.revents i)
    (h : Looping s t) {i : ℕ} (hgone : s.GoneAt moment i) :
    readDescriptor moment t i = .error .blocked := by
  obtain ⟨d, hd, hready, hhandle, hread⟩ := hgone
  have hmem : d ∈ t.descriptors := by
    rw [h.descriptors]
    exact List.mem_of_getElem? hd
  rw [← hevents i d hd] at hready
  simp only [readDescriptor, h.descriptors, hd, if_pos hready, hread]
  exact readFd_gone h.ready h.locked (h.ready.fds d hmem) (by rw [h.keeps.handles]; exact hhandle)

/-- The listener between two rounds. -/
structure Between (s t : AlsaListener) : Prop where
  unlocked : t.locked = false
  keeps : s.Keeps t
  ready : t.Ready

theorem polled_ready (h : s.Ready) :
    ({ s with descriptors := polled moment s.descriptors } : AlsaListener).Ready := by
  refine ⟨fun hne => h.table ?_, ?_, h.sockets⟩
  · rintro hempty
    exact hne (by simp [polled, hempty])
  · intro d hd
    obtain ⟨i, hi⟩ := List.mem_iff_getElem?.mp hd
    simp only [polled, List.getElem?_mapIdx, List.getElem?_map, Option.map_map,
      Option.map_eq_some_iff] at hi
    obtain ⟨d', hd', rfl⟩ := hi
    exact h.fds d' (List.mem_of_getElem? hd')

/-- The poll gives 1 exactly if the devices are to be read, and the events are then set. -/
theorem alsaPoll_spec (h : s.Ready) (hlocked : s.locked = false) (moment : PollMoment) :
    ∃ t result, alsaPoll moment s = .ok (t, result) ∧ Between s t ∧
      (result = 1 ↔ s.ReadsDevices moment) ∧
      (result = 1 → t.descriptors = polled moment s.descriptors) := by
  have hstart : Between s s := ⟨hlocked, Keeps.refl s, h⟩
  by_cases htable : s.table = 0
  · have hempty : s.descriptors = [] := not_not.mp fun hne => h.table hne htable
    refine ⟨s, 0, by simp only [alsaPoll, if_pos htable]; rfl, hstart, ?_, by simp⟩
    simp [ReadsDevices, hempty, polled, pollResult]
  by_cases havailable : s.inAvailable = true
  · have hpolled : Between s { s with descriptors := polled moment s.descriptors } :=
      ⟨hlocked, ⟨rfl, rfl, rfl, polled_cleared moment s, fun _ => rfl⟩, polled_ready h⟩
    by_cases herr : 0 < moment.err
    · refine ⟨_, pollResult s.shutdownFd (polled moment s.descriptors), ?_, hpolled, ?_,
        fun _ => rfl⟩
      · simp only [alsaPoll, if_neg htable, havailable, not_true, if_false, pollDescriptorsLock,
          pollDescriptorsUnlock, hlocked, if_pos herr, bind, Except.bind, pure, Except.pure]
        rfl
      · simp [ReadsDevices, havailable, herr]
    · refine ⟨_, 0, ?_, hpolled, by simp [ReadsDevices, herr], by simp⟩
      simp only [alsaPoll, if_neg htable, havailable, not_true, if_false, pollDescriptorsLock,
        pollDescriptorsUnlock, hlocked, if_neg herr, bind, Except.bind, pure, Except.pure]
      rfl
  · refine ⟨s, 0, ?_, hstart, by simp [ReadsDevices, havailable], by simp⟩
    simp only [alsaPoll, if_neg htable, if_pos havailable]
    rfl

/-- The loop over the descriptors, from the state that it begins in. -/
theorem loop_run (h : s.Ready) (hlocked : s.locked = true)
    (hevents : ∀ i d, s.descriptors[i]? = some d → d.revents = moment.revents i) :
    (¬ (∃ i, s.GoneAt moment i) → ∃ t effects, run (readDescriptor moment) s
      (List.range s.descriptors.length) = .ok (t, effects) ∧ Looping s t) ∧
    ((∃ i, s.GoneAt moment i) → run (readDescriptor moment) s
      (List.range s.descriptors.length) = .error .blocked) := by
  have hstart : Looping s s := ⟨hlocked, rfl, Keeps.refl s, h⟩
  have hgoes : ∀ t i, Looping s t → ¬ s.GoneAt moment i →
      ∃ u effects, readDescriptor moment t i = .ok (u, effects) ∧ Looping s u :=
    fun t i ht hi => readDescriptor_goes hevents ht hi
  have hblocks : ∀ t i, Looping s t → s.GoneAt moment i →
      readDescriptor moment t i = .error .blocked :=
    fun t i ht hi => readDescriptor_blocks hevents ht hi
  constructor
  · intro hnone
    exact run_goes hgoes hstart fun i _ hi => hnone ⟨i, hi⟩
  · rintro ⟨i, hi⟩
    obtain ⟨d, hd, -⟩ := id hi
    obtain ⟨hlt, -⟩ := List.getElem?_eq_some_iff.mp hd
    exact run_stops hgoes hblocks hstart ⟨i, List.mem_range.mpr hlt, hi⟩

/-- What one round does. -/
theorem round_spec (h : s.Ready) (hlocked : s.locked = false) (moment : PollMoment) :
    (¬ s.ReadsGoneDevice moment → ∃ t effects, listenerRound s moment = .ok (t, effects) ∧
      Between s t) ∧
    (s.ReadsGoneDevice moment → listenerRound s moment = .error .blocked) := by
  obtain ⟨t, result, hpoll, ht, hresult, hpolled⟩ := alsaPoll_spec h hlocked moment
  by_cases hreads : s.ReadsDevices moment
  · have hone : result = 1 := hresult.mpr hreads
    have hevents : ∀ i d, t.descriptors[i]? = some d → d.revents = moment.revents i := by
      intro i d hd
      simp only [hpolled hone, polled, List.getElem?_mapIdx, Option.map_eq_some_iff] at hd
      obtain ⟨d', -, rfl⟩ := hd
      rfl
    have hround : listenerRound s moment = do
        let (u, effects) ← run (readDescriptor moment) { t with locked := true }
          (List.range t.descriptors.length)
        return (pollDescriptorsUnlock u, effects) := by
      simp only [listenerRound, hpoll, pollDescriptorsLock, pollDescriptorsUnlock, ht.unlocked,
        hone, bind, Except.bind, pure, Except.pure]
      rfl
    have hgone : (∃ i, ({ t with locked := true } : AlsaListener).GoneAt moment i) ↔
        s.ReadsGoneDevice moment := by
      rw [← ht.keeps.readsGoneDevice_iff, ReadsGoneDevice, ht.keeps.readsDevices_iff]
      exact (and_iff_right hreads).symm
    obtain ⟨hgoes, hblocks⟩ := loop_run (s := { t with locked := true })
      ⟨ht.ready.table, ht.ready.fds, ht.ready.sockets⟩ rfl hevents
    rw [hgone] at hgoes hblocks
    refine ⟨fun hsafe => ?_, fun hunsafe => ?_⟩
    · obtain ⟨u, effects, hrun, hu⟩ := hgoes hsafe
      refine ⟨pollDescriptorsUnlock u, effects, by rw [hround, hrun]; rfl, rfl, ?_,
        hu.ready.table, hu.ready.fds, hu.ready.sockets⟩
      have hkeeps := hu.keeps
      exact ht.keeps.trans ⟨hkeeps.table, hkeeps.inAvailable, hkeeps.shutdownFd, hkeeps.cleared,
        hkeeps.handles⟩
    · rw [hround, hblocks hunsafe]
      rfl
  · have hzero : ¬ result = 1 := fun hone => hreads (hresult.mp hone)
    refine ⟨fun _ => ⟨t, [], ?_, ht⟩, fun hgone => absurd hgone.1 hreads⟩
    have hunlocked := ht.unlocked
    cases t
    subst hunlocked
    simp only [listenerRound, hpoll, pollDescriptorsLock, pollDescriptorsUnlock, if_neg hzero,
      bind, Except.bind, pure, Except.pure]
    rfl

theorem Between.round_goes (h : Between s t) (hgone : ¬ s.ReadsGoneDevice moment) :
    ∃ u effects, listenerRound t moment = .ok (u, effects) ∧ Between s u := by
  rw [← h.keeps.readsGoneDevice_iff] at hgone
  obtain ⟨u, effects, hround, hu⟩ := (round_spec h.ready h.unlocked moment).1 hgone
  exact ⟨u, effects, hround, hu.unlocked, h.keeps.trans hu.keeps, hu.ready⟩

theorem Between.round_blocks (h : Between s t) (hgone : s.ReadsGoneDevice moment) :
    listenerRound t moment = .error .blocked :=
  (round_spec h.ready h.unlocked moment).2 (h.keeps.readsGoneDevice_iff.mpr hgone)

theorem neverBlocks_iff (h : s.Ready) (hlocked : s.locked = false) (rounds : List PollMoment) :
    NeverBlocks s rounds ↔ ∀ moment ∈ rounds, ¬ s.ReadsGoneDevice moment := by
  have hstart : Between s s := ⟨hlocked, Keeps.refl s, h⟩
  have hgoes : ∀ t moment, Between s t → ¬ s.ReadsGoneDevice moment →
      ∃ u effects, listenerRound t moment = .ok (u, effects) ∧ Between s u :=
    fun t moment ht hm => ht.round_goes hm
  constructor
  · intro hnever moment hmoment hgone
    exact hnever.unblocked (run_stops hgoes (fun t m ht hm => ht.round_blocks hm) hstart
      ⟨moment, hmoment, hgone⟩)
  · intro hsafe
    have hrun : ∀ before : List PollMoment, before <+: rounds →
        ∃ t effects, run listenerRound s before = .ok (t, effects) ∧ Between s t :=
      fun before hbefore => run_goes hgoes hstart fun m hm => hsafe m (hbefore.subset hm)
    constructor
    · obtain ⟨t, effects, hall, -⟩ := hrun rounds (List.prefix_refl rounds)
      rw [hall]
      simp
    · rintro t ⟨before, out, hbefore, hreached⟩
      obtain ⟨u, effects, hall, hu⟩ := hrun before hbefore
      cases hall.symm.trans hreached
      exact hu.keeps.table

end Round

section Start
variable {config : SocketConfig} {alsa : AlsaConfig}

theorem addPollFd_eq {s : AlsaListener} (hlocked : s.locked = false) (handle : Option SndRawmidi)
    {fd : Int32} (hfd : ¬ fd < 0) :
    addPollFd config alsa handle fd s = .ok
      { s with
        locked := false
        table := s.allocated + 1
        allocated := s.allocated + 1
        descriptors := s.descriptors ++ [⟨fd, pollEvents, 0⟩]
        sockets := s.sockets ++ (netSocketCreateItem config).toList.map fun socket =>
          (fd, raveloxmidiAlsaAddPollFd alsa handle socket) } := by
  simp only [addPollFd, if_neg hfd, pollDescriptorsLock, hlocked]
  rfl

theorem addPollFd_ok {s : AlsaListener} (h : s.Ready) (hlocked : s.locked = false)
    (handle : Option SndRawmidi) (fd : Int32) :
    ∃ t, addPollFd config alsa handle fd s = .ok t ∧ t.Ready ∧ t.locked = false := by
  by_cases hfd : fd < 0
  · exact ⟨s, by simp only [addPollFd, if_pos hfd]; rfl, h, hlocked⟩
  refine ⟨_, addPollFd_eq hlocked handle hfd, ⟨fun _ => Nat.succ_ne_zero s.allocated, ?_, ?_⟩, rfl⟩
  · intro d hd
    rcases List.mem_append.mp hd with hold | hnew
    · exact h.fds d hold
    · rw [List.mem_singleton.mp hnew]
      exact hfd
  · intro entry hentry
    rcases List.mem_append.mp hentry with hold | hnew
    · exact h.sockets entry hold
    · obtain ⟨socket, hsocket, rfl⟩ := List.mem_map.mp hnew
      rw [Option.mem_toList] at hsocket
      obtain ⟨size, -, hrep, -⟩ := createItem_spec hsocket
      have hsize : socket.packetSize ≠ 0 := createItem_packetSize hsocket
      exact ⟨⟨_, [], size, hrep⟩, hsize⟩

theorem add_ok {s : AlsaListener} (h : s.Ready) (hlocked : s.locked = false)
    (added : List (Option SndRawmidi × Int32)) :
    ∃ t, added.foldlM (fun s entry => addPollFd config alsa entry.1 entry.2 s) s = .ok t ∧
      t.Ready ∧ t.locked = false := by
  induction added generalizing s with
  | nil => exact ⟨s, rfl, h, hlocked⟩
  | cons entry added ih =>
    obtain ⟨t, hadd, ht, hunlocked⟩ := addPollFd_ok h hlocked entry.1 entry.2
    obtain ⟨u, hrest, hu⟩ := ih ht hunlocked
    refine ⟨u, ?_, hu⟩
    rw [List.foldlM_cons, hadd]
    exact hrest

/-- The thread can always begin, and finds everything in order. -/
theorem start_ok (config : SocketConfig) (alsa : AlsaConfig)
    (inputs : List (SndRawmidi × List Int32)) (shutdownFd : Int32) :
    ∃ s, listenerStart config alsa inputs shutdownFd = .ok s ∧ s.Ready ∧ s.locked = false := by
  have hempty : (listenerEmpty (!inputs.isEmpty) shutdownFd).Ready :=
    ⟨fun hne => absurd rfl hne, by simp [listenerEmpty], by simp [listenerEmpty]⟩
  exact add_ok hempty rfl (addedFds inputs shutdownFd)

end Start

/-- From its start on the thread never asks for the lock that it holds exactly if no
device is gone when it is read. -/
theorem never_blocks_iff {config : SocketConfig} {alsa : AlsaConfig}
    {inputs : List (SndRawmidi × List Int32)} {shutdownFd : Int32} {s : AlsaListener}
    (hstart : listenerStart config alsa inputs shutdownFd = .ok s) (rounds : List PollMoment) :
    NeverBlocks s rounds ↔ ∀ moment ∈ rounds, ¬ s.ReadsGoneDevice moment := by
  obtain ⟨t, ht, hready, hlocked⟩ := start_ok config alsa inputs shutdownFd
  cases ht.symm.trans hstart
  exact neverBlocks_iff hready hlocked rounds

/-- A round in which the first descriptor alone is ready. -/
def firstReady (read : RawRead) : PollMoment :=
  ⟨1, fun i => if i = 0 then pollIn else 0, fun _ => read⟩

theorem never_blocks_iff_data : ∃ s,
    listenerStart ⟨4096, 0⟩ ⟨false, none⟩ [(⟨1, 0⟩, [5])] 7 = .ok s ∧
    (NeverBlocks s [firstReady (.data [0x90, 0x3c, 0x40])] ↔
      ∀ moment ∈ [firstReady (.data [0x90, 0x3c, 0x40])], ¬ s.ReadsGoneDevice moment) := by
  obtain ⟨s, hstart, -⟩ := start_ok ⟨4096, 0⟩ ⟨false, none⟩ [(⟨1, 0⟩, [5])] 7
  exact ⟨s, hstart, never_blocks_iff hstart _⟩

/-- One device is polled besides the shutdown pipe; it is unplugged, and the listener waits
for its own lock. -/
theorem unplugged_device_blocks : ∃ s,
    listenerStart ⟨4096, 0⟩ ⟨false, none⟩ [(⟨1, 0⟩, [5])] 7 = .ok s ∧
    run listenerRound s [firstReady (.error enodev)] = .error .blocked ∧
    ¬ NeverBlocks s [firstReady (.error enodev)] := by
  obtain ⟨s, hstart, hready, hlocked⟩ := start_ok ⟨4096, 0⟩ ⟨false, none⟩ [(⟨1, 0⟩, [5])] 7
  obtain ⟨socket, hsocket, -⟩ := createItem_default 4096
  have hgone : s.ReadsGoneDevice (firstReady (.error enodev)) := by
    have hstarted : listenerStart ⟨4096, 0⟩ ⟨false, none⟩ [(⟨1, 0⟩, [5])] 7 =
        .ok { listenerEmpty true 7 with
          table := 2
          allocated := 2
          descriptors := [⟨5, pollEvents, 0⟩, ⟨7, pollEvents, 0⟩]
          sockets := [(5, raveloxmidiAlsaAddPollFd ⟨false, none⟩ (some ⟨1, 0⟩) socket),
            (7, raveloxmidiAlsaAddPollFd ⟨false, none⟩ none socket)] } := by
      simp only [listenerStart, addedFds, addPollFd, hsocket]
      rfl
    cases hstarted.symm.trans hstart
    have hpolled : pollResult 7 (polled (firstReady (.error enodev))
        [⟨5, pollEvents, 0⟩, ⟨7, pollEvents, 0⟩]) = 1 := by decide
    exact ⟨⟨rfl, by decide, hpolled⟩, 0, _, rfl, by decide, rfl, rfl⟩
  have hblocks : run listenerRound s [firstReady (.error enodev)] = .error .blocked := by
    simp only [run, (round_spec hready hlocked _).2 hgone]
  exact ⟨s, hstart, hblocks, fun hnever => hnever.unblocked hblocks⟩

end AlsaListener

end RaveloxMidi
