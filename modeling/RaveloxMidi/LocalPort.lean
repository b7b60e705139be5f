import RaveloxMidi.SocketRead

/-!
# The commands of the local port

The reader recognises a command at the head of the ring and leaves exactly four
octets behind, however many came with it. What the others are is found out when
the next datagram arrives: they are in front of it.
-/
namespace RaveloxMidi
open ByteMemory Transducer

/-- One datagram on the local port, and the listing that would be sent for it. -/
abbrev LocalRead := Option (List UInt8) × List UInt8

def localRead (socket : RaveloxmidiSocket) (read : LocalRead) :
    Except Fault (RaveloxmidiSocket × List SocketEffect) :=
  netSocketReadLocal read.1 socket read.2

/-- A read that does for a datagram what the datagram asks for. -/
structure Separate (socket : RaveloxmidiSocket) (read : LocalRead) (t : RaveloxmidiSocket)
    (effects : List SocketEffect) : Prop where
  acted : ∀ command, localCommand? read.2 = some command → effects = command.effects read.1
  emptied : t.state.ring.queue = []
  own : ∀ p queue size, socket.state.Represents p queue size →
    effects = (localQueue read.1 socket.deviceHash (p, read.2.take netApplemidiUdpSize)).2 ∧
      socket.Becomes t
        (localQueue read.1 socket.deviceHash (p, read.2.take netApplemidiUdpSize)).1 size

/-- Each datagram that begins with a command is acted on, none leaves an octet behind,
and each is told from its own octets and the parser alone. -/
def ReadSeparately (socket : RaveloxmidiSocket) (read : LocalRead) : Prop :=
  ∀ t effects, localRead socket read = .ok (t, effects) → Separate socket read t effects

/-- A datagram that begins with a command is nothing but the command. -/
def BareCommand (read : LocalRead) : Prop :=
  ∀ command, localCommand? read.2 = some command → read.2.length = 4

theorem localCommand_some {bytes : List UInt8} {command : LocalCommand}
    (h : localCommand? bytes = some command) : command.text <+: bytes :=
  List.isPrefixOf_iff_prefix.mp (by simpa using List.find?_some h)

/-- What the socket reads of a long datagram begins like the datagram. -/
theorem localCommand_take (bytes : List UInt8) :
    localCommand? (bytes.take netApplemidiUdpSize) = localCommand? bytes := by
  have hsame : ∀ command : LocalCommand, command.text.isPrefixOf (bytes.take netApplemidiUdpSize) =
      command.text.isPrefixOf bytes := by
    intro command
    have hlength : command.text.length = 4 := by cases command <;> rfl
    rw [Bool.eq_iff_iff, List.isPrefixOf_iff_prefix, List.isPrefixOf_iff_prefix,
      List.prefix_take_iff, hlength]
    exact and_iff_left (by decide)
  simp only [localCommand?, hsame]

section Read
variable {socket : RaveloxmidiSocket} {p : Parser} {size : ℕ}

/-- A read of an idle socket, whatever arrives. -/
theorem idle_read (hsize : netSocketDefaultRingBuffer ≤ size)
    (h : socket.state.Represents p [] size) (read : LocalRead) :
    ∃ t, localRead socket read = .ok (t, (localQueue read.1 socket.deviceHash
        (p, read.2.take netApplemidiUdpSize)).2) ∧
      socket.Becomes t (localQueue read.1 socket.deviceHash
        (p, read.2.take netApplemidiUdpSize)).1 size := by
  by_cases hempty : read.2 = []
  · refine ⟨socket, ?_, ?_, rfl⟩
    · simp [localRead, netSocketReadLocal, hempty, localQueue, localCommand?, LocalCommand.text,
        statText, quitText, listText, parseQueue, Parser.send, pure, Except.pure]
    · simpa [hempty, localQueue, localCommand?, LocalCommand.text, statText, quitText, listText,
        parseQueue, Parser.send, Parser.endOfBuffer] using h
  · obtain ⟨t, hread, ht⟩ := readLocal_becomes read.1 h hempty
    have hfits : arriving size [] (read.2.take netApplemidiUdpSize) =
        read.2.take netApplemidiUdpSize := by
      have hroom : ([] : List UInt8).length + (read.2.take netApplemidiUdpSize).length ≤ size := by
        simp only [List.length_nil, List.length_take, netApplemidiUdpSize]
        unfold netSocketDefaultRingBuffer at hsize
        omega
      rw [arriving, if_pos hroom, List.nil_append]
    rw [hfits] at hread ht
    exact ⟨t, hread, ht⟩

/-- After a bare command, or without one, nothing is left. -/
theorem bare_leaves_nothing {read : LocalRead} (hbare : BareCommand read) :
    (localQueue read.1 socket.deviceHash (p, read.2.take netApplemidiUdpSize)).1.2 = [] := by
  unfold localQueue
  rw [localCommand_take]
  cases hcommand : localCommand? read.2 with
  | none => rfl
  | some command =>
    have hlength := hbare command hcommand
    simp only
    exact List.drop_eq_nil_of_le (by rw [List.length_take]; omega)

/-- Octets behind a command are left in the ring. -/
theorem bare_of_nothing_left {read : LocalRead}
    (h : (localQueue read.1 socket.deviceHash (p, read.2.take netApplemidiUdpSize)).1.2 = []) :
    BareCommand read := by
  intro command hcommand
  have hprefix := (localCommand_some hcommand).length_le
  have htext : command.text.length = 4 := by cases command <;> rfl
  unfold localQueue at h
  rw [localCommand_take, hcommand] at h
  have hleft := List.drop_eq_nil_iff.mp h
  rw [List.length_take, netApplemidiUdpSize] at hleft
  omega

/-- On an idle socket a datagram is read separately exactly if it is bare, and the
socket is idle again. -/
theorem idle_separate_iff (h : socket.state.Idle) (read : LocalRead) :
    (ReadSeparately socket read ↔ BareCommand read) ∧
      ∃ t effects, localRead socket read = .ok (t, effects) ∧
        (BareCommand read → t.state.Idle) := by
  obtain ⟨p, size, hsize, hrep⟩ := h
  obtain ⟨t, hread, ht⟩ := idle_read hsize hrep read
  refine ⟨⟨fun hseparate => ?_, fun hbare => ?_⟩, t, _, hread, fun hbare => ?_⟩
  · have hemptied := (hseparate t _ hread).emptied
    rw [ht.represents.queue_eq] at hemptied
    exact bare_of_nothing_left hemptied
  · intro u effects hok
    cases hread.symm.trans hok
    constructor
    · intro command hcommand
      simp only [localQueue, localCommand_take, hcommand]
    · rw [ht.represents.queue_eq]
      exact bare_leaves_nothing hbare
    · intro p' queue' size' hrep'
      obtain ⟨rfl, rfl, rfl⟩ := hrep.unique hrep'
      exact ⟨rfl, ht⟩
  · have hrepresents := ht.represents
    rw [bare_leaves_nothing hbare] at hrepresents
    exact ⟨_, size, hsize, hrepresents⟩

end Read

/-- In a run on the local port of a new socket each datagram is read separately if and
only if those that begin with a command are nothing but the command. -/
theorem datagrams_separate_iff {config : SocketConfig} {socket : RaveloxmidiSocket}
    (h : netSocketCreateItem config = some socket) (reads : List LocalRead) :
    Along localRead ReadSeparately socket reads ↔ ∀ read ∈ reads, BareCommand read := by
  obtain ⟨size, hsize, hrep, -, -⟩ := createItem_spec h
  have hidle : socket.state.Idle := ⟨_, size, hsize, hrep⟩
  clear hrep h
  induction reads generalizing socket with
  | nil => simp [Along]
  | cons read reads ih =>
    obtain ⟨hseparate, t, effects, hread, hnext⟩ := idle_separate_iff hidle read
    rw [List.forall_mem_cons, Along, hseparate]
    refine and_congr_right fun hbare => ?_
    constructor
    · intro hrest
      exact (ih (hnext hbare)).mp (hrest t effects hread)
    · intro hrest u now hok
      cases hread.symm.trans hok
      exact (ih (hnext hbare)).mpr hrest

theorem datagrams_separate_iff_stat :
    ∃ socket, netSocketCreateItem ⟨4096, 0⟩ = some socket ∧
      (Along localRead ReadSeparately socket [(none, statText), (none, [0xf8])] ↔
        ∀ read ∈ [(none, statText), (none, [0xf8])], BareCommand read) := by
  obtain ⟨socket, hsocket, -⟩ := createItem_default 4096
  exact ⟨socket, hsocket, datagrams_separate_iff hsocket _⟩

/-- A heartbeat with a newline is answered, the one behind it is not. -/
theorem newline_hides_heartbeat :
    ∃ socket t u, netSocketCreateItem ⟨4096, 0⟩ = some socket ∧
      localRead socket (none, statText ++ [0x0a]) = .ok (t, [.net (.reply statReply)]) ∧
      t.state.ring.queue = [0x0a] ∧
      localRead t (none, statText) = .ok (u, []) := by
  obtain ⟨socket, hsocket, -, hrep⟩ := createItem_default 4096
  have hfirstQueue : localQueue none socket.deviceHash (⟨.init, 0, [], 0, false⟩,
      arriving netSocketDefaultRingBuffer [] ((statText ++ [0x0a]).take netApplemidiUdpSize)) =
      ((⟨.init, 0, [], 0, false⟩, [0x0a]), [.net (.reply statReply)]) := rfl
  have hsecondQueue : (localQueue none socket.deviceHash (⟨.init, 0, [], 0, false⟩,
      arriving netSocketDefaultRingBuffer [0x0a] (statText.take netApplemidiUdpSize))).2 = [] := rfl
  obtain ⟨t, hfirst, ht⟩ := readLocal_becomes none hrep
    (show statText ++ [0x0a] ≠ [] by decide)
  rw [hfirstQueue] at hfirst ht
  have hkept : t.deviceHash = socket.deviceHash := by rw [ht.kept]
  obtain ⟨u, hsecond, -⟩ := readLocal_becomes none ht.represents (show statText ≠ [] by decide)
  rw [hkept, hsecondQueue] at hsecond
  exact ⟨socket, t, u, hsocket, hfirst, ht.represents.queue_eq, hsecond⟩

end RaveloxMidi
