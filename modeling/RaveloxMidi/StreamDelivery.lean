import RaveloxMidi.LocalPort
import RaveloxMidi.MidiSimple
import RaveloxMidi.SessionLink

/-!
# A stream of messages, from the local port to the peer

An application writes MIDI octets to the local port, cut into datagrams where it likes, as
long as none of them is taken for a command. The parser of the local port keeps its place
between two datagrams, so what is queued, and sent, and queued again by the peer, is the
stream message by message.
-/
namespace RaveloxMidi
open ByteMemory Transducer SlotTable

/-- What a move writes to the local port. -/
def LinkMove.written : LinkMove → List UInt8
  | read (.localPort _ packet) => packet
  | _ => []

/-- The octets that the moves write to the local port. -/
def writtenOctets (moves : List LinkMove) : List UInt8 := moves.flatMap LinkMove.written

/-- A datagram of the stream fits into the buffer and is not one of the three commands; no other
read makes the sender queue anything. -/
def StreamUndisturbed (e : LinkEnds) (s : Link) : LinkMove → Prop
  | .read (.localPort _ packet) =>
    packet.length ≤ netApplemidiUdpSize ∧ localCommand? packet = none
  | .read read => read.Apart e s.sender ∧ ∀ t effects,
    socketRead e.host s.sender read = .ok (t, effects) →
      effects.filterMap SocketEffect.queued = []
  | move => LinkUndisturbed e s move

/-- The commands that some octets of a stream complete. -/
def completed (stream : List MarkedOctet) : List (UInt8 × List UInt8) := stream.filterMap Prod.snd

theorem completed_take (n : ℕ) (stream : List MarkedOctet) :
    completed (stream.take n) <+: completed stream :=
  (List.take_prefix n stream).filterMap _

/-- Each command of a stream is a short one. -/
def StreamShort (stream : List MarkedOctet) : Prop :=
  ∀ content ∈ completed stream, ShortCommand ⟨0, content.1, content.2⟩

/-- The rest of the stream, as the local port of the sender will parse it. -/
structure Streaming (s : SocketState) (stream : List MarkedOctet) : Prop where
  port : ∃ p size, netSocketDefaultRingBuffer ≤ size ∧
    s.localSocket.state.Represents p [] size ∧ p.EmitsMarked stream
  short : StreamShort stream

/-- One datagram of the stream. -/
theorem localPort_streams {e : LinkEnds} {s : SocketState} {stream : List MarkedOctet}
    (h : Streaming s stream) {listing : Option (List UInt8)} {packet : List UInt8}
    (hfits : packet.length ≤ netApplemidiUdpSize) (hplain : localCommand? packet = none)
    (hnext : packet <+: stream.map Prod.fst) :
    ∃ (t : SocketState) (commands : List MidiCommand),
      socketRead e.host s (.localPort listing packet) = .ok (t,
        commands.map fun command => .queue command ⟨0, s.localSocket.deviceHash⟩) ∧
      commands.map MidiCommand.content = completed (stream.take packet.length) ∧
      Streaming t (stream.drop packet.length) := by
  obtain ⟨⟨p, size, hsize, hrep, hemits⟩, hshort⟩ := h
  have hpacket : (stream.take packet.length).map Prod.fst = packet := by
    rw [List.map_take]
    exact (List.prefix_iff_eq_take.mp hnext).symm
  rw [← List.take_append_drop packet.length stream, Parser.emitsMarked_append, hpacket] at hemits
  obtain ⟨hnow, hlater⟩ := hemits
  have hcontent := hnow.feed_eq
  rw [hpacket] at hcontent
  obtain ⟨socket, hread, hsocket⟩ := idle_read hsize hrep (listing, packet)
  have hqueue : localQueue listing s.localSocket.deviceHash
      (p, packet.take netApplemidiUdpSize) = ((p.after packet, []),
        (feed (Parser.step .simple) (p, false) packet).2.map fun command =>
          .queue command ⟨0, s.localSocket.deviceHash⟩) := by
    rw [List.take_of_length_le hfits, localQueue, hplain]
    rfl
  simp only [hqueue] at hread hsocket
  refine ⟨{ s with localSocket := socket }, (feed (Parser.step .simple) (p, false) packet).2, ?_,
    hcontent, ⟨_, size, hsize, hsocket.represents, hlater⟩, fun content hmem => ?_⟩
  · simp only [localRead] at hread
    simp only [socketRead, hread, bind, Except.bind, pure, Except.pure]
  · refine hshort content ?_
    rw [completed] at hmem ⊢
    rw [← List.take_append_drop packet.length stream, List.filterMap_append]
    exact List.mem_append_right _ hmem

/-- A read of another socket leaves the local port alone. -/
theorem other_streams {host : NetHost} {s t : SocketState} {stream : List MarkedOctet}
    (h : Streaming s stream) {read : SocketRead} (hother : (LinkMove.read read).written = [])
    {effects : List SocketEffect} (hok : socketRead host s read = .ok (t, effects)) :
    Streaming t stream := by
  obtain ⟨⟨p, size, hsize, hrep, hemits⟩, hshort⟩ := h
  refine ⟨⟨p, size, hsize, ?_, hemits⟩, hshort⟩
  cases socketRead_changes hok with
  | net => exact hrep
  | unknown => exact hrep
  | input => exact hrep
  | localPort hread =>
    simp only [LinkMove.written] at hother
    subst hother
    cases hread
    exact hrep

section Moves
variable {e : LinkEnds} {s : Link} {stream : List MarkedOctet}

/-- What a move that keeps to the stream does. -/
def Streams (e : LinkEnds) (s : Link) (stream : List MarkedOctet) (move : LinkMove) : Prop :=
  LinkUndisturbed e s move ∧ ∀ t now, linkStep e s move = .ok (t, now) →
    Streaming t.sender (stream.drop move.written.length) ∧
      (now.filterMap (LinkEvent.carried e.peerSsrc)).map MidiCommand.content =
        completed (stream.take move.written.length)

/-- What is queued on the local port comes from none of the peers. -/
theorem carried_local (hpeer : e.peerSsrc ≠ 0) (hash : Int32) (commands : List MidiCommand) :
    ((commands.map fun command => ((command, ⟨0, hash⟩) : MidiCommand × MidiSenderContext)).map
      fun item => LinkEvent.queued item.1 item.2).filterMap (LinkEvent.carried e.peerSsrc) =
        commands := by
  have hcarried : ∀ command : MidiCommand,
      LinkEvent.carried e.peerSsrc (.queued command ⟨0, hash⟩) = some command :=
    fun command => if_neg (Ne.symm hpeer)
  rw [List.map_map, List.filterMap_map]
  simp [Function.comp_def, hcarried]

theorem localPort_move (hpeer : e.peerSsrc ≠ 0) (h : Streaming s.sender stream)
    {listing : Option (List UInt8)} {packet : List UInt8}
    (hmove : StreamUndisturbed e s (.read (.localPort listing packet)))
    (hnext : packet <+: stream.map Prod.fst) :
    Streams e s stream (.read (.localPort listing packet)) := by
  obtain ⟨t, commands, hok, hcontent, ht⟩ :=
    localPort_streams h hmove.1 hmove.2 hnext
  have hitems : (commands.map fun command => SocketEffect.queue command
      ⟨0, s.sender.localSocket.deviceHash⟩).filterMap SocketEffect.queued =
      commands.map fun command => (command, ⟨0, s.sender.localSocket.deviceHash⟩) := by
    rw [List.filterMap_map]
    exact congrFun List.filterMap_eq_map commands
  refine ⟨⟨trivial, fun u effects hread item hitem => ?_⟩, fun u now hstep => ?_⟩
  · cases hok.symm.trans hread
    rw [hitems] at hitem
    obtain ⟨command, hcommand, rfl⟩ := List.mem_map.mp hitem
    have hmem : command.content ∈ completed (stream.take packet.length) := by
      rw [← hcontent]
      exact List.mem_map_of_mem hcommand
    exact ShortCommand.of_content (h.short command.content ((completed_take _ _).subset hmem)) rfl
  · simp only [linkStep, hok, hitems, bind, Except.bind, pure, Except.pure] at hstep
    cases hstep
    exact ⟨ht, by rw [carried_local hpeer, hcontent]; rfl⟩

/-- A read of another socket queues nothing. -/
theorem other_move (h : Streaming s.sender stream) {read : SocketRead}
    (hother : (LinkMove.read read).written = []) (hapart : read.Apart e s.sender)
    (hsilent : ∀ t effects, socketRead e.host s.sender read = .ok (t, effects) →
      effects.filterMap SocketEffect.queued = []) : Streams e s stream (.read read) := by
  refine ⟨⟨hapart, fun t effects hok item hitem => ?_⟩, fun t now hstep => ?_⟩
  · rw [hsilent t effects hok] at hitem
    cases hitem
  · obtain ⟨done, hok, hstep⟩ := bind_ok hstep
    have hnothing := hsilent done.1 done.2 hok
    simp only [hnothing, pure, Except.pure] at hstep
    cases hstep
    rw [hother]
    exact ⟨other_streams h hother hok, rfl⟩

theorem send_move (h : Streaming s.sender stream) (clock : ℕ → UInt64) :
    Streams e s stream (.send clock) := by
  refine ⟨trivial, fun t now hstep => ?_⟩
  simp only [linkStep] at hstep
  split at hstep
  · cases hstep
    exact ⟨h, rfl⟩
  · obtain ⟨sent, -, hstep⟩ := bind_ok hstep
    cases hstep
    exact ⟨⟨h.port, h.short⟩, rfl⟩

theorem arrive_move (h : Streaming s.sender stream) (n : ℕ) (moment : NetMoment) (d : Datagram) :
    Streams e s stream (.arrive n moment d) := by
  refine ⟨trivial, fun t now hstep => ?_⟩
  simp only [linkStep] at hstep
  split at hstep
  · cases hstep
    exact ⟨h, rfl⟩
  · obtain ⟨done, -, hstep⟩ := bind_ok hstep
    cases hstep
    exact ⟨h, rfl⟩

theorem peerRead_move (h : Streaming s.sender stream) {moment : NetMoment} {d : Datagram}
    (hmove : StreamUndisturbed e s (.peerRead moment d)) :
    Streams e s stream (.peerRead moment d) := by
  refine ⟨hmove, fun t now hstep => ?_⟩
  obtain ⟨done, -, hstep⟩ := bind_ok hstep
  cases hstep
  exact ⟨h, rfl⟩

/-- A move of a stream disturbs nothing, and queues the commands that its octets complete. -/
theorem move_streams (hpeer : e.peerSsrc ≠ 0) (h : Streaming s.sender stream) {move : LinkMove}
    (hmove : StreamUndisturbed e s move) (hnext : move.written <+: stream.map Prod.fst) :
    Streams e s stream move := by
  cases move with
  | read read =>
    cases read with
    | localPort listing packet => exact localPort_move hpeer h hmove hnext
    | net moment d => exact other_move h rfl hmove.1 hmove.2
    | input index packet => exact other_move h rfl hmove.1 hmove.2
  | send clock => exact send_move h clock
  | arrive n moment d => exact arrive_move h n moment d
  | peerRead moment d => exact peerRead_move h hmove

end Moves

theorem completed_take_drop (stream : List MarkedOctet) (m n : ℕ) :
    completed (stream.take m) ++ completed ((stream.drop m).take n) =
      completed (stream.take (m + n)) := by
  rw [completed, completed, completed, ← List.filterMap_append, ← List.take_add]

/-- The moves of a stream, by induction on the octets that are still to come. -/
theorem run_streams {e : LinkEnds} (hpeer : e.peerSsrc ≠ 0) {s : Link} {stream : List MarkedOctet}
    (h : Streaming s.sender stream) {moves : List LinkMove}
    (hmoves : Along (linkStep e) (StreamUndisturbed e) s moves)
    (hcut : writtenOctets moves <+: stream.map Prod.fst) :
    Along (linkStep e) (LinkUndisturbed e) s moves ∧
      ∀ t out, run (linkStep e) s moves = .ok (t, out) →
        (out.filterMap (LinkEvent.carried e.peerSsrc)).map MidiCommand.content =
          completed (stream.take (writtenOctets moves).length) := by
  induction moves generalizing s stream with
  | nil =>
    refine ⟨trivial, fun t out hrun => ?_⟩
    cases hrun
    rfl
  | cons move moves ih =>
    rw [writtenOctets, List.flatMap_cons] at hcut
    have hnext := (List.prefix_append _ _).trans hcut
    have hlater : writtenOctets moves <+: (stream.drop move.written.length).map Prod.fst := by
      obtain ⟨rest, hrest⟩ := hcut
      refine ⟨rest, ?_⟩
      rw [List.map_drop, ← hrest, List.append_assoc, List.drop_left]
      rfl
    obtain ⟨hundisturbed, hstep⟩ := move_streams hpeer h hmoves.1 hnext
    refine ⟨⟨hundisturbed, fun t now hnow => ?_⟩, fun u out hrun => ?_⟩
    · exact (ih (hstep t now hnow).1 (hmoves.2 t now hnow) hlater).1
    · obtain ⟨t, now, later, hnow, hthen, rfl⟩ := run_cons_inv hrun
      obtain ⟨ht, hqueued⟩ := hstep t now hnow
      have hrest := (ih ht (hmoves.2 t now hnow) hlater).2 u later hthen
      have hlength : (writtenOctets (move :: moves)).length =
          move.written.length + (writtenOctets moves).length := by
        rw [writtenOctets, List.flatMap_cons, List.length_append]
        rfl
      rw [List.filterMap_append, List.map_append, hqueued, hrest, completed_take_drop, hlength]

/-- Channel messages, of which some leave out their status. -/
def ChannelMessages (messages : List ListCommand) : Prop :=
  ListCommand.AllAllowed none messages ∧
    ∀ message ∈ messages, ∃ command running, message = .channel command running

theorem WithRealTime.completed_cases {octets stream : List MarkedOctet}
    (h : WithRealTime octets stream) {content : UInt8 × List UInt8}
    (hmem : content ∈ completed stream) :
    content ∈ completed octets ∨ ∃ status : UInt8, 0xf8 ≤ status ∧ content = (status, []) := by
  simp only [completed, List.mem_filterMap] at hmem ⊢
  obtain ⟨octet, hoctet, hmark⟩ := hmem
  induction h with
  | nil => cases hoctet
  | keep first hrest ih =>
    rcases List.mem_cons.mp hoctet with rfl | hlater
    · exact .inl ⟨octet, List.mem_cons_self, hmark⟩
    · rcases ih hlater with ⟨found, hfound, hsame⟩ | hrealTime
      · exact .inl ⟨found, List.mem_cons_of_mem _ hfound, hsame⟩
      · exact .inr hrealTime
  | insert hstatus hrest ih =>
    rcases List.mem_cons.mp hoctet with rfl | hlater
    · exact .inr ⟨_, hstatus, (Option.some.inj hmark).symm⟩
    · exact ih hlater

theorem ChannelMessages.short {messages : List ListCommand} (h : ChannelMessages messages)
    {stream : List MarkedOctet}
    (hstream : WithRealTime (messages.flatMap ListCommand.marked) stream) : StreamShort stream := by
  intro content hmem
  rcases hstream.completed_cases hmem with hmessage | ⟨status, hstatus, rfl⟩
  · obtain ⟨octet, hoctet, hmark⟩ := List.mem_filterMap.mp hmessage
    obtain ⟨message, hin, hmarked⟩ := List.mem_flatMap.mp hoctet
    obtain ⟨command, running, rfl⟩ := h.2 message hin
    have hcontent : content = (command.status, command.data) := by
      rcases List.mem_append.mp hmarked with hlead | hlast
      · obtain ⟨byte, -, rfl⟩ := List.mem_map.mp hlead
        cases hmark
      · obtain ⟨byte, -, rfl⟩ := List.mem_map.mp hlast
        exact (Option.some.inj hmark).symm
    subst hcontent
    exact .inl ⟨command.channel, command.data_length, command.seven_bit⟩
  · exact .inr ⟨hstatus, rfl⟩

/-- The local port of a new socket is in front of the stream. -/
theorem ChannelMessages.streaming {messages : List ListCommand} (h : ChannelMessages messages)
    {stream : List MarkedOctet}
    (hstream : WithRealTime (messages.flatMap ListCommand.marked) stream) {config : SocketConfig}
    {s : SocketState} (hsocket : netSocketCreateItem config = some s.localSocket) :
    Streaming s stream := by
  obtain ⟨size, hsize, hrep, -, -⟩ := createItem_spec hsocket
  have hplain : ∀ message ∈ messages, ¬ message.IsRealTime := by
    intro message hmem
    obtain ⟨command, running, rfl⟩ := h.2 message hmem
    exact id
  have hemits := Parser.emitsMarked_messages messages (p := ⟨.init, 0, [], 0, false⟩) rfl
    ⟨rfl, rfl, by simp⟩ h.1 hplain
  exact ⟨⟨_, size, hsize, hrep, hemits.withRealTime hstream ⟨by simp, by simp⟩⟩, h.short hstream⟩

/-- An application writes a stream of channel messages, with real-time octets anywhere among
them, to the local port, cut into datagrams that fit and are none of the commands. Whatever
turns are taken, the peer queues for the packet number `n` the message number `n` of the
stream, and nothing else. -/
theorem stream_plays {e : LinkEnds} {s : Link} (hopen : s.Open e) (hwaiting : s.waiting = [])
    (hpackets : s.packets = []) (hpeer : e.peerSsrc ≠ 0) {config : SocketConfig}
    (hsocket : netSocketCreateItem config = some s.sender.localSocket) {messages : List ListCommand}
    (hmessages : ChannelMessages messages) {stream : List MarkedOctet}
    (hstream : WithRealTime (messages.flatMap ListCommand.marked) stream) (moves : List LinkMove)
    (hcut : writtenOctets moves <+: stream.map Prod.fst)
    (hmoves : Along (linkStep e) (StreamUndisturbed e) s moves) :
    ∃ t out, run (linkStep e) s moves = .ok (t, out) ∧
      (∀ n commands, .played n commands ∈ out →
        ∃ content, (completed stream)[n]? = some content ∧
          commands.map (fun played => (played.1.content, played.2)) = [(content, e.ssrc)]) ∧
      t.packets.length + (t.waiting.filterMap (carriedTo e.peerSsrc)).length =
        (completed (stream.take (writtenOctets moves).length)).length := by
  obtain ⟨halong, hqueued⟩ := run_streams hpeer (hmessages.streaming hstream hsocket) hmoves hcut
  obtain ⟨t, out, hrun, ht, hplays⟩ := run_plays (hopen.start hwaiting hpackets) halong
  rw [List.nil_append] at ht
  have hcontents := hqueued t out hrun
  refine ⟨t, out, hrun, fun n commands hplayed => ?_, ?_⟩
  · obtain ⟨command, hcommand, honly⟩ := hplays _ hplayed n commands rfl
    rw [List.nil_append] at hcommand
    refine ⟨command.content, ?_, honly⟩
    have htaken : (completed (stream.take (writtenOctets moves).length))[n]? =
        some command.content := by
      rw [← hcontents, List.getElem?_map, hcommand, Option.map_some]
    obtain ⟨rest, hrest⟩ := completed_take (writtenOctets moves).length stream
    have hlt := (List.getElem?_eq_some_iff.mp htaken).1
    rw [← hrest, List.getElem?_append_left hlt, htaken]
  · obtain ⟨handled, hcarried, hsent⟩ := ht.sent
    rw [← hcontents, List.length_map, hcarried, List.length_append, hsent.length_eq]

/-- A note is written in two datagrams, with a clock inside; its packet arrives first. -/
def splitNote : List LinkMove :=
  [.read (.localPort none [0x90, 0xf8, 0x30]), .read (.localPort none [0x40]), .send fun _ => 0,
    .send fun _ => 0, .arrive 1 quietMoment ⟨.data, [], 5004, [], []⟩,
    .arrive 0 quietMoment ⟨.data, [], 5004, [], []⟩]

theorem stream_plays_note : ∃ created socket t out,
    run (linkStep mirroredEnds) (mirroredLink created socket) splitNote = .ok (t, out) ∧
      (∀ n commands, .played n commands ∈ out →
        ∃ content, [(0xf8, []), (0x90, [0x30, 0x40])][n]? = some content ∧
          commands.map (fun played => (played.1.content, played.2)) = [(content, 9)]) := by
  obtain ⟨created, socket, hsocket, -, hopen⟩ := mirroredLink_open
  have hmoves : Along (linkStep mirroredEnds) (StreamUndisturbed mirroredEnds)
      (mirroredLink created socket) splitNote :=
    ⟨⟨by decide, by decide⟩, fun _ _ _ => ⟨⟨by decide, by decide⟩, fun _ _ _ => ⟨trivial,
      fun _ _ _ => ⟨trivial, fun _ _ _ => ⟨trivial, fun _ _ _ => ⟨trivial, fun _ _ _ =>
        trivial⟩⟩⟩⟩⟩⟩
  have hmessages : ChannelMessages [noteOn 0x30 (by decide)] :=
    ⟨⟨trivial, trivial⟩, by simp [noteOn]⟩
  obtain ⟨t, out, hrun, hplays, -⟩ := stream_plays hopen rfl rfl (by decide) hsocket hmessages
    (.keep (0x90, none) (.insert (by decide : (0xf8 : UInt8) ≤ 0xf8) (.keep (0x30, none)
      (.keep (0x40, some (0x90, [0x30, 0x40])) .nil))))
    splitNote (by decide) hmoves
  exact ⟨created, socket, t, out, hrun, hplays⟩

end RaveloxMidi
