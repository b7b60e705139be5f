import RaveloxMidi.DataQueue

/-!
# The work queue is a FIFO

What the queue is for is a line of pairs with a server that takes the first one,
or goes to sleep when there is none. The linked items under their lock do what
this model does, step by step. So every pair is passed on once and in order, and
the server does not sleep with a pair in the line unless it has been woken.
-/
namespace RaveloxMidi
open LinkedHeap Transducer

inductive FifoServer (γ : Type) where
  | free
  | asleep (woken : Bool)
  | acting (pair : γ)
  | leaving

/-- A line of pairs, with the calls that have drawn a ticket and not yet joined it. -/
structure Fifo (γ : Type) where
  ticket : ℕ
  adding : List (ℕ × γ)
  queued : List γ
  server : FifoServer γ

def fifoStart {γ : Type} : Fifo γ := ⟨0, [], [], .free⟩

section Model
variable {α β γ : Type}

def FifoServer.wake : FifoServer γ → FifoServer γ
  | asleep _ => asleep true
  | server => server

/-- The server takes the first pair or goes to sleep. -/
def Fifo.take (f : Fifo γ) : Fifo γ :=
  match f.queued with
  | [] => { f with server := .asleep false }
  | pair :: rest => { f with queued := rest, server := .acting pair }

/-- The model, on the actions of the queue. -/
def fifoStep (f : Fifo (Option α × Option β)) :
    QueueAction α β → Fifo (Option α × Option β) × List (QueueEvent (Option α × Option β))
  | .create none _ => (f, [])
  | .create (some data) context =>
    ({ f with
      ticket := f.ticket + 1
      adding := f.adding ++ [(f.ticket, some data, context)] }, [])
  | .add ticket =>
    match f.adding.find? fun call => call.1 = ticket with
    | none => (f, [])
    | some call => ({ f with
        adding := f.adding.filter fun other => other.1 ≠ call.1
        queued := f.queued ++ [call.2]
        server := if f.queued = [] then f.server.wake else f.server }, [.added call.2])
  | .handler =>
    match f.server with
    | .free | .asleep true => (f.take, [])
    | .asleep false => (f, [])
    | .acting pair => ({ f with server := .leaving }, [.passed pair])
    | .leaving => ({ f with server := .free }, [])
  | .wake => ({ f with server := f.server.wake }, [])

/-- The pairs added by some events. -/
def addedPairs (events : List (QueueEvent γ)) : List γ :=
  events.filterMap fun
    | .added pair => some pair
    | .passed _ => none

/-- The pairs that the action was called with. -/
def passedPairs (events : List (QueueEvent γ)) : List γ :=
  events.filterMap fun
    | .added _ => none
    | .passed pair => some pair

/-- The pair that has been taken and not been passed on, and those behind it. -/
def Fifo.held (f : Fifo γ) : List γ :=
  match f.server with
  | .acting pair => pair :: f.queued
  | _ => f.queued

theorem FifoServer.wake_held (f : Fifo γ) (queued : List γ) :
    Fifo.held { f with queued := queued, server := f.server.wake } =
      Fifo.held { f with queued := queued } := by
  obtain ⟨ticket, adding, line, server⟩ := f
  cases server <;> rfl

theorem Fifo.take_held (f : Fifo γ) : f.take.held = f.queued := by
  obtain ⟨ticket, adding, line, server⟩ := f
  cases line <;> rfl

theorem held_append (f : Fifo γ) (pair : γ) :
    Fifo.held { f with queued := f.queued ++ [pair] } = f.held ++ [pair] := by
  obtain ⟨ticket, adding, line, server⟩ := f
  cases server <;> rfl

/-- What is held and what is added is passed on first or still held. -/
theorem fifo_flow (f : Fifo (Option α × Option β)) (a : QueueAction α β) :
    f.held ++ addedPairs (fifoStep f a).2 =
      passedPairs (fifoStep f a).2 ++ (fifoStep f a).1.held := by
  cases a with
  | create data context => cases data <;> simp [fifoStep, addedPairs, passedPairs, Fifo.held]
  | add ticket =>
    simp only [fifoStep]
    split
    · simp [addedPairs, passedPairs]
    · next call _ =>
      have hheld : Fifo.held { f with
          adding := f.adding.filter fun other => other.1 ≠ call.1
          queued := f.queued ++ [call.2]
          server := if f.queued = [] then f.server.wake else f.server } = f.held ++ [call.2] := by
        rw [← held_append]
        split_ifs
        · exact FifoServer.wake_held ..
        · rfl
      simp only [hheld]
      rfl
  | handler =>
    obtain ⟨ticket, adding, line, server⟩ := f
    have htaken := Fifo.take_held ⟨ticket, adding, line, server⟩
    cases server with
    | free => simpa [fifoStep, addedPairs, passedPairs, Fifo.held] using htaken.symm
    | asleep woken =>
      cases woken
      · simp [fifoStep, addedPairs, passedPairs]
      · simpa [fifoStep, addedPairs, passedPairs, Fifo.held] using htaken.symm
    | acting pair => simp [fifoStep, addedPairs, passedPairs, Fifo.held]
    | leaving => simp [fifoStep, addedPairs, passedPairs, Fifo.held]
  | wake =>
    have hheld := FifoServer.wake_held f f.queued
    simp [fifoStep, addedPairs, passedPairs, hheld]

/-- The server sleeps, and has not been woken, only while the line is empty. -/
def Fifo.Awake (f : Fifo γ) : Prop :=
  match f.server with
  | .asleep false => f.queued = []
  | _ => True

theorem FifoServer.wake_awake (f : Fifo γ) (queued : List γ) :
    Fifo.Awake { f with queued := queued, server := f.server.wake } := by
  obtain ⟨ticket, adding, line, server⟩ := f
  cases server <;> trivial

theorem Fifo.take_awake (f : Fifo γ) : f.take.Awake := by
  obtain ⟨ticket, adding, line, server⟩ := f
  cases line <;> trivial

theorem fifo_awake {f : Fifo (Option α × Option β)} (h : f.Awake) (a : QueueAction α β) :
    (fifoStep f a).1.Awake := by
  cases a with
  | create data context => cases data <;> exact h
  | add ticket =>
    simp only [fifoStep]
    split
    · exact h
    · by_cases hempty : f.queued = []
      · simp only [if_pos hempty]
        exact FifoServer.wake_awake ..
      · simp only [if_neg hempty]
        obtain ⟨next, adding, line, server⟩ := f
        cases server with
        | asleep woken =>
          cases woken
          · exact absurd h hempty
          · trivial
        | _ => trivial
  | handler =>
    obtain ⟨next, adding, line, server⟩ := f
    cases server with
    | free => exact Fifo.take_awake _
    | asleep woken =>
      cases woken
      · exact h
      · exact Fifo.take_awake _
    | acting pair => trivial
    | leaving => trivial
  | wake => exact FifoServer.wake_awake ..

/-- Along a run of the model, what is added is passed on in order or still held. -/
theorem fifo_run (f : Fifo (Option α × Option β)) (actions : List (QueueAction α β)) :
    f.held ++ addedPairs (feed fifoStep f actions).2 =
      passedPairs (feed fifoStep f actions).2 ++ (feed fifoStep f actions).1.held := by
  induction actions generalizing f with
  | nil => simp [addedPairs, passedPairs]
  | cons a actions ih =>
    have hnow := fifo_flow f a
    have hlater := ih (fifoStep f a).1
    simp only [addedPairs, passedPairs] at hnow hlater ⊢
    rw [feed_cons, List.filterMap_append, List.filterMap_append, ← List.append_assoc, hnow,
      List.append_assoc, hlater, List.append_assoc]

end Model

section Refinement
variable {α β : Type}

/-- The item that the thread of the queue has in hand. -/
def HandlerPoint.item : HandlerPoint α β → List ℕ
  | acting item _ _ => [item]
  | freeing item => [item]
  | _ => []

/-- The thread of the queue as a server. -/
def HandlerPoint.Serves : HandlerPoint α β → FifoServer (Option α × Option β) → Prop
  | locking, .free => True
  | waiting woken, .asleep woken' => woken = woken'
  | acting _ data context, .acting pair => (data, context) = pair
  | freeing _, .leaving => True
  | _, _ => False

/-- The items that are linked show the line of the model, those that a call or the thread
has in hand are others, and none is freed. -/
structure QueueSystem.Shows (s : QueueSystem α β) (f : Fifo (Option α × Option β))
    (nodes : List (ℕ × Option α × Option β)) : Prop where
  linked : Linked DataQueueItem.next DataQueueItem.pair s.items s.queue.top nodes
  bottom : s.queue.bottom = nodes.getLast?.map Prod.fst
  state : s.queue.state = if nodes = [] then .empty else .used
  running : s.queue.shutdown = false
  queued : f.queued = nodes.map Prod.snd
  adding : f.adding = s.adding
  ticket : f.ticket = s.items.fresh
  serves : s.handler.Serves f.server
  created : ∀ call ∈ s.adding, ∃ item, s.items.block call.1 = some item ∧ item.pair = call.2
  inHand : ∀ item ∈ s.handler.item, ∃ block, s.items.block item = some block
  distinct : (nodes.map Prod.fst).Nodup
  addingDistinct : (s.adding.map Prod.fst).Nodup
  addingApart : ∀ call ∈ s.adding, ∀ node ∈ nodes, node.1 ≠ call.1
  handApart : ∀ item ∈ s.handler.item,
    (∀ node ∈ nodes, node.1 ≠ item) ∧ ∀ call ∈ s.adding, call.1 ≠ item

theorem start_shows : (queueSystemStart : QueueSystem α β).Shows fifoStart [] where
  linked := rfl
  bottom := rfl
  state := rfl
  running := rfl
  queued := rfl
  adding := rfl
  ticket := rfl
  serves := trivial
  created := by simp [queueSystemStart]
  inHand := by simp [queueSystemStart, HandlerPoint.item]
  distinct := by simp
  addingDistinct := by simp [queueSystemStart]
  addingApart := by simp
  handApart := by simp [queueSystemStart, HandlerPoint.item]

section Sections
variable {items : Heap (DataQueueItem α β)} {queue : DataQueue}
  {nodes : List (ℕ × Option α × Option β)}

/-- The section of a call that adds links its item behind the last one. -/
theorem add_links (hlinked : Linked DataQueueItem.next DataQueueItem.pair items queue.top nodes)
    (hbottom : queue.bottom = nodes.getLast?.map Prod.fst) (hdistinct : (nodes.map Prod.fst).Nodup)
    {call : ℕ × Option α × Option β} {item : DataQueueItem α β}
    (hitem : items.block call.1 = some item) (hpair : item.pair = call.2)
    (hapart : ∀ node ∈ nodes, node.1 ≠ call.1) :
    ∃ linked top, dataQueueAdd items queue call.1 =
        .ok (linked, { queue with top := top, bottom := some call.1, state := .used }) ∧
      Linked DataQueueItem.next DataQueueItem.pair linked top (nodes ++ [call]) ∧
      (∀ q, (∀ node ∈ nodes, node.1 ≠ q) → q ≠ call.1 → linked.block q = items.block q) ∧
      linked.fresh = items.fresh := by
  cases hnodes : nodes.getLast? with
  | none =>
    obtain rfl := List.getLast?_eq_none_iff.mp hnodes
    have htop : queue.top = none := hlinked
    refine ⟨items.put call.1 (some { item with next := none }), some call.1, ?_, ?_, ?_,
      Heap.fresh_put _⟩
    · simp only [dataQueueAdd, htop, hbottom, List.getLast?_nil, Option.map_none, if_true,
        Heap.load_eq hitem, Heap.store_eq hitem, bind, Except.bind, pure, Except.pure]
    · exact ⟨rfl, _, Heap.block_put_self hitem _, hpair, rfl⟩
    · exact fun q _ hq => Heap.block_put_ne (Ne.symm hq) _
  | some last =>
    have hmem := List.mem_of_getLast? hnodes
    obtain ⟨block, hblock, hview⟩ := hlinked.block hmem
    have hne := hapart last hmem
    have htop : queue.top ≠ none := by
      rw [hlinked.head]
      cases nodes with
      | nil => cases hmem
      | cons => simp
    have hitem' : (items.put last.1 (some { block with next := some call.1 })).block call.1 =
        some item := by
      rw [Heap.block_put_ne hne, hitem]
    refine ⟨(items.put last.1 (some { block with next := some call.1 })).put call.1
      (some { item with next := none }), queue.top, ?_, ?_, ?_, ?_⟩
    · simp only [dataQueueAdd, hbottom, hnodes, Option.map_some, if_neg htop,
        Heap.load_eq hblock, Heap.store_eq hblock, Heap.load_eq hitem', Heap.store_eq hitem', bind,
        Except.bind, pure, Except.pure]
    · refine hlinked.append hnodes hdistinct (fun node hnode hother => ?_)
        ⟨{ block with next := some call.1 }, ?_, hview, rfl⟩
        ⟨_, Heap.block_put_self hitem' _, hpair, rfl⟩
      · rw [Heap.block_put_ne (Ne.symm (hapart node hnode)), Heap.block_put_ne (Ne.symm hother)]
      · rw [Heap.block_put_ne (Ne.symm hne), Heap.block_put_self hblock]
    · intro q hq hcall
      rw [Heap.block_put_ne (Ne.symm hcall), Heap.block_put_ne (hq last hmem)]
    · rw [Heap.fresh_put, Heap.fresh_put]

/-- With nothing linked the thread waits. -/
theorem handler_waits (hstate : queue.state = .empty) (hrunning : queue.shutdown = false) :
    dataQueueHandler items queue = .ok (queue, .waiting false) := by
  rw [dataQueueHandler, if_pos ⟨hstate, hrunning⟩]

/-- Otherwise it takes the first item. -/
theorem handler_takes {first : ℕ × Option α × Option β} {rest : List (ℕ × Option α × Option β)}
    (hlinked : Linked DataQueueItem.next DataQueueItem.pair items queue.top (first :: rest))
    (hbottom : queue.bottom = (first :: rest).getLast?.map Prod.fst)
    (hstate : queue.state = .used) (hrunning : queue.shutdown = false) :
    ∃ top, dataQueueHandler items queue = .ok ({ queue with
        top := top
        bottom := rest.getLast?.map Prod.fst
        state := if rest = [] then .empty else .used },
        .acting first.1 first.2.1 first.2.2) ∧
      Linked DataQueueItem.next DataQueueItem.pair items top rest := by
  obtain ⟨htop, block, hblock, hpair, hrest⟩ := hlinked
  refine ⟨block.next, ?_, hrest⟩
  have hused : ¬ (queue.state = .empty ∧ queue.shutdown = false) := by simp [hstate]
  have hgoes : ¬ queue.shutdown = true := by simp [hrunning]
  have hdata : block.data = first.2.1 ∧ block.context = first.2.2 := by
    rw [← hpair]
    exact ⟨rfl, rfl⟩
  rw [dataQueueHandler, if_neg hused, if_neg hgoes]
  simp only [dataQueueGet, htop, Heap.load_eq hblock, Except.map, hdata, bind, Except.bind, pure,
    Except.pure]
  cases rest with
  | nil =>
    have hnext : block.next = none := hrest
    simp [hnext]
  | cons second rest =>
    have hnext : block.next = some second.1 := hrest.1
    simp [hnext, hbottom]

end Sections

section Steps
variable {s : QueueSystem α β} {f : Fifo (Option α × Option β)}
  {nodes : List (ℕ × Option α × Option β)}

theorem HandlerPoint.Serves.wake {point : HandlerPoint α β}
    {server : FifoServer (Option α × Option β)} (h : point.Serves server) :
    point.signal.Serves server.wake := by
  cases point <;> cases server <;> trivial

theorem signal_item (point : HandlerPoint α β) : point.signal.item = point.item := by
  cases point <;> rfl

theorem create_shows (h : s.Shows f nodes) (data : Option α) (context : Option β) :
    ∃ t, queueStep s (.create data context) = .ok (t, (fifoStep f (.create data context)).2) ∧
      ∃ nodes', t.Shows (fifoStep f (.create data context)).1 nodes' := by
  cases data with
  | none => exact ⟨s, rfl, nodes, h⟩
  | some data =>
    have hlive : ∀ node ∈ nodes, node.1 ≠ s.items.fresh := by
      intro node hnode
      obtain ⟨block, hblock, -⟩ := h.linked.block hnode
      exact Nat.ne_of_lt (Heap.lt_fresh hblock)
    have hadding : ∀ call ∈ s.adding, call.1 ≠ s.items.fresh := by
      intro call hcall
      obtain ⟨block, hblock, -⟩ := h.created call hcall
      exact Nat.ne_of_lt (Heap.lt_fresh hblock)
    refine ⟨_, rfl, nodes, ?_⟩
    exact {
      linked := h.linked.frame fun node hnode => by
        obtain ⟨block, hblock, -⟩ := h.linked.block hnode
        rw [hblock, Heap.block_alloc_old hblock]
      bottom := h.bottom
      state := h.state
      running := h.running
      queued := h.queued
      adding := by
        simp only [fifoStep, h.adding, h.ticket]
      ticket := by
        simp only [fifoStep, h.ticket, Heap.fresh_alloc]
      serves := h.serves
      created := by
        intro call hcall
        rcases List.mem_append.mp hcall with hold | hnew
        · obtain ⟨block, hblock, hpair⟩ := h.created call hold
          exact ⟨block, Heap.block_alloc_old hblock _, hpair⟩
        · rw [List.mem_singleton.mp hnew]
          exact ⟨_, Heap.block_alloc_self .., rfl⟩
      inHand := by
        intro item hitem
        obtain ⟨block, hblock⟩ := h.inHand item hitem
        exact ⟨block, Heap.block_alloc_old hblock _⟩
      distinct := h.distinct
      addingDistinct := distinct_append h.addingDistinct hadding
      addingApart := by
        intro call hcall node hnode
        rcases List.mem_append.mp hcall with hold | hnew
        · exact h.addingApart call hold node hnode
        · rw [List.mem_singleton.mp hnew]
          exact hlive node hnode
      handApart := by
        intro item hitem
        refine ⟨(h.handApart item hitem).1, fun call hcall => ?_⟩
        rcases List.mem_append.mp hcall with hold | hnew
        · exact (h.handApart item hitem).2 call hold
        · rw [List.mem_singleton.mp hnew]
          obtain ⟨block, hblock⟩ := h.inHand item hitem
          exact Nat.ne_of_gt (Heap.lt_fresh hblock) }

theorem add_shows (h : s.Shows f nodes) (newItem : ℕ) :
    ∃ t, queueStep s (.add newItem) = .ok (t, (fifoStep (α := α) (β := β) f (.add newItem)).2) ∧
      ∃ nodes', t.Shows (fifoStep (α := α) (β := β) f (.add newItem)).1 nodes' := by
  simp only [queueStep, fifoStep, h.adding]
  cases hfind : s.adding.find? fun call => call.1 = newItem with
  | none => exact ⟨s, rfl, nodes, h⟩
  | some call =>
    have hmem := List.mem_of_find?_eq_some hfind
    obtain ⟨item, hitem, hpair⟩ := h.created call hmem
    obtain ⟨linked, top, hadd, hlinked, hsame, hfresh⟩ :=
      add_links h.linked h.bottom h.distinct hitem hpair (h.addingApart call hmem)
    have hempty : f.queued = [] ↔ s.queue.state = .empty := by
      rw [h.queued, h.state]
      cases nodes <;> simp
    simp only [hadd, bind, Except.bind, pure, Except.pure]
    refine ⟨_, rfl, nodes ++ [call], ?_⟩
    have hkept : ∀ other ∈ s.adding.filter fun other => other.1 ≠ call.1,
        other ∈ s.adding ∧ other.1 ≠ call.1 := by
      intro other hother
      obtain ⟨hold, hne⟩ := List.mem_filter.mp hother
      exact ⟨hold, by simpa using hne⟩
    have hhand : ∀ point : HandlerPoint α β, point.item = s.handler.item →
        (∀ item ∈ point.item, ∃ block, linked.block item = some block) ∧
        ∀ item ∈ point.item, (∀ node ∈ nodes ++ [call], node.1 ≠ item) ∧
          ∀ other ∈ s.adding.filter fun other => other.1 ≠ call.1, other.1 ≠ item := by
      intro point hpoint
      rw [hpoint]
      constructor
      · intro item hitem
        obtain ⟨hnodes, hcalls⟩ := h.handApart item hitem
        obtain ⟨block, hblock⟩ := h.inHand item hitem
        exact ⟨block, (hsame item hnodes (Ne.symm (hcalls call hmem))).trans hblock⟩
      · intro item hitem
        obtain ⟨hnodes, hcalls⟩ := h.handApart item hitem
        exact ⟨List.forall_mem_append.mpr
            ⟨hnodes, List.forall_mem_singleton.mpr (hcalls call hmem)⟩,
          fun other hother => hcalls other (hkept other hother).1⟩
    have hsignal : (if s.queue.state = .empty then s.handler.signal else s.handler).item =
        s.handler.item := by
      split_ifs
      · exact signal_item _
      · rfl
    exact {
      linked := hlinked
      bottom := by simp
      state := by simp
      running := h.running
      queued := by simp [h.queued]
      adding := rfl
      ticket := by
        simp only [h.ticket, hfresh]
      serves := by
        simp only [hempty]
        split_ifs
        · exact h.serves.wake
        · exact h.serves
      created := by
        intro other hother
        obtain ⟨hold, hne⟩ := hkept other hother
        obtain ⟨block, hblock, hpair'⟩ := h.created other hold
        exact ⟨block, (hsame other.1 (h.addingApart other hold) hne).trans hblock, hpair'⟩
      inHand := (hhand _ hsignal).1
      distinct := distinct_append h.distinct (h.addingApart call hmem)
      addingDistinct :=
        h.addingDistinct.sublist (List.filter_sublist.map Prod.fst)
      addingApart := by
        intro other hother
        obtain ⟨hold, hne⟩ := hkept other hother
        exact List.forall_mem_append.mpr
          ⟨h.addingApart other hold, List.forall_mem_singleton.mpr (Ne.symm hne)⟩
      handApart := (hhand _ hsignal).2 }

/-- The section of the thread takes what the server of the model takes. -/
theorem take_shows (h : s.Shows f nodes) :
    ∃ done nodes', dataQueueHandler s.items s.queue = .ok done ∧
      QueueSystem.Shows { s with queue := done.1, handler := done.2 } f.take nodes' := by
  cases nodes with
  | nil =>
    have htake : f.take = { f with server := .asleep false } := by
      simp only [Fifo.take, h.queued, List.map_nil]
    refine ⟨_, [], handler_waits h.state h.running, ?_⟩
    rw [htake]
    exact { h with
      serves := rfl
      inHand := fun item hitem => nomatch hitem
      handApart := fun item hitem => nomatch hitem }
  | cons first rest =>
    have htake : f.take = { f with queued := rest.map Prod.snd, server := .acting first.2 } := by
      simp only [Fifo.take, h.queued, List.map_cons]
    obtain ⟨top, htaken, hrest⟩ := handler_takes h.linked h.bottom h.state h.running
    obtain ⟨hnot, hdistinct⟩ := List.nodup_cons.mp h.distinct
    obtain ⟨block, hblock, -⟩ := h.linked.block (.head rest)
    refine ⟨_, rest, htaken, ?_⟩
    rw [htake]
    exact {
      linked := hrest
      bottom := rfl
      state := rfl
      running := h.running
      queued := rfl
      adding := h.adding
      ticket := h.ticket
      serves := rfl
      created := h.created
      inHand := by
        intro item hitem
        rw [List.mem_singleton.mp hitem]
        exact ⟨block, hblock⟩
      distinct := hdistinct
      addingDistinct := h.addingDistinct
      addingApart := fun call hcall node hnode => h.addingApart call hcall node (.tail _ hnode)
      handApart := by
        intro item hitem
        rw [List.mem_singleton.mp hitem]
        refine ⟨fun node hnode heq => hnot ?_, fun call hcall => ?_⟩
        · rw [← heq]
          exact List.mem_map_of_mem hnode
        · exact Ne.symm (h.addingApart call hcall first (.head rest)) }

/-- The thread takes, passes on and frees as the server does. -/
theorem handler_shows (h : s.Shows f nodes) :
    ∃ t, queueStep s .handler = .ok (t, (fifoStep (α := α) (β := β) f .handler).2) ∧
      ∃ nodes', t.Shows (fifoStep (α := α) (β := β) f .handler).1 nodes' := by
  obtain ⟨items, queue, handler, adding⟩ := s
  obtain ⟨ticket, calls, line, server⟩ := f
  have hserves := h.serves
  cases handler with
  | locking =>
    cases server <;> try exact hserves.elim
    obtain ⟨done, nodes', htaken, hshows⟩ := take_shows h
    refine ⟨_, ?_, nodes', hshows⟩
    simp only [queueStep, htaken, bind, Except.bind, pure, Except.pure]
    rfl
  | waiting woken =>
    cases server <;> try exact hserves.elim
    obtain rfl : woken = _ := hserves
    cases woken with
    | false => exact ⟨_, rfl, nodes, h⟩
    | true =>
      obtain ⟨done, nodes', htaken, hshows⟩ := take_shows h
      refine ⟨_, ?_, nodes', hshows⟩
      simp only [queueStep, htaken, bind, Except.bind, pure, Except.pure]
      rfl
  | acting item data context =>
    cases server <;> try exact hserves.elim
    obtain rfl : (data, context) = _ := hserves
    exact ⟨_, rfl, nodes, { h with serves := trivial }⟩
  | freeing item =>
    cases server <;> try exact hserves.elim
    obtain ⟨block, hblock⟩ := h.inHand item (.head [])
    obtain ⟨hnodes, hcalls⟩ := h.handApart item (.head [])
    refine ⟨⟨items.put item none, queue, .locking, adding⟩, ?_, nodes, ?_⟩
    · simp only [queueStep, Heap.free_eq hblock, bind, Except.bind, pure, Except.pure]
      rfl
    · exact { h with
        linked := h.linked.frame fun node hnode =>
          Heap.block_put_ne (Ne.symm (hnodes node hnode)) _
        ticket := h.ticket.trans (Heap.fresh_put _).symm
        serves := trivial
        created := by
          intro call hcall
          obtain ⟨block, hblock, hpair⟩ := h.created call hcall
          exact ⟨block, (Heap.block_put_ne (Ne.symm (hcalls call hcall)) _).trans hblock, hpair⟩
        inHand := fun item hitem => nomatch hitem
        handApart := fun item hitem => nomatch hitem }
  | stopped => cases server <;> exact hserves.elim

theorem wake_shows (h : s.Shows f nodes) :
    ∃ t, queueStep s .wake = .ok (t, (fifoStep (α := α) (β := β) f .wake).2) ∧
      ∃ nodes', t.Shows (fifoStep (α := α) (β := β) f .wake).1 nodes' := by
  refine ⟨_, rfl, nodes, ?_⟩
  exact { h with
    serves := h.serves.wake
    inHand := by rw [signal_item]; exact h.inHand
    handApart := by rw [signal_item]; exact h.handApart }

/-- Every step of the queue is one of the model, and none faults. -/
theorem step_shows (h : ∃ nodes, s.Shows f nodes) (a : QueueAction α β) :
    ∃ t, queueStep s a = .ok (t, (fifoStep f a).2) ∧ ∃ nodes, t.Shows (fifoStep f a).1 nodes := by
  obtain ⟨nodes, h⟩ := h
  cases a with
  | create data context => exact create_shows h data context
  | add newItem => exact add_shows h newItem
  | handler => exact handler_shows h
  | wake => exact wake_shows h

end Steps

theorem Fifo.awake_of_waiting {s : QueueSystem α β} {f : Fifo (Option α × Option β)}
    {nodes : List (ℕ × Option α × Option β)} (h : s.Shows f nodes) (hawake : f.Awake)
    (hwaiting : s.handler = .waiting false) : nodes = [] := by
  have hserves := h.serves
  obtain ⟨ticket, calls, line, server⟩ := f
  rw [hwaiting] at hserves
  cases server <;> try exact hserves.elim
  obtain rfl : false = _ := hserves
  have hempty : line = [] := hawake
  have hqueued : line = nodes.map Prod.snd := h.queued
  rw [hempty] at hqueued
  exact List.map_eq_nil_iff.mp hqueued.symm

/-- In every interleaving the action is called with the pairs that were added, in their
order; top, bottom and state agree with what is linked; and the thread does not wait
for a signal while there is an item. -/
theorem queue_fifo (actions : List (QueueAction α β)) :
    ∃ t out, run queueStep queueSystemStart actions = .ok (t, out) ∧
      passedPairs out <+: addedPairs out ∧
      (t.queue.top = none ↔ t.queue.bottom = none) ∧
      (t.queue.bottom = none ↔ t.queue.state = .empty) ∧
      (∀ top bottom, t.queue.top = some top → t.queue.bottom = some bottom →
        LastFrom DataQueueItem.next t.items top bottom) ∧
      (t.handler = .waiting false → t.queue.top = none) := by
  obtain ⟨t, hrun, nodes, hshows⟩ := run_simulates (fun _ _ a h => step_shows h a)
    (⟨[], start_shows⟩ : ∃ nodes, (queueSystemStart : QueueSystem α β).Shows fifoStart nodes)
    actions
  have hflow := fifo_run (α := α) (β := β) fifoStart actions
  have hawake : (feed fifoStep (fifoStart : Fifo (Option α × Option β)) actions).1.Awake :=
    (@feed_invariant _ _ _ fifoStep Fifo.Awake (fun _ => True)
      (fun _ a hawake => ⟨fifo_awake hawake a, fun _ _ => trivial⟩) fifoStart trivial actions).1
  have htop := hshows.linked.head
  have hbottom := hshows.bottom
  have hstate := hshows.state
  refine ⟨t, _, hrun, ⟨_, hflow.symm⟩, ?_, ?_, fun top bottom htop' hbottom' => ?_, ?_⟩
  · rw [htop, hbottom]
    cases nodes <;> simp
  · rw [hbottom, hstate]
    cases nodes <;> simp
  · cases nodes with
    | nil =>
      rw [htop] at htop'
      cases htop'
    | cons first rest =>
      rw [htop] at htop'
      cases htop'
      rw [hbottom, Option.map_eq_some_iff] at hbottom'
      obtain ⟨last, hlast, rfl⟩ := hbottom'
      exact hshows.linked.lastFrom hlast
  · intro hwaiting
    rw [htop, Fifo.awake_of_waiting hshows hawake hwaiting]
    rfl

end Refinement

end RaveloxMidi
