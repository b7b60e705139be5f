import RaveloxMidi.QueueFifo

/-!
# Stopping the work queue

The queue is told to stop, its thread is joined, and what is still linked is freed
with the queue. Calls that add may go on while the queue stops, but not into a queue
that is gone: the pointer to it is cleared, and a call that has read it before must
have ended.
-/
namespace RaveloxMidi
open LinkedHeap Transducer

/-- How far `midi_sender_stop` has come. -/
inductive StopPoint where
  | serving
  | joining
  | destroying
  | destroyed
  deriving Repr, DecidableEq

/-- The queue and the thread that stops it. -/
structure QueueLife (α β : Type) where
  system : QueueSystem α β
  stopper : StopPoint

def queueLifeStart {α β : Type} : QueueLife α β := ⟨queueSystemStart, .serving⟩

/-- The thread that stops the queue goes on, or one of the others does. -/
inductive LifeAction (α β : Type) where
  | queue (action : QueueAction α β)
  | stop

/-- An item that is freed with the queue drops its pair. -/
inductive LifeEvent (γ : Type) where
  | queue (event : QueueEvent γ)
  | dropped (pair : γ)

/-- The section of `data_queue_stop`, up to the signal. -/
def dataQueueStop (queue : DataQueue) : DataQueue := { queue with shutdown := true }

section Stop
variable {α β : Type}

/-- One round of the loop of `data_queue_destroy`. -/
def dataQueueDestroy (items : Heap (DataQueueItem α β)) (queue : DataQueue) (item : ℕ) :
    Except HeapFault (Heap (DataQueueItem α β) × DataQueue × (Option α × Option β)) := do
  let first ← items.load item
  let items ← items.free item
  return (items, { queue with top := first.next }, first.pair)

/-- `midi_sender_stop`: stop, join, destroy. -/
def midiSenderStop (s : QueueLife α β) :
    Except HeapFault (QueueLife α β × List (LifeEvent (Option α × Option β))) :=
  match s.stopper with
  | .serving =>
    .ok (⟨{ s.system with
      queue := dataQueueStop s.system.queue
      handler := s.system.handler.signal }, .joining⟩, [])
  | .joining =>
    match s.system.handler with
    | .stopped => .ok ({ s with stopper := .destroying }, [])
    | _ => .ok (s, [])
  | .destroying =>
    match s.system.queue.top with
    | none => .ok ({ s with stopper := .destroyed }, [])
    | some item => do
      let freed ← dataQueueDestroy s.system.items s.system.queue item
      return ({ s with system := { s.system with items := freed.1, queue := freed.2.1 } },
        [.dropped freed.2.2])
  | .destroyed => .ok (s, [])

/-- The lock is held while the items are freed. A call that begins later finds no queue, and
one that has begun before finds a freed one. -/
def lifeStep (s : QueueLife α β) :
    LifeAction α β → Except HeapFault (QueueLife α β × List (LifeEvent (Option α × Option β)))
  | .stop => midiSenderStop s
  | .queue action =>
    match s.stopper, action with
    | .destroying, .add _ => .ok (s, [])
    | .destroyed, .create _ _ => .ok (s, [])
    | .destroyed, .add newItem =>
      if s.system.adding.any fun call => call.1 = newItem then .error .dangling else .ok (s, [])
    | _, action => do
      let done ← queueStep s.system action
      return ({ s with system := done.1 }, done.2.map .queue)

/-- No call that adds is under way when the queue itself is freed. -/
def Quiet (s : QueueLife α β) : LifeAction α β → Prop
  | .stop => s.stopper = .destroying → s.system.adding = []
  | .queue _ => True

instance (s : QueueLife α β) : ∀ a, Decidable (Quiet s a)
  | .stop => inferInstanceAs (Decidable (_ → _))
  | .queue _ => .isTrue trivial

end Stop

namespace LifeEvent
variable {γ : Type}

def entered : LifeEvent γ → Option γ
  | queue (.added pair) => some pair
  | _ => none

def left : LifeEvent γ → Option γ
  | queue (.passed pair) => some pair
  | dropped pair => some pair
  | _ => none

def passed : LifeEvent γ → Option γ
  | queue (.passed pair) => some pair
  | _ => none

def lost : LifeEvent γ → Option γ
  | dropped pair => some pair
  | _ => none

theorem entered_queue (events : List (QueueEvent γ)) :
    (events.map queue).filterMap entered = addedPairs events := by
  rw [List.filterMap_map]
  refine congrArg (List.filterMap · events) (funext fun event => ?_)
  cases event <;> rfl

theorem left_queue (events : List (QueueEvent γ)) :
    (events.map queue).filterMap left = passedPairs events := by
  rw [List.filterMap_map]
  refine congrArg (List.filterMap · events) (funext fun event => ?_)
  cases event <;> rfl

theorem passed_queue (events : List (QueueEvent γ)) :
    (events.map queue).filterMap passed = passedPairs events := by
  rw [List.filterMap_map]
  refine congrArg (List.filterMap · events) (funext fun event => ?_)
  cases event <;> rfl

theorem lost_queue (events : List (QueueEvent γ)) : (events.map queue).filterMap lost = [] := by
  rw [List.filterMap_map, List.filterMap_eq_nil_iff]
  exact fun _ _ => rfl

theorem left_of_lost {events : List (LifeEvent γ)} (h : events.filterMap lost = []) :
    events.filterMap left = events.filterMap passed := by
  rw [List.filterMap_eq_nil_iff] at h
  refine List.filterMap_congr fun event hevent => ?_
  have hkept := h event hevent
  cases event with
  | queue event => cases event <;> rfl
  | dropped pair => cases hkept

theorem left_of_passed {events : List (LifeEvent γ)} (h : events.filterMap passed = []) :
    events.filterMap left = events.filterMap lost := by
  rw [List.filterMap_eq_nil_iff] at h
  refine List.filterMap_congr fun event hevent => ?_
  have hkept := h event hevent
  cases event with
  | queue event =>
    cases event with
    | added pair => rfl
    | passed pair => cases hkept
  | dropped pair => rfl

end LifeEvent

section Balance
variable {α β : Type} {s t : QueueSystem α β} {f : Fifo (Option α × Option β)}
  {nodes : List (ℕ × Option α × Option β)}

/-- The live items are those in the line, those of the calls, and the one in hand. -/
def QueueSystem.Balanced (s : QueueSystem α β) (f : Fifo (Option α × Option β)) : Prop :=
  s.items.live = f.queued.length + s.adding.length + s.handler.item.length

theorem live_add {items items' : Heap (DataQueueItem α β)} {queue queue' : DataQueue}
    {newItem : ℕ} (hadd : dataQueueAdd items queue newItem = .ok (items', queue')) :
    items'.live = items.live := by
  have hlast : ∀ linked : Heap (DataQueueItem α β), (do
      let item ← linked.load newItem
      let stored ← linked.store newItem { item with next := none }
      return (stored, { queue with
        top := if queue.top = none then some newItem else queue.top
        bottom := some newItem
        state := .used })) = Except.ok (items', queue') → items'.live = linked.live := by
    intro linked hlinked
    simp only [bind, Except.bind, pure, Except.pure] at hlinked
    split at hlinked
    · cases hlinked
    · split at hlinked
      · cases hlinked
      next stored hstored =>
        cases hlinked
        exact Heap.live_store hstored
  cases hbottom : queue.bottom with
  | none =>
    simp only [dataQueueAdd, hbottom] at hadd
    exact hlast items hadd
  | some bottom =>
    simp only [dataQueueAdd, hbottom, bind, Except.bind] at hadd
    split at hadd
    · cases hadd
    · split at hadd
      · cases hadd
      next linked hlinked =>
        rw [hlast linked hadd, Heap.live_store hlinked]

/-- A call that has ended was one of the calls. -/
theorem length_filter_call {calls : List (ℕ × Option α × Option β)}
    (hdistinct : (calls.map Prod.fst).Nodup) {call : ℕ × Option α × Option β}
    (hcall : call ∈ calls) :
    (calls.filter fun other => other.1 ≠ call.1).length + 1 = calls.length := by
  induction calls with
  | nil => cases hcall
  | cons first rest ih =>
    obtain ⟨hnot, hrest⟩ := List.nodup_cons.mp hdistinct
    rcases List.mem_cons.mp hcall with rfl | hmem
    · have hkept : (rest.filter fun other => other.1 ≠ call.1) = rest := by
        rw [List.filter_eq_self]
        intro other hother
        have hne : other.1 ≠ call.1 := fun heq => hnot (heq ▸ List.mem_map_of_mem hother)
        simpa using hne
      rw [List.filter_cons_of_neg (by simp), hkept, List.length_cons]
    · have hne : first.1 ≠ call.1 := fun heq => hnot (heq ▸ List.mem_map_of_mem hmem)
      rw [List.filter_cons_of_pos (by simpa using hne), List.length_cons, ih hrest hmem,
        List.length_cons]

theorem add_balanced (h : s.Shows f nodes) (hbalanced : s.Balanced f) (newItem : ℕ)
    {out : List (QueueEvent (Option α × Option β))}
    (hstep : queueStep s (.add newItem) = .ok (t, out)) :
    t.Balanced (fifoStep (α := α) (β := β) f (.add newItem)).1 := by
  simp only [queueStep] at hstep
  simp only [fifoStep, h.adding]
  cases hfind : s.adding.find? fun call => call.1 = newItem with
  | none =>
    rw [hfind] at hstep
    cases hstep
    exact hbalanced
  | some call =>
    rw [hfind] at hstep
    simp only [bind, Except.bind, pure, Except.pure] at hstep
    split at hstep
    · cases hstep
    next linked hlinked =>
      cases hstep
      have hlive := live_add hlinked
      have hcalls := length_filter_call h.addingDistinct (List.mem_of_find?_eq_some hfind)
      have hhand : (if s.queue.state = .empty then s.handler.signal else s.handler).item =
          s.handler.item := by
        split_ifs
        · exact signal_item _
        · rfl
      simp only [QueueSystem.Balanced] at hbalanced ⊢
      rw [hlive, hhand, hbalanced, List.length_append, List.length_singleton]
      omega

theorem take_balanced (h : s.Shows f nodes) (hbalanced : s.Balanced f) (hfree : s.handler.item = [])
    {queue : DataQueue} {point : HandlerPoint α β}
    (htake : dataQueueHandler s.items s.queue = .ok (queue, point)) :
    QueueSystem.Balanced { s with queue := queue, handler := point } f.take := by
  cases nodes with
  | nil =>
    rw [handler_waits h.state h.running] at htake
    cases htake
    have hline : f.queued = [] := h.queued
    rw [QueueSystem.Balanced, hfree, hline] at hbalanced
    simp only [QueueSystem.Balanced, Fifo.take, hline]
    exact hbalanced
  | cons first rest =>
    obtain ⟨top, htaken, -⟩ := handler_takes h.linked h.bottom h.state h.running
    rw [htaken] at htake
    cases htake
    have hline : f.queued = first.2 :: rest.map Prod.snd := h.queued
    rw [QueueSystem.Balanced, hfree, hline, List.length_cons, List.length_nil] at hbalanced
    simp only [QueueSystem.Balanced, Fifo.take, hline, HandlerPoint.item, List.length_singleton]
    omega

theorem handler_balanced (h : s.Shows f nodes) (hbalanced : s.Balanced f)
    {out : List (QueueEvent (Option α × Option β))}
    (hstep : queueStep s .handler = .ok (t, out)) :
    t.Balanced (fifoStep (α := α) (β := β) f .handler).1 := by
  obtain ⟨items, queue, handler, adding⟩ := s
  obtain ⟨ticket, calls, line, server⟩ := f
  have hserves := h.serves
  cases handler with
  | locking =>
    cases server <;> try exact hserves.elim
    simp only [queueStep, bind, Except.bind, pure, Except.pure] at hstep
    split at hstep
    · cases hstep
    next done hdone =>
      cases hstep
      exact take_balanced h hbalanced rfl hdone
  | waiting woken =>
    cases server <;> try exact hserves.elim
    obtain rfl : woken = _ := hserves
    cases woken with
    | false =>
      cases hstep
      exact hbalanced
    | true =>
      simp only [queueStep, bind, Except.bind, pure, Except.pure] at hstep
      split at hstep
      · cases hstep
      next done hdone =>
        cases hstep
        exact take_balanced h hbalanced rfl hdone
  | acting item data context =>
    cases server <;> try exact hserves.elim
    cases hstep
    exact hbalanced
  | freeing item =>
    cases server <;> try exact hserves.elim
    obtain ⟨block, hblock⟩ := h.inHand item (.head [])
    have hlive := Heap.live_free hblock
    simp only [queueStep, Heap.free_eq hblock, bind, Except.bind, pure, Except.pure] at hstep
    cases hstep
    simp only [QueueSystem.Balanced, HandlerPoint.item, List.length_cons,
      List.length_nil] at hbalanced ⊢
    exact Nat.add_right_cancel (hlive.trans hbalanced)
  | stopped => cases server <;> exact hserves.elim

/-- Each step of the queue keeps the account of its items. -/
theorem step_balanced (h : s.Shows f nodes) (hbalanced : s.Balanced f) (a : QueueAction α β)
    {out : List (QueueEvent (Option α × Option β))} (hstep : queueStep s a = .ok (t, out)) :
    t.Balanced (fifoStep f a).1 := by
  cases a with
  | create data context =>
    cases data with
    | none =>
      cases hstep
      exact hbalanced
    | some data =>
      cases hstep
      simp only [QueueSystem.Balanced, fifoStep, Heap.live_alloc, List.length_append,
        List.length_singleton] at hbalanced ⊢
      omega
  | add newItem => exact add_balanced h hbalanced newItem hstep
  | handler => exact handler_balanced h hbalanced hstep
  | wake =>
    cases hstep
    simpa only [QueueSystem.Balanced, fifoStep, signal_item] using hbalanced

end Balance

section Stopping
variable {α β : Type}

def HandlerPoint.resume : HandlerPoint α β → HandlerPoint α β
  | stopped => locking
  | point => point

/-- The queue as if it had not been told to stop. -/
def QueueSystem.resume (s : QueueSystem α β) : QueueSystem α β :=
  { s with queue := { s.queue with shutdown := false }, handler := s.handler.resume }

theorem resume_signal (point : HandlerPoint α β) : point.signal.resume = point.resume.signal := by
  cases point <;> rfl

theorem resume_signalled (empty : Prop) [Decidable empty] (point : HandlerPoint α β) :
    (if empty then point.signal else point).resume =
      if empty then point.resume.signal else point.resume := by
  split_ifs
  · exact resume_signal point
  · rfl

/-- A queue that shows the model has not been told to stop. -/
theorem resume_eq {s : QueueSystem α β} {f : Fifo (Option α × Option β)}
    {nodes : List (ℕ × Option α × Option β)} (h : s.Shows f nodes) : s.resume = s := by
  have hrunning := h.running
  have hserves := h.serves
  obtain ⟨items, ⟨top, bottom, state, shutdown⟩, handler, adding⟩ := s
  cases hrunning
  cases handler with
  | stopped => cases hserver : f.server <;> rw [hserver] at hserves <;> exact hserves.elim
  | locking | waiting woken | acting item data context | freeing item => rfl

/-- Linking an item does not look at the flag. -/
theorem add_resume (items : Heap (DataQueueItem α β)) (queue : DataQueue) (newItem : ℕ)
    (flag : Bool) :
    dataQueueAdd items { queue with shutdown := flag } newItem =
      (dataQueueAdd items queue newItem).map fun done =>
        (done.1, { done.2 with shutdown := flag }) := by
  cases hbottom : queue.bottom with
  | none =>
    simp only [dataQueueAdd, hbottom, bind, Except.bind, pure, Except.pure]
    cases items.load newItem with
    | error fault => rfl
    | ok item =>
      simp only
      cases items.store newItem { item with next := none } <;> rfl
  | some bottom =>
    simp only [dataQueueAdd, hbottom, bind, Except.bind, pure, Except.pure]
    cases items.load bottom with
    | error fault => rfl
    | ok last =>
      simp only
      cases items.store bottom { last with next := some newItem } with
      | error fault => rfl
      | ok linked =>
        simp only
        cases linked.load newItem with
        | error fault => rfl
        | ok item =>
          simp only
          cases linked.store newItem { item with next := none } <;> rfl

theorem add_shutdown {items : Heap (DataQueueItem α β)} {queue : DataQueue} {newItem : ℕ}
    {done : Heap (DataQueueItem α β) × DataQueue}
    (hadd : dataQueueAdd items queue newItem = .ok done) : done.2.shutdown = queue.shutdown := by
  have hsame := add_resume items queue newItem queue.shutdown
  rw [hadd] at hsame
  exact congrArg (fun linked => linked.2.shutdown) (Except.ok.inj hsame)

theorem signal_waits (point : HandlerPoint α β) : point.signal ≠ .waiting false := by
  cases point <;> simp [HandlerPoint.signal]

/-- The steps that do not look at the flag are those of the queue that goes on. -/
theorem step_resume {s t : QueueSystem α β} {a : QueueAction α β}
    {out : List (QueueEvent (Option α × Option β))}
    (hhand : a = .handler → s.handler.item ≠ []) (hstep : queueStep s.resume a = .ok (t, out)) :
    ∃ t', queueStep s a = .ok (t', out) ∧ t'.resume = t ∧ t'.queue.shutdown = s.queue.shutdown ∧
      (t'.handler = .waiting false → s.handler = .waiting false) := by
  cases a with
  | create data context =>
    cases data with
    | none =>
      cases hstep
      exact ⟨s, rfl, rfl, rfl, id⟩
    | some data =>
      cases hstep
      exact ⟨_, rfl, rfl, rfl, id⟩
  | add newItem =>
    simp only [queueStep, QueueSystem.resume] at hstep ⊢
    cases hfind : s.adding.find? fun call => call.1 = newItem with
    | none =>
      rw [hfind] at hstep
      cases hstep
      exact ⟨s, rfl, rfl, rfl, id⟩
    | some call =>
      simp only [hfind, add_resume, bind, Except.bind, pure, Except.pure] at hstep ⊢
      cases hadd : dataQueueAdd s.items s.queue call.1 with
      | error fault => simp [hadd, Except.map] at hstep
      | ok linked =>
        simp only [hadd, Except.map] at hstep
        cases hstep
        refine ⟨_, rfl, ?_, ?_, ?_⟩
        · simp only [QueueSystem.mk.injEq, true_and, and_true]
          exact resume_signalled _ _
        · exact add_shutdown hadd
        · split_ifs
          · exact fun hwaiting => absurd hwaiting (signal_waits _)
          · exact id
  | handler =>
    obtain ⟨items, queue, handler, adding⟩ := s
    cases handler with
    | acting item data context =>
      cases hstep
      exact ⟨_, rfl, rfl, rfl, by simp⟩
    | freeing item =>
      simp only [queueStep, QueueSystem.resume, HandlerPoint.resume, bind, Except.bind, pure,
        Except.pure] at hstep ⊢
      cases hfree : items.free item with
      | error fault => simp [hfree] at hstep
      | ok freed =>
        simp only [hfree] at hstep
        cases hstep
        exact ⟨_, rfl, rfl, rfl, by simp⟩
    | locking | waiting woken | stopped => exact absurd rfl (hhand rfl)
  | wake =>
    cases hstep
    refine ⟨_, rfl, ?_, rfl, ?_⟩
    · simp only [QueueSystem.resume, resume_signal]
    · exact fun hwaiting => absurd hwaiting (signal_waits _)

/-- The thread ends where it sees that the queue has been told to stop. -/
theorem handler_stops {items : Heap (DataQueueItem α β)} {queue : DataQueue}
    (hflag : queue.shutdown = true) : dataQueueHandler items queue = .ok (queue, .stopped) := by
  have hnot : ¬ (queue.state = .empty ∧ queue.shutdown = false) := by simp [hflag]
  rw [dataQueueHandler, if_neg hnot, if_pos hflag]

/-- A queue that has been told to stop makes no step that the queue that goes on would not,
except that its thread ends where it would take an item or wait. -/
theorem stopping_step {s : QueueSystem α β} {f : Fifo (Option α × Option β)}
    {nodes : List (ℕ × Option α × Option β)} (h : s.resume.Shows f nodes)
    (hbalanced : s.resume.Balanced f) (hflag : s.queue.shutdown = true)
    (hwoken : s.handler ≠ .waiting false) (a : QueueAction α β) :
    ∃ t out f' nodes', queueStep s a = .ok (t, out) ∧ t.resume.Shows f' nodes' ∧
      t.resume.Balanced f' ∧ t.queue.shutdown = true ∧ t.handler ≠ .waiting false ∧
      f.held ++ addedPairs out = passedPairs out ++ f'.held := by
  by_cases hhand : a = .handler → s.handler.item ≠ []
  · obtain ⟨t, hstep, nodes', hshows⟩ := step_shows ⟨nodes, h⟩ a
    obtain ⟨t', hstep', rfl, hflag', hwaiting⟩ := step_resume hhand hstep
    exact ⟨t', _, _, nodes', hstep', hshows, step_balanced h hbalanced a hstep,
      hflag'.trans hflag, fun hpoint => hwoken (hwaiting hpoint), fifo_flow f a⟩
  · obtain ⟨rfl, hfree⟩ : a = .handler ∧ s.handler.item = [] := by
      simpa using hhand
    obtain ⟨items, queue, handler, adding⟩ := s
    obtain ⟨ticket, calls, line, server⟩ := f
    have hended : dataQueueHandler items queue = .ok (queue, .stopped) := handler_stops hflag
    have hserves := h.serves
    cases handler with
    | locking =>
      refine ⟨⟨items, queue, .stopped, adding⟩, [], _, nodes, ?_, h, hbalanced, hflag, nofun, ?_⟩
      · simp only [queueStep, hended, bind, Except.bind, pure, Except.pure]
      · simp [addedPairs, passedPairs]
    | waiting woken =>
      cases woken with
      | false => exact absurd rfl hwoken
      | true =>
        cases server <;> try exact hserves.elim
        refine ⟨⟨items, queue, .stopped, adding⟩, [], ⟨ticket, calls, line, .free⟩, nodes, ?_,
          { h with
            serves := trivial
            inHand := h.inHand
            handApart := h.handApart }, hbalanced, hflag, nofun, ?_⟩
        · simp only [queueStep, hended, bind, Except.bind, pure, Except.pure]
        · simp [addedPairs, passedPairs, Fifo.held]
    | acting item data context => cases hfree
    | freeing item => cases hfree
    | stopped =>
      exact ⟨_, [], _, nodes, rfl, h, hbalanced, hflag, nofun, by simp [addedPairs, passedPairs]⟩

/-- What the queue holds, and where its items are, as it is stopped. -/
inductive QueueLife.Holds : QueueLife α β → List (Option α × Option β) → Prop
  | serving {system f nodes} (h : system.Shows f nodes) (hbalanced : system.Balanced f) :
    QueueLife.Holds ⟨system, .serving⟩ f.held
  | joining {system f nodes} (h : system.resume.Shows f nodes)
      (hbalanced : system.resume.Balanced f) (hflag : system.queue.shutdown = true)
      (hwoken : system.handler ≠ .waiting false) :
    QueueLife.Holds ⟨system, .joining⟩ f.held
  | destroying {system nodes}
      (hlinked : Linked DataQueueItem.next DataQueueItem.pair system.items system.queue.top nodes)
      (hdistinct : (nodes.map Prod.fst).Nodup)
      (hlive : system.items.live = nodes.length + system.adding.length)
      (hstopped : system.handler = .stopped) :
    QueueLife.Holds ⟨system, .destroying⟩ (nodes.map Prod.snd)
  | destroyed {system} (hlive : system.items.live = 0) (hadding : system.adding = [])
      (hstopped : system.handler = .stopped) :
    QueueLife.Holds ⟨system, .destroyed⟩ []

theorem lifeStart_holds : (queueLifeStart : QueueLife α β).Holds [] :=
  .serving start_shows rfl

/-- A step of the queue in a life goes through. -/
theorem lifeStep_queue {s : QueueLife α β} {a : QueueAction α β} {t : QueueSystem α β}
    {out : List (QueueEvent (Option α × Option β))} (hstep : queueStep s.system a = .ok (t, out))
    (hstopper : s.stopper = .serving ∨ s.stopper = .joining) :
    lifeStep s (.queue a) = .ok ({ s with system := t }, out.map .queue) := by
  obtain ⟨system, stopper⟩ := s
  obtain rfl | rfl := hstopper <;>
    simp only [lifeStep, hstep, bind, Except.bind, pure, Except.pure]

theorem held_of_free {s : QueueSystem α β} {f : Fifo (Option α × Option β)}
    {nodes : List (ℕ × Option α × Option β)} (h : s.Shows f nodes) (hfree : s.handler = .locking) :
    f.held = nodes.map Prod.snd := by
  have hserves := h.serves
  have hqueued := h.queued
  obtain ⟨ticket, calls, line, server⟩ := f
  rw [hfree] at hserves
  cases server <;> try exact hserves.elim
  exact hqueued

theorem stop_holds {s : QueueLife α β} {held : List (Option α × Option β)} (h : s.Holds held)
    (hquiet : s.stopper = .destroying → s.system.adding = []) :
    ∃ t now held', midiSenderStop s = .ok (t, now) ∧ t.Holds held' ∧
      held ++ now.filterMap LifeEvent.entered = now.filterMap LifeEvent.left ++ held' := by
  cases h with
  | @serving system f nodes h hbalanced =>
    obtain ⟨t, hstep, nodes', hshows⟩ := wake_shows h
    have hbalanced' := step_balanced h hbalanced .wake hstep
    cases hstep
    have hresume := resume_eq hshows
    refine ⟨_, [], _, rfl, @QueueLife.Holds.joining _ _ _ (fifoStep (α := α) (β := β) f .wake).1
      nodes' ?_ ?_ rfl (signal_waits _), ?_⟩
    · exact hresume.symm ▸ hshows
    · exact hresume.symm ▸ hbalanced'
    · simp [fifoStep, FifoServer.wake_held f f.queued]
  | @joining system f nodes h hbalanced hflag hwoken =>
    obtain ⟨items, queue, handler, adding⟩ := system
    cases handler with
    | stopped =>
      have hlive : items.live = nodes.length + adding.length := by
        have hlength : f.queued.length = nodes.length := by rw [h.queued, List.length_map]
        rw [← hlength]
        exact hbalanced
      refine ⟨_, [], _, rfl, .destroying h.linked h.distinct hlive rfl, ?_⟩
      simp [held_of_free h rfl]
    | locking | waiting woken | acting item data context | freeing item =>
      exact ⟨_, [], _, rfl, .joining h hbalanced hflag hwoken, by simp⟩
  | @destroying system nodes hlinked hdistinct hlive hstopped =>
    cases nodes with
    | nil =>
      have hadding : system.adding = [] := hquiet rfl
      refine ⟨⟨system, .destroyed⟩, [], [], ?_, .destroyed ?_ hadding hstopped, by simp⟩
      · have htop : system.queue.top = none := hlinked
        simp only [midiSenderStop, htop]
      · simpa [hadding] using hlive
    | cons first rest =>
      obtain ⟨htop, block, hblock, hpair, hrest⟩ := hlinked
      obtain ⟨hnot, hdistinct⟩ := List.nodup_cons.mp hdistinct
      have hfreed : dataQueueDestroy system.items system.queue first.1 =
          .ok (system.items.put first.1 none, { system.queue with top := block.next },
            first.2) := by
        simp only [dataQueueDestroy, Heap.load_eq hblock, Heap.free_eq hblock, hpair, bind,
          Except.bind, pure, Except.pure]
      refine ⟨⟨{ system with
          items := system.items.put first.1 none
          queue := { system.queue with top := block.next } }, .destroying⟩,
        [.dropped first.2], rest.map Prod.snd, ?_, .destroying ?_ hdistinct ?_ hstopped, ?_⟩
      · simp only [midiSenderStop, htop, hfreed, bind, Except.bind, pure, Except.pure]
      · refine hrest.frame fun node hnode => Heap.block_put_ne (fun heq => hnot ?_) _
        rw [heq]
        exact List.mem_map_of_mem hnode
      · have hlive' := Heap.live_free hblock
        rw [List.length_cons] at hlive
        simp only
        omega
      · simp [LifeEvent.entered, LifeEvent.left]
  | destroyed hlive hadding hstopped =>
    exact ⟨_, [], [], rfl, .destroyed hlive hadding hstopped, by simp⟩

/-- While the items are freed the other threads do not touch them. -/
theorem freeing_holds {system : QueueSystem α β} {nodes : List (ℕ × Option α × Option β)}
    (hlinked : Linked DataQueueItem.next DataQueueItem.pair system.items system.queue.top nodes)
    (hdistinct : (nodes.map Prod.fst).Nodup)
    (hlive : system.items.live = nodes.length + system.adding.length)
    (hstopped : system.handler = .stopped) (a : QueueAction α β) :
    ∃ t now held', lifeStep ⟨system, .destroying⟩ (.queue a) = .ok (t, now) ∧ t.Holds held' ∧
      nodes.map Prod.snd ++ now.filterMap LifeEvent.entered =
        now.filterMap LifeEvent.left ++ held' := by
  cases a with
  | create data context =>
    cases data with
    | none => exact ⟨_, [], _, rfl, .destroying hlinked hdistinct hlive hstopped, by simp⟩
    | some data =>
      refine ⟨_, [], _, rfl, @QueueLife.Holds.destroying _ _ _ nodes ?_ hdistinct ?_ hstopped,
        by simp⟩
      · refine hlinked.frame fun node hnode => ?_
        obtain ⟨block, hblock, -⟩ := hlinked.block hnode
        rw [hblock, Heap.block_alloc_old hblock]
      · simp only [Heap.live_alloc, List.length_append, List.length_singleton, hlive,
          Nat.add_assoc]
  | add newItem => exact ⟨_, [], _, rfl, .destroying hlinked hdistinct hlive hstopped, by simp⟩
  | handler =>
    refine ⟨_, [], _, ?_, .destroying hlinked hdistinct hlive hstopped, by simp⟩
    simp only [lifeStep, queueStep, hstopped, bind, Except.bind, pure, Except.pure, List.map_nil]
  | wake =>
    refine ⟨_, [], _, rfl, .destroying hlinked hdistinct hlive ?_, by simp⟩
    rw [hstopped]
    rfl

/-- Without a call under way nobody comes back to a queue that is gone. -/
theorem freed_holds {system : QueueSystem α β} (hlive : system.items.live = 0)
    (hadding : system.adding = []) (hstopped : system.handler = .stopped) (a : QueueAction α β) :
    ∃ t now held', lifeStep ⟨system, .destroyed⟩ (.queue a) = .ok (t, now) ∧ t.Holds held' ∧
      [] ++ now.filterMap LifeEvent.entered = now.filterMap LifeEvent.left ++ held' := by
  cases a with
  | create data context =>
    exact ⟨_, [], _, rfl, .destroyed hlive hadding hstopped, by simp⟩
  | add newItem =>
    refine ⟨_, [], _, ?_, .destroyed hlive hadding hstopped, by simp⟩
    simp [lifeStep, hadding]
  | handler =>
    refine ⟨_, [], _, ?_, .destroyed hlive hadding hstopped, by simp⟩
    simp only [lifeStep, queueStep, hstopped, bind, Except.bind, pure, Except.pure, List.map_nil]
  | wake =>
    refine ⟨_, [], _, rfl, .destroyed hlive hadding ?_, by simp⟩
    rw [hstopped]
    rfl

/-- No step faults, and each hands on what has entered in its order. -/
theorem life_holds {s : QueueLife α β} {held : List (Option α × Option β)} (h : s.Holds held)
    {a : LifeAction α β} (hquiet : Quiet s a) :
    ∃ t now held', lifeStep s a = .ok (t, now) ∧ t.Holds held' ∧
      held ++ now.filterMap LifeEvent.entered = now.filterMap LifeEvent.left ++ held' := by
  cases a with
  | stop => exact stop_holds h hquiet
  | queue a =>
    cases h with
    | @serving system f nodes h hbalanced =>
      obtain ⟨t, hstep, nodes', hshows⟩ := step_shows ⟨nodes, h⟩ a
      refine ⟨_, _, _, lifeStep_queue hstep (.inl rfl),
        .serving hshows (step_balanced h hbalanced a hstep), ?_⟩
      rw [LifeEvent.entered_queue, LifeEvent.left_queue]
      exact fifo_flow f a
    | @joining system f nodes h hbalanced hflag hwoken =>
      obtain ⟨t, out, f', nodes', hstep, hshows, hbalanced', hflag', hwoken', hflow⟩ :=
        stopping_step h hbalanced hflag hwoken a
      refine ⟨_, _, _, lifeStep_queue hstep (.inr rfl),
        .joining hshows hbalanced' hflag' hwoken', ?_⟩
      rw [LifeEvent.entered_queue, LifeEvent.left_queue]
      exact hflow
    | @destroying system nodes hlinked hdistinct hlive hstopped =>
      exact freeing_holds hlinked hdistinct hlive hstopped a
    | destroyed hlive hadding hstopped =>
      exact freed_holds hlive hadding hstopped a

theorem life_flow (s : QueueLife α β) (a : LifeAction α β) (t : QueueLife α β)
    (now : List (LifeEvent (Option α × Option β))) (held : List (Option α × Option β))
    (h : s.Holds held) (hquiet : Quiet s a) (hstep : lifeStep s a = .ok (t, now)) :
    ∃ held', t.Holds held' ∧
      held ++ now.filterMap LifeEvent.entered = now.filterMap LifeEvent.left ++ held' := by
  obtain ⟨t', now', held', hstep', ht, hflow⟩ := life_holds h hquiet
  cases hstep.symm.trans hstep'
  exact ⟨held', ht, hflow⟩

/-- The queue has no thread any more. -/
def QueueLife.Late (s : QueueLife α β) : Prop :=
  s.stopper = .destroying ∨ s.stopper = .destroyed

theorem lifeStep_lost {s t : QueueLife α β} (hearly : ¬ s.Late) {a : LifeAction α β}
    {now : List (LifeEvent (Option α × Option β))} (hstep : lifeStep s a = .ok (t, now)) :
    now.filterMap LifeEvent.lost = [] := by
  obtain ⟨system, stopper⟩ := s
  cases a with
  | stop =>
    cases stopper with
    | serving =>
      cases hstep
      rfl
    | joining =>
      simp only [lifeStep, midiSenderStop] at hstep
      split at hstep <;>
      · cases hstep
        rfl
    | destroying => exact absurd (.inl rfl) hearly
    | destroyed => exact absurd (.inr rfl) hearly
  | queue a =>
    have hlost : ∀ {r}, (do
        let done ← queueStep system a
        return ((⟨done.1, stopper⟩ : QueueLife α β), done.2.map LifeEvent.queue)) = Except.ok r →
          r.2.filterMap LifeEvent.lost = [] := by
      intro r hr
      simp only [bind, Except.bind, pure, Except.pure] at hr
      split at hr
      · cases hr
      · cases hr
        exact LifeEvent.lost_queue _
    cases stopper with
    | serving => exact hlost hstep
    | joining => exact hlost hstep
    | destroying => exact absurd (.inl rfl) hearly
    | destroyed => exact absurd (.inr rfl) hearly

theorem lifeStep_passed {s t : QueueLife α β} (hlate : s.Late)
    (hstopped : s.system.handler = .stopped) {a : LifeAction α β}
    {now : List (LifeEvent (Option α × Option β))} (hstep : lifeStep s a = .ok (t, now)) :
    t.Late ∧ now.filterMap LifeEvent.passed = [] := by
  obtain ⟨⟨items, queue, handler, adding⟩, stopper⟩ := s
  cases hstopped
  cases a with
  | stop =>
    obtain rfl | rfl := hlate
    · simp only [lifeStep, midiSenderStop, bind, Except.bind, pure, Except.pure] at hstep
      split at hstep
      · cases hstep
        exact ⟨.inr rfl, rfl⟩
      · split at hstep
        · cases hstep
        · cases hstep
          exact ⟨.inl rfl, rfl⟩
    · cases hstep
      exact ⟨.inr rfl, rfl⟩
  | queue a =>
    cases a with
    | create data context =>
      obtain rfl | rfl := hlate
      · cases data with
        | none =>
          cases hstep
          exact ⟨.inl rfl, rfl⟩
        | some data =>
          cases hstep
          exact ⟨.inl rfl, rfl⟩
      · cases hstep
        exact ⟨.inr rfl, rfl⟩
    | add newItem =>
      obtain rfl | rfl := hlate
      · cases hstep
        exact ⟨.inl rfl, rfl⟩
      · simp only [lifeStep] at hstep
        split at hstep
        · cases hstep
        · cases hstep
          exact ⟨.inr rfl, rfl⟩
    | handler | wake =>
      obtain rfl | rfl := hlate
      · cases hstep
        exact ⟨.inl rfl, rfl⟩
      · cases hstep
        exact ⟨.inr rfl, rfl⟩

/-- Nothing is dropped while the thread lives, and nothing is passed on after that. -/
theorem life_order {s t : QueueLife α β} {held : List (Option α × Option β)} (h : s.Holds held)
    {a : LifeAction α β} {now : List (LifeEvent (Option α × Option β))}
    (hstep : lifeStep s a = .ok (t, now)) :
    (¬ s.Late ∧ now.filterMap LifeEvent.lost = []) ∨
      (s.Late ∧ t.Late ∧ now.filterMap LifeEvent.passed = []) := by
  by_cases hlate : s.Late
  · have hstopped : s.system.handler = .stopped := by
      cases h with
      | serving h hbalanced => exact absurd hlate (by simp [QueueLife.Late])
      | joining h hbalanced hflag hwoken => exact absurd hlate (by simp [QueueLife.Late])
      | destroying hlinked hdistinct hlive hstopped => exact hstopped
      | destroyed hlive hadding hstopped => exact hstopped
    exact .inr ⟨hlate, lifeStep_passed hlate hstopped hstep⟩
  · exact .inl ⟨hlate, lifeStep_lost hlate hstep⟩

theorem run_order {s t : QueueLife α β} {held : List (Option α × Option β)} (h : s.Holds held)
    {actions : List (LifeAction α β)} (hquiet : Along lifeStep Quiet s actions)
    {out : List (LifeEvent (Option α × Option β))} (hrun : run lifeStep s actions = .ok (t, out)) :
    out.filterMap LifeEvent.left =
        out.filterMap LifeEvent.passed ++ out.filterMap LifeEvent.lost ∧
      (s.Late → out.filterMap LifeEvent.passed = []) := by
  induction actions generalizing s held out with
  | nil =>
    cases hrun
    simp
  | cons a actions ih =>
    obtain ⟨r, now, later, hnow, hlater, rfl⟩ := run_cons_inv hrun
    obtain ⟨held', hr, -⟩ := life_flow s a r now held h hquiet.1 hnow
    obtain ⟨hleft, hlate⟩ := ih hr (hquiet.2 r now hnow) hlater
    simp only [List.filterMap_append]
    rcases life_order h hnow with ⟨hearly, hlost⟩ | ⟨-, hnext, hpassed⟩
    · refine ⟨?_, fun hs => absurd hs hearly⟩
      rw [LifeEvent.left_of_lost hlost, hleft, hlost, List.nil_append, List.append_assoc]
    · rw [hpassed, hlate hnext, LifeEvent.left_of_passed hpassed, hleft, hlate hnext]
      simp

/-- Whatever threads run, no freed item is touched; each pair that was added is passed on,
in order, or is one of those behind them that are dropped with the queue; and nothing is
left when the queue is gone. -/
theorem queue_life (actions : List (LifeAction α β))
    (hquiet : Along lifeStep Quiet queueLifeStart actions) :
    ∃ t out held, run lifeStep queueLifeStart actions = .ok (t, out) ∧
      out.filterMap LifeEvent.entered =
        out.filterMap LifeEvent.passed ++ out.filterMap LifeEvent.lost ++ held ∧
      t.Holds held ∧
      (t.stopper = .destroyed → held = [] ∧ ∀ p, t.system.items.block p = none) := by
  obtain ⟨t, out, hrun, -, -⟩ :=
    @run_invariant _ _ _ _ lifeStep Quiet (fun s : QueueLife α β => ∃ held, s.Holds held)
      (fun _ => True) (fun _ _ h hquiet => by
        obtain ⟨held, h⟩ := h
        obtain ⟨t, now, held', hstep, ht, -⟩ := life_holds h hquiet
        exact ⟨t, now, hstep, ⟨held', ht⟩, fun _ _ => trivial⟩)
      queueLifeStart ⟨[], lifeStart_holds⟩ actions hquiet
  obtain ⟨held, hholds, hflow⟩ := run_flow life_flow lifeStart_holds hquiet hrun
  refine ⟨t, out, held, hrun, ?_, hholds, fun hgone => ?_⟩
  · rw [← (run_order lifeStart_holds hquiet hrun).1]
    exact hflow
  · cases hholds with
    | destroyed hlive hadding hstopped => exact ⟨rfl, Heap.block_of_live hlive⟩
    | _ => cases hgone

/-- Two pairs are added; the first is in hand when the queue is told to stop. -/
def stoppedWithTwo : List (LifeAction ℕ ℕ) :=
  [.queue (.create (some 1) none), .queue (.add 0), .queue .handler,
    .queue (.create (some 2) none), .stop, .queue (.add 1), .queue .handler, .queue .handler,
    .queue .handler, .stop, .stop, .stop]

theorem queue_life_two : ∃ t out held, run lifeStep queueLifeStart stoppedWithTwo = .ok (t, out) ∧
    out.filterMap LifeEvent.entered =
      out.filterMap LifeEvent.passed ++ out.filterMap LifeEvent.lost ++ held ∧
    t.Holds held ∧
    (t.stopper = .destroyed → held = [] ∧ ∀ p, t.system.items.block p = none) :=
  queue_life stoppedWithTwo (by decide)

/-- How many of its own steps the thread of a stopped queue has still to take. -/
def HandlerPoint.remaining : HandlerPoint α β → ℕ
  | stopped => 0
  | locking => 1
  | waiting _ => 1
  | freeing _ => 2
  | acting _ _ _ => 3

/-- The pairs that the thread has taken and not passed on. -/
def HandlerPoint.pending : HandlerPoint α β → List (Option α × Option β)
  | acting _ data context => [(data, context)]
  | _ => []

def LifeAction.isHandler : LifeAction α β → Bool
  | queue .handler => true
  | _ => false

/-- A queue that has been told to stop, and whose thread knows it or will see it. -/
def QueueLife.Stopping (s : QueueLife α β) : Prop :=
  s.system.queue.shutdown = true ∧ s.system.handler ≠ .waiting false

theorem signal_remaining (point : HandlerPoint α β) :
    point.signal.remaining = point.remaining ∧ point.signal.pending = point.pending := by
  cases point <;> exact ⟨rfl, rfl⟩

/-- The thread comes one step nearer to its end with each of its steps, and no other thread
sets it back. -/
theorem queueStep_remaining {s t : QueueSystem α β} (hflag : s.queue.shutdown = true)
    (hwoken : s.handler ≠ .waiting false) {a : QueueAction α β}
    {out : List (QueueEvent (Option α × Option β))} (hstep : queueStep s a = .ok (t, out)) :
    t.queue.shutdown = true ∧ t.handler ≠ .waiting false ∧
      t.handler.remaining =
        s.handler.remaining - (if (LifeAction.queue a).isHandler then 1 else 0) ∧
      passedPairs out ++ t.handler.pending = s.handler.pending := by
  obtain ⟨items, queue, handler, adding⟩ := s
  cases a with
  | create data context =>
    cases data <;>
    · cases hstep
      exact ⟨hflag, hwoken, rfl, rfl⟩
  | add newItem =>
    simp only [queueStep] at hstep
    split at hstep
    · cases hstep
      exact ⟨hflag, hwoken, rfl, rfl⟩
    next call _ =>
      simp only [bind, Except.bind, pure, Except.pure] at hstep
      split at hstep
      · cases hstep
      next linked hlinked =>
        cases hstep
        obtain ⟨hremaining, hpending⟩ := signal_remaining handler
        refine ⟨(add_shutdown hlinked).trans hflag, ?_⟩
        by_cases hempty : queue.state = .empty
        · simp only [if_pos hempty]
          exact ⟨signal_waits _, hremaining, hpending⟩
        · simp only [if_neg hempty]
          exact ⟨hwoken, rfl, rfl⟩
  | handler =>
    have hended : dataQueueHandler items queue = .ok (queue, .stopped) := handler_stops hflag
    cases handler with
    | waiting woken =>
      cases woken with
      | false => exact absurd rfl hwoken
      | true =>
        simp only [queueStep, hended, bind, Except.bind, pure, Except.pure] at hstep
        cases hstep
        exact ⟨hflag, by simp, rfl, rfl⟩
    | locking =>
      simp only [queueStep, hended, bind, Except.bind, pure, Except.pure] at hstep
      cases hstep
      exact ⟨hflag, by simp, rfl, rfl⟩
    | acting item data context =>
      cases hstep
      exact ⟨hflag, by simp, rfl, rfl⟩
    | freeing item =>
      simp only [queueStep, bind, Except.bind, pure, Except.pure] at hstep
      split at hstep
      · cases hstep
      · cases hstep
        exact ⟨hflag, by simp, rfl, rfl⟩
    | stopped =>
      cases hstep
      exact ⟨hflag, by simp, rfl, rfl⟩
  | wake =>
    cases hstep
    obtain ⟨hremaining, hpending⟩ := signal_remaining handler
    exact ⟨hflag, signal_waits _, hremaining, hpending⟩

theorem stop_remaining {s t : QueueLife α β} (h : s.Stopping)
    {now : List (LifeEvent (Option α × Option β))} (hstep : midiSenderStop s = .ok (t, now)) :
    t.Stopping ∧ t.system.handler.remaining = s.system.handler.remaining ∧
      now.filterMap LifeEvent.passed ++ t.system.handler.pending =
        s.system.handler.pending := by
  obtain ⟨⟨items, queue, handler, adding⟩, stopper⟩ := s
  obtain ⟨hflag, hwoken⟩ := h
  cases stopper with
  | serving =>
    cases hstep
    obtain ⟨hremaining, hpending⟩ := signal_remaining handler
    exact ⟨⟨rfl, signal_waits _⟩, hremaining, hpending⟩
  | joining =>
    simp only [midiSenderStop] at hstep
    split at hstep <;>
    · cases hstep
      exact ⟨⟨hflag, hwoken⟩, rfl, rfl⟩
  | destroying =>
    simp only [midiSenderStop, dataQueueDestroy, bind, Except.bind, pure, Except.pure] at hstep
    split at hstep
    · cases hstep
      exact ⟨⟨hflag, hwoken⟩, rfl, rfl⟩
    · split at hstep
      · cases hstep
      next freed hfreed =>
        have hkept : freed.2.1.shutdown = queue.shutdown := by
          split at hfreed
          · cases hfreed
          · split at hfreed
            · cases hfreed
            · cases hfreed
              rfl
        cases hstep
        exact ⟨⟨hkept.trans hflag, hwoken⟩, rfl, rfl⟩
  | destroyed =>
    cases hstep
    exact ⟨⟨hflag, hwoken⟩, rfl, rfl⟩

theorem lifeStep_remaining {s t : QueueLife α β} (h : s.Stopping) {a : LifeAction α β}
    {now : List (LifeEvent (Option α × Option β))} (hstep : lifeStep s a = .ok (t, now)) :
    t.Stopping ∧
      t.system.handler.remaining = s.system.handler.remaining - (if a.isHandler then 1 else 0) ∧
      now.filterMap LifeEvent.passed ++ t.system.handler.pending =
        s.system.handler.pending := by
  cases a with
  | stop => exact stop_remaining h hstep
  | queue a =>
    obtain ⟨system, stopper⟩ := s
    have hgoes : ∀ {r}, (do
        let done ← queueStep system a
        return ((⟨done.1, stopper⟩ : QueueLife α β), done.2.map LifeEvent.queue)) = Except.ok r →
          r.1.Stopping ∧ r.1.system.handler.remaining =
              system.handler.remaining - (if (LifeAction.queue a).isHandler then 1 else 0) ∧
            r.2.filterMap LifeEvent.passed ++ r.1.system.handler.pending =
              system.handler.pending := by
      intro r hr
      simp only [bind, Except.bind, pure, Except.pure] at hr
      split at hr
      · cases hr
      next done hdone =>
        cases hr
        obtain ⟨hflag, hwoken, hremaining, hpending⟩ := queueStep_remaining h.1 h.2 hdone
        refine ⟨⟨hflag, hwoken⟩, hremaining, ?_⟩
        rw [LifeEvent.passed_queue]
        exact hpending
    cases stopper with
    | serving => exact hgoes hstep
    | joining => exact hgoes hstep
    | destroying =>
      cases a with
      | add newItem =>
        cases hstep
        exact ⟨h, rfl, rfl⟩
      | create data context => exact hgoes hstep
      | handler => exact hgoes hstep
      | wake => exact hgoes hstep
    | destroyed =>
      cases a with
      | create data context =>
        cases hstep
        exact ⟨h, rfl, rfl⟩
      | add newItem =>
        simp only [lifeStep] at hstep
        split at hstep
        · cases hstep
        · cases hstep
          exact ⟨h, rfl, rfl⟩
      | handler => exact hgoes hstep
      | wake => exact hgoes hstep

theorem run_remaining {s t : QueueLife α β} (h : s.Stopping) {actions : List (LifeAction α β)}
    {out : List (LifeEvent (Option α × Option β))} (hrun : run lifeStep s actions = .ok (t, out)) :
    t.system.handler.remaining =
        s.system.handler.remaining - actions.countP LifeAction.isHandler ∧
      out.filterMap LifeEvent.passed ++ t.system.handler.pending =
        s.system.handler.pending := by
  induction actions generalizing s out with
  | nil =>
    cases hrun
    simp
  | cons a actions ih =>
    obtain ⟨r, now, later, hnow, hlater, rfl⟩ := run_cons_inv hrun
    obtain ⟨hr, hremaining, hpending⟩ := lifeStep_remaining h hnow
    obtain ⟨hrest, hlast⟩ := ih hr hlater
    refine ⟨?_, by rw [List.filterMap_append, List.append_assoc, hlast, hpending]⟩
    rw [hrest, hremaining, List.countP_cons]
    omega

/-- Wherever the thread of the queue is when the queue is told to stop, and whatever the other
threads do, it passes on the pair that it has in hand and no other, if any, and ends with its
third step at the latest. -/
theorem stop_ends {s t u : QueueLife α β} (hserving : s.stopper = .serving)
    {actions : List (LifeAction α β)} {now out : List (LifeEvent (Option α × Option β))}
    (hstop : lifeStep s .stop = .ok (t, now)) (hrun : run lifeStep t actions = .ok (u, out)) :
    (out.filterMap LifeEvent.passed).length ≤ 1 ∧
      (∀ pair ∈ out.filterMap LifeEvent.passed,
        ∃ item, s.system.handler = .acting item pair.1 pair.2) ∧
      (3 ≤ actions.countP LifeAction.isHandler → u.system.handler = .stopped) := by
  obtain ⟨system, stopper⟩ := s
  cases hserving
  cases hstop
  obtain ⟨hremaining, hpending⟩ := run_remaining ⟨rfl, signal_waits _⟩ hrun
  have hmost : ∀ point : HandlerPoint α β, point.remaining ≤ 3 ∧ point.pending.length ≤ 1 := by
    intro point
    cases point <;> simp [HandlerPoint.remaining, HandlerPoint.pending]
  have hacting : ∀ {point : HandlerPoint α β} {pair}, pair ∈ point.pending →
      ∃ item, point = .acting item pair.1 pair.2 := by
    intro point pair hpair
    cases point with
    | acting item data context =>
      rw [List.mem_singleton.mp hpair]
      exact ⟨item, rfl⟩
    | _ => cases hpair
  rw [(signal_remaining system.handler).2] at hpending
  refine ⟨?_, fun pair hpair => ?_, fun hsteps => ?_⟩
  · have hle := (hmost system.handler).2
    rw [← hpending, List.length_append] at hle
    omega
  · exact hacting (hpending ▸ List.mem_append_left _ hpair)
  · have hle := (hmost system.handler.signal).1
    have hnone : u.system.handler.remaining = 0 := by
      simp only at hremaining
      omega
    cases hpoint : u.system.handler with
    | stopped => rfl
    | _ => simp [hpoint, HandlerPoint.remaining] at hnone

/-- The thread has the only pair in hand, and ends after it has freed its item. -/
def lifeActing : QueueLife ℕ ℕ :=
  ⟨⟨⟨[some ⟨some 1, none, none⟩]⟩, dataQueueCreate, .acting 0 (some 1) none, []⟩, .serving⟩

def lifeEnded : QueueLife ℕ ℕ :=
  ⟨⟨⟨[none]⟩, dataQueueStop dataQueueCreate, .stopped, []⟩, .joining⟩

theorem stop_ends_acting :
    (([.queue (.passed (some 1, none))] : List (LifeEvent (Option ℕ × Option ℕ))).filterMap
      LifeEvent.passed).length ≤ 1 ∧
    (∀ pair ∈ ([.queue (.passed (some 1, none))] : List (LifeEvent (Option ℕ × Option ℕ))).filterMap
      LifeEvent.passed, ∃ item, lifeActing.system.handler = .acting item pair.1 pair.2) ∧
    (3 ≤ (List.replicate 3 (LifeAction.queue (α := ℕ) (β := ℕ) .handler)).countP
      LifeAction.isHandler → lifeEnded.system.handler = .stopped) :=
  stop_ends (s := lifeActing) rfl rfl rfl

end Stopping

end RaveloxMidi
