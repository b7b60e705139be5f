import RaveloxMidi.DataQueue
import RaveloxMidi.SocketRead

/-!
# The contexts of the queued commands

A read gives all of its commands one context, which counts how often it is
referred to. The reader and each of its commands have a reference; who gives up
the last one destroys the context. Readers and the thread of the queue go from one
section under a lock to the next in any order.
-/
namespace RaveloxMidi
open LinkedHeap Transducer

/-- `data_context_t`. -/
structure DataContext where
  data : Option MidiSenderContext
  reference : UInt32

section Functions
variable (contexts : Heap DataContext) (context : ℕ)

def dataContextAcquire : Except HeapFault (Heap DataContext) := do
  let held ← contexts.load context
  contexts.store context { held with reference := held.reference + 1 }

/-- The section of `data_context_release`, with the count that it leaves. -/
def dataContextRelease : Except HeapFault (Heap DataContext × UInt32) := do
  let held ← contexts.load context
  let released := { held with reference := held.reference - 1 }
  let contexts ← contexts.store context released
  return (contexts, released.reference)

/-- The section of `data_context_destroy`; the data goes with it. -/
def dataContextClear : Except HeapFault (Heap DataContext) := do
  let _ ← contexts.load context
  contexts.store context ⟨none, 0⟩

end Functions

/-- Where a call of `net_socket_read` is that has created its context: the commands are
those that are still to come. -/
inductive ReaderPoint where
  | created (context : ℕ) (commands : List MidiCommand)
  | holding (context : ℕ) (commands : List MidiCommand)
  | acquired (context : ℕ) (command : MidiCommand) (commands : List MidiCommand)
  | adding (context : ℕ) (commands : List MidiCommand) (newItem : ℕ)
  | destroying (context : ℕ) (cleared : Bool)
  | finished

/-- Where `midi_sender_handler` is in the call for the item in hand. -/
inductive ReleasePoint where
  | entered
  | releasing (context : ℕ) (originator : MidiSenderContext)
  | destroying (context : ℕ) (cleared : Bool) (originator : MidiSenderContext)
  | sending (originator : MidiSenderContext)

structure ContextSystem where
  queue : QueueSystem MidiCommand ℕ
  contexts : Heap DataContext
  readers : List ReaderPoint
  sender : ReleasePoint

def contextSystemStart : ContextSystem := ⟨queueSystemStart, ⟨[]⟩, [], .entered⟩

/-- Who takes the next step. -/
inductive ContextAction where
  | begin (originators : MidiSenderContext) (commands : List MidiCommand)
  | reader (index : ℕ)
  | handler
  | wake

inductive ContextEvent where
  | destroyed (context : ℕ)
  | sent (command : Option MidiCommand) (originator : MidiSenderContext)
  deriving DecidableEq

/-- One step of a destruction: the section under the lock, then the memory. -/
def dataContextDestroy (contexts : Heap DataContext) (context : ℕ) (cleared : Bool) :
    Except HeapFault (Heap DataContext × List ContextEvent) :=
  if cleared then (contexts.free context).map fun freed => (freed, [.destroyed context])
  else (dataContextClear contexts context).map fun cleared => (cleared, [])

/-- `net_socket_read` from its context on: it acquires the context, does so again with
`midi_sender_add` for each command, and releases it. -/
def readerStep (s : ContextSystem) :
    ReaderPoint → Except HeapFault (ContextSystem × ReaderPoint × List ContextEvent)
  | .created context commands => do
    let contexts ← dataContextAcquire s.contexts context
    return ({ s with contexts := contexts }, .holding context commands, [])
  | .holding context [] => do
    let released ← dataContextRelease s.contexts context
    return ({ s with contexts := released.1 },
      if released.2 = 0 then .destroying context false else .finished, [])
  | .holding context (command :: commands) => do
    let contexts ← dataContextAcquire s.contexts context
    return ({ s with contexts := contexts }, .acquired context command commands, [])
  | .acquired context command commands => do
    let created ← queueStep s.queue (.create (some command) (some context))
    return ({ s with queue := created.1 }, .adding context commands s.queue.items.fresh, [])
  | .adding context commands newItem => do
    let added ← queueStep s.queue (.add newItem)
    return ({ s with queue := added.1 }, .holding context commands, [])
  | .destroying context cleared => do
    let done ← dataContextDestroy s.contexts context cleared
    return ({ s with contexts := done.1 },
      if cleared then .finished else .destroying context true, done.2)
  | .finished => .ok (s, .finished, [])

/-- `midi_sender_handler`: the originator is copied before the context is released. -/
def senderStep (s : ContextSystem) (data : Option MidiCommand) (context : Option ℕ) :
    Except HeapFault (ContextSystem × List ContextEvent) :=
  match s.sender, data, context with
  | .entered, none, _ => do
    let passed ← queueStep s.queue .handler
    return ({ s with queue := passed.1 }, [])
  | .entered, some _, none =>
    .ok ({ s with sender := .sending (midiSenderOriginator none) }, [])
  | .entered, some _, some context => do
    let held ← s.contexts.load context
    return ({ s with sender := .releasing context (midiSenderOriginator (some held.data)) }, [])
  | .releasing context originator, _, _ => do
    let released ← dataContextRelease s.contexts context
    return ({ s with
      contexts := released.1
      sender := if released.2 = 0 then .destroying context false originator
        else .sending originator }, [])
  | .destroying context cleared originator, _, _ => do
    let done ← dataContextDestroy s.contexts context cleared
    return ({ s with
      contexts := done.1
      sender := if cleared then .sending originator
        else .destroying context true originator }, done.2)
  | .sending originator, data, _ => do
    let passed ← queueStep s.queue .handler
    return ({ s with queue := passed.1, sender := .entered }, [.sent data originator])

/-- A reader that is not there takes no step. -/
def contextStep (s : ContextSystem) :
    ContextAction → Except HeapFault (ContextSystem × List ContextEvent)
  | .begin originators commands => .ok ({ s with
      contexts := s.contexts.alloc ⟨some originators, 0⟩
      readers := s.readers ++ [.created s.contexts.fresh commands] }, [])
  | .reader index =>
    match s.readers[index]? with
    | none => .ok (s, [])
    | some point => do
      let done ← readerStep s point
      return ({ done.1 with readers := s.readers.set index done.2.1 }, done.2.2)
  | .handler =>
    match s.queue.handler with
    | .acting _ data context => senderStep s data context
    | _ => do
      let done ← queueStep s.queue .handler
      return ({ s with queue := done.1 }, [])
  | .wake => do
    let woken ← queueStep s.queue .wake
    return ({ s with queue := woken.1 }, [])

end RaveloxMidi
