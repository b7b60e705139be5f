import RaveloxMidi.LinkedHeap
import RaveloxMidi.Transducer

/-!
# The work queue

Producers link items behind the last one, and a thread of its own takes them from
the top and hands what is in them to an action. Each section under the lock is one
step, and so is each piece of work between two sections; a producer that has
created its item and not yet linked it is under way. Waiting gives up the lock and
ends with a signal or without one.
-/
namespace RaveloxMidi
open LinkedHeap Transducer

/-- `data_queue_item_t`. -/
structure DataQueueItem (α β : Type) where
  data : Option α
  context : Option β
  next : Option ℕ

/-- What an item is there for. -/
def DataQueueItem.pair {α β : Type} (item : DataQueueItem α β) : Option α × Option β :=
  (item.data, item.context)

inductive DataQueueState where
  | empty
  | used
  deriving Repr, DecidableEq

/-- `data_queue_t` without the lock and the signal; the action is set for good. -/
structure DataQueue where
  top : Option ℕ
  bottom : Option ℕ
  state : DataQueueState
  shutdown : Bool

def dataQueueCreate : DataQueue := ⟨none, none, .empty, false⟩

section Sections
variable {α β : Type}

/-- The section of `data_queue_add` up to the signal. -/
def dataQueueAdd (items : Heap (DataQueueItem α β)) (queue : DataQueue) (newItem : ℕ) :
    Except HeapFault (Heap (DataQueueItem α β) × DataQueue) := do
  let top := if queue.top = none then some newItem else queue.top
  let items ← match queue.bottom with
    | none => .ok items
    | some bottom => do
      let last ← items.load bottom
      items.store bottom { last with next := some newItem }
  let item ← items.load newItem
  let items ← items.store newItem { item with next := none }
  return (items, { queue with top := top, bottom := some newItem, state := .used })

def dataQueueGet (items : Heap (DataQueueItem α β)) (queue : DataQueue) :
    Except HeapFault (DataQueue × Option ℕ) := do
  let top ← match queue.top with
    | none => .ok none
    | some item => (items.load item).map DataQueueItem.next
  return ({ queue with
    top := top
    bottom := if top = none then none else queue.bottom
    state := if top = none then .empty else .used }, queue.top)

/-- Where the thread of the queue is. It has been woken, or waits to be. -/
inductive HandlerPoint (α β : Type) where
  | locking
  | waiting (woken : Bool)
  | acting (item : ℕ) (data : Option α) (context : Option β)
  | freeing (item : ℕ)
  | stopped

/-- The section of `data_queue_handler`, from the lock or from the end of a wait. -/
def dataQueueHandler (items : Heap (DataQueueItem α β)) (queue : DataQueue) :
    Except HeapFault (DataQueue × HandlerPoint α β) :=
  if queue.state = .empty ∧ queue.shutdown = false then .ok (queue, .waiting false)
  else if queue.shutdown = true then .ok (queue, .stopped)
  else do
    let got ← dataQueueGet items queue
    match got.2 with
    | none => return (got.1, .locking)
    | some item => do
      let taken ← items.load item
      return (got.1, .acting item taken.data taken.context)

/-- The queue, its thread, and the calls of `data_queue_add` that have created their item. -/
structure QueueSystem (α β : Type) where
  items : Heap (DataQueueItem α β)
  queue : DataQueue
  handler : HandlerPoint α β
  adding : List (ℕ × Option α × Option β)

def queueSystemStart {α β : Type} : QueueSystem α β := ⟨⟨[]⟩, dataQueueCreate, .locking, []⟩

/-- Who takes the next step. A call that adds is known by its item. -/
inductive QueueAction (α β : Type) where
  | create (data : Option α) (context : Option β)
  | add (newItem : ℕ)
  | handler
  | wake

/-- What is added, under the lock, and what the action is called with. -/
inductive QueueEvent (γ : Type) where
  | added (pair : γ)
  | passed (pair : γ)

/-- A signal is lost on a thread that does not wait. -/
def HandlerPoint.signal : HandlerPoint α β → HandlerPoint α β
  | waiting _ => waiting true
  | point => point

/-- A step that its thread cannot take changes nothing. -/
def queueStep (s : QueueSystem α β) :
    QueueAction α β → Except HeapFault (QueueSystem α β × List (QueueEvent (Option α × Option β)))
  | .create none _ => .ok (s, [])
  | .create (some data) context =>
    .ok ({ s with
      items := s.items.alloc ⟨some data, context, none⟩
      adding := s.adding ++ [(s.items.fresh, some data, context)] }, [])
  | .add newItem =>
    match s.adding.find? fun call => call.1 = newItem with
    | none => .ok (s, [])
    | some call => do
      let linked ← dataQueueAdd s.items s.queue call.1
      return ({
        items := linked.1
        queue := linked.2
        handler := if s.queue.state = .empty then s.handler.signal else s.handler
        adding := s.adding.filter fun other => other.1 ≠ call.1 }, [.added call.2])
  | .handler =>
    match s.handler with
    | .locking | .waiting true => do
      let done ← dataQueueHandler s.items s.queue
      return ({ s with queue := done.1, handler := done.2 }, [])
    | .acting item data context =>
      .ok ({ s with handler := .freeing item }, [.passed (data, context)])
    | .freeing item => do
      let items ← s.items.free item
      return ({ s with items := items, handler := .locking }, [])
    | .waiting false | .stopped => .ok (s, [])
  | .wake => .ok ({ s with handler := s.handler.signal }, [])

end Sections

end RaveloxMidi
