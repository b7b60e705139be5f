import RaveloxMidi.DataContext
import RaveloxMidi.QueueFifo

/-!
# References are counted until the last is gone

The reader of a context refers to it once, and each of its commands does so until
the thread of the queue has released it. A thread that has just created the
context, or has to destroy it, has it for itself. The count in the context is the
number of references at every moment, and the context is there as long as there is
a reference or a thread that has it for itself.
-/
namespace RaveloxMidi
open LinkedHeap Transducer

namespace ReaderPoint

def context : ReaderPoint → Option ℕ
  | created context _ | holding context _ | acquired context _ _ | adding context _ _
  | destroying context _ => some context
  | finished => none

/-- The reference of the reader. -/
def held : ReaderPoint → ℕ
  | holding _ _ | acquired _ _ _ | adding _ _ _ => 1
  | _ => 0

/-- The reference of a command that is not in the queue yet. -/
def carried : ReaderPoint → ℕ
  | acquired _ _ _ | adding _ _ _ => 1
  | _ => 0

/-- The reader has the context for itself. -/
def owned : ReaderPoint → ℕ
  | created _ _ | destroying _ _ => 1
  | _ => 0

/-- The commands that are still to come. -/
def left : ReaderPoint → ℕ
  | created _ commands | holding _ commands | acquired _ _ commands | adding _ commands _ =>
    commands.length
  | _ => 0

end ReaderPoint

/-- How many steps a reader and its commands can still take. -/
def ReaderPoint.toGo : ReaderPoint → ℕ
  | created _ commands => 10 * commands.length + 4
  | holding _ commands => 10 * commands.length + 3
  | acquired _ _ commands => 10 * commands.length + 12
  | adding _ commands _ => 10 * commands.length + 11
  | destroying _ cleared => if cleared then 1 else 2
  | finished => 0

def ReleasePoint.toGo : ReleasePoint → ℕ
  | entered => 6
  | releasing _ _ => 5
  | destroying _ cleared _ => if cleared then 3 else 4
  | sending _ => 2

/-- The thread of the queue has the context for itself. -/
def ReleasePoint.owned (c : ℕ) : ReleasePoint → ℕ
  | destroying context _ _ => if context = c then 1 else 0
  | _ => 0

/-- The reference of the command in hand, up to its release. -/
def handed (inHand : Option (Option MidiCommand × Option ℕ)) (c : ℕ) : ReleasePoint → ℕ
  | .entered => if inHand.bind Prod.snd = some c then 1 else 0
  | .releasing context _ => if context = c then 1 else 0
  | _ => 0

def HandlerPoint.inHand {α β : Type} : HandlerPoint α β → Option (Option α × Option β)
  | acting _ data context => some (data, context)
  | _ => none

def FifoServer.inHand {γ : Type} : FifoServer γ → Option γ
  | acting pair => some pair
  | _ => none

/-- The steps of the thread until it comes back for the next item. -/
def handling {γ : Type} : FifoServer γ → ReleasePoint → ℕ
  | .acting _, point => point.toGo
  | .leaving, _ => 1
  | _, _ => 0

/-- The pairs of a context in the queue. -/
def queuedWith (queued : List (Option MidiCommand × Option ℕ)) (c : ℕ) : ℕ :=
  queued.countP fun pair => pair.2 = some c

namespace ContextSystem

/-- The reader that has created a context. -/
def reader (s : ContextSystem) (c : ℕ) : ReaderPoint := s.readers[c]?.getD .finished

/-- The commands of a context that have acquired it and are not released, given the pairs
in the queue. -/
def outstanding (s : ContextSystem) (queued : List (Option MidiCommand × Option ℕ)) (c : ℕ) : ℕ :=
  (s.reader c).carried + queuedWith queued c + handed s.queue.handler.inHand c s.sender

def references (s : ContextSystem) (queued : List (Option MidiCommand × Option ℕ)) (c : ℕ) : ℕ :=
  (s.reader c).held + s.outstanding queued c

/-- The threads that have a context for themselves. -/
def owners (s : ContextSystem) (c : ℕ) : ℕ := (s.reader c).owned + s.sender.owned c

/-- A bound for the steps that are left, but for waits and for calls that are still to begin. -/
def toGo (s : ContextSystem) (f : Fifo (Option MidiCommand × Option ℕ)) : ℕ :=
  (s.readers.map ReaderPoint.toGo).sum + 7 * f.queued.length + handling f.server s.sender

end ContextSystem

/-- The count of a context that is there is the number of references. It is there as long
as somebody refers to it or has it for itself, and nobody else has it then. -/
structure CellSound (block : Option DataContext) (references owners : ℕ) : Prop where
  count : ∀ held, block = some held → held.reference.toNat = references
  gone : block = none ↔ references = 0 ∧ owners = 0
  once : owners ≤ 1
  alone : owners = 1 → references = 0

/-- Each reader that adds an item has a call of its own under way in the queue. -/
structure CallsMatch (readers : List ReaderPoint)
    (adding : List (ℕ × Option MidiCommand × Option ℕ)) : Prop where
  calls : ∀ (c context : ℕ) (commands : List MidiCommand) (newItem : ℕ),
    readers[c]? = some (.adding context commands newItem) →
    ∃ command, (newItem, some command, some c) ∈ adding
  apart : ∀ (i j context context' : ℕ) (commands commands' : List MidiCommand) (newItem : ℕ),
    readers[i]? = some (.adding context commands newItem) →
    readers[j]? = some (.adding context' commands' newItem) → i = j

/-- The invariant, with the model of the queue. -/
structure ContextSystem.Counted (limit : ℕ) (s : ContextSystem)
    (f : Fifo (Option MidiCommand × Option ℕ)) : Prop where
  shows : ∃ nodes, s.queue.Shows f nodes
  awake : f.Awake
  paired : ∀ pair ∈ f.held, ∃ command, pair.1 = some command
  size : s.contexts.fresh = s.readers.length
  own : ∀ (c : ℕ) (point : ReaderPoint), s.readers[c]? = some point →
    ∀ context ∈ point.context, context = c
  matched : CallsMatch s.readers f.adding
  idle : s.queue.handler.inHand = none → s.sender = .entered
  cell : ∀ c, CellSound (s.contexts.block c) (s.references f.queued c) (s.owners c)
  room : ∀ c, s.outstanding f.queued c + (s.reader c).left ≤ limit

section Cells
variable {contexts : Heap DataContext} {c references owners : ℕ}

/-- One context changes. -/
structure ChangedAt (contexts changed : Heap DataContext) (c : ℕ) : Prop where
  others : ∀ other ≠ c, changed.block other = contexts.block other
  fresh : changed.fresh = contexts.fresh

theorem CellSound.present {block : Option DataContext} (h : CellSound block references owners)
    (hpos : 0 < references + owners) : ∃ held, block = some held := by
  cases block with
  | some held => exact ⟨held, rfl⟩
  | none =>
    obtain ⟨hreferences, howners⟩ := h.gone.mp rfl
    omega

/-- Somebody refers to the context, or one thread has it for itself. -/
theorem CellSound.of_some {held : DataContext} (hcount : held.reference.toNat = references)
    (hwho : 0 < references ∧ owners = 0 ∨ references = 0 ∧ owners = 1) :
    CellSound (some held) references owners where
  count := by
    intro other hother
    cases hother
    exact hcount
  gone := by
    simp only [reduceCtorEq, false_iff]
    omega
  once := by omega
  alone := by omega

theorem CellSound.of_none : CellSound none 0 0 where
  count := fun _ hheld => nomatch hheld
  gone := by simp
  once := by omega
  alone := fun _ => rfl

/-- The contexts that have been destroyed, as a count of one or none for each. -/
def gone (contexts : Heap DataContext) (c : ℕ) : ℕ :=
  if c < contexts.fresh ∧ contexts.block c = none then 1 else 0

theorem gone_kept {changed : Heap DataContext} (hchanged : ChangedAt contexts changed c)
    (hbefore : contexts.block c ≠ none) (hafter : changed.block c ≠ none)
    (other : ℕ) : gone changed other = gone contexts other := by
  rw [gone, gone, hchanged.fresh]
  by_cases hother : other = c
  · rw [hother]
    simp [hbefore, hafter]
  · rw [hchanged.others other hother]

theorem gone_freed {changed : Heap DataContext} (hchanged : ChangedAt contexts changed c)
    {held : DataContext} (hbefore : contexts.block c = some held)
    (hafter : changed.block c = none) (other : ℕ) :
    gone contexts other + [ContextEvent.destroyed c].count (.destroyed other) =
      gone changed other := by
  rw [gone, gone, hchanged.fresh]
  by_cases hother : other = c
  · rw [hother]
    simp [hbefore, hafter, Heap.lt_fresh hbefore]
  · rw [hchanged.others other hother]
    simp [Ne.symm hother]

theorem put_changedAt (contexts : Heap DataContext) (c : ℕ) (cell : Option DataContext) :
    ChangedAt contexts (contexts.put c cell) c :=
  ⟨fun _ hother => Heap.block_put_ne (Ne.symm hother) _, Heap.fresh_put _⟩

theorem acquire_counts (h : CellSound (contexts.block c) references owners)
    (hpos : 0 < references + owners) (hroom : references + 1 < 2 ^ 32) :
    ∃ changed held, dataContextAcquire contexts c = .ok changed ∧ ChangedAt contexts changed c ∧
      changed.block c = some held ∧ held.reference.toNat = references + 1 := by
  obtain ⟨held, hheld⟩ := h.present hpos
  refine ⟨_, _, ?_, put_changedAt contexts c
    (some { held with reference := held.reference + 1 }), Heap.block_put_self hheld _, ?_⟩
  · simp only [dataContextAcquire, Heap.load_eq hheld, Heap.store_eq hheld, bind, Except.bind]
  · have hcount := h.count held hheld
    simp only [UInt32.toNat_add, hcount]
    rw [Nat.mod_eq_of_lt]
    · rfl
    · exact hroom

theorem release_counts (h : CellSound (contexts.block c) references owners)
    (hpos : 0 < references) :
    ∃ changed held, dataContextRelease contexts c = .ok (changed, held.reference) ∧
      ChangedAt contexts changed c ∧ changed.block c = some held ∧
      held.reference.toNat = references - 1 := by
  obtain ⟨held, hheld⟩ := h.present (by omega)
  have hcount := h.count held hheld
  refine ⟨_, { held with reference := held.reference - 1 }, ?_, put_changedAt contexts c
    (some { held with reference := held.reference - 1 }), Heap.block_put_self hheld _, ?_⟩
  · simp only [dataContextRelease, Heap.load_eq hheld, Heap.store_eq hheld, bind, Except.bind, pure,
      Except.pure]
  · have hone : (1 : UInt32) ≤ held.reference := by
      rw [UInt32.le_iff_toNat_le, hcount]
      exact hpos
    simp only [UInt32.toNat_sub_of_le _ _ hone, hcount]
    rfl

theorem destroy_counts (h : CellSound (contexts.block c) references owners) (howned : owners = 1)
    (cleared : Bool) :
    ∃ changed, dataContextDestroy contexts c cleared =
        .ok (changed, if cleared then [.destroyed c] else []) ∧
      ChangedAt contexts changed c ∧
      (if cleared then changed.block c = none
        else ∃ held, changed.block c = some held ∧ held.reference.toNat = 0) := by
  obtain ⟨held, hheld⟩ := h.present (by omega)
  cases cleared with
  | true =>
    refine ⟨_, ?_, put_changedAt contexts c none, Heap.block_put_self hheld _⟩
    simp only [dataContextDestroy, if_true, Heap.free_eq hheld, Except.map]
  | false =>
    refine ⟨_, ?_, put_changedAt contexts c (some ⟨none, 0⟩), _, Heap.block_put_self hheld _, rfl⟩
    simp only [dataContextDestroy, dataContextClear, Heap.load_eq hheld, Heap.store_eq hheld,
      bind, Except.bind, Except.map, Bool.false_eq_true, if_false]

end Cells

/-- A step keeps the invariant, the contexts that it destroys are those that are gone after
it, and a thread that has work to do comes closer to its end. -/
def Counts (limit : ℕ) (s : ContextSystem) (f : Fifo (Option MidiCommand × Option ℕ))
    (a : ContextAction) (busy : Prop) : Prop :=
  ∃ t now f', contextStep s a = .ok (t, now) ∧ t.Counted limit f' ∧
    (∀ c, gone s.contexts c + now.count (.destroyed c) = gone t.contexts c) ∧
    s.contexts.fresh ≤ t.contexts.fresh ∧ (busy → t.toGo f' < s.toGo f)

section Calls
variable {readers : List ReaderPoint} {adding : List (ℕ × Option MidiCommand × Option ℕ)} {i : ℕ}
  {point : ReaderPoint}

theorem adding_of_set (hnot : ∀ context commands newItem, point ≠ .adding context commands newItem)
    {c context newItem : ℕ} {commands : List MidiCommand}
    (hc : (readers.set i point)[c]? = some (.adding context commands newItem)) :
    c ≠ i ∧ readers[c]? = some (.adding context commands newItem) := by
  by_cases hci : c = i
  · rw [hci, List.getElem?_set] at hc
    simp only [if_true] at hc
    split_ifs at hc
    rw [Option.some.injEq] at hc
    exact absurd hc (hnot context commands newItem)
  · rw [List.getElem?_set_ne (Ne.symm hci)] at hc
    exact ⟨hci, hc⟩

theorem CallsMatch.set (h : CallsMatch readers adding)
    (hnot : ∀ context commands newItem, point ≠ .adding context commands newItem) :
    CallsMatch (readers.set i point) adding where
  calls := fun c context commands newItem hc =>
    h.calls c context commands newItem (adding_of_set hnot hc).2
  apart := fun a b context context' commands commands' newItem ha hb =>
    h.apart a b context context' commands commands' newItem (adding_of_set hnot ha).2
      (adding_of_set hnot hb).2

theorem append_other {α : Type} {l : List α} {c : ℕ} (hc : c ≠ l.length) (a : α) :
    (l ++ [a])[c]? = l[c]? := by
  by_cases hlt : c < l.length
  · exact List.getElem?_append_left hlt
  · rw [List.getElem?_eq_none_iff.mpr, List.getElem?_eq_none_iff.mpr]
    · omega
    · simp only [List.length_append, List.length_singleton]
      omega

theorem CallsMatch.append (h : CallsMatch readers adding)
    (hnot : ∀ context commands newItem, point ≠ .adding context commands newItem) :
    CallsMatch (readers ++ [point]) adding := by
  have hadding : ∀ (c context : ℕ) (commands : List MidiCommand) (newItem : ℕ),
      (readers ++ [point])[c]? = some (.adding context commands newItem) →
      readers[c]? = some (.adding context commands newItem) := by
    intro c context commands newItem hc
    by_cases hend : c = readers.length
    · rw [hend, List.getElem?_concat_length, Option.some.injEq] at hc
      exact absurd hc (hnot context commands newItem)
    · rwa [append_other hend] at hc
  exact ⟨fun c context commands newItem hc =>
      h.calls c context commands newItem (hadding c context commands newItem hc),
    fun a b context context' commands commands' newItem ha hb =>
      h.apart a b context context' commands commands' newItem
        (hadding a context commands newItem ha) (hadding b context' commands' newItem hb)⟩

/-- A new call has an item that no other call has. -/
theorem CallsMatch.create (h : CallsMatch readers adding) (hlt : i < readers.length)
    {context newItem : ℕ} {command : MidiCommand} {commands : List MidiCommand}
    (hfresh : ∀ call ∈ adding, call.1 ≠ newItem) :
    CallsMatch (readers.set i (.adding context commands newItem))
      (adding ++ [(newItem, some command, some i)]) where
  calls := by
    intro c context' commands' newItem' hc
    by_cases hci : c = i
    · rw [hci, List.getElem?_set_self hlt] at hc
      cases hc
      refine ⟨command, List.mem_append.mpr (.inr ?_)⟩
      rw [hci, List.mem_singleton]
    · rw [List.getElem?_set_ne (Ne.symm hci)] at hc
      obtain ⟨command', hcall⟩ := h.calls c context' commands' newItem' hc
      exact ⟨command', List.mem_append.mpr (.inl hcall)⟩
  apart := by
    have hold : ∀ (c context' : ℕ) (commands' : List MidiCommand),
        readers[c]? ≠ some (.adding context' commands' newItem) := by
      intro c context' commands' hc
      obtain ⟨command', hcall⟩ := h.calls c context' commands' newItem hc
      exact hfresh _ hcall rfl
    intro a b first second commands' commands'' newItem' ha hb
    by_cases hai : a = i <;> by_cases hbi : b = i
    · rw [hai, hbi]
    · rw [hai, List.getElem?_set_self hlt] at ha
      rw [List.getElem?_set_ne (Ne.symm hbi)] at hb
      cases ha
      exact absurd hb (hold b second commands'')
    · rw [hbi, List.getElem?_set_self hlt] at hb
      rw [List.getElem?_set_ne (Ne.symm hai)] at ha
      cases hb
      exact absurd ha (hold a first commands')
    · rw [List.getElem?_set_ne (Ne.symm hai)] at ha
      rw [List.getElem?_set_ne (Ne.symm hbi)] at hb
      exact h.apart a b first second commands' commands'' newItem' ha hb

/-- A call is over when its item has been linked. -/
theorem CallsMatch.add (h : CallsMatch readers adding) {context newItem : ℕ}
    {commands : List MidiCommand}
    (hpoint : readers[i]? = some (.adding context commands newItem))
    (hnot : ∀ context commands newItem, point ≠ .adding context commands newItem) :
    CallsMatch (readers.set i point) (adding.filter fun other => other.1 ≠ newItem) where
  calls := by
    intro c context' commands' newItem' hc
    obtain ⟨hne, hc⟩ := adding_of_set hnot hc
    obtain ⟨command, hcall⟩ := h.calls c context' commands' newItem' hc
    refine ⟨command, List.mem_filter.mpr ⟨hcall, ?_⟩⟩
    simp only [ne_eq, decide_eq_true_eq]
    intro heq
    rw [heq] at hc
    exact hne (h.apart c i context' context commands' commands newItem hc hpoint)
  apart := (h.set hnot).apart

end Calls

section Views
variable {s : ContextSystem} {f : Fifo (Option MidiCommand × Option ℕ)} {i : ℕ}
  {point : ReaderPoint}

theorem reader_eq (hpoint : s.readers[i]? = some point) : s.reader i = point := by
  rw [ContextSystem.reader, hpoint, Option.getD_some]

theorem inHand_eq {α β : Type} {queue : QueueSystem α β} {f : Fifo (Option α × Option β)}
    (h : ∃ nodes, queue.Shows f nodes) : queue.handler.inHand = f.server.inHand := by
  obtain ⟨nodes, h⟩ := h
  have hserves := h.serves
  cases hhandler : queue.handler <;> cases hserver : f.server <;>
    rw [hhandler, hserver] at hserves <;> try exact hserves.elim
  all_goals try rfl
  obtain rfl := hserves
  rfl

/-- The server is the same, but perhaps woken. -/
def Roused {γ : Type} (server server' : FifoServer γ) : Prop :=
  server' = server ∨ server' = server.wake

theorem Roused.inHand {γ : Type} {server server' : FifoServer γ} (h : Roused server server') :
    server'.inHand = server.inHand := by
  rcases h with rfl | rfl
  · rfl
  · cases server <;> rfl

theorem Roused.handling {γ : Type} {server server' : FifoServer γ} (h : Roused server server')
    (sender : ReleasePoint) : handling server' sender = handling server sender := by
  rcases h with rfl | rfl
  · rfl
  · cases server <;> rfl

/-- The references of a context but for those of its reader. -/
def ContextSystem.taken (s : ContextSystem) (queued : List (Option MidiCommand × Option ℕ))
    (c : ℕ) : ℕ := queuedWith queued c + handed s.queue.handler.inHand c s.sender

theorem references_eq (s : ContextSystem) (queued : List (Option MidiCommand × Option ℕ)) (c : ℕ) :
    s.references queued c = (s.reader c).held + ((s.reader c).carried + s.taken queued c) := by
  rw [ContextSystem.references, ContextSystem.outstanding, ContextSystem.taken, Nat.add_assoc]

theorem outstanding_eq (s : ContextSystem) (queued : List (Option MidiCommand × Option ℕ))
    (c : ℕ) : s.outstanding queued c = (s.reader c).carried + s.taken queued c := by
  rw [ContextSystem.outstanding, ContextSystem.taken, Nat.add_assoc]

variable {limit : ℕ}

theorem cell_reader (h : s.Counted limit f) (hpoint : s.readers[i]? = some point) :
    CellSound (s.contexts.block i) (point.held + (point.carried + s.taken f.queued i))
      (point.owned + s.sender.owned i) := by
  have hcell := h.cell i
  rwa [references_eq, ContextSystem.owners, reader_eq hpoint] at hcell

theorem room_reader (h : s.Counted limit f) (hpoint : s.readers[i]? = some point) :
    point.carried + s.taken f.queued i + point.left ≤ limit := by
  have hroom := h.room i
  rwa [outstanding_eq, reader_eq hpoint] at hroom

end Views

end RaveloxMidi
