import Mathlib.Logic.Relation
import Mathlib.Data.List.Nodup
import Mathlib.Data.Nat.Notation

/-!
# Lists linked through a heap

A heap hands out a new address for each block and never hands it out again, so an
access through a pointer that is left over from a freed block is seen. A list is
linked through it by a field of its blocks that points to the next one, and ends
with a null pointer. What the list holds is another view of the blocks, which does
not depend on how they are linked.
-/
namespace LinkedHeap

/-- A pointer to no block, or to one that has been freed. -/
inductive HeapFault where
  | dangling
  deriving Repr, DecidableEq

/-- The blocks by their addresses; `none` has been freed. -/
structure Heap (α : Type*) where
  cells : List (Option α)

namespace Heap
variable {α : Type*}

/-- The block at an address, if there is one. -/
def block (h : Heap α) (p : ℕ) : Option α := h.cells[p]?.join

/-- The address of the next block. -/
def fresh (h : Heap α) : ℕ := h.cells.length

def alloc (h : Heap α) (a : α) : Heap α := ⟨h.cells ++ [some a]⟩

def load (h : Heap α) (p : ℕ) : Except HeapFault α :=
  match h.block p with
  | none => .error .dangling
  | some a => .ok a

def put (h : Heap α) (p : ℕ) (cell : Option α) : Heap α := ⟨h.cells.set p cell⟩

def store (h : Heap α) (p : ℕ) (a : α) : Except HeapFault (Heap α) := do
  let _ ← h.load p
  return h.put p (some a)

def free (h : Heap α) (p : ℕ) : Except HeapFault (Heap α) := do
  let _ ← h.load p
  return h.put p none

variable {h : Heap α} {p q : ℕ} {a b : α}

theorem lt_fresh (hp : h.block p = some a) : p < h.fresh := by
  rw [block, Option.join_eq_some_iff] at hp
  exact (List.getElem?_eq_some_iff.mp hp).1

theorem block_put_self (hp : h.block p = some a) (cell : Option α) :
    (h.put p cell).block p = cell := by
  rw [block, put, List.getElem?_set_self (lt_fresh hp), Option.join_some]

theorem block_put_ne (hne : p ≠ q) (cell : Option α) : (h.put p cell).block q = h.block q := by
  rw [block, put, List.getElem?_set_ne hne, block]

theorem fresh_put (cell : Option α) : (h.put p cell).fresh = h.fresh := List.length_set

theorem block_alloc_self (h : Heap α) (a : α) : (h.alloc a).block h.fresh = some a := by
  simp [block, alloc, fresh]

theorem block_alloc_ne (hne : p ≠ h.fresh) (a : α) : (h.alloc a).block p = h.block p := by
  rw [block, alloc, block]
  by_cases hlt : p < h.cells.length
  · rw [List.getElem?_append_left hlt]
  · have hgt : h.cells.length < p := Nat.lt_of_le_of_ne (Nat.le_of_not_lt hlt) (Ne.symm hne)
    rw [List.getElem?_eq_none_iff.mpr (Nat.le_of_lt hgt), List.getElem?_eq_none_iff.mpr]
    rw [List.length_append]
    exact hgt

theorem block_alloc_old (hp : h.block p = some b) (a : α) : (h.alloc a).block p = some b := by
  rwa [block_alloc_ne (Nat.ne_of_lt (lt_fresh hp))]

theorem fresh_alloc (a : α) : (h.alloc a).fresh = h.fresh + 1 := by simp [fresh, alloc]

theorem load_eq (hp : h.block p = some a) : h.load p = .ok a := by rw [load, hp]

theorem store_eq (hp : h.block p = some a) (b : α) : h.store p b = .ok (h.put p (some b)) := by
  simp only [store, load_eq hp, bind, Except.bind, pure, Except.pure]

theorem free_eq (hp : h.block p = some a) : h.free p = .ok (h.put p none) := by
  simp only [free, load_eq hp, bind, Except.bind, pure, Except.pure]

/-- The number of blocks that have been handed out and not been freed. -/
def live (h : Heap α) : ℕ := h.cells.countP Option.isSome

theorem live_alloc (h : Heap α) (a : α) : (h.alloc a).live = h.live + 1 := by
  simp [live, alloc, List.countP_append]

theorem live_put (hp : h.block p = some a) (cell : Option α) :
    (h.put p cell).live + 1 = h.live + if cell.isSome then 1 else 0 := by
  obtain ⟨hlt, hcell⟩ := List.getElem?_eq_some_iff.mp (Option.join_eq_some_iff.mp hp)
  have hpos : 0 < h.cells.countP Option.isSome :=
    List.countP_pos_iff.mpr ⟨_, List.getElem_mem hlt, by rw [hcell]; rfl⟩
  rw [live, put, List.countP_set hlt, hcell, live]
  simp only [Option.isSome_some, if_true]
  omega

theorem live_store {h' : Heap α} (hstore : h.store p b = .ok h') : h'.live = h.live := by
  cases hp : h.block p with
  | none => simp [store, load, hp, bind, Except.bind] at hstore
  | some a =>
    rw [store_eq hp] at hstore
    cases hstore
    have hlive := live_put hp (some b)
    simpa using hlive

theorem live_free (hp : h.block p = some a) : (h.put p none).live + 1 = h.live := by
  simpa using live_put hp none

/-- A heap without live blocks has none at any address. -/
theorem block_of_live (hlive : h.live = 0) (p : ℕ) : h.block p = none := by
  cases hp : h.block p with
  | none => rfl
  | some a =>
    have hfree := live_free hp
    omega

end Heap

/-- The blocks with the given addresses and views are linked from a pointer to null. -/
def Linked {α β : Type*} (next : α → Option ℕ) (view : α → β) (h : Heap α) :
    Option ℕ → List (ℕ × β) → Prop
  | p, [] => p = none
  | p, item :: rest => p = some item.1 ∧
    ∃ a, h.block item.1 = some a ∧ view a = item.2 ∧ Linked next view h (next a) rest

/-- One block points to another. -/
def PointsTo {α : Type*} (next : α → Option ℕ) (h : Heap α) (p q : ℕ) : Prop :=
  ∃ a, h.block p = some a ∧ next a = some q

/-- The last block that is reached from another, with a null pointer in it. -/
def LastFrom {α : Type*} (next : α → Option ℕ) (h : Heap α) (p q : ℕ) : Prop :=
  Relation.ReflTransGen (PointsTo next h) p q ∧ ∃ a, h.block q = some a ∧ next a = none

section Lists
variable {α β : Type*} {next : α → Option ℕ} {view : α → β} {h h' : Heap α} {p : Option ℕ}
  {items : List (ℕ × β)}

theorem Linked.head (hlinked : Linked next view h p items) : p = items.head?.map Prod.fst := by
  cases items with
  | nil => exact hlinked
  | cons item rest => exact hlinked.1

/-- A list does not see what happens to other blocks. -/
theorem Linked.frame (hlinked : Linked next view h p items)
    (hsame : ∀ item ∈ items, h'.block item.1 = h.block item.1) : Linked next view h' p items := by
  induction items generalizing p with
  | nil => exact hlinked
  | cons item rest ih =>
    obtain ⟨hp, a, ha, hview, hrest⟩ := hlinked
    refine ⟨hp, a, ?_, hview, ih hrest fun other hother => hsame other (.tail _ hother)⟩
    rw [hsame item (.head _), ha]

theorem Linked.block (hlinked : Linked next view h p items) {item : ℕ × β} (hitem : item ∈ items) :
    ∃ a, h.block item.1 = some a ∧ view a = item.2 := by
  induction items generalizing p with
  | nil => cases hitem
  | cons first rest ih =>
    obtain ⟨-, a, ha, hview, hrest⟩ := hlinked
    rcases List.mem_cons.mp hitem with rfl | hmem
    · exact ⟨a, ha, hview⟩
    · exact ih hrest hmem

/-- A block is linked behind the last one. -/
theorem Linked.append (hlinked : Linked next view h p items) {last new : ℕ × β}
    (hlast : items.getLast? = some last) (hdistinct : (items.map Prod.fst).Nodup)
    (hsame : ∀ item ∈ items, item.1 ≠ last.1 → h'.block item.1 = h.block item.1)
    (hset : ∃ a, h'.block last.1 = some a ∧ view a = last.2 ∧ next a = some new.1)
    (hnew : ∃ a, h'.block new.1 = some a ∧ view a = new.2 ∧ next a = none) :
    Linked next view h' p (items ++ [new]) := by
  induction items generalizing p with
  | nil => cases hlast
  | cons item rest ih =>
    obtain ⟨hp, a, ha, hview, hrest⟩ := hlinked
    obtain ⟨hnot, hrestDistinct⟩ := List.nodup_cons.mp hdistinct
    cases rest with
    | nil =>
      cases hlast
      obtain ⟨b, hb, hbView, hbNext⟩ := hset
      obtain ⟨c, hc, hcView, hcNext⟩ := hnew
      exact ⟨hp, b, hb, hbView, hbNext, c, hc, hcView, hcNext⟩
    | cons second rest =>
      rw [List.getLast?_cons_cons] at hlast
      have hne : item.1 ≠ last.1 := fun heq =>
        hnot (heq ▸ List.mem_map_of_mem (List.mem_of_getLast? hlast))
      refine ⟨hp, a, (hsame item (.head _) hne).trans ha, hview, ?_⟩
      exact ih hrest hlast hrestDistinct fun other hother => hsame other (.tail _ hother)

/-- Addresses stay distinct when a new one is put behind them. -/
theorem distinct_append (hdistinct : (items.map Prod.fst).Nodup) {new : ℕ × β}
    (hnew : ∀ item ∈ items, item.1 ≠ new.1) : ((items ++ [new]).map Prod.fst).Nodup := by
  rw [List.map_append, List.map_singleton, List.nodup_append]
  refine ⟨hdistinct, List.nodup_singleton _, fun a ha b hb => ?_⟩
  obtain ⟨item, hitem, rfl⟩ := List.mem_map.mp ha
  rw [List.mem_singleton.mp hb]
  exact hnew item hitem

theorem Linked.lastFrom {first last : ℕ × β} {rest : List (ℕ × β)}
    (hlinked : Linked next view h p (first :: rest))
    (hlast : (first :: rest).getLast? = some last) : LastFrom next h first.1 last.1 := by
  induction rest generalizing p first with
  | nil =>
    cases hlast
    obtain ⟨-, a, ha, -, hnext⟩ := hlinked
    exact ⟨.refl, a, ha, hnext⟩
  | cons second rest ih =>
    obtain ⟨-, a, ha, -, hrest⟩ := hlinked
    obtain ⟨hreach, hend⟩ := ih hrest (by rwa [List.getLast?_cons_cons] at hlast)
    exact ⟨.head ⟨a, ha, hrest.1⟩ hreach, hend⟩

end Lists

end LinkedHeap
