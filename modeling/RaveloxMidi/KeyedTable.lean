import Mathlib.Data.List.Nodup
import Mathlib.Data.List.Range

/-!
# Tables that are searched from the front

A table is a list of entries, and two keys are the same if a function gives the
same for both. A value is put into the first entry with the same key, or into a new
entry at the end. No two entries have the same key, which is part of what a table is.
-/
namespace KeyedTable

section Entries
variable {κ ν β : Type*} [DecidableEq ν] (norm : κ → ν)

/-- The value of the first entry with the key. -/
def lookup (entries : List (κ × β)) (k : κ) : Option β :=
  (entries.find? fun entry => norm entry.1 = norm k).map Prod.snd

/-- The first entry with the key takes the value, or a new one at the end does. -/
def replace (k : κ) (v : β) : List (κ × β) → List (κ × β)
  | [] => [(k, v)]
  | entry :: rest =>
    if norm entry.1 = norm k then (entry.1, v) :: rest else entry :: replace k v rest

variable {norm}

theorem lookup_cons (entry : κ × β) (entries : List (κ × β)) (k : κ) :
    lookup norm (entry :: entries) k =
      if norm entry.1 = norm k then some entry.2 else lookup norm entries k := by
  by_cases h : norm entry.1 = norm k
  · simp [lookup, h]
  · simp [lookup, h]

theorem lookup_replace (entries : List (κ × β)) (k k' : κ) (v : β) :
    lookup norm (replace norm k v entries) k' =
      if norm k = norm k' then some v else lookup norm entries k' := by
  induction entries with
  | nil => exact lookup_cons (k, v) [] k'
  | cons entry rest ih =>
    rw [replace]
    by_cases hsame : norm entry.1 = norm k
    · rw [if_pos hsame, lookup_cons, lookup_cons, hsame]
      split_ifs <;> rfl
    · rw [if_neg hsame, lookup_cons, lookup_cons, ih]
      by_cases hentry : norm entry.1 = norm k'
      · have hother : ¬ norm k = norm k' := fun h => hsame (hentry.trans h.symm)
        rw [if_pos hentry, if_pos hentry, if_neg hother]
      · rw [if_neg hentry, if_neg hentry]

/-- The keys stay as they are, or the new one comes behind them. -/
theorem keys_replace (entries : List (κ × β)) (k : κ) (v : β) :
    (replace norm k v entries).map (fun entry => norm entry.1) =
      if norm k ∈ entries.map (fun entry => norm entry.1)
      then entries.map (fun entry => norm entry.1)
      else entries.map (fun entry => norm entry.1) ++ [norm k] := by
  induction entries with
  | nil => rfl
  | cons entry rest ih =>
    rw [replace]
    by_cases hsame : norm entry.1 = norm k
    · simp [hsame]
    · have hother : ¬ norm k = norm entry.1 := fun h => hsame h.symm
      rw [if_neg hsame, List.map_cons, List.map_cons, ih]
      by_cases hmem : norm k ∈ rest.map fun entry => norm entry.1
      · rw [if_pos hmem, if_pos (List.mem_cons_of_mem _ hmem)]
      · rw [if_neg hmem, if_neg (by simp [hother, hmem]), List.cons_append]

end Entries

/-- A table whose keys are all different. -/
structure Table {κ ν : Type*} (norm : κ → ν) (β : Type*) where
  entries : List (κ × β)
  distinct : (entries.map fun entry => norm entry.1).Nodup

namespace Table
variable {κ ν β : Type*} [DecidableEq ν] {norm : κ → ν}

def get (table : Table norm β) (k : κ) : Option β := lookup norm table.entries k

def put (table : Table norm β) (k : κ) (v : β) : Table norm β where
  entries := replace norm k v table.entries
  distinct := by
    rw [keys_replace]
    split_ifs with hmem
    · exact table.distinct
    · exact List.Nodup.append table.distinct (List.nodup_singleton _)
        (List.disjoint_singleton.mpr hmem)

def empty : Table norm β := ⟨[], List.nodup_nil⟩

theorem get_put (table : Table norm β) (k k' : κ) (v : β) :
    (table.put k v).get k' = if norm k = norm k' then some v else table.get k' :=
  lookup_replace table.entries k k' v

/-- After many values are put into a table, the last one for a key is found. -/
theorem get_putAll (items : List (κ × β)) (table : Table norm β) (k : κ) :
    (items.foldl (fun table item => table.put item.1 item.2) table).get k =
      match items.reverse.find? fun item => norm item.1 = norm k with
      | some item => some item.2
      | none => table.get k := by
  induction items using List.reverseRecOn with
  | nil => rfl
  | append_singleton items item ih =>
    rw [List.foldl_append, List.foldl_cons, List.foldl_nil, get_put, ih, List.reverse_append,
      List.reverse_singleton, List.singleton_append, List.find?_cons]
    by_cases hsame : norm item.1 = norm k
    · simp [hsame]
    · simp [hsame]

/-- There is at most one entry for a key. -/
theorem entries_le_one (table : Table norm β) (k : κ) :
    (table.entries.filter fun entry => norm entry.1 = norm k).length ≤ 1 := by
  have hcount := List.nodup_iff_count_le_one.mp table.distinct (norm k)
  rw [List.count, List.countP_map] at hcount
  rw [← List.countP_eq_length_filter]
  refine le_trans (le_of_eq ?_) hcount
  exact List.countP_congr fun entry _ => by simp

end Table

end KeyedTable
