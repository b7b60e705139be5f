import Mathlib.Data.List.Basic

/-!
# The table of items

A table holds pointers to items, and an item a pointer to its data and a mark
that it is used. An item that is not used is taken for the next data that is
added; without one the table grows at its end.
-/
namespace RaveloxMidi

/-- `data_item_t`. -/
structure DataItem (α : Type*) where
  used : Int32
  data : Option α

/-- `data_table_t`: `none` is a null item, and `count` is the number of items. -/
structure DataTable (α : Type*) where
  items : List (Option (DataItem α))

section Functions
variable {α : Type*}

def dataTableCreate : DataTable α := ⟨[]⟩

def dataTableItemCount (table : DataTable α) : ℕ := table.items.length

def dataTableItemGet (table : DataTable α) (index : ℕ) : Option α :=
  table.items[index]?.bind fun item => item.bind DataItem.data

/-- The first item that is not used, else the end of the table. -/
def dataTableSlot (table : DataTable α) : ℕ :=
  table.items.findIdx fun item => item.any fun item => item.used != 1

/-- The second component is what the function returns. -/
def dataTableAddItem (table : DataTable α) : Option α → DataTable α × Int32
  | none => (table, 0)
  | some data =>
    let slot := dataTableSlot table
    let item := some ⟨1, some data⟩
    (⟨if slot < table.items.length then table.items.set slot item else table.items ++ [item]⟩, 1)

/-- What is written through the pointer to the data of an item. -/
def DataTable.write (table : DataTable α) (index : ℕ) (data : α) : DataTable α :=
  ⟨table.items.modify index (Option.map fun item => { item with data := some data })⟩

end Functions

/-- A table whose items are all used. -/
def DataTable.ofList {α : Type*} (datas : List α) : DataTable α :=
  ⟨datas.map fun data => some ⟨1, some data⟩⟩

theorem create_ofList {α : Type*} : (dataTableCreate : DataTable α) = .ofList [] := rfl

section OfList
variable {α : Type*} (datas : List α)

@[simp] theorem itemCount_ofList : dataTableItemCount (.ofList datas) = datas.length := by
  simp [dataTableItemCount, DataTable.ofList]

@[simp] theorem itemGet_ofList (index : ℕ) :
    dataTableItemGet (.ofList datas) index = datas[index]? := by
  simp only [dataTableItemGet, DataTable.ofList, List.getElem?_map]
  cases datas[index]? <;> rfl

theorem slot_ofList : dataTableSlot (.ofList datas) = datas.length := by
  simp only [dataTableSlot, DataTable.ofList]
  rw [List.findIdx_eq_length.mpr, List.length_map]
  simp

theorem addItem_ofList (data : α) :
    dataTableAddItem (.ofList datas) (some data) = (.ofList (datas ++ [data]), 1) := by
  have hend : ¬ datas.length < (DataTable.ofList datas).items.length := by
    simp [DataTable.ofList]
  simp only [dataTableAddItem, slot_ofList, if_neg hend]
  simp [DataTable.ofList]

theorem write_ofList (index : ℕ) (data : α) :
    (DataTable.ofList datas).write index data = .ofList (datas.set index data) := by
  simp only [DataTable.write, DataTable.ofList, List.map_set]
  congr 1
  refine List.ext_getElem? fun i => ?_
  rw [List.getElem?_modify, List.getElem?_set, List.getElem?_map]
  by_cases hi : index = i
  · subst hi
    cases h : datas[index]? with
    | none =>
      have hend := List.getElem?_eq_none_iff.mp h
      simp [hend]
    | some old =>
      obtain ⟨hlt, -⟩ := List.getElem?_eq_some_iff.mp h
      simp [hlt]
  · simp [hi]

end OfList

end RaveloxMidi
