import Mathlib.Data.List.Basic

/-!
# Tables of slots

A slot is free or holds a key. A key is registered in the first free slot, or in
a new one at the end; a release leaves its slot free; a rename writes another key
over the one that is there. The table never shrinks, so it has as many slots as
have been occupied at once. Keys stay distinct as long as none is renamed to one
that another slot holds.
-/
namespace SlotTable

/-- What can happen to a table. -/
inductive Op (κ : Type*) where
  | idle
  | register (key : κ)
  | release (key : κ)
  | rename (slot : ℕ) (key : κ)
  deriving DecidableEq

section Definitions
variable {κ : Type*}

/-- The first free slot takes the key, else a new one. -/
def fill (key : κ) : List (Option κ) → List (Option κ)
  | [] => [some key]
  | none :: rest => some key :: rest
  | some other :: rest => some other :: fill key rest

/-- The number of the slot that `fill` takes. -/
def firstFree : List (Option κ) → ℕ
  | [] => 0
  | none :: _ => 0
  | some _ :: rest => firstFree rest + 1

def occupied (slots : List (Option κ)) : ℕ := slots.countP Option.isSome

/-- No two slots hold the same key. -/
def Distinct (slots : List (Option κ)) : Prop :=
  ∀ (i j : ℕ) (key : κ), slots[i]? = some (some key) → slots[j]? = some (some key) → i = j

variable [DecidableEq κ]

/-- A key that is there already is not registered again. -/
def register (key : κ) (slots : List (Option κ)) : List (Option κ) :=
  if some key ∈ slots then slots else fill key slots

/-- The first slot with the key becomes free. -/
def release (key : κ) : List (Option κ) → List (Option κ)
  | [] => []
  | slot :: rest => if slot = some key then none :: rest else slot :: release key rest

/-- A free slot has no key to write over. -/
def rename (slot : ℕ) (key : κ) (slots : List (Option κ)) : List (Option κ) :=
  slots.modify slot (Option.map fun _ => key)

def Op.apply (slots : List (Option κ)) : Op κ → List (Option κ)
  | idle => slots
  | register key => SlotTable.register key slots
  | release key => SlotTable.release key slots
  | rename slot key => SlotTable.rename slot key slots

/-- An operation that neither releases a key, nor renames its slot, nor gives the key to
another slot. -/
def Op.Spares (slot : ℕ) (key : κ) : Op κ → Prop
  | release other => other ≠ key
  | rename other new => other ≠ slot ∧ new ≠ key
  | _ => True

/-- A slot is the first one with its key. -/
structure FirstAt (slot : ℕ) (key : κ) (slots : List (Option κ)) : Prop where
  here : slots[slot]? = some (some key)
  first : ∀ other < slot, slots[other]? ≠ some (some key)

/-- A rename does not write a key that another slot holds. -/
def Op.Fresh (slots : List (Option κ)) : Op κ → Prop
  | rename slot key => (∃ old, slots[slot]? = some (some old)) →
    ∀ other ≠ slot, slots[other]? ≠ some (some key)
  | _ => True

end Definitions

section Fill
variable {κ : Type*} (key : κ) (slots : List (Option κ))

theorem occupied_fill : occupied (fill key slots) = occupied slots + 1 := by
  induction slots with
  | nil => rfl
  | cons slot rest ih => cases slot <;> simp_all [fill, occupied]

/-- The table grows only when every slot is occupied. -/
theorem length_fill : (fill key slots).length = max slots.length (occupied slots + 1) := by
  induction slots with
  | nil => rfl
  | cons slot rest ih =>
    have hle : occupied rest ≤ rest.length := List.countP_le_length
    cases slot with
    | none => simp [fill, occupied] at *; omega
    | some other => simp [fill, occupied] at *; omega

theorem fill_firstFree : (fill key slots)[firstFree slots]? = some (some key) := by
  induction slots with
  | nil => rfl
  | cons slot rest ih => cases slot <;> simp_all [fill, firstFree]

theorem fill_other {other : ℕ} (h : other ≠ firstFree slots) :
    (fill key slots)[other]? = slots[other]? := by
  induction slots generalizing other with
  | nil => cases other <;> simp_all [fill, firstFree]
  | cons slot rest ih =>
    cases slot <;> cases other <;> simp_all [fill, firstFree]

end Fill

section Length
variable {κ : Type*} (key : κ) (slots : List (Option κ))

theorem occupied_rename (slot : ℕ) : occupied (rename slot key slots) = occupied slots := by
  induction slots generalizing slot with
  | nil => cases slot <;> rfl
  | cons first rest ih =>
    cases slot with
    | zero => cases first <;> rfl
    | succ slot => cases first <;> simpa [occupied, rename] using ih slot

variable [DecidableEq κ]

theorem length_release : (release key slots).length = slots.length := by
  induction slots with
  | nil => rfl
  | cons slot rest ih =>
    unfold release
    split
    · rfl
    · rw [List.length_cons, ih, List.length_cons]

theorem occupied_release : occupied (release key slots) ≤ occupied slots := by
  induction slots with
  | nil => exact Nat.le_refl _
  | cons slot rest ih =>
    unfold release
    split
    · next heq =>
      rw [heq]
      simp [occupied]
    · cases slot <;> simpa [occupied] using ih

/-- The table has as many slots as before, or as many as are now occupied. -/
theorem length_apply (op : Op κ) :
    (op.apply slots).length = max slots.length (occupied (op.apply slots)) := by
  have hle : occupied slots ≤ slots.length := List.countP_le_length
  cases op with
  | idle => exact (Nat.max_eq_left hle).symm
  | register key =>
    simp only [Op.apply, register]
    split_ifs
    · exact (Nat.max_eq_left hle).symm
    · rw [length_fill, occupied_fill]
  | release key =>
    simp only [Op.apply]
    rw [length_release, Nat.max_eq_left (Nat.le_trans (occupied_release key slots) hle)]
  | rename slot key =>
    simp only [Op.apply]
    rw [occupied_rename, Nat.max_eq_left hle, rename, List.length_modify]

end Length

section Keys
variable {κ : Type*} {slots t : List (Option κ)} {slot : ℕ} {key : κ}

/-- Writing a key that no other slot holds. -/
theorem Distinct.write (h : Distinct slots) (hwritten : t[slot]? = some (some key))
    (hothers : ∀ other ≠ slot, t[other]? = slots[other]?)
    (hfresh : ∀ other ≠ slot, slots[other]? ≠ some (some key)) : Distinct t := by
  intro i j k hi hj
  by_cases hislot : i = slot
  · by_cases hjslot : j = slot
    · rw [hislot, hjslot]
    · rw [hislot, hwritten] at hi
      cases hi
      rw [hothers j hjslot] at hj
      exact absurd hj (hfresh j hjslot)
  · rw [hothers i hislot] at hi
    by_cases hjslot : j = slot
    · rw [hjslot, hwritten] at hj
      cases hj
      exact absurd hi (hfresh i hislot)
    · rw [hothers j hjslot] at hj
      exact h i j k hi hj

theorem Distinct.fill (h : Distinct slots) (hfresh : some key ∉ slots) :
    Distinct (fill key slots) :=
  h.write (fill_firstFree key slots) (fun _ => fill_other key slots)
    fun _ _ hother => hfresh (List.mem_of_getElem? hother)

/-- A slot that holds a key is not the one that `fill` takes. -/
theorem fill_held {held : κ} (h : slots[slot]? = some (some held)) :
    (SlotTable.fill key slots)[slot]? = some (some held) := by
  induction slots generalizing slot with
  | nil => cases h
  | cons first rest ih =>
    cases first with
    | none =>
      cases slot with
      | zero => cases h
      | succ slot => exact h
    | some other =>
      cases slot with
      | zero => exact h
      | succ slot => exact ih h

/-- No slot gets a key other than the one that is filled in. -/
theorem fill_get {held : κ} (h : (SlotTable.fill key slots)[slot]? = some (some held))
    (hne : key ≠ held) : slots[slot]? = some (some held) := by
  by_cases hslot : slot = firstFree slots
  · rw [hslot, fill_firstFree, Option.some.injEq, Option.some.injEq] at h
    exact absurd h hne
  · rwa [fill_other key slots hslot] at h

variable [DecidableEq κ]

theorem release_absent (h : some key ∉ slots) :
    release key slots = slots := by
  induction slots with
  | nil => rfl
  | cons first rest ih =>
    rw [List.mem_cons, not_or] at h
    rw [release, if_neg (Ne.symm h.1), ih h.2]

/-- What a slot holds after a release, it held before. -/
theorem release_held {held : κ} (h : (release key slots)[slot]? = some (some held)) :
    slots[slot]? = some (some held) := by
  induction slots generalizing slot with
  | nil => cases h
  | cons first rest ih =>
    unfold release at h
    split at h
    · cases slot with
      | zero => cases h
      | succ slot => exact h
    · cases slot with
      | zero => exact h
      | succ slot => exact ih h

theorem Distinct.release (h : Distinct slots) : Distinct (release key slots) :=
  fun i j k hi hj => h i j k (release_held hi) (release_held hj)

/-- A release leaves the slots of the other keys alone. -/
theorem release_other {held : κ} (hne : key ≠ held) (h : slots[slot]? = some (some held)) :
    (SlotTable.release key slots)[slot]? = some (some held) := by
  induction slots generalizing slot with
  | nil => cases h
  | cons first rest ih =>
    unfold SlotTable.release
    split
    · next heq =>
      cases slot with
      | zero =>
        rw [List.getElem?_cons_zero, heq, Option.some.injEq, Option.some.injEq] at h
        exact absurd h hne
      | succ slot => exact h
    · cases slot with
      | zero => exact h
      | succ slot => exact ih h

/-- An operation that spares a slot and its key leaves the slot with the key. -/
theorem apply_here {op : Op κ} (h : slots[slot]? = some (some key)) (hop : op.Spares slot key) :
    (op.apply slots)[slot]? = some (some key) := by
  cases op with
  | idle => exact h
  | register other =>
    simp only [Op.apply, register]
    split_ifs
    · exact h
    · exact fill_held h
  | release other => exact release_other hop h
  | rename other new =>
    simp only [Op.apply, rename]
    rwa [List.getElem?_modify_ne _ _ hop.1]

/-- It is still the first one with the key. -/
theorem FirstAt.apply {op : Op κ} (h : FirstAt slot key slots) (hop : op.Spares slot key) :
    FirstAt slot key (op.apply slots) := by
  refine ⟨apply_here h.here hop, fun other hother hheld => h.first other hother ?_⟩
  cases op with
  | idle => exact hheld
  | register new =>
    simp only [Op.apply, register] at hheld
    split_ifs at hheld with hmem
    · exact hheld
    · refine fill_get hheld ?_
      rintro rfl
      exact hmem (List.mem_of_getElem? h.here)
  | release gone => exact release_held hheld
  | rename changed new =>
    simp only [Op.apply, rename] at hheld
    by_cases hchanged : changed = other
    · rw [hchanged, List.getElem?_modify_eq] at hheld
      obtain ⟨held, hslot, hmap⟩ := Option.map_eq_some_iff.mp hheld
      obtain ⟨old, -, hnew⟩ := Option.map_eq_some_iff.mp hmap
      exact absurd hnew hop.2
    · rwa [List.getElem?_modify_ne _ _ hchanged] at hheld

/-- Distinct keys stay distinct exactly if a rename is to a key that no other slot holds. -/
theorem distinct_apply_iff (h : Distinct slots) (op : Op κ) :
    Distinct (op.apply slots) ↔ op.Fresh slots := by
  cases op with
  | idle => exact iff_of_true h trivial
  | register key =>
    refine iff_of_true ?_ trivial
    simp only [Op.apply, register]
    split_ifs with hmem
    · exact h
    · exact h.fill hmem
  | release key => exact iff_of_true h.release trivial
  | rename slot key =>
    have hothers : ∀ other ≠ slot, (rename slot key slots)[other]? = slots[other]? :=
      fun other hother => List.getElem?_modify_ne _ _ (Ne.symm hother)
    by_cases hheld : ∃ old, slots[slot]? = some (some old)
    · obtain ⟨old, hold⟩ := hheld
      have hwritten : (rename slot key slots)[slot]? = some (some key) := by
        rw [rename, List.getElem?_modify_eq, hold]
        rfl
      constructor
      · intro hdistinct _ other hother hother'
        rw [← hothers other hother] at hother'
        exact hother (hdistinct other slot key hother' hwritten)
      · exact fun hfresh => h.write hwritten hothers (hfresh ⟨old, hold⟩)
    · refine iff_of_true ?_ fun hold => absurd hold hheld
      have hsame : rename slot key slots = slots := by
        refine List.ext_getElem? fun i => ?_
        by_cases hi : i = slot
        · rw [hi, rename, List.getElem?_modify_eq]
          cases hslot : slots[slot]? with
          | none => rfl
          | some held =>
            cases held with
            | none => rfl
            | some old => exact absurd ⟨old, hslot⟩ hheld
        · exact hothers i hi
      simp only [Op.apply]
      rwa [hsame]

end Keys

end SlotTable
