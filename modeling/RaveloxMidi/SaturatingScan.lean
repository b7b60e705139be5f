import Mathlib.Data.Nat.Find
import Mathlib.Tactic

/-!
# Loops whose index stops rising

A loop goes on as long as a condition holds at its index, and its index rises by one in
every round until it has reached a limit, where it stays. Such a loop ends if the
condition fails somewhere up to the limit; else it comes to the limit again and again.
-/
namespace SaturatingScan

def next (limit i : ℕ) : ℕ := if i < limit then i + 1 else i

/-- The indices visited in so many rounds, and whether the loop has ended. -/
def scan (goesOn : ℕ → Bool) (limit : ℕ) : ℕ → ℕ → List ℕ × Bool
  | 0, _ => ([], false)
  | rounds + 1, i =>
    if goesOn i then
      let later := scan goesOn limit rounds (next limit i)
      (i :: later.1, later.2)
    else ([], true)

variable {goesOn : ℕ → Bool} {limit : ℕ}

/-- The loop visits every index in front of the first one at which it does not go on. -/
theorem scan_first {i more rounds : ℕ} (hset : ∀ j, i ≤ j → j < i + more → goesOn j = true)
    (hunset : goesOn (i + more) = false) (hle : i + more ≤ limit) (hrounds : more < rounds) :
    scan goesOn limit rounds i = (List.range' i more, true) := by
  obtain ⟨rounds, rfl⟩ := Nat.exists_eq_add_one.mpr (Nat.zero_lt_of_lt hrounds)
  induction more generalizing i rounds with
  | zero =>
    rw [Nat.add_zero] at hunset
    simp [scan, hunset]
  | succ more ih =>
    obtain ⟨rounds, rfl⟩ := Nat.exists_eq_add_one.mpr (show 0 < rounds by omega)
    have hnext : next limit i = i + 1 := if_pos (by omega)
    have hrest := @ih (i + 1) (fun j hlow hhigh => hset j (by omega) (by omega))
      (by rw [Nat.add_right_comm]; exact hunset) (by omega) rounds (by omega)
    rw [scan, if_pos (hset i le_rfl (by omega)), hnext, hrest]
    rfl

theorem scan_start {k rounds : ℕ} (hset : ∀ j < k, goesOn j = true) (hunset : goesOn k = false)
    (hle : k ≤ limit) (hrounds : k < rounds) :
    scan goesOn limit rounds 0 = (List.range k, true) := by
  have hfirst : goesOn (0 + k) = false := by rw [Nat.zero_add, hunset]
  rw [List.range_eq_range']
  exact scan_first (fun j _ hj => hset j (by omega)) hfirst (by omega) hrounds

/-- A loop that goes on at every index up to the limit never ends, and stays there. -/
theorem scan_stuck (hset : ∀ i ≤ limit, goesOn i = true) (rounds : ℕ) {i : ℕ} (hle : i ≤ limit) :
    scan goesOn limit rounds i = ((List.range rounds).map fun j => min (i + j) limit, false) := by
  induction rounds generalizing i with
  | zero => rfl
  | succ rounds ih =>
    have hnext : next limit i = min (i + 1) limit := by
      rw [next]
      split_ifs <;> omega
    have hindices : ∀ j, min (min (i + 1) limit + j) limit = min (i + (j + 1)) limit := by omega
    rw [scan, if_pos (hset i hle), hnext, ih (min_le_right _ _), List.range_succ_eq_map]
    simp only [List.map_cons, List.map_map, Nat.add_zero, min_eq_left hle, hindices]
    rfl

/-- The first index at which the loop does not go on. -/
theorem exists_first (h : ∃ i ≤ limit, goesOn i = false) :
    ∃ k ≤ limit, (∀ i < k, goesOn i = true) ∧ goesOn k = false := by
  obtain ⟨i, hi, hunset⟩ := h
  have hsome : ∃ k, goesOn k = false := ⟨i, hunset⟩
  refine ⟨Nat.find hsome, (Nat.find_min' hsome hunset).trans hi, fun j hj => ?_,
    Nat.find_spec hsome⟩
  simpa using Nat.find_min hsome hj

/-- From the start the loop ends if it does not go on somewhere up to the limit. -/
theorem scan_ends_iff : (∃ rounds, (scan goesOn limit rounds 0).2 = true) ↔
    ∃ i ≤ limit, goesOn i = false := by
  constructor
  · rintro ⟨rounds, hended⟩
    by_contra hnone
    have hset : ∀ i ≤ limit, goesOn i = true := fun i hi => by
      by_contra hunset
      exact hnone ⟨i, hi, by simpa using hunset⟩
    rw [scan_stuck hset rounds (Nat.zero_le limit)] at hended
    exact Bool.false_ne_true hended
  · rintro ⟨i, hi, hunset⟩
    obtain ⟨k, hk, hset, hunset⟩ := exists_first ⟨i, hi, hunset⟩
    exact ⟨k + 1, by rw [scan_start hset hunset hk (Nat.lt_succ_self k)]⟩

end SaturatingScan
