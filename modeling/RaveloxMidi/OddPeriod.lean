import Mathlib.Data.Fintype.Card
import Mathlib.Data.Fintype.EquivFin

/-!
# A sequence read in pairs, one place off

A sequence is written as one element and `n` pairs behind it, and read as `n` pairs from
the first element on. If the pairs written start differently, the reader finds all of
them exactly when `n` is odd and the sequence has period `n`.
-/
namespace RaveloxMidi
namespace OddPeriod
variable {α : Type*}

/-- Every pair written is one of the pairs read. -/
def ReadsBack (x : ℕ → α) (n : ℕ) : Prop :=
  ∀ k < n, ∃ j < n, x (2 * j) = x (2 * k + 1) ∧ x (2 * j + 1) = x (2 * k + 2)

/-- The pairs written start differently. -/
def StartsDiffer (x : ℕ → α) (n : ℕ) : Prop :=
  ∀ i < n, ∀ j < n, x (2 * i + 1) = x (2 * j + 1) → i = j

section
variable {x : ℕ → α} {n : ℕ} (hread : ReadsBack x n) (hdiffer : StartsDiffer x n)
include hread hdiffer

/-- The pairs read and the pairs written correspond one to one. -/
theorem exists_matching : ∃ place : Fin n → Fin n, Function.Bijective place ∧
    ∀ k : Fin n, x (2 * place k) = x (2 * k + 1) ∧ x (2 * place k + 1) = x (2 * k + 2) := by
  have hall : ∀ k : Fin n, ∃ j : Fin n,
      x (2 * j) = x (2 * k + 1) ∧ x (2 * j + 1) = x (2 * k + 2) := by
    intro k
    obtain ⟨j, hj, hpair⟩ := hread k k.isLt
    exact ⟨⟨j, hj⟩, hpair⟩
  choose place hplace using hall
  have hinjective : Function.Injective place := by
    intro i j hij
    have hstart : x (2 * i + 1) = x (2 * j + 1) := by
      rw [← (hplace i).1, ← (hplace j).1, hij]
    exact Fin.ext (hdiffer i i.isLt j j.isLt hstart)
  exact ⟨place, ⟨hinjective, Finite.surjective_of_injective hinjective⟩, hplace⟩

/-- Every pair read is one of the pairs written. -/
theorem ReadsBack.written {j : ℕ} (hj : j < n) :
    ∃ k < n, x (2 * j) = x (2 * k + 1) ∧ x (2 * j + 1) = x (2 * k + 2) := by
  obtain ⟨place, hbijective, hplace⟩ := exists_matching hread hdiffer
  obtain ⟨k, hk⟩ := hbijective.2 ⟨j, hj⟩
  have hpair := hplace k
  rw [hk] at hpair
  exact ⟨k, k.isLt, hpair⟩

/-- The pairs read start differently as well. -/
theorem ReadsBack.reads_differ {i j : ℕ} (hi : i < n) (hj : j < n)
    (hstart : x (2 * i) = x (2 * j)) : i = j := by
  obtain ⟨place, hbijective, hplace⟩ := exists_matching hread hdiffer
  obtain ⟨k, hk⟩ := hbijective.2 ⟨i, hi⟩
  obtain ⟨l, hl⟩ := hbijective.2 ⟨j, hj⟩
  have hfirst := (hplace k).1
  have hsecond := (hplace l).1
  rw [hk] at hfirst
  rw [hl] at hsecond
  have hsame : x (2 * k + 1) = x (2 * l + 1) := hfirst.symm.trans (hstart.trans hsecond)
  have hkl := Fin.ext (hdiffer k k.isLt l l.isLt hsame)
  rw [hkl, hl] at hk
  exact (congrArg Fin.val hk).symm

/-- Two equal elements, one at an even and one at an odd place, go on equally. -/
theorem ReadsBack.next {even odd : ℕ} (heven : even % 2 = 0) (hodd : odd % 2 = 1)
    (heven_lt : even < 2 * n) (hodd_lt : odd < 2 * n) (hsame : x even = x odd) :
    x (even + 1) = x (odd + 1) := by
  obtain ⟨j, rfl⟩ : ∃ j, even = 2 * j := ⟨even / 2, by omega⟩
  obtain ⟨i, rfl⟩ : ∃ i, odd = 2 * i + 1 := ⟨odd / 2, by omega⟩
  obtain ⟨k, hk, hfirst, hsecond⟩ := hread.written hdiffer (j := j) (by omega)
  have hki : k = i := hdiffer k hk i (by omega) (hfirst.symm.trans hsame)
  rw [hsecond, hki]

/-- The sequence repeats itself from the place on where its first element comes again. -/
theorem ReadsBack.shift {q : ℕ} (hq : q % 2 = 1) (hstart : x 0 = x q) (t : ℕ)
    (ht : t + q ≤ 2 * n) : x t = x (t + q) := by
  induction t with
  | zero => rw [Nat.zero_add, hstart]
  | succ t ih =>
    have hsame := ih (by omega)
    rw [Nat.add_right_comm]
    rcases Nat.mod_two_eq_zero_or_one t with heven | hodd
    · exact hread.next hdiffer heven (by omega) (by omega) (by omega) hsame
    · exact (hread.next hdiffer (by omega) hodd (by omega) (by omega) hsame.symm).symm

/-- It comes again after `n` places, for otherwise a start would be read twice. -/
theorem ReadsBack.period (hpos : 0 < n) : n % 2 = 1 ∧ ∀ t ≤ n, x (t + n) = x t := by
  obtain ⟨k, hk, hfirst, -⟩ := hread.written hdiffer hpos
  obtain ⟨l, hl, hbefore, hagain⟩ := hread.written hdiffer hk
  have hshift := hread.shift hdiffer (q := 2 * k + 1) (by omega) hfirst
  have hzero : x (2 * l + 2) = x (2 * 0) := hagain.symm.trans hfirst.symm
  have hlast : l + 1 = n := by
    by_contra hne
    have hback := hread.reads_differ hdiffer (i := l + 1) (j := 0) (by omega) hpos hzero
    omega
  have hend : x (2 * (n - 1 - k)) = x (2 * l + 1) := by
    have hplace : 2 * (n - 1 - k) + (2 * k + 1) = 2 * l + 1 := by omega
    rw [hshift _ (by omega), hplace]
  have hmiddle := hread.reads_differ hdiffer (by omega) hk (hend.trans hbefore.symm)
  have hn : 2 * k + 1 = n := by omega
  refine ⟨by omega, fun t ht => ?_⟩
  rw [← hn]
  exact (hshift t (by omega)).symm

end

/-- With an odd period, each pair written comes again at an even place. -/
theorem readsBack_of_period {x : ℕ → α} {n : ℕ} (hodd : n % 2 = 1)
    (hperiod : ∀ t ≤ n, x (t + n) = x t) : ReadsBack x n := by
  intro k hk
  by_cases hfar : 2 * k + 1 < n
  · have hplace : 2 * ((2 * k + 1 + n) / 2) = 2 * k + 1 + n := by omega
    have hnext : 2 * k + 1 + n + 1 = 2 * k + 2 + n := by omega
    refine ⟨(2 * k + 1 + n) / 2, by omega, ?_, ?_⟩
    · rw [hplace, hperiod _ (by omega)]
    · rw [hplace, hnext, hperiod _ (by omega)]
  · have hplace : 2 * ((2 * k + 1 - n) / 2) = 2 * k + 1 - n := by omega
    refine ⟨(2 * k + 1 - n) / 2, by omega, ?_, ?_⟩
    · rw [hplace, ← hperiod _ (by omega), Nat.sub_add_cancel (by omega)]
    · have hback : 2 * k + 1 - n + 1 + n = 2 * k + 2 := by omega
      rw [hplace, ← hperiod _ (by omega), hback]

theorem readsBack_iff {x : ℕ → α} {n : ℕ} (hpos : 0 < n) (hdiffer : StartsDiffer x n) :
    ReadsBack x n ↔ n % 2 = 1 ∧ ∀ t ≤ n, x (t + n) = x t :=
  ⟨fun hread => hread.period hdiffer hpos, fun h => readsBack_of_period h.1 h.2⟩

/-- For the pairs written this means that each ends as the one half of them further on starts,
around the end. -/
theorem period_iff_opposite {x : ℕ → α} {n : ℕ} (hodd : n % 2 = 1) :
    (∀ t ≤ n, x (t + n) = x t) ↔
      x 0 = x (2 * (n / 2) + 1) ∧
        ∀ k < n, x (2 * k + 2) = x (2 * ((k + (n + 1) / 2) % n) + 1) := by
  have hmiddle : 2 * (n / 2) + 1 = n := by omega
  have hwrap : ∀ k, k + (n + 1) / 2 < n → 2 * ((k + (n + 1) / 2) % n) + 1 = 2 * k + 2 + n := by
    intro k hk
    rw [Nat.mod_eq_of_lt hk]
    omega
  have hback : ∀ k < n, n ≤ k + (n + 1) / 2 →
      2 * ((k + (n + 1) / 2) % n) + 1 + n = 2 * k + 2 := by
    intro k hk hle
    rw [Nat.mod_eq_sub_mod hle, Nat.mod_eq_of_lt (by omega)]
    omega
  rw [hmiddle]
  constructor
  · intro hperiod
    have hzero := hperiod 0 (by omega)
    rw [Nat.zero_add] at hzero
    refine ⟨hzero.symm, fun k hk => ?_⟩
    by_cases hnear : k + (n + 1) / 2 < n
    · rw [hwrap k hnear, hperiod _ (by omega)]
    · have hplace := hback k hk (by omega)
      rw [← hperiod (2 * ((k + (n + 1) / 2) % n) + 1) (by omega), hplace]
  · rintro ⟨hzero, hopposite⟩ t ht
    rcases Nat.mod_two_eq_zero_or_one t with heven | hodd'
    · by_cases hstart : t = 0
      · rw [hstart, Nat.zero_add, hzero]
      · obtain ⟨k, rfl⟩ : ∃ k, t = 2 * k + 2 := ⟨t / 2 - 1, by omega⟩
        rw [hopposite k (by omega), hwrap k (by omega)]
    · obtain ⟨k, rfl⟩ : ∃ k, t = 2 * k + 1 := ⟨t / 2, by omega⟩
      have hlt : k + n / 2 < n := by omega
      have hplace := hback (k + n / 2) hlt (by omega)
      have hsecond : 2 * (k + n / 2) + 2 = 2 * k + 1 + n := by omega
      have hopp := hopposite (k + n / 2) hlt
      have hfirst : 2 * ((k + n / 2 + (n + 1) / 2) % n) + 1 = 2 * k + 1 := by omega
      rw [hsecond, hfirst] at hopp
      exact hopp

/-- The elements of a list two at a time, without one left over. -/
def pairsOf : List α → List (α × α)
  | a :: b :: rest => (a, b) :: pairsOf rest
  | _ => []

theorem mem_pairsOf_iff {xs : List α} {pair : α × α} :
    pair ∈ pairsOf xs ↔ ∃ j, xs[2 * j]? = some pair.1 ∧ xs[2 * j + 1]? = some pair.2 := by
  induction xs using pairsOf.induct with
  | case1 a b rest ih =>
    rw [pairsOf, List.mem_cons, ih]
    constructor
    · rintro (rfl | ⟨j, hfirst, hsecond⟩)
      · exact ⟨0, rfl, rfl⟩
      · exact ⟨j + 1, hfirst, hsecond⟩
    · rintro ⟨j, hfirst, hsecond⟩
      cases j with
      | zero => exact .inl (Prod.ext (Option.some.inj hfirst).symm (Option.some.inj hsecond).symm)
      | succ j => exact .inr ⟨j, hfirst, hsecond⟩
  | case2 xs hshort =>
    rw [pairsOf.eq_2 xs hshort]
    refine iff_of_false (by simp) ?_
    rintro ⟨j, -, hsecond⟩
    obtain ⟨hlt, -⟩ := List.getElem?_eq_some_iff.mp hsecond
    match xs, hshort with
    | [], _ => cases hlt
    | [a], _ => simp at hlt
    | a :: b :: rest, hshort => exact hshort a b rest rfl

end OddPeriod
end RaveloxMidi
