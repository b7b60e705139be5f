import Mathlib.Data.Nat.Digits.Lemmas
import Mathlib.Tactic

/-!
# Numbers in texts

What `printf` makes of a number, as the octets of a text in ASCII.
-/
namespace RaveloxMidi

/-- The octets of a text in ASCII. -/
def ascii (text : String) : List UInt8 := text.toList.map fun c => c.toNat.toUInt8

def hexDigit (d : ℕ) : UInt8 := if d < 10 then 0x30 + d.toUInt8 else 0x57 + d.toUInt8

/-- `%d`, `%u` and `%lu` of a number that is not negative. -/
def decimal (n : ℕ) : List UInt8 :=
  if n = 0 then [0x30] else (Nat.digits 10 n).reverse.map hexDigit

/-- `isdigit` -/
def isDecimal (c : UInt8) : Bool := 0x30 ≤ c && c ≤ 0x39

theorem hexDigit_isDecimal : ∀ d < 10, isDecimal (hexDigit d) = true := by decide

theorem hexDigit_value : ∀ d < 10, (hexDigit d).toNat - 0x30 = d := by decide

theorem decimal_isDecimal (n : ℕ) : ∀ b ∈ decimal n, isDecimal b = true := by
  rw [decimal]
  split_ifs
  · simp [isDecimal]
  · intro b hb
    obtain ⟨d, hd, rfl⟩ := List.mem_map.mp hb
    exact hexDigit_isDecimal d (Nat.digits_lt_base (by omega) (List.mem_reverse.mp hd))

theorem decimal_ne_nil (n : ℕ) : decimal n ≠ [] := by
  rw [decimal]
  split_ifs with hn
  · exact List.cons_ne_nil _ _
  · simpa using Nat.digits_ne_nil_iff_ne_zero.mpr hn

/-- A number has no more digits than the power of ten above it says. -/
theorem decimal_length_le {n k : ℕ} (hk : 0 < k) (hn : n < 10 ^ k) : (decimal n).length ≤ k := by
  rw [decimal]
  split_ifs
  · exact hk
  · rw [List.length_map, List.length_reverse]
    exact (Nat.digits_length_le_iff (by omega) n).mpr hn

/-- The value of the digits of a number is the number. -/
theorem decimal_value (n : ℕ) :
    Nat.ofDigits 10 ((decimal n).map fun c => c.toNat - 0x30).reverse = n := by
  rw [decimal]
  split_ifs with hn
  · rw [hn]
    rfl
  · have hdigits : ((Nat.digits 10 n).reverse.map hexDigit).map (fun c => c.toNat - 0x30) =
        (Nat.digits 10 n).reverse := by
      have hdigit : ∀ d ∈ (Nat.digits 10 n).reverse, (hexDigit d).toNat - 0x30 = d := fun d hd =>
        hexDigit_value d (Nat.digits_lt_base (by omega) (List.mem_reverse.mp hd))
      rw [List.map_map]
      exact (List.map_congr_left hdigit).trans (List.map_id _)
    rw [hdigits, List.reverse_reverse, Nat.ofDigits_digits]

end RaveloxMidi
