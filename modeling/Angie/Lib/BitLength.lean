import Mathlib.Algebra.Order.Ring.Nat
import Mathlib.Data.Nat.Prime.Basic
import Mathlib.Data.Nat.Size

/-!
# Bit lengths of factors

How the bit lengths of two numbers bound their product: lengths that add up to `n` leave it below `2^n`
(`mul_lt_two_pow`), longer ones put it above `2^(n-1)` (`two_pow_le_mul`), and a power of two has factors whose lengths
add up to two more than its exponent (`size_add_size`).
-/

namespace BitLength

variable {a b n : ℕ}

theorem mul_lt_two_pow (h : a.size + b.size ≤ n) : a * b < 2 ^ n :=
  calc a * b < 2 ^ a.size * 2 ^ b.size := Nat.mul_lt_mul'' a.lt_size_self b.lt_size_self
    _ = 2 ^ (a.size + b.size) := (Nat.pow_add 2 a.size b.size).symm
    _ ≤ 2 ^ n := Nat.pow_le_pow_right two_pos h

/-- A positive number is at least the power of two at its highest bit. -/
theorem two_pow_size_le (ha : 0 < a) : 2 ^ (a.size - 1) ≤ a := by
  have hpos := Nat.size_pos.2 ha
  exact Nat.lt_size.1 (by omega)

theorem two_pow_le_mul (ha : 0 < a) (hb : 0 < b) (h : n < a.size + b.size) : 2 ^ (n - 1) ≤ a * b :=
  calc 2 ^ (n - 1) ≤ 2 ^ (a.size - 1 + (b.size - 1)) := Nat.pow_le_pow_right two_pos (by
        have := Nat.size_pos.2 ha
        have := Nat.size_pos.2 hb
        omega)
    _ = 2 ^ (a.size - 1) * 2 ^ (b.size - 1) := Nat.pow_add 2 _ _
    _ ≤ a * b := Nat.mul_le_mul (two_pow_size_le ha) (two_pow_size_le hb)

theorem size_add_size (h : a * b = 2 ^ n) : a.size + b.size = n + 2 := by
  obtain ⟨i, -, rfl⟩ := (Nat.dvd_prime_pow Nat.prime_two).1 (Dvd.intro _ h)
  obtain ⟨j, -, rfl⟩ := (Nat.dvd_prime_pow Nat.prime_two).1 (Dvd.intro_left _ h)
  rw [← Nat.pow_add] at h
  have hij := Nat.pow_right_injective (le_refl 2) h
  rw [Nat.size_pow, Nat.size_pow]
  omega

/-- Halving takes one bit. -/
theorem size_div_two (ha : 0 < a) : a.size = (a / 2).size + 1 := by
  apply le_antisymm
  · rw [Nat.size_le, Nat.pow_succ]
    have := (a / 2).lt_size_self
    omega
  · have hpos := Nat.size_pos.2 ha
    have hhalf : (a / 2).size ≤ a.size - 1 := by
      rw [Nat.size_le]
      have hlt := a.lt_size_self
      rw [show a.size = a.size - 1 + 1 by omega, Nat.pow_succ] at hlt
      omega
    omega

end BitLength
