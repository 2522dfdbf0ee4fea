import Mathlib.Data.Nat.Bitwise
import Mathlib.Tactic
import Mathlib.Order.CompletePartialOrder

namespace Framework

/-- 64-bit addition and subtraction on natural numbers. Irreducible, so that
unification never counts up to a large constant. -/
@[irreducible] def add64 (a b : Nat) : Nat := (a + b) % 2 ^ 64
@[irreducible] def sub64 (a b : Nat) : Nat := (a + (2 ^ 64 - b % 2 ^ 64)) % 2 ^ 64

theorem add64_lt (a b : Nat) : add64 a b < 2 ^ 64 := by
  unfold add64
  exact Nat.mod_lt _ (by positivity)

theorem add64_of_lt {a b : Nat} (h : a + b < 2 ^ 64) : add64 a b = a + b := by
  unfold add64
  exact Nat.mod_eq_of_lt h

theorem sub64_of_le {a b : Nat} (ha : a < 2 ^ 64) (h : b ≤ a) : sub64 a b = a - b := by
  unfold sub64
  omega

theorem sub64_add64 {a : Nat} (b : Nat) (ha : a < 2 ^ 64) : sub64 (add64 a b) b = a := by
  unfold sub64 add64
  omega

/-- Masking out the low `k` bits of a `k + w`-bit word rounds it down. -/
theorem land_highMask {x k w : Nat} (hx : x < 2 ^ (k + w)) :
    x &&& ((2 ^ w - 1) * 2 ^ k) = x / 2 ^ k * 2 ^ k := by
  apply Nat.eq_of_testBit_eq
  intro i
  rw [Nat.testBit_and, Nat.testBit_mul_two_pow, Nat.testBit_mul_two_pow,
    Nat.testBit_two_pow_sub_one, Nat.testBit_div_two_pow]
  by_cases hk : k ≤ i
  · have hi : i - k + k = i := by omega
    by_cases hw : i - k < w
    · simp [hk, hw, hi]
    · have hbig : x.testBit i = false := by
        apply Nat.testBit_lt_two_pow
        exact lt_of_lt_of_le hx (Nat.pow_le_pow_right (by decide) (by omega))
      simp [hi, hbig]
  · simp [hk]

/-- Extracting a `w`-bit field at bit `k`, as mask and shift. -/
theorem land_field_shift (x k w : Nat) :
    (x &&& ((2 ^ w - 1) <<< k)) >>> k = x / 2 ^ k % 2 ^ w := by
  rw [Nat.shiftRight_and_distrib, Nat.shiftLeft_shiftRight, Nat.and_two_pow_sub_one_eq_mod,
    Nat.shiftRight_eq_div_pow]

/-- Or-ing small flags into a value aligned to `2 ^ k` adds them. -/
theorem lor_eq_add {a f k : Nat} (ha : a % 2 ^ k = 0) (hf : f < 2 ^ k) : a ||| f = a + f := by
  have hmul : 2 ^ k * (a / 2 ^ k) = a := by
    have h := Nat.div_add_mod a (2 ^ k)
    omega
  have h := Nat.two_pow_add_eq_or_of_lt hf (a / 2 ^ k)
  rw [hmul] at h
  exact h.symm

end Framework
