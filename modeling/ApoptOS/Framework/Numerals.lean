import Mathlib.Data.Nat.Digits.Lemmas
import Mathlib.Tactic
import Mathlib.Order.CompletePartialOrder

namespace Framework

/-- The digits a number is written with, the last one first. Zero has one digit. -/
def numeral (base value : Nat) : List Nat := if value = 0 then [0] else Nat.digits base value

section Numeral

variable {base value : Nat}

theorem numeral_last (hb : 1 < base) (h : value / base = 0) :
    numeral base value = [value % base] := by
  unfold numeral
  by_cases hv : value = 0
  · simp [hv]
  · rw [if_neg hv, Nat.digits_eq_cons_digits_div hb hv, h, Nat.digits_zero]

theorem numeral_next (hb : 1 < base) (h : value / base ≠ 0) :
    numeral base value = value % base :: numeral base (value / base) := by
  have hv : value ≠ 0 := by
    intro hv
    simp [hv] at h
  rw [numeral, numeral, if_neg hv, if_neg h, Nat.digits_eq_cons_digits_div hb hv]

theorem numeral_length_pos (base value : Nat) : 0 < (numeral base value).length := by
  unfold numeral
  by_cases hv : value = 0
  · simp [hv]
  · rw [if_neg hv]
    apply List.length_pos_iff.mpr
    exact Nat.digits_ne_nil_iff_ne_zero.mpr hv

theorem numeral_lt_base (hb : 1 < base) {d : Nat} (hd : d ∈ numeral base value) : d < base := by
  unfold numeral at hd
  by_cases hv : value = 0
  · simp only [hv, if_true, List.mem_singleton] at hd
    omega
  · rw [if_neg hv] at hd
    exact Nat.digits_lt_base hb hd

theorem ofDigits_numeral : Nat.ofDigits base (numeral base value) = value := by
  unfold numeral
  by_cases hv : value = 0
  · simp [hv]
  · rw [if_neg hv, Nat.ofDigits_digits]

theorem numeral_length_le_iff (hb : 1 < base) {k : Nat} (hk : 0 < k) :
    (numeral base value).length ≤ k ↔ value < base ^ k := by
  unfold numeral
  by_cases hv : value = 0
  · have hpow : 0 < base ^ k := by positivity
    simp only [hv, if_true, List.length_singleton]
    omega
  · rw [if_neg hv, Nat.digits_length_le_iff hb]

end Numeral

/-- Digits read from the first on, in arithmetic modulo `n`. -/
def readDigits (base n : Nat) (ds : List Nat) : Nat := ds.foldl (fun i d => (i * base + d) % n) 0

theorem readDigits_reverse (base n : Nat) (ds : List Nat) :
    readDigits base n ds.reverse = Nat.ofDigits base ds % n := by
  rw [readDigits, List.foldl_reverse]
  induction ds with
  | nil => simp
  | cons d ds ih =>
    rw [List.foldr_cons, ih, Nat.ofDigits_cons, Nat.add_comm d, Nat.mul_comm base,
      Nat.add_mod, Nat.mod_mul_mod, ← Nat.add_mod]

/-- A number is read back from its digits, leading zeros or not. -/
theorem readDigits_numeral (base n k value : Nat) :
    readDigits base n (numeral base value ++ List.replicate k 0).reverse = value % n := by
  rw [readDigits_reverse, Nat.ofDigits_append_replicate_zero, ofDigits_numeral]

end Framework
