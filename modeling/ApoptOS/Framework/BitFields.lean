import Mathlib.Tactic.Common

namespace Framework

section Bits

variable {w k : Nat}

/-- What an `&` with a single bit tests. -/
theorem and_twoPow_ne_zero (x : BitVec w) {i : Nat} (hi : i < w) :
    x &&& BitVec.twoPow w i ≠ 0#w ↔ x.getLsbD i = true := by
  have hbit : BitVec.twoPow w i ≠ 0#w := by
    intro hzero
    have h := congrArg (fun y : BitVec w => y.getLsbD i) hzero
    simp [hi] at h
  rw [BitVec.and_twoPow]
  split_ifs with h
  · simp only [h, hbit, ne_eq, not_false_eq_true]
  · simp only [h, ne_eq, not_true_eq_false, Bool.false_eq_true]

theorem getLsbD_orBit (hk : k < w) (x : BitVec w) (c : Bool) (i : Nat) :
    (if c = true then x ||| BitVec.twoPow w k else x).getLsbD i =
      (x.getLsbD i || (c && decide (i = k))) := by
  cases c with
  | false => simp
  | true => simp [hk, eq_comm]

/-- Clearing a bit that is not set has no effect. -/
theorem getLsbD_writeBit (hk : k < w) (x : BitVec w) (c : Bool) (i : Nat)
    (hclear : x.getLsbD k = false) :
    (if c = true then x ||| BitVec.twoPow w k else x &&& ~~~BitVec.twoPow w k).getLsbD i =
      (x.getLsbD i || (c && decide (i = k))) := by
  cases c with
  | false =>
    by_cases hi : i = k
    · subst hi
      simp [hclear]
    · by_cases hw : i < w
      · simp [hi, hw]
      · simp [BitVec.getLsbD_of_ge x i (by omega), hi]
  | true => exact getLsbD_orBit hk x true i

theorem getLsbD_setBit (hk : k < w) (x : BitVec w) (i : Nat) :
    (x ||| BitVec.twoPow w k).getLsbD i = (x.getLsbD i || decide (i = k)) := by
  simpa using getLsbD_orBit hk x true i

theorem getLsbD_clearBit (x : BitVec w) (k i : Nat) :
    (x &&& ~~~BitVec.twoPow w k).getLsbD i = (x.getLsbD i && decide (i ≠ k)) := by
  by_cases hw : i < w
  · by_cases hi : i = k
    · subst hi
      simp [hw]
    · simp [hw, hi]
  · simp [BitVec.getLsbD_of_ge x i (by omega)]

end Bits

section Halves

/-- A 64-bit word from its two halves. -/
def joinWords (low high : BitVec 32) : BitVec 64 := low.setWidth 64 ||| high.setWidth 64 <<< 32

theorem joinWords_split (w : BitVec 64) :
    joinWords (w.setWidth 32) ((w >>> 32).setWidth 32) = w := by
  apply BitVec.eq_of_getLsbD_eq
  intro i hi
  simp only [joinWords, BitVec.getLsbD_or, BitVec.getLsbD_shiftLeft, BitVec.getLsbD_setWidth,
    BitVec.getLsbD_ushiftRight, hi, decide_true, Bool.true_and]
  by_cases hlow : i < 32
  · simp only [hlow, decide_true, Bool.true_and, Bool.not_true, Bool.false_and, Bool.or_false]
  · have hback : 32 + (i - 32) = i := by omega
    have hhigh : i - 32 < 32 := by omega
    have hword : i - 32 < 64 := by omega
    simp only [hlow, hback, hhigh, hword, decide_true, decide_false, Bool.true_and, Bool.false_and,
      Bool.not_false, Bool.false_or]

end Halves

end Framework
