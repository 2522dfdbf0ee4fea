import Mathlib.Data.Nat.Bitwise
import Mathlib.Data.Nat.Size
import Mathlib.Order.Bounds.Basic
import Mathlib.Order.Monotone.Defs

namespace Framework

section RoundsUp

variable {α : Type*} [PartialOrder α] {S D : Set α} {f : α → α} {a b : α}

/-- On `D`, `f` takes an element to the least element of `S` above it. -/
def RoundsUp (S D : Set α) (f : α → α) : Prop := ∀ a ∈ D, IsLeast {c ∈ S | a ≤ c} (f a)

theorem RoundsUp.le (h : RoundsUp S D f) (ha : a ∈ D) : a ≤ f a := (h a ha).1.2

theorem RoundsUp.mem (h : RoundsUp S D f) (ha : a ∈ D) : f a ∈ S := (h a ha).1.1

theorem RoundsUp.fixed (h : RoundsUp S D f) (ha : a ∈ D) (hS : a ∈ S) : f a = a := by
  apply le_antisymm
  · exact (h a ha).2 ⟨hS, le_refl a⟩
  · exact h.le ha

/-- Rounding twice is rounding once, where the first result can be rounded. -/
theorem RoundsUp.idempotent (h : RoundsUp S D f) (ha : a ∈ D) (hfa : f a ∈ D) : f (f a) = f a :=
  h.fixed hfa (h.mem ha)

theorem RoundsUp.monotoneOn (h : RoundsUp S D f) : MonotoneOn f D := by
  intro a ha b hb hab
  exact (h a ha).2 ⟨h.mem hb, hab.trans (h.le hb)⟩

end RoundsUp

section Smear

variable {n m d : Nat}

/-- `m` has a bit wherever `n` has one at most `d - 1` places higher. -/
def Smeared (n d m : Nat) : Prop :=
  ∀ i, m.testBit i = true ↔ ∃ e < d, n.testBit (i + e) = true

theorem smeared_one (n : Nat) : Smeared n 1 n := by
  intro i
  simp

/-- One step of the smearing doubles its reach. -/
theorem Smeared.step (h : Smeared n d m) : Smeared n (d + d) (m ||| m >>> d) := by
  intro i
  rw [Nat.testBit_or, Bool.or_eq_true, Nat.testBit_shiftRight, h i, h (d + i)]
  constructor
  · rintro (⟨e, he, hn⟩ | ⟨e, he, hn⟩)
    · exact ⟨e, by omega, hn⟩
    · exact ⟨d + e, by omega, by rwa [show i + (d + e) = d + i + e by omega]⟩
  · rintro ⟨e, he, hn⟩
    by_cases hed : e < d
    · exact Or.inl ⟨e, hed, hn⟩
    · exact Or.inr ⟨e - d, by omega, by rwa [show d + i + (e - d) = i + e by omega]⟩

/-- A number smeared over all its bits is one less than a power of two. -/
theorem Smeared.eq (h : Smeared n d m) (hn : n < 2 ^ d) : m = 2 ^ n.size - 1 := by
  apply Nat.eq_of_testBit_eq
  intro i
  rw [Nat.testBit_two_pow_sub_one, Bool.eq_iff_iff, h i, decide_eq_true_iff]
  have hsize : n.size ≤ d := Nat.size_le.mpr hn
  constructor
  · rintro ⟨e, -, hbit⟩
    have hle : 2 ^ (i + e) ≤ n := Nat.ge_two_pow_of_testBit hbit
    have hlt := Nat.lt_size.mpr hle
    omega
  · intro hi
    -- the topmost bit of n
    refine ⟨n.size - 1 - i, by omega, ?_⟩
    rw [show i + (n.size - 1 - i) = n.size - 1 by omega]
    apply Nat.testBit_of_two_pow_le_and_two_pow_add_one_gt
    · exact Nat.lt_size.mp (by omega)
    · rw [show n.size - 1 + 1 = n.size by omega]
      exact Nat.lt_size_self n

/-- `2 ^ size (n - 1)` is the least power of two from `n` on. -/
theorem isLeast_two_pow_size (h : 0 < n) : IsLeast {p | (∃ k, p = 2 ^ k) ∧ n ≤ p}
    (2 ^ (n - 1).size) := by
  constructor
  · have hlt := Nat.lt_size_self (n - 1)
    exact ⟨⟨_, rfl⟩, by omega⟩
  · rintro p ⟨⟨k, rfl⟩, hle⟩
    have hk : (n - 1).size ≤ k := Nat.size_le.mpr (by omega)
    exact Nat.pow_le_pow_right (by decide) hk

end Smear

end Framework
