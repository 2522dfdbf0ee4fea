import ApoptOS.Framework.Words

namespace ApoptOS

open Framework

def pageSize : Nat := 4096
def gib : Nat := 0x40000000

def higherHalfData : Nat := 0xFFFF800000000000
def higherHalfCode : Nat := 0xFFFFFFFF80000000

def heapMaxSize : Nat := 4 * gib
def heapStartAddr : Nat := 0xFFFF900000000000

def kbToPages (kb : Nat) : Nat := kb * 1024 % 2 ^ 64 / pageSize

/-- The mask `~(align - 1)` is written as the 64-bit word it is. -/
def alignDown (address align : Nat) : Nat := address &&& (2 ^ 64 - align)
def alignUp (address align : Nat) : Nat := (address + align - 1) % 2 ^ 64 &&& (2 ^ 64 - align)

def bitToPage (bit : Nat) : Nat := bit * pageSize % 2 ^ 64
def pageToBit (page : Nat) : Nat := page / pageSize

def physToHigherHalfData (address : Nat) : Nat := add64 address higherHalfData

/-- The physical address behind a kernel pointer: heap window, higher-half
data window, or the identity map of the lower half. -/
@[irreducible] def physOf (pointer : Nat) : Nat :=
  if heapStartAddr ≤ pointer then pointer - heapStartAddr
  else if higherHalfData ≤ pointer then pointer - higherHalfData
  else pointer

theorem alignDown_page {a : Nat} (ha : a < 2 ^ 64) : alignDown a pageSize = a / 4096 * 4096 := by
  have hmask : 2 ^ 64 - pageSize = (2 ^ 52 - 1) * 2 ^ 12 := by decide
  have h := land_highMask (x := a) (k := 12) (w := 52) (by simpa using ha)
  rw [alignDown, hmask, h]
  norm_num

theorem alignUp_page {a : Nat} (ha : a + 4095 < 2 ^ 64) :
    alignUp a pageSize = (a + 4095) / 4096 * 4096 := by
  have h := alignDown_page ha
  have hadd : a + pageSize - 1 = a + 4095 := rfl
  rw [alignUp, hadd, Nat.mod_eq_of_lt ha]
  exact h

theorem physOf_low {p : Nat} (h : p < higherHalfData) : physOf p = p := by
  have hh : ¬ heapStartAddr ≤ p := by unfold heapStartAddr; unfold higherHalfData at h; omega
  unfold physOf
  rw [if_neg hh, if_neg (Nat.not_le.mpr h)]

/-- A pointer built by `PHYS_TO_HIGHER_HALF_DATA` reaches the address it was
built from, below the heap window. -/
theorem physOf_higherHalfData {a : Nat} (h : a < 2 ^ 44) :
    physOf (physToHigherHalfData a) = a := by
  have hp : physToHigherHalfData a = a + higherHalfData :=
    add64_of_lt (by unfold higherHalfData; omega)
  unfold physOf
  rw [hp]
  unfold heapStartAddr higherHalfData
  split_ifs <;> omega

end ApoptOS
