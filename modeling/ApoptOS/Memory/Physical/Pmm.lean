import ApoptOS.Memory.Frames
import ApoptOS.Memory.Physical.Bitmap

namespace ApoptOS

open Framework

inductive MmapType where
  | usable
  | reserved
  | acpiReclaimable
  | acpiNvs
  | badMemory
  | bootloaderReclaimable
  | kernelAndModules
  | framebuffer
  | unknown (code : Nat)
  deriving DecidableEq, Repr

/-- One entry of the memory map the boot loader passes. -/
structure MmapEntry where
  base : Nat
  length : Nat
  type : MmapType
  deriving DecidableEq, Repr

/-- The allocator's static variables. The bitmap's bytes are in memory. -/
structure Pmm where
  bitmap : Bitmap
  highestPageTop : Nat
  usedPagesCount : Nat
  deriving DecidableEq, Repr

/-- `bitmap_set_bit` on `pageCount` bits from `index`, in loop order. -/
def setBits (m : Mem) (bitmap : Bitmap) (index : Nat) : Nat → Mem
  | 0 => m
  | i + 1 => bitmapSetBit (setBits m bitmap index i) bitmap (toInt (index + i))

def unsetBits (m : Mem) (bitmap : Bitmap) (index : Nat) : Nat → Mem
  | 0 => m
  | i + 1 => bitmapUnsetBit (unsetBits m bitmap index i) bitmap (toInt (index + i))

/-- The inner loop of the search with `remaining` iterations left: leave it at
the first set bit, succeed in the last iteration. -/
def pageRangeFree (m : Mem) (bitmap : Bitmap) (allBitsI pageCount : Nat) : Nat → Bool
  | 0 => false
  | remaining + 1 =>
    let pageCountI := pageCount - (remaining + 1)
    if bitmapCheckBit m bitmap (toInt (allBitsI + pageToBit pageCountI)) ≠ 0#8 then false
    else if pageCountI = pageCount - 1 then true
    else pageRangeFree m bitmap allBitsI pageCount remaining

/-- The outer loop of the search with `remaining` bits left. -/
def findFreePageRange (m : Mem) (pmm : Pmm) (pageCount : Nat) : Nat → Nat
  | 0 => 0
  | remaining + 1 =>
    let allBitsI := pageToBit pmm.highestPageTop - (remaining + 1)
    if pageRangeFree m pmm.bitmap allBitsI pageCount pageCount then bitToPage allBitsI
    else findFreePageRange m pmm pageCount remaining

def pmmFindFirstFreePageRange (m : Mem) (pmm : Pmm) (pageCount : Nat) : Nat :=
  findFreePageRange m pmm pageCount (pageToBit pmm.highestPageTop)

def pmmAlloc (pageCount : Nat) (m : Mem) (pmm : Pmm) : Nat × Mem × Pmm :=
  if pmm.usedPagesCount ≤ 0 then (0, m, pmm)
  else
    let pointer := pmmFindFirstFreePageRange m pmm pageCount
    if pointer = 0 then (0, m, pmm)
    else
      let index := pageToBit pointer
      (bitToPage index, setBits m pmm.bitmap index pageCount,
        { pmm with usedPagesCount := add64 pmm.usedPagesCount pageCount })

/-- The `memset` runs on whatever `pmm_alloc` returned, also on `NULL`. -/
def pmmAllocz (pageCount : Nat) (m : Mem) (pmm : Pmm) : Nat × Mem × Pmm :=
  let r := pmmAlloc pageCount m pmm
  (r.1, r.2.1.memset r.1 0 (pageSize * pageCount % 2 ^ 64), r.2.2)

def pmmFree (pointer pageCount : Nat) (m : Mem) (pmm : Pmm) : Mem × Pmm :=
  let index := pageToBit pointer
  (unsetBits m pmm.bitmap index pageCount,
    { pmm with usedPagesCount := sub64 pmm.usedPagesCount pageCount })

/-- The bitmap allocator as the kernel's source of page frames. -/
def pmmFrames : PageFrames Pmm := ⟨pmmAllocz, pmmFree⟩

/-- The entry types that count towards `highest_page_top`. -/
def countsAsRam (type : MmapType) : Bool :=
  type = .usable || type = .bootloaderReclaimable || type = .kernelAndModules

def raiseTop (highestPageTop : Nat) (e : MmapEntry) : Nat :=
  if countsAsRam e.type then
    let currentPageTop := add64 e.base e.length
    if highestPageTop < currentPageTop then currentPageTop else highestPageTop
  else highestPageTop

def highestTop (memoryMap : List MmapEntry) : Nat := memoryMap.foldl raiseTop 0

def bitmapSize (highestPageTop : Nat) : Nat :=
  alignUp (alignDown highestPageTop pageSize / pageSize / 8) pageSize

def MmapEntry.cut (e : MmapEntry) (size : Nat) : MmapEntry :=
  { e with base := add64 e.base size, length := sub64 e.length size }

/-- Find the first usable entry large enough for the bitmap and cut the bitmap
off its start. -/
def hostBitmap (size : Nat) : List MmapEntry → Option Nat × List MmapEntry
  | [] => (none, [])
  | e :: es =>
    if e.type = .usable ∧ size ≤ e.length then
      (some e.base, e.cut size :: es)
    else
      let r := hostBitmap size es
      (r.1, e :: r.2)

/-- Free every usable entry, in map order. -/
def freeUsable (m : Mem) (pmm : Pmm) : List MmapEntry → Mem × Pmm
  | [] => (m, pmm)
  | e :: es =>
    if e.type = .usable then
      let r := pmmFree e.base (e.length / pageSize) m pmm
      freeUsable r.1 r.2 es
    else freeUsable m pmm es

/-- The state left by `pmm_init` and the memory map, which it modifies. -/
def pmmInit (m : Mem) (memoryMap : List MmapEntry) : Mem × Pmm × List MmapEntry :=
  let top := highestTop memoryMap
  let size := bitmapSize top
  let host := hostBitmap size memoryMap
  let bitmap : Bitmap := ⟨(host.1.map physToHigherHalfData).getD 0, size⟩
  let pmm : Pmm := ⟨bitmap, top, kbToPages top⟩
  let m := m.memset (physOf bitmap.map) 0xFF size
  let r := freeUsable m pmm host.2
  (bitmapSetBit r.1 r.2.bitmap 0, r.2, host.2)

section Bits

variable {m : Mem} {bitmap : Bitmap} {base : Nat}

theorem setBits_used (h : bitmap.StoredAt base) (index n c : Nat) (hn : index + n ≤ 2 ^ 31) :
    usedBit (setBits m bitmap index n) base c =
      (usedBit m base c || decide (index ≤ c ∧ c < index + n)) := by
  induction n with
  | zero =>
    have hc : ¬ (index ≤ c ∧ c < index + 0) := by omega
    rw [setBits, decide_eq_false hc, Bool.or_false]
  | succ n ih =>
    rw [setBits, usedBit_set h (by omega), ih (by omega), Bool.or_assoc]
    congr 1
    rw [← Bool.decide_or, decide_eq_decide]
    omega

theorem unsetBits_used (h : bitmap.StoredAt base) (index n c : Nat) (hn : index + n ≤ 2 ^ 31) :
    usedBit (unsetBits m bitmap index n) base c =
      (usedBit m base c && !decide (index ≤ c ∧ c < index + n)) := by
  induction n with
  | zero =>
    have hc : ¬ (index ≤ c ∧ c < index + 0) := by omega
    rw [unsetBits, decide_eq_false hc, Bool.not_false, Bool.and_true]
  | succ n ih =>
    rw [unsetBits, usedBit_unset h (by omega), ih (by omega), Bool.and_assoc]
    congr 1
    rw [← Bool.not_or, ← Bool.decide_or]
    congr 1
    rw [decide_eq_decide]
    omega

/-- A loop over the bits below `8 * size` writes inside the bitmap's bytes. -/
theorem bits_frame (h : bitmap.StoredAt base) (index n size x : Nat) (hn : index + n ≤ 8 * size)
    (hs : 8 * size ≤ 2 ^ 31) (hx : x < base ∨ base + size ≤ x) :
    setBits m bitmap index n x = m x ∧ unsetBits m bitmap index n x = m x := by
  induction n with
  | zero => exact ⟨rfl, rfl⟩
  | succ n ih =>
    obtain ⟨hset, hunset⟩ := ih (by omega)
    have hne : x ≠ base + (index + n) / 8 := by omega
    rw [setBits, unsetBits]
    exact ⟨((bitmap_frame h (by omega) hne).1).trans hset,
      ((bitmap_frame h (by omega) hne).2).trans hunset⟩

end Bits

/-- Frame `f` is free: bit `f % 8` of byte `f / 8` of the bitmap is clear. -/
def BitClear (m : Mem) (pmm : Pmm) (f : Nat) : Prop :=
  usedBit m (physOf pmm.bitmap.map) f = false

instance (m : Mem) (pmm : Pmm) (f : Nat) : Decidable (BitClear m pmm f) :=
  inferInstanceAs (Decidable (_ = _))

/-- `bitmap_check_bit` tells of a frame below 2^31 whether it is free. -/
theorem bitClear_iff {m : Mem} {pmm : Pmm} {base f : Nat} (h : pmm.bitmap.StoredAt base)
    (hf : f < 2 ^ 31) :
    bitmapCheckBit m pmm.bitmap (toInt f) = 0#8 ↔ BitClear m pmm f := by
  rw [bitmapCheckBit_eq h hf, BitClear, h.phys]

section Search

variable {m : Mem} {pmm : Pmm} {pageCount : Nat}

/-- The bits the search looks at for a run of `pageCount` frames from `i`: the
offset of the `j`-th probe is `PAGE_TO_BIT(j)`. -/
def ProbesFree (m : Mem) (pmm : Pmm) (pageCount i : Nat) : Prop :=
  ∀ j < pageCount, bitmapCheckBit m pmm.bitmap (toInt (i + pageToBit j)) = 0#8

instance (m : Mem) (pmm : Pmm) (pageCount i : Nat) : Decidable (ProbesFree m pmm pageCount i) :=
  inferInstanceAs (Decidable (∀ j < pageCount, _ = _))

/-- `i` is the lowest index below the top of memory whose probes are all clear. -/
def LowestProbe (m : Mem) (pmm : Pmm) (pageCount i : Nat) : Prop :=
  i < pageToBit pmm.highestPageTop ∧ ProbesFree m pmm pageCount i ∧
    ∀ i' < i, ¬ ProbesFree m pmm pageCount i'

instance (m : Mem) (pmm : Pmm) (pageCount i : Nat) : Decidable (LowestProbe m pmm pageCount i) :=
  inferInstanceAs (Decidable (_ ∧ _ ∧ ∀ i' < i, ¬ _))

private theorem pageRangeFree_from (allBitsI remaining : Nat) (hr : remaining ≤ pageCount) :
    pageRangeFree m pmm.bitmap allBitsI pageCount remaining = true ↔
      0 < remaining ∧ ∀ j, pageCount - remaining ≤ j → j < pageCount →
        bitmapCheckBit m pmm.bitmap (toInt (allBitsI + pageToBit j)) = 0#8 := by
  induction remaining with
  | zero => simp [pageRangeFree]
  | succ r ih =>
    have ih := ih (by omega)
    rw [pageRangeFree]
    by_cases hbit : bitmapCheckBit m pmm.bitmap
        (toInt (allBitsI + pageToBit (pageCount - (r + 1)))) = 0#8
    · simp only [hbit, ne_eq, not_true_eq_false, if_false]
      by_cases hlast : pageCount - (r + 1) = pageCount - 1
      · simp only [hlast, if_true, true_iff]
        refine ⟨by omega, fun j hj hn => ?_⟩
        have hjeq : j = pageCount - (r + 1) := by omega
        rw [hjeq]
        exact hbit
      · simp only [hlast, if_false, ih]
        constructor
        · rintro ⟨_, hall⟩
          refine ⟨by omega, fun j hj hn => ?_⟩
          by_cases hjeq : j = pageCount - (r + 1)
          · rw [hjeq]
            exact hbit
          · exact hall j (by omega) hn
        · rintro ⟨_, hall⟩
          exact ⟨by omega, fun j hj hn => hall j (by omega) hn⟩
    · simp only [ne_eq, hbit, not_false_eq_true, if_true, Bool.false_eq_true, false_iff]
      rintro ⟨_, hall⟩
      exact hbit (hall _ (le_refl _) (by omega))

theorem pageRangeFree_iff (allBitsI : Nat) :
    pageRangeFree m pmm.bitmap allBitsI pageCount pageCount = true ↔
      0 < pageCount ∧ ProbesFree m pmm pageCount allBitsI := by
  rw [pageRangeFree_from allBitsI pageCount (le_refl _)]
  simp [ProbesFree]

private theorem findFreePageRange_from (hp : 0 < pageCount) (remaining : Nat)
    (hr : remaining ≤ pageToBit pmm.highestPageTop)
    (hbelow : ∀ i < pageToBit pmm.highestPageTop - remaining, ¬ ProbesFree m pmm pageCount i) :
    (findFreePageRange m pmm pageCount remaining = 0 ∧
      ∀ i < pageToBit pmm.highestPageTop, ¬ ProbesFree m pmm pageCount i) ∨
    ∃ i, LowestProbe m pmm pageCount i ∧
      findFreePageRange m pmm pageCount remaining = bitToPage i := by
  induction remaining with
  | zero => exact Or.inl ⟨rfl, fun i hi => hbelow i (by omega)⟩
  | succ r ih =>
    rw [findFreePageRange]
    by_cases hfree : pageRangeFree m pmm.bitmap (pageToBit pmm.highestPageTop - (r + 1))
        pageCount pageCount = true
    · rw [if_pos hfree]
      refine Or.inr ⟨_, ⟨by omega, ((pageRangeFree_iff _).mp hfree).2, hbelow⟩, rfl⟩
    · rw [if_neg hfree]
      apply ih (by omega)
      intro i hi
      by_cases hieq : i = pageToBit pmm.highestPageTop - (r + 1)
      · rw [hieq]
        intro hprobe
        exact hfree ((pageRangeFree_iff _).mpr ⟨hp, hprobe⟩)
      · exact hbelow i (by omega)

/-- The search returns the lowest index whose probes are clear, or `NULL` when
there is none. -/
theorem pmmFindFirstFreePageRange_spec (m : Mem) (pmm : Pmm) (hp : 0 < pageCount) :
    (pmmFindFirstFreePageRange m pmm pageCount = 0 ∧
      ∀ i < pageToBit pmm.highestPageTop, ¬ ProbesFree m pmm pageCount i) ∨
    ∃ i, LowestProbe m pmm pageCount i ∧
      pmmFindFirstFreePageRange m pmm pageCount = bitToPage i :=
  findFreePageRange_from hp _ (le_refl _) (fun i hi => absurd hi (by omega))

theorem LowestProbe.unique {i i' : Nat} (h : LowestProbe m pmm pageCount i)
    (h' : LowestProbe m pmm pageCount i') : i = i' := by
  rcases lt_trichotomy i i' with hlt | heq | hlt
  · exact absurd h.2.1 (h'.2.2 i hlt)
  · exact heq
  · exact absurd h'.2.1 (h.2.2 i' hlt)

end Search

end ApoptOS
