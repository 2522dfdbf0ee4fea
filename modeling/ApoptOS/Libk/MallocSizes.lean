import ApoptOS.Framework.Rounding
import ApoptOS.Libk.Malloc

namespace ApoptOS

open Framework

/-- The sizes the heap hands out: the six slot sizes and whole pages. -/
def sizeClasses : Set Nat :=
  {c | c ∈ heapSlabSizes ∨ ∃ pages, 0 < pages ∧ c = pages * pageSize}

/-- The sizes that `ALIGN_UP` does not wrap around to 0. -/
def roundableSizes : Set Nat := {size | size ≤ 2 ^ 64 - 4096}

/-- `-1` for all other sizes. -/
theorem sizeToSlabCacheIndex_isSome {size : Nat} :
    (sizeToSlabCacheIndex size).isSome = true ↔ size ∈ heapSlabSizes := by
  constructor
  · intro h
    unfold sizeToSlabCacheIndex at h
    split at h
    all_goals first | decide | simp at h
  · intro h
    have hall : ∀ c ∈ heapSlabSizes, (sizeToSlabCacheIndex c).isSome = true := by decide
    exact hall size h

section PowerOfTwo

variable {n : Nat}

/-- The five steps of `n |= n >> d` fill a 32-bit word below its topmost bit. -/
theorem nextPowerOfTwo_eq (h16 : 16 < n) (h : n ≤ 2 ^ 31) :
    nextPowerOfTwo n = 2 ^ (n - 1).size := by
  have hsmear := (smeared_one (n - 1)).step.step.step.step.step.eq (by omega)
  have hsize : (n - 1).size ≤ 31 := Nat.size_le.mpr (by omega)
  have hpow : 2 ^ (n - 1).size ≤ 2 ^ 31 := Nat.pow_le_pow_right (by decide) hsize
  have hpos : 0 < 2 ^ (n - 1).size := by positivity
  rw [nextPowerOfTwo, if_neg (by omega)]
  show (_ + 1) % 2 ^ 32 = _
  rw [hsmear, Nat.sub_add_cancel hpos]
  exact Nat.mod_eq_of_lt (by omega)

theorem nextPowerOfTwo_isLeast (h : n ≤ 2 ^ 31) :
    IsLeast {p | (∃ k, p = 2 ^ k) ∧ max n 16 ≤ p} (nextPowerOfTwo n) := by
  by_cases h16 : n ≤ 16
  · rw [nextPowerOfTwo, if_pos h16, max_eq_right h16]
    exact ⟨⟨⟨4, rfl⟩, le_refl 16⟩, fun p hp => hp.2⟩
  · rw [nextPowerOfTwo_eq (by omega) h, max_eq_left (by omega)]
    exact isLeast_two_pow_size (by omega)

theorem mem_heapSlabSizes {c : Nat} : c ∈ heapSlabSizes ↔ (∃ k, c = 2 ^ k) ∧ 16 ≤ c ∧
    c ≤ 512 := by
  constructor
  · intro h
    have hall : ∀ c ∈ heapSlabSizes, 16 ≤ c ∧ c ≤ 512 ∧ c = 2 ^ (c.log2) := by decide
    obtain ⟨h16, h512, hlog⟩ := hall c h
    exact ⟨⟨_, hlog⟩, h16, h512⟩
  · rintro ⟨⟨k, rfl⟩, h16, h512⟩
    have hk4 : 4 ≤ k := (Nat.pow_le_pow_iff_right (by decide)).mp (show 2 ^ 4 ≤ 2 ^ k from h16)
    have hk9 : k ≤ 9 := (Nat.pow_le_pow_iff_right (by decide)).mp (show 2 ^ k ≤ 2 ^ 9 from h512)
    have hall : ∀ k ≤ 9, 4 ≤ k → 2 ^ k ∈ heapSlabSizes := by decide
    exact hall k hk9 hk4

theorem nextPowerOfTwo_le (h : n ≤ 512) : n ≤ nextPowerOfTwo n ∧
    nextPowerOfTwo n ≤ 512 ∧ (sizeToSlabCacheIndex (nextPowerOfTwo n)).isSome = true := by
  obtain ⟨⟨hpow, hmax⟩, hleast⟩ := nextPowerOfTwo_isLeast (n := n) (by omega)
  have h512 : nextPowerOfTwo n ≤ 512 := hleast ⟨⟨9, rfl⟩, by omega⟩
  refine ⟨by omega, h512, ?_⟩
  apply sizeToSlabCacheIndex_isSome.mpr
  exact mem_heapSlabSizes.mpr ⟨hpow, by omega, h512⟩

end PowerOfTwo

section Rounding

theorem alignUp_eq (a : Nat) : alignUp a pageSize = (a + 4095) % 2 ^ 64 / 4096 * 4096 := by
  have hadd : a + pageSize - 1 = a + 4095 := rfl
  rw [alignUp, hadd]
  exact alignDown_page (Nat.mod_lt _ (by positivity))

/-- The three outcomes of rounding: a slot size, whole pages, or a wrap to 0. -/
theorem roundAllocSize_cases {a : Nat} (ha : a < 2 ^ 64) :
    (a ≤ 512 ∧ roundAllocSize a ≤ 512 ∧ a ≤ roundAllocSize a ∧
      (sizeToSlabCacheIndex (roundAllocSize a)).isSome = true) ∨
    (512 < a ∧ a + 4095 < 2 ^ 64 ∧ roundAllocSize a = (a + 4095) / 4096 * 4096) ∨
    (2 ^ 64 ≤ a + 4095 ∧ roundAllocSize a = 0) := by
  unfold roundAllocSize
  by_cases h : a ≤ 512
  · rw [if_pos h]
    obtain ⟨h1, h2, h3⟩ := nextPowerOfTwo_le h
    exact Or.inl ⟨h, h2, h1, h3⟩
  · rw [if_neg h, alignUp_eq]
    omega

/-- A request too large for a slot gets whole pages that hold it. -/
theorem round_pages {size : Nat} (hsize : size < 2 ^ 64)
    (h : 512 < roundAllocSize (add64 size metadataSize)) :
    roundAllocSize (add64 size metadataSize) % 4096 = 0 ∧
      size + 2 ≤ roundAllocSize (add64 size metadataSize) ∧ 510 < size ∧ size < 2 ^ 64 - 2 ∧
      roundAllocSize (add64 size metadataSize) < size + 2 + 4096 := by
  have hadd : add64 size metadataSize = (size + 2) % 2 ^ 64 := by unfold add64 metadataSize; rfl
  rcases roundAllocSize_cases (add64_lt size metadataSize) with h1 | h1 | h1
  · omega
  · rw [h1.2.2]
    rw [hadd] at h1 ⊢
    omega
  · omega

end Rounding

section Closure

variable {size : Nat}

/-- Below the seam at 512 the least size class is a slot size. -/
theorem roundAllocSize_small (h : size ≤ 512) :
    IsLeast {c ∈ sizeClasses | size ≤ c} (roundAllocSize size) := by
  rw [roundAllocSize, if_pos h]
  obtain ⟨hge, h512, hindex⟩ := nextPowerOfTwo_le h
  refine ⟨⟨Or.inl (sizeToSlabCacheIndex_isSome.mp hindex), hge⟩, ?_⟩
  rintro c ⟨hc | ⟨pages, hpos, rfl⟩, hle⟩
  · obtain ⟨hpow, h16, -⟩ := mem_heapSlabSizes.mp hc
    exact (nextPowerOfTwo_isLeast (by omega)).2 ⟨hpow, by omega⟩
  · unfold pageSize
    omega

/-- Above it, whole pages. -/
theorem roundAllocSize_large (h512 : 512 < size) (h : size ∈ roundableSizes) :
    IsLeast {c ∈ sizeClasses | size ≤ c} (roundAllocSize size) := by
  have hle : size ≤ 2 ^ 64 - 4096 := h
  rw [roundAllocSize, if_neg (by omega), alignUp_page (by omega)]
  refine ⟨⟨Or.inr ⟨(size + 4095) / 4096, by omega, rfl⟩, by omega⟩, ?_⟩
  rintro c ⟨hc | ⟨pages, -, rfl⟩, hsize⟩
  · have hmax := (mem_heapSlabSizes.mp hc).2.2
    omega
  · unfold pageSize at hsize ⊢
    omega

theorem roundAllocSize_roundsUp : RoundsUp sizeClasses roundableSizes roundAllocSize := by
  intro size h
  by_cases h512 : size ≤ 512
  · exact roundAllocSize_small h512
  · exact roundAllocSize_large (by omega) h

/-- The largest of the roundable sizes is a whole number of pages. -/
theorem roundAllocSize_roundable (h : size ∈ roundableSizes) :
    roundAllocSize size ∈ roundableSizes := by
  apply (roundAllocSize_roundsUp size h).2
  exact ⟨Or.inr ⟨2 ^ 52 - 1, by decide, by decide⟩, h⟩

end Closure

/-- Rounding is a closure onto the size classes: it is extensive, idempotent and monotone, and
takes each size to the least class that holds it. -/
theorem round_alloc_size_closure :
    (∀ size ≤ 2 ^ 64 - 4096, size ≤ roundAllocSize size ∧
      roundAllocSize (roundAllocSize size) = roundAllocSize size ∧
      IsLeast {c ∈ sizeClasses | size ≤ c} (roundAllocSize size) ∧
      (roundAllocSize size ≤ 512 → sizeToSlabCacheIndex (roundAllocSize size) ≠ none)) ∧
    (∀ size size', size ≤ size' → size' ≤ 2 ^ 64 - 4096 →
      roundAllocSize size ≤ roundAllocSize size') ∧
    ∀ n ≤ 2 ^ 31, IsLeast {p | (∃ k, p = 2 ^ k) ∧ max n 16 ≤ p} (nextPowerOfTwo n) := by
  have hround := roundAllocSize_roundsUp
  refine ⟨fun size h => ⟨hround.le h, hround.idempotent h (roundAllocSize_roundable h),
    hround size h, fun h512 => ?_⟩, fun size size' hle h => ?_,
    fun n h => nextPowerOfTwo_isLeast h⟩
  · apply Option.isSome_iff_ne_none.mp
    apply sizeToSlabCacheIndex_isSome.mpr
    rcases hround.mem h with hc | ⟨pages, hpos, hpages⟩
    · exact hc
    · unfold pageSize at hpages
      omega
  · exact hround.monotoneOn (show size ≤ _ from hle.trans h) h hle

end ApoptOS
