import ApoptOS.Libk.Malloc
import ApoptOS.Memory.Physical.PmmSearch

namespace ApoptOS

open Framework

/-- No request for `pageCount` pages can be met: nothing is in use to the counter, or
there is no run of free frames. -/
def NoRoom (m : Mem) (pmm : Pmm) (pageCount : Nat) : Prop :=
  pmm.usedPagesCount = 0 ∨ ∀ i, ¬ FreeRun m pmm pageCount i

/-- A request that cannot be met returns `NULL` and changes nothing, from the allocator
itself, the page path of `malloc` and the growth of a slab cache. -/
structure RefusedUnchanged (m : Mem) (pmm : Pmm) (pageCount : Nat) : Prop where
  alloc : pmmAlloc pageCount m pmm = (0, m, pmm)
  allocz : pmmAllocz pageCount m pmm = (0, m, pmm)
  malloc : ∀ calls caches fuel size, 512 < roundAllocSize (add64 size metadataSize) →
    roundAllocSize (add64 size metadataSize) / pageSize = pageCount →
    malloc pmmFrames fuel ⟨⟨m, pmm, calls⟩, caches⟩ size =
      .ok (0, ⟨⟨m, pmm, .allocz pageCount 0 :: calls⟩, caches⟩)
  growth : ∀ calls, pageCount = 1 → slabCreateBufctlBuffer pmmFrames ⟨m, pmm, calls⟩ =
    (0, ⟨m, pmm, .allocz 1 0 :: calls⟩)

/-- Where that is the case: the search accepts no index but 0, and the pages that are
zeroed from address 0 on are zero already. -/
structure RefusalHarmless (m : Mem) (pmm : Pmm) (pageCount : Nat) : Prop where
  search : pmm.usedPagesCount = 0 ∨ ∀ i, LowestProbe m pmm pageCount i → i = 0
  zeroed : ∀ a < pageSize * pageCount % 2 ^ 64, m a = 0#8

variable {m : Mem} {pmm : Pmm} {pageCount : Nat}

theorem NoRoom.pos (h : NoRoom m pmm pageCount) (hused : pmm.usedPagesCount ≠ 0) :
    0 < pageCount := by
  by_contra h0
  refine h.resolve_left hused 0 ⟨by omega, fun j hj => by omega⟩

theorem pmmAlloc_refused (h : NoRoom m pmm pageCount)
    (hs : pmm.usedPagesCount = 0 ∨ ∀ i, LowestProbe m pmm pageCount i → i = 0) :
    pmmAlloc pageCount m pmm = (0, m, pmm) := by
  by_cases hused : pmm.usedPagesCount = 0
  · simp only [pmmAlloc, hused, le_refl, if_true]
  · have hu : ¬ pmm.usedPagesCount ≤ 0 := by omega
    have hfind : pmmFindFirstFreePageRange m pmm pageCount = 0 := by
      rcases pmmFindFirstFreePageRange_spec m pmm (h.pos hused) with
          ⟨hnull, -⟩ | ⟨i, hlow, hi⟩
      · exact hnull
      · rw [hi, hs.resolve_left hused i hlow]
        rfl
    simp only [pmmAlloc, hu, if_false, hfind, if_true]

theorem memset_eq_self {n : Nat} : m.memset 0 0 n = m ↔ ∀ a < n, m a = 0#8 := by
  constructor
  · intro h a ha
    rw [← h]
    exact Mem.memset_inside m (Nat.zero_le a) (by omega)
  · intro h
    funext a
    by_cases ha : a < n
    · rw [h a ha]
      exact Mem.memset_inside m (Nat.zero_le a) (by omega)
    · exact Mem.memset_outside m (.inr (by omega))

/-- `pmm_allocz` of a refused request zeroes memory from address 0 on. -/
theorem pmmAllocz_refused (h : pmmAlloc pageCount m pmm = (0, m, pmm)) :
    pmmAllocz pageCount m pmm = (0, m.memset 0 0 (pageSize * pageCount % 2 ^ 64), pmm) := by
  simp only [pmmAllocz, h]

theorem RefusedUnchanged.harmless (h : RefusedUnchanged m pmm pageCount)
    (htop : pmm.highestPageTop < 2 ^ 64) (hno : NoRoom m pmm pageCount) :
    RefusalHarmless m pmm pageCount := by
  constructor
  · by_cases hused : pmm.usedPagesCount = 0
    · exact .inl hused
    · refine .inr (fun i hlow => ?_)
      have hpos : 0 < pmm.usedPagesCount := Nat.pos_of_ne_zero hused
      rcases pmmAlloc_pointer (m := m) (hno.pos hused) hpos htop with
          ⟨-, hnone⟩ | ⟨l, hl, hret⟩
      · exact absurd hlow.2.1 (hnone i hlow.1)
      · rw [h.alloc] at hret
        rw [hlow.unique hl]
        omega
  · have hmem := h.allocz
    rw [pmmAllocz_refused h.alloc] at hmem
    exact memset_eq_self.mp (congrArg (fun r => r.2.1) hmem)

theorem RefusalHarmless.unchanged (h : RefusalHarmless m pmm pageCount)
    (hno : NoRoom m pmm pageCount) : RefusedUnchanged m pmm pageCount := by
  have halloc := pmmAlloc_refused hno h.search
  have hallocz : pmmAllocz pageCount m pmm = (0, m, pmm) := by
    rw [pmmAllocz_refused halloc, memset_eq_self.mpr h.zeroed]
  have hcall : ∀ calls, Kernel.pmmAllocz pmmFrames ⟨m, pmm, calls⟩ pageCount =
      (0, ⟨m, pmm, .allocz pageCount 0 :: calls⟩) := by
    intro calls
    simp only [Kernel.pmmAllocz, pmmFrames, hallocz]
  refine ⟨halloc, hallocz, fun calls caches fuel size hlarge hpages => ?_, fun calls hone => ?_⟩
  · have hle : ¬ roundAllocSize (add64 size metadataSize) ≤ 512 := by omega
    simp only [malloc, hle, if_false, hpages, hcall, if_true]
  · subst hone
    simp only [slabCreateBufctlBuffer, hcall, if_true]

/-- For every state and request that cannot be met: it changes nothing exactly if the
search accepts no index and the memory wiped from address 0 on is zero already. -/
theorem refused_unchanged_iff (m : Mem) (pmm : Pmm) (pageCount : Nat)
    (htop : pmm.highestPageTop < 2 ^ 64) (hno : NoRoom m pmm pageCount) :
    RefusedUnchanged m pmm pageCount ↔ RefusalHarmless m pmm pageCount :=
  ⟨fun h => h.harmless htop hno, fun h => h.unchanged hno⟩

/-- Four frames in use, with the bitmap in frame 3. -/
def fullPmm : Pmm := ⟨⟨physToHigherHalfData 0x3000, 4096⟩, 0x4000, 4⟩

theorem fullPmm_stored : fullPmm.bitmap.StoredAt 0x3000 := ⟨rfl, by decide⟩

/-- Nothing but zeroes in frame 0. -/
def clearLowMem : Mem := fun a => if a < 0x1000 then 0#8 else 0xFF#8

theorem refused_unchanged_iff_clearLow :
    RefusedUnchanged clearLowMem fullPmm 1 ∧ pmmAllocz 1 clearLowMem fullPmm =
      (0, clearLowMem, fullPmm) := by
  have hset : ∀ i < 4, ¬ BitClear clearLowMem fullPmm i := by decide +kernel
  have hno : NoRoom clearLowMem fullPmm 1 := by
    refine .inr (fun i hi => ?_)
    have hend : i + 1 ≤ 4 := hi.1
    exact hset i (by omega) (hi.2 0 Nat.one_pos)
  have hharmless : RefusalHarmless clearLowMem fullPmm 1 := by
    refine ⟨.inr (fun i hlow => ?_), fun a ha => if_pos ?_⟩
    · have hi : i < 4 := hlow.1
      have hclear : BitClear clearLowMem fullPmm i :=
        (bitClear_iff fullPmm_stored (by omega)).mp (hlow.2.1 0 Nat.one_pos)
      exact absurd hclear (hset i hi)
    · simpa [pageSize] using ha
  have h := (refused_unchanged_iff clearLowMem fullPmm 1 (by decide) hno).mpr hharmless
  exact ⟨h, h.allocz⟩

/-- A refused request for two pages zeroes frame 1, which is in use. -/
theorem pmm_allocz_refused_zeroes_frame :
    NoRoom (fun _ => 0xFF#8) fullPmm 2 ∧ ¬ RefusedUnchanged (fun _ => 0xFF#8) fullPmm 2 ∧
      (pmmAllocz 2 (fun _ => 0xFF#8) fullPmm).1 = 0 ∧
      (pmmAllocz 2 (fun _ => 0xFF#8) fullPmm).2.1 0x1000 = 0#8 := by
  have hset : ∀ i < 4, ¬ BitClear (fun _ => 0xFF#8) fullPmm i := by decide +kernel
  have hwiped : (pmmAllocz 2 (fun _ => 0xFF#8) fullPmm).2.1 0x1000 = 0#8 := by decide +kernel
  refine ⟨.inr (fun i hi => ?_), fun h => ?_, by decide +kernel, hwiped⟩
  · have hend : i + 2 ≤ 4 := hi.1
    exact hset i (by omega) (hi.2 0 (by omega))
  · rw [h.allocz] at hwiped
    simp at hwiped

end ApoptOS
