import ApoptOS.Memory.Virtual.PageUnmap

namespace ApoptOS

open Framework

variable {ρ : Type} {A : PageFrames ρ} {U : Set Nat} {Holds : Mem → ρ → Set Nat → Prop}
  {k k' : Kernel ρ} {pageTable root start stop offset i v : Nat} {S F : Set Nat}

/-- `vmm_map_range` in every reachable state of the page tables: the loop ends, its pages are
mapped with the offset, which may wrap, and no other page is translated differently. -/
theorem vmm_map_range_exact (A : PageFrames ρ) (U : Set Nat)
    (Holds : Mem → ρ → Set Nat → Prop)
    (hA : A.Lawful U Holds) (pageTable root : Nat) (hptr : Points pageTable root) (k : Kernel ρ)
    (hrun : PageTableRun A Holds pageTable root k) (start stop offset : Nat)
    (privilege : MapPrivilege) (pat : PatCache) (hstart : start < 2 ^ 64) (hstop : stop ≤ 2 ^ 52)
    (hoffset : offset % 4096 = 0)
    (hcanon : ∀ i, alignDown start pageSize ≤ i → i < alignUp stop pageSize →
      i % 4096 = 0 →
      Canonical (add64 i offset))
    (fuel : Nat) (hfuel : 2 ^ 52 ≤ fuel) :
    ∃ k', vmmMapRange A fuel k pageTable start stop offset privilege.flags pat = .ok k' ∧
      (k'.Served →
        (∀ i, alignDown start pageSize ≤ i → i < alignUp stop pageSize → i % 4096 = 0 →
          translate k'.mem root (add64 i offset) =
            some (i, privilege.flags ||| vmmPatCacheToFlags pat)) ∧
        ∀ v, CanonicalPage v →
          (∀ i, alignDown start pageSize ≤ i → i < alignUp stop pageSize →
          i % 4096 = 0 → v ≠ add64 i offset) →
          translate k'.mem root v = translate k.mem root v) := by
  obtain ⟨S, F, hstate⟩ := hrun.state hA hptr
  have hloop := rangeLoop_eq (fun i k =>
    vmmMapPage A k pageTable i (add64 i offset) privilege.flags pat) hstart
      (by omega : stop < 2 ^ 64) hfuel k
  refine ⟨_, hloop, fun hserved => ?_⟩
  have hup : alignUp stop pageSize = (stop + 4095) / 4096 * 4096 := alignUp_page (by omega)
  have hdown := alignDown_page hstart
  have hmem : ∀ i, i ∈ pagesBetween (alignDown start pageSize) (alignUp stop pageSize) ↔
      alignDown start pageSize ≤ i ∧ i < alignUp stop pageSize ∧ i % 4096 = 0 :=
    fun i => mem_pagesBetween (by omega) (by omega)
  obtain ⟨S', F', -, hset, hkept⟩ := hstate.map_pages hA hptr hoffset (fun i hi => by
    obtain ⟨hlow, hhigh, hmod⟩ := (hmem i).mp hi
    exact ⟨by omega, hmod, hcanon i hlow hhigh hmod⟩) hserved
  constructor
  · intro i hlow hhigh hmod
    exact hset i ((hmem i).mpr ⟨hlow, hhigh, hmod⟩)
  · intro v hv hne
    refine hkept v hv (fun i hi => ?_)
    obtain ⟨hlow, hhigh, hmod⟩ := (hmem i).mp hi
    exact hne i hlow hhigh hmod

/-- Two pages mapped for the kernel's code, where the offset wraps for the second half. -/
theorem vmm_map_range_exact_smallMap : ∃ k',
    vmmMapRange pmmFrames (2 ^ 52) (pagingKernel smallMap).2 (physToHigherHalfData 0x2000) 0x7123
      0x8001 higherHalfCode MapPrivilege.kernelRead.flags .uncacheable = .ok k' ∧
    translate k'.mem 2 0xFFFFFFFF80008000 = some (0x8000, 1) := by
  obtain ⟨U, Holds, hA, hF⟩ := bootKernel_lawful smallMap_ok smallMap_frames_le (by decide)
  have hrun := pagingKernel_run hA hF
    (by decide +kernel : (pagingKernel smallMap).1 = 2 * 4096) (by decide)
    (physToHigherHalfData 0x2000)
  have hup : alignUp 0x8001 pageSize = 0x9000 := by decide +kernel
  have hdown : alignDown 0x7123 pageSize = 0x7000 := by decide +kernel
  obtain ⟨k', hok, hexact⟩ := vmm_map_range_exact pmmFrames U Holds hA _ 2
    (points_higherHalfData (by decide)) _ hrun 0x7123 0x8001 higherHalfCode .kernelRead
    .uncacheable (by decide) (by decide) (by decide) (fun i _ hi _ => by
      rw [hup] at hi
      unfold Canonical add64 higherHalfCode
      omega) (2 ^ 52) (le_refl _)
  have hloop := rangeLoop_eq (fun i k => vmmMapPage pmmFrames k (physToHigherHalfData 0x2000) i
    (add64 i higherHalfCode) MapPrivilege.kernelRead.flags .uncacheable)
    (by decide : 0x7123 < 2 ^ 64) (by decide : 0x8001 < 2 ^ 64) (le_refl (2 ^ 52))
    (pagingKernel smallMap).2
  have hfold := Except.ok.inj (hok.symm.trans hloop)
  have hcalls : k'.calls = [.allocz 1 0x5000, .allocz 1 0x4000, .allocz 1 0x3000] := by
    rw [hfold]
    decide +kernel
  refine ⟨k', hok, ?_⟩
  have hpage := (hexact (fun n => by rw [hcalls]; simp)).1 0x8000 (by rw [hdown]; decide)
    (by rw [hup]; decide) (by decide)
  rwa [show add64 0x8000 higherHalfCode = 0xFFFFFFFF80008000 by decide +kernel] at hpage

/-- Both ends of `[start, stop)` lie in the same canonical half. -/
def SameHalf (start stop : Nat) : Prop :=
  (start < 2 ^ 47 ∧ stop - 1 < 2 ^ 47) ∨
    (2 ^ 64 - 2 ^ 47 ≤ start ∧ 2 ^ 64 - 2 ^ 47 ≤ stop - 1)

/-- The page at `v` has an address of `[start, stop)` in it. -/
def Intersects (start stop v : Nat) : Prop := v < stop ∧ start < v + 4096

instance (start stop v : Nat) : Decidable (Intersects start stop v) :=
  inferInstanceAs (Decidable (_ ∧ _))

/-- From `k` to `k'` the pages that intersect `[start, stop)` have been unmapped, and no others. -/
def RangeRemoved (k k' : Kernel ρ) (root start stop : Nat) : Prop :=
  (∀ v, CanonicalPage v → Intersects start stop v → translate k'.mem root v = none) ∧
  ∀ v, CanonicalPage v → ¬ Intersects start stop v →
    translate k'.mem root v = translate k.mem root v

/-- Where `ALIGN_UP` does not wrap the loop has exactly the pages that intersect the range. -/
theorem mem_range_iff (hlt : start < stop) (hstop : stop ≤ 2 ^ 64 - 4096) :
    v ∈ pagesBetween (alignDown start pageSize) (alignUp stop pageSize) ↔
      Intersects start stop v ∧ v % 4096 = 0 := by
  rw [alignDown_page (by omega), alignUp_page (by omega),
    mem_pagesBetween (by omega) (by omega), Intersects]
  omega

/-- Behind the start of the last page `ALIGN_UP` is zero, and the loop is over at once. -/
theorem vmmUnmapRange_wraps (k : Kernel ρ) (pageTable : Nat) (hstart : start < 2 ^ 64)
    (hstop : stop < 2 ^ 64) (hlast : ¬ stop ≤ 2 ^ 64 - 4096) {fuel : Nat}
    (hfuel : 2 ^ 52 ≤ fuel) :
    vmmUnmapRange A fuel k pageTable start stop = .ok k := by
  have hloop := rangeLoop_eq (fun i k => vmmUnmapPage A k pageTable i) hstart hstop hfuel k
  rw [alignUp_word hstop, if_neg hlast, pagesBetween_of_le (Nat.zero_le _)] at hloop
  rw [vmmUnmapRange, alignUp_word hstop, if_neg hlast]
  exact hloop

/-- `vmm_unmap_range` in every reachable state of the page tables: the loop ends, and the range
is removed unless it reaches into the last page of the address space, where the bound wraps to
zero and nothing happens. -/
theorem vmm_unmap_range_iff (A : PageFrames ρ) (U : Set Nat)
    (Holds : Mem → ρ → Set Nat → Prop)
    (hA : A.Lawful U Holds) (pageTable root : Nat) (hptr : Points pageTable root) (k : Kernel ρ)
    (hrun : PageTableRun A Holds pageTable root k) (start stop : Nat) (hlt : start < stop)
    (hstop : stop < 2 ^ 64) (hhalf : SameHalf start stop) (fuel : Nat) (hfuel : 2 ^ 52 ≤ fuel) :
    ∃ k', vmmUnmapRange A fuel k pageTable start stop = .ok k' ∧
      (k'.Served → (RangeRemoved k k' root start stop ↔
        stop ≤ 2 ^ 64 - 4096 ∨
          ∀ v, CanonicalPage v → Intersects start stop v →
            translate k.mem root v = none)) := by
  by_cases hlast : stop ≤ 2 ^ 64 - 4096
  · -- every page of the range is in the loop and canonical
    obtain ⟨S, F, hstate⟩ := hrun.state hA hptr
    refine ⟨_, rangeLoop_eq (fun i k => vmmUnmapPage A k pageTable i) (by omega) hstop hfuel k,
      fun hserved => iff_of_true ?_ (Or.inl hlast)⟩
    have hcanon : ∀ i ∈ pagesBetween (alignDown start pageSize) (alignUp stop pageSize),
        CanonicalPage i := by
      intro i hi
      obtain ⟨⟨hlow, hhigh⟩, hmod⟩ := (mem_range_iff hlt hlast).mp hi
      refine ⟨?_, hmod⟩
      unfold SameHalf at hhalf
      unfold Canonical
      omega
    obtain ⟨hset, hkept⟩ := hstate.unmap_all hA hptr hcanon hserved
    constructor
    · intro v hv hin
      exact hset v ((mem_range_iff hlt hlast).mpr ⟨hin, hv.2⟩)
    · intro v hv hout
      exact hkept v hv (fun hmem => hout ((mem_range_iff hlt hlast).mp hmem).1)
  · refine ⟨k, vmmUnmapRange_wraps k pageTable (by omega) hstop hlast hfuel, fun _ => ?_⟩
    rw [or_iff_right hlast]
    constructor
    · intro hremoved
      exact hremoved.1
    · intro hnone
      exact ⟨hnone, fun v _ _ => rfl⟩

/-- A mapped page and the one behind it. -/
theorem vmm_unmap_range_iff_smallMap :
    let k := vmmMapPage pmmFrames (pagingKernel smallMap).2 (physToHigherHalfData 0x2000) 0x7000
      0x400000 MapPrivilege.kernelReadWrite.flags .uncacheable
    ∃ k', vmmUnmapRange pmmFrames (2 ^ 52) k (physToHigherHalfData 0x2000) 0x400800 0x401800 =
      .ok k' ∧ RangeRemoved k k' 2 0x400800 0x401800 := by
  obtain ⟨U, Holds, hA, hF⟩ := bootKernel_lawful smallMap_ok smallMap_frames_le (by decide)
  have hrun := pagingKernel_mapped_run hA hF
  obtain ⟨k', hok, hiff⟩ := vmm_unmap_range_iff pmmFrames U Holds hA _ 2
    (points_higherHalfData (by decide)) _ hrun 0x400800 0x401800 (by decide) (by decide)
    (Or.inl (by decide)) (2 ^ 52) (le_refl _)
  have hloop := rangeLoop_eq (fun i k => vmmUnmapPage pmmFrames k (physToHigherHalfData 0x2000) i)
    (by decide : 0x400800 < 2 ^ 64) (by decide : 0x401800 < 2 ^ 64) (le_refl (2 ^ 52))
    (vmmMapPage pmmFrames (pagingKernel smallMap).2 (physToHigherHalfData 0x2000) 0x7000
      0x400000 MapPrivilege.kernelReadWrite.flags .uncacheable)
  have hfold := Except.ok.inj (hok.symm.trans hloop)
  have hcalls : k'.calls = [.allocz 1 0x5000, .allocz 1 0x4000, .allocz 1 0x3000] := by
    rw [hfold]
    decide +kernel
  exact ⟨k', hok, (hiff (fun n => by rw [hcalls]; simp)).mpr (Or.inl (by decide))⟩

/-- The last page of the address space stays mapped when the range up to `HIGHER_HALF_END` is
unmapped. -/
theorem vmm_unmap_range_misses_last_page : ∃ U Holds k, pmmFrames.Lawful U Holds ∧
    PageTableRun pmmFrames Holds (physToHigherHalfData 0x2000) 2 k ∧
    vmmUnmapRange pmmFrames (2 ^ 52) k (physToHigherHalfData 0x2000) 0xFFFFFFFFFFFFF000
      0xFFFFFFFFFFFFFFFF = .ok k ∧ k.Served ∧
    ¬ RangeRemoved k k 2 0xFFFFFFFFFFFFF000 0xFFFFFFFFFFFFFFFF := by
  obtain ⟨U, Holds, hA, hF⟩ := bootKernel_lawful smallMap_ok smallMap_frames_le (by decide)
  have hrun := pagingKernel_run hA hF
    (by decide +kernel : (pagingKernel smallMap).1 = 2 * 4096) (by decide)
    (physToHigherHalfData 0x2000)
  have hcalls : (vmmMapPage pmmFrames (pagingKernel smallMap).2 (physToHigherHalfData 0x2000)
      0x7000 0xFFFFFFFFFFFFF000 MapPrivilege.kernelReadWrite.flags .uncacheable).calls =
        [.allocz 1 0x5000, .allocz 1 0x4000, .allocz 1 0x3000] := by decide +kernel
  have hserved : (vmmMapPage pmmFrames (pagingKernel smallMap).2 (physToHigherHalfData 0x2000)
      0x7000 0xFFFFFFFFFFFFF000 MapPrivilege.kernelReadWrite.flags .uncacheable).Served :=
    fun n => by rw [hcalls]; simp
  refine ⟨U, Holds, _, hA, .map _ _ _ .kernelReadWrite .uncacheable hrun (by decide) (by decide)
    (by decide) hserved, vmmUnmapRange_wraps _ _ (by decide) (by decide) (by decide) (le_refl _),
    hserved, fun hremoved => ?_⟩
  have hnone := hremoved.1 0xFFFFFFFFFFFFF000 (by decide) (by decide)
  exact absurd hnone (by decide +kernel)

end ApoptOS
