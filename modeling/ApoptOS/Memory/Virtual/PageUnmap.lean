import ApoptOS.Memory.Virtual.PageRange

namespace ApoptOS

open Framework

variable {ρ : Type} {A : PageFrames ρ} {U : Set Nat} {Holds : Mem → ρ → Set Nat → Prop}
  {k k' : Kernel ρ} {pageTable root u v virt start stop : Nat} {S F : Set Nat}

/-- The tables of all levels are there on the walk for `virt`. -/
def WalkComplete (m : Mem) (root virt : Nat) : Prop :=
  (Radix.find nextTable (tables m) (upperPath virt) root).isSome

instance (m : Mem) (root virt : Nat) : Decidable (WalkComplete m root virt) :=
  inferInstanceAs (Decidable (_ = true))

/-- All requests made between `k` and `k'` came back empty, if there were any. -/
def TakesNoFrame (k k' : Kernel ρ) : Prop :=
  ∃ made, k'.calls = made ++ k.calls ∧ ∀ n p, FrameCall.allocz n p ∈ made → p = 0

/-- Unmapping `virt` leaves the free frames alone, and when there was nothing to unmap also every
entry of the page tables. -/
structure UnmapKeeps (Holds : Mem → ρ → Set Nat → Prop) (k k' : Kernel ρ)
    (root virt : Nat) :
    Prop where
  takes : TakesNoFrame k k'
  free : ∀ F, Holds k.mem k.frames F → pageTables k.mem root ⊆ F → Holds k'.mem k'.frames F
  entries : translate k.mem root virt = none → ∀ t ∈ pageTables k.mem root, ∀ j < 512,
    tables k'.mem t j = tables k.mem t j

def vmmUnmapRanges (A : PageFrames ρ) (fuel pageTable : Nat) :
    List (Nat × Nat) → Kernel ρ → Except Halt (Kernel ρ)
  | [], k => .ok k
  | r :: rs, k => do
    let k ← vmmUnmapRange A fuel k pageTable r.1 r.2
    vmmUnmapRanges A fuel pageTable rs k

theorem TakesNoFrame.of_calls (h : k'.calls = k.calls) : TakesNoFrame k k' :=
  ⟨[], by rw [h]; rfl, by simp⟩

namespace VmmState

/-- A page that is not mapped has a zero entry, or none at all. -/
theorem entry_unmapped (h : VmmState Holds k root S F)
    (hfind : Radix.find nextTable (tables k.mem) (upperPath virt) root = some u)
    (hnone : translate k.mem root virt = none) : tables k.mem u (leafIndex virt) = 0 := by
  rcases h.tree.leaf _ u _ (upperPath_isPath virt) rfl hfind (leafIndex_lt virt) with hz | hodd
  · exact hz
  · rw [translate, hfind, Option.bind_some, leafPage, if_pos hodd] at hnone
    simp at hnone

theorem unmap_keeps (hA : A.Lawful U Holds) (h : VmmState Holds k root S F)
    (hptr : Points pageTable root) (hvirt : virt < 2 ^ 64) (hc : WalkComplete k.mem root virt) :
    UnmapKeeps Holds k (vmmUnmapPage A k pageTable virt) root virt := by
  obtain ⟨u, hfind⟩ := Option.isSome_iff_exists.mp hc
  obtain ⟨-, -, hcalls, hstore, -, -⟩ := h.unmap_complete hA hptr hvirt hfind rfl
  refine ⟨.of_calls hcalls, fun F' hh hF' => ?_, fun hnone t ht j hj => ?_⟩
  · have hreach : VmmState Holds k root (pageTables k.mem root) F' :=
      ⟨hh, h.tree.reachable, hF'⟩
    exact (hreach.unmap_complete hA hptr hvirt hfind rfl).1.holds
  · rw [hstore t (h.tree.pageTables_subset ht) j hj]
    split_ifs with hleaf
    · rw [hleaf.1, hleaf.2, h.entry_unmapped hfind hnone]
    · rfl

/-- Where a table is missing the first thing `vmm_unmap_page` does is to request a frame. -/
theorem unmap_requests (h : VmmState Holds k root S F) (hptr : Points pageTable root)
    (hvirt : virt < 2 ^ 64) (hc : ¬ WalkComplete k.mem root virt) :
    FrameCall.allocz 1 (k.pmmAllocz A 1).1 :: k.calls <:+
      (vmmUnmapPage A k pageTable virt).calls := by
  have hfind : Radix.find nextTable (tables k.mem) (upperPath virt) root = none := by
    simpa [WalkComplete] using hc
  obtain ⟨p, i, q, t, hsplit, -, hi, -, hw, hdown⟩ := h.path_missing (A := A) hptr hfind
  obtain ⟨hk, hpml⟩ := hdown 0
  rw [unmap_eq k pageTable hvirt, hsplit, getOrCreatePath_append, hk, Kernel.store64_calls]
  simp only [getOrCreatePath]
  have hfirst : (vmmGetOrCreatePml A k (getOrCreatePath A 0 p pageTable k).1 i 0).2.calls =
      FrameCall.allocz 1 (k.pmmAllocz A 1).1 :: k.calls := by
    rw [vmmGetOrCreatePml_absent _ hpml hi hw]
    rfl
  rw [← hfirst]
  exact getOrCreatePath_calls _ _ _ _

theorem complete_of_keeps (h : VmmState Holds k root S F) (hptr : Points pageTable root)
    (hvirt : virt < 2 ^ 64) (hfree : (k.pmmAllocz A 1).1 ≠ 0)
    (hkeeps : TakesNoFrame k (vmmUnmapPage A k pageTable virt)) : WalkComplete k.mem root virt := by
  by_contra hc
  obtain ⟨made, hmade, hnull⟩ := hkeeps
  obtain ⟨more, hmore⟩ := h.unmap_requests (A := A) hptr hvirt hc
  have hsplit : made ++ k.calls = (more ++ [FrameCall.allocz 1 (k.pmmAllocz A 1).1]) ++
      k.calls := by
    rw [← hmade, ← hmore]
    simp
  have hmem : FrameCall.allocz 1 (k.pmmAllocz A 1).1 ∈ made := by
    rw [List.append_cancel_right hsplit]
    simp
  exact hfree (hnull 1 _ hmem)

/-- Unmapping pages whose walks are complete: no request is made, and the walks stay complete. -/
theorem unmap_pages (hA : A.Lawful U Holds) (h : VmmState Holds k root S F)
    (hptr : Points pageTable root) (pages : List Nat)
    (hpages : ∀ i ∈ pages, i < 2 ^ 64 ∧ WalkComplete k.mem root i) :
    ∃ k', pages.foldl (fun k i => vmmUnmapPage A k pageTable i) k = k' ∧
      VmmState Holds k' root S F ∧ k'.frames = k.frames ∧ k'.calls = k.calls ∧
      ∀ v, WalkComplete k'.mem root v ↔ WalkComplete k.mem root v := by
  induction pages generalizing k with
  | nil => exact ⟨k, rfl, h, rfl, rfl, fun _ => Iff.rfl⟩
  | cons i pages ih =>
    obtain ⟨hi, hc⟩ := hpages i List.mem_cons_self
    obtain ⟨u, hfind⟩ := Option.isSome_iff_exists.mp hc
    obtain ⟨hstate, hframes, hcalls, -, hsame, -⟩ := h.unmap_complete hA hptr hi hfind rfl
    have hcomplete : ∀ v, WalkComplete (vmmUnmapPage A k pageTable i).mem root v ↔
        WalkComplete k.mem root v := fun v => by
      rw [WalkComplete, WalkComplete, hsame _ (upperPath_isPath v)]
    obtain ⟨k', hfold, hstate', hframes', hcalls', hcomplete'⟩ := ih hstate (fun j hj =>
      ⟨(hpages j (List.mem_cons_of_mem i hj)).1,
        (hcomplete j).mpr (hpages j (List.mem_cons_of_mem i hj)).2⟩)
    exact ⟨k', hfold, hstate', hframes'.trans hframes, hcalls'.trans hcalls,
      fun v => (hcomplete' v).trans (hcomplete v)⟩

theorem unmap_ranges (hA : A.Lawful U Holds) (h : VmmState Holds k root S F)
    (hptr : Points pageTable root) {fuel : Nat} (hfuel : 2 ^ 52 ≤ fuel)
    (ranges : List (Nat × Nat)) (hranges : ∀ r ∈ ranges, r.1 < 2 ^ 64 ∧ r.2 < 2 ^ 64 ∧
      ∀ i ∈ pagesBetween (alignDown r.1 pageSize) (alignUp r.2 pageSize),
        WalkComplete k.mem root i) :
    ∃ k', vmmUnmapRanges A fuel pageTable ranges k = .ok k' ∧ k'.frames = k.frames ∧
      k'.calls = k.calls := by
  induction ranges generalizing k with
  | nil => exact ⟨k, rfl, rfl, rfl⟩
  | cons r ranges ih =>
    obtain ⟨hstart, hstop, hpages⟩ := hranges r List.mem_cons_self
    obtain ⟨hmod, hle⟩ := alignUp_bounds hstop
    have hdown := alignDown_page hstart
    obtain ⟨k1, hfold, hstate, hframes, hcalls, hcomplete⟩ := h.unmap_pages hA hptr
      (pagesBetween (alignDown r.1 pageSize) (alignUp r.2 pageSize)) (fun i hi =>
        ⟨by
          have hlt := ((mem_pagesBetween (by omega) hmod).mp hi).2.1
          omega, hpages i hi⟩)
    obtain ⟨k', hrest, hframes', hcalls'⟩ := ih hstate (fun s hs => by
      obtain ⟨hs1, hs2, hs3⟩ := hranges s (List.mem_cons_of_mem r hs)
      exact ⟨hs1, hs2, fun i hi => (hcomplete i).mpr (hs3 i hi)⟩)
    refine ⟨k', ?_, hframes'.trans hframes, hcalls'.trans hcalls⟩
    rw [vmmUnmapRanges, vmmUnmapRange, rangeLoop_eq _ hstart hstop hfuel, hfold]
    exact hrest

end VmmState

/-- In every reachable state of the page tables, and whatever is left of the frames: unmapping
costs nothing where all tables of the walk are there, for one page and for any number of ranges.
Where one is missing, and a frame is to be had, one is taken. -/
theorem vmm_unmap_keeps_iff (A : PageFrames ρ) (U : Set Nat)
    (Holds : Mem → ρ → Set Nat → Prop)
    (hA : A.Lawful U Holds) (pageTable root : Nat) (hptr : Points pageTable root) (k : Kernel ρ)
    (hrun : PageTableRun A Holds pageTable root k) :
    (∀ virt < 2 ^ 64, WalkComplete k.mem root virt →
      UnmapKeeps Holds k (vmmUnmapPage A k pageTable virt) root virt) ∧
    (∀ virt < 2 ^ 64, (k.pmmAllocz A 1).1 ≠ 0 →
      UnmapKeeps Holds k (vmmUnmapPage A k pageTable virt) root virt →
      WalkComplete k.mem root virt) ∧
    ∀ fuel ≥ 2 ^ 52, ∀ ranges, (∀ r ∈ ranges, r.1 < 2 ^ 64 ∧ r.2 < 2 ^ 64 ∧
      ∀ i ∈ pagesBetween (alignDown r.1 pageSize) (alignUp r.2 pageSize),
        WalkComplete k.mem root i) →
      ∃ k', vmmUnmapRanges A fuel pageTable ranges k = .ok k' ∧ k'.frames = k.frames ∧
        k'.calls = k.calls := by
  obtain ⟨S, F, hstate⟩ := hrun.state hA hptr
  refine ⟨fun virt hvirt hc => hstate.unmap_keeps hA hptr hvirt hc, ?_,
    fun fuel hfuel ranges hranges => hstate.unmap_ranges hA hptr hfuel ranges hranges⟩
  exact fun virt hvirt hfree hkeeps => hstate.complete_of_keeps hptr hvirt hfree hkeeps.takes

/-- The first page of the small map, which is the only one in its tables. -/
theorem pagingKernel_mapped_run {U : Set Nat} {Holds : Mem → Pmm → Set Nat → Prop}
    (hA : pmmFrames.Lawful U Holds)
    (hF : Holds (bootKernel smallMap).mem (bootKernel smallMap).frames ∅) :
    PageTableRun pmmFrames Holds (physToHigherHalfData 0x2000) 2
      (vmmMapPage pmmFrames (pagingKernel smallMap).2 (physToHigherHalfData 0x2000) 0x7000
        0x400000 MapPrivilege.kernelReadWrite.flags .uncacheable) := by
  have hrun := pagingKernel_run hA hF
    (by decide +kernel : (pagingKernel smallMap).1 = 2 * 4096) (by decide)
    (physToHigherHalfData 0x2000)
  have hcalls : (vmmMapPage pmmFrames (pagingKernel smallMap).2 (physToHigherHalfData 0x2000)
      0x7000 0x400000 MapPrivilege.kernelReadWrite.flags .uncacheable).calls =
        [.allocz 1 0x5000, .allocz 1 0x4000, .allocz 1 0x3000] := by decide +kernel
  exact .map _ _ _ .kernelReadWrite .uncacheable hrun (by decide) (by decide) (by decide)
    (fun n => by rw [hcalls]; simp)

/-- Next to a page that is mapped. -/
theorem vmm_unmap_keeps_iff_smallMap : ∃ U Holds, pmmFrames.Lawful U Holds ∧
    let k := vmmMapPage pmmFrames (pagingKernel smallMap).2 (physToHigherHalfData 0x2000) 0x7000
      0x400000 MapPrivilege.kernelReadWrite.flags .uncacheable
    UnmapKeeps Holds k (vmmUnmapPage pmmFrames k (physToHigherHalfData 0x2000) 0x401000) 2
      0x401000 := by
  obtain ⟨U, Holds, hA, hF⟩ := bootKernel_lawful smallMap_ok smallMap_frames_le (by decide)
  exact ⟨U, Holds, hA, (vmm_unmap_keeps_iff pmmFrames U Holds hA _ 2
    (points_higherHalfData (by decide)) _ (pagingKernel_mapped_run hA hF)).1 0x401000 (by decide)
    (by decide +kernel)⟩

/-- A page that was never mapped costs three frames, and again three the next time. -/
theorem vmm_unmap_takes_frames : ∃ U Holds k, pmmFrames.Lawful U Holds ∧
    PageTableRun pmmFrames Holds (physToHigherHalfData 0x2000) 2 k ∧
    ¬ UnmapKeeps Holds k (vmmUnmapPage pmmFrames k (physToHigherHalfData 0x2000) 0x8000000000) 2
      0x8000000000 ∧
    (vmmUnmapPage pmmFrames (vmmUnmapPage pmmFrames k (physToHigherHalfData 0x2000) 0x8000000000)
      (physToHigherHalfData 0x2000) 0x8000000000).calls =
        [.allocz 1 0xb000, .allocz 1 0xa000, .allocz 1 0x9000, .allocz 1 0x8000,
          .allocz 1 0x7000, .allocz 1 0x6000] ++ k.calls := by
  obtain ⟨U, Holds, hA, hF⟩ := bootKernel_lawful smallMap_ok smallMap_frames_le (by decide)
  have hrun := pagingKernel_mapped_run hA hF
  have hptr := points_higherHalfData (t := 2) (by decide)
  obtain ⟨S, F, hstate⟩ := hrun.state hA hptr
  refine ⟨U, Holds, _, hA, hrun, fun hkeeps => ?_, by decide +kernel⟩
  have hc := hstate.complete_of_keeps hptr (by decide) (by decide +kernel) hkeeps.takes
  exact absurd hc (by decide +kernel)

end ApoptOS
