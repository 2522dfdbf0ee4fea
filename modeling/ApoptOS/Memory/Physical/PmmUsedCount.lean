import ApoptOS.Memory.Physical.PmmCoverage
import ApoptOS.Memory.Physical.PmmFirstFit

namespace ApoptOS

open Framework

/-- The number of frames below the top of memory whose bits are set. -/
def PmmState.usedBits (s : PmmState) : Nat :=
  (List.range s.frameCount).countP (fun f => usedBit s.mem (physOf s.pmm.bitmap.map) f)

/-- A memory map as the boot loader passes it: usable entries are page-aligned and
disjoint, one of them can host the bitmap, and addresses have 52 bits. -/
structure MapConforms (memoryMap : List MmapEntry) : Prop where
  aligned : ∀ e ∈ memoryMap, e.type = .usable → e.base % 4096 = 0 ∧ e.length % 4096 = 0
  disjoint : memoryMap.Pairwise (fun a b => a.type = .usable → b.type = .usable →
    a.base + a.length ≤ b.base ∨ b.base + b.length ≤ a.base)
  host : ∃ e ∈ memoryMap, e.type = .usable ∧ bitmapSize (highestTop memoryMap) ≤ e.length
  physical : ∀ e ∈ memoryMap, e.base + e.length ≤ 2 ^ 52

variable {memoryMap : List MmapEntry}

theorem PmmState.usedBits_le (s : PmmState) : s.usedBits ≤ s.frameCount := by
  have h := List.countP_le_length (l := List.range s.frameCount)
    (p := fun f => usedBit s.mem (physOf s.pmm.bitmap.map) f)
  rwa [List.length_range] at h

namespace MapConforms

theorem top_le (h : MapConforms memoryMap) : highestTop memoryMap ≤ 2 ^ 52 :=
  foldl_raiseTop_le memoryMap (fun e he _ => h.physical e he) (Nat.zero_le _)

theorem usable_below_top (h : MapConforms memoryMap) {e : MmapEntry} (he : e ∈ memoryMap)
    (hu : e.type = .usable) : e.base + e.length ≤ highestTop memoryMap := by
  have htop := (foldl_raiseTop_bounds memoryMap (show 0 < 2 ^ 64 by positivity)).2.2 e he hu
  have hphys := h.physical e he
  rwa [add64_of_lt (by omega)] at htop

theorem usablePages_le (h : MapConforms memoryMap) :
    usablePages (hostBitmap (bitmapSize (highestTop memoryMap)) memoryMap).2 ≤
      pageToBit (highestTop memoryMap) := by
  obtain ⟨pre, e, post, heq, hu, hs, -, hhost⟩ := hostBitmap_spec _ memoryMap h.host
  have hall : usablePages memoryMap ≤ pageToBit (highestTop memoryMap) := by
    refine ApoptOS.usablePages_le h.aligned h.disjoint (fun d hd hdu => ?_)
    have htop := h.usable_below_top hd hdu
    have hda := h.aligned d hd hdu
    unfold pageToBit pageSize
    omega
  have hphys := h.physical e (by rw [heq]; simp)
  have hcut := usablePages_cut pre post hs (by omega)
  rw [hhost]
  rw [← heq] at hcut
  exact hcut.trans hall

/-- The counter starts with a quarter of the top of memory in bytes and loses the
pages that are freed. -/
theorem used_boot (h : MapConforms memoryMap) (m : Mem) :
    (PmmState.boot m memoryMap).pmm.usedPagesCount = highestTop memoryMap / 4 -
      usablePages (hostBitmap (bitmapSize (highestTop memoryMap)) memoryMap).2 := by
  have htop := h.top_le
  have hpages := h.usablePages_le
  have hkb : kbToPages (highestTop memoryMap) = highestTop memoryMap / 4 := by
    unfold kbToPages pageSize
    omega
  have hpage : pageToBit (highestTop memoryMap) = highestTop memoryMap / 4096 := rfl
  show (freeUsable _ _ _).2.usedPagesCount = _
  rw [freeUsable_used]
  · rw [hkb]
  · show kbToPages _ < _
    omega
  · show _ ≤ kbToPages _
    omega

end MapConforms

/-- Without memory no request is served, and nothing is counted. -/
theorem PmmState.run_empty {s s' : PmmState} {ops : List PmmOp} (hused : s.pmm.usedPagesCount = 0)
    (htop : s.frameCount = 0) (hlive : s.live = []) (hrun : s.run ops = some s') :
    s'.pmm.usedPagesCount = 0 ∧ s'.frameCount = 0 := by
  induction ops generalizing s with
  | nil =>
    obtain rfl := Option.some.inj hrun
    exact ⟨hused, htop⟩
  | cons op ops ih =>
    have hrefused : ∀ n, pmmAlloc n s.mem s.pmm = (0, s.mem, s.pmm) := by
      intro n
      simp only [pmmAlloc, hused, le_refl, if_true]
    simp only [PmmState.run] at hrun
    cases op with
    | alloc n =>
      simp only [PmmState.exec, hrefused] at hrun
      exact ih hused htop hlive hrun
    | allocz n =>
      simp only [PmmState.exec, pmmAllocz, hrefused] at hrun
      refine ih ?_ ?_ ?_ hrun
      · exact hused
      · exact htop
      · exact hlive
    | free p n => simp [PmmState.exec, hlive] at hrun

/-- For every memory map: the counter is the number of used frames in all states that
are reached exactly if there is no memory at all. -/
theorem pmm_used_count_iff (m : Mem) (memoryMap : List MmapEntry) (h : MapConforms memoryMap) :
    (∀ ops s, (PmmState.boot m memoryMap).run ops = some s →
      s.pmm.usedPagesCount = s.usedBits) ↔ highestTop memoryMap < 4 := by
  have hused := h.used_boot m
  have hpages := h.usablePages_le
  have htop : (PmmState.boot m memoryMap).pmm.highestPageTop = highestTop memoryMap :=
    (pmmInit_size m memoryMap).2
  have hcount : (PmmState.boot m memoryMap).frameCount = highestTop memoryMap / 4096 := by
    unfold PmmState.frameCount pageToBit pageSize
    rw [htop]
  have hpage : pageToBit (highestTop memoryMap) = highestTop memoryMap / 4096 := rfl
  constructor
  · intro hall
    have hboot := hall [] _ rfl
    have hle := (PmmState.boot m memoryMap).usedBits_le
    rw [hused] at hboot
    omega
  · intro hsmall ops s hrun
    obtain ⟨hzero, hnone⟩ :=
      PmmState.run_empty (by rw [hused]; omega) (by rw [hcount]; omega) rfl hrun
    have hle := s.usedBits_le
    omega

theorem smallMap_conforms : MapConforms smallMap where
  aligned := smallMap_ok.aligned
  disjoint := smallMap_ok.disjoint
  host := smallMap_ok.host
  physical := by decide +kernel

theorem pmm_used_count_iff_smallMap :
    (∀ ops s, (PmmState.boot (fun _ => 0#8) smallMap).run ops = some s →
      s.pmm.usedPagesCount = s.usedBits) ↔ highestTop smallMap < 4 :=
  pmm_used_count_iff (fun _ => 0#8) smallMap smallMap_conforms

/-- Right after `pmm_init` two of 17 frames are used, and the counter is 17393. -/
theorem pmm_used_count_wrong :
    (PmmState.boot (fun _ => 0#8) smallMap).frameCount = 17 ∧
      (PmmState.boot (fun _ => 0#8) smallMap).usedBits = 2 ∧
      (PmmState.boot (fun _ => 0#8) smallMap).pmm.usedPagesCount = 17393 ∧
      ¬ (∀ ops s, (PmmState.boot (fun _ => 0#8) smallMap).run ops = some s →
        s.pmm.usedPagesCount = s.usedBits) := by
  have hbits : (PmmState.boot (fun _ => 0#8) smallMap).usedBits = 2 := by decide +kernel
  have hused : (PmmState.boot (fun _ => 0#8) smallMap).pmm.usedPagesCount = 17393 := by
    decide +kernel
  refine ⟨by decide +kernel, hbits, hused, fun hall => ?_⟩
  have hboot := hall [] _ rfl
  rw [hbits, hused] at hboot
  omega

end ApoptOS
