import ApoptOS.Memory.Physical.PmmInit

namespace ApoptOS

open Framework

/-- `PmmInv` with the bitmap exact on managed frames and the page counter
running `u0` ahead of the frames handed out. -/
structure PmmCounted (m : Mem) (pmm : Pmm) (base : Nat) (U : Set Nat) (u0 : Nat)
    (F : Set Nat) : Prop where
  inv : PmmInv m pmm base U F
  free : ∀ f ∈ U, f ∉ F → usedBit m base f = false
  used : pmm.usedPagesCount = u0 + F.ncard

namespace PmmCounted

variable {m : Mem} {pmm : Pmm} {base u0 n : Nat} {U F : Set Nat}

theorem finite (h : PmmInv m pmm base U F) : U.Finite := by
  refine (Set.finite_Iio (2 ^ 31)).subset (fun f hf => ?_)
  have hf' := (h.managed f hf).2.1
  have htop := h.topLe
  have hsize := h.sizeLe
  exact Set.mem_Iio.mpr (by omega)

/-- The bits after `pmm_allocz(1)`: those of the frame handed out, if any, are
added. -/
theorem allocz_one_bits (h : PmmInv m pmm base U F) (hbase : 4096 ≤ base) :
    (∀ f < 8 * pmm.bitmap.size, usedBit (pmmAllocz 1 m pmm).2.1 base f =
      (usedBit m base f || decide ((pmmAllocz 1 m pmm).1 ≠ 0 ∧
        f = (pmmAllocz 1 m pmm).1 / 4096))) ∧
    (pmmAllocz 1 m pmm).2.2.usedPagesCount =
      if (pmmAllocz 1 m pmm).1 = 0 then pmm.usedPagesCount else add64 pmm.usedPagesCount 1 := by
  have htop := h.topLe
  have hsize := h.sizeLe
  have hlen : pageSize * 1 % 2 ^ 64 = 4096 := rfl
  rcases h.alloc_one with ⟨hnone, _⟩ | ⟨i, _, hi0, hiU, _, hone⟩
  · simp only [pmmAllocz, hnone, hlen, if_true, ne_eq, not_true, false_and, decide_false,
      Bool.or_false, and_true]
    intro f hf
    exact usedBit_congr (Mem.memset_outside m (by omega))
  · have hp0 : i * 4096 ≠ 0 := by omega
    have hdiv : i * 4096 / 4096 = i := by omega
    simp only [pmmAllocz, hone, hlen, hp0, if_false, ne_eq, not_false_eq_true, true_and, hdiv,
      and_true]
    intro f hf
    have hmanaged := h.managed i hiU
    have hb := h.baseAligned
    have hsa := h.sizeAligned
    rw [usedBit_congr (Mem.memset_outside _ (by omega)), setBits_used h.stored _ _ _ (by omega)]
    congr 1
    rw [decide_eq_decide]
    omega

theorem client_writes (h : PmmCounted m pmm base U u0 F) {m' : Mem}
    (hm : Mem.SameOn (frameBytes U)ᶜ m m') : PmmCounted m' pmm base U u0 F := by
  refine ⟨h.inv.client_writes hm, fun f hf hfF => ?_, h.used⟩
  have hf' := (h.inv.managed f hf).2.1
  have htop := h.inv.topLe
  rw [← h.free f hf hfF]
  exact usedBit_congr (hm _ (h.inv.bitmap_unmanaged (by omega) (by omega)))

/-- Marking a free frame as used hands it out. -/
theorem taken (h : PmmCounted m pmm base U u0 F) (hu : u0 + U.ncard < 2 ^ 64) {f : Nat}
    (hf : f ∈ U) (hfF : f ∉ F) :
    PmmCounted (setBits m pmm.bitmap f 1)
      { pmm with usedPagesCount := add64 pmm.usedPagesCount 1 } base U u0 (insert f F) := by
  have htop := h.inv.topLe
  have hsize := h.inv.sizeLe
  have hf' := (h.inv.managed f hf).2.1
  have hfin := finite h.inv
  have hset : F ∪ frameRun f 1 = insert f F := by rw [frameRun_one, Set.union_singleton]
  have hinv := h.inv.set_run (n := 1) (i := f) (add64 pmm.usedPagesCount 1) (by omega)
    (fun g hg => by
      rw [frameRun_one] at hg
      exact Set.mem_singleton_iff.mp hg ▸ ⟨hf, hfF⟩)
  rw [hset] at hinv
  have hcard : (insert f F).ncard = F.ncard + 1 :=
    Set.ncard_insert_of_notMem hfF (hfin.subset h.inv.held)
  have hle : (insert f F).ncard ≤ U.ncard := Set.ncard_le_ncard hinv.held hfin
  refine ⟨hinv, fun g hg hgF => ?_, ?_⟩
  · have hgf : ¬ (f ≤ g ∧ g < f + 1) := by
      intro hc
      have hgf : g = f := by omega
      exact hgF (hgf ▸ Set.mem_insert f F)
    rw [setBits_used h.inv.stored _ _ _ (by omega), decide_eq_false hgf, Bool.or_false]
    exact h.free g hg (fun hc => hgF (Set.mem_insert_of_mem _ hc))
  · show add64 pmm.usedPagesCount 1 = u0 + (insert f F).ncard
    rw [h.used, hcard, add64_of_lt (by omega)]
    omega

/-- `pmm_free` of a frame that is handed out takes it back. -/
theorem given (h : PmmCounted m pmm base U u0 F) (hu : u0 + U.ncard < 2 ^ 64) {p : Nat}
    (hp : p / 4096 ∈ F) :
    PmmCounted (pmmFree p 1 m pmm).1 (pmmFree p 1 m pmm).2 base U u0 (F \ {p / 4096}) := by
  have hsub : frameRun (p / 4096) 1 ⊆ F := by
    rw [frameRun_one]
    exact Set.singleton_subset_iff.mpr hp
  have hinv := (h.inv.free hsub).1
  rw [frameRun_one] at hinv
  have hfin := (finite h.inv).subset h.inv.held
  have hcard : (F \ {p / 4096}).ncard = F.ncard - 1 := Set.ncard_sdiff_singleton_of_mem hp
  have hpos : 0 < F.ncard := (Set.ncard_pos hfin).mpr ⟨_, hp⟩
  have hle : F.ncard ≤ U.ncard := Set.ncard_le_ncard h.inv.held (finite h.inv)
  refine ⟨hinv, fun g hg hgF => ?_, ?_⟩
  · have htop := h.inv.topLe
    have hsize := h.inv.sizeLe
    have hp' := (h.inv.managed _ (h.inv.held hp)).2.1
    show usedBit (unsetBits m pmm.bitmap (pageToBit p) 1) base g = false
    have hindex : pageToBit p = p / 4096 := rfl
    rw [hindex, unsetBits_used h.inv.stored _ _ _ (by omega), Bool.and_eq_false_iff]
    by_cases hgp : g = p / 4096
    · exact Or.inr (by simp [hgp])
    · exact Or.inl (h.free g hg (fun hgF' => hgF ⟨hgF', hgp⟩))
  · show sub64 pmm.usedPagesCount 1 = u0 + (F \ {p / 4096}).ncard
    rw [h.used, sub64_of_le (by omega) (by omega), hcard]
    omega

end PmmCounted

/-- Counting does not get in the way of serving single frames. -/
theorem pmmFrames_lawful_counted (base u0 : Nat) (U : Set Nat) (hbase : 4096 ≤ base)
    (hU : ∀ f ∈ U, f ≠ 0 ∧ f < 2 ^ 40) (hu : u0 + U.ncard < 2 ^ 64) :
    pmmFrames.Lawful U (fun m pmm F => PmmCounted m pmm base U u0 F) where
  managed := hU
  subset := fun _ _ _ h => h.inv.held
  allocz_one := by
    intro m pmm F h
    have hlaw := (pmmFrames_lawful base U hbase hU).allocz_one m pmm F h.inv
    obtain ⟨hbits, hused⟩ := PmmCounted.allocz_one_bits h.inv hbase
    have hfin := PmmCounted.finite h.inv
    have hbelow : ∀ f ∈ U, f < 8 * pmm.bitmap.size := by
      intro f hf
      have hf' := (h.inv.managed f hf).2.1
      have htop := h.inv.topLe
      omega
    rcases hlaw with ⟨hp0, hinv, hsame⟩ | ⟨f, hpf, hfF, hinv, hsame, hz⟩
    · have hp0' : (pmmAllocz 1 m pmm).1 = 0 := hp0
      refine Or.inl ⟨hp0, ⟨hinv, fun g hg hgF => ?_, ?_⟩, hsame⟩
      · have hbit := hbits g (hbelow g hg)
        rw [hp0'] at hbit
        show usedBit (pmmAllocz 1 m pmm).2.1 base g = false
        simpa [h.free g hg hgF] using hbit
      · rw [hp0', if_pos rfl] at hused
        exact hused.trans h.used
    · have hpf' : (pmmAllocz 1 m pmm).1 = f * 4096 := hpf
      have hfU : f ∈ U := hinv.held (Set.mem_insert f F)
      have hf0 := (hU f hfU).1
      refine Or.inr ⟨f, hpf, hfF, ⟨hinv, fun g hg hgF => ?_, ?_⟩, hsame, hz⟩
      · have hbit := hbits g (hbelow g hg)
        have hgf : g ≠ f := fun he => hgF (he ▸ Set.mem_insert f F)
        have hdiv : f * 4096 / 4096 = f := by omega
        rw [hpf', hdiv] at hbit
        show usedBit (pmmAllocz 1 m pmm).2.1 base g = false
        simpa [h.free g hg (fun hc => hgF (Set.mem_insert_of_mem _ hc)), hgf] using hbit
      · rw [hpf', if_neg (by omega), h.used] at hused
        have hcard : (insert f F).ncard = F.ncard + 1 :=
          Set.ncard_insert_of_notMem hfF (hfin.subset h.inv.held)
        have hle : (insert f F).ncard ≤ U.ncard := Set.ncard_le_ncard hinv.held hfin
        rw [add64_of_lt (by omega)] at hused
        refine hused.trans ?_
        rw [hcard]
        omega
  free_one := by
    intro m pmm F p h hp
    exact ⟨h.given hu hp, ((pmmFrames_lawful base U hbase hU).free_one m pmm F p h.inv hp).2⟩
  client_writes := fun _ _ _ _ h hm => h.client_writes hm

namespace PmmCounted

variable {m : Mem} {pmm : Pmm} {base u0 f : Nat} {U F : Set Nat}

theorem probesFree (h : PmmCounted m pmm base U u0 F) (hf : f ∈ U) (hfF : f ∉ F) :
    ProbesFree m pmm 1 f := by
  have htop := h.inv.topLe
  have hsize := h.inv.sizeLe
  have hf' := (h.inv.managed f hf).2.1
  intro j hj
  obtain rfl : j = 0 := by omega
  show bitmapCheckBit m pmm.bitmap (toInt f) = 0#8
  exact (bitmapCheckBit_eq h.inv.stored (by omega)).mpr (h.free f hf hfF)

/-- A request for one frame is refused only when every managed frame is held. -/
theorem serves (h : PmmCounted m pmm base U u0 F) (hu : 0 < u0) (hf : f ∈ U) (hfF : f ∉ F) :
    (pmmAllocz 1 m pmm).1 ≠ 0 := by
  have hf' := (h.inv.managed f hf).2.1
  rcases h.inv.alloc (show 0 < 1 by decide) (servedInFull_one m pmm) with
    ⟨_, hzero | hno⟩ | ⟨i, _, hi0, _, _, hptr, _⟩
  · have hused := h.used
    omega
  · exact absurd (h.probesFree hf hfF) (hno f hf')
  · show (pmmAlloc 1 m pmm).1 ≠ 0
    rw [hptr]
    omega

end PmmCounted

/-- After `pmm_init` nothing is handed out and every initially free frame is
marked so. -/
theorem pmmInit_counts {memoryMap : List MmapEntry} (m : Mem) (hm : MapOk memoryMap)
    (hN : pageToBit (highestTop memoryMap) ≤ 2 ^ 31) :
    ∃ base, (∃ e ∈ memoryMap, e.type = .usable ∧ e.base = base) ∧
      {f | InitiallyFree memoryMap base f}.ncard ≤ 2 ^ 31 ∧
      PmmCounted (pmmInit m memoryMap).1 (pmmInit m memoryMap).2.1 base
        {f | InitiallyFree memoryMap base f} (pmmInit m memoryMap).2.1.usedPagesCount ∅ := by
  obtain ⟨base, hinv, hbitmap, htop, hhost, hfree⟩ := pmmInit_spec m hm hN
  have hbelow : {f | InitiallyFree memoryMap base f} ⊆ Set.Iio (2 ^ 31) := by
    intro f hf
    have hf' := (hinv.managed f hf).2.1
    rw [htop] at hf'
    exact lt_of_lt_of_le hf' hN
  have hIio : (Set.Iio (2 ^ 31)).ncard = 2 ^ 31 := by
    rw [Set.ncard_eq_toFinset_card', Set.toFinset_Iio, Nat.card_Iio]
  refine ⟨base, hhost, hIio ▸ Set.ncard_le_ncard hbelow (Set.finite_Iio _), hinv,
    fun f hf _ => ?_, by rw [Set.ncard_empty, Nat.add_zero]⟩
  refine (hfree f ?_).mpr hf
  have hf' := (hinv.managed f hf).2.1
  have hle := hinv.topLe
  rw [hbitmap] at hle
  exact lt_of_lt_of_le hf' hle

theorem pmmInit_counted {memoryMap : List MmapEntry} (m : Mem) (hm : MapOk memoryMap)
    (hN : pageToBit (highestTop memoryMap) ≤ 2 ^ 31)
    (hlow : ∀ e ∈ memoryMap, e.type = .usable → 4096 ≤ e.base) {u0 : Nat}
    (hu : (pmmInit m memoryMap).2.1.usedPagesCount = u0) (hlt : u0 < 2 ^ 63) :
    ∃ base, (∃ e ∈ memoryMap, e.type = .usable ∧ e.base = base) ∧
      pmmFrames.Lawful {f | InitiallyFree memoryMap base f}
        (fun m pmm F => PmmCounted m pmm base {f | InitiallyFree memoryMap base f} u0 F) ∧
      PmmCounted (pmmInit m memoryMap).1 (pmmInit m memoryMap).2.1 base
        {f | InitiallyFree memoryMap base f} u0 ∅ := by
  obtain ⟨base, ⟨e, he, heu, hbase⟩, hcard, hcount⟩ := pmmInit_counts m hm hN
  rw [hu] at hcount
  refine ⟨base, ⟨e, he, heu, hbase⟩,
    pmmFrames_lawful_counted base u0 _ (hbase ▸ hlow e he heu)
    (fun f hf => ?_) (by omega), hcount⟩
  have hf' := hcount.inv.managed f hf
  have htop := hcount.inv.topLe
  have hsize := hcount.inv.sizeLe
  exact ⟨hf'.1, by omega⟩

/-- The frame allocator after `pmm_init` on a map of one usable entry. -/
theorem bootKernel_single {memoryMap : List MmapEntry} {base length u0 : Nat}
    (hmap : memoryMap = [⟨base, length, .usable⟩]) (hm : MapOk memoryMap)
    (hN : pageToBit (highestTop memoryMap) ≤ 2 ^ 31) (hlow : 4096 ≤ base)
    (hu : (bootKernel memoryMap).frames.usedPagesCount = u0) (hlt : u0 < 2 ^ 63) :
    pmmFrames.Lawful {f | InitiallyFree memoryMap base f}
      (fun m pmm F => PmmCounted m pmm base {f | InitiallyFree memoryMap base f} u0 F) ∧
    PmmCounted (bootKernel memoryMap).mem (bootKernel memoryMap).frames base
      {f | InitiallyFree memoryMap base f} u0 ∅ := by
  have hentry : ∀ e ∈ memoryMap, e = ⟨base, length, .usable⟩ := by simp [hmap]
  obtain ⟨base', ⟨e, he, _, hbase⟩, hA, hcount⟩ := pmmInit_counted (fun _ => 0#8) hm hN
    (fun e he _ => by rw [hentry e he]; exact hlow) hu hlt
  obtain rfl : base = base' := by rw [← hbase, hentry e he]
  exact ⟨hA, hcount⟩

end ApoptOS
