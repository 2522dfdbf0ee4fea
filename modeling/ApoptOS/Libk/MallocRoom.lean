import ApoptOS.Libk.MallocPages

namespace ApoptOS

open Framework

/-- A block fit for use besides the live ones: it lies in a slot of its class,
and its space is nobody else's. -/
def UsableBlock (s : HeapState Pmm) (h' : Heap Pmm) (b : Block) : Prop :=
  (∃ i, BlockInSlot h' b i) ∧
    ∀ d ∈ s.blocks, Apart (metadataOf b.pointer) b.space (metadataOf d.pointer) d.space

namespace HeapInv

variable {ρ : Type} {Holds : Mem → ρ → Set Nat → Prop} {s : HeapState ρ} {F : Set Nat}
  {caches : List SlabCache} {view : Nat → CacheView}

theorem space_eq (h : HeapInv Holds s F caches view) {i : Nat} {c : SlabCache}
    (hc : caches[i]? = some c) {b : Block} (hclass : blockClass b.size = some i) :
    b.space = c.size :=
  Option.some.inj ((sizeToSlabCacheIndex_some hclass).symm.trans (h.size_eq hc))

theorem page_mem {b : Block} (hb : b ∈ s.blocks) (hclass : blockClass b.size = none) :
    b ∈ pageBlocks s.blocks := List.mem_filter.mpr ⟨hb, by simpa using hclass⟩

/-- A slot and a run of pages have no byte in common. -/
theorem slot_page_apart (h : HeapInv Holds s F caches view)
    (hsizes : ∀ b ∈ s.blocks, b.size < 2 ^ 64) {b d : Block} {i : Nat} (hb : b ∈ s.blocks)
    (hd : d ∈ s.blocks) (hi : blockClass b.size = some i) (hnone : blockClass d.size = none) :
    Apart (metadataOf b.pointer) b.space (metadataOf d.pointer) d.space := by
  obtain ⟨c, hc, _, _, hslot⟩ := h.block_slot hb hi
  have hs := (h.good.cache i c hc).inv.sizeBounds
  have hdp := h.pages d (page_mem hd hnone)
  have hdl := hdp.large
  have hdis := h.cachesApart i c hc d (page_mem hd hnone)
  rw [h.space_eq hc hi]
  by_contra hcon
  unfold Apart at hcon
  -- the later start lies in both
  obtain ⟨x, hx⟩ : ∃ x, x = max (metadataOf b.pointer) (metadataOf d.pointer) := ⟨_, rfl⟩
  have hin := hslot.inside (x := x) (by omega) (by omega)
  refine Set.disjoint_left.mp hdis (Set.mem_insert_of_mem _ hin.1) ?_
  exact space_pages (hsizes d hd) hdl hdp.aligned (by omega) (by omega)

theorem pages_apart (h : HeapInv Holds s F caches view)
    (hsizes : ∀ b ∈ s.blocks, b.size < 2 ^ 64) {b d : Block} (hb : b ∈ s.blocks)
    (hd : d ∈ s.blocks) (hbn : blockClass b.size = none) (hdn : blockClass d.size = none)
    (hdis : Disjoint b.pages d.pages) :
    Apart (metadataOf b.pointer) b.space (metadataOf d.pointer) d.space := by
  have hbp := h.pages b (page_mem hb hbn)
  have hdp := h.pages d (page_mem hd hdn)
  have hbl := hbp.large
  have hdl := hdp.large
  by_contra hcon
  unfold Apart at hcon
  obtain ⟨x, hx⟩ : ∃ x, x = max (metadataOf b.pointer) (metadataOf d.pointer) := ⟨_, rfl⟩
  exact Set.disjoint_left.mp hdis
    (space_pages (x := x) (hsizes b hb) hbl hbp.aligned (by omega) (by omega))
    (space_pages (hsizes d hd) hdl hdp.aligned (by omega) (by omega))

/-- The spaces of different entries of the block list have no byte in common,
whether slots or pages. -/
theorem spaces_apart (h : HeapInv Holds s F caches view)
    (hsizes : ∀ b ∈ s.blocks, b.size < 2 ^ 64) :
    s.blocks.Pairwise (fun b d =>
      Apart (metadataOf b.pointer) b.space (metadataOf d.pointer) d.space) := by
  have hpages := h.pagesApart
  rw [pageBlocks, List.pairwise_filter] at hpages
  refine (h.starts_ne.and hpages).imp_of_mem (fun {b d} hb hd hbd => ?_)
  rcases hi : blockClass b.size with _ | i
  · rcases hj : blockClass d.size with _ | j
    · exact h.pages_apart hsizes hb hd hi hj (hbd.2 (by simpa using hi) (by simpa using hj))
    · exact (h.slot_page_apart hsizes hd hb hj hi).symm
  · rcases hj : blockClass d.size with _ | j
    · exact h.slot_page_apart hsizes hb hd hi hj
    · obtain ⟨c, hc, _, hbl, hbs⟩ := h.block_slot hb hi
      obtain ⟨e, he, _, hdl, hds⟩ := h.block_slot hd hj
      rw [h.space_eq hc hi, h.space_eq he hj]
      by_cases hij : i = j
      · exact h.live_apart hc he hbl hdl (hbd.1 i hi (hij ▸ hj))
      · exact h.caches_apart hij hc he hbs hds

end HeapInv

/-- In every state a sound run reaches after `malloc_heap_init`, a request of at
most 510 bytes is given a usable block exactly if fewer blocks of its class are
live than one slab holds: the caches never grow, however much memory is left. -/
theorem malloc_small_returns_iff_room (base : Nat) (U F : Set Nat) (k : Kernel Pmm)
    (hk : PmmInv k.mem k.frames base U F) (hbase : 4096 ≤ base) (h : Heap Pmm)
    (hinit : mallocHeapInit pmmFrames k = .ok h) (fuel : Nat) (ops : List HeapOp)
    (s : HeapState Pmm) (hsound : HeapState.SoundRun U fuel ⟨h, []⟩ ops)
    (hrun : HeapState.run pmmFrames fuel ⟨h, []⟩ ops = some s) (size : Nat)
    (hsize : size ≤ 510) (fuel' : Nat) (hfuel : 2 ≤ fuel') :
    (∃ p h', malloc pmmFrames fuel' s.heap size = .ok (p, h') ∧ p ≠ 0 ∧
      UsableBlock s h' ⟨p, size⟩) ↔
    ∃ i, blockClass size = some i ∧ (slabBlocks i s.blocks).length <
      4056 / roundAllocSize (add64 size metadataSize) - 1 := by
  have hA := pmmHolds_lawful hbase hk
  obtain ⟨F', caches, view, hinv, hsizes, _, _⟩ :=
    HeapInv.of_init hbase hk hinit (Set.Subset.refl U) hsound hrun
  constructor
  · rintro ⟨p, h', hok, _, _⟩
    obtain ⟨i, n, hi, hround, hn, _⟩ := blockClass_small hsize
    obtain ⟨c, hc, hcs⟩ := hinv.cache_exists (sizeToSlabCacheIndex_some hi)
    obtain ⟨v, hv, hcount⟩ := hinv.room hc
    obtain ⟨_, b, tail, hfree⟩ := hinv.malloc_slab_ok hA hround hn hi hc hv hok
    refine ⟨i, hi, ?_⟩
    rw [hfree, List.length_cons, hcs] at hcount
    omega
  · rintro ⟨i, hi, hroom⟩
    obtain ⟨h', p, caches', view', hok, hp0, _, hinv'⟩ :=
      hinv.exec_malloc hA hi hroom (show 1 ≤ fuel' by omega)
    have hsizes' : ∀ b ∈ (⟨p, size⟩ : Block) :: s.blocks, b.size < 2 ^ 64 := by
      intro b hb
      rcases List.mem_cons.mp hb with rfl | hb
      · show size < 2 ^ 64
        omega
      · exact hsizes b hb
    refine ⟨p, h', hok, hp0, hinv'.block_in_slot (by simp) hsize, ?_⟩
    exact (List.pairwise_cons.mp (hinv'.spaces_apart hsizes')).1

theorem malloc_small_returns_iff_room_heapMap : ∃ h s p h',
    mallocHeapInit pmmFrames (bootKernel heapMap) = .ok h ∧
    HeapState.run pmmFrames 2 ⟨h, []⟩ [.malloc 100] = some s ∧
    malloc pmmFrames 2 s.heap 100 = .ok (p, h') ∧ UsableBlock s h' ⟨p, 100⟩ := by
  obtain ⟨hA, hboot⟩ := heapMap_boot
  obtain ⟨h, _, _, _, hinit, _, hinv⟩ := heapMap_init
  have hclass : blockClass 100 = some 3 := by decide +kernel
  have hcap : 4056 / roundAllocSize (add64 100 metadataSize) - 1 = 30 := by decide +kernel
  obtain ⟨h1, p, _, _, _, _, hs1, _⟩ := hinv.exec_malloc hA hclass
    (by rw [hcap]; simp [slabBlocks]) (show 1 ≤ 2 by decide)
  have hrun : HeapState.run pmmFrames 2 ⟨h, []⟩ [.malloc 100] =
      some ⟨h1, [⟨p, 100⟩]⟩ := by
    simp only [HeapState.run, hs1, Option.bind_some]
  have hsmall : ¬ 512 < roundAllocSize (add64 100 metadataSize) := by decide +kernel
  have hsound : HeapState.SoundRun heapFrames 2 ⟨h, []⟩ [.malloc 100] :=
    ⟨⟨by decide, fun hbig => absurd hbig hsmall⟩, fun _ _ => trivial⟩
  obtain ⟨q, h', hok, _, husable⟩ :=
    (malloc_small_returns_iff_room 0x1000 heapFrames ∅ _ hboot.inv
    (by decide) h hinit 2 _ _ hsound hrun 100 (by decide) 2 (by decide)).mpr
    ⟨3, hclass, by rw [hcap]; simp [slabBlocks, hclass]⟩
  exact ⟨h, _, q, h', hinit, hrun, hok, husable⟩

/-- After `n` requests of 510 bytes, at most one slab's worth. -/
theorem heapMap_fill {h : Heap Pmm} {F : Set Nat} {caches : List SlabCache}
    {view : Nat → CacheView} (hinv : HeapInv heapMapHolds ⟨h, []⟩ F caches view) (n : Nat)
    (hn : n ≤ 6) : ∃ (s : HeapState Pmm) (caches' : List SlabCache) (view' : Nat → CacheView),
      HeapState.run pmmFrames 2 ⟨h, []⟩ (List.replicate n (.malloc 510)) = some s ∧
      (slabBlocks 5 s.blocks).length = n ∧ HeapInv heapMapHolds s F caches' view' := by
  have hclass : blockClass 510 = some 5 := by decide +kernel
  have hcap : 4056 / roundAllocSize (add64 510 metadataSize) - 1 = 6 := by decide +kernel
  induction n with
  | zero => exact ⟨_, caches, view, rfl, rfl, hinv⟩
  | succ n ih =>
    obtain ⟨s, caches', view', hrun, hlen, hs⟩ := ih (by omega)
    obtain ⟨h', p, caches2, view2, _, _, he, hs2⟩ := hs.exec_malloc heapMap_boot.1 hclass
      (by rw [hcap]; omega) (show 1 ≤ 2 by decide)
    refine ⟨_, caches2, view2, ?_, ?_, hs2⟩
    · rw [List.replicate_succ', HeapState.run_append, hrun]
      simp only [Option.bind_some, HeapState.run, he]
    · simp [slabBlocks, hclass] at hlen ⊢
      exact hlen

/-- Six blocks of 510 bytes fill the only slab of their cache: the seventh
request stops the kernel, with frames left to grow into. -/
theorem malloc_small_panics_with_memory_left : ∃ h s,
    mallocHeapInit pmmFrames (bootKernel heapMap) = .ok h ∧
    HeapState.run pmmFrames 2 ⟨h, []⟩ (List.replicate 6 (.malloc 510)) = some s ∧
    (∃ f < pageToBit s.heap.kernel.frames.highestPageTop,
      bitmapCheckBit s.heap.kernel.mem s.heap.kernel.frames.bitmap (toInt f) = 0#8) ∧
    ∃ argument, malloc pmmFrames 2 s.heap 510 = .error (.panic
      "Slab cache alloc ('%s'): Couldn't find allocatable memory\n" argument) := by
  obtain ⟨h, fs, _, _, hinit, hfs, hinv⟩ := heapMap_init
  obtain ⟨s, caches, view, hrun, hlen, hs⟩ := heapMap_fill hinv 6 (le_refl 6)
  have hclass : blockClass 510 = some 5 := by decide +kernel
  have hround : roundAllocSize (add64 510 metadataSize) = 512 := by decide +kernel
  refine ⟨h, s, hinit, hrun, ?_, ?_⟩
  · -- twelve frames are held, thirty-one are managed
    have hex : ∃ f ∈ List.range' 2 31, f ∉ fs := by
      by_contra hcon
      push Not at hcon
      have hnd : (List.range' 2 31).Nodup := List.nodup_range'
      have hle := (hnd.subperm hcon).length_le
      rw [List.length_range', hfs] at hle
      omega
    obtain ⟨f, hf, hffs⟩ := hex
    have hf' := List.mem_range'_1.mp hf
    have hU := mem_heapFrames hf'.1 (by omega)
    have hcount : PmmCounted s.heap.kernel.mem s.heap.kernel.frames 0x1000 heapFrames 33761
      {f | f ∈ fs} := hs.good.holds
    have hlt := (hcount.inv.managed f hU).2.1
    exact ⟨f, hlt, (bitmapCheckBit_eq hcount.inv.stored (by omega)).mpr
      (hcount.free f hU hffs)⟩
  · obtain ⟨c, hc, hcs⟩ := hs.cache_exists (sizeToSlabCacheIndex_some hclass)
    obtain ⟨v, hv, hcount⟩ := hs.room hc
    have hempty : v.free = [] := by
      rw [hlen, hcs, hround] at hcount
      exact List.length_eq_zero_iff.mp (by omega)
    exact hs.malloc_slab_panic heapMap_boot.1 hround (le_refl _) hclass hc hv hempty (le_refl 2)

end ApoptOS
