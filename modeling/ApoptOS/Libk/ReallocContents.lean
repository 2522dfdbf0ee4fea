import ApoptOS.Libk.ReallocMove

namespace ApoptOS

open Framework

/-- The bytes to keep are copied: always from a slot, unless the new size is so
large that it rounds to 0; from pages only as many as their number, truncated to
16 bits, contains that of the bytes of a page. -/
def ContentsCopied (b : Block) (n : Nat) : Prop :=
  if b.space ≤ 512 then n ≤ 2 ^ 64 - 4096 ∨ b.size = 0
  else n ≤ b.space / pageSize % 2 ^ 16 / pageSize ∨
    2 ^ 64 - 4096 < n ∧ b.space / pageSize % 2 ^ 16 < pageSize

instance (b : Block) (n : Nat) : Decidable (ContentsCopied b n) := by
  unfold ContentsCopied
  infer_instance

/-- The first `min old new` bytes at the new pointer are those that were at the
old one. -/
def ContentsKept (m m' : Mem) (b : Block) (n q : Nat) : Prop :=
  ∀ i < min b.size n, m' (heapPhys (q + i)) = m (heapPhys (b.pointer + i))

/-- A sound request that was served is served the same after a change outside
the bitmap. -/
theorem PmmInv.served_again {m m' : Mem} {pmm : Pmm} {base n : Nat} {U F : Set Nat}
    (h : PmmInv m pmm base U F) (hn : 0 < n) (hfull : ServedInFull m pmm n)
    (hserved : (pmmAllocz n m pmm).1 ≠ 0) (hm : Mem.SameOn (frameBytes U)ᶜ m m') (W : Set Nat) :
    PageRequestSound W m' pmm n ∧ (pmmAllocz n m' pmm).1 = (pmmAllocz n m pmm).1 := by
  have htop := h.topLe
  have hsize := h.sizeLe
  have hserved' : (pmmAlloc n m pmm).1 ≠ 0 := hserved
  have hused : 0 < pmm.usedPagesCount := by
    by_contra h0
    unfold pmmAlloc at hserved'
    rw [if_pos (by omega)] at hserved'
    exact hserved' rfl
  have hcheck : ∀ c < pageToBit pmm.highestPageTop,
      bitmapCheckBit m' pmm.bitmap (toInt c) = 0#8 ↔
        bitmapCheckBit m pmm.bitmap (toInt c) = 0#8 := by
    intro c hc
    rw [bitmapCheckBit_eq h.stored (by omega), bitmapCheckBit_eq h.stored (by omega),
      PmmInv.bits_congr m m' pmm base (fun x h1 h2 => hm x (h.bitmap_unmanaged h1 h2)) c (by omega)]
  rcases h.alloc hn hfull with ⟨hnone, _⟩ | ⟨i, hi, hi0, hin, _, hptr, _⟩
  · rw [hnone] at hserved'
    exact absurd rfl hserved'
  -- the run found is in range, so the lower ones were refused in range too
  have hprobe : ∀ j < n, ∀ i' ≤ i, i' + pageToBit j < pageToBit pmm.highestPageTop := by
    intro j hj i' hi'
    have hle : pageToBit j ≤ j := Nat.div_le_self _ _
    omega
  have hi2 : LowestProbe m' pmm n i := by
    refine ⟨hi.1, fun j hj => (hcheck _ (hprobe j hj i (le_refl i))).mpr (hi.2.1 j hj), ?_⟩
    intro i' hi' hfree
    exact hi.2.2 i' hi' (fun j hj => (hcheck _ (hprobe j hj i' (by omega))).mp (hfree j hj))
  have hfull2 : ServedInFull m' pmm n := by
    intro k hk
    obtain rfl := hk.unique hi2
    refine ⟨hin, fun j hj => ?_⟩
    have hbit := (hfull k hi).2 j hj
    exact (hcheck _ (by omega)).mpr hbit
  refine ⟨⟨hfull2, Or.inl ⟨hused, i, hi.1, hi2.2.1⟩⟩, ?_⟩
  rcases (h.client_writes hm).alloc hn hfull2 with
      ⟨_, hzero | hno⟩ | ⟨k, hk, _, _, _, hptr2, _⟩
  · omega
  · exact absurd hi2.2.1 (hno i hi.1)
  · rw [hk.unique hi2] at hptr2
    exact hptr2.trans hptr.symm

namespace HeapInv

variable {base fuel n q : Nat} {U W F : Set Nat} {s : HeapState Pmm} {h1 h' : Heap Pmm}
  {caches : List SlabCache} {view : Nat → CacheView} {b : Block}

/-- A block whose size does not wrap fits its space. -/
theorem size_fits (h : HeapInv (pmmHolds base U) s F caches view) (hb : b ∈ s.blocks)
    (hsize : b.size < 2 ^ 64 - 2) : b.size + 2 ≤ b.space := by
  rcases hclass : blockClass b.size with _ | i
  · have hlarge := (h.pages b (page_mem hb hclass)).large
    exact (round_pages (by omega) hlarge).2.1
  · obtain ⟨c, hc, _⟩ := h.cache_exists (sizeToSlabCacheIndex_some hclass)
    have hfit := h.block_fits hc hclass (small_of_class hsize hclass)
    rw [h.space_eq hc hclass]
    omega

theorem contents_copied_iff (h : HeapInv (pmmHolds base U) s F caches view) (hb : b ∈ s.blocks)
    (hsize : b.size < 2 ^ 64 - 2) (hpos : 0 < n) (hn : n < 2 ^ 64) :
    ContentsCopied b n ↔ b.oldSize = roundAllocSize n ∨
      min b.size n ≤ min b.oldSize (roundAllocSize n) := by
  have hfit := h.size_fits hb hsize
  have hround := round_bounds hn
  unfold ContentsCopied
  rcases h.space_kinds hb with hslot | hpages
  · have hall : ∀ c ∈ heapSlabSizes, 16 ≤ c ∧ c ≤ 512 := by decide
    have hle := hall _ hslot
    have hold : b.oldSize = b.space := if_pos hle.2
    rw [if_pos hle.2, hold]
    omega
  · obtain ⟨hold, h15⟩ := oldSize_pages hpages
    have hbig : 510 < b.size := by
      rcases hclass : blockClass b.size with _ | i
      · exact (round_pages (by omega) hpages).2.2.1
      · obtain ⟨c, hc, _⟩ := h.cache_exists (sizeToSlabCacheIndex_some hclass)
        have hs := (heapSlabSizes_bound (h.size_eq hc)).2.2.1
        have hsp := h.space_eq hc hclass
        omega
    unfold pageSize
    rw [if_neg (by omega)]
    omega

/-- What is copied from one block and to another does not overlap, although it
may reach two bytes beyond a slot. -/
theorem ranges_apart (h : HeapInv (pmmHolds base U) s F caches view) {d : Block}
    (hb : b ∈ s.blocks) (hd : d ∈ s.blocks)
    (hap : Apart (metadataOf b.pointer) b.space (metadataOf d.pointer) d.space) {l : Nat}
    (hlb : l ≤ b.space) (hld : l ≤ d.space)
    (hpb : blockClass b.size = none → l + 2 ≤ b.space)
    (hpd : blockClass d.size = none → l + 2 ≤ d.space)
    (hsame : ∀ i, blockClass b.size = some i → blockClass d.size = some i →
      l + 2 ≤ b.space) :
    metadataOf b.pointer + 2 + l ≤ metadataOf d.pointer + 2 ∨
      metadataOf d.pointer + 2 + l ≤ metadataOf b.pointer + 2 := by
  unfold Apart at hap
  -- the range of a slot stays in its frame
  have hslot : ∀ (e : Block) (i : Nat), e ∈ s.blocks → blockClass e.size = some i →
      l ≤ e.space →
      (metadataOf e.pointer + 1 + l) / 4096 = metadataOf e.pointer / 4096 ∧
        metadataOf e.pointer / 4096 ∈ (view i).frames := by
    intro e i he hclass hle
    obtain ⟨c, hc, _, _, hsl⟩ := h.block_slot he hclass
    have hs := (h.good.cache i c hc).inv.sizeBounds
    rw [h.space_eq hc hclass] at hle
    exact slot_frame hsl hs.1 (by omega) (by omega)
  rcases hi : blockClass b.size with _ | i
  · have hb2 := hpb hi
    have hbal := (h.pages b (page_mem hb hi)).aligned
    rcases hj : blockClass d.size with _ | j
    · have hd2 := hpd hj
      omega
    · have hdf := (hslot d j hd hj hld).1
      omega
  · have hbf := (hslot b i hb hi hlb).1
    rcases hj : blockClass d.size with _ | j
    · have hd2 := hpd hj
      have hdal := (h.pages d (page_mem hd hj)).aligned
      omega
    · by_cases hij : i = j
      · subst hij
        have hb2 := hsame i hi hj
        obtain ⟨c, hc, _⟩ := h.block_slot hb hi
        rw [h.space_eq hc hi] at hap hb2
        rw [h.space_eq hc hj] at hap
        omega
      · obtain ⟨c, hc, _⟩ := h.block_slot hb hi
        obtain ⟨e, he, _⟩ := h.block_slot hd hj
        have hdf := (hslot d j hd hj hld).1
        have hne := h.frames_ne hij hc he (hslot b i hb hi hlb).2 (hslot d j hd hj hld).2
        omega

/-- How far a move may reach into the old and the new block. -/
theorem move_reach (h : HeapInv (pmmHolds base U) s F caches view) (hb : b ∈ s.blocks)
    (hn : n < 2 ^ 64) {t : Taken} (ht : mallocTakes n = some t)
    (hdiff : b.oldSize ≠ roundAllocSize n) (q : Nat) {l : Nat}
    (hl : l = min b.oldSize (roundAllocSize n)) :
    l ≤ Block.space ⟨q, n⟩ ∧ (blockClass n = none → l + 2 ≤ Block.space ⟨q, n⟩) ∧
      (blockClass b.size = none → l + 2 ≤ b.space) ∧
      ∀ i, blockClass b.size = some i → blockClass n = some i →
        l + 2 ≤ b.space ∧ l + 2 ≤ Block.space ⟨q, n⟩ := by
  have hspace : Block.space ⟨q, n⟩ = roundAllocSize (add64 n metadataSize) := rfl
  obtain ⟨ho512, hospace⟩ := h.oldSize_le hb
  have hkinds := round_taken hn ht
  have hslot : ∀ i, blockClass n = some i → Block.space ⟨q, n⟩ ≤ 512 :=
    fun i hi => (heapSlabSizes_bound (sizeToSlabCacheIndex_some hi)).2.2.1
  rw [hspace] at hslot ⊢
  refine ⟨by omega, fun hnone => ?_, fun hnone => ?_, fun i hi hj => ?_⟩
  · have hbig : ¬ n ≤ 510 := by
      intro hsm
      obtain ⟨i, _, hi, _⟩ := blockClass_small hsm
      rw [hi] at hnone
      simp at hnone
    omega
  · have hpages := (h.pages b (page_mem hb hnone)).large
    have h15 := (oldSize_pages hpages).2
    omega
  · have heq : b.space = roundAllocSize (add64 n metadataSize) :=
      Option.some.inj ((sizeToSlabCacheIndex_some hi).symm.trans (sizeToSlabCacheIndex_some hj))
    have hle := hslot i hj
    have hold : b.oldSize = b.space := if_pos (by omega)
    omega

/-- A move keeps the contents it is meant to keep, provided it copies them. -/
theorem moved_contents (hbase : 4096 ≤ base) (hU : U ⊆ W)
    (h : HeapInv (pmmHolds base U) s F caches view) (hsizes : ∀ b ∈ s.blocks, b.size < 2 ^ 64)
    (hop : HeapOp.Sound W s (.malloc n)) (hb : b ∈ s.blocks) (hsize : b.size < 2 ^ 64 - 2)
    (hdiff : b.oldSize ≠ roundAllocSize n)
    (hmalloc : malloc pmmFrames fuel s.heap n = .ok (q, h1)) (hq : q ≠ 0)
    (hcopied : min b.size n ≤ min b.oldSize (roundAllocSize n))
    (hfree : free pmmFrames fuel { h1 with kernel := { h1.kernel with
      mem := memcpy h1.kernel.mem q b.pointer (min b.oldSize (roundAllocSize n)) } } b.pointer =
      .ok h') : ContentsKept s.heap.kernel.mem h'.kernel.mem b n q := by
  obtain ⟨t, ht, _⟩ := malloc_took hmalloc hq
  obtain ⟨l, hl⟩ : ∃ l, l = min b.oldSize (roundAllocSize n) := ⟨_, rfl⟩
  obtain ⟨hreach, hreachp, hreachb, hreachs⟩ := h.move_reach hb hop.1 ht hdiff q hl
  obtain ⟨ho512, hospace⟩ := h.oldSize_le hb
  have hfit := h.size_fits hb hsize
  rw [← hl] at hcopied hfree
  obtain ⟨F1, caches1, view1, hinv1, hcells⟩ := h.malloc_cells hbase hU hsizes hop hmalloc hq
  have hsizes1 := cons_sizes (q := q) hsizes hop.1
  have hnew : (⟨q, n⟩ : Block) ∈ (⟨q, n⟩ : Block) :: s.blocks := by simp
  have hold : b ∈ (⟨q, n⟩ : Block) :: s.blocks := List.mem_cons_of_mem _ hb
  have hap := (List.pairwise_cons.mp (hinv1.spaces_apart hsizes1)).1 b hb
  have hranges : metadataOf q + 2 + l ≤ metadataOf b.pointer + 2 ∨
      metadataOf b.pointer + 2 + l ≤ metadataOf q + 2 :=
    hinv1.ranges_apart hnew hold hap hreach (by omega) hreachp hreachb
      (fun i hi hj => (hreachs i hj hi).2)
  have hphysq : ∀ i < l, heapPhys (q + i) = metadataOf q + 2 + i :=
    fun i hi => hinv1.block_phys_of_pmm hnew (by omega)
  have hphysb : ∀ i < l, heapPhys (b.pointer + i) = metadataOf b.pointer + 2 + i :=
    fun i hi => hinv1.block_phys_of_pmm hold (by omega)
  -- what was copied is still there after `free`
  have hfinal : ∀ i < l, i < n → h'.kernel.mem (metadataOf q + 2 + i) =
      memcpy h1.kernel.mem q b.pointer l (metadataOf q + 2 + i) := by
    intro i hi hin
    by_cases hroom : l + 2 ≤ Block.space ⟨q, n⟩
    · obtain ⟨_, hnewcell⟩ :=
        h.moved_cells hbase hU hsizes hop hb hmalloc hq (by omega) hroom hfree
      exact hnewcell _ (by omega) (by omega)
    · rcases hclass : blockClass n with _ | j
      · exact absurd (hreachp hclass) hroom
      · have hne : blockClass b.size ≠ some j := fun hj => hroom (hreachs j hj hclass).2
        obtain ⟨c, hc, _⟩ := h.cache_exists (sizeToSlabCacheIndex_some hclass)
        obtain ⟨v, hv, _⟩ := h.oneSlab j c hc
        have hle := (heapSlabSizes_bound (sizeToSlabCacheIndex_some hclass)).2.2.1
        have hfuel :=
          (h.malloc_slab_ok (pmmHolds_lawful hbase h.pmm) rfl hle hclass hc hv hmalloc).1
        obtain ⟨h2, hfree2, hbytes⟩ :=
          h.move_to_slot hbase hsizes hb hclass hne hmalloc hreach hfuel
        obtain rfl := Except.ok.inj (hfree.symm.trans hfree2)
        exact hbytes _ (by omega) (by omega)
  intro i hi
  rw [hphysq i (by omega), hphysb i (by omega), hfinal i (by omega) (by omega),
    memcpy_inside hphysq hphysb (by omega) (by omega)]
  exact (hcells _ _ (h.block_cell hb) (hinv1.new_start_ne hsizes hop.1 hb).symm).2 _ (by omega)
    (by omega)

/-- Blocks are no larger than memory. -/
theorem space_le (h : HeapInv (pmmHolds base U) s F caches view) (hb : b ∈ s.blocks) :
    b.space ≤ 2 ^ 44 := by
  rcases hclass : blockClass b.size with _ | i
  · have hp := h.pages b (page_mem hb hclass)
    have hlarge := hp.large
    by_contra hcon
    have hdiv : b.space / pageSize = b.space / 4096 := rfl
    have hfar : metadataOf b.pointer / 4096 + 2 ^ 31 ∈ b.pages := by
      refine ⟨by omega, ?_⟩
      show _ < metadataOf b.pointer / 4096 + b.space / pageSize
      omega
    have hlt := (h.pmm.managed _ (h.pmm.held (hp.held hfar))).2.1
    have htop := h.pmm.topLe
    have hsize := h.pmm.sizeLe
    omega
  · have hle : b.space ≤ 512 := (heapSlabSizes_bound (sizeToSlabCacheIndex_some hclass)).2.2.1
    omega

/-- The heap with other contents in a block. -/
theorem rewritten (hbase : 4096 ≤ base) (h : HeapInv (pmmHolds base U) s F caches view)
    (hsizes : ∀ b ∈ s.blocks, b.size < 2 ^ 64) (hb : b ∈ s.blocks)
    (hsize : b.size < 2 ^ 64 - 2) {m' : Mem} (hm : ClientWrote s.heap.kernel.mem m' b) :
    HeapInv (pmmHolds base U) ⟨{ s.heap with kernel := { s.heap.kernel with mem := m' } },
        s.blocks⟩ F caches view ∧
      (∀ a len, Cell s.blocks caches view a len → a ≠ metadataOf b.pointer →
        SameCell s.heap.kernel.mem m' a len) ∧
      Mem.SameOn (frameBytes U)ᶜ s.heap.kernel.mem m' := by
  have hfit := h.size_fits hb hsize
  have hle := h.space_le hb
  have hkeep : ∀ x, (x < metadataOf b.pointer + 2 ∨ metadataOf b.pointer + b.space ≤ x) →
      m' x = s.heap.kernel.mem x := by
    intro x hx
    refine hm x (fun off hoff => ?_)
    rw [h.block_phys_of_pmm hb (by omega)]
    omega
  obtain ⟨hinv, hcells⟩ := h.write_cells hbase hsizes hb hkeep
  refine ⟨hinv, hcells, fun x hx => hkeep x ?_⟩
  by_contra hcon
  exact hx (h.pmm.held (h.cell_held hsizes (h.block_cell hb) (by omega) (by omega)))

/-- `malloc` does the same whatever is in a block. -/
theorem malloc_rewritten (hbase : 4096 ≤ base) (hU : U ⊆ W)
    (h : HeapInv (pmmHolds base U) s F caches view) (hsizes : ∀ b ∈ s.blocks, b.size < 2 ^ 64)
    (hb : b ∈ s.blocks) (hsize : b.size < 2 ^ 64 - 2) {m' : Mem}
    (hm : ClientWrote s.heap.kernel.mem m' b) (hop : HeapOp.Sound W s (.malloc n))
    (hok : malloc pmmFrames fuel s.heap n = .ok (q, h1)) (hq : q ≠ 0) :
    HeapOp.Sound W ⟨{ s.heap with kernel := { s.heap.kernel with mem := m' } }, s.blocks⟩
      (.malloc n) ∧
    ∃ h2, malloc pmmFrames fuel { s.heap with kernel := { s.heap.kernel with mem := m' } } n =
        .ok (q, h2) ∧ ∀ x, metadataOf q + 2 ≤ x →
          x < metadataOf q + Block.space ⟨q, n⟩ →
          h2.kernel.mem x = h1.kernel.mem x := by
  have hA := pmmHolds_lawful hbase h.pmm
  obtain ⟨hinv, hcells, houtside⟩ := h.rewritten hbase hsizes hb hsize hm
  rcases hclass : blockClass n with _ | i
  · -- pages: the bitmap is the same, and the new pages are zero
    obtain ⟨t, ht, htook⟩ := malloc_took hok hq
    have hbig : 512 < roundAllocSize (add64 n metadataSize) := by
      by_contra hle
      have hnone : sizeToSlabCacheIndex (roundAllocSize (add64 n metadataSize)) = none := hclass
      simp only [mallocTakes, if_pos (Nat.not_lt.mp hle), hnone, Option.map_none] at ht
      simp at ht
    obtain rfl : t = .pages (roundAllocSize (add64 n metadataSize) / pageSize) := by
      simp only [mallocTakes, if_neg (Nat.not_le.mpr hbig)] at ht
      exact (Option.some.inj ht).symm
    obtain ⟨_, hserved, hr⟩ := htook
    have hpos : 0 < roundAllocSize (add64 n metadataSize) / pageSize := by
      obtain ⟨hmod, _⟩ := round_pages hop.1 hbig
      unfold pageSize
      omega
    obtain ⟨hsound, hptr⟩ := h.pmm.served_again hpos (hop.2 hbig).1 hserved houtside W
    have hop2 : HeapOp.Sound W ⟨{ s.heap with kernel := { s.heap.kernel with mem := m' } },
        s.blocks⟩ (.malloc n) := ⟨hop.1, fun _ => hsound⟩
    obtain ⟨p1, k1, hok1, _, hcase1⟩ := h.malloc_page fuel hU hop.1 hbig (hop.2 hbig)
    obtain ⟨p2, k2, hok2, _, hcase2⟩ := hinv.malloc_page fuel hU hop.1 hbig hsound
    obtain ⟨rfl, rfl⟩ := Prod.mk.inj (Except.ok.inj (hok.symm.trans hok1))
    have hp2 : p2 = q := by
      have hne : (pmmAllocz (roundAllocSize (add64 n metadataSize) / pageSize) m'
          s.heap.kernel.frames).1 ≠ 0 := by
        rw [hptr]
        exact hserved
      have hq1 : q = add64 (add64 (pmmAllocz (roundAllocSize (add64 n metadataSize) / pageSize)
          s.heap.kernel.mem s.heap.kernel.frames).1 metadataSize) heapStartAddr :=
        (Prod.mk.inj hr).1
      have hp2' : p2 = add64 (add64 (pmmAllocz (roundAllocSize (add64 n metadataSize) / pageSize)
          m' s.heap.kernel.frames).1 metadataSize) heapStartAddr :=
        malloc_pages_pointer hbig hok2 hne
      rw [hp2', hptr, ← hq1]
    subst hp2
    rcases hcase1 with ⟨hq0, _⟩ | ⟨_, _, _, hzero1, hinv1⟩
    · exact absurd hq0 hq
    rcases hcase2 with ⟨hq0, _⟩ | ⟨_, _, _, hzero2, _⟩
    · exact absurd hq0 hq
    refine ⟨hop2, _, hok2, fun x h1 h2 => ?_⟩
    have hnew : (⟨p2, n⟩ : Block) ∈ (⟨p2, n⟩ : Block) :: s.blocks := by simp
    have hp := hinv1.pages _ (page_mem hnew hclass)
    have hx : x / 4096 ∈ Block.pages ⟨p2, n⟩ :=
      space_pages hop.1 hp.large hp.aligned (Nat.le_of_add_right_le h1) h2
    exact (hzero2 x hx h1).trans (hzero1 x hx h1).symm
  · -- a slot: its bytes are outside the block
    obtain ⟨c, hc, _⟩ := h.cache_exists (sizeToSlabCacheIndex_some hclass)
    have hle := (heapSlabSizes_bound (sizeToSlabCacheIndex_some hclass)).2.2.1
    obtain ⟨v, hv, _⟩ := h.oneSlab i c hc
    obtain ⟨hfuel, d, tail, hfree⟩ := h.malloc_slab_ok hA rfl hle hclass hc hv hok
    obtain ⟨m1, p1, hok1, _, hpd, hp1, hout1, hinv1⟩ :=
      h.malloc_slab hA rfl hle hclass hc hv hfree hfuel
    obtain ⟨m2, p2, hok2, _, _, hp2, hout2, _⟩ :=
      hinv.malloc_slab hA rfl hle hclass hc hv hfree hfuel
    obtain ⟨rfl, rfl⟩ := Prod.mk.inj (Except.ok.inj (hok.symm.trans hok1))
    obtain rfl : q = p2 := hp1.trans hp2.symm
    refine ⟨⟨hop.1, fun hbig => absurd hbig (Nat.not_lt.mpr hle)⟩, _, hok2,
      fun x h1 h2 => ?_⟩
    have hspace : Block.space ⟨q, n⟩ = c.size := h.space_eq hc hclass
    rw [hpd] at h1 h2
    rw [hspace] at h2
    have hdfree : d ∈ (v.free : List Nat) := by rw [hfree]; simp
    have hvm : v ∈ (view i).slabs := by rw [hv]; simp
    have hci := (h.good.cache i c hc).inv
    have hin := (hci.slot_of_free hvm hdfree).inside (x := x) (by omega) h2
    have hbook : x ∉ bookkeeping c.cache (view i).frames := by
      rintro (hxc | hxf)
      · exact hci.cacheApart (hxc ▸ hin.1)
      · omega
    have hcell : Cell s.blocks caches view d c.size :=
      .slot hc (List.mem_append_left _ (List.mem_flatMap.mpr ⟨v, hvm, hdfree⟩))
    have hsame := hcells d c.size hcell (h.free_ne_block hb hc hvm hdfree) x (by omega) h2
    exact (hout2 x hbook (Or.inr h1)).trans (hsame.trans (hout1 x hbook (Or.inr h1)).symm)

/-- Where `free` returns on one heap it does on another with the same block. -/
theorem free_again {s2 : HeapState Pmm} {F2 : Set Nat} {caches2 : List SlabCache}
    {view2 : Nat → CacheView} (hbase : 4096 ≤ base)
    (h : HeapInv (pmmHolds base U) s F caches view)
    (h2 : HeapInv (pmmHolds base U) s2 F2 caches2 view2) (hb : b ∈ s.blocks)
    (hb2 : b ∈ s2.blocks) (hok : free pmmFrames fuel s.heap b.pointer = .ok h') :
    ∃ h'', free pmmFrames fuel s2.heap b.pointer = .ok h'' := by
  rcases hclass : blockClass b.size with _ | i
  · exact ⟨_, (h2.free_page fuel (page_mem hb2 hclass)).1⟩
  · obtain ⟨c, hc, hbi, _⟩ := h.block_slot hb hclass
    obtain ⟨c2, hc2, hbi2, _⟩ := h2.block_slot hb2 hclass
    have hfuel := h.free_slab_fuel hc hbi hok
    obtain ⟨_, _, _, _, _, hok2, _⟩ :=
      h2.free_slab (pmmHolds_lawful hbase h2.pmm) hc2 hbi2 hfuel
    exact ⟨_, hok2⟩

/-- A move that does not copy everything loses some contents. -/
theorem moved_loses (hbase : 4096 ≤ base) (hU : U ⊆ W)
    (h : HeapInv (pmmHolds base U) s F caches view) (hsizes : ∀ b ∈ s.blocks, b.size < 2 ^ 64)
    (hop : HeapOp.Sound W s (.malloc n)) (hb : b ∈ s.blocks) (hsize : b.size < 2 ^ 64 - 2)
    (hpos : 0 < n) (hdiff : b.oldSize ≠ roundAllocSize n)
    (hmalloc : malloc pmmFrames fuel s.heap n = .ok (q, h1)) (hq : q ≠ 0)
    (hshort : min b.oldSize (roundAllocSize n) < min b.size n)
    (hfree : free pmmFrames fuel { h1 with kernel := { h1.kernel with
      mem := memcpy h1.kernel.mem q b.pointer (min b.oldSize (roundAllocSize n)) } } b.pointer =
      .ok h') :
    ∃ m' h'', ClientWrote s.heap.kernel.mem m' b ∧
      realloc pmmFrames fuel { s.heap with kernel := { s.heap.kernel with mem := m' } }
        b.pointer n =
        .ok (q, h'') ∧ ¬ ContentsKept m' h''.kernel.mem b n q := by
  obtain ⟨t, ht, _⟩ := malloc_took hmalloc hq
  obtain ⟨l, hl⟩ : ∃ l, l = min b.oldSize (roundAllocSize n) := ⟨_, rfl⟩
  obtain ⟨ho512, _⟩ := h.oldSize_le hb
  have hfit := h.size_fits hb hsize
  have hspace : Block.space ⟨q, n⟩ = roundAllocSize (add64 n metadataSize) := rfl
  have hroom : l + 2 < Block.space ⟨q, n⟩ := by
    have hkinds := round_taken hop.1 ht
    omega
  rw [← hl] at hshort hfree
  -- the first byte that is not copied
  obtain ⟨y, hy⟩ : ∃ y, y = h1.kernel.mem (metadataOf q + 2 + l) := ⟨_, rfl⟩
  obtain ⟨m', hm'⟩ : ∃ m' : Mem, m' = s.heap.kernel.mem.set (metadataOf b.pointer + 2 + l)
    (y + 1#8) := ⟨_, rfl⟩
  have hphys : heapPhys (b.pointer + l) = metadataOf b.pointer + 2 + l :=
    h.block_phys_of_pmm hb (by omega)
  have hwrote : ClientWrote s.heap.kernel.mem m' b := by
    intro x hx
    rw [hm']
    refine Mem.set_other _ _ (fun hxe => hx l (by omega) ?_)
    rw [hxe, hphys]
  obtain ⟨hop2, h2, hmalloc2, hbytes⟩ :=
    h.malloc_rewritten hbase hU hsizes hb hsize hwrote hop hmalloc hq
  obtain ⟨hinv2, _, _⟩ := h.rewritten hbase hsizes hb hsize hwrote
  obtain ⟨_, _, _, hheap, _⟩ :=
    h.copied_heap hbase hU hsizes hop hmalloc hq b.pointer (l := l) (by omega) (by omega)
  obtain ⟨_, _, _, hheap2, _⟩ :=
    hinv2.copied_heap hbase hU hsizes hop2 hmalloc2 hq b.pointer (l := l) (by omega) (by omega)
  obtain ⟨h'', hfree2⟩ := hheap.free_again hbase hheap2 (List.mem_cons_of_mem _ hb)
    (List.mem_cons_of_mem _ hb) hfree
  obtain ⟨hp0, hpoint⟩ := hinv2.pointer_tagged hb
  have hold2 := hinv2.reallocOldSize_block hb
  refine ⟨m', h'', hwrote, ?_, fun hkept => ?_⟩
  · rw [hl] at hfree2
    exact realloc_moved hp0 (by omega) hpoint hold2 hdiff hmalloc2 hq hfree2
  · have hnew : (⟨q, n⟩ : Block) ∈ (⟨q, n⟩ : Block) :: s.blocks := by simp
    have hphysq : ∀ i ≤ l, heapPhys (q + i) = metadataOf q + 2 + i :=
      fun i hi => hheap2.block_phys_of_pmm hnew (by omega)
    obtain ⟨_, hnewcell⟩ := hinv2.moved_cells hbase hU hsizes hop2 hb hmalloc2 hq (by omega)
      (by omega) hfree2
    have hlost := hkept l hshort
    rw [hphys, hphysq l (le_refl l), hnewcell _ (by omega) (by omega),
      memcpy_outside (fun i hi => by rw [hphysq i (by omega)]; omega),
      hbytes _ (by omega) (by omega), ← hy, hm', Mem.set_same] at hlost
    have hne : y ≠ y + 1#8 := by
      intro heq
      have h1 := congrArg BitVec.toNat heq
      have h2 := y.isLt
      rw [BitVec.toNat_add] at h1
      simp at h1
      omega
    exact hne hlost

theorem contents_iff (hbase : 4096 ≤ base) (hU : U ⊆ W)
    (h : HeapInv (pmmHolds base U) s F caches view) (hsizes : ∀ b ∈ s.blocks, b.size < 2 ^ 64)
    (hb : b ∈ s.blocks) (hsize : b.size < 2 ^ 64 - 2) (hpos : 0 < n) (hn : n < 2 ^ 64)
    (hop : b.oldSize ≠ roundAllocSize n → HeapOp.Sound W s (.malloc n))
    (hok : realloc pmmFrames fuel s.heap b.pointer n = .ok (q, h')) (hq : q ≠ 0) :
    (∀ m', ClientWrote s.heap.kernel.mem m' b → ∀ p h'',
      realloc pmmFrames fuel { s.heap with kernel := { s.heap.kernel with mem := m' } }
        b.pointer n =
        .ok (p, h'') → p ≠ 0 → ContentsKept m' h''.kernel.mem b n p) ↔
      ContentsCopied b n := by
  rw [h.contents_copied_iff hb hsize hpos hn]
  obtain ⟨hp0, hpoint⟩ := h.pointer_tagged hb
  have hold := h.reallocOldSize_block hb
  have hcases := realloc_cases hp0 (by omega) hpoint hok hq
  constructor
  · intro hall
    by_contra hcon
    push Not at hcon
    obtain ⟨hdiff, hshort⟩ := hcon
    cases hcases with
    | kept hsame => exact hdiff (Option.some.inj (hold.symm.trans hsame))
    | moved hold' _ hmalloc hfree =>
      obtain rfl := Option.some.inj (hold.symm.trans hold')
      obtain ⟨m', h'', hwrote, hok2, hlost⟩ :=
        h.moved_loses hbase hU hsizes (hop hdiff) hb hsize hpos
        hdiff hmalloc hq hshort hfree
      exact hlost (hall m' hwrote q h'' hok2 hq)
  · intro hcopied m' hwrote p h'' hok2 hp
    obtain ⟨hinv2, _, _⟩ := h.rewritten hbase hsizes hb hsize hwrote
    have hold2 := hinv2.reallocOldSize_block hb
    cases realloc_cases hp0 (by omega) hpoint hok2 hp with
    | kept _ => exact fun _ _ => rfl
    | moved hold2' hdiff hmalloc2 hfree2 =>
      obtain rfl := Option.some.inj (hold2.symm.trans hold2')
      cases hcases with
      | kept hsame => exact absurd (Option.some.inj (hold.symm.trans hsame)) hdiff
      | moved _ _ hmalloc _ =>
        obtain ⟨hop2, _⟩ :=
          h.malloc_rewritten hbase hU hsizes hb hsize hwrote (hop hdiff) hmalloc hq
        exact hinv2.moved_contents hbase hU hsizes hop2 hb hsize hdiff hmalloc2 hp
          (hcopied.resolve_left hdiff) hfree2

end HeapInv

/-- In every state a sound run reaches: `realloc` of a block of a size that does
not wrap, with a sound request of its own, keeps the contents whatever they are
exactly if they are copied. -/
theorem realloc_keeps_contents_iff (base : Nat) (U F : Set Nat) (k : Kernel Pmm)
    (hk : PmmInv k.mem k.frames base U F) (hbase : 4096 ≤ base) (h : Heap Pmm)
    (hinit : mallocHeapInit pmmFrames k = .ok h) (fuel : Nat) (ops : List HeapOp)
    (s : HeapState Pmm) (hsound : HeapState.SoundRun U fuel ⟨h, []⟩ ops)
    (hrun : HeapState.run pmmFrames fuel ⟨h, []⟩ ops = some s) (b : Block) (hb : b ∈ s.blocks)
    (hsize : b.size < 2 ^ 64 - 2) (n : Nat) (hpos : 0 < n) (hn : n < 2 ^ 64)
    (hop : b.oldSize ≠ roundAllocSize n → HeapOp.Sound U s (.malloc n)) (q : Nat)
    (h' : Heap Pmm) (hok : realloc pmmFrames fuel s.heap b.pointer n = .ok (q, h')) (hq : q ≠ 0) :
    (∀ m', ClientWrote s.heap.kernel.mem m' b → ∀ p h'',
      realloc pmmFrames fuel { s.heap with kernel := { s.heap.kernel with mem := m' } }
        b.pointer n =
        .ok (p, h'') → p ≠ 0 → ContentsKept m' h''.kernel.mem b n p) ↔
      ContentsCopied b n := by
  obtain ⟨F', caches, view, hinv, hsizes, _⟩ :=
    HeapInv.of_init hbase hk hinit (Set.Subset.refl U) hsound hrun
  exact hinv.contents_iff hbase (Set.Subset.refl U) hsizes hb hsize hpos hn hop hok hq

theorem realloc_keeps_contents_iff_heapMap : ∃ h s p q h',
    mallocHeapInit pmmFrames (bootKernel heapMap) = .ok h ∧
    HeapState.run pmmFrames 1 ⟨h, []⟩ [.malloc 10] = some s ∧
    realloc pmmFrames 1 s.heap p 100 = .ok (q, h') ∧ q ≠ 0 ∧
    ContentsKept s.heap.kernel.mem h'.kernel.mem ⟨p, 10⟩ 100 q := by
  obtain ⟨h, s, p, q, h', hinit, hrun, hsound, hblocks, hok, hq, _⟩ :=
    heapMap_moved (show 10 ≤ 510 by decide) (show blockClass 10 = some 0 by decide +kernel)
      (by decide +kernel) (show 100 ≠ 0 by decide) (by decide)
      (show blockClass 100 = some 3 by decide +kernel) (by decide) (by decide +kernel)
      (by decide +kernel)
  have hb : (⟨p, 10⟩ : Block) ∈ s.blocks := by rw [hblocks]; exact List.mem_singleton.mpr rfl
  have hsmall : ¬ 512 < roundAllocSize (add64 100 metadataSize) := by decide +kernel
  have hspace : (Block.mk p 10).space = 16 := by
    show roundAllocSize (add64 10 metadataSize) = 16
    decide +kernel
  have hcopied : ContentsCopied ⟨p, 10⟩ 100 := by
    unfold ContentsCopied
    rw [hspace, if_pos (by decide)]
    exact Or.inl (by decide)
  have hall := (realloc_keeps_contents_iff 0x1000 heapFrames ∅ _ heapMap_boot.2.inv (by decide) h
    hinit 1 _ s hsound hrun ⟨p, 10⟩ hb (show 10 < _ by decide) 100 (by decide) (by decide)
    (fun _ => ⟨by decide, fun hbig => absurd hbig hsmall⟩) q h' hok hq).mpr hcopied
  exact ⟨h, s, p, q, h', hinit, hrun, hok, hq, hall _ (fun _ _ => rfl) q h' hok hq⟩

/-- A page for a block of 1000 bytes on the fresh heap of `heapMap`. -/
theorem heapMap_page : ∃ (h : Heap Pmm) (s : HeapState Pmm) (p : Nat),
    mallocHeapInit pmmFrames (bootKernel heapMap) = .ok h ∧
    HeapState.run pmmFrames 1 ⟨h, []⟩ [.malloc 1000] = some s ∧
    HeapState.SoundRun heapFrames 1 ⟨h, []⟩ [.malloc 1000] ∧ s.blocks = [⟨p, 1000⟩] := by
  obtain ⟨h, fs, _, _, hinit, hfs, hinv⟩ := heapMap_init
  have hcount : PmmCounted h.kernel.mem h.kernel.frames 0x1000 heapFrames 33761 {f | f ∈ fs} :=
    hinv.good.holds
  have hround : roundAllocSize (add64 1000 metadataSize) = 4096 := by decide +kernel
  have hone : roundAllocSize (add64 1000 metadataSize) / pageSize = 1 := by
    rw [hround]
    rfl
  obtain ⟨f, hf, hffs⟩ : ∃ f ∈ List.range' 2 31, f ∉ fs := by
    by_contra hcon
    push Not at hcon
    have hnd : (List.range' 2 31).Nodup := List.nodup_range'
    have hle := (hnd.subperm hcon).length_le
    rw [List.length_range', hfs] at hle
    omega
  have hf' := List.mem_range'_1.mp hf
  have hfU := mem_heapFrames hf'.1 (by omega)
  obtain ⟨p, h', hok, hp0⟩ := malloc_pages_served (s := ⟨h, []⟩) (i := f) hcount
    (by decide) 1 (show 512 < roundAllocSize (add64 1000 metadataSize) by rw [hround]; decide)
    (by decide) (fun g hg => by
      rw [hone, frameRun_one] at hg
      rw [Set.mem_singleton_iff.mp hg]
      exact ⟨hfU, hffs⟩)
  refine ⟨h, ⟨h', [⟨p, 1000⟩]⟩, p, hinit, ?_,
    ⟨⟨by decide, fun _ => ?_⟩, fun _ _ => trivial⟩, rfl⟩
  · simp only [HeapState.run, HeapState.exec, hok, if_neg hp0, Option.bind_some]
  · rw [hone]
    have hused := hcount.used
    have hlt := (hcount.inv.managed f hfU).2.1
    have htop := hcount.inv.topLe
    have hsize := hcount.inv.sizeLe
    refine ⟨servedInFull_one _ _, Or.inl ⟨?_, f, hlt, fun j hj => ?_⟩⟩
    · show 0 < h.kernel.frames.usedPagesCount
      omega
    · have hj0 : j = 0 := by omega
      subst hj0
      show bitmapCheckBit h.kernel.mem h.kernel.frames.bitmap (toInt f) = 0#8
      exact (bitmapCheckBit_eq hcount.inv.stored (by omega)).mpr (hcount.free f hfU hffs)

/-- A block of 1000 bytes, in a page, loses its contents when it is moved: some
contents of its page are not at the pointer `realloc(p, 100)` returns. -/
theorem realloc_loses_page_contents : ∃ h s p m' q h'',
    mallocHeapInit pmmFrames (bootKernel heapMap) = .ok h ∧
    HeapState.run pmmFrames 1 ⟨h, []⟩ [.malloc 1000] = some s ∧ s.blocks = [⟨p, 1000⟩] ∧
    ClientWrote s.heap.kernel.mem m' ⟨p, 1000⟩ ∧
    realloc pmmFrames 1 { s.heap with kernel := { s.heap.kernel with mem := m' } } p 100 =
      .ok (q, h'') ∧ q ≠ 0 ∧ ¬ ContentsKept m' h''.kernel.mem ⟨p, 1000⟩ 100 q := by
  obtain ⟨h, s, p, hinit, hrun, hsound, hblocks⟩ := heapMap_page
  obtain ⟨F, caches, view, hinv, hsizes, _⟩ :=
    HeapInv.of_init (by decide) heapMap_boot.2.inv hinit
    (Set.Subset.refl heapFrames) hsound hrun
  have hb : (⟨p, 1000⟩ : Block) ∈ s.blocks := by
    rw [hblocks]; exact List.mem_singleton.mpr rfl
  have hclass : blockClass 1000 = none := by decide +kernel
  have hclass' : blockClass 100 = some 3 := by decide +kernel
  have hcap : 4056 / roundAllocSize (add64 100 metadataSize) - 1 = 30 := by decide +kernel
  have hround : roundAllocSize 100 = 128 := by decide +kernel
  have hsmall : ¬ 512 < roundAllocSize (add64 100 metadataSize) := by decide +kernel
  have hold : (Block.mk p 1000).oldSize = 0 := by
    have hspace : (Block.mk p 1000).space = 4096 := by
      show roundAllocSize (add64 1000 metadataSize) = 4096
      decide +kernel
    unfold Block.oldSize
    rw [hspace]
    rfl
  obtain ⟨h1, q, _, _, hmalloc, hq, _, _⟩ := hinv.exec_malloc
    (pmmHolds_lawful (by decide) hinv.pmm) hclass'
    (by rw [hcap, hblocks]; simp [slabBlocks, hclass]) (le_refl 1)
  have hdiff : (Block.mk p 1000).oldSize ≠ roundAllocSize 100 := by
    rw [hold, hround]
    decide
  have hne : blockClass (Block.mk p 1000).size ≠ some 3 := by
    show blockClass 1000 ≠ some 3
    rw [hclass]
    simp
  obtain ⟨h', hfree, _⟩ := hinv.move_to_slot (by decide) hsizes hb hclass' hne hmalloc
    (l := min (Block.mk p 1000).oldSize (roundAllocSize 100)) (by rw [hold]; simp) (le_refl 1)
  obtain ⟨m', h'', hwrote, hok, hlost⟩ := hinv.moved_loses (by decide)
    (Set.Subset.refl heapFrames) hsizes ⟨by decide, fun hbig => absurd hbig hsmall⟩ hb
    (show 1000 < _ by decide) (by decide) hdiff hmalloc hq
    (by rw [hold, Nat.zero_min]; exact (show 0 < min 1000 100 by decide)) hfree
  exact ⟨h, s, p, m', q, h'', hinit, hrun, hblocks, hwrote, hok, hq, hlost⟩

end ApoptOS
