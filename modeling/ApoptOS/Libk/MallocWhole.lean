import ApoptOS.Libk.MallocTags

namespace ApoptOS

open Framework

/-- The bytes reserved for a block, its tag included. -/
def Block.Reserves (b : Block) (x : Nat) : Prop :=
  metadataOf b.pointer ≤ x ∧ x < metadataOf b.pointer + b.space

/-- What two blocks reserve has nothing in common. -/
def Block.Apart (b d : Block) : Prop :=
  ApoptOS.Apart (metadataOf b.pointer) b.space (metadataOf d.pointer) d.space

theorem Block.Apart.symm {b d : Block} (h : b.Apart d) : d.Apart b := by
  unfold Block.Apart ApoptOS.Apart at h ⊢
  omega

theorem Block.Apart.not_reserves {b d : Block} (h : b.Apart d) {x : Nat} (hx : b.Reserves x) :
    ¬ d.Reserves x := by
  unfold Block.Apart ApoptOS.Apart at h
  unfold Block.Reserves at hx ⊢
  omega

/-- The bits of the managed frames after a step, and the frames handed out: none changes, a block
of whole pages takes its own, or a freed one gives back as many as its tag counts. -/
inductive FramesMove (base : Nat) (U F : Set Nat) (s s' : HeapState Pmm) : Set Nat → Prop where
  | same (hblocks : pageBlocks s'.blocks = pageBlocks s.blocks)
      (hbits : ∀ f ∈ U, usedBit s'.heap.kernel.mem base f = usedBit s.heap.kernel.mem base f) :
      FramesMove base U F s s' F
  | take (b : Block) (hclass : blockClass b.size = none) (hblocks : s'.blocks = b :: s.blocks)
      (hdis : Disjoint b.pages F)
      (hbits : ∀ f ∈ U, usedBit s'.heap.kernel.mem base f = true ↔
        usedBit s.heap.kernel.mem base f = true ∨ f ∈ b.pages) :
      FramesMove base U F s s' (F ∪ b.pages)
  | give (b : Block) (hb : b ∈ pageBlocks s.blocks)
      (hblocks : s'.blocks = s.blocks.erase b)
      (hbits : ∀ f ∈ U, usedBit s'.heap.kernel.mem base f = true ↔
        usedBit s.heap.kernel.mem base f = true ∧
          f ∉ frameRun (metadataOf b.pointer / 4096) (b.space / pageSize % 2 ^ 16)) :
      FramesMove base U F s s'
        (F \ frameRun (metadataOf b.pointer / 4096) (b.space / pageSize % 2 ^ 16))

/-- What a step keeps of the blocks that it was not given: every byte reserved for them. -/
def BlocksKept (s s' : HeapState Pmm) (op : HeapOp) : Prop :=
  ∀ b ∈ s.blocks, ¬ op.Given b → ∀ x, b.Reserves x →
    s'.heap.kernel.mem x = s.heap.kernel.mem x

/-- All that a step of the heap does. -/
def HeapMove (base : Nat) (U F : Set Nat) (s s' : HeapState Pmm) (op : HeapOp) : Prop :=
  ∃ (F' : Set Nat) (caches' : List SlabCache) (view' : Nat → CacheView),
    HeapInv (pmmHolds base U) s' F' caches' view' ∧ (∀ b ∈ s'.blocks, b.size < 2 ^ 64) ∧
    BlocksKept s s' op ∧ FramesMove base U F s s' F'

namespace HeapInv

variable {base : Nat} {U F W : Set Nat} {s s' : HeapState Pmm} {caches : List SlabCache}
  {view : Nat → CacheView} {fuel size : Nat}

section Blocks

variable {b d : Block} {i : Nat} {c : SlabCache}

/-- What is reserved for a block of whole pages lies in its pages. -/
theorem page_of_reserves (h : HeapInv (pmmHolds base U) s F caches view)
    (hsizes : ∀ b ∈ s.blocks, b.size < 2 ^ 64) (hb : b ∈ s.blocks)
    (hclass : blockClass b.size = none) {x : Nat} (hx : b.Reserves x) : x / 4096 ∈ b.pages := by
  have hp := h.pages b (page_mem hb hclass)
  exact space_pages (hsizes b hb) hp.large hp.aligned hx.1 hx.2

/-- Everything that is reserved is in a frame handed out. -/
theorem held_of_reserves (h : HeapInv (pmmHolds base U) s F caches view)
    (hsizes : ∀ b ∈ s.blocks, b.size < 2 ^ 64) (hb : b ∈ s.blocks) {x : Nat}
    (hx : b.Reserves x) :
    x ∈ frameBytes F := by
  cases hclass : blockClass b.size with
  | none =>
    have hp := h.pages b (page_mem hb hclass)
    exact mem_frameBytes.mpr (hp.held (h.page_of_reserves hsizes hb hclass hx))
  | some i =>
    obtain ⟨c, hc, -, -, hslot⟩ := h.block_slot hb hclass
    have hspace := h.space_eq hc hclass
    have hin := hslot.inside hx.1 (hspace ▸ hx.2)
    exact mem_frameBytes.mpr ((h.good.cache i c hc).framesHeld hin.1)

/-- What is reserved holds the tag and the block, unless adding the metadata wraps. -/
theorem space_fits (h : HeapInv (pmmHolds base U) s F caches view)
    (hsizes : ∀ b ∈ s.blocks, b.size < 2 ^ 64) (hb : b ∈ s.blocks)
    (hwrap : b.size < 2 ^ 64 - 2) :
    2 + b.size ≤ b.space := by
  cases hclass : blockClass b.size with
  | none =>
    have hbig := (h.pages b (page_mem hb hclass)).large
    have hround := (round_pages (hsizes b hb) hbig).2.1
    rw [Nat.add_comm]
    exact hround
  | some i =>
    obtain ⟨c, hc, -⟩ := h.block_slot hb hclass
    rw [h.space_eq hc hclass]
    exact h.block_fits hc hclass (small_of_class hwrap hclass)

theorem apart_of_ne (h : HeapInv (pmmHolds base U) s F caches view)
    (hsizes : ∀ b ∈ s.blocks, b.size < 2 ^ 64) (hb : b ∈ s.blocks) (hd : d ∈ s.blocks)
    (hne : b ≠ d) : b.Apart d := by
  have hsymm : Std.Symm Block.Apart := ⟨fun _ _ h => h.symm⟩
  have hall : s.blocks.Pairwise Block.Apart := h.spaces_apart hsizes
  exact hall.forall hb hd hne

end Blocks

section Bits

variable {m m' : Mem} {pmm : Pmm} {n f : Nat}

theorem bits_kept (h : PmmInv m pmm base U F) (hm : ∀ x, x ∉ frameBytes U → m' x = m x)
    (hf : f ∈ U) : usedBit m' base f = usedBit m base f := by
  have hmanaged := (h.managed f hf).2.1
  have htop := h.topLe
  exact usedBit_congr (hm _ (h.bitmap_unmanaged (by omega) (by omega)))

/-- The bits of the run that `pmm_allocz` hands out are added; a refused request that does not
reach the bitmap changes none. -/
theorem allocz_bits (h : PmmInv m pmm base U F) (hn : 0 < n)
    (hs : PageRequestSound W m pmm n) (hf : f ∈ U) :
    usedBit (pmmAllocz n m pmm).2.1 base f = true ↔ usedBit m base f = true ∨
      ((pmmAllocz n m pmm).1 ≠ 0 ∧ f ∈ frameRun ((pmmAllocz n m pmm).1 / 4096) n) := by
  obtain ⟨hfull, hrefuse⟩ := hs
  have htop := h.topLe
  have hsize := h.sizeLe
  have hmanaged := (h.managed f hf).2.1
  have hwin := h.stored.window
  rcases h.alloc hn hfull with ⟨hnone, hwhy⟩ | ⟨i, hi, hi0, hin, hrun, hptr, hinv, -⟩
  · have hbound : 4096 * n ≤ base := by
      rcases hrefuse with ⟨hused, i, hi, hprobe⟩ | ⟨hle, -⟩
      · rcases hwhy with hzero | hno
        · omega
        · exact absurd hprobe (hno i hi)
      · rwa [h.stored.map, physOf_higherHalfData (by omega)] at hle
    have hlen : pageSize * n % 2 ^ 64 = 4096 * n := by
      unfold pageSize
      omega
    have hbits : usedBit (m.memset 0 0 (4096 * n)) base f = usedBit m base f :=
      usedBit_congr (Mem.memset_outside m (by omega))
    simp only [pmmAllocz, hnone, hlen, hbits]
    simp
  · have hlen : pageSize * n % 2 ^ 64 = 4096 * n := by
      unfold pageSize
      omega
    have hmem : (pmmAlloc n m pmm).2.1 = setBits m pmm.bitmap i n := by
      have hptr' := hptr
      simp only [pmmAlloc] at hptr' ⊢
      split_ifs at hptr' ⊢ with hused hnull
      · omega
      · omega
      · have hindex : pageToBit (pmmFindFirstFreePageRange m pmm n) = i := by
          rcases pmmFindFirstFreePageRange_spec m pmm hn with ⟨hfind, -⟩ | ⟨j, hj, hfind⟩
          · exact absurd hfind hnull
          · rw [hfind, hj.unique hi]
            unfold pageToBit bitToPage pageSize
            omega
        rw [hindex]
    have hout : ∀ x, x < i * 4096 ∨ i * 4096 + 4096 * n ≤ x →
        (pmmAllocz n m pmm).2.1 x = setBits m pmm.bitmap i n x := by
      intro x hx
      simp only [pmmAllocz, hptr, hlen, hmem]
      exact Mem.memset_outside _ hx
    have hkept : usedBit (pmmAllocz n m pmm).2.1 base f =
        usedBit (setBits m pmm.bitmap i n) base f := by
      apply usedBit_congr
      apply hout
      by_contra hcon
      have hxU := (hrun ((base + f / 8) / 4096) ⟨by omega, by omega⟩).1
      exact h.bitmap_unmanaged (x := base + f / 8) (by omega) (by omega) hxU
    have hdiv : i * 4096 / 4096 = i := by omega
    have hne : i * 4096 ≠ 0 := by omega
    have hfst : (pmmAllocz n m pmm).1 = i * 4096 := hptr
    rw [hkept, setBits_used h.stored i n f (by omega), hfst, hdiv]
    simp [hne]

/-- The bits of the run that `pmm_free` gets are cleared. -/
theorem free_bits (h : PmmInv m pmm base U F) {p : Nat} (hrun : frameRun (p / 4096) n ⊆ F) :
    usedBit (pmmFree p n m pmm).1 base f = true ↔
      usedBit m base f = true ∧ f ∉ frameRun (p / 4096) n := by
  have htop := h.topLe
  have hsize := h.sizeLe
  have hindex : pageToBit p = p / 4096 := rfl
  by_cases hn : n = 0
  · subst hn
    have hnot : f ∉ frameRun (p / 4096) 0 := fun hfn => absurd hfn.2 (by have := hfn.1; omega)
    simp [pmmFree, unsetBits, hnot]
  · have hlast : p / 4096 + n - 1 ∈ frameRun (p / 4096) n := by
      rw [mem_frameRun]
      omega
    have hcover := (h.managed _ (h.held (hrun hlast))).2.1
    simp only [pmmFree, hindex, unsetBits_used h.stored _ _ _ (by omega : p / 4096 + n ≤ 2 ^ 31),
      Bool.and_eq_true, Bool.not_eq_true', decide_eq_false_iff_not, mem_frameRun]

end Bits

section Step

variable {i : Nat} {c : SlabCache}

/-- A change inside one cache's structures and one of its slots is not seen in a block that the
slot is not reserved for. -/
theorem kept_of_slot (h : HeapInv (pmmHolds base U) s F caches view)
    (hsizes : ∀ b ∈ s.blocks, b.size < 2 ^ 64) (hc : caches[i]? = some c) {o : Nat} {m' : Mem}
    (hslot : IsSlot c.size (view i).frames o)
    (hm : ∀ x, x ∉ bookkeeping c.cache (view i).frames → (x < o ∨ o + c.size ≤ x) →
      m' x = s.heap.kernel.mem x) {d : Block} (hd : d ∈ s.blocks)
    (hap : ∀ j, blockClass d.size = some j →
      ApoptOS.Apart o c.size (metadataOf d.pointer) d.space) {x : Nat} (hx : d.Reserves x) :
    m' x = s.heap.kernel.mem x := by
  cases hclass : blockClass d.size with
  | none =>
    have hpage := h.page_of_reserves hsizes hd hclass hx
    have hdis := h.cachesApart i c hc d (page_mem hd hclass)
    apply hm
    · exact fun hxb => Set.disjoint_left.mp hdis (bookkeeping_own hxb) hpage
    · by_contra hcon
      have hin := hslot.inside (x := x) (by omega) (by omega)
      exact Set.disjoint_left.mp hdis (Set.mem_insert_of_mem _ hin.1) hpage
  | some j =>
    obtain ⟨e, he, -, hlive, -⟩ := h.block_slot hd hclass
    have hspace := h.space_eq he hclass
    have hdo := hap j hclass
    apply hm
    · exact h.not_bookkeeping he hc hlive hx.1 (hspace ▸ hx.2)
    · unfold ApoptOS.Apart at hdo
      unfold Block.Reserves at hx
      omega

/-- A change inside one cache's frames is not seen in the bitmap. -/
theorem bits_of_slot (h : HeapInv (pmmHolds base U) s F caches view) (hc : caches[i]? = some c)
    {o : Nat} {m' : Mem} (hslot : IsSlot c.size (view i).frames o)
    (hm : ∀ x, x ∉ bookkeeping c.cache (view i).frames → (x < o ∨ o + c.size ≤ x) →
      m' x = s.heap.kernel.mem x) {f : Nat} (hf : f ∈ U) :
    usedBit m' base f = usedBit s.heap.kernel.mem base f := by
  have hown : ownFrames c.cache (view i).frames ⊆ U := (h.own_subset hc).trans h.pmm.held
  refine bits_kept h.pmm (fun x hx => hm x ?_ ?_) hf
  · exact fun hxb => hx (hown (bookkeeping_own hxb))
  · by_contra hcon
    have hin := hslot.inside (x := x) (by omega) (by omega)
    exact hx (hown (Set.mem_insert_of_mem _ hin.1))

/-- The bits after a request for whole pages: those of the new block are added. -/
theorem malloc_page_bits (hU : U ⊆ W) (h : HeapInv (pmmHolds base U) s F caches view)
    (hsize : size < 2 ^ 64) (hbig : 512 < roundAllocSize (add64 size metadataSize))
    (hs : PageRequestSound W s.heap.kernel.mem s.heap.kernel.frames
      (roundAllocSize (add64 size metadataSize) / pageSize)) {p : Nat} {h' : Heap Pmm}
    (hok : malloc pmmFrames fuel s.heap size = .ok (p, h')) {f : Nat} (hf : f ∈ U) :
    usedBit h'.kernel.mem base f = true ↔
      usedBit s.heap.kernel.mem base f = true ∨
        (p ≠ 0 ∧ f ∈ Block.pages ⟨p, size⟩) := by
  obtain ⟨n, hn⟩ : ∃ n, n = roundAllocSize (add64 size metadataSize) / pageSize :=
    ⟨_, rfl⟩
  rw [← hn] at hs
  have hnpos : 0 < n := by
    have hmod := (round_pages hsize hbig).1
    rw [hn]
    unfold pageSize
    omega
  have hbits := allocz_bits h.pmm hnpos hs hf
  have hptr : (s.heap.kernel.pmmAllocz pmmFrames n).1 =
    (pmmAllocz n s.heap.kernel.mem s.heap.kernel.frames).1 := rfl
  simp only [malloc, if_neg (Nat.not_le.mpr hbig), ← hn, hptr] at hok
  rcases page_request hU h.pmm hnpos hs with ⟨hnull, -⟩ | ⟨i, hi0, hi31, hrun, hi, hinv, -⟩
  · rw [if_pos hnull] at hok
    obtain ⟨rfl, rfl⟩ := Prod.mk.inj (Except.ok.inj hok)
    simp only [hnull, ne_eq, not_true, false_and, or_false] at hbits ⊢
    exact hbits
  · have hne : i * 4096 ≠ 0 := by omega
    have hdiv : i * 4096 / 4096 = i := by omega
    rw [hi, if_neg hne] at hok
    obtain ⟨rfl, rfl⟩ := Prod.mk.inj (Except.ok.inj hok)
    rw [hi, hdiv] at hbits
    have hmeta : metadataOf (add64 (add64 (i * 4096) metadataSize) heapStartAddr) = i * 4096 :=
      metadataOf_tagged (by omega)
    have hpages : Block.pages ⟨add64 (add64 (i * 4096) metadataSize) heapStartAddr, size⟩ =
        frameRun i n := by
      unfold Block.pages
      rw [hmeta, hdiv, ← hn]
    have hp0 : add64 (add64 (i * 4096) metadataSize) heapStartAddr ≠ 0 :=
      tagged_ne_zero (by omega)
    -- the tag goes to the first page of the block
    have htag : usedBit ((s.heap.kernel.pmmAllocz pmmFrames n).2.store16 (i * 4096) n).mem base f =
        usedBit (s.heap.kernel.pmmAllocz pmmFrames n).2.mem base f := by
      refine bits_kept hinv (fun x hx => Mem.store16_outside _ _ ?_) hf
      by_contra hcon
      have hxU : x / 4096 ∈ U := (hrun (x / 4096) ⟨by omega, by omega⟩).1
      exact hx hxU
    simp only [hpages, hp0, ne_eq, not_false_eq_true, true_and]
    simp only [hne, ne_eq, not_false_eq_true, true_and] at hbits
    rw [← hbits]
    exact Bool.coe_iff_coe.mpr htag

theorem move_malloc (hbase : 4096 ≤ base) (hU : U ⊆ W)
    (h : HeapInv (pmmHolds base U) s F caches view) (hsizes : ∀ b ∈ s.blocks, b.size < 2 ^ 64)
    (hop : HeapOp.Sound W s (.malloc size))
    (he : s.exec pmmFrames fuel (.malloc size) = some s') :
    HeapMove base U F s s' (.malloc size) := by
  obtain ⟨hsize, hpage⟩ := hop
  have hA := pmmHolds_lawful hbase h.pmm
  have hcons : ∀ p : Nat, ∀ b ∈ (⟨p, size⟩ : Block) :: s.blocks, b.size < 2 ^ 64 := by
    intro p b hb
    rcases List.mem_cons.mp hb with rfl | hb
    · exact hsize
    · exact hsizes b hb
  simp only [HeapState.exec] at he
  by_cases hbig : 512 < roundAllocSize (add64 size metadataSize)
  · have hclass := blockClass_large hbig
    obtain ⟨p, k', hok, hsame, hcase⟩ := h.malloc_page fuel hU hsize hbig (hpage hbig)
    have hkept : ∀ b ∈ s.blocks, ∀ x, b.Reserves x → k'.mem x = s.heap.kernel.mem x :=
      fun b hb x hx => hsame x (h.held_of_reserves hsizes hb hx)
    have hbits := fun f hf => h.malloc_page_bits hU hsize hbig (hpage hbig) hok (f := f) hf
    rw [hok] at he
    simp only [Option.some.injEq] at he
    subst he
    rcases hcase with ⟨hp0, hinv⟩ | ⟨hp0, hdis, hsub, -, hinv⟩
    · rw [if_pos hp0]
      refine ⟨F, caches, view, hinv, hsizes, fun b hb _ => hkept b hb,
        .same rfl (fun f hf => ?_)⟩
      have hbit := hbits f hf
      simp only [hp0, ne_eq, not_true, false_and, or_false] at hbit
      exact Bool.coe_iff_coe.mp hbit
    · rw [if_neg hp0]
      refine ⟨_, caches, view, hinv, hcons p, fun b hb _ => hkept b hb, .take ⟨p, size⟩
        hclass rfl hdis ?_⟩
      intro f hf
      have hbit := hbits f hf
      simp only [hp0, ne_eq, not_false_eq_true, true_and] at hbit
      exact hbit
  · have hle := Nat.not_lt.mp hbig
    cases hclass : blockClass size with
    | none =>
      -- the rounding wrapped to 0: no cache, and `NULL`
      have hidx : sizeToSlabCacheIndex (roundAllocSize (add64 size metadataSize)) = none := hclass
      simp only [malloc, if_pos hle, hidx, if_true, Option.some.injEq] at he
      subst he
      exact ⟨F, caches, view, h, hsizes, fun _ _ _ _ _ => rfl, .same rfl (fun _ _ => rfl)⟩
    | some i =>
      obtain ⟨c, hc, -⟩ := h.cache_exists (sizeToSlabCacheIndex_some hclass)
      obtain ⟨v, hv, -, -⟩ := h.oneSlab i c hc
      split at he
      · simp at he
      · rename_i p h' hmalloc
        simp only [Option.some.injEq] at he
        subst he
        obtain ⟨hfuel, o, tail, hfree⟩ := h.malloc_slab_ok hA rfl hle hclass hc hv hmalloc
        obtain ⟨m', q, hok, hq0, -, -, hout, hinv⟩ :=
          h.malloc_slab hA rfl hle hclass hc hv hfree hfuel
        obtain ⟨rfl, rfl⟩ := Prod.mk.inj (Except.ok.inj (hmalloc.symm.trans hok))
        have hci := (h.good.cache i c hc).inv
        have hs := hci.sizeBounds
        have hvm : v ∈ (view i).slabs := by rw [hv]; simp
        have hofree : o ∈ v.free := by rw [hfree]; simp
        have hslot := hci.slot_of_free hvm hofree
        have hout' : ∀ x, x ∉ bookkeeping c.cache (view i).frames →
            (x < o ∨ o + c.size ≤ x) → m' x = s.heap.kernel.mem x :=
          fun x hxb hxo => hout x hxb (by omega)
        rw [if_neg hq0]
        refine ⟨F, _, _, hinv, hcons p, fun d hd _ x hx => ?_, .same ?_ (fun f hf => ?_)⟩
        · refine h.kept_of_slot hsizes hc hslot hout' hd (fun j hj => ?_) hx
          obtain ⟨e, he, -, hlive, -⟩ := h.block_slot hd hj
          have hap := h.free_apart he hc hlive hvm hofree
          rw [h.space_eq he hj]
          unfold ApoptOS.Apart at hap ⊢
          omega
        · simp [pageBlocks, hclass]
        · exact h.bits_of_slot hc hslot hout' hf

theorem move_free (hbase : 4096 ≤ base) (h : HeapInv (pmmHolds base U) s F caches view)
    (hsizes : ∀ b ∈ s.blocks, b.size < 2 ^ 64) {p : Nat}
    (he : s.exec pmmFrames fuel (.free p) = some s') : HeapMove base U F s s' (.free p) := by
  have hA := pmmHolds_lawful hbase h.pmm
  obtain ⟨b, hfind, he⟩ := Option.bind_eq_some_iff.mp he
  have hb : b ∈ s.blocks := List.mem_of_find?_eq_some hfind
  have hbp : b.pointer = p := by simpa using List.find?_some hfind
  subst hbp
  have hrest : ∀ d ∈ s.blocks.erase b, d.size < 2 ^ 64 :=
    fun d hd => hsizes d (List.mem_of_mem_erase hd)
  cases hclass : blockClass b.size with
  | none =>
    have hpage := page_mem hb hclass
    obtain ⟨hok, hsame, hinv⟩ := h.free_page fuel hpage
    rw [hok] at he
    simp only [Option.some.injEq] at he
    subst he
    refine ⟨_, caches, view, hinv, hrest, fun d hd _ x hx => ?_,
      .give b hpage rfl (fun f _ => ?_)⟩
    · exact hsame x (h.pmm.held (h.held_of_reserves hsizes hd hx))
    · refine free_bits h.pmm (fun f hf => (h.pages b hpage).held ⟨hf.1, ?_⟩)
      exact lt_of_lt_of_le hf.2 (Nat.add_le_add_left (Nat.mod_le _ _) _)
  | some i =>
    obtain ⟨c, hc, hbi, hblive, hslot⟩ := h.block_slot hb hclass
    have hspace := h.space_eq hc hclass
    have hs := (h.good.cache i c hc).inv.sizeBounds
    split at he
    · simp at he
    · rename_i h' hok'
      simp only [Option.some.injEq] at he
      subst he
      have hfuel := h.free_slab_fuel hc hbi hok'
      obtain ⟨-, -, m', v, -, hok, -, hout, hinv⟩ := h.free_slab hA hc hbi hfuel
      obtain rfl := Except.ok.inj (hok'.symm.trans hok)
      have hout' : ∀ x, x ∉ bookkeeping c.cache (view i).frames →
          (x < metadataOf b.pointer ∨ metadataOf b.pointer + c.size ≤ x) →
            m' x = s.heap.kernel.mem x :=
        fun x hxb hxo => hout x hxb (by omega)
      refine ⟨F, _, _, hinv, hrest, fun d hd hgiven x hx => ?_, .same ?_ (fun f hf => ?_)⟩
      · have hne : b ≠ d := fun hbd => hgiven (by rw [← hbd]; rfl)
        refine h.kept_of_slot hsizes hc hslot hout' hd (fun j _ => ?_) hx
        rw [← hspace]
        exact h.apart_of_ne hsizes hb hd hne
      · exact pageBlocks_erase hclass
      · exact h.bits_of_slot hc hslot hout' hf

theorem move_write (hbase : 4096 ≤ base) (h : HeapInv (pmmHolds base U) s F caches view)
    (hsizes : ∀ b ∈ s.blocks, b.size < 2 ^ 64) {a : Nat} {value : BitVec 8}
    (hop : HeapOp.Sound W s (.write a value))
    (he : s.exec pmmFrames fuel (.write a value) = some s') :
    HeapMove base U F s s' (.write a value) := by
  have hA := pmmHolds_lawful hbase h.pmm
  simp only [HeapState.exec] at he
  split_ifs at he with hin
  simp only [Option.some.injEq] at he
  subst he
  obtain ⟨b, hb, hba, hab⟩ := hin
  have hwrap := hop b hb hba hab
  obtain ⟨hlow, hpoint⟩ := h.pointer_bound hb
  have hshort : b.size < 2 ^ 47 := by
    rw [hpoint] at hwrap
    unfold heapStartAddr at hwrap
    omega
  have hfit := h.space_fits hsizes hb (by omega)
  obtain ⟨off, rfl⟩ : ∃ off, a = b.pointer + off := ⟨a - b.pointer, by omega⟩
  obtain ⟨y, hy⟩ : ∃ y, y = metadataOf b.pointer + 2 + off := ⟨_, rfl⟩
  have hyb : b.Reserves y := ⟨by omega, by omega⟩
  rw [h.block_phys_of_pmm hb (by omega), ← hy]
  have hinv : HeapInv (pmmHolds base U) ⟨{ s.heap with kernel :=
      { s.heap.kernel with mem := s.heap.kernel.mem.set y value } }, s.blocks⟩ F caches view := by
    cases hclass : blockClass b.size with
    | none =>
      have hpage := h.page_of_reserves hsizes hb hclass hyb
      refine h.write_page (page_mem hb hclass) (fun x hx => Mem.set_other _ _ ?_)
      rintro rfl
      rcases hx with hx | hx
      · exact hx hpage
      · omega
    | some i =>
      obtain ⟨c, hc, hbi, -⟩ := h.block_slot hb hclass
      have hspace := h.space_eq hc hclass
      exact h.write_slab hA hc hbi (fun x hx => Mem.set_other _ _ (by omega))
  refine ⟨F, caches, view, hinv, hsizes, fun d hd hgiven x hx => Mem.set_other _ _ ?_,
    .same rfl (fun f hf => ?_)⟩
  · have hne : b ≠ d := fun hbd => hgiven (by rw [← hbd]; exact ⟨hba, hab⟩)
    rintro rfl
    exact (h.apart_of_ne hsizes hb hd hne).not_reserves hyb hx
  · refine bits_kept h.pmm (fun x hx => Mem.set_other _ _ ?_) hf
    rintro rfl
    exact hx (h.pmm.held (h.held_of_reserves hsizes hb hyb))

/-- Every step of a sound run is such a move. -/
theorem move (hbase : 4096 ≤ base) (hU : U ⊆ W) (h : HeapInv (pmmHolds base U) s F caches view)
    (hsizes : ∀ b ∈ s.blocks, b.size < 2 ^ 64) {op : HeapOp} (hop : op.Sound W s)
    (he : s.exec pmmFrames fuel op = some s') : HeapMove base U F s s' op := by
  cases op with
  | malloc size => exact h.move_malloc hbase hU hsizes hop he
  | free p => exact h.move_free hbase hsizes he
  | write a value => exact h.move_write hbase hsizes hop he

end Step

section Account

variable {F₀ : Set Nat}

theorem mono {Holds Holds' : Mem → Pmm → Set Nat → Prop} (h : HeapInv Holds s F caches view)
    (hh : ∀ m r F, Holds m r F → Holds' m r F) : HeapInv Holds' s F caches view :=
  { h with
    good :=
      { h.good with
        holds := hh _ _ _ h.good.holds
        cache := fun i c hc =>
          { h.good.cache i c hc with holds := hh _ _ _ (h.good.cache i c hc).holds } } }

/-- A block is old or the one asked for. -/
theorem exec_blocks {op : HeapOp} (he : s.exec pmmFrames fuel op = some s') {b : Block}
    (hb : b ∈ s'.blocks) : b ∈ s.blocks ∨ op = .malloc b.size := by
  cases op with
  | malloc size =>
    simp only [HeapState.exec] at he
    split at he
    · simp at he
    · simp only [Option.some.injEq] at he
      subst he
      split_ifs at hb
      · exact .inl hb
      · rcases List.mem_cons.mp hb with rfl | hb
        · exact .inr rfl
        · exact .inl hb
  | free p =>
    obtain ⟨d, -, he⟩ := Option.bind_eq_some_iff.mp he
    split at he
    · simp at he
    · simp only [Option.some.injEq] at he
      subst he
      exact .inl (List.mem_of_mem_erase hb)
  | write a value =>
    simp only [HeapState.exec] at he
    split_ifs at he
    simp only [Option.some.injEq] at he
    subst he
    exact .inl hb

/-- The managed frames that are in use: those of `F₀` and the pages of the live blocks, of which
the tags count all. -/
structure Account (base : Nat) (U F₀ : Set Nat) (s : HeapState Pmm) (F : Set Nat) : Prop where
  frames : F = F₀ ∪ {f | ∃ b ∈ pageBlocks s.blocks, f ∈ b.pages}
  apart : ∀ b ∈ pageBlocks s.blocks, Disjoint F₀ b.pages
  bits : ∀ f ∈ U, usedBit s.heap.kernel.mem base f = true ↔ f ∈ F
  short : ∀ b ∈ s.blocks, b.space / pageSize < 2 ^ 16

theorem account_move {F' : Set Nat} (h : HeapInv (pmmHolds base U) s F caches view)
    (ha : Account base U F₀ s F) (hmove : FramesMove base U F s s' F')
    (hshort : ∀ b ∈ s'.blocks, b.space / pageSize < 2 ^ 16) : Account base U F₀ s' F' := by
  cases hmove with
  | same hblocks hbits =>
    refine ⟨by rw [hblocks]; exact ha.frames, by rw [hblocks]; exact ha.apart, fun f hf => ?_,
      hshort⟩
    rw [hbits f hf]
    exact ha.bits f hf
  | take b hclass hblocks hdis hbits =>
    have hpages : pageBlocks s'.blocks = b :: pageBlocks s.blocks := by
      simp [pageBlocks, hblocks, hclass]
    refine ⟨?_, ?_, fun f hf => ?_, hshort⟩
    · ext f
      simp only [hpages, ha.frames, Set.mem_union, Set.mem_ofPred_eq, List.mem_cons,
        exists_eq_or_imp]
      generalize (∃ d ∈ pageBlocks s.blocks, f ∈ d.pages) = held
      rw [or_assoc, or_comm (a := held)]
    · intro d hd
      rw [hpages] at hd
      rcases List.mem_cons.mp hd with rfl | hd
      · refine (hdis.mono_right ?_).symm
        rw [ha.frames]
        exact Set.subset_union_left
      · exact ha.apart d hd
    · rw [hbits f hf, ha.bits f hf, Set.mem_union]
  | give b hb hblocks hbits =>
    have hmem : b ∈ s.blocks := List.mem_of_mem_filter hb
    have hmod : b.space / pageSize % 2 ^ 16 = b.space / pageSize :=
      Nat.mod_eq_of_lt (ha.short b hmem)
    have hrun : frameRun (metadataOf b.pointer / 4096) (b.space / pageSize) = b.pages := rfl
    have herase := (h.erase_page hb).2.2
    rw [hmod, hrun] at hbits ⊢
    refine ⟨?_, ?_, fun f hf => ?_, hshort⟩
    · ext f
      simp only [hblocks, ha.frames, Set.mem_sdiff, Set.mem_union, Set.mem_ofPred_eq]
      constructor
      · rintro ⟨hold | ⟨d, hd, hf⟩, hfb⟩
        · exact .inl hold
        · have hne : d ≠ b := fun hdb => hfb (hdb ▸ hf)
          obtain ⟨hdm, hdc⟩ := List.mem_filter.mp hd
          exact .inr ⟨d, List.mem_filter.mpr ⟨(List.mem_erase_of_ne hne).mpr hdm, hdc⟩, hf⟩
      · rintro (hold | ⟨d, hd, hf⟩)
        · exact ⟨.inl hold, fun hfb => Set.disjoint_left.mp (ha.apart b hb) hold hfb⟩
        · obtain ⟨hd', hdis⟩ := herase d hd
          exact ⟨.inr ⟨d, hd', hf⟩, fun hfb => Set.disjoint_left.mp hdis hfb hf⟩
    · intro d hd
      rw [hblocks] at hd
      exact ha.apart d (herase d hd).1
    · rw [hbits f hf, ha.bits f hf, Set.mem_sdiff]

/-- The account over a whole run whose requests are for less than 2^16 pages. -/
theorem account_run (hbase : 4096 ≤ base) (hU : U ⊆ W)
    (h : HeapInv (pmmHolds base U) s F caches view) (hsizes : ∀ b ∈ s.blocks, b.size < 2 ^ 64)
    (ha : Account base U F₀ s F) {ops : List HeapOp} (hs : s.SoundRun W fuel ops)
    (hshort : ∀ size, HeapOp.malloc size ∈ ops →
      roundAllocSize (add64 size metadataSize) / pageSize < 2 ^ 16)
    (hr : s.run pmmFrames fuel ops = some s') : ∃ F', Account base U F₀ s' F' := by
  induction ops generalizing s F caches view with
  | nil =>
    obtain rfl : s = s' := Option.some.inj hr
    exact ⟨F, ha⟩
  | cons op ops ih =>
    obtain ⟨s1, he, hr⟩ := Option.bind_eq_some_iff.mp hr
    obtain ⟨hop, hrest⟩ := hs
    obtain ⟨F1, caches1, view1, h1, hsizes1, -, hmove⟩ := h.move hbase hU hsizes hop he
    have hshort1 : ∀ b ∈ s1.blocks, b.space / pageSize < 2 ^ 16 := by
      intro b hb
      rcases exec_blocks he hb with hold | hnew
      · exact ha.short b hold
      · exact hshort b.size (by simp [hnew])
    exact ih h1 hsizes1 (h.account_move ha hmove hshort1) (hrest s1 he)
      (fun size hsize => hshort size (List.mem_cons_of_mem op hsize)) hr

/-- Right after `malloc_heap_init` exactly the frames handed out are in use. -/
theorem account_init {k : Kernel Pmm} {u0 : Nat} (hbase : 4096 ≤ base)
    (hk : PmmCounted k.mem k.frames base U u0 F) (hu : u0 + U.ncard < 2 ^ 64) {h : Heap Pmm}
    (hinit : mallocHeapInit pmmFrames k = .ok h) :
    ∃ (F₀ : Set Nat) (caches : List SlabCache) (view : Nat → CacheView),
      HeapInv (pmmHolds base U) ⟨h, []⟩ F₀ caches view ∧
      Account base U F₀ ⟨h, []⟩ F₀ := by
  have htop := hk.inv.topLe
  have hsize := hk.inv.sizeLe
  have hA := pmmFrames_lawful_counted base u0 U hbase (fun f hf => by
    have hmanaged := hk.inv.managed f hf
    exact ⟨hmanaged.1, by omega⟩) hu
  obtain ⟨fs, caches, view, -, hinv, -, -⟩ := mallocHeapInit_spec hA hk hinit
  have hcount : PmmCounted h.kernel.mem h.kernel.frames base U u0 _ := hinv.good.holds
  refine ⟨_, caches, view, hinv.mono (fun m pmm F hF => hF.inv),
    ⟨?_, ?_, fun f hf => ?_, ?_⟩⟩
  · simp [pageBlocks]
  · simp [pageBlocks]
  · constructor
    · intro hbit
      by_contra hfree
      rw [hcount.free f hf hfree] at hbit
      simp at hbit
    · intro hheld
      have hmanaged := (hcount.inv.managed f hf).2.1
      have htop' := hcount.inv.topLe
      by_contra hclear
      exact (hcount.inv.clear f (by omega) (by simpa using hclear)).2 hheld
  · simp

end Account

end HeapInv

theorem ncard_managed {m : Mem} {pmm : Pmm} {base : Nat} {U F : Set Nat}
    (h : PmmInv m pmm base U F) : U.ncard ≤ 2 ^ 31 := by
  have hsub : U ⊆ Set.Iio (2 ^ 31) := by
    intro f hf
    have hmanaged := (h.managed f hf).2.1
    have htop := h.topLe
    have hsize := h.sizeLe
    exact Set.mem_Iio.mpr (by omega)
  have hIio : (Set.Iio (2 ^ 31)).ncard = 2 ^ 31 := by
    rw [Set.ncard_eq_toFinset_card', Set.toFinset_Iio, Nat.card_Iio]
  exact hIio ▸ Set.ncard_le_ncard hsub (Set.finite_Iio _)

/-- A block of a cache, then one of whole pages, on the fresh heap of `heapMap`. -/
theorem heapMap_both : ∃ h p q s,
    mallocHeapInit pmmFrames (bootKernel heapMap) = .ok h ∧
    HeapState.SoundRun heapFrames 1 ⟨h, []⟩ [.malloc 510, .malloc 1000] ∧
    HeapState.run pmmFrames 1 ⟨h, []⟩ [.malloc 510, .malloc 1000] = some s ∧
    s.blocks = [⟨q, 1000⟩, ⟨p, 510⟩] := by
  obtain ⟨hA, hboot⟩ := heapMap_boot
  obtain ⟨h, fs, _, _, hinit, hlen, hinv⟩ := heapMap_init
  have hclass : blockClass 510 = some 5 := by decide +kernel
  have hcap : 4056 / roundAllocSize (add64 510 metadataSize) - 1 = 6 := by decide +kernel
  have hsmall : ¬ 512 < roundAllocSize (add64 510 metadataSize) := by decide +kernel
  have hbig : 512 < roundAllocSize (add64 1000 metadataSize) := by decide +kernel
  have hone : roundAllocSize (add64 1000 metadataSize) / pageSize = 1 := by decide +kernel
  obtain ⟨h1, p, _, _, _, _, hs1, hinv1⟩ := hinv.exec_malloc hA hclass
    (by rw [hcap]; simp [slabBlocks]) (le_refl 1)
  have hcount : PmmCounted h1.kernel.mem h1.kernel.frames 0x1000 heapFrames 33761 {f | f ∈ fs} :=
    hinv1.good.holds
  -- twelve frames cannot be all of these thirteen
  obtain ⟨f, hf, hfree⟩ : ∃ f ∈ List.range' 2 13, f ∉ fs := by
    by_contra hcon
    push Not at hcon
    have hle := ((List.nodup_range' (s := 2) (n := 13)).subperm hcon).length_le
    rw [List.length_range', hlen] at hle
    omega
  have hf' := List.mem_range'_1.mp hf
  have hfU : f ∈ heapFrames := mem_heapFrames hf'.1 (by omega)
  have hlt := (hcount.inv.managed f hfU).2.1
  have htop := hcount.inv.topLe
  have hprobe : ProbesFree h1.kernel.mem h1.kernel.frames 1 f := by
    intro j hj
    obtain rfl : j = 0 := by omega
    have hzero : f + pageToBit 0 = f := rfl
    rw [hzero, bitmapCheckBit_eq hcount.inv.stored (by omega)]
    exact hcount.free f hfU hfree
  have hpage : PageRequestSound heapFrames h1.kernel.mem h1.kernel.frames 1 := by
    refine ⟨servedInFull_one _ _, .inl ⟨?_, f, hlt, hprobe⟩⟩
    have hused := hcount.used
    omega
  obtain ⟨q, h2, hok, hq0⟩ :=
    malloc_pages_served (s := ⟨h1, [⟨p, 510⟩]⟩) (i := f) hcount
    (by decide) 1 hbig (by decide) (fun g hg => by
      rw [hone, frameRun_one, Set.mem_singleton_iff] at hg
      exact hg ▸ ⟨hfU, hfree⟩)
  have hs2 : HeapState.exec pmmFrames 1 ⟨h1, [⟨p, 510⟩]⟩ (.malloc 1000) =
      some ⟨h2, [⟨q, 1000⟩, ⟨p, 510⟩]⟩ := by
    simp only [HeapState.exec, hok, if_neg hq0]
  refine ⟨h, p, q, ⟨h2, _⟩, hinit,
    ⟨⟨by decide, fun hlarge => absurd hlarge hsmall⟩, ?_⟩, ?_, rfl⟩
  · intro s' he
    obtain rfl := Option.some.inj (hs1.symm.trans he)
    refine ⟨⟨by decide, fun _ => ?_⟩, fun _ _ => trivial⟩
    rw [hone]
    exact hpage
  · simp only [HeapState.run, hs1, hs2, Option.bind_some]

/-- In every state a sound run reaches whose requests are for less than 2^16 pages, the managed
frames in use are those that were in use after `malloc_heap_init` and the pages of the live
blocks: `malloc` and `free` leak no frame and free none that is not theirs. -/
theorem malloc_frames_accounted (base u0 : Nat) (U F : Set Nat) (k : Kernel Pmm)
    (hk : PmmCounted k.mem k.frames base U u0 F) (hbase : 4096 ≤ base)
    (hu : u0 + U.ncard < 2 ^ 64) (h : Heap Pmm) (hinit : mallocHeapInit pmmFrames k = .ok h)
    (fuel : Nat) (ops : List HeapOp) (s : HeapState Pmm)
    (hsound : HeapState.SoundRun U fuel ⟨h, []⟩ ops)
    (hshort : ∀ size, HeapOp.malloc size ∈ ops →
      roundAllocSize (add64 size metadataSize) / pageSize < 2 ^ 16)
    (hrun : HeapState.run pmmFrames fuel ⟨h, []⟩ ops = some s) :
    ∀ f ∈ U, usedBit s.heap.kernel.mem base f = true ↔
      usedBit h.kernel.mem base f = true ∨ ∃ b ∈ pageBlocks s.blocks, f ∈ b.pages := by
  obtain ⟨F₀, caches, view, hinv, hstart⟩ := HeapInv.account_init hbase hk hu hinit
  obtain ⟨F', hend⟩ :=
    hinv.account_run hbase (Set.Subset.refl U) (by simp) hstart hsound hshort hrun
  intro f hf
  have hold : usedBit h.kernel.mem base f = true ↔ f ∈ F₀ := hstart.bits f hf
  rw [hend.bits f hf, hold, hend.frames]
  simp

theorem malloc_frames_accounted_heapMap : ∃ h q s,
    mallocHeapInit pmmFrames (bootKernel heapMap) = .ok h ∧
    HeapState.run pmmFrames 1 ⟨h, []⟩ [.malloc 510, .malloc 1000] = some s ∧
    ∀ f ∈ heapFrames, usedBit s.heap.kernel.mem 0x1000 f = true ↔
      usedBit h.kernel.mem 0x1000 f = true ∨ f ∈ Block.pages ⟨q, 1000⟩ := by
  obtain ⟨h, p, q, s, hinit, hsound, hrun, hblocks⟩ := heapMap_both
  have hclass : blockClass 510 = some 5 ∧ blockClass 1000 = none := by decide +kernel
  have hpages : pageBlocks s.blocks = [⟨q, 1000⟩] := by simp [pageBlocks, hblocks, hclass]
  have hshort : roundAllocSize (add64 510 metadataSize) / pageSize < 2 ^ 16 ∧
      roundAllocSize (add64 1000 metadataSize) / pageSize < 2 ^ 16 := by decide +kernel
  have hall := malloc_frames_accounted 0x1000 33761 heapFrames ∅ _ heapMap_boot.2 (by decide)
    ?_ h hinit 1 _ s hsound ?_ hrun
  · simp only [hpages, List.mem_singleton, exists_eq_left] at hall
    exact ⟨h, q, s, hinit, hrun, hall⟩
  · have hle := ncard_managed heapMap_boot.2.inv
    omega
  · intro size hsize
    simp only [List.mem_cons, HeapOp.malloc.injEq, List.not_mem_nil, or_false] at hsize
    rcases hsize with rfl | rfl
    · exact hshort.1
    · exact hshort.2

end ApoptOS
