import ApoptOS.Libk.MallocSafety
import ApoptOS.Libk.MallocSizes

namespace ApoptOS

open Framework

/-- The bytes reserved for a block: its slot, or its run of pages. -/
def Block.space (b : Block) : Nat := roundAllocSize (add64 b.size metadataSize)

/-- A request for `n` pages meets no defect of the allocator: the run it is
about to be given is free as a whole, or it will be refused and zeroing `n`
pages from address 0 reaches neither the bitmap nor a frame of `W` in use. -/
def PageRequestSound (W : Set Nat) (m : Mem) (pmm : Pmm) (n : Nat) : Prop :=
  ServedInFull m pmm n ∧
    ((0 < pmm.usedPagesCount ∧ ∃ i < pageToBit pmm.highestPageTop, ProbesFree m pmm n i) ∨
      4096 * n ≤ physOf pmm.bitmap.map ∧
        ∀ f < n, f ∈ W → bitmapCheckBit m pmm.bitmap (toInt f) = 0#8)

/-- Only requests for whole pages can go wrong in the frame allocator; a write
must stay inside a block that does not wrap around the address space. -/
def HeapOp.Sound (W : Set Nat) (s : HeapState Pmm) : HeapOp → Prop
  | .malloc size => size < 2 ^ 64 ∧ (512 < roundAllocSize (add64 size metadataSize) →
      PageRequestSound W s.heap.kernel.mem s.heap.kernel.frames
        (roundAllocSize (add64 size metadataSize) / pageSize))
  | .free _ => True
  | .write a _ => ∀ b ∈ s.blocks, b.pointer ≤ a → a < b.pointer + b.size →
      b.pointer + b.size ≤ 2 ^ 64

/-- Every step of the run is sound in the state it is made in. -/
def HeapState.SoundRun (W : Set Nat) (fuel : Nat) (s : HeapState Pmm) : List HeapOp → Prop
  | [] => True
  | op :: ops => op.Sound W s ∧
    ∀ s', s.exec pmmFrames fuel op = some s' → s'.SoundRun W fuel ops

section Rounding

theorem blockClass_large {size : Nat} (h : 512 < roundAllocSize (add64 size metadataSize)) :
    blockClass size = none := by
  unfold blockClass sizeToSlabCacheIndex
  split
  all_goals first | omega | rfl

/-- A request that a cache serves is small, unless adding the metadata wraps. -/
theorem small_of_class {size i : Nat} (hsize : size < 2 ^ 64 - 2)
    (hclass : blockClass size = some i) : size ≤ 510 := by
  have hadd : add64 size metadataSize = size + 2 := add64_of_lt (by unfold metadataSize; omega)
  have hn := (heapSlabSizes_bound (sizeToSlabCacheIndex_some hclass)).2
  have hlt := add64_lt size metadataSize
  rw [hadd] at hn hlt
  rcases roundAllocSize_cases hlt with h | h | h
  all_goals omega

/-- A request that no cache serves is for whole pages, unless the rounding wraps. -/
theorem large_of_class {size : Nat} (hsize : size < 2 ^ 63) (hclass : blockClass size = none) :
    512 < roundAllocSize (add64 size metadataSize) := by
  have hadd : add64 size metadataSize = size + 2 := add64_of_lt (by unfold metadataSize; omega)
  rw [blockClass] at hclass
  rcases roundAllocSize_cases (add64_lt size metadataSize) with ⟨-, -, -, hsome⟩ | hc | hc
  · rw [hclass] at hsome
    simp at hsome
  · omega
  · omega

end Rounding

variable {ρ : Type} {Holds : Mem → ρ → Set Nat → Prop}

/-- A change outside the frames of the caches: the blocks of whole pages and the
frames handed out may change, the caches and their blocks are inherited. -/
theorem HeapInv.pages_update {s : HeapState ρ} {F F' : Set Nat} {caches : List SlabCache}
    {view : Nat → CacheView} (h : HeapInv Holds s F caches view) {k' : Kernel ρ}
    {blocks' : List Block} (hholds : Holds k'.mem k'.frames F')
    (hown : ∀ (i : Nat) (c : SlabCache), caches[i]? = some c →
      ownFrames c.cache (view i).frames ⊆ F' ∧
        Mem.SameOn (frameBytes (ownFrames c.cache (view i).frames)) s.heap.kernel.mem k'.mem)
    (hcalls : s.heap.kernel.calls <:+ k'.calls)
    (hslab : ∀ i, slabBlocks i blocks' = slabBlocks i s.blocks)
    (hpages : ∀ b ∈ pageBlocks blocks', PageBlock k'.mem F' b)
    (hapart : (pageBlocks blocks').Pairwise (fun b d => Disjoint b.pages d.pages))
    (hcaches : ∀ (i : Nat) (c : SlabCache), caches[i]? = some c → ∀ b ∈ pageBlocks blocks',
      Disjoint (ownFrames c.cache (view i).frames) b.pages) :
    HeapInv Holds ⟨{ s.heap with kernel := k' }, blocks'⟩ F' caches view := by
  refine { h with
    good := ⟨hholds, fun i c hc => ?_, h.good.apart⟩
    tags := fun i c hc b hb => ?_
    owners := fun i c hc => by rw [hslab i]; exact h.owners i c hc
    pointers := fun i b hb => h.pointers i b (by rw [← hslab i]; exact hb)
    pages := hpages
    pagesApart := hapart
    cachesApart := hcaches }
  · have hci := h.good.cache i c hc
    obtain ⟨hsub, hsame⟩ := hown i c hc
    refine ⟨hholds, hsub (Set.mem_insert _ _), fun f hf => hsub (Set.mem_insert_of_mem _ hf),
      fun f hf => hcalls.subset (hci.obtained f hf), ?_⟩
    exact hci.inv.of_sameOn (Set.mem_insert _ _) (Set.subset_insert _ _) hsame
  · rw [← h.tags i c hc b hb]
    exact Mem.load16_congr (fun x h1 h2 => (hown i c hc).2 x (h.tag_frame hc hb h1 h2))

/-- The bitmap allocator as the source of the heap's frames. -/
def pmmHolds (base : Nat) (U : Set Nat) (m : Mem) (pmm : Pmm) (F : Set Nat) : Prop :=
  PmmInv m pmm base U F

theorem pmmHolds_lawful {m : Mem} {pmm : Pmm} {base : Nat} {U F : Set Nat} (hbase : 4096 ≤ base)
    (h : PmmInv m pmm base U F) : pmmFrames.Lawful U (pmmHolds base U) := by
  refine pmmFrames_lawful base U hbase (fun f hf => ?_)
  have hf' := h.managed f hf
  have htop := h.topLe
  have hsize := h.sizeLe
  exact ⟨hf'.1, by omega⟩

/-- A block of whole pages has a first page, so its size did not wrap to 0. -/
theorem PageBlock.large {m : Mem} {F : Set Nat} {b : Block} (h : PageBlock m F b) :
    512 < b.space := by
  have hfirst := h.first.2
  have hpos : 0 < b.space / pageSize := by
    show 0 < roundAllocSize (add64 b.size metadataSize) / pageSize
    omega
  unfold pageSize at hpos
  omega

namespace HeapInv

variable {base : Nat} {U F W : Set Nat} {s s' : HeapState Pmm} {caches : List SlabCache}
  {view : Nat → CacheView} {fuel size : Nat}

theorem pmm (h : HeapInv (pmmHolds base U) s F caches view) :
    PmmInv s.heap.kernel.mem s.heap.kernel.frames base U F := h.good.holds

/-- What the frame allocator does with a sound request for at least a page. -/
theorem page_request {m : Mem} {pmm : Pmm} {n : Nat} (hU : U ⊆ W)
    (h : PmmInv m pmm base U F) (hn : 0 < n) (hs : PageRequestSound W m pmm n) :
    ((pmmAllocz n m pmm).1 = 0 ∧
      PmmInv (pmmAllocz n m pmm).2.1 (pmmAllocz n m pmm).2.2 base U F ∧
      Mem.SameOn (frameBytes F) m (pmmAllocz n m pmm).2.1) ∨
    ∃ i, i ≠ 0 ∧ i < 2 ^ 31 ∧ (∀ f ∈ frameRun i n, f ∈ U ∧ f ∉ F) ∧
      (pmmAllocz n m pmm).1 = i * 4096 ∧
      PmmInv (pmmAllocz n m pmm).2.1 (pmmAllocz n m pmm).2.2 base U (F ∪ frameRun i n) ∧
      Mem.SameOn (frameBytes F) m (pmmAllocz n m pmm).2.1 ∧
      ∀ a, a / 4096 ∈ frameRun i n → (pmmAllocz n m pmm).2.1 a = 0#8 := by
  obtain ⟨hfull, hrefuse⟩ := hs
  have hw := h.stored.window
  have hphys : physOf pmm.bitmap.map = base := by
    rw [h.stored.map]
    exact physOf_higherHalfData (by omega)
  have htop := h.topLe
  have hsize := h.sizeLe
  -- a refused request is one of the second kind
  have hkind : (pmmAlloc n m pmm).1 = 0 → 4096 * n ≤ base ∧ ∀ f ∈ F, n ≤ f := by
    intro hnull
    rcases hrefuse with ⟨hused, i, hi, hprobe⟩ | ⟨hle, hclear⟩
    · exfalso
      rcases h.alloc hn hfull with ⟨_, hzero | hno⟩ | ⟨k, _, hk0, _, _, hptr, _⟩
      · omega
      · exact hno i hi hprobe
      · rw [hptr] at hnull
        omega
    · rw [hphys] at hle
      refine ⟨hle, fun f hf => ?_⟩
      by_contra hcon
      have hlt := (h.managed f (h.held hf)).2.1
      have hbit := hclear f (by omega) (hU (h.held hf))
      rw [bitmapCheckBit_eq h.stored (by omega)] at hbit
      exact (h.clear f (by omega) hbit).2 hf
  rcases h.allocz hn hfull (fun hnull => (hkind hnull).1) with
    ⟨hnull, hinv, hsame⟩ | ⟨i, hi, hi0, _, hrun, hptr, hinv, hsame, hzero⟩
  · exact Or.inl ⟨hnull, hinv, hsame (hkind hnull).2⟩
  · have hlt := hi.1
    exact Or.inr ⟨i, hi0, by omega, hrun, hptr, hinv, hsame, hzero⟩

theorem own_subset (h : HeapInv (pmmHolds base U) s F caches view) {i : Nat} {c : SlabCache}
    (hc : caches[i]? = some c) : ownFrames c.cache (view i).frames ⊆ F :=
  (h.good.cache i c hc).own_held

/-- Frames of page blocks and caches keep their contents, so the page blocks
stay what they are. -/
theorem pageBlock_kept {m' : Mem} {F' : Set Nat} {b : Block}
    (hb : PageBlock s.heap.kernel.mem F b)
    (hsame : ∀ x, x / 4096 = metadataOf b.pointer / 4096 →
      x < metadataOf b.pointer + 2 → m' x = s.heap.kernel.mem x) (hheld : b.pages ⊆ F') :
    PageBlock m' F' b := by
  refine { hb with held := hheld, tag := ?_ }
  rw [← hb.tag]
  have hal := hb.aligned
  exact Mem.load16_congr (fun x h1 h2 => hsame x (by omega) h2)

/-- `malloc` of whole pages. -/
theorem malloc_page (fuel : Nat) (h : HeapInv (pmmHolds base U) s F caches view) (hU : U ⊆ W)
    (hsize : size < 2 ^ 64) (hbig : 512 < roundAllocSize (add64 size metadataSize))
    (hs : PageRequestSound W s.heap.kernel.mem s.heap.kernel.frames
      (roundAllocSize (add64 size metadataSize) / pageSize)) :
    ∃ p k', malloc pmmFrames fuel s.heap size = .ok (p, { s.heap with kernel := k' }) ∧
      Mem.SameOn (frameBytes F) s.heap.kernel.mem k'.mem ∧
      ((p = 0 ∧ HeapInv (pmmHolds base U) ⟨{ s.heap with kernel := k' }, s.blocks⟩ F caches
        view) ∨
      (p ≠ 0 ∧ Disjoint (Block.pages ⟨p, size⟩) F ∧ Block.pages ⟨p, size⟩ ⊆ U ∧
        (∀ x, x / 4096 ∈ Block.pages ⟨p, size⟩ → metadataOf p + 2 ≤ x →
          k'.mem x = 0#8) ∧
        HeapInv (pmmHolds base U) ⟨{ s.heap with kernel := k' }, ⟨p, size⟩ :: s.blocks⟩
          (F ∪ Block.pages ⟨p, size⟩) caches view)) := by
  obtain ⟨hmod, hfit, _⟩ := round_pages hsize hbig
  have hclass := blockClass_large hbig
  obtain ⟨n, hn⟩ : ∃ n, n = roundAllocSize (add64 size metadataSize) / pageSize :=
    ⟨_, rfl⟩
  have hnpos : 0 < n := by
    rw [hn]
    unfold pageSize
    omega
  have hpmm := h.pmm
  rw [← hn] at hs
  rcases page_request hU hpmm hnpos hs with
    ⟨hnull, hinv, hsame⟩ | ⟨i, hi0, hi31, hrun, hptr, hinv, hsame, hzero⟩
  · refine ⟨0, (s.heap.kernel.pmmAllocz pmmFrames n).2, ?_, hsame, Or.inl ⟨rfl, ?_⟩⟩
    · have hnull' : (s.heap.kernel.pmmAllocz pmmFrames n).1 = 0 := hnull
      simp only [malloc, if_neg (Nat.not_le.mpr hbig), ← hn, hnull', if_true]
    · refine h.pages_update hinv (fun i c hc => ⟨h.own_subset hc, ?_⟩) (List.suffix_cons _ _)
        (fun _ => rfl) (fun b hb => ?_) h.pagesApart h.cachesApart
      · exact hsame.mono (fun x hx => h.own_subset hc hx)
      · have hp := h.pages b hb
        exact pageBlock_kept hp
          (fun x hx _ => hsame x (mem_frameBytes.mpr (hx ▸ hp.held hp.first)))
          hp.held
  · obtain ⟨k1, hk1⟩ : ∃ k1, k1 = (s.heap.kernel.pmmAllocz pmmFrames n).2 := ⟨_, rfl⟩
    obtain ⟨p, hp⟩ : ∃ p, p = add64 (add64 (i * 4096) metadataSize) heapStartAddr :=
      ⟨_, rfl⟩
    have hmeta : metadataOf p = i * 4096 := hp ▸ metadataOf_tagged (by omega)
    have hp0 : p ≠ 0 := hp ▸ tagged_ne_zero (by omega)
    have hpages : Block.pages ⟨p, size⟩ = frameRun i n := by
      unfold Block.pages
      rw [← hn, hmeta]
      congr 1
      omega
    have hcons : pageBlocks (⟨p, size⟩ :: s.blocks) = ⟨p, size⟩ :: pageBlocks s.blocks := by
      simp [pageBlocks, hclass]
    have hifirst : i ∈ frameRun i n := ⟨le_refl i, by omega⟩
    have hiF : i ∉ F := (hrun i hifirst).2
    -- the tag goes to the first two bytes of the new run
    have htag : ∀ x, x / 4096 ≠ i → (k1.store16 (i * 4096) n).mem x = k1.mem x :=
      fun x hx => Mem.store16_outside _ _ (by omega)
    have hsame' : Mem.SameOn (frameBytes F) s.heap.kernel.mem (k1.store16 (i * 4096) n).mem := by
      intro x hx
      rw [htag x (fun hxi => hiF (hxi ▸ hx)), hk1]
      exact hsame x hx
    have hdis : Disjoint (frameRun i n) F :=
      Set.disjoint_left.mpr (fun f hf hfF => (hrun f hf).2 hfF)
    refine ⟨p, k1.store16 (i * 4096) n, ?_, hsame', Or.inr ⟨hp0, ?_, ?_, ?_, ?_⟩⟩
    · have hptr' : (s.heap.kernel.pmmAllocz pmmFrames n).1 = i * 4096 := hptr
      have hne : ¬ i * 4096 = 0 := by omega
      simp only [malloc, if_neg (Nat.not_le.mpr hbig), ← hn, hptr', hne, if_false, Heap.tagged,
        ← hk1, ← hp]
    · rw [hpages]
      exact hdis
    · rw [hpages]
      exact fun f hf => (hrun f hf).1
    · intro x hx hxm
      rw [hpages] at hx
      rw [hmeta] at hxm
      show (k1.mem.store16 (i * 4096) n) x = 0#8
      rw [Mem.store16_outside _ _ (by omega), hk1]
      exact hzero x hx
    · rw [hpages]
      refine h.pages_update ?_ (fun j c hc => ?_) ?_ ?_ ?_ ?_ ?_
      · refine PmmInv.client_writes (m := k1.mem) (by rw [hk1]; exact hinv) (fun x hx => htag x ?_)
        exact fun hxi => hx (mem_frameBytes.mpr (hxi ▸ (hrun i hifirst).1))
      · exact ⟨(h.own_subset hc).trans Set.subset_union_left,
          hsame'.mono (fun x hx => h.own_subset hc hx)⟩
      · rw [hk1]
        exact List.suffix_cons _ _
      · intro j
        simp [slabBlocks, hclass]
      · intro b hb
        rw [hcons] at hb
        rcases List.mem_cons.mp hb with rfl | hb
        · refine ⟨by rw [hmeta]; omega, by rw [hmeta]; omega, by rw [hmeta]; exact hp, ?_,
            ?_, ?_⟩
          · rw [hpages, hmeta, Nat.mul_div_cancel _ (by decide)]
            exact hifirst
          · rw [hpages]
            exact Set.subset_union_right
          · show (k1.mem.store16 (i * 4096) n).load16 (metadataOf p) = _
            rw [hmeta, Mem.load16_store16_same, ← hn]
        · have hbp := h.pages b hb
          exact pageBlock_kept hbp
            (fun x hx _ => hsame' x (mem_frameBytes.mpr (hx ▸ hbp.held hbp.first)))
            (hbp.held.trans Set.subset_union_left)
      · rw [hcons]
        refine List.pairwise_cons.mpr ⟨fun b hb => ?_, h.pagesApart⟩
        rw [hpages]
        exact hdis.mono_right (h.pages b hb).held
      · intro j c hc b hb
        rw [hcons] at hb
        rcases List.mem_cons.mp hb with rfl | hb
        · rw [hpages]
          exact (hdis.mono_right (h.own_subset hc)).symm
        · exact h.cachesApart j c hc b hb

/-- The other blocks, when one of whole pages goes. -/
theorem erase_page (h : HeapInv (pmmHolds base U) s F caches view) {b : Block}
    (hb : b ∈ pageBlocks s.blocks) :
    (∀ i, slabBlocks i (s.blocks.erase b) = slabBlocks i s.blocks) ∧
      (pageBlocks (s.blocks.erase b)).Pairwise (fun d e => Disjoint d.pages e.pages) ∧
      ∀ d ∈ pageBlocks (s.blocks.erase b), d ∈ pageBlocks s.blocks ∧
        Disjoint b.pages d.pages := by
  have hmem : b ∈ s.blocks := List.mem_of_mem_filter hb
  have hnone : blockClass b.size = none := by simpa using (List.mem_filter.mp hb).2
  have hperm : (pageBlocks s.blocks).Perm (b :: pageBlocks (s.blocks.erase b)) := by
    have hfilter := (List.perm_cons_erase hmem).filter (fun b => blockClass b.size = none)
    rwa [List.filter_cons_of_pos (by simpa using hnone)] at hfilter
  have hpair := (hperm.pairwise_iff (fun hd => hd.symm)).mp h.pagesApart
  obtain ⟨hhead, htail⟩ := List.pairwise_cons.mp hpair
  refine ⟨fun i => ?_, htail, fun d hd => ⟨?_, hhead d hd⟩⟩
  · rw [slabBlocks, ← List.erase_filter]
    refine List.erase_of_not_mem (fun hi => ?_)
    have hclass : blockClass b.size = some i := by simpa using (List.mem_filter.mp hi).2
    rw [hnone] at hclass
    simp at hclass
  · exact hperm.mem_iff.mpr (List.mem_cons_of_mem _ hd)

/-- `free` of whole pages gives back the number of them modulo 2^16. -/
theorem free_page (fuel : Nat) (h : HeapInv (pmmHolds base U) s F caches view) {b : Block}
    (hb : b ∈ pageBlocks s.blocks) :
    free pmmFrames fuel s.heap b.pointer = .ok { s.heap with kernel :=
        (s.heap.kernel.pmmFree pmmFrames (metadataOf b.pointer) (b.space / pageSize % 2 ^ 16)) } ∧
      Mem.SameOn (frameBytes U) s.heap.kernel.mem (s.heap.kernel.pmmFree pmmFrames
        (metadataOf b.pointer) (b.space / pageSize % 2 ^ 16)).mem ∧
      HeapInv (pmmHolds base U) ⟨{ s.heap with kernel := (s.heap.kernel.pmmFree pmmFrames
          (metadataOf b.pointer) (b.space / pageSize % 2 ^ 16)) }, s.blocks.erase b⟩
        (F \ frameRun (metadataOf b.pointer / 4096) (b.space / pageSize % 2 ^ 16)) caches view := by
  have hp := h.pages b hb
  obtain ⟨n, hn⟩ : ∃ n, n = b.space / pageSize % 2 ^ 16 := ⟨_, rfl⟩
  have htag : s.heap.kernel.mem.load16 (metadataOf b.pointer) = n := by
    rw [hn]
    exact hp.tag
  have hp0 : b.pointer ≠ 0 := by
    rw [hp.pointer]
    exact tagged_ne_zero (by rw [hp.aligned]; decide)
  have hsub : frameRun (metadataOf b.pointer / 4096) n ⊆ b.pages := by
    intro f hf
    have hle : n ≤ b.space / pageSize := hn ▸ Nat.mod_le _ _
    exact ⟨hf.1, lt_of_lt_of_le hf.2 (Nat.add_le_add_left hle _)⟩
  obtain ⟨hinv, hsame⟩ := h.pmm.free (hsub.trans hp.held)
  have hheld := h.pmm.held
  rw [← hn]
  refine ⟨?_, hsame, ?_⟩
  · simp only [free, hp0, if_false, hp.aligned, ne_eq, not_true, htag]
  · obtain ⟨hslab, hapart, hother⟩ := h.erase_page hb
    refine h.pages_update hinv (fun i c hc => ⟨fun f hf => ?_, ?_⟩) (List.suffix_cons _ _) hslab
      (fun d hd => ?_) hapart (fun i c hc d hd => h.cachesApart i c hc d (hother d hd).1)
    · exact ⟨h.own_subset hc hf,
        fun hfn => Set.disjoint_left.mp (h.cachesApart i c hc b hb) hf (hsub hfn)⟩
    · exact hsame.mono (fun x hx => hheld (h.own_subset hc hx))
    · obtain ⟨hd, hdis⟩ := hother d hd
      have hdp := h.pages d hd
      refine pageBlock_kept hdp (fun x hx _ => ?_) (fun f hf => ?_)
      · exact hsame x (mem_frameBytes.mpr (hx ▸ hheld (hdp.held hdp.first)))
      · exact ⟨hdp.held hf, fun hfn => Set.disjoint_left.mp hdis (hsub hfn) hf⟩

theorem space_pages {b : Block} (hsize : b.size < 2 ^ 64) (hbig : 512 < b.space) {x : Nat}
    (hal : metadataOf b.pointer % 4096 = 0) (h1 : metadataOf b.pointer ≤ x)
    (h2 : x < metadataOf b.pointer + b.space) : x / 4096 ∈ b.pages := by
  obtain ⟨hmod, _⟩ := round_pages hsize hbig
  have hmod' : b.space % 4096 = 0 := hmod
  show metadataOf b.pointer / 4096 ≤ x / 4096 ∧
    x / 4096 < metadataOf b.pointer / 4096 + b.space / pageSize
  unfold pageSize
  omega

/-- Whatever a client writes behind the tag of a block of whole pages. -/
theorem write_page (h : HeapInv (pmmHolds base U) s F caches view) {b : Block}
    (hb : b ∈ pageBlocks s.blocks) {m' : Mem}
    (hm : ∀ x, (x / 4096 ∉ b.pages ∨ x < metadataOf b.pointer + 2) →
      m' x = s.heap.kernel.mem x) :
    HeapInv (pmmHolds base U) ⟨{ s.heap with kernel := { s.heap.kernel with mem := m' } },
      s.blocks⟩ F caches view := by
  have hp := h.pages b hb
  have hheld := h.pmm.held
  refine h.pages_update ?_ (fun i c hc => ⟨h.own_subset hc, fun x hx => hm x (Or.inl ?_)⟩)
    (List.suffix_rfl) (fun _ => rfl) (fun d hd => ?_) h.pagesApart h.cachesApart
  · refine PmmInv.client_writes h.pmm (fun x hx => hm x (Or.inl ?_))
    exact fun hxb => hx (mem_frameBytes.mpr (hheld (hp.held hxb)))
  · exact fun hxb => Set.disjoint_left.mp (h.cachesApart i c hc b hb) hx hxb
  · have hdp := h.pages d hd
    refine pageBlock_kept hdp (fun x hx hlt => hm x ?_) hdp.held
    by_cases hdb : metadataOf d.pointer = metadataOf b.pointer
    · exact Or.inr (hdb ▸ hlt)
    · refine Or.inl (fun hxb => ?_)
      have hne : d ≠ b := fun he => hdb (by rw [he])
      obtain ⟨hdmem, hdclass⟩ := List.mem_filter.mp hd
      have hrest : d ∈ pageBlocks (s.blocks.erase b) :=
        List.mem_filter.mpr ⟨(List.mem_erase_of_ne hne).mpr hdmem, hdclass⟩
      exact Set.disjoint_left.mp ((h.erase_page hb).2.2 d hrest).2 hxb (hx ▸ hdp.first)

theorem frame_lt (h : HeapInv (pmmHolds base U) s F caches view) {f : Nat} (hf : f ∈ F) :
    f < 2 ^ 31 := by
  have hmanaged := (h.pmm.managed f (h.pmm.held hf)).2.1
  have htop := h.pmm.topLe
  have hsize := h.pmm.sizeLe
  omega

/-- Where the blocks are: below 2^43, and never wrapping into the heap window. -/
theorem pointer_bound (h : HeapInv (pmmHolds base U) s F caches view) {b : Block}
    (hb : b ∈ s.blocks) : metadataOf b.pointer < 2 ^ 43 ∧
      b.pointer = metadataOf b.pointer + 2 + heapStartAddr := by
  have hboth : metadataOf b.pointer < 2 ^ 43 ∧
      b.pointer = add64 (add64 (metadataOf b.pointer) metadataSize) heapStartAddr := by
    rcases hclass : blockClass b.size with _ | i
    · have hp := h.pages b (List.mem_filter.mpr ⟨hb, by simpa using hclass⟩)
      have hlt := h.frame_lt (hp.held hp.first)
      exact ⟨by omega, hp.pointer⟩
    · obtain ⟨c, hc, hbi, _, hslot⟩ := h.block_slot hb hclass
      have hs := (h.good.cache i c hc).inv.sizeBounds
      have hin := hslot.inside (le_refl _) (by omega)
      have hlt := h.frame_lt ((h.good.cache i c hc).framesHeld hin.1)
      exact ⟨by omega, h.pointers i b hbi⟩
  refine ⟨hboth.1, hboth.2.trans ?_⟩
  have hlt := hboth.1
  unfold add64 metadataSize heapStartAddr
  omega

theorem block_phys_of_pmm (h : HeapInv (pmmHolds base U) s F caches view) {b : Block}
    (hb : b ∈ s.blocks) {off : Nat} (hoff : off < 2 ^ 62) :
    heapPhys (b.pointer + off) = metadataOf b.pointer + 2 + off := by
  obtain ⟨hlt, hp⟩ := h.pointer_bound hb
  generalize metadataOf b.pointer = d at hlt hp ⊢
  rw [hp]
  unfold heapPhys sub64 heapStartAddr
  omega

/-- Frames handed out to somebody else than the heap. -/
structure Outside (V F : Set Nat) (caches : List SlabCache) (view : Nat → CacheView)
    (blocks : List Block) : Prop where
  held : V ⊆ F
  caches : ∀ (i : Nat) (c : SlabCache), caches[i]? = some c →
    Disjoint V (ownFrames c.cache (view i).frames)
  pages : ∀ b ∈ pageBlocks blocks, Disjoint V b.pages

variable {V : Set Nat}

/-- An operation inside one cache is not seen outside. -/
theorem Outside.update (hV : Outside V F caches view s.blocks) {i : Nat} {c : SlabCache}
    (hc : caches[i]? = some c) {live' : List Nat} {slabs' : List SlabView} {blocks' : List Block}
    (hpage : ∀ b ∈ pageBlocks blocks', b ∈ pageBlocks s.blocks) :
    Outside V F (caches.set i { c with live := live' })
      (Function.update view i ⟨(view i).max, (view i).frames, slabs'⟩) blocks' := by
  refine ⟨hV.held, fun j d hj => ?_, fun b hb => hV.pages b (hpage b hb)⟩
  rcases getElem?_set_cases hc hj with ⟨rfl, rfl⟩ | ⟨hji, hd⟩
  · rw [Function.update_self]
    exact hV.caches j c hc
  · rw [Function.update_of_ne hji]
    exact hV.caches j d hd

/-- Memory of frames outside is kept when only one cache's frames change. -/
theorem Outside.same (hV : Outside V F caches view s.blocks) {i : Nat} {c : SlabCache}
    (hc : caches[i]? = some c) {m m' : Mem}
    (hm : ∀ x, x / 4096 ∉ ownFrames c.cache (view i).frames → m' x = m x) :
    Mem.SameOn (frameBytes V) m m' :=
  fun x hx => hm x (fun hxo => Set.disjoint_left.mp (hV.caches i c hc) hx hxo)

/-- What a step of the heap keeps: a valid heap with sizes that fit `size_t`,
and everything outside it. -/
def StepKeeps (base : Nat) (U V : Set Nat) (m : Mem) (s' : HeapState Pmm) : Prop :=
  ∃ (F' : Set Nat) (caches' : List SlabCache) (view' : Nat → CacheView),
    HeapInv (pmmHolds base U) s' F' caches' view' ∧ (∀ b ∈ s'.blocks, b.size < 2 ^ 64) ∧
    Outside V F' caches' view' s'.blocks ∧ Mem.SameOn (frameBytes V) m s'.heap.kernel.mem

theorem step_malloc (hbase : 4096 ≤ base) (hU : U ⊆ W)
    (h : HeapInv (pmmHolds base U) s F caches view) (hsizes : ∀ b ∈ s.blocks, b.size < 2 ^ 64)
    (hV : Outside V F caches view s.blocks) (hop : HeapOp.Sound W s (.malloc size))
    (he : s.exec pmmFrames fuel (.malloc size) = some s') :
    StepKeeps base U V s.heap.kernel.mem s' := by
  obtain ⟨hsize, hpage⟩ := hop
  have hcons : ∀ p : Nat, ∀ b ∈ (⟨p, size⟩ : Block) :: s.blocks, b.size < 2 ^ 64 := by
    intro p b hb
    rcases List.mem_cons.mp hb with rfl | hb
    · exact hsize
    · exact hsizes b hb
  have hA := pmmHolds_lawful hbase h.pmm
  simp only [HeapState.exec] at he
  by_cases hbig : 512 < roundAllocSize (add64 size metadataSize)
  · obtain ⟨p, k', hok, hsame, hcase⟩ := h.malloc_page fuel hU hsize hbig (hpage hbig)
    rw [hok] at he
    simp only [Option.some.injEq] at he
    subst he
    rcases hcase with ⟨hp0, hinv⟩ | ⟨hp0, hdis, _, _, hinv⟩
    · rw [if_pos hp0]
      exact ⟨F, caches, view, hinv, hsizes, hV, hsame.mono (fun x hx => hV.held hx)⟩
    · rw [if_neg hp0]
      refine ⟨_, caches, view, hinv, hcons p,
        ⟨hV.held.trans Set.subset_union_left, hV.caches, ?_⟩,
        hsame.mono (fun x hx => hV.held hx)⟩
      intro b hb
      have hclass := blockClass_large hbig
      have hb' : b ∈ (⟨p, size⟩ : Block) :: pageBlocks s.blocks := by
        simpa [pageBlocks, hclass] using hb
      rcases List.mem_cons.mp hb' with rfl | hb'
      · exact (hdis.mono_right hV.held).symm
      · exact hV.pages b hb'
  · have hle := Nat.not_lt.mp hbig
    rcases hclass : blockClass size with _ | i
    · -- the rounding wrapped to 0: no cache, and `NULL`
      have hidx : sizeToSlabCacheIndex (roundAllocSize (add64 size metadataSize)) = none := hclass
      simp only [malloc, if_pos hle, hidx, if_true, Option.some.injEq] at he
      subst he
      exact ⟨F, caches, view, h, hsizes, hV, Mem.SameOn.refl _ _⟩
    · obtain ⟨c, hc, _⟩ := h.cache_exists (sizeToSlabCacheIndex_some hclass)
      obtain ⟨v, hv, _, _⟩ := h.oneSlab i c hc
      split at he
      · simp at he
      · rename_i p h' hmalloc
        simp only [Option.some.injEq] at he
        subst he
        obtain ⟨hfuel, d, tail, hfree⟩ := h.malloc_slab_ok hA rfl hle hclass hc hv hmalloc
        obtain ⟨m', q, hok, hq0, _, _, hout, hinv⟩ :=
          h.malloc_slab hA rfl hle hclass hc hv hfree hfuel
        obtain ⟨rfl, rfl⟩ := Prod.mk.inj (Except.ok.inj (hmalloc.symm.trans hok))
        rw [if_neg hq0]
        refine ⟨F, _, _, hinv, hcons p, hV.update hc ?_, hV.same hc (fun x hx => hout x ?_ ?_)⟩
        · intro b hb
          simpa [pageBlocks, hclass] using hb
        · exact fun hxb => hx (bookkeeping_own hxb)
        · have hci := (h.good.cache i c hc).inv
          have hslot := hci.slot_of_free (v := v) (by rw [hv]; simp) (b := d) (by rw [hfree]; simp)
          by_contra hcon
          have hs := hci.sizeBounds
          exact hx (Set.mem_insert_of_mem _ (hslot.inside (x := x) (by omega) (by omega)).1)

theorem step_free (hbase : 4096 ≤ base) (h : HeapInv (pmmHolds base U) s F caches view)
    (hsizes : ∀ b ∈ s.blocks, b.size < 2 ^ 64) (hV : Outside V F caches view s.blocks) {p : Nat}
    (he : s.exec pmmFrames fuel (.free p) = some s') : StepKeeps base U V s.heap.kernel.mem s' := by
  have hA := pmmHolds_lawful hbase h.pmm
  obtain ⟨b, hfind, he⟩ := Option.bind_eq_some_iff.mp he
  have hb : b ∈ s.blocks := List.mem_of_find?_eq_some hfind
  have hbp : b.pointer = p := by simpa using List.find?_some hfind
  subst hbp
  have hrest : ∀ d ∈ s.blocks.erase b, d.size < 2 ^ 64 :=
    fun d hd => hsizes d (List.mem_of_mem_erase hd)
  rcases hclass : blockClass b.size with _ | i
  · have hbp : b ∈ pageBlocks s.blocks := List.mem_filter.mpr ⟨hb, by simpa using hclass⟩
    obtain ⟨hok, hsame, hinv⟩ := h.free_page fuel hbp
    rw [hok] at he
    simp only [Option.some.injEq] at he
    subst he
    refine ⟨_, caches, view, hinv, hrest,
      ⟨fun f hf => ⟨hV.held hf, fun hfn => ?_⟩, hV.caches, ?_⟩,
      hsame.mono (fun x hx => h.pmm.held (hV.held hx))⟩
    · refine Set.disjoint_left.mp (hV.pages b hbp) hf ⟨hfn.1, lt_of_lt_of_le hfn.2 ?_⟩
      exact Nat.add_le_add_left (Nat.mod_le _ _) _
    · exact fun d hd => hV.pages d ((h.erase_page hbp).2.2 d hd).1
  · obtain ⟨c, hc, hbi, hlive, hslot⟩ := h.block_slot hb hclass
    split at he
    · simp at he
    · rename_i h' hok'
      simp only [Option.some.injEq] at he
      subst he
      have hfuel := h.free_slab_fuel hc hbi hok'
      obtain ⟨_, _, m', v, _, hok, _, hout, hinv⟩ := h.free_slab hA hc hbi hfuel
      obtain rfl := Except.ok.inj (hok'.symm.trans hok)
      refine ⟨F, _, _, hinv, hrest, hV.update hc ?_, hV.same hc (fun x hx => hout x ?_ ?_)⟩
      · intro d hd
        obtain ⟨hdm, hdc⟩ := List.mem_filter.mp hd
        exact List.mem_filter.mpr ⟨List.mem_of_mem_erase hdm, hdc⟩
      · exact fun hxb => hx (bookkeeping_own hxb)
      · by_contra hcon
        have hs := (h.good.cache i c hc).inv.sizeBounds
        exact hx (Set.mem_insert_of_mem _ (hslot.inside (x := x) (by omega) (by omega)).1)

theorem step_write (hbase : 4096 ≤ base) (h : HeapInv (pmmHolds base U) s F caches view)
    (hsizes : ∀ b ∈ s.blocks, b.size < 2 ^ 64) (hV : Outside V F caches view s.blocks) {a : Nat}
    {value : BitVec 8} (hop : HeapOp.Sound W s (.write a value))
    (he : s.exec pmmFrames fuel (.write a value) = some s') :
    StepKeeps base U V s.heap.kernel.mem s' := by
  have hA := pmmHolds_lawful hbase h.pmm
  simp only [HeapState.exec] at he
  split_ifs at he with hin
  simp only [Option.some.injEq] at he
  subst he
  obtain ⟨b, hb, hba, hab⟩ := hin
  have hwrap := hop b hb hba hab
  obtain ⟨hlow, hpoint⟩ := h.pointer_bound hb
  have hshort : b.size < 2 ^ 47 := by
    rw [hpoint] at hwrap
    unfold heapStartAddr at hwrap
    omega
  obtain ⟨off, rfl⟩ : ∃ off, a = b.pointer + off := ⟨a - b.pointer, by omega⟩
  rw [h.block_phys_of_pmm hb (by omega)]
  rcases hclass : blockClass b.size with _ | i
  · have hbp : b ∈ pageBlocks s.blocks := List.mem_filter.mpr ⟨hb, by simpa using hclass⟩
    have hp := h.pages b hbp
    have hbig := hp.large
    have hfit : b.size + 2 ≤ b.space := (round_pages (hsizes b hb) hbig).2.1
    have hx : (metadataOf b.pointer + 2 + off) / 4096 ∈ b.pages :=
      space_pages (hsizes b hb) hbig hp.aligned (by omega) (by omega)
    refine ⟨F, caches, view, h.write_page hbp (fun y hy => Mem.set_other _ _ ?_), hsizes, hV,
      fun y hy => Mem.set_other _ _ ?_⟩
    · rintro rfl
      rcases hy with hy | hy
      · exact hy hx
      · omega
    · rintro rfl
      exact Set.disjoint_left.mp (hV.pages b hbp) (mem_frameBytes.mp hy) hx
  · obtain ⟨c, hc, hbi, _, hslot⟩ := h.block_slot hb hclass
    have hfit := h.block_fits hc hclass (small_of_class (by omega) hclass)
    refine ⟨F, caches, view, h.write_slab hA hc hbi (fun y hy => Mem.set_other _ _ (by omega)),
      hsizes, hV, hV.same hc (fun y hy => Mem.set_other _ _ ?_)⟩
    rintro rfl
    exact hy (Set.mem_insert_of_mem _ (hslot.inside (by omega) (by omega)).1)

/-- A whole run of sound steps. -/
theorem run_sound (hbase : 4096 ≤ base) (hU : U ⊆ W)
    (h : HeapInv (pmmHolds base U) s F caches view) (hsizes : ∀ b ∈ s.blocks, b.size < 2 ^ 64)
    (hV : Outside V F caches view s.blocks) {ops : List HeapOp} (hs : s.SoundRun W fuel ops)
    (hr : s.run pmmFrames fuel ops = some s') : StepKeeps base U V s.heap.kernel.mem s' := by
  induction ops generalizing s F caches view with
  | nil =>
    obtain rfl : s = s' := Option.some.inj hr
    exact ⟨F, caches, view, h, hsizes, hV, Mem.SameOn.refl _ _⟩
  | cons op ops ih =>
    obtain ⟨s1, he, hr⟩ := Option.bind_eq_some_iff.mp hr
    obtain ⟨hop, hrest⟩ := hs
    have hstep : StepKeeps base U V s.heap.kernel.mem s1 := by
      cases op with
      | malloc size => exact h.step_malloc hbase hU hsizes hV hop he
      | free p => exact h.step_free hbase hsizes hV he
      | write a value => exact h.step_write hbase hsizes hV hop he
    obtain ⟨F1, caches1, view1, h1, hsizes1, hV1, hsame1⟩ := hstep
    obtain ⟨F2, caches2, view2, h2, hsizes2, hV2, hsame2⟩ := ih h1 hsizes1 hV1 (hrest s1 he) hr
    exact ⟨F2, caches2, view2, h2, hsizes2, hV2, hsame1.trans hsame2⟩

/-- The heap after `malloc_heap_init` and a sound run. What was held before is left alone. -/
theorem of_init {k : Kernel Pmm} (hbase : 4096 ≤ base) (hk : PmmInv k.mem k.frames base U F)
    {h : Heap Pmm} (hinit : mallocHeapInit pmmFrames k = .ok h) {ops : List HeapOp} (hU : U ⊆ W)
    (hs : HeapState.SoundRun W fuel ⟨h, []⟩ ops)
    (hr : HeapState.run pmmFrames fuel ⟨h, []⟩ ops = some s') :
    StepKeeps base U F k.mem s' := by
  obtain ⟨fs, caches, view, _, hinv, hout, hsame⟩ :=
    mallocHeapInit_spec (pmmHolds_lawful hbase hk) hk hinit
  have hV : Outside F (F ∪ {f | f ∈ fs}) caches view [] :=
    ⟨Set.subset_union_left, hout, by simp [pageBlocks]⟩
  obtain ⟨F', caches', view', hinv', hsizes, hV', hsame'⟩ :=
    hinv.run_sound hbase hU (by simp) hV hs hr
  exact ⟨F', caches', view', hinv', hsizes, hV', hsame.trans hsame'⟩

end HeapInv

end ApoptOS
