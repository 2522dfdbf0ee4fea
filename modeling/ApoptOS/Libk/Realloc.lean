import ApoptOS.Libk.MallocTags

namespace ApoptOS

open Framework

section Outcome

variable {ρ : Type} {A : PageFrames ρ} {fuel n : Nat} {h : Heap ρ} {p : Nat}

/-- The number of bytes `realloc` copies: none when it keeps the block. -/
def reallocCopied (m : Mem) (p n : Nat) : Nat :=
  (reallocOldSize m (metadataOf p)).elim 0 (fun oldSize =>
    if oldSize = roundAllocSize n then 0 else min oldSize (roundAllocSize n))

theorem reallocCopied_eq {m : Mem} {oldSize : Nat}
    (hold : reallocOldSize m (metadataOf p) = some oldSize) : reallocCopied m p n =
      if oldSize = roundAllocSize n then 0 else min oldSize (roundAllocSize n) := by
  rw [reallocCopied, hold, Option.elim_some]

/-- `realloc` kept the block, or it took a new one, copied and freed the old. -/
inductive Reallocated (A : PageFrames ρ) (fuel : Nat) (h : Heap ρ) (p n : Nat) :
    Nat × Heap ρ → Prop where
  | kept (hsame : reallocOldSize h.kernel.mem (metadataOf p) = some (roundAllocSize n)) :
      Reallocated A fuel h p n (p, h)
  | moved {oldSize q : Nat} {h1 h' : Heap ρ}
      (hold : reallocOldSize h.kernel.mem (metadataOf p) = some oldSize)
      (hdiff : oldSize ≠ roundAllocSize n) (hmalloc : malloc A fuel h n = .ok (q, h1))
      (hfree : free A fuel { h1 with kernel := { h1.kernel with
        mem := memcpy h1.kernel.mem q p (min oldSize (roundAllocSize n)) } } p = .ok h') :
      Reallocated A fuel h p n (q, h')

theorem copyLength_eq (oldSize newSize : Nat) :
    (if newSize < oldSize then newSize else oldSize) = min oldSize newSize := by
  rw [min_comm, min_def]
  split_ifs
  all_goals omega

theorem realloc_cases (hp : p ≠ 0) (hn : n ≠ 0)
    (hpoint : p = add64 (add64 (metadataOf p) metadataSize) heapStartAddr) {q : Nat} {h' : Heap ρ}
    (hok : realloc A fuel h p n = .ok (q, h')) (hq : q ≠ 0) :
    Reallocated A fuel h p n (q, h') := by
  unfold realloc at hok
  simp only [if_neg hp, if_neg hn, ← hpoint, copyLength_eq] at hok
  split at hok
  · simp only [Except.ok.injEq, Prod.mk.injEq] at hok
    exact absurd hok.1.symm hq
  · rename_i oldSize hold
    split_ifs at hok with hsame
    · obtain ⟨rfl, rfl⟩ := Prod.mk.inj (Except.ok.inj hok)
      exact .kept (hsame ▸ hold)
    · split at hok
      · simp at hok
      · rename_i q1 h1 hmalloc
        split_ifs at hok with hq1
        · simp only [Except.ok.injEq, Prod.mk.injEq] at hok
          exact absurd hok.1.symm hq
        · split at hok
          · simp at hok
          · rename_i h2 hfree
            obtain ⟨rfl, rfl⟩ := Prod.mk.inj (Except.ok.inj hok)
            exact .moved hold hsame hmalloc hfree

theorem realloc_kept (hp : p ≠ 0) (hn : n ≠ 0)
    (hpoint : p = add64 (add64 (metadataOf p) metadataSize) heapStartAddr)
    (hsame : reallocOldSize h.kernel.mem (metadataOf p) = some (roundAllocSize n)) :
    realloc A fuel h p n = .ok (p, h) := by
  unfold realloc
  simp only [if_neg hp, if_neg hn, ← hpoint, hsame, if_true]

/-- The way back: a block that is not kept is moved as the parts say. -/
theorem realloc_moved {oldSize q : Nat} {h1 h' : Heap ρ} (hp : p ≠ 0) (hn : n ≠ 0)
    (hpoint : p = add64 (add64 (metadataOf p) metadataSize) heapStartAddr)
    (hold : reallocOldSize h.kernel.mem (metadataOf p) = some oldSize)
    (hdiff : oldSize ≠ roundAllocSize n) (hmalloc : malloc A fuel h n = .ok (q, h1))
    (hq : q ≠ 0) (hfree : free A fuel { h1 with kernel := { h1.kernel with
      mem := memcpy h1.kernel.mem q p (min oldSize (roundAllocSize n)) } } p = .ok h') :
    realloc A fuel h p n = .ok (q, h') := by
  unfold realloc
  simp only [if_neg hp, if_neg hn, ← hpoint, hold, if_neg hdiff, hmalloc, if_neg hq,
    copyLength_eq, hfree]

/-- The bytes reserved behind the pointer `realloc` returns: those of the block
when it is kept, else those `malloc` took for the new one. -/
def ReservedBehind (A : PageFrames ρ) (fuel : Nat) (h : Heap ρ) (b : Block) (n q cap : Nat) :
    Prop :=
  if reallocOldSize h.kernel.mem (metadataOf b.pointer) = some (roundAllocSize n) then
    q = b.pointer ∧ cap = b.space
  else ∃ h1 t, malloc A fuel h n = .ok (q, h1) ∧ Took A fuel h (q, h1) cap t

end Outcome

/-- The size `realloc` derives for a live block: exact for slots, and for pages
their number, truncated to 16 bits, divided by the size of a page. -/
def Block.oldSize (b : Block) : Nat :=
  if b.space ≤ 512 then b.space else b.space / pageSize % 2 ^ 16 / pageSize

theorem slabCacheIndexToSize_some {i n : Nat} (h : heapSlabSizes[i]? = some n) :
    slabCacheIndexToSize i = some n := by
  have hi := (heapSlabSizes_bound h).1
  have hall : ∀ i < 6, slabCacheIndexToSize i = heapSlabSizes[i]? := by decide
  rw [hall i hi, h]

/-- Pages are counted in sixteen bits, so `realloc` takes their block to have
at most 15 bytes. -/
theorem oldSize_pages {b : Block} (h : 512 < b.space) :
    b.oldSize = b.space / 4096 % 65536 / 4096 ∧ b.oldSize ≤ 15 := by
  unfold Block.oldSize pageSize
  rw [if_neg (by omega)]
  omega

namespace HeapInv

variable {ρ : Type} {Holds : Mem → ρ → Set Nat → Prop} {s : HeapState ρ} {F : Set Nat}
  {caches : List SlabCache} {view : Nat → CacheView} {b : Block}

theorem oldSize_slab (h : HeapInv Holds s F caches view) {i : Nat} {c : SlabCache}
    (hc : caches[i]? = some c) (hclass : blockClass b.size = some i) :
    b.oldSize = c.size ∧ b.space = c.size := by
  have hs := h.space_eq hc hclass
  have hle := (heapSlabSizes_bound (h.size_eq hc)).2.2.1
  unfold Block.oldSize
  rw [if_pos (by omega)]
  exact ⟨hs, hs⟩

theorem reallocOldSize_block (h : HeapInv Holds s F caches view) (hb : b ∈ s.blocks) :
    reallocOldSize s.heap.kernel.mem (metadataOf b.pointer) = some b.oldSize := by
  rw [reallocOldSize_decoded]
  rcases hclass : blockClass b.size with _ | i
  · have hp := h.pages b (page_mem hb hclass)
    rw [decodeTag_pages hp.aligned, hp.tag, Block.oldSize, if_neg (Nat.not_le.mpr hp.large)]
    rfl
  · obtain ⟨c, hc, _, hlive, _⟩ := h.block_slot hb hclass
    have hal := h.unaligned i c hc _ (List.mem_append_right _ hlive)
    rw [decodeTag_slab hal, h.tags i c hc _ hlive, (h.oldSize_slab hc hclass).1]
    exact slabCacheIndexToSize_some (h.size_eq hc)

theorem pointer_tagged (h : HeapInv Holds s F caches view) (hb : b ∈ s.blocks) :
    b.pointer ≠ 0 ∧
      b.pointer = add64 (add64 (metadataOf b.pointer) metadataSize) heapStartAddr := by
  rcases hclass : blockClass b.size with _ | i
  · have hp := h.pages b (page_mem hb hclass)
    refine ⟨?_, hp.pointer⟩
    rw [hp.pointer]
    exact tagged_ne_zero (by rw [hp.aligned]; decide)
  · obtain ⟨c, hc, hbi, _, hslot⟩ := h.block_slot hb hclass
    have hs := (h.good.cache i c hc).inv.sizeBounds
    have hin := hslot.inside (le_refl _) (by omega)
    have hpoint := h.pointers i b hbi
    refine ⟨?_, hpoint⟩
    rw [hpoint]
    exact tagged_ne_zero (by omega)

end HeapInv

section Rounding

/-- The rounding `realloc` compares with leaves out the metadata: it is the
size of the new slot or half of it. -/
theorem round_step {n : Nat} (hn : n ≤ 510) :
    n ≤ roundAllocSize n ∧ 16 ≤ roundAllocSize n ∧ roundAllocSize n ≤ 512 ∧
    (roundAllocSize (add64 n metadataSize) = roundAllocSize n ∨
      roundAllocSize (add64 n metadataSize) = 2 * roundAllocSize n) ∧
    n + 2 ≤ roundAllocSize (add64 n metadataSize) ∧
    roundAllocSize (add64 n metadataSize) ≤ 512 := by
  have hall : ∀ n < 511, n ≤ nextPowerOfTwo n ∧ 16 ≤ nextPowerOfTwo n ∧
      nextPowerOfTwo n ≤ 512 ∧ (nextPowerOfTwo (n + 2) = nextPowerOfTwo n ∨
        nextPowerOfTwo (n + 2) = 2 * nextPowerOfTwo n) ∧
      n + 2 ≤ nextPowerOfTwo (n + 2) ∧ nextPowerOfTwo (n + 2) ≤ 512 := by decide +kernel
  have hadd : add64 n metadataSize = n + 2 := add64_of_lt (by unfold metadataSize; omega)
  have hr : roundAllocSize n = nextPowerOfTwo n := if_pos (by omega)
  have hr2 : roundAllocSize (n + 2) = nextPowerOfTwo (n + 2) := if_pos (by omega)
  rw [hadd, hr, hr2]
  exact hall n (by omega)

theorem round_two {n : Nat} (h1 : 510 < n) (h2 : n ≤ 512) : roundAllocSize n = 512 := by
  have hall : ∀ n < 513, 510 < n → roundAllocSize n = 512 := by decide +kernel
  exact hall n (by omega) h1

/-- The two largest sizes that round to a slot have no room beside the
metadata. -/
theorem round_slot {c n i : Nat} (hc : heapSlabSizes[i]? = some c) (h1 : c < n + 2)
    (h2 : n ≤ c) : roundAllocSize n = c := by
  have hmem : c ∈ heapSlabSizes := List.mem_of_getElem? hc
  have hall : ∀ c ∈ heapSlabSizes, 16 ≤ c ∧ roundAllocSize c = c ∧
      roundAllocSize (c - 1) = c := by
    decide +kernel
  obtain ⟨hge, hself, hpred⟩ := hall c hmem
  rcases (show n = c ∨ n = c - 1 by omega) with rfl | rfl
  · exact hself
  · exact hpred

theorem round_bounds {n : Nat} (hn : n < 2 ^ 64) :
    (n ≤ 2 ^ 64 - 4096 ∧ n ≤ roundAllocSize n ∧ 16 ≤ roundAllocSize n) ∨
    (2 ^ 64 - 4096 < n ∧ roundAllocSize n = 0) := by
  rcases roundAllocSize_cases hn with ⟨hle, hr, hge, hsome⟩ | hc | hc
  · obtain ⟨i, hi⟩ := Option.isSome_iff_exists.mp hsome
    have h16 := (heapSlabSizes_bound (sizeToSlabCacheIndex_some hi)).2.1
    exact Or.inl ⟨by omega, hge, h16⟩
  · refine Or.inl ?_
    rw [hc.2.2]
    omega
  · exact Or.inr ⟨by omega, hc.2⟩

/-- `malloc` returns nothing for sizes it rounds to 0. -/
theorem mallocTakes_short {n : Nat} (h1 : 2 ^ 64 - 4098 < n) (h2 : n < 2 ^ 64 - 2) :
    mallocTakes n = none := by
  have hadd : add64 n metadataSize = n + 2 := add64_of_lt (by unfold metadataSize; omega)
  have h0 : roundAllocSize (n + 2) = 0 := by
    rcases roundAllocSize_cases (show n + 2 < 2 ^ 64 by omega) with hc | hc | hc
    · omega
    · omega
    · exact hc.2
  unfold mallocTakes
  rw [hadd, h0]
  rfl

end Rounding

/-- In every state a sound run reaches: the block behind the pointer `realloc`
returns has room for the new size exactly if that is no more than 2^64 - 4096
and is not the size of the old block's slot, or one less. -/
theorem realloc_capacity_iff (base : Nat) (U F : Set Nat) (k : Kernel Pmm)
    (hk : PmmInv k.mem k.frames base U F) (hbase : 4096 ≤ base) (h : Heap Pmm)
    (hinit : mallocHeapInit pmmFrames k = .ok h) (fuel : Nat) (ops : List HeapOp)
    (s : HeapState Pmm) (hsound : HeapState.SoundRun U fuel ⟨h, []⟩ ops)
    (hrun : HeapState.run pmmFrames fuel ⟨h, []⟩ ops = some s) (b : Block) (hb : b ∈ s.blocks)
    (n : Nat) (hpos : 0 < n) (hn : n < 2 ^ 64) (q : Nat) (h' : Heap Pmm)
    (hok : realloc pmmFrames fuel s.heap b.pointer n = .ok (q, h')) (hq : q ≠ 0) :
    ∃ cap, ReservedBehind pmmFrames fuel s.heap b n q cap ∧
      (metadataSize + n ≤ cap ↔
        n ≤ 2 ^ 64 - 4096 ∧ ¬ (b.space ≤ 512 ∧ n ≤ b.space ∧ b.space < n + 2)) := by
  obtain ⟨F', caches, view, hinv, hsizes, _⟩ :=
    HeapInv.of_init hbase hk hinit (Set.Subset.refl U) hsound hrun
  obtain ⟨hp0, hpoint⟩ := hinv.pointer_tagged hb
  have hold := hinv.reallocOldSize_block hb
  have hm : metadataSize = 2 := rfl
  -- how the size `realloc` assumes relates to the space of the block
  have hspace : (b.oldSize = b.space ∧ b.space ≤ 512 ∧
      (n ≤ b.space → b.space < n + 2 → roundAllocSize n = b.space)) ∨
      (b.oldSize ≤ 15 ∧ 512 < b.space ∧ b.space ≤ 2 ^ 64 - 4096) := by
    rcases hclass : blockClass b.size with _ | i
    · have hbig := (hinv.pages b (HeapInv.page_mem hb hclass)).large
      obtain ⟨hmod, _⟩ := round_pages (hsizes b hb) hbig
      have hmod' : b.space % 4096 = 0 := hmod
      have hlt : b.space < 2 ^ 64 := by
        rcases roundAllocSize_cases (add64_lt b.size metadataSize) with hc | hc | hc
        all_goals
          unfold Block.space
          omega
      exact Or.inr ⟨(oldSize_pages hbig).2, hbig, by omega⟩
    · obtain ⟨c, hc, _⟩ := hinv.cache_exists (sizeToSlabCacheIndex_some hclass)
      obtain ⟨ho, hs⟩ := hinv.oldSize_slab hc hclass
      have hle := (heapSlabSizes_bound (hinv.size_eq hc)).2.2.1
      refine Or.inl ⟨ho.trans hs.symm, by omega, fun h2 h1 => ?_⟩
      rw [hs] at h1 h2 ⊢
      exact round_slot (hinv.size_eq hc) h1 h2
  unfold ReservedBehind
  rw [hold]
  cases realloc_cases hp0 (by omega) hpoint hok hq with
  | kept hsame =>
    obtain hround : b.oldSize = roundAllocSize n := Option.some.inj (hold.symm.trans hsame)
    refine ⟨b.space, by rw [if_pos (by rw [hround])]; exact ⟨rfl, rfl⟩, ?_⟩
    rcases round_bounds hn with hr | hr
    · rcases hspace with hsp | hsp
      · omega
      · omega
    · rcases hspace with hsp | hsp
      · omega
      · omega
  | moved hold' hdiff hmalloc hfree =>
    obtain rfl := Option.some.inj (hold.symm.trans hold')
    obtain ⟨t, cap, htakes, htook, hiff⟩ := malloc_reserved hn hmalloc hq
    refine ⟨cap, ?_, ?_⟩
    · rw [if_neg (by simpa using hdiff)]
      exact ⟨_, t, hmalloc, htook⟩
    · rw [hiff]
      have hshort : ¬ (2 ^ 64 - 4098 < n ∧ n < 2 ^ 64 - 2) := by
        rintro ⟨h1, h2⟩
        rw [mallocTakes_short h1 h2] at htakes
        simp at htakes
      rcases hspace with ⟨ho, hle, hslot⟩ | hsp
      · constructor
        · intro hlt
          refine ⟨by omega, fun hbad => hdiff ?_⟩
          rw [hslot hbad.2.1 hbad.2.2, ho]
        · intro hcond
          omega
      · omega

/-- The heap of `heapMap` after a first small request. -/
theorem heapMap_alloc {size i : Nat} (hsize : size ≤ 510) (hclass : blockClass size = some i)
    (hroom : 0 < 4056 / roundAllocSize (add64 size metadataSize) - 1) :
    ∃ (h : Heap Pmm) (s : HeapState Pmm) (p : Nat) (fs : List Nat) (caches : List SlabCache)
      (view : Nat → CacheView),
      mallocHeapInit pmmFrames (bootKernel heapMap) = .ok h ∧
      HeapState.run pmmFrames 1 ⟨h, []⟩ [.malloc size] = some s ∧
      HeapState.SoundRun heapFrames 1 ⟨h, []⟩ [.malloc size] ∧ s.blocks = [⟨p, size⟩] ∧
      fs.length = 12 ∧ HeapInv heapMapHolds s {f | f ∈ fs} caches view := by
  obtain ⟨h, fs, _, _, hinit, hfs, hinv⟩ := heapMap_init
  obtain ⟨h1, p, caches, view, _, _, he, hinv1⟩ := hinv.exec_malloc heapMap_boot.1 hclass
    (by simpa [slabBlocks] using hroom) (le_refl 1)
  have hsmall : ¬ 512 < roundAllocSize (add64 size metadataSize) :=
    Nat.not_lt.mpr (round_step hsize).2.2.2.2.2
  refine ⟨h, _, p, fs, caches, view, hinit, ?_, ?_, rfl, hfs, hinv1⟩
  · simp only [HeapState.run, he, Option.bind_some]
  · exact ⟨⟨by omega, fun hbig => absurd hbig hsmall⟩, fun _ _ => trivial⟩

/-- A slot of 16 bytes is kept for any new size of at most 16. -/
theorem heapMap_kept {n : Nat} (hn : n ≠ 0) (hround : roundAllocSize n = 16) :
    ∃ (h : Heap Pmm) (s : HeapState Pmm) (p : Nat),
      mallocHeapInit pmmFrames (bootKernel heapMap) = .ok h ∧
      HeapState.run pmmFrames 1 ⟨h, []⟩ [.malloc 10] = some s ∧
      HeapState.SoundRun heapFrames 1 ⟨h, []⟩ [.malloc 10] ∧ s.blocks = [⟨p, 10⟩] ∧
      p ≠ 0 ∧ reallocOldSize s.heap.kernel.mem (metadataOf p) = some 16 ∧
      realloc pmmFrames 1 s.heap p n = .ok (p, s.heap) := by
  have hclass : blockClass 10 = some 0 := by decide +kernel
  obtain ⟨h, s, p, _, _, _, hinit, hrun, hsound, hblocks, _, hinv⟩ :=
    heapMap_alloc (by decide) hclass (by decide +kernel)
  have hb : (⟨p, 10⟩ : Block) ∈ s.blocks := by rw [hblocks]; exact List.mem_singleton.mpr rfl
  obtain ⟨hp0, hpoint⟩ := hinv.pointer_tagged hb
  have hold := hinv.reallocOldSize_block hb
  have h16 : (Block.mk p 10).oldSize = 16 := by
    show (if roundAllocSize (add64 10 metadataSize) ≤ 512 then
      roundAllocSize (add64 10 metadataSize) else _) = 16
    have hr : roundAllocSize (add64 10 metadataSize) = 16 := by decide +kernel
    rw [hr]
    rfl
  rw [h16] at hold
  exact ⟨h, s, p, hinit, hrun, hsound, hblocks, hp0, hold,
    realloc_kept hp0 hn hpoint (by rw [hround]; exact hold)⟩

theorem realloc_capacity_iff_heapMap : ∃ h s p cap,
    mallocHeapInit pmmFrames (bootKernel heapMap) = .ok h ∧
    HeapState.run pmmFrames 1 ⟨h, []⟩ [.malloc 10] = some s ∧
    realloc pmmFrames 1 s.heap p 14 = .ok (p, s.heap) ∧ p ≠ 0 ∧
    ReservedBehind pmmFrames 1 s.heap ⟨p, 10⟩ 14 p cap ∧ metadataSize + 14 ≤ cap := by
  obtain ⟨h, s, p, hinit, hrun, hsound, hblocks, hp0, _, hkept⟩ :=
    heapMap_kept (n := 14) (by decide) (by decide +kernel)
  have hb : (⟨p, 10⟩ : Block) ∈ s.blocks := by rw [hblocks]; exact List.mem_singleton.mpr rfl
  obtain ⟨cap, hcap, hiff⟩ := realloc_capacity_iff 0x1000 heapFrames ∅ _ heapMap_boot.2.inv
    (by decide) h hinit 1 _ s hsound hrun ⟨p, 10⟩ hb 14 (by decide)
    (by decide) p s.heap hkept hp0
  have hspace : (Block.mk p 10).space = 16 := by
    show roundAllocSize (add64 10 metadataSize) = 16
    decide +kernel
  exact ⟨h, s, p, cap, hinit, hrun, hkept, hp0, hcap, hiff.mpr (by rw [hspace]; decide)⟩

/-- A block of 10 bytes is kept for 16, although its slot has 14 behind the
metadata. -/
theorem realloc_keeps_short_slot : ∃ h s p,
    mallocHeapInit pmmFrames (bootKernel heapMap) = .ok h ∧
    HeapState.run pmmFrames 1 ⟨h, []⟩ [.malloc 10] = some s ∧ s.blocks = [⟨p, 10⟩] ∧
    realloc pmmFrames 1 s.heap p 16 = .ok (p, s.heap) ∧ p ≠ 0 ∧
    ReservedBehind pmmFrames 1 s.heap ⟨p, 10⟩ 16 p 16 ∧ 16 < metadataSize + 16 := by
  have h16 : roundAllocSize 16 = 16 := by decide +kernel
  obtain ⟨h, s, p, hinit, hrun, _, hblocks, hp0, hold, hkept⟩ := heapMap_kept (by decide) h16
  refine ⟨h, s, p, hinit, hrun, hblocks, hkept, hp0, ?_, by decide⟩
  unfold ReservedBehind
  have hold' : reallocOldSize s.heap.kernel.mem (metadataOf (Block.mk p 10).pointer) =
      some (roundAllocSize 16) := by
    rw [h16]
    exact hold
  rw [if_pos hold']
  refine ⟨rfl, ?_⟩
  show 16 = roundAllocSize (add64 10 metadataSize)
  decide +kernel

end ApoptOS
