import ApoptOS.Libk.MallocRoom

namespace ApoptOS

open Framework

/-- What a call of `malloc` took its memory from. -/
inductive Taken where
  | slab (index : Nat)
  | pages (count : Nat)
  deriving DecidableEq, Repr

/-- The allocator and its argument that `malloc(size)` decides on; `none` when
it returns `NULL` without asking anyone. -/
def mallocTakes (size : Nat) : Option Taken :=
  let newSize := roundAllocSize (add64 size metadataSize)
  if newSize ≤ 512 then (sizeToSlabCacheIndex newSize).map .slab
  else some (.pages (newSize / pageSize))

/-- What `free` and `realloc` read back from a pointer's alignment and tag. -/
def decodeTag (m : Mem) (pointer : Nat) : Taken :=
  if metadataOf pointer % 4096 ≠ 0 then .slab (m.load16 (metadataOf pointer))
  else .pages (m.load16 (metadataOf pointer))

theorem decodeTag_pages {m : Mem} {pointer : Nat} (h : metadataOf pointer % 4096 = 0) :
    decodeTag m pointer = .pages (m.load16 (metadataOf pointer)) := if_neg (not_not.mpr h)

theorem decodeTag_slab {m : Mem} {pointer : Nat} (h : metadataOf pointer % 4096 ≠ 0) :
    decodeTag m pointer = .slab (m.load16 (metadataOf pointer)) := if_pos h

section Decode

variable {ρ : Type} {A : PageFrames ρ} {fuel : Nat} {h : Heap ρ} {pointer : Nat}

theorem free_decoded (hp : pointer ≠ 0) : free A fuel h pointer =
    match decodeTag h.kernel.mem pointer with
    | .slab index =>
      match slabCacheFree fuel h.kernel (h.slabCaches.getD index 0) (metadataOf pointer)
          panicFlags with
      | .error e => .error e
      | .ok k => .ok { h with kernel := k }
    | .pages count =>
      .ok { h with kernel := h.kernel.pmmFree A (metadataOf pointer) count } := by
  by_cases hal : metadataOf pointer % 4096 = 0
  · simp only [decodeTag_pages hal, free, hp, if_false, hal, ne_eq, not_true]
  · cases hfree : slabCacheFree fuel h.kernel
        (h.slabCaches.getD (h.kernel.mem.load16 (metadataOf pointer)) 0) (metadataOf pointer)
        panicFlags with
    | error e => simp only [decodeTag_slab hal, free, hp, if_false, hal, ne_eq, not_false_eq_true,
        if_true, hfree]
    | ok k => simp only [decodeTag_slab hal, free, hp, if_false, hal, ne_eq, not_false_eq_true,
        if_true, hfree]

theorem free_pages_decoded {count : Nat} (hp : pointer ≠ 0)
    (hd : decodeTag h.kernel.mem pointer = .pages count) : free A fuel h pointer =
      .ok { h with kernel := h.kernel.pmmFree A (metadataOf pointer) count } := by
  rw [free_decoded hp, hd]

theorem free_slab_decoded {index : Nat} {k : Kernel ρ} (hp : pointer ≠ 0)
    (hd : decodeTag h.kernel.mem pointer = .slab index)
    (hok : slabCacheFree fuel h.kernel (h.slabCaches.getD index 0) (metadataOf pointer)
      panicFlags = .ok k) : free A fuel h pointer = .ok { h with kernel := k } := by
  rw [free_decoded hp, hd]
  simp only [hok]

theorem free_slab_stops {index : Nat} {e : Halt} (hp : pointer ≠ 0)
    (hd : decodeTag h.kernel.mem pointer = .slab index)
    (hstop : slabCacheFree fuel h.kernel (h.slabCaches.getD index 0) (metadataOf pointer)
      panicFlags = .error e) : free A fuel h pointer = .error e := by
  rw [free_decoded hp, hd]
  simp only [hstop]

theorem reallocOldSize_decoded (m : Mem) : reallocOldSize m (metadataOf pointer) =
    match decodeTag m pointer with
    | .slab index => slabCacheIndexToSize index
    | .pages count => some (count / pageSize) := by
  by_cases hal : metadataOf pointer % 4096 = 0
  · simp only [decodeTag_pages hal, reallocOldSize, hal, ne_eq, not_true, if_false]
  · simp only [decodeTag_slab hal, reallocOldSize, hal, ne_eq, not_false_eq_true, if_true]

/-- The request `malloc` made for the pointer it returned, and how many bytes
it reserved by it: a slot of a cache, or pages. -/
def Took (A : PageFrames ρ) (fuel : Nat) (h : Heap ρ) (r : Nat × Heap ρ) (n : Nat) :
    Taken → Prop
  | .slab index => heapSlabSizes[index]? = some n ∧ ∃ pointer k,
      slabCacheAlloc A fuel h.kernel (h.slabCaches.getD index 0) panicFlags = .ok (pointer, k) ∧
      pointer ≠ 0 ∧ r = Heap.tagged { h with kernel := k } pointer index
  | .pages count => n = pageSize * count ∧ (h.kernel.pmmAllocz A count).1 ≠ 0 ∧
      r = Heap.tagged { h with kernel := (h.kernel.pmmAllocz A count).2 }
        (h.kernel.pmmAllocz A count).1 count

theorem malloc_took {size p : Nat} {h' : Heap ρ}
    (hok : malloc A fuel h size = .ok (p, h')) (hp : p ≠ 0) :
    ∃ t, mallocTakes size = some t ∧
      Took A fuel h (p, h') (roundAllocSize (add64 size metadataSize)) t := by
  have hlt := add64_lt size metadataSize
  generalize hn : add64 size metadataSize = a at hlt
  unfold malloc at hok
  unfold mallocTakes
  rw [hn] at hok ⊢
  by_cases hle : roundAllocSize a ≤ 512
  · simp only [if_pos hle] at hok ⊢
    rcases hidx : sizeToSlabCacheIndex (roundAllocSize a) with _ | i
    · simp only [hidx, Except.ok.injEq, Prod.mk.injEq] at hok
      exact absurd hok.1.symm hp
    · refine ⟨.slab i, rfl, sizeToSlabCacheIndex_some hidx, ?_⟩
      simp only [hidx] at hok
      split at hok
      · simp at hok
      · rename_i pointer k halloc
        by_cases h0 : pointer = 0
        · simp only [h0, if_true, Except.ok.injEq, Prod.mk.injEq] at hok
          exact absurd hok.1.symm hp
        · simp only [h0, if_false, Except.ok.injEq] at hok
          exact ⟨pointer, k, halloc, h0, hok.symm⟩
  · simp only [if_neg hle] at hok ⊢
    by_cases h0 : (h.kernel.pmmAllocz A (roundAllocSize a / pageSize)).1 = 0
    · simp only [h0, if_true, Except.ok.injEq, Prod.mk.injEq] at hok
      exact absurd hok.1.symm hp
    · simp only [h0, if_false, Except.ok.injEq] at hok
      refine ⟨.pages _, rfl, ?_, h0, hok.symm⟩
      rcases roundAllocSize_cases hlt with hc | hc | hc
      · omega
      · rw [hc.2.2]
        unfold pageSize
        omega
      · omega

/-- The pointer `malloc` returns for pages it is given. -/
theorem malloc_pages_pointer {size p : Nat} {h' : Heap ρ}
    (hbig : 512 < roundAllocSize (add64 size metadataSize))
    (hok : malloc A fuel h size = .ok (p, h'))
    (hne : (h.kernel.pmmAllocz A (roundAllocSize (add64 size metadataSize) / pageSize)).1 ≠ 0) :
    p = add64 (add64 (h.kernel.pmmAllocz A (roundAllocSize (add64 size metadataSize) /
      pageSize)).1 metadataSize) heapStartAddr := by
  unfold malloc at hok
  simp only [if_neg (Nat.not_le.mpr hbig), if_neg hne, Except.ok.injEq] at hok
  exact (Prod.mk.inj hok).1.symm

end Decode

/-- What `malloc` reserved for the pointer it returned has room for the metadata
and the requested bytes, exactly if adding them does not wrap. -/
theorem malloc_reserved {ρ : Type} {A : PageFrames ρ} {fuel : Nat} {h : Heap ρ} {size : Nat}
    (hsize : size < 2 ^ 64) {p : Nat} {h' : Heap ρ}
    (hok : malloc A fuel h size = .ok (p, h')) (hp : p ≠ 0) :
    ∃ t n, mallocTakes size = some t ∧ Took A fuel h (p, h') n t ∧
      (metadataSize + size ≤ n ↔ size < 2 ^ 64 - 2) := by
  obtain ⟨t, ht, htook⟩ := malloc_took hok hp
  refine ⟨t, _, ht, htook, ?_⟩
  have hadd : add64 size metadataSize = (size + 2) % 2 ^ 64 := by unfold add64 metadataSize; rfl
  have hm : metadataSize = 2 := rfl
  rcases roundAllocSize_cases (add64_lt size metadataSize) with hc | hc | hc
  · omega
  · omega
  · -- rounding to 0 leads to `NULL`
    have hnone : mallocTakes size = none := by
      unfold mallocTakes
      rw [hc.2]
      rfl
    rw [hnone] at ht
    simp at ht

/-- Whatever `malloc` reserves has room for the requested bytes after the
metadata, exactly if adding the metadata to the size does not wrap. -/
theorem malloc_reserves_iff_no_wrap {ρ : Type} (A : PageFrames ρ) (fuel : Nat) (h : Heap ρ)
    (size : Nat) (hsize : size < 2 ^ 64) (p : Nat) (h' : Heap ρ)
    (hok : malloc A fuel h size = .ok (p, h')) (hp : p ≠ 0) :
    ∃ t n, mallocTakes size = some t ∧ Took A fuel h (p, h') n t ∧
      (metadataSize + size ≤ n ↔ size < 2 ^ 64 - 2) :=
  malloc_reserved hsize hok hp

/-- A first request on the fresh heap of `heapMap`. -/
theorem heapMap_first {size i : Nat} (hclass : blockClass size = some i)
    (hroom : 0 < 4056 / roundAllocSize (add64 size metadataSize) - 1) : ∃ h p h',
    mallocHeapInit pmmFrames (bootKernel heapMap) = .ok h ∧
    malloc pmmFrames 1 h size = .ok (p, h') ∧ p ≠ 0 := by
  obtain ⟨h, _, _, _, hinit, _, hinv⟩ := heapMap_init
  obtain ⟨h', p, _, _, hok, hp0, _, _⟩ := hinv.exec_malloc heapMap_boot.1 hclass
    (by simpa [slabBlocks] using hroom) (le_refl 1)
  exact ⟨h, p, h', hinit, hok, hp0⟩

theorem malloc_reserves_iff_no_wrap_heapMap : ∃ h p h' t n,
    mallocHeapInit pmmFrames (bootKernel heapMap) = .ok h ∧
    malloc pmmFrames 1 h 100 = .ok (p, h') ∧ p ≠ 0 ∧ Took pmmFrames 1 h (p, h') n t ∧
    metadataSize + 100 ≤ n := by
  have hclass : blockClass 100 = some 3 := by decide +kernel
  obtain ⟨h, p, h', hinit, hok, hp0⟩ := heapMap_first hclass (by decide +kernel)
  obtain ⟨t, n, _, htook, hiff⟩ :=
    malloc_reserves_iff_no_wrap pmmFrames 1 h 100 (by decide) p h'
    hok hp0
  exact ⟨h, p, h', t, n, hinit, hok, hp0, htook, hiff.mpr (by decide)⟩

/-- `malloc(2^64 - 1)` is given a slot of 16 bytes. -/
theorem malloc_wraps_to_short_block : ∃ h p h',
    mallocHeapInit pmmFrames (bootKernel heapMap) = .ok h ∧
    malloc pmmFrames 1 h (2 ^ 64 - 1) = .ok (p, h') ∧ p ≠ 0 ∧
    Took pmmFrames 1 h (p, h') 16 (.slab 0) ∧ 16 < metadataSize + (2 ^ 64 - 1) := by
  have hclass : blockClass (2 ^ 64 - 1) = some 0 := by decide +kernel
  obtain ⟨h, p, h', hinit, hok, hp0⟩ := heapMap_first hclass (by decide +kernel)
  obtain ⟨t, ht, htook⟩ := malloc_took hok hp0
  have htakes : mallocTakes (2 ^ 64 - 1) = some (.slab 0) := by decide +kernel
  have hround : roundAllocSize (add64 (2 ^ 64 - 1) metadataSize) = 16 := by decide +kernel
  obtain rfl := Option.some.inj (htakes.symm.trans ht)
  rw [hround] at htook
  exact ⟨h, p, h', hinit, hok, hp0, htook, by decide⟩

variable {ρ : Type}

/-- A client wrote nothing outside its block; offsets wrap with the address. -/
def ClientWrote (m m' : Mem) (b : Block) : Prop :=
  ∀ x, (∀ off < b.size, x ≠ heapPhys (b.pointer + off)) → m' x = m x

/-- With memory `m'`, the tag of the block names what `malloc` took, and `free`
gives back just that: the slot goes in front of a free list of its cache, or the
pages obtained from `pmm_allocz` are all freed. -/
def Recovers (A : PageFrames ρ) (fuel : Nat) (h' : Heap ρ) (m' : Mem) (b : Block) : Prop :=
  mallocTakes b.size = some (decodeTag m' b.pointer) ∧
  match decodeTag m' b.pointer with
  | .slab index => ∃ k' slabs t l,
      free A fuel { h' with kernel := { h'.kernel with mem := m' } } b.pointer =
        .ok { h' with kernel := k' } ∧
      ListedSlabs k' (h'.slabCaches.getD index 0) slabs ∧ t ∈ slabs ∧
      Chain k'.bufctlNext 0 (k'.slabFreelistHead t) (metadataOf b.pointer :: l)
  | .pages count =>
      h'.kernel.calls.head? = some (.allocz count (metadataOf b.pointer)) ∧
      free A fuel { h' with kernel := { h'.kernel with mem := m' } } b.pointer =
        .ok { h' with kernel := (Kernel.pmmFree A { h'.kernel with mem := m' }
          (metadataOf b.pointer) count) }

section Recovers

variable {A : PageFrames ρ} {fuel : Nat} {h' : Heap ρ} {m' : Mem} {b : Block}

theorem recovers_slab {index : Nat} (hd : decodeTag m' b.pointer = .slab index) :
    Recovers A fuel h' m' b ↔ mallocTakes b.size = some (.slab index) ∧ ∃ k' slabs t l,
      free A fuel { h' with kernel := { h'.kernel with mem := m' } } b.pointer =
        .ok { h' with kernel := k' } ∧
      ListedSlabs k' (h'.slabCaches.getD index 0) slabs ∧ t ∈ slabs ∧
      Chain k'.bufctlNext 0 (k'.slabFreelistHead t) (metadataOf b.pointer :: l) := by
  unfold Recovers
  rw [hd]

theorem recovers_pages {count : Nat} (hd : decodeTag m' b.pointer = .pages count)
    (hp : b.pointer ≠ 0) : Recovers A fuel h' m' b ↔
      mallocTakes b.size = some (.pages count) ∧
      h'.kernel.calls.head? = some (.allocz count (metadataOf b.pointer)) := by
  unfold Recovers
  rw [hd]
  exact and_congr_right (fun _ => and_iff_left (free_pages_decoded hp hd))

end Recovers

/-- The frame allocator hands out page-aligned pointers. -/
theorem pmmAllocz_aligned (n : Nat) (m : Mem) (pmm : Pmm) :
    (pmmAllocz n m pmm).1 % 4096 = 0 ∧ (pmmAllocz n m pmm).1 < 2 ^ 64 := by
  have hpage : ∀ i, bitToPage i % 4096 = 0 ∧ bitToPage i < 2 ^ 64 := by
    intro i
    unfold bitToPage pageSize
    omega
  show (pmmAlloc n m pmm).1 % 4096 = 0 ∧ (pmmAlloc n m pmm).1 < 2 ^ 64
  unfold pmmAlloc
  split_ifs
  · simp
  · simp only
    split_ifs
    · simp
    · exact hpage _

/-- `slab_cache_free` on a cache whose list is empty stops the kernel. -/
theorem slabCacheFree_noSlabs {k : Kernel ρ} {cache : Nat} (fuel p : Nat) (hc : cache ≠ 0)
    (h : k.cacheSlabsHead cache = 0) :
    ∃ e, slabCacheFree fuel k cache p panicFlags = .error e := by
  have hcursor : (k.setCacheSlabs cache (k.cacheSlabsHead cache)).cacheSlabs cache = 0 := by
    rw [h]
    exact Mem.load64_store64_same _ _ _
  simp only [slabCacheFree, hc, false_and, if_false]
  cases fuel with
  | zero => exact ⟨_, rfl⟩
  | succ fuel =>
    simp only [freeToSlabs, hcursor, panicFlags, and_self, if_true]
    exact ⟨_, rfl⟩

section Tags

variable {size p fuel : Nat} {s : HeapState Pmm} {h' : Heap Pmm}

/-- The tag after `malloc` of whole pages. -/
theorem malloc_pages_tag {count : Nat} (hok : malloc pmmFrames fuel s.heap size = .ok (p, h'))
    (hp : p ≠ 0) (ht : mallocTakes size = some (.pages count)) :
    p = add64 (add64 (metadataOf p) metadataSize) heapStartAddr ∧ metadataOf p % 4096 = 0 ∧
      metadataOf p < 2 ^ 64 ∧ h'.kernel.mem.load16 (metadataOf p) = count % 2 ^ 16 ∧
      h'.kernel.calls.head? = some (.allocz count (metadataOf p)) := by
  obtain ⟨t, ht', htook⟩ := malloc_took hok hp
  obtain rfl := Option.some.inj (ht.symm.trans ht')
  obtain ⟨_, _, hr⟩ := htook
  obtain ⟨hal, hlt⟩ := pmmAllocz_aligned count s.heap.kernel.mem s.heap.kernel.frames
  obtain ⟨q, hq⟩ : ∃ q, q = (s.heap.kernel.pmmAllocz pmmFrames count).1 := ⟨_, rfl⟩
  have hqal : q % 4096 = 0 := hq ▸ hal
  have hqlt : q < 2 ^ 64 := hq ▸ hlt
  rw [← hq] at hr
  obtain ⟨hpq, hh⟩ := Prod.mk.inj hr
  have hmeta : metadataOf p = q := by
    rw [hpq]
    exact metadataOf_tagged hqlt
  refine ⟨by rw [hmeta]; exact hpq, by rw [hmeta]; exact hqal, by rw [hmeta]; exact hqlt,
    ?_, ?_⟩
  · rw [hh, hmeta]
    exact Mem.load16_store16_same _ _ _
  · rw [hh, hmeta, hq]
    rfl

theorem heapPhys_ne_tag {q off : Nat} (hoff : off < 2 ^ 64 - 2) {x : Nat}
    (h1 : q ≤ x) (h2 : x < q + 2) :
    x ≠ heapPhys (add64 (add64 q metadataSize) heapStartAddr + off) := by
  unfold heapPhys sub64 add64 metadataSize heapStartAddr
  omega

/-- The tag of whole pages survives the client, and is exact up to 65535. -/
theorem pages_recover {count : Nat} (hok : malloc pmmFrames fuel s.heap size = .ok (p, h'))
    (hp : p ≠ 0) (ht : mallocTakes size = some (.pages count)) (hsize : size < 2 ^ 64 - 2)
    (fuel' : Nat) :
    (∀ m', ClientWrote h'.kernel.mem m' ⟨p, size⟩ →
      Recovers pmmFrames fuel' h' m' ⟨p, size⟩) ↔
      count < 2 ^ 16 := by
  obtain ⟨hpoint, hal, hlt, htag, hcalls⟩ := malloc_pages_tag hok hp ht
  have hdecode : ∀ m', ClientWrote h'.kernel.mem m' ⟨p, size⟩ →
      decodeTag m' p = .pages (count % 2 ^ 16) := by
    intro m' hm
    have hsame : m'.load16 (metadataOf p) = h'.kernel.mem.load16 (metadataOf p) := by
      refine Mem.load16_congr (fun x h1 h2 => hm x (fun off hoff => ?_))
      show x ≠ heapPhys (p + off)
      have hoff' : off < size := hoff
      rw [hpoint]
      exact heapPhys_ne_tag (by omega) h1 h2
    rw [decodeTag_pages hal, hsame, htag]
  have hiff : ∀ m', ClientWrote h'.kernel.mem m' ⟨p, size⟩ →
      (Recovers pmmFrames fuel' h' m' ⟨p, size⟩ ↔ count = count % 2 ^ 16) := by
    intro m' hm
    rw [recovers_pages (b := ⟨p, size⟩) (hdecode m' hm) hp]
    show mallocTakes size = _ ∧ h'.kernel.calls.head? = some (.allocz _ (metadataOf p)) ↔ _
    rw [ht, hcalls]
    constructor
    · rintro ⟨htake, _⟩
      exact Taken.pages.inj (Option.some.inj htake)
    · intro heq
      rw [← heq]
      exact ⟨rfl, rfl⟩
  constructor
  · intro hall
    have heq := (hiff _ (fun _ _ => rfl)).mp (hall h'.kernel.mem (fun _ _ => rfl))
    omega
  · intro hcount m' hm
    exact (hiff m' hm).mpr (Nat.mod_eq_of_lt hcount).symm

variable {base : Nat} {U F : Set Nat} {caches : List SlabCache} {view : Nat → CacheView}

/-- The heap after a `malloc` that took a slot. -/
theorem malloc_slab_heap (hA : pmmFrames.Lawful U (pmmHolds base U))
    (hinv : HeapInv (pmmHolds base U) s F caches view) {i : Nat} (hclass : blockClass size = some i)
    (hok : malloc pmmFrames fuel s.heap size = .ok (p, h')) :
    ∃ (caches' : List SlabCache) (view' : Nat → CacheView),
      HeapInv (pmmHolds base U) ⟨h', ⟨p, size⟩ :: s.blocks⟩ F caches' view' := by
  obtain ⟨c, hc, _⟩ := hinv.cache_exists (sizeToSlabCacheIndex_some hclass)
  have hle := (heapSlabSizes_bound (sizeToSlabCacheIndex_some hclass)).2.2.1
  obtain ⟨v, hv, _⟩ := hinv.oneSlab i c hc
  obtain ⟨hfuel, b, tail, hfree⟩ := hinv.malloc_slab_ok hA rfl hle hclass hc hv hok
  obtain ⟨m', q, hok', _, _, _, _, hinv'⟩ :=
    hinv.malloc_slab hA rfl hle hclass hc hv hfree hfuel
  obtain ⟨rfl, rfl⟩ := Prod.mk.inj (Except.ok.inj (hok.symm.trans hok'))
  exact ⟨_, _, hinv'⟩

theorem mallocTakes_slab {i : Nat} (hclass : blockClass size = some i) :
    mallocTakes size = some (.slab i) := by
  have hle := (heapSlabSizes_bound (sizeToSlabCacheIndex_some hclass)).2.2.1
  have hidx : sizeToSlabCacheIndex (roundAllocSize (add64 size metadataSize)) = some i := hclass
  unfold mallocTakes
  simp only [if_pos hle, hidx, Option.map_some]

/-- The tag of a slot survives the client, and `free` returns the slot. -/
theorem slab_recovers (hA : pmmFrames.Lawful U (pmmHolds base U))
    (hinv : HeapInv (pmmHolds base U) s F caches view) (hsmall : size ≤ 510)
    (hok : malloc pmmFrames fuel s.heap size = .ok (p, h')) {fuel' : Nat} (hfuel : 1 ≤ fuel')
    {m' : Mem} (hm : ClientWrote h'.kernel.mem m' ⟨p, size⟩) :
    Recovers pmmFrames fuel' h' m' ⟨p, size⟩ := by
  obtain ⟨i, _, hclass, _⟩ := blockClass_small hsmall
  obtain ⟨caches1, view1, h1⟩ := malloc_slab_heap hA hinv hclass hok
  have hb : (⟨p, size⟩ : Block) ∈ (⟨p, size⟩ : Block) :: s.blocks := by simp
  obtain ⟨c, hc, hbi, _, _⟩ := h1.block_slot hb hclass
  have hfit : 2 + size ≤ c.size := h1.block_fits (b := ⟨p, size⟩) hc hclass hsmall
  have hkept : ∀ x, (x < metadataOf p + 2 ∨ metadataOf p + c.size ≤ x) →
      m' x = h'.kernel.mem x := by
    intro x hx
    refine hm x (fun off hoff => ?_)
    have hoff' : off < size := hoff
    have hphys : heapPhys (p + off) = metadataOf p + 2 + off := h1.block_phys_of_pmm hb (by omega)
    show x ≠ heapPhys (p + off)
    rw [hphys]
    omega
  have h2 := h1.write_slab hA hc hbi hkept
  obtain ⟨j, hj, hun, htag, hfree⟩ := h2.freed hA hb hsmall
  obtain rfl : i = j := Option.some.inj (hclass.symm.trans hj)
  have htag' : m'.load16 (metadataOf p) = i := htag
  have hd : decodeTag m' p = .slab i := by rw [decodeTag_slab hun, htag']
  obtain ⟨k', hok', _, slabs, t, l, hl, ht, hchain⟩ := hfree fuel' hfuel
  exact (recovers_slab (b := ⟨p, size⟩) hd).mpr
    ⟨mallocTakes_slab hclass, k', slabs, t, l, hok', hl, ht, hchain⟩

/-- A block that wraps around the address space reaches its cache's own words:
its owner may overwrite them, and `free` no longer finds a slab. -/
theorem slab_lost (hA : pmmFrames.Lawful U (pmmHolds base U))
    (hinv : HeapInv (pmmHolds base U) s F caches view) {i : Nat} (hclass : blockClass size = some i)
    (hwrap : 2 ^ 64 - 2 ≤ size) (hok : malloc pmmFrames fuel s.heap size = .ok (p, h'))
    (fuel' : Nat) : ∃ m', ClientWrote h'.kernel.mem m' ⟨p, size⟩ ∧
      ¬ Recovers pmmFrames fuel' h' m' ⟨p, size⟩ := by
  obtain ⟨caches1, view1, h1⟩ := malloc_slab_heap hA hinv hclass hok
  have hb : (⟨p, size⟩ : Block) ∈ (⟨p, size⟩ : Block) :: s.blocks := by simp
  obtain ⟨c, hc, hbi, hlive, hslot⟩ := h1.block_slot hb hclass
  have hci := (h1.good.cache i c hc).inv
  have hs := hci.sizeBounds
  obtain ⟨hlow, hpoint⟩ := h1.pointer_bound hb
  have hlow' : metadataOf p < 2 ^ 43 := hlow
  have hpoint' : p = metadataOf p + 2 + heapStartAddr := hpoint
  have hal : metadataOf p % 4096 ≠ 0 := h1.unaligned i c hc _ (List.mem_append_right _ hlive)
  have htag : h'.kernel.mem.load16 (metadataOf p) = i := h1.tags i c hc _ hlive
  obtain ⟨m', hm'⟩ : ∃ m' : Mem, m' = fun x => if x < 2 ^ 64 ∧ ¬ (metadataOf p ≤ x ∧
      x < metadataOf p + 2) then 0#8 else h'.kernel.mem x := ⟨_, rfl⟩
  refine ⟨m', fun x hx => ?_, ?_⟩
  · rw [hm']
    refine if_neg (fun hcon => ?_)
    refine hx ((x + (2 ^ 64 - (metadataOf p + 2))) % 2 ^ 64) ?_ ?_
    · show (x + (2 ^ 64 - (metadataOf p + 2))) % 2 ^ 64 < size
      omega
    · show x = heapPhys (p + (x + (2 ^ 64 - (metadataOf p + 2))) % 2 ^ 64)
      generalize metadataOf p = d at *
      rw [hpoint']
      unfold heapPhys sub64 heapStartAddr
      omega
  · intro hrec
    have hd : decodeTag m' p = .slab i := by
      have hkeep : m'.load16 (metadataOf p) = h'.kernel.mem.load16 (metadataOf p) := by
        refine Mem.load16_congr (fun x hx1 hx2 => ?_)
        rw [hm']
        exact if_neg (fun hcon => hcon.2 ⟨hx1, hx2⟩)
      rw [decodeTag_slab hal, hkeep, htag]
    obtain ⟨_, k', _, _, _, hfree, _⟩ := (recovers_slab (b := ⟨p, size⟩) hd).mp hrec
    have hp0 : p ≠ 0 := by
      unfold heapStartAddr at hpoint'
      omega
    have hcache : h'.slabCaches.getD i 0 = c.cache := h1.cache_eq hc
    have hhead : Kernel.cacheSlabsHead { h'.kernel with mem := m' } c.cache = 0 := by
      refine Mem.load64_zero _ (fun x hx1 hx2 => ?_)
      have hcb := hci.cacheBounds
      have hca := hci.cacheAligned
      rw [hm']
      refine if_pos ⟨by omega, fun hx => ?_⟩
      have hupper : x < metadataOf p + c.size := Nat.lt_of_lt_of_le hx.2 (by omega)
      have hin := hslot.inside hx.1 hupper
      have hxc : x / 4096 = c.cache / 4096 := by omega
      exact hci.cacheApart (hxc ▸ hin.1)
    obtain ⟨e, herr⟩ := slabCacheFree_noSlabs fuel' (metadataOf p) hci.cacheBounds.1 hhead
    rw [← hcache] at herr
    have hstop := free_slab_stops (A := pmmFrames) (h := { h' with kernel := { h'.kernel with
      mem := m' } }) hp0 hd herr
    exact absurd (hstop.symm.trans hfree) (by simp)

end Tags

/-- In every state a sound run reaches after `malloc_heap_init`: when `malloc`
returns a block, then whatever its owner writes into it, the tag is decoded to
what `malloc` did and `free` gives back just that, exactly if the block needs
at most 65535 pages. -/
theorem malloc_tag_recovered_iff (base : Nat) (U F : Set Nat) (k : Kernel Pmm)
    (hk : PmmInv k.mem k.frames base U F) (hbase : 4096 ≤ base) (h : Heap Pmm)
    (hinit : mallocHeapInit pmmFrames k = .ok h) (fuel : Nat) (ops : List HeapOp)
    (s : HeapState Pmm) (hsound : HeapState.SoundRun U fuel ⟨h, []⟩ ops)
    (hrun : HeapState.run pmmFrames fuel ⟨h, []⟩ ops = some s) (size : Nat)
    (hsize : size < 2 ^ 64) (p : Nat) (h' : Heap Pmm)
    (hok : malloc pmmFrames fuel s.heap size = .ok (p, h')) (hp : p ≠ 0) (fuel' : Nat)
    (hfuel : 1 ≤ fuel') :
    (∀ m', ClientWrote h'.kernel.mem m' ⟨p, size⟩ →
      Recovers pmmFrames fuel' h' m' ⟨p, size⟩) ↔
      size + 2 ≤ 65535 * 4096 := by
  have hA := pmmHolds_lawful hbase hk
  obtain ⟨F', caches, view, hinv, _⟩ :=
    HeapInv.of_init hbase hk hinit (Set.Subset.refl U) hsound hrun
  obtain ⟨t, ht, _⟩ := malloc_took hok hp
  have hadd : add64 size metadataSize = (size + 2) % 2 ^ 64 := by unfold add64 metadataSize; rfl
  rcases hclass : blockClass size with _ | i
  · -- whole pages
    have hbig : 512 < roundAllocSize (add64 size metadataSize) := by
      by_contra hle
      have hnone : sizeToSlabCacheIndex (roundAllocSize (add64 size metadataSize)) = none := hclass
      simp only [mallocTakes, if_pos (Nat.not_lt.mp hle), hnone, Option.map_none] at ht
      simp at ht
    have hpages : mallocTakes size = some (.pages (roundAllocSize (add64 size metadataSize) /
        pageSize)) := by
      simp only [mallocTakes, if_neg (Nat.not_le.mpr hbig)]
    obtain ⟨hmod, hge, _, hlt, hup⟩ := round_pages hsize hbig
    rw [pages_recover hok hp hpages hlt fuel']
    unfold pageSize
    omega
  · by_cases hwrap : size < 2 ^ 64 - 2
    · have hsmall := small_of_class hwrap hclass
      exact ⟨fun _ => by omega, fun _ m' hm => slab_recovers hA hinv hsmall hok hfuel hm⟩
    · obtain ⟨m', hm, hlost⟩ := slab_lost hA hinv hclass (by omega) hok fuel'
      exact ⟨fun hall => absurd (hall m' hm) hlost, fun hle => by omega⟩

theorem malloc_tag_recovered_iff_heapMap : ∃ h p h',
    mallocHeapInit pmmFrames (bootKernel heapMap) = .ok h ∧
    malloc pmmFrames 1 h 100 = .ok (p, h') ∧ p ≠ 0 ∧
    ∀ m', ClientWrote h'.kernel.mem m' ⟨p, 100⟩ →
      Recovers pmmFrames 1 h' m' ⟨p, 100⟩ := by
  have hclass : blockClass 100 = some 3 := by decide +kernel
  obtain ⟨h, p, h', hinit, hok, hp0⟩ := heapMap_first hclass (by decide +kernel)
  refine ⟨h, p, h', hinit, hok, hp0, ?_⟩
  exact (malloc_tag_recovered_iff 0x1000 heapFrames ∅ _ heapMap_boot.2.inv
    (by decide) h hinit 1 []
    ⟨h, []⟩ trivial rfl 100 (by decide) p h' hok hp0 1 (le_refl 1)).mpr (by decide)

/-- The allocator returns a pointer when a run of the requested length is free. -/
theorem PmmCounted.serves_run {m : Mem} {pmm : Pmm} {base u0 n i : Nat} {U F : Set Nat}
    (h : PmmCounted m pmm base U u0 F) (hu : 0 < u0) (hn : 0 < n)
    (hrun : ∀ f ∈ frameRun i n, f ∈ U ∧ f ∉ F) : (pmmAllocz n m pmm).1 ≠ 0 := by
  have htop := h.inv.topLe
  have hsize := h.inv.sizeLe
  have hused := h.used
  have hcheck : ∀ f ∈ frameRun i n, f < pageToBit pmm.highestPageTop ∧
      bitmapCheckBit m pmm.bitmap (toInt f) = 0#8 := by
    intro f hf
    have hlt := (h.inv.managed f (hrun f hf).1).2.1
    exact ⟨hlt, (bitmapCheckBit_eq h.inv.stored (by omega)).mpr
      (h.free f (hrun f hf).1 (hrun f hf).2)⟩
  have hfirst : i ∈ frameRun i n := ⟨le_refl i, by omega⟩
  show (pmmAlloc n m pmm).1 ≠ 0
  unfold pmmAlloc
  rw [if_neg (by omega)]
  rcases pmmFindFirstFreePageRange_spec m pmm hn with ⟨_, hno⟩ | ⟨k, hk, hfind⟩
  · refine absurd (fun j hj => ?_) (hno i (hcheck i hfirst).1)
    have hj' : pageToBit j ≤ j := Nat.div_le_self _ _
    exact (hcheck (i + pageToBit j) ⟨by omega, by omega⟩).2
  · -- the frame found is clear, so it is managed and not frame 0
    have hbit := hk.2.1 0 hn
    have hk0 : k + pageToBit 0 = k := rfl
    have hlt := hk.1
    rw [hk0, bitmapCheckBit_eq h.inv.stored (by omega)] at hbit
    have hne := (h.inv.managed k (h.inv.clear k (by omega) hbit).1).1
    have hpage : bitToPage k = k * 4096 := by
      unfold bitToPage pageSize
      omega
    have hindex : pageToBit (k * 4096) = k := Nat.mul_div_cancel _ (by decide)
    have hpos : ¬ k * 4096 = 0 := by omega
    simp only [hfind, hpage, hpos, if_false, hindex, ne_eq, not_false_eq_true]

theorem malloc_pages_served {s : HeapState Pmm} {base u0 i size : Nat} {U F : Set Nat}
    (h : PmmCounted s.heap.kernel.mem s.heap.kernel.frames base U u0 F) (hu : 0 < u0) (fuel : Nat)
    (hbig : 512 < roundAllocSize (add64 size metadataSize)) (hsize : size < 2 ^ 64)
    (hrun : ∀ f ∈ frameRun i (roundAllocSize (add64 size metadataSize) / pageSize), f ∈ U ∧
      f ∉ F) :
    ∃ p h', malloc pmmFrames fuel s.heap size = .ok (p, h') ∧ p ≠ 0 := by
  obtain ⟨hmod, hge, _⟩ := round_pages hsize hbig
  obtain ⟨n, hn⟩ : ∃ n, n = roundAllocSize (add64 size metadataSize) / pageSize :=
    ⟨_, rfl⟩
  have hnpos : 0 < n := by
    rw [hn]
    unfold pageSize
    omega
  rw [← hn] at hrun
  have hne : ¬ (s.heap.kernel.pmmAllocz pmmFrames n).1 = 0 := h.serves_run hu hnpos hrun
  obtain ⟨hal, _⟩ := pmmAllocz_aligned n s.heap.kernel.mem s.heap.kernel.frames
  have hal' : (s.heap.kernel.pmmAllocz pmmFrames n).1 % 4096 ≤ 4056 := by
    have hal0 : (s.heap.kernel.pmmAllocz pmmFrames n).1 % 4096 = 0 := hal
    omega
  refine ⟨_, (Heap.tagged { s.heap with kernel := (s.heap.kernel.pmmAllocz pmmFrames n).2 }
    (s.heap.kernel.pmmAllocz pmmFrames n).1 n).2, ?_, tagged_ne_zero hal'⟩
  simp only [malloc, if_neg (Nat.not_le.mpr hbig), ← hn, hne, if_false]
  rfl

/-- A machine with 3.75 GiB of memory. -/
def wideMap : List MmapEntry := [⟨0x1000, 0xEFFFF000, .usable⟩]

theorem wideMap_layout : MapOk wideMap ∧ highestTop wideMap = 0xF0000000 ∧
    bitmapSize (highestTop wideMap) = 122880 :=
  mapOk_single (by decide) (by decide) (by decide) (by decide) (by decide) (by decide)

/-- The frames `pmm_init` leaves free on this map, all but those that hold the
bitmap. -/
def wideFrames : Set Nat := {f | InitiallyFree wideMap 0x1000 f}

theorem mem_wideFrames {f : Nat} (h1 : 65 ≤ f) (h2 : f < 983040) : f ∈ wideFrames :=
  initiallyFree_single rfl wideMap_layout.2.2 (by omega) (by omega) (by omega)

theorem wideMap_boot :
    pmmFrames.Lawful wideFrames (fun m pmm F => PmmCounted m pmm 0x1000 wideFrames 1005649951 F) ∧
    PmmCounted (bootKernel wideMap).mem (bootKernel wideMap).frames 0x1000 wideFrames 1005649951
      ∅ := by
  obtain ⟨hm, htop, -⟩ := wideMap_layout
  have hN : pageToBit (highestTop wideMap) ≤ 2 ^ 31 := by
    rw [htop]
    decide
  have hu : (bootKernel wideMap).frames.usedPagesCount = 1005649951 := by decide +kernel
  exact bootKernel_single rfl hm hN (by decide) hu (by decide)

/-- Twelve frames cannot meet all of thirteen aligned runs of 65536. -/
theorem free_run_of_twelve {fs : List Nat} (hlen : fs.length = 12) :
    ∃ k, 1 ≤ k ∧ k ≤ 13 ∧ ∀ f ∈ frameRun (65536 * k) 65536, f ∉ fs := by
  by_contra hcon
  push Not at hcon
  have hmeet : ∀ k ∈ List.range' 1 13, k ∈ fs.map (· / 65536) := by
    intro k hk
    have hk' := List.mem_range'_1.mp hk
    obtain ⟨f, hf, hfs⟩ := hcon k (by omega) (by omega)
    have hf' := mem_frameRun.mp hf
    exact List.mem_map.mpr ⟨f, hfs, by omega⟩
  have hnd : (List.range' 1 13).Nodup := List.nodup_range'
  have hle := (hnd.subperm hmeet).length_le
  rw [List.length_range', List.length_map, hlen] at hle
  omega

/-- `malloc(2^28 - 2)` takes 65536 pages and stores 0 for the page count: `free`
gives back none of them. -/
theorem malloc_tag_loses_page_count : ∃ h p h',
    mallocHeapInit pmmFrames (bootKernel wideMap) = .ok h ∧
    malloc pmmFrames 1 h (2 ^ 28 - 2) = .ok (p, h') ∧ p ≠ 0 ∧
    mallocTakes (2 ^ 28 - 2) = some (.pages 65536) ∧ decodeTag h'.kernel.mem p = .pages 0 ∧
    ¬ Recovers pmmFrames 1 h' h'.kernel.mem ⟨p, 2 ^ 28 - 2⟩ := by
  have hround : roundAllocSize (add64 (2 ^ 28 - 2) metadataSize) = 2 ^ 28 := by decide +kernel
  have htakes : mallocTakes (2 ^ 28 - 2) = some (.pages 65536) := by decide +kernel
  have hstock : ∀ f ∈ List.range' 65 12, f ∈ wideFrames := by
    intro f hf
    have hf' := List.mem_range'_1.mp hf
    exact mem_wideFrames hf'.1 (by omega)
  obtain ⟨h, fs, _, _, hinit, hlen, hinv⟩ :=
    mallocHeapInit_counted wideMap_boot.1 wideMap_boot.2
    (by decide) List.nodup_range' hstock (by simp)
  obtain ⟨k, hk1, hk13, hfree⟩ := free_run_of_twelve hlen
  have hn : roundAllocSize (add64 (2 ^ 28 - 2) metadataSize) / pageSize = 65536 := by
    rw [hround]
    rfl
  obtain ⟨p, h', hok, hp0⟩ :=
    malloc_pages_served (s := ⟨h, []⟩) (i := 65536 * k) hinv.good.holds
    (by decide) 1 (by rw [hround]; decide) (by decide) (fun f hf => by
      rw [hn] at hf
      have hf' := mem_frameRun.mp hf
      exact ⟨mem_wideFrames (by omega) (by omega), hfree f hf⟩)
  obtain ⟨_, hal, _, htag, _⟩ := malloc_pages_tag (s := ⟨h, []⟩) hok hp0 htakes
  have hd : decodeTag h'.kernel.mem p = .pages 0 := by
    have h0 : 65536 % 2 ^ 16 = 0 := by decide
    rw [decodeTag_pages hal, htag, h0]
  refine ⟨h, p, h', hinit, hok, hp0, htakes, hd, fun hrec => ?_⟩
  have htake := ((recovers_pages (b := ⟨p, 2 ^ 28 - 2⟩) hd hp0).mp hrec).1
  exact absurd (htakes.symm.trans htake) (by decide)

end ApoptOS
