import ApoptOS.Libk.MallocPages
import ApoptOS.Memory.Virtual.VmmInit

namespace ApoptOS

open Framework

/-- The window at `HEAP_START_ADDR` as `vmm_init` leaves it. -/
def WindowMapped (m : Mem) (root : Nat) : Prop :=
  ∀ a < 2 ^ 44, a % 4096 = 0 → translate m root (a + heapStartAddr) =
    if a < heapMaxSize then some (a, MapPrivilege.kernelReadWrite.flags) else none

/-- Every page of a block of `size` bytes at `p` and of its tag is mapped to the physical page at
its address less `HEAP_START_ADDR`. -/
def HeapMapped (m : Mem) (root p size : Nat) : Prop :=
  ∀ v, v % 4096 = 0 → p - metadataSize < v + 4096 → v < p + size →
    ∃ flags, translate m root v = some (heapPhys v, flags)

/-- What a request is about to be served from lies below `HEAP_MAX_SIZE`: the slab of its class,
or the lowest run of pages that the search accepts. -/
def ServedFromWindow (h : Heap Pmm) (size : Nat) : Prop :=
  match blockClass size with
  | some i => h.kernel.cacheSlabsHead (h.slabCaches.getD i 0) < heapMaxSize
  | none => ∀ j, LowestProbe h.kernel.mem h.kernel.frames
      (roundAllocSize (add64 size metadataSize) / pageSize) j →
        j * pageSize + roundAllocSize (add64 size metadataSize) ≤ heapMaxSize

section Window

variable {m m' : Mem} {root b size : Nat} {S F : Set Nat}

theorem WindowMapped.of_sameOn (h : WindowMapped m root) (htree : PageTree m root S)
    (hS : S ⊆ F) (hsame : Mem.SameOn (frameBytes F) m m') : WindowMapped m' root := by
  obtain ⟨-, -, htrans⟩ := htree.congr (fun t ht j hj => tables_sameOn hsame (hS ht) hj)
  intro a ha hmod
  rw [htrans]
  exact h a ha hmod

/-- A block is mapped if and only if it ends in the window. -/
theorem heapMapped_iff (h : WindowMapped m root) (hb : b + size + 2 ≤ 2 ^ 44) :
    HeapMapped m root (b + 2 + heapStartAddr) size ↔ b + size + 2 ≤ heapMaxSize := by
  constructor
  · intro hmapped
    -- the page of the last byte
    obtain ⟨a, ha⟩ : ∃ a, a = (b + size + 1) / 4096 * 4096 := ⟨_, rfl⟩
    obtain ⟨flags, hflags⟩ := hmapped (a + heapStartAddr) (by unfold heapStartAddr; omega)
      (by unfold metadataSize; omega) (by omega)
    by_contra hcon
    rw [h a (by omega) (by omega), if_neg (by unfold heapMaxSize gib at hcon ⊢; omega)] at hflags
    simp at hflags
  · intro hend v hv hlow hhigh
    obtain ⟨a, rfl⟩ : ∃ a, v = a + heapStartAddr := by
      refine ⟨v - heapStartAddr, ?_⟩
      unfold metadataSize heapStartAddr at *
      omega
    have hphys : heapPhys (a + heapStartAddr) = a := by
      unfold heapPhys sub64 heapStartAddr
      omega
    refine ⟨MapPrivilege.kernelReadWrite.flags, ?_⟩
    rw [h a (by omega) (by unfold heapStartAddr at hv; omega), if_pos (by omega), hphys]

end Window

namespace HeapInv

variable {base fuel size p : Nat} {U F W : Set Nat} {s : HeapState Pmm} {h' : Heap Pmm}
  {caches : List SlabCache} {view : Nat → CacheView}

/-- The head of a cache's list is its only slab. -/
theorem head_slab (h : HeapInv (pmmHolds base U) s F caches view) {i : Nat} {c : SlabCache}
    (hc : caches[i]? = some c) {v : SlabView} (hv : (view i).slabs = [v]) :
    s.heap.kernel.cacheSlabsHead (s.heap.slabCaches.getD i 0) = v.addr := by
  have hlist := (h.good.cache i c hc).inv.slabList
  rw [hv] at hlist
  rw [h.cache_eq hc]
  exact hlist.1

/-- A block of a class lies in the slab of its cache. -/
theorem malloc_slab_place (hbase : 4096 ≤ base) (h : HeapInv (pmmHolds base U) s F caches view)
    {i : Nat} (hclass : blockClass size = some i) (hsize : size < 2 ^ 48)
    (hok : malloc pmmFrames fuel s.heap size = .ok (p, h')) :
    ∃ v : SlabView, s.heap.kernel.cacheSlabsHead (s.heap.slabCaches.getD i 0) = v.addr ∧
      v.frame ∈ F ∧ ∃ b, p = b + 2 + heapStartAddr ∧ v.frame * 4096 ≤ b ∧
        b + size + 2 ≤ v.addr := by
  have hA := pmmHolds_lawful hbase h.pmm
  have hsmall := small_of_class (by omega) hclass
  obtain ⟨j, n, hj, hround, hn, hfit⟩ := blockClass_small hsmall
  obtain rfl : i = j := Option.some.inj (hclass.symm.trans hj)
  obtain ⟨c, hc, hcs⟩ := h.cache_exists (sizeToSlabCacheIndex_some hclass)
  obtain ⟨v, hv, hframes, -⟩ := h.oneSlab i c hc
  have hci := h.good.cache i c hc
  have hvF : v.frame ∈ F := hci.framesHeld (by rw [hframes]; exact Set.mem_singleton _)
  obtain ⟨hfuel, b, tail, hfree⟩ := h.malloc_slab_ok hA hround hn hclass hc hv hok
  obtain ⟨m', q, hok', -, -, hq, -, -⟩ := h.malloc_slab hA hround hn hclass hc hv hfree hfuel
  obtain ⟨rfl, -⟩ := Prod.mk.inj (Except.ok.inj (hok.symm.trans hok'))
  obtain ⟨f, hf, k, rfl, hend⟩ := hci.inv.slot_of_free (v := v) (by rw [hv]; simp) (b := b)
    (by rw [hfree]; simp)
  obtain rfl : f = v.frame := by
    rw [hframes] at hf
    exact hf
  have hlt := h.frame_lt hvF
  refine ⟨v, h.head_slab hc hv, hvF, v.frame * 4096 + c.size * k, ?_, by omega, ?_⟩
  · rw [hq]
    unfold add64 metadataSize heapStartAddr
    omega
  · rw [hround] at hcs
    unfold SlabView.addr
    omega

/-- A block of whole pages lies in the lowest run that the search accepts. -/
theorem malloc_page_place (h : HeapInv (pmmHolds base U) s F caches view)
    (hbig : 512 < roundAllocSize (add64 size metadataSize)) (hsize : size < 2 ^ 64)
    (hop : HeapOp.Sound W s (.malloc size))
    (hok : malloc pmmFrames fuel s.heap size = .ok (p, h')) (hp : p ≠ 0) :
    ∃ j, LowestProbe s.heap.kernel.mem s.heap.kernel.frames
        (roundAllocSize (add64 size metadataSize) / pageSize) j ∧
      p = j * 4096 + 2 + heapStartAddr ∧
      j + roundAllocSize (add64 size metadataSize) / pageSize ≤ 2 ^ 31 := by
  obtain ⟨n, hn⟩ : ∃ n, n = roundAllocSize (add64 size metadataSize) / pageSize :=
    ⟨_, rfl⟩
  obtain ⟨hfull, -⟩ := hop.2 hbig
  have hpos : 0 < n := by
    rw [hn]
    have hmod := (round_pages hsize hbig).1
    unfold pageSize
    omega
  rw [← hn] at hfull ⊢
  have htop := h.pmm.topLe
  have hsizeLe := h.pmm.sizeLe
  have hptr : (s.heap.kernel.pmmAllocz pmmFrames n).1 =
    (pmmAlloc n s.heap.kernel.mem s.heap.kernel.frames).1 := rfl
  simp only [malloc, if_neg (Nat.not_le.mpr hbig), ← hn, hptr] at hok
  rcases h.pmm.alloc hpos hfull with ⟨hnone, -⟩ | ⟨j, hj, hj0, hin, -, hrun, -, -⟩
  · rw [hnone, if_pos rfl] at hok
    exact absurd (Prod.mk.inj (Except.ok.inj hok)).1.symm hp
  · rw [hrun, if_neg (by omega)] at hok
    refine ⟨j, hj, ?_, by omega⟩
    rw [← (Prod.mk.inj (Except.ok.inj hok)).1]
    unfold add64 metadataSize heapStartAddr
    omega

/-- Where a block is and when it ends in the window. -/
theorem malloc_place (hbase : 4096 ≤ base) (h : HeapInv (pmmHolds base U) s F caches view)
    (hsize : size < 2 ^ 48) (hop : HeapOp.Sound W s (.malloc size))
    (hok : malloc pmmFrames fuel s.heap size = .ok (p, h')) (hp : p ≠ 0) :
    ∃ b, p = b + 2 + heapStartAddr ∧ b + size + 2 ≤ 2 ^ 44 ∧
      (b + size + 2 ≤ heapMaxSize ↔ ServedFromWindow s.heap size) := by
  have hmax : heapMaxSize = 2 ^ 20 * 4096 := rfl
  rcases hclass : blockClass size with _ | i
  · have hbig := large_of_class (by omega) hclass
    obtain ⟨hmod, hfit, -, -, hround⟩ := round_pages hop.1 hbig
    obtain ⟨j, hj, hpj, hj31⟩ := h.malloc_page_place hbig hop.1 hop hok hp
    have hwindow : ServedFromWindow s.heap size ↔
        j * pageSize + roundAllocSize (add64 size metadataSize) ≤ heapMaxSize := by
      simp only [ServedFromWindow, hclass]
      exact ⟨fun hall => hall j hj, fun hle j' hj' => hj'.unique hj ▸ hle⟩
    rw [hwindow]
    unfold pageSize at hj31 ⊢
    exact ⟨j * 4096, hpj, by omega, by omega⟩
  · obtain ⟨v, hv, hvF, b, hpb, hlow, hend⟩ := h.malloc_slab_place hbase hclass hsize hok
    have hlt := h.frame_lt hvF
    unfold SlabView.addr at hv hend
    have hwindow : ServedFromWindow s.heap size ↔ v.frame * 4096 + 4056 < heapMaxSize := by
      simp only [ServedFromWindow, hclass, hv]
    rw [hwindow]
    exact ⟨b, hpb, by omega, by omega⟩

/-- Where all usable memory lies below `HEAP_MAX_SIZE`, every request is served from there. -/
theorem servedFromWindow_of_low (h : HeapInv (pmmHolds base U) s F caches view)
    (hlow : ∀ f ∈ U, f < 2 ^ 20) (hsize : size < 2 ^ 48)
    (hop : HeapOp.Sound W s (.malloc size)) :
    ServedFromWindow s.heap size := by
  have hmax : heapMaxSize = 2 ^ 20 * 4096 := rfl
  unfold ServedFromWindow
  rcases hclass : blockClass size with _ | i
  · intro j hj
    have hbig := large_of_class (by omega) hclass
    obtain ⟨hmod, -⟩ := round_pages hop.1 hbig
    obtain ⟨hin, hclear⟩ := (hop.2 hbig).1 j hj
    -- the last frame of the run
    have hlast := h.pmm.run_free hin hclear
      (j + roundAllocSize (add64 size metadataSize) / pageSize - 1)
      (mem_frameRun.mpr (by unfold pageSize; omega))
    have hlt := hlow _ hlast.1
    unfold pageSize at hlt ⊢
    omega
  · obtain ⟨c, hc, -⟩ := h.cache_exists (sizeToSlabCacheIndex_some hclass)
    obtain ⟨v, hv, hframes, -⟩ := h.oneSlab i c hc
    have hvF : v.frame ∈ F :=
      (h.good.cache i c hc).framesHeld (by rw [hframes]; exact Set.mem_singleton _)
    have hlt := hlow _ (h.pmm.held hvF)
    dsimp only
    rw [h.head_slab hc hv]
    unfold SlabView.addr
    omega

/-- `malloc` in the state a sound run reaches after `malloc_heap_init`, on page tables that map the
window. -/
theorem mapped_after_run (hbase : 4096 ≤ base) (hU : U ⊆ W) {k : Kernel Pmm} {root : Nat}
    {S : Set Nat} (hk : VmmState (pmmHolds base U) k root S F) (hwindow : WindowMapped k.mem root)
    {h : Heap Pmm} (hinit : mallocHeapInit pmmFrames k = .ok h) {ops : List HeapOp}
    (hsound : HeapState.SoundRun W fuel ⟨h, []⟩ ops)
    (hrun : HeapState.run pmmFrames fuel ⟨h, []⟩ ops = some s) (hsize : size < 2 ^ 48)
    (hop : HeapOp.Sound W s (.malloc size))
    (hok : malloc pmmFrames fuel s.heap size = .ok (p, h')) (hp : p ≠ 0) :
    HeapMapped h'.kernel.mem root p size ↔ ServedFromWindow s.heap size := by
  obtain ⟨F', caches, view, hinv, hsizes, hV, hsame⟩ :=
    HeapInv.of_init hbase hk.holds hinit hU hsound hrun
  have hexec : s.exec pmmFrames fuel (.malloc size) = some ⟨h', ⟨p, size⟩ :: s.blocks⟩ := by
    simp only [HeapState.exec, hok, if_neg hp]
  obtain ⟨-, -, -, -, -, -, hsame'⟩ := hinv.step_malloc hbase hU hsizes hV hop hexec
  obtain ⟨b, rfl, hb, hplace⟩ := hinv.malloc_place hbase hsize hop hok hp
  rw [heapMapped_iff (hwindow.of_sameOn hk.tree hk.held (hsame.trans hsame')) hb]
  exact hplace

end HeapInv

section Boot

variable {ρ : Type} {A : PageFrames ρ} {U : Set Nat} {Holds : Mem → ρ → Set Nat → Prop}
  {k : Kernel ρ} {F : Set Nat} {memoryMap : List MmapEntry}

/-- What the heap needs of `vmm_init`. -/
theorem vmmKernel_window (hA : A.Lawful U Holds) (hlow : ∀ f ∈ U, f < 2 ^ 32)
    (hF : Holds k.mem k.frames F) (hbound : ∀ e ∈ memoryMap, e.base + e.length ≤ 2 ^ 44)
    (hs : (vmmKernel A k memoryMap).Served) :
    ∃ root S F', vmmLoadPageTable (physToHigherHalfData (k.pmmAllocz A 1).1) / 4096 = root ∧
      VmmState Holds (vmmKernel A k memoryMap) root S F' ∧
      WindowMapped (vmmKernel A k memoryMap).mem root := by
  obtain ⟨root, S, F', hpage, -, hroot, hstate, htrans⟩ := vmmKernel_state hA hlow hF hbound hs
  refine ⟨root, S, F', by rw [hpage, vmmLoadPageTable_root hroot], hstate, fun a ha hmod => ?_⟩
  rw [htrans _ (by unfold CanonicalPage Canonical heapStartAddr; omega)]
  exact bootWindows_heap hbound ha

end Boot

/-- `vmm_init` after `pmm_init`: with all requests served it leaves a tree of tables of frames of
its own, with the heap's window mapped. -/
theorem vmmInit_window {m : Mem} {memoryMap : List MmapEntry} (hm : MapOk memoryMap)
    (hN : pageToBit (highestTop memoryMap) ≤ 2 ^ 31)
    (hlow : ∀ e ∈ memoryMap, e.type = .usable → 4096 ≤ e.base)
    (hbound : ∀ e ∈ memoryMap, e.base + e.length ≤ 2 ^ 44) {fuel : Nat}
    (hfuel : 2 ^ 52 ≤ fuel) :
    ∃ base rootPageTable k, 4096 ≤ base ∧
      vmmInit pmmFrames fuel ⟨(pmmInit m memoryMap).1, (pmmInit m memoryMap).2.1, []⟩
        (pmmInit m memoryMap).2.2 = .ok (rootPageTable, k) ∧
      (k.Served → ∃ S F,
        VmmState (pmmHolds base {f | InitiallyFree memoryMap base f}) k
          (vmmLoadPageTable rootPageTable / 4096) S F ∧
        WindowMapped k.mem (vmmLoadPageTable rootPageTable / 4096)) := by
  obtain ⟨base, hinv, -, -, ⟨e, he, husable, hbase⟩, -⟩ := pmmInit_spec m hm hN
  have hbase4 : 4096 ≤ base := hbase ▸ hlow e he husable
  have hA := pmmHolds_lawful hbase4 hinv
  have hframes : ∀ f ∈ {f | InitiallyFree memoryMap base f}, f < 2 ^ 32 :=
    fun f hf => (initiallyFree_lt hm hN hf).trans (by decide)
  have hcut := hostBitmap_bound hm.host (by decide : 2 ^ 44 < 2 ^ 64) hbound
  have hF : pmmHolds base {f | InitiallyFree memoryMap base f}
    (pmmInit m memoryMap).1 (pmmInit m memoryMap).2.1 ∅ := hinv
  refine ⟨base, _, _, hbase4, vmmInit_ok (k := ⟨_, _, []⟩) hA hframes hF hcut hfuel, ?_⟩
  intro hserved
  obtain ⟨root, S, F, hroot, hstate, hwindow⟩ :=
    vmmKernel_window (k := ⟨_, _, []⟩) hA hframes hF hcut hserved
  rw [← hroot] at hstate hwindow
  exact ⟨S, F, hstate, hwindow⟩

/-- After `pmm_init`, `vmm_init` and `malloc_heap_init`, in every state a sound run of the heap
reaches: a block is mapped as a whole at its address less `HEAP_START_ADDR`, if and only if it was
taken from below `HEAP_MAX_SIZE`. `pmm_alloc` does not know that bound. -/
theorem malloc_mapped_iff (m : Mem) (memoryMap : List MmapEntry) (hm : MapOk memoryMap)
    (hN : pageToBit (highestTop memoryMap) ≤ 2 ^ 31)
    (hlow : ∀ e ∈ memoryMap, e.type = .usable → 4096 ≤ e.base)
    (hbound : ∀ e ∈ memoryMap, e.base + e.length ≤ 2 ^ 44) (fuel : Nat)
    (hfuel : 2 ^ 52 ≤ fuel) (rootPageTable : Nat) (k : Kernel Pmm)
    (hvmm : vmmInit pmmFrames fuel ⟨(pmmInit m memoryMap).1, (pmmInit m memoryMap).2.1, []⟩
      (pmmInit m memoryMap).2.2 = .ok (rootPageTable, k)) (hserved : k.Served) (h : Heap Pmm)
    (hinit : mallocHeapInit pmmFrames k = .ok h) (fuel' : Nat) (ops : List HeapOp)
    (s : HeapState Pmm)
    (hsound : HeapState.SoundRun {f | UsableFrame memoryMap f} fuel' ⟨h, []⟩ ops)
    (hrun : HeapState.run pmmFrames fuel' ⟨h, []⟩ ops = some s) (size : Nat)
    (hsize : size < 2 ^ 48) (hop : HeapOp.Sound {f | UsableFrame memoryMap f} s (.malloc size))
    (p : Nat) (h' : Heap Pmm) (hok : malloc pmmFrames fuel' s.heap size = .ok (p, h'))
    (hp : p ≠ 0) :
    HeapMapped h'.kernel.mem (vmmLoadPageTable rootPageTable / 4096) p size ↔
      ServedFromWindow s.heap size := by
  obtain ⟨base, _, _, hbase, hvmm', hwindow⟩ := vmmInit_window (m := m) hm hN hlow hbound hfuel
  obtain ⟨rfl, rfl⟩ := Prod.mk.inj (Except.ok.inj (hvmm.symm.trans hvmm'))
  obtain ⟨S, F, hstate, hmapped⟩ := hwindow hserved
  exact HeapInv.mapped_after_run hbase (fun f hf => hf.2.1) hstate hmapped hinit hsound hrun hsize
    hop hok hp

/-- The boot up to the heap, with twelve frames more than the page tables can take. -/
theorem bootKernel_heap {memoryMap : List MmapEntry} (hm : MapOk memoryMap)
    (hN : pageToBit (highestTop memoryMap) ≤ 2 ^ 31)
    (hlow : ∀ e ∈ memoryMap, e.type = .usable → 4096 ≤ e.base)
    (hbound : ∀ e ∈ memoryMap, e.base + e.length ≤ 2 ^ 44)
    (hpage : 1 ≤ pageToBit (highestTop memoryMap)) {a b : Nat} (hroom : 28672 + 12 ≤ b - a)
    (hfree : ∀ e ∈ memoryMap, e.type = .usable → ∀ f, a ≤ f → f < b →
      InitiallyFree memoryMap e.base f)
    (hsmall : ∀ e ∈ bootMap memoryMap, e.length ≤ 4 * gib) :
    ∃ base rootPageTable k h, 4096 ≤ base ∧
      vmmInit pmmFrames (2 ^ 52) (bootKernel memoryMap) (bootMap memoryMap) =
        .ok (rootPageTable, k) ∧ k.Served ∧ mallocHeapInit pmmFrames k = .ok h ∧
      ∃ F caches view,
        HeapInv (pmmHolds base {f | InitiallyFree memoryMap base f}) ⟨h, []⟩ F caches view := by
  obtain ⟨base, u0, root, F, ⟨e, he, husable, hbase⟩, hu, hA, hcount, hserved, hwithin⟩ :=
    bootKernel_vmm hm hN hlow hpage (by omega : 28672 < b - a) hfree hsmall
  have hbase4 : 4096 ≤ base := hbase ▸ hlow e he husable
  obtain ⟨stock, hnd, hlen, hstock⟩ :=
    exists_outside (hwithin.encard_le.trans bootPaths_prefixes) hroom
  obtain ⟨h, hinit⟩ := mallocHeapInit_served hA hwithin.state.holds
    (fun m r F hF f hf hfF => PmmCounted.serves hF hu hf hfF) hnd (fun f hf => by
      obtain ⟨h1, h2, h3⟩ := hstock f hf
      exact ⟨hbase ▸ hfree e he husable f h1 h2, h3⟩) hlen.ge
  have hnone : HeapState.SoundRun Set.univ 0 ⟨h, []⟩ [] := trivial
  obtain ⟨F', caches, view, hinv, -, -, -⟩ :=
    HeapInv.of_init hbase4 hwithin.state.holds.inv hinit
    (Set.subset_univ _) hnone rfl
  refine ⟨base, _, _, h, hbase4, vmmInit_ok hA ?_ hcount ?_ (le_refl _), hserved, hinit, F',
    caches, view, hinv⟩
  · exact fun f hf => (initiallyFree_lt hm hN hf).trans (by decide)
  · exact hostBitmap_bound hm.host (by decide) hbound

/-- A small request with all frames below 4 GiB: the block and its tag are mapped. -/
theorem malloc_mapped_iff_lowMap : ∃ rootPageTable k h s p h',
    vmmInit pmmFrames (2 ^ 52) (bootKernel lowMap) (bootMap lowMap) = .ok (rootPageTable, k) ∧
    mallocHeapInit pmmFrames k = .ok h ∧
    HeapState.run pmmFrames 1 ⟨h, []⟩ [.malloc 510] = some s ∧
    malloc pmmFrames 1 s.heap 100 = .ok (p, h') ∧ p ≠ 0 ∧
    HeapMapped h'.kernel.mem (vmmLoadPageTable rootPageTable / 4096) p 100 := by
  have hentry : ∀ e ∈ bootMap lowMap, e = ⟨0x103000, 0xFFFD000, .usable⟩ := by
    rw [bootMap_lowMap]
    simp
  have hN : pageToBit (highestTop lowMap) ≤ 2 ^ 31 := by
    rw [lowMap_frames]
    decide
  obtain ⟨base, rootPageTable, k, h, hbase, hvmm, hserved, hinit, F, caches, view, hinv⟩ :=
    bootKernel_heap lowMap_layout.1 hN (by decide) (by decide) (by rw [lowMap_frames]; decide)
      (by decide : 28672 + 12 ≤ 65792 - 259) lowMap_free (fun e he => by rw [hentry e he]; decide)
  have hA := pmmHolds_lawful hbase hinv.pmm
  have hclass : blockClass 100 = some 3 ∧ blockClass 510 = some 5 := by decide +kernel
  have hsmall : ¬ 512 < roundAllocSize (add64 100 metadataSize) ∧
    ¬ 512 < roundAllocSize (add64 510 metadataSize) := by decide +kernel
  have hcap : 4056 / roundAllocSize (add64 100 metadataSize) - 1 = 30 ∧
    4056 / roundAllocSize (add64 510 metadataSize) - 1 = 6 := by decide +kernel
  obtain ⟨h1, q, _, _, _, _, hs1, hinv1⟩ := hinv.exec_malloc hA hclass.2
    (by rw [hcap.2]; simp [slabBlocks]) (le_refl 1)
  obtain ⟨h', p, _, _, hok, hp, _, _⟩ := hinv1.exec_malloc hA hclass.1
    (by rw [hcap.1]; simp [slabBlocks, hclass.2]) (le_refl 1)
  have hrun : HeapState.run pmmFrames 1 ⟨h, []⟩ [.malloc 510] =
      some ⟨h1, [⟨q, 510⟩]⟩ := by
    simp only [HeapState.run, hs1, Option.bind_some]
  have hsound : HeapState.SoundRun {f | UsableFrame lowMap f} 1 ⟨h, []⟩ [.malloc 510] :=
    ⟨⟨by decide, fun hbig => absurd hbig hsmall.2⟩, fun _ _ => trivial⟩
  have hop : HeapOp.Sound {f | UsableFrame lowMap f} ⟨h1, [⟨q, 510⟩]⟩ (.malloc 100) :=
    ⟨by decide, fun hbig => absurd hbig hsmall.1⟩
  have hframes : ∀ f ∈ {f | InitiallyFree lowMap base f}, f < 2 ^ 20 := by
    rintro f ⟨-, ⟨e, he, -, -, hlt⟩, -⟩
    rw [List.mem_singleton.mp he] at hlt
    dsimp only at hlt
    omega
  refine ⟨rootPageTable, k, h, _, p, h', hvmm, hinit, hrun, hok, hp, ?_⟩
  exact (malloc_mapped_iff (fun _ => 0#8) lowMap lowMap_layout.1 hN (by decide) (by decide) (2 ^ 52)
    (le_refl _) rootPageTable k hvmm hserved h hinit 1 _ _ hsound hrun 100 (by decide) hop p h' hok
    hp).mpr (hinv1.servedFromWindow_of_low hframes (by decide) hop)

/-- With all memory above 4 GiB not even the first block is mapped. -/
theorem malloc_misses_window : ∃ rootPageTable k h p h',
    vmmInit pmmFrames (2 ^ 52) (bootKernel highMap) (bootMap highMap) = .ok (rootPageTable, k) ∧
    k.Served ∧ mallocHeapInit pmmFrames k = .ok h ∧ malloc pmmFrames 1 h 100 = .ok (p, h') ∧
    p ≠ 0 ∧ ¬ HeapMapped h'.kernel.mem (vmmLoadPageTable rootPageTable / 4096) p 100 := by
  have hentry : ∀ e ∈ bootMap highMap, e = ⟨0x100022000, 0xFFDE000, .usable⟩ := by
    rw [bootMap_highMap]
    simp
  have hN : pageToBit (highestTop highMap) ≤ 2 ^ 31 := by
    rw [highMap_frames]
    decide
  obtain ⟨base, rootPageTable, k, h, hbase, hvmm, hserved, hinit, F, caches, view, hinv⟩ :=
    bootKernel_heap highMap_layout.1 hN (by decide) (by decide) (by rw [highMap_frames]; decide)
      (by decide : 28672 + 12 ≤ 1114112 - 1048610) highMap_free
      (fun e he => by rw [hentry e he]; decide)
  have hclass : blockClass 100 = some 3 := by decide +kernel
  have hsmall : ¬ 512 < roundAllocSize (add64 100 metadataSize) := by decide +kernel
  have hcap : 4056 / roundAllocSize (add64 100 metadataSize) - 1 = 30 := by decide +kernel
  obtain ⟨h', p, _, _, hok, hp, _, _⟩ :=
    hinv.exec_malloc (pmmHolds_lawful hbase hinv.pmm) hclass
    (by rw [hcap]; simp [slabBlocks]) (le_refl 1)
  have hsound : HeapState.SoundRun {f | UsableFrame highMap f} 1 ⟨h, []⟩ [] := trivial
  have hop : HeapOp.Sound {f | UsableFrame highMap f} ⟨h, []⟩ (.malloc 100) :=
    ⟨by decide, fun hbig => absurd hbig hsmall⟩
  obtain ⟨base', _, _, hbase', hvmm', hwindow⟩ :=
    vmmInit_window (m := fun _ => 0#8) highMap_layout.1 hN
    (by decide) (by decide) (le_refl (2 ^ 52))
  obtain ⟨rfl, rfl⟩ := Prod.mk.inj (Except.ok.inj (hvmm.symm.trans hvmm'))
  obtain ⟨S, F', hstate, hmapped⟩ := hwindow hserved
  refine ⟨_, _, h, p, h', hvmm, hserved, hinit, hok, hp, fun hblock => ?_⟩
  have hserve := (HeapInv.mapped_after_run hbase' (fun f hf => hf.2.1) hstate hmapped hinit hsound
    rfl (by decide : 100 < 2 ^ 48) hop hok hp).mp hblock
  -- the slab is one of the frames, which all lie above
  obtain ⟨v, hv, hvF, -⟩ := hinv.malloc_slab_place hbase hclass (by decide) hok
  obtain ⟨-, ⟨e, he, -, hge, -⟩, -⟩ := hinv.pmm.held hvF
  rw [List.mem_singleton.mp he] at hge
  simp only [ServedFromWindow, hclass, hv] at hserve
  unfold SlabView.addr heapMaxSize gib at hserve
  dsimp only at hge
  omega

end ApoptOS
