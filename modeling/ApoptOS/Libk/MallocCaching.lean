import ApoptOS.Libk.MallocPaging

namespace ApoptOS

open Framework

/-- The values of `pat_cache_t`, which are the codes of the memory types in the PAT register. -/
def PatCache.code : PatCache → Nat
  | .uncacheable => 0
  | .writeCombining => 1
  | .writeThrough => 4
  | .writeProtected => 5
  | .writeBack => 6
  | .uncached => 7

/-- What `enable_pat` writes to the register. -/
def customPatConfig : Nat :=
  PatCache.uncacheable.code ||| PatCache.writeCombining.code <<< 8 |||
    PatCache.writeThrough.code <<< 32 ||| PatCache.writeProtected.code <<< 40 |||
    PatCache.writeBack.code <<< 48 ||| PatCache.uncached.code <<< 56

/-- The memory type of a code. The codes 2 and 3 are reserved. -/
def memoryType (code : Nat) : Option PatCache :=
  [PatCache.uncacheable, .writeCombining, .writeThrough, .writeProtected, .writeBack,
    .uncached].find? (fun pat => pat.code = code)

/-- How the CPU finds the memory type of a page: `PWT`, `PCD` and `PAT` of its entry choose one of
the eight types in the register. -/
def cacheType (config flags : Nat) : Option PatCache :=
  let index :=
    flags / pteWriteThrough % 2 + 2 * (flags / pteCacheDisabled % 2) + 4 * (flags / ptePat % 2)
  memoryType (config / 2 ^ (8 * index) % 8)

/-- The memory type of a page that is mapped with some flags, or not at all. -/
def typeOf (x : Option (Nat × Nat)) : Option PatCache :=
  x.bind (fun x => cacheType customPatConfig x.2)

def cacheMap (m : Mem) (root : Nat) : VirtPage → Option PatCache := typeOf ∘ pageMap m root

namespace MemoryOp

/-- What becomes of the memory types, as the callers ask for them. -/
def applyCache (types : VirtPage → Option PatCache) : MemoryOp → VirtPage → Option PatCache
  | .map _ ⟨_, hvirt⟩ _ pat => Function.update types hvirt.virtPage (some pat)
  | .unmap ⟨_, hvirt⟩ => Function.update types hvirt.virtPage none
  | .heap _ => types

end MemoryOp

/-- `vmm_init` maps all its pages as uncacheable. -/
def bootCaches (memoryMap : List MmapEntry) (v : VirtPage) : Option PatCache :=
  (bootPages memoryMap v).map (fun _ => .uncacheable)

/-- The flags of the VMM and the register that `enable_pat` sets belong together. -/
theorem cacheType_flags (privilege : MapPrivilege) (pat : PatCache) :
    cacheType customPatConfig (privilege.flags ||| vmmPatCacheToFlags pat) = some pat := by
  cases privilege <;> cases pat <;> decide

theorem cacheType_uncacheable (privilege : MapPrivilege) :
    cacheType customPatConfig privilege.flags = some .uncacheable := by
  cases privilege <;> decide

section Types

variable {pages : VirtPage → Option (Nat × Nat)}

theorem typeOf_applyMap (op : MemoryOp) :
    typeOf ∘ op.applyMap pages = op.applyCache (typeOf ∘ pages) := by
  cases op with
  | heap op => rfl
  | map phys virt privilege pat =>
    obtain ⟨virt, hvirt⟩ := virt
    have htype : typeOf (some (phys, privilege.flags ||| vmmPatCacheToFlags pat)) = some pat :=
      cacheType_flags privilege pat
    rw [MemoryOp.applyMap, MemoryOp.applyCache, Function.comp_update, htype]
  | unmap virt =>
    obtain ⟨virt, hvirt⟩ := virt
    rw [MemoryOp.applyMap, MemoryOp.applyCache, Function.comp_update]
    rfl

theorem typeOf_foldl (ops : List MemoryOp) :
    typeOf ∘ ops.foldl MemoryOp.applyMap pages = ops.foldl MemoryOp.applyCache
      (typeOf ∘ pages) := by
  induction ops generalizing pages with
  | nil => rfl
  | cons op ops ih => rw [List.foldl_cons, List.foldl_cons, ih, typeOf_applyMap]

theorem typeOf_windows (windows : List Window) (v : Nat) {x : Option (Nat × Nat)}
    (hx : typeOf x = x.map (fun _ => .uncacheable)) :
    typeOf (windows.foldl (fun x w => (w.value v).or x) x) =
      (windows.foldl (fun x w => (w.value v).or x) x).map (fun _ => .uncacheable) := by
  induction windows generalizing x with
  | nil => exact hx
  | cons w windows ih =>
    have hw : typeOf ((w.value v).or x) = ((w.value v).or x).map (fun _ => .uncacheable) := by
      unfold Window.value
      split_ifs
      · exact cacheType_uncacheable w.privilege
      · simpa using hx
    exact ih hw

theorem typeOf_bootPages (memoryMap : List MmapEntry) :
    typeOf ∘ bootPages memoryMap = bootCaches memoryMap := by
  funext v
  exact typeOf_windows (bootWindows memoryMap) v rfl

/-- A page is mapped if and only if it has a memory type. -/
theorem applyCache_isSome (op : MemoryOp) {types : VirtPage → Option PatCache}
    (h : ∀ v, (types v).isSome = (pages v).isSome) (v : VirtPage) :
    (op.applyCache types v).isSome = (op.applyMap pages v).isSome := by
  cases op with
  | heap op => exact h v
  | map phys virt privilege pat =>
    obtain ⟨virt, hvirt⟩ := virt
    by_cases hv : v = hvirt.virtPage
    · subst hv
      simp [MemoryOp.applyMap, MemoryOp.applyCache]
    · simp [MemoryOp.applyMap, MemoryOp.applyCache, Function.update_of_ne hv, h]
  | unmap virt =>
    obtain ⟨virt, hvirt⟩ := virt
    by_cases hv : v = hvirt.virtPage
    · subst hv
      simp [MemoryOp.applyMap, MemoryOp.applyCache]
    · simp [MemoryOp.applyMap, MemoryOp.applyCache, Function.update_of_ne hv, h]

theorem foldl_isSome (ops : List MemoryOp) {types : VirtPage → Option PatCache}
    (h : ∀ v, (types v).isSome = (pages v).isSome) (v : VirtPage) :
    (ops.foldl MemoryOp.applyCache types v).isSome =
      (ops.foldl MemoryOp.applyMap pages v).isSome := by
  induction ops generalizing pages types with
  | nil => exact h v
  | cons op ops ih => exact ih (applyCache_isSome op h)

end Types

/-- After the boot with all usable memory below `HEAP_MAX_SIZE`, in every state that `malloc`,
`free`, writes of clients and calls of the page tables reach in any order: a page is accessed with
the memory type that the last call that mapped it asked for, of those that `vmm_init` mapped
without caching, and every mapped page has a type that is not reserved. -/
theorem pages_cached_as_mapped (m : Mem) (memoryMap : List MmapEntry) (hm : MapOk memoryMap)
    (hN : pageToBit (highestTop memoryMap) ≤ 2 ^ 31)
    (hlow : ∀ e ∈ memoryMap, e.type = .usable → 4096 ≤ e.base)
    (hbound : ∀ e ∈ memoryMap, e.base + e.length ≤ 2 ^ 44)
    (hheap : ∀ e ∈ memoryMap, e.type = .usable → e.base + e.length ≤ heapMaxSize)
    (fuel : Nat) (hfuel : 2 ^ 52 ≤ fuel) (rootPageTable : Nat) (k : Kernel Pmm)
    (hvmm : vmmInit pmmFrames fuel ⟨(pmmInit m memoryMap).1, (pmmInit m memoryMap).2.1, []⟩
      (pmmInit m memoryMap).2.2 = .ok (rootPageTable, k)) (hserved : k.Served) (h : Heap Pmm)
    (hinit : mallocHeapInit pmmFrames k = .ok h) (fuel' : Nat) (ops : List MemoryOp)
    (s : HeapState Pmm)
    (hsound : HeapState.SoundMemoryRun {f | UsableFrame memoryMap f}
      (bootPages (pmmInit m memoryMap).2.2) rootPageTable fuel' ⟨h, []⟩ ops)
    (hrun : HeapState.runMemory rootPageTable fuel' ⟨h, []⟩ ops = some s) :
    cacheMap s.heap.kernel.mem (vmmLoadPageTable rootPageTable / 4096) =
      ops.foldl MemoryOp.applyCache (bootCaches (pmmInit m memoryMap).2.2) ∧
    ∀ v, (cacheMap s.heap.kernel.mem (vmmLoadPageTable rootPageTable / 4096) v).isSome =
      (pageMap s.heap.kernel.mem (vmmLoadPageTable rootPageTable / 4096) v).isSome := by
  obtain ⟨base, hbase, hptr, hstart, hpages⟩ :=
    memoryInv_boot hm hN hlow hbound hfuel hvmm hserved hinit
  have hU : {f | InitiallyFree memoryMap base f} ⊆ {f | UsableFrame memoryMap f} :=
    fun f hf => hf.2.1
  have hkept : BootKept (bootPages (pmmInit m memoryMap).2.2)
      (pageMap h.kernel.mem (vmmLoadPageTable rootPageTable / 4096)) := by
    rw [hpages]
    exact bootKept_refl _
  obtain ⟨-, -, hmap⟩ :=
    hstart.run hbase hU hptr (windowOver_boot hm hbound hheap) hkept hsound hrun
  rw [hpages] at hmap
  have hcache : cacheMap s.heap.kernel.mem (vmmLoadPageTable rootPageTable / 4096) =
      ops.foldl MemoryOp.applyCache (bootCaches (pmmInit m memoryMap).2.2) := by
    rw [cacheMap, hmap, typeOf_foldl, typeOf_bootPages]
  have hboot : ∀ v, (bootCaches (pmmInit m memoryMap).2.2 v).isSome =
      (bootPages (pmmInit m memoryMap).2.2 v).isSome := by
    intro v
    simp [bootCaches]
  refine ⟨hcache, fun v => ?_⟩
  rw [hcache, hmap]
  exact foldl_isSome ops hboot v

/-- A page of the identity mapping is mapped anew for a frame buffer. -/
theorem pages_cached_as_mapped_lowMap : ∃ rootPageTable k h s,
    vmmInit pmmFrames (2 ^ 52) (bootKernel lowMap) (bootMap lowMap) = .ok (rootPageTable, k) ∧
    mallocHeapInit pmmFrames k = .ok h ∧
    HeapState.runMemory rootPageTable 1 ⟨h, []⟩
      [.map 0x400000 ⟨0x400000, by decide⟩ .kernelReadWrite .writeCombining] = some s ∧
    cacheMap s.heap.kernel.mem (vmmLoadPageTable rootPageTable / 4096) =
      Function.update (bootCaches (bootMap lowMap)) ⟨0x400000, by decide⟩
        (some .writeCombining) := by
  have hN : pageToBit (highestTop lowMap) ≤ 2 ^ 31 := by
    rw [lowMap_frames]
    decide
  obtain ⟨rootPageTable, k, h, hvmm, hserved, hinit, -, hheap, hpage⟩ := lowMap_booted
  obtain ⟨base, hbase, hptr, hstart, hpages⟩ := memoryInv_boot (m := fun _ => 0#8)
    lowMap_layout.1 hN (by decide) (by decide) (le_refl (2 ^ 52)) hvmm hserved hinit
  have hsound : HeapState.SoundMemoryRun {f | UsableFrame lowMap f} (bootPages (bootMap lowMap))
      rootPageTable 1 ⟨h, []⟩
      [.map 0x400000 ⟨0x400000, by decide⟩ .kernelReadWrite .writeCombining] := by
    refine ⟨?_, fun _ _ => trivial⟩
    refine hstart.map_sound hptr (by decide) (by decide) (by decide) (x := (0x400000, 3)) ?_ _ _
      (fun x hx => Option.some.inj (hx.symm.trans hpage))
    rw [hpages]
    exact hpage
  refine ⟨rootPageTable, k, h, _, hvmm, hinit, rfl, ?_⟩
  exact (pages_cached_as_mapped (fun _ => 0#8) lowMap lowMap_layout.1 hN (by decide) (by decide)
    hheap (2 ^ 52) (le_refl _) rootPageTable k hvmm hserved h hinit 1 _ _ hsound rfl).1

end ApoptOS
