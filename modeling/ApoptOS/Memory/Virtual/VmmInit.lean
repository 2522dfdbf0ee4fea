import ApoptOS.Memory.Virtual.PageRoom

namespace ApoptOS

open Framework

variable {ρ : Type} (A : PageFrames ρ)

/-- The loop of `vmm_init` over the memory map. -/
def mapEntries (fuel pageTable : Nat) : List MmapEntry → Kernel ρ → Except Halt (Kernel ρ)
  | [], k => .ok k
  | e :: memoryMap, k => do
    let k ← vmmMapRange A fuel k pageTable 0 e.length higherHalfData
      MapPrivilege.kernelReadWrite.flags .uncacheable
    mapEntries fuel pageTable memoryMap k

/-- `vmm_init` with the root page table it leaves in its static variable. `enable_pat` changes
nothing that is modelled. -/
def vmmInit (fuel : Nat) (k : Kernel ρ) (memoryMap : List MmapEntry) :
    Except Halt (Nat × Kernel ρ) := do
  let r := k.pmmAllocz A 1
  let rootPageTable := physToHigherHalfData r.1
  if rootPageTable = 0 then
    .error (.panic "Assert failed at: %s:%d with %s as the condition\n" 59)
  else
    let k ← vmmMapRange A fuel r.2 rootPageTable 0 (4 * gib) 0
      MapPrivilege.kernelReadWrite.flags .uncacheable
    let k ← vmmMapRange A fuel k rootPageTable 0 (4 * gib) higherHalfData
      MapPrivilege.kernelReadWrite.flags .uncacheable
    let k ← vmmMapRange A fuel k rootPageTable 0 heapMaxSize heapStartAddr
      MapPrivilege.kernelReadWrite.flags .uncacheable
    let k ← vmmMapRange A fuel k rootPageTable 0 (2 * gib) higherHalfCode
      MapPrivilege.kernelRead.flags .uncacheable
    let k ← mapEntries A fuel rootPageTable memoryMap k
    return (rootPageTable, k)

/-- What `vmm_load_page_table` puts into cr3. -/
def vmmLoadPageTable (pageTable : Nat) : Nat := sub64 pageTable higherHalfData

/-- A range from physical address 0 on, mapped with an offset. -/
structure Window where
  length : Nat
  offset : Nat
  privilege : MapPrivilege

/-- The ranges `vmm_init` maps, in order. -/
def bootWindows (memoryMap : List MmapEntry) : List Window :=
  [⟨4 * gib, 0, .kernelReadWrite⟩, ⟨4 * gib, higherHalfData, .kernelReadWrite⟩,
    ⟨heapMaxSize, heapStartAddr, .kernelReadWrite⟩,
    ⟨2 * gib, higherHalfCode, .kernelRead⟩] ++
    memoryMap.map (fun e => ⟨e.length, higherHalfData, .kernelReadWrite⟩)

def mapWindows (fuel pageTable : Nat) : List Window → Kernel ρ → Except Halt (Kernel ρ)
  | [], k => .ok k
  | w :: windows, k => do
    let k ← vmmMapRange A fuel k pageTable 0 w.length w.offset w.privilege.flags .uncacheable
    mapWindows fuel pageTable windows k

/-- What a window has for the page at `v`. -/
def Window.value (w : Window) (v : Nat) : Option (Nat × Nat) :=
  if sub64 v w.offset < w.length then some (sub64 v w.offset, w.privilege.flags) else none

/-- The windows lie below 16 TiB of physical memory and at canonical addresses. -/
structure Window.Fits (w : Window) : Prop where
  length : w.length ≤ 2 ^ 44
  offset : w.offset % 4096 = 0
  canonical : ∀ i < w.length, i % 4096 = 0 → Canonical (add64 i w.offset)

variable {A} {U : Set Nat} {Holds : Mem → ρ → Set Nat → Prop} {k k' : Kernel ρ}
  {fuel pageTable root v p : Nat} {S F : Set Nat} {w : Window} {windows : List Window}
  {memoryMap : List MmapEntry}

theorem mapEntries_eq (memoryMap : List MmapEntry) (k : Kernel ρ) :
    mapEntries A fuel pageTable memoryMap k = mapWindows A fuel pageTable
      (memoryMap.map (fun e => ⟨e.length, higherHalfData, .kernelReadWrite⟩)) k := by
  induction memoryMap generalizing k with
  | nil => rfl
  | cons e memoryMap ih =>
    rw [mapEntries, List.map_cons, mapWindows]
    exact bind_congr (fun k => ih k)

/-- `vmm_init` maps the windows of the memory map into a fresh root table. -/
theorem vmmInit_eq (k : Kernel ρ) (memoryMap : List MmapEntry)
    (hroot : physToHigherHalfData (k.pmmAllocz A 1).1 ≠ 0) :
    vmmInit A fuel k memoryMap =
      (fun k' => (physToHigherHalfData (k.pmmAllocz A 1).1, k')) <$>
        mapWindows A fuel (physToHigherHalfData (k.pmmAllocz A 1).1) (bootWindows memoryMap)
          (k.pmmAllocz A 1).2 := by
  unfold vmmInit bootWindows
  simp only [if_neg hroot, List.cons_append, List.nil_append, mapWindows, mapEntries_eq,
    map_eq_pure_bind, bind_assoc]

/-- The kernel after the loop of `vmm_map_range` over a window. -/
def mapWindow (A : PageFrames ρ) (pageTable : Nat) (w : Window) (k : Kernel ρ) : Kernel ρ :=
  (pagesBetween 0 (alignUp w.length pageSize)).foldl (fun k i =>
    vmmMapPage A k pageTable i (add64 i w.offset) w.privilege.flags .uncacheable) k

theorem mapRange_eq (hlen : w.length ≤ 2 ^ 44) (hfuel : 2 ^ 52 ≤ fuel) (k : Kernel ρ) :
    vmmMapRange A fuel k pageTable 0 w.length w.offset w.privilege.flags .uncacheable =
      .ok (mapWindow A pageTable w k) := by
  have hdown : alignDown 0 pageSize = 0 := by decide
  have hloop := rangeLoop_eq (fun i k =>
    vmmMapPage A k pageTable i (add64 i w.offset) w.privilege.flags .uncacheable)
    (by decide : 0 < 2 ^ 64) (by omega : w.length < 2 ^ 64) hfuel k
  rw [hdown] at hloop
  rw [vmmMapRange, hdown, hloop, mapWindow]

theorem mapWindows_eq (hlen : ∀ w ∈ windows, w.length ≤ 2 ^ 44) (hfuel : 2 ^ 52 ≤ fuel)
    (k : Kernel ρ) :
    mapWindows A fuel pageTable windows k =
      .ok (windows.foldl (fun k w => mapWindow A pageTable w k) k) := by
  induction windows generalizing k with
  | nil => rfl
  | cons w windows ih =>
    rw [mapWindows, mapRange_eq (hlen w List.mem_cons_self) hfuel]
    exact ih (fun x hx => hlen x (List.mem_cons_of_mem w hx)) _

theorem mapWindow_calls (w : Window) (k : Kernel ρ) :
    k.calls <:+ (mapWindow A pageTable w k).calls := by
  unfold mapWindow
  exact foldl_calls (fun i k => vmmSetPtValue_calls _ _ _ _ _ _) _ k

theorem mapWindows_calls (windows : List Window) (k : Kernel ρ) :
    k.calls <:+ (windows.foldl (fun k w => mapWindow A pageTable w k) k).calls := by
  induction windows generalizing k with
  | nil => exact List.suffix_refl _
  | cons w windows ih => exact (mapWindow_calls w k).trans (ih _)

theorem mem_window_pages (hlen : w.length ≤ 2 ^ 44) {i : Nat} :
    i ∈ pagesBetween 0 (alignUp w.length pageSize) ↔ i < w.length ∧ i % 4096 = 0 := by
  have hup : alignUp w.length pageSize = (w.length + 4095) / 4096 * 4096 :=
    alignUp_page (by omega)
  rw [mem_pagesBetween (by decide) (by omega), hup]
  omega

/-- A window has been mapped: its pages are translated, all others are as before. -/
theorem VmmState.map_window (hA : A.Lawful U Holds) (h : VmmState Holds k root S F)
    (hptr : Points pageTable root) (hw : w.Fits) (hs : (mapWindow A pageTable w k).Served) :
    ∃ S' F', VmmState Holds (mapWindow A pageTable w k) root S' F' ∧ ∀ v, CanonicalPage v →
      translate (mapWindow A pageTable w k).mem root v =
        (w.value v).or (translate k.mem root v) := by
  have hlen := hw.length
  have hoff := hw.offset
  have hmem := fun i => mem_window_pages (i := i) hlen
  obtain ⟨S', F', hstate, hset, hkept⟩ := h.map_pages hA hptr hoff (fun i hi => by
    obtain ⟨hlt, hmod⟩ := (hmem i).mp hi
    exact ⟨by omega, hmod, hw.canonical i hlt hmod⟩) hs
  refine ⟨S', F', hstate, fun v hv => ?_⟩
  have hlt := hv.1.lt
  have hback : add64 (sub64 v w.offset) w.offset = v := by
    unfold add64 sub64
    omega
  unfold Window.value
  split_ifs with hin
  · have hpage : sub64 v w.offset % 4096 = 0 := by
      have hmod := hv.2
      unfold sub64
      omega
    have hentry := hset _ ((hmem _).mpr ⟨hin, hpage⟩)
    rw [hback, vmmPatCacheToFlags, Nat.or_zero] at hentry
    exact hentry
  · refine hkept v hv (fun i hi heq => hin ?_)
    obtain ⟨hi, -⟩ := (hmem i).mp hi
    rw [heq, sub64_add64 _ (by omega)]
    exact hi

/-- Windows mapped one after the other: a page is translated as the last window has it, of those
that have it. -/
theorem VmmState.map_windows (hA : A.Lawful U Holds) (h : VmmState Holds k root S F)
    (hptr : Points pageTable root) (hfits : ∀ w ∈ windows, w.Fits)
    (hs : (windows.foldl (fun k w => mapWindow A pageTable w k) k).Served) :
    ∃ S' F', VmmState Holds (windows.foldl (fun k w => mapWindow A pageTable w k) k) root S'
      F' ∧ ∀ v, CanonicalPage v →
        translate (windows.foldl (fun k w => mapWindow A pageTable w k) k).mem root v =
          windows.foldl (fun x w => (w.value v).or x) (translate k.mem root v) := by
  induction windows generalizing k S F with
  | nil => exact ⟨S, F, h, fun v _ => rfl⟩
  | cons w windows ih =>
    rw [List.foldl_cons] at hs ⊢
    obtain ⟨S1, F1, h1, htrans1⟩ := h.map_window hA hptr (hfits w List.mem_cons_self)
      (hs.of_suffix (mapWindows_calls windows _))
    obtain ⟨S', F', h', htrans⟩ := ih h1 (fun x hx => hfits x (List.mem_cons_of_mem w hx)) hs
    refine ⟨S', F', h', fun v hv => ?_⟩
    rw [htrans v hv, htrans1 v hv, List.foldl_cons]

section BootWindows

variable {x : Nat × Nat} {y : Option (Nat × Nat)}

/-- Where all windows that have a page have the same for it. -/
theorem foldl_value (hx : ∀ w ∈ windows, w.value v = none ∨ w.value v = some x) :
    windows.foldl (fun y w => (w.value v).or y) y =
      if ∃ w ∈ windows, w.value v ≠ none then some x else y := by
  induction windows generalizing y with
  | nil => simp
  | cons w windows ih =>
    rw [List.foldl_cons, ih (fun u hu => hx u (List.mem_cons_of_mem w hu))]
    rcases hx w List.mem_cons_self with hw | hw
    · simp [hw]
    · simp [hw]

theorem Window.fits_of {length offset : Nat} (privilege : MapPrivilege)
    (hlength : length ≤ 2 ^ 44)
    (hoffset : offset % 4096 = 0) (hrange : offset + length ≤ 2 ^ 47 ∨
      2 ^ 64 - 2 ^ 47 ≤ offset ∧ offset + length ≤ 2 ^ 64) :
    Window.Fits ⟨length, offset, privilege⟩ := by
  refine ⟨hlength, hoffset, fun i hi _ => ?_⟩
  dsimp only at hi ⊢
  unfold Canonical add64
  omega

theorem bootWindows_fit (hbound : ∀ e ∈ memoryMap, e.base + e.length ≤ 2 ^ 44) :
    ∀ w ∈ bootWindows memoryMap, w.Fits := by
  intro w hw
  simp only [bootWindows, List.cons_append, List.nil_append, List.mem_cons, List.mem_map] at hw
  rcases hw with rfl | rfl | rfl | rfl | ⟨e, he, rfl⟩
  · exact Window.fits_of _ (by decide) (by decide) (by decide)
  · exact Window.fits_of _ (by decide) (by decide) (by decide)
  · exact Window.fits_of _ (by decide) (by decide) (by decide)
  · exact Window.fits_of _ (by decide) (by decide) (by decide)
  · have hlength := hbound e he
    refine Window.fits_of _ (by omega) (by decide) ?_
    unfold higherHalfData
    omega

/-- The end of what `vmm_init` maps at `HIGHER_HALF_DATA`: the lengths of the entries count, their
bases do not. -/
def mappedTop (memoryMap : List MmapEntry) : Nat :=
  memoryMap.foldr (fun e top => max e.length top) (4 * gib)

theorem lt_mappedTop : p < mappedTop memoryMap ↔ p < 4 * gib ∨
    ∃ e ∈ memoryMap, p < e.length := by
  induction memoryMap with
  | nil => simp [mappedTop]
  | cons e memoryMap ih =>
    have hcons : mappedTop (e :: memoryMap) = max e.length (mappedTop memoryMap) := rfl
    rw [hcons, lt_max_iff, ih]
    simp only [List.exists_mem_cons_iff]
    tauto

/-- What the windows have at `HIGHER_HALF_DATA`. -/
theorem bootWindows_data (hp : p < 2 ^ 44) :
    (bootWindows memoryMap).foldl (fun x w => (w.value (p + higherHalfData)).or x) none =
      if p < mappedTop memoryMap then some (p, MapPrivilege.kernelReadWrite.flags) else none := by
  have hdata : sub64 (p + higherHalfData) higherHalfData = p := by
    unfold sub64 higherHalfData
    omega
  have hlow : ¬ sub64 (p + higherHalfData) 0 < 4 * gib := by
    unfold sub64 higherHalfData gib
    omega
  have hheap : ¬ sub64 (p + higherHalfData) heapStartAddr < heapMaxSize := by
    unfold sub64 higherHalfData heapStartAddr heapMaxSize gib
    omega
  have hcode : ¬ sub64 (p + higherHalfData) higherHalfCode < 2 * gib := by
    unfold sub64 higherHalfData higherHalfCode gib
    omega
  rw [foldl_value (x := (p, MapPrivilege.kernelReadWrite.flags))]
  · refine if_congr ?_ rfl rfl
    rw [lt_mappedTop]
    simp [bootWindows, Window.value, hdata, hlow, hheap, hcode]
  · intro w hw
    simp only [bootWindows, List.cons_append, List.nil_append, List.mem_cons, List.mem_map] at hw
    unfold Window.value
    rcases hw with rfl | rfl | rfl | rfl | ⟨e, -, rfl⟩
    · exact Or.inl (if_neg hlow)
    · dsimp only
      rw [hdata]
      split_ifs
      · exact Or.inr rfl
      · exact Or.inl rfl
    · exact Or.inl (if_neg hheap)
    · exact Or.inl (if_neg hcode)
    · dsimp only
      rw [hdata]
      split_ifs
      · exact Or.inr rfl
      · exact Or.inl rfl

/-- What the windows have at `HEAP_START_ADDR`. -/
theorem bootWindows_heap (hbound : ∀ e ∈ memoryMap, e.base + e.length ≤ 2 ^ 44)
    (hp : p < 2 ^ 44) :
    (bootWindows memoryMap).foldl (fun x w => (w.value (p + heapStartAddr)).or x) none =
      if p < heapMaxSize then some (p, MapPrivilege.kernelReadWrite.flags) else none := by
  have hheap : sub64 (p + heapStartAddr) heapStartAddr = p := by
    unfold sub64 heapStartAddr
    omega
  have hlow : ¬ sub64 (p + heapStartAddr) 0 < 4 * gib := by
    unfold sub64 heapStartAddr gib
    omega
  -- the entries end below the heap
  have hdata : ∀ length ≤ 2 ^ 44, ¬ sub64 (p + heapStartAddr) higherHalfData < length := by
    intro length hlength
    unfold sub64 heapStartAddr higherHalfData
    omega
  have hcode : ¬ sub64 (p + heapStartAddr) higherHalfCode < 2 * gib := by
    unfold sub64 heapStartAddr higherHalfCode gib
    omega
  have hentries : ∀ e ∈ memoryMap, ¬ sub64 (p + heapStartAddr) higherHalfData < e.length := by
    intro e he
    have hlength := hbound e he
    exact hdata e.length (by omega)
  rw [foldl_value (x := (p, MapPrivilege.kernelReadWrite.flags))]
  · refine if_congr ?_ rfl rfl
    simpa [bootWindows, Window.value, hheap, hlow, hcode, hdata (4 * gib) (by decide)] using
      fun e he hlt => absurd hlt (hentries e he)
  · intro w hw
    simp only [bootWindows, List.cons_append, List.nil_append, List.mem_cons, List.mem_map] at hw
    unfold Window.value
    rcases hw with rfl | rfl | rfl | rfl | ⟨e, he, rfl⟩
    · exact Or.inl (if_neg hlow)
    · exact Or.inl (if_neg (hdata _ (by decide)))
    · dsimp only
      rw [hheap]
      split_ifs
      · exact Or.inr rfl
      · exact Or.inl rfl
    · exact Or.inl (if_neg hcode)
    · exact Or.inl (if_neg (hentries e he))

end BootWindows

theorem translate_empty {m : Mem} (hzero : ∀ j < 512, tables m root j = 0) (v : Nat) :
    translate m root v = none := by
  have hnext : nextTable (tables m root (v / 2 ^ 39 % 512)) = none :=
    nextTable_even (by rw [hzero _ (Nat.mod_lt _ (by decide))])
  simp only [translate, upperPath, Radix.find, hnext, Option.bind_none]

section Boot

/-- The kernel after `vmm_init`. -/
def vmmKernel (A : PageFrames ρ) (k : Kernel ρ) (memoryMap : List MmapEntry) : Kernel ρ :=
  (bootWindows memoryMap).foldl
    (fun k' w => mapWindow A (physToHigherHalfData (k.pmmAllocz A 1).1) w k')
    (k.pmmAllocz A 1).2

variable (hA : A.Lawful U Holds) (hlow : ∀ f ∈ U, f < 2 ^ 32) (hF : Holds k.mem k.frames F)
  (hbound : ∀ e ∈ memoryMap, e.base + e.length ≤ 2 ^ 44)

include hA hlow hF hbound

/-- `vmm_init` returns: its loops end and the assertion cannot fail. -/
theorem vmmInit_ok (hfuel : 2 ^ 52 ≤ fuel) :
    vmmInit A fuel k memoryMap =
      .ok (physToHigherHalfData (k.pmmAllocz A 1).1, vmmKernel A k memoryMap) := by
  have hroot : physToHigherHalfData (k.pmmAllocz A 1).1 ≠ 0 := by
    have hpage : (k.pmmAllocz A 1).1 < 2 ^ 44 := by
      rcases hA.allocz_one _ _ _ hF with ⟨hnull, -, -⟩ | ⟨f, hf, -, hh, -, -⟩
      · exact hnull ▸ by decide
      · have hlt := hlow f (hA.subset _ _ _ hh (Set.mem_insert f F))
        have hpage : (k.pmmAllocz A 1).1 = f * 4096 := hf
        omega
    unfold physToHigherHalfData add64 higherHalfData
    omega
  rw [vmmInit_eq k memoryMap hroot,
    mapWindows_eq (fun w hw => (bootWindows_fit hbound w hw).length) hfuel]
  rfl

/-- The page tables after `vmm_init`, all requests served. -/
theorem vmmKernel_state (hs : (vmmKernel A k memoryMap).Served) :
    ∃ root S F', (k.pmmAllocz A 1).1 = root * 4096 ∧ root ≠ 0 ∧ root < 2 ^ 32 ∧
      VmmState Holds (vmmKernel A k memoryMap) root S F' ∧ ∀ v, CanonicalPage v →
        translate (vmmKernel A k memoryMap).mem root v =
          (bootWindows memoryMap).foldl (fun x w => (w.value v).or x) none := by
  have hfirst := hs.of_suffix (mapWindows_calls _ _)
  have hne : (k.pmmAllocz A 1).1 ≠ 0 := by
    intro hnull
    refine hfirst 1 ?_
    simp only [Kernel.pmmAllocz] at hnull ⊢
    rw [hnull]
    exact List.mem_cons_self
  obtain ⟨f, hfU, -, hf0, -, hpage, hh, -, hzero⟩ := hA.served hF hne
  have hflt := hlow f hfU
  have hptr : Points (physToHigherHalfData (k.pmmAllocz A 1).1) f := by
    rw [hpage]
    exact points_higherHalfData hflt
  have hstart : VmmState Holds (k.pmmAllocz A 1).2 f {f} (insert f F) :=
    ⟨hh, PageTree.empty hzero, by simp⟩
  obtain ⟨S', F', hstate, htrans⟩ := hstart.map_windows hA hptr (bootWindows_fit hbound) hs
  refine ⟨f, S', F', hpage, hf0, hflt, hstate, fun v hv => ?_⟩
  rw [← translate_empty hzero v]
  exact htrans v hv

end Boot

section Served

variable {P : Set (List Nat)}

/-- With more frames than paths to the windows' tables no request is refused. -/
theorem TablesWithin.map_windows (hA : A.Lawful U Holds) (hfull : A.Complete U Holds)
    (hroom : P.encard < U.encard) (h : TablesWithin Holds k root P F)
    (hptr : Points pageTable root) (hlen : ∀ w ∈ windows, w.length ≤ 2 ^ 44)
    (hP : ∀ w ∈ windows, ∀ i < w.length, ∀ r, r <+: upperPath (add64 i w.offset) →
      r ∈ P)
    (hs : k.Served) :
    (windows.foldl (fun k w => mapWindow A pageTable w k) k).Served ∧
      ∃ F', TablesWithin Holds (windows.foldl (fun k w => mapWindow A pageTable w k) k)
        root P F' := by
  induction windows generalizing k F with
  | nil => exact ⟨hs, F, h⟩
  | cons w windows ih =>
    have hw := hlen w List.mem_cons_self
    have hmem := fun i => mem_window_pages (i := i) hw
    obtain ⟨hserved, F', hwithin⟩ := h.map_pages hA hfull hroom hptr w.offset
      (fun i hi => by
        obtain ⟨hlt, hmod⟩ := (hmem i).mp hi
        exact ⟨by omega, hmod⟩)
      (fun i hi => hP w List.mem_cons_self i ((hmem i).mp hi).1) w.privilege .uncacheable hs
    exact ih hwithin (fun x hx => hlen x (List.mem_cons_of_mem w hx))
      (fun x hx => hP x (List.mem_cons_of_mem w hx)) hserved

/-- `vmm_init` on a kernel whose frames are all free: served if there are more of them than paths
to tables. -/
theorem vmmKernel_served (hA : A.Lawful U Holds) (hfull : A.Complete U Holds)
    (hlow : ∀ f ∈ U, f < 2 ^ 32) (hF : Holds k.mem k.frames ∅) (hroom : P.encard < U.encard)
    (hlen : ∀ w ∈ bootWindows memoryMap, w.length ≤ 2 ^ 44) (hnil : [] ∈ P)
    (hP : ∀ w ∈ bootWindows memoryMap, ∀ i < w.length, ∀ r,
      r <+: upperPath (add64 i w.offset) → r ∈ P) (hs : k.Served) :
    (vmmKernel A k memoryMap).Served ∧
      ∃ root F', (k.pmmAllocz A 1).1 = root * 4096 ∧
        TablesWithin Holds (vmmKernel A k memoryMap) root P F' := by
  have hne : (k.pmmAllocz A 1).1 ≠ 0 := by
    intro hnull
    have hU : ∅ = U := hfull _ _ _ hF hnull
    rw [← hU, Set.encard_empty] at hroom
    exact not_lt_bot hroom
  obtain ⟨f, hfU, -, hf0, -, hpage, hh, -, hzero⟩ := hA.served hF hne
  have hptr : Points (physToHigherHalfData (k.pmmAllocz A 1).1) f := by
    rw [hpage]
    exact points_higherHalfData (hlow f hfU)
  have hserved : (k.pmmAllocz A 1).2.Served := by
    intro n hn
    rcases List.mem_cons.mp hn with heq | hmem
    · injection heq with _ hnull
      exact hne hnull.symm
    · exact hs n hmem
  have hstart : TablesWithin Holds (k.pmmAllocz A 1).2 f P (insert f ∅) := by
    refine ⟨⟨hh, ?_, subset_refl _⟩, fun t ht => ?_⟩
    · rw [insert_empty_eq]
      exact PageTree.empty hzero
    · rw [insert_empty_eq, Set.mem_singleton_iff] at ht
      rw [ht]
      exact ⟨[], hnil, ⟨by decide, by simp⟩, rfl⟩
  obtain ⟨hall, F', hwithin⟩ := hstart.map_windows hA hfull hroom hptr hlen hP hserved
  exact ⟨hall, f, F', hpage, hwithin⟩

/-- The paths to the last-level tables of the windows, no entry being longer than 4 GiB. -/
def bootPaths : Finset (List Nat) :=
  ((({0, 256, 288} ×ˢ Finset.range 4) ∪ {(511, 510), (511, 511)}) ×ˢ Finset.range 512).image
    (fun x => [x.1.1, x.1.2, x.2])

theorem bootPaths_card : bootPaths.card ≤ 7168 := by
  refine Finset.card_image_le.trans ?_
  rw [Finset.card_product, Finset.card_range]
  exact Nat.mul_le_mul_right 512 (by decide : _ ≤ 14)

theorem upperPath_mem_bootPaths (h : v / 2 ^ 39 % 512 ∈ ({0, 256, 288} : Finset Nat) ∧
      v / 2 ^ 30 % 512 < 4 ∨ v / 2 ^ 39 % 512 = 511 ∧ 510 ≤ v / 2 ^ 30 % 512) :
    upperPath v ∈ bootPaths := by
  refine Finset.mem_image.mpr ⟨((v / 2 ^ 39 % 512, v / 2 ^ 30 % 512), v / 2 ^ 21 % 512), ?_,
    rfl⟩
  have hlast : v / 2 ^ 21 % 512 < 512 := Nat.mod_lt _ (by decide)
  have hmid : v / 2 ^ 30 % 512 < 512 := Nat.mod_lt _ (by decide)
  rw [Finset.mem_product, Finset.mem_union, Finset.mem_product, Finset.mem_range, Finset.mem_range]
  refine ⟨?_, hlast⟩
  rcases h with ⟨htop, hlow⟩ | ⟨htop, hhigh⟩
  · exact Or.inl ⟨htop, hlow⟩
  · refine Or.inr ?_
    rw [htop, Finset.mem_insert, Finset.mem_singleton, Prod.mk.injEq, Prod.mk.injEq]
    omega

theorem bootWindows_paths (hsmall : ∀ e ∈ memoryMap, e.length ≤ 4 * gib) :
    ∀ w ∈ bootWindows memoryMap, ∀ i < w.length, upperPath (add64 i w.offset) ∈
      bootPaths := by
  have hdata : ∀ i < 4 * gib, upperPath (add64 i higherHalfData) ∈ bootPaths := by
    intro i hi
    refine upperPath_mem_bootPaths (Or.inl ?_)
    unfold add64 higherHalfData
    unfold gib at hi
    simp only [Finset.mem_insert, Finset.mem_singleton]
    omega
  intro w hw i hi
  simp only [bootWindows, List.cons_append, List.nil_append, List.mem_cons, List.mem_map] at hw
  rcases hw with rfl | rfl | rfl | rfl | ⟨e, he, rfl⟩
  · refine upperPath_mem_bootPaths (Or.inl ?_)
    dsimp only at hi ⊢
    unfold add64
    unfold gib at hi
    simp only [Finset.mem_insert, Finset.mem_singleton]
    omega
  · exact hdata i hi
  · refine upperPath_mem_bootPaths (Or.inl ?_)
    dsimp only at hi ⊢
    unfold add64 heapStartAddr
    unfold heapMaxSize gib at hi
    simp only [Finset.mem_insert, Finset.mem_singleton]
    omega
  · refine upperPath_mem_bootPaths (Or.inr ?_)
    dsimp only at hi ⊢
    unfold add64 higherHalfCode
    unfold gib at hi
    omega
  · exact hdata i (hi.trans_le (hsmall e he))

end Served

/-- The frame the processor walks from is the one that was taken for the root table. -/
theorem vmmLoadPageTable_root (hroot : root < 2 ^ 32) :
    vmmLoadPageTable (physToHigherHalfData (root * 4096)) / 4096 = root := by
  rw [vmmLoadPageTable, physToHigherHalfData, sub64_add64 _ (by omega)]
  omega

/-- A page of an entry of the memory map. -/
def MmapEntry.HasPage (e : MmapEntry) (p : Nat) : Prop :=
  p % 4096 = 0 ∧ alignDown e.base pageSize ≤ p ∧ p < e.base + e.length

/-- Every page of the memory map is mapped at `HIGHER_HALF_DATA`. -/
def Covers (m : Mem) (root : Nat) (memoryMap : List MmapEntry) : Prop :=
  ∀ e ∈ memoryMap, ∀ p, e.HasPage p →
    ∃ flags, translate m root (physToHigherHalfData p) = some (p, flags)

/-- The pages of the memory map that are mapped after `vmm_init`, all requests served. -/
theorem vmmKernel_covers_iff (hA : A.Lawful U Holds) (hlow : ∀ f ∈ U, f < 2 ^ 32)
    (hF : Holds k.mem k.frames F) (hbound : ∀ e ∈ memoryMap, e.base + e.length ≤ 2 ^ 44)
    (hs : (vmmKernel A k memoryMap).Served) :
    Covers (vmmKernel A k memoryMap).mem
        (vmmLoadPageTable (physToHigherHalfData (k.pmmAllocz A 1).1) / 4096) memoryMap ↔
      ∀ e ∈ memoryMap, ∀ p, e.HasPage p → p < mappedTop memoryMap := by
  obtain ⟨root, S, F', hpage, -, hroot, -, htrans⟩ := vmmKernel_state hA hlow hF hbound hs
  have hvalue : ∀ e ∈ memoryMap, ∀ p, e.HasPage p →
      translate (vmmKernel A k memoryMap).mem root (physToHigherHalfData p) =
        if p < mappedTop memoryMap then some (p, MapPrivilege.kernelReadWrite.flags)
        else none := by
    intro e he p hp
    obtain ⟨hmod, -, hlt⟩ := hp
    have hle := hbound e he
    have haddr : physToHigherHalfData p = p + higherHalfData :=
      add64_of_lt (by unfold higherHalfData; omega)
    have hcanon : CanonicalPage (p + higherHalfData) := by
      unfold CanonicalPage Canonical higherHalfData
      omega
    rw [haddr, htrans _ hcanon, bootWindows_data (by omega)]
  rw [hpage, vmmLoadPageTable_root hroot]
  constructor
  · intro hcovers e he p hp
    obtain ⟨flags, hflags⟩ := hcovers e he p hp
    by_contra htop
    rw [hvalue e he p hp, if_neg htop] at hflags
    simp at hflags
  · intro htop e he p hp
    exact ⟨_, by rw [hvalue e he p hp, if_pos (htop e he p hp)]⟩

/-- `vmm_init` for every memory map, from any state of a frame allocator whose frames lie below
16 TiB: it returns, and with all requests served the pages of the map are mapped if and only if
they all lie below the longest entry's length or below 4 GiB. The base of an entry does not
count. -/
theorem vmm_init_covers_iff (A : PageFrames ρ) (U : Set Nat)
    (Holds : Mem → ρ → Set Nat → Prop)
    (hA : A.Lawful U Holds) (hlow : ∀ f ∈ U, f < 2 ^ 32) (k : Kernel ρ) (F : Set Nat)
    (hF : Holds k.mem k.frames F) (memoryMap : List MmapEntry)
    (hbound : ∀ e ∈ memoryMap, e.base + e.length ≤ 2 ^ 44) (fuel : Nat)
    (hfuel : 2 ^ 52 ≤ fuel) :
    ∃ rootPageTable k', vmmInit A fuel k memoryMap = .ok (rootPageTable, k') ∧
      (k'.Served → (Covers k'.mem (vmmLoadPageTable rootPageTable / 4096) memoryMap ↔
        ∀ e ∈ memoryMap, ∀ p, e.HasPage p → p < mappedTop memoryMap)) :=
  ⟨_, _, vmmInit_ok hA hlow hF hbound hfuel, vmmKernel_covers_iff hA hlow hF hbound⟩

/-- The memory map as `pmm_init` leaves it for `vmm_init`. -/
def bootMap (memoryMap : List MmapEntry) : List MmapEntry := (pmmInit (fun _ => 0#8) memoryMap).2.2

/-- No entry ends later for having the bitmap cut off. -/
theorem hostBitmap_bound {size bound : Nat}
    (hhost : ∃ e ∈ memoryMap, e.type = .usable ∧ size ≤ e.length) (hword : bound < 2 ^ 64)
    (hbound : ∀ e ∈ memoryMap, e.base + e.length ≤ bound) :
    ∀ e ∈ (hostBitmap size memoryMap).2, e.base + e.length ≤ bound := by
  obtain ⟨pre, host, post, heq, -, hsize, -, hcut⟩ := hostBitmap_spec size memoryMap hhost
  rw [hcut]
  rw [heq] at hbound
  intro e he
  rcases List.mem_append.mp he with he | he
  · exact hbound e (List.mem_append.mpr (Or.inl he))
  · rcases List.mem_cons.mp he with rfl | he
    · have hle := hbound host (by simp)
      unfold MmapEntry.cut add64 sub64
      dsimp only
      omega
    · exact hbound e (List.mem_append.mpr (Or.inr (List.mem_cons_of_mem _ he)))

theorem initiallyFree_lt {base f : Nat} (hm : MapOk memoryMap)
    (hN : pageToBit (highestTop memoryMap) ≤ 2 ^ 31) (hf : InitiallyFree memoryMap base f) :
    f < 2 ^ 31 := by
  obtain ⟨-, ⟨e, he, husable, -, hlt⟩, -⟩ := hf
  have hcovered := hm.covered e he husable
  have hsize := bitmapSize_le hN
  omega

theorem le_encard_of_range {a b : Nat} (h : ∀ f, a ≤ f → f < b → f ∈ U) :
    ((b - a : Nat) : ℕ∞) ≤ U.encard := by
  have hsub : ((Finset.Ico a b : Finset Nat) : Set Nat) ⊆ U := by
    intro f hf
    rw [Finset.mem_coe, Finset.mem_Ico] at hf
    exact h f hf.1 hf.2
  rw [← Nat.card_Ico, ← Set.encard_coe_eq_coe_finsetCard]
  exact Set.encard_le_encard hsub

/-- Numbers of a range that are not in a set smaller than it. -/
theorem exists_outside {F : Set Nat} {n k a b : Nat} (hF : F.encard ≤ n) (h : n + k ≤ b - a) :
    ∃ stock : List Nat, stock.Nodup ∧ stock.length = k ∧
      ∀ f ∈ stock, a ≤ f ∧ f < b ∧ f ∉ F := by
  have hfin : F.Finite := Set.finite_of_encard_le_coe hF
  have hcard : hfin.toFinset.card ≤ n := by
    rw [hfin.encard_eq_coe_toFinset_card] at hF
    exact_mod_cast hF
  have hle : k ≤ (Finset.Ico a b \ hfin.toFinset).card := by
    have hsdiff := Finset.le_card_sdiff hfin.toFinset (Finset.Ico a b)
    rw [Nat.card_Ico] at hsdiff
    omega
  obtain ⟨t, ht, htk⟩ := Finset.exists_subset_card_eq hle
  refine ⟨t.toList, t.nodup_toList, by rw [Finset.length_toList, htk], fun f hf => ?_⟩
  obtain ⟨hrange, hfF⟩ := Finset.mem_sdiff.mp (ht (Finset.mem_toList.mp hf))
  obtain ⟨h1, h2⟩ := Finset.mem_Ico.mp hrange
  exact ⟨h1, h2, fun hmem => hfF (hfin.mem_toFinset.mpr hmem)⟩

theorem bootPaths_prefixes :
    Set.encard {r | ∃ p ∈ bootPaths, r <+: p} ≤ ((28672 : Nat) : ℕ∞) := by
  have hcard := bootPaths_card
  refine (encard_prefixes_le bootPaths (fun p hp => ?_) (fun r hr => hr)).trans
    (by exact_mod_cast (by omega : bootPaths.card * 4 ≤ 28672))
  obtain ⟨x, -, rfl⟩ := Finset.mem_image.mp hp
  rfl

/-- `vmm_init` after `pmm_init`, with more than 112 MiB of memory left free and no entry longer
than 4 GiB. -/
theorem bootKernel_vmm {memoryMap vmmMap : List MmapEntry} (hm : MapOk memoryMap)
    (hN : pageToBit (highestTop memoryMap) ≤ 2 ^ 31)
    (hlow : ∀ e ∈ memoryMap, e.type = .usable → 4096 ≤ e.base)
    (hpage : 1 ≤ pageToBit (highestTop memoryMap)) {a b : Nat} (hroom : 28672 < b - a)
    (hfree : ∀ e ∈ memoryMap, e.type = .usable → ∀ f, a ≤ f → f < b →
      InitiallyFree memoryMap e.base f) (hsmall : ∀ e ∈ vmmMap, e.length ≤ 4 * gib) :
    ∃ base u0 root F, (∃ e ∈ memoryMap, e.type = .usable ∧ e.base = base) ∧ 0 < u0 ∧
      pmmFrames.Lawful {f | InitiallyFree memoryMap base f}
        (fun m pmm F => PmmCounted m pmm base {f | InitiallyFree memoryMap base f} u0 F) ∧
      PmmCounted (bootKernel memoryMap).mem (bootKernel memoryMap).frames base
        {f | InitiallyFree memoryMap base f} u0 ∅ ∧
      (vmmKernel pmmFrames (bootKernel memoryMap) vmmMap).Served ∧
      TablesWithin (fun m pmm F => PmmCounted m pmm base {f | InitiallyFree memoryMap base f} u0 F)
        (vmmKernel pmmFrames (bootKernel memoryMap) vmmMap) root
        {r | ∃ p ∈ bootPaths, r <+: p} F := by
  obtain ⟨base, u0, ⟨e, he, husable, hbase⟩, hu, hA, hfull, hcount⟩ :=
    bootKernel_counted hm hN hlow hpage
  have hencard : ((28672 : Nat) : ℕ∞) < Set.encard {f | InitiallyFree memoryMap base f} :=
    lt_of_lt_of_le (by exact_mod_cast hroom)
      (le_encard_of_range (fun f hfa hfb => hbase ▸ hfree e he husable f hfa hfb))
  have hlen : ∀ w ∈ bootWindows vmmMap, w.length ≤ 2 ^ 44 := by
    intro w hw
    simp only [bootWindows, List.cons_append, List.nil_append, List.mem_cons, List.mem_map] at hw
    rcases hw with rfl | rfl | rfl | rfl | ⟨d, hd, rfl⟩
    · decide
    · decide
    · decide
    · decide
    · have hd4 := hsmall d hd
      unfold gib at hd4
      dsimp only
      omega
  have hnil : [] ∈ {r | ∃ p ∈ bootPaths, r <+: p} :=
    ⟨upperPath 0, upperPath_mem_bootPaths (by decide), List.nil_prefix⟩
  obtain ⟨hserved, root, F, -, hwithin⟩ := vmmKernel_served hA hfull
    (fun f hf => (initiallyFree_lt hm hN hf).trans (by decide)) hcount
    (bootPaths_prefixes.trans_lt hencard)
    hlen hnil (fun w hw i hi r hr => ⟨_, bootWindows_paths hsmall w hw i hi, hr⟩)
    (fun n => List.not_mem_nil)
  exact ⟨base, u0, root, F, ⟨e, he, husable, hbase⟩, hu, hA, hcount, hserved, hwithin⟩

/-- 256 MiB of memory from 1 MiB on. -/
def lowMap : List MmapEntry := [⟨0x100000, 0x10000000, .usable⟩]

/-- 256 MiB of memory from 4 GiB on. -/
def highMap : List MmapEntry := [⟨0x100000000, 0x10000000, .usable⟩]

theorem lowMap_layout : MapOk lowMap ∧ highestTop lowMap = 0x10100000 ∧
    bitmapSize (highestTop lowMap) = 12288 :=
  mapOk_single (by decide) (by decide) (by decide) (by decide) (by decide) (by decide)

theorem highMap_layout : MapOk highMap ∧ highestTop highMap = 0x110000000 ∧
    bitmapSize (highestTop highMap) = 139264 :=
  mapOk_single (by decide) (by decide) (by decide) (by decide) (by decide) (by decide)

theorem lowMap_frames : pageToBit (highestTop lowMap) = 65792 := by
  rw [lowMap_layout.2.1]
  rfl

theorem highMap_frames : pageToBit (highestTop highMap) = 1114112 := by
  rw [highMap_layout.2.1]
  rfl

theorem lowMap_free : ∀ e ∈ lowMap, e.type = .usable → ∀ f, 259 ≤ f → f < 65792 →
    InitiallyFree lowMap e.base f := by
  intro e he _ f h1 h2
  rw [List.mem_singleton.mp he]
  exact initiallyFree_single rfl lowMap_layout.2.2 (by omega) (by omega) (by omega)

theorem highMap_free : ∀ e ∈ highMap, e.type = .usable → ∀ f, 1048610 ≤ f →
    f < 1114112 →
    InitiallyFree highMap e.base f := by
  intro e he _ f h1 h2
  rw [List.mem_singleton.mp he]
  exact initiallyFree_single rfl highMap_layout.2.2 (by omega) (by omega) (by omega)

theorem bootMap_lowMap : bootMap lowMap = [⟨0x103000, 0xFFFD000, .usable⟩] := by decide +kernel

theorem bootMap_highMap : bootMap highMap = [⟨0x100022000, 0xFFDE000, .usable⟩] := by
  decide +kernel

/-- Memory below 4 GiB is mapped. -/
theorem vmm_init_covers_lowMap : ∃ rootPageTable k',
    vmmInit pmmFrames (2 ^ 52) (bootKernel lowMap) (bootMap lowMap) = .ok (rootPageTable, k') ∧
    k'.Served ∧ Covers k'.mem (vmmLoadPageTable rootPageTable / 4096) (bootMap lowMap) := by
  have hentry : ∀ e ∈ bootMap lowMap, e = ⟨0x103000, 0xFFFD000, .usable⟩ := by
    rw [bootMap_lowMap]
    simp
  have hbound : ∀ e ∈ bootMap lowMap, e.base + e.length ≤ 2 ^ 44 := by
    intro e he
    rw [hentry e he]
    decide
  obtain ⟨base, u0, -, -, -, -, hA, hcount, hserved, -⟩ := bootKernel_vmm lowMap_layout.1
    (by rw [lowMap_frames]; decide) (by decide) (by rw [lowMap_frames]; decide)
    (by decide : 28672 < 65792 - 259)
    lowMap_free (fun e he => by rw [hentry e he]; decide)
  have hlow : ∀ f ∈ {f | InitiallyFree lowMap base f}, f < 2 ^ 32 :=
    fun f hf => (initiallyFree_lt lowMap_layout.1 (by rw [lowMap_frames]; decide) hf).trans
      (by decide)
  obtain ⟨rootPageTable, k', hok, hcovers⟩ := vmm_init_covers_iff pmmFrames _ _ hA hlow
    (bootKernel lowMap) ∅ hcount (bootMap lowMap) hbound (2 ^ 52) (le_refl _)
  have hk' := congrArg Prod.snd (Except.ok.inj
    ((vmmInit_ok hA hlow hcount hbound (le_refl _)).symm.trans hok))
  dsimp only at hk'
  rw [hk'] at hserved
  refine ⟨rootPageTable, k', hok, hserved, (hcovers hserved).mpr (fun e he p hp => ?_)⟩
  obtain ⟨-, -, hlt⟩ := hp
  rw [hentry e he] at hlt
  dsimp only at hlt
  rw [lt_mappedTop]
  unfold gib
  omega

/-- Of the memory above 4 GiB nothing is mapped, although all requests are served: the range that
is mapped for an entry begins at 0. -/
theorem vmm_init_misses_high_memory : ∃ rootPageTable k',
    vmmInit pmmFrames (2 ^ 52) (bootKernel highMap) (bootMap highMap) = .ok (rootPageTable, k') ∧
    k'.Served ∧
    ¬ Covers k'.mem (vmmLoadPageTable rootPageTable / 4096) (bootMap highMap) := by
  have hentry : ∀ e ∈ bootMap highMap, e = ⟨0x100022000, 0xFFDE000, .usable⟩ := by
    rw [bootMap_highMap]
    simp
  have hbound : ∀ e ∈ bootMap highMap, e.base + e.length ≤ 2 ^ 44 := by
    intro e he
    rw [hentry e he]
    decide
  obtain ⟨base, u0, -, -, -, -, hA, hcount, hserved, -⟩ := bootKernel_vmm highMap_layout.1
    (by rw [highMap_frames]; decide) (by decide) (by rw [highMap_frames]; decide)
    (by decide : 28672 < 1114112 - 1048610)
    highMap_free (fun e he => by rw [hentry e he]; decide)
  have hlow : ∀ f ∈ {f | InitiallyFree highMap base f}, f < 2 ^ 32 :=
    fun f hf => (initiallyFree_lt highMap_layout.1 (by rw [highMap_frames]; decide) hf).trans
      (by decide)
  refine ⟨_, _, vmmInit_ok hA hlow hcount hbound (le_refl _), hserved, fun hcovers => ?_⟩
  have htop := (vmmKernel_covers_iff hA hlow hcount hbound hserved).mp hcovers
    ⟨0x100022000, 0xFFDE000, .usable⟩ (by rw [bootMap_highMap]; simp) 0x100022000
    ⟨by decide, by decide +kernel, by decide⟩
  rw [bootMap_highMap] at htop
  exact absurd htop (by decide +kernel)

end ApoptOS
