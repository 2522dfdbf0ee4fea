import ApoptOS.Libk.Realloc

namespace ApoptOS

open Framework

section Memcpy

variable {m : Mem} {dest src : Nat}

theorem memcpy_outside {n x : Nat} (h : ∀ i < n, x ≠ heapPhys (dest + i)) :
    memcpy m dest src n x = m x := by
  induction n with
  | zero => rfl
  | succ n ih =>
    rw [memcpy, Mem.set_other _ _ (h n (by omega))]
    exact ih (fun i hi => h i (by omega))

/-- Between ranges apart, `memcpy` copies every byte. -/
theorem memcpy_inside {n d e i : Nat} (hd : ∀ i < n, heapPhys (dest + i) = d + i)
    (he : ∀ i < n, heapPhys (src + i) = e + i) (hap : d + n ≤ e ∨ e + n ≤ d) (hi : i < n) :
    memcpy m dest src n (d + i) = m (e + i) := by
  induction n with
  | zero => omega
  | succ n ih =>
    rw [memcpy, hd n (by omega), he n (by omega)]
    by_cases hin : i = n
    · subst hin
      rw [Mem.set_same]
      refine memcpy_outside (fun j hj => ?_)
      rw [hd j (by omega)]
      omega
    · rw [Mem.set_other _ _ (by omega)]
      exact ih (fun j hj => hd j (by omega)) (fun j hj => he j (by omega)) (by omega) (by omega)

end Memcpy

variable {ρ : Type}

/-- What the heap's memory is divided into: every slot of a cache, free or live,
and every block of whole pages. -/
inductive Cell (blocks : List Block) (caches : List SlabCache) (view : Nat → CacheView) :
    Nat → Nat → Prop where
  | slot {i a : Nat} {c : SlabCache} (hc : caches[i]? = some c)
      (ha : a ∈ objects (view i).slabs c.live) : Cell blocks caches view a c.size
  | pages {d : Block} (hd : d ∈ pageBlocks blocks) :
      Cell blocks caches view (metadataOf d.pointer) d.space

/-- The bytes of a cell. -/
def SameCell (m m' : Mem) (a len : Nat) : Prop := ∀ x, a ≤ x → x < a + len → m' x = m x

theorem SameCell.trans {m m' m'' : Mem} {a len : Nat} (h : SameCell m m' a len)
    (h' : SameCell m' m'' a len) : SameCell m m'' a len :=
  fun x h1 h2 => (h' x h1 h2).trans (h x h1 h2)

namespace HeapInv

section Cells

variable {Holds : Mem → ρ → Set Nat → Prop} {s : HeapState ρ} {F : Set Nat}
  {caches : List SlabCache} {view : Nat → CacheView} {a len x : Nat}

theorem block_cell (h : HeapInv Holds s F caches view) {d : Block} (hd : d ∈ s.blocks) :
    Cell s.blocks caches view (metadataOf d.pointer) d.space := by
  rcases hclass : blockClass d.size with _ | i
  · exact .pages (page_mem hd hclass)
  · obtain ⟨c, hc, _, hlive, _⟩ := h.block_slot hd hclass
    rw [h.space_eq hc hclass]
    exact .slot hc (List.mem_append_right _ hlive)

theorem space_pos (h : HeapInv Holds s F caches view) {d : Block} (hd : d ∈ s.blocks) :
    16 ≤ d.space := by
  rcases hclass : blockClass d.size with _ | i
  · have hlarge := (h.pages d (page_mem hd hclass)).large
    omega
  · exact (heapSlabSizes_bound (sizeToSlabCacheIndex_some hclass)).2.1

/-- A cell is disjoint from the structures of a cache and from its other slots. -/
theorem cell_off_slot (h : HeapInv Holds s F caches view)
    (hsizes : ∀ b ∈ s.blocks, b.size < 2 ^ 64) (hcell : Cell s.blocks caches view a len)
    {i b : Nat}
    {c : SlabCache} (hc : caches[i]? = some c) (hb : b ∈ objects (view i).slabs c.live)
    (hne : a ≠ b) (h1 : a ≤ x) (h2 : x < a + len) :
    x ∉ bookkeeping c.cache (view i).frames ∧ (x < b ∨ b + c.size ≤ x) := by
  have hci := (h.good.cache i c hc).inv
  have hbslot := hci.slots b hb
  -- a frame outside the cache settles both parts
  have houtside : x / 4096 ∉ ownFrames c.cache (view i).frames →
      x ∉ bookkeeping c.cache (view i).frames ∧ (x < b ∨ b + c.size ≤ x) := by
    intro hx
    refine ⟨fun hxb => hx (bookkeeping_own hxb), ?_⟩
    by_contra hcon
    exact hx (Set.mem_insert_of_mem _ (hbslot.inside (x := x) (by omega) (by omega)).1)
  cases hcell with
  | @slot j _ d hd ha =>
    have hslot := (h.good.cache j d hd).inv.slots a ha
    have hin := hslot.inside h1 h2
    by_cases hij : j = i
    · subst hij
      obtain rfl : d = c := Option.some.inj (hd.symm.trans hc)
      have hap := hslot.apart hbslot hne
      refine ⟨?_, by omega⟩
      rintro (hxc | hxf)
      · exact hci.cacheApart (hxc ▸ hin.1)
      · omega
    · exact houtside (fun hx => Set.disjoint_left.mp (h.good.apart j i d c hij hd hc)
        (Set.mem_insert_of_mem _ hin.1) hx)
  | @pages d hd =>
    have hp := h.pages d hd
    have hx := space_pages (hsizes d (List.mem_of_mem_filter hd)) hp.large hp.aligned h1 h2
    exact houtside (fun hxo => Set.disjoint_left.mp (h.cachesApart i c hc d hd) hxo hx)

/-- A cell other than a block of whole pages is disjoint from its pages. -/
theorem cell_off_pages (h : HeapInv Holds s F caches view)
    (hsizes : ∀ b ∈ s.blocks, b.size < 2 ^ 64) (hcell : Cell s.blocks caches view a len)
    {b : Block} (hb : b ∈ pageBlocks s.blocks) (hne : a ≠ metadataOf b.pointer) (h1 : a ≤ x)
    (h2 : x < a + len) : x / 4096 ∉ b.pages := by
  cases hcell with
  | @slot j _ d hd ha =>
    have hin := ((h.good.cache j d hd).inv.slots a ha).inside h1 h2
    exact fun hx => Set.disjoint_left.mp (h.cachesApart j d hd b hb)
      (Set.mem_insert_of_mem _ hin.1) hx
  | @pages d hd =>
    have hp := h.pages d hd
    have hx := space_pages (hsizes d (List.mem_of_mem_filter hd)) hp.large hp.aligned h1 h2
    have hdb : d ≠ b := fun he => hne (by rw [he])
    have hsymm : Std.Symm (fun b d : Block => Disjoint b.pages d.pages) :=
      ⟨fun _ _ hab => hab.symm⟩
    have hdis := h.pagesApart.forall hd hb hdb
    exact fun hxb => Set.disjoint_left.mp hdis hx hxb

/-- Cells lie in frames that are handed out. -/
theorem cell_held (h : HeapInv Holds s F caches view)
    (hsizes : ∀ b ∈ s.blocks, b.size < 2 ^ 64) (hcell : Cell s.blocks caches view a len)
    (h1 : a ≤ x) (h2 : x < a + len) : x ∈ frameBytes F := by
  cases hcell with
  | @slot j _ d hd ha =>
    have hci := h.good.cache j d hd
    exact mem_frameBytes.mpr (hci.framesHeld ((hci.inv.slots a ha).inside h1 h2).1)
  | @pages d hd =>
    have hp := h.pages d hd
    exact mem_frameBytes.mpr (hp.held
      (space_pages (hsizes d (List.mem_of_mem_filter hd)) hp.large hp.aligned h1 h2))

/-- Different blocks start at different places. -/
theorem start_ne (h : HeapInv Holds s F caches view) (hsizes : ∀ b ∈ s.blocks, b.size < 2 ^ 64)
    {b d : Block} (hb : b ∈ s.blocks) (hd : d ∈ s.blocks) (hne : b ≠ d) :
    metadataOf b.pointer ≠ metadataOf d.pointer := by
  have hsymm : Std.Symm (fun b d : Block =>
      Apart (metadataOf b.pointer) b.space (metadataOf d.pointer) d.space) :=
    ⟨fun _ _ => Or.symm⟩
  have hap := (h.spaces_apart hsizes).forall hb hd hne
  have hbpos := h.space_pos hb
  have hdpos := h.space_pos hd
  unfold Apart at hap
  omega

/-- A free slot is no block's. -/
theorem free_ne_block (h : HeapInv Holds s F caches view) {b : Block} (hb : b ∈ s.blocks)
    {i f : Nat} {c : SlabCache} {v : SlabView} (hc : caches[i]? = some c)
    (hv : v ∈ (view i).slabs) (hf : f ∈ v.free) : f ≠ metadataOf b.pointer := by
  have hci := (h.good.cache i c hc).inv
  have hs := hci.sizeBounds
  have hin := (hci.slot_of_free hv hf).inside (le_refl f) (by omega)
  intro hfb
  rcases hclass : blockClass b.size with _ | j
  · have hp := h.pages b (page_mem hb hclass)
    exact Set.disjoint_left.mp (h.cachesApart i c hc b (page_mem hb hclass))
      (Set.mem_insert_of_mem _ hin.1) (hfb ▸ hp.first)
  · obtain ⟨d, hd, _, hlive, hslot⟩ := h.block_slot hb hclass
    have hsd := (h.good.cache j d hd).inv.sizeBounds
    have hinb := hslot.inside (le_refl _) (by omega)
    by_cases hij : i = j
    · subst hij
      obtain rfl : c = d := Option.some.inj (hc.symm.trans hd)
      have hnd := (List.nodup_append.mp hci.nodup).2.2
      exact hnd f (List.mem_flatMap.mpr ⟨v, hv, hf⟩) _ hlive hfb
    · exact h.frames_ne hij hc hd hin.1 hinb.1 (by rw [hfb])

end Cells

section Steps

variable {base fuel n q : Nat} {U W F : Set Nat} {s : HeapState Pmm} {h1 h' : Heap Pmm}
  {caches : List SlabCache} {view : Nat → CacheView}

theorem cons_sizes (hsizes : ∀ b ∈ s.blocks, b.size < 2 ^ 64) (hn : n < 2 ^ 64) :
    ∀ b ∈ (⟨q, n⟩ : Block) :: s.blocks, b.size < 2 ^ 64 := by
  intro b hb
  rcases List.mem_cons.mp hb with rfl | hb
  · exact hn
  · exact hsizes b hb

/-- The slot `malloc` takes becomes a block; all other cells stay as they are. -/
theorem malloc_slot_cells (hA : pmmFrames.Lawful U (pmmHolds base U))
    (h : HeapInv (pmmHolds base U) s F caches view) (hsizes : ∀ b ∈ s.blocks, b.size < 2 ^ 64)
    {i : Nat} (hclass : blockClass n = some i)
    (hok : malloc pmmFrames fuel s.heap n = .ok (q, h1)) :
    ∃ (caches1 : List SlabCache) (view1 : Nat → CacheView),
      HeapInv (pmmHolds base U) ⟨h1, ⟨q, n⟩ :: s.blocks⟩ F caches1 view1 ∧
      ∀ a len, Cell s.blocks caches view a len → a ≠ metadataOf q →
        Cell (⟨q, n⟩ :: s.blocks) caches1 view1 a len ∧
          SameCell s.heap.kernel.mem h1.kernel.mem a len := by
  obtain ⟨c, hc, _⟩ := h.cache_exists (sizeToSlabCacheIndex_some hclass)
  have hle := (heapSlabSizes_bound (sizeToSlabCacheIndex_some hclass)).2.2.1
  obtain ⟨v, hv, _⟩ := h.oneSlab i c hc
  obtain ⟨hfuel, b, tail, hfree⟩ := h.malloc_slab_ok hA rfl hle hclass hc hv hok
  obtain ⟨m', p, hok', _, hpb, _, hout, hinv⟩ :=
    h.malloc_slab hA rfl hle hclass hc hv hfree hfuel
  obtain ⟨rfl, rfl⟩ := Prod.mk.inj (Except.ok.inj (hok.symm.trans hok'))
  have hsize := (h.good.cache i c hc).inv.sizeBounds
  have hb : b ∈ objects (view i).slabs c.live := by
    rw [hv]
    simp [objects, hfree]
  refine ⟨_, _, hinv, fun a len hcell hne => ⟨?_, fun x h1 h2 => ?_⟩⟩
  · cases hcell with
    | @slot j _ d hd ha =>
      by_cases hji : j = i
      · subst hji
        obtain rfl : d = c := Option.some.inj (hd.symm.trans hc)
        have hset : (caches.set j { d with live := b :: d.live })[j]? =
            some { d with live := b :: d.live } :=
          List.getElem?_set_self (List.getElem?_eq_some_iff.mp hd).1
        refine Cell.slot (c := { d with live := b :: d.live }) hset ?_
        rw [Function.update_self]
        rw [hv] at ha
        simp only [objects, List.flatMap_cons, List.flatMap_nil, List.append_nil, hfree,
          List.mem_append, List.mem_cons] at ha ⊢
        rcases ha with (ha | ha) | ha
        · exact Or.inr (Or.inl ha)
        · exact Or.inl ha
        · exact Or.inr (Or.inr ha)
      · have hset : (caches.set i { c with live := b :: c.live })[j]? = some d := by
          rw [List.getElem?_set_ne (fun he => hji he.symm)]
          exact hd
        refine Cell.slot hset ?_
        rw [Function.update_of_ne hji]
        exact ha
    | @pages d hd => exact .pages (by simpa [pageBlocks, hclass] using hd)
  · have hoff := h.cell_off_slot hsizes hcell hc hb (fun he => hne (he.trans hpb.symm)) h1 h2
    exact hout x hoff.1 (by omega)

theorem malloc_cells (hbase : 4096 ≤ base) (hU : U ⊆ W)
    (h : HeapInv (pmmHolds base U) s F caches view) (hsizes : ∀ b ∈ s.blocks, b.size < 2 ^ 64)
    (hop : HeapOp.Sound W s (.malloc n)) (hok : malloc pmmFrames fuel s.heap n = .ok (q, h1))
    (hq : q ≠ 0) :
    ∃ (F1 : Set Nat) (caches1 : List SlabCache) (view1 : Nat → CacheView),
      HeapInv (pmmHolds base U) ⟨h1, ⟨q, n⟩ :: s.blocks⟩ F1 caches1 view1 ∧
      ∀ a len, Cell s.blocks caches view a len → a ≠ metadataOf q →
        Cell (⟨q, n⟩ :: s.blocks) caches1 view1 a len ∧
          SameCell s.heap.kernel.mem h1.kernel.mem a len := by
  have hA := pmmHolds_lawful hbase h.pmm
  rcases hclass : blockClass n with _ | i
  · obtain ⟨t, ht, _⟩ := malloc_took hok hq
    have hbig : 512 < roundAllocSize (add64 n metadataSize) := by
      by_contra hle
      have hnone : sizeToSlabCacheIndex (roundAllocSize (add64 n metadataSize)) = none := hclass
      simp only [mallocTakes, if_pos (Nat.not_lt.mp hle), hnone, Option.map_none] at ht
      simp at ht
    obtain ⟨p, k', hok', hsame, hcase⟩ := h.malloc_page fuel hU hop.1 hbig (hop.2 hbig)
    obtain ⟨rfl, rfl⟩ := Prod.mk.inj (Except.ok.inj (hok.symm.trans hok'))
    rcases hcase with ⟨hq0, _⟩ | ⟨_, _, _, _, hinv⟩
    · exact absurd hq0 hq
    · refine ⟨_, caches, view, hinv, fun a len hcell _ => ⟨?_, fun x h1 h2 => ?_⟩⟩
      · cases hcell with
        | slot hc ha => exact .slot hc ha
        | @pages d hd =>
          refine .pages ?_
          have hcons : pageBlocks (⟨q, n⟩ :: s.blocks) = ⟨q, n⟩ :: pageBlocks s.blocks := by
            simp [pageBlocks, hclass]
          rw [hcons]
          exact List.mem_cons_of_mem _ hd
      · exact hsame x (h.cell_held hsizes hcell h1 h2)
  · obtain ⟨caches1, view1, hinv, hcells⟩ := h.malloc_slot_cells hA hsizes hclass hok
    exact ⟨F, caches1, view1, hinv, hcells⟩

/-- A write behind the tag of a block stays in its own cell. -/
theorem write_cells (hbase : 4096 ≤ base) (h : HeapInv (pmmHolds base U) s F caches view)
    (hsizes : ∀ b ∈ s.blocks, b.size < 2 ^ 64) {b : Block} (hb : b ∈ s.blocks) {m' : Mem}
    (hm : ∀ x, (x < metadataOf b.pointer + 2 ∨ metadataOf b.pointer + b.space ≤ x) →
      m' x = s.heap.kernel.mem x) :
    HeapInv (pmmHolds base U) ⟨{ s.heap with kernel := { s.heap.kernel with mem := m' } },
        s.blocks⟩ F caches view ∧
      ∀ a len, Cell s.blocks caches view a len → a ≠ metadataOf b.pointer →
        SameCell s.heap.kernel.mem m' a len := by
  have hA := pmmHolds_lawful hbase h.pmm
  rcases hclass : blockClass b.size with _ | i
  · have hbp := page_mem hb hclass
    have hp := h.pages b hbp
    have hpage : ∀ x, x / 4096 ∉ b.pages → m' x = s.heap.kernel.mem x := by
      intro x hx
      refine hm x ?_
      by_contra hcon
      exact hx (space_pages (hsizes b hb) hp.large hp.aligned (by omega) (by omega))
    refine ⟨h.write_page hbp (fun x hx => ?_), fun a len hcell hne x h1 h2 => ?_⟩
    · rcases hx with hx | hx
      · exact hpage x hx
      · exact hm x (Or.inl hx)
    · exact hpage x (h.cell_off_pages hsizes hcell hbp hne h1 h2)
  · obtain ⟨c, hc, hbi, hlive, _⟩ := h.block_slot hb hclass
    rw [h.space_eq hc hclass] at hm
    refine ⟨h.write_slab hA hc hbi hm, fun a len hcell hne x h1 h2 => hm x ?_⟩
    have hoff := h.cell_off_slot hsizes hcell hc (List.mem_append_right _ hlive) hne h1 h2
    omega

/-- `free` changes its block's cell and the allocators' own structures. -/
theorem free_cells (hbase : 4096 ≤ base) (h : HeapInv (pmmHolds base U) s F caches view)
    (hsizes : ∀ b ∈ s.blocks, b.size < 2 ^ 64) {b : Block} (hb : b ∈ s.blocks)
    (hok : free pmmFrames fuel s.heap b.pointer = .ok h') :
    ∀ a len, Cell s.blocks caches view a len → a ≠ metadataOf b.pointer →
      SameCell s.heap.kernel.mem h'.kernel.mem a len := by
  have hA := pmmHolds_lawful hbase h.pmm
  intro a len hcell hne x h1 h2
  rcases hclass : blockClass b.size with _ | i
  · obtain ⟨hok', hsame, _⟩ := h.free_page fuel (page_mem hb hclass)
    obtain rfl := Except.ok.inj (hok.symm.trans hok')
    exact hsame x (h.pmm.held (h.cell_held hsizes hcell h1 h2))
  · obtain ⟨c, hc, hbi, hlive, _⟩ := h.block_slot hb hclass
    have hfuel := h.free_slab_fuel hc hbi hok
    obtain ⟨_, _, m', v, _, hok', _, hout, _⟩ := h.free_slab hA hc hbi hfuel
    obtain rfl := Except.ok.inj (hok.symm.trans hok')
    have hs := (h.good.cache i c hc).inv.sizeBounds
    have hoff := h.cell_off_slot hsizes hcell hc (List.mem_append_right _ hlive) hne h1 h2
    exact hout x hoff.1 (by omega)

/-- A new block starts where no other block does. -/
theorem new_start_ne (h : HeapInv (pmmHolds base U) ⟨h1, ⟨q, n⟩ :: s.blocks⟩ F caches view)
    (hsizes : ∀ b ∈ s.blocks, b.size < 2 ^ 64) (hn : n < 2 ^ 64) {b : Block}
    (hb : b ∈ s.blocks) :
    metadataOf q ≠ metadataOf b.pointer := by
  have hap := (List.pairwise_cons.mp (h.spaces_apart (cons_sizes hsizes hn))).1 b hb
  have hpos := h.space_pos (d := ⟨q, n⟩) (by simp)
  have hpos' := h.space_pos (List.mem_cons_of_mem _ hb)
  have hap' : metadataOf q + Block.space ⟨q, n⟩ ≤ metadataOf b.pointer ∨
    metadataOf b.pointer + b.space ≤ metadataOf q := hap
  omega

/-- The heap between the copy and `free`, when no more is copied than the new
block holds. -/
theorem copied_heap (hbase : 4096 ≤ base) (hU : U ⊆ W)
    (h : HeapInv (pmmHolds base U) s F caches view) (hsizes : ∀ b ∈ s.blocks, b.size < 2 ^ 64)
    (hop : HeapOp.Sound W s (.malloc n)) (hok : malloc pmmFrames fuel s.heap n = .ok (q, h1))
    (hq : q ≠ 0) (p : Nat) {l : Nat} (hl : l ≤ 512) (hfit : l + 2 ≤ Block.space ⟨q, n⟩) :
    ∃ (F1 : Set Nat) (caches1 : List SlabCache) (view1 : Nat → CacheView),
      HeapInv (pmmHolds base U) ⟨{ h1 with kernel := { h1.kernel with
        mem := memcpy h1.kernel.mem q p l } }, ⟨q, n⟩ :: s.blocks⟩ F1 caches1 view1 ∧
      ∀ a len, Cell s.blocks caches view a len → a ≠ metadataOf q →
        Cell (⟨q, n⟩ :: s.blocks) caches1 view1 a len ∧
          SameCell s.heap.kernel.mem (memcpy h1.kernel.mem q p l) a len := by
  obtain ⟨F1, caches1, view1, hinv1, hcells1⟩ := h.malloc_cells hbase hU hsizes hop hok hq
  have hnew : (⟨q, n⟩ : Block) ∈ (⟨q, n⟩ : Block) :: s.blocks := by simp
  have hkeep : ∀ x, (x < metadataOf q + 2 ∨ metadataOf q + Block.space ⟨q, n⟩ ≤ x) →
      memcpy h1.kernel.mem q p l x = h1.kernel.mem x := by
    intro x hx
    refine memcpy_outside (fun i hi => ?_)
    have hphys : heapPhys (q + i) = metadataOf q + 2 + i :=
      hinv1.block_phys_of_pmm hnew (by omega)
    rw [hphys]
    omega
  obtain ⟨hinv2, hcells2⟩ := hinv1.write_cells hbase (cons_sizes hsizes hop.1) hnew hkeep
  refine ⟨F1, caches1, view1, hinv2, fun a len hcell hqa => ?_⟩
  obtain ⟨hcell1, hsame1⟩ := hcells1 a len hcell hqa
  exact ⟨hcell1, hsame1.trans (hcells2 a len hcell1 hqa)⟩

/-- A move that copies no more than the new block holds: besides the old and the
new block no cell changes, and the new one keeps what was copied. -/
theorem moved_cells (hbase : 4096 ≤ base) (hU : U ⊆ W)
    (h : HeapInv (pmmHolds base U) s F caches view) (hsizes : ∀ b ∈ s.blocks, b.size < 2 ^ 64)
    (hop : HeapOp.Sound W s (.malloc n)) {b : Block} (hb : b ∈ s.blocks)
    (hok : malloc pmmFrames fuel s.heap n = .ok (q, h1)) (hq : q ≠ 0) {l : Nat} (hl : l ≤ 512)
    (hfit : l + 2 ≤ Block.space ⟨q, n⟩)
    (hfree : free pmmFrames fuel { h1 with kernel := { h1.kernel with
      mem := memcpy h1.kernel.mem q b.pointer l } } b.pointer = .ok h') :
    (∀ a len, Cell s.blocks caches view a len → a ≠ metadataOf q →
      a ≠ metadataOf b.pointer →
      SameCell s.heap.kernel.mem h'.kernel.mem a len) ∧
    SameCell (memcpy h1.kernel.mem q b.pointer l) h'.kernel.mem (metadataOf q)
      (Block.space ⟨q, n⟩) := by
  obtain ⟨F1, caches1, view1, hinv, hcells⟩ :=
    h.copied_heap hbase hU hsizes hop hok hq b.pointer hl hfit
  have hold : b ∈ (⟨q, n⟩ : Block) :: s.blocks := List.mem_cons_of_mem _ hb
  have hfreed := hinv.free_cells hbase (cons_sizes hsizes hop.1) hold hfree
  refine ⟨fun a len hcell hqa hba => ?_, ?_⟩
  · obtain ⟨hcell1, hsame⟩ := hcells a len hcell hqa
    exact hsame.trans (hfreed a len hcell1 hba)
  · have hnew : (⟨q, n⟩ : Block) ∈ (⟨q, n⟩ : Block) :: s.blocks := by simp
    exact hfreed _ _ (hinv.block_cell hnew) (hinv.new_start_ne hsizes hop.1 hb)

/-- `free` works on a heap in which a slab of another cache has been written to,
and leaves that slab alone. -/
theorem free_beside (hbase : 4096 ≤ base) (h : HeapInv (pmmHolds base U) s F caches view)
    {b : Block} (hb : b ∈ s.blocks) {j f : Nat} {c : SlabCache} (hc : caches[j]? = some c)
    (hne : blockClass b.size ≠ some j) (hf : f ∈ (view j).frames) {m' : Mem}
    (hm : ∀ x, x / 4096 ≠ f → m' x = s.heap.kernel.mem x) (hfuel : 1 ≤ fuel) :
    ∃ h', free pmmFrames fuel { s.heap with kernel := { s.heap.kernel with mem := m' } }
      b.pointer =
        .ok h' ∧ ∀ x, x / 4096 = f → h'.kernel.mem x = m' x := by
  have hA := pmmHolds_lawful hbase h.pmm
  have hfF : f ∈ F := (h.good.cache j c hc).framesHeld hf
  obtain ⟨hp0, _⟩ := h.pointer_tagged hb
  rcases hclass : blockClass b.size with _ | i
  · have hp := h.pages b (page_mem hb hclass)
    have hfirst : f ≠ metadataOf b.pointer / 4096 := fun hfb =>
      Set.disjoint_left.mp (h.cachesApart j c hc b (page_mem hb hclass))
        (Set.mem_insert_of_mem _ hf) (hfb ▸ hp.first)
    have htag : m'.load16 (metadataOf b.pointer) = b.space / pageSize % 2 ^ 16 := by
      have hal := hp.aligned
      have htag' := hp.tag
      rw [← Mem.load16_congr (fun x h1 h2 => hm x (by omega))] at htag'
      exact htag'
    have hinv : PmmInv m' s.heap.kernel.frames base U F := by
      refine h.pmm.client_writes (fun x hx => hm x (fun hxf => hx ?_))
      exact mem_frameBytes.mpr (hxf ▸ h.pmm.held hfF)
    have hsub : frameRun (metadataOf b.pointer / 4096) (b.space / pageSize % 2 ^ 16) ⊆ F := by
      intro g hg
      exact hp.held ⟨hg.1, lt_of_lt_of_le hg.2 (Nat.add_le_add_left (Nat.mod_le _ _) _)⟩
    have hsame := (hinv.free hsub).2
    have hd : decodeTag m' b.pointer = .pages (b.space / pageSize % 2 ^ 16) := by
      rw [decodeTag_pages hp.aligned, htag]
    refine ⟨_, free_pages_decoded hp0 hd, fun x hx => ?_⟩
    exact hsame x (mem_frameBytes.mpr (hx ▸ h.pmm.held hfF))
  · obtain ⟨d, hd, _, hlive, _⟩ := h.block_slot hb hclass
    have hij : i ≠ j := fun he => hne (he ▸ hclass)
    have hfo : f ∉ ownFrames d.cache (view i).frames := fun hfo =>
      Set.disjoint_left.mp (h.good.apart i j d c hij hd hc) hfo (Set.mem_insert_of_mem _ hf)
    have hown : Mem.SameOn (frameBytes (ownFrames d.cache (view i).frames)) s.heap.kernel.mem m' :=
      fun x hx => hm x (fun hxf => hfo (hxf ▸ mem_frameBytes.mp hx))
    obtain ⟨v, hslabs, _, hcount⟩ := h.oneSlab i d hd
    have hci := h.good.cache i d hd
    rw [hslabs] at hci
    have hst := hci.write hA (fun x hx => hm x (fun hxf => hx (mem_frameBytes.mpr (hxf ▸ hfF))))
      (hci.inv.of_sameOn (Set.mem_insert _ _) (Set.subset_insert _ _) hown)
    have hpos : 0 < d.live.length := List.length_pos_of_mem hlive
    have hroom : v.free.length < (view i).max := by
      rw [h.capacity i d hd]
      omega
    obtain ⟨m2, hok, _, hout⟩ := slabCacheFree_first panicFlags hA hst hlive hroom hfuel
    have hal := h.unaligned i d hd _ (List.mem_append_right _ hlive)
    have hdecode : decodeTag m' b.pointer = .slab i := by
      rw [decodeTag_slab hal, ← h.tags i d hd _ hlive]
      congr 1
      exact Mem.load16_congr (fun x h1 h2 => hown x (h.tag_frame hd hlive h1 h2))
    refine ⟨_, free_slab_decoded hp0 hdecode (by rw [h.cache_eq hd]; exact hok), fun x hx => ?_⟩
    have hin := (hci.inv.slot_of_live hlive)
    have hs := hci.inv.sizeBounds
    refine hout x (fun hxb => hfo (hx ▸ bookkeeping_own hxb)) ?_
    by_contra hcon
    have hxin := hin.inside (x := x) (by omega) (by omega)
    exact hfo (hx ▸ Set.mem_insert_of_mem _ hxin.1)

end Steps

end HeapInv

/-- What `realloc` copies fits the new block: not when a slot is exchanged for a
smaller one whose size the new size needs with the metadata counted in, nor when
15 bytes are assumed behind the old pointer and at most 14 are asked for. -/
def CopyFits (b : Block) (n : Nat) : Prop :=
  if b.space ≤ 512 then
    ¬ (roundAllocSize (add64 n metadataSize) = roundAllocSize n ∧ roundAllocSize n < b.space)
  else ¬ (b.space / pageSize % 2 ^ 16 / pageSize = 15 ∧ n ≤ 14)

instance (b : Block) (n : Nat) : Decidable (CopyFits b n) := by
  unfold CopyFits
  infer_instance

section Copied

variable {n : Nat} {t : Taken}

/-- The three kinds of sizes `malloc` has something for. -/
theorem round_taken (hn : n < 2 ^ 64) (ht : mallocTakes n = some t) :
    (n ≤ 510 ∧ 16 ≤ roundAllocSize n ∧ n ≤ roundAllocSize n ∧
      roundAllocSize n ≤ 512 ∧ n + 2 ≤ roundAllocSize (add64 n metadataSize) ∧
      roundAllocSize (add64 n metadataSize) ∈ heapSlabSizes ∧
      (roundAllocSize (add64 n metadataSize) = roundAllocSize n ∨
        roundAllocSize (add64 n metadataSize) = 2 * roundAllocSize n)) ∨
    (510 < n ∧ n ≤ 2 ^ 64 - 4096 ∧ 512 ≤ roundAllocSize n ∧ n ≤ roundAllocSize n ∧
      4096 ≤ roundAllocSize (add64 n metadataSize)) ∨
    (2 ^ 64 - 2 ≤ n ∧ roundAllocSize n = 0 ∧ roundAllocSize (add64 n metadataSize) = 16) := by
  by_cases hsmall : n ≤ 510
  · left
    obtain ⟨h1, h2, h3, h4, h5, h6⟩ := round_step hsmall
    obtain ⟨i, _, hi, _⟩ := blockClass_small hsmall
    exact ⟨hsmall, h2, h1, h3, h5, List.mem_of_getElem? (sizeToSlabCacheIndex_some hi), h4⟩
  · right
    by_cases hwrap : n < 2 ^ 64 - 2
    · left
      have hshort : ¬ 2 ^ 64 - 4098 < n := by
        intro h1
        rw [mallocTakes_short h1 hwrap] at ht
        simp at ht
      have hadd : add64 n metadataSize = n + 2 := add64_of_lt (by unfold metadataSize; omega)
      rw [hadd]
      rcases roundAllocSize_cases (show n + 2 < 2 ^ 64 by omega) with hc | hc | hc
      · omega
      · rw [hc.2.2]
        by_cases h512 : n ≤ 512
        · rw [round_two (by omega) h512]
          omega
        · rcases roundAllocSize_cases hn with hd | hd | hd
          · omega
          · rw [hd.2.2]
            omega
          · omega
      · omega
    · right
      have h0 : roundAllocSize n = 0 := by
        rcases round_bounds hn with hr | hr
        · omega
        · exact hr.2
      have hall : ∀ a < 2, roundAllocSize a = 16 := by decide +kernel
      refine ⟨by omega, h0, hall _ ?_⟩
      unfold add64 metadataSize
      omega

theorem slotSizes_double {c d : Nat} (hc : c ∈ heapSlabSizes) (hd : d ∈ heapSlabSizes)
    (hlt : c < d) : 16 ≤ c ∧ 2 * c ≤ d := by
  have hall : ∀ c ∈ heapSlabSizes, ∀ d ∈ heapSlabSizes, c < d → 16 ≤ c ∧
      2 * c ≤ d := by decide
  exact hall c hc d hd hlt

/-- A block that is moved is copied within bounds exactly if the copy fits. -/
theorem copied_iff {b : Block} (hb : b.space ∈ heapSlabSizes ∨ 512 < b.space) (q : Nat)
    (hn : n < 2 ^ 64) (ht : mallocTakes n = some t) (hdiff : b.oldSize ≠ roundAllocSize n) :
    min b.oldSize (roundAllocSize n) + 2 ≤ Block.space ⟨q, n⟩ ↔ CopyFits b n := by
  have hspace : Block.space ⟨q, n⟩ = roundAllocSize (add64 n metadataSize) := rfl
  rw [hspace]
  have hkinds := round_taken hn ht
  rcases hb with hslot | hpages
  · have hle : b.space ≤ 512 := by
      have hall : ∀ c ∈ heapSlabSizes, c ≤ 512 := by decide
      exact hall _ hslot
    have hold : b.oldSize = b.space := if_pos hle
    rw [hold] at hdiff ⊢
    unfold CopyFits
    rw [if_pos hle]
    rcases hkinds with ⟨_, h16, _, _, _, hmem, heq | heq⟩ | hk | hk
    · rw [heq] at hmem ⊢
      by_cases hlt : b.space < roundAllocSize n
      · have hd := slotSizes_double hslot hmem hlt
        omega
      · omega
    · omega
    · omega
    · omega
  · obtain ⟨hold, h15⟩ := oldSize_pages hpages
    rw [hold] at hdiff h15 ⊢
    unfold CopyFits pageSize
    rw [if_neg (by omega)]
    rcases hkinds with ⟨hsm, h16, _, _, hge, _, _⟩ | hk | hk
    · have hall : ∀ n < 15, roundAllocSize (add64 n metadataSize) = 16 := by decide +kernel
      by_cases h14 : n ≤ 14
      · rw [hall n (by omega)]
        omega
      · omega
    · omega
    · omega

end Copied

/-- A call of `realloc` writes where it may: what it copies fits the new block,
and no other block, metadata or link of a free list changes. -/
structure ReallocConfined (s : HeapState Pmm) (b : Block) (n q : Nat) (h' : Heap Pmm) : Prop where
  copied : ∀ i < reallocCopied s.heap.kernel.mem b.pointer n,
    metadataSize + i < Block.space ⟨q, n⟩
  others : ∀ d ∈ s.blocks, d ≠ b →
    SameCell s.heap.kernel.mem h'.kernel.mem (metadataOf d.pointer) d.space
  links : ∀ cache ∈ s.heap.slabCaches, ∀ slabs, ListedSlabs s.heap.kernel cache slabs →
    ∀ t ∈ slabs, ∀ l, Chain s.heap.kernel.bufctlNext 0
      (s.heap.kernel.slabFreelistHead t) l →
      ∀ f ∈ l, f ≠ metadataOf q → h'.kernel.bufctlNext f = s.heap.kernel.bufctlNext f

namespace HeapInv

variable {base fuel n q : Nat} {U W F : Set Nat} {s : HeapState Pmm} {h1 h' : Heap Pmm}
  {caches : List SlabCache} {view : Nat → CacheView} {b : Block}

theorem space_kinds (h : HeapInv (pmmHolds base U) s F caches view) (hb : b ∈ s.blocks) :
    b.space ∈ heapSlabSizes ∨ 512 < b.space := by
  rcases hclass : blockClass b.size with _ | i
  · exact Or.inr (h.pages b (page_mem hb hclass)).large
  · exact Or.inl (List.mem_of_getElem? (sizeToSlabCacheIndex_some hclass))

theorem oldSize_le (h : HeapInv (pmmHolds base U) s F caches view) (hb : b ∈ s.blocks) :
    b.oldSize ≤ 512 ∧ b.oldSize ≤ b.space := by
  rcases h.space_kinds hb with hslot | hpages
  · have hall : ∀ c ∈ heapSlabSizes, c ≤ 512 := by decide
    have hle := hall _ hslot
    have hold : b.oldSize = b.space := if_pos hle
    omega
  · have h15 := (oldSize_pages hpages).2
    omega

/-- A free slot of one of the heap's caches is a cell. -/
theorem free_cell (h : HeapInv (pmmHolds base U) s F caches view) {cache t f : Nat}
    {slabs l : List Nat} (hcache : cache ∈ s.heap.slabCaches)
    (hl : ListedSlabs s.heap.kernel cache slabs) (ht : t ∈ slabs)
    (hchain : Chain s.heap.kernel.bufctlNext 0 (s.heap.kernel.slabFreelistHead t) l)
    (hf : f ∈ l) : (∃ len, 8 ≤ len ∧ Cell s.blocks caches view f len) ∧
      ∀ d ∈ s.blocks, f ≠ metadataOf d.pointer := by
  obtain ⟨j, d, v, hd, _, hv, _, rfl⟩ := h.listed_slab hcache hl ht
  have hvm : v ∈ (view j).slabs := by rw [hv]; simp
  have hdj := (h.good.cache j d hd).inv
  have hfree := hchain.unique (hdj.freeList v hvm)
  rw [hfree] at hf
  have hs := hdj.sizeBounds
  refine ⟨⟨d.size, by omega, .slot hd (List.mem_append_left _ ?_)⟩,
    fun e he => h.free_ne_block he hd hvm hf⟩
  exact List.mem_flatMap.mpr ⟨v, hvm, hf⟩

theorem confined_iff (hbase : 4096 ≤ base) (hU : U ⊆ W)
    (h : HeapInv (pmmHolds base U) s F caches view) (hsizes : ∀ b ∈ s.blocks, b.size < 2 ^ 64)
    (hb : b ∈ s.blocks) (hpos : 0 < n) (hn : n < 2 ^ 64)
    (hop : b.oldSize ≠ roundAllocSize n → HeapOp.Sound W s (.malloc n))
    (hok : realloc pmmFrames fuel s.heap b.pointer n = .ok (q, h')) (hq : q ≠ 0) :
    ReallocConfined s b n q h' ↔ CopyFits b n := by
  obtain ⟨hp0, hpoint⟩ := h.pointer_tagged hb
  have hold := h.reallocOldSize_block hb
  cases realloc_cases hp0 (by omega) hpoint hok hq with
  | kept hsame =>
    have hround : b.oldSize = roundAllocSize n := Option.some.inj (hold.symm.trans hsame)
    have hnone : reallocCopied s.heap.kernel.mem b.pointer n = 0 := by
      rw [reallocCopied_eq hsame, if_pos rfl]
    refine iff_of_true ⟨by simp [hnone], fun _ _ _ _ _ _ => rfl, fun _ _ _ _ _ _ _ _ _ _ _ =>
      rfl⟩ ?_
    unfold CopyFits
    split_ifs with hle
    · have hsp : b.oldSize = b.space := if_pos hle
      omega
    · obtain ⟨hX, h15⟩ := oldSize_pages (Nat.not_le.mp hle)
      unfold pageSize
      rcases round_bounds hn with hr | hr
      · omega
      · omega
  | moved hold' hdiff hmalloc hfree =>
    obtain rfl := Option.some.inj (hold.symm.trans hold')
    obtain ⟨t, ht, _⟩ := malloc_took hmalloc hq
    obtain ⟨ho512, hospace⟩ := h.oldSize_le hb
    have hcopied : reallocCopied s.heap.kernel.mem b.pointer n =
        min b.oldSize (roundAllocSize n) := by
      rw [reallocCopied_eq hold, if_neg hdiff]
    rw [← copied_iff (h.space_kinds hb) q hn ht hdiff]
    have h16 : 16 ≤ Block.space ⟨q, n⟩ := by
      have hkinds := round_taken hn ht
      have hspace : Block.space ⟨q, n⟩ = roundAllocSize (add64 n metadataSize) := rfl
      omega
    constructor
    · intro hconf
      have hbytes := hconf.copied
      rw [hcopied] at hbytes
      by_contra hcon
      have hlast := hbytes (min b.oldSize (roundAllocSize n) - 1) (by omega)
      unfold metadataSize at hlast
      omega
    · intro hfit
      obtain ⟨hcells, _⟩ :=
        h.moved_cells hbase hU hsizes (hop hdiff) hb hmalloc hq (by omega) hfit
        hfree
      obtain ⟨F1, caches1, view1, hinv1, _⟩ :=
        h.malloc_cells hbase hU hsizes (hop hdiff) hmalloc hq
      refine ⟨fun i hi => ?_, fun d hd hne => ?_,
        fun cache hcache slabs hl t ht l hchain f hf hfq => ?_⟩
      · rw [hcopied] at hi
        unfold metadataSize
        omega
      · exact hcells _ _ (h.block_cell hd) (hinv1.new_start_ne hsizes hn hd).symm
          (h.start_ne hsizes hd hb hne)
      · obtain ⟨⟨len, hlen, hcell⟩, hnb⟩ := h.free_cell hcache hl ht hchain hf
        have hsame := hcells f len hcell hfq (hnb b hb)
        exact Mem.load64_congr (fun x h1 h2 => hsame x h1 (by omega))

/-- The bytes from a slot to two beyond its end share its frame. -/
theorem slot_frame {size d x : Nat} {frames : Set Nat} (hslot : IsSlot size frames d)
    (hs : 10 ≤ size) (h1 : d ≤ x) (h2 : x < d + size + 2) :
    x / 4096 = d / 4096 ∧ d / 4096 ∈ frames := by
  have hfirst := hslot.inside (le_refl d) (by omega)
  have hlast := hslot.inside (x := d + size - 1) (by omega) (by omega)
  exact ⟨by omega, hfirst.1⟩

/-- Moving a block into a slot of another class works, even past the end of the
slot; the bytes written there stay. -/
theorem move_to_slot (hbase : 4096 ≤ base) (h : HeapInv (pmmHolds base U) s F caches view)
    (hsizes : ∀ b ∈ s.blocks, b.size < 2 ^ 64) (hb : b ∈ s.blocks) {j : Nat}
    (hclass : blockClass n = some j) (hne : blockClass b.size ≠ some j)
    (hmalloc : malloc pmmFrames fuel s.heap n = .ok (q, h1)) {l : Nat}
    (hl : l ≤ Block.space ⟨q, n⟩) (hfuel : 1 ≤ fuel) :
    ∃ h', free pmmFrames fuel { h1 with kernel := { h1.kernel with
        mem := memcpy h1.kernel.mem q b.pointer l } } b.pointer = .ok h' ∧
      ∀ x, metadataOf q ≤ x → x < metadataOf q + Block.space ⟨q, n⟩ + 2 →
        h'.kernel.mem x = memcpy h1.kernel.mem q b.pointer l x := by
  have hA := pmmHolds_lawful hbase h.pmm
  obtain ⟨caches1, view1, hinv1, _⟩ := h.malloc_slot_cells hA hsizes hclass hmalloc
  have hnew : (⟨q, n⟩ : Block) ∈ (⟨q, n⟩ : Block) :: s.blocks := by simp
  obtain ⟨c, hc, _, _, hslot⟩ := hinv1.block_slot hnew hclass
  have hs := (hinv1.good.cache j c hc).inv.sizeBounds
  have hspace : Block.space ⟨q, n⟩ = c.size := hinv1.space_eq hc hclass
  rw [hspace] at hl ⊢
  have hframe : ∀ x, metadataOf q ≤ x → x < metadataOf q + c.size + 2 →
      x / 4096 = metadataOf q / 4096 ∧ metadataOf q / 4096 ∈ (view1 j).frames :=
    fun x h1 h2 => slot_frame hslot hs.1 h1 h2
  have hkeep : ∀ x, x / 4096 ≠ metadataOf q / 4096 →
      memcpy h1.kernel.mem q b.pointer l x = h1.kernel.mem x := by
    intro x hx
    refine memcpy_outside (fun i hi hxi => hx ?_)
    have hphys : heapPhys (q + i) = metadataOf q + 2 + i :=
      hinv1.block_phys_of_pmm hnew (by omega)
    rw [hxi, hphys]
    exact (hframe _ (by omega) (by omega)).1
  obtain ⟨h', hfree, hsame⟩ := hinv1.free_beside hbase (List.mem_cons_of_mem _ hb) hc hne
    (hframe _ (le_refl _) (by omega)).2 hkeep hfuel
  exact ⟨h', hfree, fun x hx1 hx2 => hsame x (hframe x hx1 hx2).1⟩

end HeapInv

/-- In every state a sound run reaches, a `realloc` whose own request is sound
writes only inside the block it returns exactly if its copy fits. -/
theorem realloc_confined_iff (base : Nat) (U F : Set Nat) (k : Kernel Pmm)
    (hk : PmmInv k.mem k.frames base U F) (hbase : 4096 ≤ base) (h : Heap Pmm)
    (hinit : mallocHeapInit pmmFrames k = .ok h) (fuel : Nat) (ops : List HeapOp)
    (s : HeapState Pmm) (hsound : HeapState.SoundRun U fuel ⟨h, []⟩ ops)
    (hrun : HeapState.run pmmFrames fuel ⟨h, []⟩ ops = some s) (b : Block) (hb : b ∈ s.blocks)
    (n : Nat) (hpos : 0 < n) (hn : n < 2 ^ 64)
    (hop : b.oldSize ≠ roundAllocSize n → HeapOp.Sound U s (.malloc n)) (q : Nat)
    (h' : Heap Pmm) (hok : realloc pmmFrames fuel s.heap b.pointer n = .ok (q, h')) (hq : q ≠ 0) :
    ReallocConfined s b n q h' ↔ CopyFits b n := by
  obtain ⟨F', caches, view, hinv, hsizes, _⟩ :=
    HeapInv.of_init hbase hk hinit (Set.Subset.refl U) hsound hrun
  exact hinv.confined_iff hbase (Set.Subset.refl U) hsizes hb hpos hn hop hok hq

/-- A block of the fresh heap of `heapMap`, moved to a slot of another class. -/
theorem heapMap_moved {size i n j : Nat} (hsize : size ≤ 510) (hclass : blockClass size = some i)
    (hroom : 0 < 4056 / roundAllocSize (add64 size metadataSize) - 1) (hpos : n ≠ 0)
    (hn : n ≤ 510) (hclass' : blockClass n = some j) (hij : i ≠ j)
    (hroom' : 0 < 4056 / roundAllocSize (add64 n metadataSize) - 1)
    (hdiff : roundAllocSize (add64 size metadataSize) ≠ roundAllocSize n) :
    ∃ (h : Heap Pmm) (s : HeapState Pmm) (p q : Nat) (h' : Heap Pmm),
      mallocHeapInit pmmFrames (bootKernel heapMap) = .ok h ∧
      HeapState.run pmmFrames 1 ⟨h, []⟩ [.malloc size] = some s ∧
      HeapState.SoundRun heapFrames 1 ⟨h, []⟩ [.malloc size] ∧ s.blocks = [⟨p, size⟩] ∧
      realloc pmmFrames 1 s.heap p n = .ok (q, h') ∧ q ≠ 0 ∧
      reallocCopied s.heap.kernel.mem p n =
        min (roundAllocSize (add64 size metadataSize)) (roundAllocSize n) := by
  obtain ⟨h, s, p, _, _, _, hinit, hrun, hsound, hblocks, _, _⟩ :=
    heapMap_alloc hsize hclass hroom
  obtain ⟨F', caches, view, hinv, hsizes, _⟩ :=
    HeapInv.of_init (by decide) heapMap_boot.2.inv hinit
    (Set.Subset.refl heapFrames) hsound hrun
  have hb : (⟨p, size⟩ : Block) ∈ s.blocks := by
    rw [hblocks]; exact List.mem_singleton.mpr rfl
  have hA := pmmHolds_lawful (by decide) hinv.pmm
  have hnone : (slabBlocks j s.blocks).length = 0 := by
    simp [hblocks, slabBlocks, hclass, hij]
  obtain ⟨h1, q, _, _, hmalloc, hq, _, _⟩ := hinv.exec_malloc hA hclass' (by omega) (le_refl 1)
  obtain ⟨hp0, hpoint⟩ := hinv.pointer_tagged hb
  have hold := hinv.reallocOldSize_block hb
  have hsz : (Block.mk p size).oldSize = roundAllocSize (add64 size metadataSize) :=
    if_pos (round_step hsize).2.2.2.2.2
  rw [hsz] at hold
  have hr : roundAllocSize n ≤ Block.space ⟨q, n⟩ := by
    have hstep := round_step hn
    show roundAllocSize n ≤ roundAllocSize (add64 n metadataSize)
    omega
  have hne : blockClass size ≠ some j := fun hc => hij (Option.some.inj (hclass.symm.trans hc))
  obtain ⟨h', hfree, _⟩ := hinv.move_to_slot (by decide) hsizes hb hclass' hne hmalloc
    (Nat.le_trans (Nat.min_le_right (roundAllocSize (add64 size metadataSize)) _) hr) (le_refl 1)
  refine ⟨h, s, p, q, h', hinit, hrun, hsound, hblocks,
    realloc_moved hp0 hpos hpoint hold hdiff hmalloc hq hfree, hq, ?_⟩
  rw [reallocCopied_eq hold, if_neg hdiff]

theorem realloc_confined_iff_heapMap : ∃ h s p q h',
    mallocHeapInit pmmFrames (bootKernel heapMap) = .ok h ∧
    HeapState.run pmmFrames 1 ⟨h, []⟩ [.malloc 10] = some s ∧
    realloc pmmFrames 1 s.heap p 100 = .ok (q, h') ∧ q ≠ 0 ∧
    ReallocConfined s ⟨p, 10⟩ 100 q h' := by
  obtain ⟨h, s, p, q, h', hinit, hrun, hsound, hblocks, hok, hq, _⟩ :=
    heapMap_moved (show 10 ≤ 510 by decide) (show blockClass 10 = some 0 by decide +kernel)
      (by decide +kernel) (show 100 ≠ 0 by decide) (by decide)
      (show blockClass 100 = some 3 by decide +kernel) (by decide) (by decide +kernel)
      (by decide +kernel)
  have hb : (⟨p, 10⟩ : Block) ∈ s.blocks := by rw [hblocks]; exact List.mem_singleton.mpr rfl
  have hsmall : ¬ 512 < roundAllocSize (add64 100 metadataSize) := by decide +kernel
  have hfits : CopyFits ⟨p, 10⟩ 100 := by
    have hspace : (Block.mk p 10).space = 16 := by
      show roundAllocSize (add64 10 metadataSize) = 16
      decide +kernel
    unfold CopyFits
    rw [hspace]
    decide +kernel
  exact ⟨h, s, p, q, h', hinit, hrun, hok, hq,
    (realloc_confined_iff 0x1000 heapFrames ∅ _ heapMap_boot.2.inv
      (by decide) h hinit 1 _ s hsound
      hrun ⟨p, 10⟩ hb 100 (by decide) (by decide)
      (fun _ => ⟨by decide, fun hbig => absurd hbig hsmall⟩) q h' hok hq).mpr hfits⟩

/-- Shrinking a block of 100 bytes to 50 copies 64 bytes into a slot that has 62
behind the metadata. -/
theorem realloc_copies_past_slot : ∃ h s p q h',
    mallocHeapInit pmmFrames (bootKernel heapMap) = .ok h ∧
    HeapState.run pmmFrames 1 ⟨h, []⟩ [.malloc 100] = some s ∧ s.blocks = [⟨p, 100⟩] ∧
    realloc pmmFrames 1 s.heap p 50 = .ok (q, h') ∧ q ≠ 0 ∧
    reallocCopied s.heap.kernel.mem p 50 = 64 ∧ Block.space ⟨q, 50⟩ = 64 ∧
    ¬ ReallocConfined s ⟨p, 100⟩ 50 q h' := by
  obtain ⟨h, s, p, q, h', hinit, hrun, _, hblocks, hok, hq, hcopied⟩ :=
    heapMap_moved (show 100 ≤ 510 by decide) (show blockClass 100 = some 3 by decide +kernel)
      (by decide +kernel) (show 50 ≠ 0 by decide) (by decide)
      (show blockClass 50 = some 2 by decide +kernel) (by decide) (by decide +kernel)
      (by decide +kernel)
  have h64 : min (roundAllocSize (add64 100 metadataSize)) (roundAllocSize 50) = 64 := by
    decide +kernel
  have hspace : Block.space ⟨q, 50⟩ = 64 := by
    show roundAllocSize (add64 50 metadataSize) = 64
    decide +kernel
  rw [h64] at hcopied
  refine ⟨h, s, p, q, h', hinit, hrun, hblocks, hok, hq, hcopied, hspace, fun hconf => ?_⟩
  have hlast := hconf.copied 63 (by rw [hcopied]; decide)
  rw [hspace] at hlast
  exact absurd hlast (by decide)

end ApoptOS
