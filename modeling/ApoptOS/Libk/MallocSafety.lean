import ApoptOS.Libk.MallocInit
import ApoptOS.Memory.Physical.PmmCounted

namespace ApoptOS

open Framework

variable {ρ : Type} {A : PageFrames ρ} {U : Set Nat} {Holds : Mem → ρ → Set Nat → Prop}

/-- The byte ranges `[a, a + n)` and `[b, b + l)` have nothing in common. -/
def Apart (a n b l : Nat) : Prop := a + n ≤ b ∨ b + l ≤ a

/-- A block lies in a slot of the cache of its size class, right after the
metadata, in the frame of a slab on that cache's list. -/
structure BlockInSlot (h : Heap ρ) (b : Block) (i : Nat) : Prop where
  ofClass : blockClass b.size = some i
  pointer : b.pointer = add64 (add64 (metadataOf b.pointer) metadataSize) heapStartAddr
  slot : ∃ n f j, heapSlabSizes[i]? = some n ∧ metadataOf b.pointer = f * 4096 + n * j ∧
    metadataSize + b.size ≤ n ∧ n * j + n ≤ pageSize - slabSizeof ∧
    ∃ slabs, ListedSlabs h.kernel (h.slabCaches.getD i 0) slabs ∧
      f * 4096 + (pageSize - slabSizeof) ∈ slabs

/-- The blocks, metadata included, are apart from each other, from every slab
structure and from every free object's link and index. -/
structure HeapSafe (s : HeapState ρ) : Prop where
  inSlot : ∀ b ∈ s.blocks, ∃ i, BlockInSlot s.heap b i
  apart : s.blocks.Pairwise (fun b d => Apart (metadataOf b.pointer) (metadataSize + b.size)
    (metadataOf d.pointer) (metadataSize + d.size))
  trailers : ∀ b ∈ s.blocks, ∀ cache ∈ s.heap.slabCaches, ∀ slabs,
    ListedSlabs s.heap.kernel cache slabs → ∀ t ∈ slabs,
    Apart (metadataOf b.pointer) (metadataSize + b.size) t slabSizeof
  links : ∀ b ∈ s.blocks, ∀ cache ∈ s.heap.slabCaches, ∀ slabs,
    ListedSlabs s.heap.kernel cache slabs → ∀ t ∈ slabs, ∀ l,
    Chain s.heap.kernel.bufctlNext 0 (s.heap.kernel.slabFreelistHead t) l → ∀ e ∈ l,
    Apart (metadataOf b.pointer) (metadataSize + b.size) e bufctlSize

/-- The block a call or a write is about. -/
def HeapOp.Given (b : Block) : HeapOp → Prop
  | .malloc _ => False
  | .free p => p = b.pointer
  | .write a _ => b.pointer ≤ a ∧ a < b.pointer + b.size

/-- Requests that a cache serves. -/
def HeapOp.Small : HeapOp → Prop
  | .malloc size => size ≤ 510
  | .free _ => True
  | .write _ _ => True

/-- The bytes of a block a step was not given stay as they are. -/
def OthersKept (s s' : HeapState ρ) (op : HeapOp) : Prop :=
  ∀ b ∈ s.blocks, ¬ op.Given b → ∀ off < b.size,
    s'.heap.kernel.mem (heapPhys (b.pointer + off)) = s.heap.kernel.mem (heapPhys (b.pointer + off))

/-- `free` of the block takes the slab path, into the cache it came from, and
leaves the slot in front of a free list of that cache. -/
def FreedToItsCache (A : PageFrames ρ) (h : Heap ρ) (b : Block) : Prop :=
  ∃ i, blockClass b.size = some i ∧ metadataOf b.pointer % 4096 ≠ 0 ∧
    h.kernel.mem.load16 (metadataOf b.pointer) = i ∧
    ∀ fuel, 1 ≤ fuel → ∃ k', free A fuel h b.pointer = .ok { h with kernel := k' } ∧
      slabCacheFree fuel h.kernel (h.slabCaches.getD i 0) (metadataOf b.pointer) panicFlags =
        .ok k' ∧
      ∃ slabs t l, ListedSlabs k' (h.slabCaches.getD i 0) slabs ∧ t ∈ slabs ∧
        Chain k'.bufctlNext 0 (k'.slabFreelistHead t) (metadataOf b.pointer :: l)

namespace HeapInv

variable {s s' : HeapState ρ} {F : Set Nat} {caches : List SlabCache} {view : Nat → CacheView}

/-- A block of a class, with its cache and slot. -/
theorem block_slot (h : HeapInv Holds s F caches view) {b : Block} {i : Nat}
    (hb : b ∈ s.blocks) (hclass : blockClass b.size = some i) :
    ∃ c, caches[i]? = some c ∧ b ∈ slabBlocks i s.blocks ∧
      metadataOf b.pointer ∈ c.live ∧ IsSlot c.size (view i).frames (metadataOf b.pointer) := by
  obtain ⟨c, hc, _⟩ := h.cache_exists (sizeToSlabCacheIndex_some hclass)
  have hmem : b ∈ slabBlocks i s.blocks := List.mem_filter.mpr ⟨hb, by simpa using hclass⟩
  have hlive := h.mem_live hc hmem
  exact ⟨c, hc, hmem, hlive, (h.good.cache i c hc).inv.slot_of_live hlive⟩

theorem block_fits (h : HeapInv Holds s F caches view) {b : Block} {i : Nat} {c : SlabCache}
    (hc : caches[i]? = some c) (hclass : blockClass b.size = some i) (hsmall : b.size ≤ 510) :
    2 + b.size ≤ c.size := by
  obtain ⟨j, n, hj, hround, _, hfit⟩ := blockClass_small hsmall
  obtain rfl : j = i := Option.some.inj (hj.symm.trans hclass)
  have hn : heapSlabSizes[j]? = some n := by
    rw [← hround]
    exact sizeToSlabCacheIndex_some hclass
  obtain rfl : n = c.size := Option.some.inj (hn.symm.trans (h.size_eq hc))
  omega

theorem frames_ne (h : HeapInv Holds s F caches view) {i j : Nat} {c d : SlabCache}
    (hij : i ≠ j) (hc : caches[i]? = some c) (hd : caches[j]? = some d) {x y : Nat}
    (hx : x ∈ (view i).frames) (hy : y ∈ (view j).frames) : x ≠ y := by
  rintro rfl
  exact Set.disjoint_left.mp (h.good.apart i j c d hij hc hd) (Set.mem_insert_of_mem _ hx)
    (Set.mem_insert_of_mem _ hy)

/-- Slots of different caches lie in different frames. -/
theorem caches_apart (h : HeapInv Holds s F caches view) {i j : Nat} {c d : SlabCache}
    (hij : i ≠ j) (hc : caches[i]? = some c) (hd : caches[j]? = some d) {b e : Nat}
    (hb : IsSlot c.size (view i).frames b) (he : IsSlot d.size (view j).frames e) :
    Apart b c.size e d.size := by
  have hs := (h.good.cache i c hc).inv.sizeBounds
  have hs' := (h.good.cache j d hd).inv.sizeBounds
  have hbin := hb.inside (le_refl b) (by omega)
  have hein := he.inside (le_refl e) (by omega)
  have hframe := h.frames_ne hij hc hd hbin.1 hein.1
  have hbend := hb.inside (x := b + (c.size - 1)) (by omega) (by omega)
  have heend := he.inside (x := e + (d.size - 1)) (by omega) (by omega)
  unfold Apart
  omega

/-- Live objects, of the same cache or of two, are apart. -/
theorem live_apart (h : HeapInv Holds s F caches view) {i j : Nat} {c d : SlabCache}
    (hc : caches[i]? = some c) (hd : caches[j]? = some d) {b e : Nat} (hb : b ∈ c.live)
    (he : e ∈ d.live) (hne : b ≠ e) : Apart b c.size e d.size := by
  have hbs := (h.good.cache i c hc).inv.slot_of_live hb
  have hes := (h.good.cache j d hd).inv.slot_of_live he
  by_cases hij : i = j
  · subst hij
    obtain rfl : c = d := Option.some.inj (hc.symm.trans hd)
    exact hbs.apart hes hne
  · exact h.caches_apart hij hc hd hbs hes

/-- A free object is apart from every live one, of whatever cache. -/
theorem free_apart (h : HeapInv Holds s F caches view) {i j : Nat} {c d : SlabCache}
    (hc : caches[i]? = some c) (hd : caches[j]? = some d) {b e : Nat} (hb : b ∈ c.live)
    {v : SlabView} (hv : v ∈ (view j).slabs) (he : e ∈ v.free) : Apart b c.size e d.size := by
  have hci := (h.good.cache i c hc).inv
  have hbs := hci.slot_of_live hb
  have hes := (h.good.cache j d hd).inv.slot_of_free hv he
  by_cases hij : i = j
  · subst hij
    obtain rfl : c = d := Option.some.inj (hc.symm.trans hd)
    have hdis := (List.nodup_append.mp hci.nodup).2.2
    have hne : e ≠ b := hdis e (List.mem_flatMap.mpr ⟨v, hv, he⟩) b hb
    exact hbs.apart hes hne.symm
  · exact h.caches_apart hij hc hd hbs hes

/-- The blocks of one class start at different addresses. -/
theorem slots_nodup (h : HeapInv Holds s F caches view) {i : Nat} {c : SlabCache}
    (hc : caches[i]? = some c) :
    ((slabBlocks i s.blocks).map (fun b => metadataOf b.pointer)).Nodup :=
  (h.owners i c hc).nodup_iff.mp (List.nodup_append.mp (h.good.cache i c hc).inv.nodup).2.1

theorem starts_ne (h : HeapInv Holds s F caches view) :
    s.blocks.Pairwise (fun b d => ∀ i, blockClass b.size = some i →
      blockClass d.size = some i → metadataOf b.pointer ≠ metadataOf d.pointer) := by
  rw [List.pairwise_iff_getElem]
  intro p q hp hq hpq i hpi hqi
  obtain ⟨c, hc, _⟩ := h.cache_exists (sizeToSlabCacheIndex_some hpi)
  have hmap := h.slots_nodup hc
  rw [List.Nodup, List.pairwise_map, slabBlocks, List.pairwise_filter] at hmap
  exact (List.pairwise_iff_getElem.mp hmap) p q hp hq hpq (by simpa using hpi)
    (by simpa using hqi)

/-- Different entries of the block list lie in different slots. -/
theorem slots_apart (h : HeapInv Holds s F caches view)
    (hsmall : ∀ b ∈ s.blocks, b.size ≤ 510) :
    s.blocks.Pairwise (fun b d => Apart (metadataOf b.pointer) (2 + b.size)
      (metadataOf d.pointer) (2 + d.size)) := by
  refine h.starts_ne.imp_of_mem (fun {b d} hb hd hslot => ?_)
  obtain ⟨i, _, hi, _⟩ := blockClass_small (hsmall b hb)
  obtain ⟨j, _, hj, _⟩ := blockClass_small (hsmall d hd)
  obtain ⟨c, hc, _, hbl, hbs⟩ := h.block_slot hb hi
  obtain ⟨e, he, _, hdl, hds⟩ := h.block_slot hd hj
  have hbf := h.block_fits hc hi (hsmall b hb)
  have hdf := h.block_fits he hj (hsmall d hd)
  have hap : Apart (metadataOf b.pointer) c.size (metadataOf d.pointer) e.size := by
    by_cases hij : i = j
    · exact h.live_apart hc he hbl hdl (hslot i hi (hij ▸ hj))
    · exact h.caches_apart hij hc he hbs hds
  unfold Apart at hap ⊢
  omega

/-- Two blocks at one address are one. -/
theorem slot_inj (h : HeapInv Holds s F caches view) {b d : Block} (hb : b ∈ s.blocks)
    (hd : d ∈ s.blocks) {i j : Nat} (hi : blockClass b.size = some i)
    (hj : blockClass d.size = some j) (heq : metadataOf b.pointer = metadataOf d.pointer) :
    b = d := by
  obtain ⟨c, hc, hbi, _, hbs⟩ := h.block_slot hb hi
  obtain ⟨e, he, hdj, _, hds⟩ := h.block_slot hd hj
  by_cases hij : i = j
  · subst hij
    exact List.inj_on_of_nodup_map (h.slots_nodup hc) hbi hdj heq
  · have hap := h.caches_apart hij hc he hbs hds
    have hs := (h.good.cache i c hc).inv.sizeBounds
    have hs' := (h.good.cache j e he).inv.sizeBounds
    unfold Apart at hap
    omega

/-- A slab on the list of one of the heap's caches is that cache's only one. -/
theorem listed_slab (h : HeapInv Holds s F caches view) {cache t : Nat} {slabs : List Nat}
    (hcache : cache ∈ s.heap.slabCaches) (hl : ListedSlabs s.heap.kernel cache slabs)
    (ht : t ∈ slabs) : ∃ j d v, caches[j]? = some d ∧ d.cache = cache ∧
    (view j).slabs = [v] ∧
      slabs = [v.addr] ∧ t = v.addr := by
  rw [h.array] at hcache
  obtain ⟨d, hd, rfl⟩ := List.mem_map.mp hcache
  obtain ⟨j, hj⟩ := List.mem_iff_getElem?.mp hd
  obtain ⟨v, hv, _⟩ := h.oneSlab j d hj
  have hlist := (h.good.cache j d hj).listed
  rw [hv] at hlist
  have heq := hl.unique hlist
  rw [heq] at ht
  exact ⟨j, d, v, hj, rfl, hv, heq, List.mem_singleton.mp ht⟩

theorem block_in_slot (h : HeapInv Holds s F caches view) {b : Block} (hb : b ∈ s.blocks)
    (hsmall : b.size ≤ 510) : ∃ i, BlockInSlot s.heap b i := by
  obtain ⟨i, _, hi, _⟩ := blockClass_small hsmall
  obtain ⟨c, hc, hbi, _, f, hf, j, hslot, hj⟩ := h.block_slot hb hi
  have hfit := h.block_fits hc hi hsmall
  obtain ⟨v, hv, hframes, _⟩ := h.oneSlab i c hc
  have hlist := (h.good.cache i c hc).listed
  rw [hv] at hlist
  rw [hframes] at hf
  refine ⟨i, hi, h.pointers i b hbi, c.size, f, j, h.size_eq hc, hslot, hfit, hj, [v.addr],
    ?_, ?_⟩
  · rw [h.cache_eq hc]
    exact hlist
  · rw [Set.mem_singleton_iff.mp hf]
    exact List.mem_singleton.mpr rfl

/-- Small blocks of a valid heap are safe. -/
theorem safe (h : HeapInv Holds s F caches view) (hsmall : ∀ b ∈ s.blocks, b.size ≤ 510) :
    HeapSafe s := by
  refine ⟨fun b hb => h.block_in_slot hb (hsmall b hb), h.slots_apart hsmall,
    fun b hb cache hcache slabs hl t ht => ?_,
    fun b hb cache hcache slabs hl t ht l hchain e he => ?_⟩
  · obtain ⟨i, _, hi, _⟩ := blockClass_small (hsmall b hb)
    obtain ⟨c, hc, _, _, f, _, j, hslot, hj⟩ := h.block_slot hb hi
    have hfit := h.block_fits hc hi (hsmall b hb)
    obtain ⟨_, _, v, _, _, _, _, rfl⟩ := h.listed_slab hcache hl ht
    unfold Apart SlabView.addr slabSizeof metadataSize
    omega
  · obtain ⟨i, _, hi, _⟩ := blockClass_small (hsmall b hb)
    obtain ⟨c, hc, _, hlive, _⟩ := h.block_slot hb hi
    have hfit := h.block_fits hc hi (hsmall b hb)
    obtain ⟨j, d, v, hd, _, hv, _, rfl⟩ := h.listed_slab hcache hl ht
    have hvm : v ∈ (view j).slabs := by rw [hv]; simp
    have hdj := (h.good.cache j d hd).inv
    have hfree := hchain.unique (hdj.freeList v hvm)
    rw [hfree] at he
    have hap := h.free_apart hc hd hlive hvm he
    have hs := hdj.sizeBounds
    unfold Apart at hap ⊢
    unfold bufctlSize metadataSize
    omega

/-- Bytes of a live object are no cache's bookkeeping. -/
theorem not_bookkeeping (h : HeapInv Holds s F caches view) {i j : Nat} {c d : SlabCache}
    (hc : caches[i]? = some c) (hd : caches[j]? = some d) {b x : Nat} (hb : b ∈ c.live)
    (h1 : b ≤ x) (h2 : x < b + c.size) : x ∉ bookkeeping d.cache (view j).frames := by
  have hin := ((h.good.cache i c hc).inv.slot_of_live hb).inside h1 h2
  rintro (hx | hx)
  · by_cases hij : i = j
    · subst hij
      obtain rfl : c = d := Option.some.inj (hc.symm.trans hd)
      exact (h.good.cache i c hc).inv.cacheApart (hx ▸ hin.1)
    · exact Set.disjoint_left.mp (h.good.apart i j c d hij hc hd)
        (Set.mem_insert_of_mem _ hin.1) (hx ▸ Set.mem_insert _ _)
  · omega

theorem freed (hA : A.Lawful U Holds) (h : HeapInv Holds s F caches view) {b : Block}
    (hb : b ∈ s.blocks) (hsmall : b.size ≤ 510) : FreedToItsCache A s.heap b := by
  obtain ⟨i, _, hi, _⟩ := blockClass_small hsmall
  obtain ⟨c, hc, hbi, _, _⟩ := h.block_slot hb hi
  obtain ⟨hal, htag, _⟩ := h.free_slab hA hc hbi (le_refl 1)
  refine ⟨i, hi, hal, htag, fun fuel hfuel => ?_⟩
  obtain ⟨_, _, m', v, hslab, hfree, hv, _, hinv⟩ := h.free_slab hA hc hbi hfuel
  rw [h.cache_eq hc]
  refine ⟨_, hfree, hslab, ?_⟩
  have hset : (caches.set i { c with live := c.live.erase (metadataOf b.pointer) })[i]? =
      some { c with live := c.live.erase (metadataOf b.pointer) } :=
    List.getElem?_set_self (List.getElem?_eq_some_iff.mp hc).1
  have hst := hinv.good.cache i _ hset
  rw [Function.update_self] at hst
  exact ⟨_, _, v.free, hst.listed, List.mem_singleton.mpr rfl, hst.inv.freeList _ (by simp)⟩

theorem block_phys (h : HeapInv Holds s F caches view) {b : Block} {i : Nat}
    (hb : b ∈ s.blocks) (hi : blockClass b.size = some i) {off : Nat} (hoff : off < 2 ^ 62) :
    heapPhys (b.pointer + off) = metadataOf b.pointer + 2 + off := by
  obtain ⟨c, hc, hbi, _, hslot⟩ := h.block_slot hb hi
  have hbound := (h.good.cache i c hc).inv.slot_bounds hslot
  rw [h.pointers i b hbi]
  rw [metadataOf_tagged (by omega)]
  exact heapPhys_tagged hbound.2 hoff

/-- One step of a client that asks for at most 510 bytes at a time. -/
theorem step_small (hA : A.Lawful U Holds) (h : HeapInv Holds s F caches view)
    (hsmall : ∀ b ∈ s.blocks, b.size ≤ 510) {fuel : Nat} {op : HeapOp}
    (hop : op.Small) (he : s.exec A fuel op = some s') :
    (∃ caches' view', HeapInv Holds s' F caches' view') ∧
      (∀ b ∈ s'.blocks, b.size ≤ 510) ∧ OthersKept s s' op := by
  -- where the bytes of a block are, and that no cache keeps anything there
  have hbytes : ∀ b ∈ s.blocks, ∃ (i : Nat) (c : SlabCache), caches[i]? = some c ∧
      metadataOf b.pointer ∈ c.live ∧ 2 + b.size ≤ c.size ∧ ∀ off < b.size,
      heapPhys (b.pointer + off) = metadataOf b.pointer + 2 + off := by
    intro b hb
    obtain ⟨i, _, hi, _⟩ := blockClass_small (hsmall b hb)
    obtain ⟨c, hc, _, hlive, _⟩ := h.block_slot hb hi
    have hsz := hsmall b hb
    exact ⟨i, c, hc, hlive, h.block_fits hc hi hsz,
      fun off hoff => h.block_phys hb hi (by omega)⟩
  cases op with
  | malloc size =>
    have hsize : size ≤ 510 := hop
    obtain ⟨i, n, hi, hround, hn, _⟩ := blockClass_small hsize
    obtain ⟨c, hc, _⟩ := h.cache_exists (sizeToSlabCacheIndex_some hi)
    obtain ⟨v, hv, _, _⟩ := h.oneSlab i c hc
    have hci := h.good.cache i c hc
    rw [hv] at hci
    simp only [HeapState.exec] at he
    split at he
    · simp at he
    · rename_i p hp hmalloc
      simp only [Option.some.injEq] at he
      subst he
      obtain ⟨hfuel, b, tail, hfree⟩ := h.malloc_slab_ok hA hround hn hi hc hv hmalloc
      obtain ⟨m', q, hok, hq0, _, _, hout, hinv⟩ :=
        h.malloc_slab hA hround hn hi hc hv hfree hfuel
      obtain ⟨rfl, rfl⟩ := Prod.mk.inj (Except.ok.inj (hmalloc.symm.trans hok))
      rw [if_neg hq0]
      refine ⟨⟨_, _, hinv⟩, ?_, fun d hd _ off hoff => ?_⟩
      · intro d hd
        rcases List.mem_cons.mp hd with rfl | hd
        · exact hsize
        · exact hsmall d hd
      · obtain ⟨j, e, hej, hlive, hfit, hphys⟩ := hbytes d hd
        rw [hphys off hoff]
        refine hout _ (h.not_bookkeeping hej hc hlive (by omega) (by omega)) ?_
        have hbfree : b ∈ v.free := by rw [hfree]; simp
        have hap := h.free_apart hej hc hlive (v := v) (by rw [hv]; simp) hbfree
        have hs := hci.inv.sizeBounds
        unfold Apart at hap
        omega
  | free p =>
    obtain ⟨b, hfind, he⟩ := Option.bind_eq_some_iff.mp he
    have hb : b ∈ s.blocks := List.mem_of_find?_eq_some hfind
    have hbp : b.pointer = p := by simpa using List.find?_some hfind
    subst hbp
    obtain ⟨i, _, hi, _⟩ := blockClass_small (hsmall b hb)
    obtain ⟨c, hc, hbi, hblive, _⟩ := h.block_slot hb hi
    split at he
    · simp at he
    · rename_i h' hok'
      simp only [Option.some.injEq] at he
      subst he
      have hfuel := h.free_slab_fuel hc hbi hok'
      obtain ⟨_, _, m', v, _, hok, _, hout, hinv⟩ := h.free_slab hA hc hbi hfuel
      obtain rfl := Except.ok.inj (hok'.symm.trans hok)
      refine ⟨⟨_, _, hinv⟩, fun d hd => hsmall d (List.mem_of_mem_erase hd), ?_⟩
      intro d hd hgiven off hoff
      obtain ⟨j, e, hej, hlive, hfit, hphys⟩ := hbytes d hd
      rw [hphys off hoff]
      refine hout _ (h.not_bookkeeping hej hc hlive (by omega) (by omega)) ?_
      obtain ⟨k, _, hk, _⟩ := blockClass_small (hsmall d hd)
      have hne : metadataOf d.pointer ≠ metadataOf b.pointer := by
        intro heq
        have hdb := h.slot_inj hd hb hk hi heq
        exact hgiven (by rw [hdb]; rfl)
      have hap := h.live_apart hej hc hlive hblive hne
      have hs := (h.good.cache i c hc).inv.sizeBounds
      unfold Apart at hap
      omega
  | write a value =>
    simp only [HeapState.exec] at he
    split_ifs at he with hin
    simp only [Option.some.injEq] at he
    subst he
    obtain ⟨b, hb, hba, hab⟩ := hin
    obtain ⟨i, _, hi, _⟩ := blockClass_small (hsmall b hb)
    obtain ⟨c, hc, hbi, hblive, _⟩ := h.block_slot hb hi
    have hfit := h.block_fits hc hi (hsmall b hb)
    have hsz := hsmall b hb
    obtain ⟨off, rfl⟩ : ∃ off, a = b.pointer + off := ⟨a - b.pointer, by omega⟩
    have hphys : heapPhys (b.pointer + off) = metadataOf b.pointer + 2 + off :=
      h.block_phys hb hi (by omega)
    rw [hphys]
    refine ⟨⟨caches, view, h.write_slab hA hc hbi ?_⟩, hsmall, ?_⟩
    · exact fun x hx => Mem.set_other _ value (by omega)
    intro d hd hgiven off' hoff'
    obtain ⟨j, e, hej, hlive, hfit', hphys'⟩ := hbytes d hd
    rw [hphys' off' hoff']
    refine Mem.set_other _ _ ?_
    obtain ⟨k, _, hk, _⟩ := blockClass_small (hsmall d hd)
    have hne : metadataOf d.pointer ≠ metadataOf b.pointer := by
      intro heq
      have hdb := h.slot_inj hd hb hk hi heq
      exact hgiven (by rw [hdb]; exact ⟨hba, hab⟩)
    have hap := h.live_apart hej hc hlive hblive hne
    unfold Apart at hap
    omega

/-- A whole run of such a client. -/
theorem run_small (hA : A.Lawful U Holds) (h : HeapInv Holds s F caches view)
    (hsmall : ∀ b ∈ s.blocks, b.size ≤ 510) {fuel : Nat} {ops : List HeapOp}
    (hops : ∀ op ∈ ops, op.Small) (hr : s.run A fuel ops = some s') :
    (∃ caches' view', HeapInv Holds s' F caches' view') ∧
    ∀ b ∈ s'.blocks, b.size ≤ 510 := by
  induction ops generalizing s caches view with
  | nil =>
    obtain rfl : s = s' := Option.some.inj hr
    exact ⟨⟨caches, view, h⟩, hsmall⟩
  | cons op ops ih =>
    obtain ⟨s1, he, hr⟩ := Option.bind_eq_some_iff.mp hr
    obtain ⟨⟨caches', view', h1⟩, hsmall1, _⟩ :=
      h.step_small hA hsmall (hops op (by simp)) he
    exact ih h1 hsmall1 (fun op' hop' => hops op' (by simp [hop'])) hr

end HeapInv

/-- The heap after `malloc_heap_init` under any sequence of requests of at most
510 bytes, frees of live blocks and writes inside live blocks, as long as the
calls return: live blocks lie in slots of their own, no step changes a block
it was not given, and every live block can be freed to its cache. -/
theorem malloc_small_blocks_safe (A : PageFrames ρ) (U : Set Nat)
    (Holds : Mem → ρ → Set Nat → Prop) (hA : A.Lawful U Holds) (k : Kernel ρ) (F : Set Nat)
    (hF : Holds k.mem k.frames F) (h : Heap ρ) (hinit : mallocHeapInit A k = .ok h) (fuel : Nat)
    (ops : List HeapOp) (hops : ∀ op ∈ ops, op.Small) (s : HeapState ρ)
    (hrun : HeapState.run A fuel ⟨h, []⟩ ops = some s) :
    HeapSafe s ∧
    (∀ fuel' op s', op.Small → s.exec A fuel' op = some s' → OthersKept s s' op) ∧
    ∀ b ∈ s.blocks, FreedToItsCache A s.heap b := by
  obtain ⟨fs, caches, view, _, hinv, -, -⟩ := mallocHeapInit_spec hA hF hinit
  obtain ⟨⟨caches', view', hs⟩, hsmall⟩ := hinv.run_small hA (by simp) hops hrun
  refine ⟨hs.safe hsmall, fun fuel' op s' hop he => ?_,
    fun b hb => hs.freed hA hb (hsmall b hb)⟩
  exact (hs.step_small hA hsmall hop he).2.2

/-- Thirty-two usable pages, enough for the six caches and some more. -/
def heapMap : List MmapEntry := [⟨0x1000, 0x20000, .usable⟩]

theorem heapMap_layout : MapOk heapMap ∧ highestTop heapMap = 0x21000 ∧
    bitmapSize (highestTop heapMap) = 4096 :=
  mapOk_single (by decide) (by decide) (by decide) (by decide) (by decide) (by decide)

/-- The frames `pmm_init` leaves free on this map, all but the first page,
which holds the bitmap. -/
def heapFrames : Set Nat := {f | InitiallyFree heapMap 0x1000 f}

theorem mem_heapFrames {f : Nat} (h1 : 2 ≤ f) (h2 : f < 33) : f ∈ heapFrames :=
  initiallyFree_single rfl heapMap_layout.2.2 (by omega) (by omega) (by omega)

/-- The frame allocator on this map; its page counter starts at 33761. -/
def heapMapHolds (m : Mem) (pmm : Pmm) (F : Set Nat) : Prop :=
  PmmCounted m pmm 0x1000 heapFrames 33761 F

theorem heapMap_boot : pmmFrames.Lawful heapFrames heapMapHolds ∧
    heapMapHolds (bootKernel heapMap).mem (bootKernel heapMap).frames ∅ := by
  obtain ⟨hm, htop, -⟩ := heapMap_layout
  have hN : pageToBit (highestTop heapMap) ≤ 2 ^ 31 := by
    rw [htop]
    decide
  have hu : (bootKernel heapMap).frames.usedPagesCount = 33761 := by decide +kernel
  exact bootKernel_single rfl hm hN (by decide) hu (by decide)

/-- `malloc_heap_init` succeeds when twelve frames are left. -/
theorem mallocHeapInit_counted {k : Kernel Pmm} {base u0 : Nat} {U : Set Nat}
    (hA : pmmFrames.Lawful U (fun m pmm F => PmmCounted m pmm base U u0 F))
    (hk : PmmCounted k.mem k.frames base U u0 ∅) (hu : 0 < u0) {stock : List Nat}
    (hnd : stock.Nodup) (hstock : ∀ f ∈ stock, f ∈ U) (hlen : 12 ≤ stock.length) :
    ∃ (h : Heap Pmm) (fs : List Nat) (caches : List SlabCache) (view : Nat → CacheView),
      mallocHeapInit pmmFrames k = .ok h ∧ fs.length = 12 ∧
      HeapInv (fun m pmm F => PmmCounted m pmm base U u0 F) ⟨h, []⟩
        {f | f ∈ fs} caches view := by
  obtain ⟨h, hok⟩ := mallocHeapInit_served hA hk
    (fun m r F hF f hf hfF => PmmCounted.serves hF hu hf hfF) hnd
    (fun f hf => ⟨hstock f hf, Set.notMem_empty f⟩) hlen
  obtain ⟨fs, caches, view, hfs, hinv, -, -⟩ := mallocHeapInit_spec hA hk hok
  rw [Set.empty_union] at hinv
  exact ⟨h, fs, caches, view, hok, hfs, hinv⟩

/-- `malloc_heap_init` after `pmm_init` on this map. -/
theorem heapMap_init : ∃ (h : Heap Pmm) (fs : List Nat) (caches : List SlabCache)
    (view : Nat → CacheView), mallocHeapInit pmmFrames (bootKernel heapMap) = .ok h ∧
    fs.length = 12 ∧ HeapInv heapMapHolds ⟨h, []⟩ {f | f ∈ fs} caches view := by
  have hstock : ∀ f ∈ List.range' 2 12, f ∈ heapFrames := by
    intro f hf
    have hf' := List.mem_range'_1.mp hf
    exact mem_heapFrames hf'.1 (by omega)
  exact mallocHeapInit_counted heapMap_boot.1 heapMap_boot.2 (by decide) List.nodup_range' hstock
    (by simp)

/-- Two blocks of different classes and a write into one of them. -/
theorem malloc_small_blocks_safe_heapMap : ∃ h p q s,
    mallocHeapInit pmmFrames (bootKernel heapMap) = .ok h ∧
    HeapState.run pmmFrames 1 ⟨h, []⟩ [.malloc 100, .malloc 510, .write p 7#8] = some s ∧
    s.blocks = [⟨q, 510⟩, ⟨p, 100⟩] ∧ HeapSafe s := by
  obtain ⟨hA, hboot⟩ := heapMap_boot
  obtain ⟨h, _, _, _, hinit, _, hinv⟩ := heapMap_init
  have hclass : blockClass 100 = some 3 ∧ blockClass 510 = some 5 := by decide +kernel
  have hcap : 4056 / roundAllocSize (add64 100 metadataSize) - 1 = 30 ∧
      4056 / roundAllocSize (add64 510 metadataSize) - 1 = 6 := by decide +kernel
  obtain ⟨h1, p, _, _, _, _, hs1, hinv1⟩ := hinv.exec_malloc hA hclass.1
    (by rw [hcap.1]; simp [slabBlocks]) (le_refl 1)
  obtain ⟨h2, q, _, _, _, _, hs2, _⟩ := hinv1.exec_malloc hA hclass.2
    (by rw [hcap.2]; simp [slabBlocks, hclass.1]) (le_refl 1)
  have hrun : HeapState.run pmmFrames 1 ⟨h, []⟩ [.malloc 100, .malloc 510, .write p 7#8] =
      some ⟨{ h2 with kernel :=
        { h2.kernel with mem := h2.kernel.mem.set (heapPhys p) 7#8 } },
      [⟨q, 510⟩, ⟨p, 100⟩]⟩ := by
    simp only [HeapState.run, hs1, hs2, Option.bind_some]
    rw [HeapState.exec, if_pos ⟨⟨p, 100⟩, by simp, le_refl p, by simp⟩, Option.bind_some]
  refine ⟨h, p, q, _, hinit, hrun, rfl, ?_⟩
  exact (malloc_small_blocks_safe pmmFrames heapFrames heapMapHolds hA _ ∅ hboot h hinit 1 _
    (by simp [HeapOp.Small]) _ hrun).1

end ApoptOS
