import ApoptOS.Libk.Malloc
import ApoptOS.Memory.Dynamic.SlabRun
import ApoptOS.Memory.Physical.PmmInvariant

namespace ApoptOS

open Framework

/-- A live block as its owner knows it: the pointer `malloc` returned and the
size asked for. -/
structure Block where
  pointer : Nat
  size : Nat
  deriving DecidableEq, Repr

structure HeapState (ρ : Type) where
  heap : Heap ρ
  blocks : List Block

inductive HeapOp where
  | malloc (size : Nat)
  | free (pointer : Nat)
  | write (address : Nat) (value : BitVec 8)

namespace HeapState

variable {ρ : Type} (A : PageFrames ρ) (fuel : Nat)

/-- One call, or one byte written by a client. `none` when the kernel does not
return from the call, or when a client frees or writes what it does not own. -/
def exec (s : HeapState ρ) : HeapOp → Option (HeapState ρ)
  | .malloc size =>
    match malloc A fuel s.heap size with
    | .error _ => none
    | .ok (p, h) => some ⟨h, if p = 0 then s.blocks else ⟨p, size⟩ :: s.blocks⟩
  | .free p => do
    let b ← s.blocks.find? (fun b => b.pointer = p)
    match free A fuel s.heap p with
    | .error _ => none
    | .ok h => some ⟨h, s.blocks.erase b⟩
  | .write a v =>
    if ∃ b ∈ s.blocks, b.pointer ≤ a ∧ a < b.pointer + b.size then
      some ⟨{ s.heap with kernel :=
        { s.heap.kernel with mem := s.heap.kernel.mem.set (heapPhys a) v } }, s.blocks⟩
    else none

def run (s : HeapState ρ) : List HeapOp → Option (HeapState ρ)
  | [] => some s
  | op :: ops => (s.exec A fuel op).bind (fun s => s.run ops)

theorem run_append (s : HeapState ρ) (ops ops' : List HeapOp) :
    s.run A fuel (ops ++ ops') = (s.run A fuel ops).bind (fun s => s.run A fuel ops') := by
  induction ops generalizing s with
  | nil => rfl
  | cons op ops ih =>
    simp only [List.cons_append, run, Option.bind_assoc]
    congr 1
    funext s'
    exact ih s'

end HeapState

/-- The cache a request is served from; `none` for whole pages. -/
def blockClass (size : Nat) : Option Nat :=
  sizeToSlabCacheIndex (roundAllocSize (add64 size metadataSize))

theorem sizeToSlabCacheIndex_some {n i : Nat} (h : sizeToSlabCacheIndex n = some i) :
    heapSlabSizes[i]? = some n := by
  unfold sizeToSlabCacheIndex at h
  split at h
  · rw [← Option.some.inj h]; rfl
  · rw [← Option.some.inj h]; rfl
  · rw [← Option.some.inj h]; rfl
  · rw [← Option.some.inj h]; rfl
  · rw [← Option.some.inj h]; rfl
  · rw [← Option.some.inj h]; rfl
  · simp at h

theorem heapSlabSizes_bound {i n : Nat} (h : heapSlabSizes[i]? = some n) :
    i < 6 ∧ 16 ≤ n ∧ n ≤ 512 ∧ isPowerOfTwo n = true := by
  have hi : i < heapSlabSizes.length := (List.getElem?_eq_some_iff.mp h).1
  have hall : ∀ j < heapSlabSizes.length, ∀ n, heapSlabSizes[j]? = some n →
      j < 6 ∧ 16 ≤ n ∧ n ≤ 512 ∧ isPowerOfTwo n = true := by decide
  exact hall i hi n h

/-- Every request of at most 510 bytes has a class whose slots hold it. -/
theorem blockClass_small {size : Nat} (h : size ≤ 510) : ∃ i n, blockClass size = some i ∧
    roundAllocSize (add64 size metadataSize) = n ∧ n ≤ 512 ∧ size + 2 ≤ n := by
  have hall : ∀ size < 511, ((sizeToSlabCacheIndex (nextPowerOfTwo (size + 2))).isSome ∧
      nextPowerOfTwo (size + 2) ≤ 512 ∧ size + 2 ≤ nextPowerOfTwo (size + 2)) := by
    decide +kernel
  obtain ⟨hsome, hle, hge⟩ := hall size (by omega)
  obtain ⟨i, hi⟩ := Option.isSome_iff_exists.mp hsome
  have hadd : add64 size metadataSize = size + 2 := add64_of_lt (by unfold metadataSize; omega)
  have hround : roundAllocSize (add64 size metadataSize) = nextPowerOfTwo (size + 2) := by
    rw [hadd, roundAllocSize, if_pos (by omega)]
  exact ⟨i, _, by rw [blockClass, hround]; exact hi, hround, hle, hge⟩

theorem metadataOf_tagged {b : Nat} (hb : b < 2 ^ 64) :
    metadataOf (add64 (add64 b metadataSize) heapStartAddr) = b := by
  unfold metadataOf
  rw [sub64_add64 _ (add64_lt _ _), sub64_add64 _ hb]

theorem heapPhys_tagged {b off : Nat} (hb : b < 2 ^ 53) (hoff : off < 2 ^ 62) :
    heapPhys (add64 (add64 b metadataSize) heapStartAddr + off) = b + 2 + off := by
  unfold heapPhys add64 sub64 metadataSize heapStartAddr
  omega

theorem tagged_ne_zero {b : Nat} (hb : b % 4096 ≤ 4056) :
    add64 (add64 b metadataSize) heapStartAddr ≠ 0 := by
  unfold add64 metadataSize heapStartAddr
  omega

/-- Blocks served from cache `i`, and blocks of whole pages. -/
def slabBlocks (i : Nat) (blocks : List Block) : List Block :=
  blocks.filter (fun b => blockClass b.size = some i)

def pageBlocks (blocks : List Block) : List Block :=
  blocks.filter (fun b => blockClass b.size = none)

theorem pageBlocks_erase {b : Block} {i : Nat} {blocks : List Block}
    (hclass : blockClass b.size = some i) : pageBlocks (blocks.erase b) = pageBlocks blocks := by
  rw [pageBlocks, ← List.erase_filter]
  refine List.erase_of_not_mem (fun hb => ?_)
  have hnone : blockClass b.size = none := by simpa using (List.mem_filter.mp hb).2
  rw [hclass] at hnone
  simp at hnone

/-- The frames of a block of whole pages. -/
def Block.pages (b : Block) : Set Nat :=
  frameRun (metadataOf b.pointer / 4096) (roundAllocSize (add64 b.size metadataSize) / pageSize)

structure PageBlock (m : Mem) (F : Set Nat) (b : Block) : Prop where
  aligned : metadataOf b.pointer % 4096 = 0
  bound : metadataOf b.pointer < 2 ^ 53
  pointer : b.pointer = add64 (add64 (metadataOf b.pointer) metadataSize) heapStartAddr
  first : metadataOf b.pointer / 4096 ∈ b.pages
  held : b.pages ⊆ F
  tag : m.load16 (metadataOf b.pointer) =
    roundAllocSize (add64 b.size metadataSize) / pageSize % 2 ^ 16

variable {ρ : Type}

/-- The heap between calls. Each of the six caches has one slab whose objects
are free or belong to a block of that class, none of them page-aligned, and
each live object starts with the index of its cache. Blocks of whole pages
hold frames apart from the caches and from each other. -/
structure HeapInv (Holds : Mem → ρ → Set Nat → Prop) (s : HeapState ρ) (F : Set Nat)
    (caches : List SlabCache) (view : Nat → CacheView) : Prop where
  good : SlabState.Good Holds ⟨s.heap.kernel, caches⟩ F view
  array : s.heap.slabCaches = caches.map SlabCache.cache
  sizes : caches.map SlabCache.size = heapSlabSizes
  capacity : ∀ (i : Nat) (c : SlabCache), caches[i]? = some c → (view i).max = 4056 / c.size - 1
  oneSlab : ∀ (i : Nat) (c : SlabCache), caches[i]? = some c → ∃ v, (view i).slabs = [v] ∧
    (view i).frames = {v.frame} ∧ v.free.length + c.live.length = 4056 / c.size - 1
  unaligned : ∀ (i : Nat) (c : SlabCache), caches[i]? = some c →
    ∀ b ∈ objects (view i).slabs c.live, b % 4096 ≠ 0
  tags : ∀ (i : Nat) (c : SlabCache), caches[i]? = some c →
    ∀ b ∈ c.live, s.heap.kernel.mem.load16 b = i
  owners : ∀ (i : Nat) (c : SlabCache), caches[i]? = some c →
    c.live.Perm ((slabBlocks i s.blocks).map (fun b => metadataOf b.pointer))
  pointers : ∀ i, ∀ b ∈ slabBlocks i s.blocks,
    b.pointer = add64 (add64 (metadataOf b.pointer) metadataSize) heapStartAddr
  pages : ∀ b ∈ pageBlocks s.blocks, PageBlock s.heap.kernel.mem F b
  pagesApart : (pageBlocks s.blocks).Pairwise (fun b d => Disjoint b.pages d.pages)
  cachesApart : ∀ (i : Nat) (c : SlabCache), caches[i]? = some c →
    ∀ b ∈ pageBlocks s.blocks, Disjoint (ownFrames c.cache (view i).frames) b.pages

namespace HeapInv

variable {Holds : Mem → ρ → Set Nat → Prop} {s : HeapState ρ} {F : Set Nat}
  {caches : List SlabCache} {view : Nat → CacheView} {i : Nat} {c : SlabCache}

theorem size_eq (h : HeapInv Holds s F caches view) (hc : caches[i]? = some c) :
    heapSlabSizes[i]? = some c.size := by
  rw [← h.sizes, List.getElem?_map, hc]
  rfl

theorem cache_eq (h : HeapInv Holds s F caches view) (hc : caches[i]? = some c) :
    s.heap.slabCaches.getD i 0 = c.cache := by
  rw [h.array, List.getD_eq_getElem?_getD, List.getElem?_map, hc]
  rfl

theorem cache_exists (h : HeapInv Holds s F caches view) {n : Nat}
    (hn : heapSlabSizes[i]? = some n) : ∃ c, caches[i]? = some c ∧ c.size = n := by
  rw [← h.sizes, List.getElem?_map] at hn
  obtain ⟨c, hc, hs⟩ := Option.map_eq_some_iff.mp hn
  exact ⟨c, hc, hs⟩

/-- The first two bytes of an object lie in a frame of its cache. -/
theorem tag_frame (h : HeapInv Holds s F caches view) (hc : caches[i]? = some c) {b x : Nat}
    (hb : b ∈ c.live) (h1 : b ≤ x) (h2 : x < b + 2) :
    x / 4096 ∈ ownFrames c.cache (view i).frames := by
  have hci := (h.good.cache i c hc).inv
  have hs := hci.sizeBounds
  exact Set.mem_insert_of_mem _ ((hci.slot_of_live hb).inside h1 (by omega)).1

/-- A change confined to one cache: its own conditions are re-established, all
others are inherited. -/
theorem update (h : HeapInv Holds s F caches view) (hc : caches[i]? = some c) {m' : Mem}
    {v : SlabView} {live' : List Nat} {blocks' : List Block}
    (hst : CacheState Holds { s.heap.kernel with mem := m' } c.cache c.size (view i).max F
      (view i).frames [v] live')
    (hm : Mem.SameOn (frameBytes (ownFrames c.cache (view i).frames))ᶜ s.heap.kernel.mem m')
    (hone : (view i).frames = {v.frame} ∧ v.free.length + live'.length = 4056 / c.size - 1)
    (hobj : ∀ b ∈ objects [v] live', b % 4096 ≠ 0) (htag : ∀ b ∈ live', m'.load16 b = i)
    (howner : live'.Perm ((slabBlocks i blocks').map (fun b => metadataOf b.pointer)))
    (hpointer : ∀ b ∈ slabBlocks i blocks',
      b.pointer = add64 (add64 (metadataOf b.pointer) metadataSize) heapStartAddr)
    (hslab : ∀ j, j ≠ i → slabBlocks j blocks' = slabBlocks j s.blocks)
    (hpage : pageBlocks blocks' = pageBlocks s.blocks) :
    HeapInv Holds ⟨{ s.heap with kernel := { s.heap.kernel with mem := m' } }, blocks'⟩ F
      (caches.set i { c with live := live' })
      (Function.update view i ⟨(view i).max, (view i).frames, [v]⟩) := by
  have hgood := h.good.update (v := ⟨(view i).max, (view i).frames, [v]⟩) hc hst
    (Effect.write (k := s.heap.kernel) hm)
  have hmap : ∀ f : SlabCache → Nat, f { c with live := live' } = f c →
      (caches.set i { c with live := live' }).map f = caches.map f := by
    intro f hf
    have hset : caches.set i c = caches := set_same_live hc
    rw [List.map_set, hf, ← List.map_set, hset]
  refine
    { good := hgood
      array := h.array.trans (hmap _ rfl).symm
      sizes := (hmap _ rfl).trans h.sizes
      capacity := ?_
      oneSlab := ?_
      unaligned := ?_
      tags := ?_
      owners := ?_
      pointers := ?_
      pages := ?_
      pagesApart := by rw [hpage]; exact h.pagesApart
      cachesApart := ?_ }
  · intro j d hj
    rcases getElem?_set_cases hc hj with ⟨rfl, rfl⟩ | ⟨hji, hd⟩
    · rw [Function.update_self]
      exact h.capacity j c hc
    · rw [Function.update_of_ne hji]
      exact h.capacity j d hd
  · intro j d hj
    rcases getElem?_set_cases hc hj with ⟨rfl, rfl⟩ | ⟨hji, hd⟩
    · rw [Function.update_self]
      exact ⟨v, rfl, hone⟩
    · rw [Function.update_of_ne hji]
      exact h.oneSlab j d hd
  · intro j d hj
    rcases getElem?_set_cases hc hj with ⟨rfl, rfl⟩ | ⟨hji, hd⟩
    · rw [Function.update_self]
      exact hobj
    · rw [Function.update_of_ne hji]
      exact h.unaligned j d hd
  · intro j d hj b hb
    rcases getElem?_set_cases hc hj with ⟨rfl, rfl⟩ | ⟨hji, hd⟩
    · exact htag b hb
    · rw [← h.tags j d hd b hb]
      refine Mem.load16_congr (fun x h1 h2 => hm x (fun hx => ?_))
      exact Set.disjoint_left.mp (h.good.apart j i d c hji hd hc) (h.tag_frame hd hb h1 h2) hx
  · intro j d hj
    rcases getElem?_set_cases hc hj with ⟨rfl, rfl⟩ | ⟨hji, hd⟩
    · exact howner
    · show d.live.Perm ((slabBlocks j blocks').map _)
      rw [hslab j hji]
      exact h.owners j d hd
  · intro j b hb
    by_cases hji : j = i
    · subst hji
      exact hpointer b hb
    · have hb' : b ∈ slabBlocks j blocks' := hb
      rw [hslab j hji] at hb'
      exact h.pointers j b hb'
  · intro b hb
    have hb' : b ∈ pageBlocks s.blocks := hpage ▸ hb
    have hp := h.pages b hb'
    refine { hp with tag := ?_ }
    rw [← hp.tag]
    refine Mem.load16_congr (fun x h1 h2 => hm x (fun hx => ?_))
    have hal := hp.aligned
    have hxf : x / 4096 = metadataOf b.pointer / 4096 := by omega
    exact Set.disjoint_left.mp (h.cachesApart i c hc b hb') hx (hxf ▸ hp.first)
  · intro j d hj b hb
    have hb' : b ∈ pageBlocks s.blocks := hpage ▸ hb
    rcases getElem?_set_cases hc hj with ⟨rfl, rfl⟩ | ⟨hji, hd⟩
    · rw [Function.update_self]
      exact h.cachesApart j c hc b hb'
    · rw [Function.update_of_ne hji]
      exact h.cachesApart j d hd b hb'

variable {A : PageFrames ρ} {U : Set Nat} {fuel size n : Nat}

theorem mem_live (h : HeapInv Holds s F caches view) (hc : caches[i]? = some c) {b : Block}
    (hb : b ∈ slabBlocks i s.blocks) : metadataOf b.pointer ∈ c.live :=
  (h.owners i c hc).mem_iff.mpr (List.mem_map_of_mem hb)

/-- `malloc` from a cache with a free object takes the first one, writes its
tag and touches nothing else but the cache's own structures. -/
theorem malloc_slab (hA : A.Lawful U Holds) (h : HeapInv Holds s F caches view)
    (hround : roundAllocSize (add64 size metadataSize) = n) (hn : n ≤ 512)
    (hclass : blockClass size = some i) (hc : caches[i]? = some c) {v : SlabView} {b : Nat}
    {tail : List Nat} (hslabs : (view i).slabs = [v]) (hv : v.free = b :: tail)
    (hfuel : 1 ≤ fuel) :
    ∃ m' p, malloc A fuel s.heap size =
        .ok (p, { s.heap with kernel := { s.heap.kernel with mem := m' } }) ∧
      p ≠ 0 ∧ metadataOf p = b ∧ p = add64 (add64 b metadataSize) heapStartAddr ∧
      (∀ x, x ∉ bookkeeping c.cache (view i).frames → (x < b ∨ b + 2 ≤ x) →
        m' x = s.heap.kernel.mem x) ∧
      HeapInv Holds ⟨{ s.heap with kernel := { s.heap.kernel with mem := m' } },
          ⟨p, size⟩ :: s.blocks⟩ F (caches.set i { c with live := b :: c.live })
        (Function.update view i ⟨(view i).max, (view i).frames, [⟨v.frame, tail⟩]⟩) := by
  have hci := h.good.cache i c hc
  rw [hslabs] at hci
  have hs := hci.inv.sizeBounds
  obtain ⟨m1, hok, hst1, hsame1⟩ := slabCacheAlloc_first panicFlags hA hci hv hfuel
  have hbslot : IsSlot c.size (view i).frames b := hst1.inv.slot_of_live (by simp)
  have hbb := hst1.inv.slot_bounds hbslot
  have hbin := hbslot.inside (le_refl b) (by omega)
  obtain ⟨p, hp⟩ : ∃ p, p = add64 (add64 b metadataSize) heapStartAddr := ⟨_, rfl⟩
  have hp0 : p ≠ 0 := hp ▸ tagged_ne_zero (by omega)
  have hpb : metadataOf p = b := hp ▸ metadataOf_tagged (by omega)
  obtain ⟨m2, hm2⟩ : ∃ m2, m2 = m1.store16 b i := ⟨_, rfl⟩
  have hout : ∀ x, x ∉ bookkeeping c.cache (view i).frames → (x < b ∨ b + 2 ≤ x) →
      m2 x = s.heap.kernel.mem x := by
    intro x hx hxb
    rw [hm2, Mem.store16_outside _ _ hxb]
    exact hsame1 x hx
  have hownb : ∀ x, b ≤ x → x < b + 2 → x / 4096 ∈ ownFrames c.cache (view i).frames :=
    fun x h1 h2 => Set.mem_insert_of_mem _ (hbslot.inside h1 (by omega)).1
  have hst2 : CacheState Holds { s.heap.kernel with mem := m2 } c.cache c.size (view i).max F
      (view i).frames [⟨v.frame, tail⟩] (b :: c.live) := by
    refine hst1.write hA (fun x hx => ?_) (hst1.inv.client_write (b := b) (by simp) ?_)
    · show m2 x = m1 x
      rw [hm2]
      refine Mem.store16_outside _ _ ?_
      by_contra hcon
      exact hx (hci.own_held (hownb x (by omega) (by omega)))
    · intro x hx
      rw [hm2]
      exact Mem.store16_outside _ _ (by omega)
  have hown : Mem.SameOn (frameBytes (ownFrames c.cache (view i).frames))ᶜ s.heap.kernel.mem
      m2 := by
    intro x hx
    refine hout x (fun hxb => hx (bookkeeping_own hxb)) ?_
    by_contra hcon
    exact hx (hownb x (by omega) (by omega))
  have hi6 := (heapSlabSizes_bound (h.size_eq hc)).1
  obtain ⟨v', hv', hframe, hcount⟩ := h.oneSlab i c hc
  obtain rfl : v = v' := List.singleton_inj.mp (hslabs.symm.trans hv')
  have hobjs : ∀ d ∈ objects [⟨v.frame, tail⟩] (b :: c.live),
      d ∈ objects (view i).slabs c.live := by
    intro d hd
    rw [hslabs]
    simp only [objects, List.flatMap_cons, List.flatMap_nil, List.append_nil, List.mem_append,
      List.mem_cons, hv] at hd ⊢
    rcases hd with hd | hd | hd
    · exact Or.inl (Or.inr hd)
    · exact Or.inl (Or.inl hd)
    · exact Or.inr hd
  have hslabi :
      slabBlocks i (⟨p, size⟩ :: s.blocks) = ⟨p, size⟩ :: slabBlocks i s.blocks := by
    simp [slabBlocks, hclass]
  refine ⟨m2, p, ?_, hp0, hpb, hp, hout, h.update hc hst2 hown ?_ ?_ ?_ ?_ ?_ ?_ ?_⟩
  · have hidx : sizeToSlabCacheIndex n = some i := by rw [← hround]; exact hclass
    simp only [malloc, hround, if_pos hn, hidx, h.cache_eq hc, hok, hbb.1, if_false, Heap.tagged,
      Kernel.store16, ← hm2, ← hp]
  · rw [hv, List.length_cons] at hcount
    refine ⟨hframe, ?_⟩
    show tail.length + (b :: c.live).length = _
    rw [List.length_cons]
    omega
  · exact fun d hd => h.unaligned i c hc d (hobjs d hd)
  · intro d hd
    rcases List.mem_cons.mp hd with rfl | hd
    · rw [hm2, Mem.load16_store16_same]
      exact Nat.mod_eq_of_lt (by omega)
    · rw [← h.tags i c hc d hd]
      have hdslot := hci.inv.slot_of_live hd
      have hne : d ≠ b := by
        have hnd := (List.nodup_append.mp hst2.inv.nodup).2.1
        exact fun he => (List.nodup_cons.mp hnd).1 (he ▸ hd)
      have hap := hdslot.apart hbslot hne
      refine Mem.load16_congr (fun x h1 h2 => hout x ?_ (by omega))
      have hin := hdslot.inside h1 (by omega)
      rintro (hxc | hxf)
      · exact hci.inv.cacheApart (hxc ▸ hin.1)
      · omega
  · rw [hslabi, List.map_cons, hpb]
    exact (h.owners i c hc).cons b
  · intro d hd
    rw [hslabi] at hd
    rcases List.mem_cons.mp hd with rfl | hd
    · rw [hpb]
      exact hp
    · exact h.pointers i d hd
  · intro j hji
    simp [slabBlocks, hclass, hji.symm]
  · simp [pageBlocks, hclass]

/-- `malloc` from a cache without a free object stops the kernel. -/
theorem malloc_slab_panic (hA : A.Lawful U Holds) (h : HeapInv Holds s F caches view)
    (hround : roundAllocSize (add64 size metadataSize) = n) (hn : n ≤ 512)
    (hclass : blockClass size = some i) (hc : caches[i]? = some c) {v : SlabView}
    (hslabs : (view i).slabs = [v]) (hv : v.free = []) (hfuel : 2 ≤ fuel) :
    ∃ argument, malloc A fuel s.heap size = .error (.panic
      "Slab cache alloc ('%s'): Couldn't find allocatable memory\n" argument) := by
  have hci := h.good.cache i c hc
  rw [hslabs] at hci
  obtain ⟨argument, hok⟩ := slabCacheAlloc_oneSlab_panic hA hci hv hfuel
  have hidx : sizeToSlabCacheIndex n = some i := by rw [← hround]; exact hclass
  refine ⟨argument, ?_⟩
  simp only [malloc, hround, if_pos hn, hidx, h.cache_eq hc, panicFlags, hok]

/-- A `malloc` that returns found a free object. -/
theorem malloc_slab_ok (hA : A.Lawful U Holds) (h : HeapInv Holds s F caches view)
    (hround : roundAllocSize (add64 size metadataSize) = n) (hn : n ≤ 512)
    (hclass : blockClass size = some i) (hc : caches[i]? = some c) {v : SlabView}
    (hslabs : (view i).slabs = [v]) {r : Nat × Heap ρ}
    (hok : malloc A fuel s.heap size = .ok r) : 1 ≤ fuel ∧ ∃ b tail, v.free = b :: tail := by
  have hci := h.good.cache i c hc
  rw [hslabs] at hci
  have hc0 : c.cache ≠ 0 := hci.inv.cacheBounds.1
  have hidx : sizeToSlabCacheIndex n = some i := by rw [← hround]; exact hclass
  simp only [malloc, hround, if_pos hn, hidx, h.cache_eq hc, slabCacheAlloc, hc0, false_and,
    if_false] at hok
  cases fuel with
  | zero => simp [allocFromSlabs] at hok
  | succ m =>
    refine ⟨by omega, ?_⟩
    rcases hv : v.free with _ | ⟨b, tail⟩
    · exfalso
      have hst : CacheState Holds (s.heap.kernel.setCacheSlabs c.cache
          (s.heap.kernel.cacheSlabsHead c.cache)) c.cache c.size (view i).max F (view i).frames
          ([] ++ [v]) c.live := hci.setCacheSlabs hA _
      rw [allocFromSlabs_next hst hci.cursor_head hv] at hok
      cases m with
      | zero => simp [allocFromSlabs] at hok
      | succ m =>
        rw [allocFromSlabs_end hst.cursor_next] at hok
        simp [panicFlags] at hok
    · exact ⟨b, tail, rfl⟩

/-- The blocks of a class and the free objects of its cache fill one slab. -/
theorem room (h : HeapInv Holds s F caches view) (hc : caches[i]? = some c) :
    ∃ v, (view i).slabs = [v] ∧
      v.free.length + (slabBlocks i s.blocks).length = 4056 / c.size - 1 := by
  obtain ⟨v, hv, _, hcount⟩ := h.oneSlab i c hc
  have hlen := (h.owners i c hc).length_eq
  rw [List.length_map] at hlen
  exact ⟨v, hv, by omega⟩

/-- A small request returns a block as long as its class has room. -/
theorem exec_malloc (hA : A.Lawful U Holds) (h : HeapInv Holds s F caches view)
    (hclass : blockClass size = some i)
    (hroom : (slabBlocks i s.blocks).length <
      4056 / roundAllocSize (add64 size metadataSize) - 1) (hfuel : 1 ≤ fuel) :
    ∃ h' p caches' view', malloc A fuel s.heap size = .ok (p, h') ∧ p ≠ 0 ∧
      s.exec A fuel (.malloc size) = some ⟨h', ⟨p, size⟩ :: s.blocks⟩ ∧
      HeapInv Holds ⟨h', ⟨p, size⟩ :: s.blocks⟩ F caches' view' := by
  have hn := sizeToSlabCacheIndex_some hclass
  have hle := (heapSlabSizes_bound hn).2.2.1
  obtain ⟨c, hc, hsize⟩ := h.cache_exists hn
  obtain ⟨v, hv, hcount⟩ := h.room hc
  obtain ⟨b, tail, hfree⟩ : ∃ b tail, v.free = b :: tail := by
    refine List.exists_cons_of_length_pos ?_
    rw [hsize] at hcount
    omega
  obtain ⟨m', p, hok, hp0, _, _, _, hinv⟩ := h.malloc_slab hA rfl hle hclass hc hv hfree hfuel
  refine ⟨_, p, _, _, hok, hp0, ?_, hinv⟩
  simp only [HeapState.exec, hok, if_neg hp0]

/-- `free` of a block from a cache takes the slab path into the same cache,
which has room for it. -/
theorem free_slab (hA : A.Lawful U Holds) (h : HeapInv Holds s F caches view)
    (hc : caches[i]? = some c) {b : Block} (hb : b ∈ slabBlocks i s.blocks) (hfuel : 1 ≤ fuel) :
    metadataOf b.pointer % 4096 ≠ 0 ∧ s.heap.kernel.mem.load16 (metadataOf b.pointer) = i ∧
    ∃ m' v, slabCacheFree fuel s.heap.kernel c.cache (metadataOf b.pointer) panicFlags =
        .ok { s.heap.kernel with mem := m' } ∧
      free A fuel s.heap b.pointer =
        .ok { s.heap with kernel := { s.heap.kernel with mem := m' } } ∧
      (view i).slabs = [v] ∧
      (∀ x, x ∉ bookkeeping c.cache (view i).frames →
        (x < metadataOf b.pointer ∨ metadataOf b.pointer + 10 ≤ x) →
        m' x = s.heap.kernel.mem x) ∧
      HeapInv Holds ⟨{ s.heap with kernel := { s.heap.kernel with mem := m' } },
          s.blocks.erase b⟩ F
        (caches.set i { c with live := c.live.erase (metadataOf b.pointer) })
        (Function.update view i ⟨(view i).max, (view i).frames,
          [⟨v.frame, metadataOf b.pointer :: v.free⟩]⟩) := by
  obtain ⟨v, hslabs, hframe, hcount⟩ := h.oneSlab i c hc
  have hci := h.good.cache i c hc
  rw [hslabs] at hci
  have hs := hci.inv.sizeBounds
  obtain ⟨d, hd⟩ : ∃ d, d = metadataOf b.pointer := ⟨_, rfl⟩
  have hlive : d ∈ c.live := hd ▸ h.mem_live hc hb
  have hslot := hci.inv.slot_of_live hlive
  have hbb := hci.inv.slot_bounds hslot
  have hdin := hslot.inside (le_refl d) (by omega)
  have hal : d % 4096 ≠ 0 := h.unaligned i c hc d (List.mem_append_right _ hlive)
  have htag := h.tags i c hc d hlive
  have hpos : 0 < c.live.length := List.length_pos_of_mem hlive
  have hroom : v.free.length < (view i).max := by
    rw [h.capacity i c hc]
    omega
  obtain ⟨m', hok, hst, hout⟩ := slabCacheFree_first panicFlags hA hci hlive hroom hfuel
  have hpoint : b.pointer = add64 (add64 d metadataSize) heapStartAddr := hd ▸ h.pointers i b hb
  have hp0 : b.pointer ≠ 0 := hpoint ▸ tagged_ne_zero (by omega)
  have hmem : b ∈ s.blocks := List.mem_of_mem_filter hb
  have hclass : blockClass b.size = some i := by simpa using (List.mem_filter.mp hb).2
  have hperm := List.perm_cons_erase hmem
  have hslabi : (slabBlocks i s.blocks).Perm (b :: slabBlocks i (s.blocks.erase b)) := by
    have hfilter := hperm.filter (fun b => blockClass b.size = some i)
    rwa [List.filter_cons_of_pos (by simpa using hclass)] at hfilter
  rw [← hd]
  refine ⟨hal, htag, m', v, hok, ?_, hslabs, hout, ?_⟩
  · simp only [free, hp0, if_false, ← hd, ne_eq, hal, not_false_eq_true, if_true, htag,
      h.cache_eq hc, hok]
  · refine h.update hc hst (fun x hx => hout x (fun hxb => hx (bookkeeping_own hxb)) ?_) ?_ ?_ ?_
      ?_ ?_ ?_ ?_
    · by_contra hcon
      have hin := hslot.inside (x := x) (by omega) (by omega)
      exact hx (Set.mem_insert_of_mem _ hin.1)
    · refine ⟨hframe, ?_⟩
      rw [List.length_erase_of_mem hlive, List.length_cons]
      omega
    · intro e he
      refine h.unaligned i c hc e ?_
      rw [hslabs]
      simp only [objects, List.flatMap_cons, List.flatMap_nil, List.append_nil, List.mem_append,
        List.mem_cons] at he ⊢
      rcases he with (rfl | he) | he
      · exact Or.inr hlive
      · exact Or.inl he
      · exact Or.inr (List.mem_of_mem_erase he)
    · intro e he
      have heold : e ∈ c.live := List.mem_of_mem_erase he
      have hnd : c.live.Nodup := (List.nodup_append.mp hci.inv.nodup).2.1
      have hne : e ≠ d := fun hed => hnd.not_mem_erase (hed ▸ he)
      have heslot := hci.inv.slot_of_live heold
      have hap := heslot.apart hslot hne
      rw [← h.tags i c hc e heold]
      refine Mem.load16_congr (fun x h1 h2 => hout x ?_ (by omega))
      have hin := heslot.inside h1 (by omega)
      rintro (hxc | hxf)
      · exact hci.inv.cacheApart (hxc ▸ hin.1)
      · omega
    · have h1 := (List.perm_cons_erase hlive).symm.trans (h.owners i c hc)
      have h2 := h1.trans (hslabi.map (fun b => metadataOf b.pointer))
      rw [List.map_cons, ← hd] at h2
      exact h2.cons_inv
    · intro e he
      exact h.pointers i e (hslabi.mem_iff.mpr (List.mem_cons_of_mem _ he))
    · intro j hji
      rw [slabBlocks, ← List.erase_filter]
      refine List.erase_of_not_mem (fun hj => hji ?_)
      have hclassj : blockClass b.size = some j := by simpa using (List.mem_filter.mp hj).2
      exact Option.some.inj (hclassj.symm.trans hclass)
    · exact pageBlocks_erase hclass

theorem free_slab_fuel (h : HeapInv Holds s F caches view) (hc : caches[i]? = some c) {b : Block}
    (hb : b ∈ slabBlocks i s.blocks) {h' : Heap ρ}
    (hok : free A fuel s.heap b.pointer = .ok h') : 1 ≤ fuel := by
  have hci := (h.good.cache i c hc).inv
  have hlive := h.mem_live hc hb
  have hc0 : c.cache ≠ 0 := hci.cacheBounds.1
  have hs := hci.sizeBounds
  have hin := (hci.slot_of_live hlive).inside (le_refl _) (by omega)
  have hal := h.unaligned i c hc _ (List.mem_append_right _ hlive)
  have hp0 : b.pointer ≠ 0 := h.pointers i b hb ▸ tagged_ne_zero (by omega)
  by_contra hfuel
  have h0 : fuel = 0 := by omega
  simp only [free, hp0, if_false, ne_eq, hal, not_false_eq_true, if_true, h.tags i c hc _ hlive,
    h.cache_eq hc, slabCacheFree, hc0, false_and, h0, freeToSlabs] at hok
  simp at hok

/-- Whatever a client writes behind the tag of a block served from a cache. -/
theorem write_slab (hA : A.Lawful U Holds) (h : HeapInv Holds s F caches view)
    (hc : caches[i]? = some c) {b : Block} (hb : b ∈ slabBlocks i s.blocks) {m' : Mem}
    (hm : ∀ x, (x < metadataOf b.pointer + 2 ∨ metadataOf b.pointer + c.size ≤ x) →
      m' x = s.heap.kernel.mem x) :
    HeapInv Holds ⟨{ s.heap with kernel := { s.heap.kernel with mem := m' } },
      s.blocks⟩ F caches
      view := by
  obtain ⟨v, hslabs, hframe, hcount⟩ := h.oneSlab i c hc
  have hci := h.good.cache i c hc
  rw [hslabs] at hci
  have hlive := h.mem_live hc hb
  have hslot := hci.inv.slot_of_live hlive
  have hown : Mem.SameOn (frameBytes (ownFrames c.cache (view i).frames))ᶜ s.heap.kernel.mem
      m' := by
    intro x hx
    refine hm x ?_
    by_contra hcon
    exact hx (Set.mem_insert_of_mem _ (hslot.inside (x := x) (by omega) (by omega)).1)
  have hst := hci.write hA (hown.mono (fun x hx hxo => hx (hci.own_held hxo)))
    (hci.inv.client_write hlive (fun x hx => hm x (by omega)))
  have hupd := h.update hc hst hown ⟨hframe, hcount⟩
    (fun d hd => h.unaligned i c hc d (hslabs ▸ hd)) ?_ (h.owners i c hc) (h.pointers i)
    (fun _ _ => rfl) rfl
  · have hview : (⟨(view i).max, (view i).frames, [v]⟩ : CacheView) = view i := by
      rw [← hslabs]
    rw [set_same_live hc, hview, Function.update_eq_self] at hupd
    exact hupd
  · intro d hd
    rw [← h.tags i c hc d hd]
    refine Mem.load16_congr (fun x h1 h2 => hm x ?_)
    have hs := hci.inv.sizeBounds
    by_cases hne : d = metadataOf b.pointer
    · omega
    · have hap := (hci.inv.slot_of_live hd).apart hslot hne
      omega

end HeapInv

end ApoptOS
