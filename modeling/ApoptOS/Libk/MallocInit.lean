import ApoptOS.Libk.MallocHeap

namespace ApoptOS

open Framework

variable {ρ : Type} {A : PageFrames ρ} {U : Set Nat} {Holds : Mem → ρ → Set Nat → Prop}
  {k k' : Kernel ρ} {F : Set Nat}

/-- A heap cache as `slab_cache_create` leaves it: one slab, the page-aligned
slot left out, everything else free. -/
structure FreshCache (Holds : Mem → ρ → Set Nat → Prop) (k : Kernel ρ) (cache size : Nat)
    (F : Set Nat) (v : SlabView) : Prop where
  state : CacheState Holds k cache size (4056 / size - 1) F {v.frame} [v] []
  full : v.free.length = 4056 / size - 1
  unaligned : ∀ b ∈ v.free, b % 4096 ≠ 0

/-- `slab_cache_create` with the flags of the heap: a frame request is refused
and the kernel stops, or there is a fresh cache in two new frames. -/
theorem slabCacheCreate_heap (hA : A.Lawful U Holds) (hh : Holds k.mem k.frames F)
    {size : Nat} (name : Nat)
    (hadm : size ≤ 512 ∧ bufctlSize ≤ size ∧ isPowerOfTwo size = true) :
    ((∃ e, slabCacheCreate A k name size heapFlags = .error e) ∧
      ∃ m r F', Holds m r F' ∧ (A.allocz 1 m r).1 = 0 ∧
        (F' = F ∨ ∃ f, F' = insert f F)) ∨
    ∃ f k' v, f ∉ F ∧ v.frame ∉ insert f F ∧
      slabCacheCreate A k name size heapFlags = .ok (f * 4096, k') ∧
      FreshCache Holds k' (f * 4096) size (insert v.frame (insert f F)) v ∧
      Effect k k' F (insert v.frame (insert f F)) ∅ (ownFrames (f * 4096) {v.frame}) := by
  rcases slabCacheCreate_cases heapFlags name hA hh hadm with
    ⟨heq, hp0, _, _⟩ | ⟨f, m', hfF, hf0, _, heq, hst, hsame⟩
  · exact Or.inl ⟨⟨_, heq⟩, k.mem, k.frames, F, hh, hp0, Or.inl rfl⟩
  · have hc0 : f * 4096 ≠ 0 := by omega
    obtain ⟨k1, hk1⟩ : ∃ k1, k1 = ({ (k.pmmAllocz A 1).2 with mem := m' } : Kernel ρ) :=
      ⟨_, rfl⟩
    rw [← hk1] at heq hst
    have hcur : CacheState Holds (k1.setCacheSlabs (f * 4096) (k1.cacheSlabsHead (f * 4096)))
        (f * 4096) size (4056 / size) (insert f F) ∅ ([] ++ []) [] := hst.setCacheSlabs hA _
    have he1 : Effect k k1 F (insert f F) ∅ (ownFrames (f * 4096) ∅) := by
      rw [hk1]
      exact Effect.cache_page hfF hsame
    rw [slabCacheGrow, if_neg (fun hc => hc0 hc.1), if_neg hc0] at heq
    rcases growSlabs_succ heapFlags hA hcur ⟨hst.cursor_head, fun _ => rfl⟩ 0 with
      ⟨hgrow, _, hp0, _⟩ | ⟨g, m2, hgF, _, hgrow, hst2, _, hsame2, _⟩
    · rw [hgrow] at heq
      exact Or.inl ⟨⟨_, heq⟩, _, _, insert f F, hcur.holds, hp0, Or.inr ⟨f, rfl⟩⟩
    · rw [hgrow] at heq
      have he2 := (hst.effect_cursor (k1.cacheSlabsHead (f * 4096))).trans
        (Effect.frame_added (A := A) hgF hsame2)
      have hone : (insert g (∅ : Set Nat)) = {g} := by simp
      rw [hone] at he2 hst2
      refine Or.inr ⟨f, _, ⟨g, slotList size g 1 (4056 / size)⟩, hfF, hgF, heq,
        ⟨hst2, ?_, ?_⟩, he1.trans he2⟩
      · exact slotList_length size g 1 (4056 / size)
      · intro b hb
        have hmaxb := hst.inv.maxBound
        have hs := hst.inv.sizeBounds
        obtain ⟨j, hj1, hj2, rfl⟩ := mem_slotList.mp hb
        have hle : size * (j + 1) ≤ size * (4056 / size) := Nat.mul_le_mul_left size hj2
        have hlo : size * 1 ≤ size * j := Nat.mul_le_mul_left size hj1
        rw [Nat.mul_succ, Nat.mul_comm size (4056 / size)] at hle
        omega

/-- All caches made so far are fresh. -/
def AllFresh (k : Kernel ρ) (Holds : Mem → ρ → Set Nat → Prop) (F : Set Nat)
    (caches : List SlabCache) (view : Nat → CacheView) : Prop :=
  SlabState.Good Holds ⟨k, caches⟩ F view ∧
  ∀ i c, caches[i]? = some c → c.live = [] ∧ (view i).max = 4056 / c.size - 1 ∧
    ∃ v, (view i).slabs = [v] ∧ (view i).frames = {v.frame} ∧
      v.free.length = 4056 / c.size - 1 ∧ ∀ b ∈ v.free, b % 4096 ≠ 0

theorem AllFresh.append {caches : List SlabCache} {view : Nat → CacheView}
    (h : AllFresh k Holds F caches view) {F' : Set Nat} {cache size : Nat} {v : SlabView}
    (hc : FreshCache Holds k' cache size F' v)
    (he : Effect k k' F F' ∅ (ownFrames cache {v.frame})) :
    AllFresh k' Holds F' (caches ++ [⟨cache, size, []⟩])
      (Function.update view caches.length ⟨4056 / size - 1, {v.frame}, [v]⟩) := by
  refine ⟨h.1.append (v := ⟨4056 / size - 1, {v.frame}, [v]⟩) hc.state he, fun i c hi => ?_⟩
  rcases getElem?_concat_cases hi with ⟨rfl, rfl⟩ | ⟨hne, hold⟩
  · rw [Function.update_self]
    exact ⟨rfl, rfl, v, rfl, rfl, hc.full, hc.unaligned⟩
  · rw [Function.update_of_ne hne]
    exact h.2 i c hold

/-- No cache has a frame of `V`. -/
def CachesOutside (V : Set Nat) (caches : List SlabCache) (view : Nat → CacheView) : Prop :=
  ∀ (i : Nat) (c : SlabCache), caches[i]? = some c →
    Disjoint V (ownFrames c.cache (view i).frames)

theorem CachesOutside.append {V : Set Nat} {caches : List SlabCache} {view : Nat → CacheView}
    {F' : Set Nat} {cache size : Nat} {v : CacheView} (h : CachesOutside V caches view)
    (hV : V ⊆ F) (he : Effect k k' F F' ∅ (ownFrames cache v.frames)) :
    CachesOutside V (caches ++ [⟨cache, size, []⟩]) (Function.update view caches.length v) := by
  intro i c hi
  rcases getElem?_concat_cases hi with ⟨rfl, rfl⟩ | ⟨hne, hold⟩
  · rw [Function.update_self]
    have hapart := he.apart
    rw [Set.sdiff_empty] at hapart
    exact (hapart.mono_right hV).symm
  · rw [Function.update_of_ne hne]
    exact h i c hold

/-- Creating caches of admitted sizes: the frames needed run out, or all of
them are fresh, and frames held by others are left alone. -/
theorem createCaches_spec (hA : A.Lawful U Holds) (sizes : List Nat)
    (hsizes : ∀ n ∈ sizes, n ≤ 512 ∧ bufctlSize ≤ n ∧ isPowerOfTwo n = true)
    {caches : List SlabCache} {view : Nat → CacheView} (h : AllFresh k Holds F caches view)
    {V : Set Nat} (hV : V ⊆ F) (hout : CachesOutside V caches view) :
    ((∃ e, createCaches A k sizes = .error e) ∧
      ∃ (m : Mem) (r : ρ) (fs : List Nat), Holds m r (F ∪ {f | f ∈ fs}) ∧
        (A.allocz 1 m r).1 = 0 ∧ fs.length < 2 * sizes.length) ∨
    ∃ (addrs : List Nat) (k' : Kernel ρ) (fs : List Nat) (view' : Nat → CacheView),
      createCaches A k sizes = .ok (addrs, k') ∧
      addrs.length = sizes.length ∧ fs.length = 2 * sizes.length ∧
      AllFresh k' Holds (F ∪ {f | f ∈ fs})
        (caches ++ List.zipWith (fun a n => ⟨a, n, []⟩) addrs sizes) view' ∧
      CachesOutside V (caches ++ List.zipWith (fun a n => ⟨a, n, []⟩) addrs sizes) view' ∧
      Mem.SameOn (frameBytes V) k.mem k'.mem := by
  induction sizes generalizing k F caches view with
  | nil =>
    refine Or.inr ⟨[], k, [], view, rfl, rfl, rfl, ?_, ?_, Mem.SameOn.refl _ _⟩
    · have hF : F ∪ {f | f ∈ ([] : List Nat)} = F := by simp
      rw [hF]
      simpa using h
    · simpa using hout
  | cons n sizes ih =>
    rcases slabCacheCreate_heap hA h.1.holds n (hsizes n (by simp)) with
      ⟨⟨e, he⟩, m, r, F', hh, hp0, hF'⟩ | ⟨f, k1, v, hf, hg, hok, hfresh, heff⟩
    · left
      refine ⟨⟨e, by rw [createCaches, he]⟩, m, r, ?_⟩
      rcases hF' with rfl | ⟨f, rfl⟩
      · exact ⟨[], by simpa using hh, hp0, by simp⟩
      · have hset : F ∪ {x | x ∈ [f]} = insert f F := by simp
        exact ⟨[f], by rw [hset]; exact hh, hp0, by simp; omega⟩
    · have hset : ∀ fs : List Nat, insert v.frame (insert f F) ∪ {x | x ∈ fs} =
          F ∪ {x | x ∈ f :: v.frame :: fs} := by
        intro fs
        ext x
        simp only [Set.mem_union, Set.mem_insert_iff, Set.mem_ofPred_eq, List.mem_cons]
        constructor
        · rintro ((hx | hx | hx) | hx)
          · exact Or.inr (Or.inr (Or.inl hx))
          · exact Or.inr (Or.inl hx)
          · exact Or.inl hx
          · exact Or.inr (Or.inr (Or.inr hx))
        · rintro (hx | hx | hx | hx)
          · exact Or.inl (Or.inr (Or.inr hx))
          · exact Or.inl (Or.inr (Or.inl hx))
          · exact Or.inl (Or.inl hx)
          · exact Or.inr hx
      have hkept := heff.kept
      have hsame := heff.same
      rw [Set.sdiff_empty] at hkept hsame
      rcases ih (fun n hn => hsizes n (by simp [hn])) (h.append hfresh heff) (hV.trans hkept)
          (hout.append hV heff) with
        ⟨⟨e, he⟩, m, r, fs, hh, hp0, hlen⟩ |
        ⟨addrs, k2, fs, view', hok2, hl1, hl2, hall, hout', hsame'⟩
      · left
        refine ⟨⟨e, by rw [createCaches, hok]; simp only [he]⟩, m, r, f :: v.frame :: fs, ?_,
          hp0, ?_⟩
        · rw [← hset]
          exact hh
        · simp only [List.length_cons]
          omega
      · right
        refine ⟨f * 4096 :: addrs, k2, f :: v.frame :: fs, view', ?_, ?_, ?_, ?_, ?_,
          (hsame.mono (fun x hx => hV hx)).trans hsame'⟩
        · rw [createCaches, hok]
          simp only [hok2]
        · simp [hl1]
        · simp only [List.length_cons]
          omega
        · rw [← hset, List.zipWith_cons_cons]
          rwa [List.append_assoc] at hall
        · rw [List.zipWith_cons_cons]
          rwa [List.append_assoc] at hout'

theorem heapSlabSizes_admitted :
    ∀ n ∈ heapSlabSizes, n ≤ 512 ∧ bufctlSize ≤ n ∧ isPowerOfTwo n = true := by decide

theorem AllFresh.none (hh : Holds k.mem k.frames F) (view : Nat → CacheView) :
    AllFresh k Holds F [] view :=
  ⟨⟨hh, by simp, by simp⟩, by simp⟩

/-- Fresh caches of the heap's sizes are a valid heap without blocks. -/
theorem AllFresh.heapInv {addrs : List Nat} {view : Nat → CacheView}
    (hl : addrs.length = heapSlabSizes.length)
    (h : AllFresh k Holds F (List.zipWith (fun a n => ⟨a, n, []⟩) addrs heapSlabSizes) view) :
    HeapInv Holds ⟨⟨k, addrs⟩, []⟩ F
      (List.zipWith (fun a n => ⟨a, n, []⟩) addrs heapSlabSizes) view := by
  have hlive : ∀ (i : Nat) (c : SlabCache),
      (List.zipWith (fun a n => (⟨a, n, []⟩ : SlabCache)) addrs heapSlabSizes)[i]? = some c →
      c.live = [] := fun i c hc => (h.2 i c hc).1
  refine
    { good := h.1
      array := ?_
      sizes := ?_
      capacity := fun i c hc => (h.2 i c hc).2.1
      oneSlab := ?_
      unaligned := ?_
      tags := fun i c hc b hb => by rw [hlive i c hc] at hb; simp at hb
      owners := fun i c hc => by rw [hlive i c hc]; exact List.Perm.nil
      pointers := fun i b hb => by simp [slabBlocks] at hb
      pages := fun b hb => by simp [pageBlocks] at hb
      pagesApart := List.Pairwise.nil
      cachesApart := fun i c hc b hb => by simp [pageBlocks] at hb }
  · rw [List.map_zipWith]
    exact (List.map_fst_zip (le_of_eq hl)).symm.trans (by rw [List.zip, List.map_zipWith])
  · rw [List.map_zipWith]
    exact (by rw [List.zip, List.map_zipWith] : _ = _).trans (List.map_snd_zip (le_of_eq hl.symm))
  · intro i c hc
    obtain ⟨_, _, v, hv, hframe, hlen, _⟩ := h.2 i c hc
    exact ⟨v, hv, hframe, by rw [hlive i c hc, hlen]; rfl⟩
  · intro i c hc b hb
    obtain ⟨_, _, v, hv, _, _, hun⟩ := h.2 i c hc
    rw [hlive i c hc, hv] at hb
    exact hun b (by simpa [objects] using hb)

/-- `malloc_heap_init` that returns leaves a valid heap without blocks, and the frames that were
held before as they were. -/
theorem mallocHeapInit_spec (hA : A.Lawful U Holds) (hh : Holds k.mem k.frames F) {h : Heap ρ}
    (hok : mallocHeapInit A k = .ok h) :
    ∃ (fs : List Nat) (caches : List SlabCache) (view : Nat → CacheView), fs.length = 12 ∧
      HeapInv Holds ⟨h, []⟩ (F ∪ {f | f ∈ fs}) caches view ∧
      CachesOutside F caches view ∧ Mem.SameOn (frameBytes F) k.mem h.kernel.mem := by
  rcases createCaches_spec hA heapSlabSizes heapSlabSizes_admitted
      (AllFresh.none hh (fun _ => ⟨0, ∅, []⟩)) (subset_refl F)
        (fun i c hi => by simp at hi) with
    ⟨⟨e, he⟩, _⟩ | ⟨addrs, k', fs, view', hok', hl1, hl2, hall, hout, hsame⟩
  · rw [mallocHeapInit, he] at hok
    simp at hok
  · rw [mallocHeapInit, hok'] at hok
    obtain rfl := Except.ok.inj hok
    exact ⟨fs, _, view', hl2, AllFresh.heapInv hl1 (by simpa using hall), by simpa using hout,
      hsame⟩

/-- Twelve free frames suffice for `malloc_heap_init`, if requests are only refused
when all managed frames are held. -/
theorem mallocHeapInit_served (hA : A.Lawful U Holds) (hh : Holds k.mem k.frames F)
    (hserve : ∀ m r F, Holds m r F → ∀ f ∈ U, f ∉ F → (A.allocz 1 m r).1 ≠ 0)
    {stock : List Nat} (hnd : stock.Nodup) (hstock : ∀ f ∈ stock, f ∈ U ∧ f ∉ F)
    (hlen : 12 ≤ stock.length) : ∃ h, mallocHeapInit A k = .ok h := by
  rcases createCaches_spec hA heapSlabSizes heapSlabSizes_admitted
      (AllFresh.none hh (fun _ => ⟨0, ∅, []⟩)) (subset_refl F)
        (fun i c hi => by simp at hi) with
    ⟨_, m, r, fs, hholds, hp0, hshort⟩ | ⟨addrs, k', _, _, hok', _⟩
  · exfalso
    -- fewer frames are held than the stock has
    have hex : ∃ f ∈ stock, f ∉ fs := by
      by_contra hcon
      push Not at hcon
      have hle := (hnd.subperm hcon).length_le
      have h6 : heapSlabSizes.length = 6 := rfl
      omega
    obtain ⟨f, hf, hfs⟩ := hex
    refine hserve m r _ hholds f (hstock f hf).1 ?_ hp0
    rintro (hfF | hff)
    · exact (hstock f hf).2 hfF
    · exact hfs hff
  · exact ⟨⟨k', addrs⟩, by rw [mallocHeapInit, hok']⟩

end ApoptOS
