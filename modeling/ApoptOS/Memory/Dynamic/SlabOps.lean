import ApoptOS.Memory.Dynamic.SlabGrow

namespace ApoptOS

open Framework

variable {ρ : Type} {A : PageFrames ρ} {U : Set Nat} {Holds : Mem → ρ → Set Nat → Prop}
  {k k' : Kernel ρ} {cache size max : Nat} {F frames : Set Nat}
  {slabs pre rest post skip : List SlabView} {v : SlabView} {live : List Nat}
  {flags : SlabFlags} {b p fuel : Nat}

/-- The frames of a cache: its own page and those of its slabs. -/
def ownFrames (cache : Nat) (frames : Set Nat) : Set Nat := insert (cache / 4096) frames

theorem CacheState.own_held (h : CacheState Holds k cache size max F frames slabs live) :
    ownFrames cache frames ⊆ F :=
  Set.insert_subset h.cacheHeld h.framesHeld

theorem bookkeeping_own : bookkeeping cache frames ⊆ frameBytes (ownFrames cache frames) := by
  intro x hx
  rcases mem_bookkeeping.mp hx with hx | hx
  · exact mem_frameBytes.mpr (hx ▸ Set.mem_insert _ _)
  · exact mem_frameBytes.mpr (Set.mem_insert_of_mem _ hx.1)

/-- What an operation on a cache with frames `own` may do to everybody else:
held frames of others keep their contents and stay held, and the cache's
frames `own'` afterwards are none of them. -/
structure Effect (k k' : Kernel ρ) (F F' own own' : Set Nat) : Prop where
  same : Mem.SameOn (frameBytes (F \ own)) k.mem k'.mem
  kept : F \ own ⊆ F'
  apart : Disjoint own' (F \ own)
  calls : k.calls <:+ k'.calls

namespace Effect

variable {k1 k2 : Kernel ρ} {F1 F2 own own1 own2 : Set Nat}

theorem trans (h1 : Effect k k1 F F1 own own1) (h2 : Effect k1 k2 F1 F2 own1 own2) :
    Effect k k2 F F2 own own2 := by
  have hsub : F \ own ⊆ F1 \ own1 :=
    fun x hx => ⟨h1.kept hx, fun hx1 => Set.disjoint_left.mp h1.apart hx1 hx⟩
  exact ⟨h1.same.trans (h2.same.mono (fun x hx => hsub hx)), hsub.trans h2.kept,
    h2.apart.mono_right hsub, h1.calls.trans h2.calls⟩

/-- Writes to the cache's own frames. -/
theorem write {m' : Mem} (hm : Mem.SameOn (frameBytes own)ᶜ k.mem m') :
    Effect k { k with mem := m' } F F own own :=
  ⟨fun x hx => hm x (fun hxo => hx.2 hxo), fun _ hx => hx.1,
    Set.disjoint_left.mpr (fun _ hx hx' => hx'.2 hx), List.suffix_rfl⟩

end Effect

/-- Another cache does not notice. -/
theorem CacheState.other {F' own own' : Set Nat}
    (h : CacheState Holds k cache size max F frames slabs live)
    (he : Effect k k' F F' own own') (hholds : Holds k'.mem k'.frames F')
    (hd : Disjoint (ownFrames cache frames) own) :
    CacheState Holds k' cache size max F' frames slabs live := by
  have hsub : ownFrames cache frames ⊆ F \ own :=
    fun x hx => ⟨h.own_held hx, Set.disjoint_left.mp hd hx⟩
  refine ⟨hholds, he.kept (hsub (Set.mem_insert _ _)),
    fun x hx => he.kept (hsub (Set.mem_insert_of_mem _ hx)),
    fun f hf => he.calls.subset (h.obtained f hf), ?_⟩
  exact h.inv.of_sameOn (F := F \ own) (hsub (Set.mem_insert _ _))
    (fun x hx => hsub (Set.mem_insert_of_mem _ hx)) he.same

theorem CacheState.effect_cursor (h : CacheState Holds k cache size max F frames slabs live)
    (c : Nat) : Effect k (k.setCacheSlabs cache c) F F (ownFrames cache frames)
      (ownFrames cache frames) := by
  refine Effect.write (fun x hx => Mem.store64_outside _ _ ?_)
  by_contra hcon
  have hal := h.inv.cacheAligned
  have hxc : x / 4096 = cache / 4096 := by omega
  exact hx (mem_frameBytes.mpr (hxc ▸ Set.mem_insert _ _))

/-- The cursor lies in the cache's page, away from all objects. -/
theorem CacheState.same_cursor (h : CacheState Holds k cache size max F frames slabs live)
    (c : Nat) : Mem.SameOn (frameBytes F \ bookkeeping cache frames) k.mem
      (k.setCacheSlabs cache c).mem := by
  refine fun x hx => Mem.store64_outside _ _ ?_
  by_contra hcon
  have hal := h.inv.cacheAligned
  exact hx.2 (Or.inl (by omega))

theorem CursorAt.setCacheSlabs {c : Nat} (hc : c = (rest.map SlabView.addr).headD 0)
    (hlt : c < 2 ^ 64) : CursorAt (k.setCacheSlabs cache c).mem cache rest := by
  show (k.mem.store64 (cache + 32) c).load64 (cache + 32) = _
  rw [Mem.load64_store64_same, Nat.mod_eq_of_lt hlt, hc]

/-- `cache->slabs = cache->slabs_head` puts the cursor in front of the list. -/
theorem CacheState.cursor_head (h : CacheState Holds k cache size max F frames slabs live) :
    CursorAt (k.setCacheSlabs cache (k.cacheSlabsHead cache)).mem cache slabs :=
  CursorAt.setCacheSlabs h.inv.slabList.head_eq (Mem.load64_lt _ _)

/-- `cache->slabs = cache->slabs->next` moves the cursor past one slab. -/
theorem CacheState.cursor_next
    (h : CacheState Holds k cache size max F frames (pre ++ v :: post) live) :
    CursorAt (k.setCacheSlabs cache (k.slabNext v.addr)).mem cache post := by
  have hlist := h.inv.slabList
  rw [List.map_append, List.map_cons] at hlist
  exact CursorAt.setCacheSlabs hlist.tail.head_eq (Mem.load64_lt _ _)

theorem CursorAt.slab_ne_zero
    (h : CacheState Holds k cache size max F frames (pre ++ v :: post) live)
    (hc : CursorAt k.mem cache (v :: post)) : k.cacheSlabs cache = v.addr ∧ v.addr ≠ 0 :=
  ⟨hc, (h.inv.addr_bounds (v := v) (by simp)).1⟩

section Alloc

theorem slabCacheAlloc_eq (A : PageFrames ρ) (h : cache ≠ 0) (fuel : Nat) :
    slabCacheAlloc A fuel k cache flags =
      allocFromSlabs A cache flags fuel (k.setCacheSlabs cache (k.cacheSlabsHead cache)) := by
  rw [slabCacheAlloc, if_neg (fun hc => h hc.1), if_neg h]

theorem allocFromSlabs_end (hc : CursorAt k.mem cache []) :
    allocFromSlabs A cache flags (fuel + 1) k =
      if flags.autoGrow then
        match slabCacheGrow A k cache 1 flags with
        | .error e => .error e
        | .ok k => allocFromSlabs A cache flags fuel
            (k.setCacheSlabs cache (k.cacheSlabsHead cache))
      else if flags.panic then
        .error (.panic "Slab cache alloc ('%s'): Couldn't find allocatable memory\n"
          (k.cacheName cache))
      else .ok (0, k) := by
  have h0 : k.cacheSlabs cache = 0 := hc
  cases hgrow : slabCacheGrow A k cache 1 flags with
  | error e => simp only [allocFromSlabs, h0, true_and, if_true, hgrow]
  | ok k' => simp only [allocFromSlabs, h0, true_and, if_true, hgrow]

theorem allocFromSlabs_next
    (h : CacheState Holds k cache size max F frames (pre ++ v :: post) live)
    (hc : CursorAt k.mem cache (v :: post)) (hv : v.free = []) :
    allocFromSlabs A cache flags (fuel + 1) k =
      allocFromSlabs A cache flags fuel (k.setCacheSlabs cache (k.slabNext v.addr)) := by
  obtain ⟨hslab, h0⟩ := hc.slab_ne_zero h
  have hhead : k.slabFreelistHead v.addr = 0 := by
    have hlist := h.inv.freeList v (by simp)
    rw [hv] at hlist
    exact hlist
  simp only [allocFromSlabs, hslab, h0, false_and, if_false, hhead, ne_eq, not_true]

/-- A slab with a free object hands out the first one. -/
theorem allocFromSlabs_take (fuel : Nat) (flags : SlabFlags) (hA : A.Lawful U Holds)
    (h : CacheState Holds k cache size max F frames (pre ++ v :: post) live)
    (hc : CursorAt k.mem cache (v :: post)) {tail : List Nat} (hv : v.free = b :: tail) :
    ∃ m', allocFromSlabs A cache flags (fuel + 1) k = .ok (b, { k with mem := m' }) ∧
      CacheState Holds { k with mem := m' } cache size max F frames
        (pre ++ ⟨v.frame, tail⟩ :: post) (b :: live) ∧
      Mem.SameOn (bookkeeping cache frames)ᶜ k.mem m' := by
  obtain ⟨hslab, h0⟩ := hc.slab_ne_zero h
  have hlist := h.inv.freeList v (by simp)
  rw [hv] at hlist
  have hhead : k.slabFreelistHead v.addr = b := hlist.1
  obtain ⟨m1, hm1⟩ : ∃ m1, m1 = k.mem.store64 (v.addr + 24) (k.mem.load64 b) := ⟨_, rfl⟩
  obtain ⟨c, hcv⟩ : ∃ c, c = sub64 (m1.load64 (v.addr + 8)) 1 := ⟨_, rfl⟩
  obtain ⟨hinv, hsame⟩ := h.inv.pop hv hm1 hcv
  refine ⟨m1.store64 (v.addr + 8) c, ?_, h.write hA (fun x hx => hsame x ?_) hinv, hsame⟩
  · simp only [allocFromSlabs, hslab, h0, false_and, if_false, hhead, ne_eq, hlist.2.1,
      not_false_eq_true, if_true, Kernel.setSlabFreelistHead, Kernel.setSlabBufctlCount,
      Kernel.bufctlNext, Kernel.slabBufctlCount, Kernel.store64, ← hm1, ← hcv]
  · exact fun hxb => hx (h.bookkeeping_held hxb)

end Alloc

section Free

theorem slabCacheFree_eq (h : cache ≠ 0) (fuel : Nat) :
    slabCacheFree fuel k cache p flags =
      freeToSlabs cache p flags fuel (k.setCacheSlabs cache (k.cacheSlabsHead cache)) := by
  rw [slabCacheFree, if_neg (fun hc => h hc.1), if_neg h]

theorem freeToSlabs_end (hc : CursorAt k.mem cache []) :
    freeToSlabs cache p flags (fuel + 1) k =
      if flags.panic then
        .error (.panic
          "Slab cache free ('%s'): Couldn't find a slab for the to be freed pointer\n"
          (k.cacheName cache))
      else .ok k := by
  have h0 : k.cacheSlabs cache = 0 := hc
  simp only [freeToSlabs, h0, true_and, if_true]

theorem freeToSlabs_next
    (h : CacheState Holds k cache size max F frames (pre ++ v :: post) live)
    (hc : CursorAt k.mem cache (v :: post)) (hv : max ≤ v.free.length) :
    freeToSlabs cache p flags (fuel + 1) k =
      freeToSlabs cache p flags fuel (k.setCacheSlabs cache (k.slabNext v.addr)) := by
  obtain ⟨hslab, h0⟩ := hc.slab_ne_zero h
  have hroom : ¬ k.slabBufctlCount v.addr < k.cacheBufctlCountMax cache := by
    have hcount : k.slabBufctlCount v.addr = v.free.length := h.inv.count v (by simp)
    have hmax : k.cacheBufctlCountMax cache = max := h.inv.maxWord
    omega
  simp only [freeToSlabs, hslab, h0, false_and, if_false, hroom]

/-- The first slab with room takes the object, whichever slab it came from. -/
theorem freeToSlabs_give (fuel : Nat) (flags : SlabFlags) (hA : A.Lawful U Holds)
    (h : CacheState Holds k cache size max F frames (pre ++ v :: post) live)
    (hc : CursorAt k.mem cache (v :: post)) (hv : v.free.length < max) (hp : p ∈ live) :
    ∃ m', freeToSlabs cache p flags (fuel + 1) k = .ok { k with mem := m' } ∧
      CacheState Holds { k with mem := m' } cache size max F frames
        (pre ++ ⟨v.frame, p :: v.free⟩ :: post) (live.erase p) ∧
      (∀ x, x ∉ bookkeeping cache frames → (x < p ∨ p + 10 ≤ x) → m' x = k.mem x) ∧
      m'.load16 (p + 8) = sub64 p (v.frame * 4096) / size % 2 ^ 16 := by
  obtain ⟨hslab, h0⟩ := hc.slab_ne_zero h
  have hroom : k.slabBufctlCount v.addr < k.cacheBufctlCountMax cache := by
    have hcount : k.slabBufctlCount v.addr = v.free.length := h.inv.count v (by simp)
    have hmax : k.cacheBufctlCountMax cache = max := h.inv.maxWord
    omega
  obtain ⟨m1, hm1⟩ : ∃ m1, m1 = k.mem.store64 p (k.mem.load64 (v.addr + 24)) := ⟨_, rfl⟩
  obtain ⟨index, hi⟩ : ∃ index, index =
      sub64 p (m1.load64 (v.addr + 16)) / m1.load64 (cache + 8) := ⟨_, rfl⟩
  obtain ⟨m2, hm2⟩ : ∃ m2, m2 = m1.store16 (p + 8) index := ⟨_, rfl⟩
  obtain ⟨m3, hm3⟩ : ∃ m3, m3 = m2.store64 (v.addr + 24) p := ⟨_, rfl⟩
  obtain ⟨c, hcv⟩ : ∃ c, c = m3.load64 (v.addr + 8) + 1 := ⟨_, rfl⟩
  obtain ⟨hinv, hsame⟩ := h.inv.push hp hm1 hm2 hm3 hcv
  refine ⟨m3.store64 (v.addr + 8) c, ?_, h.write hA (fun x hx => hsame x ?_ ?_) hinv, hsame, ?_⟩
  · simp only [freeToSlabs, hslab, h0, false_and, if_false, hroom, if_true]
    simp only [Kernel.setBufctlNext, Kernel.slabFreelistHead, Kernel.setBufctlIndex,
      Kernel.slabBufctlAddr, Kernel.cacheSlabSize, Kernel.setSlabFreelistHead,
      Kernel.setSlabBufctlCount,
      Kernel.slabBufctlCount, Kernel.store64, Kernel.store16, ← hm1, ← hi, ← hm2, ← hm3,
      ← hcv]
  · exact fun hxb => hx (h.bookkeeping_held hxb)
  · by_contra hcon
    have hs := h.inv.sizeBounds
    have hin := (h.inv.slot_of_live hp).inside (x := x) (by omega) (by omega)
    exact hx (mem_frameBytes.mpr (h.framesHeld hin.1))
  · have hs := h.inv.sizeBounds
    have hal := h.inv.cacheAligned
    have hslot := h.inv.slot_of_live hp
    have hin := hslot.inside (le_refl p) (by omega)
    have hin9 := hslot.inside (x := p + 9) (by omega) (by omega)
    have hcf : p / 4096 ≠ cache / 4096 := fun he => h.inv.cacheApart (he ▸ hin.1)
    have haddr : v.addr = v.frame * 4096 + 4056 := rfl
    have hhome : m1.load64 (v.addr + 16) = v.frame * 4096 := by
      rw [hm1, Mem.load64_store64_other _ _ (by omega)]
      exact h.inv.home v (by simp)
    have hsize : m1.load64 (cache + 8) = size := by
      rw [hm1, Mem.load64_store64_other _ _ (by omega)]
      exact h.inv.sizeWord
    rw [Mem.load16_store64_other _ _ (by omega), hm3, Mem.load16_store64_other _ _ (by omega), hm2,
      Mem.load16_store16_same, hi, hhome, hsize]

end Free

/-! The first slab of the list decides, if it has what is asked for. -/

section First

theorem bookkeeping_cursor (hal : cache % 4096 = 0) {m : Mem} (c x : Nat)
    (hx : x ∉ bookkeeping cache frames) : m.store64 (cache + 32) c x = m x := by
  refine Mem.store64_outside _ _ ?_
  by_contra hcon
  exact hx (Or.inl (by omega))

theorem slabCacheAlloc_first (flags : SlabFlags) (hA : A.Lawful U Holds)
    (h : CacheState Holds k cache size max F frames (v :: post) live) {tail : List Nat}
    (hv : v.free = b :: tail) (hfuel : 1 ≤ fuel) :
    ∃ m', slabCacheAlloc A fuel k cache flags = .ok (b, { k with mem := m' }) ∧
      CacheState Holds { k with mem := m' } cache size max F frames (⟨v.frame, tail⟩ :: post)
        (b :: live) ∧
      Mem.SameOn (bookkeeping cache frames)ᶜ k.mem m' := by
  have hc0 : cache ≠ 0 := h.inv.cacheBounds.1
  obtain ⟨n, rfl⟩ : ∃ n, fuel = n + 1 := ⟨fuel - 1, by omega⟩
  have hst : CacheState Holds (k.setCacheSlabs cache (k.cacheSlabsHead cache)) cache size max F
      frames ([] ++ v :: post) live := h.setCacheSlabs hA _
  obtain ⟨m', heq, hst', hsame⟩ := allocFromSlabs_take n flags hA hst h.cursor_head hv
  refine ⟨m', ?_, hst', fun x hx => ?_⟩
  · rw [slabCacheAlloc_eq A hc0]
    exact heq
  · rw [hsame x hx]
    exact bookkeeping_cursor h.inv.cacheAligned _ x hx

/-- The first slab is empty, the second one is not. -/
theorem slabCacheAlloc_second (flags : SlabFlags) (hA : A.Lawful U Holds) {u : SlabView}
    {tail : List Nat}
    (h : CacheState Holds k cache size max F frames (u :: v :: post) live) (hu : u.free = [])
    (hv : v.free = b :: tail) (hfuel : 2 ≤ fuel) :
    ∃ m', slabCacheAlloc A fuel k cache flags = .ok (b, { k with mem := m' }) ∧
      CacheState Holds { k with mem := m' } cache size max F frames
        (u :: ⟨v.frame, tail⟩ :: post) (b :: live) := by
  have hc0 : cache ≠ 0 := h.inv.cacheBounds.1
  obtain ⟨n, rfl⟩ : ∃ n, fuel = n + 1 + 1 := ⟨fuel - 2, by omega⟩
  have hst : CacheState Holds (k.setCacheSlabs cache (k.cacheSlabsHead cache)) cache size max F
      frames ([] ++ u :: v :: post) live := h.setCacheSlabs hA _
  have hst' : CacheState Holds ((k.setCacheSlabs cache (k.cacheSlabsHead cache)).setCacheSlabs cache
      ((k.setCacheSlabs cache (k.cacheSlabsHead cache)).slabNext u.addr)) cache size max F
      frames ([u] ++ v :: post) live := hst.setCacheSlabs hA _
  obtain ⟨m', hok, h', -⟩ := allocFromSlabs_take n flags hA hst' hst.cursor_next hv
  refine ⟨m', ?_, h'⟩
  rw [slabCacheAlloc_eq A hc0, allocFromSlabs_next hst h.cursor_head hu]
  exact hok

theorem slabCacheAlloc_oneSlab_panic (hA : A.Lawful U Holds)
    (h : CacheState Holds k cache size max F frames [v] live) (hv : v.free = [])
    (hfuel : 2 ≤ fuel) : ∃ argument, slabCacheAlloc A fuel k cache ⟨true, false, false⟩ =
      .error (.panic "Slab cache alloc ('%s'): Couldn't find allocatable memory\n" argument) := by
  have hc0 : cache ≠ 0 := h.inv.cacheBounds.1
  obtain ⟨n, rfl⟩ : ∃ n, fuel = n + 1 + 1 := ⟨fuel - 2, by omega⟩
  have hst : CacheState Holds (k.setCacheSlabs cache (k.cacheSlabsHead cache)) cache size max F
      frames ([] ++ [v]) live := h.setCacheSlabs hA _
  rw [slabCacheAlloc_eq A hc0, allocFromSlabs_next hst h.cursor_head hv,
    allocFromSlabs_end hst.cursor_next]
  exact ⟨_, rfl⟩

theorem slabCacheFree_first (flags : SlabFlags) (hA : A.Lawful U Holds)
    (h : CacheState Holds k cache size max F frames (v :: post) live) (hp : p ∈ live)
    (hv : v.free.length < max) (hfuel : 1 ≤ fuel) :
    ∃ m', slabCacheFree fuel k cache p flags = .ok { k with mem := m' } ∧
      CacheState Holds { k with mem := m' } cache size max F frames
        (⟨v.frame, p :: v.free⟩ :: post) (live.erase p) ∧
      ∀ x, x ∉ bookkeeping cache frames → (x < p ∨ p + 10 ≤ x) → m' x = k.mem x := by
  have hc0 : cache ≠ 0 := h.inv.cacheBounds.1
  obtain ⟨n, rfl⟩ : ∃ n, fuel = n + 1 := ⟨fuel - 1, by omega⟩
  have hst : CacheState Holds (k.setCacheSlabs cache (k.cacheSlabsHead cache)) cache size max F
      frames ([] ++ v :: post) live := h.setCacheSlabs hA _
  obtain ⟨m', heq, hst', hsame, -⟩ := freeToSlabs_give n flags hA hst h.cursor_head hv hp
  refine ⟨m', ?_, hst', fun x hx hxp => ?_⟩
  · rw [slabCacheFree_eq hc0]
    exact heq
  · rw [hsame x hx hxp]
    exact bookkeeping_cursor h.inv.cacheAligned _ x hx

end First

end ApoptOS
