import ApoptOS.Memory.Dynamic.SlabGrowth
import ApoptOS.Memory.Physical.PmmFirstFit

namespace ApoptOS

open Framework

variable {ρ : Type} {A : PageFrames ρ} {U : Set Nat} {Holds : Mem → ρ → Set Nat → Prop}
  {k k' : Kernel ρ} {cache size max : Nat} {F frames : Set Nat}
  {slabs pre rest : List SlabView} {live : List Nat} {flags : SlabFlags}

/-- `slab_cache_alloc` comes back, with an object, with `NULL` or with a panic. -/
def AllocReturns (A : PageFrames ρ) (k : Kernel ρ) (cache : Nat) (flags : SlabFlags) : Prop :=
  ∃ fuel, slabCacheAlloc A fuel k cache flags ≠ .error .outOfFuel

theorem growSlabs_error {count : Nat} {e : Halt} (h : growSlabs A cache flags count k = .error e) :
    e ≠ .outOfFuel := by
  induction count generalizing k with
  | zero => simp [growSlabs] at h
  | succ count ih =>
    by_cases hp : (k.pmmAllocz A 1).1 = 0
    · rw [growSlabs_refused hp] at h
      split_ifs at h
      rw [← Except.error.inj h]
      simp
    · obtain ⟨k1, hk⟩ := growSlabs_served cache flags hp
      rw [hk] at h
      exact ih h

/-- The loop passes over slabs without free objects. -/
theorem allocFromSlabs_walk (flags : SlabFlags) (hA : A.Lawful U Holds)
    (h : CacheState Holds k cache size max F frames (pre ++ rest) live)
    (hc : CursorAt k.mem cache rest) (hnone : ∀ v ∈ rest, v.free = []) :
    ∃ k2, CacheState Holds k2 cache size max F frames (pre ++ rest) live ∧
      CursorAt k2.mem cache [] ∧
      (∀ fuel, allocFromSlabs A cache flags (rest.length + fuel) k =
        allocFromSlabs A cache flags fuel k2) ∧
      ∀ fuel ≤ rest.length, allocFromSlabs A cache flags fuel k = .error .outOfFuel := by
  induction rest generalizing k pre with
  | nil =>
    refine ⟨k, h, hc, fun fuel => by simp, fun fuel hle => ?_⟩
    obtain rfl : fuel = 0 := by simpa using hle
    rfl
  | cons v post ih =>
    have hassoc : (pre ++ [v]) ++ post = pre ++ v :: post := by simp
    have hst : CacheState Holds (k.setCacheSlabs cache (k.slabNext v.addr)) cache size max F
        frames ((pre ++ [v]) ++ post) live := by
      rw [hassoc]
      exact h.setCacheSlabs hA _
    obtain ⟨k2, h2, hc2, hrun, hout⟩ :=
      ih hst h.cursor_next (fun w hw => hnone w (by simp [hw]))
    rw [hassoc] at h2
    refine ⟨k2, h2, hc2, fun fuel => ?_, fun fuel hle => ?_⟩
    · have hlen : (v :: post).length + fuel = (post.length + fuel) + 1 := by
        simp only [List.length_cons]
        omega
      rw [hlen, allocFromSlabs_next h hc (hnone v (by simp))]
      exact hrun fuel
    · cases fuel with
      | zero => rfl
      | succ fuel =>
        rw [allocFromSlabs_next h hc (hnone v (by simp))]
        exact hout fuel (by simpa using hle)

/-- A free object is found. -/
theorem allocFromSlabs_found (flags : SlabFlags) (hA : A.Lawful U Holds)
    (h : CacheState Holds k cache size max F frames (pre ++ rest) live)
    (hc : CursorAt k.mem cache rest) (hsome : ∃ v ∈ rest, v.free ≠ []) :
    ∃ fuel p k', allocFromSlabs A cache flags fuel k = .ok (p, k') := by
  induction rest generalizing k pre with
  | nil => simp at hsome
  | cons v post ih =>
    rcases hv : v.free with _ | ⟨b, tail⟩
    · have hassoc : (pre ++ [v]) ++ post = pre ++ v :: post := by simp
      have hst : CacheState Holds (k.setCacheSlabs cache (k.slabNext v.addr)) cache size max F
          frames ((pre ++ [v]) ++ post) live := by
        rw [hassoc]
        exact h.setCacheSlabs hA _
      obtain ⟨w, hw, hne⟩ := hsome
      have hwpost : w ∈ post := by
        rcases List.mem_cons.mp hw with rfl | hw
        · exact absurd hv hne
        · exact hw
      obtain ⟨fuel, p, k', hok⟩ := ih hst h.cursor_next ⟨w, hwpost, hne⟩
      exact ⟨fuel + 1, p, k', by rw [allocFromSlabs_next h hc hv]; exact hok⟩
    · obtain ⟨m', hok, -, -⟩ := allocFromSlabs_take 0 flags hA h hc hv
      exact ⟨1, b, _, hok⟩

theorem CacheState.alloc_found (hA : A.Lawful U Holds) (flags : SlabFlags)
    (h : CacheState Holds k cache size max F frames slabs live)
    (hsome : ∃ v ∈ slabs, v.free ≠ []) :
    AllocReturns A k cache flags := by
  have hst : CacheState Holds (k.setCacheSlabs cache (k.cacheSlabsHead cache)) cache size max F
      frames ([] ++ slabs) live := h.setCacheSlabs hA _
  obtain ⟨fuel, p, k', hok⟩ := allocFromSlabs_found flags hA hst h.cursor_head hsome
  refine ⟨fuel, ?_⟩
  rw [slabCacheAlloc_eq A h.inv.cacheBounds.1, hok]
  simp

/-- Without free objects the call grows the cache by one slab and starts over. -/
theorem CacheState.alloc_retry (hA : A.Lawful U Holds)
    (h : CacheState Holds k cache size max F frames slabs live) (hauto : flags.autoGrow = true)
    (hnone : ∀ v ∈ slabs, v.free = []) :
    ∃ k2, CacheState Holds k2 cache size max F frames slabs live ∧
      (∀ fuel, slabCacheAlloc A (slabs.length + (fuel + 1)) k cache flags =
        match slabCacheGrow A k2 cache 1 flags with
        | .error e => .error e
        | .ok k1 => slabCacheAlloc A fuel k1 cache flags) ∧
      ∀ fuel ≤ slabs.length, slabCacheAlloc A fuel k cache flags = .error .outOfFuel := by
  have hc0 := h.inv.cacheBounds.1
  have hst : CacheState Holds (k.setCacheSlabs cache (k.cacheSlabsHead cache)) cache size max F
      frames ([] ++ slabs) live := h.setCacheSlabs hA _
  obtain ⟨k2, h2, hc2, hrun, hout⟩ := allocFromSlabs_walk flags hA hst h.cursor_head hnone
  refine ⟨k2, h2, fun fuel => ?_, fun fuel hle => ?_⟩
  · rw [slabCacheAlloc_eq A hc0, hrun, allocFromSlabs_end hc2, if_pos hauto]
    cases slabCacheGrow A k2 cache 1 flags with
    | error e => rfl
    | ok k1 => exact (slabCacheAlloc_eq A hc0 fuel).symm
  · rw [slabCacheAlloc_eq A hc0]
    exact hout fuel hle

/-- Growing by one slab, with and without a frame left. -/
theorem CacheState.grow_one (flags : SlabFlags) (hA : A.Lawful U Holds) (hfull : A.Complete U Holds)
    (h : CacheState Holds k cache size max F frames slabs live) :
    (F = U ∧ (flags.panic = true → ∃ e, slabCacheGrow A k cache 1 flags = .error e) ∧
      (flags.panic = false → ∃ k1, slabCacheGrow A k cache 1 flags = .ok k1 ∧
        CacheState Holds k1 cache size max F frames slabs live)) ∨
    ∃ f k1, f ∉ F ∧ slabCacheGrow A k cache 1 flags = .ok k1 ∧
      CacheState Holds k1 cache size (max - firstSlot flags) (insert f F) (insert f frames)
        (grownList [] slabs ⟨f, slotList size f (firstSlot flags) max⟩) live := by
  have hst : CacheState Holds (k.setCacheSlabs cache (k.cacheSlabsHead cache)) cache size max F
      frames ([] ++ slabs) live := h.setCacheSlabs hA _
  rw [slabCacheGrow_eq A h.inv.cacheBounds.1]
  rcases growSlabs_succ flags hA hst ⟨h.cursor_head, fun _ => rfl⟩ 0 with
    ⟨heq, -, hp, h1⟩ | ⟨f, m', hfF, -, heq, h1, -⟩
  · refine Or.inl ⟨hfull _ _ F hst.holds hp, fun hpanic => ?_, fun hpanic => ?_⟩
    · exact ⟨_, by rw [heq, if_pos hpanic]⟩
    · exact ⟨_, by rw [heq, if_neg (by simp [hpanic])], h1⟩
  · exact Or.inr ⟨f, _, hfF, heq, h1⟩

theorem slabCacheGrow_error {count : Nat} {e : Halt}
    (h : slabCacheGrow A k cache count flags = .error e) :
    e ≠ .outOfFuel := by
  unfold slabCacheGrow at h
  split_ifs at h
  · rw [← Except.error.inj h]
    simp
  · exact growSlabs_error h

theorem AllocReturns.of_retry (hA : A.Lawful U Holds)
    (h : CacheState Holds k cache size max F frames slabs live) (hauto : flags.autoGrow = true)
    (hnone : ∀ v ∈ slabs, v.free = [])
    (hgrow : ∀ k2, CacheState Holds k2 cache size max F frames slabs live →
      ∀ k1, slabCacheGrow A k2 cache 1 flags = .ok k1 → AllocReturns A k1 cache flags) :
    AllocReturns A k cache flags := by
  obtain ⟨k2, h2, hrun, -⟩ := h.alloc_retry hA hauto hnone
  cases hg : slabCacheGrow A k2 cache 1 flags with
  | error e =>
    refine ⟨slabs.length + (0 + 1), ?_⟩
    rw [hrun, hg]
    exact fun he => slabCacheGrow_error hg (Except.error.inj he)
  | ok k1 =>
    obtain ⟨fuel, hfuel⟩ := hgrow k2 h2 k1 hg
    refine ⟨slabs.length + (fuel + 1), ?_⟩
    rw [hrun, hg]
    exact hfuel

theorem PageFrames.Lawful.finite (hA : A.Lawful U Holds) : U.Finite :=
  (Set.finite_Iio (2 ^ 40)).subset (fun f hf => (hA.managed f hf).2)

/-- With `SLAB_PANIC` the recursion ends when the frames do. -/
theorem CacheState.alloc_panic (hA : A.Lawful U Holds) (hfull : A.Complete U Holds)
    (h : CacheState Holds k cache size max F frames slabs live) (hauto : flags.autoGrow = true)
    (hpanic : flags.panic = true) : AllocReturns A k cache flags := by
  -- the induction is on the frames that are left
  obtain ⟨n, hn⟩ : ∃ n, (U \ F).ncard = n := ⟨_, rfl⟩
  induction n using Nat.strong_induction_on generalizing k max F frames slabs with
  | _ n ih =>
    by_cases hsome : ∃ v ∈ slabs, v.free ≠ []
    · exact h.alloc_found hA flags hsome
    · have hnone : ∀ v ∈ slabs, v.free = [] := by simpa using hsome
      refine AllocReturns.of_retry hA h hauto hnone (fun k2 h2 k1 hg => ?_)
      rcases h2.grow_one flags hA hfull with ⟨-, herr, -⟩ | ⟨f, k3, hfF, heq, h3⟩
      · obtain ⟨e, he⟩ := herr hpanic
        rw [he] at hg
        simp at hg
      · obtain rfl := Except.ok.inj (heq.symm.trans hg)
        have hfU : f ∈ U := hA.subset _ _ _ h3.holds (Set.mem_insert f F)
        have hlt : (U \ insert f F).ncard < n := by
          rw [← hn]
          refine Set.ncard_lt_ncard
            ⟨fun x hx => ⟨hx.1, fun hxF => hx.2 (Set.mem_insert_of_mem _ hxF)⟩,
            fun hsub => ?_⟩ (hA.finite.subset Set.sdiff_subset)
          exact (hsub ⟨hfU, hfF⟩).2 (Set.mem_insert f F)
        exact ih _ hlt h3 rfl

/-- With a frame left and a slot in the slab that is made of it, one growth is enough. -/
theorem CacheState.alloc_grown (hA : A.Lawful U Holds) (hfull : A.Complete U Holds)
    (h : CacheState Holds k cache size max F frames slabs live) (hauto : flags.autoGrow = true)
    (hnone : ∀ v ∈ slabs, v.free = []) (hF : F ≠ U) (hslot : firstSlot flags < max) :
    AllocReturns A k cache flags := by
  refine AllocReturns.of_retry hA h hauto hnone (fun k2 h2 k1 hg => ?_)
  rcases h2.grow_one flags hA hfull with ⟨hFU, -⟩ | ⟨f, k3, -, heq, h3⟩
  · exact absurd hFU hF
  · obtain rfl := Except.ok.inj (heq.symm.trans hg)
    refine h3.alloc_found hA flags ⟨_, mem_grownList.mpr (Or.inr rfl), fun hnil => ?_⟩
    have hlen := slotList_length size f (firstSlot flags) max
    have hzero : (slotList size f (firstSlot flags) max).length = 0 := congrArg List.length hnil
    omega

/-- Without `SLAB_PANIC`, with no free object and no frame left, or with no slot in a new slab,
the recursion goes on for ever. -/
theorem CacheState.alloc_diverges (hA : A.Lawful U Holds) (hfull : A.Complete U Holds)
    (h : CacheState Holds k cache size max F frames slabs live) (hauto : flags.autoGrow = true)
    (hpanic : flags.panic = false) (hnone : ∀ v ∈ slabs, v.free = [])
    (hno : F = U ∨ max ≤ firstSlot flags) (fuel : Nat) :
    slabCacheAlloc A fuel k cache flags = .error .outOfFuel := by
  induction fuel using Nat.strong_induction_on generalizing k max F frames slabs with
  | _ fuel ih =>
    obtain ⟨k2, h2, hrun, hout⟩ := h.alloc_retry hA hauto hnone
    by_cases hle : fuel ≤ slabs.length
    · exact hout fuel hle
    · obtain ⟨n, rfl⟩ : ∃ n, fuel = slabs.length + (n + 1) :=
        ⟨fuel - slabs.length - 1, by omega⟩
      rw [hrun]
      rcases h2.grow_one flags hA hfull with ⟨hFU, -, hok⟩ | ⟨f, k1, hfF, heq, h1⟩
      · obtain ⟨k1, heq, h1⟩ := hok hpanic
        rw [heq]
        exact ih n (by omega) h1 hnone (Or.inl hFU)
      · rw [heq]
        have hmax : max ≤ firstSlot flags := by
          refine hno.resolve_left (fun hFU => hfF ?_)
          exact hFU ▸ hA.subset _ _ _ h1.holds (Set.mem_insert f F)
        refine ih n (by omega) h1 (fun v hv => ?_) (Or.inr (by omega))
        rcases mem_grownList.mp hv with hv | rfl
        · exact hnone v (kept_subset hv)
        · refine List.eq_nil_of_length_eq_zero ?_
          rw [slotList_length]
          omega

/-- When a call with `SLAB_AUTO_GROW` comes back. -/
theorem CacheState.alloc_returns_iff (hA : A.Lawful U Holds) (hfull : A.Complete U Holds)
    (h : CacheState Holds k cache size max F frames slabs live) (hauto : flags.autoGrow = true) :
    AllocReturns A k cache flags ↔ flags.panic = true ∨ (∃ v ∈ slabs, v.free ≠ []) ∨
      F ≠ U ∧ firstSlot flags < max := by
  constructor
  · rintro ⟨fuel, hfuel⟩
    by_contra hcon
    obtain ⟨hpanic, hrest⟩ := not_or.mp hcon
    obtain ⟨hsome, hno⟩ := not_or.mp hrest
    refine hfuel (h.alloc_diverges hA hfull hauto (by simpa using hpanic) (by simpa using hsome) ?_
      fuel)
    by_contra hcase
    obtain ⟨hFU, hmax⟩ := not_or.mp hcase
    exact hno ⟨hFU, by omega⟩
  · intro hcond
    by_cases hsome : ∃ v ∈ slabs, v.free ≠ []
    · exact h.alloc_found hA flags hsome
    · rcases hcond with hpanic | hfound | ⟨hFU, hslot⟩
      · exact h.alloc_panic hA hfull hauto hpanic
      · exact absurd hfound hsome
      · exact h.alloc_grown hA hfull hauto (by simpa using hsome) hFU hslot

/-- For every state reached by clean calls, every number of frames left and all flags with
`SLAB_AUTO_GROW`: `slab_cache_alloc` comes back exactly if `SLAB_PANIC` is set, or a slab on
the list has a free object, or a frame is left and a slab made of it has a slot. -/
theorem slab_alloc_returns_iff (A : PageFrames ρ) (U : Set Nat)
    (Holds : Mem → ρ → Set Nat → Prop)
    (hA : A.Lawful U Holds) (hfull : A.Complete U Holds) (k : Kernel ρ) (F : Set Nat)
    (hF : Holds k.mem k.frames F) (fuel : Nat) (ops : List SlabOp)
    (hclean : SlabState.CleanRun A fuel ⟨k, []⟩ ops) (s : SlabState ρ)
    (hrun : SlabState.run A fuel ⟨k, []⟩ ops = some s) (c : SlabCache) (hc : c ∈ s.caches)
    (flags : SlabFlags) (hauto : flags.autoGrow = true) (slabs : List Nat)
    (hl : ListedSlabs s.kernel c.cache slabs) :
    AllocReturns A s.kernel c.cache flags ↔ flags.panic = true ∨
      (∃ t ∈ slabs, s.kernel.slabFreelistHead t ≠ 0) ∨
      (s.kernel.pmmAllocz A 1).1 ≠ 0 ∧
        firstSlot flags < s.kernel.cacheBufctlCountMax c.cache := by
  obtain ⟨F', view, hgood⟩ :=
    (SlabState.Good.none hF (fun _ => ⟨0, ∅, []⟩)).1.run_clean hA hclean hrun
  obtain ⟨i, hi⟩ := List.mem_iff_getElem?.mp hc
  have hci := hgood.cache i c hi
  obtain rfl := hl.unique hci.listed
  rw [hci.alloc_returns_iff hA hfull hauto, hci.maxWord]
  have hframe : (s.kernel.pmmAllocz A 1).1 ≠ 0 ↔ F' ≠ U :=
    not_congr (hfull.refused_iff hA hci.holds)
  rw [hframe]
  refine or_congr Iff.rfl (or_congr ⟨?_, ?_⟩ Iff.rfl)
  · rintro ⟨v, hv, hne⟩
    exact ⟨v.addr, List.mem_map_of_mem hv,
      fun h0 => hne ((hci.inv.freeList v hv).eq_nil_iff.mpr h0)⟩
  · rintro ⟨t, ht, hne⟩
    obtain ⟨v, hv, rfl⟩ := List.mem_map.mp ht
    exact ⟨v, hv, fun h0 => hne ((hci.inv.freeList v hv).eq_nil_iff.mp h0)⟩

/-- A new cache with free objects. -/
theorem slab_alloc_returns_iff_newCache : ∃ s c,
    SlabState.run pmmFrames 5 ⟨bootKernel smallMap, []⟩
      [.create 0 512 ⟨false, true, false⟩] =
      some s ∧
    s.caches = [c] ∧ s.kernel.slabFreelistHead 0x3fd8 ≠ 0 ∧
    AllocReturns pmmFrames s.kernel c.cache ⟨false, true, false⟩ := by
  have heval : (SlabState.run pmmFrames 5 ⟨bootKernel smallMap, []⟩
      [.create 0 512 ⟨false, true, false⟩]).bind (fun s =>
        if Chain s.kernel.slabNext 0 (s.kernel.cacheSlabsHead 0x2000) [0x3fd8] ∧
          s.kernel.slabFreelistHead 0x3fd8 ≠ 0 then some s.caches else none) =
      some [⟨0x2000, 512, []⟩] := by decide +kernel
  obtain ⟨s, hs, hif⟩ := Option.bind_eq_some_iff.mp heval
  split_ifs at hif with hlist
  have hcaches := Option.some.inj hif
  obtain ⟨U, Holds, hA, hfull, hF⟩ := bootKernel_complete smallMap_ok smallMap_frames_le
    (by decide) (by decide +kernel)
  refine ⟨s, ⟨0x2000, 512, []⟩, hs, hcaches, hlist.2, ?_⟩
  exact (slab_alloc_returns_iff pmmFrames U Holds hA hfull _ ∅ hF 5
    [.create 0 512 ⟨false, true, false⟩]
    ⟨trivial, fun _ _ => trivial⟩ s hs ⟨0x2000, 512, []⟩ (by rw [hcaches]; simp)
      ⟨false, true, false⟩ rfl [0x3fd8] hlist.1).mpr
    (Or.inr (Or.inl ⟨0x3fd8, by simp, hlist.2⟩))

/-- The cache takes the last frame and gets no slab: with `SLAB_AUTO_GROW` and without
`SLAB_PANIC` its first allocation never comes back. -/
theorem slab_alloc_never_returns : ∃ s,
    SlabState.run pmmFrames 5 ⟨bootKernel oneFrameMap, []⟩
      [.create 0 512 ⟨false, true, false⟩] = some s ∧
    s.caches = [⟨0x2000, 512, []⟩] ∧ ListedSlabs s.kernel 0x2000 [] ∧
    (s.kernel.pmmAllocz pmmFrames 1).1 = 0 ∧
    ¬ AllocReturns pmmFrames s.kernel 0x2000 ⟨false, true, false⟩ := by
  have heval : (SlabState.run pmmFrames 5 ⟨bootKernel oneFrameMap, []⟩
      [.create 0 512 ⟨false, true, false⟩]).bind (fun s =>
        if Chain s.kernel.slabNext 0 (s.kernel.cacheSlabsHead 0x2000) [] ∧
          (s.kernel.pmmAllocz pmmFrames 1).1 = 0 then some s.caches else none) =
      some [⟨0x2000, 512, []⟩] := by decide +kernel
  obtain ⟨s, hs, hif⟩ := Option.bind_eq_some_iff.mp heval
  split_ifs at hif with hlist
  have hcaches := Option.some.inj hif
  obtain ⟨U, Holds, hA, hfull, hF⟩ := bootKernel_complete oneFrameMap_ok (by decide +kernel)
    (by decide) (by decide +kernel)
  have hclean : SlabState.CleanRun pmmFrames 5 ⟨bootKernel oneFrameMap, []⟩
      [.create 0 512 ⟨false, true, false⟩] := ⟨trivial, fun _ _ => trivial⟩
  obtain ⟨F', view, hgood⟩ :=
    (SlabState.Good.none hF (fun _ => ⟨0, ∅, []⟩)).1.run_clean hA hclean hs
  have hci := hgood.cache 0 ⟨0x2000, 512, []⟩ (by rw [hcaches]; rfl)
  have hnil := List.map_eq_nil_iff.mp (hci.listed.unique hlist.1)
  refine ⟨s, hs, hcaches, hlist.1, hlist.2, ?_⟩
  rintro ⟨fuel, hfuel⟩
  refine hfuel (hci.alloc_diverges hA hfull rfl rfl (by simp [hnil]) (Or.inl ?_) fuel)
  exact (hfull.refused_iff hA hci.holds).mp hlist.2

end ApoptOS
