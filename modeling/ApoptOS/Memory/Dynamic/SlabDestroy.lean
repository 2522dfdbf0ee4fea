import ApoptOS.Memory.Dynamic.SlabGrowth

namespace ApoptOS

open Framework

variable {ρ : Type} {A : PageFrames ρ} {U F : Set Nat} {Holds : Mem → ρ → Set Nat → Prop}
  {k k' : Kernel ρ} {cache : Nat} {slabs : List Nat} {flags : SlabFlags}

/-- What a call of `slab_cache_destroy` that leads from `k` to `k'` may do. If every slab is
free as a whole, it gives back each slab's frame and the cache's frame once, and makes no other
call; otherwise it changes nothing but the cursor `cache->slabs`. -/
structure AllOrNothing (k k' : Kernel ρ) (cache : Nat) (slabs : List Nat) : Prop where
  all : (∀ t ∈ slabs, k.slabBufctlCount t = k.cacheBufctlCountMax cache) →
    ∃ ps : List Nat, k'.calls = (ps.map (FrameCall.free · 1)).reverse ++ k.calls ∧
      (ps.map (· / 4096)).Perm (slabs.map (· / 4096) ++ [cache / 4096])
  nothing : (∃ t ∈ slabs, k.slabBufctlCount t ≠ k.cacheBufctlCountMax cache) →
    k'.calls = k.calls ∧ k'.frames = k.frames ∧
      ∀ x, (x < cache + 32 ∨ cache + 40 ≤ x) → k'.mem x = k.mem x

/-- `slab_cache_destroy(cache, flags)` returns and is all-or-nothing. -/
def DestroysAllOrNothing (A : PageFrames ρ) (k : Kernel ρ) (cache : Nat) (flags : SlabFlags)
    (slabs : List Nat) : Prop :=
  ∃ done k', (∀ fuel, slabs.length < fuel →
    slabCacheDestroy A fuel k cache flags = .ok (done, k')) ∧ AllOrNothing k k' cache slabs

theorem slabCacheDestroy_eq (h : cache ≠ 0) (fuel : Nat) :
    slabCacheDestroy A fuel k cache flags =
      match destroySlabs A cache flags fuel (k.setCacheSlabs cache (k.cacheSlabsHead cache)) with
      | .error e => .error e
      | .ok (false, k) => .ok (false, k)
      | .ok (true, k) =>
        .ok (true, ({ k with mem := k.mem.memset cache 0 cacheSizeof } : Kernel ρ).pmmFree A cache
          1) :=
  (if_neg (fun hc => h hc.1)).trans (if_neg h)

section Walk

variable (hA : A.Lawful U Holds) (hF : Holds k.mem k.frames F) (h : SlabsIn F k.mem cache slabs)

include hA hF h

theorem SlabsIn.cache_ne_zero : cache ≠ 0 := by
  have hal := h.cacheAligned
  have hmanaged := (hA.managed _ (hA.subset _ _ _ hF h.cacheFrame)).1
  omega

theorem SlabsIn.releasing :
    Releasing U k.mem (k.setCacheSlabs cache (k.cacheSlabsHead cache)).mem cache slabs ∧
      Holds (k.setCacheSlabs cache (k.cacheSlabsHead cache)).mem
        (k.setCacheSlabs cache (k.cacheSlabsHead cache)).frames F := by
  have hU := h.mono (hA.subset _ _ _ hF)
  exact ⟨Releasing.start hU, hA.cursor hF hU.cacheAligned hU.cacheFrame _⟩

/-- The first slab decides when it is in use: the call returns at once. -/
theorem destroys_of_head_busy (hpanic : flags.panic = false)
    (hbusy : ∃ t rest, slabs = t :: rest ∧
      k.slabBufctlCount t ≠ k.cacheBufctlCountMax cache) :
    DestroysAllOrNothing A k cache flags slabs := by
  obtain ⟨t, rest, rfl, ht⟩ := hbusy
  have hrel := (h.releasing hA hF).1
  refine ⟨false, k.setCacheSlabs cache (k.cacheSlabsHead cache), fun fuel hfuel => ?_,
    fun hall => absurd (hall t (by simp)) ht,
    fun _ => ⟨rfl, rfl, fun x hx => Mem.store64_outside _ _ hx⟩⟩
  obtain ⟨n, rfl⟩ := Nat.exists_eq_add_of_lt hfuel
  rw [slabCacheDestroy_eq (h.cache_ne_zero hA hF), hrel.stop ht hpanic]

/-- All slabs are free as a whole, and their free lists start in the slabs' frames, one in
each. -/
theorem destroys_of_whole
    (hwhole : ∀ t ∈ slabs, k.slabBufctlCount t = k.cacheBufctlCountMax cache)
    (hheads : (slabs.map (fun t => k.slabFreelistHead t / 4096)).Perm (slabs.map (· / 4096))) :
    DestroysAllOrNothing A k cache flags slabs := by
  obtain ⟨hrel, hh⟩ := h.releasing hA hF
  have hin : ∀ t ∈ slabs, k.mem.load64 (t + 24) / 4096 ∈ F := by
    intro t ht
    have hmem : k.slabFreelistHead t / 4096 ∈ slabs.map (· / 4096) :=
      hheads.mem_iff.mp (List.mem_map.mpr ⟨t, ht, rfl⟩)
    obtain ⟨u, hu, he⟩ := List.mem_map.mp hmem
    exact he ▸ (h.slab u hu).2.1
  obtain ⟨k1, hrun, hcalls⟩ :=
    hrel.run flags hA hh hwhole hin (hheads.nodup_iff.mpr hrel.frames_nodup)
  refine ⟨true,
    ({ k1 with mem := k1.mem.memset cache 0 cacheSizeof } : Kernel ρ).pmmFree A cache 1,
    fun fuel hfuel => ?_, fun _ => ?_, ?_⟩
  · rw [slabCacheDestroy_eq (h.cache_ne_zero hA hF), hrun, if_pos hfuel]
  · refine ⟨slabs.map k.slabFreelistHead ++ [cache], ?_, ?_⟩
    · show FrameCall.free cache 1 :: k1.calls = _
      rw [hcalls]
      simp [Kernel.slabFreelistHead, Kernel.setCacheSlabs, Kernel.store64]
    · rw [List.map_append, List.map_map]
      exact hheads.append_right _
  · rintro ⟨t, ht, hne⟩
    exact absurd (hwhole t ht) hne

/-- If the call is all-or-nothing on slabs that are free as a whole, their free lists start in
the slabs' frames. -/
theorem DestroysAllOrNothing.heads (hd : DestroysAllOrNothing A k cache flags slabs)
    (hwhole : ∀ t ∈ slabs, k.slabBufctlCount t = k.cacheBufctlCountMax cache) :
    (slabs.map (fun t => k.slabFreelistHead t / 4096)).Perm (slabs.map (· / 4096)) := by
  obtain ⟨done, k', hrun, hall⟩ := hd
  obtain ⟨ps, hcalls, hperm⟩ := hall.all hwhole
  obtain ⟨hrel, hh⟩ := h.releasing hA hF
  have hin : ∀ p ∈ ps, p / 4096 ∈ F := by
    intro p hp
    have hmem := hperm.mem_iff.mp (List.mem_map.mpr ⟨p, hp, rfl⟩)
    rcases List.mem_append.mp hmem with hmem | hmem
    · obtain ⟨u, hu, he⟩ := List.mem_map.mp hmem
      exact he ▸ (h.slab u hu).2.1
    · exact List.mem_singleton.mp hmem ▸ h.cacheFrame
  have hnodup : (ps.map (· / 4096)).Nodup := by
    refine hperm.nodup_iff.mpr (List.nodup_append.mpr ⟨hrel.frames_nodup, by simp, ?_⟩)
    rintro f hf g hg rfl
    obtain ⟨u, hu, he⟩ := List.mem_map.mp hf
    exact (h.slab u hu).2.2 (he.trans (List.mem_singleton.mp hg))
  have hok := hrun (slabs.length + 1) (Nat.lt_succ_self _)
  rw [slabCacheDestroy_eq (h.cache_ne_zero hA hF)] at hok
  rcases hloop : destroySlabs A cache flags (slabs.length + 1)
    (k.setCacheSlabs cache (k.cacheSlabsHead cache)) with e | ⟨past, k1⟩
  · rw [hloop] at hok
    simp at hok
  rw [hloop] at hok
  cases past with
  | false =>
    obtain ⟨-, rfl⟩ := Prod.mk.inj (Except.ok.inj hok)
    have hfrees := hrel.frees hA hh hwhole hloop hcalls hin hnodup
    simp at hfrees
  | true =>
    obtain ⟨-, rfl⟩ := Prod.mk.inj (Except.ok.inj hok)
    -- the cache's frame comes last
    obtain ⟨ps1, hps1⟩ := destroySlabs_calls hloop
    have hps : ps = ps1 ++ [cache] := by
      have hlog : (ps.map (FrameCall.free · 1)).reverse ++ k.calls =
          ((ps1 ++ [cache]).map (FrameCall.free · 1)).reverse ++ k.calls := by
        rw [← hcalls]
        show FrameCall.free cache 1 :: k1.calls = _
        rw [hps1]
        simp [Kernel.setCacheSlabs, Kernel.store64]
      exact frees_injective hlog
    subst hps
    rw [List.map_append] at hperm hnodup
    obtain ⟨-, hheads⟩ := hrel.frees hA hh hwhole hloop hps1 (fun p hp => hin p (by simp [hp]))
      (List.nodup_append.mp hnodup).1
    rw [hheads, List.map_map] at hperm
    exact (List.perm_append_right_iff _).mp hperm

/-- With the first slab free as a whole the call gives at least one frame back. -/
theorem slabCacheDestroy_frees {fuel t : Nat} {rest : List Nat} {done : Bool}
    (hsl : slabs = t :: rest) (ht : k.slabBufctlCount t = k.cacheBufctlCountMax cache)
    (hok : slabCacheDestroy A fuel k cache flags = .ok (done, k')) :
    k.calls.length < k'.calls.length := by
  subst hsl
  rw [slabCacheDestroy_eq (h.cache_ne_zero hA hF)] at hok
  rcases hloop : destroySlabs A cache flags fuel
    (k.setCacheSlabs cache (k.cacheSlabsHead cache)) with e | ⟨past, k1⟩
  · rw [hloop] at hok
    simp at hok
  have hlt : k.calls.length < k1.calls.length := by
    cases fuel with
    | zero => simp [destroySlabs] at hloop
    | succ fuel =>
      rw [(h.releasing hA hF).1.free_eq ht] at hloop
      obtain ⟨ps, hps⟩ := destroySlabs_calls hloop
      rw [hps]
      simp only [Kernel.setCacheSlabs, Kernel.store64, Kernel.pmmFree, List.length_append,
        List.length_cons]
      omega
  rw [hloop] at hok
  cases past with
  | false =>
    obtain ⟨-, rfl⟩ := Prod.mk.inj (Except.ok.inj hok)
    exact hlt
  | true =>
    obtain ⟨-, rfl⟩ := Prod.mk.inj (Except.ok.inj hok)
    exact hlt.trans (Nat.lt_succ_self _)

end Walk

/-- For every cache with any list of slabs in distinct frames, with any counts and free lists,
and flags without `SLAB_PANIC`: `slab_cache_destroy` is all-or-nothing exactly if the first slab
is in use, or all slabs are free as a whole and their free lists start in the slabs' frames,
one in each. -/
theorem slab_destroy_all_or_nothing_iff (A : PageFrames ρ) (U : Set Nat)
    (Holds : Mem → ρ → Set Nat → Prop) (hA : A.Lawful U Holds) (k : Kernel ρ) (F : Set Nat)
    (hF : Holds k.mem k.frames F) (cache : Nat) (slabs : List Nat)
    (h : SlabsIn F k.mem cache slabs) (flags : SlabFlags) (hpanic : flags.panic = false) :
    DestroysAllOrNothing A k cache flags slabs ↔
      (∃ t rest, slabs = t :: rest ∧ k.slabBufctlCount t ≠ k.cacheBufctlCountMax cache) ∨
      (∀ t ∈ slabs, k.slabBufctlCount t = k.cacheBufctlCountMax cache) ∧
        (slabs.map (fun t => k.slabFreelistHead t / 4096)).Perm (slabs.map (· / 4096)) := by
  constructor
  · intro hd
    by_cases hwhole : ∀ t ∈ slabs, k.slabBufctlCount t = k.cacheBufctlCountMax cache
    · exact Or.inr ⟨hwhole, hd.heads hA hF h hwhole⟩
    · left
      cases slabs with
      | nil => simp at hwhole
      | cons t rest =>
        refine ⟨t, rest, rfl, fun ht => ?_⟩
        obtain ⟨done, k', hrun, hall⟩ := hd
        have hbusy : ∃ u ∈ t :: rest, k.slabBufctlCount u ≠ k.cacheBufctlCountMax cache := by
          simpa only [not_forall, exists_prop] using hwhole
        have hcalls := (hall.nothing hbusy).1
        -- the first slab is free as a whole, so a frame is given back before the busy one is met
        have hmore := slabCacheDestroy_frees hA hF h rfl ht (hrun _ (Nat.lt_succ_self _))
        rw [hcalls] at hmore
        exact lt_irrefl _ hmore
  · rintro (hbusy | ⟨hwhole, hheads⟩)
    · exact destroys_of_head_busy hA hF h hpanic hbusy
    · exact destroys_of_whole hA hF h hwhole hheads

def noFlags : SlabFlags := ⟨false, false, false⟩

/-- A new cache grown by one slab has `twoSlabs`. -/
theorem twoSlabs_run : ∃ U Holds s F frames, pmmFrames.Lawful U Holds ∧
    SlabState.run pmmFrames 5 ⟨bootKernel smallMap, []⟩
      [.create 0 512 noFlags, .grow 0 1 noFlags] = some s ∧
    s.caches = [⟨0x2000, 512, []⟩] ∧
    CacheState Holds s.kernel 0x2000 512 7 F frames twoSlabs [] := by
  have heval : (SlabState.run pmmFrames 5 ⟨bootKernel smallMap, []⟩
      [.create 0 512 noFlags, .grow 0 1 noFlags]).bind (fun s =>
        if Chain s.kernel.slabNext 0 (s.kernel.cacheSlabsHead 0x2000) [0x3fd8, 0x4fd8] ∧
          s.kernel.cacheBufctlCountMax 0x2000 = 7 ∧
          ∀ v ∈ twoSlabs, Chain s.kernel.bufctlNext 0 (s.kernel.slabFreelistHead v.addr) v.free
        then some s.caches else none) = some [⟨0x2000, 512, []⟩] := by decide +kernel
  obtain ⟨s, hs, hif⟩ := Option.bind_eq_some_iff.mp heval
  split_ifs at hif with hcond
  obtain ⟨hlist, hmax, hfree⟩ := hcond
  have hcaches := Option.some.inj hif
  obtain ⟨U, Holds, hA, hF⟩ := bootKernel_lawful smallMap_ok smallMap_frames_le (by decide)
  have hclean : SlabState.CleanRun pmmFrames 5 ⟨bootKernel smallMap, []⟩
      [.create 0 512 noFlags, .grow 0 1 noFlags] :=
        ⟨trivial, fun _ _ => ⟨trivial, fun _ _ => trivial⟩⟩
  obtain ⟨F, view, hgood⟩ :=
    (SlabState.Good.none hF (fun _ => ⟨0, ∅, []⟩)).1.run_clean hA hclean hs
  have hci := hgood.cache 0 ⟨0x2000, 512, []⟩ (by rw [hcaches]; rfl)
  have hmax' : (view 0).max = 7 := hci.maxWord.symm.trans hmax
  have hslabs : (view 0).slabs = twoSlabs := by
    have heach : ∀ v ∈ (view 0).slabs, ∀ u ∈ twoSlabs, v.addr = u.addr → v = u := by
      rintro ⟨f, free⟩ hv ⟨g, free'⟩ hu haddr
      have hfg : f = g := by
        simp only [SlabView.addr] at haddr
        omega
      subst hfg
      have hchain := hfree _ hu
      obtain rfl : free = free' := (hci.inv.freeList _ hv).unique hchain
      rfl
    obtain ⟨v, rest, heq, hv, hrest⟩ := List.map_eq_cons_iff.mp (hci.listed.unique hlist)
    obtain ⟨w, last, rfl, hw, hlast⟩ := List.map_eq_cons_iff.mp hrest
    rw [List.map_eq_nil_iff.mp hlast] at heq
    rw [heq] at heach ⊢
    rw [heach v (by simp) ⟨3, slotList 512 3 0 7⟩ (by simp [twoSlabs]) hv,
      heach w (by simp) ⟨4, slotList 512 4 0 7⟩ (by simp [twoSlabs]) hw, twoSlabs]
  rw [hmax', hslabs] at hci
  exact ⟨U, Holds, s, F, _, hA, hs, hcaches, hci⟩

/-- A new cache of two slabs. -/
theorem slab_destroy_all_or_nothing_iff_twoSlabs : ∃ s,
    SlabState.run pmmFrames 5 ⟨bootKernel smallMap, []⟩
      [.create 0 512 noFlags, .grow 0 1 noFlags] = some s ∧
    ListedSlabs s.kernel 0x2000 [0x3fd8, 0x4fd8] ∧
    DestroysAllOrNothing pmmFrames s.kernel 0x2000 noFlags [0x3fd8, 0x4fd8] := by
  obtain ⟨U, Holds, s, F, frames, hA, hs, -, hst⟩ := twoSlabs_run
  refine ⟨s, hs, hst.listed, ?_⟩
  refine (slab_destroy_all_or_nothing_iff pmmFrames U Holds hA s.kernel F hst.holds 0x2000
    [0x3fd8, 0x4fd8] hst.slabsIn noFlags rfl).mpr (Or.inr ⟨?_, ?_⟩)
  · intro t ht
    rw [hst.maxWord]
    obtain ⟨v, hv, rfl⟩ := List.mem_map.mp (show t ∈ twoSlabs.map SlabView.addr from ht)
    have hcount : s.kernel.slabBufctlCount v.addr = v.free.length := hst.inv.count v hv
    have hseven : ∀ v ∈ twoSlabs, v.free.length = 7 := by decide
    rw [hcount, hseven v hv]
  · have h3 : s.kernel.slabFreelistHead 0x3fd8 = 0x3000 :=
      (hst.inv.freeList ⟨3, slotList 512 3 0 7⟩ (by simp [twoSlabs])).1
    have h4 : s.kernel.slabFreelistHead 0x4fd8 = 0x4000 :=
      (hst.inv.freeList ⟨4, slotList 512 4 0 7⟩ (by simp [twoSlabs])).1
    rw [List.map_cons, List.map_cons, List.map_nil, h3, h4]
    exact List.Perm.refl [3, 4]

section Busy

variable {size max f fuel : Nat} {frames : Set Nat} {post : List SlabView} {free live : List Nat}

/-- All objects of the first slab are taken. -/
theorem run_allocs (flags : SlabFlags) (hA : A.Lawful U Holds) (hfuel : 1 ≤ fuel)
    (h : CacheState Holds k cache size max F frames (⟨f, free⟩ :: post) live) :
    ∃ m', SlabState.run A fuel ⟨k, [⟨cache, size, live⟩]⟩
        (List.replicate free.length (.alloc 0 flags)) =
          some ⟨{ k with mem := m' }, [⟨cache, size, free.reverse ++ live⟩]⟩ ∧
      CacheState Holds { k with mem := m' } cache size max F frames (⟨f, []⟩ :: post)
        (free.reverse ++ live) := by
  induction free generalizing k live with
  | nil => exact ⟨k.mem, rfl, h⟩
  | cons b free ih =>
    obtain ⟨m1, hok, h1, -⟩ := slabCacheAlloc_first flags hA h rfl hfuel
    have hb0 : b ≠ 0 := (h1.inv.slot_bounds (h1.inv.slot_of_live List.mem_cons_self)).1
    obtain ⟨m', hrun, h'⟩ := ih h1
    refine ⟨m', ?_, ?_⟩
    · rw [List.length_cons, List.replicate_succ, SlabState.run]
      simp only [SlabState.exec, List.getElem?_cons_zero, Option.bind_eq_bind, Option.bind_some,
        hok, if_neg hb0, List.set_cons_zero]
      rw [hrun, List.reverse_cons, List.append_assoc]
      rfl
    · rw [List.reverse_cons, List.append_assoc]
      exact h'

/-- Objects go back to the first slab while it has room. -/
theorem run_frees (flags : SlabFlags) (hA : A.Lawful U Holds) (hfuel : 1 ≤ fuel) {ps : List Nat}
    (hnodup : ps.Nodup) (hps : ∀ p ∈ ps, p ∈ live) (hroom : free.length + ps.length ≤ max)
    (h : CacheState Holds k cache size max F frames (⟨f, free⟩ :: post) live) :
    ∃ m', SlabState.run A fuel ⟨k, [⟨cache, size, live⟩]⟩ (ps.map (.free 0 · flags)) =
          some ⟨{ k with mem := m' }, [⟨cache, size, ps.foldl List.erase live⟩]⟩ ∧
      CacheState Holds { k with mem := m' } cache size max F frames
        (⟨f, ps.reverse ++ free⟩ :: post) (ps.foldl List.erase live) := by
  induction ps generalizing k live free with
  | nil => exact ⟨k.mem, rfl, h⟩
  | cons p ps ih =>
    obtain ⟨hp, hnodup'⟩ := List.nodup_cons.mp hnodup
    rw [List.length_cons] at hroom
    have hlive := hps p List.mem_cons_self
    have hlt : free.length < max := by omega
    obtain ⟨m1, hok, h1, -⟩ := slabCacheFree_first flags hA h hlive hlt hfuel
    have hrest : ∀ q ∈ ps, q ∈ live.erase p := by
      intro q hq
      have hne : q ≠ p := fun heq => hp (heq ▸ hq)
      exact (List.mem_erase_of_ne hne).mpr (hps q (List.mem_cons_of_mem p hq))
    obtain ⟨m', hrun, h'⟩ := ih hnodup' hrest (by simp only [List.length_cons]; omega) h1
    refine ⟨m', ?_, ?_⟩
    · rw [List.map_cons, SlabState.run]
      simp only [SlabState.exec, List.getElem?_cons_zero, Option.bind_eq_bind, Option.bind_some,
        if_pos hlive, hok, List.set_cons_zero]
      exact hrun
    · rw [List.reverse_cons, List.append_assoc]
      exact h'

end Busy

/-- Eight objects of a cache of two slabs are taken, then the seven of the first slab are given
back. -/
def busyOps : List SlabOp :=
  [.create 0 512 noFlags, .grow 0 1 noFlags] ++ List.replicate 8 (.alloc 0 noFlags) ++
    (List.range 7).map (fun j => .free 0 (0x3000 + 512 * j) noFlags)

/-- The slots of the first slab, as they are given back. -/
def firstSlots : List Nat := (List.range 7).map (fun j => 0x3000 + 512 * j)

/-- After that run the first slab is free as a whole and the second one has a live object. -/
theorem busyOps_run : ∃ U Holds s F frames, pmmFrames.Lawful U Holds ∧
    SlabState.run pmmFrames 5 ⟨bootKernel smallMap, []⟩ busyOps = some s ∧
    s.caches = [⟨0x2000, 512, [0x4000]⟩] ∧
    CacheState Holds s.kernel 0x2000 512 7 F frames
      [⟨3, firstSlots.reverse⟩, ⟨4, slotList 512 4 1 7⟩] [0x4000] := by
  obtain ⟨U, Holds, ⟨k, caches⟩, F, frames, hA, hs, rfl, hst⟩ := twoSlabs_run
  obtain ⟨m1, hrun1, h1⟩ := run_allocs noFlags hA (by decide : 1 ≤ 5) hst
  obtain ⟨m2, hok2, h2⟩ := slabCacheAlloc_second noFlags hA h1 rfl
    (show slotList 512 4 0 7 = 0x4000 :: slotList 512 4 1 7 by decide) (by decide : 2 ≤ 5)
  have hmem : ∀ p ∈ firstSlots, p ∈ 0x4000 :: ((slotList 512 3 0 7).reverse ++ []) := by
    decide
  obtain ⟨m3, hrun3, h3⟩ :=
    run_frees noFlags hA (by decide : 1 ≤ 5) (by decide : firstSlots.Nodup)
    hmem (by decide : 0 + firstSlots.length ≤ 7) h2
  have hlive : firstSlots.foldl List.erase (0x4000 :: ((slotList 512 3 0 7).reverse ++ [])) =
      [0x4000] := by decide
  rw [hlive] at hrun3 h3
  have hops : busyOps = [.create 0 512 noFlags, .grow 0 1 noFlags] ++
      (List.replicate (slotList 512 3 0 7).length (.alloc 0 noFlags) ++ (.alloc 0 noFlags ::
        firstSlots.map (.free 0 · noFlags))) := rfl
  refine ⟨U, Holds, ⟨{ k with mem := m3 }, [⟨0x2000, 512, [0x4000]⟩]⟩, F, frames, hA, ?_,
    rfl, h3⟩
  rw [hops, SlabState.run_append, hs, Option.bind_some, SlabState.run_append, hrun1,
    Option.bind_some, SlabState.run]
  simp only [SlabState.exec, List.getElem?_cons_zero, Option.bind_eq_bind, Option.bind_some, hok2,
    if_neg (by decide : ¬ 0x4000 = 0), List.set_cons_zero]
  exact hrun3

/-- The first slab is free as a whole, the second one has a live object: `slab_cache_destroy`
gives back the first slab's frame, leaves the slab on the list, and returns. -/
theorem slab_destroy_half_done : ∃ s k',
    SlabState.run pmmFrames 5 ⟨bootKernel smallMap, []⟩ busyOps = some s ∧
    s.caches = [⟨0x2000, 512, [0x4000]⟩] ∧ ListedSlabs s.kernel 0x2000 [0x3fd8, 0x4fd8] ∧
    slabCacheDestroy pmmFrames 5 s.kernel 0x2000 noFlags = .ok (false, k') ∧
    k'.calls = .free 0x3c00 1 :: s.kernel.calls ∧ ListedSlabs k' 0x2000 [0x3fd8, 0x4fd8] ∧
    ¬ DestroysAllOrNothing pmmFrames s.kernel 0x2000 noFlags [0x3fd8, 0x4fd8] := by
  obtain ⟨U, Holds, s, F, frames, hA, hs, hcaches, hst⟩ := busyOps_run
  have hslabs : SlabsIn F s.kernel.mem 0x2000 [0x3fd8, 0x4fd8] := hst.slabsIn
  have hwhole : WholeSlab s.kernel.mem 0x2000 0x3fd8 :=
    (hst.inv.count ⟨3, firstSlots.reverse⟩ (by simp)).trans hst.inv.maxWord.symm
  have hbusy : ¬ WholeSlab s.kernel.mem 0x2000 0x4fd8 := by
    intro heq
    have hsix := hst.inv.count ⟨4, slotList 512 4 1 7⟩ (by simp)
    exact absurd (hsix.symm.trans (heq.trans hst.inv.maxWord)) (by decide)
  have hhead : s.kernel.mem.load64 (0x3fd8 + 24) = 0x3c00 :=
    (hst.inv.freeList ⟨3, firstSlots.reverse⟩ (by simp)).1
  have hin : s.kernel.mem.load64 (0x3fd8 + 24) / 4096 ∈ F := by
    rw [hhead]
    exact (hslabs.slab 0x3fd8 (by simp)).2.1
  obtain ⟨hrel, hh⟩ := hslabs.releasing hA hst.holds
  obtain ⟨k1, hloop, hrel1, -, hcalls⟩ := hrel.free hA hh hwhole hin
  rw [hhead] at hcalls
  have hok : slabCacheDestroy pmmFrames 5 s.kernel 0x2000 noFlags = .ok (false, k1) := by
    rw [slabCacheDestroy_eq (by decide), hloop, hrel1.stop hbusy rfl]
  have hlist : ListedSlabs k1 0x2000 [0x3fd8, 0x4fd8] :=
    hrel1.keeps_list (hslabs.mono (hA.subset _ _ _ hst.holds))
  refine ⟨s, k1, hs, hcaches, hst.listed, hok, hcalls, hlist, ?_⟩
  rintro ⟨done, k2, hrun, hall⟩
  obtain ⟨-, rfl⟩ := Prod.mk.inj (Except.ok.inj (hok.symm.trans (hrun 5 (by decide))))
  have hlen :=
    congrArg List.length ((hall.nothing ⟨0x4fd8, by simp, hbusy⟩).1.symm.trans hcalls)
  rw [List.length_cons] at hlen
  exact absurd hlen (Nat.ne_of_lt (Nat.lt_succ_self _))

end ApoptOS
