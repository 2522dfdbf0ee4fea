import ApoptOS.Memory.Dynamic.SlabRelease

namespace ApoptOS

open Framework

variable {ρ : Type} {A : PageFrames ρ} {U : Set Nat} {Holds : Mem → ρ → Set Nat → Prop}
  {k k' : Kernel ρ} {cache size max : Nat} {F frames : Set Nat}
  {slabs kept rest post : List SlabView} {v : SlabView} {live : List Nat} {prev fuel : Nat}

/-- What one call of `slab_cache_reap` or `slab_cache_destroy` gave back: only
frames of the cache, and only without live objects. -/
def FreedUnused (k k' : Kernel ρ) (own : Set Nat) (live : List Nat) : Prop :=
  ∃ freed, k'.calls = freed ++ k.calls ∧
    ∀ c ∈ freed, ∃ p, c = .free p 1 ∧ p / 4096 ∈ own ∧
      ∀ b ∈ live, b / 4096 ≠ p / 4096

theorem FreedUnused.refl (own : Set Nat) : FreedUnused k k own live :=
  ⟨[], rfl, by simp⟩

theorem FreedUnused.trans {k1 k2 : Kernel ρ} {own own' : Set Nat}
    (h1 : FreedUnused k k1 own live) (h2 : FreedUnused k1 k2 own' live) (hsub : own' ⊆ own) :
    FreedUnused k k2 own live := by
  obtain ⟨f1, he1, hf1⟩ := h1
  obtain ⟨f2, he2, hf2⟩ := h2
  refine ⟨f2 ++ f1, by rw [he2, he1, List.append_assoc], fun c hc => ?_⟩
  rcases List.mem_append.mp hc with hc | hc
  · obtain ⟨p, hcp, hown, hb⟩ := hf2 c hc
    exact ⟨p, hcp, hsub hown, hb⟩
  · exact hf1 c hc

/-- The frame of a slab with all its objects free holds no live object, nor
free objects of other slabs. -/
theorem Accounted.unused (ha : Accounted max (kept ++ v :: post) live)
    (hv : v.free.length = max) : ∀ b ∈ live, b / 4096 ≠ v.frame := by
  have ht := ha.total v (by simp)
  exact liveIn_eq_zero.mp (by omega)

/-- The frames about to be given back hold no live object, and no free object of a slab
that stays. -/
structure ReapClean (max : Nat) (slabs : List SlabView) (live : List Nat) : Prop where
  live : ∀ v ∈ slabs, v.free.length = max → ∀ b ∈ live, b / 4096 ≠ v.frame
  free : ∀ v ∈ slabs, v.free.length = max → ∀ w ∈ slabs, w.free.length ≠ max →
    ∀ b ∈ w.free, b / 4096 ≠ v.frame

/-- The slabs that stay on the list. -/
def reapedList (max : Nat) (slabs : List SlabView) : List SlabView :=
  slabs.filter (fun v => v.free.length ≠ max)

/-- The frames that are given back. -/
def reapedFrames (max : Nat) (slabs : List SlabView) : Set Nat :=
  {f | ∃ v ∈ slabs, v.free.length = max ∧ v.frame = f}

theorem mem_reapedList : v ∈ reapedList max slabs ↔ v ∈ slabs ∧ v.free.length ≠ max := by
  simp [reapedList]

theorem Accounted.clean (h : CacheState Holds k cache size max F frames slabs live)
    (ha : Accounted max slabs live) : ReapClean max slabs live := by
  refine ⟨fun v hv hlen => ?_, fun v hv hlen w hw hne b hb hbv => ?_⟩
  · have ht := ha.total v hv
    exact liveIn_eq_zero.mp (by omega)
  · have hbw := ha.home w hw b hb
    obtain ⟨pre, post, rfl⟩ := List.append_of_mem hv
    rcases Accounted.mem_middle hw with rfl | hw
    · exact hne hlen
    · exact h.inv.frame_ne w hw (hbw.symm.trans hbv)

theorem CacheState.slabsIn (h : CacheState Holds k cache size max F frames slabs live) :
    SlabsIn F k.mem cache (slabs.map SlabView.addr) := by
  refine ⟨h.inv.cacheAligned, h.cacheHeld, h.inv.slabList, fun t ht => ?_⟩
  obtain ⟨v, hv, rfl⟩ := List.mem_map.mp ht
  have hvf := h.inv.frameMem v hv
  rw [(h.inv.addr_bounds hv).2.2]
  refine ⟨?_, h.framesHeld hvf, fun he => h.inv.cacheApart (he ▸ hvf)⟩
  show (v.frame * 4096 + 4056) % 4096 = 4056
  omega

theorem CacheInv.whole_iff {m : Mem} (h : CacheInv m cache size max frames slabs live)
    (hv : v ∈ slabs) : WholeSlab m cache v.addr ↔ v.free.length = max := by
  rw [WholeSlab, h.count v hv, h.maxWord]

theorem CacheInv.filter_addr {m : Mem} (h : CacheInv m cache size max frames slabs live) :
    (slabs.map SlabView.addr).filter (fun t => ¬ WholeSlab m cache t) =
        (reapedList max slabs).map SlabView.addr ∧
      {f | ∃ t ∈ slabs.map SlabView.addr, WholeSlab m cache t ∧ t / 4096 = f} =
        reapedFrames max slabs := by
  constructor
  · rw [List.filter_map, reapedList]
    congr 1
    refine List.filter_congr (fun v hv => ?_)
    simp [h.whole_iff hv]
  · ext f
    simp only [List.mem_map, Set.mem_ofPred_eq, reapedFrames]
    constructor
    · rintro ⟨t, ⟨v, hv, rfl⟩, hw, hf⟩
      exact ⟨v, hv, (h.whole_iff hv).mp hw, (h.addr_bounds hv).2.2.symm.trans hf⟩
    · rintro ⟨v, hv, hw, hf⟩
      exact ⟨v.addr, ⟨v, hv, rfl⟩, (h.whole_iff hv).mpr hw, (h.addr_bounds hv).2.2.trans hf⟩

theorem CacheInv.not_reaped {m : Mem} (h : CacheInv m cache size max frames slabs live)
    (hv : v ∈ reapedList max slabs) : v.frame ∉ reapedFrames max slabs := by
  rintro ⟨w, hw, hlen, hwv⟩
  obtain ⟨hv, hne⟩ := mem_reapedList.mp hv
  have haddr : w.addr = v.addr := by rw [SlabView.addr, SlabView.addr, hwv]
  obtain rfl := List.inj_on_of_nodup_map h.slabList.nodup hw hv haddr
  exact hne hlen

/-- The cache without the slabs that were free as a whole. -/
theorem CacheInv.filter {m m' : Mem} (h : CacheInv m cache size max frames slabs live)
    (hclean : ReapClean max slabs live) (hU : frames ⊆ U)
    (hf : Filtering U m m' cache (slabs.map SlabView.addr)
      ((reapedList max slabs).map SlabView.addr) [] prev) :
    CacheInv m' cache size max (frames \ reapedFrames max slabs) (reapedList max slabs) live := by
  have hal := h.cacheAligned
  have hs := h.sizeBounds
  have hmem : ∀ {w}, w ∈ reapedList max slabs → w ∈ slabs :=
    fun hw => (mem_reapedList.mp hw).1
  have hfield : ∀ w ∈ reapedList max slabs, ∀ d, 8 ≤ d → d + 8 ≤ 40 →
      m'.load64 (w.addr + d) = m.load64 (w.addr + d) :=
    fun w hw d h1 h2 => hf.field (List.mem_map_of_mem (hmem hw)) ⟨h1, h2⟩
  have hslots : ∀ b, IsSlot size frames b → b / 4096 ∉ reapedFrames max slabs →
      IsSlot size (frames \ reapedFrames max slabs) b := by
    rintro b ⟨f, hff, j, rfl, hj⟩ hb
    have hdiv : (f * 4096 + size * j) / 4096 = f := by omega
    exact ⟨f, ⟨hff, hdiv ▸ hb⟩, j, rfl, hj⟩
  refine
    { cacheAligned := hal
      cacheBounds := h.cacheBounds
      cacheApart := fun hc => h.cacheApart hc.1
      frameBounds := fun f hf => h.frameBounds f hf.1
      sizeBounds := hs
      maxBound := h.maxBound
      sizeWord := ?_
      maxWord := hf.maxWord.trans h.maxWord
      slabList := by simpa using hf.listed
      frameMem := fun w hw => ⟨h.frameMem w (hmem hw), h.not_reaped hw⟩
      count := fun w hw => (hfield w hw 8 (by omega) (by omega)).trans (h.count w (hmem hw))
      home := fun w hw => (hfield w hw 16 (by omega) (by omega)).trans (h.home w (hmem hw))
      freeList := ?_
      slots := ?_
      nodup := ?_ }
  · rw [← h.sizeWord]
    refine Mem.load64_congr (fun x h1 h2 => hf.same x ?_ (by omega) (fun t ht => ?_))
    · have hxc : x / 4096 = cache / 4096 := by omega
      exact hxc ▸ hf.cacheFrame
    · obtain ⟨htm, -, htc⟩ := hf.slab t ht
      omega
  · intro w hw
    rw [hfield w hw 24 (by omega) (by omega)]
    refine (h.freeList w (hmem hw)).congr (fun b hb => ?_)
    apply Mem.load64_congr
    intro x h1 h2
    have hin := (h.slot_of_free (hmem hw) hb).inside h1 (by omega)
    refine hf.same x (hU hin.1) ?_ (fun t ht => ?_)
    · by_contra hcon
      have hxc : x / 4096 = cache / 4096 := by omega
      exact h.cacheApart (hxc ▸ hin.1)
    · obtain ⟨htm, -, -⟩ := hf.slab t ht
      omega
  · intro b hb
    rcases List.mem_append.mp hb with hbf | hbl
    · obtain ⟨w, hw, hbw⟩ := List.mem_flatMap.mp hbf
      refine hslots b (h.slot_of_free (hmem hw) hbw) ?_
      rintro ⟨v, hv, hlen, hvb⟩
      exact hclean.free v hv hlen w (hmem hw) (mem_reapedList.mp hw).2 b hbw hvb.symm
    · refine hslots b (h.slot_of_live hbl) ?_
      rintro ⟨v, hv, hlen, hvb⟩
      exact hclean.live v hv hlen b hbl hvb.symm
  · refine h.nodup.sublist (List.Sublist.append ?_ (List.Sublist.refl _))
    exact List.Sublist.flatMap List.filter_sublist _

/-- A reap of slabs in which nothing is live or free elsewhere. -/
theorem slabCacheReap_clean (hA : A.Lawful U Holds) {flags : SlabFlags}
    (h : CacheState Holds k cache size max F frames slabs live)
    (hclean : ReapClean max slabs live) (hok : slabCacheReap A fuel k cache flags = .ok k') :
    CacheState Holds k' cache size max (F \ reapedFrames max slabs)
        (frames \ reapedFrames max slabs) (reapedList max slabs) live ∧
      Effect k k' F (F \ reapedFrames max slabs) (ownFrames cache frames)
        (ownFrames cache (frames \ reapedFrames max slabs)) ∧
      FreedUnused k k' frames live := by
  obtain ⟨k1, prev, hrun, hf, hh, hcalls⟩ := slabCacheReap_filter flags hA h.holds h.slabsIn
  rw [hrun] at hok
  split_ifs at hok
  obtain rfl := Except.ok.inj hok
  obtain ⟨hlist, hframes⟩ := h.inv.filter_addr
  rw [hlist] at hf
  rw [hframes] at hh
  have hFU := hA.subset _ _ _ h.holds
  have hsub : reapedFrames max slabs ⊆ frames := by
    rintro f ⟨v, hv, -, rfl⟩
    exact h.inv.frameMem v hv
  have hcache : cache / 4096 ∉ reapedFrames max slabs := fun hc => h.inv.cacheApart (hsub hc)
  refine ⟨⟨hh, ⟨h.cacheHeld, hcache⟩, fun f hf => ⟨h.framesHeld hf.1, hf.2⟩,
    fun f hf => ?_,
    h.inv.filter hclean (h.framesHeld.trans hFU) hf⟩,
    ⟨fun x hx => ?_, fun x hx => ?_, ?_, ?_⟩, ?_⟩
  · rw [hcalls]
    exact List.mem_append_right _ (h.obtained f hf.1)
  · have hal := h.inv.cacheAligned
    refine hf.same x (hFU hx.1) ?_ (fun t ht => ?_)
    · by_contra hcon
      have hxc : x / 4096 = cache / 4096 := by omega
      exact hx.2 (hxc ▸ Set.mem_insert _ _)
    · obtain ⟨v, hv, rfl⟩ := List.mem_map.mp ht
      by_contra hcon
      have hxv : x / 4096 = v.frame := by
        unfold SlabView.addr at hcon
        omega
      exact hx.2 (Set.mem_insert_of_mem _ (hxv ▸ h.inv.frameMem v hv))
  · exact ⟨hx.1, fun hc => hx.2 (Set.mem_insert_of_mem _ (hsub hc))⟩
  · refine Set.disjoint_left.mpr (fun x hx hx' => hx'.2 ?_)
    exact Set.insert_subset_insert Set.sdiff_subset hx
  · rw [hcalls]
    exact List.suffix_append _ _
  · refine ⟨_, hcalls, fun c hc => ?_⟩
    simp only [List.mem_reverse, List.mem_map, List.mem_filter, decide_eq_true_eq] at hc
    obtain ⟨t, ⟨⟨v, hv, rfl⟩, hwhole⟩, rfl⟩ := hc
    have hlen := (h.inv.whole_iff hv).mp hwhole
    refine ⟨v.addr, rfl, ?_, fun b hb => ?_⟩
    · rw [(h.inv.addr_bounds hv).2.2]
      exact h.inv.frameMem v hv
    · rw [(h.inv.addr_bounds hv).2.2]
      exact hclean.live v hv hlen b hb

/-- With its objects accounted for, reaping gives back unused frames only, and
the accounts still hold afterwards. -/
theorem slabCacheReap_spec (hA : A.Lawful U Holds) {flags : SlabFlags}
    (h : CacheState Holds k cache size max F frames slabs live) (ha : Accounted max slabs live)
    (hok : slabCacheReap A fuel k cache flags = .ok k') :
    ∃ F' frames' slabs', CacheState Holds k' cache size max F' frames' slabs' live ∧
      Effect k k' F F' (ownFrames cache frames) (ownFrames cache frames') ∧
      Accounted max slabs' live ∧ FreedUnused k k' frames live := by
  obtain ⟨hst, heff, hfreed⟩ := slabCacheReap_clean hA h (ha.clean h) hok
  refine ⟨_, _, _, hst, heff, ⟨ha.maxPos, fun w hw => ?_, fun w hw => ?_⟩, hfreed⟩
  · exact ha.home w (mem_reapedList.mp hw).1
  · exact ha.total w (mem_reapedList.mp hw).1

/-- With its objects accounted for, a slab that is free as a whole starts its free list in its
own frame. -/
theorem Accounted.home_head (h : CacheState Holds k cache size max F frames slabs live)
    (ha : Accounted max slabs live) (hv : v ∈ slabs) (hlen : v.free.length = max) :
    k.mem.load64 (v.addr + 24) / 4096 = v.frame := by
  have hpos := ha.maxPos
  obtain ⟨b, tail, hfree⟩ : ∃ b tail, v.free = b :: tail :=
    List.exists_cons_of_length_pos (by omega)
  have hlist := h.inv.freeList v hv
  rw [hfree] at hlist
  have hhead : k.mem.load64 (v.addr + 24) = b := hlist.1
  rw [hhead]
  exact ha.home v hv b (by rw [hfree]; simp)

/-- A `slab_cache_destroy` that runs to completion gives back unused frames. -/
theorem slabCacheDestroy_spec (hA : A.Lawful U Holds) {flags : SlabFlags}
    (h : CacheState Holds k cache size max F frames slabs live) (ha : Accounted max slabs live)
    (hok : slabCacheDestroy A fuel k cache flags = .ok (true, k')) :
    FreedUnused k k' (ownFrames cache frames) live := by
  have hc0 : cache ≠ 0 := h.inv.cacheBounds.1
  have hFU := hA.subset _ _ _ h.holds
  rw [slabCacheDestroy, if_neg (fun hc => hc0 hc.1), if_neg hc0] at hok
  rcases hd : destroySlabs A cache flags fuel (k.setCacheSlabs cache (k.cacheSlabsHead cache)) with
    e | ⟨done, k1⟩
  · rw [hd] at hok
    simp at hok
  rw [hd] at hok
  cases done with
  | false => simp at hok
  | true =>
    have hk := (Prod.mk.inj (Except.ok.inj hok)).2
    have hin : ∀ t ∈ slabs.map SlabView.addr, t / 4096 ∈ F :=
      fun t ht => (h.slabsIn.slab t ht).2.1
    have hhome : ∀ t ∈ slabs.map SlabView.addr, WholeSlab k.mem cache t →
        k.mem.load64 (t + 24) / 4096 = t / 4096 := by
      intro t ht hw
      obtain ⟨v, hv, rfl⟩ := List.mem_map.mp ht
      rw [ha.home_head h hv ((h.inv.whole_iff hv).mp hw), (h.inv.addr_bounds hv).2.2]
    have hrel := Releasing.start (h.slabsIn.mono hFU)
    have hh := hA.cursor h.holds h.inv.cacheAligned (hFU h.cacheHeld) (k.cacheSlabsHead cache)
    have hwhole := hrel.whole_of_done hA hh hin hhome hd
    have hheads : (slabs.map SlabView.addr).map (fun t => k.mem.load64 (t + 24) / 4096) =
        (slabs.map SlabView.addr).map (· / 4096) :=
      List.map_congr_left (fun t ht => hhome t ht (hwhole t ht))
    obtain ⟨k2, hrun, hcalls⟩ := hrel.run flags hA hh hwhole
      (fun t ht => hhome t ht (hwhole t ht) ▸ hin t ht) (hheads ▸ hrel.frames_nodup)
    rw [hrun] at hd
    split_ifs at hd
    obtain ⟨-, rfl⟩ := Prod.mk.inj (Except.ok.inj hd)
    refine ⟨.free cache 1 :: (((slabs.map SlabView.addr).map
      (fun t => k.mem.load64 (t + 24))).map (FrameCall.free · 1)).reverse, ?_, fun c hcm => ?_⟩
    · rw [← hk]
      show FrameCall.free cache 1 :: k2.calls = _
      rw [hcalls]
      rfl
    · rcases List.mem_cons.mp hcm with rfl | hcm
      · have hs := h.inv.sizeBounds
        refine ⟨cache, rfl, Set.mem_insert _ _, fun b hb hbc => ?_⟩
        have hin := (h.inv.slot_of_live hb).inside (le_refl b) (by omega)
        exact h.inv.cacheApart (hbc ▸ hin.1)
      · simp only [List.mem_reverse, List.mem_map] at hcm
        obtain ⟨-, ⟨-, ⟨v, hv, rfl⟩, rfl⟩, rfl⟩ := hcm
        have hlen := (h.inv.whole_iff hv).mp (hwhole _ (List.mem_map_of_mem hv))
        refine ⟨_, rfl, ?_, ?_⟩
        · rw [ha.home_head h hv hlen]
          exact Set.mem_insert_of_mem _ (h.inv.frameMem v hv)
        · obtain ⟨pre, post, rfl⟩ := List.append_of_mem hv
          rw [ha.home_head h hv hlen]
          exact ha.unused hlen

end ApoptOS
