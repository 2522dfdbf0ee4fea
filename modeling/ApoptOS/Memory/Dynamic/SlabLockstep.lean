import ApoptOS.Memory.Dynamic.SlabGrowTwins

namespace ApoptOS

open Framework

variable {ρ : Type} {A : PageFrames ρ} {U : Set Nat} {Busy : Mem → ρ → Nat → Prop}
  {k k' : Kernel ρ} {cache size count fuel n : Nat} {S B C : Set Nat} {flags : SlabFlags}
  {p prev s v : Nat}

/-- Moving `cache->slabs` along keeps both kernels in step. -/
theorem Twins.moveCursor (hA : A.Oblivious U Busy) (h : Twins U Busy cache size S B C k k')
    (hv : v = 0 ∨ v ∈ S) :
    Twins U Busy cache size S B C (k.setCacheSlabs cache v) (k'.setCacheSlabs cache v) ∧
      ((k.setCacheSlabs cache v).cacheSlabs cache = 0 ∨
        (k.setCacheSlabs cache v).cacheSlabs cache ∈ S) := by
  have hcur : (k.setCacheSlabs cache v).cacheSlabs cache = v :=
    (Mem.load64_store64_same _ _ _).trans (h.laid.slab_lt hA hv)
  rw [hcur]
  exact ⟨(h.setCacheSlabs hA v).mono Set.sdiff_subset h.within, hv⟩

section Alloc

theorem allocFromSlabs_twins (hA : A.Oblivious U Busy) (flags : SlabFlags)
    (h : Twins U Busy cache size S B C k k') (hC : cache + 32 ∉ C)
    (hc : k.cacheSlabs cache = 0 ∨ k.cacheSlabs cache ∈ S) :
    Both (fun r r' => r'.1 = r.1 ∧ Paired U Busy cache size C r.2 r'.2)
      (allocFromSlabs A cache flags fuel k) (allocFromSlabs A cache flags fuel k') := by
  induction fuel generalizing k k' S B with
  | zero => exact .error _
  | succ fuel ih =>
    have hcur := h.cacheSlabs hC
    obtain ⟨s, hs⟩ : ∃ s, s = k.cacheSlabs cache := ⟨_, rfl⟩
    rw [← hs] at hc
    simp only [allocFromSlabs, hcur, ← hs, h.cacheName]
    rcases hc with h0 | hsS
    · simp only [h0, true_and, if_true]
      by_cases hgrow : flags.autoGrow = true
      · rw [if_pos hgrow, if_pos hgrow]
        have hboth := slabCacheGrow_twins hA flags 1 h
        rcases hg : slabCacheGrow A k cache 1 flags with e | k1
        · rw [hg] at hboth
          rw [hboth.of_error]
          exact .error e
        · rw [hg] at hboth
          obtain ⟨k1', hg', S', B', h1⟩ := hboth.of_ok
          rw [hg']
          obtain ⟨hstart, hhead⟩ := h1.start hA
          have hsub : (C \ {cache + 32}) \ {cache + 32} ⊆ C :=
            Set.sdiff_subset.trans Set.sdiff_subset
          exact ih (hstart.mono hsub h.within) hhead
      · rw [if_neg hgrow, if_neg hgrow]
        by_cases hp : flags.panic = true
        · rw [if_pos hp, if_pos hp]
          exact .error _
        · rw [if_neg hp, if_neg hp]
          exact .ok ⟨rfl, S, B, h⟩
    · have hs0 : s ≠ 0 := by
        have ht := (h.laid.slabs s hsS).1
        omega
      have hhead := h.slabFreelistHead hsS
      simp only [hs0, false_and, if_false, hhead]
      by_cases hfree : k.slabFreelistHead s ≠ 0
      · rw [if_pos hfree, if_pos hfree]
        have hbB := (h.laid.freelistHead hsS).resolve_left hfree
        have h1 := h.setSlabFreelistHead hA hsS (h.laid.bufctlNext hbB)
        have h2 := h1.setSlabBufctlCount hA hsS
          (sub64 ((k.setSlabFreelistHead s (k.bufctlNext (k.slabFreelistHead s))).slabBufctlCount
            s) 1)
        rw [h.bufctlNext hbB, h1.slabBufctlCount hsS]
        exact .ok ⟨rfl, S, B, h2⟩
      · rw [if_neg hfree, if_neg hfree, h.slabNext hsS]
        obtain ⟨hnext, hcn⟩ := h.moveCursor hA (h.laid.slabNext hsS)
        exact ih hnext hcn

theorem slabCacheAlloc_twins (hA : A.Oblivious U Busy) (flags : SlabFlags) (fuel : Nat)
    (h : Twins U Busy cache size S B C k k') :
    Both (fun r r' => r'.1 = r.1 ∧ Paired U Busy cache size C r.2 r'.2)
      (slabCacheAlloc A fuel k cache flags) (slabCacheAlloc A fuel k' cache flags) := by
  have hcache := h.laid.cacheNe hA
  obtain ⟨hstart, hc⟩ := h.start hA
  simp only [slabCacheAlloc, hcache, false_and, if_false]
  refine (allocFromSlabs_twins hA flags hstart (fun hin => hin.2 rfl) hc).mono ?_
  exact fun r r' hr => ⟨hr.1, hr.2.mono Set.sdiff_subset h.within⟩

end Alloc

section Free

theorem freeToSlabs_twins (hA : A.Oblivious U Busy) (flags : SlabFlags)
    (h : Twins U Busy cache size S B C k k') (hC : cache + 32 ∉ C)
    (hc : k.cacheSlabs cache = 0 ∨ k.cacheSlabs cache ∈ S)
    (hp : IsSlot size (slabFrames U cache) p) :
    Both (Paired U Busy cache size C) (freeToSlabs cache p flags fuel k)
      (freeToSlabs cache p flags fuel k') := by
  induction fuel generalizing k k' with
  | zero => exact .error _
  | succ fuel ih =>
    have hcur := h.cacheSlabs hC
    obtain ⟨s, hs⟩ : ∃ s, s = k.cacheSlabs cache := ⟨_, rfl⟩
    rw [← hs] at hc
    simp only [freeToSlabs, hcur, ← hs, h.cacheName, h.cacheBufctlCountMax]
    rcases hc with h0 | hsS
    · simp only [h0, true_and, if_true]
      by_cases hpanic : flags.panic = true
      · rw [if_pos hpanic, if_pos hpanic]
        exact .error _
      · rw [if_neg hpanic, if_neg hpanic]
        exact .ok ⟨S, B, h⟩
    · have hs0 : s ≠ 0 := by
        have ht := (h.laid.slabs s hsS).1
        omega
      simp only [hs0, false_and, if_false, h.slabBufctlCount hsS]
      by_cases hroom : k.slabBufctlCount s < k.cacheBufctlCountMax cache
      · rw [if_pos hroom, if_pos hroom, h.slabFreelistHead hsS]
        -- the link is stored first, and from then on the object is a bufctl like any other
        have hhead := h.laid.freelistHead hsS
        have h1 := h.setBufctlNext hA hp hhead
        have hlink : (k.setBufctlNext p (k.slabFreelistHead s)).bufctlNext p =
            k.slabFreelistHead s :=
              (Mem.load64_store64_same _ _ _).trans (h.laid.bufctl_lt hA hhead)
        have h2 := h1.addBufctl hp
          (by rw [hlink]; exact hhead.imp_right (Set.mem_insert_of_mem _))
        have h3 := h2.setBufctlIndex hA hp
          (sub64 p ((k.setBufctlNext p (k.slabFreelistHead s)).slabBufctlAddr s) /
            (k.setBufctlNext p (k.slabFreelistHead s)).cacheSlabSize cache)
        rw [h2.slabBufctlAddr hsS, h2.cacheSlabSize]
        have h4 := h3.setSlabFreelistHead hA hsS (Or.inr (Set.mem_insert _ _))
        rw [h4.slabBufctlCount hsS]
        exact .ok ⟨S, insert p B, h4.setSlabBufctlCount hA hsS _⟩
      · rw [if_neg hroom, if_neg hroom, h.slabNext hsS]
        obtain ⟨hnext, hcn⟩ := h.moveCursor hA (h.laid.slabNext hsS)
        exact ih hnext hcn

theorem slabCacheFree_twins (hA : A.Oblivious U Busy) (flags : SlabFlags) (fuel : Nat)
    (h : Twins U Busy cache size S B C k k') (hp : IsSlot size (slabFrames U cache) p) :
    Both (Paired U Busy cache size C) (slabCacheFree fuel k cache p flags)
      (slabCacheFree fuel k' cache p flags) := by
  have hcache := h.laid.cacheNe hA
  obtain ⟨hstart, hc⟩ := h.start hA
  simp only [slabCacheFree, hcache, false_and, if_false]
  refine (freeToSlabs_twins hA flags hstart (fun hin => hin.2 rfl) hc hp).mono ?_
  exact fun r r' hr => hr.mono Set.sdiff_subset h.within

end Free

section Reap

/-- The loop of `slab_cache_reap` follows `prev->next`, never the cursor of an earlier run. -/
theorem reapSlabs_twins (hA : A.Oblivious U Busy) (h : Twins U Busy cache size S B C k k')
    (hC : cache + 32 ∉ C) (hc : k.cacheSlabs cache = 0 ∨ k.cacheSlabs cache ∈ S)
    (hprev : k.cacheSlabs cache = 0 ∨ prev ∈ S) :
    Both (Paired U Busy cache size C) (reapSlabs A cache fuel prev k)
      (reapSlabs A cache fuel prev k') := by
  induction fuel generalizing k k' prev with
  | zero => exact .error _
  | succ fuel ih =>
    have hcur := h.cacheSlabs hC
    obtain ⟨s, hs⟩ : ∃ s, s = k.cacheSlabs cache := ⟨_, rfl⟩
    rw [← hs] at hc hprev
    simp only [reapSlabs, hcur, ← hs, h.cacheBufctlCountMax, h.cacheSlabsHead]
    rcases hc with h0 | hsS
    · rw [if_pos h0, if_pos h0]
      exact .ok ⟨S, B, h⟩
    · have hs0 : s ≠ 0 := by
        have ht := (h.laid.slabs s hsS).1
        omega
      have hpS := hprev.resolve_left hs0
      rw [if_neg hs0, if_neg hs0, h.slabBufctlCount hsS]
      by_cases hfull : k.slabBufctlCount s = k.cacheBufctlCountMax cache
      · rw [if_pos hfull, if_pos hfull, h.slabNext hsS]
        obtain ⟨k1, hk1⟩ : ∃ k1, k1 = if s = k.cacheSlabsHead cache then
          k.setCacheSlabsHead cache (k.slabNext s) else k := ⟨_, rfl⟩
        obtain ⟨k1', hk1'⟩ : ∃ k1', k1' = if s = k.cacheSlabsHead cache then
          k'.setCacheSlabsHead cache (k.slabNext s) else k' := ⟨_, rfl⟩
        have h1 : Twins U Busy cache size S B C k1 k1' := by
          rw [hk1, hk1']
          split_ifs
          · exact h.setCacheSlabsHead hA (h.laid.slabNext hsS)
          · exact h
        rw [← hk1, ← hk1', h1.slabNext hsS]
        have h2 := h1.setSlabNext hA hpS (h1.laid.slabNext hsS)
        have h3 := h2.pmmFree hA (Or.inr (h2.laid.slabs s hsS).2)
        rw [h3.slabNext hpS]
        obtain ⟨h4, hc4⟩ := h3.moveCursor hA (h3.laid.slabNext hpS)
        exact ih h4 hc4 (Or.inr hpS)
      · rw [if_neg hfull, if_neg hfull, h.slabNext hsS]
        obtain ⟨hnext, hcn⟩ := h.moveCursor hA (h.laid.slabNext hsS)
        exact ih hnext hcn (Or.inr hsS)

theorem slabCacheReap_twins (hA : A.Oblivious U Busy) (flags : SlabFlags) (fuel : Nat)
    (h : Twins U Busy cache size S B C k k') :
    Both (Paired U Busy cache size C) (slabCacheReap A fuel k cache flags)
      (slabCacheReap A fuel k' cache flags) := by
  have hcache := h.laid.cacheNe hA
  have hal := h.laid.aligned
  obtain ⟨hstart, hc⟩ := h.start hA
  have hhead : (k.setCacheSlabs cache (k.cacheSlabsHead cache)).cacheSlabsHead cache =
      (k.setCacheSlabs cache (k.cacheSlabsHead cache)).cacheSlabs cache := by
    have hcur : (k.setCacheSlabs cache (k.cacheSlabsHead cache)).cacheSlabs cache =
        k.cacheSlabsHead cache :=
      (Mem.load64_store64_same _ _ _).trans (h.laid.slab_lt hA h.laid.slabsHead)
    rw [hcur]
    exact h.laid.load_other (h.laid.cachePlace (by decide) (by decide))
      (h.laid.cachePlace (by decide) (by decide)) (by omega) _
  simp only [slabCacheReap, hcache, false_and, if_false, hstart.cacheSlabsHead, hhead]
  refine (reapSlabs_twins hA hstart (fun hin => hin.2 rfl) hc hc).mono ?_
  exact fun r r' hr => hr.mono Set.sdiff_subset h.within

end Reap

section Destroy

theorem destroySlabs_twins (fuel : Nat) (hA : A.Oblivious U Busy) (flags : SlabFlags)
    (h : Twins U Busy cache size S B C k k') (hC : cache + 32 ∉ C)
    (hc : k.cacheSlabs cache = 0 ∨ k.cacheSlabs cache ∈ S) :
    Both (fun r r' => r'.1 = r.1 ∧ Paired U Busy cache size C r.2 r'.2)
      (destroySlabs A cache flags fuel k) (destroySlabs A cache flags fuel k') := by
  induction fuel generalizing k k' with
  | zero => exact .error _
  | succ fuel ih =>
    have hcur := h.cacheSlabs hC
    obtain ⟨s, hs⟩ : ∃ s, s = k.cacheSlabs cache := ⟨_, rfl⟩
    rw [← hs] at hc
    simp only [destroySlabs, hcur, ← hs, h.cacheBufctlCountMax, h.cacheName]
    rcases hc with h0 | hsS
    · rw [if_pos h0, if_pos h0]
      exact .ok ⟨rfl, S, B, h⟩
    · have hs0 : s ≠ 0 := by
        have ht := (h.laid.slabs s hsS).1
        omega
      rw [if_neg hs0, if_neg hs0, h.slabBufctlCount hsS]
      by_cases hpanic : k.slabBufctlCount s ≠ k.cacheBufctlCountMax cache ∧ flags.panic
      · rw [if_pos hpanic, if_pos hpanic]
        exact .error _
      rw [if_neg hpanic, if_neg hpanic]
      by_cases huse : k.slabBufctlCount s ≠ k.cacheBufctlCountMax cache
      · rw [if_pos huse, if_pos huse]
        exact .ok ⟨rfl, S, B, h⟩
      rw [if_neg huse, if_neg huse, h.slabFreelistHead hsS]
      have hp : k.slabFreelistHead s = 0 ∨ k.slabFreelistHead s / 4096 ∈ slabFrames U cache :=
        (h.laid.freelistHead hsS).imp_right
          (fun hb => ((h.laid.bufctls _ hb).offset h.laid.sizeBounds.1).1)
      have h1 := h.pmmFree hA hp
      have hc1 : (k.pmmFree A (k.slabFreelistHead s) 1).cacheSlabs cache = s :=
        (h.laid.pmmFree_word hA hp (h.laid.cachePlace (by decide) (by decide))).trans hs.symm
      rw [hc1, (h1.cacheSlabs hC).trans hc1, h1.slabNext hsS]
      obtain ⟨hnext, hcn⟩ := h1.moveCursor hA (h1.laid.slabNext hsS)
      exact ih hnext hcn

/-- When the cache goes, nothing is left to be laid out; the two memories still differ in the
same words at most. -/
theorem slabCacheDestroy_twins (hA : A.Oblivious U Busy) (flags : SlabFlags) (fuel : Nat)
    (h : Twins U Busy cache size S B C k k') :
    Both (fun r r' => r'.1 = r.1 ∧ Twin C r.2 r'.2 ∧
        (r.1 = false → Paired U Busy cache size C r.2 r'.2))
      (slabCacheDestroy A fuel k cache flags) (slabCacheDestroy A fuel k' cache flags) := by
  have hcache := h.laid.cacheNe hA
  have hal := h.laid.aligned
  obtain ⟨hstart, hc⟩ := h.start hA
  simp only [slabCacheDestroy, hcache, false_and, if_false]
  have hboth := destroySlabs_twins fuel hA flags hstart (fun hin => hin.2 rfl) hc
  rcases hd : destroySlabs A cache flags fuel (k.setCacheSlabs cache (k.cacheSlabsHead cache)) with
    e | ⟨done, k1⟩
  · rw [hd] at hboth
    rw [hboth.of_error]
    exact .error e
  · rw [hd] at hboth
    obtain ⟨⟨done', k1'⟩, hd', rfl, S', B', h1⟩ := hboth.of_ok
    have h1 := h1.mono Set.sdiff_subset h.within
    rw [hd']
    cases done' with
    | false => exact .ok ⟨rfl, h1.twin, fun _ => ⟨S', B', h1⟩⟩
    | true =>
      have hU := hA.subset _ _ _ h1.laid.busy
      have hbusy : Busy (k1.mem.memset cache 0 cacheSizeof) k1.frames (cache / 4096) := by
        refine hA.client_writes _ _ _ _ h1.laid.busy (fun x hx => Mem.memset_outside _ ?_)
        by_contra hin
        unfold cacheSizeof at hin
        exact hx (mem_frameBytes.mpr (by rwa [show x / 4096 = cache / 4096 by omega]))
      have h2 := (h1.twin.memset cache 0 cacheSizeof).pmmFree hA hbusy
        (h1.wordBytes_managed hA) (Or.inr hU)
      exact .ok ⟨rfl, h2, fun hf => absurd hf (by simp)⟩

end Destroy

section Dump

/-- The inner loop of `slab_cache_dump` prints the same lines, and writes the `freelist`
cursor of its slab only. -/
theorem dumpBufctls_twins (fuel n : Nat) (hA : A.Oblivious U Busy)
    (h : Twins U Busy cache size S B C k k')
    (hs : s ∈ S) (hC : cache + 32 ∉ C) (hCs : s + 32 ∉ C) (hcur : CursorsAt k cache B s) :
    Both (fun r r' => r'.1 = r.1 ∧ Twins U Busy cache size S B C r.2 r'.2 ∧
        r.2.cacheSlabs cache = s ∧ Twin (cursors U cache) k r.2)
      (dumpBufctls cache fuel n k) (dumpBufctls cache fuel n k') := by
  induction fuel generalizing k k' n with
  | zero => exact .error _
  | succ fuel ih =>
    obtain ⟨hmod, hf⟩ := h.laid.slabs s hs
    have hal := h.laid.aligned
    have hne := slabFrames_ne hf
    obtain ⟨b, hb⟩ : ∃ b, b = k.slabFreelist s := ⟨_, rfl⟩
    have hbB := hcur.2
    rw [← hb] at hbB
    simp only [dumpBufctls, hcur.1, (h.cacheSlabs hC).trans hcur.1,
      (h.slabFreelist hs hCs).trans hb.symm, ← hb]
    rcases hbB with h0 | hbB
    · rw [if_pos h0, if_pos h0]
      exact .ok ⟨rfl, h, hcur.1, Twin.refl _ _⟩
    · have hb0 : b ≠ 0 := by
        have ho := (h.laid.bufctls b hbB).offset h.laid.sizeBounds.1
        have hpos := (hA.managed _ ho.1.1).1
        omega
      have hnext := h.laid.bufctlNext hbB
      have h1 := (h.setSlabFreelist hA hs (k.bufctlNext b)).mono Set.sdiff_subset h.within
      obtain ⟨hcur1, -⟩ := CursorsAt.setSlabFreelist hA h.laid hs hcur.1 hnext
      have hwrite : Twin (cursors U cache) k (k.setSlabFreelist s (k.bufctlNext b)) :=
        (Twin.refl _ k).store64_right _ (Or.inr ⟨by omega,
          by rwa [show (s + 32) / 4096 = s / 4096 by omega]⟩)
      have hboth := ih (n + 1) h1 hcur1
      rw [if_neg hb0, if_neg hb0, h.bufctlNext hbB]
      simp only [Kernel.bufctlPointer, h.bufctlIndex hbB, h.slabBufctlAddr hs, h.cacheSlabSize]
      rcases hd : dumpBufctls cache fuel (n + 1) (k.setSlabFreelist s (k.bufctlNext b)) with
        e | ⟨lines, k2⟩
      · rw [hd] at hboth
        rw [hboth.of_error]
        exact .error e
      · rw [hd] at hboth
        obtain ⟨⟨lines', k2'⟩, hd', rfl, h2, hcs, htw⟩ := hboth.of_ok
        rw [hd']
        exact .ok ⟨rfl, h2, hcs, hwrite.trans htw⟩

theorem dumpSlabs_twins (fuel n : Nat) (hA : A.Oblivious U Busy)
    (h : Twins U Busy cache size S B C k k')
    (hC : cache + 32 ∉ C) (hc : k.cacheSlabs cache = 0 ∨ k.cacheSlabs cache ∈ S) :
    Both (fun r r' => r'.1 = r.1 ∧ Paired U Busy cache size C r.2 r'.2 ∧
        Twin (cursors U cache) k r.2)
      (dumpSlabs cache fuel n k) (dumpSlabs cache fuel n k') := by
  induction fuel generalizing k k' n with
  | zero => exact .error _
  | succ fuel ih =>
    have hcur := h.cacheSlabs hC
    obtain ⟨s, hs⟩ : ∃ s, s = k.cacheSlabs cache := ⟨_, rfl⟩
    rw [← hs] at hc
    simp only [dumpSlabs, hcur, ← hs]
    rcases hc with h0 | hsS
    · rw [if_pos h0, if_pos h0]
      exact .ok ⟨rfl, ⟨S, B, h⟩, Twin.refl _ _⟩
    · obtain ⟨hmod, hf⟩ := h.laid.slabs s hsS
      have hal := h.laid.aligned
      have hne := slabFrames_ne hf
      have hhead := h.laid.freelistHead hsS
      have h1 := h.setSlabFreelist hA hsS (k.slabFreelistHead s)
      obtain ⟨hcur1, -⟩ := CursorsAt.setSlabFreelist hA h.laid hsS hs.symm hhead
      have hwrite : Twin (cursors U cache) k (k.setSlabFreelist s (k.slabFreelistHead s)) :=
        (Twin.refl _ k).store64_right _ (Or.inr ⟨by omega,
          by rwa [show (s + 32) / 4096 = s / 4096 by omega]⟩)
      have hinner := dumpBufctls_twins fuel 0 hA h1 hsS (fun hin => hC hin.1)
        (fun hin => hin.2 rfl) hcur1
      rw [if_neg (show ¬ s = 0 by omega), if_neg (show ¬ s = 0 by omega), h.slabFreelistHead hsS]
      rcases hd : dumpBufctls cache fuel 0 (k.setSlabFreelist s (k.slabFreelistHead s)) with
        e | ⟨bufctls, k2⟩
      · rw [hd] at hinner
        rw [hinner.of_error]
        exact .error e
      rw [hd] at hinner
      obtain ⟨⟨bufctls', k2'⟩, hd', rfl, h2, hcs, htw⟩ := hinner.of_ok
      have h2 := h2.mono Set.sdiff_subset h.within
      rw [hd']
      obtain ⟨h3, hc3⟩ := h2.moveCursor hA (h2.laid.slabNext hsS)
      have hboth := ih (n + 1) h3 hc3
      have hmove : Twin (cursors U cache) k2 (k2.setCacheSlabs cache (k2.slabNext s)) :=
        (Twin.refl _ k2).store64_right _ (Or.inl rfl)
      simp only [hcs, (h2.cacheSlabs hC).trans hcs, h2.slabNext hsS]
      rcases hd3 : dumpSlabs cache fuel (n + 1) (k2.setCacheSlabs cache (k2.slabNext s)) with
        e | ⟨slabs, k4⟩
      · rw [hd3] at hboth
        rw [hboth.of_error]
        exact .error e
      · rw [hd3] at hboth
        obtain ⟨⟨slabs', k4'⟩, hd3', rfl, h4, htw4⟩ := hboth.of_ok
        rw [hd3']
        exact .ok ⟨rfl, h4, hwrite.trans (htw.trans (hmove.trans htw4))⟩

/-- A dump prints the same in both kernels and leaves everything but the cursors as it was. -/
theorem slabCacheDump_twins (hA : A.Oblivious U Busy) (flags : SlabFlags) (fuel : Nat)
    (h : Twins U Busy cache size S B C k k') :
    Both (fun r r' => r'.1 = r.1 ∧ Paired U Busy cache size C r.2 r'.2 ∧
        Twin (cursors U cache) k r.2)
      (slabCacheDump fuel k cache flags) (slabCacheDump fuel k' cache flags) := by
  obtain ⟨hstart, hc⟩ := h.start hA
  have hwrite : Twin (cursors U cache) k (k.setCacheSlabs cache (k.cacheSlabsHead cache)) :=
    (Twin.refl _ k).store64_right _ (Or.inl rfl)
  have hnot : cache + 32 ∉ C \ {cache + 32} := fun hin => hin.2 rfl
  have hboth := dumpSlabs_twins fuel 0 hA hstart hnot hc
  simp only [slabCacheDump, hstart.cacheSlabs hnot, hstart.cacheName]
  obtain ⟨k1, hk1⟩ : ∃ k1, k1 = k.setCacheSlabs cache (k.cacheSlabsHead cache) := ⟨_, rfl⟩
  obtain ⟨k1', hk1'⟩ : ∃ k1', k1' = k'.setCacheSlabs cache (k'.cacheSlabsHead cache) :=
    ⟨_, rfl⟩
  rw [← hk1] at hstart hwrite hboth ⊢
  rw [← hk1'] at hstart hboth ⊢
  have h1 := hstart.mono Set.sdiff_subset h.within
  by_cases hpanic : k1.cacheSlabs cache = 0 ∧ flags.panic = true
  · rw [if_pos hpanic, if_pos hpanic]
    exact .error _
  rw [if_neg hpanic, if_neg hpanic]
  by_cases h0 : k1.cacheSlabs cache = 0
  · rw [if_pos h0, if_pos h0]
    exact .ok ⟨rfl, ⟨S, B, h1⟩, hwrite⟩
  rw [if_neg h0, if_neg h0]
  rcases hd : dumpSlabs cache fuel 0 k1 with e | ⟨lines, k2⟩
  · rw [hd] at hboth
    rw [hboth.of_error]
    exact .error e
  · rw [hd] at hboth
    obtain ⟨⟨lines', k2'⟩, hd', rfl, h2, htw⟩ := hboth.of_ok
    rw [hd']
    exact .ok ⟨rfl, h2.mono Set.sdiff_subset h.within, hwrite.trans htw⟩

end Dump

end ApoptOS
