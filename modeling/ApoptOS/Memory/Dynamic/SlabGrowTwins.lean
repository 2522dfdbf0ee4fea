import ApoptOS.Memory.Dynamic.SlabTwins

namespace ApoptOS

open Framework

variable {ρ : Type} {A : PageFrames ρ} {U : Set Nat} {Busy : Mem → ρ → Nat → Prop}
  {k k' : Kernel ρ} {cache size : Nat} {S B C : Set Nat} {flags : SlabFlags}
  {b f j p s v w : Nat}

/-- The slab structure as `slab_create_slab` fills it in, before it is linked. -/
def Kernel.blankSlab (k : Kernel ρ) (cache slab bufctl : Nat) : Kernel ρ :=
  let k := k.setSlabNext slab 0
  let k := k.setSlabBufctlCount slab (k.cacheBufctlCountMax cache)
  let k := k.setSlabBufctlAddr slab bufctl
  let k := k.setSlabFreelistHead slab 0
  k.setSlabFreelist slab 0

theorem slabCreateSlab_eq (hs : s = f * 4096 + 4056) (hf : f < 2 ^ 40) :
    slabCreateSlab k cache (f * 4096) =
      let k := k.blankSlab cache s (f * 4096)
      if k.cacheSlabs cache = 0 then (k.setCacheSlabsHead cache s).setCacheSlabs cache s
      else
        let k := k.setSlabNext (k.cacheSlabs cache) s
        k.setCacheSlabs cache (k.slabNext (k.cacheSlabs cache)) := by
  have hsa : sub64 (add64 (f * 4096) pageSize) slabSizeof = s := by
    unfold pageSize slabSizeof
    rw [add64_of_lt (by omega), sub64_of_le (by omega) (by omega)]
    omega
  simp only [slabCreateSlab, Kernel.blankSlab, hsa]
  rfl

/-- The cursors of a slab under construction: `cache->slabs` is at it, and its `freelist` at
one of the bufctls or nowhere. -/
def CursorsAt (k : Kernel ρ) (cache : Nat) (B : Set Nat) (s : Nat) : Prop :=
  k.cacheSlabs cache = s ∧ (k.slabFreelist s = 0 ∨ k.slabFreelist s ∈ B)

/-- Stores elsewhere leave the cursors. -/
theorem CursorsAt.store64 (h : CursorsAt k cache B s) (hlaid : Laid U Busy cache size S B k)
    (hs : s ∈ S) {a : Nat} (ha : IsPlace U cache size a) (hne : a ≠ cache + 32)
    (hne' : a ≠ s + 32) (v : Nat) : CursorsAt (k.store64 a v) cache B s := by
  have hcur : (k.store64 a v).cacheSlabs cache = k.cacheSlabs cache :=
    hlaid.load_other ha (hlaid.cachePlace (by decide) (by decide)) hne.symm v
  have htail : (k.store64 a v).slabFreelist s = k.slabFreelist s :=
    hlaid.load_other ha (hlaid.slabPlace hs (by decide) (by decide)) hne'.symm v
  rw [CursorsAt, hcur, htail]
  exact h

theorem CursorsAt.setSlabFreelist (hA : A.Oblivious U Busy) (hlaid : Laid U Busy cache size S B k)
    (hs : s ∈ S) (hc : k.cacheSlabs cache = s) (hv : v = 0 ∨ v ∈ B) :
    CursorsAt (k.setSlabFreelist s v) cache B s ∧ (k.setSlabFreelist s v).slabFreelist s = v := by
  obtain ⟨hmod, hf⟩ := hlaid.slabs s hs
  have hal := hlaid.aligned
  have hne := slabFrames_ne hf
  have hcur : (k.setSlabFreelist s v).cacheSlabs cache = k.cacheSlabs cache :=
    hlaid.load_other (hlaid.slabPlace hs (by decide) (by decide))
      (hlaid.cachePlace (by decide) (by decide)) (by omega) _
  have htail : (k.setSlabFreelist s v).slabFreelist s = v :=
    (Mem.load64_store64_same _ _ _).trans (hlaid.bufctl_lt hA hv)
  exact ⟨⟨hcur.trans hc, by rwa [htail]⟩, htail⟩

theorem blankSlab_twins (hA : A.Oblivious U Busy) (h : Twins U Busy cache size S B C k k')
    (hs : s ∈ S) (bufctl : Nat) :
    Twins U Busy cache size S B (C \ {s + 32}) (k.blankSlab cache s bufctl)
        (k'.blankSlab cache s bufctl) ∧
      (k.blankSlab cache s bufctl).cacheSlabs cache = k.cacheSlabs cache ∧
      (k.blankSlab cache s bufctl).slabFreelist s = 0 := by
  obtain ⟨hmod, hf⟩ := h.laid.slabs s hs
  have hal := h.laid.aligned
  have hsf := slabFrames_ne hf
  have h1 := h.setSlabNext hA hs (Or.inl rfl)
  have h2 := h1.setSlabBufctlCount hA hs ((k.setSlabNext s 0).cacheBufctlCountMax cache)
  have h3 := h2.setSlabBufctlAddr hA hs bufctl
  have h4 := h3.setSlabFreelistHead hA hs (Or.inl rfl)
  have h5 := h4.setSlabFreelist hA hs 0
  have hcur : ∀ {k : Kernel ρ} {d v : Nat}, Laid U Busy cache size S B k → d < 40 →
      d % 8 = 0 →
      (k.store64 (s + d) v).cacheSlabs cache = k.cacheSlabs cache := fun hl hd h8 =>
    hl.load_other (hl.slabPlace hs hd h8) (hl.cachePlace (by decide) (by decide)) (by omega) _
  have hmax : (k'.setSlabNext s 0).cacheBufctlCountMax cache =
      (k.setSlabNext s 0).cacheBufctlCountMax cache := h1.cacheBufctlCountMax
  refine ⟨?_, ?_, Mem.load64_store64_same _ _ _⟩
  · simp only [Kernel.blankSlab, hmax]
    exact h5
  · exact (hcur h4.laid (by decide) (by decide)).trans
      ((hcur h3.laid (by decide) (by decide)).trans
      ((hcur h2.laid (by decide) (by decide)).trans ((hcur h1.laid (by decide) (by decide)).trans
        (hcur (d := 0) h.laid (by decide) (by decide)))))

/-- `slab_create_slab` reads `cache->slabs`, which the callers have set, and sets both cursors
of the new slab. -/
theorem slabCreateSlab_twins (hA : A.Oblivious U Busy) (h : Twins U Busy cache size S B C k k')
    (hs : s = f * 4096 + 4056) (hsS : s ∈ S) (hC : cache + 32 ∉ C)
    (hc : k.cacheSlabs cache = 0 ∨ k.cacheSlabs cache ∈ S) :
    Twins U Busy cache size S B (C \ {s + 32}) (slabCreateSlab k cache (f * 4096))
        (slabCreateSlab k' cache (f * 4096)) ∧
      CursorsAt (slabCreateSlab k cache (f * 4096)) cache B s := by
  obtain ⟨hmod, hf⟩ := h.laid.slabs s hsS
  have hal := h.laid.aligned
  have hsf := slabFrames_ne hf
  have hlt : f < 2 ^ 40 := by
    have hb := (hA.managed _ hf.1).2
    omega
  have hsw := h.laid.slab_lt hA (Or.inr hsS)
  obtain ⟨h5, hcur, htail⟩ := blankSlab_twins hA h hsS (f * 4096)
  rw [slabCreateSlab_eq hs hlt, slabCreateSlab_eq hs hlt]
  obtain ⟨k5, hk5⟩ : ∃ k5, k5 = k.blankSlab cache s (f * 4096) := ⟨_, rfl⟩
  obtain ⟨k5', hk5'⟩ : ∃ k5', k5' = k'.blankSlab cache s (f * 4096) := ⟨_, rfl⟩
  rw [← hk5] at h5 hcur htail ⊢
  rw [← hk5'] at h5 ⊢
  have hC5 : cache + 32 ∉ C \ {s + 32} := fun hin => hC hin.1
  have hsub : (C \ {s + 32}) \ {cache + 32} ⊆ C \ {s + 32} := Set.sdiff_subset
  dsimp only
  rw [h5.cacheSlabs hC5]
  by_cases h0 : k5.cacheSlabs cache = 0
  · rw [if_pos h0, if_pos h0]
    have h6 := h5.setCacheSlabsHead hA (Or.inr hsS)
    have h7 := h6.setCacheSlabs hA s
    refine ⟨h7.mono hsub h5.within, ?_, Or.inl ?_⟩
    · exact (Mem.load64_store64_same _ _ _).trans hsw
    · have hlast : ((k5.setCacheSlabsHead cache s).setCacheSlabs cache s).slabFreelist s =
          (k5.setCacheSlabsHead cache s).slabFreelist s :=
        h6.laid.load_other (h6.laid.cachePlace (by decide) (by decide))
          (h6.laid.slabPlace hsS (by decide) (by decide)) (by omega) _
      have hfirst : (k5.setCacheSlabsHead cache s).slabFreelist s = k5.slabFreelist s :=
        h5.laid.load_other (h5.laid.cachePlace (by decide) (by decide))
          (h5.laid.slabPlace hsS (by decide) (by decide)) (by omega) _
      exact hlast.trans (hfirst.trans htail)
  · rw [if_neg h0, if_neg h0]
    have hcS : k5.cacheSlabs cache ∈ S := by
      rw [hcur] at h0 ⊢
      exact hc.resolve_left h0
    obtain ⟨hcm, hcf⟩ := h5.laid.slabs _ hcS
    have hcne := slabFrames_ne hcf
    have h6 := h5.setSlabNext hA hcS (Or.inr hsS)
    obtain ⟨c, hck⟩ : ∃ c, c = k5.cacheSlabs cache := ⟨_, rfl⟩
    rw [← hck] at hcS hcm hcne h6 ⊢
    have hc6 : (k5.setSlabNext c s).cacheSlabs cache = c := by
      rw [hck]
      exact h5.laid.load_other (hck ▸ h5.laid.slabPlace (d := 0) hcS (by decide) (by decide))
        (h5.laid.cachePlace (by decide) (by decide)) (by omega) _
    have hn6 : (k5.setSlabNext c s).slabNext c = s :=
      (Mem.load64_store64_same _ _ _).trans hsw
    have hc6' : (k5'.setSlabNext c s).cacheSlabs cache = c := (h6.cacheSlabs hC5).trans hc6
    have hn6' : (k5'.setSlabNext c s).slabNext c = s := (h6.slabNext hcS).trans hn6
    rw [hc6, hc6', hn6, hn6']
    have h7 := h6.setCacheSlabs hA s
    refine ⟨h7.mono hsub h5.within, ?_, Or.inl ?_⟩
    · exact (Mem.load64_store64_same _ _ _).trans hsw
    · have hlast : ((k5.setSlabNext c s).setCacheSlabs cache s).slabFreelist s =
          (k5.setSlabNext c s).slabFreelist s :=
        h6.laid.load_other (h6.laid.cachePlace (by decide) (by decide))
          (h6.laid.slabPlace hsS (by decide) (by decide)) (by omega) _
      have hfirst : (k5.setSlabNext c s).slabFreelist s = k5.slabFreelist s :=
        h5.laid.load_other (h5.laid.slabPlace (d := 0) hcS (by decide) (by decide))
          (h5.laid.slabPlace hsS (by decide) (by decide)) (by omega) _
      exact hlast.trans (hfirst.trans htail)

theorem CursorsAt.setBufctlIndex (h : CursorsAt k cache B s)
    (hlaid : Laid U Busy cache size S B k) (hs : s ∈ S) (hb : b ∈ B) (v : Nat) :
    CursorsAt (k.setBufctlIndex b v) cache B s := by
  have hslot := hlaid.bufctls b hb
  have hkeep : ∀ w, IsPlace U cache size w →
      (k.setBufctlIndex b v).mem.load64 w = k.mem.load64 w := fun w hw =>
    Mem.load64_store16_other _ _ (hw.apart_index hlaid.sizeBounds.1 hslot)
  have hcur : (k.setBufctlIndex b v).cacheSlabs cache = k.cacheSlabs cache :=
    hkeep _ (hlaid.cachePlace (by decide) (by decide))
  have htail : (k.setBufctlIndex b v).slabFreelist s = k.slabFreelist s :=
    hkeep _ (hlaid.slabPlace hs (by decide) (by decide))
  rw [CursorsAt, hcur, htail]
  exact h

/-- `slab_init_bufctls` works on the slab under the cursor and appends behind its `freelist`
cursor; both agree. -/
theorem slabInitBufctls_twins (hA : A.Oblivious U Busy)
    (h : Twins U Busy cache size S B C k k') (hs : s ∈ S)
    (hb : f * 4096 + size * j ∈ B) (hC : cache + 32 ∉ C) (hCs : s + 32 ∉ C)
    (hcur : CursorsAt k cache B s)
    (hmax : (f * 4096 + size * j) % 4096 = 0 → 0 < k.cacheBufctlCountMax cache) :
    Twins U Busy cache size S B C (slabInitBufctls k cache (f * 4096) j flags)
        (slabInitBufctls k' cache (f * 4096) j flags) ∧
      CursorsAt (slabInitBufctls k cache (f * 4096) j flags) cache B s := by
  obtain ⟨hmod, hsf⟩ := h.laid.slabs s hs
  have hal := h.laid.aligned
  have hsne := slabFrames_ne hsf
  have hslot := h.laid.bufctls _ hb
  have hadd : add64 (f * 4096) (size * j) = f * 4096 + size * j := by
    have ho := hslot.offset h.laid.sizeBounds.1
    have hlt := (hA.managed _ ho.1.1).2
    exact add64_of_lt (by omega)
  obtain ⟨b, hbe⟩ : ∃ b, b = f * 4096 + size * j := ⟨_, rfl⟩
  rw [← hbe] at hb hslot hadd hmax
  have ho := hslot.offset h.laid.sizeBounds.1
  have hbne := slabFrames_ne ho.1
  have h1 := h.setBufctlIndex hA hslot j
  have hcur1 := hcur.setBufctlIndex h.laid hs hb j
  have hmax1 : (k.setBufctlIndex b j).cacheBufctlCountMax cache = k.cacheBufctlCountMax cache :=
    Mem.load64_store16_other _ _ ((h.laid.cachePlace (by decide) (by decide)).apart_index
      h.laid.sizeBounds.1 hslot)
  simp only [slabInitBufctls, h.cacheSlabSize, h.laid.sizeWord, hadd]
  obtain ⟨k1, hk1⟩ : ∃ k1, k1 = k.setBufctlIndex b j := ⟨_, rfl⟩
  obtain ⟨k1', hk1'⟩ : ∃ k1', k1' = k'.setBufctlIndex b j := ⟨_, rfl⟩
  rw [← hk1] at h1 hcur1 hmax1 ⊢
  rw [← hk1'] at h1 ⊢
  have hcurs1' := (h1.cacheSlabs hC).trans hcur1.1
  have htail1' := h1.slabFreelist hs hCs
  have hcount1' := h1.slabBufctlCount hs
  rw [hcur1.1, hcurs1', htail1', hcount1']
  by_cases hskip : flags.noAlign ∧ b % 4096 = 0
  · rw [if_pos hskip, if_pos hskip]
    have h2 := h1.setSlabBufctlCount hA hs (sub64 (k1.slabBufctlCount s) 1)
    have hcur2 := hcur1.store64 h1.laid hs (h1.laid.slabPlace (d := 8) hs (by decide) (by decide))
      (by omega) (by omega) (sub64 (k1.slabBufctlCount s) 1)
    rw [h2.cacheBufctlCountMax]
    have hmax2 : (k1.setSlabBufctlCount s (sub64 (k1.slabBufctlCount s) 1)).cacheBufctlCountMax
        cache = k.cacheBufctlCountMax cache := by
      refine Eq.trans ?_ hmax1
      exact h1.laid.load_other (h1.laid.slabPlace hs (by decide) (by decide))
        (h1.laid.cachePlace (by decide) (by decide)) (by omega) _
    rw [hmax2]
    have hpos := hmax hskip.2
    have hsub : sub64 (k.cacheBufctlCountMax cache) 1 = k.cacheBufctlCountMax cache - 1 :=
      sub64_of_le (Mem.load64_lt _ _) hpos
    have hle : (k.cacheBufctlCountMax cache - 1) * size ≤ 4056 :=
      (Nat.mul_le_mul_right size (Nat.sub_le _ 1)).trans h.laid.maxWord
    rw [hsub]
    refine ⟨h2.setCacheBufctlCountMax hA hle, ?_⟩
    exact CursorsAt.store64 hcur2 h2.laid hs (h2.laid.cachePlace (by decide) (by decide))
      (by omega) (by omega) _
  rw [if_neg hskip, if_neg hskip]
  by_cases h0 : k1.slabFreelist s = 0
  · rw [if_pos h0, if_pos h0]
    have h2 := h1.setSlabFreelistHead hA hs (Or.inr hb)
    have hcur2 := hcur1.store64 h1.laid hs (h1.laid.slabPlace (d := 24) hs (by decide) (by decide))
      (by omega) (by omega) b
    have hcurs2 : (k1.setSlabFreelistHead s b).cacheSlabs cache = s := hcur2.1
    have hcurs2' : (k1'.setSlabFreelistHead s b).cacheSlabs cache = s :=
      (h2.cacheSlabs hC).trans hcurs2
    have h3 := (h2.setSlabFreelist hA hs b).mono Set.sdiff_subset h2.within
    rw [hcurs2, hcurs2']
    exact ⟨h3, (CursorsAt.setSlabFreelist hA h2.laid hs hcurs2 (Or.inr hb)).1⟩
  · rw [if_neg h0, if_neg h0]
    have htB := hcur1.2.resolve_left h0
    obtain ⟨t, ht⟩ : ∃ t, t = k1.slabFreelist s := ⟨_, rfl⟩
    rw [← ht] at htB ⊢
    have htslot := h1.laid.bufctls _ htB
    have hto := htslot.offset h1.laid.sizeBounds.1
    have htne := slabFrames_ne hto.1
    have hsize := h1.laid.sizeBounds.1
    have h2 := h1.setBufctlNext hA htslot (Or.inr hb)
    have hcur2 := hcur1.store64 h1.laid hs (Or.inr (Or.inr htslot)) (by omega) (by omega) b
    have hcurs2 : (k1.setBufctlNext t b).cacheSlabs cache = s := hcur2.1
    have hcurs2' : (k1'.setBufctlNext t b).cacheSlabs cache = s :=
      (h2.cacheSlabs hC).trans hcurs2
    have htail2 : (k1.setBufctlNext t b).slabFreelist s = t := by
      rw [ht]
      exact h1.laid.load_other (ht ▸ Or.inr (Or.inr htslot))
        (h1.laid.slabPlace hs (by decide) (by decide)) (by omega) _
    have htail2' : (k1'.setBufctlNext t b).slabFreelist s = t :=
      (h2.slabFreelist hs hCs).trans htail2
    have hnext2 : (k1.setBufctlNext t b).bufctlNext t = b :=
      (Mem.load64_store64_same _ _ _).trans (h.laid.bufctl_lt hA (Or.inr hb))
    have hnext2' : (k1'.setBufctlNext t b).bufctlNext t = b := (h2.bufctlNext htB).trans hnext2
    have h3 := (h2.setSlabFreelist hA hs b).mono Set.sdiff_subset h2.within
    rw [hcurs2, hcurs2', htail2, htail2', hnext2, hnext2']
    exact ⟨h3, (CursorsAt.setSlabFreelist hA h2.laid hs hcurs2 (Or.inr hb)).1⟩

/-- The inner loop of `slab_cache_grow`. Only slot 0 can be page-aligned, and then the capacity
is still the one the loop bound was read from. -/
theorem initBufctls_twins (flags : SlabFlags) (hA : A.Oblivious U Busy)
    (h : Twins U Busy cache size S B C k k')
    (hs : s ∈ S) (hslots : ∀ b, IsSlot size {f} b → b ∈ B) (hC : cache + 32 ∉ C)
    (hCs : s + 32 ∉ C) (hcur : CursorsAt k cache B s) (hj : j ≤ k.cacheBufctlCountMax cache) :
    Twins U Busy cache size S B C (initBufctls k cache (f * 4096) flags j)
        (initBufctls k' cache (f * 4096) flags j) ∧
      CursorsAt (initBufctls k cache (f * 4096) flags j) cache B s := by
  induction j with
  | zero => exact ⟨h, hcur⟩
  | succ j ih =>
    obtain ⟨hj', hcurj⟩ := ih (by omega)
    have hsize := h.laid.sizeBounds.1
    have hfit : size * j + size ≤ 4056 := by
      have hle := Nat.mul_le_mul_left size hj
      have hmax := h.laid.maxWord
      rw [Nat.mul_comm] at hmax
      rw [Nat.mul_succ] at hle
      omega
    have hb := hslots _ ⟨f, rfl, j, rfl, hfit⟩
    refine slabInitBufctls_twins hA hj' hs hb hC hCs hcurj (fun hal => ?_)
    have hzero : size * j = 0 := by omega
    obtain rfl : j = 0 := by
      rcases Nat.mul_eq_zero.mp hzero with h0 | h0
      · omega
      · exact h0
    exact hj

/-- A new slab in both kernels, from a frame that the request filled with zeros. -/
theorem growStep_twins (flags : SlabFlags) (hA : A.Oblivious U Busy)
    (h : Twins U Busy cache size S B C k k')
    (hs : s = f * 4096 + 4056) (hsS : s ∈ S) (hslots : ∀ b, IsSlot size {f} b → b ∈ B)
    (hC : cache + 32 ∉ C) (hc : k.cacheSlabs cache = 0 ∨ k.cacheSlabs cache ∈ S) :
    let k1 := slabCreateSlab (k.setBufctlNext (f * 4096) 0) cache (f * 4096)
    let k1' := slabCreateSlab (k'.setBufctlNext (f * 4096) 0) cache (f * 4096)
    let k2 := initBufctls k1 cache (f * 4096) flags (k1.cacheBufctlCountMax cache)
    let k2' := initBufctls k1' cache (f * 4096) flags (k1'.cacheBufctlCountMax cache)
    Twins U Busy cache size S B C k2 k2' ∧ k2.cacheSlabs cache = s := by
  intro k1 k1' k2 k2'
  have hsize := h.laid.sizeBounds
  have hfirst : IsSlot size {f} (f * 4096) := ⟨f, rfl, 0, by simp, by omega⟩
  have hslot := h.laid.bufctls _ (hslots _ hfirst)
  have ho := hslot.offset hsize.1
  have hne := slabFrames_ne ho.1
  have hal := h.laid.aligned
  have h0 := h.setBufctlNext hA hslot (Or.inl rfl)
  have hc0 : (k.setBufctlNext (f * 4096) 0).cacheSlabs cache = k.cacheSlabs cache :=
    h.laid.load_other (Or.inr (Or.inr hslot)) (h.laid.cachePlace (by decide) (by decide))
      (by omega) _
  obtain ⟨h1, hcur1⟩ := slabCreateSlab_twins hA h0 hs hsS hC (hc0 ▸ hc)
  have hmax : k1'.cacheBufctlCountMax cache = k1.cacheBufctlCountMax cache := h1.cacheBufctlCountMax
  obtain ⟨h2, hcur2⟩ := initBufctls_twins flags hA h1 hsS hslots (fun hin => hC hin.1)
    (fun hin => hin.2 rfl) hcur1 (le_refl _)
  have hk2' : k2' = initBufctls k1' cache (f * 4096) flags (k1.cacheBufctlCountMax cache) :=
    congrArg _ hmax
  rw [hk2']
  exact ⟨h2.mono Set.sdiff_subset h.within, hcur2.1⟩

/-- What is kept between operations: the layout, for some slabs and bufctls. -/
def Paired (U : Set Nat) (Busy : Mem → ρ → Nat → Prop) (cache size : Nat) (C : Set Nat)
    (k k' : Kernel ρ) : Prop :=
  ∃ S B, Twins U Busy cache size S B C k k'

theorem growSlabs_twins (hA : A.Oblivious U Busy) (flags : SlabFlags) {count : Nat}
    (h : Twins U Busy cache size S B C k k') (hC : cache + 32 ∉ C)
    (hc : k.cacheSlabs cache = 0 ∨ k.cacheSlabs cache ∈ S) :
    Both (Paired U Busy cache size C) (growSlabs A cache flags count k)
      (growSlabs A cache flags count k') := by
  induction count generalizing k k' S B with
  | zero => exact .ok ⟨S, B, h⟩
  | succ count ih =>
    obtain ⟨hpointer, ⟨h0, hrefused⟩ | ⟨f, hf, hfp, hadded⟩⟩ := h.pmmAllocz hA
    · have hname := hrefused.cacheName
      simp only [growSlabs, slabCreateBufctlBuffer, hpointer, h0, if_true, true_and, hname]
      by_cases hp : flags.panic = true
      · rw [if_pos hp, if_pos hp]
        exact .error _
      · rw [if_neg hp, if_neg hp]
        exact .ok ⟨S, B, hrefused⟩
    · have hf0 : f * 4096 ≠ 0 := by
        have hne := (hA.managed f hf.1).1
        omega
      have hcur : (k.pmmAllocz A 1).2.cacheSlabs cache = 0 ∨
          (k.pmmAllocz A 1).2.cacheSlabs cache ∈ insert (f * 4096 + 4056) S := by
        rw [h.laid.pmmAllocz_cacheSlabs hA]
        exact hc.imp_right (Set.mem_insert_of_mem _)
      obtain ⟨hstep, hcs⟩ := growStep_twins flags hA hadded rfl (Set.mem_insert _ _)
        (fun b hb => Or.inr hb) hC hcur
      simp only [growSlabs, slabCreateBufctlBuffer, hpointer, hfp, hf0, if_false, false_and]
      exact ih hstep (Or.inr (hcs ▸ Set.mem_insert _ _))

/-- Every operation starts with `cache->slabs = cache->slabs_head`. -/
theorem Twins.start (hA : A.Oblivious U Busy) (h : Twins U Busy cache size S B C k k') :
    Twins U Busy cache size S B (C \ {cache + 32})
        (k.setCacheSlabs cache (k.cacheSlabsHead cache))
        (k'.setCacheSlabs cache (k'.cacheSlabsHead cache)) ∧
      ((k.setCacheSlabs cache (k.cacheSlabsHead cache)).cacheSlabs cache = 0 ∨
        (k.setCacheSlabs cache (k.cacheSlabsHead cache)).cacheSlabs cache ∈ S) := by
  rw [h.cacheSlabsHead]
  refine ⟨h.setCacheSlabs hA _, ?_⟩
  rw [show (k.setCacheSlabs cache (k.cacheSlabsHead cache)).cacheSlabs cache =
    k.cacheSlabsHead cache from (Mem.load64_store64_same _ _ _).trans
      (h.laid.slab_lt hA h.laid.slabsHead)]
  exact h.laid.slabsHead

theorem Paired.mono {D : Set Nat} (h : Paired U Busy cache size C k k') (hCD : C ⊆ D)
    (hD : D ⊆ cursors U cache) : Paired U Busy cache size D k k' := by
  obtain ⟨S, B, h⟩ := h
  exact ⟨S, B, h.mono hCD hD⟩

theorem slabCacheGrow_twins (hA : A.Oblivious U Busy) (flags : SlabFlags) (count : Nat)
    (h : Twins U Busy cache size S B C k k') :
    Both (Paired U Busy cache size (C \ {cache + 32})) (slabCacheGrow A k cache count flags)
      (slabCacheGrow A k' cache count flags) := by
  have hcache := h.laid.cacheNe hA
  obtain ⟨hstart, hc⟩ := h.start hA
  simp only [slabCacheGrow, hcache, false_and, if_false]
  exact growSlabs_twins hA flags hstart (fun hin => hin.2 rfl) hc

end ApoptOS
