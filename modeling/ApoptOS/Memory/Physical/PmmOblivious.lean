import ApoptOS.Memory.KernelTwins
import ApoptOS.Memory.Physical.PmmInit

namespace ApoptOS

open Framework

/-- `PmmInv` without the account of who holds which frame: frame `c` is in use, and a clear
bit is a managed frame or that of the null page, which `pmm_free(NULL, 1)` clears. -/
structure PmmBusy (m : Mem) (pmm : Pmm) (base : Nat) (U : Set Nat) (c : Nat) : Prop where
  stored : pmm.bitmap.StoredAt base
  baseAligned : base % 4096 = 0
  baseLow : 4096 ≤ base
  sizeAligned : pmm.bitmap.size % 4096 = 0
  sizeLe : 8 * pmm.bitmap.size ≤ 2 ^ 31
  topLe : pageToBit pmm.highestPageTop ≤ 8 * pmm.bitmap.size
  managed : ∀ f ∈ U, f ≠ 0 ∧ f < pageToBit pmm.highestPageTop ∧
    (f < base / 4096 ∨ (base + pmm.bitmap.size) / 4096 ≤ f)
  busy : c ∈ U ∧ usedBit m base c = true
  clear : ∀ f < 8 * pmm.bitmap.size, usedBit m base f = false → f = 0 ∨ f ∈ U

variable {m m' : Mem} {pmm : Pmm} {base c p i : Nat} {U F D : Set Nat}

theorem PmmInv.busy (h : PmmInv m pmm base U F) (hbase : 4096 ≤ base) (hc : c ∈ F) :
    PmmBusy m pmm base U c := by
  refine ⟨h.stored, h.baseAligned, hbase, h.sizeAligned, h.sizeLe, h.topLe, h.managed,
    ⟨h.held hc, ?_⟩, fun f hf hclear => Or.inr (h.clear f hf hclear).1⟩
  by_contra hused
  have hlt := (h.managed c (h.held hc)).2.1
  have htop := h.topLe
  exact (h.clear c (by omega) (by simpa using hused)).2 hc

namespace PmmBusy

theorem bitmap_unmanaged (h : PmmBusy m pmm base U c) {x : Nat} (hb : base ≤ x)
    (hx : x < base + pmm.bitmap.size) : x ∉ frameBytes U := by
  intro hu
  have ha := h.baseAligned
  have hs := h.sizeAligned
  have hf := (h.managed _ hu).2.2
  omega

/-- Writes outside the bitmap. -/
theorem congr (h : PmmBusy m pmm base U c)
    (hm : ∀ x, base ≤ x → x < base + pmm.bitmap.size → m' x = m x) :
    PmmBusy m' pmm base U c := by
  have hbits := PmmInv.bits_congr m m' pmm base hm
  have hlt := (h.managed c h.busy.1).2.1
  have htop := h.topLe
  refine { h with
    busy := ⟨h.busy.1, (hbits c (by omega)).trans h.busy.2⟩
    clear := fun f hf hclear => h.clear f hf ((hbits f hf).symm.trans hclear) }

/-- The allocator's view of memory: bytes outside the managed frames. -/
theorem same_bitmap (h : PmmBusy m pmm base U c) (hD : D ⊆ frameBytes U)
    (hm : Mem.SameOn Dᶜ m m') {x : Nat} (hb : base ≤ x) (hx : x < base + pmm.bitmap.size) :
    m' x = m x :=
  hm x (fun hxD => h.bitmap_unmanaged hb hx (hD hxD))

theorem byte_inside (h : PmmBusy m pmm base U c) (hi : i < 8 * pmm.bitmap.size) :
    bitmapByte pmm.bitmap (toInt i) = base + i / 8 ∧ base + i / 8 < base + pmm.bitmap.size := by
  have hs := h.sizeLe
  exact ⟨bitmapByte_eq h.stored (by omega), by omega⟩

/-- One bit of the bitmap: it is read, set and cleared the same in both memories. -/
theorem bit_same (h : PmmBusy m pmm base U c) (hD : D ⊆ frameBytes U)
    (hm : Mem.SameOn Dᶜ m m') (hi : i < 8 * pmm.bitmap.size) :
    bitmapCheckBit m' pmm.bitmap (toInt i) = bitmapCheckBit m pmm.bitmap (toInt i) ∧
      Mem.SameOn Dᶜ (setBits m pmm.bitmap i 1) (setBits m' pmm.bitmap i 1) ∧
      Mem.SameOn Dᶜ (unsetBits m pmm.bitmap i 1) (unsetBits m' pmm.bitmap i 1) := by
  obtain ⟨hbyte, hlt⟩ := h.byte_inside hi
  have hsame := h.same_bitmap hD hm (x := base + i / 8) (by omega) hlt
  have hset : ∀ b, Mem.SameOn Dᶜ (m.set (base + i / 8) b) (m'.set (base + i / 8) b) := by
    intro b x hx
    by_cases he : x = base + i / 8
    · rw [he, Mem.set_same, Mem.set_same]
    · rw [Mem.set_other _ _ he, Mem.set_other _ _ he]
      exact hm x hx
  simp only [bitmapCheckBit, setBits, unsetBits, bitmapSetBit, bitmapUnsetBit, Nat.add_zero, hbyte,
    hsame]
  exact ⟨trivial, hset _, hset _⟩

theorem find_same (h : PmmBusy m pmm base U c) (hD : D ⊆ frameBytes U)
    (hm : Mem.SameOn Dᶜ m m') (remaining : Nat)
    (hr : remaining ≤ pageToBit pmm.highestPageTop) :
    findFreePageRange m' pmm 1 remaining = findFreePageRange m pmm 1 remaining := by
  induction remaining with
  | zero => rfl
  | succ r ih =>
    have htop := h.topLe
    have hpage : pageToBit (1 - (0 + 1)) = 0 := rfl
    have hbit := (h.bit_same hD hm
      (i := pageToBit pmm.highestPageTop - (r + 1)) (by omega)).1
    simp only [findFreePageRange, pageRangeFree, hpage, Nat.add_zero, hbit, ih (by omega)]

/-- `pmm_alloc(1)` changes nothing, or sets the bit of a managed frame that was free. -/
theorem alloc_cases (h : PmmBusy m pmm base U c) :
    pmmAlloc 1 m pmm = (0, m, pmm) ∨
    ∃ i ∈ U, i ≠ c ∧ pmmAlloc 1 m pmm = (i * 4096, setBits m pmm.bitmap i 1,
      { pmm with usedPagesCount := add64 pmm.usedPagesCount 1 }) := by
  have htop := h.topLe
  have hsize := h.sizeLe
  unfold pmmAlloc
  by_cases hused : pmm.usedPagesCount ≤ 0
  · exact Or.inl (if_pos hused)
  rw [if_neg hused]
  rcases pmmFindFirstFreePageRange_spec m pmm (show 0 < 1 by decide) with
    ⟨hnone, -⟩ | ⟨i, hi, hfind⟩
  · exact Or.inl (by rw [hnone, if_pos rfl])
  have hlt := hi.1
  have hpage : bitToPage i = i * 4096 := by
    unfold bitToPage pageSize
    omega
  have hindex : pageToBit (i * 4096) = i := by
    unfold pageToBit pageSize
    omega
  have hbit : usedBit m base i = false := by
    have hprobe := hi.2.1 0 (by decide)
    rwa [show pageToBit 0 = 0 from rfl, Nat.add_zero,
      bitmapCheckBit_eq h.stored (by omega)] at hprobe
  rw [hfind, hpage]
  rcases h.clear i (by omega) hbit with rfl | hiU
  · exact Or.inl (if_pos rfl)
  · have hi0 := (h.managed i hiU).1
    refine Or.inr ⟨i, hiU, ?_, ?_⟩
    · rintro rfl
      exact absurd h.busy.2 (by simp [hbit])
    · rw [if_neg (show ¬ i * 4096 = 0 by omega)]
      simp only [hindex, hpage]

/-- `pmm_alloc(1)` finds the same frame in both memories. -/
theorem alloc_same (h : PmmBusy m pmm base U c) (hD : D ⊆ frameBytes U)
    (hm : Mem.SameOn Dᶜ m m') :
    (pmmAlloc 1 m' pmm).1 = (pmmAlloc 1 m pmm).1 ∧
      (pmmAlloc 1 m' pmm).2.2 = (pmmAlloc 1 m pmm).2.2 ∧
      Mem.SameOn Dᶜ (pmmAlloc 1 m pmm).2.1 (pmmAlloc 1 m' pmm).2.1 := by
  have htop := h.topLe
  have hfind : pmmFindFirstFreePageRange m' pmm 1 = pmmFindFirstFreePageRange m pmm 1 :=
    h.find_same hD hm _ (le_refl _)
  by_cases hused : pmm.usedPagesCount ≤ 0
  · simp only [pmmAlloc, hused, if_true]
    exact ⟨trivial, trivial, hm⟩
  by_cases h0 : pmmFindFirstFreePageRange m pmm 1 = 0
  · simp only [pmmAlloc, hused, if_false, hfind, h0, if_true]
    exact ⟨trivial, trivial, hm⟩
  simp only [pmmAlloc, hused, if_false, hfind, h0, true_and]
  have hle : pageToBit (pmmFindFirstFreePageRange m pmm 1) < 8 * pmm.bitmap.size := by
    rcases pmmFindFirstFreePageRange_spec m pmm (show 0 < 1 by decide) with
      ⟨hnone, -⟩ | ⟨i, hi, hfound⟩
    · exact absurd hnone h0
    · have hlt := hi.1
      have hle : pageToBit (bitToPage i) ≤ i := by
        unfold pageToBit bitToPage pageSize
        omega
      rw [hfound]
      omega
  exact (h.bit_same hD hm hle).2.1

theorem set_bit (h : PmmBusy m pmm base U c) (hi : i ∈ U) (used : Nat) :
    PmmBusy (setBits m pmm.bitmap i 1) { pmm with usedPagesCount := used } base U c := by
  have hlt := (h.managed i hi).2.1
  have htop := h.topLe
  have hsize := h.sizeLe
  have hbits := fun f => setBits_used (m := m) h.stored i 1 f (by omega)
  refine { h with
    busy := ⟨h.busy.1, ?_⟩
    clear := fun f hf hclear => h.clear f hf ?_ }
  · rw [hbits, h.busy.2, Bool.true_or]
  · rw [hbits, Bool.or_eq_false_iff] at hclear
    exact hclear.1

theorem unset_bit (h : PmmBusy m pmm base U c) (hi : i = 0 ∨ i ∈ U) (hne : i ≠ c)
    (used : Nat) :
    PmmBusy (unsetBits m pmm.bitmap i 1) { pmm with usedPagesCount := used } base U c := by
  have htop := h.topLe
  have hsize := h.sizeLe
  have hlt : i < 2 ^ 31 := by
    rcases hi with rfl | hi
    · decide
    · have hlt := (h.managed i hi).2.1
      omega
  have hbits := fun f => unsetBits_used (m := m) h.stored i 1 f (by omega)
  refine { h with
    busy := ⟨h.busy.1, ?_⟩
    clear := fun f hf hclear => ?_ }
  · rw [hbits, h.busy.2, Bool.true_and, Bool.not_eq_true', decide_eq_false_iff_not]
    omega
  · rw [hbits, Bool.and_eq_false_iff] at hclear
    rcases hclear with hold | hin
    · exact h.clear f hf hold
    · have hfi : f = i := by
        rw [Bool.not_eq_false', decide_eq_true_eq] at hin
        omega
      exact hfi ▸ hi

/-- Setting or clearing a covered bit leaves the managed frames alone. -/
theorem bits_sameOn (h : PmmBusy m pmm base U c) (hi : i < 8 * pmm.bitmap.size) :
    Mem.SameOn (frameBytes U) m (setBits m pmm.bitmap i 1) ∧
      Mem.SameOn (frameBytes U) m (unsetBits m pmm.bitmap i 1) := by
  have hout : ∀ x ∈ frameBytes U, x < base ∨ base + pmm.bitmap.size ≤ x := by
    intro x hx
    by_contra hin
    exact h.bitmap_unmanaged (by omega) (by omega) hx
  exact ⟨fun x hx => (bits_frame h.stored i 1 _ x (by omega) h.sizeLe (hout x hx)).1,
    fun x hx => (bits_frame h.stored i 1 _ x (by omega) h.sizeLe (hout x hx)).2⟩

end PmmBusy

/-- The bitmap allocator never reads or keeps anything in the frames it manages. -/
theorem pmmFrames_oblivious (base : Nat) (U : Set Nat) (hU : ∀ f ∈ U, f ≠ 0 ∧ f < 2 ^ 40) :
    pmmFrames.Oblivious U (fun m pmm c => PmmBusy m pmm base U c) where
  managed := hU
  subset := fun _ _ _ h => h.busy.1
  client_writes := fun m m' pmm c h hm =>
    h.congr (fun x hb hx => hm x (h.bitmap_unmanaged hb hx))
  allocz_one := by
    intro m pmm c h
    have hlow := h.baseLow
    have hlen : pageSize * 1 % 2 ^ 64 = 4096 := rfl
    show PmmBusy (pmmAllocz 1 m pmm).2.1 (pmmAllocz 1 m pmm).2.2 base U c ∧ _
    rcases h.alloc_cases with hnone | ⟨i, hi, hic, hsome⟩
    · have heq : pmmAllocz 1 m pmm = (0, m.memset 0 0 4096, pmm) := by
        simp only [pmmAllocz, hnone, hlen]
      simp only [pmmFrames, heq]
      refine ⟨h.congr (fun x hb _ => Mem.memset_outside m (by omega)),
        Or.inl ⟨trivial, fun x hx => Mem.memset_outside m ?_⟩⟩
      have hx0 := (hU _ (mem_frameBytes.mp hx)).1
      omega
    · have heq :
          pmmAllocz 1 m pmm = (i * 4096, (setBits m pmm.bitmap i 1).memset (i * 4096) 0 4096,
          { pmm with usedPagesCount := add64 pmm.usedPagesCount 1 }) := by
        simp only [pmmAllocz, hsome, hlen]
      have hlt := (h.managed i hi).2.1
      have htop := h.topLe
      simp only [pmmFrames, heq]
      refine ⟨(h.set_bit hi _).congr (fun x hb hx => Mem.memset_outside _ ?_),
        Or.inr ⟨i, hi, hic, rfl, fun x hx => ?_, fun x hx => ?_⟩⟩
      · by_contra hin
        refine h.bitmap_unmanaged hb hx (mem_frameBytes.mpr ?_)
        rwa [show x / 4096 = i by omega]
      · obtain ⟨hxU, hxi⟩ := mem_frameBytes.mp hx
        rw [Mem.memset_outside _ (by rw [Set.mem_singleton_iff] at hxi; omega)]
        exact (h.bits_sameOn (by omega)).1 x hxU
      · rw [Mem.memset_inside _ (by omega) (by omega)]
  free_one := by
    intro m pmm c p h hp
    have htop := h.topLe
    have hc := (h.managed c h.busy.1).2.1
    have hi : p / 4096 = 0 ∨ p / 4096 ∈ U := hp.imp (fun h0 => by rw [h0]) id
    have hlt : p / 4096 < 8 * pmm.bitmap.size := by
      rcases hi with h0 | hi
      · omega
      · have hlt := (h.managed _ hi).2.1
        omega
    exact ⟨(h.bits_sameOn hlt).2, fun hne => h.unset_bit hi hne _⟩
  allocz_same := by
    intro m m' pmm c D h hD hm
    obtain ⟨hpointer, hpmm, hmem⟩ := h.alloc_same hD hm
    refine ⟨hpointer, hpmm, fun x hx => ?_⟩
    show (pmmAlloc 1 m' pmm).2.1.memset (pmmAlloc 1 m' pmm).1 0 _ x =
      (pmmAlloc 1 m pmm).2.1.memset (pmmAlloc 1 m pmm).1 0 _ x
    simp only [Mem.memset, hpointer, hmem x hx]
  free_same := by
    intro m m' pmm c p D h hp hD hm
    have htop := h.topLe
    have hc := (h.managed c h.busy.1).2.1
    refine ⟨rfl, (h.bit_same hD hm ?_).2.2⟩
    show p / 4096 < _
    rcases hp with rfl | hp
    · omega
    · have hlt := (h.managed _ hp).2.1
      omega

/-- After `pmm_init` the allocator serves single frames as its clients expect, and a frame
held by a client counts as busy. -/
theorem bootKernel_oblivious {memoryMap : List MmapEntry} (hm : MapOk memoryMap)
    (hN : pageToBit (highestTop memoryMap) ≤ 2 ^ 31)
    (hlow : ∀ e ∈ memoryMap, e.type = .usable → 4096 ≤ e.base) :
    ∃ U Holds Busy, pmmFrames.Lawful U Holds ∧ pmmFrames.Oblivious U Busy ∧
      (∀ m r F, Holds m r F → ∀ c ∈ F, Busy m r c) ∧
      Holds (bootKernel memoryMap).mem (bootKernel memoryMap).frames ∅ := by
  obtain ⟨base, hinv, -, htop, ⟨e, he, hu, hbase⟩, -⟩ := pmmInit_spec (fun _ => 0#8) hm hN
  have hlow := hbase ▸ hlow e he hu
  have hU : ∀ f ∈ {f | InitiallyFree memoryMap base f}, f ≠ 0 ∧ f < 2 ^ 40 := by
    intro f hf
    have hf' := hinv.managed f hf
    rw [htop] at hf'
    exact ⟨hf'.1, by omega⟩
  exact ⟨_, _, _, pmmFrames_lawful base _ hlow hU, pmmFrames_oblivious base _ hU,
    fun _ _ _ h _ hc => h.busy hlow hc, hinv⟩

end ApoptOS
