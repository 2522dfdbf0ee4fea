import ApoptOS.Memory.Physical.Pmm

namespace ApoptOS

open Framework

/-- The bitmap of `base` accounts for the managed frames `U`: a clear bit is a
managed frame outside the handed-out set `F`. The bitmap's own frames, frame 0
and everything at or above the top of memory are not managed, so their bits
are set. -/
structure PmmInv (m : Mem) (pmm : Pmm) (base : Nat) (U F : Set Nat) : Prop where
  stored : pmm.bitmap.StoredAt base
  baseAligned : base % 4096 = 0
  sizeAligned : pmm.bitmap.size % 4096 = 0
  sizeLe : 8 * pmm.bitmap.size ≤ 2 ^ 31
  topLe : pageToBit pmm.highestPageTop ≤ 8 * pmm.bitmap.size
  managed : ∀ f ∈ U, f ≠ 0 ∧ f < pageToBit pmm.highestPageTop ∧
    (f < base / 4096 ∨ (base + pmm.bitmap.size) / 4096 ≤ f)
  held : F ⊆ U
  clear : ∀ f < 8 * pmm.bitmap.size, usedBit m base f = false → f ∈ U ∧ f ∉ F

/-- The frames of a run. -/
def frameRun (i n : Nat) : Set Nat := {f | i ≤ f ∧ f < i + n}

@[simp] theorem mem_frameRun {f i n : Nat} : f ∈ frameRun i n ↔ i ≤ f ∧ f < i + n := Iff.rfl

theorem frameRun_one (i : Nat) : frameRun i 1 = {i} := by
  ext f
  rw [mem_frameRun, Set.mem_singleton_iff]
  omega

/-- The lowest run the search accepts is free as a whole and below the top of
memory, not only at the probed bits. -/
def ServedInFull (m : Mem) (pmm : Pmm) (n : Nat) : Prop :=
  ∀ i, LowestProbe m pmm n i → i + n ≤ pageToBit pmm.highestPageTop ∧
    ∀ j < n, bitmapCheckBit m pmm.bitmap (toInt (i + j)) = 0#8

theorem servedInFull_iff (m : Mem) (pmm : Pmm) (n : Nat) :
    ServedInFull m pmm n ↔ ∀ i < pageToBit pmm.highestPageTop, LowestProbe m pmm n i →
      i + n ≤ pageToBit pmm.highestPageTop ∧
        ∀ j < n, bitmapCheckBit m pmm.bitmap (toInt (i + j)) = 0#8 :=
  ⟨fun h i _ hi => h i hi, fun h i hi => h i hi.1 hi⟩

instance (m : Mem) (pmm : Pmm) (n : Nat) : Decidable (ServedInFull m pmm n) :=
  decidable_of_iff _ (servedInFull_iff m pmm n).symm

theorem servedInFull_one (m : Mem) (pmm : Pmm) : ServedInFull m pmm 1 := by
  rintro i ⟨hi, hprobe, _⟩
  refine ⟨hi, fun j hj => ?_⟩
  have h0 : j = 0 := by omega
  have hbit := hprobe 0 (by omega)
  rw [h0]
  exact hbit

namespace PmmInv

variable {m : Mem} {pmm : Pmm} {base n : Nat} {U F : Set Nat}

theorem bitmap_unmanaged (h : PmmInv m pmm base U F) {x : Nat} (hb : base ≤ x)
    (hx : x < base + pmm.bitmap.size) : x ∉ frameBytes U := by
  intro hu
  have ha := h.baseAligned
  have hs := h.sizeAligned
  have hf := (h.managed _ hu).2.2
  omega

theorem bits_congr (m m' : Mem) (pmm : Pmm) (base : Nat)
    (hm : ∀ x, base ≤ x → x < base + pmm.bitmap.size → m' x = m x) :
    ∀ f < 8 * pmm.bitmap.size, usedBit m' base f = usedBit m base f := by
  intro f hf
  exact usedBit_congr (hm _ (by omega) (by omega))

/-- Writes of clients into managed frames do not touch the bitmap. -/
theorem client_writes (h : PmmInv m pmm base U F) {m' : Mem}
    (hm : Mem.SameOn (frameBytes U)ᶜ m m') : PmmInv m' pmm base U F := by
  have hbits := bits_congr m m' pmm base (fun x hb hx => hm x (h.bitmap_unmanaged hb hx))
  exact { h with clear := fun f hf hc => h.clear f hf (by rw [← hbits f hf]; exact hc) }

theorem used_irrelevant (h : PmmInv m pmm base U F) (used : Nat) :
    PmmInv m { pmm with usedPagesCount := used } base U F :=
  ⟨h.stored, h.baseAligned, h.sizeAligned, h.sizeLe, h.topLe, h.managed, h.held, h.clear⟩

/-- A clear run below the top of memory belongs to nobody. -/
theorem run_free (h : PmmInv m pmm base U F) {i : Nat}
    (hi : i + n ≤ pageToBit pmm.highestPageTop)
    (hbits : ∀ j < n, bitmapCheckBit m pmm.bitmap (toInt (i + j)) = 0#8) :
    ∀ f ∈ frameRun i n, f ∈ U ∧ f ∉ F := by
  intro f hf
  have htop := h.topLe
  have hsize := h.sizeLe
  have hf1 := hf.1
  have hf2 := hf.2
  have hbit := hbits (f - i) (by omega)
  have hfi : i + (f - i) = f := by omega
  rw [hfi, bitmapCheckBit_eq h.stored (by omega)] at hbit
  exact h.clear f (by omega) hbit

theorem set_run (h : PmmInv m pmm base U F) {i : Nat} (used : Nat)
    (hi : i + n ≤ pageToBit pmm.highestPageTop)
    (hrun : ∀ f ∈ frameRun i n, f ∈ U ∧ f ∉ F) :
    PmmInv (setBits m pmm.bitmap i n) { pmm with usedPagesCount := used } base U
      (F ∪ frameRun i n) := by
  have htop := h.topLe
  have hsize := h.sizeLe
  refine ⟨h.stored, h.baseAligned, h.sizeAligned, h.sizeLe, h.topLe, h.managed, ?_, ?_⟩
  · rintro f (hf | hf)
    · exact h.held hf
    · exact (hrun f hf).1
  · intro f hf hclear
    rw [setBits_used h.stored i n f (by omega), Bool.or_eq_false_iff] at hclear
    obtain ⟨hold, hout⟩ := hclear
    obtain ⟨hU, hF⟩ := h.clear f hf hold
    refine ⟨hU, ?_⟩
    rintro (hin | hin)
    · exact hF hin
    · have hin' : i ≤ f ∧ f < i + n := hin
      simp [hin'] at hout

/-- Every byte outside the bitmap survives a loop over covered bits. -/
theorem bits_sameOn (h : PmmInv m pmm base U F) {i : Nat} (hi : i + n ≤ 8 * pmm.bitmap.size) :
    Mem.SameOn (frameBytes U) m (setBits m pmm.bitmap i n) ∧
      Mem.SameOn (frameBytes U) m (unsetBits m pmm.bitmap i n) := by
  have hout : ∀ x ∈ frameBytes U, x < base ∨ base + pmm.bitmap.size ≤ x := by
    intro x hx
    by_contra hc
    exact h.bitmap_unmanaged (by omega) (by omega) hx
  exact ⟨fun x hx => (bits_frame h.stored i n _ x hi h.sizeLe (hout x hx)).1,
    fun x hx => (bits_frame h.stored i n _ x hi h.sizeLe (hout x hx)).2⟩

/-- `pmm_alloc` either finds no probed run and changes nothing, or hands out
the lowest one. -/
theorem alloc (h : PmmInv m pmm base U F) (hn : 0 < n) (hfull : ServedInFull m pmm n) :
    (pmmAlloc n m pmm = (0, m, pmm) ∧ (pmm.usedPagesCount = 0 ∨
      ∀ i < pageToBit pmm.highestPageTop, ¬ ProbesFree m pmm n i)) ∨
    ∃ i, LowestProbe m pmm n i ∧ i ≠ 0 ∧ i + n ≤ pageToBit pmm.highestPageTop ∧
      (∀ f ∈ frameRun i n, f ∈ U ∧ f ∉ F) ∧ (pmmAlloc n m pmm).1 = i * 4096 ∧
      PmmInv (pmmAlloc n m pmm).2.1 (pmmAlloc n m pmm).2.2 base U (F ∪ frameRun i n) ∧
      Mem.SameOn (frameBytes U) m (pmmAlloc n m pmm).2.1 := by
  have htop := h.topLe
  have hsize := h.sizeLe
  unfold pmmAlloc
  by_cases hused : pmm.usedPagesCount ≤ 0
  · exact Or.inl ⟨by rw [if_pos hused], Or.inl (by omega)⟩
  rw [if_neg hused]
  rcases pmmFindFirstFreePageRange_spec m pmm hn with ⟨hnone, hno⟩ | ⟨i, hi, hfind⟩
  · exact Or.inl ⟨by simp [hnone], Or.inr hno⟩
  obtain ⟨hin, hclear⟩ := hfull i hi
  have hrun := h.run_free hin hclear
  have hi0 : i ≠ 0 := (h.managed i (hrun i ⟨le_refl i, by omega⟩).1).1
  have hlt := hi.1
  have hpage : bitToPage i = i * 4096 := by
    unfold bitToPage pageSize
    omega
  have hne : ¬ pmmFindFirstFreePageRange m pmm n = 0 := by
    rw [hfind, hpage]
    omega
  have hindex : pageToBit (pmmFindFirstFreePageRange m pmm n) = i := by
    rw [hfind, hpage]
    unfold pageToBit pageSize
    omega
  refine Or.inr ⟨i, hi, hi0, hin, hrun, ?_⟩
  simp only [hne, if_false, hindex]
  exact ⟨hpage, h.set_run _ hin hrun, (h.bits_sameOn (by omega)).1⟩

/-- A request for one frame, without any proviso: it comes back empty and
changes nothing, or takes the lowest free frame. -/
theorem alloc_one (h : PmmInv m pmm base U F) :
    (pmmAlloc 1 m pmm = (0, m, pmm) ∧ (pmm.usedPagesCount = 0 ∨
      ∀ i < pageToBit pmm.highestPageTop, ¬ ProbesFree m pmm 1 i)) ∨
    ∃ f, LowestProbe m pmm 1 f ∧ f ≠ 0 ∧ f ∈ U ∧ f ∉ F ∧
      pmmAlloc 1 m pmm = (f * 4096, setBits m pmm.bitmap f 1,
        { pmm with usedPagesCount := add64 pmm.usedPagesCount 1 }) := by
  rcases h.alloc (show 0 < 1 by decide) (servedInFull_one m pmm) with
    hnone | ⟨i, hi, hi0, hin, hrun, hptr, _⟩
  · exact Or.inl hnone
  · right
    have hiU := hrun i ⟨le_refl i, by omega⟩
    refine ⟨i, hi, hi0, hiU.1, hiU.2, ?_⟩
    have hp0 : i * 4096 ≠ 0 := by omega
    unfold pmmAlloc at hptr ⊢
    by_cases hused : pmm.usedPagesCount ≤ 0
    · rw [if_pos hused] at hptr
      exact absurd hptr.symm hp0
    · rw [if_neg hused] at hptr ⊢
      by_cases hfind : pmmFindFirstFreePageRange m pmm 1 = 0
      · simp only [hfind, if_true] at hptr
        exact absurd hptr.symm hp0
      · simp only [hfind, if_false] at hptr ⊢
        have hindex : pageToBit (pmmFindFirstFreePageRange m pmm 1) = i := by
          rcases pmmFindFirstFreePageRange_spec m pmm (show 0 < 1 by decide) with
            ⟨h0, _⟩ | ⟨j, hj, hfound⟩
          · exact absurd h0 hfind
          · have htop := h.topLe
            have hsize := h.sizeLe
            rw [hfound, hj.unique hi]
            unfold pageToBit bitToPage pageSize
            omega
        rw [hptr, hindex]

/-- `pmm_allocz` zeroes the run it hands out; a refused request zeroes the
memory from address 0 instead, which must not reach the bitmap. -/
theorem allocz (h : PmmInv m pmm base U F) (hn : 0 < n) (hfull : ServedInFull m pmm n)
    (hfail : (pmmAlloc n m pmm).1 = 0 → 4096 * n ≤ base) :
    ((pmmAllocz n m pmm).1 = 0 ∧
      PmmInv (pmmAllocz n m pmm).2.1 (pmmAllocz n m pmm).2.2 base U F ∧
      ((∀ f ∈ F, n ≤ f) → Mem.SameOn (frameBytes F) m (pmmAllocz n m pmm).2.1)) ∨
    ∃ i, LowestProbe m pmm n i ∧ i ≠ 0 ∧ i + n ≤ pageToBit pmm.highestPageTop ∧
      (∀ f ∈ frameRun i n, f ∈ U ∧ f ∉ F) ∧ (pmmAllocz n m pmm).1 = i * 4096 ∧
      PmmInv (pmmAllocz n m pmm).2.1 (pmmAllocz n m pmm).2.2 base U (F ∪ frameRun i n) ∧
      Mem.SameOn (frameBytes F) m (pmmAllocz n m pmm).2.1 ∧
      ∀ a, a / 4096 ∈ frameRun i n → (pmmAllocz n m pmm).2.1 a = 0#8 := by
  have htop := h.topLe
  have hsize := h.sizeLe
  rcases h.alloc hn hfull with ⟨hnone, _⟩ | ⟨i, hi, hi0, hin, hrun, hptr, hinv, hsame⟩
  · left
    have hbound := hfail (by rw [hnone])
    have hwin := h.stored.window
    have hlen : pageSize * n % 2 ^ 64 = 4096 * n := by
      unfold pageSize
      omega
    simp only [pmmAllocz, hnone, hlen, true_and]
    constructor
    · have hbits := bits_congr m (m.memset 0 0 (4096 * n)) pmm base
        (fun x hb hx => Mem.memset_outside m (by omega))
      exact { h with clear := fun f hf hc => h.clear f hf (by rw [← hbits f hf]; exact hc) }
    · intro hF x hx
      have hxf := hF _ (mem_frameBytes.mp hx)
      exact Mem.memset_outside m (by omega)
  · right
    have hlen : pageSize * n % 2 ^ 64 = 4096 * n := by
      unfold pageSize
      omega
    refine ⟨i, hi, hi0, hin, hrun, hptr, ?_⟩
    simp only [pmmAllocz, hptr, hlen]
    refine ⟨?_, ?_, ?_⟩
    · apply hinv.client_writes
      intro x hx
      apply Mem.memset_outside
      by_contra hc
      exact hx (hrun (x / 4096) ⟨by omega, by omega⟩).1
    · intro x hx
      have hnot : x / 4096 ∉ frameRun i n := fun hc => (hrun _ hc).2 hx
      rw [Mem.memset_outside]
      · exact hsame x (h.held hx)
      · by_contra hc
        exact hnot ⟨by omega, by omega⟩
    · intro a ha
      have ha1 := ha.1
      have ha2 := ha.2
      rw [Mem.memset_inside _ (by omega) (by omega)]

theorem free (h : PmmInv m pmm base U F) {p : Nat} (hrun : frameRun (p / 4096) n ⊆ F) :
    PmmInv (pmmFree p n m pmm).1 (pmmFree p n m pmm).2 base U (F \ frameRun (p / 4096) n) ∧
      Mem.SameOn (frameBytes U) m (pmmFree p n m pmm).1 := by
  have htop := h.topLe
  have hsize := h.sizeLe
  have hindex : pageToBit p = p / 4096 := rfl
  by_cases hn : n = 0
  · subst hn
    have hempty : F \ frameRun (p / 4096) 0 = F := by
      ext f
      rw [Set.mem_sdiff, mem_frameRun]
      exact ⟨fun hf => hf.1, fun hf => ⟨hf, by omega⟩⟩
    rw [hempty]
    exact ⟨h.used_irrelevant _, Mem.SameOn.refl _ _⟩
  have hlast : p / 4096 + n - 1 ∈ frameRun (p / 4096) n := by
    rw [mem_frameRun]
    omega
  have hcover := (h.managed _ (h.held (hrun hlast))).2.1
  simp only [pmmFree, hindex]
  refine ⟨⟨h.stored, h.baseAligned, h.sizeAligned, h.sizeLe, h.topLe, h.managed, ?_, ?_⟩,
    (h.bits_sameOn (by omega)).2⟩
  · exact fun f hf => h.held hf.1
  · intro f hf hclear
    rw [unsetBits_used h.stored _ _ _ (by omega), Bool.and_eq_false_iff] at hclear
    rcases hclear with hold | hin
    · obtain ⟨hU, hF⟩ := h.clear f hf hold
      exact ⟨hU, fun hc => hF hc.1⟩
    · have hmem : f ∈ frameRun (p / 4096) n := by simpa using hin
      exact ⟨h.held (hrun hmem), fun hc => hc.2 hmem⟩

end PmmInv

/-- The bitmap allocator serves single frames as its clients assume, provided
its bitmap does not share frame 0 with the null page. -/
theorem pmmFrames_lawful (base : Nat) (U : Set Nat) (hbase : 4096 ≤ base)
    (hU : ∀ f ∈ U, f ≠ 0 ∧ f < 2 ^ 40) :
    pmmFrames.Lawful U (fun m pmm F => PmmInv m pmm base U F) where
  managed := hU
  subset := fun _ _ _ h => h.held
  allocz_one := by
    intro m pmm F h
    have hpos : ∀ f ∈ F, 1 ≤ f := by
      intro f hf
      have h0 := (hU f (h.held hf)).1
      omega
    rcases h.allocz (by decide) (servedInFull_one m pmm) (fun _ => by omega) with
      ⟨hnull, hinv, hsame⟩ | ⟨i, _, _, _, hrun, hptr, hinv, hsame, hzero⟩
    · exact Or.inl ⟨hnull, hinv, hsame hpos⟩
    · refine Or.inr ⟨i, hptr, (hrun i ⟨le_refl i, by omega⟩).2, ?_, hsame, ?_⟩
      · rw [frameRun_one, Set.union_singleton] at hinv
        exact hinv
      · intro a ha
        exact hzero a ⟨by omega, by omega⟩
  free_one := by
    intro m pmm F p h hp
    have hsub : frameRun (p / 4096) 1 ⊆ F := by
      rw [frameRun_one]
      exact Set.singleton_subset_iff.mpr hp
    have hfree := h.free hsub
    rw [frameRun_one] at hfree
    exact hfree
  client_writes := fun _ _ _ _ h hm => h.client_writes hm

end ApoptOS
