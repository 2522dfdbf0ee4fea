import ApoptOS.Memory.Physical.PmmInvariant

namespace ApoptOS

open Framework

/-- What is asked of a memory map: usable entries are page-aligned and
disjoint, one of them can host the bitmap, and the bitmap covers every frame
below the top of memory and every usable frame. -/
structure MapOk (memoryMap : List MmapEntry) : Prop where
  aligned : ∀ e ∈ memoryMap, e.type = .usable → e.base % 4096 = 0 ∧ e.length % 4096 = 0
  disjoint : memoryMap.Pairwise (fun a b => a.type = .usable → b.type = .usable →
    a.base + a.length ≤ b.base ∨ b.base + b.length ≤ a.base)
  host : ∃ e ∈ memoryMap, e.type = .usable ∧ bitmapSize (highestTop memoryMap) ≤ e.length
  topCovered : pageToBit (highestTop memoryMap) ≤ 8 * bitmapSize (highestTop memoryMap)
  covered : ∀ e ∈ memoryMap, e.type = .usable →
    e.base + e.length ≤ 4096 * (8 * bitmapSize (highestTop memoryMap))

/-- Frame `f` lies in a usable entry. -/
def UsableFrame (memoryMap : List MmapEntry) (f : Nat) : Prop :=
  ∃ e ∈ memoryMap, e.type = .usable ∧ e.base / 4096 ≤ f ∧
    f < e.base / 4096 + e.length / 4096

theorem raiseTop_bounds {top : Nat} (e : MmapEntry) (ht : top < 2 ^ 64) :
    raiseTop top e < 2 ^ 64 ∧ top ≤ raiseTop top e ∧
      (e.type = .usable → add64 e.base e.length ≤ raiseTop top e) := by
  have hadd := add64_lt e.base e.length
  simp only [raiseTop]
  split_ifs with hram hlt
  · exact ⟨hadd, le_of_lt hlt, fun _ => le_refl _⟩
  · exact ⟨ht, le_refl _, fun _ => Nat.not_lt.mp hlt⟩
  · exact ⟨ht, le_refl _, fun hu => absurd (by simp [countsAsRam, hu]) hram⟩

theorem foldl_raiseTop_bounds (es : List MmapEntry) {top : Nat} (ht : top < 2 ^ 64) :
    es.foldl raiseTop top < 2 ^ 64 ∧ top ≤ es.foldl raiseTop top ∧
      ∀ e ∈ es, e.type = .usable → add64 e.base e.length ≤ es.foldl raiseTop top := by
  induction es generalizing top with
  | nil => exact ⟨ht, le_refl _, by simp⟩
  | cons a es ih =>
    obtain ⟨ha, hle, hu⟩ := raiseTop_bounds a ht
    obtain ⟨h1, h2, h3⟩ := ih ha
    refine ⟨h1, hle.trans h2, fun e he hue => ?_⟩
    rcases List.mem_cons.mp he with rfl | he
    · exact (hu hue).trans h2
    · exact h3 e he hue

theorem foldl_raiseTop_le (es : List MmapEntry) {top bound : Nat}
    (hes : ∀ e ∈ es, countsAsRam e.type = true → e.base + e.length ≤ bound)
    (ht : top ≤ bound) :
    es.foldl raiseTop top ≤ bound := by
  induction es generalizing top with
  | nil => exact ht
  | cons a es ih =>
    refine ih (fun e he => hes e (by simp [he])) ?_
    have hadd : add64 a.base a.length ≤ a.base + a.length := by
      unfold add64
      exact Nat.mod_le _ _
    simp only [raiseTop]
    split_ifs with hram
    · exact hadd.trans (hes a (by simp) hram)
    · exact ht
    · exact ht

theorem bitmapSize_eq {top : Nat} (ht : top < 2 ^ 64) :
    bitmapSize top = (top / 4096 / 8 + 4095) / 4096 * 4096 := by
  have hdown : alignDown top pageSize / pageSize = top / 4096 := by
    rw [alignDown_page ht]
    unfold pageSize
    omega
  rw [bitmapSize, hdown]
  exact alignUp_page (by omega)

/-- The first large enough usable entry loses its first `size` bytes, nothing
else changes. -/
theorem hostBitmap_spec (size : Nat) (memoryMap : List MmapEntry)
    (h : ∃ e ∈ memoryMap, e.type = .usable ∧ size ≤ e.length) :
    ∃ pre e post, memoryMap = pre ++ e :: post ∧ e.type = .usable ∧ size ≤ e.length ∧
      (∀ d ∈ pre, ¬ (d.type = .usable ∧ size ≤ d.length)) ∧
      hostBitmap size memoryMap = (some e.base, pre ++ e.cut size :: post) := by
  induction memoryMap with
  | nil => simp at h
  | cons a es ih =>
    by_cases ha : a.type = .usable ∧ size ≤ a.length
    · refine ⟨[], a, es, rfl, ha.1, ha.2, by simp, ?_⟩
      rw [hostBitmap, if_pos ha]
      rfl
    · have htail : ∃ e ∈ es, e.type = .usable ∧ size ≤ e.length := by
        obtain ⟨e, he, hu⟩ := h
        rcases List.mem_cons.mp he with rfl | he
        · exact absurd hu ha
        · exact ⟨e, he, hu⟩
      obtain ⟨pre, e, post, heq, hu, hs, hpre, hhost⟩ := ih htail
      refine ⟨a :: pre, e, post, by simp [heq], hu, hs, ?_, ?_⟩
      · intro d hd
        rcases List.mem_cons.mp hd with rfl | hd
        · exact ha
        · exact hpre d hd
      · rw [hostBitmap, if_neg ha, hhost]
        rfl

/-- Freeing the usable entries clears exactly their frames' bits. -/
theorem freeUsable_spec {base : Nat} (es : List MmapEntry) (m : Mem) (pmm : Pmm)
    (h : pmm.bitmap.StoredAt base)
    (hes : ∀ e ∈ es, e.type = .usable → e.base / 4096 + e.length / 4096 ≤ 2 ^ 31) :
    (freeUsable m pmm es).2.bitmap = pmm.bitmap ∧
      (freeUsable m pmm es).2.highestPageTop = pmm.highestPageTop ∧
      ∀ f, usedBit (freeUsable m pmm es).1 base f = false ↔
        usedBit m base f = false ∨ UsableFrame es f := by
  induction es generalizing m pmm with
  | nil => simp [freeUsable, UsableFrame]
  | cons e es ih =>
    have hrest : ∀ d ∈ es, d.type = .usable → d.base / 4096 + d.length / 4096 ≤ 2 ^ 31 :=
      fun d hd => hes d (by simp [hd])
    by_cases hu : e.type = .usable
    · rw [freeUsable, if_pos hu]
      have hbits (f : Nat) : usedBit (pmmFree e.base (e.length / pageSize) m pmm).1 base f =
          (usedBit m base f &&
            !decide (e.base / 4096 ≤ f ∧ f < e.base / 4096 + e.length / 4096)) :=
        unsetBits_used h _ _ f (hes e (by simp) hu)
      obtain ⟨hb, ht, hf⟩ := ih (pmmFree e.base (e.length / pageSize) m pmm).1
        (pmmFree e.base (e.length / pageSize) m pmm).2 h hrest
      refine ⟨hb, ht, fun f => ?_⟩
      rw [hf f, hbits f]
      by_cases hin : e.base / 4096 ≤ f ∧ f < e.base / 4096 + e.length / 4096
      · simp only [hin, and_self, decide_true, Bool.not_true, Bool.and_false, true_or, true_iff]
        exact Or.inr ⟨e, by simp, hu, hin⟩
      · have hiff : UsableFrame (e :: es) f ↔ UsableFrame es f := by
          constructor
          · rintro ⟨d, hd, hdu, hdf⟩
            rcases List.mem_cons.mp hd with rfl | hd
            · exact absurd hdf hin
            · exact ⟨d, hd, hdu, hdf⟩
          · rintro ⟨d, hd, hdu, hdf⟩
            exact ⟨d, by simp [hd], hdu, hdf⟩
        rw [decide_eq_false hin, hiff]
        simp
    · rw [freeUsable, if_neg hu]
      obtain ⟨hb, ht, hf⟩ := ih m pmm h hrest
      refine ⟨hb, ht, fun f => ?_⟩
      rw [hf f]
      have hiff : UsableFrame (e :: es) f ↔ UsableFrame es f := by
        constructor
        · rintro ⟨d, hd, hdu, hdf⟩
          rcases List.mem_cons.mp hd with rfl | hd
          · exact absurd hdu hu
          · exact ⟨d, hd, hdu, hdf⟩
        · rintro ⟨d, hd, hdu, hdf⟩
          exact ⟨d, by simp [hd], hdu, hdf⟩
      rw [hiff]

theorem highestTop_lt (memoryMap : List MmapEntry) : highestTop memoryMap < 2 ^ 64 :=
  (foldl_raiseTop_bounds memoryMap (by positivity)).1

theorem bitmapSize_aligned (memoryMap : List MmapEntry) :
    bitmapSize (highestTop memoryMap) % 4096 = 0 := by
  rw [bitmapSize_eq (highestTop_lt memoryMap)]
  omega

theorem bitmapSize_le {memoryMap : List MmapEntry}
    (hN : pageToBit (highestTop memoryMap) ≤ 2 ^ 31) :
    8 * bitmapSize (highestTop memoryMap) ≤ 2 ^ 31 := by
  rw [bitmapSize_eq (highestTop_lt memoryMap)]
  unfold pageToBit pageSize at hN
  omega

namespace MapOk

variable {memoryMap : List MmapEntry}

theorem usable_below_top (hm : MapOk memoryMap) (hN : pageToBit (highestTop memoryMap) ≤ 2 ^ 31)
    {e : MmapEntry} (he : e ∈ memoryMap) (hu : e.type = .usable) :
    e.base + e.length ≤ highestTop memoryMap := by
  have hs := bitmapSize_le hN
  have hc := hm.covered e he hu
  have htop := (foldl_raiseTop_bounds memoryMap (show 0 < 2 ^ 64 by positivity)).2.2 e he hu
  rw [add64_of_lt (by omega)] at htop
  exact htop

end MapOk

/-- The frames `pmm_init` leaves free when it puts the bitmap at `base`. -/
def InitiallyFree (memoryMap : List MmapEntry) (base f : Nat) : Prop :=
  f ≠ 0 ∧ UsableFrame memoryMap f ∧
    ¬ (base / 4096 ≤ f ∧ f < (base + bitmapSize (highestTop memoryMap)) / 4096)

/-- Cutting the bitmap off its host removes exactly the bitmap's frames. -/
theorem usableFrame_hosted {size : Nat} {pre post : List MmapEntry} {e : MmapEntry}
    (hal : ∀ d ∈ pre ++ e :: post, d.type = .usable → d.base % 4096 = 0 ∧
      d.length % 4096 = 0)
    (hdis : (pre ++ e :: post).Pairwise (fun a b => a.type = .usable → b.type = .usable →
      a.base + a.length ≤ b.base ∨ b.base + b.length ≤ a.base))
    (hu : e.type = .usable) (hs : size ≤ e.length) (hsal : size % 4096 = 0)
    (hw : e.base + e.length < 2 ^ 64) (f : Nat) :
    UsableFrame (pre ++ e.cut size :: post) f ↔
      UsableFrame (pre ++ e :: post) f ∧
        ¬ (e.base / 4096 ≤ f ∧ f < (e.base + size) / 4096) := by
  have hbase : (e.cut size).base = e.base + size := add64_of_lt (by omega)
  have hlen : (e.cut size).length = e.length - size := sub64_of_le (by omega) hs
  obtain ⟨hea, hel⟩ := hal e (by simp) hu
  have hother : ∀ d ∈ pre ++ post, d.type = .usable →
      d.base + d.length ≤ e.base ∨ e.base + e.length ≤ d.base := by
    intro d hd hdu
    obtain ⟨_, hmid, hcross⟩ := List.pairwise_append.mp hdis
    rcases List.mem_append.mp hd with hd | hd
    · exact hcross d hd e (by simp) hdu hu
    · exact ((List.pairwise_cons.mp hmid).1 d hd hu hdu).symm
  constructor
  · rintro ⟨d, hd, hdu, hlo, hhi⟩
    have hcases : d ∈ pre ++ post ∨ d = e.cut size := by
      simp only [List.mem_append, List.mem_cons] at hd ⊢
      tauto
    rcases hcases with hd | rfl
    · have hd' : d ∈ pre ++ e :: post := by
        simp only [List.mem_append, List.mem_cons] at hd ⊢
        tauto
      have hda := hal d hd' hdu
      have hdo := hother d hd hdu
      exact ⟨⟨d, hd', hdu, hlo, hhi⟩, by omega⟩
    · rw [hbase] at hlo hhi
      rw [hlen] at hhi
      exact ⟨⟨e, by simp, hu, by omega, by omega⟩, by omega⟩
  · rintro ⟨⟨d, hd, hdu, hlo, hhi⟩, hnot⟩
    have hcases : d ∈ pre ++ post ∨ d = e := by
      simp only [List.mem_append, List.mem_cons] at hd ⊢
      tauto
    rcases hcases with hd | rfl
    · refine ⟨d, ?_, hdu, hlo, hhi⟩
      simp only [List.mem_append, List.mem_cons] at hd ⊢
      tauto
    · refine ⟨d.cut size, by simp, hu, ?_, ?_⟩
      · rw [hbase]
        omega
      · rw [hbase, hlen]
        omega

/-- The bitmap after `pmm_init`, in terms of the entry list it frees. -/
theorem pmmInit_of_host {memoryMap rest : List MmapEntry} {base size : Nat} (m : Mem)
    (hs : bitmapSize (highestTop memoryMap) = size)
    (hhost : hostBitmap size memoryMap = (some base, rest)) (hw : base + 2 ^ 28 ≤ 2 ^ 44)
    (hsize : 8 * size ≤ 2 ^ 31)
    (hrest : ∀ e ∈ rest, e.type = .usable → e.base / 4096 + e.length / 4096 ≤ 2 ^ 31) :
    (pmmInit m memoryMap).2.1 = (freeUsable (m.memset base 0xFF size)
        ⟨⟨physToHigherHalfData base, size⟩, highestTop memoryMap,
          kbToPages (highestTop memoryMap)⟩ rest).2 ∧
      (pmmInit m memoryMap).2.1.bitmap = ⟨physToHigherHalfData base, size⟩ ∧
      (pmmInit m memoryMap).2.1.highestPageTop = highestTop memoryMap ∧
      ∀ f < 8 * size, usedBit (pmmInit m memoryMap).1 base f = false ↔
        f ≠ 0 ∧ UsableFrame rest f := by
  have hstored : (⟨physToHigherHalfData base, size⟩ : Bitmap).StoredAt base := ⟨rfl, hw⟩
  have hphys : physOf (physToHigherHalfData base) = base := physOf_higherHalfData (by omega)
  have h0 : toInt 0 = 0 := by decide
  obtain ⟨hfb, hft, hfu⟩ := freeUsable_spec rest (m.memset base 0xFF size)
    ⟨⟨physToHigherHalfData base, size⟩, highestTop memoryMap,
      kbToPages (highestTop memoryMap)⟩
    hstored hrest
  have hones : ∀ f < 8 * size, usedBit (m.memset base 0xFF size) base f = true := by
    intro f hf
    have h8 : ∀ i < 8, (BitVec.ofNat 8 0xFF).getLsbD i = true := by decide
    rw [usedBit, Mem.memset_inside _ (by omega) (by omega)]
    exact h8 _ (Nat.mod_lt _ (by decide))
  have hinit : pmmInit m memoryMap =
      (bitmapSetBit (freeUsable (m.memset base 0xFF size)
          ⟨⟨physToHigherHalfData base, size⟩, highestTop memoryMap,
            kbToPages (highestTop memoryMap)⟩ rest).1 ⟨physToHigherHalfData base, size⟩
          (toInt 0),
        (freeUsable (m.memset base 0xFF size)
          ⟨⟨physToHigherHalfData base, size⟩, highestTop memoryMap,
            kbToPages (highestTop memoryMap)⟩ rest).2, rest) := by
    unfold pmmInit
    dsimp only
    rw [hs, hhost, Option.map_some, Option.getD_some, hphys, hfb, h0]
  rw [hinit]
  refine ⟨rfl, hfb, hft, fun f hf => ?_⟩
  rw [usedBit_set hstored (by decide), Bool.or_eq_false_iff, hfu f, hones f hf]
  simp only [decide_eq_false_iff_not, Bool.true_eq_false, false_or]
  exact and_comm

/-- `pmm_init` on any map with aligned, disjoint usable entries below 2^43: the
first usable entry that is large enough hosts the bitmap, and exactly the other
usable frames are left free, frame 0 excepted. The bitmap need not cover them
all. -/
theorem pmmInit_bits {memoryMap : List MmapEntry} (m : Mem)
    (hal : ∀ e ∈ memoryMap, e.type = .usable → e.base % 4096 = 0 ∧ e.length % 4096 = 0)
    (hdis : memoryMap.Pairwise (fun a b => a.type = .usable → b.type = .usable →
      a.base + a.length ≤ b.base ∨ b.base + b.length ≤ a.base))
    (hhost : ∃ e ∈ memoryMap, e.type = .usable ∧
      bitmapSize (highestTop memoryMap) ≤ e.length)
    (hbound : ∀ e ∈ memoryMap, e.type = .usable → e.base + e.length ≤ 2 ^ 43)
    (hsize : 8 * bitmapSize (highestTop memoryMap) ≤ 2 ^ 31) :
    ∃ (e : MmapEntry) (pre post : List MmapEntry), memoryMap = pre ++ e :: post ∧
      e.type = .usable ∧
      bitmapSize (highestTop memoryMap) ≤ e.length ∧
      (∀ d ∈ pre, ¬ (d.type = .usable ∧ bitmapSize (highestTop memoryMap) ≤ d.length)) ∧
      (pmmInit m memoryMap).2.1 = (freeUsable
        (m.memset e.base 0xFF (bitmapSize (highestTop memoryMap)))
        ⟨⟨physToHigherHalfData e.base, bitmapSize (highestTop memoryMap)⟩,
          highestTop memoryMap, kbToPages (highestTop memoryMap)⟩
        (pre ++ e.cut (bitmapSize (highestTop memoryMap)) :: post)).2 ∧
      (pmmInit m memoryMap).2.1.bitmap =
        ⟨physToHigherHalfData e.base, bitmapSize (highestTop memoryMap)⟩ ∧
      (pmmInit m memoryMap).2.1.highestPageTop = highestTop memoryMap ∧
      ∀ f < 8 * bitmapSize (highestTop memoryMap),
        usedBit (pmmInit m memoryMap).1 e.base f = false ↔ InitiallyFree memoryMap e.base f := by
  have hsal := bitmapSize_aligned memoryMap
  obtain ⟨pre, e, post, heq, hu, hs, hpre, hhosted⟩ := hostBitmap_spec _ memoryMap hhost
  have hemem : e ∈ memoryMap := by rw [heq]; simp
  have hecov := hbound e hemem hu
  have hframes : ∀ f, UsableFrame (pre ++ e.cut (bitmapSize (highestTop memoryMap)) :: post) f ↔
      UsableFrame memoryMap f ∧
        ¬ (e.base / 4096 ≤ f ∧ f < (e.base + bitmapSize (highestTop memoryMap)) / 4096) := by
    intro f
    have h := usableFrame_hosted (by rw [← heq]; exact hal)
      (by rw [← heq]; exact hdis) hu hs hsal
      (by omega) f
    rw [← heq] at h
    exact h
  have hrest : ∀ d ∈ pre ++ e.cut (bitmapSize (highestTop memoryMap)) :: post,
      d.type = .usable → d.base / 4096 + d.length / 4096 ≤ 2 ^ 31 := by
    intro d hd hdu
    have hcases : d ∈ memoryMap ∨ d = e.cut (bitmapSize (highestTop memoryMap)) := by
      rcases List.mem_append.mp hd with hd | hd
      · exact Or.inl (by rw [heq]; simp [hd])
      · rcases List.mem_cons.mp hd with hd | hd
        · exact Or.inr hd
        · exact Or.inl (by rw [heq]; simp [hd])
    rcases hcases with hd | rfl
    · have hc := hbound d hd hdu
      omega
    · have hb : (e.cut (bitmapSize (highestTop memoryMap))).base = _ := add64_of_lt (by omega)
      have hl : (e.cut (bitmapSize (highestTop memoryMap))).length = _ :=
        sub64_of_le (by omega) hs
      rw [hb, hl]
      omega
  obtain ⟨hpmm, hb, ht, hbits⟩ := pmmInit_of_host m rfl hhosted (by omega) hsize hrest
  refine ⟨e, pre, post, heq, hu, hs, hpre, hpmm, hb, ht, fun f hf => ?_⟩
  rw [hbits f hf, hframes f, InitiallyFree]

/-- `pmm_init` hosts the bitmap at the base of a usable entry and leaves
exactly the other usable frames free, frame 0 excepted. -/
theorem pmmInit_spec {memoryMap : List MmapEntry} (m : Mem) (hm : MapOk memoryMap)
    (hN : pageToBit (highestTop memoryMap) ≤ 2 ^ 31) :
    ∃ base, PmmInv (pmmInit m memoryMap).1 (pmmInit m memoryMap).2.1 base
        {f | InitiallyFree memoryMap base f} ∅ ∧
      (pmmInit m memoryMap).2.1.bitmap =
        ⟨physToHigherHalfData base, bitmapSize (highestTop memoryMap)⟩ ∧
      (pmmInit m memoryMap).2.1.highestPageTop = highestTop memoryMap ∧
      (∃ e ∈ memoryMap, e.type = .usable ∧ e.base = base) ∧
      ∀ f < 8 * bitmapSize (highestTop memoryMap),
        usedBit (pmmInit m memoryMap).1 base f = false ↔ InitiallyFree memoryMap base f := by
  have hsize := bitmapSize_le hN
  have hsal := bitmapSize_aligned memoryMap
  have hbound : ∀ e ∈ memoryMap, e.type = .usable → e.base + e.length ≤ 2 ^ 43 := by
    intro e he hu
    have hc := hm.covered e he hu
    omega
  obtain ⟨e, pre, post, heq, hu, hs, _, _, hb, ht, hfree⟩ :=
    pmmInit_bits m hm.aligned hm.disjoint hm.host hbound hsize
  have hemem : e ∈ memoryMap := by rw [heq]; simp
  have hecov := hbound e hemem hu
  have hea := hm.aligned e hemem hu
  refine ⟨e.base, ⟨?_, hea.1, ?_, ?_, ?_, ?_, Set.empty_subset _, ?_⟩, hb, ht,
    ⟨e, hemem, hu, rfl⟩, hfree⟩
  all_goals rw [hb]
  · exact ⟨rfl, by omega⟩
  · exact hsal
  · exact hsize
  · rw [ht]
    exact hm.topCovered
  · rintro f ⟨h0, ⟨d, hd, hdu, hlo, hhi⟩, hnot⟩
    have hda := hm.aligned d hd hdu
    have hdt := hm.usable_below_top hN hd hdu
    refine ⟨h0, ?_, ?_⟩
    · rw [ht]
      unfold pageToBit pageSize
      omega
    · show f < e.base / 4096 ∨ (e.base + bitmapSize (highestTop memoryMap)) / 4096 ≤ f
      omega
  · exact fun f hf hclear => ⟨(hfree f hf).mp hclear, fun hc => hc⟩

/-- Where `pmm_init` puts the bitmap: the first usable entry long enough. -/
def bitmapHost (memoryMap : List MmapEntry) : Option MmapEntry :=
  memoryMap.find? (fun e => e.type = .usable ∧ bitmapSize (highestTop memoryMap) ≤ e.length)

/-- After `pmm_init` a bit of the bitmap is clear exactly if its frame is not
frame 0, lies in a usable entry and is none of the bitmap's own frames. -/
theorem pmm_init_classifies_frames (m : Mem) (memoryMap : List MmapEntry)
    (haligned : ∀ e ∈ memoryMap, e.type = .usable → e.base % 4096 = 0 ∧ e.length % 4096 = 0)
    (hdisjoint : memoryMap.Pairwise (fun a b => a.type = .usable → b.type = .usable →
      a.base + a.length ≤ b.base ∨ b.base + b.length ≤ a.base))
    (hhost : ∃ e ∈ memoryMap, e.type = .usable ∧
      bitmapSize (highestTop memoryMap) ≤ e.length)
    (htop : ∀ e ∈ memoryMap, countsAsRam e.type = true → e.base + e.length < 2 ^ 43) :
    ∃ host, bitmapHost memoryMap = some host ∧
      ∀ f < 8 * (pmmInit m memoryMap).2.1.bitmap.size,
        bitmapCheckBit (pmmInit m memoryMap).1 (pmmInit m memoryMap).2.1.bitmap (toInt f) = 0#8 ↔
          f ≠ 0 ∧ UsableFrame memoryMap f ∧
            ¬ (host.base / 4096 ≤ f ∧
              f < host.base / 4096 + (pmmInit m memoryMap).2.1.bitmap.size / 4096) := by
  have hbelow : highestTop memoryMap ≤ 2 ^ 43 :=
    foldl_raiseTop_le memoryMap (fun e he hram => le_of_lt (htop e he hram)) (by positivity)
  have hsize : 8 * bitmapSize (highestTop memoryMap) ≤ 2 ^ 31 :=
    bitmapSize_le (by unfold pageToBit pageSize; omega)
  have hsal := bitmapSize_aligned memoryMap
  have hram : ∀ e ∈ memoryMap, e.type = .usable → e.base + e.length ≤ 2 ^ 43 :=
    fun e he hu => le_of_lt (htop e he (by simp [countsAsRam, hu]))
  obtain ⟨e, pre, post, heq, hu, hs, hpre, _, hb, _, hfree⟩ :=
    pmmInit_bits m haligned hdisjoint hhost hram hsize
  have hemem : e ∈ memoryMap := by rw [heq]; simp
  have hbound := hram e hemem hu
  have hea := haligned e hemem hu
  refine ⟨e, ?_, fun f hf => ?_⟩
  · unfold bitmapHost
    generalize bitmapSize (highestTop memoryMap) = size at hs hpre
    rw [heq, List.find?_append, List.find?_eq_none.mpr (by simpa using hpre), Option.none_or,
      List.find?_cons_of_pos (by simpa using ⟨hu, hs⟩)]
  · rw [hb] at hf ⊢
    have hf' : f < 8 * bitmapSize (highestTop memoryMap) := hf
    rw [bitmapCheckBit_eq ⟨rfl, by omega⟩ (by omega), hfree f hf', InitiallyFree]
    have hdiv : (e.base + bitmapSize (highestTop memoryMap)) / 4096 =
        e.base / 4096 + bitmapSize (highestTop memoryMap) / 4096 := by omega
    rw [hdiv]

section OneEntry

variable {base length : Nat}

theorem highestTop_single (h : base + length < 2 ^ 64) :
    highestTop [⟨base, length, .usable⟩] = base + length := by
  apply le_antisymm
  · refine foldl_raiseTop_le _ (fun e he _ => ?_) (Nat.zero_le _)
    rw [List.mem_singleton.mp he]
  · have hle := (foldl_raiseTop_bounds [⟨base, length, .usable⟩]
      (show 0 < 2 ^ 64 by positivity)).2.2 _ (List.mem_singleton.mpr rfl) rfl
    rwa [add64_of_lt h] at hle

/-- A map of one usable entry that has room for the bitmap of all frames below its end. -/
theorem mapOk_single (hbase : base % 4096 = 0) (hlength : length % 4096 = 0)
    (htop : base + length < 2 ^ 64) {size : Nat}
    (hsize : ((base + length) / 4096 / 8 + 4095) / 4096 * 4096 = size) (hhost : size ≤ length)
    (hcovered : base + length ≤ 4096 * (8 * size)) :
    MapOk [⟨base, length, .usable⟩] ∧
    highestTop [⟨base, length, .usable⟩] = base + length ∧
      bitmapSize (highestTop [⟨base, length, .usable⟩]) = size := by
  have hhighest := highestTop_single htop
  have hbitmap : bitmapSize (highestTop [⟨base, length, .usable⟩]) = size := by
    rw [hhighest, bitmapSize_eq htop, hsize]
  refine ⟨⟨?_, List.pairwise_singleton _ _, ⟨_, List.mem_singleton.mpr rfl, rfl, ?_⟩, ?_,
    ?_⟩, hhighest, hbitmap⟩
  · intro e he _
    rw [List.mem_singleton.mp he]
    exact ⟨hbase, hlength⟩
  · rw [hbitmap]
    exact hhost
  · rw [hbitmap, hhighest]
    unfold pageToBit pageSize
    omega
  · intro e he _
    rw [List.mem_singleton.mp he, hbitmap]
    exact hcovered

theorem initiallyFree_single {memoryMap : List MmapEntry} {size f : Nat}
    (hmap : memoryMap = [⟨base, length, .usable⟩])
    (hsize : bitmapSize (highestTop memoryMap) = size) (hf : f ≠ 0)
    (h1 : (base + size) / 4096 ≤ f) (h2 : f < base / 4096 + length / 4096) :
    InitiallyFree memoryMap base f := by
  refine ⟨hf, ⟨⟨base, length, .usable⟩, by simp [hmap], rfl, ?_, h2⟩, ?_⟩
  · show base / 4096 ≤ f
    omega
  · rw [hsize]
    omega

end OneEntry

/-- One usable entry of sixteen pages, from frame 1 to frame 16. -/
def smallMap : List MmapEntry := [⟨0x1000, 0x10000, .usable⟩]

theorem smallMap_layout : MapOk smallMap ∧ highestTop smallMap = 0x11000 ∧
    bitmapSize (highestTop smallMap) = 4096 :=
  mapOk_single (by decide) (by decide) (by decide) (by decide) (by decide) (by decide)

theorem smallMap_ok : MapOk smallMap := smallMap_layout.1

theorem smallMap_frames_le : pageToBit (highestTop smallMap) ≤ 2 ^ 31 := by
  rw [smallMap_layout.2.1]
  decide

/-- On this map frame 1 holds the bitmap and frame 2 is free. -/
theorem pmm_init_classifies_frames_smallMap :
    bitmapCheckBit (pmmInit (fun _ => 0#8) smallMap).1
      (pmmInit (fun _ => 0#8) smallMap).2.1.bitmap (toInt 1) ≠ 0#8 ∧
    bitmapCheckBit (pmmInit (fun _ => 0#8) smallMap).1
      (pmmInit (fun _ => 0#8) smallMap).2.1.bitmap (toInt 2) = 0#8 := by
  have hsize : (pmmInit (fun _ => 0#8) smallMap).2.1.bitmap.size = 4096 := by decide +kernel
  have hfirst : bitmapHost smallMap = some ⟨0x1000, 0x10000, .usable⟩ := by decide +kernel
  obtain ⟨host, hhost, hbits⟩ := pmm_init_classifies_frames (fun _ => 0#8) smallMap
    smallMap_ok.aligned smallMap_ok.disjoint smallMap_ok.host (by decide)
  obtain rfl := Option.some.inj (hfirst.symm.trans hhost)
  rw [hsize] at hbits
  refine ⟨fun hclear => ((hbits 1 (by decide)).mp hclear).2.2 (by decide),
    (hbits 2 (by decide)).mpr ⟨by decide, ?_, by decide⟩⟩
  exact ⟨_, List.mem_singleton.mpr rfl, rfl, by decide, by decide⟩

/-- One usable frame besides the bitmap's. -/
def oneFrameMap : List MmapEntry :=
  [⟨0x1000, 0x2000, .usable⟩, ⟨0x3000, 0x6000, .kernelAndModules⟩]

theorem oneFrameMap_ok : MapOk oneFrameMap where
  aligned := by decide
  disjoint := by decide +kernel
  host := ⟨_, List.mem_cons_self, rfl, by decide +kernel⟩
  topCovered := by decide +kernel
  covered := by decide +kernel

/-- The kernel after `pmm_init` on zeroed memory. -/
def bootKernel (memoryMap : List MmapEntry) : Kernel Pmm :=
  ⟨(pmmInit (fun _ => 0#8) memoryMap).1, (pmmInit (fun _ => 0#8) memoryMap).2.1, []⟩

/-- After `pmm_init` the allocator serves single frames as its clients expect,
unless the bitmap sits at address 0, where a refused request would wipe it. -/
theorem bootKernel_lawful {memoryMap : List MmapEntry} (hm : MapOk memoryMap)
    (hN : pageToBit (highestTop memoryMap) ≤ 2 ^ 31)
    (hlow : ∀ e ∈ memoryMap, e.type = .usable → 4096 ≤ e.base) :
    ∃ U Holds, pmmFrames.Lawful U Holds ∧
      Holds (bootKernel memoryMap).mem (bootKernel memoryMap).frames ∅ := by
  obtain ⟨base, hinv, _, htop, ⟨e, he, hu, hbase⟩, _⟩ := pmmInit_spec (fun _ => 0#8) hm hN
  refine ⟨_, _, pmmFrames_lawful base {f | InitiallyFree memoryMap base f}
    (hbase ▸ hlow e he hu) (fun f hf => ?_), hinv⟩
  have hf' := hinv.managed f hf
  rw [htop] at hf'
  exact ⟨hf'.1, by omega⟩

end ApoptOS
