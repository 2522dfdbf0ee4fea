import ApoptOS.Memory.Physical.Pmm

namespace ApoptOS

open Framework

/-- `bitmap_check_bit` answers that bit `f` is clear. -/
def ProbeClear (m : Mem) (pmm : Pmm) (f : Nat) : Prop :=
  bitmapCheckBit m pmm.bitmap (toInt f) = 0#8

/-- `pageCount` free frames from `i` on, all below the top of memory. -/
def FreeRun (m : Mem) (pmm : Pmm) (pageCount i : Nat) : Prop :=
  i + pageCount ≤ pageToBit pmm.highestPageTop ∧ ∀ j < pageCount, BitClear m pmm (i + j)

instance (m : Mem) (pmm : Pmm) (pageCount i : Nat) : Decidable (FreeRun m pmm pageCount i) :=
  inferInstanceAs (Decidable (_ ∧ ∀ j < pageCount, _))

/-- The bits that the inner loop of the search checks, in order. -/
def pageRangeReads (m : Mem) (bitmap : Bitmap) (allBitsI pageCount : Nat) : Nat → List Nat
  | 0 => []
  | remaining + 1 =>
    let pageCountI := pageCount - (remaining + 1)
    (allBitsI + pageToBit pageCountI) ::
      if bitmapCheckBit m bitmap (toInt (allBitsI + pageToBit pageCountI)) ≠ 0#8 then []
      else if pageCountI = pageCount - 1 then []
      else pageRangeReads m bitmap allBitsI pageCount remaining

def findFreeReads (m : Mem) (pmm : Pmm) (pageCount : Nat) : Nat → List Nat
  | 0 => []
  | remaining + 1 =>
    let allBitsI := pageToBit pmm.highestPageTop - (remaining + 1)
    pageRangeReads m pmm.bitmap allBitsI pageCount pageCount ++
      if pageRangeFree m pmm.bitmap allBitsI pageCount pageCount then []
      else findFreeReads m pmm pageCount remaining

/-- The bits that `pmm_find_first_free_page_range` checks. -/
def searchReads (m : Mem) (pmm : Pmm) (pageCount : Nat) : List Nat :=
  findFreeReads m pmm pageCount (pageToBit pmm.highestPageTop)

/-- The bits that `pmm_alloc` sets. -/
def allocSets (m : Mem) (pmm : Pmm) (pageCount : Nat) : List Nat :=
  if (pmmAlloc pageCount m pmm).1 = 0 then []
  else (List.range pageCount).map (fun i => pageToBit (pmmAlloc pageCount m pmm).1 + i)

/-- `pmm_alloc` is first fit over runs of free frames, and stays below the top of
memory with every bit it checks or sets. -/
structure FirstFitRange (m : Mem) (pmm : Pmm) (pageCount : Nat) : Prop where
  null_iff : (pmmAlloc pageCount m pmm).1 = 0 ↔ ∀ i, ¬ FreeRun m pmm pageCount i
  least : ∀ i, FreeRun m pmm pageCount i → (∀ i' < i, ¬ FreeRun m pmm pageCount i') →
    (pmmAlloc pageCount m pmm).1 = 4096 * i
  reads : ∀ f ∈ searchReads m pmm pageCount, f < pageToBit pmm.highestPageTop
  sets : ∀ f ∈ allocSets m pmm pageCount, f < pageToBit pmm.highestPageTop

/-- Where the search gets by with checking one bit for 4096 frames: it does not pass
over a free run, the lowest index it accepts starts one, or is 0 while there is none;
and when it accepts none, a request of more than 4096 pages does not meet a clear last
bit. -/
structure ProbesSuffice (m : Mem) (pmm : Pmm) (pageCount : Nat) : Prop where
  met : ∀ i, FreeRun m pmm pageCount i → ∃ l ≤ i, ProbesFree m pmm pageCount l
  whole : ∀ i, LowestProbe m pmm pageCount i → i ≠ 0 → FreeRun m pmm pageCount i
  null : LowestProbe m pmm pageCount 0 →
    (∀ i, ¬ FreeRun m pmm pageCount i) ∧ pageCount ≤ 4096 * pageToBit pmm.highestPageTop
  last : (∀ i < pageToBit pmm.highestPageTop, ¬ ProbesFree m pmm pageCount i) →
    pageCount ≤ 4096 ∨ pageToBit pmm.highestPageTop = 0 ∨
      ¬ ProbeClear m pmm (pageToBit pmm.highestPageTop - 1)

section Reads

variable {m : Mem} {pmm : Pmm} {pageCount : Nat}

private theorem mem_pageRangeReads (m : Mem) (pmm : Pmm) (allBitsI g remaining : Nat)
    (hr : remaining ≤ pageCount) :
    g ∈ pageRangeReads m pmm.bitmap allBitsI pageCount remaining ↔
      ∃ j, pageCount - remaining ≤ j ∧ j < pageCount ∧ g = allBitsI + pageToBit j ∧
        ∀ j', pageCount - remaining ≤ j' → j' < j →
          ProbeClear m pmm (allBitsI + pageToBit j') := by
  induction remaining with
  | zero =>
    simp only [pageRangeReads, List.not_mem_nil, false_iff]
    rintro ⟨j, hlo, hhi, -⟩
    omega
  | succ r ih =>
    have ih := ih (by omega)
    obtain ⟨j₀, hj₀⟩ : ∃ j₀, j₀ = pageCount - (r + 1) := ⟨_, rfl⟩
    have hstep : pageCount - r = j₀ + 1 := by omega
    rw [hstep] at ih
    simp only [pageRangeReads, ← hj₀]
    -- either this read is the one, or the bit is clear and a later one is
    have hfirst : allBitsI + pageToBit j₀ = g → ∃ j, j₀ ≤ j ∧ j < pageCount ∧
        g = allBitsI + pageToBit j ∧
        ∀ j', j₀ ≤ j' → j' < j → ProbeClear m pmm (allBitsI + pageToBit j') :=
      fun he => ⟨j₀, le_rfl, by omega, he.symm, fun j' h1 h2 => by omega⟩
    by_cases hbit : bitmapCheckBit m pmm.bitmap (toInt (allBitsI + pageToBit j₀)) = 0#8
    · have hlater : g ∈ pageRangeReads m pmm.bitmap allBitsI pageCount r →
          ∃ j, j₀ ≤ j ∧ j < pageCount ∧ g = allBitsI + pageToBit j ∧
          ∀ j', j₀ ≤ j' → j' < j → ProbeClear m pmm (allBitsI + pageToBit j') := by
        intro hg
        obtain ⟨j, hlo, hhi, hj, hclear⟩ := ih.mp hg
        refine ⟨j, by omega, hhi, hj, fun j' h1 h2 => ?_⟩
        by_cases he : j' = j₀
        · rw [he]
          exact hbit
        · exact hclear j' (by omega) h2
      simp only [hbit, ne_eq, not_true_eq_false, if_false]
      constructor
      · intro hg
        rcases List.mem_cons.mp hg with he | hg
        · exact hfirst he.symm
        · split_ifs at hg with hlast
          · simp at hg
          · exact hlater hg
      · rintro ⟨j, hlo, hhi, hj, hclear⟩
        by_cases he : j = j₀
        · rw [hj, he]
          exact List.mem_cons_self
        · refine List.mem_cons_of_mem _ ?_
          rw [if_neg (by omega)]
          exact ih.mpr ⟨j, by omega, hhi, hj, fun j' h1 h2 => hclear j' (by omega) h2⟩
    · simp only [ne_eq, hbit, not_false_eq_true, if_true, List.mem_singleton]
      constructor
      · exact fun he => hfirst he.symm
      · rintro ⟨j, hlo, hhi, hj, hclear⟩
        by_cases he : j = j₀
        · rw [hj, he]
        · exact absurd (hclear j₀ le_rfl (by omega)) hbit

private theorem mem_findFreeReads (m : Mem) (hp : 0 < pageCount) (g remaining : Nat)
    (hr : remaining ≤ pageToBit pmm.highestPageTop) :
    g ∈ findFreeReads m pmm pageCount remaining ↔
      ∃ i, pageToBit pmm.highestPageTop - remaining ≤ i ∧ i < pageToBit pmm.highestPageTop ∧
        (∀ i', pageToBit pmm.highestPageTop - remaining ≤ i' → i' < i →
          ¬ ProbesFree m pmm pageCount i') ∧
        ∃ j < pageCount, g = i + pageToBit j ∧
          ∀ j' < j, ProbeClear m pmm (i + pageToBit j') := by
  induction remaining with
  | zero =>
    simp only [findFreeReads, List.not_mem_nil, false_iff]
    rintro ⟨i, hlo, hhi, -⟩
    omega
  | succ r ih =>
    have ih := ih (by omega)
    obtain ⟨i₀, hi₀⟩ : ∃ i₀, i₀ = pageToBit pmm.highestPageTop - (r + 1) :=
      ⟨_, rfl⟩
    have hstep : pageToBit pmm.highestPageTop - r = i₀ + 1 := by omega
    rw [hstep] at ih
    have hrange := mem_pageRangeReads m pmm i₀ g pageCount le_rfl
    simp only [Nat.sub_self, Nat.zero_le, true_implies, true_and] at hrange
    simp only [findFreeReads, ← hi₀, List.mem_append, hrange]
    by_cases hacc : pageRangeFree m pmm.bitmap i₀ pageCount pageCount = true
    · have hprobe := ((pageRangeFree_iff i₀).mp hacc).2
      simp only [hacc, if_true, List.not_mem_nil, or_false]
      constructor
      · intro hg
        exact ⟨i₀, le_rfl, by omega, fun i' h1 h2 => by omega, hg⟩
      · rintro ⟨i, hlo, hhi, hnone, hg⟩
        by_cases he : i = i₀
        · rwa [he] at hg
        · exact absurd hprobe (hnone i₀ le_rfl (by omega))
    · have hprobe : ¬ ProbesFree m pmm pageCount i₀ :=
        fun h => hacc ((pageRangeFree_iff i₀).mpr ⟨hp, h⟩)
      simp only [hacc, Bool.false_eq_true, if_false, ih]
      constructor
      · rintro (hg | ⟨i, hlo, hhi, hnone, hg⟩)
        · exact ⟨i₀, le_rfl, by omega, fun i' h1 h2 => by omega, hg⟩
        · refine ⟨i, by omega, hhi, fun i' h1 h2 => ?_, hg⟩
          by_cases he : i' = i₀
          · rwa [he]
          · exact hnone i' (by omega) h2
      · rintro ⟨i, hlo, hhi, hnone, hg⟩
        by_cases he : i = i₀
        · rw [he] at hg
          exact .inl hg
        · exact .inr ⟨i, by omega, hhi, fun i' h1 h2 => hnone i' (by omega) h2, hg⟩

/-- A bit is checked if it is probed for an index that no accepted one precedes, and
all probes before it were clear. -/
theorem mem_searchReads (hp : 0 < pageCount) (g : Nat) :
    g ∈ searchReads m pmm pageCount ↔
      ∃ i < pageToBit pmm.highestPageTop, (∀ i' < i, ¬ ProbesFree m pmm pageCount i') ∧
        ∃ j < pageCount, g = i + pageToBit j ∧
          ∀ j' < j, ProbeClear m pmm (i + pageToBit j') := by
  have h := mem_findFreeReads m hp g (pageToBit pmm.highestPageTop) le_rfl
  unfold searchReads
  simpa only [Nat.sub_self, Nat.zero_le, true_implies, true_and] using h

/-- A free run passes the probes, as long as an `int` carries every index. -/
theorem FreeRun.probesFree {base i : Nat} (hstored : pmm.bitmap.StoredAt base)
    (htop : pageToBit pmm.highestPageTop ≤ 2 ^ 31) (h : FreeRun m pmm pageCount i) :
    ProbesFree m pmm pageCount i := by
  intro j hj
  have hle : pageToBit j < pageCount := lt_of_le_of_lt (Nat.div_le_self j 4096) hj
  have hend := h.1
  exact (bitClear_iff hstored (by omega)).mpr (h.2 _ hle)

theorem exists_lowestProbe {i : Nat} (hi : i < pageToBit pmm.highestPageTop)
    (h : ProbesFree m pmm pageCount i) : ∃ i', LowestProbe m pmm pageCount i' ∧ i' ≤ i := by
  have hex : ∃ i', ProbesFree m pmm pageCount i' := ⟨i, h⟩
  have hle := Nat.find_min' hex h
  exact ⟨Nat.find hex, ⟨by omega, Nat.find_spec hex, fun i' hi' => Nat.find_min hex hi'⟩,
    hle⟩

/-- What `pmm_alloc` returns, in terms of the probes. -/
theorem pmmAlloc_pointer (hp : 0 < pageCount) (hused : 0 < pmm.usedPagesCount)
    (htop : pmm.highestPageTop < 2 ^ 64) :
    ((pmmAlloc pageCount m pmm).1 = 0 ∧
      ∀ i < pageToBit pmm.highestPageTop, ¬ ProbesFree m pmm pageCount i) ∨
    ∃ i, LowestProbe m pmm pageCount i ∧ (pmmAlloc pageCount m pmm).1 = 4096 * i := by
  have hu : ¬ pmm.usedPagesCount ≤ 0 := by omega
  rcases pmmFindFirstFreePageRange_spec m pmm hp with ⟨hnull, hnone⟩ | ⟨i, hlow, hfound⟩
  · refine .inl ⟨?_, hnone⟩
    simp only [pmmAlloc, hu, if_false, hnull, if_true]
  · refine .inr ⟨i, hlow, ?_⟩
    have hi : i < pmm.highestPageTop / 4096 := hlow.1
    have hbit : bitToPage i = 4096 * i := by
      unfold bitToPage pageSize
      omega
    have hpage : pageToBit (4096 * i) = i := by
      unfold pageToBit pageSize
      omega
    rw [hbit] at hfound
    by_cases h0 : 4096 * i = 0
    · simp only [pmmAlloc, hu, if_false, hfound, h0, if_true]
    · simp only [pmmAlloc, hu, if_false, hfound, h0, hpage, hbit]

end Reads

section FirstFit

variable {m : Mem} {pmm : Pmm} {pageCount : Nat}

theorem FirstFitRange.probesSuffice (h : FirstFitRange m pmm pageCount) (hp : 0 < pageCount)
    (hused : 0 < pmm.usedPagesCount) (htop : pmm.highestPageTop < 2 ^ 64) :
    ProbesSuffice m pmm pageCount := by
  have hret : ∀ i, LowestProbe m pmm pageCount i → (pmmAlloc pageCount m pmm).1 = 4096 * i := by
    intro i hlow
    rcases pmmAlloc_pointer (m := m) hp hused htop with ⟨-, hno⟩ | ⟨l, hl, hret⟩
    · exact absurd hlow.2.1 (hno i hlow.1)
    · rwa [hl.unique hlow] at hret
  refine ⟨fun i hi => ?_, fun i hlow hi => ?_, fun hlow => ⟨?_, ?_⟩, fun hnone => ?_⟩
  · have hex : ∃ r, FreeRun m pmm pageCount r := ⟨i, hi⟩
    have hle := Nat.find_min' hex hi
    have hleast := h.least _ (Nat.find_spec hex) (fun _ => Nat.find_min hex)
    rcases pmmAlloc_pointer (m := m) hp hused htop with ⟨hnull, -⟩ | ⟨l, hl, hret⟩
    · exact absurd hi (h.null_iff.mp hnull i)
    · exact ⟨l, by omega, hl.2.1⟩
  · have hne : (pmmAlloc pageCount m pmm).1 ≠ 0 := by
      rw [hret i hlow]
      omega
    have hex : ∃ r, FreeRun m pmm pageCount r := by
      by_contra hno
      exact hne (h.null_iff.mpr (not_exists.mp hno))
    have hleast := h.least _ (Nat.find_spec hex) (fun _ => Nat.find_min hex)
    rw [hret i hlow] at hleast
    have hi : i = Nat.find hex := by omega
    rw [hi]
    exact Nat.find_spec hex
  · exact h.null_iff.mp (hret 0 hlow)
  · -- index 0 is accepted after all its probes
    have hread := h.reads (0 + pageToBit (pageCount - 1)) ((mem_searchReads hp _).mpr
      ⟨0, hlow.1, hlow.2.2, pageCount - 1, by omega, rfl, fun j hj => hlow.2.1 j (by omega)⟩)
    have hdiv : pageToBit (pageCount - 1) = (pageCount - 1) / 4096 := rfl
    omega
  · by_contra hcon
    obtain ⟨hlarge, htop0, hlast⟩ : 4096 < pageCount ∧ pageToBit pmm.highestPageTop ≠ 0 ∧
        ProbeClear m pmm (pageToBit pmm.highestPageTop - 1) := by
      refine ⟨?_, ?_, ?_⟩
      · omega
      · exact fun h0 => hcon (.inr (.inl h0))
      · by_contra hset
        exact hcon (.inr (.inr hset))
    -- the last index probes its own bit 4096 times and then the one above
    have hread := h.reads (pageToBit pmm.highestPageTop - 1 + pageToBit 4096)
      ((mem_searchReads hp _).mpr ⟨pageToBit pmm.highestPageTop - 1, by omega,
        fun i' hi' => hnone i' (by omega), 4096, hlarge, rfl, fun j hj => ?_⟩)
    · have hdiv : pageToBit 4096 = 1 := rfl
      omega
    · have hdiv : pageToBit j = 0 := Nat.div_eq_of_lt hj
      rw [hdiv]
      exact hlast

/-- A checked bit at or above `bound` leaves all bits from its index up to `bound`
clear. -/
theorem clear_up_to {i g j bound : Nat} (hg : g = i + pageToBit j)
    (hclear : ∀ j' < j, ProbeClear m pmm (i + pageToBit j')) (hb : bound ≤ g) {f : Nat}
    (hi : i ≤ f) (hf : f < bound) : ProbeClear m pmm f := by
  have hdiv : pageToBit (4096 * (f - i)) = f - i := by
    unfold pageToBit pageSize
    omega
  have hj : pageToBit j = j / 4096 := rfl
  have h := hclear (4096 * (f - i)) (by omega)
  rw [hdiv] at h
  rwa [Nat.add_sub_cancel' hi] at h

theorem ProbesSuffice.reads (h : ProbesSuffice m pmm pageCount) (hp : 0 < pageCount) :
    ∀ f ∈ searchReads m pmm pageCount, f < pageToBit pmm.highestPageTop := by
  intro g hg
  obtain ⟨i, hi, hbefore, j, hj, rfl, hclear⟩ := (mem_searchReads hp g).mp hg
  by_contra hhigh
  have hup : ∀ f, i ≤ f → f < pageToBit pmm.highestPageTop → ProbeClear m pmm f :=
    fun f h1 h2 => clear_up_to rfl hclear (Nat.le_of_not_lt hhigh) h1 h2
  have hdiv : ∀ j', pageToBit j' = j' / 4096 := fun _ => rfl
  by_cases hex : ∃ l < pageToBit pmm.highestPageTop, ProbesFree m pmm pageCount l
  · obtain ⟨l₀, hl₀, hprobe⟩ := hex
    obtain ⟨l, hlow, -⟩ := exists_lowestProbe hl₀ hprobe
    by_cases hl0 : l = 0
    · obtain ⟨-, hle⟩ := h.null (hl0 ▸ hlow)
      have hi0 : i = 0 := by
        by_contra hi0
        exact hbefore l (by omega) hlow.2.1
      rw [hdiv] at hhigh
      omega
    · obtain ⟨hend, hrun⟩ := h.whole l hlow hl0
      have hil : i ≤ l := by
        by_contra hli
        exact hbefore l (by omega) hlow.2.1
      rw [hdiv] at hhigh
      by_cases he : i = l
      · omega
      · -- all bits from `i` on are clear, so `i` would have been accepted
        refine hlow.2.2 i (by omega) (fun j' hj' => hup _ (by omega) ?_)
        rw [hdiv]
        omega
  · have hnone : ∀ l < pageToBit pmm.highestPageTop, ¬ ProbesFree m pmm pageCount l :=
      fun l hl hprobe => hex ⟨l, hl, hprobe⟩
    rw [hdiv] at hhigh
    rcases h.last hnone with hsmall | hzero | hset
    · omega
    · omega
    · exact hset (hup _ (by omega) (by omega))

theorem ProbesSuffice.firstFitRange (h : ProbesSuffice m pmm pageCount) (hp : 0 < pageCount)
    (hused : 0 < pmm.usedPagesCount) (htop : pmm.highestPageTop < 2 ^ 64) :
    FirstFitRange m pmm pageCount := by
  have hlt : ∀ {i}, FreeRun m pmm pageCount i → i < pageToBit pmm.highestPageTop := by
    intro i hi
    have := hi.1
    omega
  rcases pmmAlloc_pointer (m := m) hp hused htop with ⟨hret, hno⟩ | ⟨l, hl, hret⟩
  · have hnone : ∀ i, ¬ FreeRun m pmm pageCount i := by
      intro i hi
      obtain ⟨l, hle, hprobe⟩ := h.met i hi
      exact hno l (lt_of_le_of_lt hle (hlt hi)) hprobe
    refine ⟨⟨fun _ => hnone, fun _ => hret⟩, fun i hi => absurd hi (hnone i),
      h.reads hp, ?_⟩
    simp [allocSets, hret]
  · by_cases hl0 : l = 0
    · obtain ⟨hnone, -⟩ := h.null (hl0 ▸ hl)
      have hnull : (pmmAlloc pageCount m pmm).1 = 0 := by omega
      refine ⟨⟨fun _ => hnone, fun _ => hnull⟩, fun i hi => absurd hi (hnone i),
        h.reads hp, ?_⟩
      simp [allocSets, hnull]
    · have hrun := h.whole l hl hl0
      have hne : (pmmAlloc pageCount m pmm).1 ≠ 0 := by omega
      refine ⟨⟨fun h0 => absurd h0 hne, fun hno => absurd hrun (hno l)⟩,
        fun i hi hleast => ?_, h.reads hp, fun f hf => ?_⟩
      · have h1 : l ≤ i := by
          obtain ⟨l', hle, hprobe⟩ := h.met i hi
          by_contra hil
          exact hl.2.2 l' (by omega) hprobe
        have h2 : i ≤ l := by
          by_contra hli
          exact hleast l (by omega) hrun
        rw [hret, le_antisymm h1 h2]
      · simp only [allocSets, hne, if_false, List.mem_map, List.mem_range] at hf
        obtain ⟨k, hk, rfl⟩ := hf
        have hpage : pageToBit (4096 * l) = l := by
          unfold pageToBit pageSize
          omega
        rw [hret, hpage]
        have := hrun.1
        omega

end FirstFit

/-- For every bitmap and every number of frames: `pmm_alloc` finds the lowest free run,
and says so when there is none, exactly when the probes of its search suffice. -/
theorem pmm_alloc_first_fit_iff (m : Mem) (pmm : Pmm) (pageCount : Nat) (hp : 0 < pageCount)
    (hused : 0 < pmm.usedPagesCount) (htop : pmm.highestPageTop < 2 ^ 64) :
    FirstFitRange m pmm pageCount ↔ ProbesSuffice m pmm pageCount :=
  ⟨fun h => h.probesSuffice hp hused htop, fun h => h.firstFitRange hp hused htop⟩

/-- Four frames, of which 1 and 3 are free. -/
def gapsMem : Mem := fun a => if a = 0x1000 then 0xF5#8 else 0xFF#8

def gapsPmm : Pmm := ⟨⟨physToHigherHalfData 0x1000, 4096⟩, 0x4000, 2⟩

theorem gapsPmm_stored : gapsPmm.bitmap.StoredAt 0x1000 := ⟨rfl, by decide⟩

theorem pmm_alloc_first_fit_iff_gaps :
    FirstFitRange gapsMem gapsPmm 1 ∧ (pmmAlloc 1 gapsMem gapsPmm).1 = 4096 * 1 := by
  have htop : pageToBit gapsPmm.highestPageTop ≤ 2 ^ 31 := by decide
  have hset : ¬ ProbesFree gapsMem gapsPmm 1 0 := by decide +kernel
  have hprobes : ProbesSuffice gapsMem gapsPmm 1 := by
    refine ⟨fun i hi => ⟨i, le_rfl, hi.probesFree gapsPmm_stored htop⟩,
      fun i hlow _ => ⟨hlow.1, fun j hj => ?_⟩, fun hlow => absurd hlow.2.1 hset,
      fun _ => .inl (by decide)⟩
    obtain rfl : j = 0 := by omega
    have hi := hlow.1
    exact (bitClear_iff gapsPmm_stored (by omega)).mp (hlow.2.1 0 hj)
  refine ⟨(pmm_alloc_first_fit_iff gapsMem gapsPmm 1 Nat.one_pos ?_ ?_).mpr hprobes, ?_⟩
  all_goals decide +kernel

/-- A request for two pages gets frame 1, although frame 2 is in use. -/
theorem pmm_alloc_takes_used_frame :
    ¬ FirstFitRange gapsMem gapsPmm 2 ∧ (∀ i, ¬ FreeRun gapsMem gapsPmm 2 i) ∧
      (pmmAlloc 2 gapsMem gapsPmm).1 = 0x1000 := by
  have hret : (pmmAlloc 2 gapsMem gapsPmm).1 = 0x1000 := by decide +kernel
  have hnone : ∀ i < 3, ¬ FreeRun gapsMem gapsPmm 2 i := by decide +kernel
  have hall : ∀ i, ¬ FreeRun gapsMem gapsPmm 2 i := by
    intro i hi
    have hend : i + 2 ≤ 4 := hi.1
    exact hnone i (by omega) hi
  refine ⟨fun h => ?_, hall, hret⟩
  have h0 := h.null_iff.mpr hall
  rw [hret] at h0
  simp at h0

end ApoptOS
