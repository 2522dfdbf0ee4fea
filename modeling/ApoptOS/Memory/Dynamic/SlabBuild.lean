import ApoptOS.Memory.Dynamic.SlabAllocFree

namespace ApoptOS

open Framework

variable {ρ : Type}

/-- The slots with index `lo ≤ i < j` of frame `f`, in address order. -/
def slotList (size f lo j : Nat) : List Nat :=
  (List.range' lo (j - lo)).map (fun i => f * 4096 + size * i)

theorem slotList_succ (size f : Nat) {lo j : Nat} (h : lo ≤ j) :
    slotList size f lo (j + 1) = slotList size f lo j ++ [f * 4096 + size * j] := by
  have hn : j + 1 - lo = (j - lo) + 1 := by omega
  have hj : lo + (j - lo) = j := by omega
  rw [slotList, slotList, hn, List.range'_1_concat, hj, List.map_append]
  rfl

theorem mem_slotList {size f lo j b : Nat} :
    b ∈ slotList size f lo j ↔ ∃ i, lo ≤ i ∧ i < j ∧ b = f * 4096 + size * i := by
  simp only [slotList, List.mem_map, List.mem_range'_1]
  constructor
  · rintro ⟨i, ⟨h1, h2⟩, rfl⟩
    exact ⟨i, h1, by omega, rfl⟩
  · rintro ⟨i, h1, h2, rfl⟩
    exact ⟨i, ⟨h1, by omega⟩, rfl⟩

theorem slotList_length (size f lo j : Nat) : (slotList size f lo j).length = j - lo := by
  simp [slotList]

/-- What `slab_create_slab` leaves in memory for a buffer in frame `f`, with
the new slab at `s` and the cursor at slab `c` or, with `c = 0`, at none. -/
structure SlabLinked (m m' : Mem) (cache f s c : Nat) : Prop where
  next : m'.load64 s = 0
  count : m'.load64 (s + 8) = m.load64 (cache + 16)
  home : m'.load64 (s + 16) = f * 4096
  head : m'.load64 (s + 24) = 0
  tail : m'.load64 (s + 32) = 0
  cursor : m'.load64 (cache + 32) = s
  first : m'.load64 (cache + 24) = if c = 0 then s else m.load64 (cache + 24)
  link : c ≠ 0 → m'.load64 c = s
  outside : ∀ x, (x < s ∨ s + 40 ≤ x) → (x < cache + 24 ∨ cache + 40 ≤ x) →
    (c = 0 ∨ x < c ∨ c + 8 ≤ x) → m' x = m x

theorem slabCreateSlab_spec {k : Kernel ρ} {cache f s c : Nat} (hs : s = f * 4096 + 4056)
    (hal : cache % 4096 = 0) (hcf : cache / 4096 ≠ f) (hf : f < 2 ^ 40)
    (hc : k.mem.load64 (cache + 32) = c)
    (hslab : c ≠ 0 → c / 4096 ≠ f ∧ c / 4096 ≠ cache / 4096 ∧ c % 4096 = 4056) :
    ∃ m', slabCreateSlab k cache (f * 4096) = { k with mem := m' } ∧
      SlabLinked k.mem m' cache f s c := by
  have hsa : sub64 (add64 (f * 4096) pageSize) slabSizeof = s := by
    unfold pageSize slabSizeof
    rw [add64_of_lt (by omega), sub64_of_le (by omega) (by omega)]
    omega
  have hcs : cache + 4096 ≤ s ∨ s + 40 ≤ cache := by omega
  have hmaxw := k.mem.load64_lt (cache + 16)
  have hsw : s % 2 ^ 64 = s := by omega
  -- the slab structure alone, before it is linked
  obtain ⟨max, hmax⟩ : ∃ max, max = k.mem.load64 (cache + 16) := ⟨_, rfl⟩
  obtain ⟨m5, hm5⟩ : ∃ m5, m5 = k.mem.storeWords s [0, max, f * 4096, 0, 0] := ⟨_, rfl⟩
  have hread : (k.mem.store64 s 0).load64 (cache + 16) = max := by
    rw [hmax]
    exact Mem.load64_store64_other _ _ (by omega)
  have hwrites : ((((k.mem.store64 s 0).store64 (s + 8) max).store64 (s + 16)
      (f * 4096)).store64 (s + 24) 0).store64 (s + 32) 0 = m5 := hm5.symm
  have hwords : ∀ i v, ([0, max, f * 4096, 0, 0] : List Nat)[i]? = some v → v < 2 ^ 64 →
      m5.load64 (s + 8 * i) = v := by
    intro i v hv hlt
    rw [hm5, Mem.storeWords_load64 _ _ _ _ _ hv, Nat.mod_eq_of_lt hlt]
  have hout : ∀ x, (x < s ∨ s + 40 ≤ x) → m5 x = k.mem x := by
    intro x hx
    rw [hm5]
    exact Mem.storeWords_outside _ _ _ _ hx
  have hword : ∀ a, (a + 8 ≤ s ∨ s + 40 ≤ a) → m5.load64 a = k.mem.load64 a :=
    fun a ha => Mem.load64_congr (fun x h1 h2 => hout x (by omega))
  have hcur : m5.load64 (cache + 32) = c := (hword _ (by omega)).trans hc
  have h0 := hwords 0 0 rfl (by omega)
  have h8 := hwords 1 max rfl (by omega)
  have h16 := hwords 2 (f * 4096) rfl (by omega)
  have h24 := hwords 3 0 rfl (by omega)
  have h32 := hwords 4 0 rfl (by omega)
  clear hwords hm5
  have hunfold : slabCreateSlab k cache (f * 4096) =
      if m5.load64 (cache + 32) = 0 then
        { k with mem := ((m5.store64 (cache + 24) s).store64 (cache + 32) s) }
      else
        { k with mem := ((m5.store64 (m5.load64 (cache + 32)) s).store64 (cache + 32)
          ((m5.store64 (m5.load64 (cache + 32)) s).load64
            ((m5.store64 (m5.load64 (cache + 32)) s).load64 (cache + 32)))) } := by
    unfold slabCreateSlab
    rw [hsa]
    simp only [Kernel.setSlabNext, Kernel.setSlabBufctlCount, Kernel.setSlabBufctlAddr,
      Kernel.setSlabFreelistHead, Kernel.setSlabFreelist, Kernel.cacheBufctlCountMax,
      Kernel.cacheSlabs, Kernel.setCacheSlabsHead, Kernel.setCacheSlabs, Kernel.slabNext,
      Kernel.store64, hread, hwrites]
  rw [hunfold, hcur]
  by_cases hc0 : c = 0
  · rw [if_pos hc0]
    refine ⟨_, rfl, ?_⟩
    have hold : ∀ a, (a + 8 ≤ cache + 24 ∨ cache + 40 ≤ a) →
        ((m5.store64 (cache + 24) s).store64 (cache + 32) s).load64 a = m5.load64 a := by
      intro a ha
      rw [Mem.load64_store64_other _ _ (by omega), Mem.load64_store64_other _ _ (by omega)]
    refine ⟨?_, ?_, ?_, ?_, ?_, ?_, ?_, fun h => absurd hc0 h, ?_⟩
    · exact (hold _ (by omega)).trans h0
    · exact (hold _ (by omega)).trans (h8.trans hmax)
    · exact (hold _ (by omega)).trans h16
    · exact (hold _ (by omega)).trans h24
    · exact (hold _ (by omega)).trans h32
    · rw [Mem.load64_store64_same, hsw]
    · rw [if_pos hc0, Mem.load64_store64_other _ _ (by omega), Mem.load64_store64_same, hsw]
    · intro x hx hxc _
      rw [Mem.store64_outside _ _ (by omega), Mem.store64_outside _ _ (by omega)]
      exact hout x hx
  · obtain ⟨hcfr, hcc, hcm⟩ := hslab hc0
    have hcs' : c + 40 ≤ s ∨ s + 40 ≤ c := by omega
    have hcc' : c + 40 ≤ cache ∨ cache + 40 ≤ c := by omega
    have hcurw : (m5.store64 c s).load64 (cache + 32) = c := by
      rw [Mem.load64_store64_other _ _ (by omega)]
      exact hcur
    have hnext : (m5.store64 c s).load64 c = s := by
      rw [Mem.load64_store64_same, hsw]
    rw [if_neg hc0, hcurw, hnext]
    refine ⟨_, rfl, ?_⟩
    have hold : ∀ a, (a + 8 ≤ cache + 32 ∨ cache + 40 ≤ a) →
        (a + 8 ≤ c ∨ c + 8 ≤ a) →
        ((m5.store64 c s).store64 (cache + 32) s).load64 a = m5.load64 a := by
      intro a ha hac
      rw [Mem.load64_store64_other _ _ (by omega), Mem.load64_store64_other _ _ (by omega)]
    refine ⟨?_, ?_, ?_, ?_, ?_, ?_, ?_, fun _ => ?_, ?_⟩
    · exact (hold _ (by omega) (by omega)).trans h0
    · exact (hold _ (by omega) (by omega)).trans (h8.trans hmax)
    · exact (hold _ (by omega) (by omega)).trans h16
    · exact (hold _ (by omega) (by omega)).trans h24
    · exact (hold _ (by omega) (by omega)).trans h32
    · rw [Mem.load64_store64_same, hsw]
    · rw [if_neg hc0]
      exact (hold _ (by omega) (by omega)).trans (hword _ (by omega))
    · rw [Mem.load64_store64_other _ _ (by omega), hnext]
    · intro x hx hxc hxs
      have hxs' : x < c ∨ c + 8 ≤ x := hxs.resolve_left hc0
      rw [Mem.store64_outside _ _ (by omega), Mem.store64_outside _ _ (by omega)]
      exact hout x hx

/-- The state of the inner loop of `slab_cache_grow` before slot `j`: the slab
at `s` in frame `f` has taken up the slots from `lo` on. `m0` is the memory
the loop started with. -/
structure Building (m0 m : Mem) (cache size max f s lo j : Nat) : Prop where
  outside : ∀ x, x / 4096 ≠ f → (x < cache + 16 ∨ cache + 24 ≤ x) → m x = m0 x
  maxWord : m.load64 (cache + 16) = max - min lo j
  count : m.load64 (s + 8) = max - min lo j
  next : m.load64 s = 0
  home : m.load64 (s + 16) = f * 4096
  list : Chain m.load64 0 (m.load64 (s + 24)) (slotList size f lo j)
  tail : m.load64 (s + 32) = (slotList size f lo j).getLastD 0
  fresh : ∀ i, j ≤ i → size * i + size ≤ 4056 → m.load64 (f * 4096 + size * i) = 0

section Building

variable {m0 m : Mem} {k : Kernel ρ} {cache size max f s lo j : Nat} {flags : SlabFlags}

theorem slot_apart (size : Nat) {i j : Nat} (h : i ≠ j) :
    size * i + size ≤ size * j ∨ size * j + size ≤ size * i := by
  rw [← Nat.mul_succ, ← Nat.mul_succ]
  rcases lt_or_gt_of_ne h with h | h
  · exact Or.inl (Nat.mul_le_mul_left size h)
  · exact Or.inr (Nat.mul_le_mul_left size h)

theorem prev_slot (size : Nat) {j : Nat} (h : 0 < j) : size * (j - 1) + size = size * j := by
  obtain ⟨i, rfl⟩ := Nat.exists_eq_succ_of_ne_zero (Nat.ne_of_gt h)
  rfl

/-- Numbering a slot does not touch its link. -/
theorem Building.setIndex (h : Building m0 m cache size max f s lo j)
    (hs : s = f * 4096 + 4056) (hcf : cache / 4096 ≠ f) (hal : cache % 4096 = 0)
    (hsize : 10 ≤ size) (hj : size * j + size ≤ 4056) (v : Nat) :
    Building m0 (m.store16 (f * 4096 + size * j + 8) v) cache size max f s lo j := by
  refine ⟨?_, ?_, ?_, ?_, ?_, ?_, ?_, ?_⟩
  · intro x hx hxc
    rw [Mem.store16_outside _ _ (by omega)]
    exact h.outside x hx hxc
  · rw [Mem.load64_store16_other _ _ (by omega)]
    exact h.maxWord
  · rw [Mem.load64_store16_other _ _ (by omega)]
    exact h.count
  · rw [Mem.load64_store16_other _ _ (by omega)]
    exact h.next
  · rw [Mem.load64_store16_other _ _ (by omega)]
    exact h.home
  · rw [Mem.load64_store16_other _ _ (by omega)]
    refine h.list.congr (fun b hb => ?_)
    obtain ⟨i, _, hij, rfl⟩ := mem_slotList.mp hb
    have hap := slot_apart size (Nat.ne_of_lt hij)
    rw [Mem.load64_store16_other _ _ (by omega)]
  · rw [Mem.load64_store16_other _ _ (by omega)]
    exact h.tail
  · intro i hji hi
    rw [Mem.load64_store16_other _ _ ?_]
    · exact h.fresh i hji hi
    · by_cases hij : i = j
      · subst hij
        omega
      · have hap := slot_apart size hij
        omega

/-- Slot 0 under `SLAB_NO_ALIGN`: it is left out and both counters drop. -/
theorem Building.skip (h : Building m0 m cache size max f s 1 0)
    (hs : s = f * 4096 + 4056) (hcf : cache / 4096 ≠ f) (hal : cache % 4096 = 0)
    (hmax : 0 < max) (hlt : max < 2 ^ 64) :
    Building m0 ((m.store64 (s + 8) (max - 1)).store64 (cache + 16) (max - 1))
      cache size max f s 1 1 := by
  have hw : (max - 1) % 2 ^ 64 = max - 1 := by omega
  have hold : ∀ a, (a + 8 ≤ s + 8 ∨ s + 16 ≤ a) →
      (a + 8 ≤ cache + 16 ∨ cache + 24 ≤ a) →
      ((m.store64 (s + 8) (max - 1)).store64 (cache + 16) (max - 1)).load64 a = m.load64 a := by
    intro a h1 h2
    rw [Mem.load64_store64_other _ _ (by omega), Mem.load64_store64_other _ _ (by omega)]
  refine ⟨?_, ?_, ?_, ?_, ?_, ?_, ?_, ?_⟩
  · intro x hx hxc
    rw [Mem.store64_outside _ _ (by omega), Mem.store64_outside _ _ (by omega)]
    exact h.outside x hx hxc
  · rw [Mem.load64_store64_same]
    exact hw
  · rw [Mem.load64_store64_other _ _ (by omega), Mem.load64_store64_same]
    exact hw
  · exact (hold _ (by omega) (by omega)).trans h.next
  · exact (hold _ (by omega) (by omega)).trans h.home
  · exact (hold _ (by omega) (by omega)).trans h.list
  · exact (hold _ (by omega) (by omega)).trans h.tail
  · intro i hi hin
    exact (hold _ (by omega) (by omega)).trans (h.fresh i (by omega) hin)

/-- The first slot taken up becomes head and tail of the free list. -/
theorem Building.first (h : Building m0 m cache size max f s j j)
    (hs : s = f * 4096 + 4056) (hal : cache % 4096 = 0)
    (hsize : 10 ≤ size) (hj : size * j + size ≤ 4056) (hf : f ≠ 0 ∧ f < 2 ^ 40) {b : Nat}
    (hb : b = f * 4096 + size * j) :
    Building m0 ((m.store64 (s + 24) b).store64 (s + 32) b) cache size max f s j (j + 1) := by
  have hw : b % 2 ^ 64 = b := by omega
  have hlist : slotList size f j (j + 1) = [b] := by
    rw [slotList_succ _ _ (le_refl j), hb]
    simp [slotList]
  have hmin : min j (j + 1) = min j j := by omega
  have hold : ∀ a, (a + 8 ≤ s + 24 ∨ s + 40 ≤ a) →
      ((m.store64 (s + 24) b).store64 (s + 32) b).load64 a = m.load64 a := by
    intro a h1
    rw [Mem.load64_store64_other _ _ (by omega), Mem.load64_store64_other _ _ (by omega)]
  refine ⟨?_, ?_, ?_, ?_, ?_, ?_, ?_, ?_⟩
  · intro x hx hxc
    rw [Mem.store64_outside _ _ (by omega), Mem.store64_outside _ _ (by omega)]
    exact h.outside x hx hxc
  · rw [hmin]
    exact (hold _ (by omega)).trans h.maxWord
  · rw [hmin]
    exact (hold _ (by omega)).trans h.count
  · exact (hold _ (by omega)).trans h.next
  · exact (hold _ (by omega)).trans h.home
  · rw [hlist, Mem.load64_store64_other _ _ (by omega), Mem.load64_store64_same, hw]
    have hlink := h.fresh j (le_refl j) hj
    rw [← hb] at hlink
    exact ⟨rfl, by omega, (hold _ (by omega)).trans hlink⟩
  · rw [hlist, Mem.load64_store64_same, hw]
    rfl
  · intro i hi hin
    exact (hold _ (by omega)).trans (h.fresh i (by omega) hin)

/-- Every further slot is linked behind the last one. -/
theorem Building.append (h : Building m0 m cache size max f s lo j)
    (hs : s = f * 4096 + 4056) (hcf : cache / 4096 ≠ f) (hal : cache % 4096 = 0)
    (hsize : 10 ≤ size) (hlo : lo < j) (hj : size * j + size ≤ 4056)
    (hf : f ≠ 0 ∧ f < 2 ^ 40)
    {b t : Nat} (hb : b = f * 4096 + size * j) (ht : t = f * 4096 + size * (j - 1)) :
    Building m0 ((m.store64 t b).store64 (s + 32) b) cache size max f s lo (j + 1) := by
  have hw : b % 2 ^ 64 = b := by omega
  have hprev := prev_slot size (show 0 < j by omega)
  have hsplit : slotList size f lo j = slotList size f lo (j - 1) ++ [t] := by
    have hj1 : j - 1 + 1 = j := by omega
    have hsucc := slotList_succ size f (show lo ≤ j - 1 by omega)
    rwa [hj1, ← ht] at hsucc
  have hlist : slotList size f lo (j + 1) = slotList size f lo (j - 1) ++ t :: [b] := by
    rw [slotList_succ _ _ (by omega), hsplit, ← hb]
    simp
  have hmin : min lo (j + 1) = min lo j := by omega
  have hold : ∀ a, (a + 8 ≤ t ∨ t + 8 ≤ a) → (a + 8 ≤ s + 32 ∨ s + 40 ≤ a) →
      ((m.store64 t b).store64 (s + 32) b).load64 a = m.load64 a := by
    intro a h1 h2
    rw [Mem.load64_store64_other _ _ (by omega), Mem.load64_store64_other _ _ (by omega)]
  refine ⟨?_, ?_, ?_, ?_, ?_, ?_, ?_, ?_⟩
  · intro x hx hxc
    rw [Mem.store64_outside _ _ (by omega), Mem.store64_outside _ _ (by omega)]
    exact h.outside x hx hxc
  · rw [hmin]
    exact (hold _ (by omega) (by omega)).trans h.maxWord
  · rw [hmin]
    exact (hold _ (by omega) (by omega)).trans h.count
  · exact (hold _ (by omega) (by omega)).trans h.next
  · exact (hold _ (by omega) (by omega)).trans h.home
  · have hchain := h.list
    rw [hsplit] at hchain
    rw [hlist, hold _ (by omega) (by omega)]
    refine hchain.splice (fun c hc => ?_) ?_
    · obtain ⟨i, _, hij, rfl⟩ := mem_slotList.mp hc
      have hle : size * (i + 1) ≤ size * (j - 1) := Nat.mul_le_mul_left size hij
      rw [Nat.mul_succ] at hle
      exact hold _ (by omega) (by omega)
    · rw [Mem.load64_store64_other _ _ (by omega), Mem.load64_store64_same, hw]
      refine ⟨rfl, by omega, ?_⟩
      rw [hold b (by omega) (by omega), hb]
      exact h.fresh j (le_refl j) hj
  · rw [hlist, Mem.load64_store64_same, hw]
    simp
  · intro i hi hin
    have hap := slot_apart size (show i ≠ j by omega)
    have hle : size * j ≤ size * i := Nat.mul_le_mul_left size (by omega)
    exact (hold _ (by omega) (by omega)).trans (h.fresh i (by omega) hin)

/-- The smallest index taken up. -/
def firstSlot (flags : SlabFlags) : Nat := if flags.noAlign then 1 else 0

section Step

variable {bufctl b t : Nat} {m1 : Mem}

theorem slabInitBufctls_skip (hnew : add64 bufctl (k.cacheSlabSize cache * j) = b)
    (hm1 : m1 = k.mem.store16 (b + 8) j) (hcur : m1.load64 (cache + 32) = s)
    (hskip : flags.noAlign = true ∧ b % 4096 = 0) {c : Nat}
    (hc : sub64 (m1.load64 (s + 8)) 1 = c)
    (hc' : sub64 ((m1.store64 (s + 8) c).load64 (cache + 16)) 1 = c) :
    slabInitBufctls k cache bufctl j flags =
      { k with mem := ((m1.store64 (s + 8) c).store64 (cache + 16) c) } := by
  unfold slabInitBufctls
  rw [hnew]
  simp only [Kernel.setBufctlIndex, Kernel.store16, ← hm1, if_pos hskip,
    Kernel.setSlabBufctlCount, Kernel.slabBufctlCount, Kernel.cacheSlabs,
    Kernel.setCacheBufctlCountMax, Kernel.cacheBufctlCountMax, Kernel.store64, hcur, hc, hc']

theorem slabInitBufctls_first (hnew : add64 bufctl (k.cacheSlabSize cache * j) = b)
    (hm1 : m1 = k.mem.store16 (b + 8) j) (hcur : m1.load64 (cache + 32) = s)
    (htake : ¬(flags.noAlign = true ∧ b % 4096 = 0)) (htail : m1.load64 (s + 32) = 0)
    (hcur' : (m1.store64 (s + 24) b).load64 (cache + 32) = s) :
    slabInitBufctls k cache bufctl j flags =
      { k with mem := ((m1.store64 (s + 24) b).store64 (s + 32) b) } := by
  unfold slabInitBufctls
  rw [hnew]
  simp only [Kernel.setBufctlIndex, Kernel.store16, ← hm1, if_neg htake, Kernel.slabFreelist,
    Kernel.cacheSlabs, Kernel.setSlabFreelistHead, Kernel.setSlabFreelist, Kernel.store64, hcur,
    htail, if_true, hcur']

theorem slabInitBufctls_append (hnew : add64 bufctl (k.cacheSlabSize cache * j) = b)
    (hm1 : m1 = k.mem.store16 (b + 8) j) (hcur : m1.load64 (cache + 32) = s)
    (htake : ¬(flags.noAlign = true ∧ b % 4096 = 0)) (htail : m1.load64 (s + 32) = t)
    (ht : t ≠ 0) (hcur' : (m1.store64 t b).load64 (cache + 32) = s)
    (htail' : (m1.store64 t b).load64 (s + 32) = t) (hnext : (m1.store64 t b).load64 t = b) :
    slabInitBufctls k cache bufctl j flags =
      { k with mem := ((m1.store64 t b).store64 (s + 32) b) } := by
  unfold slabInitBufctls
  rw [hnew]
  simp only [Kernel.setBufctlIndex, Kernel.store16, ← hm1, if_neg htake, Kernel.slabFreelist,
    Kernel.cacheSlabs, Kernel.setBufctlNext, Kernel.bufctlNext, Kernel.setSlabFreelist,
    Kernel.store64, hcur, htail, ht, if_false, hcur', htail', hnext]

end Step

/-- The slots below `j` have their index in them. -/
def Numbered (m : Mem) (size f j : Nat) : Prop :=
  ∀ i < j, m.load16 (f * 4096 + size * i + 8) = i

/-- One iteration of the inner loop numbers slot `j` and then leaves it out, starts the free
list with it, or links it behind the slot before. -/
theorem slabInitBufctls_cases {k0 : Kernel ρ} {b t : Nat}
    (h : Building k0.mem k.mem cache size max f s (firstSlot flags) j)
    (hs : s = f * 4096 + 4056) (hcf : cache / 4096 ≠ f) (hal : cache % 4096 = 0)
    (hsize : 10 ≤ size ∧ size ≤ 512) (hf : f ≠ 0 ∧ f < 2 ^ 40)
    (hword : k0.mem.load64 (cache + 8) = size) (hcur : k0.mem.load64 (cache + 32) = s)
    (hj : j < max) (hmax : max ≤ 4056) (hjs : size * j + size ≤ 4056)
    (hb : b = f * 4096 + size * j) (ht : t = f * 4096 + size * (j - 1)) :
    ∃ m1 m', m1 = k.mem.store16 (b + 8) j ∧
      slabInitBufctls k cache (f * 4096) j flags = { k with mem := m' } ∧
      Building k0.mem m1 cache size max f s (firstSlot flags) j ∧
      (firstSlot flags = 1 ∧ j = 0 ∧
          m' = (m1.store64 (s + 8) (max - 1)).store64 (cache + 16) (max - 1) ∨
        firstSlot flags = j ∧ m' = (m1.store64 (s + 24) b).store64 (s + 32) b ∨
        firstSlot flags < j ∧ m' = (m1.store64 t b).store64 (s + 32) b) := by
  have hkw : k.mem.load64 (cache + 8) = size := by
    rw [← hword]
    exact Mem.load64_congr (fun x h1 h2 => h.outside x (by omega) (by omega))
  have hnew : add64 (f * 4096) (k.cacheSlabSize cache * j) = b := by
    rw [Kernel.cacheSlabSize, hkw, add64_of_lt (by omega), hb]
  obtain ⟨m1, hm1⟩ : ∃ m1, m1 = k.mem.store16 (b + 8) j := ⟨_, rfl⟩
  have h1 : Building k0.mem m1 cache size max f s (firstSlot flags) j := by
    rw [hm1, hb]
    exact h.setIndex hs hcf hal hsize.1 hjs j
  have hc1 : m1.load64 (cache + 32) = s := by
    rw [← hcur]
    exact Mem.load64_congr (fun x h2 h3 => h1.outside x (by omega) (by omega))
  have hmod : b % 4096 = 0 ↔ j = 0 := by
    constructor
    · intro hb0
      by_contra hj0
      have hle : size * 1 ≤ size * j := Nat.mul_le_mul_left size (by omega)
      omega
    · rintro rfl
      omega
  by_cases hskip : flags.noAlign = true ∧ b % 4096 = 0
  · have hj0 := hmod.mp hskip.2
    subst hj0
    have hlo : firstSlot flags = 1 := by rw [firstSlot, if_pos hskip.1]
    have hcounts := h1.count
    have hmaxw := h1.maxWord
    rw [hlo] at hcounts hmaxw
    have hsub : sub64 max 1 = max - 1 := sub64_of_le (by omega) (by omega)
    have hcount : sub64 (m1.load64 (s + 8)) 1 = max - 1 := by
      rw [hcounts]
      exact hsub
    have hread : sub64 ((m1.store64 (s + 8) (max - 1)).load64 (cache + 16)) 1 = max - 1 := by
      rw [Mem.load64_store64_other _ _ (by omega), hmaxw]
      exact hsub
    exact ⟨m1, _, hm1, slabInitBufctls_skip hnew hm1 hc1 hskip hcount hread, h1,
      Or.inl ⟨hlo, rfl, rfl⟩⟩
  · have hlo : firstSlot flags ≤ j := by
      unfold firstSlot
      split
      · rename_i hna
        have hj0 : j ≠ 0 := fun hj0 => hskip ⟨hna, hmod.mpr hj0⟩
        omega
      · omega
    have htail := h1.tail
    rcases Nat.eq_or_lt_of_le hlo with heq | hlt
    · have hempty : m1.load64 (s + 32) = 0 := by
        rw [htail, heq]
        simp [slotList]
      have hcur2 : (m1.store64 (s + 24) b).load64 (cache + 32) = s := by
        rw [Mem.load64_store64_other _ _ (by omega)]
        exact hc1
      exact ⟨m1, _, hm1, slabInitBufctls_first hnew hm1 hc1 hskip hempty hcur2, h1,
        Or.inr (Or.inl ⟨heq, rfl⟩)⟩
    · have htw : m1.load64 (s + 32) = t := by
        have hj1 : j - 1 + 1 = j := by omega
        have hsucc := slotList_succ size f (show firstSlot flags ≤ j - 1 by omega)
        rw [hj1] at hsucc
        rw [htail, hsucc, ht]
        simp
      have hprev := prev_slot size (show 0 < j by omega)
      have hcur2 : (m1.store64 t b).load64 (cache + 32) = s := by
        rw [Mem.load64_store64_other _ _ (by omega)]
        exact hc1
      have htw2 : (m1.store64 t b).load64 (s + 32) = t := by
        rw [Mem.load64_store64_other _ _ (by omega)]
        exact htw
      have hnext : (m1.store64 t b).load64 t = b := by
        rw [Mem.load64_store64_same]
        omega
      exact ⟨m1, _, hm1,
        slabInitBufctls_append hnew hm1 hc1 hskip htw (by omega) hcur2 htw2 hnext,
        h1, Or.inr (Or.inr ⟨hlt, rfl⟩)⟩

/-- Numbering slot `j`. -/
theorem Numbered.setIndex (h : Numbered m size f j) (hsize : 10 ≤ size)
    (hj : j < 2 ^ 16) : Numbered (m.store16 (f * 4096 + size * j + 8) j) size f (j + 1) := by
  intro i hi
  rcases Nat.lt_succ_iff_lt_or_eq.mp hi with hlt | rfl
  · have hap := slot_apart size (Nat.ne_of_lt hlt)
    rw [Mem.load16_store16_other _ _ (by omega)]
    exact h i hlt
  · rw [Mem.load16_store16_same, Nat.mod_eq_of_lt hj]

/-- Writes to other words leave the numbers. -/
theorem Numbered.store64 (h : Numbered m size f j) {a : Nat} (v : Nat)
    (ha : ∀ i < j, f * 4096 + size * i + 10 ≤ a ∨ a + 8 ≤ f * 4096 + size * i + 8) :
    Numbered (m.store64 a v) size f j := by
  intro i hi
  have hai := ha i hi
  rw [Mem.load16_store64_other _ _ (by omega)]
  exact h i hi

/-- One iteration of the inner loop. -/
theorem slabInitBufctls_building {k0 : Kernel ρ}
    (h : Building k0.mem k.mem cache size max f s (firstSlot flags) j)
    (hs : s = f * 4096 + 4056) (hcf : cache / 4096 ≠ f) (hal : cache % 4096 = 0)
    (hsize : 10 ≤ size ∧ size ≤ 512) (hf : f ≠ 0 ∧ f < 2 ^ 40)
    (hword : k0.mem.load64 (cache + 8) = size) (hcur : k0.mem.load64 (cache + 32) = s)
    (hj : j < max) (hmax : max * size ≤ 4056) (hnum : Numbered k.mem size f j) :
    ∃ m', slabInitBufctls k cache (f * 4096) j flags = { k with mem := m' } ∧
      Building k0.mem m' cache size max f s (firstSlot flags) (j + 1) ∧
      Numbered m' size f (j + 1) := by
  have hjs : size * j + size ≤ 4056 := by
    have hle : size * (j + 1) ≤ size * max := Nat.mul_le_mul_left size hj
    rw [Nat.mul_succ, Nat.mul_comm size max] at hle
    omega
  have hmax' : max ≤ 4056 := by nlinarith
  have hslot : ∀ i < j + 1, size * i + size ≤ 4056 := by
    intro i hi
    have hle : size * i ≤ size * j := Nat.mul_le_mul_left size (by omega)
    omega
  obtain ⟨m1, m', hm1, heq, h1, hcases⟩ :=
    slabInitBufctls_cases h hs hcf hal hsize hf hword hcur hj hmax' hjs rfl rfl
  have hnum1 : Numbered m1 size f (j + 1) := by
    rw [hm1]
    exact hnum.setIndex hsize.1 (by omega)
  have hout : ∀ {m2 : Mem} (a v : Nat), Numbered m2 size f (j + 1) →
      (f * 4096 + 4056 ≤ a ∨ a + 8 ≤ f * 4096) →
      Numbered (m2.store64 a v) size f (j + 1) := by
    intro m2 a v h2 ha
    refine h2.store64 v (fun i hi => ?_)
    have hle := hslot i hi
    omega
  refine ⟨m', heq, ?_⟩
  rcases hcases with ⟨hlo, rfl, rfl⟩ | ⟨hlo, rfl⟩ | ⟨hlo, rfl⟩
  · rw [hlo] at h1 ⊢
    exact ⟨h1.skip hs hcf hal hj (by omega),
      hout _ _ (hout _ _ hnum1 (by omega)) (by omega)⟩
  · rw [hlo] at h1 ⊢
    exact ⟨h1.first hs hal hsize.1 hjs hf rfl, hout _ _ (hout _ _ hnum1 (by omega)) (by omega)⟩
  · refine ⟨h1.append hs hcf hal hsize.1 hlo hjs hf rfl rfl,
      hout _ _ (hnum1.store64 _ (fun i hi => ?_)) (by omega)⟩
    by_cases hij : i = j - 1
    · subst hij
      omega
    · have hap := slot_apart size hij
      omega

/-- The inner loop of `slab_cache_grow` as a whole. -/
theorem initBufctls_building
    (h : Building k.mem k.mem cache size max f s (firstSlot flags) 0)
    (hs : s = f * 4096 + 4056) (hcf : cache / 4096 ≠ f) (hal : cache % 4096 = 0)
    (hsize : 10 ≤ size ∧ size ≤ 512) (hf : f ≠ 0 ∧ f < 2 ^ 40)
    (hword : k.mem.load64 (cache + 8) = size) (hcur : k.mem.load64 (cache + 32) = s)
    (hj : j ≤ max) (hmax : max * size ≤ 4056) :
    ∃ m', initBufctls k cache (f * 4096) flags j = { k with mem := m' } ∧
      Building k.mem m' cache size max f s (firstSlot flags) j ∧ Numbered m' size f j := by
  induction j with
  | zero => exact ⟨k.mem, rfl, h, fun i hi => absurd hi (Nat.not_lt_zero i)⟩
  | succ j ih =>
    obtain ⟨m1, heq, hb, hnum⟩ := ih (by omega)
    obtain ⟨m2, heq', hb', hnum'⟩ :=
      slabInitBufctls_building (k := { k with mem := m1 }) hb hs hcf
      hal hsize hf hword hcur (by omega) hmax hnum
    exact ⟨m2, by rw [initBufctls, heq, heq'], hb', hnum'⟩

end Building

end ApoptOS
