import ApoptOS.Memory.Dynamic.SlabAccount

namespace ApoptOS

open Framework

variable {ρ : Type} {A : PageFrames ρ} {U F : Set Nat} {Holds : Mem → ρ → Set Nat → Prop}
  {k : Kernel ρ} {m0 m : Mem} {cache prev v : Nat} {slabs kept post rest : List Nat}

/-- A cache page and the slab structures its list leads to, each in a page frame of its
own. Counts and free lists may be anything. -/
structure SlabsIn (F : Set Nat) (m : Mem) (cache : Nat) (slabs : List Nat) : Prop where
  cacheAligned : cache % 4096 = 0
  cacheFrame : cache / 4096 ∈ F
  listed : Chain m.load64 0 (m.load64 (cache + 24)) slabs
  slab : ∀ t ∈ slabs, t % 4096 = 4056 ∧ t / 4096 ∈ F ∧ t / 4096 ≠ cache / 4096

theorem SlabsIn.mono {F' : Set Nat} (h : SlabsIn F m cache slabs) (hF : F ⊆ F') :
    SlabsIn F' m cache slabs :=
  ⟨h.cacheAligned, hF h.cacheFrame, h.listed, fun t ht =>
    ⟨(h.slab t ht).1, hF (h.slab t ht).2.1, (h.slab t ht).2.2⟩⟩

/-- `bufctl_count == bufctl_count_max`. -/
def WholeSlab (m : Mem) (cache t : Nat) : Prop := m.load64 (t + 8) = m.load64 (cache + 16)

instance (m : Mem) (cache t : Nat) : Decidable (WholeSlab m cache t) :=
  inferInstanceAs (Decidable (_ = _))

/-- The loop of `slab_cache_reap` in memory `m`, started in `m0` on the list `slabs`: `kept`
is behind the cursor, `rest` in front of it. Only list links and the cache's head and cursor
have been written. -/
structure Filtering (U : Set Nat) (m0 m : Mem) (cache : Nat) (slabs kept rest : List Nat)
    (prev : Nat) : Prop where
  cacheAligned : cache % 4096 = 0
  cacheFrame : cache / 4096 ∈ U
  slab : ∀ t ∈ slabs, t % 4096 = 4056 ∧ t / 4096 ∈ U ∧ t / 4096 ≠ cache / 4096
  part : ∀ t ∈ kept ++ rest, t ∈ slabs
  listed : Chain m.load64 0 (m.load64 (cache + 24)) (kept ++ rest)
  cursor : m.load64 (cache + 32) = rest.headD 0
  prevSlab : rest ≠ [] → prev ∈ slabs ∧ prev ∉ rest.tail
  prevLast : kept ≠ [] → ∃ ks, kept = ks ++ [prev]
  same : ∀ x, x / 4096 ∈ U → (x < cache + 24 ∨ cache + 40 ≤ x) →
    (∀ t ∈ slabs, x < t ∨ t + 8 ≤ x) → m x = m0 x

/-- A write to the cursor stays in memory the frame allocator does not use. -/
theorem PageFrames.Lawful.cursor (hA : A.Lawful U Holds) (hh : Holds k.mem k.frames F)
    (hal : cache % 4096 = 0) (hc : cache / 4096 ∈ U) (c : Nat) :
    Holds (k.setCacheSlabs cache c).mem (k.setCacheSlabs cache c).frames F := by
  refine hA.client_writes _ _ _ _ hh (fun x hx => Mem.store64_outside _ _ ?_)
  by_contra hcon
  have hxc : x / 4096 = cache / 4096 := by omega
  exact hx (mem_frameBytes.mpr (hxc ▸ hc))

namespace Filtering

theorem start (h : SlabsIn U m0 cache slabs) (hm : ∀ x, (x < cache + 32 ∨ cache + 40 ≤ x) →
      m x = m0 x) (hc : m.load64 (cache + 32) = m.load64 (cache + 24)) :
    Filtering U m0 m cache slabs [] slabs (m.load64 (cache + 24)) := by
  have hal := h.cacheAligned
  have hword : m.load64 (cache + 24) = m0.load64 (cache + 24) :=
    Mem.load64_congr (fun x h1 h2 => hm x (by omega))
  have hlist : Chain m.load64 0 (m.load64 (cache + 24)) slabs := by
    rw [hword]
    refine h.listed.congr (fun t ht => Mem.load64_congr (fun x h1 h2 => hm x ?_))
    obtain ⟨htm, -, htc⟩ := h.slab t ht
    omega
  refine ⟨hal, h.cacheFrame, h.slab, fun t ht => ht, hlist, ?_, fun hne => ?_,
    fun hne => absurd rfl hne, fun x _ hx _ => hm x (by omega)⟩
  · rw [hc]
    exact hlist.head_eq
  · obtain ⟨t, ts, rfl⟩ := List.exists_cons_of_ne_nil hne
    have hhead : m.load64 (cache + 24) = t := hlist.1
    rw [hhead]
    exact ⟨by simp, (List.nodup_cons.mp hlist.nodup).1⟩

theorem field (h : Filtering U m0 m cache slabs kept rest prev) {t d : Nat} (ht : t ∈ slabs)
    (hd : 8 ≤ d ∧ d + 8 ≤ 40) : m.load64 (t + d) = m0.load64 (t + d) := by
  obtain ⟨htm, htU, htc⟩ := h.slab t ht
  have hal := h.cacheAligned
  apply Mem.load64_congr
  intro x h1 h2
  have hxt : x / 4096 = t / 4096 := by omega
  refine h.same x (hxt ▸ htU) (by omega) (fun u hu => ?_)
  obtain ⟨hum, -, -⟩ := h.slab u hu
  omega

theorem maxWord (h : Filtering U m0 m cache slabs kept rest prev) :
    m.load64 (cache + 16) = m0.load64 (cache + 16) := by
  have hal := h.cacheAligned
  apply Mem.load64_congr
  intro x h1 h2
  have hxc : x / 4096 = cache / 4096 := by omega
  refine h.same x (hxc ▸ h.cacheFrame) (by omega) (fun u hu => ?_)
  obtain ⟨hum, -, huc⟩ := h.slab u hu
  omega

theorem whole_iff (h : Filtering U m0 m cache slabs kept rest prev) {t : Nat} (ht : t ∈ slabs) :
    m.load64 (t + 8) = m.load64 (cache + 16) ↔ WholeSlab m0 cache t := by
  rw [h.field ht (by omega), h.maxWord]
  rfl

theorem head_iff (h : Filtering U m0 m cache slabs kept (v :: post) prev) :
    v = m.load64 (cache + 24) ↔ kept = [] := by
  rw [h.listed.head_eq]
  cases kept with
  | nil => simp
  | cons w ks =>
    have hnd := h.listed.nodup
    simp only [List.cons_append, List.headD_cons, List.nodup_cons] at hnd ⊢
    refine ⟨fun he => absurd (show w ∈ ks ++ v :: post by rw [← he]; simp) hnd.1,
      fun hk => ?_⟩
    simp at hk

/-- The cursor moves past a slab that stays. -/
theorem skip (h : Filtering U m0 k.mem cache slabs kept (v :: post) prev)
    (hv : ¬ WholeSlab m0 cache v) :
    (∀ fuel, reapSlabs A cache (fuel + 1) prev k =
        reapSlabs A cache fuel v (k.setCacheSlabs cache (k.slabNext v))) ∧
      Filtering U m0 (k.setCacheSlabs cache (k.slabNext v)).mem cache slabs (kept ++ [v]) post
        v := by
  have hvs : v ∈ slabs := h.part v (by simp)
  have hslab : k.cacheSlabs cache = v := h.cursor
  have hv0 : v ≠ 0 := h.listed.ne_stop v (by simp)
  have hcount : ¬ k.slabBufctlCount v = k.cacheBufctlCountMax cache :=
    fun he => hv ((h.whole_iff hvs).mp he)
  have hal := h.cacheAligned
  have hassoc : (kept ++ [v]) ++ post = kept ++ v :: post := by simp
  have hout : ∀ x, (x < cache + 32 ∨ cache + 40 ≤ x) →
      (k.setCacheSlabs cache (k.slabNext v)).mem x = k.mem x :=
    fun x hx => Mem.store64_outside _ _ hx
  have hlink : ∀ t ∈ kept ++ v :: post, (k.setCacheSlabs cache (k.slabNext v)).mem.load64 t =
      k.mem.load64 t := by
    intro t ht
    obtain ⟨htm, -, htc⟩ := h.slab t (h.part t ht)
    exact Mem.load64_congr (fun x h1 h2 => hout x (by omega))
  refine ⟨fun fuel => by simp only [reapSlabs, hslab, hv0, if_false, hcount], hal, h.cacheFrame,
    h.slab, by rw [hassoc]; exact h.part, ?_, ?_, fun hne => ⟨hvs, ?_⟩,
    fun _ => ⟨kept, rfl⟩, ?_⟩
  · rw [hassoc, Mem.load64_congr (fun x h1 h2 => hout x (by omega))]
    exact h.listed.congr hlink
  · show (k.mem.store64 (cache + 32) (k.mem.load64 v)).load64 (cache + 32) = _
    rw [Mem.load64_store64_same, Nat.mod_eq_of_lt (Mem.load64_lt _ _)]
    exact h.listed.tail.head_eq
  · have hnd := (List.nodup_append.mp h.listed.nodup).2.1
    exact fun hm => (List.nodup_cons.mp hnd).1 (List.mem_of_mem_tail hm)
  · exact fun x hxU hxc hxs => (hout x (by omega)).trans (h.same x hxU hxc hxs)

/-- A slab that is free as a whole is unlinked and its frame given back. -/
theorem unlink (hA : A.Lawful U Holds) (h : Filtering U m0 k.mem cache slabs kept (v :: post) prev)
    (hh : Holds k.mem k.frames F) (hvF : v / 4096 ∈ F) (hv : WholeSlab m0 cache v) :
    ∃ k1, (∀ fuel, reapSlabs A cache (fuel + 1) prev k = reapSlabs A cache fuel prev k1) ∧
      Filtering U m0 k1.mem cache slabs kept post prev ∧
      Holds k1.mem k1.frames (F \ {v / 4096}) ∧ k1.calls = .free v 1 :: k.calls := by
  have hvs : v ∈ slabs := h.part v (by simp)
  obtain ⟨hvm, hvU, hvc⟩ := h.slab v hvs
  obtain ⟨hps, hppost⟩ := h.prevSlab (by simp)
  obtain ⟨hpm, hpU, hpc⟩ := h.slab prev hps
  have hslab : k.cacheSlabs cache = v := h.cursor
  have hv0 : v ≠ 0 := h.listed.ne_stop v (by simp)
  have hcount : k.slabBufctlCount v = k.cacheBufctlCountMax cache := (h.whole_iff hvs).mpr hv
  have hal := h.cacheAligned
  have hcU := h.cacheFrame
  obtain ⟨nx, hnx⟩ : ∃ nx, nx = k.mem.load64 v := ⟨_, rfl⟩
  have hnxlt : nx < 2 ^ 64 := hnx ▸ Mem.load64_lt _ _
  obtain ⟨m1, hm1⟩ : ∃ m1, m1 = if kept = [] then k.mem.store64 (cache + 24) nx else k.mem :=
    ⟨_, rfl⟩
  have h1out : ∀ x, (x < cache + 24 ∨ cache + 32 ≤ x) → m1 x = k.mem x := by
    intro x hx
    rw [hm1]
    split
    · exact Mem.store64_outside _ _ (by omega)
    · rfl
  have h1v : m1.load64 v = nx := by
    rw [hnx]
    exact Mem.load64_congr (fun x h1 h2 => h1out x (by omega))
  obtain ⟨m2, hm2⟩ : ∃ m2, m2 = m1.store64 prev nx := ⟨_, rfl⟩
  have h2out : ∀ x, (x < cache + 24 ∨ cache + 32 ≤ x) → (x < prev ∨ prev + 8 ≤ x) →
      m2 x = k.mem x := by
    intro x hx hxp
    rw [hm2, Mem.store64_outside _ _ hxp]
    exact h1out x hx
  have hh2 : Holds m2 k.frames F := by
    refine hA.client_writes _ _ _ _ hh (fun x hx => h2out x ?_ ?_)
    · by_contra hcon
      have hxc : x / 4096 = cache / 4096 := by omega
      exact hx (mem_frameBytes.mpr (hxc ▸ hcU))
    · by_contra hcon
      have hxp : x / 4096 = prev / 4096 := by omega
      exact hx (mem_frameBytes.mpr (hxp ▸ hpU))
  obtain ⟨hh3, hs3⟩ := hA.free_one _ _ _ v hh2 hvF
  obtain ⟨m3, hm3⟩ : ∃ m3, m3 = (A.free v 1 m2 k.frames).1 := ⟨_, rfl⟩
  rw [← hm3] at hh3 hs3
  have h3prev : m3.load64 prev = nx := by
    rw [hs3.load64 (fun x h1 h2 => mem_frameBytes.mpr ?_), hm2, Mem.load64_store64_same,
      Nat.mod_eq_of_lt hnxlt]
    have hxp : x / 4096 = prev / 4096 := by omega
    exact hxp ▸ hpU
  obtain ⟨m4, hm4⟩ : ∃ m4, m4 = m3.store64 (cache + 32) nx := ⟨_, rfl⟩
  have h4out : ∀ x, x / 4096 ∈ U → (x < cache + 24 ∨ cache + 40 ≤ x) →
      (x < prev ∨ prev + 8 ≤ x) → m4 x = k.mem x := by
    intro x hx hxc hxp
    rw [hm4, Mem.store64_outside _ _ (by omega), hs3 x (mem_frameBytes.mpr hx)]
    exact h2out x (by omega) hxp
  have hk1 : ∀ fuel, reapSlabs A cache (fuel + 1) prev k = reapSlabs A cache fuel prev
      ⟨m4, (A.free v 1 m2 k.frames).2, .free v 1 :: k.calls⟩ := by
    intro fuel
    have hcond : (if kept = [] then ({ k with mem := k.mem.store64 (cache + 24) nx } : Kernel ρ)
        else k) = { k with mem := m1 } := by
      rw [hm1]
      split <;> rfl
    have hhead : v = k.cacheSlabsHead cache ↔ kept = [] := h.head_iff
    simp only [reapSlabs, hslab, hv0, if_false, hcount, if_true, hhead]
    simp only [Kernel.setCacheSlabsHead, Kernel.slabNext, ← hnx, hcond, Kernel.setSlabNext,
      Kernel.store64, h1v, ← hm2, Kernel.pmmFree, Kernel.setCacheSlabs, ← hm3, h3prev, ← hm4]
  -- a link survives unless it is the redirected one
  have hlink : ∀ t ∈ slabs, t ≠ prev → m4.load64 t = k.mem.load64 t := by
    intro t ht htp
    obtain ⟨htm, htU, htc⟩ := h.slab t ht
    apply Mem.load64_congr
    intro x h1 h2
    have hxt : x / 4096 = t / 4096 := by omega
    exact h4out x (hxt ▸ htU) (by omega) (by omega)
  have htail : Chain m4.load64 0 nx post := by
    have hold : Chain k.mem.load64 0 (k.mem.load64 v) post := h.listed.tail
    rw [hnx]
    refine hold.congr (fun t ht => hlink t (h.part t (by simp [ht])) (fun he => hppost ?_))
    exact he ▸ ht
  have hheadWord :
      m4.load64 (cache + 24) = if kept = [] then nx else k.mem.load64 (cache + 24) := by
    rw [hm4, Mem.load64_store64_other _ _ (by omega),
      hs3.load64 (fun x h1 h2 => mem_frameBytes.mpr ?_), hm2,
      Mem.load64_store64_other _ _ (by omega), hm1]
    · split
      · rw [Mem.load64_store64_same, Nat.mod_eq_of_lt hnxlt]
      · rfl
    · have hxc : x / 4096 = cache / 4096 := by omega
      exact hxc ▸ hcU
  refine ⟨_, hk1, ⟨hal, hcU, h.slab, fun t ht => h.part t ?_, ?_, ?_, fun hne => ⟨hps, ?_⟩,
    h.prevLast, ?_⟩, ?_, rfl⟩
  · rcases List.mem_append.mp ht with ht | ht
    · exact List.mem_append_left _ ht
    · exact List.mem_append_right _ (List.mem_cons_of_mem _ ht)
  · show Chain m4.load64 0 (m4.load64 (cache + 24)) (kept ++ post)
    rw [hheadWord]
    by_cases hk : kept = []
    · rw [if_pos hk, hk]
      exact htail
    · obtain ⟨ks, hks⟩ := h.prevLast hk
      have hlist := h.listed
      rw [hks, List.append_assoc, List.singleton_append] at hlist
      rw [if_neg hk, hks, List.append_assoc, List.singleton_append]
      refine hlist.splice (fun t ht => hlink t (h.part t (by rw [hks]; simp [ht])) ?_) ?_
      · rintro rfl
        exact (List.nodup_append.mp hlist.nodup).2.2 _ ht _ (by simp) rfl
      · have hprev : m4.load64 prev = nx := by
          rw [hm4, Mem.load64_store64_other _ _ (by omega)]
          exact h3prev
        rw [hprev]
        exact htail
  · show m4.load64 (cache + 32) = _
    rw [hm4, Mem.load64_store64_same, Nat.mod_eq_of_lt hnxlt]
    exact htail.head_eq
  · exact fun hm => hppost (List.mem_of_mem_tail hm)
  · intro x hxU hxc hxs
    exact (h4out x hxU hxc (hxs prev hps)).trans (h.same x hxU hxc hxs)
  · refine hA.client_writes _ _ _ _ hh3 (fun x hx => ?_)
    show m4 x = m3 x
    rw [hm4]
    refine Mem.store64_outside _ _ ?_
    by_contra hcon
    have hxc : x / 4096 = cache / 4096 := by omega
    exact hx (mem_frameBytes.mpr (hxc ▸ hcU))

/-- The whole loop: what is left of the list in front of the cursor, in the same order. -/
theorem run (hA : A.Lawful U Holds) (h : Filtering U m0 k.mem cache slabs kept rest prev)
    (hh : Holds k.mem k.frames F) (hF : ∀ t ∈ rest, t / 4096 ∈ F) :
    ∃ k' prev', (∀ fuel, reapSlabs A cache fuel prev k =
        if rest.length < fuel then .ok k' else .error .outOfFuel) ∧
      Filtering U m0 k'.mem cache slabs (kept ++ rest.filter (fun t => ¬ WholeSlab m0 cache t)) []
        prev' ∧
      Holds k'.mem k'.frames (F \ {f | ∃ t ∈ rest, WholeSlab m0 cache t ∧ t / 4096 = f}) ∧
      k'.calls = ((rest.filter (fun t => WholeSlab m0 cache t)).map
        (FrameCall.free · 1)).reverse ++
        k.calls := by
  induction rest generalizing k F kept prev with
  | nil =>
    have h0 : k.cacheSlabs cache = 0 := h.cursor
    refine ⟨k, prev, fun fuel => ?_, by simpa using h, by simpa using hh, by simp⟩
    cases fuel with
    | zero => rfl
    | succ fuel => simp [reapSlabs, h0]
  | cons v post ih =>
    have hnd := (List.nodup_append.mp h.listed.nodup).2.1
    have hother : ∀ t ∈ post, t / 4096 ≠ v / 4096 := by
      intro t ht he
      have htv : t ≠ v := fun he => (List.nodup_cons.mp hnd).1 (he ▸ ht)
      obtain ⟨htm, -, -⟩ := h.slab t (h.part t (by simp [ht]))
      obtain ⟨hvm, -, -⟩ := h.slab v (h.part v (by simp))
      omega
    by_cases hv : WholeSlab m0 cache v
    · obtain ⟨k1, heq, h1, hh1, hcalls1⟩ := h.unlink hA hh (hF v (by simp)) hv
      obtain ⟨k', prev', hrun, hend, hh', hcalls⟩ := ih h1 hh1
        (fun t ht => ⟨hF t (by simp [ht]), hother t ht⟩)
      refine ⟨k', prev', fun fuel => ?_, by simpa [hv] using hend, ?_, ?_⟩
      · cases fuel with
        | zero => rfl
        | succ fuel =>
          rw [heq, hrun]
          simp
      · have hset : F \ {f | ∃ t ∈ v :: post, WholeSlab m0 cache t ∧ t / 4096 = f} =
            (F \ {v / 4096}) \ {f | ∃ t ∈ post, WholeSlab m0 cache t ∧ t / 4096 = f} := by
          ext f
          constructor
          · rintro ⟨hfF, hf⟩
            refine ⟨⟨hfF, fun he => hf ⟨v, by simp, hv, he.symm⟩⟩, ?_⟩
            rintro ⟨t, ht, htw, htf⟩
            exact hf ⟨t, by simp [ht], htw, htf⟩
          · rintro ⟨⟨hfF, hfv⟩, hf⟩
            refine ⟨hfF, ?_⟩
            rintro ⟨t, ht, htw, htf⟩
            rcases List.mem_cons.mp ht with rfl | ht
            · exact hfv htf.symm
            · exact hf ⟨t, ht, htw, htf⟩
        rw [hset]
        exact hh'
      · rw [hcalls, hcalls1]
        simp [hv]
    · obtain ⟨heq, h1⟩ := h.skip (A := A) hv
      have hhc := hA.cursor hh h.cacheAligned h.cacheFrame (k.slabNext v)
      obtain ⟨k', prev', hrun, hend, hh', hcalls⟩ := ih h1 hhc (fun t ht => hF t (by simp [ht]))
      refine ⟨k', prev', fun fuel => ?_, by simpa [hv] using hend, ?_, ?_⟩
      · cases fuel with
        | zero => rfl
        | succ fuel =>
          rw [heq, hrun]
          simp
      · have hset : {f | ∃ t ∈ v :: post, WholeSlab m0 cache t ∧ t / 4096 = f} =
            {f | ∃ t ∈ post, WholeSlab m0 cache t ∧ t / 4096 = f} := by
          ext f
          simp [hv]
        rw [hset]
        exact hh'
      · rw [hcalls]
        simp [hv, Kernel.setCacheSlabs]

end Filtering

/-- `slab_cache_reap` on any list: it returns after one pass, with the slabs in use left in
their order and the frames of the others given back. -/
theorem slabCacheReap_filter (flags : SlabFlags) (hA : A.Lawful U Holds)
    (hh : Holds k.mem k.frames F) (h : SlabsIn F k.mem cache slabs) :
    ∃ k' prev', (∀ fuel, slabCacheReap A fuel k cache flags =
        if slabs.length < fuel then .ok k' else .error .outOfFuel) ∧
      Filtering U k.mem k'.mem cache slabs (slabs.filter (fun t => ¬ WholeSlab k.mem cache t)) []
        prev' ∧
      Holds k'.mem k'.frames
        (F \ {f | ∃ t ∈ slabs, WholeSlab k.mem cache t ∧ t / 4096 = f}) ∧
      k'.calls = ((slabs.filter (fun t => WholeSlab k.mem cache t)).map
        (FrameCall.free · 1)).reverse ++
        k.calls := by
  have hFU := hA.subset _ _ _ hh
  have hal := h.cacheAligned
  have hc0 : cache ≠ 0 := by
    have hmanaged := (hA.managed _ (hFU h.cacheFrame)).1
    omega
  have hU : SlabsIn U k.mem cache slabs := h.mono hFU
  obtain ⟨k0, hk0⟩ : ∃ k0, k0 = k.setCacheSlabs cache (k.cacheSlabsHead cache) := ⟨_, rfl⟩
  have hout : ∀ x, (x < cache + 32 ∨ cache + 40 ≤ x) → k0.mem x = k.mem x := by
    intro x hx
    rw [hk0]
    exact Mem.store64_outside _ _ hx
  have hhead : k0.mem.load64 (cache + 24) = k.mem.load64 (cache + 24) :=
    Mem.load64_congr (fun x h1 h2 => hout x (by omega))
  have hcursor : k0.mem.load64 (cache + 32) = k0.mem.load64 (cache + 24) := by
    rw [hhead, hk0]
    show (k.mem.store64 (cache + 32) (k.mem.load64 (cache + 24))).load64 (cache + 32) = _
    rw [Mem.load64_store64_same, Nat.mod_eq_of_lt (Mem.load64_lt _ _)]
  have hh0 : Holds k0.mem k0.frames F := by
    rw [hk0]
    exact hA.cursor hh hal hU.cacheFrame _
  obtain ⟨k', prev', hrun, hend, hh', hcalls⟩ := (Filtering.start hU hout hcursor).run hA hh0
    (fun t ht => (h.slab t ht).2.1)
  refine ⟨k', prev', fun fuel => ?_, hend, hh', ?_⟩
  · rw [slabCacheReap, if_neg (fun hc => hc0 hc.1), if_neg hc0, ← hk0]
    exact hrun fuel
  · rw [hcalls, hk0]
    rfl

end ApoptOS
