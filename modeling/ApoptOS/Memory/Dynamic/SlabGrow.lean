import ApoptOS.Memory.Dynamic.SlabBuild

namespace ApoptOS

open Framework

variable {ρ : Type}

namespace CacheInv

variable {m m' : Mem} {cache size max : Nat} {frames F : Set Nat}
  {slabs pre rest : List SlabView} {live : List Nat}

/-- The bytes the invariant depends on all lie in frames the cache holds. -/
theorem of_sameOn (h : CacheInv m cache size max frames slabs live)
    (hcache : cache / 4096 ∈ F) (hframes : frames ⊆ F) (hm : Mem.SameOn (frameBytes F) m m') :
    CacheInv m' cache size max frames slabs live := by
  have hal := h.cacheAligned
  have hs := h.sizeBounds
  refine h.congr ?_ ?_ ?_
  · intro x h1 h2
    have hx : x / 4096 = cache / 4096 := by omega
    exact hm x (mem_frameBytes.mpr (hx ▸ hcache))
  · intro v hv x h1 h2
    have hx : x / 4096 = v.frame := by
      unfold SlabView.addr at h1 h2
      omega
    exact hm x (mem_frameBytes.mpr (hx ▸ hframes (h.frameMem v hv)))
  · intro v hv b hb
    apply Mem.load64_congr
    intro x h1 h2
    exact hm x (mem_frameBytes.mpr (hframes ((h.slot_of_free hv hb).inside h1 (by omega)).1))

end CacheInv

/-- Where the cursor of `slab_cache_grow` stands: on a slab of the list, or
nowhere when the list is empty. -/
def GrowAt (m : Mem) (cache : Nat) (pre rest : List SlabView) : Prop :=
  CursorAt m cache rest ∧ (rest = [] → pre = [])

/-- The slab list after one iteration of `slab_cache_grow`: the new slab is
linked behind the cursor, and what followed the cursor is no longer linked. -/
def grownList (pre rest : List SlabView) (v : SlabView) : List SlabView :=
  pre ++ rest.take 1 ++ [v]

section GrowStep

variable {k : Kernel ρ} {cache size max f : Nat} {frames : Set Nat}
  {pre rest : List SlabView} {live : List Nat} {flags : SlabFlags}

/-- The memory an iteration of `slab_cache_grow` leaves, as far as the new slab
is concerned, and what it leaves alone. `c` is the slab the cursor was on. -/
structure SlabAdded (m m' : Mem) (cache size max f s c lo : Nat) : Prop where
  built : ∃ m0, Building m0 m' cache size max f s lo max
  cursor : m'.load64 (cache + 32) = s
  first : m'.load64 (cache + 24) = if c = 0 then s else m.load64 (cache + 24)
  link : c ≠ 0 → m'.load64 c = s
  outside : ∀ x, x / 4096 ≠ f → (x < cache + 16 ∨ cache + 40 ≤ x) →
    (c = 0 ∨ x < c ∨ c + 8 ≤ x) → m' x = m x

theorem growStep_added {c s : Nat} (hs : s = f * 4096 + 4056) (hal : cache % 4096 = 0)
    (hcf : cache / 4096 ≠ f) (hf : f ≠ 0 ∧ f < 2 ^ 40) (hsize : 10 ≤ size ∧ size ≤ 512)
    (hmaxb : max * size ≤ 4056) (hword : k.mem.load64 (cache + 8) = size)
    (hmax : k.mem.load64 (cache + 16) = max) (hc : k.mem.load64 (cache + 32) = c)
    (hslab : c ≠ 0 → c / 4096 ≠ f ∧ c / 4096 ≠ cache / 4096 ∧ c % 4096 = 4056)
    (hzero : ∀ a, a / 4096 = f → k.mem a = 0#8) :
    ∃ m', (let k2 := slabCreateSlab (k.setBufctlNext (f * 4096) 0) cache (f * 4096)
        initBufctls k2 cache (f * 4096) flags (k2.cacheBufctlCountMax cache)) =
          { k with mem := m' } ∧
      SlabAdded k.mem m' cache size max f s c (firstSlot flags) ∧ Numbered m' size f max := by
  obtain ⟨m1, hm1⟩ : ∃ m1, m1 = k.mem.store64 (f * 4096) 0 := ⟨_, rfl⟩
  have hk1 : k.setBufctlNext (f * 4096) 0 = { k with mem := m1 } := by rw [hm1]; rfl
  have hw1 : ∀ a, a / 4096 ≠ f → a % 8 = 0 → m1.load64 a = k.mem.load64 a := by
    intro a ha h8
    rw [hm1]
    exact Mem.load64_store64_other _ _ (by omega)
  have hlink1 : ∀ i, size * i + size ≤ 4056 → m1.load64 (f * 4096 + size * i) = 0 := by
    intro i hi
    rcases Nat.eq_zero_or_pos i with rfl | hpos
    · rw [hm1, Nat.mul_zero, Nat.add_zero, Mem.load64_store64_same]
      rfl
    · have hle : size * 1 ≤ size * i := Nat.mul_le_mul_left size hpos
      rw [hm1, Mem.load64_store64_other _ _ (by omega)]
      exact Mem.load64_zero _ (fun x h1 h2 => hzero x (by omega))
  rw [hk1]
  obtain ⟨m2, hk2, hl⟩ :=
    slabCreateSlab_spec (k := { k with mem := m1 }) (f := f) (c := c) hs hal
    hcf hf.2 ((hw1 _ (by omega) (by omega)).trans hc) hslab
  rw [hk2]
  have h2out : ∀ x, (x < s ∨ s + 40 ≤ x) → (x < cache + 24 ∨ cache + 40 ≤ x) →
      (c = 0 ∨ x < c ∨ c + 8 ≤ x) → m2 x = m1 x := hl.outside
  have hlink2 : ∀ i, size * i + size ≤ 4056 → m2.load64 (f * 4096 + size * i) = 0 := by
    intro i hi
    rw [← hlink1 i hi]
    refine Mem.load64_congr (fun x h1 h2 => h2out x (by omega) (by omega) ?_)
    by_cases hc0 : c = 0
    · exact Or.inl hc0
    · have hcs := hslab hc0
      omega
  have hword2 : ∀ a, a / 4096 = cache / 4096 → a + 8 ≤ cache + 24 → a % 8 = 0 →
      m2.load64 a = k.mem.load64 a := by
    intro a ha h8 h80
    rw [← hw1 a (by omega) h80]
    refine Mem.load64_congr (fun x h1 h2 => h2out x (by omega) (by omega) ?_)
    by_cases hc0 : c = 0
    · exact Or.inl hc0
    · have hcs := hslab hc0
      omega
  have hmax2 : m2.load64 (cache + 16) = max :=
    (hword2 _ (by omega) (by omega) (by omega)).trans hmax
  have hcount2 : m2.load64 (s + 8) = max := by
    rw [hl.count]
    exact (hw1 _ (by omega) (by omega)).trans hmax
  have hstart : Building m2 m2 cache size max f s (firstSlot flags) 0 := by
    refine ⟨fun _ _ _ => rfl, hmax2.trans (by simp), hcount2.trans (by simp), hl.next, hl.home,
      ?_, ?_, fun i _ hi => hlink2 i hi⟩
    · rw [hl.head]
      simp [slotList]
    · rw [hl.tail]
      simp [slotList]
  obtain ⟨m3, hk3, hb, hnum⟩ :=
    initBufctls_building (k := { k with mem := m2 }) hstart hs hcf hal hsize
    hf ((hword2 _ (by omega) (by omega) (by omega)).trans hword) hl.cursor (le_refl max) hmaxb
  have h3out : ∀ x, x / 4096 ≠ f → (x < cache + 16 ∨ cache + 24 ≤ x) → m3 x = m2 x :=
    hb.outside
  have h3word : ∀ a, a / 4096 ≠ f → a % 8 = 0 →
      (a + 8 ≤ cache + 16 ∨ cache + 24 ≤ a) →
      m3.load64 a = m2.load64 a :=
    fun a ha h8 hac => Mem.load64_congr (fun x h1 h2 => h3out x (by omega) (by omega))
  refine ⟨m3, ?_, ⟨⟨m2, hb⟩, ?_, ?_, ?_, ?_⟩, hnum⟩
  · show initBufctls _ _ _ _ (m2.load64 (cache + 16)) = _
    rw [hmax2]
    exact hk3
  · exact (h3word _ (by omega) (by omega) (by omega)).trans hl.cursor
  · have hfirst : m2.load64 (cache + 24) = if c = 0 then s else m1.load64 (cache + 24) := hl.first
    rw [h3word _ (by omega) (by omega) (by omega), hfirst, hw1 _ (by omega) (by omega)]
  · intro hc0
    have hcs := hslab hc0
    exact (h3word _ (by omega) (by omega) (by omega)).trans (hl.link hc0)
  · intro x hx hxc hxs
    rw [h3out x hx (by omega), h2out x (by omega) (by omega) hxs, hm1]
    exact Mem.store64_outside _ _ (by omega)

theorem mem_grownList {v w : SlabView} :
    w ∈ grownList pre rest v ↔ w ∈ pre ++ rest.take 1 ∨ w = v := by
  simp [grownList, or_assoc]

theorem kept_subset {w : SlabView} (hw : w ∈ pre ++ rest.take 1) : w ∈ pre ++ rest := by
  rcases List.mem_append.mp hw with hw | hw
  · exact List.mem_append_left _ hw
  · exact List.mem_append_right _ (List.mem_of_mem_take hw)

/-- Linking a slab of fresh slots behind the cursor keeps the cache's
invariant; slabs behind the cursor leave the list, their objects in `live`
stay slots of `frames`. -/
theorem CacheInv.added {m m' : Mem} {c s lo : Nat}
    (h : CacheInv m cache size max frames (pre ++ rest) live) (hr : rest = [] → pre = [])
    (hc : c = (rest.map SlabView.addr).headD 0) (hs : s = f * 4096 + 4056)
    (hf : f ≠ 0 ∧ f < 2 ^ 40) (hff : f ∉ frames) (hcf : cache / 4096 ≠ f)
    (ha : SlabAdded m m' cache size max f s c lo) :
    CacheInv m' cache size (max - lo) (insert f frames)
      (grownList pre rest ⟨f, slotList size f lo max⟩) live := by
  obtain ⟨m0, hb⟩ := ha.built
  have hal := h.cacheAligned
  have hsz := h.sizeBounds
  have hmaxb := h.maxBound
  have hlomax : max - min lo max = max - lo := by omega
  have hcmod : c = 0 ∨ c % 4096 = 4056 := by
    cases rest with
    | nil => exact Or.inl hc
    | cons w post =>
      refine Or.inr ?_
      rw [hc]
      show (w.frame * 4096 + 4056) % 4096 = 4056
      omega
  -- a byte of the old frames changes only in the link of the slab under the cursor
  have hold : ∀ x, x / 4096 ∈ frames → (c = 0 ∨ x < c ∨ c + 8 ≤ x) → m' x = m x := by
    intro x hx hxc
    refine ha.outside x (fun hxf => hff (hxf ▸ hx)) ?_ hxc
    by_contra hcon
    have hxcache : x / 4096 = cache / 4096 := by omega
    exact h.cacheApart (hxcache ▸ hx)
  have hfield : ∀ v ∈ pre ++ rest, ∀ d, 8 ≤ d → d + 8 ≤ 40 →
      m'.load64 (v.addr + d) = m.load64 (v.addr + d) := by
    intro v hv d hd1 hd2
    apply Mem.load64_congr
    intro x h1 h2
    have hxv : x / 4096 = v.frame := by
      unfold SlabView.addr at h1 h2
      omega
    refine hold x (hxv ▸ h.frameMem v hv) ?_
    unfold SlabView.addr at h1 h2
    omega
  have hslot : ∀ v ∈ pre ++ rest, ∀ b ∈ v.free, m'.load64 b = m.load64 b := by
    intro v hv b hb
    apply Mem.load64_congr
    intro x h1 h2
    have hin := (h.slot_of_free hv hb).inside h1 (by omega)
    exact hold x hin.1 (by omega)
  have hnew : ∀ b ∈ slotList size f lo max, IsSlot size (insert f frames) b ∧
      b / 4096 = f := by
    intro b hbm
    obtain ⟨i, _, hi, rfl⟩ := mem_slotList.mp hbm
    have hle : size * (i + 1) ≤ size * max := Nat.mul_le_mul_left size hi
    rw [Nat.mul_succ, Nat.mul_comm size max] at hle
    exact ⟨⟨f, Set.mem_insert _ _, i, rfl, by omega⟩, by omega⟩
  have haddr : (⟨f, slotList size f lo max⟩ : SlabView).addr = s := by rw [hs]; rfl
  refine
    { cacheAligned := hal
      cacheBounds := h.cacheBounds
      cacheApart := ?_
      frameBounds := ?_
      sizeBounds := hsz
      maxBound := le_trans (Nat.mul_le_mul_right size (Nat.sub_le _ _)) hmaxb
      sizeWord := ?_
      maxWord := hb.maxWord.trans hlomax
      slabList := ?_
      frameMem := ?_
      count := ?_
      home := ?_
      freeList := ?_
      slots := ?_
      nodup := ?_ }
  · rintro (hcache | hcache)
    · exact hcf hcache
    · exact h.cacheApart hcache
  · rintro g (rfl | hg)
    · exact hf
    · exact h.frameBounds g hg
  · rw [← h.sizeWord]
    refine Mem.load64_congr (fun x h1 h2 => ha.outside x (by omega) (by omega) ?_)
    cases rest with
    | nil => exact Or.inl hc
    | cons w post =>
      have hwf := h.frameMem w (by simp)
      have hcw : c = w.frame * 4096 + 4056 := hc
      have hne : w.frame ≠ cache / 4096 := fun he => h.cacheApart (he ▸ hwf)
      omega
  · have hnext : m'.load64 s = 0 := hb.next
    cases rest with
    | nil =>
      have hpre := hr rfl
      subst hpre
      have hc0 : c = 0 := hc
      have hfirst := ha.first
      rw [if_pos hc0] at hfirst
      refine ⟨hfirst.trans haddr.symm, by rw [haddr]; omega, ?_⟩
      rw [haddr]
      exact hnext
    | cons w post =>
      have hcw : c = w.addr := hc
      have hw0 := (h.addr_bounds (v := w) (by simp)).1
      have hfirst := ha.first
      rw [if_neg (by omega)] at hfirst
      have hlist := h.slabList
      rw [List.map_append, List.map_cons] at hlist
      have hgoal : (grownList pre (w :: post) ⟨f, slotList size f lo max⟩).map SlabView.addr =
          pre.map SlabView.addr ++ w.addr :: [s] := by
        simp [grownList, haddr]
      rw [hgoal, hfirst]
      refine hlist.splice ?_ ?_
      · intro a hapre
        obtain ⟨v, hv, rfl⟩ := List.mem_map.mp hapre
        have hne := h.frame_ne v (List.mem_append_left _ hv)
        apply Mem.load64_congr
        intro x h1 h2
        have hxv : x / 4096 = v.frame := by
          unfold SlabView.addr at h1 h2
          omega
        refine hold x (hxv ▸ h.frameMem v (List.mem_append_left _ hv)) ?_
        unfold SlabView.addr at hcw
        omega
      · rw [← hcw, ha.link (by omega)]
        exact ⟨rfl, by omega, hnext⟩
  · intro w hw
    rcases mem_grownList.mp hw with hw | rfl
    · exact Set.mem_insert_of_mem _ (h.frameMem w (kept_subset hw))
    · exact Set.mem_insert _ _
  · intro w hw
    rcases mem_grownList.mp hw with hw | rfl
    · exact (hfield w (kept_subset hw) 8 (by omega) (by omega)).trans (h.count w (kept_subset hw))
    · rw [haddr, slotList_length]
      exact hb.count.trans hlomax
  · intro w hw
    rcases mem_grownList.mp hw with hw | rfl
    · exact (hfield w (kept_subset hw) 16 (by omega) (by omega)).trans (h.home w (kept_subset hw))
    · rw [haddr]
      exact hb.home
  · intro w hw
    rcases mem_grownList.mp hw with hw | rfl
    · rw [hfield w (kept_subset hw) 24 (by omega) (by omega)]
      exact (h.freeList w (kept_subset hw)).congr (hslot w (kept_subset hw))
    · rw [haddr]
      exact hb.list
  · intro b hbo
    rcases List.mem_append.mp hbo with hbf | hbl
    · obtain ⟨w, hw, hbw⟩ := List.mem_flatMap.mp hbf
      rcases mem_grownList.mp hw with hw | rfl
      · exact (h.slot_of_free (kept_subset hw) hbw).mono (Set.subset_insert _ _)
      · exact (hnew b hbw).1
    · exact (h.slot_of_live hbl).mono (Set.subset_insert _ _)
  · have hkept : (objects (pre ++ rest.take 1) live).Nodup := by
      refine List.Nodup.sublist ?_ h.nodup
      refine List.Sublist.append ?_ (List.Sublist.refl _)
      exact ((List.Sublist.refl pre).append (List.take_sublist 1 rest)).flatMap _
    have hperm : (objects (grownList pre rest ⟨f, slotList size f lo max⟩) live).Perm
        (slotList size f lo max ++ objects (pre ++ rest.take 1) live) := by
      apply List.perm_iff_count.mpr
      intro a
      simp only [objects, grownList, List.flatMap_append, List.flatMap_cons, List.flatMap_nil,
        List.count_append, List.count_nil]
      omega
    refine hperm.nodup_iff.mpr (List.nodup_append.mpr ⟨hb.list.nodup, hkept, ?_⟩)
    intro a hanew b hbold hab
    subst hab
    have hold' : IsSlot size frames a := by
      rcases List.mem_append.mp hbold with hbf | hbl
      · obtain ⟨w, hw, hbw⟩ := List.mem_flatMap.mp hbf
        exact h.slot_of_free (kept_subset hw) hbw
      · exact h.slot_of_live hbl
    have hin := hold'.inside (le_refl a) (by omega)
    exact hff ((hnew a hanew).2 ▸ hin.1)

end GrowStep

section Grow

variable {A : PageFrames ρ} {U : Set Nat} {Holds : Mem → ρ → Set Nat → Prop}

/-- A cache together with the frame allocator: the frames `F` are held, among
them the cache's page and the `frames` it got for its slabs. -/
structure CacheState (Holds : Mem → ρ → Set Nat → Prop) (k : Kernel ρ)
    (cache size max : Nat) (F frames : Set Nat) (slabs : List SlabView)
    (live : List Nat) : Prop where
  holds : Holds k.mem k.frames F
  cacheHeld : cache / 4096 ∈ F
  framesHeld : frames ⊆ F
  obtained : ∀ f ∈ frames, FrameCall.allocz 1 (f * 4096) ∈ k.calls
  inv : CacheInv k.mem cache size max frames slabs live

variable {k : Kernel ρ} {cache size max : Nat} {F frames : Set Nat}
  {slabs pre rest : List SlabView} {live : List Nat} {flags : SlabFlags}

/-- Writes to managed memory that keep the cache's invariant keep its state. -/
theorem CacheState.write (hA : A.Lawful U Holds)
    (h : CacheState Holds k cache size max F frames slabs live) {m' : Mem} {max' : Nat}
    {slabs' : List SlabView} {live' : List Nat} (hm : Mem.SameOn (frameBytes F)ᶜ k.mem m')
    (hinv : CacheInv m' cache size max' frames slabs' live') :
    CacheState Holds { k with mem := m' } cache size max' F frames slabs' live' := by
  refine ⟨hA.client_writes _ _ _ _ h.holds (fun x hx => hm x (fun hxF => hx ?_)), h.cacheHeld,
    h.framesHeld, h.obtained, hinv⟩
  exact hA.subset _ _ _ h.holds hxF

theorem CacheState.bookkeeping_held (h : CacheState Holds k cache size max F frames slabs live) :
    bookkeeping cache frames ⊆ frameBytes F := by
  intro x hx
  rcases mem_bookkeeping.mp hx with hx | hx
  · exact mem_frameBytes.mpr (hx ▸ h.cacheHeld)
  · exact mem_frameBytes.mpr (h.framesHeld hx.1)

theorem CacheState.setCacheSlabs (hA : A.Lawful U Holds)
    (h : CacheState Holds k cache size max F frames slabs live) (c : Nat) :
    CacheState Holds (k.setCacheSlabs cache c) cache size max F frames slabs live := by
  refine h.write hA (fun x hx => Mem.store64_outside _ _ ?_) (h.inv.setCursor c)
  by_contra hcon
  have hal := h.inv.cacheAligned
  have hxc : x / 4096 = cache / 4096 := by omega
  exact hx (mem_frameBytes.mpr (hxc ▸ h.cacheHeld))

/-- One iteration of `slab_cache_grow`: the frame request fails and growing
ends, or a slab of fresh slots is linked behind the cursor. -/
theorem growSlabs_succ (flags : SlabFlags) (hA : A.Lawful U Holds)
    (h : CacheState Holds k cache size max F frames (pre ++ rest) live)
    (hg : GrowAt k.mem cache pre rest) (count : Nat) :
    (growSlabs A cache flags (count + 1) k =
        (if flags.panic then .error (.panic "Slab cache grow ('%s'): Couldn't create bufctl\n"
          ((k.pmmAllocz A 1).2.cacheName cache))
        else .ok (k.pmmAllocz A 1).2) ∧
      Mem.SameOn (frameBytes F) k.mem (k.pmmAllocz A 1).2.mem ∧
      (k.pmmAllocz A 1).1 = 0 ∧
      CacheState Holds (k.pmmAllocz A 1).2 cache size max F frames (pre ++ rest) live) ∨
    ∃ f m', f ∉ F ∧ (k.pmmAllocz A 1).1 = f * 4096 ∧
      growSlabs A cache flags (count + 1) k =
        growSlabs A cache flags count { (k.pmmAllocz A 1).2 with mem := m' } ∧
      CacheState Holds { (k.pmmAllocz A 1).2 with mem := m' } cache size
        (max - firstSlot flags) (insert f F) (insert f frames)
        (grownList pre rest ⟨f, slotList size f (firstSlot flags) max⟩) live ∧
      GrowAt m' cache (pre ++ rest.take 1) [⟨f, slotList size f (firstSlot flags) max⟩] ∧
      Mem.SameOn (frameBytes F \ bookkeeping cache frames) k.mem m' ∧
      Numbered m' size f max := by
  obtain ⟨p, k1, hk1⟩ : ∃ p k1, k.pmmAllocz A 1 = (p, k1) := ⟨_, _, rfl⟩
  have hp : (A.allocz 1 k.mem k.frames).1 = p := congrArg Prod.fst hk1
  have hm1 : (A.allocz 1 k.mem k.frames).2.1 = k1.mem := congrArg (fun r => r.2.mem) hk1
  have hr1 : (A.allocz 1 k.mem k.frames).2.2 = k1.frames := congrArg (fun r => r.2.frames) hk1
  have hcalls : .allocz 1 p :: k.calls = k1.calls := by
    rw [← hp]
    exact congrArg (fun r => r.2.calls) hk1
  have hob : ∀ f ∈ frames, FrameCall.allocz 1 (f * 4096) ∈ k1.calls := by
    intro f hf
    rw [← hcalls]
    exact List.mem_cons_of_mem _ (h.obtained f hf)
  have hlaw := hA.allocz_one _ _ _ h.holds
  rw [hp, hm1, hr1] at hlaw
  rw [hk1]
  rcases hlaw with ⟨hp0, hh1, hs1⟩ | ⟨f, hpf, hfF, hh1, hs1, hz⟩
  · refine Or.inl ⟨?_, hs1, hp0, hh1, h.cacheHeld, h.framesHeld, hob,
      h.inv.of_sameOn h.cacheHeld h.framesHeld hs1⟩
    simp only [growSlabs, slabCreateBufctlBuffer, hk1, hp0, if_true, true_and]
  · have hinv1 := h.inv.of_sameOn h.cacheHeld h.framesHeld hs1
    have hfU : f ∈ U := hA.subset _ _ _ hh1 (Set.mem_insert f F)
    have hfb := hA.managed f hfU
    have hp0 : p ≠ 0 := by omega
    have hcf : cache / 4096 ≠ f := fun he => hfF (he ▸ h.cacheHeld)
    have hcur : k1.mem.load64 (cache + 32) = (rest.map SlabView.addr).headD 0 := by
      rw [← hg.1]
      refine hs1.load64 (fun x h1 h2 => mem_frameBytes.mpr ?_)
      have hal := h.inv.cacheAligned
      have hxc : x / 4096 = cache / 4096 := by omega
      exact hxc ▸ h.cacheHeld
    obtain ⟨c, hc⟩ : ∃ c, c = (rest.map SlabView.addr).headD 0 := ⟨_, rfl⟩
    have hcases : c = 0 ∨ ∃ w ∈ rest, c = w.addr := by
      cases rest with
      | nil => exact Or.inl hc
      | cons w post => exact Or.inr ⟨w, by simp, hc⟩
    have hslab : c ≠ 0 → c / 4096 ≠ f ∧ c / 4096 ≠ cache / 4096 ∧ c % 4096 = 4056 := by
      intro hc0
      obtain ⟨w, hw, rfl⟩ := hcases.resolve_left hc0
      have hwm : w ∈ pre ++ rest := List.mem_append_right _ hw
      have hwf := h.inv.frameMem w hwm
      rw [(h.inv.addr_bounds hwm).2.2]
      refine ⟨fun he => hfF (he ▸ h.framesHeld hwf),
        fun he => h.inv.cacheApart (he ▸ hwf), ?_⟩
      show (w.frame * 4096 + 4056) % 4096 = 4056
      omega
    obtain ⟨m', hk', hadd, hnum⟩ := growStep_added (k := k1) (f := f) (c := c) rfl
      h.inv.cacheAligned hcf hfb h.inv.sizeBounds h.inv.maxBound hinv1.sizeWord hinv1.maxWord
      (hcur.trans hc.symm) hslab hz
    have hinv' := hinv1.added hg.2 hc rfl hfb (fun hff => hfF (h.framesHeld hff)) hcf hadd
    have hother : ∀ x, x / 4096 ≠ f → x ∉ bookkeeping cache frames → m' x = k1.mem x := by
      intro x hxf hxb
      have hal := h.inv.cacheAligned
      refine hadd.outside x hxf ?_ ?_
      · by_contra hcon
        exact hxb (Or.inl (by omega))
      · rcases hcases with hc0 | ⟨w, hw, rfl⟩
        · exact Or.inl hc0
        · right
          by_contra hcon
          have hxw : x / 4096 = w.frame := by
            unfold SlabView.addr at hcon
            omega
          refine hxb (Or.inr ⟨hxw ▸ h.inv.frameMem w (List.mem_append_right _ hw), ?_⟩)
          unfold SlabView.addr at hcon
          omega
    refine Or.inr ⟨f, m', hfF, hpf, ?_, ⟨?_, Set.mem_insert_of_mem _ h.cacheHeld,
      Set.insert_subset_insert h.framesHeld, ?_, hinv'⟩, ⟨hadd.cursor, by simp⟩, ?_, hnum⟩
    · rw [← hk', ← hpf]
      simp only [growSlabs, slabCreateBufctlBuffer, hk1, hp0, if_false, false_and]
    · refine hA.client_writes _ _ _ _ hh1 (fun x hx => hother x ?_ ?_)
      · exact fun hxf => hx (mem_frameBytes.mpr (hxf ▸ hfU))
      · intro hxb
        exact hx (mem_frameBytes.mpr (hA.subset _ _ _ h.holds (h.bookkeeping_held hxb)))
    · rintro g (rfl | hg')
      · show FrameCall.allocz 1 (g * 4096) ∈ k1.calls
        rw [← hcalls, hpf]
        exact List.mem_cons_self
      · exact hob g hg'
    · intro x hx
      rw [hother x (fun hxf => hfF (hxf ▸ hx.1)) hx.2]
      exact hs1 x hx.1

end Grow

end ApoptOS
