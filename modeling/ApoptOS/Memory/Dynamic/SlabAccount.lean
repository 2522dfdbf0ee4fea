import ApoptOS.Memory.Dynamic.SlabOps

namespace ApoptOS

open Framework

/-- The live objects in frame `f`. -/
def liveIn (f : Nat) (live : List Nat) : Nat := live.countP (fun b => b / 4096 = f)

/-- Every slab on the list holds only objects of its own frame, and together
with the live ones these are as many as `bufctl_count_max` says. -/
structure Accounted (max : Nat) (slabs : List SlabView) (live : List Nat) : Prop where
  maxPos : 1 ≤ max
  home : ∀ v ∈ slabs, ∀ b ∈ v.free, b / 4096 = v.frame
  total : ∀ v ∈ slabs, v.free.length + liveIn v.frame live = max

theorem liveIn_cons (f b : Nat) (live : List Nat) :
    liveIn f (b :: live) = liveIn f live + if b / 4096 = f then 1 else 0 := by
  unfold liveIn
  rw [List.countP_cons]
  simp

theorem liveIn_erase {p : Nat} (f : Nat) {live : List Nat} (hp : p ∈ live) :
    liveIn f (live.erase p) + (if p / 4096 = f then 1 else 0) = liveIn f live := by
  rw [← liveIn_cons]
  exact ((List.perm_cons_erase hp).countP_eq _).symm

theorem liveIn_eq_zero {f : Nat} {live : List Nat} :
    liveIn f live = 0 ↔ ∀ b ∈ live, b / 4096 ≠ f := by
  unfold liveIn
  rw [List.countP_eq_zero]
  simp

namespace Accounted

variable {m : Mem} {cache size max : Nat} {frames : Set Nat}
  {slabs pre post rest : List SlabView} {v : SlabView} {live : List Nat} {b p : Nat}

theorem mem_middle {w w' : SlabView} (hw : w ∈ pre ++ w' :: post) :
    w = w' ∨ w ∈ pre ++ post := by
  simp only [List.mem_append, List.mem_cons] at hw ⊢
  rcases hw with hw | hw | hw
  · exact Or.inr (Or.inl hw)
  · exact Or.inl hw
  · exact Or.inr (Or.inr hw)

theorem pop (h : Accounted max (pre ++ v :: post) live)
    (hinv : CacheInv m cache size max frames (pre ++ v :: post) live) {tail : List Nat}
    (hv : v.free = b :: tail) : Accounted max (pre ++ ⟨v.frame, tail⟩ :: post) (b :: live) := by
  have hvm : v ∈ pre ++ v :: post := by simp
  have hb : b / 4096 = v.frame := h.home v hvm b (by rw [hv]; simp)
  refine ⟨h.maxPos, fun w hw c hc => ?_, fun w hw => ?_⟩
  · rcases mem_middle hw with rfl | hw
    · exact h.home v hvm c (by rw [hv]; simp [hc])
    · exact h.home w (CacheInv.mem_of_other hw) c hc
  · rw [liveIn_cons]
    rcases mem_middle hw with rfl | hw
    · have ht := h.total v hvm
      rw [hv, List.length_cons] at ht
      rw [if_pos hb]
      show tail.length + (liveIn v.frame live + 1) = max
      omega
    · have hne := hinv.frame_ne w hw
      rw [if_neg (by omega)]
      exact h.total w (CacheInv.mem_of_other hw)

theorem push (h : Accounted max (pre ++ v :: post) live)
    (hinv : CacheInv m cache size max frames (pre ++ v :: post) live) (hp : p ∈ live)
    (hown : p / 4096 = v.frame) :
    Accounted max (pre ++ ⟨v.frame, p :: v.free⟩ :: post) (live.erase p) := by
  have hvm : v ∈ pre ++ v :: post := by simp
  refine ⟨h.maxPos, fun w hw c hc => ?_, fun w hw => ?_⟩
  · rcases mem_middle hw with rfl | hw
    · rcases List.mem_cons.mp hc with rfl | hc
      · exact hown
      · exact h.home v hvm c hc
    · exact h.home w (CacheInv.mem_of_other hw) c hc
  · rcases mem_middle hw with rfl | hw
    · have ht := h.total v hvm
      have her := liveIn_erase v.frame hp
      rw [if_pos hown] at her
      show (p :: v.free).length + liveIn v.frame (live.erase p) = max
      rw [List.length_cons]
      omega
    · have hne := hinv.frame_ne w hw
      have her := liveIn_erase w.frame hp
      rw [if_neg (by omega)] at her
      have ht := h.total w (CacheInv.mem_of_other hw)
      omega

/-- An object no slab has room for comes from none of them. -/
theorem leak (h : Accounted max slabs live) (hp : p ∈ live)
    (hfull : ∀ v ∈ slabs, max ≤ v.free.length) : Accounted max slabs (live.erase p) := by
  refine ⟨h.maxPos, h.home, fun w hw => ?_⟩
  have ht := h.total w hw
  have hroom := hfull w hw
  have her := liveIn_erase w.frame hp
  omega

theorem grow {f lo : Nat} (h : Accounted max (pre ++ rest) live)
    (hinv : CacheInv m cache size max frames (pre ++ rest) live) (hf : f ∉ frames)
    (hlo : lo = 0 ∨ pre ++ rest = [] ∧ lo + 1 ≤ max) :
    Accounted (max - lo) (grownList pre rest ⟨f, slotList size f lo max⟩) live := by
  have hmaxb := hinv.maxBound
  have hsz := hinv.sizeBounds
  have hempty : liveIn f live = 0 := by
    refine liveIn_eq_zero.mpr (fun b hb hbf => hf ?_)
    exact hbf ▸ ((hinv.slot_of_live hb).inside (le_refl b) (by omega)).1
  have hkept : ∀ w ∈ pre ++ rest.take 1, lo = 0 ∧ w ∈ pre ++ rest := by
    intro w hw
    have hmem := kept_subset hw
    refine ⟨hlo.resolve_right (fun hnil => ?_), hmem⟩
    rw [hnil.1] at hmem
    simp at hmem
  refine ⟨?_, fun w hw c hc => ?_, fun w hw => ?_⟩
  · have hpos := h.maxPos
    omega
  · rcases mem_grownList.mp hw with hw | rfl
    · exact h.home w (hkept w hw).2 c hc
    · obtain ⟨i, _, hi, rfl⟩ := mem_slotList.mp hc
      have hle : size * (i + 1) ≤ size * max := Nat.mul_le_mul_left size hi
      rw [Nat.mul_succ, Nat.mul_comm size max] at hle
      show (f * 4096 + size * i) / 4096 = f
      omega
  · rcases mem_grownList.mp hw with hw | rfl
    · obtain ⟨hlo0, hmem⟩ := hkept w hw
      rw [hlo0]
      exact h.total w hmem
    · show (slotList size f lo max).length + liveIn f live = max - lo
      rw [slotList_length, hempty]
      omega

end Accounted

section Specs

variable {ρ : Type} {A : PageFrames ρ} {U : Set Nat} {Holds : Mem → ρ → Set Nat → Prop}
  {k k' : Kernel ρ} {cache size max : Nat} {F frames : Set Nat}
  {slabs pre rest : List SlabView} {live : List Nat} {flags : SlabFlags}

/-- Growth that leaves the capacities of slab and cache equal: `SLAB_NO_ALIGN`
only for the first slab of the list, and with a slot left in it. -/
def GrowFair (flags : SlabFlags) (count max : Nat) (slabs : List SlabView) : Prop :=
  flags.noAlign = true → count = 0 ∨ count = 1 ∧ slabs = [] ∧ 2 ≤ max

theorem firstSlot_eq_zero (h : flags.noAlign = false) : firstSlot flags = 0 := by
  rw [firstSlot, h]
  rfl

theorem firstSlot_le_one (flags : SlabFlags) : firstSlot flags ≤ 1 := by
  unfold firstSlot
  split <;> omega

theorem Effect.frame_added {m' : Mem} {f : Nat} (hf : f ∉ F)
    (hm : Mem.SameOn (frameBytes F \ bookkeeping cache frames) k.mem m') :
    Effect k { (k.pmmAllocz A 1).2 with mem := m' } F (insert f F) (ownFrames cache frames)
      (ownFrames cache (insert f frames)) := by
  refine ⟨fun x hx => hm x ⟨hx.1, fun hxb => hx.2 (bookkeeping_own hxb)⟩,
    fun x hx => Set.mem_insert_of_mem _ hx.1, Set.disjoint_left.mpr ?_,
    List.suffix_cons _ _⟩
  rintro x (rfl | rfl | hx) hx'
  · exact hx'.2 (Set.mem_insert _ _)
  · exact hf hx'.1
  · exact hx'.2 (Set.mem_insert_of_mem _ hx)

theorem Effect.frame_refused {own : Set Nat}
    (hm : Mem.SameOn (frameBytes F) k.mem (k.pmmAllocz A 1).2.mem) :
    Effect k (k.pmmAllocz A 1).2 F F own own :=
  ⟨fun x hx => hm x hx.1, fun _ hx => hx.1,
    Set.disjoint_left.mpr (fun _ hx hx' => hx'.2 hx), List.suffix_cons _ _⟩

theorem growSlabs_spec (hA : A.Lawful U Holds) {count : Nat}
    (h : CacheState Holds k cache size max F frames (pre ++ rest) live)
    (hg : GrowAt k.mem cache pre rest) (hok : growSlabs A cache flags count k = .ok k') :
    ∃ max' F' frames' slabs', CacheState Holds k' cache size max' F' frames' slabs' live ∧
      Effect k k' F F' (ownFrames cache frames) (ownFrames cache frames') ∧
      (Accounted max (pre ++ rest) live → GrowFair flags count max (pre ++ rest) →
        Accounted max' slabs' live) := by
  induction count generalizing k max F frames pre rest with
  | zero =>
    have hk : k = k' := by
      rw [growSlabs] at hok
      exact Except.ok.inj hok
    subst hk
    exact ⟨max, F, frames, pre ++ rest, h, Effect.write (Mem.SameOn.refl _ _), fun ha _ => ha⟩
  | succ count ih =>
    rcases growSlabs_succ flags hA h hg count with
      ⟨heq, hsame, _, hst⟩ | ⟨f, m', hfF, _, heq, hst, hg', hsame, _⟩
    · rw [heq] at hok
      split at hok
      · simp at hok
      · have hk := Except.ok.inj hok
        subst hk
        exact ⟨max, F, frames, pre ++ rest, hst, Effect.frame_refused hsame, fun ha _ => ha⟩
    · rw [heq] at hok
      obtain ⟨max', F', frames', slabs', hst', he, hacc⟩ := ih hst hg' hok
      refine ⟨max', F', frames', slabs', hst', (Effect.frame_added hfF hsame).trans he, ?_⟩
      intro ha hfair
      have hff : f ∉ frames := fun hff => hfF (h.framesHeld hff)
      by_cases hna : flags.noAlign = true
      · rcases hfair hna with h0 | ⟨h1, hnil, h2⟩
        · omega
        · refine hacc (ha.grow h.inv hff (Or.inr ⟨hnil, ?_⟩)) (fun _ => Or.inl (by omega))
          have hlo := firstSlot_le_one flags
          omega
      · have hlo := firstSlot_eq_zero (Bool.eq_false_iff.mpr hna)
        exact hacc (ha.grow h.inv hff (Or.inl hlo)) (fun hn => absurd hn hna)

/-- `slab_cache_grow` keeps the cache's state for any flags; it keeps the
accounts when the growth is fair. -/
theorem slabCacheGrow_spec (hA : A.Lawful U Holds) {count : Nat}
    (h : CacheState Holds k cache size max F frames slabs live)
    (hok : slabCacheGrow A k cache count flags = .ok k') :
    ∃ max' F' frames' slabs', CacheState Holds k' cache size max' F' frames' slabs' live ∧
      Effect k k' F F' (ownFrames cache frames) (ownFrames cache frames') ∧
      (Accounted max slabs live → GrowFair flags count max slabs →
        Accounted max' slabs' live) := by
  have hc0 : cache ≠ 0 := h.inv.cacheBounds.1
  rw [slabCacheGrow, if_neg (fun hc => hc0 hc.1), if_neg hc0] at hok
  have hst : CacheState Holds (k.setCacheSlabs cache (k.cacheSlabsHead cache)) cache size max F
      frames ([] ++ slabs) live := h.setCacheSlabs hA _
  obtain ⟨max', F', frames', slabs', hst', he, hacc⟩ :=
    growSlabs_spec hA hst ⟨h.cursor_head, fun _ => rfl⟩ hok
  exact ⟨max', F', frames', slabs', hst', (h.effect_cursor _).trans he, hacc⟩

/-- An allocation that does not grow the list unfairly on the way. -/
def AllocFair (flags : SlabFlags) (max : Nat) (pre rest : List SlabView) : Prop :=
  flags.autoGrow = true → flags.noAlign = true →
    (∃ v ∈ rest, v.free ≠ []) ∨ pre ++ rest = [] ∧ 2 ≤ max

theorem Effect.alloc {m' : Mem} (hm : Mem.SameOn (bookkeeping cache frames)ᶜ k.mem m') :
    Effect k { k with mem := m' } F F (ownFrames cache frames) (ownFrames cache frames) :=
  Effect.write (hm.mono (fun _ hx hxb => hx (bookkeeping_own hxb)))

section AllocRule

/-- A rule for the loop of `slab_cache_alloc`: what holds of kernel and list while it is searched
for a free object, and each time it has grown, gives what holds after the object is taken. -/
theorem allocFromSlabs_rule {I : Kernel ρ → Nat → List SlabView → Prop}
    {J : Kernel ρ → Nat → List SlabView → List Nat → Prop} (hA : A.Lawful U Holds)
    {fuel p : Nat} (hkeep : ∀ (k k1 : Kernel ρ) max F frames slabs,
      CacheState Holds k cache size max F frames slabs live →
      Mem.SameOn (frameBytes F \ bookkeeping cache frames) k.mem k1.mem → I k max slabs →
      I k1 max slabs)
    (hgrow : ∀ (k k1 : Kernel ρ) max F frames slabs f,
      CacheState Holds k cache size max F frames slabs live → f ∉ frames →
      flags.autoGrow = true → (∀ v ∈ slabs, v.free = []) →
      Mem.SameOn (frameBytes F \ bookkeeping cache frames) k.mem k1.mem →
      Numbered k1.mem size f max → I k max slabs →
      I k1 (max - firstSlot flags)
        (grownList [] slabs ⟨f, slotList size f (firstSlot flags) max⟩))
    (htake : ∀ (k k1 : Kernel ρ) max F frames pre v post b tail,
      CacheState Holds k cache size max F frames (pre ++ v :: post) live →
      (∀ w ∈ pre, w.free = []) → v.free = b :: tail →
      Mem.SameOn (bookkeeping cache frames)ᶜ k.mem k1.mem → I k max (pre ++ v :: post) →
      J k1 max (pre ++ ⟨v.frame, tail⟩ :: post) (b :: live))
    (hnone : ∀ k max slabs, I k max slabs → J k max slabs live)
    (h : CacheState Holds k cache size max F frames (pre ++ rest) live)
    (hc : CursorAt k.mem cache rest) (hpre : ∀ v ∈ pre, v.free = [])
    (hok : allocFromSlabs A cache flags fuel k = .ok (p, k')) :
    ∃ max' F' frames' slabs',
      CacheState Holds k' cache size max' F' frames' slabs' (if p = 0 then live else p :: live) ∧
      Effect k k' F F' (ownFrames cache frames) (ownFrames cache frames') ∧
      (I k max (pre ++ rest) → J k' max' slabs' (if p = 0 then live else p :: live)) := by
  induction fuel generalizing k max F frames pre rest with
  | zero => simp [allocFromSlabs] at hok
  | succ fuel ih =>
    cases rest with
    | nil =>
      rw [allocFromSlabs_end hc] at hok
      split at hok
      case isTrue hauto =>
        -- the end of the list: grow by one slab and start over
        have hc0 : cache ≠ 0 := h.inv.cacheBounds.1
        rw [slabCacheGrow, if_neg (fun hc => hc0 hc.1), if_neg hc0] at hok
        have hst : CacheState Holds (k.setCacheSlabs cache (k.cacheSlabsHead cache)) cache size
          max F frames ([] ++ (pre ++ [])) live := h.setCacheSlabs hA _
        have he0 := h.effect_cursor (k.cacheSlabsHead cache)
        have hI0 := hkeep k _ max F frames _ h (h.same_cursor (k.cacheSlabsHead cache))
        have hrestart : ∀ k1 max1 F1 frames1 slabs1,
            CacheState Holds k1 cache size max1 F1 frames1 slabs1 live →
            Effect k k1 F F1 (ownFrames cache frames) (ownFrames cache frames1) →
            (I k max (pre ++ []) → I k1 max1 slabs1) →
            allocFromSlabs A cache flags fuel
              (k1.setCacheSlabs cache (k1.cacheSlabsHead cache)) = .ok (p, k') →
            ∃ max' F' frames' slabs', CacheState Holds k' cache size max' F' frames' slabs'
                (if p = 0 then live else p :: live) ∧
              Effect k k' F F' (ownFrames cache frames) (ownFrames cache frames') ∧
              (I k max (pre ++ []) → J k' max' slabs' (if p = 0 then live else p :: live)) := by
          intro k1 max1 F1 frames1 slabs1 hst1 he1 hI1 hok1
          have hst1' : CacheState Holds (k1.setCacheSlabs cache (k1.cacheSlabsHead cache)) cache
            size max1 F1 frames1 ([] ++ slabs1) live := hst1.setCacheSlabs hA _
          obtain ⟨max', F', frames', slabs', hst', he, hJ⟩ :=
            ih hst1' hst1.cursor_head (by simp) hok1
          exact ⟨max', F', frames', slabs', hst', (he1.trans (hst1.effect_cursor _)).trans he,
            fun hI => hJ (hkeep _ _ _ _ _ _ hst1 (hst1.same_cursor _) (hI1 hI))⟩
        rcases growSlabs_succ flags hA hst ⟨h.cursor_head, fun _ => rfl⟩ 0 with
          ⟨heq, hsame, _, hst1⟩ | ⟨f, m', hfF, _, heq, hst1, _, hsame, hnum⟩
        · rw [heq] at hok
          by_cases hpan : flags.panic = true
          · simp [hpan] at hok
          · rw [if_neg hpan] at hok
            exact hrestart _ max F frames _ hst1 (he0.trans (Effect.frame_refused hsame))
              (fun hI => hkeep _ _ _ _ _ _ hst (hsame.mono (fun _ hx => hx.1)) (hI0 hI)) hok
        · rw [heq, growSlabs] at hok
          have hff : f ∉ frames := fun hff => hfF (h.framesHeld hff)
          exact hrestart _ _ _ _ _ hst1 (he0.trans (Effect.frame_added hfF hsame))
            (fun hI => hgrow _ { (Kernel.pmmAllocz A _ 1).2 with mem := m' } _ _ _ _ f hst hff hauto
              (by simpa using hpre) hsame hnum (hI0 hI)) hok
      case isFalse hauto =>
        split at hok
        · simp at hok
        · have hk := Except.ok.inj hok
          obtain ⟨rfl, rfl⟩ := Prod.mk.inj hk
          exact ⟨max, F, frames, pre ++ [], h, Effect.write (Mem.SameOn.refl _ _), hnone _ _ _⟩
    | cons v post =>
      rcases hv : v.free with _ | ⟨b, tail⟩
      · rw [allocFromSlabs_next h hc hv] at hok
        have hassoc : (pre ++ [v]) ++ post = pre ++ v :: post := by simp
        have hst : CacheState Holds (k.setCacheSlabs cache (k.slabNext v.addr)) cache size max F
            frames ((pre ++ [v]) ++ post) live := by
          rw [hassoc]
          exact h.setCacheSlabs hA _
        have hpre' : ∀ w ∈ pre ++ [v], w.free = [] := by
          intro w hw
          rcases List.mem_append.mp hw with hw | hw
          · exact hpre w hw
          · rw [List.mem_singleton.mp hw, hv]
        obtain ⟨max', F', frames', slabs', hst', he, hJ⟩ := ih hst h.cursor_next hpre' hok
        rw [hassoc] at hJ
        exact ⟨max', F', frames', slabs', hst', (h.effect_cursor _).trans he,
          fun hI => hJ (hkeep _ _ _ _ _ _ h (h.same_cursor _) hI)⟩
      · obtain ⟨m', heq, hst, hsame⟩ := allocFromSlabs_take fuel flags hA h hc hv
        rw [heq] at hok
        obtain ⟨rfl, rfl⟩ := Prod.mk.inj (Except.ok.inj hok)
        have hb0 : b ≠ 0 := (h.inv.slot_bounds (h.inv.slot_of_free (v := v) (by simp)
          (by rw [hv]; simp))).1
        rw [if_neg hb0]
        exact ⟨max, F, frames, _, hst, Effect.alloc hsame,
          htake k { k with mem := m' } _ _ _ _ _ _ _ _ h hpre hv hsame⟩

/-- `slab_cache_alloc` starts its search with the whole list. -/
theorem slabCacheAlloc_kernel_rule {I : Kernel ρ → Nat → List SlabView → Prop}
    {J : Kernel ρ → Nat → List SlabView → List Nat → Prop} (hA : A.Lawful U Holds)
    {fuel p : Nat} (hkeep : ∀ (k k1 : Kernel ρ) max F frames slabs,
      CacheState Holds k cache size max F frames slabs live →
      Mem.SameOn (frameBytes F \ bookkeeping cache frames) k.mem k1.mem → I k max slabs →
      I k1 max slabs)
    (hgrow : ∀ (k k1 : Kernel ρ) max F frames slabs f,
      CacheState Holds k cache size max F frames slabs live → f ∉ frames →
      flags.autoGrow = true → (∀ v ∈ slabs, v.free = []) →
      Mem.SameOn (frameBytes F \ bookkeeping cache frames) k.mem k1.mem →
      Numbered k1.mem size f max → I k max slabs →
      I k1 (max - firstSlot flags)
        (grownList [] slabs ⟨f, slotList size f (firstSlot flags) max⟩))
    (htake : ∀ (k k1 : Kernel ρ) max F frames pre v post b tail,
      CacheState Holds k cache size max F frames (pre ++ v :: post) live →
      (∀ w ∈ pre, w.free = []) → v.free = b :: tail →
      Mem.SameOn (bookkeeping cache frames)ᶜ k.mem k1.mem → I k max (pre ++ v :: post) →
      J k1 max (pre ++ ⟨v.frame, tail⟩ :: post) (b :: live))
    (hnone : ∀ k max slabs, I k max slabs → J k max slabs live)
    (h : CacheState Holds k cache size max F frames slabs live)
    (hok : slabCacheAlloc A fuel k cache flags = .ok (p, k')) :
    ∃ max' F' frames' slabs',
      CacheState Holds k' cache size max' F' frames' slabs' (if p = 0 then live else p :: live) ∧
      Effect k k' F F' (ownFrames cache frames) (ownFrames cache frames') ∧
      (I k max slabs → J k' max' slabs' (if p = 0 then live else p :: live)) := by
  rw [slabCacheAlloc_eq A h.inv.cacheBounds.1] at hok
  have hst : CacheState Holds (k.setCacheSlabs cache (k.cacheSlabsHead cache)) cache size max F
      frames ([] ++ slabs) live := h.setCacheSlabs hA _
  obtain ⟨max', F', frames', slabs', hst', he, hJ⟩ :=
    allocFromSlabs_rule hA hkeep hgrow htake hnone hst h.cursor_head (by simp) hok
  exact ⟨max', F', frames', slabs', hst', (h.effect_cursor _).trans he,
    fun hI => hJ (hkeep _ _ _ _ _ _ h (h.same_cursor _) hI)⟩

/-- The rule for what depends on the list alone. -/
theorem slabCacheAlloc_rule {I : Nat → List SlabView → Prop}
    {J : Nat → List SlabView → List Nat → Prop} (hA : A.Lawful U Holds) {fuel p : Nat}
    (hgrow : ∀ k max F frames slabs f,
      CacheState Holds k cache size max F frames slabs live → f ∉ frames →
      flags.autoGrow = true → (∀ v ∈ slabs, v.free = []) → I max slabs →
      I (max - firstSlot flags) (grownList [] slabs ⟨f, slotList size f (firstSlot flags) max⟩))
    (htake : ∀ k max F frames pre v post b tail,
      CacheState Holds k cache size max F frames (pre ++ v :: post) live →
      (∀ w ∈ pre, w.free = []) → v.free = b :: tail → I max (pre ++ v :: post) →
      J max (pre ++ ⟨v.frame, tail⟩ :: post) (b :: live))
    (hnone : ∀ max slabs, I max slabs → J max slabs live)
    (h : CacheState Holds k cache size max F frames slabs live)
    (hok : slabCacheAlloc A fuel k cache flags = .ok (p, k')) :
    ∃ max' F' frames' slabs',
      CacheState Holds k' cache size max' F' frames' slabs' (if p = 0 then live else p :: live) ∧
      Effect k k' F F' (ownFrames cache frames) (ownFrames cache frames') ∧
      (I max slabs → J max' slabs' (if p = 0 then live else p :: live)) :=
  slabCacheAlloc_kernel_rule (I := fun _ => I) (J := fun _ => J) hA
    (fun _ _ _ _ _ _ _ _ hI => hI)
    (fun k _ max F frames slabs f hst hff hauto hempty _ _ hI =>
      hgrow k max F frames slabs f hst hff hauto hempty hI)
    (fun k _ max F frames pre v post b tail hst hpre hv _ hI =>
      htake k max F frames pre v post b tail hst hpre hv hI)
    (fun _ => hnone) h hok

end AllocRule

theorem slabCacheAlloc_spec (hA : A.Lawful U Holds) {fuel p : Nat}
    (h : CacheState Holds k cache size max F frames slabs live)
    (hok : slabCacheAlloc A fuel k cache flags = .ok (p, k')) :
    ∃ max' F' frames' slabs',
      CacheState Holds k' cache size max' F' frames' slabs' (if p = 0 then live else p :: live) ∧
      Effect k k' F F' (ownFrames cache frames) (ownFrames cache frames') ∧
      (Accounted max slabs live → AllocFair flags max [] slabs →
        Accounted max' slabs' (if p = 0 then live else p :: live)) := by
  have hgrow : ∀ k max F frames slabs f,
      CacheState Holds k cache size max F frames slabs live → f ∉ frames →
      flags.autoGrow = true → (∀ v ∈ slabs, v.free = []) →
      Accounted max slabs live ∧ AllocFair flags max [] slabs →
      Accounted (max - firstSlot flags)
          (grownList [] slabs ⟨f, slotList size f (firstSlot flags) max⟩) live ∧
        AllocFair flags (max - firstSlot flags) []
          (grownList [] slabs ⟨f, slotList size f (firstSlot flags) max⟩) := by
    rintro k max F frames slabs f h hff hauto hempty ⟨ha, hfair⟩
    have hlo := firstSlot_le_one flags
    have hnew : (⟨f, slotList size f (firstSlot flags) max⟩ : SlabView) ∈
        grownList [] slabs ⟨f, slotList size f (firstSlot flags) max⟩ :=
      mem_grownList.mpr (Or.inr rfl)
    have hinv : CacheInv k.mem cache size max frames ([] ++ slabs) live := h.inv
    have ha' : Accounted max ([] ++ slabs) live := ha
    by_cases hna : flags.noAlign = true
    · rcases hfair hauto hna with ⟨v, hv, hne⟩ | ⟨hnil, h2⟩
      · exact absurd (hempty v hv) hne
      · refine ⟨ha'.grow hinv hff (Or.inr ⟨hnil, by omega⟩),
          fun _ _ => Or.inl ⟨_, hnew, ?_⟩⟩
        intro (hempty : slotList size f (firstSlot flags) max = [])
        have hlen := slotList_length size f (firstSlot flags) max
        rw [hempty, List.length_nil] at hlen
        omega
    · have hlo0 := firstSlot_eq_zero (Bool.eq_false_iff.mpr hna)
      exact ⟨ha'.grow hinv hff (Or.inl hlo0), fun _ hn => absurd hn hna⟩
  obtain ⟨max', F', frames', slabs', hst', he, hJ⟩ := slabCacheAlloc_rule hA hgrow
    (fun _ _ _ _ _ _ _ _ _ h _ hv hI => hI.1.pop h.inv hv) (fun _ _ hI => hI.1) h hok
  exact ⟨max', F', frames', slabs', hst', he, fun ha hfair => hJ ⟨ha, hfair⟩⟩

/-- A free that is credited to the slab the object lies in, or to none. -/
def FreeFair (max p : Nat) (slabs : List SlabView) : Prop :=
  ∀ v, slabs.find? (fun v => v.free.length < max) = some v → p / 4096 = v.frame

theorem CacheInv.forget {m : Mem} (h : CacheInv m cache size max frames slabs live) (p : Nat) :
    CacheInv m cache size max frames slabs (live.erase p) := by
  have hsub : (objects slabs (live.erase p)).Sublist (objects slabs live) :=
    (List.Sublist.refl _).append List.erase_sublist
  exact { h with
    slots := fun b hb => h.slots b (hsub.subset hb)
    nodup := h.nodup.sublist hsub }

theorem CacheState.effect_free (h : CacheState Holds k cache size max F frames slabs live)
    {p : Nat} (hp : p ∈ live) {m' : Mem}
    (hm : ∀ x, x ∉ bookkeeping cache frames → (x < p ∨ p + 10 ≤ x) → m' x = k.mem x) :
    Effect k { k with mem := m' } F F (ownFrames cache frames) (ownFrames cache frames) := by
  refine Effect.write (fun x hx => hm x (fun hxb => hx (bookkeeping_own hxb)) ?_)
  by_contra hcon
  have hs := h.inv.sizeBounds
  have hin := (h.inv.slot_of_live hp).inside (x := x) (by omega) (by omega)
  exact hx (mem_frameBytes.mpr (Set.mem_insert_of_mem _ hin.1))

/-- The loop of `slab_cache_free`: all slabs it meets are full and nothing is taken back, or the
first one with room takes the object. -/
theorem freeToSlabs_cases (hA : A.Lawful U Holds) {fuel p : Nat}
    (h : CacheState Holds k cache size max F frames (pre ++ rest) live)
    (hc : CursorAt k.mem cache rest) (hp : p ∈ live)
    (hok : freeToSlabs cache p flags fuel k = .ok k') :
    (∀ v ∈ rest, max ≤ v.free.length) ∧
        CacheState Holds k' cache size max F frames (pre ++ rest) live ∧
        Effect k k' F F (ownFrames cache frames) (ownFrames cache frames) ∧
        Mem.SameOn (frameBytes F \ bookkeeping cache frames) k.mem k'.mem ∨
      ∃ mid v post, rest = mid ++ v :: post ∧ (∀ w ∈ mid, max ≤ w.free.length) ∧
        v.free.length < max ∧
        CacheState Holds k' cache size max F frames
          (pre ++ mid ++ ⟨v.frame, p :: v.free⟩ :: post) (live.erase p) ∧
        Effect k k' F F (ownFrames cache frames) (ownFrames cache frames) ∧
        (∀ x ∈ frameBytes F \ bookkeeping cache frames, (x < p ∨ p + 10 ≤ x) →
          k'.mem x = k.mem x) ∧
        k'.mem.load16 (p + 8) = sub64 p (v.frame * 4096) / size % 2 ^ 16 := by
  induction fuel generalizing k pre rest with
  | zero => simp [freeToSlabs] at hok
  | succ fuel ih =>
    cases rest with
    | nil =>
      rw [freeToSlabs_end hc] at hok
      split at hok
      · simp at hok
      · obtain rfl := Except.ok.inj hok
        exact Or.inl ⟨by simp, h, Effect.write (Mem.SameOn.refl _ _), Mem.SameOn.refl _ _⟩
    | cons v post =>
      by_cases hv : v.free.length < max
      · obtain ⟨m', heq, hst, hsame, hindex⟩ := freeToSlabs_give fuel flags hA h hc hv hp
        rw [heq] at hok
        obtain rfl := Except.ok.inj hok
        exact Or.inr ⟨[], v, post, rfl, by simp, hv, by simpa using hst, h.effect_free hp hsame,
          fun x hx => hsame x hx.2, hindex⟩
      · rw [freeToSlabs_next h hc (by omega)] at hok
        have hassoc : (pre ++ [v]) ++ post = pre ++ v :: post := by simp
        have hst : CacheState Holds (k.setCacheSlabs cache (k.slabNext v.addr)) cache size max F
            frames ((pre ++ [v]) ++ post) live := by
          rw [hassoc]
          exact h.setCacheSlabs hA _
        have he := h.effect_cursor (k.slabNext v.addr)
        have hcur := h.same_cursor (k.slabNext v.addr)
        rcases ih hst h.cursor_next hok with
          ⟨hfull, hst', he', hsame⟩ |
            ⟨mid, w, post, rfl, hfull, hw, hst', he', hsame, hindex⟩
        · refine Or.inl ⟨?_, hassoc ▸ hst', he.trans he', hcur.trans hsame⟩
          intro w hw
          rcases List.mem_cons.mp hw with rfl | hw
          · omega
          · exact hfull w hw
        · refine Or.inr ⟨v :: mid, w, post, rfl, ?_, hw, by simpa using hst', he.trans he',
            fun x hx hxp => (hsame x hx hxp).trans (hcur x hx), hindex⟩
          intro u hu
          rcases List.mem_cons.mp hu with rfl | hu
          · omega
          · exact hfull u hu

theorem slabCacheFree_cases (hA : A.Lawful U Holds) {fuel p : Nat}
    (h : CacheState Holds k cache size max F frames slabs live) (hp : p ∈ live)
    (hok : slabCacheFree fuel k cache p flags = .ok k') :
    (∀ v ∈ slabs, max ≤ v.free.length) ∧
        CacheState Holds k' cache size max F frames slabs live ∧
        Effect k k' F F (ownFrames cache frames) (ownFrames cache frames) ∧
        Mem.SameOn (frameBytes F \ bookkeeping cache frames) k.mem k'.mem ∨
      ∃ mid v post, slabs = mid ++ v :: post ∧
        slabs.find? (fun v => v.free.length < max) = some v ∧
        CacheState Holds k' cache size max F frames
          (mid ++ ⟨v.frame, p :: v.free⟩ :: post) (live.erase p) ∧
        Effect k k' F F (ownFrames cache frames) (ownFrames cache frames) ∧
        (∀ x ∈ frameBytes F \ bookkeeping cache frames, (x < p ∨ p + 10 ≤ x) →
          k'.mem x = k.mem x) ∧
        k'.mem.load16 (p + 8) = sub64 p (v.frame * 4096) / size % 2 ^ 16 := by
  rw [slabCacheFree_eq h.inv.cacheBounds.1] at hok
  have hst : CacheState Holds (k.setCacheSlabs cache (k.cacheSlabsHead cache)) cache size max F
      frames ([] ++ slabs) live := h.setCacheSlabs hA _
  have he := h.effect_cursor (k.cacheSlabsHead cache)
  have hcur := h.same_cursor (k.cacheSlabsHead cache)
  rcases freeToSlabs_cases hA hst h.cursor_head hp hok with
    ⟨hfull, hst', he', hsame⟩ | ⟨mid, v, post, rfl, hfull, hv, hst', he', hsame, hindex⟩
  · exact Or.inl ⟨hfull, hst', he.trans he', hcur.trans hsame⟩
  · refine Or.inr ⟨mid, v, post, rfl, ?_, hst', he.trans he',
      fun x hx hxp => (hsame x hx hxp).trans (hcur x hx), hindex⟩
    have hnone : mid.find? (fun v => decide (v.free.length < max)) = none :=
      List.find?_eq_none.mpr (fun w hw => by simpa using hfull w hw)
    rw [List.find?_append, hnone, Option.none_or, List.find?_cons_of_pos (by simpa using hv)]

theorem slabCacheFree_spec (hA : A.Lawful U Holds) {fuel p : Nat}
    (h : CacheState Holds k cache size max F frames slabs live) (hp : p ∈ live)
    (hok : slabCacheFree fuel k cache p flags = .ok k') :
    ∃ slabs', CacheState Holds k' cache size max F frames slabs' (live.erase p) ∧
      Effect k k' F F (ownFrames cache frames) (ownFrames cache frames) ∧
      (Accounted max slabs live → FreeFair max p slabs →
        Accounted max slabs' (live.erase p)) := by
  rcases slabCacheFree_cases hA h hp hok with
    ⟨hfull, hst, he, -⟩ | ⟨mid, v, post, rfl, hfind, hst, he, -⟩
  · exact ⟨slabs, { hst with inv := hst.inv.forget p }, he, fun ha _ => ha.leak hp hfull⟩
  · exact ⟨_, hst, he, fun ha hfair => ha.push h.inv hp (hfair v hfind)⟩

theorem Effect.cache_page {m' : Mem} {f : Nat} (hf : f ∉ F)
    (hm : Mem.SameOn (frameBytes F) k.mem m') :
    Effect k { (k.pmmAllocz A 1).2 with mem := m' } F (insert f F) ∅
      (ownFrames (f * 4096) ∅) := by
  refine ⟨fun x hx => hm x hx.1, fun x hx => Set.mem_insert_of_mem _ hx.1,
    Set.disjoint_left.mpr ?_, List.suffix_cons _ _⟩
  rintro x (rfl | hx) hx'
  · exact hf (by simpa using hx'.1)
  · exact hx

/-- `slab_cache_create` for an admitted size: no page for the cache, or an
empty cache that is then grown by one slab. -/
theorem slabCacheCreate_cases (flags : SlabFlags) (name : Nat) (hA : A.Lawful U Holds)
    (hh : Holds k.mem k.frames F)
    (hadm : size ≤ 512 ∧ bufctlSize ≤ size ∧ isPowerOfTwo size = true) :
    (slabCacheCreate A k name size flags =
        (if flags.panic then .error (.panic
          "Slab cache create ('%s'): Couldn't allocate memory\n" name)
        else .ok (0, (k.pmmAllocz A 1).2)) ∧
      (k.pmmAllocz A 1).1 = 0 ∧
      Mem.SameOn (frameBytes F) k.mem (k.pmmAllocz A 1).2.mem ∧
      Holds (k.pmmAllocz A 1).2.mem (k.pmmAllocz A 1).2.frames F) ∨
    ∃ f m', f ∉ F ∧ f ≠ 0 ∧ (k.pmmAllocz A 1).1 = f * 4096 ∧
      slabCacheCreate A k name size flags =
        (slabCacheGrow A { (k.pmmAllocz A 1).2 with mem := m' } (f * 4096) 1 flags).map
          (fun k => (f * 4096, k)) ∧
      CacheState Holds { (k.pmmAllocz A 1).2 with mem := m' } (f * 4096) size (4056 / size)
        (insert f F) ∅ [] [] ∧
      Mem.SameOn (frameBytes F) k.mem m' := by
  obtain ⟨p, k1, hk1⟩ : ∃ p k1, k.pmmAllocz A 1 = (p, k1) := ⟨_, _, rfl⟩
  have hp : (A.allocz 1 k.mem k.frames).1 = p := congrArg Prod.fst hk1
  have hm1 : (A.allocz 1 k.mem k.frames).2.1 = k1.mem := congrArg (fun r => r.2.mem) hk1
  have hr1 : (A.allocz 1 k.mem k.frames).2.2 = k1.frames := congrArg (fun r => r.2.frames) hk1
  have hlaw := hA.allocz_one _ _ _ hh
  rw [hp, hm1, hr1] at hlaw
  have hassert : slabCacheCreate A k name size flags =
      if p = 0 ∧ flags.panic = true then
        .error (.panic "Slab cache create ('%s'): Couldn't allocate memory\n" name)
      else if p = 0 then .ok (0, k1)
      else
        let k2 := (k1.setCacheName p name).setCacheSlabSize p size
        let k3 := (k2.setCacheBufctlCountMax p
          ((pageSize - cacheSizeof) / k2.cacheSlabSize p)).setCacheSlabs p 0
        (slabCacheGrow A k3 p 1 flags).map (fun k => (p, k)) := by
    simp only [slabCacheCreate, slabAssert, hadm.1, hadm.2.1, hadm.2.2, hk1, decide_true, if_true]
    rfl
  rw [hk1]
  rcases hlaw with ⟨hp0, hh1, hs1⟩ | ⟨f, hpf, hfF, hh1, hs1, hz⟩
  · refine Or.inl ⟨?_, hp0, hs1, hh1⟩
    rw [hassert]
    simp only [hp0, true_and, if_true]
  · have hfU : f ∈ U := hA.subset _ _ _ hh1 (Set.mem_insert f F)
    have hfb := hA.managed f hfU
    have hp0 : p ≠ 0 := by omega
    have hsz : 10 ≤ size ∧ size ≤ 512 := ⟨hadm.2.1, hadm.1⟩
    -- the words of the cache structure, one store each
    obtain ⟨m2, hm2⟩ : ∃ m2, m2 = (k1.mem.store64 p name).store64 (p + 8) size := ⟨_, rfl⟩
    have hsw : m2.load64 (p + 8) = size := by
      rw [hm2, Mem.load64_store64_same]
      omega
    obtain ⟨m3, hm3⟩ : ∃ m3, m3 = (m2.store64 (p + 16) (4056 / size)).store64 (p + 32) 0 :=
      ⟨_, rfl⟩
    have hout : ∀ x, x / 4096 ≠ f → m3 x = k1.mem x := by
      intro x hx
      rw [hm3, hm2, Mem.store64_outside _ _ (by omega), Mem.store64_outside _ _ (by omega),
        Mem.store64_outside _ _ (by omega), Mem.store64_outside _ _ (by omega)]
    have hsame : Mem.SameOn (frameBytes F) k.mem m3 := by
      intro x hx
      rw [hout x (fun hxf => hfF (hxf ▸ hx))]
      exact hs1 x hx
    have hdiv : 4056 / size ≤ 4056 := Nat.div_le_self _ _
    refine Or.inr ⟨f, m3, hfF, hfb.1, hpf, ?_, ?_, hsame⟩
    · rw [hassert, if_neg (fun hc => hp0 hc.1), if_neg hp0]
      simp only [Kernel.setCacheName, Kernel.setCacheSlabSize, Kernel.setCacheBufctlCountMax,
        Kernel.cacheSlabSize, Kernel.setCacheSlabs, Kernel.store64, pageSize, cacheSizeof, ← hm2,
        hsw]
      rw [hm3, hpf]
    · have hdm : f * 4096 / 4096 = f := by omega
      refine ⟨?_, by rw [hdm]; exact Set.mem_insert _ _, Set.empty_subset _, by simp, ?_⟩
      · refine hA.client_writes _ _ _ _ hh1 (fun x hx => hout x (fun hxf => hx ?_))
        exact mem_frameBytes.mpr (hxf ▸ hfU)
      · refine
          { cacheAligned := by omega
            cacheBounds := by omega
            cacheApart := by simp
            frameBounds := by simp
            sizeBounds := hsz
            maxBound := Nat.div_mul_le_self 4056 size
            sizeWord := ?_
            maxWord := ?_
            slabList := ?_
            frameMem := by simp
            count := by simp
            home := by simp
            freeList := by simp
            slots := by simp [objects]
            nodup := by simp [objects] }
        · show m3.load64 (f * 4096 + 8) = size
          rw [← hpf, hm3, Mem.load64_store64_other _ _ (by omega),
            Mem.load64_store64_other _ _ (by omega), hsw]
        · show m3.load64 (f * 4096 + 16) = 4056 / size
          rw [← hpf, hm3, Mem.load64_store64_other _ _ (by omega), Mem.load64_store64_same]
          exact Nat.mod_eq_of_lt (lt_of_le_of_lt hdiv (by norm_num))
        · show m3.load64 (f * 4096 + 24) = 0
          rw [← hpf, hm3, hm2, Mem.load64_store64_other _ _ (by omega),
            Mem.load64_store64_other _ _ (by omega), Mem.load64_store64_other _ _ (by omega),
            Mem.load64_store64_other _ _ (by omega)]
          exact Mem.load64_zero _ (fun x h1 h2 => hz x (by omega))

theorem slabCacheCreate_admitted {name p : Nat}
    (hok : slabCacheCreate A k name size flags = .ok (p, k')) :
    size ≤ 512 ∧ bufctlSize ≤ size ∧ isPowerOfTwo size = true := by
  by_contra hcon
  simp only [slabCacheCreate, slabAssert] at hok
  by_cases h1 : size ≤ 512
  · by_cases h2 : bufctlSize ≤ size
    · have h3 : isPowerOfTwo size = false := by
        by_contra h3
        exact hcon ⟨h1, h2, by simpa using h3⟩
      simp [h1, h2, h3, bind, Except.bind] at hok
    · simp [h1, h2, bind, Except.bind] at hok
  · simp [h1, bind, Except.bind] at hok

/-- A new cache has all its objects free and accounted for. -/
theorem slabCacheCreate_spec (hA : A.Lawful U Holds) (hh : Holds k.mem k.frames F)
    {name cache : Nat} (hok : slabCacheCreate A k name size flags = .ok (cache, k')) :
    (cache = 0 ∧ Holds k'.mem k'.frames F ∧ Effect k k' F F ∅ ∅) ∨
    ∃ max' F' frames' slabs', CacheState Holds k' cache size max' F' frames' slabs' [] ∧
      Effect k k' F F' ∅ (ownFrames cache frames') ∧ Accounted max' slabs' [] := by
  have hadm := slabCacheCreate_admitted hok
  rcases slabCacheCreate_cases flags name hA hh hadm with
    ⟨heq, _, hsame, hh1⟩ | ⟨f, m', hfF, _, _, heq, hst, hsame⟩
  · rw [heq] at hok
    split at hok
    · simp at hok
    · obtain ⟨rfl, rfl⟩ := Prod.mk.inj (Except.ok.inj hok)
      exact Or.inl ⟨rfl, hh1, Effect.frame_refused hsame⟩
  · rw [heq] at hok
    rcases hgrow : slabCacheGrow A { (k.pmmAllocz A 1).2 with mem := m' } (f * 4096) 1 flags with
      e | k2
    · rw [hgrow] at hok
      simp [Except.map] at hok
    · rw [hgrow] at hok
      obtain ⟨rfl, rfl⟩ := Prod.mk.inj (Except.ok.inj hok)
      obtain ⟨max', F', frames', slabs', hst', he, hacc⟩ := slabCacheGrow_spec hA hst hgrow
      have hsz : 10 ≤ size ∧ size ≤ 512 := ⟨hadm.2.1, hadm.1⟩
      have hmax : 7 ≤ 4056 / size := (Nat.le_div_iff_mul_le (by omega)).mpr (by omega)
      refine Or.inr ⟨max', F', frames', slabs', hst',
        (Effect.cache_page hfF hsame).trans he, ?_⟩
      exact hacc ⟨le_trans (by norm_num) hmax, by simp, by simp⟩
        (fun _ => Or.inr ⟨rfl, rfl, le_trans (by norm_num) hmax⟩)

end Specs

end ApoptOS
