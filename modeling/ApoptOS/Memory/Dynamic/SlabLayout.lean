import ApoptOS.Memory.KernelTwins
import ApoptOS.Memory.Dynamic.SlabOps

namespace ApoptOS

open Framework

variable {ρ : Type} {A : PageFrames ρ} {U : Set Nat} {Busy : Mem → ρ → Nat → Prop}
  {k k' : Kernel ρ} {cache size max : Nat} {F S B S' B' frames : Set Nat}
  {slabs : List SlabView} {live : List Nat} {a b d s v w p : Nat}

/-- The frames a cache may have its slabs in: all under management but its own page. -/
def slabFrames (U : Set Nat) (cache : Nat) : Set Nat := U \ {cache / 4096}

/-- Where the slab structure of one of the frames is. -/
def IsTrailer (frames : Set Nat) (s : Nat) : Prop := s % 4096 = 4056 ∧ s / 4096 ∈ frames

/-- The scratch cursors: `cache->slabs` and the `freelist` of every slab structure. -/
def cursors (U : Set Nat) (cache : Nat) : Set Nat :=
  {w | w = cache + 32 ∨ w % 4096 = 4088 ∧ w / 4096 ∈ slabFrames U cache}

/-- The words of the cache structure, of slab structures, and the links of slots. -/
def IsPlace (U : Set Nat) (cache size w : Nat) : Prop :=
  (w / 4096 = cache / 4096 ∧ w % 4096 < 40 ∧ w % 8 = 0) ∨
  (w / 4096 ∈ slabFrames U cache ∧ 4056 ≤ w % 4096 ∧ w % 8 = 0) ∨
  IsSlot size (slabFrames U cache) w

theorem slabFrames_ne {f : Nat} (hf : f ∈ slabFrames U cache) : f ≠ cache / 4096 := hf.2

theorem IsSlot.offset (hsize : 10 ≤ size) (hb : IsSlot size frames b) :
    b / 4096 ∈ frames ∧ b % 4096 + size ≤ 4056 := by
  obtain ⟨f, hf, j, rfl, hj⟩ := hb
  have hdiv : (f * 4096 + size * j) / 4096 = f := by omega
  exact ⟨by rwa [hdiv], by omega⟩

theorem IsPlace.fits (hsize : 10 ≤ size) (hw : IsPlace U cache size w) :
    w % 4096 + 8 ≤ 4096 := by
  rcases hw with hw | hw | hw
  · omega
  · omega
  · have ho := (hw.offset hsize).2
    omega

/-- Different places do not overlap. -/
theorem IsPlace.apart (hsize : 10 ≤ size) (ha : IsPlace U cache size a)
    (hw : IsPlace U cache size w) (hne : a ≠ w) : a + 8 ≤ w ∨ w + 8 ≤ a := by
  have hfa := ha.fits hsize
  have hfw := hw.fits hsize
  rcases ha with ha | ⟨ha, ha1, ha2⟩ | ha <;> rcases hw with hw | ⟨hw, hw1, hw2⟩ | hw
  · omega
  · have hp := slabFrames_ne hw
    omega
  · have hp := slabFrames_ne (hw.offset hsize).1
    omega
  · have hp := slabFrames_ne ha
    omega
  · omega
  · have ho := (hw.offset hsize).2
    omega
  · have hp := slabFrames_ne (ha.offset hsize).1
    omega
  · have ho := (ha.offset hsize).2
    omega
  · have hs := ha.apart hw hne
    omega

/-- The index of a slot overlaps no word in use. -/
theorem IsPlace.apart_index (hsize : 10 ≤ size) (hb : IsSlot size (slabFrames U cache) b)
    (hw : IsPlace U cache size w) : w + 8 ≤ b + 8 ∨ b + 10 ≤ w := by
  have hfw := hw.fits hsize
  have ho := hb.offset hsize
  rcases hw with hw | ⟨hw, hw1, hw2⟩ | hw
  · have hp := slabFrames_ne ho.1
    omega
  · omega
  · by_cases hne : b = w
    · omega
    · have hs := hb.apart hw hne
      omega

theorem cursors_place (size : Nat) (hal : cache % 4096 = 0) (hw : w ∈ cursors U cache) :
    IsPlace U cache size w := by
  rcases hw with rfl | ⟨hw, hf⟩
  · exact Or.inl ⟨by omega, by omega, by omega⟩
  · exact Or.inr (Or.inl ⟨hf, by omega, by omega⟩)

/-- What the word `v` at `w` may be if the slab list leads to slabs of `S` only and the free
lists to bufctls of `B` only. Neither has to end. -/
structure WordOk (cache size : Nat) (S B : Set Nat) (w v : Nat) : Prop where
  slabSize : w = cache + 8 → v = size
  capacity : w = cache + 16 → v * size ≤ 4056
  head : w = cache + 24 → v = 0 ∨ v ∈ S
  next : w ∈ S → v = 0 ∨ v ∈ S
  free : ∀ s ∈ S, w = s + 24 → v = 0 ∨ v ∈ B
  link : w ∈ B → v = 0 ∨ v ∈ B

/-- The cache at `cache` in memory, as far as its operations need it: every pointer they may
follow leads to a slab structure or a slot in managed frames. Nothing is said about the
counters, the scratch cursors, who owns an object, or in which frame a list stays. -/
structure Laid (U : Set Nat) (Busy : Mem → ρ → Nat → Prop) (cache size : Nat) (S B : Set Nat)
    (k : Kernel ρ) : Prop where
  busy : Busy k.mem k.frames (cache / 4096)
  aligned : cache % 4096 = 0
  sizeBounds : 10 ≤ size ∧ size ≤ 512
  slabs : ∀ s ∈ S, IsTrailer (slabFrames U cache) s
  bufctls : ∀ b ∈ B, IsSlot size (slabFrames U cache) b
  words : ∀ w, WordOk cache size S B w (k.mem.load64 w)

namespace Laid

theorem cacheNe (hA : A.Oblivious U Busy) (h : Laid U Busy cache size S B k) : cache ≠ 0 := by
  rintro rfl
  exact (hA.managed _ (hA.subset _ _ _ h.busy)).1 rfl

theorem cachePlace (h : Laid U Busy cache size S B k) (hd : d < 40) (h8 : d % 8 = 0) :
    IsPlace U cache size (cache + d) := by
  have hal := h.aligned
  exact Or.inl ⟨by omega, by omega, by omega⟩

theorem slabPlace (h : Laid U Busy cache size S B k) (hs : s ∈ S) (hd : d < 40)
    (h8 : d % 8 = 0) : IsPlace U cache size (s + d) := by
  obtain ⟨hmod, hf⟩ := h.slabs s hs
  exact Or.inr (Or.inl ⟨by rwa [show (s + d) / 4096 = s / 4096 by omega], by omega, by omega⟩)

theorem place_managed (hA : A.Oblivious U Busy) (h : Laid U Busy cache size S B k)
    (hw : IsPlace U cache size w) : w / 4096 ∈ U := by
  rcases hw with hw | hw | hw
  · exact hw.1 ▸ hA.subset _ _ _ h.busy
  · exact hw.1.1
  · exact (hw.offset h.sizeBounds.1).1.1

/-- Only places are constrained. -/
theorem wordOk_of_place (h : Laid U Busy cache size S B k)
    (hw : IsPlace U cache size w → WordOk cache size S B w v) : WordOk cache size S B w v where
  slabSize := fun he => (hw (he ▸ h.cachePlace (by decide) (by decide))).slabSize he
  capacity := fun he => (hw (he ▸ h.cachePlace (by decide) (by decide))).capacity he
  head := fun he => (hw (he ▸ h.cachePlace (by decide) (by decide))).head he
  next := fun hs => (hw (h.slabPlace (d := 0) hs (by decide) (by decide))).next hs
  free := fun s hs he => (hw (he ▸ h.slabPlace hs (by decide) (by decide))).free s hs he
  link := fun hb => (hw (Or.inr (Or.inr (h.bufctls _ hb)))).link hb

/-- The cursors, and a slab's counter and home, may hold anything. -/
theorem wordOk_spare (h : Laid U Busy cache size S B k)
    (hw : w / 4096 = cache / 4096 ∧ w % 4096 = 32 ∨
      w / 4096 ∈ slabFrames U cache ∧ 4056 < w % 4096 ∧ w % 4096 ≠ 4080) (v : Nat) :
    WordOk cache size S B w v := by
  have hal := h.aligned
  have hsize := h.sizeBounds.1
  have hcache : ∀ d, d < 32 → w ≠ cache + d := by
    rintro d hd rfl
    omega
  refine ⟨fun he => absurd he (hcache 8 (by decide)), fun he => absurd he (hcache 16 (by decide)),
    fun he => absurd he (hcache 24 (by decide)), fun hs => ?_, fun s hs he => ?_, fun hb => ?_⟩
  · have ht := (h.slabs w hs).1
    omega
  · have ht := (h.slabs s hs).1
    omega
  · have ho := (h.bufctls w hb).offset hsize
    have hp := slabFrames_ne ho.1
    omega

/-- A page of zeros holds no pointer. -/
theorem wordOk_zero (h : Laid U Busy cache size S B k) (hw : w / 4096 ≠ cache / 4096) :
    WordOk cache size S' B' w 0 := by
  have hal := h.aligned
  exact ⟨fun he => absurd he (by omega), fun he => absurd he (by omega), fun _ => Or.inl rfl,
    fun _ => Or.inl rfl, fun _ _ _ => Or.inl rfl, fun _ => Or.inl rfl⟩

section Reads

theorem sizeWord (h : Laid U Busy cache size S B k) : k.cacheSlabSize cache = size :=
  (h.words _).slabSize rfl

theorem maxWord (h : Laid U Busy cache size S B k) :
    k.cacheBufctlCountMax cache * size ≤ 4056 :=
  (h.words _).capacity rfl

theorem slabsHead (h : Laid U Busy cache size S B k) :
    k.cacheSlabsHead cache = 0 ∨ k.cacheSlabsHead cache ∈ S :=
  (h.words _).head rfl

theorem slabNext (h : Laid U Busy cache size S B k) (hs : s ∈ S) :
    k.slabNext s = 0 ∨ k.slabNext s ∈ S :=
  (h.words _).next hs

theorem freelistHead (h : Laid U Busy cache size S B k) (hs : s ∈ S) :
    k.slabFreelistHead s = 0 ∨ k.slabFreelistHead s ∈ B :=
  (h.words _).free s hs rfl

theorem bufctlNext (h : Laid U Busy cache size S B k) (hb : b ∈ B) :
    k.bufctlNext b = 0 ∨ k.bufctlNext b ∈ B :=
  (h.words _).link hb

/-- Slabs and bufctls are 64-bit addresses. -/
theorem slab_lt (hA : A.Oblivious U Busy) (h : Laid U Busy cache size S B k)
    (hs : s = 0 ∨ s ∈ S) : s % 2 ^ 64 = s := by
  rcases hs with rfl | hs
  · rfl
  · have hf := (hA.managed _ (h.slabs s hs).2.1).2
    omega

theorem bufctl_lt (hA : A.Oblivious U Busy) (h : Laid U Busy cache size S B k)
    (hb : b = 0 ∨ b ∈ B) : b % 2 ^ 64 = b := by
  rcases hb with rfl | hb
  · rfl
  · have hf := (hA.managed _ ((h.bufctls b hb).offset h.sizeBounds.1).1.1).2
    omega

end Reads

section Writes

/-- Writes inside managed frames that keep the words in order. -/
theorem write (hA : A.Oblivious U Busy) (h : Laid U Busy cache size S B k) {m' : Mem}
    (hm : Mem.SameOn (frameBytes U)ᶜ k.mem m')
    (hw : ∀ w, IsPlace U cache size w → WordOk cache size S B w (m'.load64 w)) :
    Laid U Busy cache size S B { k with mem := m' } :=
  ⟨hA.client_writes _ _ _ _ h.busy hm, h.aligned, h.sizeBounds, h.slabs, h.bufctls,
    fun w => h.wordOk_of_place (hw w)⟩

theorem store64 (hA : A.Oblivious U Busy) (h : Laid U Busy cache size S B k)
    (ha : IsPlace U cache size a) (hv : WordOk cache size S B a (v % 2 ^ 64)) :
    Laid U Busy cache size S B (k.store64 a v) := by
  have hfit := ha.fits h.sizeBounds.1
  refine h.write hA (fun x hx => Mem.store64_outside _ _ ?_) (fun w hw => ?_)
  · by_contra hin
    refine hx (mem_frameBytes.mpr ?_)
    rw [show x / 4096 = a / 4096 by omega]
    exact h.place_managed hA ha
  · by_cases hwa : w = a
    · rw [hwa, Mem.load64_store64_same]
      exact hv
    · rw [Mem.load64_store64_other _ _ (hw.apart h.sizeBounds.1 ha hwa)]
      exact h.words w

theorem setBufctlIndex (hA : A.Oblivious U Busy) (h : Laid U Busy cache size S B k)
    (hb : IsSlot size (slabFrames U cache) b) (v : Nat) :
    Laid U Busy cache size S B (k.setBufctlIndex b v) := by
  have ho := hb.offset h.sizeBounds.1
  have hs := h.sizeBounds.1
  refine h.write hA (fun x hx => Mem.store16_outside _ _ ?_) (fun w hw => ?_)
  · by_contra hin
    refine hx (mem_frameBytes.mpr ?_)
    rw [show x / 4096 = b / 4096 by omega]
    exact ho.1.1
  · rw [Mem.load64_store16_other _ _ (hw.apart_index hs hb)]
    exact h.words w

/-- A store elsewhere does not change a word. -/
theorem load_other (h : Laid U Busy cache size S B k) (ha : IsPlace U cache size a)
    (hw : IsPlace U cache size w) (hne : w ≠ a) (v : Nat) :
    (k.store64 a v).mem.load64 w = k.mem.load64 w :=
  Mem.load64_store64_other _ _ (hw.apart h.sizeBounds.1 ha hne)

/-- A slot whose link is in order may be added to the bufctls. -/
theorem addBufctl (h : Laid U Busy cache size S B k) (hp : IsSlot size (slabFrames U cache) p)
    (hl : k.bufctlNext p = 0 ∨ k.bufctlNext p ∈ insert p B) :
    Laid U Busy cache size S (insert p B) k := by
  refine { h with
    bufctls := ?_
    words := fun w => ?_ }
  · rintro b (rfl | hb)
    · exact hp
    · exact h.bufctls b hb
  · have hw := h.words w
    refine { hw with
      free := fun s hs he => (hw.free s hs he).imp_right (Set.mem_insert_of_mem _)
      link := ?_ }
    rintro (rfl | hb)
    · exact hl
    · exact (hw.link hb).imp_right (Set.mem_insert_of_mem _)

/-- Giving a frame back leaves the managed frames as they are. -/
theorem pmmFree_word (hA : A.Oblivious U Busy) (h : Laid U Busy cache size S B k)
    (hp : p = 0 ∨ p / 4096 ∈ slabFrames U cache) (hw : IsPlace U cache size w) :
    (k.pmmFree A p 1).mem.load64 w = k.mem.load64 w := by
  have hfit := hw.fits h.sizeBounds.1
  have hU := h.place_managed hA hw
  refine (hA.free_one _ _ _ p h.busy (hp.imp_right (fun hf => hf.1))).1.load64 (fun x h1 h2 => ?_)
  exact mem_frameBytes.mpr (by rwa [show x / 4096 = w / 4096 by omega])

theorem pmmFree (hA : A.Oblivious U Busy) (h : Laid U Busy cache size S B k)
    (hp : p = 0 ∨ p / 4096 ∈ slabFrames U cache) :
    Laid U Busy cache size S B (k.pmmFree A p 1) := by
  have hbusy := (hA.free_one _ _ _ p h.busy (hp.imp_right (fun hf => hf.1))).2
  have hc := (hA.managed _ (hA.subset _ _ _ h.busy)).1
  refine { h with
    busy := hbusy ?_
    words := fun w => h.wordOk_of_place (fun hw => ?_) }
  · rcases hp with rfl | hp
    · exact hc.symm
    · exact slabFrames_ne hp
  · rw [h.pmmFree_word hA hp hw]
    exact h.words w

/-- A frame request does not touch the cache's own page. -/
theorem pmmAllocz_cacheSlabs (hA : A.Oblivious U Busy) (h : Laid U Busy cache size S B k) :
    (k.pmmAllocz A 1).2.cacheSlabs cache = k.cacheSlabs cache := by
  have hal := h.aligned
  have hU := hA.subset _ _ _ h.busy
  have hpage : ∀ x, cache + 32 ≤ x → x < cache + 32 + 8 → x / 4096 = cache / 4096 :=
    fun x h1 h2 => by omega
  rcases (hA.allocz_one _ _ _ h.busy).2 with ⟨-, hsame⟩ | ⟨f, -, hfc, -, hsame, -⟩
  · exact hsame.load64 (fun x h1 h2 => mem_frameBytes.mpr (hpage x h1 h2 ▸ hU))
  · exact hsame.load64 (fun x h1 h2 => mem_frameBytes.mpr (hpage x h1 h2 ▸ ⟨hU, hfc.symm⟩))

/-- A frame request is refused, or adds a blank slab structure and blank slots. -/
theorem pmmAllocz (hA : A.Oblivious U Busy) (h : Laid U Busy cache size S B k) :
    ((k.pmmAllocz A 1).1 = 0 ∧ Laid U Busy cache size S B (k.pmmAllocz A 1).2) ∨
    ∃ f ∈ slabFrames U cache, (k.pmmAllocz A 1).1 = f * 4096 ∧
      Laid U Busy cache size (insert (f * 4096 + 4056) S) (B ∪ {b | IsSlot size {f} b})
        (k.pmmAllocz A 1).2 := by
  obtain ⟨hbusy, hcases⟩ := hA.allocz_one _ _ _ h.busy
  have hsize := h.sizeBounds.1
  obtain ⟨m', hm'⟩ : ∃ m', m' = (A.allocz 1 k.mem k.frames).2.1 := ⟨_, rfl⟩
  have hold : ∀ V : Set Nat, Mem.SameOn (frameBytes V) k.mem m' →
      ∀ w, IsPlace U cache size w →
      w / 4096 ∈ V → m'.load64 w = k.mem.load64 w := by
    intro V hV w hw hwV
    have hfit := hw.fits hsize
    exact hV.load64 (fun x h1 h2 => mem_frameBytes.mpr (by rwa [show x / 4096 = w / 4096 by omega]))
  rcases hcases with ⟨h0, hsame⟩ | ⟨f, hfU, hfc, hpointer, hsame, hzero⟩
  · refine Or.inl ⟨h0, { h with
      busy := hbusy
      words := fun w => h.wordOk_of_place (fun hw => ?_) }⟩
    show WordOk cache size S B w ((A.allocz 1 k.mem k.frames).2.1.load64 w)
    rw [← hm'] at hsame ⊢
    rw [hold U hsame w hw (h.place_managed hA hw)]
    exact h.words w
  · have hf : f ∈ slabFrames U cache := ⟨hfU, hfc⟩
    rw [← hm'] at hsame hzero
    have hblank : Laid U Busy cache size S B (k.pmmAllocz A 1).2 := by
      refine { h with
        busy := hbusy
        words := fun w => h.wordOk_of_place (fun hw => ?_) }
      show WordOk cache size S B w ((A.allocz 1 k.mem k.frames).2.1.load64 w)
      rw [← hm']
      have hfit := hw.fits hsize
      by_cases hwf : w / 4096 = f
      · rw [Mem.load64_zero m' (fun x h1 h2 => hzero x (by omega))]
        exact h.wordOk_zero (by rw [hwf]; exact hfc)
      · rw [hold _ hsame w hw ⟨h.place_managed hA hw, hwf⟩]
        exact h.words w
    refine Or.inr ⟨f, hf, hpointer, { hblank with
      slabs := ?_
      bufctls := ?_
      words := fun w => ?_ }⟩
    · rintro s (rfl | hs)
      · exact ⟨by omega, by rwa [show (f * 4096 + 4056) / 4096 = f by omega]⟩
      · exact h.slabs s hs
    · rintro b (hb | hb)
      · exact h.bufctls b hb
      · exact hb.mono (Set.singleton_subset_iff.mpr hf)
    · by_cases hwf : w / 4096 = f ∧ w % 4096 + 8 ≤ 4096
      · have hz : (k.pmmAllocz A 1).2.mem.load64 w = 0 := by
          show (A.allocz 1 k.mem k.frames).2.1.load64 w = 0
          rw [← hm']
          exact Mem.load64_zero m' (fun x h1 h2 => hzero x (by omega))
        rw [hz]
        exact h.wordOk_zero (by rw [hwf.1]; exact hfc)
      · -- nothing new is constrained outside the new frame
        have hw := hblank.words w
        refine ⟨hw.slabSize, hw.capacity,
          fun he => (hw.head he).imp_right (Set.mem_insert_of_mem _), ?_, ?_, ?_⟩
        · rintro (rfl | hs)
          · exact absurd ⟨by omega, by omega⟩ hwf
          · exact (hw.next hs).imp_right (Set.mem_insert_of_mem _)
        · rintro s (rfl | hs) he
          · exact absurd ⟨by omega, by omega⟩ hwf
          · exact (hw.free s hs he).imp_right (Set.mem_union_left _)
        · rintro (hb | hb)
          · exact (hw.link hb).imp_right (Set.mem_union_left _)
          · have ho := hb.offset hsize
            exact absurd ⟨ho.1, by omega⟩ hwf

end Writes

end Laid

/-- A cache in order is laid out so, whatever its cursors hold. -/
theorem CacheState.laid {Holds : Mem → ρ → Set Nat → Prop} (hA : A.Lawful U Holds)
    (hbusy : ∀ m r F, Holds m r F → ∀ c ∈ F, Busy m r c)
    (h : CacheState Holds k cache size max F frames slabs live) :
    Laid U Busy cache size {s | s ∈ slabs.map SlabView.addr}
      {b | b ∈ slabs.flatMap SlabView.free} k := by
  have hinv := h.inv
  have hframes : frames ⊆ slabFrames U cache := fun f hf =>
    ⟨hA.subset _ _ _ h.holds (h.framesHeld hf), fun he => hinv.cacheApart (he ▸ hf)⟩
  have hslot : ∀ b, b ∈ slabs.flatMap SlabView.free → IsSlot size (slabFrames U cache) b := by
    intro b hb
    obtain ⟨v, hv, hbv⟩ := List.mem_flatMap.mp hb
    exact (hinv.slot_of_free hv hbv).mono hframes
  refine ⟨hbusy _ _ _ h.holds _ h.cacheHeld, hinv.cacheAligned, hinv.sizeBounds, ?_, hslot,
    fun w => ⟨?_, ?_, ?_, ?_, ?_, ?_⟩⟩
  · intro s hs
    obtain ⟨v, hv, rfl⟩ := List.mem_map.mp hs
    refine ⟨by unfold SlabView.addr; omega, ?_⟩
    rw [show v.addr / 4096 = v.frame by unfold SlabView.addr; omega]
    exact hframes (hinv.frameMem v hv)
  · rintro rfl
    exact hinv.sizeWord
  · rintro rfl
    rw [hinv.maxWord]
    exact hinv.maxBound
  · rintro rfl
    exact hinv.slabList.head_mem
  · exact fun hs => hinv.slabList.next_mem hs
  · rintro s hs rfl
    obtain ⟨v, hv, rfl⟩ := List.mem_map.mp hs
    exact (hinv.freeList v hv).head_mem.imp_right (fun hb => List.mem_flatMap.mpr ⟨v, hv, hb⟩)
  · intro hb
    obtain ⟨v, hv, hbv⟩ := List.mem_flatMap.mp hb
    exact ((hinv.freeList v hv).next_mem hbv).imp_right
      (fun hb => List.mem_flatMap.mpr ⟨v, hv, hb⟩)

end ApoptOS
