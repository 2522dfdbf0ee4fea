import ApoptOS.Memory.Dynamic.SlabLayout
import ApoptOS.Memory.Dynamic.SlabDump

namespace ApoptOS

open Framework

variable {ρ : Type} {A : PageFrames ρ} {U : Set Nat} {Busy : Mem → ρ → Nat → Prop}
  {k k' : Kernel ρ} {cache size count fuel : Nat} {S B C D : Set Nat} {flags : SlabFlags}
  {a b d f j p s t v w : Nat}

/-- Two kernels with the same cache, laid out in order, that differ in the scratch cursors `C`
at most. -/
structure Twins (U : Set Nat) (Busy : Mem → ρ → Nat → Prop) (cache size : Nat)
    (S B C : Set Nat) (k k' : Kernel ρ) : Prop where
  laid : Laid U Busy cache size S B k
  twin : Twin C k k'
  within : C ⊆ cursors U cache

namespace Twins

theorem mono (h : Twins U Busy cache size S B C k k') (hCD : C ⊆ D) (hD : D ⊆ cursors U cache) :
    Twins U Busy cache size S B D k k' :=
  ⟨h.laid, h.twin.mono hCD, hD⟩

theorem wordBytes_managed (hA : A.Oblivious U Busy) (h : Twins U Busy cache size S B C k k') :
    Mem.wordBytes C ⊆ frameBytes U := by
  rintro x ⟨c, hc, h1, h2⟩
  have hplace := cursors_place size h.laid.aligned (h.within hc)
  have hfit := hplace.fits h.laid.sizeBounds.1
  refine mem_frameBytes.mpr ?_
  rw [show x / 4096 = c / 4096 by omega]
  exact h.laid.place_managed hA hplace

section Reads

/-- A word in use is the same in both kernels, unless it is one of `C`. -/
theorem word (h : Twins U Busy cache size S B C k k') (hw : IsPlace U cache size w)
    (hC : w ∉ C) : k'.mem.load64 w = k.mem.load64 w := by
  refine h.twin.mem.load64 (fun c hc => ?_)
  refine hw.apart h.laid.sizeBounds.1 (cursors_place size h.laid.aligned (h.within hc)) ?_
  rintro rfl
  exact hC hc

theorem cacheWord (h : Twins U Busy cache size S B C k k') (hd : d < 32) (h8 : d % 8 = 0) :
    k'.mem.load64 (cache + d) = k.mem.load64 (cache + d) := by
  refine h.word (h.laid.cachePlace (by omega) h8) (fun hC => ?_)
  have hal := h.laid.aligned
  rcases h.within hC with he | ⟨hmod, -⟩
  · omega
  · omega

theorem slabWord (h : Twins U Busy cache size S B C k k') (hs : s ∈ S) (hd : d < 32)
    (h8 : d % 8 = 0) : k'.mem.load64 (s + d) = k.mem.load64 (s + d) := by
  refine h.word (h.laid.slabPlace hs (by omega) h8) (fun hC => ?_)
  have hal := h.laid.aligned
  obtain ⟨hmod, -⟩ := h.laid.slabs s hs
  rcases h.within hC with he | ⟨hmod', -⟩
  · omega
  · omega

theorem cacheName (h : Twins U Busy cache size S B C k k') :
    k'.cacheName cache = k.cacheName cache := h.cacheWord (d := 0) (by decide) (by decide)

theorem cacheSlabSize (h : Twins U Busy cache size S B C k k') :
    k'.cacheSlabSize cache = k.cacheSlabSize cache := h.cacheWord (by decide) (by decide)

theorem cacheBufctlCountMax (h : Twins U Busy cache size S B C k k') :
    k'.cacheBufctlCountMax cache = k.cacheBufctlCountMax cache :=
  h.cacheWord (by decide) (by decide)

theorem cacheSlabsHead (h : Twins U Busy cache size S B C k k') :
    k'.cacheSlabsHead cache = k.cacheSlabsHead cache := h.cacheWord (by decide) (by decide)

theorem cacheSlabs (h : Twins U Busy cache size S B C k k') (hC : cache + 32 ∉ C) :
    k'.cacheSlabs cache = k.cacheSlabs cache :=
  h.word (h.laid.cachePlace (by decide) (by decide)) hC

theorem slabNext (h : Twins U Busy cache size S B C k k') (hs : s ∈ S) :
    k'.slabNext s = k.slabNext s := h.slabWord (d := 0) hs (by decide) (by decide)

theorem slabBufctlCount (h : Twins U Busy cache size S B C k k') (hs : s ∈ S) :
    k'.slabBufctlCount s = k.slabBufctlCount s := h.slabWord hs (by decide) (by decide)

theorem slabBufctlAddr (h : Twins U Busy cache size S B C k k') (hs : s ∈ S) :
    k'.slabBufctlAddr s = k.slabBufctlAddr s := h.slabWord hs (by decide) (by decide)

theorem slabFreelistHead (h : Twins U Busy cache size S B C k k') (hs : s ∈ S) :
    k'.slabFreelistHead s = k.slabFreelistHead s := h.slabWord hs (by decide) (by decide)

theorem slabFreelist (h : Twins U Busy cache size S B C k k') (hs : s ∈ S) (hC : s + 32 ∉ C) :
    k'.slabFreelist s = k.slabFreelist s :=
  h.word (h.laid.slabPlace hs (by decide) (by decide)) hC

theorem bufctlNext (h : Twins U Busy cache size S B C k k') (hb : b ∈ B) :
    k'.bufctlNext b = k.bufctlNext b := by
  have hslot := h.laid.bufctls b hb
  have ho := hslot.offset h.laid.sizeBounds.1
  refine h.word (Or.inr (Or.inr hslot)) (fun hC => ?_)
  have hal := h.laid.aligned
  rcases h.within hC with he | ⟨hmod, -⟩
  · have hne := slabFrames_ne ho.1
    omega
  · omega

theorem bufctlIndex (h : Twins U Busy cache size S B C k k') (hb : b ∈ B) :
    k'.bufctlIndex b = k.bufctlIndex b := by
  refine h.twin.mem.load16 (fun c hc => ?_)
  have hplace := cursors_place size h.laid.aligned (h.within hc)
  have hapart := hplace.apart_index h.laid.sizeBounds.1 (h.laid.bufctls b hb)
  omega

end Reads

section Writes

/-- The same store in both kernels. -/
theorem set (hA : A.Oblivious U Busy) (h : Twins U Busy cache size S B C k k')
    (ha : IsPlace U cache size a) (hv : WordOk cache size S B a (v % 2 ^ 64)) :
    Twins U Busy cache size S B C (k.store64 a v) (k'.store64 a v) :=
  ⟨h.laid.store64 hA ha hv, (h.twin.store64 a v).mono Set.sdiff_subset, h.within⟩

/-- Storing a cursor makes it agree. -/
theorem setCursor (hA : A.Oblivious U Busy) (h : Twins U Busy cache size S B C k k')
    (ha : IsPlace U cache size a)
    (hspare : a / 4096 = cache / 4096 ∧ a % 4096 = 32 ∨
      a / 4096 ∈ slabFrames U cache ∧ 4056 < a % 4096 ∧ a % 4096 ≠ 4080) (v : Nat) :
    Twins U Busy cache size S B (C \ {a}) (k.store64 a v) (k'.store64 a v) :=
  ⟨h.laid.store64 hA ha (h.laid.wordOk_spare hspare _), h.twin.store64 a v,
    Set.sdiff_subset.trans h.within⟩

theorem setCacheSlabs (hA : A.Oblivious U Busy) (h : Twins U Busy cache size S B C k k')
    (v : Nat) : Twins U Busy cache size S B (C \ {cache + 32}) (k.setCacheSlabs cache v)
      (k'.setCacheSlabs cache v) := by
  have hal := h.laid.aligned
  exact h.setCursor hA (h.laid.cachePlace (by decide) (by decide))
    (Or.inl ⟨by omega, by omega⟩) v

theorem setCacheSlabsHead (hA : A.Oblivious U Busy) (h : Twins U Busy cache size S B C k k')
    (hv : v = 0 ∨ v ∈ S) : Twins U Busy cache size S B C (k.setCacheSlabsHead cache v)
      (k'.setCacheSlabsHead cache v) := by
  have hal := h.laid.aligned
  refine h.set hA (h.laid.cachePlace (by decide) (by decide)) ?_
  rw [h.laid.slab_lt hA hv]
  refine ⟨fun he => by omega, fun he => by omega, fun _ => hv, fun hs => ?_, fun s hs he => ?_,
    fun hb => ?_⟩
  · have ht := (h.laid.slabs _ hs).1
    omega
  · have ht := (h.laid.slabs s hs).1
    omega
  · have hne := slabFrames_ne ((h.laid.bufctls _ hb).offset h.laid.sizeBounds.1).1
    omega

theorem setCacheBufctlCountMax (hA : A.Oblivious U Busy) (h : Twins U Busy cache size S B C k k')
    (hv : v * size ≤ 4056) : Twins U Busy cache size S B C (k.setCacheBufctlCountMax cache v)
      (k'.setCacheBufctlCountMax cache v) := by
  have hal := h.laid.aligned
  refine h.set hA (h.laid.cachePlace (by decide) (by decide)) ?_
  refine ⟨fun he => by omega, fun _ => ?_, fun he => by omega, fun hs => ?_, fun s hs he => ?_,
    fun hb => ?_⟩
  · exact (Nat.mul_le_mul_right size (Nat.mod_le _ _)).trans hv
  · have ht := (h.laid.slabs _ hs).1
    omega
  · have ht := (h.laid.slabs s hs).1
    omega
  · have hne := slabFrames_ne ((h.laid.bufctls _ hb).offset h.laid.sizeBounds.1).1
    omega

/-- The counter and the home of a slab are no pointers of the lists. -/
theorem setSlabSpare (hA : A.Oblivious U Busy) (h : Twins U Busy cache size S B C k k')
    (hs : s ∈ S) (hd : d = 8 ∨ d = 16) (v : Nat) :
    Twins U Busy cache size S B C (k.store64 (s + d) v) (k'.store64 (s + d) v) := by
  obtain ⟨hmod, hf⟩ := h.laid.slabs s hs
  refine h.set hA (h.laid.slabPlace hs (by omega) (by omega)) (h.laid.wordOk_spare (Or.inr ?_) _)
  exact ⟨by rwa [show (s + d) / 4096 = s / 4096 by omega], by omega, by omega⟩

theorem setSlabBufctlCount (hA : A.Oblivious U Busy) (h : Twins U Busy cache size S B C k k')
    (hs : s ∈ S) (v : Nat) : Twins U Busy cache size S B C (k.setSlabBufctlCount s v)
      (k'.setSlabBufctlCount s v) :=
  h.setSlabSpare hA hs (Or.inl rfl) v

theorem setSlabBufctlAddr (hA : A.Oblivious U Busy) (h : Twins U Busy cache size S B C k k')
    (hs : s ∈ S) (v : Nat) : Twins U Busy cache size S B C (k.setSlabBufctlAddr s v)
      (k'.setSlabBufctlAddr s v) :=
  h.setSlabSpare hA hs (Or.inr rfl) v

theorem setSlabFreelist (hA : A.Oblivious U Busy) (h : Twins U Busy cache size S B C k k')
    (hs : s ∈ S) (v : Nat) : Twins U Busy cache size S B (C \ {s + 32}) (k.setSlabFreelist s v)
      (k'.setSlabFreelist s v) := by
  obtain ⟨hmod, hf⟩ := h.laid.slabs s hs
  refine h.setCursor hA (h.laid.slabPlace hs (by decide) (by decide)) (Or.inr ?_) v
  exact ⟨by rwa [show (s + 32) / 4096 = s / 4096 by omega], by omega, by omega⟩

theorem setSlabNext (hA : A.Oblivious U Busy) (h : Twins U Busy cache size S B C k k')
    (hs : s ∈ S) (hv : v = 0 ∨ v ∈ S) :
    Twins U Busy cache size S B C (k.setSlabNext s v) (k'.setSlabNext s v) := by
  obtain ⟨hmod, hf⟩ := h.laid.slabs s hs
  have hal := h.laid.aligned
  refine h.set hA (h.laid.slabPlace (d := 0) hs (by decide) (by decide)) ?_
  rw [h.laid.slab_lt hA hv]
  refine ⟨fun he => by omega, fun he => by omega, fun he => by omega, fun _ => hv,
    fun t ht he => ?_, fun hb => ?_⟩
  · have htm := (h.laid.slabs t ht).1
    omega
  · have hsize := h.laid.sizeBounds.1
    have ho := (h.laid.bufctls _ hb).offset hsize
    omega

theorem setSlabFreelistHead (hA : A.Oblivious U Busy) (h : Twins U Busy cache size S B C k k')
    (hs : s ∈ S) (hv : v = 0 ∨ v ∈ B) :
    Twins U Busy cache size S B C (k.setSlabFreelistHead s v)
      (k'.setSlabFreelistHead s v) := by
  obtain ⟨hmod, hf⟩ := h.laid.slabs s hs
  have hal := h.laid.aligned
  refine h.set hA (h.laid.slabPlace hs (by decide) (by decide)) ?_
  rw [h.laid.bufctl_lt hA hv]
  refine ⟨fun he => by omega, fun he => by omega, fun he => by omega, fun ht => ?_,
    fun _ _ _ => hv, fun hb => ?_⟩
  · have htm := (h.laid.slabs _ ht).1
    omega
  · have ho := (h.laid.bufctls _ hb).offset h.laid.sizeBounds.1
    omega

theorem setBufctlNext (hA : A.Oblivious U Busy) (h : Twins U Busy cache size S B C k k')
    (hp : IsSlot size (slabFrames U cache) p) (hv : v = 0 ∨ v ∈ B) :
    Twins U Busy cache size S B C (k.setBufctlNext p v) (k'.setBufctlNext p v) := by
  have hal := h.laid.aligned
  have hsize := h.laid.sizeBounds.1
  have ho := hp.offset hsize
  have hne := slabFrames_ne ho.1
  refine h.set hA (Or.inr (Or.inr hp)) ?_
  rw [h.laid.bufctl_lt hA hv]
  refine ⟨fun he => by omega, fun he => by omega, fun he => by omega, fun hs => ?_,
    fun s hs he => ?_, fun _ => hv⟩
  · have ht := (h.laid.slabs _ hs).1
    omega
  · have ht := (h.laid.slabs s hs).1
    omega

theorem setBufctlIndex (hA : A.Oblivious U Busy) (h : Twins U Busy cache size S B C k k')
    (hp : IsSlot size (slabFrames U cache) p) (v : Nat) :
    Twins U Busy cache size S B C (k.setBufctlIndex p v) (k'.setBufctlIndex p v) :=
  ⟨h.laid.setBufctlIndex hA hp v, h.twin.store16 _ _, h.within⟩

theorem addBufctl (h : Twins U Busy cache size S B C k k')
    (hp : IsSlot size (slabFrames U cache) p)
    (hl : k.bufctlNext p = 0 ∨ k.bufctlNext p ∈ insert p B) :
    Twins U Busy cache size S (insert p B) C k k' :=
  ⟨h.laid.addBufctl hp hl, h.twin, h.within⟩

theorem pmmFree (hA : A.Oblivious U Busy) (h : Twins U Busy cache size S B C k k')
    (hp : p = 0 ∨ p / 4096 ∈ slabFrames U cache) :
    Twins U Busy cache size S B C (k.pmmFree A p 1) (k'.pmmFree A p 1) :=
  ⟨h.laid.pmmFree hA hp, h.twin.pmmFree hA h.laid.busy (h.wordBytes_managed hA)
    (hp.imp_right (fun hf => hf.1)), h.within⟩

/-- A frame request is refused in both kernels, or adds the same blank frame to both. -/
theorem pmmAllocz (hA : A.Oblivious U Busy) (h : Twins U Busy cache size S B C k k') :
    (k'.pmmAllocz A 1).1 = (k.pmmAllocz A 1).1 ∧
    (((k.pmmAllocz A 1).1 = 0 ∧
      Twins U Busy cache size S B C (k.pmmAllocz A 1).2 (k'.pmmAllocz A 1).2) ∨
    ∃ f ∈ slabFrames U cache, (k.pmmAllocz A 1).1 = f * 4096 ∧
      Twins U Busy cache size (insert (f * 4096 + 4056) S) (B ∪ {b | IsSlot size {f} b}) C
        (k.pmmAllocz A 1).2 (k'.pmmAllocz A 1).2) := by
  obtain ⟨hpointer, htwin⟩ := h.twin.pmmAllocz hA h.laid.busy (h.wordBytes_managed hA)
  refine ⟨hpointer, ?_⟩
  rcases h.laid.pmmAllocz hA with ⟨h0, hlaid⟩ | ⟨f, hf, hfp, hlaid⟩
  · exact Or.inl ⟨h0, hlaid, htwin, h.within⟩
  · exact Or.inr ⟨f, hf, hfp, hlaid, htwin, h.within⟩

end Writes

end Twins

end ApoptOS
