import ApoptOS.Framework.Chain
import ApoptOS.Memory.Dynamic.Slab

namespace ApoptOS

open Framework

/-- A slab as the cache sees it: the page frame it lives in and the slots on
its free list, in list order. -/
structure SlabView where
  frame : Nat
  free : List Nat

/-- Where the slab structure of a frame is. -/
def SlabView.addr (v : SlabView) : Nat := v.frame * 4096 + 4056

/-- A slot of one of the frames, in front of the slab structure. -/
def IsSlot (size : Nat) (frames : Set Nat) (b : Nat) : Prop :=
  ∃ f ∈ frames, ∃ j, b = f * 4096 + size * j ∧ size * j + size ≤ 4056

theorem IsSlot.mono {size b : Nat} {frames frames' : Set Nat} (h : IsSlot size frames b)
    (hs : frames ⊆ frames') : IsSlot size frames' b := by
  obtain ⟨f, hf, j, hb, hj⟩ := h
  exact ⟨f, hs hf, j, hb, hj⟩

theorem IsSlot.inside {size b x : Nat} {frames : Set Nat} (h : IsSlot size frames b)
    (hb : b ≤ x) (hx : x < b + size) :
    x / 4096 ∈ frames ∧ x % 4096 < 4056 ∧ x / 4096 = b / 4096 := by
  obtain ⟨f, hf, j, hbj, hj⟩ := h
  have hdiv : x / 4096 = f := by omega
  exact ⟨by rw [hdiv]; exact hf, by omega, by omega⟩

/-- Different slots do not overlap. -/
theorem IsSlot.apart {size b c : Nat} {frames : Set Nat} (hb : IsSlot size frames b)
    (hc : IsSlot size frames c) (hne : b ≠ c) : b + size ≤ c ∨ c + size ≤ b := by
  obtain ⟨f, _, i, rfl, hi⟩ := hb
  obtain ⟨g, _, j, rfl, hj⟩ := hc
  rcases lt_trichotomy f g with hfg | rfl | hfg
  · omega
  · rcases lt_trichotomy i j with hij | rfl | hij
    · have hmul : size * (i + 1) ≤ size * j := Nat.mul_le_mul_left size hij
      rw [Nat.mul_succ] at hmul
      omega
    · exact absurd rfl hne
    · have hmul : size * (j + 1) ≤ size * i := Nat.mul_le_mul_left size hij
      rw [Nat.mul_succ] at hmul
      omega
  · omega

/-- Free and live objects of a cache. -/
def objects (slabs : List SlabView) (live : List Nat) : List Nat :=
  slabs.flatMap SlabView.free ++ live

/-- The cache at `cache` in memory: its slab list and the free lists threaded
through the slots of `frames`, with every free and live object a slot of its
own. `frames` may hold slabs that have dropped off the list. -/
structure CacheInv (m : Mem) (cache size max : Nat) (frames : Set Nat)
    (slabs : List SlabView) (live : List Nat) : Prop where
  cacheAligned : cache % 4096 = 0
  cacheBounds : cache ≠ 0 ∧ cache < 2 ^ 52
  cacheApart : cache / 4096 ∉ frames
  frameBounds : ∀ f ∈ frames, f ≠ 0 ∧ f < 2 ^ 40
  sizeBounds : 10 ≤ size ∧ size ≤ 512
  maxBound : max * size ≤ 4056
  sizeWord : m.load64 (cache + 8) = size
  maxWord : m.load64 (cache + 16) = max
  slabList : Chain m.load64 0 (m.load64 (cache + 24)) (slabs.map SlabView.addr)
  frameMem : ∀ v ∈ slabs, v.frame ∈ frames
  count : ∀ v ∈ slabs, m.load64 (v.addr + 8) = v.free.length
  home : ∀ v ∈ slabs, m.load64 (v.addr + 16) = v.frame * 4096
  freeList : ∀ v ∈ slabs, Chain m.load64 0 (m.load64 (v.addr + 24)) v.free
  slots : ∀ b ∈ objects slabs live, IsSlot size frames b
  nodup : (objects slabs live).Nodup

namespace CacheInv

variable {m m' : Mem} {cache size max : Nat} {frames : Set Nat}
  {slabs pre post : List SlabView} {live live' : List Nat} {v : SlabView}

theorem slot_of_free (h : CacheInv m cache size max frames slabs live) (hv : v ∈ slabs)
    {b : Nat} (hb : b ∈ v.free) : IsSlot size frames b :=
  h.slots b (List.mem_append_left _ (List.mem_flatMap.mpr ⟨v, hv, hb⟩))

theorem slot_of_live (h : CacheInv m cache size max frames slabs live) {b : Nat}
    (hb : b ∈ live) : IsSlot size frames b :=
  h.slots b (List.mem_append_right _ hb)

theorem mem_of_other {w : SlabView} (hw : w ∈ pre ++ post) : w ∈ pre ++ v :: post := by
  rcases List.mem_append.mp hw with hw | hw
  · exact List.mem_append_left _ hw
  · exact List.mem_append_right _ (List.mem_cons_of_mem _ hw)

theorem frame_ne (h : CacheInv m cache size max frames (pre ++ v :: post) live) :
    ∀ w ∈ pre ++ post, w.frame ≠ v.frame := by
  have hn := h.slabList.nodup
  rw [List.map_append, List.map_cons] at hn
  intro w hw he
  have hmem : w.addr ∈ pre.map SlabView.addr ++ post.map SlabView.addr := by
    rw [← List.map_append]
    exact List.mem_map_of_mem hw
  have haddr : w.addr = v.addr := by rw [SlabView.addr, SlabView.addr, he]
  have hnot := (List.nodup_middle.mp hn)
  exact (List.nodup_cons.mp hnot).1 (haddr ▸ hmem)

/-- The invariant reads the cache's words, the slab structures on the list and
the links of free objects, and nothing else. -/
theorem congr (h : CacheInv m cache size max frames slabs live)
    (hcache : ∀ x, cache + 8 ≤ x → x < cache + 32 → m' x = m x)
    (hslab : ∀ v ∈ slabs, ∀ x, v.addr ≤ x → x < v.addr + 32 → m' x = m x)
    (hfree : ∀ v ∈ slabs, ∀ b ∈ v.free, m'.load64 b = m.load64 b) :
    CacheInv m' cache size max frames slabs live := by
  have word : ∀ a, cache + 8 ≤ a → a + 8 ≤ cache + 32 → m'.load64 a = m.load64 a :=
    fun a h1 h2 => Mem.load64_congr (fun x hx hn => hcache x (by omega) (by omega))
  have field : ∀ v ∈ slabs, ∀ d, d + 8 ≤ 32 →
      m'.load64 (v.addr + d) = m.load64 (v.addr + d) :=
    fun v hv d hd => Mem.load64_congr (fun x hx hn => hslab v hv x (by omega) (by omega))
  refine { h with
    sizeWord := (word _ (by omega) (by omega)).trans h.sizeWord
    maxWord := (word _ (by omega) (by omega)).trans h.maxWord
    slabList := ?_
    count := fun v hv => (field v hv 8 (by omega)).trans (h.count v hv)
    home := fun v hv => (field v hv 16 (by omega)).trans (h.home v hv)
    freeList := ?_ }
  · rw [word _ (by omega) (by omega)]
    refine h.slabList.congr (fun a ha => ?_)
    obtain ⟨v, hv, rfl⟩ := List.mem_map.mp ha
    exact field v hv 0 (by omega)
  · intro v hv
    rw [field v hv 24 (by omega)]
    exact (h.freeList v hv).congr (fun b hb => hfree v hv b hb)

/-- The scratch cursor `cache->slabs` is not part of the invariant. -/
theorem setCursor (h : CacheInv m cache size max frames slabs live) (c : Nat) :
    CacheInv (m.store64 (cache + 32) c) cache size max frames slabs live := by
  have hal := h.cacheAligned
  have hout : ∀ x, x / 4096 ∈ frames → m.store64 (cache + 32) c x = m x := by
    intro x hx
    apply Mem.store64_outside
    by_contra hc
    have hxc : x / 4096 = cache / 4096 := by omega
    exact h.cacheApart (hxc ▸ hx)
  refine h.congr (fun x h1 h2 => Mem.store64_outside m c (by omega)) ?_ ?_
  · intro v hv x h1 h2
    refine hout x ?_
    have hxf : x / 4096 = v.frame := by
      unfold SlabView.addr at h1 h2
      omega
    rw [hxf]
    exact h.frameMem v hv
  · intro v hv b hb
    apply Mem.load64_congr
    intro x h1 h2
    have hs := h.sizeBounds
    exact hout x ((h.slot_of_free hv hb).inside h1 (by omega)).1

/-- Replace the free list of one slab, moving objects between it and the
clients: only that slab's structure and the moved objects may be written. -/
theorem replace (h : CacheInv m cache size max frames (pre ++ v :: post) live)
    {free' : List Nat}
    (hcache : ∀ x, cache + 8 ≤ x → x < cache + 32 → m' x = m x)
    (hslab : ∀ w ∈ pre ++ post, ∀ x, w.addr ≤ x → x < w.addr + 32 → m' x = m x)
    (hfree : ∀ w ∈ pre ++ post, ∀ b ∈ w.free, m'.load64 b = m.load64 b)
    (hnext : m'.load64 v.addr = m.load64 v.addr)
    (hhome : m'.load64 (v.addr + 16) = m.load64 (v.addr + 16))
    (hcount : m'.load64 (v.addr + 8) = free'.length)
    (hlist : Chain m'.load64 0 (m'.load64 (v.addr + 24)) free')
    (hperm : (objects (pre ++ ⟨v.frame, free'⟩ :: post) live').Perm
      (objects (pre ++ v :: post) live)) :
    CacheInv m' cache size max frames (pre ++ ⟨v.frame, free'⟩ :: post) live' := by
  have word : ∀ a, cache + 8 ≤ a → a + 8 ≤ cache + 32 → m'.load64 a = m.load64 a :=
    fun a h1 h2 => Mem.load64_congr (fun x hx hn => hcache x (by omega) (by omega))
  have field : ∀ w ∈ pre ++ post, ∀ d, d + 8 ≤ 32 →
      m'.load64 (w.addr + d) = m.load64 (w.addr + d) :=
    fun w hw d hd => Mem.load64_congr (fun x hx hn => hslab w hw x (by omega) (by omega))
  have split : ∀ w, w ∈ pre ++ (⟨v.frame, free'⟩ : SlabView) :: post →
      w = ⟨v.frame, free'⟩ ∨ w ∈ pre ++ post := by
    intro w hw
    rcases List.mem_append.mp hw with hw | hw
    · exact Or.inr (List.mem_append_left _ hw)
    · rcases List.mem_cons.mp hw with hw | hw
      · exact Or.inl hw
      · exact Or.inr (List.mem_append_right _ hw)
  have hv : v ∈ pre ++ v :: post := by simp
  have haddrs : (pre ++ (⟨v.frame, free'⟩ : SlabView) :: post).map SlabView.addr =
      (pre ++ v :: post).map SlabView.addr := by
    simp [SlabView.addr]
  refine { h with
    sizeWord := (word _ (by omega) (by omega)).trans h.sizeWord
    maxWord := (word _ (by omega) (by omega)).trans h.maxWord
    slabList := ?_
    frameMem := ?_
    count := ?_
    home := ?_
    freeList := ?_
    slots := fun b hb => h.slots b (hperm.mem_iff.mp hb)
    nodup := hperm.nodup_iff.mpr h.nodup }
  · rw [haddrs, word _ (by omega) (by omega)]
    refine h.slabList.congr (fun a ha => ?_)
    obtain ⟨w, hw, rfl⟩ := List.mem_map.mp ha
    rcases List.mem_append.mp hw with hw | hw
    · exact field w (List.mem_append_left _ hw) 0 (by omega)
    · rcases List.mem_cons.mp hw with rfl | hw
      · exact hnext
      · exact field w (List.mem_append_right _ hw) 0 (by omega)
  · intro w hw
    rcases split w hw with rfl | hw
    · exact h.frameMem v hv
    · exact h.frameMem w (mem_of_other hw)
  · intro w hw
    rcases split w hw with rfl | hw
    · exact hcount
    · exact (field w hw 8 (by omega)).trans (h.count w (mem_of_other hw))
  · intro w hw
    rcases split w hw with rfl | hw
    · exact hhome.trans (h.home v hv)
    · exact (field w hw 16 (by omega)).trans (h.home w (mem_of_other hw))
  · intro w hw
    rcases split w hw with rfl | hw
    · exact hlist
    · rw [field w hw 24 (by omega)]
      exact (h.freeList w (mem_of_other hw)).congr (fun b hb => hfree w hw b hb)

end CacheInv

end ApoptOS
