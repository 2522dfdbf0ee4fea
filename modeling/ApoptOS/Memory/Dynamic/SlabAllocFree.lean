import ApoptOS.Memory.Dynamic.SlabInvariant

namespace ApoptOS

open Framework

/-- The bytes slab operations keep for themselves: the cache's page and the
slab structures at the end of its frames. -/
def bookkeeping (cache : Nat) (frames : Set Nat) : Set Nat :=
  {x | x / 4096 = cache / 4096 ∨ x / 4096 ∈ frames ∧ 4056 ≤ x % 4096}

theorem mem_bookkeeping {cache x : Nat} {frames : Set Nat} :
    x ∈ bookkeeping cache frames ↔
      x / 4096 = cache / 4096 ∨ x / 4096 ∈ frames ∧ 4056 ≤ x % 4096 := Iff.rfl

/-- The list of slabs still to be visited starts at the cursor. -/
def CursorAt (m : Mem) (cache : Nat) (rest : List SlabView) : Prop :=
  m.load64 (cache + 32) = (rest.map SlabView.addr).headD 0

namespace CacheInv

variable {m m' : Mem} {cache size max : Nat} {frames : Set Nat}
  {slabs pre post : List SlabView} {live live' : List Nat} {v : SlabView} {b p : Nat}

theorem addr_bounds (h : CacheInv m cache size max frames slabs live) (hv : v ∈ slabs) :
    v.addr ≠ 0 ∧ v.addr < 2 ^ 53 ∧ v.addr / 4096 = v.frame := by
  have hf := h.frameBounds _ (h.frameMem v hv)
  unfold SlabView.addr
  omega

theorem slot_bounds (h : CacheInv m cache size max frames slabs live)
    (hb : IsSlot size frames b) : b ≠ 0 ∧ b < 2 ^ 53 := by
  obtain ⟨f, hf, j, rfl, hj⟩ := hb
  have hfb := h.frameBounds f hf
  omega

theorem objects_perm (pre post : List SlabView) (v : SlabView) (live : List Nat) :
    (objects (pre ++ v :: post) live).Perm
      ((pre ++ post).flatMap SlabView.free ++ (v.free ++ live)) := by
  apply List.perm_iff_count.mpr
  intro a
  simp only [objects, List.flatMap_append, List.flatMap_cons, List.count_append]
  omega

theorem other_free_ne (h : CacheInv m cache size max frames (pre ++ v :: post) live)
    (hp : p ∈ v.free ∨ p ∈ live) {w : SlabView} (hw : w ∈ pre ++ post) (hb : b ∈ w.free) :
    b ≠ p := by
  have hn := (objects_perm pre post v live).nodup_iff.mp h.nodup
  have hdis := (List.nodup_append.mp hn).2.2
  exact hdis b (List.mem_flatMap.mpr ⟨w, hw, hb⟩) p (List.mem_append.mpr hp)

/-- `replace` for writes inside the slab structure of `v` and the first ten
bytes of one object that is on no other free list. -/
theorem replace_at (h : CacheInv m cache size max frames (pre ++ v :: post) live)
    {free' : List Nat} (hp : p ∈ v.free ∨ p ∈ live)
    (hm : ∀ x, (x < v.addr ∨ v.addr + 40 ≤ x) → (x < p ∨ p + 10 ≤ x) → m' x = m x)
    (hnext : m'.load64 v.addr = m.load64 v.addr)
    (hhome : m'.load64 (v.addr + 16) = m.load64 (v.addr + 16))
    (hcount : m'.load64 (v.addr + 8) = free'.length)
    (hlist : Chain m'.load64 0 (m'.load64 (v.addr + 24)) free')
    (hperm : (objects (pre ++ ⟨v.frame, free'⟩ :: post) live').Perm
      (objects (pre ++ v :: post) live)) :
    CacheInv m' cache size max frames (pre ++ ⟨v.frame, free'⟩ :: post) live' := by
  have hs := h.sizeBounds
  have hv : v ∈ pre ++ v :: post := by simp
  have hvf := h.frameMem v hv
  have hslot : IsSlot size frames p := by
    rcases hp with hp | hp
    · exact h.slot_of_free hv hp
    · exact h.slot_of_live hp
  have hpin : ∀ x, p ≤ x → x < p + 10 → x / 4096 ∈ frames ∧ x % 4096 < 4056 :=
    fun x h1 h2 => ⟨(hslot.inside h1 (by omega)).1, (hslot.inside h1 (by omega)).2.1⟩
  have haddr : v.addr = v.frame * 4096 + 4056 := rfl
  refine h.replace ?_ ?_ ?_ hnext hhome hcount hlist hperm
  · intro x h1 h2
    have hal := h.cacheAligned
    have hxc : x / 4096 = cache / 4096 := by omega
    have hap := h.cacheApart
    apply hm
    · by_contra hc
      have hxv : x / 4096 = v.frame := by omega
      exact hap (by rw [← hxc, hxv]; exact hvf)
    · by_contra hc
      exact hap (hxc ▸ (hpin x (by omega) (by omega)).1)
  · intro w hw x h1 h2
    have hne := h.frame_ne w hw
    unfold SlabView.addr at h1 h2
    apply hm
    · omega
    · by_contra hc
      have hmod := (hpin x (by omega) (by omega)).2
      omega
  · intro w hw b hb
    have hbslot : IsSlot size frames b := h.slot_of_free (mem_of_other hw) hb
    have hapart := hbslot.apart hslot (h.other_free_ne hp hw hb)
    apply Mem.load64_congr
    intro x h1 h2
    have hmod := (hbslot.inside h1 (by omega)).2.1
    exact hm x (by omega) (by omega)

/-- Taking the first object of a free list. -/
theorem pop (h : CacheInv m cache size max frames (pre ++ v :: post) live) {rest : List Nat}
    (hv : v.free = b :: rest) {m1 : Mem} {c : Nat} (h1 : m1 = m.store64 (v.addr + 24) (m.load64 b))
    (hc : c = sub64 (m1.load64 (v.addr + 8)) 1) :
    CacheInv (m1.store64 (v.addr + 8) c) cache size max frames
        (pre ++ ⟨v.frame, rest⟩ :: post) (b :: live) ∧
      Mem.SameOn (bookkeeping cache frames)ᶜ m (m1.store64 (v.addr + 8) c) := by
  have hmem : v ∈ pre ++ v :: post := by simp
  have hcount := h.count v hmem
  have hchain := h.freeList v hmem
  have hs := h.sizeBounds
  have hlt := m.load64_lt (v.addr + 8)
  rw [hv] at hcount hchain
  rw [List.length_cons] at hcount
  have hrest : ∀ d ∈ rest, IsSlot size frames d :=
    fun d hd => h.slot_of_free hmem (by rw [hv]; simp [hd])
  have haddr : v.addr = v.frame * 4096 + 4056 := rfl
  have hcv : c = rest.length := by
    rw [hc, h1, Mem.load64_store64_other _ _ (by omega), hcount]
    exact sub64_of_le (by omega) (by omega)
  subst h1
  refine ⟨h.replace_at (p := b) (Or.inl (by rw [hv]; simp)) ?_ ?_ ?_ ?_ ?_ ?_, ?_⟩
  · intro x hx _
    rw [Mem.store64_outside _ _ (by omega), Mem.store64_outside _ _ (by omega)]
  · rw [Mem.load64_store64_other _ _ (by omega), Mem.load64_store64_other _ _ (by omega)]
  · rw [Mem.load64_store64_other _ _ (by omega), Mem.load64_store64_other _ _ (by omega)]
  · rw [Mem.load64_store64_same, hcv]
    omega
  · have hnext : m.load64 b % 2 ^ 64 = m.load64 b := Nat.mod_eq_of_lt (m.load64_lt b)
    rw [Mem.load64_store64_other _ _ (by omega), Mem.load64_store64_same, hnext]
    refine hchain.2.2.congr (fun d hd => ?_)
    have hin := (hrest d hd).inside (le_refl d) (by omega)
    have hin7 := (hrest d hd).inside (x := d + 7) (by omega) (by omega)
    rw [Mem.load64_store64_other _ _ (by omega), Mem.load64_store64_other _ _ (by omega)]
  · apply List.perm_iff_count.mpr
    intro a
    simp only [objects, List.flatMap_append, List.flatMap_cons, List.count_append, hv,
      List.count_cons]
    omega
  · intro x hx
    have hout : x < v.addr ∨ v.addr + 40 ≤ x := by
      by_contra hcon
      have hxv : x / 4096 = v.frame := by omega
      exact hx (Or.inr ⟨by rw [hxv]; exact h.frameMem v hmem, by omega⟩)
    rw [Mem.store64_outside _ _ (by omega), Mem.store64_outside _ _ (by omega)]

/-- Putting a live object in front of a slab's free list. -/
theorem push (h : CacheInv m cache size max frames (pre ++ v :: post) live) (hp : p ∈ live)
    {index c : Nat} {m1 m2 m3 : Mem} (h1 : m1 = m.store64 p (m.load64 (v.addr + 24)))
    (h2 : m2 = m1.store16 (p + 8) index) (h3 : m3 = m2.store64 (v.addr + 24) p)
    (hc : c = m3.load64 (v.addr + 8) + 1) :
    CacheInv (m3.store64 (v.addr + 8) c) cache size max frames
        (pre ++ ⟨v.frame, p :: v.free⟩ :: post) (live.erase p) ∧
      (∀ x, x ∉ bookkeeping cache frames → (x < p ∨ p + 10 ≤ x) →
        m3.store64 (v.addr + 8) c x = m x) := by
  have hmem : v ∈ pre ++ v :: post := by simp
  have hcount := h.count v hmem
  have hchain := h.freeList v hmem
  have hs := h.sizeBounds
  have hvf := h.frameMem v hmem
  have hslot := h.slot_of_live hp
  have hpb := h.slot_bounds hslot
  have haddr : v.addr = v.frame * 4096 + 4056 := rfl
  have hin := hslot.inside (le_refl p) (by omega)
  have hin9 := hslot.inside (x := p + 9) (by omega) (by omega)
  have hcv : c = v.free.length + 1 := by
    rw [hc, h3, h2, h1, Mem.load64_store64_other _ _ (by omega),
      Mem.load64_store16_other _ _ (by omega), Mem.load64_store64_other _ _ (by omega), hcount]
  subst h1 h2 h3
  have hhead : m.load64 (v.addr + 24) % 2 ^ 64 = m.load64 (v.addr + 24) :=
    Nat.mod_eq_of_lt (m.load64_lt _)
  have hold : m.load64 (v.addr + 8) < 2 ^ 63 := by
    -- a free list has at most as many slots as there are addresses below 2^53
    have hsub : v.free ⊆ List.range (2 ^ 53) := by
      intro c hc
      exact List.mem_range.mpr (h.slot_bounds (h.slot_of_free hmem hc)).2
    have hlen := (hchain.nodup.subperm hsub).length_le
    rw [List.length_range] at hlen
    omega
  refine ⟨h.replace_at (p := p) (Or.inr hp) ?_ ?_ ?_ ?_ ?_ ?_, ?_⟩
  · intro x hx1 hx2
    rw [Mem.store64_outside _ _ (by omega), Mem.store64_outside _ _ (by omega),
      Mem.store16_outside _ _ (by omega), Mem.store64_outside _ _ (by omega)]
  · rw [Mem.load64_store64_other _ _ (by omega), Mem.load64_store64_other _ _ (by omega),
      Mem.load64_store16_other _ _ (by omega), Mem.load64_store64_other _ _ (by omega)]
  · rw [Mem.load64_store64_other _ _ (by omega), Mem.load64_store64_other _ _ (by omega),
      Mem.load64_store16_other _ _ (by omega), Mem.load64_store64_other _ _ (by omega)]
  · rw [Mem.load64_store64_same, hcv, List.length_cons]
    omega
  · have hpw : p % 2 ^ 64 = p := by omega
    rw [Mem.load64_store64_other _ _ (by omega), Mem.load64_store64_same, hpw]
    refine ⟨rfl, hpb.1, ?_⟩
    rw [Mem.load64_store64_other _ _ (by omega), Mem.load64_store64_other _ _ (by omega),
      Mem.load64_store16_other _ _ (by omega), Mem.load64_store64_same, hhead]
    refine hchain.congr (fun d hd => ?_)
    have hds := h.slot_of_free hmem hd
    have hne : d ≠ p := by
      have hn := (objects_perm pre post v live).nodup_iff.mp h.nodup
      have hdis := (List.nodup_append.mp (List.nodup_append.mp hn).2.1).2.2
      exact hdis d hd p hp
    have hapart := hds.apart hslot hne
    have hdin := hds.inside (le_refl d) (by omega)
    have hdin7 := hds.inside (x := d + 7) (by omega) (by omega)
    rw [Mem.load64_store64_other _ _ (by omega), Mem.load64_store64_other _ _ (by omega),
      Mem.load64_store16_other _ _ (by omega), Mem.load64_store64_other _ _ (by omega)]
  · apply List.perm_iff_count.mpr
    intro a
    have hca := (List.perm_cons_erase hp).count_eq a
    simp only [objects, List.flatMap_append, List.flatMap_cons, List.count_append,
      List.count_cons] at hca ⊢
    omega
  · intro x hx hxp
    have hout : x < v.addr ∨ v.addr + 40 ≤ x := by
      by_contra hcon
      have hxv : x / 4096 = v.frame := by omega
      exact hx (Or.inr ⟨by rw [hxv]; exact hvf, by omega⟩)
    rw [Mem.store64_outside _ _ (by omega), Mem.store64_outside _ _ (by omega),
      Mem.store16_outside _ _ (by omega), Mem.store64_outside _ _ (by omega)]

end CacheInv

end ApoptOS
