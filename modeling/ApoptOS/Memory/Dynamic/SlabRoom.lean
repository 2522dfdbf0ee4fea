import ApoptOS.Memory.Dynamic.SlabReturn

namespace ApoptOS

open Framework

variable {ρ : Type} {A : PageFrames ρ} {U : Set Nat} {Holds : Mem → ρ → Set Nat → Prop}
  {k k' : Kernel ρ} {cache size max : Nat} {F frames : Set Nat}
  {slabs pre rest post : List SlabView} {v : SlabView} {live : List Nat} {flags : SlabFlags}
  {p fuel : Nat}

/-- The objects that slabs can take back if the capacity is `max`. -/
def room (max : Nat) (slabs : List SlabView) : Nat :=
  (slabs.map (fun v => max - v.free.length)).sum

theorem room_append (max : Nat) (slabs slabs' : List SlabView) :
    room max (slabs ++ slabs') = room max slabs + room max slabs' := by
  simp [room]

theorem room_cons (max : Nat) (v : SlabView) (slabs : List SlabView) :
    room max (v :: slabs) = (max - v.free.length) + room max slabs := by
  simp [room]

theorem room_pos (h : 0 < room max slabs) : ∃ v ∈ slabs, v.free.length < max := by
  by_contra hcon
  have hzero : room max slabs = 0 := by
    refine List.sum_eq_zero (fun n hn => ?_)
    obtain ⟨v, hv, rfl⟩ := List.mem_map.mp hn
    have hle : ¬ v.free.length < max := fun hlt => hcon ⟨v, hv, hlt⟩
    omega
  omega

/-- Slabs that are given back had no room. -/
theorem room_reapedList (max : Nat) (slabs : List SlabView) :
    room max (reapedList max slabs) = room max slabs := by
  induction slabs with
  | nil => rfl
  | cons v slabs ih =>
    by_cases hv : v.free.length = max
    · have hlist : reapedList max (v :: slabs) = reapedList max slabs := by
        simp [reapedList, hv]
      rw [hlist, ih, room_cons]
      omega
    · have hlist : reapedList max (v :: slabs) = v :: reapedList max slabs := by
        simp [reapedList, hv]
      rw [hlist, room_cons, room_cons, ih]

section Free

theorem freeToSlabs_stop
    (h : CacheState Holds k cache size max F frames (pre ++ v :: post) live)
    (hc : CursorAt k.mem cache (v :: post)) (hv : v.free.length < max) (n : Nat) :
    freeToSlabs cache p flags (n + 1) k = freeToSlabs cache p flags 1 k := by
  obtain ⟨hslab, h0⟩ := hc.slab_ne_zero h
  have hroom : k.slabBufctlCount v.addr < k.cacheBufctlCountMax cache := by
    have hcount : k.slabBufctlCount v.addr = v.free.length := h.inv.count v (by simp)
    have hmax : k.cacheBufctlCountMax cache = max := h.inv.maxWord
    omega
  simp only [freeToSlabs, hslab, h0, false_and, if_false, hroom, if_true]

/-- The loop of `slab_cache_free` ends at the first slab with room. -/
theorem freeToSlabs_first (flags : SlabFlags) (hA : A.Lawful U Holds)
    (h : CacheState Holds k cache size max F frames (pre ++ rest) live)
    (hc : CursorAt k.mem cache rest) (hp : p ∈ live)
    (hroom : ∃ v ∈ rest, v.free.length < max) :
    ∃ mid v post k', rest = mid ++ v :: post ∧ v.free.length < max ∧
      (∀ fuel, freeToSlabs cache p flags fuel k =
        if mid.length < fuel then .ok k' else .error .outOfFuel) ∧
      CacheState Holds k' cache size max F frames
        (pre ++ mid ++ ⟨v.frame, p :: v.free⟩ :: post) (live.erase p) ∧
      Effect k k' F F (ownFrames cache frames) (ownFrames cache frames) := by
  induction rest generalizing k pre with
  | nil => simp at hroom
  | cons w rest ih =>
    by_cases hw : w.free.length < max
    · obtain ⟨m', heq, hst, hsame, -⟩ := freeToSlabs_give 0 flags hA h hc hw hp
      refine ⟨[], w, rest, _, rfl, hw, fun fuel => ?_, by simpa using hst,
        h.effect_free hp hsame⟩
      cases fuel with
      | zero => rfl
      | succ n =>
        rw [freeToSlabs_stop h hc hw, heq]
        simp
    · have hassoc : (pre ++ [w]) ++ rest = pre ++ w :: rest := by simp
      have hst : CacheState Holds (k.setCacheSlabs cache (k.slabNext w.addr)) cache size max F
          frames ((pre ++ [w]) ++ rest) live := by
        rw [hassoc]
        exact h.setCacheSlabs hA _
      obtain ⟨u, hu, hlt⟩ := hroom
      have hurest : u ∈ rest := by
        rcases List.mem_cons.mp hu with rfl | hu
        · exact absurd hlt hw
        · exact hu
      obtain ⟨mid, v, post, k', rfl, hv, hrun, hst', heff⟩ :=
        ih hst h.cursor_next ⟨u, hurest, hlt⟩
      refine ⟨w :: mid, v, post, k', rfl, hv, fun fuel => ?_, by simpa using hst',
        (h.effect_cursor _).trans heff⟩
      cases fuel with
      | zero => rfl
      | succ n =>
        rw [freeToSlabs_next h hc (by omega), hrun]
        simp

/-- Without room anywhere the loop comes to the end of the list. -/
theorem freeToSlabs_full (flags : SlabFlags) (hA : A.Lawful U Holds)
    (h : CacheState Holds k cache size max F frames (pre ++ rest) live)
    (hc : CursorAt k.mem cache rest) (hfull : ∀ v ∈ rest, max ≤ v.free.length) :
    ∃ k2, CacheState Holds k2 cache size max F frames (pre ++ rest) live ∧
      freeToSlabs cache p flags (rest.length + 1) k =
        if flags.panic then .error (.panic
          "Slab cache free ('%s'): Couldn't find a slab for the to be freed pointer\n"
          (k2.cacheName cache))
        else .ok k2 := by
  induction rest generalizing k pre with
  | nil => exact ⟨k, h, freeToSlabs_end hc⟩
  | cons w rest ih =>
    have hassoc : (pre ++ [w]) ++ rest = pre ++ w :: rest := by simp
    have hst : CacheState Holds (k.setCacheSlabs cache (k.slabNext w.addr)) cache size max F
        frames ((pre ++ [w]) ++ rest) live := by
      rw [hassoc]
      exact h.setCacheSlabs hA _
    obtain ⟨k2, h2, hrun⟩ := ih hst h.cursor_next (fun v hv => hfull v (by simp [hv]))
    rw [hassoc] at h2
    refine ⟨k2, h2, ?_⟩
    rw [freeToSlabs_next h hc (hfull w (by simp))]
    exact hrun

/-- `k'` is `k` after `p` was put in front of the free list of slab `t`, which counts one more;
`p` was on no free list before. -/
structure FreeTaken (k k' : Kernel ρ) (cache p : Nat) (slabs : List Nat) (t : Nat) : Prop where
  mem : t ∈ slabs
  listed : ListedSlabs k' cache slabs
  fresh : ∀ u ∈ slabs, ∀ free : List Nat, Chain k.bufctlNext 0 (k.slabFreelistHead u) free →
    p ∉ free
  count : k'.slabBufctlCount t = k.slabBufctlCount t + 1
  taken : ∀ free : List Nat, Chain k.bufctlNext 0 (k.slabFreelistHead t) free →
    Chain k'.bufctlNext 0 (k'.slabFreelistHead t) (p :: free)
  others : ∀ u ∈ slabs, u ≠ t → k'.slabBufctlCount u = k.slabBufctlCount u ∧
    ∀ free : List Nat, Chain k.bufctlNext 0 (k.slabFreelistHead u) free →
      Chain k'.bufctlNext 0 (k'.slabFreelistHead u) free

/-- `slab_cache_free(cache, p, flags)` returns and gives `p` to exactly one slab of the list. -/
def FreeSucceeds (k : Kernel ρ) (cache p : Nat) (flags : SlabFlags) (slabs : List Nat) : Prop :=
  ∃ k' t, (∀ fuel, slabs.length < fuel → slabCacheFree fuel k cache p flags = .ok k') ∧
    FreeTaken k k' cache p slabs t

/-- With room in some slab the first one with room takes the object. -/
theorem CacheState.free_first (hA : A.Lawful U Holds) (flags : SlabFlags)
    (h : CacheState Holds k cache size max F frames slabs live) (hp : p ∈ live)
    (hroom : ∃ v ∈ slabs, v.free.length < max) :
    ∃ pre v post k', slabs = pre ++ v :: post ∧ v.free.length < max ∧
      (∀ fuel, slabCacheFree fuel k cache p flags =
        if pre.length < fuel then .ok k' else .error .outOfFuel) ∧
      CacheState Holds k' cache size max F frames (pre ++ ⟨v.frame, p :: v.free⟩ :: post)
        (live.erase p) ∧
      Effect k k' F F (ownFrames cache frames) (ownFrames cache frames) := by
  have hst : CacheState Holds (k.setCacheSlabs cache (k.cacheSlabsHead cache)) cache size max F
      frames ([] ++ slabs) live := h.setCacheSlabs hA _
  obtain ⟨pre, v, post, k', hsplit, hv, hrun, hst', heff⟩ :=
    freeToSlabs_first flags hA hst h.cursor_head hp hroom
  refine ⟨pre, v, post, k', hsplit, hv, fun fuel => ?_, hst', (h.effect_cursor _).trans heff⟩
  rw [slabCacheFree_eq h.inv.cacheBounds.1, hrun]

theorem CacheState.free_succeeds (hA : A.Lawful U Holds) (flags : SlabFlags)
    (h : CacheState Holds k cache size max F frames slabs live) (hp : p ∈ live)
    (hroom : ∃ v ∈ slabs, v.free.length < max) :
    FreeSucceeds k cache p flags (slabs.map SlabView.addr) := by
  obtain ⟨pre, v, post, k', rfl, -, hrun, hst, -⟩ := h.free_first hA flags hp hroom
  have haddrs : (pre ++ (⟨v.frame, p :: v.free⟩ : SlabView) :: post).map SlabView.addr =
      (pre ++ v :: post).map SlabView.addr := by
    simp [SlabView.addr]
  have hlisted : ListedSlabs k' cache ((pre ++ v :: post).map SlabView.addr) :=
    haddrs ▸ hst.listed
  have hfree : ∀ w ∈ pre ++ v :: post, ∀ free : List Nat,
      Chain k.bufctlNext 0 (k.slabFreelistHead w.addr) free → free = w.free :=
    fun w hw free hchain => hchain.unique (h.inv.freeList w hw)
  have hnot : ∀ w ∈ pre ++ v :: post, p ∉ w.free := by
    intro w hw hpw
    have hdis := (List.nodup_append.mp h.inv.nodup).2.2
    exact hdis p (List.mem_flatMap.mpr ⟨w, hw, hpw⟩) p hp rfl
  refine ⟨k', v.addr, fun fuel hfuel => ?_, ⟨by simp, hlisted, fun u hu free hchain => ?_, ?_,
    fun free hchain => ?_, fun u hu hne => ?_⟩⟩
  · rw [hrun, if_pos]
    simp only [List.length_map, List.length_append, List.length_cons] at hfuel
    omega
  · obtain ⟨w, hw, rfl⟩ := List.mem_map.mp hu
    rw [hfree w hw free hchain]
    exact hnot w hw
  · have hcount : k.slabBufctlCount v.addr = v.free.length := h.inv.count v (by simp)
    rw [hcount]
    exact hst.inv.count ⟨v.frame, p :: v.free⟩ (by simp)
  · rw [hfree v (by simp) free hchain]
    exact hst.inv.freeList ⟨v.frame, p :: v.free⟩ (by simp)
  · obtain ⟨w, hw, rfl⟩ := List.mem_map.mp hu
    have hw' : w ∈ pre ++ post :=
      (Accounted.mem_middle hw).resolve_left (fun he => hne (he ▸ rfl))
    have hcount : k.slabBufctlCount w.addr = w.free.length := h.inv.count w hw
    refine ⟨?_, fun free hchain => ?_⟩
    · rw [hcount]
      exact hst.inv.count w (CacheInv.mem_of_other hw')
    · rw [hfree w hw free hchain]
      exact hst.inv.freeList w (CacheInv.mem_of_other hw')

/-- Freeing a live object succeeds exactly if some slab has room. Otherwise the kernel panics
or forgets the object. -/
theorem CacheState.free_succeeds_iff (hA : A.Lawful U Holds) (flags : SlabFlags)
    (h : CacheState Holds k cache size max F frames slabs live) (hp : p ∈ live) :
    FreeSucceeds k cache p flags (slabs.map SlabView.addr) ↔
      ∃ v ∈ slabs, v.free.length < max := by
  refine ⟨?_, h.free_succeeds hA flags hp⟩
  rintro ⟨k', t, hrun, htaken⟩
  by_contra hcon
  have hfull : ∀ v ∈ slabs, max ≤ v.free.length := by simpa using hcon
  have hst : CacheState Holds (k.setCacheSlabs cache (k.cacheSlabsHead cache)) cache size max F
      frames ([] ++ slabs) live := h.setCacheSlabs hA _
  obtain ⟨k2, h2, hend⟩ := freeToSlabs_full (p := p) flags hA hst h.cursor_head hfull
  have hrun' := hrun (slabs.length + 1) (by simp)
  rw [slabCacheFree_eq h.inv.cacheBounds.1, hend] at hrun'
  split_ifs at hrun'
  obtain rfl := Except.ok.inj hrun'
  obtain ⟨v, hv, rfl⟩ := List.mem_map.mp htaken.mem
  have hcount : k.slabBufctlCount v.addr = v.free.length := h.inv.count v hv
  have hcount2 : k2.slabBufctlCount v.addr = v.free.length := h2.inv.count v hv
  have hmore := htaken.count
  omega

end Free

/-- What slabs `ts` can take back at capacity `max`, by their count words. -/
def Kernel.roomAt (k : Kernel ρ) (max : Nat) (ts : List Nat) : Nat :=
  (ts.map (fun t => max - k.slabBufctlCount t)).sum

/-- The condition on the state before each call under which every live object can be given
back. A growth leaves room for the live objects in the slabs it keeps, at the capacity it
leaves; an object is taken from a slab whose count is within the capacity; reaps are clean. -/
def SlabOp.Roomy (A : PageFrames ρ) (s : SlabState ρ) : SlabOp → Prop
  | .grow i count flags => ∀ c slabs, s.caches[i]? = some c →
      ListedSlabs s.kernel c.cache slabs →
      ∀ n, 0 < n → n ≤ count → GrowServed A s.kernel c.cache n flags →
        c.live.length ≤ s.kernel.roomAt
          (s.kernel.cacheBufctlCountMax c.cache - n * firstSlot flags) (slabs.take 1)
  | .alloc i flags => ∀ c slabs, s.caches[i]? = some c → ListedSlabs s.kernel c.cache slabs →
      (∀ t, slabs.find? (fun t => s.kernel.slabFreelistHead t ≠ 0) = some t →
        s.kernel.slabBufctlCount t ≤ s.kernel.cacheBufctlCountMax c.cache) ∧
      ((∀ t ∈ slabs, s.kernel.slabFreelistHead t = 0) → flags.autoGrow = true →
        c.live.length ≤ s.kernel.roomAt
          (s.kernel.cacheBufctlCountMax c.cache - firstSlot flags) (slabs.take 1))
  | .reap i flags => SlabOp.Clean s (.reap i flags)
  | _ => True

/-- Every call of the run leaves room, each in the state it is made in. -/
def SlabState.RoomyRun (A : PageFrames ρ) (fuel : Nat) (s : SlabState ρ) : List SlabOp → Prop
  | [] => True
  | op :: ops => op.Roomy A s ∧ ∀ s', s.exec A fuel op = some s' → RoomyRun A fuel s' ops

/-- There is room for all live objects. -/
def HasRoom (max : Nat) (slabs : List SlabView) (live : List Nat) : Prop :=
  live.length ≤ room max slabs

theorem CacheState.roomAt_eq (h : CacheState Holds k cache size max F frames slabs live)
    (n m : Nat) :
    k.roomAt m ((slabs.map SlabView.addr).take n) = room m (slabs.take n) := by
  rw [← List.map_take, Kernel.roomAt, room, List.map_map]
  congr 1
  refine List.map_congr_left (fun v hv => ?_)
  have hcount : k.slabBufctlCount v.addr = v.free.length :=
    h.inv.count v (List.mem_of_mem_take hv)
  simp only [Function.comp_apply, hcount]

section Steps

variable {count : Nat} {live' : List Nat}

/-- A growth that keeps room in the slabs it keeps. -/
theorem HasRoom.grow {n : Nat} {new : List SlabView} (h : HasRoom max slabs live)
    (hn : new.length = n)
    (hkeep : 0 < n → live.length ≤ room (max - n * firstSlot flags) (slabs.take 1)) :
    HasRoom (max - n * firstSlot flags) (grownBy [] slabs new) live := by
  rw [grownBy]
  split_ifs with hnil
  · have hzero : n = 0 := by
      rw [← hn, hnil]
      rfl
    rw [hzero, Nat.zero_mul, Nat.sub_zero]
    exact h
  · have hpos : 0 < n := hn ▸ List.length_pos_iff.mpr hnil
    unfold HasRoom
    rw [List.nil_append, room_append]
    exact (hkeep hpos).trans (Nat.le_add_right _ _)

/-- Taking an object makes the room for giving it back. -/
theorem HasRoom.take {b : Nat} {tail : List Nat} (h : HasRoom max (pre ++ v :: post) live)
    (hv : v.free = b :: tail) (hle : v.free.length ≤ max) :
    HasRoom max (pre ++ ⟨v.frame, tail⟩ :: post) (b :: live) := by
  have hlen : v.free.length = tail.length + 1 := by rw [hv, List.length_cons]
  unfold HasRoom at h ⊢
  rw [room_append, room_cons] at h ⊢
  rw [List.length_cons]
  change live.length + 1 ≤ room max pre + ((max - tail.length) + room max post)
  omega

theorem HasRoom.give (h : HasRoom max (pre ++ v :: post) live) (hp : p ∈ live)
    (hv : v.free.length < max) :
    HasRoom max (pre ++ ⟨v.frame, p :: v.free⟩ :: post) (live.erase p) := by
  unfold HasRoom at h ⊢
  have hpos := List.length_pos_of_mem hp
  rw [room_append, room_cons] at h ⊢
  rw [List.length_erase_of_mem hp]
  change live.length - 1 ≤ room max pre + ((max - (v.free.length + 1)) + room max post)
  omega

/-- The part of the condition on an allocation that is kept while it searches and grows. -/
def AllocRoomy (flags : SlabFlags) (live : List Nat) (max : Nat) (slabs : List SlabView) : Prop :=
  (∀ v, slabs.find? (fun v => v.free ≠ []) = some v → v.free.length ≤ max) ∧
    ((∀ v ∈ slabs, v.free = []) → flags.autoGrow = true →
      live.length ≤ room (max - firstSlot flags) (slabs.take 1))

theorem AllocRoomy.grow {f : Nat} (h : AllocRoomy flags live max slabs)
    (hauto : flags.autoGrow = true) (hempty : ∀ v ∈ slabs, v.free = []) :
    HasRoom (max - firstSlot flags)
        (grownList [] slabs ⟨f, slotList size f (firstSlot flags) max⟩) live ∧
      AllocRoomy flags live (max - firstSlot flags)
        (grownList [] slabs ⟨f, slotList size f (firstSlot flags) max⟩) := by
  have hkeep := h.2 hempty hauto
  have hlen := slotList_length size f (firstSlot flags) max
  have hkept : ∀ v ∈ slabs.take 1, v.free = [] := fun v hv => hempty v (List.mem_of_mem_take hv)
  refine ⟨?_, fun v hv => ?_, fun hnone _ => ?_⟩
  · unfold HasRoom
    rw [grownList, List.nil_append, room_append]
    exact hkeep.trans (Nat.le_add_right _ _)
  · have hvm := List.mem_of_find?_eq_some hv
    rcases mem_grownList.mp hvm with hw | rfl
    · rw [hkept v hw]
      exact Nat.zero_le _
    · exact le_of_eq hlen
  · -- the new slab has no slot, so the capacity is 0 and nothing is live
    have hnil := hnone _ (mem_grownList.mpr (Or.inr rfl))
    have hzero : max - firstSlot flags = 0 := by
      rw [← hlen]
      exact congrArg List.length hnil
    rw [hzero] at hkeep ⊢
    have hroom : ∀ l : List SlabView, room 0 l = 0 := by
      intro l
      simp [room]
    rw [hroom] at hkeep
    omega

/-- What the count words and the heads of the free lists say about the condition. -/
theorem CacheState.allocRoomy (h : CacheState Holds k cache size max F frames slabs live)
    (hfound : ∀ t, (slabs.map SlabView.addr).find? (fun t => k.slabFreelistHead t ≠ 0) =
      some t →
      k.slabBufctlCount t ≤ k.cacheBufctlCountMax cache)
    (hgrown : (∀ t ∈ slabs.map SlabView.addr, k.slabFreelistHead t = 0) →
      flags.autoGrow = true →
      live.length ≤ k.roomAt (k.cacheBufctlCountMax cache - firstSlot flags)
        ((slabs.map SlabView.addr).take 1)) :
    AllocRoomy flags live max slabs := by
  have hhead : ∀ w ∈ slabs, k.slabFreelistHead w.addr = 0 ↔ w.free = [] :=
    fun w hw => (h.inv.freeList w hw).eq_nil_iff.symm
  rw [h.maxWord] at hfound hgrown
  refine ⟨fun v hv => ?_, fun hempty hauto => ?_⟩
  · have hvm : v ∈ slabs := List.mem_of_find?_eq_some hv
    have hcongr : slabs.find? (fun w => decide (k.slabFreelistHead w.addr ≠ 0)) =
        slabs.find? (fun w => decide (w.free ≠ [])) :=
      List.find?_congr (fun w hw => decide_eq_decide.mpr (not_congr (hhead w hw)))
    have hcount : k.slabBufctlCount v.addr = v.free.length := h.inv.count v hvm
    rw [← hcount]
    refine hfound v.addr ?_
    rw [List.find?_map]
    exact Option.map_eq_some_iff.mpr ⟨v, hcongr.trans hv, rfl⟩
  · rw [h.roomAt_eq] at hgrown
    refine hgrown (fun t ht => ?_) hauto
    obtain ⟨w, hw, rfl⟩ := List.mem_map.mp ht
    exact (hhead w hw).mpr (hempty w hw)

/-- An allocation keeps room for the live objects and for the one it hands out. -/
theorem CacheState.alloc_room (hA : A.Lawful U Holds)
    (h : CacheState Holds k cache size max F frames slabs live) (hroom : HasRoom max slabs live)
    (hcond : AllocRoomy flags live max slabs)
    (hok : slabCacheAlloc A fuel k cache flags = .ok (p, k')) :
    ∃ max' F' frames' slabs',
      CacheState Holds k' cache size max' F' frames' slabs' (if p = 0 then live else p :: live) ∧
      Effect k k' F F' (ownFrames cache frames) (ownFrames cache frames') ∧
      HasRoom max' slabs' (if p = 0 then live else p :: live) := by
  have htake : ∀ (k : Kernel ρ) max F frames pre v post b tail,
      CacheState Holds k cache size max F frames (pre ++ v :: post) live →
      (∀ w ∈ pre, w.free = []) → v.free = b :: tail →
      HasRoom max (pre ++ v :: post) live ∧ AllocRoomy flags live max (pre ++ v :: post) →
      HasRoom max (pre ++ ⟨v.frame, tail⟩ :: post) (b :: live) := by
    rintro k max F frames pre v post b tail - hpre hv ⟨hroom, hcond⟩
    have hpre' : pre.find? (fun w => decide (w.free ≠ [])) = none :=
      List.find?_eq_none.mpr (fun w hw => by simp [hpre w hw])
    refine hroom.take hv (hcond.1 v ?_)
    rw [List.find?_append, hpre', Option.none_or, List.find?_cons_of_pos (by simp [hv])]
  obtain ⟨max', F', frames', slabs', hst, heff, hJ⟩ := slabCacheAlloc_rule hA
    (I := fun max slabs => HasRoom max slabs live ∧ AllocRoomy flags live max slabs)
    (J := HasRoom) (fun _ _ _ _ _ _ _ _ hauto hempty hI => hI.2.grow hauto hempty) htake
    (fun _ _ hI => hI.1) h hok
  exact ⟨max', F', frames', slabs', hst, heff, hJ ⟨hroom, hcond⟩⟩

end Steps

namespace SlabState.Good

variable {s s' : SlabState ρ} {view : Nat → CacheView} {op : SlabOp}

/-- A call that meets the condition keeps every cache valid and with room for its live
objects. -/
theorem step_room (hA : A.Lawful U Holds) (h : s.Good Holds F view)
    (hroom : s.AllCaches HasRoom view) (hcond : op.Roomy A s) (he : s.exec A fuel op = some s') :
    ∃ F' view', s'.Good Holds F' view' ∧ s'.AllCaches HasRoom view' := by
  cases op with
  | create name slabSize flags =>
    simp only [exec] at he
    split at he
    · simp at he
    · rename_i cache k hok
      simp only [Option.some.injEq] at he
      subst he
      rcases slabCacheCreate_spec hA h.holds hok with
        ⟨rfl, hh, heff⟩ | ⟨max', F', frames', slabs', hst, heff, -⟩
      · exact ⟨F, view,
          ⟨hh, fun i c hc => (h.cache i c hc).other heff hh (Set.disjoint_empty _),
          h.apart⟩, hroom⟩
      · rw [if_neg hst.inv.cacheBounds.1]
        exact ⟨F', _, h.append (v := ⟨max', frames', slabs'⟩) hst heff,
          hroom.append (Nat.zero_le _)⟩
  | grow i count flags =>
    obtain ⟨c, hc, he⟩ := Option.bind_eq_some_iff.mp he
    split at he
    · simp at he
    · rename_i k hok
      simp only [Option.some.injEq] at he
      subst he
      have hci := h.cache i c hc
      obtain ⟨fs, F', frames', hle, hserved, -, hst, heff, -⟩ := slabCacheGrow_exact hA hci hok
      have hkeep := hcond c _ hc hci.listed fs.length
      rw [hci.maxWord, hci.roomAt_eq] at hkeep
      have hgrown := (hroom i c hc).grow (newSlabs_length c.size (firstSlot flags) (view i).max fs)
        (fun hpos => hkeep hpos hle hserved)
      rw [← set_same_live hc]
      exact ⟨F', _, h.update (v := ⟨_, frames', _⟩) hc hst heff, hroom.update hc hgrown⟩
  | alloc i flags =>
    obtain ⟨c, hc, he⟩ := Option.bind_eq_some_iff.mp he
    split at he
    · simp at he
    · rename_i p k hok
      simp only [Option.some.injEq] at he
      subst he
      have hci := h.cache i c hc
      obtain ⟨hfound, hgrown⟩ := hcond c _ hc hci.listed
      obtain ⟨max', F', frames', slabs', hst, heff, hroom'⟩ :=
        hci.alloc_room hA (hroom i c hc) (hci.allocRoomy hfound hgrown) hok
      exact ⟨F', _, h.update (v := ⟨max', frames', slabs'⟩) hc hst heff,
        hroom.update hc hroom'⟩
  | free i pointer flags =>
    obtain ⟨c, hc, he⟩ := Option.bind_eq_some_iff.mp he
    split_ifs at he with hp
    split at he
    · simp at he
    · rename_i k hok
      simp only [Option.some.injEq] at he
      subst he
      have hci := h.cache i c hc
      have hpos : 0 < room (view i).max (view i).slabs :=
        (List.length_pos_of_mem hp).trans_le (hroom i c hc)
      obtain ⟨pre, v, post, k', hsplit, hv, hrun, hst, heff⟩ :=
        hci.free_first hA flags hp (room_pos hpos)
      have hk : k' = k := by
        rw [hrun] at hok
        split_ifs at hok
        exact Except.ok.inj hok
      have hbefore := hroom i c hc
      rw [hsplit] at hbefore
      rw [hk] at hst heff
      exact ⟨F, _, h.update
        (v := ⟨(view i).max, (view i).frames, pre ++ ⟨v.frame, pointer :: v.free⟩ :: post⟩)
          hc hst
        heff, hroom.update hc (hbefore.give hp hv)⟩
  | reap i flags =>
    obtain ⟨c, hc, hcaches, hgood⟩ := h.reap hA hcond he
    refine ⟨_, _, hgood, fun j d hd => ?_⟩
    rw [hcaches] at hd
    have hj := hroom j d hd
    by_cases hji : j = i
    · subst hji
      rw [Function.update_self]
      exact hj.trans_eq (room_reapedList _ _).symm
    · rw [Function.update_of_ne hji]
      exact hj
  | write a value =>
    obtain ⟨hgood, hcaches⟩ := h.write hA he
    exact ⟨F, view, hgood, fun i c hc => hroom i c (by rwa [hcaches] at hc)⟩

/-- In every state of a run that meets the condition there is room. -/
theorem run_room (hA : A.Lawful U Holds) (h : s.Good Holds F view)
    (hroom : s.AllCaches HasRoom view) {ops : List SlabOp} (hcond : s.RoomyRun A fuel ops)
    (hr : s.run A fuel ops = some s') :
    ∃ F' view', s'.Good Holds F' view' ∧ s'.AllCaches HasRoom view' := by
  induction ops generalizing s F view with
  | nil =>
    obtain rfl := Option.some.inj hr
    exact ⟨F, view, h, hroom⟩
  | cons op ops ih =>
    obtain ⟨s1, he, hr⟩ := Option.bind_eq_some_iff.mp hr
    obtain ⟨F1, view1, h1, hroom1⟩ := h.step_room hA hroom hcond.1 he
    exact ih h1 hroom1 (hcond.2 s1 he) hr

end SlabState.Good

/-- For every run whose calls meet the condition, from any state of the page frames: freeing
any live object of any cache puts it on one slab's free list. -/
theorem slab_free_succeeds (A : PageFrames ρ) (U : Set Nat)
    (Holds : Mem → ρ → Set Nat → Prop)
    (hA : A.Lawful U Holds) (k : Kernel ρ) (F : Set Nat) (hF : Holds k.mem k.frames F) (fuel : Nat)
    (ops : List SlabOp) (hroomy : SlabState.RoomyRun A fuel ⟨k, []⟩ ops) (s : SlabState ρ)
    (hrun : SlabState.run A fuel ⟨k, []⟩ ops = some s) (c : SlabCache) (hc : c ∈ s.caches)
    (p : Nat) (hp : p ∈ c.live) (flags : SlabFlags) :
    ∃ slabs, ListedSlabs s.kernel c.cache slabs ∧
      FreeSucceeds s.kernel c.cache p flags slabs := by
  obtain ⟨h0, -⟩ := SlabState.Good.none hF (fun _ => ⟨0, ∅, []⟩)
  have hroom0 :
      SlabState.AllCaches HasRoom (⟨k, []⟩ : SlabState ρ) (fun _ => ⟨0, ∅, []⟩) :=
    fun i c hc => by simp at hc
  obtain ⟨F', view, hgood, hroom⟩ := h0.run_room hA hroom0 hroomy hrun
  obtain ⟨i, hi⟩ := List.mem_iff_getElem?.mp hc
  have hci := hgood.cache i c hi
  have hpos : 0 < room (view i).max (view i).slabs :=
    (List.length_pos_of_mem hp).trans_le (hroom i c hi)
  exact ⟨_, hci.listed, hci.free_succeeds hA flags hp (room_pos hpos)⟩

def roomyOps : List SlabOp :=
  [.create 0 512 ⟨true, false, false⟩, .grow 0 1 ⟨true, false, false⟩,
    .alloc 0 ⟨true, false, false⟩]

theorem roomyOps_roomy : SlabState.RoomyRun pmmFrames 5 ⟨bootKernel smallMap, []⟩ roomyOps := by
  have hcreated : ((SlabState.run pmmFrames 5 ⟨bootKernel smallMap, []⟩ (roomyOps.take 1)).all
      (fun s => decide (s.caches = [⟨0x2000, 512, []⟩]))) = true := by decide +kernel
  have hgrown : ((SlabState.run pmmFrames 5 ⟨bootKernel smallMap, []⟩ (roomyOps.take 2)).all
      (fun s => decide (s.caches = [⟨0x2000, 512, []⟩] ∧
        Chain s.kernel.slabNext 0 (s.kernel.cacheSlabsHead 0x2000) [0x3fd8, 0x4fd8]) &&
        decide (s.kernel.slabFreelistHead 0x3fd8 ≠ 0) &&
        decide (s.kernel.slabBufctlCount 0x3fd8 ≤ s.kernel.cacheBufctlCountMax 0x2000))) =
          true := by
    decide +kernel
  refine ⟨trivial, fun s1 h1 => ⟨?_, fun s2 h2 => ⟨?_, fun _ _ => trivial⟩⟩⟩
  · have hs1 : SlabState.run pmmFrames 5 ⟨bootKernel smallMap, []⟩ (roomyOps.take 1) =
        some s1 := by
      simp only [roomyOps, List.take, SlabState.run, h1, Option.bind_some]
    rw [hs1] at hcreated
    simp only [Option.all_some, decide_eq_true_eq] at hcreated
    intro c slabs hc _ n _ _ _
    rw [hcreated] at hc
    obtain rfl : (⟨0x2000, 512, []⟩ : SlabCache) = c := Option.some.inj hc
    exact Nat.zero_le _
  · have hs2 : SlabState.run pmmFrames 5 ⟨bootKernel smallMap, []⟩ (roomyOps.take 2) =
        some s2 := by
      simp only [roomyOps, List.take, SlabState.run, h1, h2, Option.bind_some]
    rw [hs2] at hgrown
    simp only [Option.all_some, Bool.and_eq_true, decide_eq_true_eq] at hgrown
    obtain ⟨⟨⟨hcaches, hchain⟩, hhead⟩, hcount⟩ := hgrown
    intro c slabs hc hl
    rw [hcaches] at hc
    obtain rfl : (⟨0x2000, 512, []⟩ : SlabCache) = c := Option.some.inj hc
    refine ⟨fun t ht => ?_, fun _ hauto => by simp at hauto⟩
    rw [hl.unique hchain, List.find?_cons_of_pos (by simpa using hhead)] at ht
    rw [← Option.some.inj ht]
    exact hcount

/-- The first object of a cache of two slabs can be given back. -/
theorem slab_free_succeeds_roomyOps : ∃ s slabs,
    SlabState.run pmmFrames 5 ⟨bootKernel smallMap, []⟩ roomyOps = some s ∧
    s.caches = [⟨0x2000, 512, [0x3000]⟩] ∧ ListedSlabs s.kernel 0x2000 slabs ∧
    FreeSucceeds s.kernel 0x2000 0x3000 ⟨true, false, false⟩ slabs := by
  have heval : (SlabState.run pmmFrames 5 ⟨bootKernel smallMap, []⟩ roomyOps).map
      SlabState.caches = some [⟨0x2000, 512, [0x3000]⟩] := by decide +kernel
  obtain ⟨s, hs, hcaches⟩ := Option.map_eq_some_iff.mp heval
  obtain ⟨U, Holds, hA, hF⟩ := bootKernel_lawful smallMap_ok smallMap_frames_le (by decide)
  obtain ⟨slabs, hlisted, hfree⟩ := slab_free_succeeds pmmFrames U Holds hA _ ∅ hF 5 roomyOps
    roomyOps_roomy s hs ⟨0x2000, 512, [0x3000]⟩ (by rw [hcaches]; simp) 0x3000 (by simp)
    ⟨true, false, false⟩
  exact ⟨s, slabs, hs, hcaches, hlisted, hfree⟩

/-- A second slab grown with `SLAB_NO_ALIGN` lowers the capacity to its own five slots, of which
the first slab has as many left after one object is taken: the kernel panics when the object
is given back. -/
theorem slab_free_finds_no_slab : ∃ s,
    SlabState.run pmmFrames 5 ⟨bootKernel smallMap, []⟩
      [.create 0 512 ⟨true, false, true⟩, .grow 0 1 ⟨true, false, true⟩,
        .alloc 0 ⟨true, false, true⟩] = some s ∧
    s.caches = [⟨0x2000, 512, [0x3200]⟩] ∧ ListedSlabs s.kernel 0x2000 [0x3fd8, 0x4fd8] ∧
    slabCacheFree 5 s.kernel 0x2000 0x3200 ⟨true, false, true⟩ = .error (.panic
      "Slab cache free ('%s'): Couldn't find a slab for the to be freed pointer\n" 0) ∧
    ¬ FreeSucceeds s.kernel 0x2000 0x3200 ⟨true, false, true⟩ [0x3fd8, 0x4fd8] := by
  have heval : (SlabState.run pmmFrames 5 ⟨bootKernel smallMap, []⟩
      [.create 0 512 ⟨true, false, true⟩, .grow 0 1 ⟨true, false, true⟩,
        .alloc 0 ⟨true, false, true⟩]).bind (fun s =>
      if Chain s.kernel.slabNext 0 (s.kernel.cacheSlabsHead 0x2000) [0x3fd8, 0x4fd8] then
        match slabCacheFree 5 s.kernel 0x2000 0x3200 ⟨true, false, true⟩ with
        | .error e => some (s.caches, e)
        | .ok _ => none
      else none) = some ([⟨0x2000, 512, [0x3200]⟩], .panic
        "Slab cache free ('%s'): Couldn't find a slab for the to be freed pointer\n" 0) := by
    decide +kernel
  obtain ⟨s, hs, hif⟩ := Option.bind_eq_some_iff.mp heval
  split_ifs at hif with hlist
  split at hif
  · rename_i e he
    obtain ⟨hcaches, rfl⟩ := Prod.mk.inj (Option.some.inj hif)
    refine ⟨s, hs, hcaches, hlist, he, ?_⟩
    rintro ⟨k', t, hrun, -⟩
    have hok := hrun 5 (by decide)
    rw [he] at hok
    simp at hok
  · simp at hif

end ApoptOS
