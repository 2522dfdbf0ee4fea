import ApoptOS.Memory.Dynamic.SlabDestroy
import ApoptOS.Memory.Dynamic.SlabDump

namespace ApoptOS

open Framework

variable {ρ : Type} {A : PageFrames ρ} {U : Set Nat} {Holds : Mem → ρ → Set Nat → Prop}
  {k k' : Kernel ρ} {cache size max count : Nat} {F frames : Set Nat}
  {slabs pre rest post : List SlabView} {v : SlabView} {live : List Nat} {flags : SlabFlags}
  {b f p fuel : Nat} {m m' : Mem}

/-- The free objects of a slab lie in its frame, and the index of each is the number of its
slot. -/
structure AtHome (m : Mem) (size : Nat) (slabs : List SlabView) : Prop where
  frame : ∀ v ∈ slabs, ∀ b ∈ v.free, b / 4096 = v.frame
  index : ∀ v ∈ slabs, ∀ b ∈ v.free, v.frame * 4096 + size * m.load16 (b + 8) = b

theorem AtHome.congr (h : AtHome m size slabs)
    (hm : ∀ v ∈ slabs, ∀ b ∈ v.free, m'.load16 (b + 8) = m.load16 (b + 8)) :
    AtHome m' size slabs := by
  refine ⟨h.frame, fun v hv b hb => ?_⟩
  rw [hm v hv b hb]
  exact h.index v hv b hb

/-- Shorter free lists on the same slabs. -/
theorem AtHome.shrink {slabs' : List SlabView} (h : AtHome m size slabs)
    (hsub : ∀ v ∈ slabs', ∃ w ∈ slabs, v.frame = w.frame ∧ v.free ⊆ w.free) :
    AtHome m size slabs' := by
  refine ⟨fun v hv b hb => ?_, fun v hv b hb => ?_⟩
  · obtain ⟨w, hw, hframe, hfree⟩ := hsub v hv
    exact (h.frame w hw b (hfree hb)).trans hframe.symm
  · obtain ⟨w, hw, hframe, hfree⟩ := hsub v hv
    rw [hframe]
    exact h.index w hw b (hfree hb)

/-- The index of an object is neither in the cache's page nor in a slab structure. -/
theorem CacheState.index_same (h : CacheState Holds k cache size max F frames slabs live)
    (hb : IsSlot size frames b)
    (hm : Mem.SameOn (frameBytes F \ bookkeeping cache frames) k.mem m') :
    m'.load16 (b + 8) = k.mem.load16 (b + 8) := by
  have hs := h.inv.sizeBounds
  refine hm.load16 (fun x h1 h2 => ?_)
  have hin := hb.inside (x := x) (by omega) (by omega)
  refine ⟨mem_frameBytes.mpr (h.framesHeld hin.1), ?_⟩
  rintro (hxc | hxt)
  · exact h.inv.cacheApart (hxc ▸ hin.1)
  · omega

theorem AtHome.same (hh : AtHome k.mem size slabs)
    (h : CacheState Holds k cache size max F frames slabs live)
    (hm : Mem.SameOn (frameBytes F \ bookkeeping cache frames) k.mem m') :
    AtHome m' size slabs :=
  hh.congr (fun _ hv _ hb => h.index_same (h.inv.slot_of_free hv hb) hm)

/-- Initialisation numbers the slots of a new slab one by one. -/
theorem AtHome.grow (pre rest : List SlabView) (hh : AtHome m size (pre ++ rest))
    (hnum : Numbered m size f max) (hmax : max * size ≤ 4056) (lo : Nat) :
    AtHome m size (grownList pre rest ⟨f, slotList size f lo max⟩) := by
  refine ⟨fun v hv b hb => ?_, fun v hv b hb => ?_⟩
  · rcases mem_grownList.mp hv with hv | rfl
    · exact hh.frame v (kept_subset hv) b hb
    · obtain ⟨i, -, hi, rfl⟩ := mem_slotList.mp hb
      have hle : size * (i + 1) ≤ size * max := Nat.mul_le_mul_left size hi
      rw [Nat.mul_succ, Nat.mul_comm size max] at hle
      show (f * 4096 + size * i) / 4096 = f
      omega
  · rcases mem_grownList.mp hv with hv | rfl
    · exact hh.index v (kept_subset hv) b hb
    · obtain ⟨i, -, hi, rfl⟩ := mem_slotList.mp hb
      rw [hnum i hi]

/-- The index computed for an object of the slab's own frame is the number of its slot. -/
theorem slot_index (hb : IsSlot size frames p) (hbounds : ∀ g ∈ frames, g ≠ 0 ∧ g < 2 ^ 40)
    (hsize : 0 < size) (hframe : p / 4096 = f) :
    f * 4096 + size * (sub64 p (f * 4096) / size % 2 ^ 16) = p := by
  obtain ⟨g, hg, j, rfl, hj⟩ := hb
  have hgb := hbounds g hg
  obtain rfl : g = f := by omega
  have hsub : sub64 (g * 4096 + size * j) (g * 4096) = size * j := by
    rw [sub64_of_le (by omega) (by omega)]
    omega
  have hle : 1 * j ≤ size * j := Nat.mul_le_mul_right j hsize
  rw [hsub, Nat.mul_div_cancel_left _ hsize, Nat.mod_eq_of_lt (by omega)]

section Steps

theorem growSlabs_home (hA : A.Lawful U Holds)
    (h : CacheState Holds k cache size max F frames (pre ++ rest) live)
    (hg : GrowAt k.mem cache pre rest) (hh : AtHome k.mem size (pre ++ rest))
    (hok : growSlabs A cache flags count k = .ok k') :
    ∃ max' F' frames' slabs', CacheState Holds k' cache size max' F' frames' slabs' live ∧
      Effect k k' F F' (ownFrames cache frames) (ownFrames cache frames') ∧
      AtHome k'.mem size slabs' := by
  induction count generalizing k max F frames pre rest with
  | zero =>
    obtain rfl := Except.ok.inj hok
    exact ⟨max, F, frames, pre ++ rest, h, Effect.write (Mem.SameOn.refl _ _), hh⟩
  | succ count ih =>
    rcases growSlabs_succ flags hA h hg count with
      ⟨heq, hsame, -, hst⟩ | ⟨f, m', hfF, -, heq, hst, hg', hsame, hnum⟩
    · rw [heq] at hok
      split_ifs at hok
      obtain rfl := Except.ok.inj hok
      exact ⟨max, F, frames, pre ++ rest, hst, Effect.frame_refused hsame,
        hh.same h (hsame.mono (fun _ hx => hx.1))⟩
    · rw [heq] at hok
      have hhome := AtHome.grow pre rest (hh.same h hsame) hnum h.inv.maxBound (firstSlot flags)
      obtain ⟨max', F', frames', slabs', hst', he, hh'⟩ := ih hst hg' hhome hok
      exact ⟨max', F', frames', slabs', hst', (Effect.frame_added hfF hsame).trans he, hh'⟩

theorem slabCacheGrow_home (hA : A.Lawful U Holds)
    (h : CacheState Holds k cache size max F frames slabs live) (hh : AtHome k.mem size slabs)
    (hok : slabCacheGrow A k cache count flags = .ok k') :
    ∃ max' F' frames' slabs', CacheState Holds k' cache size max' F' frames' slabs' live ∧
      Effect k k' F F' (ownFrames cache frames) (ownFrames cache frames') ∧
      AtHome k'.mem size slabs' := by
  rw [slabCacheGrow_eq A h.inv.cacheBounds.1] at hok
  have hst : CacheState Holds (k.setCacheSlabs cache (k.cacheSlabsHead cache)) cache size max F
      frames ([] ++ slabs) live := h.setCacheSlabs hA _
  obtain ⟨max', F', frames', slabs', hst', he, hh'⟩ :=
    growSlabs_home hA hst ⟨h.cursor_head, fun _ => rfl⟩ (hh.same h (h.same_cursor _)) hok
  exact ⟨max', F', frames', slabs', hst', (h.effect_cursor _).trans he, hh'⟩

theorem slabCacheCreate_home (hA : A.Lawful U Holds) (hF : Holds k.mem k.frames F) {name : Nat}
    (hok : slabCacheCreate A k name size flags = .ok (cache, k')) :
    (cache = 0 ∧ Holds k'.mem k'.frames F ∧ Effect k k' F F ∅ ∅) ∨
    ∃ max' F' frames' slabs', CacheState Holds k' cache size max' F' frames' slabs' [] ∧
      Effect k k' F F' ∅ (ownFrames cache frames') ∧ AtHome k'.mem size slabs' := by
  rcases slabCacheCreate_cases flags name hA hF (slabCacheCreate_admitted hok) with
    ⟨heq, -, hsame, hh1⟩ | ⟨f, m', hfF, -, -, heq, hst, hsame⟩
  · rw [heq] at hok
    split_ifs at hok
    obtain ⟨rfl, rfl⟩ := Prod.mk.inj (Except.ok.inj hok)
    exact Or.inl ⟨rfl, hh1, Effect.frame_refused hsame⟩
  · rw [heq] at hok
    rcases hgrow : slabCacheGrow A { (k.pmmAllocz A 1).2 with mem := m' } (f * 4096) 1 flags with
      e | k2
    · rw [hgrow] at hok
      simp [Except.map] at hok
    · rw [hgrow] at hok
      obtain ⟨rfl, rfl⟩ := Prod.mk.inj (Except.ok.inj hok)
      obtain ⟨max', F', frames', slabs', hst', he, hh⟩ :=
        slabCacheGrow_home hA hst ⟨by simp, by simp⟩ hgrow
      exact Or.inr ⟨max', F', frames', slabs', hst', (Effect.cache_page hfF hsame).trans he, hh⟩

theorem slabCacheAlloc_home (hA : A.Lawful U Holds)
    (h : CacheState Holds k cache size max F frames slabs live) (hh : AtHome k.mem size slabs)
    (hok : slabCacheAlloc A fuel k cache flags = .ok (p, k')) :
    ∃ max' F' frames' slabs',
      CacheState Holds k' cache size max' F' frames' slabs' (if p = 0 then live else p :: live) ∧
      Effect k k' F F' (ownFrames cache frames) (ownFrames cache frames') ∧
      AtHome k'.mem size slabs' := by
  -- the slab that hands out an object keeps the rest of its free list
  have htake : ∀ (k k1 : Kernel ρ) max F frames pre v post b tail,
      CacheState Holds k cache size max F frames (pre ++ v :: post) live →
      (∀ w ∈ pre, w.free = []) → v.free = b :: tail →
      Mem.SameOn (bookkeeping cache frames)ᶜ k.mem k1.mem →
      AtHome k.mem size (pre ++ v :: post) →
      AtHome k1.mem size (pre ++ ⟨v.frame, tail⟩ :: post) := by
    intro k k1 max F frames pre v post b tail hst hpre hv hsame hI
    refine (hI.same hst (hsame.mono (fun _ hx => hx.2))).shrink (fun w hw => ?_)
    rcases Accounted.mem_middle hw with rfl | hw
    · exact ⟨v, by simp, rfl, fun c hc => by rw [hv]; exact List.mem_cons_of_mem _ hc⟩
    · exact ⟨w, CacheInv.mem_of_other hw, rfl, fun c hc => hc⟩
  obtain ⟨max', F', frames', slabs', hst, he, hJ⟩ := slabCacheAlloc_kernel_rule
    (I := fun k _ slabs => AtHome k.mem size slabs)
    (J := fun k _ slabs _ => AtHome k.mem size slabs) hA
    (fun _ _ _ _ _ _ hst hsame hI => hI.same hst hsame)
    (fun _ _ _ _ _ slabs _ hst _ _ _ hsame hnum hI =>
      AtHome.grow [] slabs (hI.same hst hsame) hnum hst.inv.maxBound _)
    htake (fun _ _ _ hI => hI) h hok
  exact ⟨max', F', frames', slabs', hst, he, hJ hh⟩

/-- A free keeps the lists at home exactly if the slab that takes the object back is its own. -/
theorem slabCacheFree_home_iff (hA : A.Lawful U Holds)
    (h : CacheState Holds k cache size max F frames slabs live) (hh : AtHome k.mem size slabs)
    (hp : p ∈ live) (hok : slabCacheFree fuel k cache p flags = .ok k') :
    ∃ slabs', CacheState Holds k' cache size max F frames slabs' (live.erase p) ∧
      Effect k k' F F (ownFrames cache frames) (ownFrames cache frames) ∧
      (AtHome k'.mem size slabs' ↔ FreeFair max p slabs) := by
  have hs := h.inv.sizeBounds
  rcases slabCacheFree_cases hA h hp hok with
    ⟨hfull, hst, he, hsame⟩ | ⟨mid, v, post, rfl, hfind, hst, he, hsame, hindex⟩
  · refine ⟨slabs, { hst with inv := hst.inv.forget p }, he, fun _ v hv => ?_,
      fun _ => hh.same h hsame⟩
    have hle := hfull v (List.mem_of_find?_eq_some hv)
    have hlt : v.free.length < max := by simpa using List.find?_some hv
    omega
  · refine ⟨_, hst, he, fun hh' w hw => ?_, fun hfair => ?_⟩
    · obtain rfl : w = v := Option.some.inj (hw.symm.trans hfind)
      exact hh'.frame ⟨w.frame, p :: w.free⟩ (by simp) p (by simp)
    · have hframe := hfair v hfind
      have hslot := h.inv.slot_of_live hp
      -- the other free objects are apart from the ten bytes that are written
      have hold : AtHome k'.mem size (mid ++ v :: post) := by
        refine hh.congr (fun w hw b hb => ?_)
        have hbslot := h.inv.slot_of_free hw hb
        have hne : b ≠ p := by
          rintro rfl
          exact (List.nodup_append.mp h.inv.nodup).2.2 b
            (List.mem_flatMap.mpr ⟨w, hw, hb⟩) b hp rfl
        have hap := hbslot.apart hslot hne
        apply Mem.load16_congr
        intro x h1 h2
        have hin := hbslot.inside (x := x) (by omega) (by omega)
        refine hsame x ⟨mem_frameBytes.mpr (h.framesHeld hin.1), ?_⟩ (by omega)
        rintro (hxc | hxt)
        · exact h.inv.cacheApart (hxc ▸ hin.1)
        · omega
      refine ⟨fun w hw b hb => ?_, fun w hw b hb => ?_⟩
      · rcases Accounted.mem_middle hw with rfl | hw
        · rcases List.mem_cons.mp hb with rfl | hb
          · exact hframe
          · exact hold.frame v (by simp) b hb
        · exact hold.frame w (CacheInv.mem_of_other hw) b hb
      · rcases Accounted.mem_middle hw with rfl | hw
        · rcases List.mem_cons.mp hb with rfl | hb
          · rw [hindex]
            exact slot_index hslot h.inv.frameBounds (by omega) hframe
          · exact hold.index v (by simp) b hb
        · exact hold.index w (CacheInv.mem_of_other hw) b hb

end Steps

/-- Every bufctl on the free list of a listed slab lies in the slab's frame, and the address
computed from its index is its own. -/
def FreeListsHome (k : Kernel ρ) (cache : Nat) : Prop :=
  ∃ slabs, ListedSlabs k cache slabs ∧ ∀ t ∈ slabs, ∃ free,
    Chain k.bufctlNext 0 (k.slabFreelistHead t) free ∧
      ∀ b ∈ free, b / 4096 = t / 4096 ∧ k.bufctlPointer cache t b = b

theorem CacheState.bufctlPointer_eq (h : CacheState Holds k cache size max F frames slabs live)
    (hv : v ∈ slabs) (b : Nat) :
    k.bufctlPointer cache v.addr b = v.frame * 4096 + size * k.mem.load16 (b + 8) := by
  have hs := h.inv.sizeBounds
  have hf := h.inv.frameBounds _ (h.inv.frameMem v hv)
  have hhome : k.slabBufctlAddr v.addr = v.frame * 4096 := h.inv.home v hv
  have hsize : k.cacheSlabSize cache = size := h.inv.sizeWord
  have hindex := k.mem.load16_lt (b + 8)
  have hle : size * k.mem.load16 (b + 8) ≤ 512 * 2 ^ 16 := Nat.mul_le_mul hs.2 hindex.le
  rw [Kernel.bufctlPointer, hhome, hsize, Kernel.bufctlIndex, add64_of_lt (by omega)]

theorem CacheState.home_iff (h : CacheState Holds k cache size max F frames slabs live) :
    FreeListsHome k cache ↔ AtHome k.mem size slabs := by
  constructor
  · rintro ⟨ts, hl, hts⟩
    obtain rfl := hl.unique h.listed
    have hfree : ∀ v ∈ slabs, ∀ b ∈ v.free, b / 4096 = v.addr / 4096 ∧
        k.bufctlPointer cache v.addr b = b := by
      intro v hv
      obtain ⟨free, hchain, hall⟩ := hts v.addr (List.mem_map_of_mem hv)
      obtain rfl := hchain.unique (h.inv.freeList v hv)
      exact hall
    refine ⟨fun v hv b hb => ?_, fun v hv b hb => ?_⟩
    · rw [(hfree v hv b hb).1, (h.inv.addr_bounds hv).2.2]
    · rw [← h.bufctlPointer_eq hv]
      exact (hfree v hv b hb).2
  · intro hh
    refine ⟨_, h.listed, fun t ht => ?_⟩
    obtain ⟨v, hv, rfl⟩ := List.mem_map.mp ht
    refine ⟨v.free, h.inv.freeList v hv, fun b hb => ⟨?_, ?_⟩⟩
    · rw [hh.frame v hv b hb, (h.inv.addr_bounds hv).2.2]
    · rw [h.bufctlPointer_eq hv]
      exact hh.index v hv b hb

namespace SlabState

/-- The free lists of all caches are at home. -/
def Home (s : SlabState ρ) : Prop := ∀ c ∈ s.caches, FreeListsHome s.kernel c.cache

/-- They are in every state of the run. -/
def HomeThroughout (A : PageFrames ρ) (fuel : Nat) (s : SlabState ρ) : List SlabOp → Prop
  | [] => s.Home
  | op :: ops => s.Home ∧ ∀ s', s.exec A fuel op = some s' → HomeThroughout A fuel s' ops

end SlabState

/-- A freed object is credited to the slab it lies in, if to any. -/
def SlabOp.FreesHome (s : SlabState ρ) : SlabOp → Prop
  | .free i pointer flags => SlabOp.Fair s (.free i pointer flags)
  | _ => True

namespace SlabState

/-- The frees of the run are, each in the state it is made in. -/
def FreesHomeRun (A : PageFrames ρ) (fuel : Nat) (s : SlabState ρ) : List SlabOp → Prop
  | [] => True
  | op :: ops => ∀ s', s.exec A fuel op = some s' → op.FreesHome s ∧
      FreesHomeRun A fuel s' ops

def AllHome (s : SlabState ρ) (view : Nat → CacheView) : Prop :=
  ∀ i c, s.caches[i]? = some c → AtHome s.kernel.mem c.size (view i).slabs

variable {s s' : SlabState ρ} {F' own : Set Nat} {view : Nat → CacheView} {i j : Nat}
  {c d : SlabCache} {op : SlabOp}

theorem Good.home_iff (h : s.Good Holds F view) : s.Home ↔ s.AllHome view := by
  constructor
  · intro hh i c hc
    exact (h.cache i c hc).home_iff.mp (hh c (List.mem_of_getElem? hc))
  · intro hh c hc
    obtain ⟨i, hi⟩ := List.mem_iff_getElem?.mp hc
    exact (h.cache i c hi).home_iff.mpr (hh i c hi)

/-- An operation on other frames does not renumber a cache's objects. -/
theorem Good.home_other (h : s.Good Holds F view) (hd : s.caches[j]? = some d)
    (hh : AtHome s.kernel.mem d.size (view j).slabs) (he : Effect s.kernel k' F F' own frames)
    (hdis : Disjoint (ownFrames d.cache (view j).frames) own) :
    AtHome k'.mem d.size (view j).slabs := by
  have hj := h.cache j d hd
  have hs := hj.inv.sizeBounds
  refine hh.congr (fun v hv b hb => he.same.load16 (fun x h1 h2 => ?_))
  have hin := (hj.inv.slot_of_free hv hb).inside (x := x) (by omega) (by omega)
  have hown : x / 4096 ∈ ownFrames d.cache (view j).frames := Set.mem_insert_of_mem _ hin.1
  exact mem_frameBytes.mpr ⟨hj.own_held hown, Set.disjoint_left.mp hdis hown⟩

theorem AllHome.update_iff (hh : s.AllHome view) (h : s.Good Holds F view)
    (hc : s.caches[i]? = some c) {v : CacheView} {live' : List Nat}
    (he : Effect s.kernel k' F F' (ownFrames c.cache (view i).frames) frames) :
    AllHome ⟨k', s.caches.set i { c with live := live' }⟩ (Function.update view i v) ↔
      AtHome k'.mem c.size v.slabs := by
  constructor
  · intro hall
    have hi : i < s.caches.length := (List.getElem?_eq_some_iff.mp hc).1
    have hself := hall i { c with live := live' } (List.getElem?_set_self hi)
    rwa [Function.update_self] at hself
  · intro hv j d hj
    rcases getElem?_set_cases hc hj with ⟨rfl, rfl⟩ | ⟨hji, hd⟩
    · rw [Function.update_self]
      exact hv
    · rw [Function.update_of_ne hji]
      exact h.home_other hd (hh j d hd) he (h.apart j i d c hji hd hc)

theorem AllHome.append (hh : s.AllHome view) (h : s.Good Holds F view) {v : CacheView}
    (he : Effect s.kernel k' F F' ∅ frames) (hv : AtHome k'.mem size v.slabs) :
    AllHome ⟨k', s.caches ++ [⟨cache, size, []⟩]⟩
      (Function.update view s.caches.length v) := by
  intro j d hj
  rcases getElem?_concat_cases hj with ⟨rfl, rfl⟩ | ⟨hji, hd⟩
  · rw [Function.update_self]
    exact hv
  · rw [Function.update_of_ne hji]
    exact h.home_other hd (hh j d hd) he (Set.disjoint_empty _)

/-- What a client writes into its objects does not renumber free ones. -/
theorem AllHome.write (hh : s.AllHome view) (h : s.Good Holds F view) {a : Nat} {value : BitVec 8}
    (ha : InLiveObject s.caches a) :
    AllHome ⟨{ s.kernel with mem := s.kernel.mem.set a value }, s.caches⟩ view := by
  obtain ⟨c, hcm, b, hb, hba, hlt⟩ := ha
  obtain ⟨i, hi⟩ := List.mem_iff_getElem?.mp hcm
  have hslot := (h.cache i c hi).inv.slot_of_live hb
  intro j d hj
  have hs := (h.cache j d hj).inv.sizeBounds
  refine (hh j d hj).congr (fun v hv e he => Mem.load16_congr (fun x h1 h2 => Mem.set_other _ _ ?_))
  rintro rfl
  have heslot := (h.cache j d hj).inv.slot_of_free hv he
  by_cases hij : j = i
  · subst hij
    obtain rfl : d = c := Option.some.inj (hj.symm.trans hi)
    have hne : e ≠ b := by
      rintro rfl
      exact (List.nodup_append.mp (h.cache j d hj).inv.nodup).2.2 e
        (List.mem_flatMap.mpr ⟨v, hv, he⟩) e hb rfl
    have hap := heslot.apart hslot hne
    omega
  · have hin := hslot.inside hba hlt
    have hin' := heslot.inside (x := x) (by omega) (by omega)
    exact Set.disjoint_left.mp (h.apart i j c d (fun he => hij he.symm) hi hj)
      (Set.mem_insert_of_mem _ hin.1) (Set.mem_insert_of_mem _ hin'.1)

/-- A call other than a reap keeps the free lists at home exactly if it frees nothing into
another slab. -/
theorem Good.step_home (hA : A.Lawful U Holds) (h : s.Good Holds F view) (hh : s.AllHome view)
    (hop : ∀ i flags, op ≠ .reap i flags) (he : s.exec A fuel op = some s') :
    ∃ F' view', s'.Good Holds F' view' ∧ (s'.AllHome view' ↔ op.FreesHome s) := by
  cases op with
  | create name slabSize flags =>
    simp only [exec] at he
    split at he
    · simp at he
    · rename_i cache k hok
      obtain rfl := Option.some.inj he
      rcases slabCacheCreate_home hA h.holds hok with
        ⟨rfl, hF, heff⟩ | ⟨max', F', frames', slabs', hst, heff, hhome⟩
      · refine ⟨F, view,
          ⟨hF, fun i c hc => (h.cache i c hc).other heff hF (Set.disjoint_empty _),
          h.apart⟩, fun _ => trivial, fun _ i c hc => ?_⟩
        exact h.home_other hc (hh i c hc) heff (Set.disjoint_empty _)
      · rw [if_neg hst.inv.cacheBounds.1]
        exact ⟨F', _, h.append (v := ⟨max', frames', slabs'⟩) hst heff, fun _ => trivial,
          fun _ => hh.append h heff hhome⟩
  | grow i count flags =>
    obtain ⟨c, hc, he⟩ := Option.bind_eq_some_iff.mp he
    split at he
    · simp at he
    · rename_i k hok
      obtain rfl := Option.some.inj he
      obtain ⟨max', F', frames', slabs', hst, heff, hhome⟩ :=
        slabCacheGrow_home hA (h.cache i c hc) (hh i c hc) hok
      rw [← set_same_live hc]
      exact ⟨F', _, h.update (v := ⟨max', frames', slabs'⟩) hc hst heff, fun _ => trivial,
        fun _ => (hh.update_iff h hc heff).mpr hhome⟩
  | alloc i flags =>
    obtain ⟨c, hc, he⟩ := Option.bind_eq_some_iff.mp he
    split at he
    · simp at he
    · rename_i p k hok
      obtain rfl := Option.some.inj he
      obtain ⟨max', F', frames', slabs', hst, heff, hhome⟩ :=
        slabCacheAlloc_home hA (h.cache i c hc) (hh i c hc) hok
      exact ⟨F', _, h.update (v := ⟨max', frames', slabs'⟩) hc hst heff, fun _ => trivial,
        fun _ => (hh.update_iff h hc heff).mpr hhome⟩
  | free i pointer flags =>
    obtain ⟨c, hc, he⟩ := Option.bind_eq_some_iff.mp he
    split_ifs at he with hp
    split at he
    · simp at he
    · rename_i k hok
      obtain rfl := Option.some.inj he
      have hci := h.cache i c hc
      obtain ⟨slabs', hst, heff, hiff⟩ := slabCacheFree_home_iff hA hci (hh i c hc) hp hok
      refine ⟨F, _, h.update (v := ⟨(view i).max, (view i).frames, slabs'⟩) hc hst heff, ?_⟩
      rw [hh.update_iff h hc heff, hiff, ← hci.freeFair]
      constructor
      · intro hf d slabs hd hl t ht
        obtain rfl : d = c := Option.some.inj (hd.symm.trans hc)
        obtain rfl := hl.unique hci.listed
        exact hf t ht
      · exact fun hf => hf c _ hc hci.listed
  | reap i flags => exact absurd rfl (hop i flags)
  | write a value =>
    obtain ⟨hgood, -⟩ := h.write hA he
    simp only [exec] at he
    split_ifs at he with hlive
    obtain rfl := Option.some.inj he
    exact ⟨F, view, hgood, fun _ => trivial, fun _ => hh.write h hlive⟩

theorem Good.run_home_iff (hA : A.Lawful U Holds) (h : s.Good Holds F view)
    (hh : s.AllHome view) {ops : List SlabOp} (hops : ∀ i flags, SlabOp.reap i flags ∉ ops) :
    s.HomeThroughout A fuel ops ↔ s.FreesHomeRun A fuel ops := by
  induction ops generalizing s F view with
  | nil => exact iff_of_true (h.home_iff.mpr hh) trivial
  | cons op ops ih =>
    have hop : ∀ i flags, op ≠ .reap i flags := fun i flags he => hops i flags (by simp [he])
    have hrest : ∀ i flags, SlabOp.reap i flags ∉ ops :=
      fun i flags hm => hops i flags (List.mem_cons_of_mem _ hm)
    constructor
    · rintro ⟨-, hall⟩ s1 he
      obtain ⟨F1, view1, h1, hiff⟩ := h.step_home hA hh hop he
      have hthrough := hall s1 he
      have hhome : s1.Home := by
        cases ops with
        | nil => exact hthrough
        | cons => exact hthrough.1
      have hall1 := h1.home_iff.mp hhome
      exact ⟨hiff.mp hall1, (ih h1 hall1 hrest).mp hthrough⟩
    · intro hfrees
      refine ⟨h.home_iff.mpr hh, fun s1 he => ?_⟩
      obtain ⟨F1, view1, h1, hiff⟩ := h.step_home hA hh hop he
      obtain ⟨hfree, hrun⟩ := hfrees s1 he
      exact (ih h1 (hiff.mpr hfree) hrest).mpr hrun

end SlabState

/-- In every run of `slab_cache_create`, `grow`, `alloc` and `free` with any flags, in which
clients free only live objects and write into them: all free lists stay at home, with the right
indexes, exactly if every freed object is credited to the slab it lies in. -/
theorem slab_free_lists_home_iff (A : PageFrames ρ) (U : Set Nat)
    (Holds : Mem → ρ → Set Nat → Prop) (hA : A.Lawful U Holds) (k : Kernel ρ) (F : Set Nat)
    (hF : Holds k.mem k.frames F) (fuel : Nat) (ops : List SlabOp)
    (hops : ∀ i flags, SlabOp.reap i flags ∉ ops) :
    SlabState.HomeThroughout A fuel ⟨k, []⟩ ops ↔
      SlabState.FreesHomeRun A fuel ⟨k, []⟩ ops :=
  (SlabState.Good.none hF (fun _ => ⟨0, ∅, []⟩)).1.run_home_iff hA
    (fun i c hc => by simp at hc)
    hops

theorem SlabState.FairRun.freesHome {s : SlabState ρ} {ops : List SlabOp}
    (h : s.FairRun A fuel ops) : s.FreesHomeRun A fuel ops := by
  induction ops generalizing s with
  | nil => trivial
  | cons op ops ih =>
    refine fun s1 he => ⟨?_, ih (h.2 s1 he)⟩
    cases op with
    | free i pointer flags => exact h.1
    | _ => trivial

/-- Two slabs; an object of the first one is freed while that one is the first with room. -/
theorem slab_free_lists_home_iff_fairOps :
    SlabState.HomeThroughout pmmFrames 5 ⟨bootKernel smallMap, []⟩ fairOps := by
  obtain ⟨U, Holds, hA, hF⟩ := bootKernel_lawful smallMap_ok smallMap_frames_le (by decide)
  exact (slab_free_lists_home_iff pmmFrames U Holds hA _ ∅ hF 5 fairOps (by simp [fairOps])).mpr
    fairOps_fair.freesHome

/-- Eight objects of a cache of two slabs are taken, then the one of the second slab is given
back. -/
def crossOps : List SlabOp :=
  [.create 0 512 noFlags, .grow 0 1 noFlags] ++ List.replicate 8 (.alloc 0 noFlags) ++
    [.free 0 0x4000 noFlags]

/-- Slot 0x4000 of the slab in frame 4 ends up on the free list of the slab in frame 3. -/
theorem slab_free_list_leaves_home : ∃ s,
    SlabState.run pmmFrames 5 ⟨bootKernel smallMap, []⟩ crossOps = some s ∧
    s.caches = [⟨0x2000, 512, (slotList 512 3 0 7).reverse⟩] ∧
    s.kernel.slabFreelistHead 0x3fd8 = 0x4000 ∧ ¬ s.Home := by
  obtain ⟨U, Holds, ⟨k, caches⟩, F, frames, hA, hs, rfl, hst⟩ := twoSlabs_run
  obtain ⟨m1, hrun1, h1⟩ := run_allocs noFlags hA (by decide : 1 ≤ 5) hst
  obtain ⟨m2, hok2, h2⟩ := slabCacheAlloc_second noFlags hA h1 rfl
    (show slotList 512 4 0 7 = 0x4000 :: slotList 512 4 1 7 by decide) (by decide : 2 ≤ 5)
  obtain ⟨m3, hok3, h3, -⟩ := slabCacheFree_first (p := 0x4000) noFlags hA h2 (by simp)
    (by decide : ([] : List Nat).length < 7) (by decide : 1 ≤ 5)
  have hlive : (0x4000 :: ((slotList 512 3 0 7).reverse ++ [])).erase 0x4000 =
      (slotList 512 3 0 7).reverse := by decide
  rw [hlive] at h3
  have hops : crossOps = [.create 0 512 noFlags, .grow 0 1 noFlags] ++
      (List.replicate (slotList 512 3 0 7).length (.alloc 0 noFlags) ++
        [.alloc 0 noFlags, .free 0 0x4000 noFlags]) := rfl
  refine ⟨⟨{ k with mem := m3 }, [⟨0x2000, 512, (slotList 512 3 0 7).reverse⟩]⟩, ?_, rfl,
    (h3.inv.freeList ⟨3, [0x4000]⟩ (by simp)).1, fun hh => ?_⟩
  · rw [hops, SlabState.run_append, hs, Option.bind_some, SlabState.run_append, hrun1,
      Option.bind_some, SlabState.run]
    simp only [SlabState.exec, List.getElem?_cons_zero, Option.bind_eq_bind, Option.bind_some, hok2,
      if_neg (by decide : ¬ 0x4000 = 0), List.set_cons_zero, SlabState.run, List.mem_cons, true_or,
      if_true, hok3, hlive]
  · have hhome := h3.home_iff.mp (hh ⟨0x2000, 512, (slotList 512 3 0 7).reverse⟩ (by simp))
    exact absurd (hhome.frame ⟨3, [0x4000]⟩ (by simp) 0x4000 (by simp)) (by decide)

end ApoptOS
