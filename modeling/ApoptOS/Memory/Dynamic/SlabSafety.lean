import ApoptOS.Memory.Dynamic.SlabRun
import ApoptOS.Memory.Physical.PmmCounted
import Mathlib.Algebra.Order.Interval.Set.SuccPred

namespace ApoptOS

open Framework

variable {ρ : Type} {A : PageFrames ρ} {U : Set Nat} {Holds : Mem → ρ → Set Nat → Prop}

/-- What clients of a cache rely on, read off memory: `slabs` are the slabs on
its list with the free list of each. The last 40 bytes of the frame of a slab, on
the list or not, are its `slab_t`. -/
structure CacheSafe (k : Kernel ρ) (c : SlabCache) (slabs : List SlabView) : Prop where
  listed : ListedSlabs k c.cache (slabs.map SlabView.addr)
  freeList : ∀ v ∈ slabs, Chain k.bufctlNext 0 (k.slabFreelistHead v.addr) v.free
  count : ∀ v ∈ slabs, k.slabBufctlCount v.addr = v.free.length
  acyclic : ∀ v ∈ slabs, v.free.Nodup
  freeApart : slabs.Pairwise (fun v w => v.free.Disjoint w.free)
  notFree : ∀ b ∈ c.live, ∀ v ∈ slabs, b ∉ v.free
  liveApart : c.live.Pairwise (fun b d => b + c.size ≤ d ∨ d + c.size ≤ b)
  obtained : ∀ b ∈ c.live, ∃ f, FrameCall.allocz 1 (f * 4096) ∈ k.calls ∧
    f * 4096 ≤ b ∧ b + c.size ≤ f * 4096 + 4056
  trailer : ∀ b ∈ c.live, ∀ v ∈ slabs, b + c.size ≤ v.addr ∨ v.addr + slabSizeof ≤ b

theorem CacheState.safe {k : Kernel ρ} {c : SlabCache} {max : Nat} {F frames : Set Nat}
    {slabs : List SlabView}
    (h : CacheState Holds k c.cache c.size max F frames slabs c.live) : CacheSafe k c slabs := by
  have hs := h.inv.sizeBounds
  have hnd := List.nodup_append.mp h.inv.nodup
  refine
    { listed := h.listed
      freeList := h.inv.freeList
      count := h.inv.count
      acyclic := fun v hv => (h.inv.freeList v hv).nodup
      freeApart := (List.nodup_flatMap.mp hnd.1).2
      notFree := ?_
      liveApart := ?_
      obtained := ?_
      trailer := ?_ }
  · intro b hb v hv hbv
    exact hnd.2.2 b (List.mem_flatMap.mpr ⟨v, hv, hbv⟩) b hb rfl
  · refine hnd.2.1.imp_of_mem (fun {b d} hb hd hne => ?_)
    exact (h.inv.slot_of_live hb).apart (h.inv.slot_of_live hd) hne
  · intro b hb
    obtain ⟨f, hf, j, rfl, hj⟩ := h.inv.slot_of_live hb
    exact ⟨f, h.obtained f hf, by omega, by omega⟩
  · intro b hb v hv
    obtain ⟨f, hf, j, rfl, hj⟩ := h.inv.slot_of_live hb
    unfold SlabView.addr slabSizeof
    omega

namespace SlabState

variable {fuel : Nat} {s s' : SlabState ρ} {F : Set Nat} {view : Nat → CacheView}

/-- The calls of the run are fair, each in the state it is made in. -/
def FairRun (A : PageFrames ρ) (fuel : Nat) (s : SlabState ρ) : List SlabOp → Prop
  | [] => True
  | op :: ops => op.Fair s ∧ ∀ s', s.exec A fuel op = some s' → FairRun A fuel s' ops

theorem Good.run (hA : A.Lawful U Holds) (h : s.Good Holds F view) {ops : List SlabOp}
    (hops : ∀ i flags, SlabOp.reap i flags ∉ ops) (hr : s.run A fuel ops = some s') :
    ∃ F' view', s'.Good Holds F' view' := by
  induction ops generalizing s F view with
  | nil =>
    have hs : s = s' := Option.some.inj hr
    exact ⟨F, view, hs ▸ h⟩
  | cons op ops ih =>
    obtain ⟨s1, he, hr1⟩ := Option.bind_eq_some_iff.mp hr
    obtain ⟨F1, view1, h1, _⟩ := h.step hA (fun i flags hop => absurd (by simp [hop])
      (hops i flags)) he
    exact ih h1 (fun i flags hm => hops i flags (List.mem_cons_of_mem _ hm)) hr1

theorem Good.run_accounted (hA : A.Lawful U Holds) (h : s.Good Holds F view)
    (ha : s.AllAccounted view) {ops : List SlabOp} (hfair : s.FairRun A fuel ops)
    (hr : s.run A fuel ops = some s') :
    ∃ F' view', s'.Good Holds F' view' ∧ s'.AllAccounted view' := by
  induction ops generalizing s F view with
  | nil =>
    have hs : s = s' := Option.some.inj hr
    subst hs
    exact ⟨F, view, h, ha⟩
  | cons op ops ih =>
    obtain ⟨s1, he, hr1⟩ := Option.bind_eq_some_iff.mp hr
    obtain ⟨F1, view1, h1, ha1⟩ := h.step hA (fun _ _ _ => ha) he
    exact ih h1 (ha1 ha hfair.1) (hfair.2 s1 he) hr1

/-- Before any cache is made. -/
theorem Good.none {k : Kernel ρ} (h : Holds k.mem k.frames F) (view : Nat → CacheView) :
    Good Holds ⟨k, []⟩ F view ∧ AllAccounted ⟨k, []⟩ view :=
  ⟨⟨h, by simp, by simp⟩, fun i c hc => by simp at hc⟩

end SlabState

/-- No object is handed out twice: in every state reached without reaping,
every cache is safe, and objects of different caches do not overlap. -/
theorem slab_objects_handed_out_once (A : PageFrames ρ) (U : Set Nat)
    (Holds : Mem → ρ → Set Nat → Prop) (hA : A.Lawful U Holds) (k : Kernel ρ) (F : Set Nat)
    (hF : Holds k.mem k.frames F) (fuel : Nat) (ops : List SlabOp)
    (hops : ∀ i flags, SlabOp.reap i flags ∉ ops) (s : SlabState ρ)
    (hrun : SlabState.run A fuel ⟨k, []⟩ ops = some s) :
    (∀ c ∈ s.caches, ∃ slabs, CacheSafe s.kernel c slabs) ∧
    ∀ (i j : Nat) (c d : SlabCache), i ≠ j → s.caches[i]? = some c →
      s.caches[j]? = some d →
      ∀ b ∈ c.live, ∀ e ∈ d.live, b + c.size ≤ e ∨ e + d.size ≤ b := by
  obtain ⟨F', view, hgood⟩ :=
    (SlabState.Good.none hF (fun _ => ⟨0, ∅, []⟩)).1.run hA hops hrun
  refine ⟨fun c hc => ?_, fun i j c d hij hi hj b hb e he => ?_⟩
  · obtain ⟨i, hi⟩ := List.mem_iff_getElem?.mp hc
    exact ⟨(view i).slabs, (hgood.cache i c hi).safe⟩
  · by_contra hcon
    have hs := (hgood.cache i c hi).inv.sizeBounds
    have hs' := (hgood.cache j d hj).inv.sizeBounds
    -- the later of the two starts would lie in both objects
    rcases Nat.le_total b e with hbe | hbe
    · exact hgood.live_apart hij hi hj hb he (x := e) (by omega) (by omega)
    · exact hgood.live_apart hij hi hj hb he (x := b) (by omega) (by omega)

/-- Two caches, three objects, one of them freed and one written to. -/
theorem slab_objects_handed_out_once_smallMap : ∃ s,
    SlabState.run pmmFrames 5 ⟨bootKernel smallMap, []⟩
      [.create 0 512 ⟨true, true, true⟩, .create 0 256 ⟨false, false, false⟩,
        .alloc 0 ⟨true, true, false⟩, .alloc 1 ⟨false, false, false⟩,
        .alloc 0 ⟨true, false, false⟩, .write 0x3200 7#8,
        .free 0 0x3400 ⟨true, false, false⟩] =
      some s ∧
    s.caches = [⟨0x2000, 512, [0x3200]⟩, ⟨0x4000, 256, [0x5000]⟩] ∧
    ∀ c ∈ s.caches, ∃ slabs, CacheSafe s.kernel c slabs := by
  have hcaches : (SlabState.run pmmFrames 5 ⟨bootKernel smallMap, []⟩
      [.create 0 512 ⟨true, true, true⟩, .create 0 256 ⟨false, false, false⟩,
        .alloc 0 ⟨true, true, false⟩, .alloc 1 ⟨false, false, false⟩,
        .alloc 0 ⟨true, false, false⟩, .write 0x3200 7#8,
        .free 0 0x3400 ⟨true, false, false⟩]).map SlabState.caches =
      some [⟨0x2000, 512, [0x3200]⟩, ⟨0x4000, 256, [0x5000]⟩] := by decide +kernel
  obtain ⟨s, hs, hc⟩ := Option.map_eq_some_iff.mp hcaches
  obtain ⟨U, Holds, hA, hF⟩ := bootKernel_lawful smallMap_ok smallMap_frames_le (by decide)
  exact ⟨s, hs, hc,
    (slab_objects_handed_out_once pmmFrames U Holds hA _ ∅ hF 5 _ (by simp) s hs).1⟩

/-- A call that took the kernel from `k` to `k'` gave back no frame with a byte
of a live object in it. -/
def GaveBackUnused (k k' : Kernel ρ) (caches : List SlabCache) : Prop :=
  ∃ made, k'.calls = made ++ k.calls ∧ ∀ p n, FrameCall.free p n ∈ made →
    ∀ x, InLiveObject caches x → ¬ (p / 4096 ≤ x / 4096 ∧ x / 4096 < p / 4096 + n)

theorem FreedUnused.gaveBackUnused {k' : Kernel ρ} {s : SlabState ρ} {F own : Set Nat}
    {view : Nat → CacheView} (hgood : s.Good Holds F view) {i : Nat} {c : SlabCache}
    (hi : s.caches[i]? = some c) (hown : own ⊆ ownFrames c.cache (view i).frames)
    (h : FreedUnused s.kernel k' own c.live) : GaveBackUnused s.kernel k' s.caches := by
  obtain ⟨freed, hcalls, hfreed⟩ := h
  refine ⟨freed, hcalls, fun p n hp x hx hpx => ?_⟩
  obtain ⟨q, hq, hqown, hlive⟩ := hfreed _ hp
  obtain ⟨rfl, rfl⟩ := FrameCall.free.inj hq
  have hxp : x / 4096 = p / 4096 := by omega
  obtain ⟨d, hd, b, hb, hbx⟩ := hx
  obtain ⟨j, hj⟩ := List.mem_iff_getElem?.mp hd
  have hin := ((hgood.cache j d hj).inv.slot_of_live hb).inside hbx.1 hbx.2
  by_cases hji : j = i
  · subst hji
    obtain rfl : d = c := Option.some.inj (hj.symm.trans hi)
    exact hlive b hb (hin.2.2.symm.trans hxp)
  · refine Set.disjoint_left.mp (hgood.apart j i d c hji hj hi) ?_ (hown hqown)
    exact hxp ▸ Set.mem_insert_of_mem _ hin.1

/-- In every state reached by fair calls, `slab_cache_reap` and a
`slab_cache_destroy` that runs to completion give back only frames in which no
object is live. -/
theorem slab_reap_frees_unused (A : PageFrames ρ) (U : Set Nat)
    (Holds : Mem → ρ → Set Nat → Prop) (hA : A.Lawful U Holds) (k : Kernel ρ) (F : Set Nat)
    (hF : Holds k.mem k.frames F) (fuel : Nat) (ops : List SlabOp)
    (hfair : SlabState.FairRun A fuel ⟨k, []⟩ ops) (s : SlabState ρ)
    (hrun : SlabState.run A fuel ⟨k, []⟩ ops = some s) :
    ∀ c ∈ s.caches, ∀ fuel' flags k',
      slabCacheReap A fuel' s.kernel c.cache flags = .ok k' ∨
        slabCacheDestroy A fuel' s.kernel c.cache flags = .ok (true, k') →
      GaveBackUnused s.kernel k' s.caches := by
  obtain ⟨h0, ha0⟩ := SlabState.Good.none hF (fun _ => ⟨0, ∅, []⟩)
  obtain ⟨F', view, hgood, hacc⟩ := h0.run_accounted hA ha0 hfair hrun
  intro c hc fuel' flags k' hok
  obtain ⟨i, hi⟩ := List.mem_iff_getElem?.mp hc
  have hci := hgood.cache i c hi
  rcases hok with hok | hok
  · obtain ⟨_, _, _, _, _, _, hfreed⟩ := slabCacheReap_spec hA hci (hacc i c hi) hok
    exact hfreed.gaveBackUnused hgood hi (Set.subset_insert _ _)
  · exact (slabCacheDestroy_spec hA hci (hacc i c hi) hok).gaveBackUnused hgood hi
      (fun _ hx => hx)

/-- Two slabs of 512-byte objects, one object live and another one freed. -/
def fairOps : List SlabOp :=
  [.create 0 512 ⟨true, false, true⟩, .grow 0 1 ⟨true, false, false⟩,
    .alloc 0 ⟨true, false, false⟩, .alloc 0 ⟨true, false, false⟩,
    .free 0 0x3400 ⟨true, false, false⟩]

theorem fairOps_fair : SlabState.FairRun pmmFrames 5 ⟨bootKernel smallMap, []⟩ fairOps := by
  have hlist : ((SlabState.run pmmFrames 5 ⟨bootKernel smallMap, []⟩ (fairOps.take 4)).all
      (fun s => decide (s.caches = [⟨0x2000, 512, [0x3400, 0x3200]⟩] ∧
        Chain s.kernel.slabNext 0 (s.kernel.cacheSlabsHead 0x2000) [0x3fd8, 0x4fd8]) &&
        decide (s.kernel.slabBufctlCount 0x3fd8 < s.kernel.cacheBufctlCountMax 0x2000))) =
          true := by
    decide +kernel
  refine ⟨trivial, fun s1 h1 => ⟨fun _ _ hna => by simp at hna, fun s2 h2 =>
    ⟨fun _ _ _ _ hauto => by simp at hauto, fun s3 h3 => ⟨fun _ _ _ _ hauto => by simp at hauto,
      fun s4 h4 => ⟨?_, fun _ _ => trivial⟩⟩⟩⟩⟩
  have hs4 : SlabState.run pmmFrames 5 ⟨bootKernel smallMap, []⟩ (fairOps.take 4) =
      some s4 := by
    simp only [fairOps, List.take, SlabState.run, h1, h2, h3, h4, Option.bind_some]
  rw [hs4] at hlist
  simp only [Option.all_some, Bool.and_eq_true, decide_eq_true_eq] at hlist
  obtain ⟨⟨hcaches, hchain⟩, hroom⟩ := hlist
  intro c slabs hc hl t ht
  rw [hcaches] at hc
  obtain rfl : (⟨0x2000, 512, [0x3400, 0x3200]⟩ : SlabCache) = c := Option.some.inj hc
  rw [hl.unique hchain, List.find?_cons_of_pos (by simpa using hroom)] at ht
  rw [← Option.some.inj ht]

/-- In that run, reaping gives back the second slab and keeps the first. -/
theorem slab_reap_frees_unused_fairOps : ∃ s k',
    SlabState.run pmmFrames 5 ⟨bootKernel smallMap, []⟩ fairOps = some s ∧
    s.caches = [⟨0x2000, 512, [0x3200]⟩] ∧
    slabCacheReap pmmFrames 5 s.kernel 0x2000 ⟨true, false, false⟩ = .ok k' ∧
    k'.calls.head? = some (.free 0x4fd8 1) ∧ GaveBackUnused s.kernel k' s.caches := by
  have heval : ((SlabState.run pmmFrames 5 ⟨bootKernel smallMap, []⟩ fairOps).bind (fun s =>
      match slabCacheReap pmmFrames 5 s.kernel 0x2000 ⟨true, false, false⟩ with
      | .error _ => none
      | .ok k' => some (s.caches, k'.calls.head?))) =
      some ([⟨0x2000, 512, [0x3200]⟩], some (.free 0x4fd8 1)) := by decide +kernel
  obtain ⟨s, hs, hreap⟩ := Option.bind_eq_some_iff.mp heval
  split at hreap
  · simp at hreap
  · rename_i k' hk'
    obtain ⟨hcaches, hcalls⟩ := Prod.mk.inj (Option.some.inj hreap)
    obtain ⟨U, Holds, hA, hF⟩ := bootKernel_lawful smallMap_ok smallMap_frames_le (by decide)
    refine ⟨s, k', hs, hcaches, hk', hcalls, ?_⟩
    exact slab_reap_frees_unused pmmFrames U Holds hA _ ∅ hF 5 fairOps fairOps_fair s hs
      ⟨0x2000, 512, [0x3200]⟩ (by rw [hcaches]; simp) 5 _ k' (Or.inl hk')

/-- A second slab grown with `SLAB_NO_ALIGN` lowers the capacity of the cache
below that of the first one: with one object of the first slab live, the slab
passes for unused and its frame 3 is given back. -/
theorem slab_reap_frees_live_object : ∃ s k',
    SlabState.run pmmFrames 5 ⟨bootKernel smallMap, []⟩
      [.create 0 512 ⟨true, false, true⟩, .grow 0 1 ⟨true, false, true⟩,
        .alloc 0 ⟨true, false, false⟩] = some s ∧
    s.caches = [⟨0x2000, 512, [0x3200]⟩] ∧
    slabCacheReap pmmFrames 5 s.kernel 0x2000 ⟨true, false, false⟩ = .ok k' ∧
    ¬ GaveBackUnused s.kernel k' s.caches := by
  have heval : ((SlabState.run pmmFrames 5 ⟨bootKernel smallMap, []⟩
      [.create 0 512 ⟨true, false, true⟩, .grow 0 1 ⟨true, false, true⟩,
        .alloc 0 ⟨true, false, false⟩]).bind (fun s =>
      match slabCacheReap pmmFrames 5 s.kernel 0x2000 ⟨true, false, false⟩ with
      | .error _ => none
      | .ok k' => some (s.caches, s.kernel.calls, k'.calls))) =
      some ([⟨0x2000, 512, [0x3200]⟩],
        [.allocz 1 0x4000, .allocz 1 0x3000, .allocz 1 0x2000],
        [.free 0x4fd8 1, .free 0x3fd8 1, .allocz 1 0x4000, .allocz 1 0x3000,
          .allocz 1 0x2000]) := by
    decide +kernel
  obtain ⟨s, hs, hreap⟩ := Option.bind_eq_some_iff.mp heval
  split at hreap
  · simp at hreap
  · rename_i k' hk'
    obtain ⟨hcaches, hrest⟩ := Prod.mk.inj (Option.some.inj hreap)
    obtain ⟨hbefore, hafter⟩ := Prod.mk.inj hrest
    refine ⟨s, k', hs, hcaches, hk', ?_⟩
    rintro ⟨made, hmade, hunused⟩
    rw [hbefore, hafter] at hmade
    have hmem : FrameCall.free 0x3fd8 1 ∈ made := by
      have hall : FrameCall.free 0x3fd8 1 ∈ made ++ [FrameCall.allocz 1 0x4000,
          .allocz 1 0x3000, .allocz 1 0x2000] := by
        rw [← hmade]
        simp
      simpa using hall
    refine hunused _ _ hmem 0x3200 ?_ (by decide)
    rw [hcaches]
    exact ⟨_, List.mem_singleton.mpr rfl, 0x3200, by simp, by decide, by decide⟩

end ApoptOS
