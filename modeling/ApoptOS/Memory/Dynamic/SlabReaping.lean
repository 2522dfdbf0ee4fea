import ApoptOS.Memory.Dynamic.SlabSafety

namespace ApoptOS

open Framework

variable {ρ : Type} {A : PageFrames ρ} {U F : Set Nat} {Holds : Mem → ρ → Set Nat → Prop}

/-- An object's place: managed memory outside the cache's page, in front of where slab
structures are. -/
def InFront (U : Set Nat) (cache b : Nat) : Prop :=
  b / 4096 ∈ U ∧ b / 4096 ≠ cache / 4096 ∧ b % 4096 + 8 ≤ 4056

/-- `k'` is `k` after reaping: the slabs with a count other than the maximum are left, in
order and unchanged, and the frame of each other slab was given back once. -/
structure ReapFilters (U : Set Nat) (k k' : Kernel ρ) (cache : Nat) (slabs : List Nat) : Prop where
  listed : ListedSlabs k' cache
    (slabs.filter (fun t => k.slabBufctlCount t ≠ k.cacheBufctlCountMax cache))
  max : k'.cacheBufctlCountMax cache = k.cacheBufctlCountMax cache
  count : ∀ t ∈ slabs, k'.slabBufctlCount t = k.slabBufctlCount t
  freelistHead : ∀ t ∈ slabs, k'.slabFreelistHead t = k.slabFreelistHead t
  freeList : ∀ t ∈ slabs, ∀ free : List Nat, (∀ b ∈ free, InFront U cache b) →
    Chain k.bufctlNext 0 (k.slabFreelistHead t) free →
    Chain k'.bufctlNext 0 (k'.slabFreelistHead t) free
  calls : k'.calls =
    ((slabs.filter (fun t => k.slabBufctlCount t = k.cacheBufctlCountMax cache)).map
    (FrameCall.free · 1)).reverse ++ k.calls

/-- For every acyclic list of slabs in distinct frames, with any counts: `slab_cache_reap`
returns after one pass over the list and filters it. -/
theorem slab_reap_filters (A : PageFrames ρ) (U : Set Nat)
    (Holds : Mem → ρ → Set Nat → Prop)
    (hA : A.Lawful U Holds) (k : Kernel ρ) (F : Set Nat) (hF : Holds k.mem k.frames F)
    (cache : Nat) (slabs : List Nat) (h : SlabsIn F k.mem cache slabs) (flags : SlabFlags) :
    ∃ k', (∀ fuel, slabs.length < fuel → slabCacheReap A fuel k cache flags = .ok k') ∧
      ReapFilters U k k' cache slabs := by
  obtain ⟨k', prev, hrun, hf, -, hcalls⟩ := slabCacheReap_filter flags hA hF h
  have hal := h.cacheAligned
  have hhead : ∀ t ∈ slabs, k'.slabFreelistHead t = k.slabFreelistHead t :=
    fun t ht => hf.field ht (by omega)
  refine ⟨k', fun fuel hfuel => by rw [hrun, if_pos hfuel], ?_, hf.maxWord,
    fun t ht => hf.field ht (by omega), hhead, fun t ht free hfree hchain => ?_, hcalls⟩
  · have hlist := hf.listed
    rw [List.append_nil] at hlist
    exact hlist
  · rw [hhead t ht]
    refine hchain.congr (fun b hb => ?_)
    obtain ⟨hbU, hbc, hb8⟩ := hfree b hb
    apply Mem.load64_congr
    intro x h1 h2
    have hxb : x / 4096 = b / 4096 := by omega
    refine hf.same x (hxb ▸ hbU) (by omega) (fun u hu => ?_)
    obtain ⟨hum, -, -⟩ := h.slab u hu
    omega

/-- The first of two slabs has a live object and stays, the second one is given back. -/
theorem slab_reap_filters_fairOps : ∃ U s k',
    SlabState.run pmmFrames 5 ⟨bootKernel smallMap, []⟩ fairOps = some s ∧
    slabCacheReap pmmFrames 3 s.kernel 0x2000 ⟨true, false, false⟩ = .ok k' ∧
    ListedSlabs s.kernel 0x2000 [0x3fd8, 0x4fd8] ∧ ListedSlabs k' 0x2000 [0x3fd8] ∧
    ReapFilters U s.kernel k' 0x2000 [0x3fd8, 0x4fd8] := by
  have heval : ((SlabState.run pmmFrames 5 ⟨bootKernel smallMap, []⟩ fairOps).all (fun s =>
      decide (s.caches.map SlabCache.cache = [0x2000] ∧
        Chain s.kernel.slabNext 0 (s.kernel.cacheSlabsHead 0x2000) [0x3fd8, 0x4fd8]) &&
      decide (s.kernel.slabBufctlCount 0x3fd8 ≠ s.kernel.cacheBufctlCountMax 0x2000) &&
      decide (s.kernel.slabBufctlCount 0x4fd8 = s.kernel.cacheBufctlCountMax 0x2000))) = true ∧
      (SlabState.run pmmFrames 5 ⟨bootKernel smallMap, []⟩ fairOps).isSome = true := by
    decide +kernel
  obtain ⟨hall, hsome⟩ := heval
  obtain ⟨s, hs⟩ := Option.isSome_iff_exists.mp hsome
  rw [hs] at hall
  simp only [Option.all_some, Bool.and_eq_true, decide_eq_true_eq] at hall
  obtain ⟨⟨⟨hcaches, hchain⟩, hfirst⟩, hsecond⟩ := hall
  obtain ⟨U, Holds, hA, hF⟩ := bootKernel_lawful smallMap_ok smallMap_frames_le (by decide)
  obtain ⟨h0, ha0⟩ := SlabState.Good.none hF (fun _ => ⟨0, ∅, []⟩)
  obtain ⟨F', view, hgood, -⟩ := h0.run_accounted hA ha0 fairOps_fair hs
  obtain ⟨c, hc, hcc⟩ : ∃ c, s.caches[0]? = some c ∧ c.cache = 0x2000 := by
    obtain ⟨c, rest, hcs, hc, -⟩ := List.map_eq_cons_iff.mp hcaches
    exact ⟨c, by rw [hcs]; rfl, hc⟩
  have hst := hgood.cache 0 c hc
  have hslabs := hst.slabsIn
  rw [hcc] at hslabs
  rw [hslabs.listed.unique hchain] at hslabs
  obtain ⟨k', hrun, hk'⟩ := slab_reap_filters pmmFrames U Holds hA s.kernel F' hst.holds 0x2000
    [0x3fd8, 0x4fd8] hslabs ⟨true, false, false⟩
  refine ⟨U, s, k', hs, hrun 3 (by decide), hchain, ?_, hk'⟩
  have hlisted := hk'.listed
  rwa [List.filter_cons_of_pos (by simpa using hfirst),
    List.filter_cons_of_neg (by simpa using hsecond), List.filter_nil] at hlisted

/-- A reap is clean if no frame it is about to give back holds a live object, or a free
object of a slab that stays. Every other call is. -/
def SlabOp.Clean (s : SlabState ρ) : SlabOp → Prop
  | .reap i _ => ∀ c slabs, s.caches[i]? = some c → ListedSlabs s.kernel c.cache slabs →
      ∀ t ∈ slabs, s.kernel.slabBufctlCount t = s.kernel.cacheBufctlCountMax c.cache →
        (∀ b ∈ c.live, b / 4096 ≠ t / 4096) ∧
        ∀ u ∈ slabs, s.kernel.slabBufctlCount u ≠ s.kernel.cacheBufctlCountMax c.cache →
          ∀ free : List Nat, Chain s.kernel.bufctlNext 0 (s.kernel.slabFreelistHead u) free →
            ∀ b ∈ free, b / 4096 ≠ t / 4096
  | _ => True

/-- The reaps of the run are clean, each in the state it is made in. -/
def SlabState.CleanRun (A : PageFrames ρ) (fuel : Nat) (s : SlabState ρ) : List SlabOp → Prop
  | [] => True
  | op :: ops => op.Clean s ∧ ∀ s', s.exec A fuel op = some s' → CleanRun A fuel s' ops

theorem CacheState.reapClean {k : Kernel ρ} {cache size max : Nat} {frames : Set Nat}
    {slabs : List SlabView} {live : List Nat}
    (h : CacheState Holds k cache size max F frames slabs live)
    (hc : ∀ t ∈ slabs.map SlabView.addr, k.slabBufctlCount t = k.cacheBufctlCountMax cache →
      (∀ b ∈ live, b / 4096 ≠ t / 4096) ∧
      ∀ u ∈ slabs.map SlabView.addr, k.slabBufctlCount u ≠ k.cacheBufctlCountMax cache →
        ∀ free : List Nat, Chain k.bufctlNext 0 (k.slabFreelistHead u) free →
          ∀ b ∈ free, b / 4096 ≠ t / 4096) :
    ReapClean max slabs live := by
  have hcount : ∀ v ∈ slabs, k.slabBufctlCount v.addr = v.free.length := h.inv.count
  have hmax : k.cacheBufctlCountMax cache = max := h.inv.maxWord
  rw [hmax] at hc
  refine ⟨fun v hv hlen => ?_, fun v hv hlen w hw hne b hb => ?_⟩
  · rw [← (h.inv.addr_bounds hv).2.2]
    exact (hc v.addr (List.mem_map_of_mem hv) ((hcount v hv).trans hlen)).1
  · rw [← (h.inv.addr_bounds hv).2.2]
    refine (hc v.addr (List.mem_map_of_mem hv) ((hcount v hv).trans hlen)).2 w.addr
      (List.mem_map_of_mem hw) ?_ w.free (h.inv.freeList w hw) b hb
    rw [hcount w hw]
    exact hne

namespace SlabState.Good

variable {s s' : SlabState ρ} {view : Nat → CacheView} {fuel : Nat}

/-- What a clean reap does to the state of its cache. -/
theorem reap (hA : A.Lawful U Holds) (h : s.Good Holds F view) {i : Nat} {flags : SlabFlags}
    (hclean : (SlabOp.reap i flags).Clean s) (he : s.exec A fuel (.reap i flags) = some s') :
    ∃ c, s.caches[i]? = some c ∧ s'.caches = s.caches ∧
      s'.Good Holds (F \ reapedFrames (view i).max (view i).slabs)
        (Function.update view i ⟨(view i).max,
          (view i).frames \ reapedFrames (view i).max (view i).slabs,
          reapedList (view i).max (view i).slabs⟩) := by
  obtain ⟨c, hc, he⟩ := Option.bind_eq_some_iff.mp he
  split at he
  · simp at he
  · rename_i k hok
    obtain rfl := Option.some.inj he
    have hci := h.cache i c hc
    obtain ⟨hst, heff, -⟩ :=
      slabCacheReap_clean hA hci (hci.reapClean (hclean c _ hc hci.listed)) hok
    refine ⟨c, hc, rfl, ?_⟩
    have hgood := h.update (v := ⟨(view i).max, _, _⟩) hc hst heff
    rwa [set_same_live hc] at hgood

theorem step_clean (hA : A.Lawful U Holds) (h : s.Good Holds F view) {op : SlabOp}
    (hclean : op.Clean s) (he : s.exec A fuel op = some s') :
    ∃ F' view', s'.Good Holds F' view' := by
  by_cases hreap : ∃ i flags, op = .reap i flags
  · obtain ⟨i, flags, rfl⟩ := hreap
    obtain ⟨c, -, -, hgood⟩ := h.reap hA hclean he
    exact ⟨_, _, hgood⟩
  · obtain ⟨F', view', hgood, -⟩ :=
      h.step hA (fun i flags ho => absurd ⟨i, flags, ho⟩ hreap) he
    exact ⟨F', view', hgood⟩

/-- Every state of a run with clean reaps only is valid. -/
theorem run_clean (hA : A.Lawful U Holds) (h : s.Good Holds F view) {ops : List SlabOp}
    (hclean : s.CleanRun A fuel ops) (hr : s.run A fuel ops = some s') :
    ∃ F' view', s'.Good Holds F' view' := by
  induction ops generalizing s F view with
  | nil =>
    obtain rfl := Option.some.inj hr
    exact ⟨F, view, h⟩
  | cons op ops ih =>
    obtain ⟨s1, he, hr⟩ := Option.bind_eq_some_iff.mp hr
    obtain ⟨F1, view1, h1⟩ := h.step_clean hA hclean.1 he
    exact ih h1 (hclean.2 s1 he) hr

end SlabState.Good

end ApoptOS
