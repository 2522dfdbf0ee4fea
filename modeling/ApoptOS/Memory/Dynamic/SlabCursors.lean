import ApoptOS.Memory.Dynamic.SlabLockstep
import ApoptOS.Memory.Dynamic.SlabDestroy
import ApoptOS.Memory.Physical.PmmOblivious

namespace ApoptOS

open Framework

/-- The operations on a cache. -/
inductive CacheOp where
  | grow (count : Nat) (flags : SlabFlags)
  | alloc (flags : SlabFlags)
  | free (pointer : Nat) (flags : SlabFlags)
  | reap (flags : SlabFlags)
  | destroy (flags : SlabFlags)
  | dump (flags : SlabFlags)
  deriving DecidableEq

/-- What comes back: a pointer, the printed lines, or nothing. `destroyed` tells whether
`slab_cache_destroy` got as far as giving back the cache itself. -/
inductive CacheResult where
  | done
  | pointer (p : Nat)
  | destroyed (cacheGone : Bool)
  | printed (lines : List DebugLine)
  deriving DecidableEq

variable {ρ : Type}

/-- Callers free slots of slabs. -/
def CacheOp.Valid (U : Set Nat) (cache size : Nat) : CacheOp → Prop
  | .free pointer _ => IsSlot size (slabFrames U cache) pointer
  | _ => True

def CacheOp.exec (A : PageFrames ρ) (fuel cache : Nat) (k : Kernel ρ) :
    CacheOp → Except Halt (CacheResult × Kernel ρ)
  | .grow count flags => (slabCacheGrow A k cache count flags).map (fun k => (.done, k))
  | .alloc flags => (slabCacheAlloc A fuel k cache flags).map (fun r => (.pointer r.1, r.2))
  | .free pointer flags =>
    (slabCacheFree fuel k cache pointer flags).map (fun k => (.done, k))
  | .reap flags => (slabCacheReap A fuel k cache flags).map (fun k => (.done, k))
  | .destroy flags => (slabCacheDestroy A fuel k cache flags).map (fun r => (.destroyed r.1, r.2))
  | .dump flags => (slabCacheDump fuel k cache flags).map (fun r => (.printed r.1, r.2))

/-- Operations one after the other, until the kernel halts or the cache is gone: their results,
and how it ended. -/
def runCache (A : PageFrames ρ) (fuel cache : Nat) :
    List CacheOp → Kernel ρ → List CacheResult × Except Halt (Kernel ρ)
  | [], k => ([], .ok k)
  | op :: ops, k =>
    match op.exec A fuel cache k with
    | .error e => ([], .error e)
    | .ok (r, k) =>
      if r = .destroyed true then ([r], .ok k)
      else
        let rest := runCache A fuel cache ops k
        (r :: rest.1, rest.2)

variable {A : PageFrames ρ} {U : Set Nat} {Busy : Mem → ρ → Nat → Prop}
  {k k' k1 : Kernel ρ} {cache size fuel n s : Nat} {S B C : Set Nat} {flags : SlabFlags}
  {op : CacheOp} {ops pre post : List CacheOp} {rs : List CacheResult} {slabs l : List Nat}

/-- The slab list and the free lists end; no free list is longer than `n`. -/
structure ListsEnd (k : Kernel ρ) (cache n : Nat) (slabs : List Nat) : Prop where
  listed : ListedSlabs k cache slabs
  free : ∀ s ∈ slabs, ∃ l : List Nat, Chain k.bufctlNext 0 (k.slabFreelistHead s) l ∧
    l.length ≤ n

section Returns

theorem Laid.twins (h : Laid U Busy cache size S B k) :
    Twins U Busy cache size S B ∅ k k :=
  ⟨h, Twin.refl _ _, Set.empty_subset _⟩

/-- The free lists of the slabs in both kernels, ends included. -/
theorem Twins.freeLists (h : Twins U Busy cache size S B C k k') (hslabs : ∀ s ∈ slabs, s ∈ S)
    (hfree : ∀ s ∈ slabs, ∃ l : List Nat, Chain k.bufctlNext 0 (k.slabFreelistHead s) l ∧
      l.length ≤ n) :
    ∀ s ∈ slabs, ∃ l : List Nat, Chain k'.bufctlNext 0 (k'.slabFreelistHead s) l ∧
      l.length ≤ n := by
  intro s hs
  obtain ⟨l, hchain, hlen⟩ := hfree s hs
  have hinside := hchain.subset_of_closed (h.laid.freelistHead (hslabs s hs))
    (fun a ha => h.laid.bufctlNext ha)
  rw [h.slabFreelistHead (hslabs s hs)]
  exact ⟨l, hchain.congr (fun a ha => h.bufctlNext (hinside a ha)), hlen⟩

theorem dumpBufctls_returns (hA : A.Oblivious U Busy) (h : Laid U Busy cache size S B k)
    (hs : s ∈ S) (hcur : CursorsAt k cache B s) (hl : Chain k.bufctlNext 0 (k.slabFreelist s) l)
    (hfuel : l.length < fuel) (n : Nat) : ∃ r, dumpBufctls cache fuel n k = .ok r := by
  induction l generalizing k fuel n with
  | nil =>
    obtain ⟨m, rfl⟩ : ∃ m, fuel = m + 1 := ⟨fuel - 1, by omega⟩
    have h0 : k.slabFreelist s = 0 := hl
    exact ⟨([], k), by simp only [dumpBufctls, hcur.1, h0, if_true]⟩
  | cons b l ih =>
    rw [List.length_cons] at hfuel
    obtain ⟨m, rfl⟩ : ∃ m, fuel = m + 1 := ⟨fuel - 1, by omega⟩
    obtain ⟨hb, hb0, htail⟩ := hl
    have hbB : b ∈ B := by
      have hbB := hcur.2
      rw [hb] at hbB
      exact hbB.resolve_left hb0
    have hnext := h.bufctlNext hbB
    obtain ⟨hcur1, hval⟩ := CursorsAt.setSlabFreelist hA h hs hcur.1 hnext
    have h1 := (h.twins.setSlabFreelist hA hs (k.bufctlNext b)).laid
    have hinside := htail.subset_of_closed hnext (fun a ha => h.bufctlNext ha)
    obtain ⟨hmod, -⟩ := h.slabs s hs
    have hkeep : ∀ a ∈ l, (k.setSlabFreelist s (k.bufctlNext b)).bufctlNext a =
        k.bufctlNext a := by
      intro a ha
      have hslot := h.bufctls a (hinside a ha)
      have ho := hslot.offset h.sizeBounds.1
      exact h.load_other (h.slabPlace hs (by decide) (by decide)) (Or.inr (Or.inr hslot))
        (by omega) _
    obtain ⟨r, hr⟩ := ih h1 hcur1 (by rw [hval]; exact htail.congr hkeep)
      (show l.length < m by omega) (n + 1)
    simp only [dumpBufctls, hcur.1, hb, hb0, if_false, hr]
    exact ⟨_, rfl⟩

theorem dumpSlabs_returns (hA : A.Oblivious U Busy) (h : Laid U Busy cache size S B k)
    (hc : k.cacheSlabs cache = 0 ∨ k.cacheSlabs cache ∈ S)
    (hl : Chain k.slabNext 0 (k.cacheSlabs cache) slabs)
    (hfree : ∀ s ∈ slabs, ∃ l : List Nat, Chain k.bufctlNext 0 (k.slabFreelistHead s) l ∧
      l.length ≤ n) (hfuel : slabs.length + n < fuel) (i : Nat) :
    ∃ r, dumpSlabs cache fuel i k = .ok r := by
  induction slabs generalizing k fuel i with
  | nil =>
    obtain ⟨m, rfl⟩ : ∃ m, fuel = m + 1 := ⟨fuel - 1, by omega⟩
    have h0 : k.cacheSlabs cache = 0 := hl
    exact ⟨([], k), by simp only [dumpSlabs, h0, if_true]⟩
  | cons s slabs ih =>
    rw [List.length_cons] at hfuel
    obtain ⟨m, rfl⟩ : ∃ m, fuel = m + 1 := ⟨fuel - 1, by omega⟩
    obtain ⟨hs, hs0, htail⟩ := hl
    have hsS : s ∈ S := by
      rw [hs] at hc
      exact hc.resolve_left hs0
    obtain ⟨hmod, hf⟩ := h.slabs s hsS
    obtain ⟨l, hchain, hlen⟩ := hfree s (by simp)
    have hhead := h.freelistHead hsS
    obtain ⟨hcur1, hval⟩ := CursorsAt.setSlabFreelist hA h hsS hs hhead
    have h1 := h.twins.setSlabFreelist hA hsS (k.slabFreelistHead s)
    have hwrite : Twin (cursors U cache) k (k.setSlabFreelist s (k.slabFreelistHead s)) :=
      (Twin.refl _ k).store64_right _ (Or.inr ⟨by omega,
        by rwa [show (s + 32) / 4096 = s / 4096 by omega]⟩)
    have hw1 : Twins U Busy cache size S B (cursors U cache) k
        (k.setSlabFreelist s (k.slabFreelistHead s)) := ⟨h, hwrite, subset_rfl⟩
    have hinside := hchain.subset_of_closed hhead (fun a ha => h.bufctlNext ha)
    obtain ⟨⟨lines, k2⟩, hd⟩ := dumpBufctls_returns hA h1.laid hsS hcur1
      (by rw [hval]; exact hchain.congr (fun a ha => hw1.bufctlNext (hinside a ha)))
      (show l.length < m by omega) 0
    have hboth := dumpBufctls_twins m 0 hA h1 hsS (fun hin => hin.1) (fun hin => hin.1) hcur1
    rw [hd] at hboth
    obtain ⟨r', -, -, h2, hcs, htw⟩ := hboth.of_ok
    obtain ⟨h3, hc3⟩ := h2.moveCursor hA (h2.laid.slabNext hsS)
    have hw2 : Twins U Busy cache size S B (cursors U cache) k
        (k2.setCacheSlabs cache (k2.slabNext s)) :=
      ⟨h, (hwrite.trans htw).store64_right _ (Or.inl rfl), subset_rfl⟩
    have hval3 : (k2.setCacheSlabs cache (k2.slabNext s)).cacheSlabs cache = k.slabNext s := by
      have hnext : k2.slabNext s = k.slabNext s := by
        have hw : Twins U Busy cache size S B (cursors U cache) k k2 :=
          ⟨h, hwrite.trans htw, subset_rfl⟩
        exact hw.slabNext hsS
      rw [hnext]
      exact (Mem.load64_store64_same _ _ _).trans (h.slab_lt hA (h.slabNext hsS))
    have hslabs := htail.subset_of_closed (h.slabNext hsS) (fun a ha => h.slabNext ha)
    have hrest : Chain (k2.setCacheSlabs cache (k2.slabNext s)).slabNext 0
        ((k2.setCacheSlabs cache (k2.slabNext s)).cacheSlabs cache) slabs := by
      rw [hval3]
      exact htail.congr (fun a ha => hw2.slabNext (hslabs a ha))
    have hfrees := hw2.freeLists hslabs (fun t ht => hfree t (List.mem_cons_of_mem _ ht))
    obtain ⟨r, hr⟩ := ih h3.laid hc3 hrest hfrees (show slabs.length + n < m by omega) (i + 1)
    simp only [dumpSlabs, hs, hs0, if_false, hd, hcs, hr]
    exact ⟨_, rfl⟩

/-- Lists that end are dumped to their end. -/
theorem slabCacheDump_returns (hA : A.Oblivious U Busy) (h : Laid U Busy cache size S B k)
    (hends : ListsEnd k cache n slabs) (hflags : flags.panic = true → slabs ≠ [])
    (hfuel : slabs.length + n < fuel) : ∃ r, slabCacheDump fuel k cache flags = .ok r := by
  obtain ⟨hstart, hc⟩ := h.twins.start hA
  have hwrite : Twins U Busy cache size S B (cursors U cache) k
      (k.setCacheSlabs cache (k.cacheSlabsHead cache)) :=
    ⟨h, (Twin.refl _ k).store64_right _ (Or.inl rfl), subset_rfl⟩
  have hval : (k.setCacheSlabs cache (k.cacheSlabsHead cache)).cacheSlabs cache =
      k.cacheSlabsHead cache :=
    (Mem.load64_store64_same _ _ _).trans (h.slab_lt hA h.slabsHead)
  have hslabs := hends.listed.subset_of_closed h.slabsHead (fun a ha => h.slabNext ha)
  have hlist : Chain (k.setCacheSlabs cache (k.cacheSlabsHead cache)).slabNext 0
      ((k.setCacheSlabs cache (k.cacheSlabsHead cache)).cacheSlabs cache) slabs := by
    rw [hval]
    exact Chain.congr hends.listed (fun a ha => hwrite.slabNext (hslabs a ha))
  obtain ⟨r, hr⟩ := dumpSlabs_returns hA hstart.laid hc hlist
    (hwrite.freeLists hslabs hends.free) hfuel 0
  simp only [slabCacheDump, hval, hr]
  by_cases h0 : k.cacheSlabsHead cache = 0
  · have hnil : slabs = [] := (Chain.eq_nil_iff hends.listed).mpr h0
    have hp : ¬ (k.cacheSlabsHead cache = 0 ∧ flags.panic = true) := fun hp => hflags hp.2 hnil
    rw [if_neg hp, if_pos h0]
    exact ⟨_, rfl⟩
  · rw [if_neg (fun hp => h0 hp.1), if_neg h0]
    exact ⟨_, rfl⟩

end Returns

section Runs

/-- One operation in both kernels. -/
theorem CacheOp.exec_twins (fuel : Nat) (hA : A.Oblivious U Busy)
    (h : Twins U Busy cache size S B C k k') (hop : op.Valid U cache size) :
    Both (fun r r' => r'.1 = r.1 ∧ Twin C r.2 r'.2 ∧
        (r.1 ≠ .destroyed true → Paired U Busy cache size C r.2 r'.2))
      (op.exec A fuel cache k) (op.exec A fuel cache k') := by
  have keep : ∀ {k k' : Kernel ρ}, Paired U Busy cache size C k k' → Twin C k k' :=
    fun ⟨_, _, hp⟩ => hp.twin
  cases op with
  | grow count flags =>
    refine (slabCacheGrow_twins hA flags count h).map (fun r r' hr => ?_)
    have hr := hr.mono Set.sdiff_subset h.within
    exact ⟨rfl, keep hr, fun _ => hr⟩
  | alloc flags =>
    refine (slabCacheAlloc_twins hA flags fuel h).map (fun r r' hr => ?_)
    exact ⟨congrArg CacheResult.pointer hr.1, keep hr.2, fun _ => hr.2⟩
  | free pointer flags =>
    refine (slabCacheFree_twins hA flags fuel h hop).map (fun r r' hr => ?_)
    exact ⟨rfl, keep hr, fun _ => hr⟩
  | reap flags =>
    refine (slabCacheReap_twins hA flags fuel h).map (fun r r' hr => ?_)
    exact ⟨rfl, keep hr, fun _ => hr⟩
  | destroy flags =>
    refine (slabCacheDestroy_twins hA flags fuel h).map (fun r r' hr => ?_)
    refine ⟨congrArg CacheResult.destroyed hr.1, hr.2.1, fun hgone => hr.2.2 ?_⟩
    cases hb : r.1 with
    | false => rfl
    | true => exact absurd (by rw [hb]) hgone
  | dump flags =>
    refine (slabCacheDump_twins hA flags fuel h).map (fun r r' hr => ?_)
    exact ⟨congrArg CacheResult.printed hr.1, keep hr.2.1, fun _ => hr.2.1⟩

theorem runCache_twins (fuel : Nat) (hA : A.Oblivious U Busy)
    (h : Twins U Busy cache size S B C k k') (hops : ∀ op ∈ ops, op.Valid U cache size) :
    (runCache A fuel cache ops k').1 = (runCache A fuel cache ops k).1 ∧
      Both (Twin C) (runCache A fuel cache ops k).2 (runCache A fuel cache ops k').2 := by
  induction ops generalizing k k' S B with
  | nil => exact ⟨rfl, .ok h.twin⟩
  | cons op ops ih =>
    have hboth := CacheOp.exec_twins fuel hA h (hops op (by simp))
    rcases he : op.exec A fuel cache k with e | ⟨r, k1⟩
    · rw [he] at hboth
      simp only [runCache, he, hboth.of_error]
      exact ⟨trivial, .error e⟩
    · rw [he] at hboth
      obtain ⟨⟨r', k1'⟩, he', rfl, htw, hpaired⟩ := hboth.of_ok
      simp only [runCache, he, he']
      by_cases hgone : r' = .destroyed true
      · rw [if_pos hgone, if_pos hgone]
        exact ⟨rfl, .ok htw⟩
      · obtain ⟨S', B', h1⟩ := hpaired hgone
        obtain ⟨hresults, hends⟩ := ih h1 (fun op hop => hops op (List.mem_cons_of_mem _ hop))
        rw [if_neg hgone, if_neg hgone]
        exact ⟨by rw [hresults], hends⟩

/-- Operations keep the layout, whatever they are. -/
theorem runCache_laid (hA : A.Oblivious U Busy) (h : Laid U Busy cache size S B k)
    (hops : ∀ op ∈ ops, op.Valid U cache size)
    (hrun : runCache A fuel cache ops k = (rs, .ok k1)) (hgone : .destroyed true ∉ rs) :
    ∃ S' B', Laid U Busy cache size S' B' k1 := by
  induction ops generalizing k S B rs with
  | nil =>
    obtain ⟨-, hk⟩ := Prod.mk.inj hrun
    obtain rfl := Except.ok.inj hk
    exact ⟨S, B, h⟩
  | cons op ops ih =>
    have hboth := CacheOp.exec_twins fuel hA h.twins (hops op (by simp))
    rcases he : op.exec A fuel cache k with e | ⟨r, k2⟩
    · simp only [runCache, he] at hrun
      simp at hrun
    · rw [he] at hboth
      obtain ⟨_, _, _, _, hpaired⟩ := hboth.of_ok
      simp only [runCache, he] at hrun
      by_cases hr : r = .destroyed true
      · rw [if_pos hr] at hrun
        obtain ⟨rfl, -⟩ := Prod.mk.inj hrun
        exact absurd (by simp [hr]) hgone
      · rw [if_neg hr] at hrun
        obtain ⟨rfl, hk⟩ := Prod.mk.inj hrun
        obtain ⟨S', B', h1⟩ := hpaired hr
        exact ih h1.laid (fun op hop => hops op (List.mem_cons_of_mem _ hop))
          (Prod.ext rfl hk) (fun hin => hgone (List.mem_cons_of_mem _ hin))

/-- A run that comes back with the cache alive can be continued. -/
theorem runCache_append (hrun : runCache A fuel cache pre k = (rs, .ok k1))
    (hgone : .destroyed true ∉ rs) (post : List CacheOp) :
    runCache A fuel cache (pre ++ post) k =
      (rs ++ (runCache A fuel cache post k1).1, (runCache A fuel cache post k1).2) := by
  induction pre generalizing k rs with
  | nil =>
    obtain ⟨rfl, hk⟩ := Prod.mk.inj hrun
    obtain rfl := Except.ok.inj hk
    rfl
  | cons op ops ih =>
    rcases he : op.exec A fuel cache k with e | ⟨r, k2⟩
    · simp only [runCache, he] at hrun
      simp at hrun
    · simp only [runCache, he] at hrun
      by_cases hr : r = .destroyed true
      · rw [if_pos hr] at hrun
        obtain ⟨rfl, -⟩ := Prod.mk.inj hrun
        exact absurd (by simp [hr]) hgone
      · rw [if_neg hr] at hrun
        obtain ⟨rfl, hk⟩ := Prod.mk.inj hrun
        have hrest := ih (Prod.ext rfl hk) (fun hin => hgone (List.mem_cons_of_mem _ hin))
        simp only [List.cons_append, runCache, he, if_neg hr, hrest]

/-- A run that halts, or destroys the cache, is not continued. -/
theorem runCache_over (hrun : (∃ e, (runCache A fuel cache pre k).2 = .error e) ∨
      .destroyed true ∈ (runCache A fuel cache pre k).1) (post : List CacheOp) :
    runCache A fuel cache (pre ++ post) k = runCache A fuel cache pre k := by
  induction pre generalizing k with
  | nil =>
    rcases hrun with ⟨e, he⟩ | hin
    · simp [runCache] at he
    · simp [runCache] at hin
  | cons op ops ih =>
    simp only [List.cons_append, runCache] at hrun ⊢
    rcases he : op.exec A fuel cache k with e | ⟨r, k2⟩
    · rfl
    · simp only [he] at hrun
      by_cases hr : r = .destroyed true
      · simp only [if_pos hr]
      · simp only [if_neg hr] at hrun ⊢
        have hrest : (∃ e, (runCache A fuel cache ops k2).2 = .error e) ∨
            .destroyed true ∈ (runCache A fuel cache ops k2).1 :=
          hrun.imp_right (fun hin => (List.mem_cons.mp hin).resolve_left (fun h => hr h.symm))
        rw [ih hrest]

end Runs

/-- A dump between `pre` and `post`, where `pre` gave the results `rs` and led to `k1`: if it
comes back, every later result is what it would have been, and the two final states differ in
cursors only. It does come back if the lists end, unless `SLAB_PANIC` finds no slab. -/
structure DumpUnseen (A : PageFrames ρ) (U : Set Nat) (fuel cache : Nat) (flags : SlabFlags)
    (k : Kernel ρ) (pre post : List CacheOp) (rs : List CacheResult) (k1 : Kernel ρ) : Prop where
  unseen : ∀ lines k2, slabCacheDump fuel k1 cache flags = .ok (lines, k2) →
    ∃ later, (runCache A fuel cache (pre ++ post) k).1 = rs ++ later ∧
      (runCache A fuel cache (pre ++ .dump flags :: post) k).1 = rs ++ .printed lines :: later ∧
      Both (Twin (cursors U cache)) (runCache A fuel cache (pre ++ post) k).2
        (runCache A fuel cache (pre ++ .dump flags :: post) k).2
  halted : ∀ e, slabCacheDump fuel k1 cache flags = .error e →
    runCache A fuel cache (pre ++ .dump flags :: post) k = (rs, .error e)
  returns : ∀ n slabs, ListsEnd k1 cache n slabs → (flags.panic = true → slabs ≠ []) →
    slabs.length + n < fuel → ∃ r, slabCacheDump fuel k1 cache flags = .ok r

theorem Laid.dumpUnseen (hA : A.Oblivious U Busy) (h : Laid U Busy cache size S B k)
    (flags : SlabFlags) (hops : ∀ op ∈ pre ++ post, op.Valid U cache size)
    (hrun : runCache A fuel cache pre k = (rs, .ok k1)) (hgone : .destroyed true ∉ rs) :
    DumpUnseen A U fuel cache flags k pre post rs k1 := by
  have hpre : ∀ op ∈ pre, op.Valid U cache size := fun op hop => hops op (by simp [hop])
  have hpost : ∀ op ∈ post, op.Valid U cache size := fun op hop => hops op (by simp [hop])
  obtain ⟨S', B', h1⟩ := runCache_laid hA h hpre hrun hgone
  have hdump := runCache_append hrun hgone (.dump flags :: post)
  have hplain := runCache_append hrun hgone post
  refine ⟨fun lines k2 hok => ?_, fun e herr => ?_, fun n slabs hends hflags hfuel =>
    slabCacheDump_returns hA h1 hends hflags hfuel⟩
  · have hboth := slabCacheDump_twins hA flags fuel h1.twins
    rw [hok] at hboth
    obtain ⟨_, _, _, _, htw⟩ := hboth.of_ok
    obtain ⟨hresults, hends⟩ := runCache_twins fuel hA ⟨h1, htw, subset_rfl⟩ hpost
    have hexec : runCache A fuel cache (.dump flags :: post) k1 =
        (.printed lines :: (runCache A fuel cache post k2).1,
          (runCache A fuel cache post k2).2) := by
      simp [runCache, CacheOp.exec, hok, Except.map]
    rw [hdump, hplain, hexec, hresults]
    exact ⟨_, rfl, rfl, hends⟩
  · rw [hdump]
    simp [runCache, CacheOp.exec, herr, Except.map]

/-- The scratch cursors carry no state. For any two kernels whose cache differs in cursors `C`
only, every operation gives the same result or halts in the same way, makes the same calls to
the frame allocator and leaves kernels that differ in `C` only. So a dump may be inserted
anywhere in a sequence of operations: nothing after it can tell. -/
theorem slab_cursors_carry_no_state (A : PageFrames ρ) (U : Set Nat)
    (Busy : Mem → ρ → Nat → Prop) (hA : A.Oblivious U Busy) (cache size : Nat)
    (S B : Set Nat) (k : Kernel ρ) (h : Laid U Busy cache size S B k) (fuel : Nat) :
    (∀ C ⊆ cursors U cache, ∀ k', Twin C k k' → ∀ op : CacheOp, op.Valid U cache size →
      Both (fun r r' => r'.1 = r.1 ∧ Twin C r.2 r'.2) (op.exec A fuel cache k)
        (op.exec A fuel cache k')) ∧
    ∀ pre post flags, (∀ op ∈ pre ++ post, op.Valid U cache size) →
      (∀ rs k1, runCache A fuel cache pre k = (rs, .ok k1) → .destroyed true ∉ rs →
        DumpUnseen A U fuel cache flags k pre post rs k1) ∧
      ((∃ e, (runCache A fuel cache pre k).2 = .error e) ∨
          .destroyed true ∈ (runCache A fuel cache pre k).1 →
        runCache A fuel cache (pre ++ .dump flags :: post) k =
          runCache A fuel cache (pre ++ post) k) := by
  refine ⟨fun C hC k' htwin op hop => ?_, fun pre post flags hops => ⟨?_, fun hover => ?_⟩⟩
  · exact (CacheOp.exec_twins fuel hA ⟨h, htwin, hC⟩ hop).mono
      (fun r r' hr => ⟨hr.1, hr.2.1⟩)
  · exact fun rs k1 hrun hgone => h.dumpUnseen hA flags hops hrun hgone
  · rw [runCache_over hover, runCache_over hover]

/-- A new cache with a stray cursor allocates as usual, and a dump between two allocations is not
noticed. -/
theorem slab_cursors_carry_no_state_smallMap : ∃ k,
    slabCacheCreate pmmFrames (bootKernel smallMap) 0 512 noFlags = .ok (0x2000, k) ∧
    Both (fun r r' => r'.1 = r.1 ∧ Twin {0x2020} r.2 r'.2)
      (CacheOp.exec pmmFrames 9 0x2000 k (.alloc noFlags))
      (CacheOp.exec pmmFrames 9 0x2000 (k.setCacheSlabs 0x2000 1) (.alloc noFlags)) ∧
    ∃ lines later,
      (runCache pmmFrames 9 0x2000 [.alloc noFlags, .alloc noFlags] k).1 =
        [.pointer 0x3000] ++ later ∧
      (runCache pmmFrames 9 0x2000 [.alloc noFlags, .dump noFlags, .alloc noFlags] k).1 =
        [.pointer 0x3000] ++ .printed lines :: later := by
  have heval : ((slabCacheCreate pmmFrames (bootKernel smallMap) 0 512 noFlags).toOption.bind
      (fun r => (runCache pmmFrames 9 0x2000 [.alloc noFlags] r.2).2.toOption.bind
        (fun k1 => (slabCacheDump 9 k1 0x2000 noFlags).toOption.map
          (fun _ => (r.1, (runCache pmmFrames 9 0x2000 [.alloc noFlags] r.2).1))))) =
      some (0x2000, [.pointer 0x3000]) := by decide +kernel
  obtain ⟨⟨cache, k⟩, hcreate, hrest⟩ := Option.bind_eq_some_iff.mp heval
  obtain ⟨k1, hrun, hrest⟩ := Option.bind_eq_some_iff.mp hrest
  obtain ⟨⟨lines, k2⟩, hdump, hwords⟩ := Option.map_eq_some_iff.mp hrest
  obtain ⟨rfl, hresults⟩ := Prod.mk.inj hwords
  have hcreate := ok_of_toOption hcreate
  obtain ⟨U, Holds, Busy, hA, hO, hbusy, hF⟩ :=
    bootKernel_oblivious smallMap_ok smallMap_frames_le (by decide)
  rcases slabCacheCreate_spec hA hF hcreate with ⟨h0, -⟩ | ⟨max, F, frames, slabs, hst, -⟩
  · exact absurd h0 (by decide)
  obtain ⟨hsame, hinsert⟩ := slab_cursors_carry_no_state pmmFrames U Busy hO 0x2000 512 _ _ k
    (hst.laid hA hbusy) 9
  have hcursor : ({0x2020} : Set Nat) ⊆ cursors U 0x2000 :=
    Set.singleton_subset_iff.mpr (Or.inl rfl)
  have htwin : Twin {0x2020} k (k.setCacheSlabs 0x2000 1) :=
    (Twin.refl _ k).store64_right _ rfl
  obtain ⟨later, hplain, hwith, -⟩ := ((hinsert [.alloc noFlags] [.alloc noFlags] noFlags
    (by simp [CacheOp.Valid])).1 [.pointer 0x3000] k1 (Prod.ext hresults (ok_of_toOption hrun))
    (by decide)).unseen lines k2 (ok_of_toOption hdump)
  exact ⟨k, hcreate, hsame _ hcursor _ htwin (.alloc noFlags) trivial, lines, later, hplain,
    hwith⟩

end ApoptOS
